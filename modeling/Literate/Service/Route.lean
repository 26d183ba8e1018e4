import Literate.Service.Target
import Literate.Path

/-! Routes: what a request asks for, by its method and its path. -/

namespace Literate.Service

/-- What can be asked of one web. -/
inductive Page where
  | chunks
  | crossReferences
  | document (markup : Text)
  | file (name : Text)
  | build
deriving DecidableEq, Repr

/-- Why a request leads nowhere: the path is not known, or it is known with other methods. -/
inductive Miss where
  | notFound
  | notAllowed (allowed : List Text)
deriving DecidableEq, Repr

inductive Route where
  | health
  | webs
  /-- Anything below a web. -/
  | web (name : Text) (page : Except Miss Page)
  | job (id : Text)
  | miss (m : Miss)

namespace Route

def methods : List Text :=
  ["CONNECT", "DELETE", "GET", "HEAD", "OPTIONS", "PATCH", "POST", "PUT", "TRACE"]

/-- A route that is there for one method only. -/
def only {α : Type} (wanted method : Text) (a : α) : Except Miss α :=
  if method = wanted then .ok a else .error (.notAllowed [wanted])

/-- A non-empty segment that ends a path. -/
def lastSegment? (t : Text) : Option Text :=
  if t = [] ∨ Path.slash ∈ t then none else some t

/-- The page that is named by a path below a web. -/
def page (method path : Text) : Except Miss Page :=
  if path = ("/chunks" : Text) then only "GET" method .chunks
  else if path = ("/xref" : Text) then only "GET" method .crossReferences
  else if path = ("/build" : Text) then only "POST" method .build
  else match Text.after? "/tangle/" path, (Text.after? "/weave/" path).bind lastSegment? with
    | some file, _ => only "GET" method (.file file)
    | none, some markup => only "GET" method (.document markup)
    | none, none => .error .notFound

def orMiss : Except Miss Route → Route
  | .ok r => r
  | .error m => .miss m

/-- Finds a route. A web is named by the segment after `/api/webs/`, which may be empty if more
follows. -/
def find (method path : Text) : Route :=
  let path : Text := if path = [] then "/" else path
  if method ∉ methods then .miss (.notAllowed [])
  else if path = ("/health" : Text) then orMiss (only "GET" method .health)
  else if path = ("/api/webs" : Text) then orMiss (only "GET" method .webs)
  else match Text.after? "/api/webs/" path, (Text.after? "/api/jobs/" path).bind lastSegment? with
    | some [], _ => .miss .notFound
    | some rest, _ =>
      let name := rest.takeWhile (· != Path.slash)
      .web name (page method (rest.drop name.length))
    | none, some id => orMiss (only "GET" method (.job id))
    | none, none => .miss .notFound

/-- A route that asks for the key, if there is one. -/
def isGuarded : Route → Bool
  | .health | .miss _ => false
  | _ => true

end Route

end Literate.Service
