import Literate.Log.Level
import Literate.Json

/-! Log lines: how records are shown. A line has the level, the message and the attributes, as
words with an equals sign or as a JSON object. -/

namespace Literate.Log

/-- A source of records: attributes of its own, which stand in a group if that has a name. -/
structure Logger where
  group : Text := []
  common : List Attribute := []
deriving DecidableEq, Repr

namespace Console

structure Options where
  level : Level := info
  json : Bool := false
deriving DecidableEq, Repr

/-- A text that could be misread as several words, or that cannot be seen, is quoted. -/
def needsQuotes (t : Text) : Bool :=
  t.isEmpty || t.runes.any fun r =>
    let n := r.char.toNat
    if n < 0x80 then n ≤ 0x20 || r.char == '=' || r.char == '"'
    else r.char == Text.replacement || Text.isBlank r.char || !Text.isGraphic r.char

def word (t : Text) : Text := if needsQuotes t then Text.quoted t else t

/-- A key, behind the name of its group if it has one. -/
def keyWord (group key : Text) : Text :=
  if group = [] then word key
  else
    let lead := group ++ "."
    if needsQuotes lead || needsQuotes key then Text.quoted (lead ++ key) else lead ++ key

def pair (group : Text) (a : Attribute) : Text :=
  keyWord group a.1 ++ "=" ++ word a.2.display

def textLine (time : Option Text) (logger : Logger) (r : Record) : Text :=
  let stamp := match time with
    | some t => [("time" : Text) ++ "=" ++ t]
    | none => []
  Text.join " " (stamp ++ ["level=" ++ Level.name r.level, "msg=" ++ word r.message] ++
    (logger.common ++ r.attributes).map (pair logger.group))

def member (a : Attribute) : Text × Json :=
  (a.1, match a.2 with
    | .text t => .text t
    | .number n => .number n)

def jsonLine (time : Option Text) (logger : Logger) (r : Record) : Text :=
  let stamp : List (Text × Json) := match time with
    | some t => [("time", .text t)]
    | none => []
  let members := (logger.common ++ r.attributes).map member
  let grouped : List (Text × Json) :=
    if logger.group.isEmpty || members.isEmpty then members else [(logger.group, .object members)]
  let head : List (Text × Json) :=
    [("level", .text (Level.name r.level)), ("msg", .text r.message)]
  Json.render .log (.object (stamp ++ head ++ grouped))

/-- The line of a record, or none if its level is too low. -/
def line? (o : Options) (time : Option Text) (logger : Logger) (r : Record) : Option Text :=
  if r.level < o.level then none
  else some (if o.json then jsonLine time logger r else textLine time logger r)

def lines (o : Options) (rs : List Record) : List Text := rs.filterMap (line? o none {})

end Console

end Literate.Log
