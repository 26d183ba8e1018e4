import Literate.Template.Layout
import Literate.Template.Token

/-! Reading layouts. A reader goes through the tokens of a text and keeps the variables in scope
and the definitions met so far. -/

namespace Literate.Template

/-- The functions that layouts may call. -/
def functionNames : List Text :=
  ["quote", "indent", "join", "and", "or", "not", "len", "index", "slice", "print", "printf",
    "println", "html", "js", "urlquery", "call", "eq", "ge", "gt", "le", "lt", "ne"]

structure Reading where
  tokens : List Token
  inScope : List Text := ["$"]
  layouts : Layouts := []

abbrev Read := StateT Reading Option

namespace Read

def refuse {α : Type} : Read α := fun _ => none

/-- The next token stays. -/
def peek : Read (Option Token) := do return (← get).tokens.head?

def skip : Read Unit := modify fun r => { r with tokens := r.tokens.drop 1 }

def skipSpaces : Read Unit :=
  modify fun r => { r with tokens := r.tokens.dropWhile fun | .space => true | _ => false }

/-- The next token that is no space stays. -/
def peekWord : Read (Option Token) := do skipSpaces; peek

/-- The token after the next one and after spaces. -/
def peekSecond : Read (Option Token) := do
  let after := (← get).tokens.drop 1
  return (after.dropWhile fun | .space => true | _ => false).head?

def declare (name : Text) : Read Unit :=
  modify fun r => { r with inScope := name :: r.inScope }

/-- Runs a reader in a scope of its own. -/
def within {α : Type} (read : Read α) : Read α := do
  let inScope := (← get).inScope
  let a ← read
  modify fun r => { r with inScope }
  return a

/-- Runs a reader with no variables but the data. -/
def apart {α : Type} (read : Read α) : Read α :=
  within do modify (fun r => { r with inScope := ["$"] }); read

def expectRight : Read Unit := do
  match ← peekWord with
  | some .right => skip
  | _ => refuse

def define (name : Text) (nodes : List Node) : Read Unit := do
  match (← get).layouts.define? name nodes with
  | some layouts => modify fun r => { r with layouts }
  | none => refuse

/-- A name in quotes. -/
def name : Read Text := do
  match ← peekWord with
  | some (.string t) => do skip; return t
  | _ => refuse

/-- The variables at the start of a pipeline, with how they get its value. A repetition may name
two. -/
def declarations (ranging : Bool) : Read (List Text × Bool) := do
  let one : Read (Option (Text × Option Token)) := do
    match ← peekWord with
    | some (.variable v) => return some (v, ← peekSecond)
    | _ => return none
  let take (v : Text) : Read Unit := do skip; skipSpaces; skip; declare v
  match ← one with
  | some (v, some .assign) => do take v; return ([v], true)
  | some (v, some .declare) => do take v; return ([v], false)
  | some (v, some .comma) =>
    if !ranging then refuse
    else do
      take v
      match ← one with
      | some (w, some .assign) => do take w; return ([v, w], true)
      | some (w, some .declare) => do take w; return ([v, w], false)
      | some (_, some .comma) => refuse
      | some _ => return ([v], false)
      | none => refuse
  | _ => return ([], false)

/-- The names of fields right after a term. -/
def fieldPath : Nat → Read (List Text)
  | 0 => return []
  | fuel + 1 => do
    match ← peek with
    | some (.field f) => do skip; return f :: (← fieldPath fuel)
    | _ => return []

/-- A term with fields after it. -/
def withPath (t : Term) (path : List Text) : Read Term :=
  if path = [] then return t
  else match t with
    | .field own => return .field (own ++ path)
    | .variable v own => return .variable v (own ++ path)
    | .function _ | .group _ _ _ | .chain _ _ => return .chain t path
    | .dot | .nothing | .literal _ => refuse

/-- Only the first command of a pipeline may be a plain value. -/
def isExecutable : List Term → Bool
  | [] => false
  | t :: _ => match t with
    | .dot | .nothing | .literal _ => false
    | _ => true

mutual

/-- A pipeline up to a closing delimiter, or up to a parenthesis. -/
def pipeline (ranging grouped : Bool) : Nat → Read Pipeline
  | 0 => refuse
  | fuel + 1 => do
    let (names, assigns) ← declarations ranging
    let cs ← commands grouped fuel
    if cs = [] ∨ !(cs.drop 1).all isExecutable then refuse
    else return ⟨names, assigns, cs⟩

def commands (grouped : Bool) : Nat → Read (List (List Term))
  | 0 => refuse
  | fuel + 1 => do
    match ← peekWord with
    | some .right => if grouped then refuse else do skip; return []
    | some .closing => if grouped then do skip; return [] else refuse
    | none | some .pipe => refuse
    | some _ => do
      let c ← command fuel
      if c = [] then refuse else return c :: (← commands grouped fuel)

/-- The terms of a command, with spaces between them. -/
def command : Nat → Read (List Term)
  | 0 => refuse
  | fuel + 1 => do
    skipSpaces
    let own := (← operand fuel).toList
    match ← peek with
    | some .space => return own ++ (← command fuel)
    | some .right | some .closing => return own
    | some .pipe => do skip; return own
    | _ => refuse

/-- A term with its fields, if one is next. -/
def operand : Nat → Read (Option Term)
  | 0 => refuse
  | fuel + 1 => do
    let plain (t : Term) : Read (Option Term) := do
      skip
      return some (← withPath t (← fieldPath (← get).tokens.length))
    match ← peek with
    | some (.identifier f) => if functionNames.contains f then plain (.function f) else refuse
    | some .dot => plain .dot
    | some .nothing => plain .nothing
    | some (.literal v) => plain (.literal v)
    | some (.string t) => plain (.literal (some (.text t)))
    | some (.field f) => plain (.field [f])
    | some (.variable v) =>
      if (← get).inScope.contains v then plain (.variable v []) else refuse
    | some .opening => do
      skip
      let p ← pipeline false true fuel
      let t := Term.group p.names p.assigns p.commands
      return some (← withPath t (← fieldPath (← get).tokens.length))
    | _ => return none

end

/-- What ends a sequence of nodes. -/
inductive Ending where
  | done
  | otherwise

/-- A node, or the end of a sequence of nodes. -/
abbrev Item := Except Ending Node

mutual

/-- The nodes up to what ends them. Inside a repetition one may leave it. -/
def items (looping : Bool) : Nat → Read (List Node × Ending)
  | 0 => refuse
  | fuel + 1 => do
    match ← item looping fuel with
    | .error ending => return ([], ending)
    | .ok node => do
      let (nodes, ending) ← items looping fuel
      return (node :: nodes, ending)

def item (looping : Bool) : Nat → Read Item
  | 0 => refuse
  | fuel + 1 => do
    match ← peekWord with
    | some (.text t) => do skip; return .ok (.text t)
    | some .left => do skip; action looping fuel
    | _ => refuse

/-- An action after its opening delimiter. -/
def action (looping : Bool) : Nat → Read Item
  | 0 => refuse
  | fuel + 1 => do
    match ← peekWord with
    | some (.keyword k) => do
      skip
      match k with
      | .done => do expectRight; return .error .done
      | .otherwise =>
        match ← peekWord with
        | some (.keyword .choose) | some (.keyword .using) => return .error .otherwise
        | _ => do expectRight; return .error .otherwise
      | .leave => do expectRight; if looping then return .ok .leave else refuse
      | .next => do expectRight; if looping then return .ok .next else refuse
      | .define => refuse
      | .embed => do
        let layout ← name
        match ← peekWord with
        | some .right => do skip; return .ok (.embed layout none)
        | _ => return .ok (.embed layout (some (← pipeline false false fuel)))
      | .block => do
        let layout ← name
        let p ← pipeline false false fuel
        match ← apart (items false fuel) with
        | (nodes, .done) => do define layout nodes; return .ok (.embed layout (some p))
        | (_, .otherwise) => refuse
      | .choose | .using | .each => return .ok (← control looping k fuel)
    | _ => return .ok (.emit (← pipeline false false fuel))

/-- A choice or a repetition with its branches. -/
def control (looping : Bool) (k : Keyword) : Nat → Read Node
  | 0 => refuse
  | fuel + 1 => within do
    let p ← pipeline (k = .each) false fuel
    let (yes, ending) ← items (looping || k = .each) fuel
    let no : List Node ← match ending with
      | .done => pure []
      | .otherwise => otherwise looping k fuel
    match k with
    | .choose => return .choose p yes no
    | .using => return .using p yes no
    | _ => return .each p yes no

/-- A second branch. One that begins with the same choice needs no end of its own. -/
def otherwise (looping : Bool) (k : Keyword) : Nat → Read (List Node)
  | 0 => refuse
  | fuel + 1 => do
    match ← peek with
    | some (.keyword again) =>
      if again = k then do skip; return [← control looping k fuel] else refuse
    | _ =>
      match ← items looping fuel with
      | (no, .done) => return no
      | (_, .otherwise) => refuse

end

/-- All nodes of a layout that are not in definitions. -/
def body : Nat → Read (List Node)
  | 0 => refuse
  | fuel + 1 => do
    match ← peek, ← peekSecond with
    | none, _ => return []
    | some .left, some (.keyword .define) => do
      skip; skipSpaces; skip
      let layout ← name
      expectRight
      match ← apart (items false fuel) with
      | (nodes, .done) => do define layout nodes; body fuel
      | (_, .otherwise) => refuse
    | _, _ =>
      match ← item false fuel with
      | .ok node => return node :: (← body fuel)
      | .error _ => refuse

end Read

/-- Reads the text of a layout: the layout itself and all that are defined in it; `none` if it is
malformed. -/
def parse? (left right name t : Text) : Option Layouts :=
  match tokensOf? left right (t.length + 1) t with
  | none => none
  | some tokens =>
    let read : Read Unit := do
      let nodes ← Read.body (8 * tokens.length + 8)
      Read.define name nodes
    (read.run { tokens }).map fun (_, r) => r.layouts

end Literate.Template
