import Literate.Template.Value
import Literate.Text.Class

/-! Layouts as trees: text and actions, and the expressions in the actions. -/

namespace Literate.Template

inductive Term where
  | dot
  | nothing
  /-- A text, a truth value or a number; `none` is a number too large to be used. -/
  | literal (v : Option Value)
  | field (path : List Text)
  | variable (name : Text) (path : List Text)
  | function (name : Text)
  /-- Commands in parentheses, with the variables that are given their value. -/
  | group (names : List Text) (assigns : Bool) (commands : List (List Term))
  | chain (of : Term) (path : List Text)
deriving Repr

/-- Commands, each of which is given the value of the one before, and the variables that get the
value of the last: new ones, or ones that are there already. -/
structure Pipeline where
  names : List Text
  assigns : Bool
  commands : List (List Term)
deriving Repr

inductive Node where
  | text (t : Text)
  | emit (p : Pipeline)
  | choose (p : Pipeline) (yes no : List Node)
  /-- A choice that makes its subject the data. -/
  | using (p : Pipeline) (yes no : List Node)
  | each (p : Pipeline) (body no : List Node)
  | embed (name : Text) (argument : Option Pipeline)
  /-- Ends a repetition. -/
  | leave
  /-- Ends one round of a repetition. -/
  | next
deriving Repr

def Node.isBlank : Node → Bool
  | .text t => (Text.runes t).all fun r => Text.isBlank r.char
  | _ => false

/-- Layouts by their names. -/
abbrev Layouts := List (Text × List Node)

namespace Layouts

/-- A layout says something if it has more than white space. -/
def isBlank (nodes : List Node) : Bool := nodes.all Node.isBlank

def put (name : Text) (nodes : List Node) (layouts : Layouts) : Layouts :=
  (name, nodes) :: layouts.filter fun (other, _) => other != name

/-- Adds a definition to those of the same text. A name may be defined twice if one of the
definitions is blank. -/
def define? (name : Text) (nodes : List Node) (layouts : Layouts) : Option Layouts :=
  match layouts.lookup name with
  | none => some (layouts.put name nodes)
  | some old =>
    if isBlank old then some (layouts.put name nodes)
    else if isBlank nodes then some layouts
    else none

/-- Takes over later definitions; a blank one replaces none. -/
def override (layouts later : Layouts) : Layouts :=
  later.foldl (fun all (name, nodes) =>
    if isBlank nodes ∧ (all.lookup name).isSome then all else all.put name nodes) layouts

end Layouts

end Literate.Template
