import Literate.Markdown.Line
import Literate.Text.Fold

/-! Link destinations, titles and labels, and the definitions that give a label its link. -/

namespace Literate.Markdown

structure Target where
  destination : Text
  title : Option Text
deriving DecidableEq, Repr

/-- Takes bytes up to one that stops; a backslash before punctuation hides it. -/
def takeUntil (stops : UInt8 → Bool) : Text → Text × Text
  | [] => ([], [])
  | [b] => if stops b then ([], [b]) else ([b], [])
  | b :: c :: rest =>
    if stops b then ([], b :: c :: rest)
    else if b = 92 ∧ isPunct c then
      let (taken, after) := takeUntil stops rest
      (b :: c :: taken, after)
    else
      let (taken, after) := takeUntil stops (c :: rest)
      (b :: taken, after)

/-- Takes a destination without brackets; parentheses in it are balanced. -/
def takeBare (depth : Nat) : Text → Text × Text
  | [] => ([], [])
  | [b] => if isSpace b || (b == 41 && depth == 0) then ([], [b]) else ([b], [])
  | b :: c :: rest =>
    if b = 92 ∧ isPunct c then
      let (taken, after) := takeBare depth rest
      (b :: c :: taken, after)
    else if isSpace b || (b == 41 && depth == 0) then ([], b :: c :: rest)
    else
      let depth := if b = 40 then depth + 1 else if b = 41 then depth - 1 else depth
      let (taken, after) := takeBare depth (c :: rest)
      (b :: taken, after)

def destination? (t : Text) : Option (Text × Text) :=
  match t with
  | 60 :: rest =>
    match takeUntil (fun b => b == 62 || b == 10) rest with
    | (taken, 62 :: after) => some (taken, after)
    | _ => none
  | _ =>
    match takeBare 0 t with
    | ([], _) => none
    | found => some found

def title? (t : Text) : Option (Text × Text) :=
  let closed (close : UInt8) (rest : Text) : Option (Text × Text) :=
    match takeUntil (· == close) rest with
    | (taken, _ :: after) => some (taken, after)
    | _ => none
  match t with
  | 34 :: rest => closed 34 rest
  | 39 :: rest => closed 39 rest
  | 40 :: rest =>
    match takeUntil (fun b => b == 41 || b == 40) rest with
    | (taken, 41 :: after) => some (taken, after)
    | _ => none
  | _ => none

/-- The text between square brackets, after the first of them. -/
def label? (t : Text) : Option (Text × Text) :=
  match takeUntil (fun b => b == 93 || b == 91) t with
  | (taken, 93 :: after) => some (taken, after)
  | _ => none

/-- Runs of white space as one space. -/
def collapse : Text → Text
  | [] => []
  | b :: rest =>
    if isSpace b then
      match collapse rest with
      | 32 :: more => 32 :: more
      | more => 32 :: more
    else b :: collapse rest

/-- Labels are compared without regard to case and to the amount of white space. -/
def normalLabel (t : Text) : Text := collapse (Text.folded (trim t))

/-- What labels stand for; the first definition of a label counts. -/
abbrev Definitions := List (Text × Target)

def lookUp (defs : Definitions) (label : Text) : Option Target :=
  if label.length > 999 then none else defs.lookup (normalLabel label)

/-- What follows `(` in an inline link, up to the closing parenthesis. -/
def inlineTarget? (t : Text) : Option (Target × Text) :=
  let close (target : Target) (t : Text) : Option (Target × Text) :=
    match trimLeft t with
    | 41 :: after => some (target, after)
    | _ => none
  match trimLeft t with
  | 41 :: after => some (⟨[], none⟩, after)
  | t =>
    match destination? t with
    | none => none
    | some (dest, after) =>
      match close ⟨dest, none⟩ after with
      | some found => some found
      | none =>
        match title? (trimLeft after) with
        | some (title, after) => close ⟨dest, some title⟩ after
        | none => none

/-- The rest of the line is blank. -/
def endsLine (t : Text) : Bool := isBlank (t.takeWhile (· != 10))

/-- The text after the line that it begins in. -/
def afterLine (t : Text) : Text := (t.dropWhile (· != 10)).drop 1

/-- The line of a text in which a part at its end begins. -/
def lineOf (all part : Text) : Nat := (all.take (all.length - part.length)).count 10

/-- A label and its target, with the first line that it stands in and the first line after it. -/
structure Definition where
  label : Text
  target : Target
  first : Nat
  past : Nat
deriving DecidableEq, Repr

def isTitleMark (b : UInt8) : Bool := b == 34 || b == 39 || b == 40

/-- Where the search for the end of a title stops in vain: at the next line after a second opening
parenthesis, or at the end. -/
def afterOpenTitle (t : Text) : Text :=
  match t with
  | 40 :: rest => afterLine (takeUntil (fun b => b == 41 || b == 40) rest).2
  | _ => []

/-- A definition at the start of a part of a text: a label in brackets, a colon, a destination and
perhaps a title. A title that does not fit is no part of it if it begins a line of its own. Gives
the definition and where the next may begin. -/
def definition? (all part : Text) : Option (Definition × Text) :=
  let start := trimLeft part
  match start with
  | 91 :: rest =>
    match label? rest with
    | some (label, 58 :: after) =>
      match isBlank label, destination? (trimLeft after) with
      | false, some (dest, after) =>
        let first := lineOf all start
        let line := lineOf all after
        let next := trimLeft after
        let plain (past : Nat) (next : Text) : Option (Definition × Text) :=
          if endsLine after then some (⟨label, ⟨dest, none⟩, first, past⟩, next) else none
        if !next.head?.any isTitleMark then plain (line + 1) next
        else if next.length = after.length then none
        else match title? next with
          | none => plain (line + 1) (afterOpenTitle next)
          | some (title, behind) =>
            if endsLine behind then
              some (⟨label, ⟨dest, some title⟩, first, lineOf all behind + 1⟩, behind)
            else plain (max line (first + 1)) behind
      | _, _ => none
    | _ => none
  | _ => none

/-- The definitions that a part of a text begins with. -/
def definitionsFrom (all : Text) : Nat → Text → List Definition
  | 0, _ => []
  | fuel + 1, part =>
    match definition? all part with
    | none => []
    | some (d, next) => d :: definitionsFrom all fuel next

/-- Takes definitions out of lines, of which the first is the one with number `offset`. -/
def dropLines {α : Type} : Nat → List Definition → List α → List α
  | _, [], lines => lines
  | offset, d :: rest, lines =>
    lines.take (d.first - offset) ++ dropLines d.past rest (lines.drop (d.past - offset))

/-- The definitions that the lines of a paragraph begin with, and the lines that are left. -/
def splitDefinitions (lines : List TextLine) : Definitions × List TextLine :=
  let all := lines.flatMap TextLine.text
  let found := definitionsFrom all all.length all
  (found.map fun d => (normalLabel d.label, d.target), dropLines 0 found lines)

end Literate.Markdown
