import Literate.Markdown.Tag

/-! How the blocks of Markdown begin. Each function looks at what is left of a line, with its
newline. -/

namespace Literate.Markdown

/-- A thematic break: at least three equal marks and white space. -/
def isRule (column : Nat) (line : Text) : Bool :=
  let marks := line.filter fun b => !isSpace b
  (indentFrom column line).1 ≤ 3 &&
    match marks with
    | b :: rest => (b == 42 || b == 45 || b == 95) && rest.length ≥ 2 && rest.all (· == b)
    | [] => false

/-- The level of the heading that a line under a paragraph makes it. -/
def underline? (line : Text) : Option Nat :=
  match trimRight (line.dropWhile (· == 32)) with
  | b :: rest =>
    if rest.all (· == b) then if b = 61 then some 1 else if b = 45 then some 2 else none else none
  | [] => none

/-- The text of a heading without the marks that close it, if a space parts them from it. -/
def dropClosing (t : Text) : Text :=
  let t := trimRight t
  let marks := t.reverse.takeWhile (· == 35)
  let before := t.take (t.length - marks.length)
  trimLeft (if before.getLast?.any isSpace then before else t)

/-- The level and the text of a heading that begins with number signs. -/
def heading? (t : Text) : Option (Nat × Text) :=
  let marks := t.takeWhile (· == 35)
  if marks.length < 1 || marks.length > 6 then none
  else match t.drop marks.length with
    | [] => some (marks.length, [])
    | b :: rest => if isSpace b then some (marks.length, dropClosing (b :: rest)) else none

/-- A fence: its mark, its length, how far it is indented, and the info after it. -/
structure Fence where
  mark : UInt8
  length : Nat
  indent : Nat
  info : Text
deriving DecidableEq, Repr

/-- The info of a fence; one byte at the end of the source is none. -/
def fenceInfo (rest : Text) : Text := if rest.length > 1 then trim rest else []

def fence? (indent : Nat) (t : Text) : Option Fence :=
  match t with
  | b :: _ =>
    let marks := t.takeWhile (· == b)
    let info := fenceInfo (t.drop marks.length)
    if (b = 96 ∨ b = 126) ∧ marks.length ≥ 3 ∧ ¬ (b = 96 ∧ info.elem 96) then
      some ⟨b, marks.length, indent, info⟩
    else none
  | [] => none

def Fence.closedBy (f : Fence) (c : Cursor) : Bool :=
  let (columns, bytes) := c.indent
  let t := c.text.drop bytes
  let marks := t.takeWhile (· == f.mark)
  columns < 4 && marks.length ≥ f.length && isBlank (t.drop marks.length)

/-- The marker of a list: a bullet, or the mark after a number. -/
structure Marker where
  mark : UInt8
  start : Option Nat
deriving DecidableEq, Repr

def Marker.sameList (a b : Marker) : Bool := a.mark == b.mark && a.start.isSome == b.start.isSome

/-- A marker at the start of a line, with the bytes up to its end and the text after it. -/
structure ItemStart where
  marker : Marker
  width : Nat
  content : Text
deriving DecidableEq, Repr

/-- The marker that a text begins with, and its width. -/
def marker? (t : Text) : Option (Marker × Nat) :=
  match t with
  | b :: _ =>
    if b = 45 ∨ b = 43 ∨ b = 42 then some (⟨b, none⟩, 1)
    else
      let digits := t.takeWhile Text.isDigitByte
      match t.drop digits.length with
      | m :: _ =>
        if (m = 46 ∨ m = 41) ∧ 1 ≤ digits.length ∧ digits.length ≤ 9 then
          some (⟨m, some ((Text.toNat? digits).getD 0)⟩, digits.length + 1)
        else none
      | [] => none
  | [] => none

/-- A list item that a line begins. Only spaces may stand before the marker, and a space, a tab or
the end of the line follows it. -/
def itemStart? (line : Text) : Option ItemStart :=
  let spaces := line.takeWhile (· == 32)
  if spaces.length > 3 then none
  else match marker? (line.drop spaces.length) with
    | none => none
    | some (marker, size) =>
      let width := spaces.length + size
      let content := line.drop width
      if content.head?.any fun b => b != 32 && b != 9 && b != 10 then none
      else some ⟨marker, width, content⟩

namespace ItemStart

def blank (s : ItemStart) : Bool := isBlank s.content

/-- The columns between the marker and the content; one if the item begins with a blank line or
with indented code. -/
def gap (s : ItemStart) : Nat :=
  let columns := (indentFrom s.width s.content).1
  if s.blank || columns > 4 then 1 else columns

/-- The column of the content relative to the place of the line. -/
def offset (s : ItemStart) : Nat := s.width + s.gap

/-- The place where the content begins. -/
def enter (s : ItemStart) (c : Cursor) : Cursor :=
  match span? s.width s.gap s.content with
  | some (bytes, beyond) => c.pass (s.width + bytes) beyond
  | none => c

/-- An item that may follow the text of a paragraph: it has content, and a number is one. -/
def interrupts (s : ItemStart) : Bool := !s.blank && !s.marker.start.any (· != 1)

end ItemStart

/-- The place after the mark of a quote, if the line goes on with one. -/
def quoteMark? (c : Cursor) : Option Cursor :=
  let (columns, bytes) := c.indent
  match c.text.drop bytes with
  | 62 :: rest =>
    if columns > 3 then none
    else
      let after := c.advance (bytes + 1)
      match rest with
      | 32 :: _ => some (after.pass 1 0)
      | 9 :: _ => some (after.pass 1 (tabWidth after.column - 1))
      | _ => some after
  | _ => none

end Literate.Markdown
