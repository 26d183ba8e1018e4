import Literate.Text

/-! The lines of a Markdown source, and places in them. Tabs stand for spaces up to the next
multiple of four columns; a block that takes only some of these columns leaves the others behind as
padding. -/

namespace Literate.Markdown

def isSpace (b : UInt8) : Bool := b == 32 || (9 ≤ b && b ≤ 13)

def isBlank (t : Text) : Bool := t.all isSpace

/-- The punctuation of ASCII. -/
def isPunct (b : UInt8) : Bool :=
  (33 ≤ b && b ≤ 47) || (58 ≤ b && b ≤ 64) || (91 ≤ b && b ≤ 96) || (123 ≤ b && b ≤ 126)

def trimLeft (t : Text) : Text := t.dropWhile isSpace

def trimRight (t : Text) : Text := (t.reverse.dropWhile isSpace).reverse

def trim (t : Text) : Text := trimRight (trimLeft t)

/-- The columns that a tab takes from a column on. -/
def tabWidth (column : Nat) : Nat := 4 - column % 4

/-- The columns and the bytes of the white space at the start of a text that begins at a column. -/
def indentFrom (column : Nat) : Text → Nat × Nat
  | [] => (0, 0)
  | b :: rest =>
    let width := if b = 32 then 1 else if b = 9 then tabWidth column else 0
    if width = 0 then (0, 0)
    else
      let (columns, bytes) := indentFrom (column + width) rest
      (width + columns, 1 + bytes)

/-- Takes a width of white space off a text that begins at a column: the bytes that make it up, and
the columns by which the last of them reaches further. `taken` columns have been taken before. -/
def spanFrom (column width taken : Nat) : Text → Option (Nat × Nat)
  | [] => if width ≤ taken then some (0, taken - width) else none
  | b :: rest =>
    if width ≤ taken then some (0, taken - width)
    else
      let step := if b = 32 then 1 else if b = 9 then tabWidth (column + taken) else 0
      if step = 0 then none
      else (spanFrom column width (taken + step) rest).map fun (bytes, beyond) => (bytes + 1, beyond)

def span? (column width : Nat) (t : Text) : Option (Nat × Nat) := spanFrom column width 0 t

/-- A place in a line: the bytes before it, the last of them first, the padding that a tab has left,
and the bytes from it on, with the newline. -/
structure Cursor where
  passed : Text := []
  padding : Nat := 0
  rest : Text
deriving DecidableEq, Repr

namespace Cursor

/-- The column after bytes that are given the last first. -/
def columnAfter (passed : Text) : Nat :=
  passed.foldr (fun b column => if b = 9 then column + tabWidth column else column + 1) 0

def column (c : Cursor) : Nat := columnAfter c.passed - c.padding

/-- What is left of the line, with the padding as spaces. -/
def text (c : Cursor) : Text := List.replicate c.padding 32 ++ c.rest

/-- The columns and the bytes of white space in front. -/
def indent (c : Cursor) : Nat × Nat := indentFrom c.column c.text

def advance : Nat → Cursor → Cursor
  | 0, c => c
  | n + 1, c =>
    if c.padding > 0 then advance n { c with padding := c.padding - 1 }
    else match c.rest with
      | [] => c
      | b :: rest => advance n { c with passed := b :: c.passed, rest }

/-- Passes over bytes, and leaves padding if they end inside a tab. -/
def pass (c : Cursor) (count padding : Nat) : Cursor :=
  let c := c.advance count
  { c with padding := max c.padding padding }

def blank (c : Cursor) : Bool := isBlank c.rest

/-- Nothing is left, not even a newline. -/
def atEnd (c : Cursor) : Bool := c.rest.isEmpty

end Cursor

/-- A line of text with the byte before it in the source. -/
structure TextLine where
  before : UInt8
  text : Text
deriving DecidableEq, Repr

/-- The rest of a line without the white space in front. -/
def Cursor.textLine (c : Cursor) : TextLine :=
  let blanks := c.rest.takeWhile isSpace
  ⟨(blanks.reverse ++ c.passed).headD 10, c.rest.drop blanks.length⟩

/-- The lines of a source, each with its newline; the last may have none. -/
def linesOf : Text → List Text
  | [] => []
  | b :: rest =>
    if b = 10 then [b] :: linesOf rest
    else match linesOf rest with
      | [] => [[b]]
      | line :: more => (b :: line) :: more

/-- A line without its newline and the carriage return before it. -/
def dropLineEnd (t : Text) : Text :=
  match t.reverse with
  | 10 :: 13 :: body => body.reverse
  | 10 :: body => body.reverse
  | _ => t

end Literate.Markdown
