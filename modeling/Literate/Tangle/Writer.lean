import Literate.Number
import Literate.Text.Rune

/-! A buffer for code with a stack of indentations. The indent of a line is written before its
first byte, so that a blank line has no trailing spaces. Indents are signed words; a column counts
characters that the buffer holds, so it never outgrows one. -/

namespace Literate.Tangle

structure Writer where
  out : Text := []
  indent : Int := 0
  stack : List Int := []
  /-- Nothing has been written on the current line. -/
  fresh : Bool := true
  /-- The characters written on the current line. -/
  written : Int := 0
deriving DecidableEq, Repr

namespace Writer

/-- Begins an absolute indent. -/
def setIndent (n : Int) (w : Writer) : Writer :=
  { w with stack := w.indent :: w.stack, indent := n }

/-- Begins an indent relative to the current one. -/
def addIndent (n : Int) (w : Writer) : Writer := w.setIndent (Number.wrap (w.indent + n))

/-- Goes back to the indent before the current one. -/
def clearIndent (w : Writer) : Writer :=
  match w.stack with
  | [] => w
  | n :: rest => { w with indent := n, stack := rest }

/-- Where the next byte will land. -/
def column (w : Writer) : Int := if w.fresh then w.indent else w.written

/-- Writes a part of a line, after the indent if it is the first part. -/
def putPiece (piece : Text) (w : Writer) : Writer :=
  if piece = [] then w
  else if w.fresh then
    { w with
      out := w.out ++ List.replicate w.indent.toNat 32 ++ piece
      written := w.indent + piece.runes.length
      fresh := false }
  else
    { w with
      out := w.out ++ piece
      written := w.written + piece.runes.length }

def endLine (w : Writer) : Writer :=
  { w with out := w.out ++ [Text.newline], fresh := true, written := 0 }

/-- Writes lines with newlines between them. -/
def putLines : List Text → Writer → Writer
  | [], w => w
  | [piece], w => w.putPiece piece
  | piece :: rest, w => putLines rest (w.putPiece piece).endLine

/-- Writes text, with room for every indent. -/
def put (text : Text) (w : Writer) : Writer := putLines (text.split Text.newline) w

/-- The most spaces that can be written at once. -/
def widest : Int := 281474976710656

/-- The piece begins a line of which the indent cannot be written: it is negative or too wide. -/
def blocks (piece : Text) (w : Writer) : Bool :=
  piece ≠ [] ∧ w.fresh ∧ (w.indent < 0 ∨ widest < w.indent)

/-- Writes lines with newlines between them, up to the first whose indent cannot be written. -/
def writeLines : List Text → Writer → Writer × Bool
  | [], w => (w, true)
  | [piece], w => if w.blocks piece then (w, false) else (w.putPiece piece, true)
  | piece :: rest, w =>
    if w.blocks piece then (w, false) else writeLines rest (w.putPiece piece).endLine

/-- Writes text and tells whether all of it could be written. -/
def write (text : Text) (w : Writer) : Writer × Bool :=
  writeLines (text.split Text.newline) w

end Writer

end Literate.Tangle
