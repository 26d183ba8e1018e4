import Literate.Text.Rune
import Literate.Text.Ranges

/-! Classes of characters, and the trimming and splitting of text that depend on them. -/

namespace Literate.Text

def inRanges (ranges : List (Nat × Nat)) (c : Char) : Bool :=
  ranges.any fun (low, high) => low ≤ c.toNat && c.toNat ≤ high

def isLetter (c : Char) : Bool := c.isAlpha || 0x80 ≤ c.toNat && inRanges letterRanges c

def isDigit (c : Char) : Bool := c.isDigit || 0x80 ≤ c.toNat && inRanges digitRanges c

/-- White space: the characters with that property in Unicode. -/
def isBlank (c : Char) : Bool :=
  let n := c.toNat
  (9 ≤ n && n ≤ 13) || n == 0x20 || n == 0x85 || n == 0xA0 || n == 0x1680 ||
    (0x2000 ≤ n && n ≤ 0x200A) || n == 0x2028 || n == 0x2029 || n == 0x202F ||
    n == 0x205F || n == 0x3000

/-- Characters with a glyph, and the plain space. -/
def isGraphic (c : Char) : Bool :=
  if c.toNat < 0x7F then 0x20 ≤ c.toNat else inRanges graphicRanges c

def isPunctuation (c : Char) : Bool := inRanges punctuationRanges c

/-- Drops what satisfies a test from both ends of a list. -/
def strip {α : Type} (p : α → Bool) (l : List α) : List α :=
  ((l.dropWhile p).reverse.dropWhile p).reverse

/-- Characters without the white space around them. -/
def trimChars (cs : List Char) : List Char := strip isBlank cs

/-- Text without the white space around it. -/
def trim (t : Text) : Text := ofRunes (strip (fun r => isBlank r.char) (runes t))

/-- The maximal runs of elements that do not satisfy a test. -/
def runsWithout {α : Type} (p : α → Bool) : List α → List (List α)
  | [] => []
  | a :: rest =>
    if p a then runsWithout p rest
    else match rest, runsWithout p rest with
      | b :: _, run :: more => if p b then [a] :: run :: more else (a :: run) :: more
      | _, more => [a] :: more

/-- The words of a list of characters, which white space separates. -/
def wordsOfChars (cs : List Char) : List (List Char) := runsWithout isBlank cs

/-- The words of a text, which white space separates. -/
def fields (t : Text) : List Text :=
  (runsWithout (fun r : Rune => isBlank r.char) (runes t)).map ofRunes

end Literate.Text
