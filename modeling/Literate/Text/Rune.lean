import Literate.Text

/-! Characters of a text. A byte that begins no well-formed UTF-8 sequence stands for the
replacement character and is one byte long, so every text has a decoding and no byte is lost. -/

namespace Literate

/-- A character with the bytes that it was read from. -/
structure Rune where
  char : Char
  bytes : Text
deriving DecidableEq, Repr

namespace Text

def replacement : Char := '\uFFFD'

/-- The code point that up to four bytes would spell if they were well formed. -/
def spelled : Text → Nat
  | [a] => a.toNat
  | [a, b] => (a.toNat - 0xC0) * 64 + (b.toNat - 0x80)
  | [a, b, c] => ((a.toNat - 0xE0) * 64 + (b.toNat - 0x80)) * 64 + (c.toNat - 0x80)
  | [a, b, c, d] =>
    (((a.toNat - 0xF0) * 64 + (b.toNat - 0x80)) * 64 + (c.toNat - 0x80)) * 64 + (d.toNat - 0x80)
  | _ => 0

/-- The character of which the bytes are exactly the UTF-8 form. -/
def exactly? (bytes : Text) : Option Rune :=
  let c := Char.ofNat (spelled bytes)
  if utf8 c = bytes then some ⟨c, bytes⟩ else none

/-- The character at the start of a non-empty text. -/
def headRune (t : Text) : Rune :=
  ([1, 2, 3, 4].findSome? fun n => exactly? (t.take n)).getD ⟨replacement, t.take 1⟩

/-- The characters of a text after the first `skip` bytes. -/
def runesAfter : Nat → Text → List Rune
  | _, [] => []
  | k + 1, _ :: rest => runesAfter k rest
  | 0, b :: rest =>
    let r := headRune (b :: rest)
    r :: runesAfter (r.bytes.length - 1) rest

def runes (t : Text) : List Rune := runesAfter 0 t

def chars (t : Text) : List Char := (runes t).map Rune.char

def ofRunes (rs : List Rune) : Text := rs.flatMap Rune.bytes

/-- A byte that was read as the replacement character because it is malformed. -/
def isMalformed (r : Rune) : Bool :=
  r.char == replacement && r.bytes.length == 1

/-- Every byte belongs to a well-formed character. -/
def isUtf8 (t : Text) : Bool := (runes t).all fun r => !isMalformed r

/-- The text with each malformed byte replaced by U+FFFD. -/
def repaired (t : Text) : Text := ofChars (chars t)

end Text

end Literate
