import Literate.Text.Class

/-! Quoted text: a text between double quotes in which every character that has no glyph, and
every malformed byte, is written as an escape. -/

namespace Literate.Text

/-- The letter that stands for a control character after a backslash. -/
def escapeLetter? (c : Char) : Option Char :=
  match c.toNat with
  | 7 => some 'a'
  | 8 => some 'b'
  | 9 => some 't'
  | 10 => some 'n'
  | 11 => some 'v'
  | 12 => some 'f'
  | 13 => some 'r'
  | _ => none

def quotedRune (r : Rune) : Text :=
  if isMalformed r then "\\x" ++ r.bytes.flatMap hexByte
  else if r.char = '"' ∨ r.char = '\\' then "\\" ++ utf8 r.char
  else if isGraphic r.char then r.bytes
  else match escapeLetter? r.char with
    | some letter => "\\" ++ utf8 letter
    | none =>
      let n := r.char.toNat
      if n < 0x20 ∨ n = 0x7F then "\\x" ++ hexOfNat 2 n
      else if n < 0x10000 then "\\u" ++ hexOfNat 4 n
      else "\\U" ++ hexOfNat 8 n

def quoted (t : Text) : Text := "\"" ++ (runes t).flatMap quotedRune ++ "\""

/-- A character between apostrophes, written as in quoted text but for the quotes themselves. -/
def quotedChar (c : Char) : Text :=
  if c = '\'' then "'\\''"
  else if c = '"' then "'\"'"
  else "'" ++ quotedRune ⟨c, utf8 c⟩ ++ "'"

end Literate.Text
