import Literate.Text.Rune

/-! JSON values and their text on one line. -/

namespace Literate

inductive Json where
  | number (n : Int)
  | text (t : Text)
  | list (items : List Json)
  | object (members : List (Text × Json))
deriving Repr

namespace Json

/-- Which characters a writer escapes beyond those that must be. -/
structure Escapes where
  /-- Characters that have a meaning in HTML. -/
  html : Bool
  /-- Control characters that have a letter of their own, besides newline, return and tab. -/
  letters : List (Nat × Char)
deriving Repr

/-- Documents may be embedded in pages. -/
def Escapes.document : Escapes := ⟨true, [(8, 'b'), (12, 'f')]⟩

def Escapes.log : Escapes := ⟨false, []⟩

def shortEscapes : List (Nat × Char) := [(10, 'n'), (13, 'r'), (9, 't')]

def escapedChar (e : Escapes) (c : Char) : Text :=
  let n := c.toNat
  if c = '"' ∨ c = '\\' then "\\" ++ Text.utf8 c
  else match (shortEscapes ++ e.letters).lookup n with
    | some letter => "\\" ++ Text.utf8 letter
    | none =>
      if n < 0x20 ∨ n = 0x2028 ∨ n = 0x2029 ∨ (e.html ∧ (c = '<' ∨ c = '>' ∨ c = '&')) then
        "\\u" ++ Text.hexOfNat 4 n
      else Text.utf8 c

/-- A malformed byte is written as the escape of the replacement character. -/
def escapedRune (e : Escapes) (r : Rune) : Text :=
  if Text.isMalformed r then "\\ufffd" else escapedChar e r.char

def quoted (e : Escapes) (t : Text) : Text := "\"" ++ t.runes.flatMap (escapedRune e) ++ "\""

mutual

def render (e : Escapes) : Json → Text
  | .number n => Text.ofInt n
  | .text t => quoted e t
  | .list items => "[" ++ renderItems e items ++ "]"
  | .object members => [0x7B] ++ renderMembers e members ++ [0x7D]

def renderItems (e : Escapes) : List Json → Text
  | [] => []
  | [item] => render e item
  | item :: rest => render e item ++ "," ++ renderItems e rest

def renderMembers (e : Escapes) : List (Text × Json) → Text
  | [] => []
  | [(name, value)] => quoted e name ++ ":" ++ render e value
  | (name, value) :: rest => quoted e name ++ ":" ++ render e value ++ "," ++ renderMembers e rest

end

end Json

end Literate
