import Literate.Html.Entity
import Literate.Text.Rune

/-! Character references in HTML text, as a browser reads them: numbers may stand for characters of
an old code page, and some names need no semicolon. -/

namespace Literate.Html

/-- What the numbers from 128 to 159 stand for. -/
def codePage : List Nat := [
  0x20AC, 0x81, 0x201A, 0x192, 0x201E, 0x2026, 0x2020, 0x2021, 0x2C6, 0x2030, 0x160, 0x2039, 0x152,
  0x8D, 0x17D, 0x8F, 0x90, 0x2018, 0x2019, 0x201C, 0x201D, 0x2022, 0x2013, 0x2014, 0x2DC, 0x2122,
  0x161, 0x203A, 0x153, 0x9D, 0x17E, 0x178]

def numberedChar (n : Nat) : Char :=
  if 0x80 ≤ n ∧ n ≤ 0x9F then Char.ofNat (codePage.getD (n - 0x80) 0)
  else
    let c := Char.ofNat n
    if n = 0 ∨ c.toNat ≠ n then Text.replacement else c

def dropSemicolon : Text → Text
  | 59 :: rest => rest
  | rest => rest

/-- A number of 32 bits after the mark, and the rest. At least two more bytes have to belong to
it. -/
def numericReference? (t : Text) : Option (Text × Text) :=
  let (hex, digits) : Bool × Text := match t with
    | x :: rest => if x = 120 ∨ x = 88 then (true, rest) else (false, t)
    | [] => (false, [])
  let run := digits.takeWhile (if hex then Text.isHexByte else Text.isDigitByte)
  let rest := dropSemicolon (digits.drop run.length)
  let used := t.length - rest.length
  if t.length ≤ 1 ∨ used ≤ 1 then none
  else
    let base := if hex then 16 else 10
    let number := run.foldl (fun n b => (base * n + Text.hexValue b) % 4294967296) 0
    some (Text.utf8 (numberedChar number), rest)

/-- The longest name without a semicolon that a run of letters starts with. -/
def barePart? (run : Text) : Nat → Option (Text × Nat)
  | 0 => none
  | 1 => none
  | n + 2 =>
    let name := run.take (n + 2)
    if bareEntities.contains name then (entity? name).map fun chars => (chars, n + 2)
    else barePart? run (n + 1)

/-- A name after the ampersand, and the rest. -/
def namedReference? (t : Text) : Option (Text × Text) :=
  let run := t.takeWhile fun b => Text.isLetterByte b || Text.isDigitByte b
  let rest := t.drop run.length
  let whole : Option (Text × Text) := match rest with
    | 59 :: after => (entity? run).map fun chars => (chars, after)
    | _ => if bareEntities.contains run then (entity? run).map fun chars => (chars, rest) else none
  match whole with
  | some found => some found
  | none => (barePart? run (min 6 run.length)).map fun (chars, n) => (chars, t.drop n)

def unescapeFrom : Nat → Text → Text
  | 0, t => t
  | _, [] => []
  | fuel + 1, b :: rest =>
    if b = 38 then
      let found := match rest with
        | 35 :: digits => numericReference? digits
        | _ => namedReference? rest
      match found with
      | some (chars, tail) => chars ++ unescapeFrom fuel tail
      | none => b :: unescapeFrom fuel rest
    else b :: unescapeFrom fuel rest

/-- Text with its references replaced by the characters they stand for. -/
def unescape (t : Text) : Text := unescapeFrom t.length t

end Literate.Html
