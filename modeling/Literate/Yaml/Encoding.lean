import Literate.Text.Rune

/-! The characters of a text that may be written in UTF-8 or, after a mark of the order of bytes, in
UTF-16. -/

namespace Literate.Yaml

/-- The 16-bit units of a text; `none` if the last one is cut. -/
def units? (lowFirst : Bool) : Text → Option (List Nat)
  | [] => some []
  | [_] => none
  | a :: b :: rest =>
    let unit := if lowFirst then a.toNat + 256 * b.toNat else 256 * a.toNat + b.toNat
    (units? lowFirst rest).map (unit :: ·)

/-- The characters that units spell; one beyond 16 bits is written with two. -/
def charsOfUnits? : List Nat → Option (List Char)
  | [] => some []
  | [u] => if 0xD800 ≤ u ∧ u ≤ 0xDFFF then none else some [Char.ofNat u]
  | u :: v :: rest =>
    if 0xDC00 ≤ u ∧ u ≤ 0xDFFF then none
    else if 0xD800 ≤ u ∧ u ≤ 0xDBFF then
      if 0xDC00 ≤ v ∧ v ≤ 0xDFFF then
        (charsOfUnits? rest).map (Char.ofNat (0x10000 + 1024 * (u - 0xD800) + (v - 0xDC00)) :: ·)
      else none
    else (charsOfUnits? (v :: rest)).map (Char.ofNat u :: ·)

/-- The characters of a text; `none` if it is malformed. A mark at its start tells how it is
written and is not part of it. -/
def decode? (t : Text) : Option (List Char) :=
  match t with
  | 0xFF :: 0xFE :: rest => (units? true rest).bind charsOfUnits?
  | 0xFE :: 0xFF :: rest => (units? false rest).bind charsOfUnits?
  | _ =>
    let plain : Text := match t with
      | 0xEF :: 0xBB :: 0xBF :: rest => rest
      | _ => t
    if Text.isUtf8 plain then some (Text.chars plain) else none

end Literate.Yaml
