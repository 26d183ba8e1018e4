import Literate.Text

/-! Bytes written with 64 signs: four signs stand for three bytes. -/

namespace Literate.Base64

def value? (b : UInt8) : Option Nat :=
  if 65 ≤ b ∧ b ≤ 90 then some (b.toNat - 65)
  else if 97 ≤ b ∧ b ≤ 122 then some (b.toNat - 71)
  else if Text.isDigitByte b then some (b.toNat + 4)
  else if b = 43 then some 62
  else if b = 47 then some 63
  else none

/-- The bytes of groups of four signs, the last of which may be filled up with one or two equals
signs. -/
def groups? : Text → Option Text
  | [] => some []
  | a :: b :: c :: d :: rest =>
    match value? a, value? b, value? c, value? d with
    | some a, some b, some c, some d =>
      let n := ((a * 64 + b) * 64 + c) * 64 + d
      (groups? rest).map
        ([(n / 65536).toUInt8, (n / 256 % 256).toUInt8, (n % 256).toUInt8] ++ ·)
    | some a, some b, some c, none =>
      if d = 61 ∧ rest = [] then
        let n := (a * 64 + b) * 64 + c
        some [(n / 1024).toUInt8, (n / 4 % 256).toUInt8]
      else none
    | some a, some b, none, none =>
      if c = 61 ∧ d = 61 ∧ rest = [] then some [((a * 64 + b) / 16).toUInt8] else none
    | _, _, _, _ => none
  | _ => none

/-- The bytes that a text spells; line ends in it do not count. -/
def decode? (t : Text) : Option Text := groups? (t.filter fun b => b != 10 && b != 13)

end Literate.Base64
