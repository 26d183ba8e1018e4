import Literate.Number

/-! Spans of time, in nanoseconds, written as numbers with units: `1h30m`, `1.5s`. -/

namespace Literate.Duration

def second : Nat := 1000000000

/-- The units with their nanoseconds. The micro sign has two code points. -/
def units : List (Text × Nat) :=
  [("ns", 1), ("us", 1000), ("\u00B5s", 1000), ("\u03BCs", 1000), ("ms", 1000000), ("s", second),
    ("m", 60 * second), ("h", 3600 * second)]

/-- Reads the digits after a point, up to what 63 bits can hold: their number and its scale. -/
def fraction (digits : Text) : Nat × Nat :=
  let step : Nat × Nat × Bool → UInt8 → Nat × Nat × Bool := fun (n, scale, full) b =>
    let m := 10 * n + (b.toNat - 48)
    if full || n > (Number.signedLimit - 1) / 10 || m > Number.signedLimit then (n, scale, true)
    else (m, 10 * scale, false)
  let (n, scale, _) := digits.foldl step (0, 1, false)
  (n, scale)

/-- The nanoseconds of a fraction of a unit, computed with 53 significant bits. -/
def fractionOf (unit n scale : Nat) : Nat :=
  let (rateNum, rateDen) := Number.nearest unit scale
  let (num, den) := Number.nearest n 1
  let (num, den) := Number.nearest (num * rateNum) (den * rateDen)
  num / den

/-- One number with its unit, and the rest of the text. -/
def part? (t : Text) : Option (Nat × Text) :=
  let whole := t.takeWhile Text.isDigitByte
  let rest := t.dropWhile Text.isDigitByte
  let (digits, rest) : Text × Text := match rest with
    | 46 :: after => (after.takeWhile Text.isDigitByte, after.dropWhile Text.isDigitByte)
    | _ => ([], rest)
  let isUnitByte (b : UInt8) : Bool := b != 46 && !Text.isDigitByte b
  let name := rest.takeWhile isUnitByte
  let rest := rest.dropWhile isUnitByte
  if whole = [] ∧ digits = [] then none
  else match Number.natural 10 Number.signedLimit 0 whole, units.lookup name with
    | .ok n, some unit =>
      let (f, scale) := fraction digits
      let total := n * unit + (if f = 0 then 0 else fractionOf unit f scale)
      if n > Number.signedLimit / unit ∨ total > Number.signedLimit then none
      else some (total, rest)
    | _, _ => none

/-- Adds up parts in a word until the text ends; each part takes at least one byte. -/
def parts? : Nat → Nat → Text → Option Nat
  | _, sum, [] => some sum
  | 0, _, _ => none
  | n + 1, sum, t =>
    match part? t with
    | none => none
    | some (d, rest) =>
      let total := (sum + d) % Number.wordRange
      if total > Number.signedLimit then none else parts? n total rest

/-- The nanoseconds that a text spells. A bare zero needs no unit. -/
def parse? (t : Text) : Option Int :=
  let (negative, rest) := Number.unsigned t
  if rest = ("0" : Text) then some 0
  else if rest = [] then none
  else match parts? rest.length 0 rest with
    | none => none
    | some d => (Number.withSign negative d).toOption

end Literate.Duration
