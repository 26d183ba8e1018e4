import Literate.Text

/-! Numbers and truth values as users write them in settings and on command lines. -/

namespace Literate.Number

/-- How many numbers a word of 64 bits can hold: two to the power of 64. -/
def wordRange : Nat := 18446744073709551616

/-- Half as many. A signed word holds numbers from minus this one to one below it. -/
def signedLimit : Nat := 9223372036854775808

/-- The signed word with the same lowest 64 bits as a number. -/
def wrap (n : Int) : Int := n.bmod wordRange

inductive Fault where
  | malformed
  | outOfRange
deriving DecidableEq, Repr

def Fault.message : Fault → Text
  | .malformed => "invalid syntax"
  | .outOfRange => "value out of range"

def digitValue? (b : UInt8) : Option Nat :=
  if Text.isDigitByte b then some (b.toNat - 48)
  else if Text.isLetterByte b then some ((Text.lowerByte b).toNat - 87)
  else none

/-- Reads digits on top of a number. The first byte that is no digit of the base, or the first
digit that passes the limit, decides the fault. -/
def natural (base limit : Nat) : Nat → Text → Except Fault Nat
  | n, [] => .ok n
  | n, b :: rest =>
    match digitValue? b with
    | none => .error .malformed
    | some d =>
      if base ≤ d then .error .malformed
      else if base * n + d > limit then .error .outOfRange
      else natural base limit (base * n + d) rest

/-- Takes a sign off a text; the flag tells whether it was a minus. -/
def unsigned (t : Text) : Bool × Text :=
  match t with
  | 43 :: rest => (false, rest)
  | 45 :: rest => (true, rest)
  | _ => (false, t)

/-- A magnitude as a signed number of 64 bits. -/
def withSign (negative : Bool) (n : Nat) : Except Fault Int :=
  if negative then if n > signedLimit then .error .outOfRange else .ok (-(n : Int))
  else if n ≥ signedLimit then .error .outOfRange else .ok n

/-- A signed number of 64 bits in a base. -/
def integer (base : Nat) (t : Text) : Except Fault Int :=
  let (negative, digits) := unsigned t
  if digits = [] then .error .malformed
  else match natural base (wordRange - 1) 0 digits with
    | .error f => .error f
    | .ok n => withSign negative n

def decimal (t : Text) : Except Fault Int := integer 10 t

/-- The base that the start of a number tells, and the digits in it. -/
def detectBase (digits : Text) : Nat × Text :=
  match digits with
  | 48 :: b :: c :: rest =>
    let letter := Text.lowerByte b
    if letter = 98 then (2, c :: rest)
    else if letter = 111 then (8, c :: rest)
    else if letter = 120 then (16, c :: rest)
    else (8, b :: c :: rest)
  | 48 :: rest => (8, rest)
  | _ => (10, digits)

/-- A number of which the leading digits tell the base. -/
def anyBase (limit : Nat) (digits : Text) : Except Fault Nat :=
  if digits = [] then .error .malformed
  else
    let (base, digits) := detectBase digits
    natural base limit 0 digits

/-- Each underscore stands alone between two digits. The flag tells whether what precedes the text
counts as a digit. -/
def separatesDigits : Bool → Text → Bool
  | _, [] => true
  | afterDigit, b :: rest =>
    if b = 95 then afterDigit && !rest.isEmpty && separatesDigits false rest
    else separatesDigits true rest

/-- A signed number of 64 bits of which the leading digits tell the base. Underscores may separate
digits, also from what tells the base. -/
def literal (t : Text) : Except Fault Int :=
  let (negative, digits) := unsigned t
  if digits = [] then .error .malformed
  else
    let (base, digits) := detectBase digits
    match natural base (wordRange - 1) 0 (digits.filter (· != 95)) with
    | .error f => .error f
    | .ok n =>
      if separatesDigits (base != 10) digits then withSign negative n else .error .malformed

def boolean? (t : Text) : Option Bool :=
  if t ∈ (["1", "t", "T", "true", "TRUE", "True"] : List Text) then some true
  else if t ∈ (["0", "f", "F", "false", "FALSE", "False"] : List Text) then some false
  else none

/-- The number with 53 significant bits nearest to a fraction, as a fraction. A tie goes to the
even number. -/
def nearest (num den : Nat) : Nat × Nat :=
  if num = 0 ∨ den = 0 then (0, 1)
  else
    let guess : Int := (Nat.log2 num : Int) - Nat.log2 den - 52
    let k := if num <<< (-guess).toNat < den <<< (guess.toNat + 52) then guess - 1 else guess
    let n := num <<< (-k).toNat
    let d := den <<< k.toNat
    let q := n / d
    let r := n % d
    let q := if 2 * r > d ∨ (2 * r = d ∧ q % 2 = 1) then q + 1 else q
    (q <<< k.toNat, 1 <<< (-k).toNat)

end Literate.Number
