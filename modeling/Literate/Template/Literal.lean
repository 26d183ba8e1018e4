import Literate.Number
import Literate.Template.Value
import Literate.Text.Rune

/-! Strings, characters and numbers as they are written in layouts. -/

namespace Literate.Template

/-- What a letter after a backslash stands for. -/
def controlOf? (b : UInt8) : Option UInt8 :=
  ([(97, 7), (98, 8), (102, 12), (110, 10), (114, 13), (116, 9), (118, 11), (92, 92)] :
    List (UInt8 × UInt8)).lookup b

/-- The digits after a backslash and a letter, as a number. -/
def hexCode? (width : Nat) (t : Text) : Option (Nat × Text) :=
  let digits := t.take width
  if digits.length = width ∧ digits.all Text.isHexByte then
    some (digits.foldl (fun n b => 16 * n + Text.hexValue b) 0, t.drop width)
  else none

def isOctalByte (b : UInt8) : Bool := 48 ≤ b && b ≤ 55

/-- One unit of a string: a byte, or a character. -/
inductive Unit8 where
  | byte (b : UInt8)
  | char (c : Char)

def Unit8.text : Unit8 → Text
  | .byte b => [b]
  | .char c => Text.utf8 c

def Unit8.code : Unit8 → Nat
  | .byte b => b.toNat
  | .char c => c.toNat

/-- A character by its number, if there is one. -/
def charUnit? (n : Nat) : Option Unit8 :=
  if Nat.isValidChar n then some (.char (Char.ofNat n)) else none

/-- What an escape stands for, after its backslash. -/
def escape? (quote : UInt8) : Text → Option (Unit8 × Text)
  | [] => none
  | b :: rest =>
    if let some c := controlOf? b then some (.byte c, rest)
    else if b = 120 then (hexCode? 2 rest).map fun (n, rest) => (.byte n.toUInt8, rest)
    else if b = 117 ∨ b = 85 then
      (hexCode? (if b = 117 then 4 else 8) rest).bind fun (n, rest) =>
        (charUnit? n).map fun u => (u, rest)
    else if isOctalByte b then
      match rest with
      | c :: d :: rest =>
        let n := 64 * (b.toNat - 48) + 8 * (c.toNat - 48) + (d.toNat - 48)
        if isOctalByte c && isOctalByte d && n < 256 then some (.byte n.toUInt8, rest) else none
      | _ => none
    else if b = quote then some (.byte b, rest)
    else none

/-- The unit at the start of what stands between quotes. -/
def unit? (quote : UInt8) (t : Text) : Option (Unit8 × Text) :=
  match t with
  | [] => none
  | b :: rest =>
    if b = quote ∨ b = 10 then none
    else if b = 92 then escape? quote rest
    else if b < 0x80 then some (.byte b, rest)
    else
      let r := Text.headRune t
      some (.char r.char, t.drop r.bytes.length)

/-- A string up to its closing quote, and the rest. -/
def quotedText? : Nat → Text → Option (Text × Text)
  | 0, _ => none
  | _, 34 :: rest => some ([], rest)
  | fuel + 1, t =>
    match unit? 34 t with
    | none => none
    | some (u, rest) => (quotedText? fuel rest).map fun (more, rest) => (u.text ++ more, rest)

/-- A string between back quotes, after the first of them; returns in it are left out. -/
def rawText? (t : Text) : Option (Text × Text) :=
  (Text.cut? [96] t).map fun (inner, rest) => (inner.filter (· != 13), rest)

/-- The number of a character between apostrophes, after the first of them. -/
def charCode? (t : Text) : Option (Int × Text) :=
  match unit? 39 t with
  | some (u, 39 :: rest) => some (u.code, rest)
  | _ => none

/-- Takes one byte of a set off a text, if it is there. -/
def accept (set t : Text) : Text × Text :=
  match t with
  | b :: rest => if b ∈ set then ([b], rest) else ([], t)
  | [] => ([], [])

/-- Takes the bytes of a set off the start of a text. -/
def acceptRun (set t : Text) : Text × Text :=
  (t.takeWhile (· ∈ set), t.dropWhile (· ∈ set))

/-- The digits of a number, underscores among them, by what follows a leading zero. -/
def digitSet (marker : Text) : Text :=
  if marker = ("x" : Text) ∨ marker = ("X" : Text) then "0123456789abcdefABCDEF_"
  else if marker = ("o" : Text) ∨ marker = ("O" : Text) then "01234567_"
  else if marker = ("b" : Text) ∨ marker = ("B" : Text) then "01_"
  else "0123456789_"

/-- The bytes of a number, and the rest. -/
def numberText (t : Text) : Text × Text :=
  let (sign, t) := accept "+-" t
  let (zero, t) := accept "0" t
  let (marker, t) := if zero = [] then ([], t) else accept "xXoObB" t
  let set := digitSet marker
  let (whole, t) := acceptRun set t
  let (point, t) := accept "." t
  let (fraction, t) := if point = [] then ([], t) else acceptRun set t
  let (mark, t) := if marker = [] then accept "eE" t else ([], t)
  let (markSign, t) := if mark = [] then ([], t) else accept "+-" t
  let (power, t) := if mark = [] then ([], t) else acceptRun "0123456789_" t
  (sign ++ zero ++ marker ++ whole ++ point ++ fraction ++ mark ++ markSign ++ power, t)

/-- A number with a point or a power of ten. -/
def decimal? (t : Text) : Option Decimal :=
  let (negative, t) := Number.unsigned t
  let whole := t.takeWhile Text.isDigitByte
  let t := t.drop whole.length
  let (fraction, t) : Text × Text := match t with
    | 46 :: rest => (rest.takeWhile Text.isDigitByte, rest.dropWhile Text.isDigitByte)
    | _ => ([], t)
  if whole = [] ∧ fraction = [] then none
  else
    let number (power : Int) := Decimal.ofDigits negative (whole ++ fraction) whole.length power
    match t with
    | [] => some (number 0)
    | mark :: power =>
      if mark = 101 ∨ mark = 69 then
        match Number.decimal power with
        | .ok n => if n.natAbs < 300 then some (number n) else none
        | .error _ => none
      else none

/-- The value that a number spells: `none` inside if it is too large to be used. -/
def number? (t : Text) : Option (Option Value) :=
  match Number.literal t with
  | .ok n => some (some (.number n))
  | .error _ =>
    match Number.unsigned t, Number.anyBase (Number.wordRange - 1) t with
    | (false, _), .ok _ => some none
    | _, _ =>
      if t.any fun b => b == 46 || b == 101 || b == 69 then
        (decimal? t).map fun d => some (.decimal d)
      else none

end Literate.Template
