import Literate.Location

/-! Data that a layout is filled with, and how it is shown. -/

namespace Literate.Template

/-- A number with a fraction: a point, its digits without zeros at their ends, and the power of
ten. -/
structure Decimal where
  negative : Bool
  digits : Text
  power : Int
deriving DecidableEq, Repr

inductive Value where
  /-- What is there when no data was given. -/
  | missing
  | text (t : Text)
  | number (n : Int)
  | decimal (d : Decimal)
  | flag (b : Bool)
  | location (l : Location)
  | list (items : List Value)
  | record (fields : List (Text × Value))
deriving BEq, Repr

namespace Decimal

/-- The number that digits spell, the first `whole` of them before the point, times a power of
ten. -/
def ofDigits (negative : Bool) (digits : Text) (whole : Nat) (power : Int) : Decimal :=
  let significant := digits.dropWhile (· == 48)
  let zeros := digits.length - significant.length
  ⟨negative, (significant.reverse.dropWhile (· == 48)).reverse,
    if significant = [] then 0 else whole - zeros + power⟩

/-- A power of ten with its sign and at least two digits. -/
def powerText (n : Int) : Text :=
  let digits := Text.ofNat n.natAbs
  (if n < 0 then "-" else "+") ++ (if digits.length < 2 then 48 :: digits else digits)

/-- A number is written plainly if its first digit stands for less than a million and for no less
than a ten-thousandth. -/
def display (d : Decimal) : Text :=
  let sign : Text := if d.negative then "-" else ""
  let exponent := d.power - 1
  sign ++
    match d.digits with
    | [] => "0"
    | first :: rest =>
      if exponent < -4 ∨ 6 ≤ exponent then
        first :: (if rest = [] then [] else 46 :: rest) ++ "e" ++ powerText exponent
      else if d.power ≤ 0 then
        48 :: 46 :: List.replicate d.power.natAbs 48 ++ d.digits
      else
        let whole := d.power.toNat
        let fraction := d.digits.drop whole
        d.digits.take whole ++ List.replicate (whole - d.digits.length) 48 ++
          (if fraction = [] then [] else 46 :: fraction)

end Decimal

namespace Value

mutual

/-- A value as it is printed: records between braces, lists between brackets. -/
def display : Value → Text
  | .missing => "<no value>"
  | .text t => t
  | .number n => Text.ofInt n
  | .decimal d => d.display
  | .flag b => if b then "true" else "false"
  | .location l => l.text
  | .list items => "[" ++ Text.join " " (displayAll items) ++ "]"
  | .record fields => [0x7B] ++ Text.join " " (displayFields fields) ++ [0x7D]

def displayAll : List Value → List Text
  | [] => []
  | v :: rest => display v :: displayAll rest

def displayFields : List (Text × Value) → List Text
  | [] => []
  | (_, v) :: rest => display v :: displayFields rest

end

def truth : Value → Bool
  | .missing => false
  | .text t => !t.isEmpty
  | .number n => n != 0
  | .decimal d => !d.digits.isEmpty
  | .flag b => b
  | .location _ => true
  | .list items => !items.isEmpty
  | .record _ => true

def field? (name : Text) : Value → Option Value
  | .missing => some .missing
  | .record fields => fields.lookup name
  | .location l =>
    if name = ("Name" : Text) then some (.text l.name)
    else if name = ("Line" : Text) then some (.number l.line)
    else if name = ("String" : Text) then some (.text l.text)
    else none
  | _ => none

def path? : List Text → Value → Option Value
  | [], v => some v
  | name :: rest, v => (field? name v).bind (path? rest)

/-- What a repetition goes through; a number stands for the numbers below it. -/
def items? : Value → Option (List Value)
  | .missing => some []
  | .list items => some items
  | .number n => some ((List.range n.toNat).map fun i => .number (Int.ofNat i))
  | _ => none

end Value

end Literate.Template
