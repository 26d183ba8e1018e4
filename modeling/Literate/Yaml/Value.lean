import Literate.Yaml
import Literate.Number
import Literate.Duration
import Literate.Text.Base64

/-! What the scalars of a YAML document mean where a value of a certain type is wanted. -/

namespace Literate.Yaml

inductive Value where
  | null
  | boolean (b : Bool)
  | integer (n : Int)
  /-- A number with a fraction or an exponent, by its integer part if 64 bits can hold it. -/
  | float (whole : Option Int)
  | text (t : Text)
deriving DecidableEq, Repr

/-- A number in decimal notation: its sign, its digits as a fraction, and its power of ten. -/
structure Decimal where
  negative : Bool
  digits : Nat
  places : Nat
  exponent : Int
deriving DecidableEq, Repr

def digitsNumber (t : Text) : Nat := t.foldl (fun n b => 10 * n + (b.toNat - 48)) 0

/-- Reads an exponent, if there is one. -/
def exponent? (t : Text) : Option Int :=
  match t with
  | [] => some 0
  | e :: rest =>
    let (negative, digits) := Number.unsigned rest
    if Text.lowerByte e ≠ 101 ∨ digits = [] ∨ !digits.all Text.isDigitByte then none
    else
      let n : Int := digitsNumber digits
      some (if negative then -n else n)

def decimal? (t : Text) : Option Decimal :=
  let (negative, rest) := Number.unsigned t
  let whole := rest.takeWhile Text.isDigitByte
  let rest := rest.dropWhile Text.isDigitByte
  let (places, rest) : Text × Text := match rest with
    | 46 :: after => (after.takeWhile Text.isDigitByte, after.dropWhile Text.isDigitByte)
    | _ => ([], rest)
  if whole = [] ∧ places = [] then none
  else (exponent? rest).map fun e =>
    ⟨negative, digitsNumber (whole ++ places), places.length, e⟩

/-- No number above this power of ten can be represented. -/
def largestPower : Int := 308

/-- The integer part of a number with 53 significant bits, as a number of 64 bits. One above the
range cannot be had; one below it, and the limit itself, are taken for the least number. -/
def wholePart (negative : Bool) (num den : Nat) : Option Int :=
  let (num, den) := Number.nearest num den
  let whole := num / den
  let least : Int := -Number.signedLimit
  if negative then some (if whole ≥ Number.signedLimit then least else -(whole : Int))
  else if num > Number.signedLimit * den then none
  else some (if whole ≥ Number.signedLimit then least else whole)

/-- The value of a decimal, if it is not too large for any. -/
def Decimal.value? (d : Decimal) : Option Value :=
  let size : Int := (Nat.toDigits 10 d.digits).length
  let power := d.exponent - d.places
  if d.digits = 0 ∨ power + size < -400 then some (.float (some 0))
  else if power + size > largestPower + 1 then none
  else some (.float (wholePart d.negative (d.digits * Nat.pow 10 power.toNat)
      (Nat.pow 10 (-power).toNat)))

/-- Reads a number after a two-letter mark of its base. -/
def marked? (mark : Text) (base : Nat) (t : Text) : Option Value :=
  let (negative, rest) := Number.unsigned t
  match Text.after? mark rest with
  | none => none
  | some digits =>
    match Number.natural base (Number.wordRange - 1) 0 digits with
    | .error _ => none
    | .ok n => (Number.withSign negative n).toOption.map .integer

/-- A number that begins with a digit or a sign. -/
def number? (t : Text) : Option Value :=
  let t := t.filter (· != 95)
  let (negative, rest) := Number.unsigned t
  match Number.anyBase (Number.wordRange - 1) rest with
  | .ok n =>
    if !negative then some (.integer n)
    else match Number.withSign true n with
      | .ok i => some (.integer i)
      | .error _ => (decimal? t).bind Decimal.value?
  | .error _ =>
    match (decimal? t).bind Decimal.value? with
    | some v => some v
    | none => (marked? "0b" 2 t).or (marked? "0o" 8 t)

/-- Words that are not text. -/
def wordValue? (t : Text) : Option Value :=
  let isOneOf (ws : List Text) : Bool := decide (t ∈ ws)
  if isOneOf ["", "~", "null", "Null", "NULL"] then some .null
  else if isOneOf ["true", "True", "TRUE"] then some (.boolean true)
  else if isOneOf ["false", "False", "FALSE"] then some (.boolean false)
  else if isOneOf [".nan", ".NaN", ".NAN", ".inf", ".Inf", ".INF", "+.inf", "+.Inf", "+.INF"] then
    some (.float none)
  else if isOneOf ["-.inf", "-.Inf", "-.INF"] then some (.float (some (-Number.signedLimit)))
  else none

/-- The meaning of a plain scalar. -/
def plainValue (t : Text) : Value :=
  match wordValue? t with
  | some v => v
  | none =>
    match t with
    | [] => .null
    | b :: _ =>
      if b = 46 then ((decimal? t).bind Decimal.value?).getD (.text t)
      else if Text.isDigitByte b || b == 43 || b == 45 then (number? t).getD (.text t)
      else .text t

/-- A day of a month in a year, written with digits and dashes. -/
def isDay (t : Text) : Bool :=
  match (Text.split 45 t).map fun part => (part.length, Text.toNat? part) with
  | [(4, some year), (m, some month), (d, some day)] =>
    let leap := year % 4 == 0 && (year % 100 != 0 || year % 400 == 0)
    let lengths := [31, if leap then 29 else 28, 31, 30, 31, 30, 31, 31, 30, 31, 30, 31]
    m ≤ 2 && d ≤ 2 && 1 ≤ month && 1 ≤ day && (lengths[month - 1]?).any (day ≤ ·)
  | _ => false

/-- A time of day: hours, minutes and seconds, which may have a fraction. -/
def isClock (t : Text) : Bool :=
  let inRange (limit : Nat) (part : Text) : Bool :=
    part.length ≤ 2 && (Text.toNat? part).any (· < limit)
  match Text.split 58 t with
  | [hours, minutes, seconds] =>
    let whole := seconds.takeWhile Text.isDigitByte
    let fraction := seconds.drop whole.length
    inRange 24 hours && inRange 60 minutes && inRange 60 whole &&
      (fraction == [] || fraction.length > 1 && (fraction.head? == some 46 ||
        fraction.head? == some 44) && (fraction.drop 1).all Text.isDigitByte)
  | _ => false

/-- The distance of a zone: a letter, or a sign with hours and minutes. -/
def isZone (t : Text) : Bool :=
  t == [90] ||
    match t with
    | [sign, a, b, 58, c, d] =>
      (sign == 43 || sign == 45) && [a, b, c, d].all Text.isDigitByte &&
        (Text.toNat? [a, b]).any (· ≤ 24) && (Text.toNat? [c, d]).any (· < 60)
    | _ => false

/-- A day, or a day with a time. -/
def isTimestamp (t : Text) : Bool :=
  isDay t ||
    match t.findIdx? fun b => b == 84 || b == 116 || b == 32 with
    | none => false
    | some i =>
      let clock := t.drop (i + 1)
      let time := clock.takeWhile fun b => b != 90 && b != 43 && b != 45
      isDay (t.take i) && isClock time &&
        if t[i]? = some 32 then time == clock else isZone (clock.drop time.length)

/-- The value has the type that a tag names. -/
def Value.fits (tag : Text) : Value → Bool
  | .null => tag == Text.ofString "!!null"
  | .boolean _ => tag == Text.ofString "!!bool"
  | .integer n =>
    tag == Text.ofString "!!int" || tag == Text.ofString "!!float" && n < Number.signedLimit
  | .float _ => tag == Text.ofString "!!float"
  | .text t => tag == Text.ofString "!!timestamp" && isTimestamp t

/-- The tags that tell the type of a plain scalar. -/
def typeTags : List Text := ["!!null", "!!bool", "!!int", "!!float", "!!timestamp"]

/-- The meaning of a scalar node, or nothing if its tag does not fit it. Under a tag that is not
known a scalar is text. -/
def scalarValue? (text : List Char) (tag : Option (List Char)) (plain : Bool) : Option Value :=
  let t := Text.ofChars text
  match tag.map Text.ofChars with
  | none => some (if plain then plainValue t else .text t)
  | some name =>
    if name = ("!" : Text) then some (if plain then plainValue t else .text t)
    else if name = ("!!binary" : Text) then (Base64.decode? t).map .text
    else if name ∉ typeTags then some (.text t)
    else if (plainValue t).fits name then some (plainValue t)
    else none

/-- What a node gives where a value is wanted. -/
inductive Reading (α : Type) where
  | value (a : α)
  /-- A null, which leaves things as they are. -/
  | absent
  | mismatch

/-- The value of a scalar, and how it is written. -/
def Node.value? : Node → Option (Value × Text)
  | .scalar text tag plain => (scalarValue? text tag plain).map fun v => (v, Text.ofChars text)
  | .alias _ n => n.value?
  | _ => none

/-- A text is wanted: any scalar will do, as it is written. -/
def Node.text (n : Node) : Reading Text :=
  match n.value? with
  | none => .mismatch
  | some (.null, _) => .absent
  | some (.text t, _) => .value t
  | some (_, t) => .value t

/-- Words for truth values where one is wanted. -/
def trueWords : List Text := ["y", "Y", "yes", "Yes", "YES", "on", "On", "ON"]

def falseWords : List Text := ["n", "N", "no", "No", "NO", "off", "Off", "OFF"]

def Node.flag (n : Node) : Reading Bool :=
  match n.value? with
  | none => .mismatch
  | some (.null, _) => .absent
  | some (.boolean b, _) => .value b
  | some (.text t, _) =>
    if t ∈ trueWords then .value true else if t ∈ falseWords then .value false else .mismatch
  | some _ => .mismatch

def Node.count (n : Node) : Reading Int :=
  match n.value? with
  | none => .mismatch
  | some (.null, _) => .absent
  | some (.integer i, _) => if i < Number.signedLimit then .value i else .mismatch
  | some (.float (some i), _) => .value i
  | some _ => .mismatch

/-- A span of time is wanted: text only, not a bare number. -/
def Node.duration (n : Node) : Reading Int :=
  match n.value? with
  | none => .mismatch
  | some (.null, _) => .absent
  | some (.text t, _) =>
    match Duration.parse? t with
    | some d => .value d
    | none => .mismatch
  | some _ => .mismatch

/-- The texts of a sequence without its nulls. -/
def textItems : List Node → Option (List Text)
  | [] => some []
  | n :: rest =>
    match n.text, textItems rest with
    | .value t, some ts => some (t :: ts)
    | .absent, some ts => some ts
    | _, _ => none

/-- What an alias stands for. -/
def Node.meant : Node → Node
  | .alias _ n => n.meant
  | n => n

/-- A list of texts is wanted; a null stands for the empty one. -/
def Node.texts (n : Node) : Reading (List Text) :=
  match n.meant with
  | .sequence items =>
    match textItems items with
    | some ts => .value ts
    | none => .mismatch
  | n =>
    match n.value? with
    | some (.null, _) => .value []
    | _ => .mismatch

/-- Two keys are equal if both are scalars of one text, or collections of one kind, or name the
same node. -/
def Node.sameKey : Node → Node → Bool
  | .scalar a _ _, .scalar b _ _ => a == b
  | .sequence _, .sequence _ => true
  | .mapping _, .mapping _ => true
  | .alias a _, .alias b _ => a == b
  | _, _ => false

/-- No key is given twice. -/
def distinctKeys : List (Node × Node) → Bool
  | [] => true
  | (k, _) :: rest => !(rest.any fun e => k.sameKey e.1) && distinctKeys rest

/-- The key under which the entries of other mappings are taken over. -/
def Node.isMerge : Node → Bool
  | .scalar text tag plain =>
    text == ['<', '<'] &&
      match tag with
      | none => plain
      | some tag => tag == ['!'] && plain || tag == "!!merge".toList
  | _ => false

/-- The mappings that a merge names: one, or several in a sequence. -/
def Node.mergeSources : Node → Option (List (List (Node × Node)))
  | .mapping entries | .alias _ (.mapping entries) => some [entries]
  | .sequence items => items.mapM fun
    | .mapping entries | .alias _ (.mapping entries) => some entries
    | _ => none
  | _ => none

/-- The entries of a mapping by the text of their keys, without null keys. -/
def keyed : List (Node × Node) → Option (List (Text × Node))
  | [] => some []
  | (k, v) :: rest =>
    if k.isMerge then keyed rest
    else match k.text, keyed rest with
      | .value t, some es => some ((t, v) :: es)
      | .absent, some es => some es
      | _, _ => none

/-- Mappings are merged into one another no deeper than this. -/
def mergeLimit : Nat := 1000

/-- The keys of a mapping that are text. -/
def textKeys (entries : List (Node × Node)) : List Text :=
  entries.filterMap fun (k, _) => match k.value? with
    | some (.text t, _) => some t
    | _ => none

/-- All entries of a mapping: its own and then those of the mappings it merges, of which `taken`
keys are left out. The keys that were met come with them. -/
def allEntries : Nat → Option (List Text) → List (Node × Node) →
    Option (List (Text × Node) × List Text)
  | 0, _, _ => none
  | depth + 1, taken, entries =>
    if !distinctKeys entries then none
    else match keyed entries with
      | none => none
      | some own =>
        let kept := own.filter fun (k, _) => !(taken.getD []).contains k
        let taken := match taken with
          | none => textKeys entries
          | some names => names ++ kept.map Prod.fst
        match entries.find? fun e => e.1.isMerge with
        | none => some (kept, taken)
        | some (_, n) =>
          match n.mergeSources with
          | none => none
          | some sources =>
            sources.foldlM (fun (all, taken) source =>
              (allEntries depth (some taken) source).map fun (more, taken) =>
                (all ++ more, taken)) (kept, taken)

/-- The entries of a mapping, merged ones included. -/
def entries? (entries : List (Node × Node)) : Option (List (Text × Node)) :=
  (allEntries mergeLimit none entries).map Prod.fst

/-- Keys with texts, each once; a null is the empty text. -/
def textEntries (entries : List (Text × Node)) : Option (List (Text × Text)) :=
  entries.foldlM (fun table (k, v) =>
    let put (t : Text) : List (Text × Text) := (table.filter fun e => e.1 != k) ++ [(k, t)]
    match v.text with
    | .value t => some (put t)
    | .absent => some (put [])
    | .mismatch => none) []

/-- A table of texts is wanted; a null stands for the empty one. -/
def Node.table (n : Node) : Reading (List (Text × Text)) :=
  match n.meant with
  | .mapping entries =>
    match (entries? entries).bind textEntries with
    | some es => .value es
    | none => .mismatch
  | n =>
    match n.value? with
    | some (.null, _) => .value []
    | _ => .mismatch

end Literate.Yaml
