/-! Byte strings. Names, paths and file contents may hold any bytes, so text is a list of bytes,
and it is decoded only where a rule speaks of characters. -/

namespace Literate

abbrev Text := List UInt8

namespace Text

def utf8 (c : Char) : Text := String.utf8EncodeChar c

def ofChars (cs : List Char) : Text := cs.flatMap utf8

def ofString (s : String) : Text := s.toByteArray.data.toList

instance : Coe String Text := ⟨ofString⟩

instance : LawfulBEq Text := inferInstance

@[simp] theorem ofChars_nil : ofChars [] = [] := rfl

@[simp] theorem ofChars_cons (c : Char) (cs : List Char) :
    ofChars (c :: cs) = utf8 c ++ ofChars cs := rfl

@[simp] theorem ofChars_append (a b : List Char) :
    ofChars (a ++ b) = ofChars a ++ ofChars b := by
  simp [ofChars]

def ofNat (n : Nat) : Text := ofChars (Nat.toDigits 10 n)

def ofInt : Int → Text
  | .ofNat n => ofNat n
  | .negSucc n => "-" ++ ofNat (n + 1)

def newline : UInt8 := 10

/-- The parts between the occurrences of a byte: always one more than there are occurrences. -/
def split (sep : UInt8) : Text → List Text
  | [] => [[]]
  | b :: rest =>
    if b = sep then [] :: split sep rest
    else match split sep rest with
      | [] => [[b]]
      | first :: more => (b :: first) :: more

def join (sep : Text) (parts : List Text) : Text := sep.intercalate parts

def lines (parts : List Text) : Text := join [newline] parts

/-- The rest of a text after one that it starts with. -/
def after? (start : Text) : Text → Option Text := fun t =>
  if start.isPrefixOf t then some (t.drop start.length) else none

/-- The text before the first occurrence of `sep` and the text after it. -/
def cut? (sep : Text) : Text → Option (Text × Text)
  | [] => if sep = [] then some ([], []) else none
  | b :: rest =>
    if sep.isPrefixOf (b :: rest) then some ([], (b :: rest).drop sep.length)
    else (cut? sep rest).map fun (before, tail) => (b :: before, tail)

def contains (t part : Text) : Bool := (cut? part t).isSome

/-- Replaces, from left to right, each occurrence of the first text that matches at a position.
The counter holds the bytes of a match still to be passed over. -/
def replaceFrom (table : List (Text × Text)) : Nat → Text → Text
  | _, [] => []
  | k + 1, _ :: rest => replaceFrom table k rest
  | 0, b :: rest =>
    match table.find? fun (old, _) => old.isPrefixOf (b :: rest) with
    | some (old, new) => new ++ replaceFrom table (old.length - 1) rest
    | none => b :: replaceFrom table 0 rest

/-- Replaces all occurrences of the given non-empty texts in one pass; of two that match at the
same position the one listed first is taken. -/
def replaceAny (table : List (Text × Text)) (t : Text) : Text := replaceFrom table 0 t

def replace (old new t : Text) : Text := replaceAny [(old, new)] t

def lowerByte (b : UInt8) : UInt8 := if 65 ≤ b ∧ b ≤ 90 then b + 32 else b

def upperByte (b : UInt8) : UInt8 := if 97 ≤ b ∧ b ≤ 122 then b - 32 else b

/-- Lower case of the ASCII letters; all other bytes stay. -/
def lowerAscii (t : Text) : Text := t.map lowerByte

def isDigitByte (b : UInt8) : Bool := 48 ≤ b ∧ b ≤ 57

def isLetterByte (b : UInt8) : Bool := (65 ≤ b ∧ b ≤ 90) ∨ (97 ≤ b ∧ b ≤ 122)

def isHexByte (b : UInt8) : Bool := isDigitByte b || (65 ≤ b ∧ b ≤ 70) || (97 ≤ b ∧ b ≤ 102)

def hexDigit (n : Nat) : UInt8 := if n < 10 then (48 + n).toUInt8 else (87 + n).toUInt8

def hexUpperDigit (n : Nat) : UInt8 := if n < 10 then (48 + n).toUInt8 else (55 + n).toUInt8

/-- The value of a hexadecimal digit of either case, zero for any other byte. -/
def hexValue (b : UInt8) : Nat :=
  if isDigitByte b then b.toNat - 48
  else if 65 ≤ b ∧ b ≤ 70 then b.toNat - 55
  else if 97 ≤ b ∧ b ≤ 102 then b.toNat - 87
  else 0

def hexByte (b : UInt8) : Text := [hexDigit (b.toNat / 16), hexDigit (b.toNat % 16)]

/-- The lower-case hexadecimal digits of a number, at least `width` of them. -/
def hexOfNat (width n : Nat) : Text :=
  let digits := ofChars (Nat.toDigits 16 n)
  List.replicate (width - digits.length) 48 ++ digits

/-- The number written in decimal digits only; `none` when there is anything else or nothing. -/
def toNat? (t : Text) : Option Nat :=
  if t.isEmpty || !t.all isDigitByte then none
  else some (t.foldl (fun n b => 10 * n + (b.toNat - 48)) 0)

/-- Bytewise order. -/
def le (a b : Text) : Bool := decide (a ≤ b)

def lt (a b : Text) : Bool := decide (a < b)

/-- The texts in ascending bytewise order. -/
def sort (ts : List Text) : List Text := ts.mergeSort le

/-- Keeps the first of equal texts. -/
def distinct (ts : List Text) : List Text :=
  ts.foldl (fun seen t => if t ∈ seen then seen else seen ++ [t]) []

end Text

end Literate
