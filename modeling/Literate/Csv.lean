import Literate.Text

/-! Comma-separated values: how one argument lists several. Only the first record of a text is
read. A field may stand between quotes, where a quote is written twice. -/

namespace Literate.Csv

/-- A line and a byte of it, both counted from one. -/
structure Position where
  line : Nat := 1
  column : Nat := 1
deriving DecidableEq, Repr

def Position.right (n : Nat) (p : Position) : Position := { p with column := p.column + n }

inductive Cause where
  | bareQuote
  | looseQuote
deriving DecidableEq, Repr

def Cause.message : Cause → Text
  | .bareQuote => "bare \" in non-quoted field"
  | .looseQuote => "extraneous or missing \" in quoted-field"

inductive Fault where
  /-- There is no line that is not empty. -/
  | noRecord
  | malformed (firstLine : Nat) (place : Position) (cause : Cause)
deriving DecidableEq, Repr

def Fault.message : Fault → Text
  | .noRecord => "EOF"
  | .malformed firstLine place cause =>
    let start : Text :=
      if firstLine = place.line then [] else "record on line " ++ Text.ofNat firstLine ++ "; "
    start ++ "parse error on line " ++ Text.ofNat place.line ++ ", column " ++
      Text.ofNat place.column ++ ": " ++ cause.message

def quote : UInt8 := 34

def comma : UInt8 := 44

/-- Ends every line in a newline alone; at the end of the text a return is dropped as well. -/
def normalize (t : Text) : Text :=
  Text.replace "\r\n" "\n" (if t.getLast? = some 13 then t.dropLast else t)

/-- Passes over empty lines; gives the number of the first that is not. -/
def skipEmpty : Nat → Text → Nat × Text
  | line, [] => (line, [])
  | line, b :: rest => if b = Text.newline then skipEmpty (line + 1) rest else (line, b :: rest)

/-- Where reading is: before a field, or in one that does or does not stand between quotes. -/
inductive Mode where
  | start
  | bare
  | quoted
  /-- After a quote in a quoted field, which ends it unless another one follows. -/
  | closing
deriving DecidableEq, Repr

structure State where
  mode : Mode := .start
  place : Position
  fields : List Text := []
  field : Text := []
deriving Repr

/-- The fields read so far, with the one that is being read. -/
def State.done (s : State) : List Text := s.fields ++ [s.field]

def State.push (b : UInt8) (s : State) : State :=
  { s with field := s.field ++ [b], place := s.place.right 1 }

def State.next (s : State) : State :=
  { mode := .start, place := s.place.right 1, fields := s.done }

/-- Reads fields up to the end of the record. -/
def readFields (firstLine : Nat) : State → Text → Except Fault (List Text)
  | s, [] =>
    if s.mode = .quoted then .error (.malformed firstLine s.place .looseQuote) else .ok s.done
  | s, b :: rest =>
    match s.mode with
    | .start =>
      if b = quote then
        readFields firstLine { s with mode := .quoted, place := s.place.right 1 } rest
      else if b = comma then readFields firstLine s.next rest
      else if b = Text.newline then .ok s.done
      else readFields firstLine { s.push b with mode := .bare } rest
    | .bare =>
      if b = quote then .error (.malformed firstLine s.place .bareQuote)
      else if b = comma then readFields firstLine s.next rest
      else if b = Text.newline then .ok s.done
      else readFields firstLine (s.push b) rest
    | .quoted =>
      if b = quote then
        readFields firstLine { s with mode := .closing, place := s.place.right 1 } rest
      else if b = Text.newline ∧ rest ≠ [] then
        readFields firstLine { s.push b with place := ⟨s.place.line + 1, 1⟩ } rest
      else readFields firstLine (s.push b) rest
    | .closing =>
      if b = quote then readFields firstLine { s.push b with mode := .quoted } rest
      else if b = comma then readFields firstLine s.next rest
      else if b = Text.newline then .ok s.done
      else .error (.malformed firstLine { s.place with column := s.place.column - 1 } .looseQuote)

/-- The fields of the first record. An empty text has a record without fields. -/
def fields (t : Text) : Except Fault (List Text) :=
  if t = [] then .ok []
  else
    match skipEmpty 1 (normalize t) with
    | (_, []) => .error .noRecord
    | (line, t) => readFields line { place := ⟨line, 1⟩ } t

end Literate.Csv
