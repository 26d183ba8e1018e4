import Literate.Text

/-! Log records and the count of what was reported. -/

namespace Literate.Log

/-- Levels are numbers; four of them have names. -/
abbrev Level := Int

def debug : Level := -4
def info : Level := 0
def warn : Level := 4
def error : Level := 8

inductive Value where
  | text (t : Text)
  | number (n : Int)
deriving DecidableEq, Repr

def Value.display : Value → Text
  | .text t => t
  | .number n => Text.ofInt n

abbrev Attribute := Text × Value

structure Record where
  level : Level
  message : Text
  attributes : List Attribute := []
deriving DecidableEq, Repr

/-- The record as a logger with attributes of its own passes it on. -/
def Record.under (common : List Attribute) (r : Record) : Record :=
  { r with attributes := common ++ r.attributes }

def all (common : List Attribute) (rs : List Record) : List Record := rs.map (Record.under common)

/-- How many warnings and errors were reported, whatever was shown of them. -/
structure Tally where
  errors : Nat := 0
  warnings : Nat := 0
deriving DecidableEq, Repr

def Tally.count (t : Tally) (r : Record) : Tally :=
  if r.level ≥ error then { t with errors := t.errors + 1 }
  else if r.level ≥ warn then { t with warnings := t.warnings + 1 }
  else t

def Tally.of (rs : List Record) : Tally := rs.foldl Tally.count {}

end Literate.Log
