import Literate.Location

/-! What can go wrong when a name is resolved or a chunk is expanded. A fault is a cause with the
position of the command that met it; the wording of each cause is given once, in `Cause.message`. -/

namespace Literate

inductive Fault.Cause where
  /-- An abbreviation that several names complete. -/
  | ambiguous (target : Text) (candidates : List Text)
  /-- An abbreviation that no name completes. -/
  | noFullName (target : Text)
  | undefined (name : Text)
  /-- Prose where code is expected. -/
  | textBlock (text : Text)
  /-- A cross reference where code is expected. -/
  | crossReference
  /-- A chunk that refers to itself along the given path. -/
  | cycle (path : List Text)
deriving DecidableEq, Repr

structure Fault where
  cause : Fault.Cause
  location : Location
deriving DecidableEq, Repr

namespace Fault

/-- The start of a text, cut after 24 bytes. -/
def excerpt (text : Text) : Text :=
  if text.length ≤ 24 then text else text.take 24 ++ " [...]"

def Cause.message : Cause → Text
  | .ambiguous target candidates =>
    "ambiguous abbreviation '" ++ target ++ "', matches [" ++
      Text.join ", " (candidates.map fun c => "'" ++ c ++ "'") ++ "]"
  | .noFullName target => "no full name for '" ++ target ++ "'"
  | .undefined name => "attempt to tangle an undefined chunk '" ++ name ++ "'"
  | .textBlock text => "attempt to tangle a text block '" ++ excerpt text ++ "'"
  | .crossReference => "illegal tangling of a cross reference"
  | .cycle path => "reference cycle: " ++ Text.join " -> " path

def message (f : Fault) : Text :=
  if f.location.name = [] then f.cause.message
  else f.location.text ++ ": " ++ f.cause.message

/-- Gives a position to a fault that has none. -/
def locate (f : Fault) (l : Location) : Fault :=
  if f.location.name = [] then { f with location := l } else f

end Fault

end Literate
