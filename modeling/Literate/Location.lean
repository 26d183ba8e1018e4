import Literate.Text

/-! Positions in source files. -/

namespace Literate

/-- A line of a named source, counted from one. -/
structure Location where
  name : Text
  line : Int
deriving DecidableEq, Repr

namespace Location

/-- No position. -/
def none : Location := ⟨[], 0⟩

instance : Inhabited Location := ⟨none⟩

def text (l : Location) : Text := l.name ++ ":" ++ Text.ofInt l.line

end Location

end Literate
