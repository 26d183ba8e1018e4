import Literate.Web.Citations

/-! References on record in the chunks of a web: a citation changes the chunk that is cited. -/

namespace Literate.Web

/-- The chunk is cited once more, by a chunk that may be known. -/
def Entry.addReferrer (citing : Option Nat) (e : Entry) : Entry :=
  { e with
    references := e.references + 1
    referencedBy :=
      match citing with
      | none => e.referencedBy
      | some u => if u ∈ e.referencedBy then e.referencedBy else e.referencedBy ++ [u] }

def addReferrer (w : Web) (c : Citation) : Web :=
  { w with entries := w.entries.modify c.cited (Entry.addReferrer c.citing) }

def Entry.resetReferences (e : Entry) : Entry := { e with references := 0, referencedBy := [] }

def resetReferences (w : Web) : Web := { w with entries := w.entries.map Entry.resetReferences }

def references (w : Web) (i : Nat) : Nat := (w.entries[i]?.map Entry.references).getD 0

def referencedBy (w : Web) (i : Nat) : List Nat := (w.entries[i]?.map Entry.referencedBy).getD []

/-- Named chunks without a reference on record. -/
def noReference (w : Web) : List Nat :=
  (w.positions fun c => c.kind == .named).filter fun i => w.references i == 0

/-- Named chunks with more than one reference on record. -/
def multiReference (w : Web) : List Nat :=
  (w.positions fun c => c.kind == .named).filter fun i => w.references i > 1

/-- The chain of first referrers of a chunk, up to one that nothing refers to. -/
def ancestry (w : Web) (i : Nat) : List Nat := climb w.referencedBy i w.size i []

end Literate.Web
