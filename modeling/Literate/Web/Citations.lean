import Literate.Web

/-! Citations: who referred to whom while files were expanded. -/

namespace Literate

/-- The cited chunk and the chunk that cites it, if that is known. -/
structure Citation where
  cited : Nat
  citing : Option Nat
deriving DecidableEq, Repr

/-- Citations in the order in which they were met. -/
abbrev Citations := List Citation

namespace Citations

/-- How often a chunk was cited. -/
def count (cs : Citations) (i : Nat) : Nat := cs.countP fun c => c.cited == i

/-- The chunks that cite a chunk, in the order of their first citation. -/
def referrers (cs : Citations) (i : Nat) : List Nat :=
  (cs.filterMap fun c => if c.cited = i then c.citing else none).foldl
    (fun seen j => if j ∈ seen then seen else seen ++ [j]) []

end Citations

/-- Follows first referrers from `here`, at most `fuel` of them, and stops before it repeats. -/
def climb (referrers : Nat → List Nat) (start : Nat) (fuel here : Nat) (chain : List Nat) :
    List Nat :=
  match fuel with
  | 0 => chain
  | fuel + 1 =>
    match referrers here with
    | [] => chain
    | parent :: _ =>
      if parent = start ∨ parent ∈ chain then chain
      else climb referrers start fuel parent (chain ++ [parent])

/-- The chain of first referrers of a chunk, up to one that nothing refers to. -/
def Citations.ancestry (cs : Citations) (w : Web) (i : Nat) : List Nat :=
  climb cs.referrers i w.size i []

namespace Web

/-- Named chunks that nothing cited. -/
def uncited (w : Web) (cs : Citations) : List Nat :=
  (w.positions fun c => c.kind == .named).filter fun i => cs.count i == 0

/-- Named chunks that were cited more than once. -/
def citedOften (w : Web) (cs : Citations) : List Nat :=
  (w.positions fun c => c.kind == .named).filter fun i => cs.count i > 1

end Web

end Literate
