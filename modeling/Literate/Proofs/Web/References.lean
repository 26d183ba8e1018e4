import Literate.Proofs.Web.Citations
import Literate.Proofs.Web.Indices
import Literate.Web.References

/-! What is on record of references is read by nothing that names, finds or shows chunks. What
citations leave on record is their number and the chunks that they come from. -/

namespace Literate

theorem Citations.referrers_append_singleton (cs : Citations) (c : Citation) (i : Nat) :
    Citations.referrers (cs ++ [c]) i =
      if c.cited = i then c.citing.toList.foldl collect (cs.referrers i) else cs.referrers i := by
  obtain ⟨cited, citing⟩ := c
  by_cases hc : cited = i
  · cases citing <;> simp [referrers_eq, hc]
  · simp [referrers_eq, hc]

namespace Web

/-- The web with other references on record. -/
def withReferences (w : Web) (references : Nat → Nat) (referencedBy : Nat → List Nat) : Web :=
  { w with entries := w.entries.mapIdx fun i e =>
      { e with references := references i, referencedBy := referencedBy i } }

section Readers

variable (w : Web) (f : Nat → Nat) (g : Nat → List Nat) (i : Nat)

theorem getElem?_withReferences : (w.withReferences f g).entries[i]? =
    w.entries[i]?.map fun e => { e with references := f i, referencedBy := g i } := by
  simp [withReferences]

@[simp] theorem size_withReferences : (w.withReferences f g).size = w.size := by
  simp [size, withReferences]

@[simp] theorem definitions_withReferences :
    (w.withReferences f g).definitions = w.definitions := rfl

/-- What is read of an entry, but for the references, is as it was. -/
theorem map_getElem?_withReferences {β : Type} (read : Entry → β)
    (h : ∀ e n us, read { e with references := n, referencedBy := us } = read e) :
    (w.withReferences f g).entries[i]?.map read = w.entries[i]?.map read := by
  rw [getElem?_withReferences]
  cases w.entries[i]? with
  | none => rfl
  | some e => exact congrArg some (h e _ _)

@[simp] theorem chunk_withReferences : (w.withReferences f g).chunk i = w.chunk i := by
  rw [chunk, chunk, map_getElem?_withReferences w f g i _ fun _ _ _ => rfl]

@[simp] theorem seq_withReferences : (w.withReferences f g).seq i = w.seq i := by
  rw [seq, seq, map_getElem?_withReferences w f g i _ fun _ _ _ => rfl]

@[simp] theorem fullName_withReferences : (w.withReferences f g).fullName i = w.fullName i := by
  rw [fullName, fullName, map_getElem?_withReferences w f g i _ fun _ _ _ => rfl]

@[simp] theorem displayName_withReferences :
    (w.withReferences f g).displayName i = w.displayName i := by
  rw [displayName, displayName, map_getElem?_withReferences w f g i _ fun _ _ _ => rfl]

@[simp] theorem resolve_withReferences (name : Text) :
    (w.withReferences f g).resolve name = w.resolve name := rfl

@[simp] theorem lookup_withReferences (name : Text) :
    (w.withReferences f g).lookup name = w.lookup name := rfl

@[simp] theorem positions_withReferences (p : Chunk → Bool) :
    (w.withReferences f g).positions p = w.positions p := by
  simp [positions]

@[simp] theorem files_withReferences : (w.withReferences f g).files = w.files := by
  simp [files]

@[simp] theorem usedBy_withReferences : (w.withReferences f g).usedBy i = w.usedBy i := by
  rw [usedBy, usedBy, getElem?_withReferences]
  cases w.entries[i]? <;> rfl

@[simp] theorem documentText_withReferences (name : Text) :
    (w.withReferences f g).documentText name = w.documentText name := by
  simp [documentText]

@[simp] theorem macros_withReferences : (w.withReferences f g).macros = w.macros := by
  simp [macros]

@[simp] theorem userIds_withReferences : (w.withReferences f g).userIds = w.userIds := rfl

end Readers

/-- The web with what citations leave on record. -/
def recorded (w : Web) (cs : Citations) : Web := w.withReferences cs.count cs.referrers

section Recorded

variable (w : Web) (cs : Citations)

@[simp] theorem chunk_recorded (i : Nat) : (w.recorded cs).chunk i = w.chunk i :=
  w.chunk_withReferences _ _ i

theorem addReferrer_recorded (c : Citation) :
    (w.recorded cs).addReferrer c = w.recorded (cs ++ [c]) := by
  have hentries : (w.recorded cs).entries.modify c.cited (Entry.addReferrer c.citing) =
      (w.recorded (cs ++ [c])).entries := by
    refine List.ext_getElem? fun i => ?_
    rw [List.getElem?_modify, recorded, recorded, getElem?_withReferences, getElem?_withReferences,
      Citations.count_append, Citations.referrers_append_singleton]
    cases w.entries[i]? with
    | none => simp
    | some e =>
      by_cases hi : c.cited = i
      · cases c.citing <;> simp [hi, Entry.addReferrer, Citations.count, collect]
      · simp [hi, Citations.count]
  rw [addReferrer, hentries]
  rfl

theorem foldl_addReferrer_recorded (ds : Citations) :
    ds.foldl addReferrer (w.recorded cs) = w.recorded (cs ++ ds) := by
  induction ds generalizing cs with
  | nil => simp
  | cons c ds ih => simp [addReferrer_recorded, ih]

theorem resetReferences_recorded : (w.recorded cs).resetReferences = w.recorded [] := by
  have hentries : (w.recorded cs).entries.map Entry.resetReferences = (w.recorded []).entries := by
    refine List.ext_getElem? fun i => ?_
    rw [List.getElem?_map, recorded, recorded, getElem?_withReferences, getElem?_withReferences,
      Option.map_map]
    rfl
  rw [resetReferences, hentries]
  rfl

theorem references_recorded {i : Nat} (hi : i < w.size) :
    (w.recorded cs).references i = cs.count i := by
  have hentry : w.entries[i]? = some w.entries[i] := List.getElem?_eq_getElem hi
  simp [references, recorded, getElem?_withReferences, hentry]

theorem referencedBy_recorded {i : Nat} (hi : i < w.size) :
    (w.recorded cs).referencedBy i = cs.referrers i := by
  have hentry : w.entries[i]? = some w.entries[i] := List.getElem?_eq_getElem hi
  simp [referencedBy, recorded, getElem?_withReferences, hentry]

theorem lt_size_of_mem_positions {w : Web} {p : Chunk → Bool} {i : Nat} (h : i ∈ w.positions p) :
    i < w.size := List.mem_range.1 (List.mem_filter.1 h).1

theorem noReference_recorded : (w.recorded cs).noReference = w.uncited cs := by
  rw [noReference, recorded, positions_withReferences]
  exact List.filter_congr fun i hi => by
    rw [← recorded, references_recorded w cs (lt_size_of_mem_positions hi)]

theorem multiReference_recorded : (w.recorded cs).multiReference = w.citedOften cs := by
  rw [multiReference, recorded, positions_withReferences]
  exact List.filter_congr fun i hi => by
    rw [← recorded, references_recorded w cs (lt_size_of_mem_positions hi)]

/-- Climbing on record and climbing by the citations meet the same chunks. -/
theorem ancestry_recorded (hcs : Citations.Grounded w cs) {i : Nat} (hi : i < w.size) :
    (w.recorded cs).ancestry i = cs.ancestry w i := by
  have hclimb : ∀ (fuel here : Nat) (chain : List Nat), here < w.size →
      climb (w.recorded cs).referencedBy i fuel here chain = climb cs.referrers i fuel here chain := by
    intro fuel
    induction fuel with
    | zero => exact fun here chain _ => rfl
    | succ fuel ih =>
      intro here chain hhere
      rw [climb, climb, referencedBy_recorded w cs hhere]
      rcases hus : cs.referrers here with _ | ⟨u, us⟩
      · rfl
      · have hmem : u ∈ cs.referrers here := by simp [hus]
        simp only [ih u _ (hcs.citing_lt_size (Citations.mem_referrers.1 hmem))]
  rw [ancestry, Citations.ancestry, recorded, size_withReferences, ← recorded, hclimb _ _ _ hi]

end Recorded

theorem unreferenced_of (names : List Text) (chunks : List Chunk) :
    ∀ e ∈ (Numbering.of names chunks).entries, e.references = 0 ∧ e.referencedBy = [] := by
  induction chunks using List.reverseRecOn with
  | nil => simp [Numbering.of]
  | append_singleton chunks c ih =>
    rw [Numbering.of_concat, Numbering.entries_add_entry]
    simpa [or_imp, forall_and, Numbering.entry] using ih

/-- A web is built without references on record. -/
theorem recorded_ofChunks (path : Text) (chunks : List Chunk) :
    (ofChunks path chunks).recorded [] = ofChunks path chunks := by
  have hentries : ((ofChunks path chunks).recorded []).entries = (ofChunks path chunks).entries := by
    refine List.ext_getElem? fun i => ?_
    rw [recorded, getElem?_withReferences]
    cases he : (ofChunks path chunks).entries[i]? with
    | none => rfl
    | some e =>
      obtain ⟨hn, hus⟩ := unreferenced_of _ chunks e (List.mem_of_getElem? he)
      obtain ⟨chunk, seq, initial, fullName, references, referencedBy⟩ := e
      cases hn
      cases hus
      rfl
  exact congrArg (fun entries => { ofChunks path chunks with entries }) hentries

end Web

end Literate
