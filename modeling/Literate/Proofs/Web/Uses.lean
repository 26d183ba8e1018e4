import Literate.Proofs.Web.Citations
import Literate.Proofs.Web.Definitions

/-! The index of uses: under each full name stand the code chunks that refer to it, once each and in
the order of the document. -/

namespace Literate

theorem Index.get_insert (ix : Index) (name key : Text) (i : Nat) :
    (ix.insert name i).get key = if key = name then collect (ix.get key) i else ix.get key := by
  by_cases hk : key = name
  · subst hk
    by_cases hi : i ∈ ix.get key
    · simp [Index.insert, collect, hi]
    · simp [Index.insert, collect, hi, Index.get_add]
  · by_cases hi : i ∈ ix.get name
    · simp [Index.insert, hi, hk]
    · simp [Index.insert, hi, Index.get_add, hk]

namespace Web

/-- A chunk of code that refers to a full name. -/
def usesName (names : List Text) (full : Text) (c : Chunk) : Bool :=
  c.isCode && c.referenceNames.any fun name => (resolveIn names name).toOption == some full

theorem usesName_iff {names : List Text} {full : Text} {c : Chunk} :
    usesName names full c = true ↔
      c.isCode = true ∧ ∃ name ∈ c.referenceNames, resolveIn names name = .ok full := by
  have hname : ∀ name, (resolveIn names name).toOption = some full ↔
      resolveIn names name = .ok full := by
    intro name
    cases resolveIn names name <;> simp [Except.toOption]
  simp [usesName, hname]

variable (names : List Text)

theorem get_addUses (ix : Index) (c : Chunk) (i : Nat) (full : Text) :
    (addUses names ix c i).get full =
      if usesName names full c then collect (ix.get full) i else ix.get full := by
  have htwice : ∀ l : List Nat, collect (collect l i) i = collect l i := by
    intro l
    rw [collect, if_pos (mem_collect.2 (.inr rfl))]
  unfold addUses usesName
  cases c.isCode with
  | false => simp
  | true =>
    simp only [if_true, Bool.true_and]
    induction c.referenceNames generalizing ix with
    | nil => simp
    | cons name rest ih =>
      rw [List.foldl_cons, ih, List.any_cons]
      cases hname : resolveIn names name with
      | error f => simp [Except.toOption]
      | ok found =>
        by_cases hf : found = full
        · simp [Except.toOption, hf, Index.get_insert, htwice]
        · simp [Except.toOption, hf, Ne.symm hf, Index.get_insert]

theorem get_usesOf (chunks : List Chunk) (full : Text) :
    (usesOf names chunks).get full =
      (chunks.zipIdx.filter fun e => usesName names full e.1).map Prod.snd := by
  induction chunks using List.reverseRecOn with
  | nil => rfl
  | append_singleton chunks c ih =>
    have hnew : chunks.length ∉
        (chunks.zipIdx.filter fun e => usesName names full e.1).map Prod.snd := by
      simp only [List.mem_map, List.mem_filter, not_exists, not_and]
      rintro ⟨d, i⟩ ⟨hd, -⟩ rfl
      simp [List.mem_zipIdx_iff_getElem?] at hd
    have hfold : usesOf names (chunks ++ [c]) =
        addUses names (usesOf names chunks) c chunks.length := by
      simp [usesOf, List.zipIdx_append]
    rw [hfold, get_addUses, ih, List.zipIdx_append, List.filter_append, List.map_append]
    by_cases hc : usesName names full c = true
    · simp [hc, collect, hnew]
    · simp [hc]

variable (path : Text) (chunks : List Chunk)

/-- The chunks that use a definition are the chunks of code that refer to its full name. -/
theorem mem_usedBy {d u : Nat} : u ∈ (ofChunks path chunks).usedBy d ↔
    ∃ full, d ∈ (ofChunks path chunks).definitions.get full ∧
      ((ofChunks path chunks).chunk u).isCode = true ∧
      ∃ name ∈ ((ofChunks path chunks).chunk u).referenceNames,
        (ofChunks path chunks).resolve name = .ok full := by
  have huses : ∀ full, u ∈ (ofChunks path chunks).users.get full ↔
      usesName (definedNames chunks) full ((ofChunks path chunks).chunk u) = true := by
    intro full
    have hget : (ofChunks path chunks).users.get full = _ :=
      get_usesOf (definedNames chunks) chunks full
    rw [hget, chunk_ofChunks]
    cases hc : chunks[u]? with
    | none =>
      have hdefault : usesName (definedNames chunks) full default = false := rfl
      simp [List.mem_zipIdx_iff_getElem?, hc, hdefault]
    | some c => simp [List.mem_zipIdx_iff_getElem?, hc]
  simp only [mem_definitions_iff_fullName, usedBy]
  cases hfull : (ofChunks path chunks).entries[d]?.bind Entry.fullName with
  | none => simp
  | some full =>
    simp only [huses, usesName_iff, Option.some.injEq, exists_eq_left']
    rfl

end Web

end Literate
