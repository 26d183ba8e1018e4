import Literate.Proofs.Text.Sorted
import Literate.Proofs.Web.Definitions

/-! What names stand for. An abbreviation is completed among the names of all definitions, wherever
in the document they stand, and a definition is found by the names that stand for its full name. -/

namespace Literate

theorem isAbbreviation_iff {name : Text} :
    isAbbreviation name = true ↔ ∃ stem, name = stem ++ ellipsis := by
  rw [isAbbreviation, List.isSuffixOf_iff_suffix]
  exact exists_congr fun stem => eq_comm

namespace Web

/-- A name that a target abbreviates: it is the name of a definition and no abbreviation itself,
and it begins with the target but for the dots. -/
def Completes (chunks : List Chunk) (target name : Text) : Prop :=
  (∃ c ∈ chunks, c.isDefinition = true ∧ c.name = name) ∧ isAbbreviation name = false ∧
    ∃ stem, target = stem ++ ellipsis ∧ stem <+: name

/-- What a target stands for among the definitions of a document. -/
inductive Denotes (chunks : List Chunk) (target : Text) : Except Fault Text → Prop
  | whole (h : isAbbreviation target = false) : Denotes chunks target (.ok target)
  | unmatched (h : isAbbreviation target = true) (hnone : ∀ name, ¬ Completes chunks target name) :
    Denotes chunks target (.ok target)
  | completed {full : Text} (h : isAbbreviation target = true)
    (hone : ∀ name, Completes chunks target name ↔ name = full) : Denotes chunks target (.ok full)
  | ambiguous {names : List Text} (h : isAbbreviation target = true)
    (hall : ∀ name, Completes chunks target name ↔ name ∈ names)
    (hascending : names.Pairwise (· < ·)) (hmany : 2 ≤ names.length) :
    Denotes chunks target (.error ⟨.ambiguous target names, .none⟩)

variable {chunks chunks' : List Chunk} {target name full : Text} {r r' : Except Fault Text}

theorem mem_definedNames : name ∈ definedNames chunks ↔
    ∃ c ∈ chunks, c.isDefinition = true ∧ isAbbreviation c.name = false ∧ c.name = name := by
  simp [definedNames, Text.mem_sort, Text.mem_distinct, and_assoc]

theorem pairwise_definedNames (chunks : List Chunk) :
    (definedNames chunks).Pairwise (· < ·) :=
  Text.pairwise_lt_sort (Text.nodup_distinct _)

theorem mem_completions (h : isAbbreviation target = true) :
    name ∈ completions (definedNames chunks) target ↔ Completes chunks target name := by
  obtain ⟨stem, rfl⟩ := isAbbreviation_iff.1 h
  have hstem : (stem ++ ellipsis).take ((stem ++ ellipsis).length - ellipsis.length) = stem := by
    rw [List.length_append, Nat.add_sub_cancel, List.take_left]
  simp only [completions, hstem, List.mem_filter, mem_definedNames, List.isPrefixOf_iff_prefix,
    Completes, List.append_cancel_right_eq, exists_eq_left']
  constructor
  · rintro ⟨⟨c, hc, hd, ha, rfl⟩, hprefix⟩
    exact ⟨⟨c, hc, hd, rfl⟩, ha, hprefix⟩
  · rintro ⟨⟨c, hc, hd, rfl⟩, ha, hprefix⟩
    exact ⟨⟨c, hc, hd, ha, rfl⟩, hprefix⟩

theorem pairwise_completions (chunks : List Chunk) (target : Text) :
    (completions (definedNames chunks) target).Pairwise (· < ·) :=
  (pairwise_definedNames chunks).sublist List.filter_sublist

/-- The completions of a target are settled by which names complete it. -/
theorem completions_eq (h : isAbbreviation target = true) {names : List Text}
    (hall : ∀ name, Completes chunks target name ↔ name ∈ names)
    (hascending : names.Pairwise (· < ·)) : completions (definedNames chunks) target = names :=
  eq_of_pairwise_of_mem (pairwise_completions chunks target) hascending fun name =>
    (mem_completions h).trans (hall name)

theorem denotes_resolveIn (chunks : List Chunk) (target : Text) :
    Denotes chunks target (resolveIn (definedNames chunks) target) := by
  cases h : isAbbreviation target with
  | false => simpa [resolveIn, h] using Denotes.whole h
  | true =>
    have hall : ∀ name, Completes chunks target name ↔
        name ∈ completions (definedNames chunks) target := fun _ => (mem_completions h).symm
    have hascending := pairwise_completions chunks target
    simp only [resolveIn, h, Bool.not_true, Bool.false_eq_true, if_false]
    generalize completions (definedNames chunks) target = names at hall hascending ⊢
    match names with
    | [] => exact .unmatched h fun name => by simp [hall name]
    | [full] => exact .completed h fun name => by simp [hall name]
    | _ :: _ :: _ => exact .ambiguous h hall hascending (by simp)

theorem Denotes.resolveIn_eq (h : Denotes chunks target r) :
    resolveIn (definedNames chunks) target = r := by
  cases h with
  | whole ha => simp [resolveIn, ha]
  | unmatched ha hnone =>
    have hall : ∀ name, Completes chunks target name ↔ name ∈ [] := fun name => by simp [hnone name]
    have hc := completions_eq ha hall .nil
    simp [resolveIn, ha, hc]
  | @completed full ha hone =>
    have hall : ∀ name, Completes chunks target name ↔ name ∈ [full] := by simp [hone]
    have hc := completions_eq ha hall (by simp)
    simp [resolveIn, ha, hc]
  | @ambiguous names ha hall hascending hmany =>
    have hc := completions_eq ha hall hascending
    match names with
    | _ :: _ :: _ => simp [resolveIn, ha, hc]

theorem resolveIn_eq_iff :
    resolveIn (definedNames chunks) target = r ↔ Denotes chunks target r :=
  ⟨fun h => h ▸ denotes_resolveIn chunks target, Denotes.resolveIn_eq⟩

theorem completes_perm (h : chunks.Perm chunks') : Completes chunks = Completes chunks' := by
  funext target name
  simp only [Completes, h.mem_iff]

theorem Denotes.perm (h : Denotes chunks target r) (hperm : chunks.Perm chunks') :
    Denotes chunks' target r := by
  have hc := completes_perm hperm
  cases h with
  | whole ha => exact .whole ha
  | unmatched ha hnone => exact .unmatched ha (hc ▸ hnone)
  | completed ha hone => exact .completed ha (hc ▸ hone)
  | ambiguous ha hall hascending hmany => exact .ambiguous ha (hc ▸ hall) hascending hmany

/-- A full name stands for itself. -/
theorem Denotes.self (h : Denotes chunks target (.ok full)) : Denotes chunks full (.ok full) := by
  cases h with
  | whole ha => exact .whole ha
  | unmatched ha hnone => exact .unmatched ha hnone
  | completed _ hone => exact .whole ((hone full).2 rfl).2.1

/-- A name finds a definition that is among those of the full name it stands for. -/
def Finds (w : Web) (target : Text) (d : Nat) : Prop :=
  ∃ defs, w.lookup target = .ok defs ∧ d ∈ defs

section OfChunks

variable (path : Text) {d : Nat}

theorem resolve_ofChunks (chunks : List Chunk) (target : Text) :
    (ofChunks path chunks).resolve target = resolveIn (definedNames chunks) target := rfl

theorem finds_iff (hd : ((ofChunks path chunks).chunk d).isDefinition = true)
    (h : (ofChunks path chunks).resolve target = .ok full) :
    (ofChunks path chunks).Finds target d ↔ full = (ofChunks path chunks).fullName d := by
  simp only [Finds, lookup, h, Except.ok.injEq, exists_eq_left']
  rw [mem_definitions_iff path chunks hd, eq_comm]

theorem fullName_eq_filedName (hd : ((ofChunks path chunks).chunk d).isDefinition = true) :
    (ofChunks path chunks).fullName d =
      filedName (definedNames chunks) ((ofChunks path chunks).chunk d) := by
  obtain ⟨c, hc, -, hfiled⟩ := (mem_definitions path chunks).1
    ((mem_definitions_iff path chunks hd).2 rfl)
  rw [chunk_ofChunks, hc, Option.getD_some, hfiled]

theorem exists_filedName {c : Chunk} (hc : c ∈ chunks) :
    ∃ c' ∈ chunks, c'.name = filedName (definedNames chunks) c := by
  have hdenotes := denotes_resolveIn chunks c.name
  unfold filedName
  cases hresolve : resolveIn (definedNames chunks) c.name with
  | error f => exact ⟨c, hc, rfl⟩
  | ok full =>
    rw [hresolve] at hdenotes
    cases hdenotes with
    | whole => exact ⟨c, hc, rfl⟩
    | unmatched => exact ⟨c, hc, rfl⟩
    | completed _ hone =>
      obtain ⟨⟨c', hc', -, hname⟩, -⟩ := (hone full).2 rfl
      exact ⟨c', hc', hname⟩

theorem exists_fullName (hd : ((ofChunks path chunks).chunk d).isDefinition = true) :
    ∃ c ∈ chunks, c.name = (ofChunks path chunks).fullName d := by
  rw [fullName_eq_filedName path hd]
  refine exists_filedName ?_
  rw [chunk_ofChunks] at hd ⊢
  cases hget : chunks[d]? with
  | none =>
    rw [hget] at hd
    cases hd
  | some c => exact List.mem_of_getElem? hget

/-- The name that is shown for a chunk is the name of a chunk. -/
theorem exists_displayName (hd : d < chunks.length) :
    ∃ c ∈ chunks, c.name = (ofChunks path chunks).displayName d := by
  have hsize : d < (ofChunks path chunks).entries.length :=
    Nat.lt_of_lt_of_eq hd (size_ofChunks path chunks).symm
  have hentry : (ofChunks path chunks).entries[d]? = some (ofChunks path chunks).entries[d] :=
    List.getElem?_eq_getElem hsize
  have hchunk : (ofChunks path chunks).entries[d].chunk ∈ chunks := by
    have hmem := List.mem_map_of_mem (f := Entry.chunk) (List.getElem_mem hsize)
    rwa [entries_ofChunks] at hmem
  have hfull := fullName?_ofChunks path chunks d
  rw [hentry, Option.bind_some, List.getElem?_eq_getElem hd, Option.bind_some] at hfull
  rw [displayName, hentry, Option.map_some, Option.getD_some, Entry.display, Entry.full, hfull]
  by_cases hdef : chunks[d].isDefinition = true
  · rw [if_pos hdef, Option.getD_some]
    split
    · exact ⟨_, hchunk, rfl⟩
    · exact exists_filedName (List.getElem_mem hd)
  · rw [if_neg hdef, Option.getD_none, if_pos rfl]
    exact ⟨_, hchunk, rfl⟩

end OfChunks

/-- What a target stands for depends on the definitions alone and not on their order, and it stands
for itself. A definition is found by the targets that stand for its full name, so its own name finds
it or is ambiguous, and then nothing does. -/
theorem resolve_denotes (path : Text) (chunks : List Chunk) :
    let w := ofChunks path chunks
    (∀ target r, w.resolve target = r ↔ Denotes chunks target r) ∧
    (∀ target full, w.resolve target = .ok full → w.resolve full = .ok full) ∧
    (∀ path' chunks', chunks.Perm chunks' →
      ∀ target, (ofChunks path' chunks').resolve target = w.resolve target) ∧
    ∀ d, (w.chunk d).isDefinition = true →
      (∀ target full, w.resolve target = .ok full → (w.Finds target d ↔ full = w.fullName d)) ∧
      (∀ full, w.resolve (w.chunk d).name = .ok full → w.Finds (w.chunk d).name d) ∧
      ∀ f, w.resolve (w.chunk d).name = .error f → ∀ target, ¬ w.Finds target d := by
  intro w
  have hself : ∀ target full, w.resolve target = .ok full → w.resolve full = .ok full :=
    fun _ _ h => (resolveIn_eq_iff.1 h).self.resolveIn_eq
  refine ⟨fun _ _ => resolveIn_eq_iff, hself, ?_,
    fun d hd => ⟨fun _ _ => finds_iff path hd, ?_, ?_⟩⟩
  · intro path' chunks' hperm target
    exact ((denotes_resolveIn chunks target).perm hperm).resolveIn_eq
  · intro full h
    rw [resolve_ofChunks] at h
    rw [finds_iff path hd h, fullName_eq_filedName path hd, filedName, h]
  · rintro f h target ⟨defs, hlookup, hmem⟩
    cases hr : w.resolve target with
    | error g => simp [lookup, hr] at hlookup
    | ok full =>
      -- What finds the definition stands for the name that it is filed under, which is its own.
      have hfull := (finds_iff path hd hr).1 ⟨defs, hlookup, hmem⟩
      rw [fullName_eq_filedName path hd, filedName, ← resolve_ofChunks path, h] at hfull
      have hok := hself target full hr
      rw [hfull, h] at hok
      contradiction

/-- Definitions of which one is named by an abbreviation of two others, before they are defined. -/
def parts : List Chunk :=
  [.ofKind .named "pa...", .ofKind .document "p", .ofKind .named "part one",
    .ofKind .named "part two", .ofKind .named "part o..."]

theorem definedNames_parts : definedNames parts = ["p", "part one", "part two"] :=
  List.mergeSort_of_pairwise (by decide)

theorem resolve_denotes_parts :
    let w := ofChunks "m.w" parts
    w.resolve "pa..." =
      .error ⟨.ambiguous "pa..." [Text.ofString "part one", Text.ofString "part two"], .none⟩ ∧
    (∀ target, ¬ w.Finds target 0) ∧
    w.resolve "part o..." = .ok (Text.ofString "part one") ∧ w.Finds "part o..." 4 ∧
    ∀ target, (ofChunks "n.w" parts.reverse).resolve target = w.resolve target := by
  intro w
  obtain ⟨-, -, hperm, hdefs⟩ := resolve_denotes "m.w" parts
  have hpa : w.resolve "pa..." = .error ⟨.ambiguous "pa..." ["part one", "part two"], .none⟩ := by
    rw [resolve_ofChunks, definedNames_parts]
    decide
  have hpart : w.resolve "part o..." = .ok (Text.ofString "part one") := by
    rw [resolve_ofChunks, definedNames_parts]
    decide
  have hchunk : ∀ d, w.chunk d = parts[d]?.getD default := chunk_ofChunks "m.w" parts
  refine ⟨hpa, ?_, hpart, ?_, hperm _ _ parts.reverse_perm.symm⟩
  · exact (hdefs 0 (by rw [hchunk]; rfl)).2.2 _ (by rw [hchunk]; exact hpa)
  · exact (hdefs 4 (by rw [hchunk]; rfl)).2.1 _ (by rw [hchunk]; exact hpart)

end Web

end Literate
