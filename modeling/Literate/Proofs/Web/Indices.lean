import Literate.Proofs.Web.Resolution
import Literate.Proofs.Web.Uses

/-! The indices of a web are exact: its numbers, the groups of definitions with one full name, the
macros, the declared identifiers and the uses of each definition. -/

namespace Literate

namespace Index

variable {ix : Index} {name : Text} {places : List Nat} {i : Nat}

/-- Each name stands once in an index, with some place. -/
structure Tidy (ix : Index) : Prop where
  nodup : (ix.map Prod.fst).Nodup
  inhabited : ∀ entry ∈ ix, entry.2 ≠ []

theorem keys_add (ix : Index) (name : Text) (i : Nat) :
    (ix.add name i).map Prod.fst = collect (ix.map Prod.fst) name := by
  induction ix with
  | nil => rfl
  | cons entry ix ih =>
    obtain ⟨key, places⟩ := entry
    by_cases hk : key = name
    · simp [Index.add, collect, hk]
    · by_cases hm : name ∈ ix.map Prod.fst
      · rw [collect, if_pos hm] at ih
        rw [collect, if_pos (by simp [hm])]
        simp [Index.add, hk, ih]
      · rw [collect, if_neg hm] at ih
        rw [collect, if_neg (by simpa [Ne.symm hk] using hm)]
        simp [Index.add, hk, ih]

theorem mem_of_mem_add {entry : Text × List Nat} (h : entry ∈ ix.add name i) :
    entry ∈ ix ∨ i ∈ entry.2 := by
  induction ix with
  | nil =>
    obtain rfl : entry = (name, [i]) := by simpa [Index.add] using h
    exact .inr (by simp)
  | cons first ix ih =>
    obtain ⟨key, places⟩ := first
    by_cases hk : key = name
    · rcases (by simpa [Index.add, hk] using h : entry = (name, places ++ [i]) ∨ entry ∈ ix) with
        rfl | hm
      · exact .inr (by simp)
      · exact .inl (by simp [hm])
    · rcases (by simpa [Index.add, hk] using h : entry = (key, places) ∨
          entry ∈ Index.add ix name i) with
        rfl | hm
      · exact .inl (by simp)
      · exact (ih hm).imp_left (List.mem_cons_of_mem _)

theorem mem_sorted {entry : Text × List Nat} : entry ∈ ix.sorted ↔ entry ∈ ix :=
  (List.mergeSort_perm ix _).mem_iff

theorem get_foldl_add {names : List Text} (ix : Index) (h : names.Nodup) (i : Nat) (key : Text) :
    (names.foldl (fun ix name => ix.add name i) ix).get key =
      ix.get key ++ if key ∈ names then [i] else [] := by
  induction names generalizing ix with
  | nil => simp
  | cons name names ih =>
    obtain ⟨hout, hnodup⟩ := List.nodup_cons.1 h
    rw [List.foldl_cons, ih _ hnodup, get_add]
    by_cases hk : key = name
    · simp [hk, hout]
    · simp [hk]

namespace Tidy

theorem nil : Tidy [] := ⟨List.nodup_nil, nofun⟩

theorem add (h : Tidy ix) (name : Text) (i : Nat) : Tidy (ix.add name i) where
  nodup := by
    rw [keys_add]
    exact nodup_collect h.nodup name
  inhabited := by
    intro entry he
    rcases mem_of_mem_add he with hm | hm
    · exact h.inhabited entry hm
    · exact List.ne_nil_of_mem hm

theorem foldl_add (h : Tidy ix) (names : List Text) (i : Nat) :
    Tidy (names.foldl (fun ix name => ix.add name i) ix) := by
  induction names generalizing ix with
  | nil => exact h
  | cons name names ih => exact ih (h.add name i)

theorem mem_iff (h : Tidy ix) : (name, places) ∈ ix ↔ places = ix.get name ∧ places ≠ [] := by
  induction ix with
  | nil => simp
  | cons entry ix ih =>
    obtain ⟨key, first⟩ := entry
    have hnodup := h.nodup
    rw [List.map_cons, List.nodup_cons] at hnodup
    have htail : Tidy ix := ⟨hnodup.2, fun e he => h.inhabited e (by simp [he])⟩
    have hfirst : first ≠ [] := h.inhabited (key, first) (by simp)
    by_cases hk : name = key
    · subst hk
      have hout : (name, places) ∉ ix := fun hm =>
        hnodup.1 (List.mem_map.2 ⟨(name, places), hm, rfl⟩)
      simp only [List.mem_cons, Prod.mk.injEq, true_and, hout, or_false, get_cons, if_true]
      constructor
      · rintro rfl
        exact ⟨rfl, hfirst⟩
      · exact fun hp => hp.1
    · simp [hk, get_cons, ih htail]

theorem pairwise_sorted (h : Tidy ix) : (ix.sorted.map Prod.fst).Pairwise (· < ·) := by
  have hkeys : ix.sorted.map Prod.fst = Text.sort (ix.map Prod.fst) :=
    List.map_mergeSort fun _ _ _ _ => rfl
  rw [hkeys]
  exact Text.pairwise_lt_sort h.nodup

end Tidy

end Index

namespace Web

/-- A list holds the positions with a property, in the order of the document and without
repetition. -/
structure Enumerates (l : List Nat) (p : Nat → Prop) : Prop where
  ascending : l.Pairwise (· < ·)
  mem : ∀ i, i ∈ l ↔ p i

namespace Enumerates

variable {l m : List Nat} {p q : Nat → Prop}

theorem unique (h : Enumerates l p) (h' : Enumerates m p) : l = m :=
  eq_of_pairwise_of_mem h.ascending h'.ascending fun i => (h.mem i).trans (h'.mem i).symm

theorem congr (h : Enumerates l p) (hpq : ∀ i, p i ↔ q i) : Enumerates l q :=
  ⟨h.ascending, fun i => (h.mem i).trans (hpq i)⟩

/-- The positions of the chunks that pass a test. -/
theorem zipIdx (chunks : List Chunk) (test : Chunk → Bool) :
    Enumerates ((chunks.zipIdx.filter fun e => test e.1).map Prod.snd)
      fun i => ∃ c, chunks[i]? = some c ∧ test c = true where
  ascending := by
    refine List.Pairwise.sublist (List.filter_sublist.map Prod.snd) ?_
    rw [List.zipIdx_map_snd]
    exact List.pairwise_lt_range'
  mem i := by simp [List.mem_zipIdx_iff_getElem?]

end Enumerates

namespace Numbering

variable (names : List Text) (chunks : List Chunk)

/-- What is known of a list of chunks. -/
def of : Numbering := chunks.foldl (Numbering.add names) {}

theorem of_concat (c : Chunk) : of names (chunks ++ [c]) = (of names chunks).add names c := by
  simp [of]

/-- The entry of the next chunk. -/
def entry (n : Numbering) (c : Chunk) : Entry where
  chunk := c
  seq := if c.isCode then n.seq + 1 else 0
  initial :=
    if c.isDefinition then (n.definitions.get (filedName names c)).isEmpty else c.kind = .output
  fullName := if c.isDefinition then some (filedName names c) else none

section Add

variable (n : Numbering) (c : Chunk)

theorem entries_add_entry : (n.add names c).entries = n.entries ++ [n.entry names c] := by
  by_cases hd : c.isDefinition = true
  · by_cases hc : c.isCode = true <;> simp [Numbering.add, entry, hd, hc]
  · by_cases hc : c.isCode = true <;> simp [Numbering.add, entry, hd, hc]

theorem seq_add : (n.add names c).seq = if c.isCode then n.seq + 1 else n.seq := by
  by_cases hd : c.isDefinition = true <;> simp [Numbering.add, hd]

theorem identifiers_add : (n.add names c).identifiers =
    (Text.distinct c.identifiers).foldl (fun ix id => ix.add id n.entries.length)
      n.identifiers := by
  by_cases hd : c.isDefinition = true <;> simp [Numbering.add, hd]

theorem tidy_definitions_add (h : n.definitions.Tidy) : (n.add names c).definitions.Tidy := by
  by_cases hd : c.isDefinition = true
  · simpa [Numbering.add, hd] using h.add (filedName names c) n.entries.length
  · simpa [Numbering.add, hd] using h

end Add

theorem length_entries_of : (of names chunks).entries.length = chunks.length := by
  rw [← List.length_map Entry.chunk]
  exact congrArg List.length (foldl_add names chunks).1

theorem get_definitions_of (full : Text) : (of names chunks).definitions.get full =
    (chunks.zipIdx.filter fun e => e.1.isDefinition && filedName names e.1 == full).map
      Prod.snd :=
  (foldl_add names chunks).2 full

theorem seq_of : (of names chunks).seq = chunks.countP Chunk.isCode := by
  induction chunks using List.reverseRecOn with
  | nil => rfl
  | append_singleton chunks c ih =>
    rw [of_concat, seq_add, ih, List.countP_append, List.countP_singleton]
    split <;> rfl

/-- Chunks of code are numbered from one, in order. -/
theorem numbers_of : ((of names chunks).entries.filter fun e => e.chunk.isCode).map Entry.seq =
    List.range' 1 (chunks.countP Chunk.isCode) := by
  induction chunks using List.reverseRecOn with
  | nil => rfl
  | append_singleton chunks c ih =>
    rw [of_concat, entries_add_entry, List.filter_append, List.map_append, ih,
      List.countP_append, List.countP_singleton]
    by_cases hc : c.isCode = true
    · simp [entry, hc, seq_of, List.range'_concat, Nat.add_comm]
    · simp [entry, hc]

theorem unnumbered_of {e : Entry} (he : e ∈ (of names chunks).entries)
    (hc : e.chunk.isCode = false) : e.seq = 0 := by
  induction chunks using List.reverseRecOn with
  | nil => simp [of] at he
  | append_singleton chunks c ih =>
    rw [of_concat, entries_add_entry, List.mem_append, List.mem_singleton] at he
    rcases he with he | rfl
    · exact ih he
    · simp_all [entry]

theorem lt_of_mem_definitions {full : Text} {d : Nat}
    (hd : d ∈ (of names chunks).definitions.get full) : d < chunks.length := by
  rw [get_definitions_of] at hd
  have hmem := (Enumerates.zipIdx chunks fun c => c.isDefinition && filedName names c == full).mem d
  obtain ⟨c, hc, -⟩ := hmem.1 hd
  exact (List.getElem?_eq_some_iff.1 hc).1

/-- Of the definitions of a full name the first is initial, and so is each output chunk. -/
theorem initial_of {i : Nat} {e : Entry} (he : (of names chunks).entries[i]? = some e) :
    e.initial = true ↔
      e.chunk.kind = .output ∨ ∃ full, ((of names chunks).definitions.get full).head? = some i := by
  induction chunks using List.reverseRecOn with
  | nil => simp [of] at he
  | append_singleton chunks c ih =>
    have hlength := length_entries_of names chunks
    simp only [of_concat, entries_add_entry, definitions_add, hlength, List.head?_append] at he ⊢
    by_cases hi : i < chunks.length
    · rw [List.getElem?_append_left (hlength ▸ hi)] at he
      rw [ih he]
      refine or_congr_right (exists_congr fun full => ?_)
      cases hdefs : ((of names chunks).definitions.get full).head? with
      | some first => simp
      | none =>
        have hne : chunks.length ≠ i := by omega
        split <;> simp [hne]
    · -- The new chunk comes first among the definitions of a name only if it has no others.
      obtain rfl : i = chunks.length := by
        have hbound := (List.getElem?_eq_some_iff.1 he).1
        rw [List.length_append, hlength, List.length_singleton] at hbound
        omega
      obtain rfl : e = (of names chunks).entry names c := by
        simpa [← hlength] using he.symm
      have hold : ∀ full, ((of names chunks).definitions.get full).head? ≠ some chunks.length := by
        intro full hhead
        have hlt := lt_of_mem_definitions names chunks (List.mem_of_head? hhead)
        omega
      by_cases hd : c.isDefinition = true
      · have hk : c.kind ≠ .output := by
          intro hk
          simp [Chunk.isDefinition, hk, Chunk.Kind.isDefinition] at hd
        simp only [entry, hd, hk, if_true, false_or, Bool.true_and, List.isEmpty_iff]
        constructor
        · exact fun hnil => ⟨filedName names c, by simp [hnil]⟩
        · rintro ⟨full, hhead⟩
          cases hdefs : ((of names chunks).definitions.get full).head? with
          | some first =>
            rw [hdefs, Option.some_or] at hhead
            exact absurd (hdefs.trans hhead) (hold full)
          | none =>
            by_cases hf : filedName names c = full
            · rw [hf]
              exact List.head?_eq_none_iff.1 hdefs
            · simp [hdefs, hf] at hhead
      · simp [entry, hd, hold]

theorem tidy_definitions_of : (of names chunks).definitions.Tidy := by
  induction chunks using List.reverseRecOn with
  | nil => exact .nil
  | append_singleton chunks c ih =>
    rw [of_concat]
    exact tidy_definitions_add names _ c ih

theorem tidy_identifiers_of : (of names chunks).identifiers.Tidy := by
  induction chunks using List.reverseRecOn with
  | nil => exact .nil
  | append_singleton chunks c ih =>
    rw [of_concat, identifiers_add]
    exact ih.foldl_add _ _

/-- Under an identifier stand the chunks that declare it. -/
theorem get_identifiers_of (id : Text) : (of names chunks).identifiers.get id =
    (chunks.zipIdx.filter fun e => decide (id ∈ e.1.identifiers)).map Prod.snd := by
  induction chunks using List.reverseRecOn with
  | nil => rfl
  | append_singleton chunks c ih =>
    rw [of_concat, identifiers_add, Index.get_foldl_add _ (Text.nodup_distinct _), ih,
      length_entries_of, List.zipIdx_append, List.filter_append, List.map_append]
    by_cases hid : id ∈ c.identifiers
    · simp [Text.mem_distinct, hid]
    · simp [Text.mem_distinct, hid]

end Numbering

/-- The indices of a web say of its chunks what there is to say, and nothing else. -/
structure Indexed (chunks : List Chunk) (w : Web) : Prop where
  document : w.entries.map Entry.chunk = chunks
  /-- The chunks of code are numbered from one, in the order of the document. -/
  numbers : (w.entries.filter fun e => e.chunk.isCode).map Entry.seq =
    List.range' 1 (chunks.countP Chunk.isCode)
  unnumbered : ∀ e ∈ w.entries, e.chunk.isCode = false → e.seq = 0
  /-- Each definition stands under its full name only. -/
  groups : ∀ full, Enumerates (w.definitions.get full) fun d =>
    (w.chunk d).isDefinition = true ∧ w.fullName d = full
  initial : ∀ i e, w.entries[i]? = some e → (e.initial = true ↔
    e.chunk.kind = .output ∨ ∃ full, (w.definitions.get full).head? = some i)
  macros_ascending : (w.macros.map Prod.fst).Pairwise (· < ·)
  /-- A group is listed as a macro if its first definition is code. -/
  macros : ∀ full defs, (full, defs) ∈ w.macros ↔ defs = w.definitions.get full ∧
    ∃ first ∈ defs.head?, (w.chunk first).kind = .named
  userIds_ascending : (w.userIds.map Prod.fst).Pairwise (· < ·)
  userIds : ∀ id places, (id, places) ∈ w.userIds ↔
    places ≠ [] ∧ Enumerates places fun i => id ∈ (w.chunk i).identifiers
  usedBy : ∀ d, (w.chunk d).isDefinition = true → Enumerates (w.usedBy d) fun u =>
    (w.chunk u).isCode = true ∧
      ∃ name ∈ (w.chunk u).referenceNames, w.resolve name = .ok (w.fullName d)
  unused : ∀ d, (w.chunk d).isDefinition = false → w.usedBy d = []

theorem lt_size_of_seq {w : Web} {i : Nat} (h : w.seq i ≠ 0) : i < w.size := by
  by_contra hi
  rw [Web.seq, List.getElem?_eq_none (Nat.not_lt.1 hi)] at h
  exact h rfl

variable (path : Text) (chunks : List Chunk)

theorem pairwise_seq : (ofChunks path chunks).entries.Pairwise fun a b =>
    a.chunk.isCode = true → b.chunk.isCode = true → a.seq ≠ b.seq := by
  have hnodup : (((ofChunks path chunks).entries.filter fun e => e.chunk.isCode).map
      Entry.seq).Nodup := by
    have hnumbers : ((ofChunks path chunks).entries.filter fun e => e.chunk.isCode).map Entry.seq =
        _ := Numbering.numbers_of (definedNames chunks) chunks
    rw [hnumbers]
    exact List.nodup_range'
  exact List.pairwise_filter.1 (List.pairwise_map.1 hnodup)

/-- The chunks of code are those that have a number. -/
theorem seq_ne_zero_iff {i : Nat} : (ofChunks path chunks).seq i ≠ 0 ↔
    ((ofChunks path chunks).chunk i).isCode = true := by
  unfold Web.seq Web.chunk
  cases he : (ofChunks path chunks).entries[i]? with
  | none => simp [Chunk.isCode, default, Chunk.Kind.isCode]
  | some e =>
    have hmem := List.mem_of_getElem? he
    simp only [Option.map_some, Option.getD_some]
    constructor
    · intro hseq
      by_contra hcode
      exact hseq (Numbering.unnumbered_of _ chunks hmem (by simpa using hcode))
    · intro hcode
      have hnumber : e.seq ∈ ((ofChunks path chunks).entries.filter fun e => e.chunk.isCode).map
          Entry.seq := List.mem_map.2 ⟨e, List.mem_filter.2 ⟨hmem, hcode⟩, rfl⟩
      have hnumbers : ((ofChunks path chunks).entries.filter fun e => e.chunk.isCode).map
          Entry.seq = _ := Numbering.numbers_of (definedNames chunks) chunks
      rw [hnumbers, List.mem_range'_1] at hnumber
      omega

/-- No two chunks of code have the same number. -/
theorem seq_injective {i j : Nat} (hi : (ofChunks path chunks).seq i ≠ 0)
    (h : (ofChunks path chunks).seq i = (ofChunks path chunks).seq j) : i = j := by
  have hapart : ∀ {i j : Nat}, i < j → (ofChunks path chunks).seq i ≠ 0 →
      (ofChunks path chunks).seq i ≠ (ofChunks path chunks).seq j := by
    intro i j hij hi heq
    have hcode := (seq_ne_zero_iff path chunks).1 hi
    have hcode' := (seq_ne_zero_iff path chunks).1 (heq ▸ hi)
    unfold Web.seq at hi heq
    unfold Web.chunk at hcode hcode'
    cases he : (ofChunks path chunks).entries[i]? with
    | none => simp [he] at hi
    | some e =>
      cases he' : (ofChunks path chunks).entries[j]? with
      | none =>
        simp only [he, he', Option.map_some, Option.map_none, Option.getD_some,
          Option.getD_none] at hi heq
        exact hi heq
      | some e' =>
        obtain ⟨hlt, rfl⟩ := List.getElem?_eq_some_iff.1 he
        obtain ⟨hlt', rfl⟩ := List.getElem?_eq_some_iff.1 he'
        simp only [he, he', Option.map_some, Option.getD_some] at hcode hcode' heq
        exact List.pairwise_iff_getElem.1 (pairwise_seq path chunks) i j hlt hlt' hij hcode hcode'
          heq
  rcases Nat.lt_trichotomy i j with hij | hij | hij
  · exact absurd h (hapart hij hi)
  · exact hij
  · exact absurd h.symm (hapart hij (h ▸ hi))

/-- The positions of the chunks of a web that pass a test. -/
theorem enumerates_ofChunks (test : Chunk → Bool) (hdefault : test default = false) :
    Enumerates ((chunks.zipIdx.filter fun e => test e.1).map Prod.snd)
      fun i => test ((ofChunks path chunks).chunk i) = true := by
  refine (Enumerates.zipIdx chunks test).congr fun i => ?_
  rw [chunk_ofChunks]
  cases chunks[i]? with
  | none => simp [hdefault]
  | some c => simp

theorem groups_ofChunks (full : Text) :
    Enumerates ((ofChunks path chunks).definitions.get full) fun d =>
      ((ofChunks path chunks).chunk d).isDefinition = true ∧
        (ofChunks path chunks).fullName d = full where
  ascending := pairwise_definitions path chunks full
  mem d := by
    constructor
    · intro hd
      have hdef : ((ofChunks path chunks).chunk d).isDefinition = true := by
        obtain ⟨c, hc, hdef, -⟩ := (mem_definitions path chunks).1 hd
        rw [chunk_ofChunks, hc]
        exact hdef
      exact ⟨hdef, (mem_definitions_iff path chunks hdef).1 hd⟩
    · rintro ⟨hdef, hfull⟩
      exact (mem_definitions_iff path chunks hdef).2 hfull

theorem macros_ofChunks (full : Text) (defs : List Nat) :
    (full, defs) ∈ (ofChunks path chunks).macros ↔
      defs = (ofChunks path chunks).definitions.get full ∧
        ∃ first ∈ defs.head?, ((ofChunks path chunks).chunk first).kind = .named := by
  have htidy : (ofChunks path chunks).definitions.Tidy := Numbering.tidy_definitions_of _ _
  rw [macros, List.mem_filter, Index.mem_sorted, htidy.mem_iff]
  cases defs with
  | nil => simp
  | cons first more => simp

theorem userIds_ofChunks (id : Text) (places : List Nat) :
    (id, places) ∈ (ofChunks path chunks).userIds ↔ places ≠ [] ∧
      Enumerates places fun i => id ∈ ((ofChunks path chunks).chunk i).identifiers := by
  have htidy : (ofChunks path chunks).identifiers.Tidy := Numbering.tidy_identifiers_of _ _
  have hall : Enumerates ((ofChunks path chunks).identifiers.get id)
      fun i => id ∈ ((ofChunks path chunks).chunk i).identifiers := by
    have hget : (ofChunks path chunks).identifiers.get id = _ :=
      Numbering.get_identifiers_of (definedNames chunks) chunks id
    rw [hget]
    simpa using enumerates_ofChunks path chunks (fun c => decide (id ∈ c.identifiers)) rfl
  rw [userIds, Index.mem_sorted, htidy.mem_iff, and_comm]
  refine and_congr_right fun _ => ⟨?_, fun h => h.unique hall⟩
  rintro rfl
  exact hall

theorem usedBy_ofChunks {d : Nat} (hd : ((ofChunks path chunks).chunk d).isDefinition = true) :
    Enumerates ((ofChunks path chunks).usedBy d) fun u =>
      ((ofChunks path chunks).chunk u).isCode = true ∧
        ∃ name ∈ ((ofChunks path chunks).chunk u).referenceNames,
          (ofChunks path chunks).resolve name = .ok ((ofChunks path chunks).fullName d) := by
  have hname : (ofChunks path chunks).entries[d]?.bind Entry.fullName =
      some ((ofChunks path chunks).fullName d) :=
    (mem_definitions_iff_fullName path chunks).1 ((mem_definitions_iff path chunks hd).2 rfl)
  have hget : (ofChunks path chunks).users.get ((ofChunks path chunks).fullName d) = _ :=
    get_usesOf (definedNames chunks) chunks _
  simp only [usedBy, hname, hget]
  exact (enumerates_ofChunks path chunks _ rfl).congr fun u => usesName_iff

theorem usedBy_eq_nil {d : Nat} (hd : ((ofChunks path chunks).chunk d).isDefinition = false) :
    (ofChunks path chunks).usedBy d = [] := by
  have hname : (ofChunks path chunks).entries[d]?.bind Entry.fullName = none := by
    rw [fullName?_ofChunks]
    rw [chunk_ofChunks] at hd
    cases hc : chunks[d]? with
    | none => rfl
    | some c => simp_all
  simp [usedBy, hname]

/-- A web is indexed as its chunks say. -/
theorem indexed_ofChunks (path : Text) (chunks : List Chunk) :
    Indexed chunks (ofChunks path chunks) where
  document := entries_ofChunks path chunks
  numbers := Numbering.numbers_of _ chunks
  unnumbered _ := Numbering.unnumbered_of _ chunks
  groups := groups_ofChunks path chunks
  initial _ _ := Numbering.initial_of _ chunks
  macros_ascending := by
    refine List.Pairwise.sublist (List.filter_sublist.map Prod.fst) ?_
    exact (Numbering.tidy_definitions_of _ chunks).pairwise_sorted
  macros := macros_ofChunks path chunks
  userIds_ascending := (Numbering.tidy_identifiers_of _ chunks).pairwise_sorted
  userIds := userIds_ofChunks path chunks
  usedBy _ := usedBy_ofChunks path chunks
  unused _ := usedBy_eq_nil path chunks

end Web

end Literate
