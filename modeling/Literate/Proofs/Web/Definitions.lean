import Mathlib.Data.List.Induction
import Literate.Web

/-! The chunks of a web and the definitions of its names, in the order of the document. -/

namespace Literate

namespace Index

@[simp] theorem get_nil (key : Text) : Index.get [] key = [] := rfl

theorem get_cons (ix : Index) (name key : Text) (places : List Nat) :
    Index.get ((name, places) :: ix) key = if key = name then places else ix.get key := by
  by_cases hk : key = name
  · simp [Index.get, hk]
  · have hne : (key == name) = false := by simpa using hk
    simp [Index.get, List.lookup_cons, hne, hk]

theorem get_add (ix : Index) (name key : Text) (i : Nat) :
    (ix.add name i).get key = if key = name then ix.get key ++ [i] else ix.get key := by
  induction ix with
  | nil => simp [Index.add, get_cons]
  | cons entry ix ih =>
    obtain ⟨other, places⟩ := entry
    by_cases ho : other = name
    · by_cases hk : key = name
      · simp [Index.add, get_cons, ho, hk]
      · simp [Index.add, get_cons, ho, hk]
    · by_cases hk : key = other
      · simp [Index.add, get_cons, ho, hk]
      · simp [Index.add, get_cons, ho, hk, ih]

end Index

namespace Web

/-- The definitions that are found by a full name, in the order of the document. -/
def definitionsIn (chunks : List Chunk) (full : Text) : List Chunk :=
  chunks.filter fun c => c.isDefinition && filedName (definedNames chunks) c == full

namespace Numbering

variable (names : List Text) (n : Numbering) (c : Chunk)

theorem entries_add :
    (n.add names c).entries.map Entry.chunk = n.entries.map Entry.chunk ++ [c] := by
  by_cases hd : c.isDefinition = true
  · simp [Numbering.add, hd]
  · simp [Numbering.add, hd]

theorem definitions_add (full : Text) : (n.add names c).definitions.get full =
    n.definitions.get full ++
      if c.isDefinition && filedName names c == full then [n.entries.length] else [] := by
  by_cases hd : c.isDefinition = true
  · by_cases hf : filedName names c = full
    · simp [Numbering.add, hd, hf, Index.get_add]
    · simp [Numbering.add, hd, hf, Ne.symm hf, Index.get_add]
  · simp [Numbering.add, hd]

theorem fullNames_add : (n.add names c).entries.map Entry.fullName =
    n.entries.map Entry.fullName ++
      [if c.isDefinition then some (filedName names c) else none] := by
  by_cases hd : c.isDefinition = true
  · simp [Numbering.add, hd]
  · simp [Numbering.add, hd]

/-- Each definition is given the name that it is filed under. -/
theorem fullNames_foldl_add (chunks : List Chunk) :
    (chunks.foldl (Numbering.add names) {}).entries.map Entry.fullName =
      chunks.map fun c => if c.isDefinition then some (filedName names c) else none := by
  induction chunks using List.reverseRecOn with
  | nil => rfl
  | append_singleton chunks c ih =>
    rw [List.foldl_append, List.foldl_cons, List.foldl_nil, fullNames_add, ih, List.map_append,
      List.map_singleton]

/-- Numbering keeps the chunks and finds the definitions of a name by position. -/
theorem foldl_add (chunks : List Chunk) :
    (chunks.foldl (Numbering.add names) {}).entries.map Entry.chunk = chunks ∧
    ∀ full, (chunks.foldl (Numbering.add names) {}).definitions.get full =
      (chunks.zipIdx.filter fun e => e.1.isDefinition && filedName names e.1 == full).map
        Prod.snd := by
  induction chunks using List.reverseRecOn with
  | nil => exact ⟨rfl, fun _ => rfl⟩
  | append_singleton chunks c ih =>
    obtain ⟨hentries, hdefs⟩ := ih
    have hlength : (chunks.foldl (Numbering.add names) {}).entries.length = chunks.length := by
      simpa using congrArg List.length hentries
    simp only [List.foldl_append, List.foldl_cons, List.foldl_nil]
    constructor
    · rw [entries_add, hentries]
    · intro full
      rw [definitions_add, hdefs, hlength, List.zipIdx_append, List.filter_append, List.map_append]
      congr 1
      by_cases hp : (c.isDefinition && filedName names c == full) = true
      · simp [hp]
      · simp [hp]

end Numbering

variable (path : Text) (chunks : List Chunk)

/-- A web whose names are known can be computed. -/
theorem ofChunks_of_names {names : List Text} (h : definedNames chunks = names) :
    ofChunks path chunks =
      { path, names
        entries := (chunks.foldl (Numbering.add names) {}).entries
        definitions := (chunks.foldl (Numbering.add names) {}).definitions
        identifiers := (chunks.foldl (Numbering.add names) {}).identifiers
        users := usesOf names chunks } := by
  rw [ofChunks, h]

theorem entries_ofChunks : (ofChunks path chunks).entries.map Entry.chunk = chunks :=
  (Numbering.foldl_add (definedNames chunks) chunks).1

theorem get_definitions_ofChunks (full : Text) :
    (ofChunks path chunks).definitions.get full = (chunks.zipIdx.filter fun e =>
      e.1.isDefinition && filedName (definedNames chunks) e.1 == full).map Prod.snd :=
  (Numbering.foldl_add (definedNames chunks) chunks).2 full

theorem chunk_ofChunks (i : Nat) : (ofChunks path chunks).chunk i = chunks[i]?.getD default := by
  rw [Web.chunk, ← List.getElem?_map, entries_ofChunks]

theorem size_ofChunks : (ofChunks path chunks).size = chunks.length := by
  rw [Web.size, ← List.length_map Entry.chunk, entries_ofChunks]

theorem mem_positions {p : Chunk → Bool} (hp : p default = false) {i : Nat} :
    i ∈ (ofChunks path chunks).positions p ↔ p ((ofChunks path chunks).chunk i) = true := by
  simp only [positions, List.mem_filter, List.mem_range, and_iff_right_iff_imp]
  intro hi
  rw [size_ofChunks]
  by_contra hlt
  rw [chunk_ofChunks, List.getElem?_eq_none (by omega), Option.getD_none, hp] at hi
  contradiction

theorem mem_files {i : Nat} :
    i ∈ (ofChunks path chunks).files ↔ ((ofChunks path chunks).chunk i).kind = .output := by
  rw [files, mem_positions path chunks rfl, beq_iff_eq]

theorem pairwise_positions (w : Web) (p : Chunk → Bool) : (w.positions p).Pairwise (· < ·) :=
  List.pairwise_lt_range.sublist List.filter_sublist

theorem mem_definitions {full : Text} {d : Nat} :
    d ∈ (ofChunks path chunks).definitions.get full ↔ ∃ c, chunks[d]? = some c ∧
      c.isDefinition = true ∧ filedName (definedNames chunks) c = full := by
  simp [get_definitions_ofChunks, List.mem_zipIdx_iff_getElem?]

/-- The full name that an entry has, if it is a definition. -/
theorem fullName?_ofChunks (d : Nat) :
    (ofChunks path chunks).entries[d]?.bind Entry.fullName = chunks[d]?.bind fun c =>
      if c.isDefinition then some (filedName (definedNames chunks) c) else none := by
  have hnames : (ofChunks path chunks).entries.map Entry.fullName = _ :=
    Numbering.fullNames_foldl_add (definedNames chunks) chunks
  have hget := congrArg (fun l : List (Option Text) => l[d]?.bind id) hnames
  simpa only [List.getElem?_map, Option.bind_map, Function.id_comp] using hget

/-- A definition is found by the full name that it has, and by no other. -/
theorem mem_definitions_iff_fullName {full : Text} {d : Nat} :
    d ∈ (ofChunks path chunks).definitions.get full ↔
      (ofChunks path chunks).entries[d]?.bind Entry.fullName = some full := by
  rw [mem_definitions, fullName?_ofChunks, Option.bind_eq_some_iff]
  refine exists_congr fun c => and_congr_right fun _ => ?_
  by_cases hd : c.isDefinition = true <;> simp [hd]

theorem mem_definitions_iff {full : Text} {d : Nat}
    (hd : ((ofChunks path chunks).chunk d).isDefinition = true) :
    d ∈ (ofChunks path chunks).definitions.get full ↔ (ofChunks path chunks).fullName d = full := by
  have hname := fullName?_ofChunks path chunks d
  rw [chunk_ofChunks] at hd
  rw [mem_definitions_iff_fullName]
  cases hc : chunks[d]? with
  | none => simp [hc, Chunk.isDefinition, Chunk.Kind.isDefinition, default] at hd
  | some c =>
    rw [hc, Option.getD_some] at hd
    rw [hc, Option.bind_some, if_pos hd] at hname
    obtain ⟨e, he, hfull⟩ := Option.bind_eq_some_iff.1 hname
    simp [Web.fullName, Entry.full, he, hfull]

/-- The definitions of a name stand in the order of the document. -/
theorem pairwise_definitions (full : Text) :
    ((ofChunks path chunks).definitions.get full).Pairwise (· < ·) := by
  rw [get_definitions_ofChunks]
  refine List.Pairwise.sublist (List.filter_sublist.map Prod.snd) ?_
  rw [List.zipIdx_map_snd]
  exact List.pairwise_lt_range'

/-- The positions that a web files under a full name are those of its definitions. -/
theorem definitions_ofChunks (full : Text) :
    ((ofChunks path chunks).definitions.get full).map (ofChunks path chunks).chunk =
      definitionsIn chunks full := by
  have hchunk : ∀ e ∈ chunks.zipIdx, (ofChunks path chunks).chunk e.2 = e.1 := by
    intro e he
    have hget : chunks[e.2]? = some e.1 := List.mem_zipIdx_iff_getElem?.mp he
    rw [chunk_ofChunks, hget, Option.getD_some]
  have hfst : chunks.zipIdx.map Prod.fst = chunks := List.zipIdx_map_fst 0 chunks
  rw [get_definitions_ofChunks, List.map_map, definitionsIn]
  generalize definedNames chunks = names
  conv_rhs => rw [← hfst, List.filter_map]
  exact List.map_congr_left fun e he => hchunk e (List.mem_filter.mp he).1

end Web

end Literate
