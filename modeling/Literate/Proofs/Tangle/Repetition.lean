import Literate.Proofs.Tangle.Deposits

/-! Emitting twice. Output files of one place are written over each other, so that after an emission
without failures each place holds the code of its last chunk. A second emission finds all files
unchanged exactly when no two chunks of one place differ. -/

namespace Literate.Tangle

open FileTree (writeIfChanged_eq)

variable {w : Web} {o : EmitOptions} {t u : FileTree} {is : List Nat} {i j : Nat}

/-- Two output chunks are written to one place. -/
def Meet (w : Web) (o : EmitOptions) (t : FileTree) (i j : Nat) : Prop :=
  t.placeOf (outputPath w o i) = t.placeOf (outputPath w o j)

/-- Each path of the chunks holds the code of the last of them that is written to its place. -/
def LastHeld (w : Web) (o : EmitOptions) (t : FileTree) (is : List Nat) (u : FileTree) : Prop :=
  ∀ i ∈ is, ∃ before last after code, is = before ++ last :: after ∧ Meet w o t i last ∧
    (∀ j ∈ after, ¬Meet w o t i j) ∧ codeOf w o last = .ok code ∧
    u.readFile (outputPath w o i) = .ok code

/-- A chunk that does not fail has its code at its path. -/
theorem readFile_deposit_self (h : fate w o t i ≠ .failed) :
    ∃ code, codeOf w o i = .ok code ∧ (deposit w o t i).readFile (outputPath w o i) = .ok code := by
  have hdeposited := deposited w o t i
  generalize fate w o t i = f, deposit w o t i = u at hdeposited h ⊢
  cases hdeposited with
  | written rendered _ _ holds _ => exact ⟨_, rendered, holds⟩
  | unchanged rendered held => exact ⟨_, rendered, held⟩
  | failed _ _ => exact absurd rfl h

theorem LastHeld.step (h : LastHeld w o t is u) (hcurrent : u.current = t.current)
    (hi : fate w o u i ≠ .failed) : LastHeld w o t (is ++ [i]) (deposit w o u i) := by
  have hplaces : ∀ path, u.placeOf path = t.placeOf path := fun path => by
    rw [FileTree.placeOf, hcurrent, FileTree.placeOf]
  obtain ⟨code, hcode, hread⟩ := readFile_deposit_self hi
  have hspares := spares_deposit w o u i
  have hat : (deposit w o u i).get? (t.placeOf (outputPath w o i)) = some (.file code) := by
    have hget := FileTree.get?_of_readFile (isJoined_outputPath w o i) hread
    rwa [FileTree.placeOf, hspares.current, hcurrent] at hget
  intro j hj
  rcases List.mem_append.1 hj with hj | hj
  · obtain ⟨before, last, after, old, his, hmeet, hafter, hold, hheld⟩ := h j hj
    by_cases hji : Meet w o t j i
    · -- the new chunk takes the place over
      refine ⟨is, i, [], code, rfl, hji, by simp, hcode, ?_⟩
      refine readFile_deposit (isJoined_outputPath w o j) hheld ?_
      rw [hplaces, hji, hat]
    · refine ⟨before, last, after ++ [i], old, by simp [his], hmeet, ?_, hold, ?_⟩
      · intro k hk
        rcases List.mem_append.1 hk with hk | hk
        · exact hafter k hk
        · rwa [List.mem_singleton.1 hk]
      · refine readFile_deposit (isJoined_outputPath w o j) hheld ?_
        have hfile := FileTree.get?_of_readFile (isJoined_outputPath w o j) hheld
        rw [hplaces] at hfile hspares ⊢
        rcases hspares.elsewhere _ hji with hsame | ⟨hnone, -⟩
        · rw [hsame, hfile]
        · rw [hfile] at hnone
          cases hnone
  · obtain rfl := List.mem_singleton.1 hj
    exact ⟨is, j, [], code, rfl, rfl, by simp, hcode, hread⟩

theorem LastHeld.run {js : List Nat} (h : LastHeld w o t is u) (hcurrent : u.current = t.current)
    (hjs : ∀ f ∈ fates w o u js, f.2 ≠ .failed) :
    LastHeld w o t (is ++ js) (js.foldl (deposit w o) u) := by
  induction js generalizing is u with
  | nil => simpa using h
  | cons j js ih =>
    simp only [fates, List.mem_cons, forall_eq_or_imp] at hjs
    have hstep := h.step hcurrent hjs.1
    rw [List.append_cons]
    exact ih hstep ((spares_deposit w o u j).current.trans hcurrent) hjs.2

theorem failures_emit_eq_nil :
    (emit w o t).failures = [] ↔ ∀ f ∈ fates w o t w.files, f.2 ≠ .failed := by
  obtain ⟨added, hadded, hblames⟩ := (emit_tells w o t).1.failures
  rw [List.nil_append] at hadded
  rw [hadded, ← List.length_eq_zero_iff, ← hblames.length_eq, List.length_map,
    List.length_eq_zero_iff, List.filter_eq_nil_iff]
  refine forall₂_congr fun f _ => ?_
  cases f.2 <;> simp [Fate.isFailed]

theorem written_emit_eq_nil :
    (emit w o t).written = [] ↔ ∀ f ∈ fates w o t w.files, f.2.isWritten = false := by
  rw [(emit_tells w o t).1.written, List.nil_append, List.map_eq_nil_iff, List.filter_eq_nil_iff]
  simp

/-- A chunk is found unchanged exactly when its path holds its code. -/
theorem fate_unchanged_iff {code : Text} : fate w o t i = .unchanged code ↔
    codeOf w o i = .ok code ∧ t.readFile (outputPath w o i) = .ok code := by
  constructor
  · intro h
    have hdeposited := deposited w o t i
    rw [h] at hdeposited
    generalize deposit w o t i = u at hdeposited
    cases hdeposited with
    | unchanged rendered held => exact ⟨rendered, held⟩
  · rintro ⟨hcode, hread⟩
    simp only [fate, hcode, writeIfChanged_eq, hread, if_true]
    rfl

theorem deposit_of_unchanged {code : Text} (h : fate w o t i = .unchanged code) :
    deposit w o t i = t := by
  obtain ⟨hcode, hread⟩ := fate_unchanged_iff.1 h
  simp only [deposit, hcode, writeIfChanged_eq, hread, if_true]

/-- Chunks that find their code at their paths change nothing, whatever comes before them. -/
theorem fates_unchanged (h : ∀ i ∈ is, ∃ code, fate w o t i = .unchanged code) :
    (∀ f ∈ fates w o t is, ∃ code, f.2 = .unchanged code) ∧ (fates w o t is).map (·.1) = is ∧
      is.foldl (deposit w o) t = t := by
  induction is with
  | nil => simp [fates]
  | cons i is ih =>
    obtain ⟨code, hi⟩ := h i (by simp)
    obtain ⟨hrest, hnames, htree⟩ := ih fun j hj => h j (by simp [hj])
    rw [fates, deposit_of_unchanged hi]
    refine ⟨?_, by rw [List.map_cons, hnames], ?_⟩
    swap
    · rw [List.foldl_cons, deposit_of_unchanged hi, htree]
    intro f hf
    rcases List.mem_cons.1 hf with rfl | hf
    · exact ⟨code, hi⟩
    · exact hrest f hf

theorem unchanged_of_fates (h : ∀ f ∈ fates w o t is, ∃ code, f.2 = .unchanged code) :
    ∀ i ∈ is, ∃ code, fate w o t i = .unchanged code := by
  induction is with
  | nil => simp
  | cons i is ih =>
    simp only [fates, List.mem_cons, forall_eq_or_imp] at h
    obtain ⟨⟨code, hi⟩, hrest⟩ := h
    rw [deposit_of_unchanged hi] at hrest
    intro j hj
    rcases List.mem_cons.1 hj with rfl | hj
    · exact ⟨code, hi⟩
    · exact ih hrest j hj

/-- An emission that finds all files unchanged. -/
structure Settled (w : Web) (o : EmitOptions) (t : FileTree) (e : Emission) : Prop where
  failures : e.failures = []
  written : e.written = []
  unchanged : e.unchanged = w.files.map (outputPath w o)
  tree : e.tree = t

theorem settled_iff : Settled w o t (emit w o t) ↔
    ∀ i ∈ w.files, ∃ code, codeOf w o i = .ok code ∧ t.readFile (outputPath w o i) = .ok code := by
  simp only [← fate_unchanged_iff]
  constructor
  · intro h
    refine unchanged_of_fates fun f hf => ?_
    have hfailed := failures_emit_eq_nil.1 h.failures f hf
    have hwritten := written_emit_eq_nil.1 h.written f hf
    cases hfate : f.2 with
    | written code => simp [hfate, Fate.isWritten] at hwritten
    | unchanged code => exact ⟨code, rfl⟩
    | failed => exact absurd hfate hfailed
  · intro h
    obtain ⟨hfates, hnames, htree⟩ := fates_unchanged h
    obtain ⟨htells, hend⟩ := emit_tells w o t
    refine ⟨failures_emit_eq_nil.2 fun f hf => ?_, written_emit_eq_nil.2 fun f hf => ?_, ?_,
      hend.trans htree⟩
    · obtain ⟨code, hcode⟩ := hfates f hf
      simp [hcode]
    · obtain ⟨code, hcode⟩ := hfates f hf
      simp [hcode, Fate.isWritten]
    · have hall : (fates w o t w.files).filter (·.2.isUnchanged) = fates w o t w.files := by
        refine List.filter_eq_self.2 fun f hf => ?_
        obtain ⟨code, hcode⟩ := hfates f hf
        simp [hcode, Fate.isUnchanged]
      rw [htells.unchanged, hall, List.nil_append]
      conv_rhs => rw [← hnames]
      rw [List.map_map]
      rfl

/-- After an emission without failures each path holds the code of the last chunk of its place. The
paths hold the code of their own chunks exactly when chunks of one place have the same code, and
exactly then a second emission finds all files unchanged. -/
theorem emit_settles (w : Web) (o : EmitOptions) (t : FileTree) (h : (emit w o t).failures = []) :
    let u := (emit w o t).tree
    LastHeld w o t w.files u ∧
    ((∀ i ∈ w.files, ∃ code, codeOf w o i = .ok code ∧
        u.readFile (outputPath w o i) = .ok code) ↔
      ∀ i ∈ w.files, ∀ j ∈ w.files, Meet w o t i j → codeOf w o i = codeOf w o j) ∧
    (Settled w o u (emit w o u) ↔
      ∀ i ∈ w.files, ∀ j ∈ w.files, Meet w o t i j → codeOf w o i = codeOf w o j) := by
  intro u
  have hcurrent : u.current = t.current := by
    rw [← current_foldl_deposit w o t w.files, ← (emit_tells w o t).2]
  have hlast : LastHeld w o t w.files u := by
    have hempty : LastHeld w o t [] t := by simp [LastHeld]
    have hrun := hempty.run rfl (failures_emit_eq_nil.1 h)
    rwa [List.nil_append, ← (emit_tells w o t).2] at hrun
  have hown : (∀ i ∈ w.files, ∃ code, codeOf w o i = .ok code ∧
        u.readFile (outputPath w o i) = .ok code) ↔
      ∀ i ∈ w.files, ∀ j ∈ w.files, Meet w o t i j → codeOf w o i = codeOf w o j := by
    constructor
    · intro hall i hi j hj hmeet
      obtain ⟨code, hi, hread⟩ := hall i hi
      obtain ⟨code', hj, hread'⟩ := hall j hj
      have hfile := FileTree.get?_of_readFile (isJoined_outputPath w o i) hread
      have hfile' := FileTree.get?_of_readFile (isJoined_outputPath w o j) hread'
      rw [FileTree.placeOf, hcurrent] at hfile hfile'
      rw [Meet, FileTree.placeOf, FileTree.placeOf] at hmeet
      rw [hmeet, hfile'] at hfile
      cases hfile
      rw [hi, hj]
    · intro hall i hi
      obtain ⟨before, last, after, code, his, hmeet, -, hcode, hread⟩ := hlast i hi
      exact ⟨code, (hall i hi last (by simp [his]) hmeet).trans hcode, hread⟩
  exact ⟨hlast, hown, settled_iff.trans hown⟩

/-- Two paths of one place with the same code, and a path of another place. -/
def repeated : List Chunk :=
  [{ Chunk.ofKind .output "a" with commands := [⟨.code "x", .none⟩] },
    { Chunk.ofKind .output "d/b" with commands := [⟨.code "y", .none⟩] },
    { Chunk.ofKind .output "../w/a" with commands := [⟨.code "x", .none⟩] }]

theorem emit_settles_repeated :
    let w := Web.ofChunks "m.w" repeated
    let o : EmitOptions := { dir := "" }
    let t : FileTree := ⟨[(["w"], .directory), (["w", "a"], .file "old")], ["w"]⟩
    (emit w o t).failures = [] ∧ (emit w o t).written = ["a", "d/b"] ∧
      LastHeld w o t w.files (emit w o t).tree ∧
      Settled w o (emit w o t).tree (emit w o (emit w o t).tree) := by
  intro w o t
  have hfailures : (emit w o t).failures = [] := by decide +kernel
  obtain ⟨hlast, -, hsettled⟩ := emit_settles w o t hfailures
  refine ⟨hfailures, by decide +kernel, hlast, hsettled.2 ?_⟩
  unfold Meet
  decide +kernel

/-- Two output chunks of one path with different code. -/
def rival : List Chunk :=
  [{ Chunk.ofKind .output "a" with commands := [⟨.code "x", .none⟩] },
    { Chunk.ofKind .output "a" with commands := [⟨.code "y", .none⟩] }]

/-- Nothing fails, but the first chunk has no file, and a second emission writes both again. -/
theorem emit_rival :
    let w := Web.ofChunks "m.w" rival
    let o : EmitOptions := { dir := "" }
    let t : FileTree := ⟨[(["w"], .directory)], ["w"]⟩
    let u := (emit w o t).tree
    (emit w o t).failures = [] ∧ 0 ∈ w.files ∧ codeOf w o 0 = .ok "x" ∧
      u.readFile (outputPath w o 0) = .ok "y" ∧ (emit w o u).failures = [] ∧
      (emit w o u).written = ["a", "a"] ∧ (emit w o u).unchanged = [] := by
  intro w o t u
  exact ⟨by decide +kernel, by decide +kernel, by decide +kernel, by decide +kernel,
    by decide +kernel, by decide +kernel, by decide +kernel⟩

end Literate.Tangle
