import Literate.Proofs.Tangle.Deposits

/-! Output files apart from each other do not meet. Each of them is written, found unchanged or
reported as it would be without the others, and nothing else in the tree is touched but directories
above them. -/

namespace Literate.Tangle

open FileTree (Alike Closed)

variable {w : Web} {o : EmitOptions} {t u : FileTree} {is : List Nat} {i : Nat}

/-- The places of two output files are neither the same nor one above the other. -/
def Apart (w : Web) (o : EmitOptions) (t : FileTree) (i j : Nat) : Prop :=
  ¬t.placeOf (outputPath w o i) <+: t.placeOf (outputPath w o j) ∧
    ¬t.placeOf (outputPath w o j) <+: t.placeOf (outputPath w o i)

/-- The fate of a chunk depends on its code, on its path, and on the tree at its place and above. -/
theorem fate_alike {w' : Web} {o' : EmitOptions} {j : Nat}
    (hcode : (codeOf w' o' j).toOption = (codeOf w o i).toOption)
    (hpath : outputPath w' o' j = outputPath w o i)
    (h : Alike t u (t.placeOf (outputPath w o i))) : fate w' o' u j = fate w o t i := by
  unfold fate
  cases hc : codeOf w o i with
  | error f =>
    cases hc' : codeOf w' o' j with
    | error f' => rfl
    | ok code => simp [hc, hc', Except.toOption] at hcode
  | ok code =>
    cases hc' : codeOf w' o' j with
    | error f' => simp [hc, hc', Except.toOption] at hcode
    | ok code' =>
      obtain rfl : code' = code := by simpa [hc, hc', Except.toOption] using hcode
      dsimp only
      rw [hpath, h.writeIfChanged (isJoined_outputPath w o i)]

/-- The tree in the middle of an emission, with some chunks done. -/
structure Course (w : Web) (o : EmitOptions) (t : FileTree) (is : List Nat) (u : FileTree) :
    Prop where
  current : u.current = t.current
  left : ∀ i ∈ is, (fate w o t i).Left t u (outputPath w o i)
  elsewhere : ∀ q, (∀ i ∈ is, q ≠ t.placeOf (outputPath w o i)) → u.get? q = t.get? q ∨
    t.get? q = none ∧ u.get? q = some .directory ∧ ∃ i ∈ is, q <+: t.placeOf (outputPath w o i)

theorem Course.start (w : Web) (o : EmitOptions) (t : FileTree) : Course w o t [] t :=
  ⟨rfl, by simp, fun _ _ => .inl rfl⟩

/-- Chunks apart from this one have left its place and what is above it as they were, but for
directories. -/
theorem Course.alike (ht : t.Closed) (h : Course w o t is u) (hi : ∀ j ∈ is, Apart w o t j i) :
    Alike t u (t.placeOf (outputPath w o i)) := by
  have habove : ∀ q, q <+: t.placeOf (outputPath w o i) → u.get? q = t.get? q ∨
      t.get? q = none ∧ u.get? q = some .directory ∧
        ∃ j ∈ is, q <+: t.placeOf (outputPath w o j) :=
    fun q hq => h.elsewhere q fun j hj heq => (hi j hj).1 (heq ▸ hq)
  refine ⟨h.current, ?_, fun q hq _ => ?_, fun hsome q hq hne => ?_⟩
  · rcases habove _ List.prefix_rfl with hsame | ⟨-, -, j, hj, hpre⟩
    · exact hsame
    · exact absurd hpre (hi j hj).2
  · exact (habove q hq).imp_right fun h => ⟨h.1, h.2.1⟩
  · rcases habove q hq with hsame | ⟨hnone, -⟩
    · exact hsame
    · rw [ht.above hq hne hsome] at hnone
      cases hnone

theorem Course.step (ht : t.Closed) (h : Course w o t is u) (hi : ∀ j ∈ is, Apart w o t j i) :
    fate w o u i = fate w o t i ∧ Course w o t (is ++ [i]) (deposit w o u i) := by
  have hfate : fate w o u i = fate w o t i := fate_alike rfl rfl (h.alike ht hi)
  have hplaces : ∀ path, u.placeOf path = t.placeOf path := fun path => by
    rw [FileTree.placeOf, h.current, FileTree.placeOf]
  have hspares := spares_deposit w o u i
  rw [hplaces] at hspares
  refine ⟨hfate, hspares.current.trans h.current, fun j hj => ?_, fun q hq => ?_⟩
  · rcases List.mem_append.1 hj with hj | hj
    · -- a chunk that is done: the new one is apart from it
      have hplace : (deposit w o u i).get? (t.placeOf (outputPath w o j)) =
          u.get? (t.placeOf (outputPath w o j)) := by
        have hne : t.placeOf (outputPath w o j) ≠ t.placeOf (outputPath w o i) :=
          fun heq => (hi j hj).1 (heq ▸ List.prefix_rfl)
        rcases hspares.elsewhere _ hne with hsame | ⟨-, -, hpre⟩
        · exact hsame
        · exact absurd hpre (hi j hj).1
      have hkept : ∀ code, u.readFile (outputPath w o j) = .ok code →
          (deposit w o u i).readFile (outputPath w o j) = .ok code := by
        intro code hread
        refine readFile_deposit (isJoined_outputPath w o j) hread ?_
        rw [hplaces, hplace, ← hplaces]
        exact FileTree.get?_of_readFile (isJoined_outputPath w o j) hread
      have hleft := h.left j hj
      cases hf : fate w o t j with
      | written code => exact hkept code (by simpa [hf, Fate.Left] using hleft)
      | unchanged code => exact hkept code (by simpa [hf, Fate.Left] using hleft)
      | failed =>
        rw [hf] at hleft
        exact hplace.trans hleft
    · obtain rfl := List.mem_singleton.1 hj
      have hleft := left_deposit w o u j
      rw [hfate] at hleft
      cases hf : fate w o t j with
      | written code => simpa [hf, Fate.Left] using hleft
      | unchanged code => simpa [hf, Fate.Left] using hleft
      | failed =>
        rw [hf, Fate.Left, hplaces] at hleft
        exact hleft.trans (h.alike ht hi).target
  · have hdone := h.elsewhere q fun j hj => hq j (by simp [hj])
    rcases hspares.elsewhere q (hq i (by simp)) with hsame | ⟨hnone, hdir, hpre⟩
    · rw [hsame]
      rcases hdone with h | ⟨hn, hd, j, hj, hp⟩
      · exact .inl h
      · exact .inr ⟨hn, hd, j, by simp [hj], hp⟩
    · rcases hdone with hsame | ⟨-, hd, -⟩
      · exact .inr ⟨hsame ▸ hnone, hdir, i, by simp, hpre⟩
      · rw [hd] at hnone
        cases hnone

theorem Course.run (ht : t.Closed) (h : Course w o t is u) (js : List Nat)
    (hapart : (is ++ js).Pairwise (Apart w o t)) :
    fates w o u js = js.map (fun i => (i, fate w o t i)) ∧
      Course w o t (is ++ js) (js.foldl (deposit w o) u) := by
  induction js generalizing is u with
  | nil => simpa [fates] using h
  | cons j js ih =>
    obtain ⟨hfate, hnext⟩ := h.step ht (i := j)
      fun i hi => (List.pairwise_append.1 hapart).2.2 i hi j (by simp)
    rw [List.append_cons] at hapart
    obtain ⟨hrest, hend⟩ := ih hnext hapart
    rw [fates, hfate, hrest]
    exact ⟨rfl, by simpa using hend⟩

/-- What an emission tells of an output chunk and leaves at its path. -/
def Fate.Shown (t : FileTree) (e : Emission) (path : Text) : Fate → Prop
  | written code => t.readFile path ≠ .ok code ∧ e.tree.readFile path = .ok code ∧
    e.written.count path = 1 ∧ path ∉ e.unchanged
  | unchanged code => t.readFile path = .ok code ∧ e.tree.readFile path = .ok code ∧
    e.unchanged.count path = 1 ∧ path ∉ e.written
  | failed => e.tree.get? (t.placeOf path) = t.get? (t.placeOf path) ∧
    path ∉ e.written ∧ path ∉ e.unchanged

/-- The output chunks of an emission are kept apart. -/
structure Isolated (w : Web) (o : EmitOptions) (t : FileTree) (e : Emission) : Prop where
  /-- The code that a fate speaks of is what an accepted chunk renders to. -/
  rendered : ∀ i ∈ w.files, ∀ code,
    fate w o t i = .written code ∨ fate w o t i = .unchanged code →
    (o.confined = true → Path.isLocal (w.chunk i).path = true) ∧
      ∀ m, (render w o.marked i m).1 = .ok code
  /-- Each chunk is told of once and left as its fate on the tree before the emission says. -/
  shown : ∀ i ∈ w.files, (fate w o t i).Shown t e (outputPath w o i)
  /-- A fate is that of any chunk, of this or another web, with the same code and path on a tree
  that is the same at the place of the path and above it. -/
  own : ∀ i ∈ w.files, ∀ (w' : Web) (o' : EmitOptions) (u : FileTree) (j : Nat),
    (codeOf w' o' j).toOption = (codeOf w o i).toOption → outputPath w' o' j = outputPath w o i →
    u.current = t.current → (∀ q, q <+: t.placeOf (outputPath w o i) → u.get? q = t.get? q) →
    fate w' o' u j = fate w o t i
  written : e.written = (w.files.filter fun i => (fate w o t i).isWritten).map (outputPath w o)
  unchanged : e.unchanged =
    (w.files.filter fun i => (fate w o t i).isUnchanged).map (outputPath w o)
  failures : List.Forall₂ (Blames w o) (w.files.filter fun i => (fate w o t i).isFailed) e.failures
  failures_nil : e.failures = [] ↔ ∀ i ∈ w.files, fate w o t i ≠ .failed
  elsewhere : ∀ q, (∀ i ∈ w.files, q ≠ t.placeOf (outputPath w o i)) → e.tree.get? q = t.get? q ∨
    t.get? q = none ∧ e.tree.get? q = some .directory ∧
      ∃ i ∈ w.files, q <+: t.placeOf (outputPath w o i)

theorem filter_map_fates (f : Nat → Fate) (p : Fate → Bool) (is : List Nat) :
    ((is.map fun i => (i, f i)).filter fun x => p x.2).map (·.1) = is.filter fun i => p (f i) := by
  induction is with
  | nil => rfl
  | cons i is ih => by_cases h : p (f i) <;> simp [h, ih]

theorem nodup_outputPath (h : is.Pairwise (Apart w o t)) : (is.map (outputPath w o)).Nodup := by
  rw [List.Nodup, List.pairwise_map]
  refine h.imp ?_
  intro i j hij heq
  exact hij.1 (heq ▸ List.prefix_rfl)

theorem mem_map_outputPath (h : is.Pairwise (Apart w o t)) (hi : i ∈ is) (p : Nat → Bool) :
    outputPath w o i ∈ (is.filter p).map (outputPath w o) ↔ p i = true := by
  constructor
  · intro hmem
    obtain ⟨j, hj, heq⟩ := List.mem_map.1 hmem
    obtain ⟨hj, hp⟩ := List.mem_filter.1 hj
    rwa [← List.inj_on_of_nodup_map (nodup_outputPath h) hj hi heq]
  · exact fun hp => List.mem_map.2 ⟨i, List.mem_filter.2 ⟨hi, hp⟩, rfl⟩

theorem count_map_outputPath (h : is.Pairwise (Apart w o t)) (hi : i ∈ is) {p : Nat → Bool}
    (hp : p i = true) : ((is.filter p).map (outputPath w o)).count (outputPath w o i) = 1 := by
  refine List.count_eq_one_of_mem ?_ ((mem_map_outputPath h hi p).2 hp)
  exact (nodup_outputPath h).sublist (List.filter_sublist.map _)

section Emit

variable (ht : t.Closed) (hapart : w.files.Pairwise (Apart w o t))
include ht hapart

theorem course_emit : Course w o t w.files (emit w o t).tree := by
  have hcourse := ((Course.start w o t).run ht w.files hapart).2
  rwa [List.nil_append, ← (emit_tells w o t).2] at hcourse

/-- The fates of the output chunks are those on the tree before the emission. -/
theorem emit_tells_fates :
    Tells w o { tree := t, memory := {} } (emit w o t) (w.files.map fun i => (i, fate w o t i)) := by
  rw [← ((Course.start w o t).run ht w.files hapart).1]
  exact (emit_tells w o t).1

theorem written_emit : (emit w o t).written =
    (w.files.filter fun i => (fate w o t i).isWritten).map (outputPath w o) := by
  rw [(emit_tells_fates ht hapart).written, ← filter_map_fates, List.map_map]
  rfl

theorem unchanged_emit : (emit w o t).unchanged =
    (w.files.filter fun i => (fate w o t i).isUnchanged).map (outputPath w o) := by
  rw [(emit_tells_fates ht hapart).unchanged, ← filter_map_fates, List.map_map]
  rfl

theorem failures_emit : List.Forall₂ (Blames w o)
    (w.files.filter fun i => (fate w o t i).isFailed) (emit w o t).failures := by
  obtain ⟨added, hadded, hblames⟩ := (emit_tells_fates ht hapart).failures
  rw [filter_map_fates] at hblames
  rwa [hadded]

theorem shown_emit (hi : i ∈ w.files) :
    (fate w o t i).Shown t (emit w o t) (outputPath w o i) := by
  have hinWritten := mem_map_outputPath hapart hi fun i => (fate w o t i).isWritten
  have hinUnchanged := mem_map_outputPath hapart hi fun i => (fate w o t i).isUnchanged
  have honceWritten := count_map_outputPath hapart hi (p := fun i => (fate w o t i).isWritten)
  have honceUnchanged := count_map_outputPath hapart hi (p := fun i => (fate w o t i).isUnchanged)
  rw [← written_emit ht hapart] at hinWritten honceWritten
  rw [← unchanged_emit ht hapart] at hinUnchanged honceUnchanged
  have hleft := (course_emit ht hapart).left i hi
  have hbefore := deposited w o t i
  generalize fate w o t i = f, deposit w o t i = u at *
  cases hbefore with
  | written _ differed _ _ _ =>
    exact ⟨differed, hleft, honceWritten rfl, by simp [hinUnchanged, Fate.isUnchanged]⟩
  | unchanged _ held =>
    exact ⟨held, hleft, honceUnchanged rfl, by simp [hinWritten, Fate.isWritten]⟩
  | failed _ _ =>
    exact ⟨hleft, by simp [hinWritten, Fate.isWritten], by simp [hinUnchanged, Fate.isUnchanged]⟩

end Emit

/-- Output files whose places are apart do not touch each other nor anything else. -/
theorem emit_isolated (w : Web) (o : EmitOptions) (t : FileTree) (ht : t.Closed)
    (hapart : w.files.Pairwise (Apart w o t)) : Isolated w o t (emit w o t) := by
  have hfailures := failures_emit ht hapart
  refine ⟨fun i _ code hcode => codeOf_eq_ok.1 (codeOf_of_fate hcode),
    fun i hi => shown_emit ht hapart hi, ?_, written_emit ht hapart, unchanged_emit ht hapart,
    hfailures, ?_, (course_emit ht hapart).elsewhere⟩
  · intro i _ w' o' u j hcode hpath hcurrent hsame
    exact fate_alike hcode hpath (Alike.of_eq hcurrent hsame)
  · rw [← List.length_eq_zero_iff, ← hfailures.length_eq, List.length_eq_zero_iff,
      List.filter_eq_nil_iff]
    refine forall₂_congr fun i _ => ?_
    cases fate w o t i <;> simp [Fate.isFailed]

/-- Four output files: a new one, one that is there already, one that cannot be rendered, and one
below a file. -/
def mixed : List Chunk :=
  [{ Chunk.ofKind .output "src/a" with commands := [⟨.code "x", .none⟩] },
    { Chunk.ofKind .output "b" with commands := [⟨.code "y", .none⟩] },
    { Chunk.ofKind .output "c" with commands := [⟨.reference "n", .none⟩] },
    { Chunk.ofKind .output "f/d" with commands := [⟨.code "z", .none⟩] }]

theorem emit_isolated_mixed :
    let w := Web.ofChunks "m.w" mixed
    let o : EmitOptions := { dir := "out" }
    let t : FileTree := ⟨[(["w"], .directory), (["w", "out"], .directory),
      (["w", "out", "b"], .file "y"), (["w", "out", "f"], .file "")], ["w"]⟩
    t.Closed ∧ w.files.Pairwise (Apart w o t) ∧
      w.files.map (fate w o t) = [.written "x", .unchanged "y", .failed, .failed] ∧
      Isolated w o t (emit w o t) := by
  intro w o t
  have hclosed : t.Closed := FileTree.closed_of_entries (by decide)
  have hapart : w.files.Pairwise (Apart w o t) := by
    unfold Apart
    decide +kernel
  exact ⟨hclosed, hapart, by decide +kernel, emit_isolated w o t hclosed hapart⟩

/-- Two paths of one place. -/
def overlaid : List Chunk :=
  [{ Chunk.ofKind .output "a" with commands := [⟨.code "x", .none⟩] },
    { Chunk.ofKind .output "../w/a" with commands := [⟨.code "y", .none⟩] }]

/-- It is not enough that the paths differ and neither goes on from the other. -/
theorem emit_overlaid :
    let w := Web.ofChunks "m.w" overlaid
    let o : EmitOptions := { dir := "" }
    let t : FileTree := ⟨[(["w"], .directory)], ["w"]⟩
    t.Closed ∧
      (w.files.Pairwise fun i j => outputPath w o i ≠ outputPath w o j ∧
        ¬outputPath w o i ++ [Path.slash] <+: outputPath w o j ∧
        ¬outputPath w o j ++ [Path.slash] <+: outputPath w o i) ∧
      (emit w o t).failures = [] ∧ 0 ∈ w.files ∧ codeOf w o 0 = .ok "x" ∧
      outputPath w o 0 ∈ (emit w o t).written ∧
      (emit w o t).tree.readFile (outputPath w o 0) = .ok "y" := by
  intro w o t
  exact ⟨FileTree.closed_of_entries (by decide), by decide +kernel, by decide +kernel,
    by decide +kernel, by decide +kernel, by decide +kernel, by decide +kernel⟩

end Literate.Tangle
