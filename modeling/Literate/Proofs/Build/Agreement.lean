import Literate.Proofs.Build.Stages
import Literate.Proofs.FileTree.Wording

/-! The same build beside other files. Files that are written first, apart from all that a build reads
and writes, change nothing of its report; only the words of its errors can differ, and they do not if
the names of its paths are within the limit. -/

namespace Literate

open FileTree (Apart Beside Fitting Separate Touched Sound)

section

variable {others : List (Text × Text)} {worded : Prop}

namespace Tangle

variable {w : Web} {o : EmitOptions}

/-- Two courses of an emission that tell the same, but for the words of failures. -/
structure Emission.Like (worded : Prop) (e d : Emission) : Prop where
  memory : d.memory = e.memory
  written : d.written = e.written
  unchanged : d.unchanged = e.unchanged
  count : d.failures.length = e.failures.length
  failures : worded → d.failures = e.failures

namespace Emission.Like

variable {e d : Emission}

theorem fail (h : Like worded e d) (f : Failure) (message name cause : Text) :
    Like worded (e.fail f message name cause) (d.fail f message name cause) where
  memory := h.memory
  written := h.written
  unchanged := h.unchanged
  count := by simp [Emission.fail, Emission.say, h.count]
  failures hw := by simp [Emission.fail, Emission.say, h.failures hw]

theorem put (h : Like worded e d) (hb : Beside others e.tree d.tree) {name path code : Text}
    (hp : FileTree.IsJoined path)
    (hsep : ∀ g ∈ others, Separate (e.tree.placeOf path) (e.tree.placeOf g.1))
    (hf : worded → Fitting path) :
    Like worded (e.put name path code) (d.put name path code) ∧
      Beside others (e.put name path code).tree (d.put name path code).tree := by
  obtain ⟨hbeside, hoption, hsame⟩ := hb.write (path, code) hp hsep
  unfold Emission.put
  rcases hres : FileTree.writeIfChanged path code e.tree with ⟨result, t⟩
  rcases hres' : FileTree.writeIfChanged path code d.tree with ⟨result', u⟩
  rw [hres, hres'] at hbeside hoption hsame
  rcases toOption_cases hoption with ⟨cause, cause', rfl, rfl⟩ | ⟨changed, rfl, rfl⟩
  · refine ⟨⟨h.memory, h.written, h.unchanged, ?_, fun hw => ?_⟩, hbeside⟩
    · simp [Emission.fail, Emission.say, h.count]
    · obtain rfl : cause' = cause := by simpa using hsame (hf hw)
      simp [Emission.fail, Emission.say, h.failures hw]
  · cases changed with
    | true =>
      exact ⟨⟨h.memory, congrArg (· ++ [path]) h.written, h.unchanged, h.count, h.failures⟩, hbeside⟩
    | false =>
      exact ⟨⟨h.memory, h.written, congrArg (· ++ [path]) h.unchanged, h.count, h.failures⟩, hbeside⟩

theorem file (h : Like worded e d) (hb : Beside others e.tree d.tree) {i : Nat} (hi : i ∈ w.files)
    (hsep : Apart e.tree (outputs w o) others) (hf : worded → ∀ f ∈ outputs w o, Fitting f.1) :
    Like worded (e.file w o i) (d.file w o i) ∧
      Beside others (e.file w o i).tree (d.file w o i).tree := by
  unfold Emission.file
  dsimp only
  by_cases hout : (o.confined && !Path.isLocal (w.chunk i).path) = true
  · simp only [if_pos hout]
    exact ⟨h.fail _ _ _ _, hb⟩
  · simp only [if_neg hout, h.memory]
    have hcode := codeOf_eq_render hout e.memory
    rcases hr : render w o.marked i e.memory with ⟨result, memory⟩
    rw [hr] at hcode
    have hlike : Like worded { e with memory } { d with memory } :=
      ⟨rfl, h.written, h.unchanged, h.count, h.failures⟩
    cases result with
    | error f => exact ⟨hlike.fail _ _ _ _, hb⟩
    | ok code =>
      have hmem := mem_outputs_of_code hi hcode
      exact hlike.put hb (isJoined_outputPath w o i) (hsep _ hmem) fun hw => hf hw _ hmem

end Emission.Like

theorem placeOf_file (e : Emission) (i : Nat) (path : Text) :
    (e.file w o i).tree.placeOf path = e.tree.placeOf path := by
  rw [(file_tells e i).2, FileTree.placeOf, (spares_deposit w o e.tree i).current]
  rfl

theorem foldl_file_like {e d : Emission} {is : List Nat} (his : is ⊆ w.files)
    (h : Emission.Like worded e d) (hb : Beside others e.tree d.tree)
    (hsep : Apart e.tree (outputs w o) others) (hf : worded → ∀ f ∈ outputs w o, Fitting f.1) :
    Emission.Like worded (is.foldl (Emission.file w o) e) (is.foldl (Emission.file w o) d) ∧
      Beside others (is.foldl (Emission.file w o) e).tree
        (is.foldl (Emission.file w o) d).tree := by
  induction is generalizing e d with
  | nil => exact ⟨h, hb⟩
  | cons i is ih =>
    obtain ⟨hi, his⟩ := List.cons_subset.1 his
    obtain ⟨hlike, hbeside⟩ := h.file hb hi hsep hf
    exact ih his hlike hbeside (hsep.of_placeOf (placeOf_file e i))

theorem emit_like {t u : FileTree} (hb : Beside others t u) (hsep : Apart t (outputs w o) others)
    (hf : worded → ∀ f ∈ outputs w o, Fitting f.1) :
    Emission.Like worded (emit w o t) (emit w o u) ∧
      Beside others (emit w o t).tree (emit w o u).tree := by
  have hstart : Emission.Like worded { tree := t, memory := {} } { tree := u, memory := {} } :=
    ⟨rfl, rfl, rfl, rfl, fun _ => rfl⟩
  obtain ⟨hlike, hbeside⟩ := foldl_file_like (List.Subset.refl _) hstart hb hsep hf
  exact ⟨⟨hlike.memory, hlike.written, hlike.unchanged, hlike.count, hlike.failures⟩, hbeside⟩

end Tangle

theorem Weave.emit_like {m : Weave.Markup} {dir : Text} {w : Web} {t u : FileTree}
    (hb : Beside others t u) (hsep : Apart t (outputs m dir w) others)
    (hf : worded → ∀ f ∈ outputs m dir w, Fitting f.1) :
    (emit m dir w u).1.toOption = (emit m dir w t).1.toOption ∧
      (worded → (emit m dir w u).1 = (emit m dir w t).1) ∧
      Beside others (emit m dir w t).2.1 (emit m dir w u).2.1 := by
  unfold emit
  rcases hr : render m w with ⟨result, log⟩
  cases result with
  | error e => exact ⟨rfl, fun _ => rfl, hb⟩
  | ok doc =>
    have hmem : (targetPath m dir w.path, doc) ∈ outputs m dir w := by simp [outputs, hr]
    obtain ⟨hbeside, hoption, hsame⟩ := hb.write (targetPath m dir w.path, doc)
      (FileTree.isJoined_join _ _) (hsep _ hmem)
    have hsame := fun hw => hsame (hf hw _ hmem)
    dsimp only at hbeside hoption hsame ⊢
    rcases hres : FileTree.writeIfChanged (targetPath m dir w.path) doc t with ⟨outcome, t'⟩
    rcases hres' : FileTree.writeIfChanged (targetPath m dir w.path) doc u with ⟨outcome', u'⟩
    rw [hres, hres'] at hbeside hoption hsame
    rcases toOption_cases hoption with ⟨cause, cause', rfl, rfl⟩ | ⟨changed, rfl, rfl⟩
    · refine ⟨rfl, fun hw => ?_, hbeside⟩
      obtain rfl : cause' = cause := by simpa using hsame hw
      rfl
    · cases changed <;> exact ⟨rfl, fun _ => rfl, hbeside⟩

namespace Build

variable {site : Site} {w : Web} {confined : Bool} {off : Cancellation}

structure Summary.Like (worded : Prop) (a b : Summary) : Prop where
  lines : b.lines = a.lines
  chunks : b.chunks = a.chunks
  parseErrors : b.parseErrors = a.parseErrors
  written : b.written = a.written
  unchanged : b.unchanged = a.unchanged
  document : b.document = a.document
  count : b.errors.length = a.errors.length
  errors : worded → b.errors = a.errors

theorem Summary.Like.refl (worded : Prop) (a : Summary) : Summary.Like worded a a :=
  ⟨rfl, rfl, rfl, rfl, rfl, rfl, rfl, fun _ => rfl⟩

/-- Two courses of the phases that tell the same, beside other files. -/
structure Course.Like (worded : Prop) (others : List (Text × Text)) (c d : Course) : Prop where
  summary : Summary.Like worded c.summary d.summary
  succeeded : d.succeeded = c.succeeded
  failedIn : d.failedIn = c.failedIn
  beside : Beside others c.tree d.tree

namespace Course.Like

variable {c d : Course}

theorem addError (h : Like worded others c d) {message message' : Text}
    (hmessage : worded → message' = message) :
    Like worded others (c.addError message) (d.addError message') := by
  refine { h with summary := { h.summary with count := ?_, errors := fun hw => ?_ } }
  · simp [Course.addError, h.summary.count]
  · simp [Course.addError, h.summary.errors hw, hmessage hw]

theorem fail (h : Like worded others c d) (phase : Text) {message message' : Text}
    (hmessage : worded → message' = message) :
    Like worded others (c.fail phase message) (d.fail phase message') :=
  have hadd := h.addError hmessage
  ⟨hadd.summary, hadd.succeeded, rfl, hadd.beside⟩

theorem tangle (h : Like worded others c d)
    (hsep : Apart c.tree (Tangle.outputs w (tangleOptions site w confined)) others)
    (hf : worded → ∀ f ∈ Tangle.outputs w (tangleOptions site w confined), Fitting f.1) :
    Like worded others (c.tangle site w confined) (d.tangle site w confined) := by
  obtain ⟨hemit, hbeside⟩ := Tangle.emit_like h.beside hsep hf
  unfold tangleOptions at hemit hbeside
  unfold Course.tangle
  dsimp only
  generalize Tangle.emit w _ c.tree = e at hemit hbeside ⊢
  generalize Tangle.emit w _ d.tree = e' at hemit hbeside ⊢
  have hlike : Like worded others
      { c with
        tree := e.tree
        log := c.log ++ e.log
        summary := { c.summary with
          written := c.summary.written ++ e.written
          unchanged := c.summary.unchanged ++ e.unchanged }
        succeeded := c.succeeded || !(e.written ++ e.unchanged).isEmpty }
      { d with
        tree := e'.tree
        log := d.log ++ e'.log
        summary := { d.summary with
          written := d.summary.written ++ e'.written
          unchanged := d.summary.unchanged ++ e'.unchanged }
        succeeded := d.succeeded || !(e'.written ++ e'.unchanged).isEmpty } := by
    refine ⟨{ h.summary with written := ?_, unchanged := ?_ }, ?_, h.failedIn, hbeside⟩
    · rw [h.summary.written, hemit.written]
    · rw [h.summary.unchanged, hemit.unchanged]
    · rw [h.succeeded, hemit.written, hemit.unchanged]
  have hnone : e'.failures = [] ↔ e.failures = [] := by
    rw [← List.length_eq_zero_iff, hemit.count, List.length_eq_zero_iff]
  by_cases hfailures : e.failures = []
  · rw [if_pos hfailures, if_pos (hnone.2 hfailures)]
    exact hlike
  · rw [if_neg hfailures, if_neg (mt hnone.1 hfailures)]
    exact hlike.fail _ fun hw => by rw [hemit.failures hw]

theorem weave (h : Like worded others c d) (hsep : Apart c.tree (woven site w) others)
    (hf : worded → ∀ f ∈ woven site w, Fitting f.1) (hskip : site.settings.skipWeave = false) :
    Like worded others (c.weave site w) (d.weave site w) := by
  unfold woven at hsep hf
  rw [if_neg (by simp [hskip])] at hsep hf
  unfold Course.weave
  cases hm : Weave.markup? site.settings.markup with
  | none => exact h.fail _ fun _ => rfl
  | some m =>
    rw [hm] at hsep hf
    obtain ⟨hoption, hsame, hbeside⟩ := Weave.emit_like h.beside hsep hf
    dsimp only
    rcases hres : Weave.emit m site.settings.outputDir w c.tree with ⟨result, t, log⟩
    rcases hres' : Weave.emit m site.settings.outputDir w d.tree with ⟨result', u, log'⟩
    rw [hres, hres'] at hoption hsame hbeside
    rcases toOption_cases hoption with ⟨f, f', rfl, rfl⟩ | ⟨_, rfl, rfl⟩
    · have hlike : ∀ more more', Like worded others { c with tree := t, log := more }
          { d with tree := u, log := more' } := fun _ _ => { h with beside := hbeside }
      refine (hlike _ _).fail _ fun hw => ?_
      obtain rfl : f' = f := by simpa using hsame hw
      rfl
    · exact ⟨{ h.summary with document := rfl }, rfl, h.failedIn, hbeside⟩

end Course.Like

theorem placeOf_tangle (c : Course) (path : Text) :
    (c.tangle site w confined).tree.placeOf path = c.tree.placeOf path := by
  rw [tree_tangle]
  refine (FileTree.touched_writeAll fun f hf => ?_).placeOf path
  obtain ⟨i, -, -, hpath⟩ := Tangle.mem_outputs hf
  rw [hpath]
  exact Tangle.isJoined_outputPath w _ i

theorem phases_like (w : Web) (confined : Bool) (off : Cancellation) {c d : Course}
    (h : Course.Like worded others c d)
    (hsep : Apart c.tree (outputs site w confined off) others)
    (hf : worded → ∀ f ∈ outputs site w confined off, Fitting f.1) :
    Course.Like worded others (phases site w confined off c).1 (phases site w confined off d).1 ∧
      (phases site w confined off d).2 = (phases site w confined off c).2 := by
  unfold outputs at hsep hf
  unfold phases
  dsimp only
  split
  · exact ⟨h.addError fun _ => rfl, rfl⟩
  next hgo =>
    rw [if_neg hgo] at hsep hf
    have htangled : Course.Like worded others
        (if site.settings.skipTangle then c else c.tangle site w confined)
        (if site.settings.skipTangle then d else d.tangle site w confined) := by
      split
      · exact h
      next hskip =>
        rw [tangled, if_neg hskip] at hsep hf
        exact h.tangle (fun f hf => hsep f (List.mem_append_left _ hf))
          fun hw f hmem => hf hw f (List.mem_append_left _ hmem)
    have hplaces : ∀ path, (if site.settings.skipTangle then c
        else c.tangle site w confined).tree.placeOf path = c.tree.placeOf path := by
      split
      · exact fun _ => rfl
      · exact placeOf_tangle c
    split
    · exact ⟨htangled, rfl⟩
    next hskip =>
      split
      · exact ⟨htangled.addError fun _ => rfl, rfl⟩
      next hoff =>
        rw [if_neg hoff] at hsep hf
        have hwoven : Apart c.tree (woven site w) others :=
          fun f hf => hsep f (List.mem_append_right _ hf)
        exact ⟨htangled.weave (hwoven.of_placeOf hplaces)
          (fun hw f hmem => hf hw f (List.mem_append_right _ hmem)) (by simpa using hskip), rfl⟩

/-- Two reports that tell the same, but for the words of errors. What was logged is left aside. -/
structure Report.Like (worded : Prop) (r s : Report) : Prop where
  status : s.status = r.status
  phase : s.phase = r.phase
  hash : s.hash = r.hash
  web : s.web = r.web
  summary : Summary.Like worded r.summary s.summary

theorem Course.Like.verdict {c d : Course} (h : Course.Like worded others c d) :
    d.verdict = c.verdict := by
  unfold Course.verdict
  rw [h.failedIn, h.succeeded]

section Run

variable {t u : FileTree} {path : Text}

/-- The names of the web's path and of the paths that are written are within the limit. -/
def Worded (site : Site) (t : FileTree) (path : Text) (confined : Bool) (off : Cancellation) : Prop :=
  Fitting path ∧ ∀ f ∈ writes site t path confined off, Fitting f.1

/-- What a build reads and writes is apart from other files. -/
structure Clears (site : Site) (t : FileTree) (path : Text) (confined : Bool) (off : Cancellation)
    (others : List (Text × Text)) : Prop where
  clean : ∀ r ∈ reads site t path, Path.clean r = r
  reads : ∀ r ∈ reads site t path, ∀ g ∈ others, Separate (t.placeOf g.1) (t.placeOf r)
  writes : Apart t (writes site t path confined off) others

theorem readFile_of_load {e : FileError} (h : (load site t path).1 = .error e) :
    t.readFile path = .error e := by
  unfold load at h
  split at h
  next hread =>
    cases h
    exact hread
  · cases h

theorem isJoined_of_clean {path : Text} (h : Path.clean path = path) : FileTree.IsJoined path :=
  .inr (h ▸ Path.clean_cases path)

/-- A build beside other files reports the same and leaves its tree beside them. -/
theorem run_like (hb : Beside others t u) (h : Clears site t path confined off others) :
    Report.Like (Worded site t path confined off) (run site path confined off t).1
        (run site path confined off u).1 ∧
      Beside others (run site path confined off t).2 (run site path confined off u).2 := by
  have halike : ∀ r ∈ reads site t path, FileTree.Alike t u (t.placeOf r) :=
    fun r hr => hb.alike (h.reads r hr)
  have hpath : path ∈ reads site t path := by simp [reads]
  have hload := (load_like hb.sound.placed hb.sound_right.placed hb.touched.current
    fun r hr => (halike r hr).opens (h.clean r hr)).1
  unfold run
  rcases hl : load site t path with ⟨result, log⟩
  rcases hl' : load site u path with ⟨result', log'⟩
  rw [hl, hl'] at hload
  rcases toOption_cases hload with ⟨e, e', rfl, rfl⟩ | ⟨loaded, rfl, rfl⟩
  · refine ⟨⟨rfl, rfl, rfl, rfl, ⟨rfl, rfl, rfl, rfl, rfl, rfl, rfl, fun hw => ?_⟩⟩, hb⟩
    have hread := (halike path hpath).readFile_eq hb.sound.closed hb.sound_right.closed
      (isJoined_of_clean (h.clean path hpath)) hw.1
    rw [readFile_of_load (congrArg Prod.fst hl), readFile_of_load (congrArg Prod.fst hl')] at hread
    obtain rfl : e' = e := by simpa using hread
    rfl
  · dsimp only
    split
    · exact ⟨⟨rfl, rfl, rfl, rfl, .refl _ _⟩, hb⟩
    next herrors =>
      have houtputs : writes site t path confined off = outputs site loaded.web confined off := by
        simp only [writes, hl, if_neg herrors]
      have hsep := h.writes
      rw [houtputs] at hsep
      have hstart : Course.Like (Worded site t path confined off) others
          (loaded.begin t log) (loaded.begin u log') := ⟨.refl _ _, rfl, rfl, hb⟩
      obtain ⟨hlike, hphase⟩ := phases_like loaded.web confined off
        hstart hsep fun hw f hf => hw.2 f (houtputs ▸ hf)
      unfold Loaded.begin at hlike hphase
      generalize phases site loaded.web confined off _ = before at hlike hphase ⊢
      generalize phases site loaded.web confined off _ = after at hlike hphase ⊢
      obtain ⟨c, stop⟩ := before
      obtain ⟨d, stop'⟩ := after
      obtain rfl : stop' = stop := hphase
      cases stop' with
      | some phase => exact ⟨⟨rfl, rfl, rfl, rfl, hlike.summary⟩, hlike.beside⟩
      | none =>
        have hverdict := hlike.verdict
        exact ⟨⟨congrArg Prod.fst hverdict, congrArg Prod.snd hverdict, rfl, rfl, hlike.summary⟩,
          hlike.beside⟩

end Run

end Build

end

end Literate
