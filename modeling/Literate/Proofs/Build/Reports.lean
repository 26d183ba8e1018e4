import Literate.Build
import Literate.Proofs.Reader.Diagnostics

/-! A build reports its failures in three places: its status, the errors of its summary and its
log. Each phase writes to all of them or to none, so they agree when the build ends. -/

namespace Literate

open Log (Quiet)

namespace Tangle

variable {w : Web} {o : EmitOptions}

/-- An emission has a failure exactly if it has logged an error. -/
def Emission.Told (e : Emission) : Prop := e.failures = [] ↔ Quiet e.log

theorem Emission.told_fail (f : Failure) (message name cause : Text) (e : Emission) :
    (e.fail f message name cause).Told := by
  simp [Emission.Told, Emission.fail, Emission.say]

theorem Emission.Told.say {e : Emission} (h : e.Told) {level : Log.Level} (hl : level < Log.error)
    (message name : Text) (attributes : List Log.Attribute) :
    (e.say level message name attributes).Told := by
  simpa [Emission.Told, Emission.say, hl] using h

theorem Emission.put_told {e : Emission} (h : e.Told) (name path code : Text) :
    (e.put name path code).Told := by
  unfold Emission.put
  split
  · exact told_fail _ _ _ _ _
  next tree _ =>
    exact Told.say (e := { e with tree, written := e.written ++ [path] }) h Log.info_lt_error _ _ _
  next tree _ =>
    exact Told.say (e := { e with tree, unchanged := e.unchanged ++ [path] }) h
      Log.debug_lt_error _ _ _

theorem Emission.file_told {e : Emission} (h : e.Told) (i : Nat) : (e.file w o i).Told := by
  unfold Emission.file
  dsimp only
  split
  · exact told_fail _ _ _ _ _
  · split
    · exact told_fail _ _ _ _ _
    next memory _ => exact put_told (e := { e with memory }) h _ _ _

theorem quiet_usageLog (w : Web) (cs : Citations) : Quiet (usageLog w cs) := by
  intro r hr
  rcases List.mem_append.mp hr with hr | hr
  · obtain ⟨i, -, rfl⟩ := List.mem_map.mp hr
    exact Log.warn_lt_error
  · obtain ⟨i, -, rfl⟩ := List.mem_map.mp hr
    exact Log.debug_lt_error

theorem emit_told (w : Web) (o : EmitOptions) (tree : FileTree) : (emit w o tree).Told := by
  have hfold : ∀ (is : List Nat) (e : Emission), e.Told → (is.foldl (Emission.file w o) e).Told := by
    intro is
    induction is with
    | nil => exact fun e he => he
    | cons i is ih => exact fun e he => ih _ (Emission.file_told he i)
  have hfiles := hfold w.files { tree, memory := {} } (by simp [Emission.Told])
  simpa [Emission.Told, emit, quiet_usageLog] using hfiles

end Tangle

namespace Weave

variable {σ : Type} {m : Markup} {w : Web} {take : Consumer σ} {r : Course σ}

theorem log_giveRendered (block : Rendered) (r : Course σ) :
    (r.giveRendered take block).log = r.log := by
  unfold Course.giveRendered
  split <;> rfl

/-- A weave that goes on logs no error if its steps log none. -/
theorem Course.quiet_forEach {α : Type} {step : α → Course σ → Course σ}
    (h : ∀ a r, Quiet r.log → Quiet (step a r).log) (items : List α) (hr : Quiet r.log) :
    Quiet (r.forEach step items).log := by
  induction items generalizing r with
  | nil => exact hr
  | cons a items ih =>
    refine ih ?_
    unfold Course.andThen
    dsimp only
    split
    · exact h a r hr
    · exact hr

theorem quiet_reference (block : Ref → Rendered) (name : Text) (l : Location) (hr : Quiet r.log) :
    Quiet (reference w take block name l r).log := by
  unfold reference
  split
  · exact hr
  · rw [log_giveRendered]
    simpa using hr
  · rwa [log_giveRendered]

theorem quiet_prose (c : Command) (hr : Quiet r.log) : Quiet (prose m w take c r).log := by
  have hrun : ∀ text, Quiet (proseRun m take text c.location r).log := by
    intro text
    unfold proseRun
    split
    · rwa [log_giveRendered]
    · exact hr
  unfold prose
  split
  · exact hrun _
  · exact hrun _
  · split
    · exact hr
    · exact hr
    · exact quiet_reference _ _ _ hr
  · rwa [crossReference, log_giveRendered]

theorem quiet_code (style : Text) (c : Command) (hr : Quiet r.log) :
    Quiet (code m w take style c r).log := by
  unfold code
  split
  · rwa [log_giveRendered]
  · exact hr
  · exact quiet_reference _ _ _ hr
  · rwa [crossReference, log_giveRendered]

theorem quiet_block (opening closing : ChunkData → Rendered) (i : Nat) (hr : Quiet r.log) :
    Quiet (block m w take opening closing i r).log := by
  have hbody : Quiet ((r.giveRendered take (opening (chunkData w i))).forEach
      (code m w take (w.chunk i).style) (w.chunk i).commands).log :=
    Course.quiet_forEach (fun c r hr => quiet_code _ c hr) _ (by rwa [log_giveRendered])
  unfold block Course.andThen
  dsimp only
  split
  · rwa [log_giveRendered]
  · exact hbody

theorem quiet_chunk (i : Nat) (hr : Quiet r.log) : Quiet (chunk m w take i r).log := by
  unfold chunk
  dsimp only
  split
  · exact Course.quiet_forEach (fun c r hr => quiet_prose c hr) _ hr
  · exact quiet_block _ _ i hr
  · split
    · exact quiet_block _ _ i hr
    · exact hr
  · exact hr

theorem quiet_render (m : Markup) (w : Web) : Quiet (render m w).2 :=
  Course.quiet_forEach (fun i _ hr => quiet_chunk i hr) _ Log.quiet_nil

theorem quiet_emit {m : Markup} {dir : Text} {w : Web} {tree after : FileTree}
    {log : List Log.Record} (h : emit m dir w tree = (.ok (), after, log)) : Quiet log := by
  have hrender := quiet_render m w
  unfold emit at h
  split at h
  · cases h
  next doc said hr =>
    rw [hr] at hrender
    dsimp only at h
    split at h <;> cases h
    · simpa using hrender
    · simpa using hrender

end Weave

theorem Path.clean_ne_nil (path : Text) : Path.clean path ≠ [] := by
  unfold Path.clean
  dsimp only
  split
  · exact List.cons_ne_nil _ _
  · split
    · exact List.cons_ne_nil _ _
    next h => exact h

theorem Weave.targetPath_ne_nil (m : Markup) (dir webPath : Text) :
    targetPath m dir webPath ≠ [] := by
  have hdir : (if dir = [] then Path.directory webPath else dir) ≠ [] := by
    split
    · exact Path.clean_ne_nil _
    next h => exact h
  unfold targetPath Path.join
  dsimp only
  rw [if_neg hdir]
  exact Path.clean_ne_nil _

namespace Build

/-- The markup that the settings name is there if it is needed. -/
def Weavable (s : Settings) : Prop := s.skipWeave = true ∨ (Weave.markup? s.markup).isSome

/-- What was written or found up to date, or woven. -/
def Summary.Produced (s : Summary) : Prop := s.written ++ s.unchanged ≠ [] ∨ s.document ≠ []

/-- The reports of the phases so far agree, after a load without syntax errors. -/
structure Course.Told (c : Course) : Prop where
  loaded : c.summary.parseErrors = 0
  errors : c.summary.errors = [] ↔ c.failedIn = none
  log : Quiet c.log ↔ c.failedIn = none
  succeeded : c.succeeded = true ↔ c.summary.Produced

variable {site : Site} {w : Web} {c : Course}

theorem Course.Told.tangle (h : c.Told) (confined : Bool) : (c.tangle site w confined).Told := by
  have hemit := Tangle.emit_told w
    ⟨outputDir site.settings w.path, site.settings.lineNumbers, confined⟩ c.tree
  unfold Course.tangle
  dsimp only
  generalize Tangle.emit w _ c.tree = e at hemit ⊢
  have hproduced : ((c.succeeded || !(e.written ++ e.unchanged).isEmpty) = true) ↔
      Summary.Produced { c.summary with
        written := c.summary.written ++ e.written
        unchanged := c.summary.unchanged ++ e.unchanged } := by
    have hs := h.succeeded
    simp only [Summary.Produced] at hs ⊢
    by_cases hw : e.written = [] <;> by_cases hu : e.unchanged = [] <;> simp_all
  by_cases hfailures : e.failures = []
  · have hquiet : Quiet e.log := hemit.1 hfailures
    rw [if_pos hfailures]
    exact ⟨h.loaded, h.errors, by simpa [hquiet] using h.log, hproduced⟩
  · have hloud : ¬Quiet e.log := mt hemit.2 hfailures
    rw [if_neg hfailures]
    exact ⟨h.loaded, by simp [Course.fail, Course.addError],
      by simp [Course.fail, Course.addError, hloud], hproduced⟩

theorem Course.Told.weave (h : c.Told) (hm : (Weave.markup? site.settings.markup).isSome) :
    (c.weave site w).Told := by
  obtain ⟨m, hm⟩ := Option.isSome_iff_exists.mp hm
  unfold Course.weave
  simp only [hm]
  split
  next f tree log _ =>
    refine ⟨h.loaded, by simp [Course.fail, Course.addError], ?_, h.succeeded⟩
    simp [Course.fail, Course.addError]
  next tree log hemit =>
    have hquiet := Weave.quiet_emit hemit
    refine ⟨h.loaded, h.errors, by simpa [hquiet] using h.log, ?_⟩
    simp [Summary.Produced, Weave.targetPath_ne_nil]

theorem phases_told (hsite : Weavable site.settings) (confined : Bool) (h : c.Told) :
    (phases site w confined {} c).1.Told ∧ (phases site w confined {} c).2 = none := by
  have htangle : (if site.settings.skipTangle then c else c.tangle site w confined).Told := by
    split
    · exact h
    · exact h.tangle confined
  unfold phases
  simp only [Bool.and_false, Bool.false_eq_true, if_false]
  split
  · exact ⟨htangle, rfl⟩
  next hskip => exact ⟨htangle.weave (hsite.resolve_left hskip), rfl⟩

/-- The reports of a build that is over agree. -/
structure Report.Agrees (r : Report) : Prop where
  errors : r.status = .completed ↔ r.summary.errors = []
  log : r.status = .completed ↔ Quiet r.log
  incomplete : r.status ≠ .completed → (r.status = .failed ∨ r.status = .partly) ∧
    (r.status = .partly ↔ r.summary.parseErrors = 0 ∧ r.summary.Produced)

theorem Course.Told.agrees (h : c.Told) (hash : Text) (web : Option Web) :
    Report.Agrees ⟨c.verdict.1, c.verdict.2, hash, web, c.summary, c.log⟩ := by
  unfold Course.verdict
  cases hf : c.failedIn with
  | none => exact ⟨by simp [h.errors, hf], by simp [h.log, hf], by simp⟩
  | some phase =>
    by_cases hs : c.succeeded = true
    · have hproduced := h.succeeded.mp hs
      simp only [hs, if_true]
      exact ⟨by simp [h.errors, hf], by simp [h.log, hf],
        fun _ => ⟨by simp, by simp [h.loaded, hproduced]⟩⟩
    · have hnothing := mt h.succeeded.mpr hs
      simp only [hs]
      exact ⟨by simp [h.errors, hf], by simp [h.log, hf], fun _ => ⟨by simp, by simp [hnothing]⟩⟩

theorem load_told {tree : FileTree} {path : Text} {loaded : Loaded} {log : List Log.Record}
    (h : load site tree path = (.ok loaded, log)) : loaded.errors = 0 ↔ Quiet log := by
  unfold load at h
  split at h
  · cases h
  · cases h
    exact Reader.load_told _ _ _ _

/-- The status, the errors and the log of a build that was not called off agree. -/
theorem run_agrees (hsite : Weavable site.settings) (path : Text) (confined : Bool)
    (tree : FileTree) : (run site path confined {} tree).1.Agrees := by
  unfold run
  split
  next e log hload =>
    refine ⟨by simp, by simp, fun _ => ⟨by simp, ?_⟩⟩
    simp [Summary.Produced]
  next loaded log hload =>
    have htold := load_told hload
    dsimp only
    by_cases hn : loaded.errors > 0
    · have hloud : ¬Quiet log := mt htold.mpr (by omega)
      rw [if_pos hn]
      refine ⟨by simp, by simp [hloud], fun _ => ⟨by simp, ?_⟩⟩
      simp [Summary.Produced]
    · have hquiet : Quiet log := htold.mp (by omega)
      rw [if_neg hn]
      have hstart : Course.Told
          { tree
            summary := { lines := loaded.lines, chunks := loaded.web.size,
                         parseErrors := loaded.errors }
            log := log ++ [⟨Log.info, "loaded",
              [("lines", .number loaded.lines), ("chunks", .number loaded.web.size)]⟩] } :=
        ⟨by simp; omega, by simp, by simpa using hquiet, by simp [Summary.Produced]⟩
      obtain ⟨hend, hphase⟩ := phases_told (w := loaded.web) hsite confined hstart
      rcases hp : phases site loaded.web confined {} _ with ⟨c, phase⟩
      rw [hp] at hend hphase
      obtain rfl : phase = none := hphase
      exact hend.agrees _ _

end Build

end Literate
