import Literate.Proofs.Build.Footprint
import Literate.Proofs.Job.Transitions
import Literate.Proofs.Path.Spelling
import Literate.Service

/-! Builds that a service queues stay in the output directory. The web is in the directory of the
webs; output chunks whose paths leave the output directory are refused, and the document is named
after the web. -/

namespace Literate

open Literate.Path (IsName Below isLocal_of_isName below_join base_join)

theorem Path.Below.of_clean {dir path : Text} (h : Below (clean dir) path) : Below dir path := by
  obtain ⟨hrooted, hparts⟩ := h
  rw [isAbsolute_clean] at hrooted
  rw [components_clean] at hparts
  exact ⟨hrooted, hparts⟩

namespace Weave

theorem markup?_extension {name : Text} {m : Markup} (h : markup? name = some m) :
    Path.slash ∉ m.extension ∧ m.extension.getLast? ∉ [none, some 46] := by
  have hall : ∀ m ∈ markups,
      Path.slash ∉ m.extension ∧ m.extension.getLast? ∉ [none, some 46] := by decide
  exact hall m (List.mem_of_find?_eq_some h)

/-- The name of a document is no dot and no climb, however odd the stem is. -/
theorem isName_append_extension {markup stem : Text} {m : Markup} (h : markup? markup = some m)
    (hstem : Path.slash ∉ stem) : IsName (stem ++ m.extension) := by
  obtain ⟨hslash, hlast⟩ := markup?_extension h
  have hsame : (stem ++ m.extension).getLast? = m.extension.getLast? := by
    refine List.getLast?_append_of_ne_nil _ fun hnil => ?_
    simp [hnil] at hlast
  refine ⟨fun he => ?_, fun he => ?_, fun he => ?_, by simp [hstem, hslash]⟩ <;>
    rw [he] at hsame <;> rw [← hsame] at hlast <;> exact absurd hlast (by decide)

/-- The document of a web that is a name in a directory goes there, or to the directory that is
given. -/
theorem below_targetPath {dir root name markup : Text} {m : Markup}
    (hm : markup? markup = some m) (hname : IsName name) :
    Below (if dir = [] then root else dir) (targetPath m dir (Path.join root name)) := by
  obtain ⟨hbase, hdirectory⟩ := base_join root hname
  have hstem : Path.slash ∉ name.take (name.length - (Path.extension name).length) :=
    fun hmem => hname.no_slash (List.mem_of_mem_take hmem)
  have hlocal := isLocal_of_isName (isName_append_extension hm hstem)
  unfold targetPath
  simp only [hbase, hdirectory]
  split
  · exact (below_join hlocal).of_clean
  · exact below_join hlocal

end Weave

namespace Build

variable {site : Site} {w : Web} {root name : Text}

/-- The directory that the files of a web go to. -/
theorem below_output {path : Text} (hname : IsName name) (hpath : Path.isLocal path = true) :
    Below (if site.settings.outputDir = [] then root else site.settings.outputDir)
      (Path.join (outputDir site.settings (Path.join root name)) path) := by
  unfold outputDir
  rw [(base_join root hname).2]
  split
  · exact (below_join hpath).of_clean
  · exact below_join hpath

theorem Writes.below {file : Text × Text} (hname : IsName name)
    (hpath : w.path = Path.join root name) (h : Writes site w true file) :
    Below (if site.settings.outputDir = [] then root else site.settings.outputDir) file.1 := by
  cases h with
  | output tangles file rendered =>
    rw [hpath]
    exact below_output hname ((Tangle.codeOf_eq_ok.1 rendered).1 rfl)
  | document weaves markup rendered =>
    rw [hpath]
    exact Weave.below_targetPath markup hname

end Build

namespace Tangle

variable {w : Web} {o : EmitOptions}

theorem put_failures (e : Emission) (name path code : Text) :
    (e.put name path code).failures = e.failures ∨
      ∃ err, (e.put name path code).failures = e.failures ++ [.unwritten ("tangle " ++ name) err] := by
  unfold Emission.put
  rcases FileTree.writeIfChanged path code e.tree with ⟨result, tree⟩
  rcases result with err | _ | _
  · exact .inr ⟨err, rfl⟩
  · exact .inl rfl
  · exact .inl rfl

/-- A confined emission refuses an output chunk exactly if its path is empty, absolute, or begins with
a climb when it is clean. -/
theorem failures_file_outside (ho : o.confined = true) (e : Emission) (i : Nat) :
    (e.file w o i).failures = e.failures ++ [.outside (w.chunk i).name] ↔
      (w.chunk i).path = [] ∨ Path.isAbsolute (w.chunk i).path = true ∨
        (Text.split Path.slash (Path.clean (w.chunk i).path)).head? = some (".." : Text) := by
  rw [← Path.isLocal_eq_false]
  unfold Emission.file
  dsimp only
  by_cases hlocal : Path.isLocal (w.chunk i).path = true
  · rw [if_neg (by simp [hlocal]), hlocal]
    simp only [reduceCtorEq, iff_false]
    rcases render w o.marked i e.memory with ⟨f | code, memory⟩
    · simp [Emission.fail, Emission.say]
    · rcases put_failures { e with memory } (w.chunk i).name (Path.join o.dir (w.chunk i).path) code
        with h | ⟨err, h⟩ <;> rw [h] <;> simp
  · rw [Bool.not_eq_true] at hlocal
    rw [if_pos (by simp [ho, hlocal]), hlocal]
    simp [Emission.fail, Emission.say]

end Tangle

namespace Service

/-- The name of a web is a name, and not only the last component of a path. -/
theorem isName_of_isWebName {name : Text} (h : isWebName name = true) : IsName name := by
  simp only [isWebName, Bool.and_eq_true, beq_iff_eq] at h
  obtain ⟨hbase, hweb⟩ := h
  have hne : ∀ other, Path.isWeb other = false → name ≠ other := by
    rintro other hother rfl
    rw [hweb] at hother
    cases hother
  refine ⟨hne [] (by decide), hne _ (by decide), hne _ (by decide), ?_⟩
  rw [hbase, Path.base, if_neg (hne [] (by decide))]
  dsimp only
  split
  next htrim =>
    rw [Path.base, if_neg (hne [] (by decide))] at hbase
    dsimp only at hbase
    rw [if_pos htrim] at hbase
    exact absurd hbase (hne _ (by decide))
  · exact (Path.cutLast_spec _).2.2

/-- The directory that the files of builds have to stay in. -/
def outputRoot (s : Service) : Text :=
  if s.site.settings.outputDir = [] then s.root else s.site.settings.outputDir

/-- A job stays in its directories. -/
structure Confined (s : Service) (name : Text) (j : Job) : Prop where
  /-- The web is directly in the directory of the webs. -/
  child : IsName name ∧ Path.components j.path = Path.components s.root ++ [name] ∧
    Path.isAbsolute j.path = Path.isAbsolute s.root
  /-- What the build changes are files below the output directory, and directories to get there. -/
  kept : ∀ (off : Build.Cancellation) (t : FileTree) (q : List Text),
    (j.process s.site off t).2.1.get? q ≠ t.get? q →
      ∃ path, Below s.outputRoot path ∧ (q = t.placeOf path ∨
        t.get? q = none ∧ (j.process s.site off t).2.1.get? q = some .directory ∧
          q <+: t.placeOf path)
  /-- The output chunks that are refused are those that would leave it. -/
  refused : ∀ (w : Web) (e : Tangle.Emission) (i : Nat),
    (e.file w (Build.tangleOptions s.site w j.confined) i).failures =
        e.failures ++ [.outside (w.chunk i).name] ↔
      (w.chunk i).path = [] ∨ Path.isAbsolute (w.chunk i).path = true ∨
        (Text.split Path.slash (Path.clean (w.chunk i).path)).head? = some (".." : Text)

theorem confined_of_path (s : Service) {name : Text} {j : Job} (hname : IsName name)
    (hpath : j.path = Path.join s.root name) (hconfined : j.confined = true) :
    s.Confined name j := by
  obtain ⟨hparts, hrooted⟩ := Path.components_join s.root (isLocal_of_isName hname)
  rw [Path.components_of_isName hname, ← hpath] at hparts
  rw [← hpath] at hrooted
  refine ⟨⟨hname, hparts, hrooted⟩, fun off t q hq => ?_, fun w e i =>
    Tangle.failures_file_outside hconfined e i⟩
  have hbelow : ∀ file ∈ Build.writes s.site t j.path j.confined off, Below s.outputRoot file.1 := by
    intro file hfile
    rw [hconfined] at hfile
    obtain ⟨loaded, hload, -, hwrites⟩ := Build.writes_of_mem hfile
    exact hwrites.below hname ((Build.path_load hload).trans hpath)
  have htouched := Build.touched_run s.site j.path j.confined off t
  by_cases hmem : q ∈ (Build.writes s.site t j.path j.confined off).map fun file => t.placeOf file.1
  · obtain ⟨file, hfile, rfl⟩ := List.mem_map.1 hmem
    exact ⟨file.1, hbelow file hfile, .inl rfl⟩
  · rcases htouched.elsewhere q hmem with hsame | ⟨hnone, hdir, place, hplace, hpre⟩
    · exact absurd hsame hq
    · obtain ⟨file, hfile, rfl⟩ := List.mem_map.1 hplace
      exact ⟨file.1, hbelow file hfile, .inr ⟨hnone, hdir, hpre⟩⟩

theorem submit_none {j : Job} {cancelled : Bool} {p q : Job.Pool}
    (h : p.submit j cancelled = (none, q)) :
    q.queue = p.queue ++ [j.id] ∧ q.store = p.store.put j := by
  unfold Job.Pool.submit at h
  split at h
  · cases h
  · cases haccept : p.accept j with
    | none => simp [haccept] at h
    | some p₁ =>
      obtain ⟨-, rfl⟩ := Job.Pool.accept_cases haccept
      rw [haccept] at h
      dsimp only at h
      split at h
      next p₂ henqueue =>
        obtain ⟨id, hid, rfl⟩ := Job.Pool.enqueue_cases henqueue
        obtain rfl : j.id = id := Option.some.inj hid
        obtain rfl : _ = q := (Prod.mk.inj h).2
        exact ⟨rfl, rfl⟩
      · split at h <;> cases h

/-- A build that is accepted is queued as a job that stays in its directories. -/
theorem queueBuild_confined (s : Service) (tree : FileTree) (r : Request) (name : Text)
    (h : (s.queueBuild tree r name).1.status = 202) :
    ∃ before after j, s.pool = some before ∧ (s.queueBuild tree r name).2.pool = some after ∧
      after.queue = before.queue ++ [j.id] ∧ after.store.get? j.id = some j ∧ s.Confined name j := by
  unfold queueBuild at h ⊢
  cases hpool : s.pool with
  | none => simp [hpool, buildsDisabled, Response.error, Response.json] at h
  | some pool =>
    simp only [hpool] at h ⊢
    by_cases hweb : isWebName name = true
    · rw [if_neg (by simp [hweb])] at h ⊢
      cases hstat : tree.stat (Path.join s.root name) with
      | error e => simp [hstat, webNotFound, Response.error, Response.json] at h
      | ok node =>
        simp only [hstat] at h ⊢
        generalize Job.Id.next r.moment.1 r.moment.2 s.clock = next at h ⊢
        let j : Job := { id := next.1, path := Path.join s.root name, confined := true }
        rcases hsubmit : pool.submit j false with ⟨refusal, after⟩
        cases refusal with
        | some refusal => simp [j, hsubmit, Response.error, Response.json] at h
        | none =>
          obtain ⟨hqueue, hstore⟩ := submit_none hsubmit
          refine ⟨pool, after, j, rfl, rfl, hqueue, ?_,
            confined_of_path s (isName_of_isWebName hweb) rfl rfl⟩
          rw [hstore]
          exact Job.Store.get?_put _ _
    · rw [if_pos (by simp [hweb])] at h
      simp [notAWeb, Response.error, Response.json] at h

/-- A service with one web that writes below its output directory and would write outside it. -/
def serving : Service × FileTree :=
  ({ site := { settings := { outputDir := "out" }, version := "1" }, root := "webs",
     pool := some (Job.Pool.start 1 {}) },
    ⟨[(["w"], .directory), (["w", "webs"], .directory),
      (["w", "webs", "m.w"], .file "@o a/../b @{x@}\n@o ../c @{y@}\n")], ["w"]⟩)

theorem queueBuild_confined_serving :
    let r : Request := { target := "/api/webs/m.w/build" }
    (serving.1.queueBuild serving.2 r "m.w").1.status = 202 ∧
      ∃ before after j, serving.1.pool = some before ∧
        (serving.1.queueBuild serving.2 r "m.w").2.pool = some after ∧
        after.queue = before.queue ++ [j.id] ∧ after.store.get? j.id = some j ∧
        serving.1.Confined "m.w" j := by
  intro r
  have haccepted : (serving.1.queueBuild serving.2 r "m.w").1.status = 202 := by decide +kernel
  exact ⟨haccepted, queueBuild_confined serving.1 serving.2 r "m.w" haccepted⟩

end Service

end Literate
