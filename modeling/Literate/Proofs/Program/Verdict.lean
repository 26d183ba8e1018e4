import Literate.Program
import Literate.Proofs.Build.Reports

/-! A program that builds webs fails if a job is not completed or an error was reported. The two
tests never disagree: each job is done by itself, and its own reports agree. -/

namespace Literate

open Log (Quiet)

namespace Job

theorem Store.get?_put (s : Store) (j : Job) : (s.put j).get? j.id = some j := by
  unfold Store.put Store.get?
  dsimp only
  by_cases hold : s.jobs.any (fun k => k.id == j.id) = true
  · rw [if_pos hold]
    obtain ⟨jobs⟩ := s
    induction jobs with
    | nil => simp at hold
    | cons k jobs ih =>
      by_cases hk : k.id = j.id
      · simp [hk]
      · simp only [List.any_cons, beq_iff_eq, hk, Bool.or_eq_true, false_or] at hold
        simpa [hk] using ih hold
  · have hnone : s.jobs.find? (fun k => k.id == j.id) = none := by simpa using hold
    rw [if_neg hold, List.find?_append, hnone]
    simp

theorem Store.get?_modify (s : Store) (id : Text) {f : Job → Job} (hf : ∀ j, (f j).id = j.id) :
    (s.modify id f).get? id = (s.get? id).map f := by
  have hsame : ∀ j : Job, ((if j.id == id then f j else j).id == id) = (j.id == id) := by
    intro j
    split
    · rw [hf]
    · rfl
  unfold Store.modify Store.get?
  obtain ⟨jobs⟩ := s
  induction jobs with
  | nil => rfl
  | cons k jobs ih =>
    rw [List.map_cons, List.find?_cons, List.find?_cons, hsame]
    cases hk : k.id == id with
    | true => simp
    | false => exact ih

/-- The reports of a job that is over agree. -/
structure Agrees (j : Job) (log : List Log.Record) : Prop where
  ended : j.done = true
  errors : j.status = .completed ↔ j.summary.errors = []
  log : j.status = .completed ↔ Quiet log
  incomplete : j.status ≠ .completed → (j.status = .failed ∨ j.status = .partly) ∧
    (j.status = .partly ↔ j.summary.parseErrors = 0 ∧ j.summary.Produced)

variable {site : Build.Site}

theorem process_agrees (hsite : Build.Weavable site.settings) (j : Job) (tree : FileTree) :
    (j.process site {} tree).1.Agrees (j.process site {} tree).2.2 := by
  have hrun := Build.run_agrees hsite j.path j.confined tree
  exact ⟨rfl, hrun.errors, by rw [process, Log.quiet_all]; exact hrun.log, hrun.incomplete⟩

namespace Pool

/-- There are workers, and they have nothing to do. -/
structure Idle (p : Pool) : Prop where
  stopped : p.stopped = false
  waiting : p.waiting = none
  queue : p.queue = []
  busy : p.busy = []
  workers : 0 < p.workers

/-- An idle pool that is given one job does it and is idle again. -/
theorem submit_drain (site : Build.Site) {p : Pool} (h : p.Idle) (j : Job) (tree : FileTree) :
    ∃ submitted after, p.submit j false = (none, submitted) ∧
      submitted.drain site tree = (after, (j.process site {} tree).2) ∧
      after.store.get? j.id = some (j.process site {} tree).1 ∧ after.Idle := by
  obtain ⟨store, waiting, queue, busy, workers, stopped⟩ := p
  obtain ⟨rfl, rfl, rfl, rfl, hworkers⟩ := h
  have hsubmit : submit j false (⟨store, none, [], [], workers, false⟩ : Pool) =
      (none, ⟨store.put j, none, [j.id], [], workers, false⟩) := by
    simp [submit, accept, enqueue, capacity]
  refine ⟨_, ⟨(store.put j).modify j.id (withReport (Build.run site j.path j.confined {} tree).1),
    none, [], [], workers, false⟩, hsubmit, ?_, ?_, ⟨rfl, rfl, rfl, rfl, hworkers⟩⟩
  · have hworkers' : 0 < workers := hworkers
    simp [drain, drainFrom, work, take, complete, hworkers', Store.get?_put, process]
  · have hget := Store.get?_modify (store.put j) j.id
      (f := withReport (Build.run site j.path j.confined {} tree).1) fun _ => rfl
    rw [Store.get?_put] at hget
    exact hget

theorem runAll_cons (site : Build.Site) {p : Pool} (h : p.Idle) (j : Job) (rest : List Job)
    (tree : FileTree) (log : List Log.Record) : ∃ after : Pool, after.Idle ∧
      runAll site (j :: rest) p tree log =
        let next := runAll site rest after (j.process site {} tree).2.1
          (log ++ (j.process site {} tree).2.2)
        (next.1.map ((j.process site {} tree).1 :: ·), next.2) := by
  obtain ⟨submitted, after, hsubmit, hdrain, hget, hidle⟩ := submit_drain site h j tree
  refine ⟨after, hidle, ?_⟩
  simp only [runAll, hsubmit, hdrain, hget, Option.getD_some]

/-- All jobs that are given to an idle pool are done, and they are completed exactly if no error was
reported meanwhile. -/
theorem runAll_agrees (site : Build.Site) (hsite : Build.Weavable site.settings) {p : Pool}
    (h : p.Idle) (js : List Job) (tree : FileTree) (log : List Log.Record) :
    ∃ jobs pool after more, runAll site js p tree log = (.ok jobs, pool, after, log ++ more) ∧
      jobs.map Job.path = js.map Job.path ∧
      ((∀ j ∈ jobs, j.status = .completed) ↔ Quiet more) := by
  induction js generalizing p tree log with
  | nil => exact ⟨[], p, tree, [], by simp [runAll], rfl, by simp⟩
  | cons j js ih =>
    obtain ⟨next, hidle, hcons⟩ := runAll_cons site h j js tree log
    obtain ⟨jobs, pool, after, more, hrest, hpaths, hquiet⟩ :=
      ih hidle (j.process site {} tree).2.1 (log ++ (j.process site {} tree).2.2)
    have hagrees := process_agrees hsite j tree
    refine ⟨(j.process site {} tree).1 :: jobs, pool, after, (j.process site {} tree).2.2 ++ more,
      ?_, ?_, ?_⟩
    · simp only [hcons, hrest, Except.map, List.append_assoc]
    · exact congrArg (j.path :: ·) hpaths
    · rw [List.forall_mem_cons, hagrees.log, hquiet, Log.quiet_append]

end Pool

theorem Id.length_series (readings : List (Nat × Text)) (c : Id.Clock) :
    (Id.series readings c).length = readings.length := by
  induction readings generalizing c with
  | nil => rfl
  | cons r readings ih => simp [Id.series, ih]

end Job

namespace Program

theorem path_jobsFor (inv : Invocation) (paths : List Text) :
    (jobsFor inv paths).map Job.path = paths := by
  have hlength : (Job.Id.series (paths.map fun _ => inv.moment) {}).length = paths.length := by
    rw [Job.Id.length_series, List.length_map]
  have hpath : (Job.path ∘ fun x : Text × Text => ({ id := x.1, path := x.2 } : Job)) = Prod.snd := rfl
  simp only [jobsFor, List.map_map, hpath]
  rw [List.map_snd_zip (by omega)]

theorem workers_of_fault? {s : Settings} (h : s.fault? = none) : 0 < s.workers := by
  unfold Settings.fault? at h
  split at h
  · by_cases hworkers : s.workers ≤ 0
    · simp only [hworkers, if_true] at h
      split at h
      · cases h
      · split at h <;> cases h
    · omega
  · cases h

theorem checked_ok {s t : Settings} (h : checked s = .ok t) :
    s = t ∧ 0 < s.workers ∧ Build.Weavable s := by
  unfold checked at h
  split at h
  · cases h
  next hfault =>
    split at h
    · cases h
    next hmarkup =>
      cases h
      refine ⟨rfl, workers_of_fault? hfault, ?_⟩
      cases hskip : s.skipWeave with
      | true => exact .inl hskip
      | false => exact .inr (by simpa [hskip, Option.isSome_iff_ne_none] using hmarkup)

theorem settings_ok {env : Settings.Environment} {tree : FileTree} {c : CommandLine.Choices}
    {s : Settings} (h : settings env tree c = .ok s) : 0 < s.workers ∧ Build.Weavable s := by
  unfold settings at h
  dsimp only at h
  split at h
  · cases h
  · split at h
    · cases h
    · obtain ⟨rfl, hchecked⟩ := checked_ok h
      exact hchecked

/-- The settings of a planned build have been checked. -/
theorem plan_build {inv : Invocation} {tree : FileTree} {s : Settings} {paths : List Text}
    (h : plan inv tree = .ok (.build s paths)) : 0 < s.workers ∧ Build.Weavable s := by
  unfold plan at h
  split at h
  · cases h
  next r hr =>
    split at h
    · cases h
    · split at h
      · cases h
      · split at h
        · cases h
        · cases hs : settings inv.environment tree r.choices with
          | error refusal => simp [hs, Except.map] at h
          | ok t =>
            obtain ⟨hworkers, hweavable⟩ := settings_ok hs
            simp only [hs, Except.map, Except.ok.injEq] at h
            unfold task at h
            split at h
            · split at h <;> cases h
              exact ⟨hworkers, hweavable⟩
            · cases h
              exact ⟨hworkers, .inl rfl⟩
            · cases h
              exact ⟨hworkers, hweavable⟩
            · cases h
            · cases h
            · cases h

end Program

/-- The reports of every job agree, and when the program builds webs the test on the jobs and the
test on the tally both decide its result. -/
theorem reports_agree :
    (∀ (site : Build.Site) (j : Job) (tree : FileTree), Build.Weavable site.settings →
      (j.process site {} tree).1.Agrees (j.process site {} tree).2.2) ∧
    ∀ (inv : Program.Invocation) (tree : FileTree) (s : Settings) (operands paths : List Text),
      Program.plan inv tree = .ok (.build s operands) → Program.webs tree operands = .ok paths →
      ∃ jobs pool after log, Job.Pool.runAll (Program.siteOf inv tree s) (Program.jobsFor inv paths)
          (({} : Job.Pool).start s.workers) tree [] = (.ok jobs, pool, after, log) ∧
        jobs.map Job.path = paths ∧
        ((Program.run inv tree).refusal = none ↔ ∀ j ∈ jobs, j.status = .completed) ∧
        ((Program.run inv tree).refusal = none ↔ (Log.Tally.of log).errors = 0) := by
  refine ⟨fun site j tree hsite => Job.process_agrees hsite j tree, ?_⟩
  intro inv tree s operands paths hplan hwebs
  obtain ⟨hworkers, hsite⟩ := Program.plan_build hplan
  have hidle : (({} : Job.Pool).start s.workers).Idle :=
    ⟨rfl, rfl, rfl, rfl, by simp only [Job.Pool.start]; omega⟩
  obtain ⟨jobs, pool, after, log, hrun, hpaths, hquiet⟩ := Job.Pool.runAll_agrees
    (Program.siteOf inv tree s) hsite hidle (Program.jobsFor inv paths) tree []
  rw [List.nil_append] at hrun
  rw [Program.path_jobsFor] at hpaths
  have hrefusal : (Program.run inv tree).refusal = none ↔
      (∀ j ∈ jobs, j.status = .completed) ∧ (Log.Tally.of log).errors = 0 := by
    simp only [Program.run, hplan, Program.build, hwebs, hrun]
    simp
  rw [← Log.Tally.errors_of_eq_zero] at hquiet
  exact ⟨jobs, pool, after, log, hrun, hpaths, hrefusal.trans (and_iff_left_of_imp hquiet.mp),
    hrefusal.trans (and_iff_right_of_imp hquiet.mpr)⟩

/-- A web of two files, the second of which refers to a chunk that is not defined. -/
def halfDone : FileTree :=
  ⟨[(["w"], .directory), (["w", "m.w"], .file "@o a @{x@}\n@o b @{@<n@>@}\n")], ["w"]⟩

theorem reports_agree_halfDone :
    let s : Settings := {}
    let site : Build.Site := { settings := s, version := "dev" }
    let inv : Program.Invocation := { arguments := ["m.w"] }
    let j : Job := { id := "1", path := "m.w" }
    Build.Weavable s ∧ (j.process site {} halfDone).1.status = .partly ∧
      (j.process site {} halfDone).1.Agrees (j.process site {} halfDone).2.2 ∧
      Program.plan inv halfDone = .ok (.build s ["m.w"]) ∧
      Program.webs halfDone ["m.w"] = .ok ["m.w"] ∧
      ∃ jobs pool after log, Job.Pool.runAll (Program.siteOf inv halfDone s)
          (Program.jobsFor inv ["m.w"]) (({} : Job.Pool).start s.workers) halfDone [] =
            (.ok jobs, pool, after, log) ∧
        jobs.map Job.path = [("m.w" : Text)] ∧
        ((Program.run inv halfDone).refusal = none ↔ ∀ j ∈ jobs, j.status = .completed) ∧
        ((Program.run inv halfDone).refusal = none ↔ (Log.Tally.of log).errors = 0) := by
  intro s site inv j
  have hsite : Build.Weavable s := .inr rfl
  have hstatus : (j.process site {} halfDone).1.status = .partly := by decide +kernel
  have hplan : Program.plan inv halfDone = .ok (.build s ["m.w"]) := rfl
  have hwebs : Program.webs halfDone ["m.w"] = .ok ["m.w"] := rfl
  exact ⟨hsite, hstatus, reports_agree.1 site j halfDone hsite, hplan, hwebs,
    reports_agree.2 inv halfDone s ["m.w"] ["m.w"] hplan hwebs⟩

end Literate
