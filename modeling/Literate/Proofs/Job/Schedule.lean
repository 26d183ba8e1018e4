import Mathlib.Data.List.Pairwise
import Literate.Proofs.Job.Delivery
import Literate.Proofs.Job.Independence

/-! A pool in use together with the files. Workers take jobs as they become free, and each job is done
at one moment, on the files as they are then; which worker does it, and what happens in between, is
left open. Independent jobs come to the same in all cases. -/

namespace Literate.Job

open FileTree (Beside Same Separate writeAll writeAll_perm)

namespace Traffic

/-- One step of a pool in use, with the files. They change only when a worker does a job. -/
inductive Serves (site : Build.Site) : Traffic × FileTree → Traffic × FileTree → Prop where
  | build {s : Traffic} {u : FileTree} (id : Text) (j : Job) {p : Pool}
      (found : s.pool.store.get? id = some j)
      (completed : s.pool.complete id (Build.run site j.path j.confined {} u).1 = some p) :
      Serves site (s, u) ({ s with pool := p, hazards := s.hazards ++ s.endings id },
        (Build.run site j.path j.confined {} u).2)
  /-- A step in which no worker finishes a job. -/
  | aside {s s' : Traffic} {u : FileTree} (step : Step s s')
      (kept : s.pool.busy.length ≤ s'.pool.busy.length) : Serves site (s, u) (s', u)

variable {site : Build.Site} {t : FileTree} {x y : Traffic × FileTree} {s s' : Traffic}
  {done js : List Job}

theorem Serves.step (h : Serves site x y) : Step x.1 y.1 := by
  cases h with
  | build id j found completed => exact .finish _ _ _ (Build.isFinal_run ..) completed
  | aside step kept => exact step

theorem reaches_of_serves (h : Relation.ReflTransGen (Serves site) x y) : Reaches x.1 y.1 :=
  h.lift Prod.fst fun _ _ => Serves.step

/-- Unless a worker finishes a job, what was taken and what is worked on grow together. -/
theorem taken_step (hstep : Step s s') (kept : s.pool.busy.length ≤ s'.pool.busy.length)
    (id : Text) : s'.taken.count id + s.pool.busy.count id =
      s.taken.count id + s'.pool.busy.count id := by
  cases hstep with
  | accept id c p called inside going accepted =>
    obtain ⟨-, rfl⟩ := Pool.accept_cases accepted
    rfl
  | send id c p called waits opened sent =>
    obtain ⟨id', -, rfl⟩ := Pool.enqueue_cases sent
    rfl
  | giveUp id c p called waits cancelled given =>
    obtain ⟨id', -, rfl⟩ := Pool.giveUp_cases given
    rfl
  | mark k p inside going marked =>
    obtain ⟨-, rfl⟩ := Pool.close_cases marked
    rfl
  | take id' p free first took =>
    obtain ⟨id'', rest, hqueue, rfl⟩ := Pool.take_cases took
    obtain rfl : id'' = id' := by simpa [hqueue] using first
    simp only [List.count_append]
    omega
  | finish id' r p final completed =>
    obtain ⟨busy, rfl⟩ := Pool.complete_cases completed
    have hpos := List.length_pos_of_mem busy
    rw [List.length_erase_of_mem busy] at kept
    omega
  | _ => rfl

/-- The files are the initial ones with those of the jobs that were done, and each of these ended as
if it were done alone. -/
structure Served (site : Build.Site) (t : FileTree) (x : Traffic × FileTree) (done : List Job) :
    Prop where
  beside : Beside (done.flatMap (files site t)) t x.2
  called : ∀ j ∈ done, ∃ c, x.1.calls j.id = some c ∧ c.job = j
  told : ∀ j ∈ done, ∃ k, x.1.pool.store.get? j.id = some k ∧ k.done = true ∧
    Like (j.Worded site t) (j.alone site t) k
  count : ∀ id, x.1.taken.count id = x.1.pool.busy.count id + (done.map Job.id).count id

theorem served_start (ht : t.Sound) (workers : Int) : Served site t (start workers, t) [] :=
  ⟨beside_nil ht, by simp, by simp, by simp [start, Pool.start]⟩

section Step

variable (hjs : Independents site t js)

theorem Served.aside {u : FileTree} (h : Served site t (s, u) done) (hs : s.Sound)
    (hstep : Step s s') (kept : s.pool.busy.length ≤ s'.pool.busy.length) :
    Served site t (s', u) done := by
  refine ⟨h.beside, fun j hj => ?_, fun j hj => ?_, fun id => ?_⟩
  · obtain ⟨c, hc, hjob⟩ := h.called j hj
    obtain ⟨d, hd, hjob', -⟩ := call_step hstep hc
    exact ⟨d, hd, hjob'.trans hjob⟩
  · obtain ⟨k, hk, hdone, hlike⟩ := h.told j hj
    exact ⟨k, record_step hs.accounted hstep hk hdone, hdone, hlike⟩
  · have hcount := h.count id
    have hgrown := taken_step hstep kept id
    dsimp only at hcount ⊢
    omega

include hjs in
theorem Served.build {u : FileTree} {id : Text} {i : Job} {p : Pool}
    (h : Served site t (s, u) done) (hs : s.Sound)
    (hcalls : ∀ id c, s.calls id = some c → c.job ∈ js) (found : s.pool.store.get? id = some i)
    (completed : s.pool.complete id (Build.run site i.path i.confined {} u).1 = some p) :
    ∃ j, Served site t ({ s with pool := p, hazards := s.hazards ++ s.endings id },
      (Build.run site i.path i.confined {} u).2) (j :: done) := by
  have hstep : Step s _ := .finish id _ p (Build.isFinal_run ..) completed
  obtain ⟨busy, rfl⟩ := Pool.complete_cases completed
  obtain ⟨c, i', called, owns, live, -, hl⟩ := hs.accounted.of_busy busy
  obtain rfl : i' = i := by
    rw [show s.pool.store.get? id = some i' from congrArg Ledger.record hl] at found
    exact Option.some.inj found
  -- The job is not over, so it is none of those that were done.
  have hapart : ∀ k ∈ done, Independent site t k c.job := by
    intro k hk
    obtain ⟨d, hd, hjob⟩ := h.called k hk
    refine hjs.apart.forall (hjob ▸ hcalls _ d hd) (hcalls id c called) fun hsame => ?_
    obtain ⟨i, hi, hdone, -⟩ := h.told k hk
    rw [hsame, owns.own, found] at hi
    cases hi
    simp [live.undone] at hdone
  obtain ⟨hreport, hbeside⟩ := run_beside owns.path owns.confined h.beside
    (hjs.clean _ (hcalls id c called)) hapart
  refine ⟨c.job, hbeside, ?_, ?_, fun id' => ?_⟩
  · exact List.forall_mem_cons.2 ⟨⟨c, owns.own ▸ called, rfl⟩, h.called⟩
  · refine List.forall_mem_cons.2 ⟨⟨_, ?_, rfl, .of_report (owns.id.trans owns.own.symm) owns.path
      hreport⟩, fun k hk => ?_⟩
    · have hid : ∀ j : Job,
          (j.withReport (Build.run site i'.path i'.confined {} u).1).id = j.id := fun _ => rfl
      simp [owns.own, Store.get?_modify _ _ hid, found]
    · obtain ⟨i, hi, hdone, hlike⟩ := h.told k hk
      exact ⟨i, record_step hs.accounted hstep hi hdone, hdone, hlike⟩
  · have hcount := h.count id'
    have hown := owns.own
    dsimp only at hcount ⊢
    rw [List.map_cons, List.count_cons, hown]
    by_cases hsame : id' = id
    · have hpos := List.count_pos_iff.2 busy
      subst hsame
      simp only [List.count_erase_self, beq_self_eq_true, if_true]
      omega
    · have hne : (id == id') = false := by simpa using fun h : id = id' => hsame h.symm
      rw [List.count_erase_of_ne hsame, hne]
      exact hcount

theorem served_of_reaches {workers : Int}
    (h : Relation.ReflTransGen (Serves site) (start workers, t) x) (hjs : Independents site t js)
    (hcalls : ∀ id c, x.1.calls id = some c → c.job ∈ js) :
    ∃ done, Served site t x done := by
  induction h with
  | refl => exact ⟨[], served_start hjs.sound workers⟩
  | @tail x y hbefore hstep ih =>
    have hearlier : ∀ id c, x.1.calls id = some c → c.job ∈ js := by
      intro id c hc
      obtain ⟨d, hd, hjob, -⟩ := call_step hstep.step hc
      exact hjob ▸ hcalls id d hd
    have hs : x.1.Sound := sound_of_reaches (reaches_of_serves hbefore)
    obtain ⟨done, hdone⟩ := ih hearlier
    cases hstep with
    | build id i found completed =>
      obtain ⟨j, hj⟩ := hdone.build hjs hs hearlier found completed
      exact ⟨j :: done, hj⟩
    | aside step kept => exact ⟨done, hdone.aside hs step kept⟩

end Step

section Finished

variable {j : Job}

theorem Served.mem (h : Served site t x done) (hs : x.1.Sound) (hids : (js.map Job.id).Nodup)
    (hcalls : ∀ id c, x.1.calls id = some c → c.job ∈ js) (hj : j ∈ js)
    (hsubmitted : x.1.Submitted j.id) (hover : (x.1.pool.store.get? j.id).any Job.done = true) :
    j ∈ done := by
  obtain ⟨c, hc, hstage⟩ := hsubmitted
  obtain ⟨i, hi, hdone⟩ := (Option.any_eq_true ..).1 hover
  obtain ⟨d, hd, -, -, hcase⟩ := (hs.accounted.standing j.id).of_done hi hdone
  obtain rfl : d = c := Option.some.inj (hd.symm.trans hc)
  have hmem : 0 < (done.map Job.id).count j.id := by
    have hcount := h.count j.id
    rcases hcase with ⟨-, hl⟩ | ⟨given, -, -⟩
    · simp only [ledger, Ledger.mk.injEq] at hl
      omega
    · simp [hstage, Stage.outcome?] at given
  obtain ⟨k, hk, hid⟩ := List.mem_map.1 (List.count_pos_iff.1 hmem)
  obtain ⟨d, hd, hjob⟩ := h.called k hk
  have hkj : k = j := List.inj_on_of_nodup_map hids (hjob ▸ hcalls _ d hd) hj hid
  exact hkj ▸ hk

theorem Served.same (h : Served site t x done) (hs : x.1.Sound) (hjs : Independents site t js)
    (hcalls : ∀ id c, x.1.calls id = some c → c.job ∈ js) (hall : ∀ j ∈ js, j ∈ done) :
    Same (writeAll (js.flatMap (files site t)) t) x.2 := by
  have hnodup : done.Nodup := by
    refine .of_map Job.id (List.nodup_iff_count_le_one.2 fun id => ?_)
    have hcount := h.count id
    have htaken : x.1.taken.count id ≤ 1 := (hs.accounted.standing id).taken_le
    omega
  have hperm : js.Perm done := by
    refine (List.perm_ext_iff_of_nodup (.of_map Job.id hjs.ids) hnodup).2 fun j => ⟨hall j, fun hj => ?_⟩
    obtain ⟨c, hc, hjob⟩ := h.called j hj
    exact hjob ▸ hcalls _ c hc
  exact (hjs.same_perm hperm).trans h.beside.same

end Finished

end Traffic

section Order

variable {site : Build.Site} {t : FileTree} {js ks : List Job} {j k : Job}

/-- Two independent jobs leave the same files in either order, and each ends the same first and
last. -/
theorem process_comm (h : Independents site t js) (hj : j ∈ js) (hk : k ∈ js) (hne : j ≠ k) :
    Same (k.process site {} (j.process site {} t).2.1).2.1
        (j.process site {} (k.process site {} t).2.1).2.1 ∧
      Like (j.Worded site t) (j.process site {} t).1
        (j.process site {} (k.process site {} t).2.1).1 := by
  have hpair : Independent site t j k := h.apart.forall hj hk hne
  have hstart : Beside (([] : List Job).flatMap (files site t)) t t := beside_nil h.sound
  obtain ⟨-, hfirst⟩ := process_beside hstart (h.clean j hj) (by simp)
  obtain ⟨-, hfirst'⟩ := process_beside hstart (h.clean k hk) (by simp)
  obtain ⟨-, hlast⟩ := process_beside hfirst (h.clean k hk) (by simpa using hpair)
  obtain ⟨hlike, hlast'⟩ := process_beside hfirst' (h.clean j hj) (by simpa using hpair.symm)
  refine ⟨hlast.same.symm.trans (.trans ?_ hlast'.same), hlike⟩
  refine writeAll_perm (.swap j k []) h.sound (fun i _ f hf => isJoined_of_mem_files hf) ?_
  simpa using hpair.files.symm

theorem runAll_perm (h : Independents site t js) (hperm : js.Perm ks) {p : Pool} (hp : p.Idle)
    (log : List Log.Record) :
    ∃ done pool u more, p.runAll site ks t log = (.ok done, pool, u, more) ∧
      Same (writeAll (js.flatMap (files site t)) t) u ∧
      List.Forall₂ (fun j k => Like (j.Worded site t) (j.alone site t) k) ks done := by
  have hstart : Beside (([] : List Job).flatMap (files site t)) t t := beside_nil h.sound
  obtain ⟨done, pool, u, more, hrun, hdone, hbeside⟩ := Pool.runAll_beside hp log hstart
    (fun j hj => h.clean j (hperm.mem_iff.2 hj))
    ((hperm.pairwise_iff Independent.symm).1 h.apart) (by simp)
  rw [List.append_nil] at hbeside
  exact ⟨done, pool, u, more, hrun,
    (h.same_perm (hperm.trans ks.reverse_perm.symm)).trans hbeside.same, hdone⟩

/-- Independent jobs come to the same in whatever order they are done. Two of them can change their
order; a pool that does all of them one after the other, in any order, and workers that share them out
in any way, leave the same files, and each job ends as if it were done alone. -/
theorem any_order (h : Independents site t js) :
    (∀ j ∈ js, ∀ k ∈ js, j ≠ k →
      let first := j.process site {} t
      let second := k.process site {} t
      let secondAfter := k.process site {} first.2.1
      let firstAfter := j.process site {} second.2.1
      Same secondAfter.2.1 firstAfter.2.1 ∧
        Like (j.Worded site t) first.1 firstAfter.1 ∧
        Like (k.Worded site t) second.1 secondAfter.1) ∧
    ∃ tree,
      (∀ ks, js.Perm ks → ∀ (p : Pool) log, p.Idle →
        ∃ done pool u more, p.runAll site ks t log = (.ok done, pool, u, more) ∧ Same tree u ∧
          List.Forall₂ (fun j k => Like (j.Worded site t) (j.alone site t) k) ks done) ∧
      ∀ workers s u, Relation.ReflTransGen (Traffic.Serves site) (Traffic.start workers, t) (s, u) →
        (∀ id c, s.calls id = some c → c.job ∈ js) →
        (∀ j ∈ js, s.Submitted j.id ∧ (s.pool.store.get? j.id).any Job.done = true) →
        Same tree u ∧ ∀ j ∈ js, ∃ k, s.pool.store.get? j.id = some k ∧
          Like (j.Worded site t) (j.alone site t) k := by
  refine ⟨fun j hj k hk hne => ?_, writeAll (js.flatMap (files site t)) t,
    fun ks hperm p log hp => runAll_perm h hperm hp log, fun workers s u hreach hcalls hall => ?_⟩
  · obtain ⟨hsame, hfirst⟩ := process_comm h hj hk hne
    exact ⟨hsame, hfirst, (process_comm h hk hj hne.symm).2⟩
  · obtain ⟨done, hserved⟩ := Traffic.served_of_reaches hreach h hcalls
    have hs : s.Sound := Traffic.sound_of_reaches (Traffic.reaches_of_serves hreach)
    have hdone : ∀ j ∈ js, j ∈ done := fun j hj =>
      hserved.mem hs h.ids hcalls hj (hall j hj).1 (hall j hj).2
    refine ⟨hserved.same hs h hcalls hdone, fun j hj => ?_⟩
    obtain ⟨k, hk, -, hlike⟩ := hserved.told j (hdone j hj)
    exact ⟨k, hk, hlike⟩

end Order

section Neighbours

def leftJob : Job := { id := "1", path := "p.w" }

def rightJob : Job := { id := "2", path := "q.w" }

/-- Two webs that write to one new directory. The first includes a source, and one output file of the
second cannot be rendered. -/
def neighbours : FileTree :=
  ⟨[(["w"], .directory), (["w", "p.w"], .file "@i a\n@o d/x @{x@}\n"), (["w", "a"], .file "y\n"),
    (["w", "q.w"], .file "@o d/y @{y@}\n@o z @{@<u@>@}\n")], ["w"]⟩

open Traffic in
theorem serves_both (site : Build.Site) (t : FileTree) : ∃ s u,
    Relation.ReflTransGen (Serves site) (start 2, t) (s, u) ∧
      (∀ id c, s.calls id = some c → c.job ∈ [leftJob, rightJob]) ∧
      ∀ j ∈ [leftJob, rightJob], s.Submitted j.id ∧
        (s.pool.store.get? j.id).any Job.done = true := by
  have hleft : Relation.ReflTransGen (Serves site) (start 2, t) (_, t) :=
    (((((Relation.ReflTransGen.refl.tail
      (.aside (.call leftJob (by rfl) rfl rfl) (Nat.le_refl _))).tail
      (.aside (.enter "1" _ (by rfl) rfl rfl) (Nat.le_refl _))).tail
      (.aside (.accept "1" _ _ (by rfl) rfl rfl rfl) (Nat.le_refl _))).tail
      (.aside (.send "1" _ _ (by rfl) rfl rfl rfl) (Nat.le_refl _))).tail
      (.aside (.leave "1" _ none (by rfl) rfl) (Nat.le_refl _)))
  have hboth := (((((hleft.tail
    (.aside (.call rightJob (by rfl) rfl rfl) (Nat.le_refl _))).tail
    (.aside (.enter "2" _ (by rfl) rfl rfl) (Nat.le_refl _))).tail
    (.aside (.accept "2" _ _ (by rfl) rfl rfl rfl) (Nat.le_refl _))).tail
    (.aside (.send "2" _ _ (by rfl) rfl rfl rfl) (Nat.le_refl _))).tail
    (.aside (.leave "2" _ none (by rfl) rfl) (Nat.le_refl _)))
  have htaken := (hboth.tail
    (.aside (.take "1" _ Nat.zero_lt_two rfl rfl) (Nat.le_succ _))).tail
    (.aside (.take "2" _ Nat.one_lt_two rfl rfl) (Nat.le_succ _))
  have hdone := (htaken.tail (.build "2" rightJob (by rfl) (by rfl))).tail
    (.build "1" leftJob (by rfl) (by rfl))
  refine ⟨_, _, hdone, fun id c hc => ?_, ?_⟩
  · simp only [move, Function.update_apply, start] at hc
    split_ifs at hc <;> cases hc <;> simp
  · refine List.forall_mem_cons.2 ⟨⟨⟨_, by rfl, rfl⟩, by rfl⟩, ?_⟩
    refine List.forall_mem_cons.2 ⟨⟨⟨_, by rfl, rfl⟩, by rfl⟩, ?_⟩
    simp

theorem any_order_neighbours :
    let site : Build.Site := { settings := {}, version := "1" }
    Independents site neighbours [leftJob, rightJob] ∧
      leftJob.Worded site neighbours ∧ rightJob.Worded site neighbours ∧
      (leftJob.alone site neighbours).status = .completed ∧
      (rightJob.alone site neighbours).status = .partly ∧
      Same (rightJob.process site {} (leftJob.process site {} neighbours).2.1).2.1
        (leftJob.process site {} (rightJob.process site {} neighbours).2.1).2.1 ∧
      ∃ tree, (∃ done pool u more,
          (({} : Pool).start 2).runAll site [rightJob, leftJob] neighbours [] =
            (.ok done, pool, u, more) ∧ Same tree u) ∧
        ∃ s u, Relation.ReflTransGen (Traffic.Serves site) (Traffic.start 2, neighbours) (s, u) ∧
          Same tree u ∧ ∃ k, s.pool.store.get? rightJob.id = some k ∧
            k.summary.errors = (rightJob.alone site neighbours).summary.errors := by
  intro site
  have hpair : Independent site neighbours leftJob rightJob :=
    ⟨by decide +kernel, by decide +kernel, by decide +kernel⟩
  have hindependents : Independents site neighbours [leftJob, rightJob] :=
    ⟨⟨FileTree.closed_of_entries (by decide),
      FileTree.wellPlaced_of_inits (by decide) (by decide)⟩,
      by decide +kernel, by simpa using hpair, by decide⟩
  have hworded : rightJob.Worded site neighbours := ⟨by decide +kernel, by decide +kernel⟩
  have hne : leftJob ≠ rightJob := fun h => absurd (congrArg Job.id h) (by decide)
  obtain ⟨hswap, tree, hruns, hserves⟩ := any_order hindependents
  have hboth := hswap leftJob (by simp) rightJob (by simp) hne
  dsimp only at hboth
  obtain ⟨done, pool, u, more, hrun, hsame, -⟩ :=
    hruns [rightJob, leftJob] (.swap _ _ []) (({} : Pool).start 2) []
      ⟨rfl, rfl, rfl, rfl, by decide⟩
  obtain ⟨s, v, hreach, hcalls, hover⟩ := serves_both site neighbours
  obtain ⟨hsame', hall⟩ := hserves 2 s v hreach hcalls hover
  obtain ⟨k, hk, hlike⟩ := hall rightJob (by simp)
  refine ⟨hindependents, ⟨by decide +kernel, by decide +kernel⟩, hworded, by decide +kernel,
    by decide +kernel, hboth.1, tree, ⟨done, pool, u, more, hrun, hsame⟩, s, v, hreach, hsame', k,
    hk, hlike.summary.errors hworded⟩

/-- The paths of the output files of a job's web and of its document. -/
def targets (site : Build.Site) (t : FileTree) (j : Job) : List Text :=
  Build.targets site t j.path ++ (Build.document? site j.path).toList

/-- What a job writes is apart from what another reads and writes as far as the words of the paths go:
they are clean, they differ, and neither goes on from the other. -/
def ApartInWords (site : Build.Site) (t : FileTree) (j k : Job) : Prop :=
  ∀ p ∈ j.targets site t, ∀ q ∈ Build.reads site t k.path ++ k.targets site t,
    Path.clean p = p ∧ Path.clean q = q ∧ p ≠ q ∧ ¬p ++ [Path.slash] <+: q ∧ ¬q ++ [Path.slash] <+: p

instance decidableApartInWords (site : Build.Site) (t : FileTree) (j k : Job) :
    Decidable (ApartInWords site t j k) :=
  inferInstanceAs (Decidable (∀ p ∈ j.targets site t,
    ∀ q ∈ Build.reads site t k.path ++ k.targets site t,
      Path.clean p = p ∧ Path.clean q = q ∧ p ≠ q ∧ ¬p ++ [Path.slash] <+: q ∧
        ¬q ++ [Path.slash] <+: p))

def twoWebs (p q : Text) : FileTree :=
  ⟨[(["w"], .directory), (["w", "p.w"], .file p), (["w", "q.w"], .file q)], ["w"]⟩

theorem sound_twoWebs (p q : Text) : (twoWebs p q).Sound := by
  have hnames : ∀ part ∈ [("w" : Text)], Path.IsName part := by decide
  refine ⟨FileTree.closed_of_entries fun e he => ?_,
    FileTree.wellPlaced_of_inits hnames fun place hplace => ?_⟩
  · simp only [twoWebs, List.mem_cons, List.not_mem_nil, or_false] at he
    rcases he with rfl | rfl | rfl <;> rfl
  · have hinits : place = [] ∨ place = ["w"] := by simpa [twoWebs] using hplace
    rcases hinits with rfl | rfl <;> rfl

/-- Two spellings of one place. -/
def aliased : FileTree := twoWebs "@o a @{x@}\n" "@o ../w/a @{y@}\n"

/-- A name that is too long, in a directory that the other job makes. -/
def crowded : FileTree :=
  twoWebs (Text.ofString "@o d/" ++ List.replicate 256 110 ++ Text.ofString " @{x@}\n")
    "@o d/y @{y@}\n"

/-- It is not enough that the words of the paths are apart: the two jobs may write one file all the
same, and the order may change what is said of an error. -/
theorem any_order_in_words :
    let site : Build.Site := { settings := { skipWeave := true }, version := "1" }
    let swapped (t : FileTree) := leftJob.process site {} (rightJob.process site {} t).2.1
    (aliased.Sound ∧ ApartInWords site aliased leftJob rightJob ∧
      ApartInWords site aliased rightJob leftJob ∧
      (rightJob.process site {} (leftJob.process site {} aliased).2.1).2.1.readFile "a" ≠
        (swapped aliased).2.1.readFile "a") ∧
    crowded.Sound ∧ ApartInWords site crowded leftJob rightJob ∧
      ApartInWords site crowded rightJob leftJob ∧
      (leftJob.process site {} crowded).1.summary.errors ≠
        (swapped crowded).1.summary.errors := by
  intro site swapped
  exact ⟨⟨sound_twoWebs _ _, by decide +kernel⟩, sound_twoWebs _ _, by decide +kernel⟩

end Neighbours

end Literate.Job
