import Mathlib.Data.List.Forall2
import Mathlib.Data.List.Nodup
import Literate.Proofs.Job.Custody

/-! A pool in use loses no job and repeats none. -/

namespace Literate.Job.Traffic

variable {s t : Traffic}

section Alone

variable {id : Text} {c : Call}

theorem reaches_entered (j : Job) (cancelled : Bool) (new : s.calls j.id = none)
    (queued : j.status = .queued) (undone : j.done = false) (free : s.lock = none) :
    ∃ t, Reaches s t ∧ t.pool = s.pool ∧ t.closed = s.closed ∧
      t.calls j.id = some ⟨j, .entered, cancelled⟩ := by
  have hcall := Step.call j new queued undone
  cases cancelled with
  | false =>
    exact ⟨_, .tail (.single hcall) (.enter j.id _ (Function.update_self ..) rfl free), rfl, rfl,
      Function.update_self ..⟩
  | true =>
    have hcancel := Step.cancel (s := { s with
      calls := Function.update s.calls j.id (some { job := j }) }) j.id _ (Function.update_self ..)
    exact ⟨_, .tail (.tail (.single hcall) hcancel) (.enter j.id _ (Function.update_self ..) rfl free),
      rfl, rfl, Function.update_self ..⟩

theorem accept_eq {j : Job} (going : s.pool.stopped = false) :
    s.pool.accept j = some { s.pool with store := s.pool.store.put j, waiting := some j.id } := by
  simp [Pool.accept, going]

theorem reaches_waiting (j : Job) (cancelled : Bool) (new : s.calls j.id = none)
    (queued : j.status = .queued) (undone : j.done = false) (free : s.lock = none)
    (closed : s.closed = s.pool.stopped) (going : s.pool.stopped = false) :
    ∃ t, Reaches s t ∧
      t.pool = { s.pool with store := s.pool.store.put j, waiting := some j.id } ∧
      t.closed = false ∧ t.calls j.id = some ⟨j, .waiting, cancelled⟩ := by
  obtain ⟨t, hreach, hpool, hclosed, hcall⟩ := reaches_entered j cancelled new queued undone free
  have haccept : t.pool.accept j = some { s.pool with
      store := s.pool.store.put j, waiting := some j.id } := by
    rw [hpool]
    exact accept_eq going
  exact ⟨_, hreach.tail (.accept j.id _ _ hcall rfl (by rw [hpool, going]) haccept), rfl,
    by rw [← going, ← closed]; exact hclosed, Function.update_self ..⟩

theorem reaches_returned {r : Option Pool.Refusal} (called : s.calls id = some c)
    (settled : c.stage = .leaving r) :
    ∃ t, Reaches s t ∧ t.pool = s.pool ∧ t.calls id = some { c with stage := .returned r } :=
  ⟨_, .single (.leave id c r called settled), rfl, Function.update_self ..⟩

/-- To submit a job while no other call goes on is a run, at the end of which the call waits for room
or has returned. -/
theorem reaches_submit (j : Job) (cancelled : Bool) (new : s.calls j.id = none)
    (queued : j.status = .queued) (undone : j.done = false) (free : s.lock = none)
    (closed : s.closed = s.pool.stopped) (quiet : s.pool.waiting = none) :
    ∃ t, Reaches s t ∧ t.pool = (s.pool.submit j cancelled).2 ∧
      ∃ c, t.calls j.id = some c ∧ c.job = j ∧ c.stage =
        if (s.pool.submit j cancelled).1 = some .blocked then .waiting
        else .returned (s.pool.submit j cancelled).1 := by
  cases hstopped : s.pool.stopped with
  | true =>
    obtain ⟨t, hreach, hpool, -, hcall⟩ := reaches_entered j cancelled new queued undone free
    have hsubmit : s.pool.submit j cancelled = (some .stopped, s.pool) := by
      simp [Pool.submit, quiet, Pool.accept, hstopped]
    have hrefuse := Step.refuse j.id _ hcall rfl (by rw [hpool, hstopped])
    obtain ⟨u, hu, hupool, hucall⟩ := reaches_returned (s := t.move j.id _ _)
      (Function.update_self ..) rfl
    exact ⟨u, (hreach.tail hrefuse).trans hu, by rw [hupool, hsubmit]; exact hpool, _, hucall, rfl,
      by simp [hsubmit]⟩
  | false =>
    have haccept := accept_eq (j := j) hstopped
    obtain ⟨w, hw, hwpool, hwclosed, hwcall⟩ :=
      reaches_waiting j cancelled new queued undone free closed hstopped
    by_cases hroom : s.pool.queue.length < Pool.capacity
    · have hsent : w.pool.enqueue = some { s.pool with
          store := s.pool.store.put j, waiting := none, queue := s.pool.queue ++ [j.id] } := by
        simp [hwpool, Pool.enqueue, hroom]
      have hsubmit : s.pool.submit j cancelled = (none, { s.pool with
          store := s.pool.store.put j, waiting := none, queue := s.pool.queue ++ [j.id] }) := by
        simp [Pool.submit, quiet, haccept, Pool.enqueue, hroom]
      obtain ⟨u, hu, hupool, hucall⟩ := reaches_returned (s := { w.move j.id _ _ with pool := _ })
        (Function.update_self ..) rfl
      refine ⟨u, (hw.tail (.send j.id _ _ hwcall rfl hwclosed hsent)).trans hu, ?_, _, hucall, rfl, ?_⟩
      · rw [hupool, hsubmit]
      · simp [hsubmit]
    · have hfull : Pool.enqueue { s.pool with
          store := s.pool.store.put j, waiting := some j.id } = none := by
        simp [Pool.enqueue, hroom]
      cases cancelled with
      | true =>
        have hsubmit : s.pool.submit j true = (some .cancelled, { s.pool with
            waiting := none, store := (s.pool.store.put j).modify j.id Pool.giveUpJob }) := by
          simp [Pool.submit, quiet, haccept, hfull, Pool.giveUp]
        have hgiven : w.pool.giveUp = some { s.pool with
            waiting := none, store := (s.pool.store.put j).modify j.id Pool.giveUpJob } := by
          simp [hwpool, Pool.giveUp]
        obtain ⟨u, hu, hupool, hucall⟩ := reaches_returned
          (s := { w.move j.id _ _ with pool := _, hazards := _ }) (Function.update_self ..) rfl
        refine ⟨u, (hw.tail (.giveUp j.id _ _ hwcall rfl rfl hgiven)).trans hu, ?_, _, hucall, rfl, ?_⟩
        · rw [hupool, hsubmit]
        · simp [hsubmit]
      | false =>
        have hsubmit : s.pool.submit j false = (some .blocked, { s.pool with
            store := s.pool.store.put j, waiting := some j.id }) := by
          simp [Pool.submit, quiet, haccept, hfull]
        exact ⟨w, hw, by rw [hsubmit, hwpool], _, hwcall, rfl, by simp [hsubmit]⟩

/-- A job that a free worker takes and finishes, as a run. -/
theorem reaches_work {site : Build.Site} {tree tree' : FileTree} {p : Pool} {log : List Log.Record}
    (free : s.HasFreeWorker) (h : s.pool.work site tree = some (p, tree', log)) :
    ∃ t, Reaches s t ∧ t.pool = p ∧ t.calls = s.calls := by
  unfold Pool.work at h
  split at h
  next id taken hhead htake =>
    obtain ⟨j, -, hdone⟩ := Option.bind_eq_some_iff.1 h
    obtain ⟨q, hcomplete, heq⟩ := Option.map_eq_some_iff.1 hdone
    obtain rfl : q = p := congrArg Prod.fst heq
    have hfinish := Step.finish (s := { s with pool := taken, taken := s.taken ++ [id] }) id _ q
      (Build.isFinal_run ..) hcomplete
    exact ⟨_, .tail (.single (.take id taken free hhead htake)) hfinish, rfl, rfl⟩
  · cases h

end Alone

theorem Standing.spots_eq {id : Text} {o : Option Call} (h : Standing id o (s.ledger id)) :
    ∃ spot, s.spots id = [spot] := by
  obtain ⟨l, hl⟩ : ∃ l, s.ledger id = l := ⟨_, rfl⟩
  have hspots : s.spots id = (if l.record = none then [.unsubmitted] else []) ++
      List.replicate l.waiting .waiting ++ List.replicate l.queued .queued ++
      List.replicate l.busy .busy ++ (if l.record.any Job.done then [.ended] else []) := by
    rw [← hl]
    rfl
  rw [hspots]
  rw [hl] at h
  cases h with
  | absent | outside => exact ⟨.unsubmitted, by simp⟩
  | waiting owns live => exact ⟨.waiting, by simp [live.undone]⟩
  | queued owns live => exact ⟨.queued, by simp [live.undone]⟩
  | busy owns live => exact ⟨.busy, by simp [live.undone]⟩
  | finished owns ended | abandoned owns ended => exact ⟨.ended, by simp [ended.done]⟩

/-- After the queue was closed and the workers are gone there is nothing left to do, unless they were
called off. -/
theorem Sound.over_of_returned (h : s.Sound) (hworkers : 0 < s.pool.workers)
    (hoff : s.calledOff = false) {k : Nat} (hk : s.halts k = .returned true) {id : Text}
    (hid : s.Submitted id) : s.spots id = [.ended] := by
  obtain ⟨c, hcall, hstage⟩ := hid
  have hgone := h.staffed.returned k hk
  have hcrew := h.staffed.crew
  obtain ⟨-, hqueue⟩ := (h.staffed.left (by omega)).resolve_left (by simp [hoff])
  have hbusy : s.pool.busy = [] := List.length_eq_zero_iff.1 (by omega)
  have hstanding := h.accounted.standing id
  obtain ⟨spot, hspot⟩ := hstanding.spots_eq
  rw [hcall] at hstanding
  have hqueued : (s.ledger id).queued = 0 := by simp [ledger, hqueue]
  have hwith : (s.ledger id).busy = 0 := by simp [ledger, hbusy]
  generalize hl : s.ledger id = l at hstanding hqueued hwith
  have hrecord : s.pool.store.get? id = l.record := congrArg Ledger.record hl
  cases hstanding with
  | outside owns live out => simp [hstage, Stage.isOutside, Stage.outcome?] at out
  | waiting owns live waits => simp [hstage] at waits
  | queued | busy => simp at hqueued hwith
  | finished owns ended sent =>
    have hmem : Spot.ended ∈ s.spots id := by simp [spots, hrecord, ended.done]
    rw [hspot] at hmem ⊢
    rw [List.mem_singleton.1 hmem]
  | abandoned owns ended failed given => simp [hstage, Stage.outcome?] at given

theorem Sound.failed_of_refused (h : s.Sound) {id : Text} {c : Call} {r : Pool.Refusal} {j : Job}
    (hcall : s.calls id = some c) (hstage : c.stage = .returned (some r))
    (hj : s.pool.store.get? id = some j) :
    r = .cancelled ∧ j.status = .failed ∧ j.done = true ∧ id ∉ s.taken := by
  have hstanding := h.accounted.of_call hcall
  generalize hl : s.ledger id = l at hstanding
  have hrecord : l.record = some j := by rw [← hl]; exact hj
  have htaken : l.taken = s.taken.count id := by rw [← hl]; rfl
  cases hstanding with
  | outside => simp at hrecord
  | waiting owns live waits => simp [hstage] at waits
  | queued owns live sent | busy owns live sent | finished owns ended sent =>
    simp [hstage, Stage.outcome?] at sent
  | abandoned owns ended failed given =>
    obtain rfl := Option.some.inj hrecord
    refine ⟨by simpa [hstage, Stage.outcome?] using given, failed, ended.done, ?_⟩
    exact List.count_eq_zero.1 htaken.symm

theorem Sound.done_iff (h : s.Sound) {id : Text} {j : Job} (hj : s.pool.store.get? id = some j) :
    j.done = true ↔ j.status.isFinal = true := by
  rcases (h.accounted.standing id).live_or_over hj with live | ended
  · simp [live.undone, live.unfinished]
  · simp [ended.done, ended.final]

theorem Submits.reaches {js : List Job} (h : Submits s js t) : Reaches s t := by
  induction h with
  | nil => exact .refl
  | cons before new queued undone called submitted _ ih =>
    exact (before.tail (.call _ new queued undone)).trans (called.trans ih)

theorem Collects.reaches {ids : List Text} {js : List Job} (h : Collects s ids js t) :
    Reaches s t := by
  induction h with
  | nil => exact .refl
  | cons before _ _ _ ih => exact before.trans ih

theorem Submits.calls {js : List Job} (h : Submits s js t) :
    ∀ j ∈ js, ∃ c, t.calls j.id = some c ∧ c.job = j ∧ c.stage = .returned none := by
  induction h with
  | nil => simp
  | @cons s s₁ s₂ s₃ j js before new queued undone called submitted rest ih =>
    intro i hi
    rcases List.mem_cons.1 hi with rfl | hi
    · obtain ⟨c, hc, hjob, -⟩ := call_reaches called (c := { job := i }) (Function.update_self ..)
      obtain ⟨d, hd, hstage⟩ := submitted
      obtain rfl : d = c := Option.some.inj (hd.symm.trans hc)
      obtain ⟨e, he, hjob', hstage'⟩ := call_reaches rest.reaches hc
      exact ⟨e, he, hjob'.trans hjob, hstage' _ hstage⟩
    · exact ih i hi

theorem Collects.records {ids : List Text} {js : List Job} (h : Collects s ids js t)
    (hs : s.Sound) : List.Forall₂ (fun id j => t.pool.store.get? id = some j ∧ j.done = true) ids js := by
  induction h with
  | nil => exact .nil
  | cons before found ended rest ih =>
    have hmid := hs.reaches before
    exact .cons ⟨record_reaches hmid rest.reaches found ended, ended⟩ (ih hmid)

/-- The jobs of calls that have returned are collected in their order: of each job there is one
snapshot, with its path and a final status, after one worker took it. -/
theorem Sound.collected (h : s.Sound) {js snaps : List Job} {s₁ s₂ : Traffic}
    (hsub : Submits s js s₁) (hcol : Collects s₁ (js.map Job.id) snaps s₂) :
    List.Forall₂ (fun j i => i.id = j.id ∧ i.path = j.path ∧ i.status.isFinal = true ∧
      s₂.pool.store.get? j.id = some i ∧ s₂.taken.count j.id = 1) js snaps := by
  have hmid := h.reaches hsub.reaches
  have hend := hmid.reaches hcol.reaches
  have hrecords := hcol.records hmid
  rw [List.forall₂_map_left_iff] at hrecords
  refine ((List.forall₂_and_left _ _).2 ⟨hsub.calls, hrecords⟩).imp ?_
  rintro _ i ⟨⟨c, hc, rfl, hstage⟩, hi, hdone⟩
  obtain ⟨d, hd, hjob, hreturned⟩ := call_reaches hcol.reaches hc
  obtain ⟨e, he, owns, ended, hcase⟩ := (hend.accounted.standing c.job.id).of_done hi hdone
  obtain rfl : e = d := Option.some.inj (he.symm.trans hd)
  rcases hcase with ⟨-, hl⟩ | ⟨given, -, -⟩
  · exact ⟨owns.id, hjob ▸ owns.path, ended.final, hi, congrArg Ledger.taken hl⟩
  · simp [hreturned _ hstage, Stage.outcome?] at given

/-- Nothing is lost and nothing is done twice. -/
structure Orderly (s : Traffic) : Prop where
  /-- No send on a closed queue, no second close of the queue, no second end of a job. -/
  hazards : s.hazards = []
  /-- A job is at one spot, and there once. -/
  placed : ∀ id, ∃ spot, s.spots id = [spot]
  /-- A job waits in the call that submits it, which has the lock. -/
  waiting : ∀ id, s.pool.waiting = some id ↔ ∃ c, s.calls id = some c ∧ c.stage = .waiting
  /-- No job is taken twice. -/
  taken : s.taken.Nodup
  done : ∀ id j, s.pool.store.get? id = some j → (j.done = true ↔ j.status.isFinal = true)
  /-- A job is failed by the refusal of a call that has stored it, and stays so. -/
  refused : ∀ id c r j, s.calls id = some c → c.stage = .returned (some r) →
    s.pool.store.get? id = some j → j.status = .failed ∧ j.done = true ∧
      ∀ t, Reaches s t → t.pool.store.get? id = some j ∧ id ∉ t.taken
  /-- A call that has closed the queue returns after all submitted jobs. -/
  drained : s.calledOff = false → ∀ k, s.halts k = .returned true →
    ∀ id, s.Submitted id → s.spots id = [.ended]
  /-- Jobs that are submitted in turn and waited for are given back in their order. -/
  collected : ∀ js snaps s₁ s₂, Submits s js s₁ → Collects s₁ (js.map Job.id) snaps s₂ →
    List.Forall₂ (fun j i => i.id = j.id ∧ i.path = j.path ∧ i.status.isFinal = true ∧
      s₂.pool.store.get? j.id = some i ∧ s₂.taken.count j.id = 1) js snaps

theorem Sound.waiting_iff (h : s.Sound) (id : Text) :
    s.pool.waiting = some id ↔ ∃ c, s.calls id = some c ∧ c.stage = .waiting := by
  refine ⟨fun hw => ?_, fun ⟨c, hc, hstage⟩ => h.accounted.waiting_eq hc hstage⟩
  have hstanding := h.accounted.standing id
  generalize ho : s.calls id = o, hl : s.ledger id = l at hstanding
  have hcount : l.waiting = 1 := by rw [← hl]; simp [ledger, hw]
  cases hstanding with
  | waiting owns live waits => exact ⟨_, rfl, waits⟩
  | _ => simp at hcount

/-- In every state of every run of a pool with workers. -/
theorem reaches_orderly {workers : Int} (hworkers : 0 < workers) (h : Reaches (start workers) s) :
    s.Orderly := by
  have hs := sound_of_reaches h
  have hpool : 0 < s.pool.workers := by
    rw [workers_reaches h]
    omega
  refine ⟨hs.accounted.hazards, fun id => (hs.accounted.standing id).spots_eq, hs.waiting_iff,
    ?_, fun id j hj => hs.done_iff hj, ?_, fun hoff k hk id => hs.over_of_returned hpool hoff hk,
    fun js snaps s₁ s₂ => hs.collected⟩
  · refine List.nodup_iff_count_le_one.2 fun id => ?_
    exact (hs.accounted.standing id).taken_le
  · intro id c r j hc hstage hj
    obtain ⟨-, hfailed, hdone, -⟩ := hs.failed_of_refused hc hstage hj
    refine ⟨hfailed, hdone, fun t ht => ?_⟩
    have hstays := record_reaches hs ht hj hdone
    obtain ⟨d, hd, -, hreturned⟩ := call_reaches ht hc
    exact ⟨hstays, ((hs.reaches ht).failed_of_refused hd (hreturned _ hstage) hstays).2.2.2⟩

/-- A worker does a job, the client of another gives up, and the pool is stopped. -/
theorem reaches_orderly_stopped : ∃ s i c, Submits (start 1) [{ id := "a", path := "a.w" }] s ∧
    Collects s ["a"] [i] s ∧ s.calledOff = false ∧ s.halts 0 = .returned true ∧
    s.calls "b" = some c ∧ c.stage = .returned (some .cancelled) ∧ s.Orderly := by
  have hsent : Reaches { start 1 with
      calls := Function.update (start 1).calls "a" (some { job := { id := "a", path := "a.w" } }) } _ :=
    (((Relation.ReflTransGen.refl.tail (.enter "a" _ rfl rfl rfl)).tail
      (.accept "a" _ _ (by rfl) rfl rfl rfl)).tail
      (.send "a" _ _ (by rfl) rfl rfl rfl)).tail (.leave "a" _ _ (by rfl) rfl)
  have hgiven := (((((hsent.tail (.call { id := "b", path := "b.w" } (by rfl) rfl rfl)).tail
    (.cancel "b" _ (by rfl))).tail (.enter "b" _ (by rfl) rfl rfl)).tail
    (.accept "b" _ _ (by rfl) rfl rfl rfl)).tail
    (.giveUp "b" _ _ (by rfl) rfl rfl rfl)).tail (.leave "b" _ _ (by rfl) rfl)
  have hhalted := ((((hgiven.tail (.halt 0 (by rfl))).tail (.enterHalt 0 (by rfl) rfl)).tail
    (.mark 0 _ (by rfl) rfl rfl)).tail (.close 0 (by rfl))).tail (.leaveHalt 0 true (by rfl))
  have hdone := (((hhalted.tail (.take "a" _ Nat.zero_lt_one rfl rfl)).tail
    (.finish "a" { status := .completed, phase := "done" } _ rfl rfl)).tail
    (.quit Nat.zero_lt_one (.inr (.inr ⟨rfl, rfl⟩)))).tail (.drained 0 (by rfl) rfl)
  have hsub : Submits (start 1) [{ id := "a", path := "a.w" }] _ :=
    .cons .refl rfl rfl rfl hdone ⟨_, by rfl, rfl⟩ (.nil _)
  exact ⟨_, _, _, hsub, .cons .refl (by rfl) rfl (.nil _), rfl, by rfl, by rfl, rfl,
    reaches_orderly (by decide) hsub.reaches⟩

end Literate.Job.Traffic
