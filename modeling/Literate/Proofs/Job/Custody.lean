import Literate.Proofs.Job.Transitions

/-! A pool in use keeps account of its jobs: who holds the lock, which workers are left, and where each
job is, are kept in order by every step of every party. -/

namespace Literate.Job.Traffic

variable {s t : Traffic}

/-- The lock is held by those who have come past it and by no one else, and the queue is closed
after the pool was marked as stopped, which it is not while a job waits. -/
structure Locked (s : Traffic) : Prop where
  client : ∀ id, (s.calls id).any (·.stage.holdsLock) = true ↔ s.lock = some (.client id)
  stopper : ∀ k, (s.halts k).holdsLock = true ↔ s.lock = some (.stopper k)
  going : s.pool.waiting.isSome = true → s.pool.stopped = false
  closing : ∀ k, s.halts k = .closing → s.closed = false ∧ s.pool.stopped = true
  closed : s.closed = true → s.pool.stopped = true

theorem locked_start (workers : Int) : (start workers).Locked := by
  refine ⟨?_, ?_, ?_, ?_, ?_⟩ <;> simp [start, Pool.start, Halt.holdsLock]

/-- What becomes of the lock when one party moves on and then holds it or not. -/
structure Trade (before after : Option Party) (party : Party) (holds : Bool) : Prop where
  own : holds = true ↔ after = some party
  others : ∀ other, other ≠ party → (after = some other ↔ before = some other)

section Trades

variable {lock : Option Party} {party : Party} {held holds : Bool}

theorem Trade.keep (h : held = true ↔ lock = some party) (hsame : holds = held) :
    Trade lock lock party holds :=
  ⟨hsame ▸ h, fun _ _ => .rfl⟩

theorem Trade.enter (h : lock = none) : Trade lock (some party) party true :=
  ⟨by simp, fun other hne => by simp [h, hne.symm]⟩

theorem Trade.leave (h : lock = some party) : Trade lock none party false :=
  ⟨by simp, fun other hne => by simp [h, hne.symm]⟩

end Trades

theorem Locked.of_call (h : s.Locked) {id : Text} {c : Call}
    (hcalls : t.calls = Function.update s.calls id (some c)) (hhalts : t.halts = s.halts)
    (htrade : Trade s.lock t.lock (.client id) c.stage.holdsLock) (hclosed : t.closed = s.closed)
    (hstopped : t.pool.stopped = s.pool.stopped)
    (hgoing : t.pool.waiting.isSome = true → s.pool.stopped = false) : t.Locked := by
  refine ⟨fun i => ?_, fun k => ?_, fun hw => hstopped ▸ hgoing hw, ?_, ?_⟩
  · rw [hcalls]
    by_cases hi : i = id
    · subst hi
      rw [Function.update_self]
      exact htrade.own
    · rw [Function.update_of_ne hi, htrade.others _ (by simpa using hi)]
      exact h.client i
  · rw [hhalts, htrade.others _ (by simp)]
    exact h.stopper k
  · rw [hhalts, hclosed, hstopped]
    exact h.closing
  · rw [hclosed, hstopped]
    exact h.closed

theorem Locked.of_halt (h : s.Locked) {k : Nat} {halt : Halt} (hcalls : t.calls = s.calls)
    (hhalts : t.halts = Function.update s.halts k halt)
    (htrade : Trade s.lock t.lock (.stopper k) halt.holdsLock)
    (hgoing : t.pool.waiting.isSome = true → t.pool.stopped = false)
    (hclosing : ∀ i, t.halts i = .closing → t.closed = false ∧ t.pool.stopped = true)
    (hclosed : t.closed = true → t.pool.stopped = true) : t.Locked := by
  refine ⟨fun id => ?_, fun i => ?_, hgoing, hclosing, hclosed⟩
  · rw [hcalls, htrade.others _ (by simp)]
    exact h.client id
  · rw [hhalts]
    by_cases hi : i = k
    · subst hi
      rw [Function.update_self]
      exact htrade.own
    · rw [Function.update_of_ne hi, htrade.others _ (by simpa using hi)]
      exact h.stopper i

theorem Locked.lock_of_call (h : s.Locked) {id : Text} {c : Call} (called : s.calls id = some c)
    (hholds : c.stage.holdsLock = true) : s.lock = some (.client id) :=
  (h.client id).1 (by simpa [called] using hholds)

theorem Locked.not_closing (h : s.Locked) {k i : Nat} (hholds : (s.halts k).holdsLock = true)
    (hne : i ≠ k) : s.halts i ≠ .closing := by
  intro hi
  have hboth := ((h.stopper i).1 (by simp [hi, Halt.holdsLock])).symm.trans ((h.stopper k).1 hholds)
  exact hne (by simpa using hboth)

theorem Locked.step (h : s.Locked)
    (hquiet : ∀ k, (s.halts k).holdsLock = true → s.pool.waiting = none) (hstep : Step s t) :
    t.Locked := by
  -- a call that does not take the lock or leave it holds it as before
  have hkeep : ∀ {id c}, s.calls id = some c → ∀ {stage : Stage},
      stage.holdsLock = c.stage.holdsLock → Trade s.lock s.lock (.client id) stage.holdsLock :=
    fun {id _} called _ hsame => .keep (by simpa [called] using h.client id) hsame
  have hkeepHalt : ∀ k {halt : Halt}, halt.holdsLock = (s.halts k).holdsLock →
      Trade s.lock s.lock (.stopper k) halt.holdsLock :=
    fun k _ hsame => .keep (h.stopper k) hsame
  -- a pool that is marked stays so, and so does a queue that is closed
  have hclosing : ∀ {k halt}, halt ≠ Halt.closing → ∀ i, Function.update s.halts k halt i = .closing →
      s.closed = false ∧ s.pool.stopped = true := by
    intro k halt hne i hi
    by_cases hik : i = k
    · subst hik
      exact absurd (by simpa using hi) hne
    · exact h.closing i (by simpa [Function.update_of_ne hik] using hi)
  cases hstep with
  | call j new queued undone =>
    exact h.of_call rfl rfl (.keep (by simpa [new, Stage.holdsLock] using h.client j.id) rfl) rfl rfl h.going
  | cancel id c called => exact h.of_call rfl rfl (hkeep called rfl) rfl rfl h.going
  | enter id c called at_lock free => exact h.of_call rfl rfl (.enter free) rfl rfl h.going
  | refuse id c called inside stopped =>
    exact h.of_call rfl rfl (hkeep called (by rw [inside]; rfl)) rfl rfl h.going
  | accept id c p called inside notStopped accepted =>
    obtain ⟨-, rfl⟩ := Pool.accept_cases accepted
    exact h.of_call rfl rfl (hkeep called (by rw [inside]; rfl)) rfl rfl fun _ => notStopped
  | send id c p called waits opened sent =>
    obtain ⟨id', -, rfl⟩ := Pool.enqueue_cases sent
    exact h.of_call rfl rfl (hkeep called (by rw [waits]; rfl)) rfl rfl (by simp)
  | giveUp id c p called waits cancelled given =>
    obtain ⟨id', -, rfl⟩ := Pool.giveUp_cases given
    exact h.of_call rfl rfl (hkeep called (by rw [waits]; rfl)) rfl rfl (by simp)
  | leave id c r called settled =>
    exact h.of_call rfl rfl (.leave (h.lock_of_call called (by rw [settled]; rfl))) rfl rfl h.going
  | halt k idle =>
    exact h.of_halt rfl rfl (hkeepHalt k (by rw [idle]; rfl)) h.going (hclosing nofun) h.closed
  | enterHalt k at_lock free =>
    exact h.of_halt rfl rfl (.enter free) h.going (hclosing nofun) h.closed
  | haltAgain k inside stopped =>
    exact h.of_halt rfl rfl (hkeepHalt k (by rw [inside]; rfl)) h.going (hclosing nofun) h.closed
  | mark k p inside notStopped marked =>
    obtain ⟨-, rfl⟩ := Pool.close_cases marked
    have hwaiting := hquiet k (by rw [inside]; rfl)
    have hopen : s.closed = false :=
      Bool.eq_false_iff.2 fun hc => by simp [h.closed hc] at notStopped
    exact h.of_halt rfl rfl (hkeepHalt k (by rw [inside]; rfl)) (by simp [hwaiting])
      (fun _ _ => ⟨hopen, rfl⟩) fun _ => rfl
  | close k inside =>
    have hholds : (s.halts k).holdsLock = true := by rw [inside]; rfl
    refine h.of_halt rfl rfl (hkeepHalt k hholds.symm) h.going (fun i hi => ?_) fun _ =>
      (h.closing k inside).2
    by_cases hik : i = k
    · subst hik
      simp [moveHalt] at hi
    · -- another call that has marked the pool would hold the lock too
      exact absurd (by simpa [moveHalt, Function.update_of_ne hik] using hi) (h.not_closing hholds hik)
  | leaveHalt k first inside =>
    have hlock : s.lock = some (.stopper k) := (h.stopper k).1 (by rw [inside]; rfl)
    refine h.of_halt rfl rfl ?_ h.going (hclosing ?_) h.closed
    · cases first <;> exact .leave hlock
    · cases first <;> exact nofun
  | drained k waits gone =>
    exact h.of_halt rfl rfl (hkeepHalt k (by rw [waits]; rfl)) h.going (hclosing nofun) h.closed
  | take id p free first took =>
    obtain ⟨id', rest, -, rfl⟩ := Pool.take_cases took
    exact ⟨h.client, h.stopper, h.going, h.closing, h.closed⟩
  | finish id r p final completed =>
    obtain ⟨-, rfl⟩ := Pool.complete_cases completed
    exact ⟨h.client, h.stopper, h.going, h.closing, h.closed⟩
  | sendOnClosed | callOff | quit | progress =>
    exact ⟨h.client, h.stopper, h.going, h.closing, h.closed⟩

/-- Workers return only when they may, so that after the queue was closed they leave nothing in it
unless they were called off. -/
structure Staffed (s : Traffic) : Prop where
  crew : s.pool.busy.length + s.gone ≤ s.pool.workers
  left : 0 < s.gone → s.calledOff = true ∨ s.closed = true ∧ s.pool.queue = []
  dismissed : s.dismissed = true → s.gone = s.pool.workers
  ending : ∀ k, s.halts k = .leaving true ∨ s.halts k = .draining ∨ s.halts k = .returned true →
    s.closed = true
  returned : ∀ k, s.halts k = .returned true → s.gone = s.pool.workers

theorem staffed_start (workers : Int) : (start workers).Staffed := by
  constructor <;> simp [start, Pool.start]

theorem Staffed.of_halt (h : s.Staffed) {k : Nat} {halt : Halt}
    (hhalts : t.halts = Function.update s.halts k halt) (hbusy : t.pool.busy = s.pool.busy)
    (hworkers : t.pool.workers = s.pool.workers) (hgone : t.gone = s.gone)
    (hleft : 0 < s.gone → t.calledOff = true ∨ t.closed = true ∧ t.pool.queue = [])
    (hdismissed : t.dismissed = true → s.gone = s.pool.workers)
    (hclosed : s.closed = true → t.closed = true)
    (hending : halt = .leaving true ∨ halt = .draining ∨ halt = .returned true → t.closed = true)
    (hreturned : halt = .returned true → s.gone = s.pool.workers) : t.Staffed := by
  have hself : Function.update s.halts k halt k = halt := Function.update_self k halt s.halts
  refine ⟨?_, ?_, ?_, fun i hi => ?_, fun i hi => ?_⟩
  · rw [hbusy, hworkers, hgone]
    exact h.crew
  · rw [hgone]
    exact hleft
  · rw [hgone, hworkers]
    exact hdismissed
  · rw [hhalts] at hi
    by_cases hik : i = k
    · rw [hik, hself] at hi
      exact hending hi
    · rw [Function.update_of_ne hik] at hi
      exact hclosed (h.ending i hi)
  · rw [hgone, hworkers]
    rw [hhalts] at hi
    by_cases hik : i = k
    · rw [hik, hself] at hi
      exact hreturned hi
    · rw [Function.update_of_ne hik] at hi
      exact h.returned i hi

theorem Staffed.step (h : s.Staffed) (hstep : Step s t) : t.Staffed := by
  have ⟨crew, left, dismissed, ending, returned⟩ := h
  cases hstep with
  | accept id c p called inside notStopped accepted =>
    obtain ⟨-, rfl⟩ := Pool.accept_cases accepted
    exact ⟨crew, left, dismissed, ending, returned⟩
  | send id c p called waits opened sent =>
    obtain ⟨id', -, rfl⟩ := Pool.enqueue_cases sent
    exact ⟨crew, fun hgone => .inl ((left hgone).resolve_right (by simp [opened])), dismissed, ending,
      returned⟩
  | giveUp id c p called waits cancelled given =>
    obtain ⟨id', -, rfl⟩ := Pool.giveUp_cases given
    exact ⟨crew, left, dismissed, ending, returned⟩
  | take id p free first took =>
    obtain ⟨id', rest, hqueue, rfl⟩ := Pool.take_cases took
    refine ⟨?_, fun hgone => ?_, dismissed, ending, returned⟩
    · simp only [List.length_append, List.length_singleton]
      unfold HasFreeWorker at free
      omega
    · exact .inl ((left hgone).resolve_right (by simp [hqueue]))
  | quit free may =>
    unfold HasFreeWorker at free
    have hstays : s.gone ≠ s.pool.workers := by omega
    refine ⟨by dsimp only; omega, fun _ => ?_, fun h => absurd (dismissed h) hstays, ending,
      fun k hk => absurd (returned k hk) hstays⟩
    rcases may with h | h | h
    · exact .inl h
    · exact absurd (dismissed h) hstays
    · exact .inr h
  | finish id r p final completed =>
    obtain ⟨hbusy, rfl⟩ := Pool.complete_cases completed
    refine ⟨?_, left, dismissed, ending, returned⟩
    simp only [List.length_erase_of_mem hbusy]
    omega
  | mark k p inside notStopped marked =>
    obtain ⟨-, rfl⟩ := Pool.close_cases marked
    exact h.of_halt rfl rfl rfl rfl left dismissed (fun hc => hc) (by simp) nofun
  | call | cancel | enter | refuse | leave | progress | sendOnClosed =>
    exact ⟨crew, left, dismissed, ending, returned⟩
  | callOff => exact ⟨crew, fun _ => .inl rfl, dismissed, ending, returned⟩
  | halt | enterHalt | haltAgain => exact h.of_halt rfl rfl rfl rfl left dismissed (fun hc => hc) (by simp) nofun
  | close k inside =>
    exact h.of_halt rfl rfl rfl rfl (fun hgone => (left hgone).imp_right fun hq => ⟨rfl, hq.2⟩)
      dismissed (fun _ => rfl) (fun _ => rfl) nofun
  | leaveHalt k first inside =>
    refine h.of_halt rfl rfl rfl rfl left dismissed (fun hc => hc) (fun hends => ?_) fun hr => ?_
    · cases first with
      | true => exact ending k (.inl inside)
      | false => simp at hends
    · cases first <;> cases hr
  | drained k waits gone =>
    exact h.of_halt rfl rfl rfl rfl left (fun _ => gone) (fun hc => hc)
      (fun _ => ending k (.inr (.inl waits))) fun _ => gone

/-- What is on record of a job: the job as it is stored, and how often it is waiting, in the queue,
with workers, and among the jobs that workers took. -/
structure Ledger where
  record : Option Job
  waiting : Nat
  queued : Nat
  busy : Nat
  taken : Nat

def ledger (s : Traffic) (id : Text) : Ledger where
  record := s.pool.store.get? id
  waiting := s.pool.waiting.toList.count id
  queued := s.pool.queue.count id
  busy := s.pool.busy.count id
  taken := s.taken.count id

/-- A job is the one that a call submits. -/
structure Owns (id : Text) (c : Call) (j : Job) : Prop where
  own : c.job.id = id
  id : j.id = id
  path : j.path = c.job.path
  confined : j.confined = c.job.confined

/-- How a job stands, by the call that submits it and what is on record. -/
inductive Standing (id : Text) : Option Call → Ledger → Prop where
  | absent : Standing id none ⟨none, 0, 0, 0, 0⟩
  | outside {c : Call} (owns : Owns id c c.job) (live : c.job.Live)
      (out : c.stage.isOutside = true) : Standing id (some c) ⟨none, 0, 0, 0, 0⟩
  | waiting {c : Call} {j : Job} (owns : Owns id c j) (live : j.Live) (waits : c.stage = .waiting) :
      Standing id (some c) ⟨some j, 1, 0, 0, 0⟩
  | queued {c : Call} {j : Job} (owns : Owns id c j) (live : j.Live)
      (sent : c.stage.outcome? = some none) : Standing id (some c) ⟨some j, 0, 1, 0, 0⟩
  | busy {c : Call} {j : Job} (owns : Owns id c j) (live : j.Live)
      (sent : c.stage.outcome? = some none) : Standing id (some c) ⟨some j, 0, 0, 1, 1⟩
  | finished {c : Call} {j : Job} (owns : Owns id c j) (ended : j.Over)
      (sent : c.stage.outcome? = some none) : Standing id (some c) ⟨some j, 0, 0, 0, 1⟩
  | abandoned {c : Call} {j : Job} (owns : Owns id c j) (ended : j.Over) (failed : j.status = .failed)
      (given : c.stage.outcome? = some (some .cancelled)) :
      Standing id (some c) ⟨some j, 0, 0, 0, 0⟩

namespace Standing

variable {id : Text} {c d : Call} {o : Option Call} {l : Ledger}

theorem congr (h : Standing id (some c) l) (hjob : d.job = c.job)
    (hout : c.stage.isOutside = true → d.stage.isOutside = true)
    (hwait : c.stage = .waiting → d.stage = .waiting)
    (hcome : ∀ r, c.stage.outcome? = some r → d.stage.outcome? = some r) :
    Standing id (some d) l := by
  have howns : ∀ {j}, Owns id c j → Owns id d j := fun h =>
    ⟨hjob ▸ h.own, h.id, hjob ▸ h.path, hjob ▸ h.confined⟩
  cases h with
  | outside owns live out =>
    exact .outside ⟨hjob ▸ owns.own, hjob ▸ owns.own, rfl, rfl⟩ (hjob ▸ live) (hout out)
  | waiting owns live waits => exact .waiting (howns owns) live (hwait waits)
  | queued owns live sent => exact .queued (howns owns) live (hcome _ sent)
  | busy owns live sent => exact .busy (howns owns) live (hcome _ sent)
  | finished owns ended sent => exact .finished (howns owns) ended (hcome _ sent)
  | abandoned owns ended failed given => exact .abandoned (howns owns) ended failed (hcome _ given)

theorem of_none (h : Standing id none l) : l = ⟨none, 0, 0, 0, 0⟩ := by
  cases h
  rfl

theorem of_entered (h : Standing id (some c) l) (hc : c.stage = .entered) :
    Owns id c c.job ∧ c.job.Live ∧ l = ⟨none, 0, 0, 0, 0⟩ := by
  cases h with
  | outside owns live out => exact ⟨owns, live, rfl⟩
  | _ => simp_all [Stage.outcome?]

theorem of_waiting (h : Standing id (some c) l) (hc : c.stage = .waiting) :
    ∃ j, Owns id c j ∧ j.Live ∧ l = ⟨some j, 1, 0, 0, 0⟩ := by
  cases h with
  | outside owns live out => simp [hc, Stage.isOutside, Stage.outcome?] at out
  | waiting owns live waits => exact ⟨_, owns, live, rfl⟩
  | _ => simp_all [Stage.outcome?]

theorem of_counted (h : Standing id o l) (hl : l.waiting ≠ 0) :
    ∃ c, o = some c ∧ c.stage = .waiting := by
  cases h with
  | waiting owns live waits => exact ⟨_, rfl, waits⟩
  | _ => simp at hl

theorem of_queued (h : Standing id o l) (hl : l.queued ≠ 0) :
    ∃ c j, o = some c ∧ Owns id c j ∧ j.Live ∧ c.stage.outcome? = some none ∧
      l = ⟨some j, 0, 1, 0, 0⟩ := by
  cases h with
  | queued owns live sent => exact ⟨_, _, rfl, owns, live, sent, rfl⟩
  | _ => simp at hl

theorem of_busy (h : Standing id o l) (hl : l.busy ≠ 0) :
    ∃ c j, o = some c ∧ Owns id c j ∧ j.Live ∧ c.stage.outcome? = some none ∧
      l = ⟨some j, 0, 0, 1, 1⟩ := by
  cases h with
  | busy owns live sent => exact ⟨_, _, rfl, owns, live, sent, rfl⟩
  | _ => simp at hl

theorem live_or_over {j : Job} (h : Standing id o l) (hj : l.record = some j) : j.Live ∨ j.Over := by
  cases h with
  | absent | outside => simp at hj
  | waiting owns live | queued owns live | busy owns live => exact .inl (Option.some.inj hj ▸ live)
  | finished owns ended | abandoned owns ended => exact .inr (Option.some.inj hj ▸ ended)

theorem of_done {j : Job} (h : Standing id o l) (hj : l.record = some j) (hdone : j.done = true) :
    ∃ c, o = some c ∧ Owns id c j ∧ j.Over ∧
      (c.stage.outcome? = some none ∧ l = ⟨some j, 0, 0, 0, 1⟩ ∨
        c.stage.outcome? = some (some .cancelled) ∧ j.status = .failed ∧
          l = ⟨some j, 0, 0, 0, 0⟩) := by
  cases h with
  | absent | outside => simp at hj
  | waiting owns live | queued owns live | busy owns live =>
    obtain rfl := Option.some.inj hj
    simp [live.undone] at hdone
  | finished owns ended sent =>
    obtain rfl := Option.some.inj hj
    exact ⟨_, rfl, owns, ended, .inl ⟨sent, rfl⟩⟩
  | abandoned owns ended failed given =>
    obtain rfl := Option.some.inj hj
    exact ⟨_, rfl, owns, ended, .inr ⟨given, failed, rfl⟩⟩

theorem taken_le (h : Standing id o l) : l.taken ≤ 1 := by
  cases h <;> simp

end Standing

/-- Every job is accounted for, and nothing has gone wrong. -/
structure Accounted (s : Traffic) : Prop where
  standing : ∀ id, Standing id (s.calls id) (s.ledger id)
  hazards : s.hazards = []

theorem accounted_start (workers : Int) : (start workers).Accounted := by
  refine ⟨fun id => ?_, rfl⟩
  have hledger : (start workers).ledger id = ⟨none, 0, 0, 0, 0⟩ := by
    simp [ledger, start, Pool.start, Store.get?]
  rw [hledger]
  exact .absent

section Steps

variable {id : Text} {c : Call}

theorem Accounted.of_call (h : s.Accounted) (called : s.calls id = some c) :
    Standing id (some c) (s.ledger id) :=
  called ▸ h.standing id

theorem Accounted.of_busy (h : s.Accounted) (busy : id ∈ s.pool.busy) :
    ∃ c j, s.calls id = some c ∧ Owns id c j ∧ j.Live ∧ c.stage.outcome? = some none ∧
      s.ledger id = ⟨some j, 0, 0, 1, 1⟩ :=
  (h.standing id).of_busy (by simpa [ledger, List.count_eq_zero] using busy)

theorem Accounted.waiting_eq (h : s.Accounted) (called : s.calls id = some c)
    (waits : c.stage = .waiting) : s.pool.waiting = some id := by
  obtain ⟨j, -, -, hl⟩ := (h.of_call called).of_waiting waits
  have hcount : s.pool.waiting.toList.count id = 1 := congrArg Ledger.waiting hl
  cases hw : s.pool.waiting with
  | none => simp [hw] at hcount
  | some id' =>
    by_cases heq : id' = id
    · rw [heq]
    · simp [hw, heq] at hcount

theorem endings_eq_nil {j : Job} (hj : s.pool.store.get? id = some j) (live : j.Live) :
    s.endings id = [] := by
  simp [endings, hj, live.undone]

theorem Accounted.of_update (h : s.Accounted) {o : Option Call}
    (hcalls : t.calls = Function.update s.calls id o) (hself : Standing id o (t.ledger id))
    (hother : ∀ id', id' ≠ id → t.ledger id' = s.ledger id') (hazards : t.hazards = []) :
    t.Accounted := by
  refine ⟨fun id' => ?_, hazards⟩
  rw [hcalls, Function.update_apply]
  split
  next heq => exact heq ▸ hself
  next hne =>
    rw [hother id' hne]
    exact h.standing id'

theorem Accounted.of_move (h : s.Accounted) (called : s.calls id = some c) {d : Call}
    (hcalls : t.calls = Function.update s.calls id (some d)) (hjob : d.job = c.job)
    (hout : c.stage.isOutside = true → d.stage.isOutside = true)
    (hwait : c.stage = .waiting → d.stage = .waiting)
    (hcome : ∀ r, c.stage.outcome? = some r → d.stage.outcome? = some r)
    (hledger : ∀ id', t.ledger id' = s.ledger id') (hazards : t.hazards = []) : t.Accounted := by
  refine h.of_update hcalls ?_ (fun id' _ => hledger id') hazards
  rw [hledger]
  exact (h.of_call called).congr hjob hout hwait hcome

/-- A job waits only while the call that submits it has the lock. -/
theorem Accounted.lock_of_waiting (h : s.Accounted) (hl : s.Locked) (hw : s.pool.waiting = some id) :
    ∃ c, s.calls id = some c ∧ c.stage = .waiting ∧ s.lock = some (.client id) := by
  have hcount : (s.ledger id).waiting ≠ 0 := by simp [ledger, hw]
  obtain ⟨c, called, waits⟩ := (h.standing id).of_counted hcount
  exact ⟨c, called, waits, hl.lock_of_call called (by rw [waits]; rfl)⟩

theorem Accounted.quiet_of_entered (h : s.Accounted) (hl : s.Locked) (called : s.calls id = some c)
    (inside : c.stage = .entered) : s.pool.waiting = none := by
  refine Option.eq_none_iff_forall_ne_some.2 fun id' hw => ?_
  obtain ⟨c', called', waits, hlock⟩ := h.lock_of_waiting hl hw
  obtain rfl : id' = id := by
    simpa using hlock.symm.trans (hl.lock_of_call called (by rw [inside]; rfl))
  rw [called] at called'
  cases called'
  simp [inside] at waits

theorem Accounted.quiet_of_halt (h : s.Accounted) (hl : s.Locked) {k : Nat}
    (hholds : (s.halts k).holdsLock = true) : s.pool.waiting = none := by
  refine Option.eq_none_iff_forall_ne_some.2 fun id hw => ?_
  obtain ⟨c, -, -, hlock⟩ := h.lock_of_waiting hl hw
  simpa using hlock.symm.trans ((hl.stopper k).1 hholds)

theorem Accounted.accept {p : Pool} (h : s.Accounted) (hl : s.Locked) (called : s.calls id = some c)
    (inside : c.stage = .entered) (accepted : s.pool.accept c.job = some p) :
    Accounted { s.move id c .waiting with pool := p } := by
  have hwaiting := h.quiet_of_entered hl called inside
  obtain ⟨-, rfl⟩ := Pool.accept_cases accepted
  obtain ⟨owns, live, hl⟩ := (h.of_call called).of_entered inside
  obtain rfl := owns.own
  simp only [ledger, Ledger.mk.injEq] at hl
  refine h.of_update rfl ?_ (fun id' hne => ?_) h.hazards
  · have hledger : ledger { s.move c.job.id c .waiting with
        pool := { s.pool with store := s.pool.store.put c.job, waiting := some c.job.id } } c.job.id =
        ⟨some c.job, 1, 0, 0, 0⟩ := by
      simp [ledger, move, Store.get?_put, hl]
    rw [hledger]
    exact .waiting ⟨rfl, rfl, rfl, rfl⟩ live rfl
  · simp [ledger, move, Store.get?_put_of_ne _ hne, hwaiting, hne.symm]

theorem Accounted.send {p : Pool} (h : s.Accounted) (called : s.calls id = some c)
    (waits : c.stage = .waiting) (sent : s.pool.enqueue = some p) :
    Accounted { s.move id c (.leaving none) with pool := p } := by
  obtain ⟨id', hwaiting, rfl⟩ := Pool.enqueue_cases sent
  obtain rfl : id' = id := by simpa [hwaiting] using h.waiting_eq called waits
  obtain ⟨j, owns, live, hl⟩ := (h.of_call called).of_waiting waits
  simp only [ledger, Ledger.mk.injEq] at hl
  refine h.of_update rfl ?_ (fun id' hne => ?_) h.hazards
  · have hledger : ledger { s.move id' c (.leaving none) with
        pool := { s.pool with waiting := none, queue := s.pool.queue ++ [id'] } } id' =
        ⟨some j, 0, 1, 0, 0⟩ := by
      simp [ledger, move, hl]
    rw [hledger]
    exact .queued ⟨owns.own, owns.id, owns.path, owns.confined⟩ live rfl
  · simp [ledger, move, hwaiting, List.count_append, hne.symm]

theorem Accounted.giveUp {p : Pool} (h : s.Accounted) (called : s.calls id = some c)
    (waits : c.stage = .waiting) (given : s.pool.giveUp = some p) :
    Accounted { s.move id c (.leaving (some .cancelled)) with
      pool := p, hazards := s.hazards ++ s.endings id } := by
  obtain ⟨id', hwaiting, rfl⟩ := Pool.giveUp_cases given
  obtain rfl : id' = id := by simpa [hwaiting] using h.waiting_eq called waits
  obtain ⟨j, owns, live, hl⟩ := (h.of_call called).of_waiting waits
  simp only [ledger, Ledger.mk.injEq] at hl
  have hgiven : Pool.giveUpJob j = { j with status := .failed, phase := "queued", done := true } := by
    simp [Pool.giveUpJob, Job.finish, Job.setStatus, live.undone]
  refine h.of_update rfl ?_ (fun k hne => ?_) ?_
  · have hledger : ledger { s.move id' c (.leaving (some .cancelled)) with
        pool := { s.pool with
          waiting := none, store := s.pool.store.modify id' Pool.giveUpJob }
        hazards := s.hazards ++ s.endings id' } id' =
        ⟨some (Pool.giveUpJob j), 0, 0, 0, 0⟩ := by
      simp [ledger, move, hl, Store.get?_modify _ _ Pool.id_giveUpJob]
    rw [hledger, hgiven]
    exact .abandoned ⟨owns.own, owns.id, owns.path, owns.confined⟩ ⟨rfl, rfl⟩ rfl rfl
  · simp [ledger, move, hwaiting, Store.get?_modify_of_ne _ hne Pool.id_giveUpJob, hne.symm]
  · simp [h.hazards, endings_eq_nil hl.1 live]

theorem Accounted.take {p : Pool} (h : s.Accounted) (first : s.pool.queue.head? = some id)
    (took : s.pool.take = some p) : Accounted { s with pool := p, taken := s.taken ++ [id] } := by
  obtain ⟨id', rest, hqueue, rfl⟩ := Pool.take_cases took
  obtain rfl : id' = id := by simpa [hqueue] using first
  obtain ⟨c, j, called, owns, live, sent, hl⟩ := (h.standing id').of_queued (by simp [ledger, hqueue])
  simp only [ledger, Ledger.mk.injEq, hqueue, List.count_cons_self, Nat.add_eq_right] at hl
  refine h.of_update (Function.update_eq_self id' s.calls).symm ?_ (fun k hne => ?_) h.hazards
  · rw [called]
    have hledger : ledger { s with
        pool := { s.pool with queue := rest, busy := s.pool.busy ++ [id'] }
        taken := s.taken ++ [id'] } id' = ⟨some j, 0, 0, 1, 1⟩ := by
      simp [ledger, hl]
    rw [hledger]
    exact .busy owns live sent
  · simp [ledger, hqueue, List.count_append, hne.symm]

theorem Accounted.progress {status : Build.Status} (h : s.Accounted) (busy : id ∈ s.pool.busy)
    (open_status : status.isFinal = false) (phase : Text) :
    Accounted { s with pool := { s.pool with
      store := s.pool.store.modify id (setStatus status phase) } } := by
  obtain ⟨c, j, called, owns, live, sent, hl⟩ := h.of_busy busy
  simp only [ledger, Ledger.mk.injEq] at hl
  have hid : ∀ j : Job, (j.setStatus status phase).id = j.id := fun _ => rfl
  refine h.of_update (Function.update_eq_self id s.calls).symm ?_ (fun k hne => ?_) h.hazards
  · rw [called]
    have hledger : ledger { s with pool := { s.pool with
        store := s.pool.store.modify id (setStatus status phase) } } id =
        ⟨some (j.setStatus status phase), 0, 0, 1, 1⟩ := by
      simp [ledger, hl, Store.get?_modify _ _ hid]
    rw [hledger]
    exact .busy ⟨owns.own, owns.id, owns.path, owns.confined⟩ ⟨live.undone, open_status⟩ sent
  · simp [ledger, Store.get?_modify_of_ne _ hne hid]

theorem Accounted.finish {r : Build.Report} {p : Pool} (h : s.Accounted)
    (final : r.status.isFinal = true) (completed : s.pool.complete id r = some p) :
    Accounted { s with pool := p, hazards := s.hazards ++ s.endings id } := by
  obtain ⟨busy, rfl⟩ := Pool.complete_cases completed
  obtain ⟨c, j, called, owns, live, sent, hl⟩ := h.of_busy busy
  simp only [ledger, Ledger.mk.injEq] at hl
  have hid : ∀ j : Job, (j.withReport r).id = j.id := fun _ => rfl
  refine h.of_update (Function.update_eq_self id s.calls).symm ?_ (fun k hne => ?_) ?_
  · rw [called]
    have hledger : ledger { s with
        pool := { s.pool with
          busy := s.pool.busy.erase id, store := s.pool.store.modify id (withReport r) }
        hazards := s.hazards ++ s.endings id } id = ⟨some (j.withReport r), 0, 0, 0, 1⟩ := by
      simp [ledger, hl, Store.get?_modify _ _ hid]
    rw [hledger]
    exact .finished ⟨owns.own, owns.id, owns.path, owns.confined⟩ ⟨rfl, final⟩ sent
  · simp [ledger, Store.get?_modify_of_ne _ hne hid, List.count_erase_of_ne hne]
  · simp [h.hazards, endings_eq_nil hl.1 live]

theorem Accounted.step (h : s.Accounted) (hl : s.Locked) (hstep : Step s t) : t.Accounted := by
  cases hstep with
  | call j new queued undone =>
    have hstanding := h.standing j.id
    rw [new] at hstanding
    refine h.of_update rfl ?_ (fun _ _ => rfl) h.hazards
    show Standing j.id _ (s.ledger j.id)
    rw [hstanding.of_none]
    exact .outside ⟨rfl, rfl, rfl, rfl⟩ ⟨undone, by simp [queued, Build.Status.isFinal]⟩ rfl
  | cancel id c called =>
    exact h.of_move called rfl rfl (fun h => h) (fun h => h) (fun _ h => h) (fun _ => rfl) h.hazards
  | enter id c called at_lock free =>
    refine h.of_move called rfl rfl (fun _ => rfl) ?_ ?_ (fun _ => rfl) h.hazards <;>
      simp [at_lock, Stage.outcome?]
  | refuse id c called inside stopped =>
    refine h.of_move called rfl rfl (fun _ => rfl) ?_ ?_ (fun _ => rfl) h.hazards <;>
      simp [inside, Stage.outcome?]
  | leave id c r called settled =>
    refine h.of_move called rfl rfl ?_ ?_ ?_ (fun _ => rfl) h.hazards <;>
      simp [settled, Stage.outcome?, Stage.isOutside]
  | accept id c p called inside going accepted => exact h.accept hl called inside accepted
  | send id c p called waits opened sent => exact h.send called waits sent
  | sendOnClosed id c called waits closed =>
    -- a job that waits keeps the pool from being marked, and the queue is closed after that
    have hgoing := hl.going (by simp [h.waiting_eq called waits])
    rw [hl.closed closed] at hgoing
    cases hgoing
  | giveUp id c p called waits cancelled given => exact h.giveUp called waits given
  | close k inside =>
    refine ⟨h.standing, ?_⟩
    simp [h.hazards, (hl.closing k inside).1]
  | mark k p inside going marked =>
    obtain ⟨-, rfl⟩ := Pool.close_cases marked
    exact ⟨h.standing, h.hazards⟩
  | take id p free first took => exact h.take first took
  | progress id status phase busy open_status => exact h.progress busy open_status phase
  | finish id r p final completed => exact h.finish final completed
  | halt | enterHalt | haltAgain | leaveHalt | drained | callOff | quit =>
    exact ⟨h.standing, h.hazards⟩

end Steps

/-- What holds of a pool in use at any time. -/
structure Sound (s : Traffic) : Prop where
  locked : s.Locked
  staffed : s.Staffed
  accounted : s.Accounted

theorem Sound.step (h : s.Sound) (hstep : Step s t) : t.Sound :=
  ⟨h.locked.step (fun _ => h.accounted.quiet_of_halt h.locked) hstep, h.staffed.step hstep, h.accounted.step h.locked hstep⟩

theorem Sound.reaches (h : s.Sound) (hreach : Reaches s t) : t.Sound := by
  induction hreach with
  | refl => exact h
  | tail _ hstep ih => exact ih.step hstep

theorem sound_of_reaches {workers : Int} (h : Reaches (start workers) s) : s.Sound :=
  Sound.reaches ⟨locked_start workers, staffed_start workers, accounted_start workers⟩ h

theorem workers_step (hstep : Step s t) : t.pool.workers = s.pool.workers := by
  cases hstep with
  | accept id c p called inside going accepted =>
    obtain ⟨-, rfl⟩ := Pool.accept_cases accepted
    rfl
  | send id c p called waits opened sent =>
    obtain ⟨id', -, rfl⟩ := Pool.enqueue_cases sent
    rfl
  | giveUp id c p called waits cancelled given =>
    obtain ⟨id', -, rfl⟩ := Pool.giveUp_cases given
    rfl
  | mark k p inside going marked =>
    obtain ⟨-, rfl⟩ := Pool.close_cases marked
    rfl
  | take id p free first took =>
    obtain ⟨id', rest, -, rfl⟩ := Pool.take_cases took
    rfl
  | finish id r p final completed =>
    obtain ⟨-, rfl⟩ := Pool.complete_cases completed
    rfl
  | _ => rfl

theorem workers_reaches {workers : Int} (h : Reaches (start workers) s) :
    s.pool.workers = workers.toNat := by
  induction h with
  | refl => simp [start, Pool.start]
  | tail _ hstep ih => rw [workers_step hstep, ih]

section Stay

variable {id : Text} {c : Call} {j : Job}

theorem call_update (hc : s.calls id = some c) {i : Text} {d e : Call} (called : s.calls i = some d)
    (hjob : e.job = d.job) (hstage : ∀ r, d.stage = .returned r → e.stage = .returned r) :
    ∃ d, Function.update s.calls i (some e) id = some d ∧ d.job = c.job ∧
      ∀ r, c.stage = .returned r → d.stage = .returned r := by
  by_cases hid : id = i
  · subst hid
    rw [called] at hc
    cases hc
    exact ⟨e, Function.update_self .., hjob, hstage⟩
  · exact ⟨c, by rw [Function.update_of_ne hid, hc], rfl, fun _ h => h⟩

theorem call_step (hstep : Step s t) (hc : s.calls id = some c) :
    ∃ d, t.calls id = some d ∧ d.job = c.job ∧ ∀ r, c.stage = .returned r → d.stage = .returned r := by
  cases hstep with
  | call j new queued undone =>
    refine ⟨c, ?_, rfl, fun _ h => h⟩
    have hne : id ≠ j.id := by
      rintro rfl
      rw [new] at hc
      cases hc
    exact (Function.update_of_ne hne ..).trans hc
  | cancel i d called => exact call_update hc called rfl fun _ h => h
  | enter i d called at_lock free => exact call_update hc called rfl (by simp [at_lock])
  | refuse i d called inside stopped => exact call_update hc called rfl (by simp [inside])
  | accept i d p called inside going accepted => exact call_update hc called rfl (by simp [inside])
  | send i d p called waits opened sent => exact call_update hc called rfl (by simp [waits])
  | giveUp i d p called waits cancelled given => exact call_update hc called rfl (by simp [waits])
  | leave i d r called settled => exact call_update hc called rfl (by simp [settled])
  | _ => exact ⟨c, hc, rfl, fun _ h => h⟩

theorem call_reaches (hreach : Reaches s t) (hc : s.calls id = some c) :
    ∃ d, t.calls id = some d ∧ d.job = c.job ∧ ∀ r, c.stage = .returned r → d.stage = .returned r := by
  induction hreach with
  | refl => exact ⟨c, hc, rfl, fun _ h => h⟩
  | tail _ hstep ih =>
    obtain ⟨d, hd, hjob, hstage⟩ := ih
    obtain ⟨e, he, hjob', hstage'⟩ := call_step hstep hd
    exact ⟨e, he, hjob'.trans hjob, fun r hr => hstage' r (hstage r hr)⟩

theorem record_step (h : s.Accounted) (hstep : Step s t) (hj : s.pool.store.get? id = some j)
    (hdone : j.done = true) : t.pool.store.get? id = some j := by
  have hlive : ∀ {k : Text} {i : Job}, s.pool.store.get? k = some i → i.Live → id ≠ k := by
    rintro k i hi live rfl
    rw [hj] at hi
    cases hi
    simp [live.undone] at hdone
  cases hstep with
  | accept id' c p called inside going accepted =>
    obtain ⟨-, rfl⟩ := Pool.accept_cases accepted
    obtain ⟨owns, -, hl⟩ := (h.of_call called).of_entered inside
    have hrecord : s.pool.store.get? id' = none := congrArg Ledger.record hl
    have hne : id ≠ c.job.id := by
      rintro rfl
      rw [← owns.own, hj] at hrecord
      cases hrecord
    rw [← hj]
    exact Store.get?_put_of_ne _ hne
  | send id' c p called waits opened sent =>
    obtain ⟨id'', -, rfl⟩ := Pool.enqueue_cases sent
    exact hj
  | giveUp id' c p called waits cancelled given =>
    obtain ⟨id'', hwaiting, rfl⟩ := Pool.giveUp_cases given
    obtain rfl : id'' = id' := by simpa [hwaiting] using h.waiting_eq called waits
    obtain ⟨i, -, live, hl⟩ := (h.of_call called).of_waiting waits
    rw [← hj]
    exact Store.get?_modify_of_ne _ (hlive (congrArg Ledger.record hl) live) Pool.id_giveUpJob
  | mark k p inside going marked =>
    obtain ⟨-, rfl⟩ := Pool.close_cases marked
    exact hj
  | take id' p free first took =>
    obtain ⟨id'', rest, -, rfl⟩ := Pool.take_cases took
    exact hj
  | progress id' status phase busy open_status =>
    obtain ⟨c, i, -, -, live, -, hl⟩ := h.of_busy busy
    rw [← hj]
    exact Store.get?_modify_of_ne _ (hlive (congrArg Ledger.record hl) live) fun _ => rfl
  | finish id' r p final completed =>
    obtain ⟨busy, rfl⟩ := Pool.complete_cases completed
    obtain ⟨c, i, -, -, live, -, hl⟩ := h.of_busy busy
    rw [← hj]
    exact Store.get?_modify_of_ne _ (hlive (congrArg Ledger.record hl) live) fun _ => rfl
  | _ => exact hj

theorem record_reaches (h : s.Sound) (hreach : Reaches s t) (hj : s.pool.store.get? id = some j)
    (hdone : j.done = true) : t.pool.store.get? id = some j := by
  induction hreach with
  | refl => exact hj
  | tail hbefore hstep ih => exact record_step (h.reaches hbefore).accounted hstep ih hdone

end Stay

end Literate.Job.Traffic
