import Mathlib.Logic.Function.Basic
import Mathlib.Logic.Relation
import Literate.Job.Pool

/-! A pool in use. Any number of clients submit jobs, workers take them from the queue and finish
them, and anyone may stop the pool, all at once. A call that submits a job holds the lock until it
returns, also while it waits for room, and a call that stops the pool needs that lock. Each line that
another party can notice is one step; what a step does to the pool is a transition of the pool. -/

namespace Literate.Job

/-- What ends a program that uses channels. -/
inductive Hazard where
  | sentOnClosed (job : Text)
  | closedTwice
  /-- The channel that tells of the end of a job was closed when it was closed already. -/
  | endedTwice (job : Text)
deriving DecidableEq, Repr

/-- How far a call that submits a job has come. -/
inductive Stage where
  | calling
  /-- It has the lock and has not looked at anything. -/
  | entered
  /-- The job is stored and there is to be room for it in the queue, or no client. -/
  | waiting
  /-- The outcome is known; the lock is still held. -/
  | leaving (refusal : Option Pool.Refusal)
  | returned (refusal : Option Pool.Refusal)
deriving DecidableEq, Repr

namespace Stage

def holdsLock : Stage → Bool
  | entered | waiting | leaving _ => true
  | calling | returned _ => false

/-- What has come of the call, once that is settled. -/
def outcome? : Stage → Option (Option Pool.Refusal)
  | leaving r | returned r => some r
  | calling | entered | waiting => none

/-- The job has not been stored. -/
def isOutside (g : Stage) : Bool :=
  g == calling || g == entered || g.outcome? == some (some .stopped)

end Stage

/-- A call that submits a job. -/
structure Call where
  job : Job
  stage : Stage := .calling
  /-- The client does not wait any longer. -/
  cancelled : Bool := false

/-- How far a call that stops the pool has come. -/
inductive Halt where
  | idle
  | calling
  | entered
  /-- The pool is marked as stopped, and the queue is still open. -/
  | closing
  /-- The lock is still held. `first` tells whether this call has closed the queue. -/
  | leaving (first : Bool)
  /-- Waits until all workers are gone. -/
  | draining
  | returned (first : Bool)
deriving DecidableEq, Repr

def Halt.holdsLock : Halt → Bool
  | entered | closing | leaving _ => true
  | idle | calling | draining | returned _ => false

/-- Those who take the lock. -/
inductive Party where
  | client (job : Text)
  | stopper (number : Nat)
deriving DecidableEq, Repr

/-- A pool with all who use it. A job is known by its identifier and submitted at most once. -/
structure Traffic where
  pool : Pool
  calls : Text → Option Call := fun _ => none
  halts : Nat → Halt := fun _ => .idle
  lock : Option Party := none
  closed : Bool := false
  /-- How many workers have returned. -/
  gone : Nat := 0
  /-- The context that the workers were started in is cancelled. -/
  calledOff : Bool := false
  /-- The workers were dismissed by a call that has stopped the pool. -/
  dismissed : Bool := false
  /-- The jobs that workers took, in the order in which they took them. -/
  taken : List Text := []
  hazards : List Hazard := []

namespace Traffic

def start (workers : Int) : Traffic := { pool := ({} : Pool).start workers }

def move (s : Traffic) (id : Text) (c : Call) (stage : Stage) : Traffic :=
  { s with calls := Function.update s.calls id (some { c with stage }) }

def moveHalt (s : Traffic) (k : Nat) (halt : Halt) : Traffic :=
  { s with halts := Function.update s.halts k halt }

/-- Ending a job that is over already is a hazard. -/
def endings (s : Traffic) (id : Text) : List Hazard :=
  if (s.pool.store.get? id).any Job.done then [.endedTwice id] else []

/-- A worker has nothing to do and has not returned. -/
def HasFreeWorker (s : Traffic) : Prop := s.pool.busy.length + s.gone < s.pool.workers

/-- One step of one of the parties. -/
inductive Step (s : Traffic) : Traffic → Prop where
  | call (j : Job) (new : s.calls j.id = none) (queued : j.status = .queued)
      (undone : j.done = false) :
      Step s { s with calls := Function.update s.calls j.id (some { job := j }) }
  | cancel (id : Text) (c : Call) (called : s.calls id = some c) :
      Step s { s with calls := Function.update s.calls id (some { c with cancelled := true }) }
  | enter (id : Text) (c : Call) (called : s.calls id = some c) (at_lock : c.stage = .calling)
      (free : s.lock = none) : Step s { s.move id c .entered with lock := some (.client id) }
  | refuse (id : Text) (c : Call) (called : s.calls id = some c) (inside : c.stage = .entered)
      (stopped : s.pool.stopped = true) : Step s (s.move id c (.leaving (some .stopped)))
  | accept (id : Text) (c : Call) (p : Pool) (called : s.calls id = some c)
      (inside : c.stage = .entered) (going : s.pool.stopped = false)
      (accepted : s.pool.accept c.job = some p) : Step s { s.move id c .waiting with pool := p }
  /-- The queue has room for the job that waits. -/
  | send (id : Text) (c : Call) (p : Pool) (called : s.calls id = some c)
      (waits : c.stage = .waiting) (opened : s.closed = false)
      (sent : s.pool.enqueue = some p) : Step s { s.move id c (.leaving none) with pool := p }
  /-- A send on a closed queue is not held up. -/
  | sendOnClosed (id : Text) (c : Call) (called : s.calls id = some c)
      (waits : c.stage = .waiting) (closed : s.closed = true) :
      Step s { s with hazards := s.hazards ++ [.sentOnClosed id] }
  | giveUp (id : Text) (c : Call) (p : Pool) (called : s.calls id = some c)
      (waits : c.stage = .waiting) (cancelled : c.cancelled = true)
      (given : s.pool.giveUp = some p) :
      Step s { s.move id c (.leaving (some .cancelled)) with
        pool := p, hazards := s.hazards ++ s.endings id }
  | leave (id : Text) (c : Call) (r : Option Pool.Refusal) (called : s.calls id = some c)
      (settled : c.stage = .leaving r) :
      Step s { s.move id c (.returned r) with lock := none }
  | halt (k : Nat) (idle : s.halts k = .idle) : Step s (s.moveHalt k .calling)
  | enterHalt (k : Nat) (at_lock : s.halts k = .calling) (free : s.lock = none) :
      Step s { s.moveHalt k .entered with lock := some (.stopper k) }
  | haltAgain (k : Nat) (inside : s.halts k = .entered) (stopped : s.pool.stopped = true) :
      Step s (s.moveHalt k (.leaving false))
  | mark (k : Nat) (p : Pool) (inside : s.halts k = .entered) (going : s.pool.stopped = false)
      (marked : s.pool.close = some p) : Step s { s.moveHalt k .closing with pool := p }
  | close (k : Nat) (inside : s.halts k = .closing) :
      Step s { s.moveHalt k (.leaving true) with
        closed := true
        hazards := s.hazards ++ if s.closed then [.closedTwice] else [] }
  | leaveHalt (k : Nat) (first : Bool) (inside : s.halts k = .leaving first) :
      Step s { s.moveHalt k (if first then .draining else .returned false) with lock := none }
  /-- All workers are gone. They are dismissed all the same. -/
  | drained (k : Nat) (waits : s.halts k = .draining) (gone : s.gone = s.pool.workers) :
      Step s { s.moveHalt k (.returned true) with dismissed := true }
  | callOff : Step s { s with calledOff := true }
  /-- A free worker takes a job, also when it could return. -/
  | take (id : Text) (p : Pool) (free : s.HasFreeWorker) (first : s.pool.queue.head? = some id)
      (took : s.pool.take = some p) : Step s { s with pool := p, taken := s.taken ++ [id] }
  | quit (free : s.HasFreeWorker)
      (may : s.calledOff = true ∨ s.dismissed = true ∨ s.closed = true ∧ s.pool.queue = []) :
      Step s { s with gone := s.gone + 1 }
  | progress (id : Text) (status : Build.Status) (phase : Text) (busy : id ∈ s.pool.busy)
      (open_status : status.isFinal = false) :
      Step s { s with pool := { s.pool with store := s.pool.store.modify id (setStatus status phase) } }
  | finish (id : Text) (r : Build.Report) (p : Pool) (final : r.status.isFinal = true)
      (completed : s.pool.complete id r = some p) :
      Step s { s with pool := p, hazards := s.hazards ++ s.endings id }

abbrev Reaches : Traffic → Traffic → Prop := Relation.ReflTransGen Step

/-- Where a job is. -/
inductive Spot where
  | unsubmitted
  /-- In the one call that submits it. -/
  | waiting
  | queued
  /-- With a worker. -/
  | busy
  | ended
deriving DecidableEq, Repr

/-- All the spots at which a job is found, each as often as it is found there. -/
def spots (s : Traffic) (id : Text) : List Spot :=
  (if s.pool.store.get? id = none then [.unsubmitted] else []) ++
    List.replicate (s.pool.waiting.toList.count id) .waiting ++
    List.replicate (s.pool.queue.count id) .queued ++
    List.replicate (s.pool.busy.count id) .busy ++
    (if (s.pool.store.get? id).any Job.done then [.ended] else [])

/-- A call has submitted a job and returned. -/
def Submitted (s : Traffic) (id : Text) : Prop :=
  ∃ c, s.calls id = some c ∧ c.stage = .returned none

/-- Jobs are submitted in turn, each after the call for the one before has returned. -/
inductive Submits : Traffic → List Job → Traffic → Prop where
  | nil (s : Traffic) : Submits s [] s
  | cons {s s₁ s₂ s₃ : Traffic} {j : Job} {js : List Job} (before : Reaches s s₁)
      (new : s₁.calls j.id = none) (queued : j.status = .queued) (undone : j.done = false)
      (called : Reaches
        { s₁ with calls := Function.update s₁.calls j.id (some { job := j }) } s₂)
      (submitted : s₂.Submitted j.id) (rest : Submits s₂ js s₃) : Submits s (j :: js) s₃

/-- The jobs are looked at in turn, each when it is over. -/
inductive Collects : Traffic → List Text → List Job → Traffic → Prop where
  | nil (s : Traffic) : Collects s [] [] s
  | cons {s s₁ s₂ : Traffic} {id : Text} {ids : List Text} {j : Job} {js : List Job}
      (before : Reaches s s₁) (found : s₁.pool.store.get? id = some j) (ended : j.done = true)
      (rest : Collects s₁ ids js s₂) : Collects s (id :: ids) (j :: js) s₂

end Traffic

end Literate.Job
