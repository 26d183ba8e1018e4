import Literate.Job

/-! A pool of workers that take jobs from a bounded queue. A job that is submitted while the queue
is full waits for room, and no other can be submitted meanwhile. Each transition is one function;
those that cannot happen in a state give nothing. -/

namespace Literate.Job

structure Pool where
  store : Store := {}
  /-- The job that waits for room in the queue. -/
  waiting : Option Text := none
  queue : List Text := []
  /-- The jobs that workers are busy with. -/
  busy : List Text := []
  /-- How many workers were started. -/
  workers : Nat := 0
  /-- The queue is closed: nothing more can be submitted. -/
  stopped : Bool := false
deriving Repr

namespace Pool

def capacity : Nat := 64

def start (workers : Int) (p : Pool) : Pool := { p with workers := p.workers + workers.toNat }

/-- Stores a submitted job, which then waits for room. That no other waits is for the callers to
see to, who hold a lock. -/
def accept (j : Job) (p : Pool) : Option Pool :=
  if p.stopped then none
  else some { p with store := p.store.put j, waiting := some j.id }

/-- Moves the waiting job to the queue when there is room. -/
def enqueue (p : Pool) : Option Pool :=
  match p.waiting with
  | some id =>
    if p.queue.length < capacity then some { p with waiting := none, queue := p.queue ++ [id] }
    else none
  | none => none

def giveUpJob (j : Job) : Job :=
  match j.finish .failed "queued" with
  | .ok j => j
  | .error j => j

/-- Fails the waiting job, whose client does not wait any longer. -/
def giveUp (p : Pool) : Option Pool :=
  p.waiting.map fun id => { p with waiting := none, store := p.store.modify id giveUpJob }

/-- A free worker takes the first job of the queue. -/
def take (p : Pool) : Option Pool :=
  match p.queue with
  | id :: rest =>
    if p.busy.length < p.workers then some { p with queue := rest, busy := p.busy ++ [id] }
    else none
  | [] => none

/-- A worker has finished a job. -/
def complete (id : Text) (r : Build.Report) (p : Pool) : Option Pool :=
  if id ∈ p.busy then
    some { p with busy := p.busy.erase id, store := p.store.modify id (withReport r) }
  else none

/-- Closes the queue, unless it is closed already. -/
def close (p : Pool) : Option Pool :=
  if p.stopped then none else some { p with stopped := true }

def depth (p : Pool) : Nat := p.queue.length

/-- Why a job could not be submitted. -/
inductive Refusal where
  | stopped
  | cancelled
  /-- The queue is full and the client goes on waiting. -/
  | blocked
deriving DecidableEq, Repr

def Refusal.failure : Refusal → Failure
  | .stopped => .plain "pipeline stopped"
  | .cancelled => .cancelled
  | .blocked => .plain "queue is full"

/-- Submits a job for a client that may have stopped waiting. As long as another waits for room, it
holds the lock. -/
def submit (j : Job) (cancelled : Bool) (p : Pool) : Option Refusal × Pool :=
  if p.waiting.isSome then (some .blocked, p)
  else
    match p.accept j with
    | none => (some .stopped, p)
    | some p =>
      match p.enqueue with
      | some p => (none, p)
      | none => if cancelled then (some .cancelled, p.giveUp.getD p) else (some .blocked, p)

/-- One worker takes the first job and does it. -/
def work (site : Build.Site) (p : Pool) (tree : FileTree) :
    Option (Pool × FileTree × List Log.Record) :=
  match p.queue.head?, p.take with
  | some id, some taken =>
    (taken.store.get? id).bind fun j =>
      let (r, tree) := Build.run site j.path j.confined {} tree
      (taken.complete id r).map fun p => (p, tree, Log.all j.logAttributes r.log)
  | _, _ => none

/-- Does jobs one after the other until the queue is empty. -/
def drainFrom (site : Build.Site) : Nat → Pool → FileTree → List Log.Record →
    Pool × FileTree × List Log.Record
  | 0, p, tree, log => (p, tree, log)
  | n + 1, p, tree, log =>
    match p.work site tree with
    | none => (p, tree, log)
    | some (p, tree, more) => drainFrom site n p tree (log ++ more)

def drain (site : Build.Site) (p : Pool) (tree : FileTree) : Pool × FileTree × List Log.Record :=
  drainFrom site p.queue.length p tree []

/-- Builds webs in turn and gives their jobs, unless one cannot be submitted. -/
def runAll (site : Build.Site) : List Job → Pool → FileTree → List Log.Record →
    Except Failure (List Job) × Pool × FileTree × List Log.Record
  | [], p, tree, log => (.ok [], p, tree, log)
  | j :: rest, p, tree, log =>
    match p.submit j false with
    | (some r, p) => (.error r.failure, p, tree, log)
    | (none, p) =>
      let (p, tree, more) := p.drain site tree
      let built := (p.store.get? j.id).getD j
      let (result, p, tree, log) := runAll site rest p tree (log ++ more)
      (result.map (built :: ·), p, tree, log)

end Pool

end Literate.Job
