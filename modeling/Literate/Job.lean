import Literate.Build
import Literate.Job.Id

/-! Jobs: builds that are waited for, with what is known of them so far, and the store that finds
them again. -/

namespace Literate

structure Job where
  id : Text
  path : Text
  status : Build.Status := .queued
  phase : Text := "queued"
  hash : Text := []
  summary : Build.Summary := {}
  /-- Output files must stay in the output directory. -/
  confined : Bool := false
  web : Option Web := none
  /-- The job is over, and those who wait for it are told. -/
  done : Bool := false
deriving Repr

namespace Job

def setStatus (status : Build.Status) (phase : Text) (j : Job) : Job := { j with status, phase }

def addError (message : Text) (j : Job) : Job :=
  { j with summary := { j.summary with errors := j.summary.errors ++ [message] } }

/-- Records what was loaded. Without a web the chunks keep their count. -/
def setLoaded (web : Option Web) (lines parseErrors : Int) (hash : Text) (j : Job) : Job :=
  { j with
    web
    hash
    summary := { j.summary with
      lines
      parseErrors
      chunks := match web with
        | some w => w.size
        | none => j.summary.chunks } }

def addOutputs (written unchanged : List Text) (j : Job) : Job :=
  { j with summary := { j.summary with
    written := j.summary.written ++ written
    unchanged := j.summary.unchanged ++ unchanged } }

def setDocument (path : Text) (j : Job) : Job :=
  { j with summary := { j.summary with document := path } }

/-- Ends a job. Ending it again is an error, after which it has the new status all the same. -/
def finish (status : Build.Status) (phase : Text) (j : Job) : Except Job Job :=
  let ended := j.setStatus status phase
  if j.done then .error ended else .ok { ended with done := true }

/-- The job after its build. -/
def withReport (r : Build.Report) (j : Job) : Job :=
  { j with
    status := r.status
    phase := r.phase
    hash := r.hash
    web := r.web
    summary := r.summary
    done := true }

/-- The attributes of all that is logged in the course of a job. -/
def logAttributes (j : Job) : List Log.Attribute := [("job_id", .text j.id), ("web", .text j.path)]

/-- Builds the web of a job. -/
def process (site : Build.Site) (off : Build.Cancellation) (j : Job) (tree : FileTree) :
    Job × FileTree × List Log.Record :=
  let (r, tree) := Build.run site j.path j.confined off tree
  (j.withReport r, tree, Log.all j.logAttributes r.log)

/-- What is said of a job on one line, and on one more for each of its errors. -/
def summaryLine (j : Job) : Text :=
  let count (n : Nat) (what : Text) : Text := if n = 0 then [] else ", " ++ Text.ofNat n ++ what
  let document : Text := if j.summary.document = [] then [] else ", woven to " ++ j.summary.document
  let errorLine (e : Text) : Text := "\n  " ++ e
  j.path ++ ": " ++ j.status.word ++ ", " ++ Text.ofInt j.summary.lines ++ " lines, " ++
    Text.ofNat j.summary.chunks ++ " chunks" ++
    count j.summary.written.length " written" ++
    count j.summary.unchanged.length " unchanged" ++
    document ++ j.summary.errors.flatMap errorLine

/-- The jobs that are known, each under its identifier. -/
structure Store where
  jobs : List Job := []
deriving Repr

namespace Store

def get? (s : Store) (id : Text) : Option Job := s.jobs.find? fun j => j.id == id

/-- Adds a job, or replaces the one with its identifier. -/
def put (s : Store) (j : Job) : Store :=
  let isOld (k : Job) : Bool := k.id == j.id
  { jobs :=
      if s.jobs.any isOld then s.jobs.map fun k => if isOld k then j else k
      else s.jobs ++ [j] }

/-- The jobs in the order of their identifiers, which is that of their making. -/
def list (s : Store) : List Job := s.jobs.mergeSort fun a b => Text.le a.id b.id

/-- The last job for a path. -/
def latest? (s : Store) (path : Text) : Option Job :=
  (s.list.filter fun j => j.path == path).getLast?

/-- Changes a job that is known. -/
def modify (s : Store) (id : Text) (f : Job → Job) : Store :=
  { jobs := s.jobs.map fun j => if j.id == id then f j else j }

end Store

end Job

end Literate
