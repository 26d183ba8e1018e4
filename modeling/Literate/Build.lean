import Literate.Settings
import Literate.Calendar
import Literate.Digest
import Literate.Tangle.Emit
import Literate.Weave
import Literate.Weave.Markups

/-! Building a web: it is loaded, tangled and woven, and the outcome is summed up. A web with
syntax errors is neither tangled nor woven. -/

namespace Literate.Build

/-- Where builds take place: the settings and what the default substitutions stand for. -/
structure Site where
  settings : Settings
  version : Text
  /-- Seconds since 1970. -/
  now : Int := 0
  directory : Text := "."
deriving DecidableEq, Repr

/-- How webs are read. Substitutions of the settings win over the default ones. -/
def Site.readerOptions (site : Site) : Reader.Options :=
  Reader.Options.of site.settings.commandChar site.settings.permit
    (site.settings.substitutions ++
      Reader.defaultSubstitutions site.version (Calendar.text site.now) site.directory)

structure Loaded where
  web : Web
  bytes : Text
  lines : Nat
  /-- Syntax errors, each of which was logged. -/
  errors : Nat
deriving Repr

/-- Reads the web at a path. Only a failure to read the file is a failure. -/
def load (site : Site) (tree : FileTree) (path : Text) :
    Except FileError Loaded × List Log.Record :=
  match tree.readFile path with
  | .error e => (.error e, [])
  | .ok bytes =>
    let outcome := Reader.load site.readerOptions tree path ⟨bytes, none⟩
    let chunks := outcome.chunks.toOption.getD []
    (.ok ⟨Web.ofChunks path chunks, bytes, outcome.lines, outcome.errors⟩, outcome.log)

inductive Status where
  | queued
  | loading
  | tangling
  | weaving
  | completed
  | failed
  /-- Some outputs are there and others failed. -/
  | partly
  /-- A word that is no known status. -/
  | other (word : Text)
deriving DecidableEq, Repr

namespace Status

def word : Status → Text
  | .queued => "queued"
  | .loading => "loading"
  | .tangling => "tangling"
  | .weaving => "weaving"
  | .completed => "completed"
  | .failed => "failed"
  | .partly => "partial"
  | .other word => word

def known : List Status := [.queued, .loading, .tangling, .weaving, .completed, .failed, .partly]

def ofWord (w : Text) : Status := (known.find? fun s => s.word == w).getD (.other w)

/-- A job that has this status is over. -/
def isFinal : Status → Bool
  | .completed | .failed | .partly => true
  | _ => false

end Status

/-- What a build read and wrote. -/
structure Summary where
  lines : Int := 0
  chunks : Nat := 0
  parseErrors : Int := 0
  written : List Text := []
  unchanged : List Text := []
  document : Text := []
  errors : List Text := []
deriving DecidableEq, Repr

/-- Whether a build was called off, as it is found before each of the two phases that write. -/
structure Cancellation where
  beforeTangle : Bool := false
  beforeWeave : Bool := false
deriving DecidableEq, Repr

/-- The outcome of a build. -/
structure Report where
  status : Status
  /-- What was being done when the build ended. -/
  phase : Text
  hash : Text := []
  web : Option Web := none
  summary : Summary := {}
  log : List Log.Record := []
deriving Repr

/-- Where the files of a web go: the directory of the settings, or its own. -/
def outputDir (s : Settings) (path : Text) : Text :=
  if s.outputDir = [] then Path.directory path else s.outputDir

/-- The course of the two phases that write. -/
structure Course where
  tree : FileTree
  summary : Summary
  log : List Log.Record
  /-- Something was written or found up to date. -/
  succeeded : Bool := false
  /-- The last phase that failed. -/
  failedIn : Option Text := none
deriving Repr

namespace Course

def addError (message : Text) (c : Course) : Course :=
  { c with summary := { c.summary with errors := c.summary.errors ++ [message] } }

def fail (phase message : Text) (c : Course) : Course :=
  { c.addError message with failedIn := some phase }

def tangle (site : Site) (w : Web) (confined : Bool) (c : Course) : Course :=
  let dir := outputDir site.settings w.path
  let e := Tangle.emit w ⟨dir, site.settings.lineNumbers, confined⟩ c.tree
  let c := { c with
    tree := e.tree
    log := c.log ++ e.log
    summary := { c.summary with
      written := c.summary.written ++ e.written
      unchanged := c.summary.unchanged ++ e.unchanged }
    succeeded := c.succeeded || !(e.written ++ e.unchanged).isEmpty }
  if e.failures = [] then c else c.fail "tangling" (Failure.joined e.failures)

def weave (site : Site) (w : Web) (c : Course) : Course :=
  match Weave.markup? site.settings.markup with
  | none => c.fail "weaving" (Weave.unknownMarkup site.settings.markup)
  | some m =>
    match Weave.emit m site.settings.outputDir w c.tree with
    | (.error f, tree, log) =>
      let failed : Log.Record := ⟨Log.error, "weave failed", [("error", .text f.message)]⟩
      { c with tree, log := c.log ++ log ++ [failed] }.fail "weaving" f.message
    | (.ok (), tree, log) =>
      { c with
        tree
        log := c.log ++ log
        succeeded := true
        summary := { c.summary with
          document := Weave.targetPath m site.settings.outputDir w.path } }

/-- How a build that was not called off ends. -/
def verdict (c : Course) : Status × Text :=
  match c.failedIn with
  | none => (.completed, "done")
  | some phase => if c.succeeded then (.partly, "done") else (.failed, phase)

end Course

/-- Does the phases that are not skipped. A build that was called off stops before the next one,
and the phase is given. -/
def phases (site : Site) (w : Web) (confined : Bool) (off : Cancellation) (c : Course) :
    Course × Option Text :=
  let s := site.settings
  if !s.skipTangle && off.beforeTangle then
    (c.addError Failure.cancelled.message, some "tangling")
  else
    let c := if s.skipTangle then c else c.tangle site w confined
    if s.skipWeave then (c, none)
    else if off.beforeWeave then (c.addError Failure.cancelled.message, some "weaving")
    else (c.weave site w, none)

def syntaxErrors (n : Nat) : Text := Text.ofNat n ++ " syntax errors in the web"

/-- Builds the web at a path. -/
def run (site : Site) (path : Text) (confined : Bool) (off : Cancellation) (tree : FileTree) :
    Report × FileTree :=
  match load site tree path with
  | (.error e, log) =>
    ({ status := .failed
       phase := "loading"
       summary := { errors := ["read: " ++ e.message] }
       log := log ++ [⟨Log.error, "load failed", [("error", .text e.message)]⟩] }, tree)
  | (.ok loaded, log) =>
    let summary : Summary :=
      { lines := loaded.lines, chunks := loaded.web.size, parseErrors := loaded.errors }
    let log := log ++ [⟨Log.info, "loaded",
      [("lines", .number loaded.lines), ("chunks", .number loaded.web.size)]⟩]
    let report (status : Status) (phase : Text) (summary : Summary) (log : List Log.Record) :
        Report :=
      ⟨status, phase, Digest.hex loaded.bytes, some loaded.web, summary, log⟩
    if loaded.errors > 0 then
      (report .failed "loading" { summary with errors := [syntaxErrors loaded.errors] } log, tree)
    else
      match phases site loaded.web confined off { tree, summary, log } with
      | (c, some phase) => (report .failed phase c.summary c.log, c.tree)
      | (c, none) => (report c.verdict.1 c.verdict.2 c.summary c.log, c.tree)

end Literate.Build
