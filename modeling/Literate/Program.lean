import Literate.CommandLine.Help
import Literate.Job.Pool
import Literate.Log.Console
import Literate.Settings.Overlay

/-! The program: from a command line, an environment and a file tree to what is printed, what is
logged and the file tree that is left. -/

namespace Literate.Program

open CommandLine (Choices Request)

/-- What the program starts with. -/
structure Invocation where
  arguments : List Text
  environment : Settings.Environment := []
  version : Text := "dev"
  /-- Seconds since 1970. -/
  now : Int := 0
  /-- The clock in milliseconds and random bytes, from which jobs get their identifiers. -/
  moment : Nat × Text := (0, [])
deriving DecidableEq, Repr

/-- Why the program does not do what it was asked for, or not all of it. -/
inductive Refusal where
  | misuse (fault : CommandLine.Fault)
  | config (fault : Settings.FileFault)
  | unknownPhase (phase : Text)
  | invalid (fault : Settings.Fault)
  | unknownMarkup (name : Text)
  | noWebs (directory : Text)
  | failed (failure : Failure)
deriving DecidableEq, Repr

def Refusal.failure : Refusal → Failure
  | .misuse fault => .plain fault.message
  | .config (.unread e) => .file "read config" e
  | .config fault => .plain fault.message
  | .unknownPhase phase =>
    .plain ("unknown phase " ++ Text.quoted phase ++ " for --skip (want t or w)")
  | .invalid fault => .plain ("invalid configuration: " ++ fault.message)
  | .unknownMarkup name =>
    .plain ("unknown markup " ++ Text.quoted name ++ " (have [" ++
      Text.join " " Weave.markupNames ++ "])")
  | .noWebs directory => .plain ("no webs in " ++ directory)
  | .failed failure => failure

/-- Skips the phases that are named. -/
def skipPhases : List Text → Settings → Except Refusal Settings
  | [], s => .ok s
  | phase :: rest, s =>
    if phase = ("t" : Text) then skipPhases rest { s with skipTangle := true }
    else if phase = ("w" : Text) then skipPhases rest { s with skipWeave := true }
    else .error (.unknownPhase phase)

/-- The log level that flags name; the one that shows most wins. -/
def levelName? (c : Choices) : Option Text :=
  if c.debug then some "debug" else if c.verbose then some "info"
  else if c.silent then some "warn" else none

/-- Lays the choices of a command line over settings. -/
def applyChoices (c : Choices) (s : Settings) : Except Refusal Settings :=
  (skipPhases c.skip { s with
    command := c.command.getD s.command
    markup := c.markup.getD s.markup
    outputDir := c.output.getD s.outputDir
    permit := c.permit.getD s.permit
    lineNumbers := c.lineNumbers.getD s.lineNumbers
    workers := c.workers.getD s.workers
    address := c.address.getD s.address }).map fun s =>
    { s with logLevel := (levelName? c).getD s.logLevel }

/-- Refuses settings with a fault, and a markup that is needed and not known. -/
def checked (s : Settings) : Except Refusal Settings :=
  match s.fault? with
  | some f => .error (.invalid f)
  | none =>
    if (Weave.markup? s.markup).isNone ∧ s.skipWeave = false then .error (.unknownMarkup s.markup)
    else .ok s

/-- The settings of the environment, under those of the file that flags name, under the flags. -/
def settings (env : Settings.Environment) (tree : FileTree) (c : Choices) :
    Except Refusal Settings :=
  let s := Settings.ofEnvironment env
  let withFile := if c.config = [] then .ok s else s.withFile tree c.config
  match withFile with
  | .error f => .error (.config f)
  | .ok s =>
    match applyChoices c s with
    | .error r => .error r
    | .ok s => checked s

/-- What the program is to do. -/
inductive Task where
  | tell (text : Text)
  | build (settings : Settings) (paths : List Text)
  | serve (settings : Settings) (root : Text)
deriving DecidableEq, Repr

/-- The task of a command line whose settings are known. -/
def task (r : Request) (s : Settings) : Task :=
  match r.verb with
  | .build => if r.operands = [] then .tell (CommandLine.help .build) else .build s r.operands
  | .tangle => .build { s with skipWeave := true } r.operands
  | .weave => .build { s with skipTangle := true } r.operands
  | .serve => .serve s (r.operands.head?.getD ".")
  | .help => .tell (CommandLine.help (CommandLine.verbOf r.operands).1)
  | .completion => .tell (CommandLine.help .completion)

/-- Finds out what is to be done. Flags are looked at before operands and these before settings;
a request for help or for the version passes over all that is no flag. -/
def plan (inv : Invocation) (tree : FileTree) : Except Refusal Task :=
  match CommandLine.parse inv.arguments with
  | .error f => .error (.misuse f)
  | .ok r =>
    if r.choices.help ∨ r.verb = .completion then .ok (.tell (CommandLine.help r.verb))
    else if r.choices.version then
      .ok (.tell (CommandLine.program ++ " version " ++ inv.version ++ "\n"))
    else match r.operandFault? with
      | some f => .error (.misuse f)
      | none => (settings inv.environment tree r.choices).map (task r)

/-- The webs at a path: itself, or those directly in it if it is a directory. -/
def websAt (tree : FileTree) (path : Text) : Except Refusal (List Text) :=
  match tree.stat path with
  | .error e => .error (.failed (.file "open web" e))
  | .ok (.file _) => .ok [path]
  | .ok .directory =>
    match tree.readDirectory path with
    | .error e => .error (.failed (.file "read directory" e))
    | .ok entries =>
      let webs := entries.filterMap fun (name, node) =>
        if node ≠ .directory ∧ Path.isWeb name then some (Path.join path name) else none
      if webs = [] then .error (.noWebs path) else .ok webs

/-- The webs at several paths, in the order of the paths. -/
def webs (tree : FileTree) : List Text → Except Refusal (List Text)
  | [] => .ok []
  | path :: rest =>
    match websAt tree path with
    | .error r => .error r
    | .ok found => (webs tree rest).map (found ++ ·)

/-- What the program leaves behind. -/
structure Result where
  output : Text := []
  console : Log.Console.Options := {}
  log : List Log.Record := []
  refusal : Option Refusal := none
  tree : FileTree
deriving Repr

def consoleOf (s : Settings) : Log.Console.Options :=
  { level := s.level.toOption.getD Log.info, json := s.logJson }

def siteOf (inv : Invocation) (tree : FileTree) (s : Settings) : Build.Site :=
  { settings := s, version := inv.version, now := inv.now, directory := tree.absolute "." }

/-- The jobs for webs, one each. -/
def jobsFor (inv : Invocation) (paths : List Text) : List Job :=
  let ids := Job.Id.series (paths.map fun _ => inv.moment) {}
  (ids.zip paths).map fun (id, path) => { id, path }

def totals (jobs : List Job) (t : Log.Tally) : Text :=
  Text.ofNat jobs.length ++ " webs: " ++ Text.ofNat t.errors ++ " errors, " ++
    Text.ofNat t.warnings ++ " warnings"

/-- Builds webs, says what became of each and sums up what was reported. -/
def build (inv : Invocation) (s : Settings) (paths : List Text) (tree : FileTree) : Result :=
  let console := consoleOf s
  match webs tree paths with
  | .error r => { console, refusal := some r, tree }
  | .ok paths =>
    let pool := ({} : Job.Pool).start s.workers
    match Job.Pool.runAll (siteOf inv tree s) (jobsFor inv paths) pool tree [] with
    | (.error f, _, tree, log) => { console, log, refusal := some (.failed f), tree }
    | (.ok jobs, _, tree, log) =>
      let tally := Log.Tally.of log
      let complete := jobs.all fun j => j.status == .completed
      { console, log, tree
        output := Text.lines (jobs.map Job.summaryLine ++ [totals jobs tally, []])
        refusal := if complete ∧ tally.errors = 0 then none else some (.failed .reported) }

/-- The record of a service that begins to listen. -/
def listening (inv : Invocation) (s : Settings) (root : Text) : Log.Record :=
  ⟨Log.info, "starting litweb",
    [("addr", .text s.address), ("root", .text root), ("version", .text inv.version)]⟩

/-- Runs the program, up to where a service would answer requests. -/
def run (inv : Invocation) (tree : FileTree) : Result :=
  match plan inv tree with
  | .error r => { refusal := some r, tree }
  | .ok (.tell text) => { output := text, tree }
  | .ok (.build s paths) => build inv s paths tree
  | .ok (.serve s root) => { console := consoleOf s, log := [listening inv s root], tree }

end Literate.Program
