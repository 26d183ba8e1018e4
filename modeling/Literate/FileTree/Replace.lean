import Literate.FileTree

/-! Replacing a file only when its content changes. The new content goes to a temporary file in
the same directory, which then takes the place of the old file, so that a failure at any step
leaves the old content where it was. -/

namespace Literate.FileTree

/-- The steps of a replacement at which the file system can refuse. -/
inductive Step where
  | read
  /-- Making the directory after `made` others were made. -/
  | makeDirectory (made : Nat)
  | createTemporary
  | write
  | close
  | chmod
  | rename
deriving DecidableEq, Repr

/-- A refusal from outside: the step that fails and the cause that it reports. -/
abbrev Refusal := Step → Option FileCause

def Refusal.none : Refusal := fun _ => .none

/-- The parent of a path as its words give it, its last slash included. -/
def parentWords (path : Text) : Text :=
  (Path.cutLast (path.reverse.dropWhile (· == Path.slash)).reverse).1

/-- The paths that have to exist for a directory path, the outermost first. -/
def directoryChain : Nat → Text → List Text
  | 0, path => [path]
  | n + 1, path =>
    let parent := parentWords path
    if parent = [] then [path] else directoryChain n parent ++ [path]

/-- Makes one directory of a chain unless it is there. -/
def makeOne (refusal : Refusal) (made : Nat) (t : FileTree) (path : Text) :
    Except FileError (FileTree × Nat) :=
  match t.find path with
  | .ok (_, .directory) => .ok (t, made)
  | .ok (_, .file _) => .error ⟨"mkdir", [path], .notDirectory⟩
  | .error _ =>
    match refusal (.makeDirectory made) with
    | some cause => .error ⟨"mkdir", [path], cause⟩
    | .none =>
      match t.resolve path with
      | .ok (.free place) => .ok (t.set place .directory, made + 1)
      | .ok (.found _ _) => .error ⟨"mkdir", [path], .exists⟩
      | .error cause => .error ⟨"mkdir", [path], cause⟩

/-- Makes the directories of a chain in turn and stops at the first that cannot be made. -/
def makeEach (refusal : Refusal) : List Text → Nat → FileTree → Except FileError Unit × FileTree
  | [], _, t => (.ok (), t)
  | path :: rest, made, t =>
    match makeOne refusal made t path with
    | .ok (t, made) => makeEach refusal rest made t
    | .error e => (.error e, t)

/-- Makes a directory and those above it. A path that is there already is only looked at. -/
def makeDirectories (refusal : Refusal) (path : Text) (t : FileTree) :
    Except FileError Unit × FileTree :=
  match t.find path with
  | .ok (_, .directory) => (.ok (), t)
  | .ok (_, .file _) => (.error ⟨"mkdir", [path], .notDirectory⟩, t)
  | .error _ => makeEach refusal (directoryChain path.length path) 0 t

/-- What stands for the random digits of a temporary name in reports. -/
def temporaryMark : Text := "N"

/-- The number of digits that a temporary name has when it is written out. -/
def temporaryDigits : Nat := 10

/-- The name of a temporary file for a file name. -/
def temporaryName (base digits : Text) : Text := "." ++ base ++ "." ++ digits ++ ".tmp"

/-- The temporary file that is written beside a path, as reports show it. -/
def temporaryPath (path : Text) : Text :=
  let dir := Path.directory path
  let dir := if dir.getLast? = some Path.slash then dir else dir ++ "/"
  dir ++ temporaryName (Path.base path) temporaryMark

/-- A free place in a directory for a temporary file: numbers are tried until a name is free. -/
def freePlace? (dir : List Text) (base : Text) (t : FileTree) : Option (List Text) :=
  let candidates := (List.range (t.entries.length + 1)).map fun n =>
    dir ++ [temporaryName base (Text.ofNat n)]
  candidates.find? fun place => (t.get? place).isNone

/-- Finds the place for a temporary file beside a path. -/
def temporaryPlace (path : Text) (t : FileTree) : Except FileError (List Text) :=
  let base := Path.base path
  let pattern := temporaryName base "*"
  let temporary := temporaryPath path
  let more := temporaryDigits - temporaryMark.length
  if Path.slash ∈ base then .error ⟨"createtemp", [pattern], .separatorInPattern⟩
  else if (temporaryName base temporaryMark).length + more > nameLimit then
    .error ⟨"open", [temporary], .nameTooLong⟩
  else if temporary.length + more > pathLimit then .error ⟨"open", [temporary], .nameTooLong⟩
  else match t.find (Path.directory path) with
    | .ok (dir, .directory) =>
      match freePlace? dir base t with
      | some place => .ok place
      | none => .error ⟨"createtemp", [pattern], .exists⟩
    | .ok (_, .file _) => .error ⟨"open", [temporary], .notDirectory⟩
    | .error cause => .error ⟨"open", [temporary], cause⟩

/-- Moves the file at a place to a path, over a file that is there but never over a directory. -/
def moveFile (place : List Text) (path : Text) (t : FileTree) : Except FileError FileTree :=
  let refuse (cause : FileCause) : Except FileError FileTree :=
    .error ⟨"rename", [temporaryPath path, path], cause⟩
  match t.get? place with
  | none => refuse .noEntry
  | some node =>
    match t.resolve path with
    | .ok (.found _ .directory) => refuse .exists
    | .ok (.found target (.file _)) => .ok ((t.erase place).set target node)
    | .ok (.free target) => .ok ((t.erase place).set target node)
    | .error cause => refuse cause

/-- Why a replacement failed: the step, and what the file system said. -/
structure ReplaceError where
  stage : Text
  error : FileError
deriving DecidableEq, Repr

def ReplaceError.message (e : ReplaceError) : Text := e.stage ++ ": " ++ e.error.message

/-- Fills a temporary file that has been made and moves it to its place, up to the first step that
is refused. -/
def fillAndMove (refusal : Refusal) (path bytes : Text) (place : List Text) (t : FileTree) :
    Except ReplaceError Bool × FileTree :=
  let temporary := temporaryPath path
  let fail (step : Text) (e : FileError) (t : FileTree) : Except ReplaceError Bool × FileTree :=
    (.error ⟨step ++ " " ++ path, e⟩, t)
  match refusal .write with
  | some cause => fail "write" ⟨"write", [temporary], cause⟩ t
  | .none =>
    let t := t.set place (.file bytes)
    match refusal .close, refusal .chmod, refusal .rename with
    | some cause, _, _ => fail "close" ⟨"close", [temporary], cause⟩ t
    | _, some cause, _ => fail "chmod" ⟨"chmod", [temporary], cause⟩ t
    | _, _, some cause => fail "rename" ⟨"rename", [temporary, path], cause⟩ t
    | _, _, _ =>
      match moveFile place path t with
      | .ok t => (.ok true, t)
      | .error e => fail "rename" e t

/-- Makes an empty temporary file for a replacement. In the end it is removed, whatever became of
the replacement; nothing is left of it to remove when it was moved. -/
def withTemporary (refusal : Refusal) (path bytes : Text) (place : List Text) (t : FileTree) :
    Except ReplaceError Bool × FileTree :=
  let (result, t) := fillAndMove refusal path bytes place (t.set place (.file []))
  (result, t.erase place)

/-- Makes the file at `path` hold exactly `bytes`, and tells whether it had to be written. -/
def replace (refusal : Refusal) (path bytes : Text) (t : FileTree) :
    Except ReplaceError Bool × FileTree :=
  let old : Except FileError Text := match refusal .read with
    | some cause => .error ⟨"open", [path], cause⟩
    | .none => t.readFile path
  let write : Except ReplaceError Bool × FileTree :=
    match makeDirectories refusal (Path.directory path) t with
    | (.error e, t) => (.error ⟨"create dir", e⟩, t)
    | (.ok (), t) =>
      match refusal .createTemporary with
      | some cause => (.error ⟨"create temp", ⟨"open", [temporaryPath path], cause⟩⟩, t)
      | .none =>
        match temporaryPlace path t with
        | .error e => (.error ⟨"create temp", e⟩, t)
        | .ok place => withTemporary refusal path bytes place t
  match old with
  | .ok held => if held = bytes then (.ok false, t) else write
  | .error e => if e.cause = .noEntry then write else (.error ⟨"read " ++ path, e⟩, t)

/-- Replaces a file with a file system that refuses nothing by itself. -/
def writeIfChanged (path bytes : Text) (t : FileTree) : Except ReplaceError Bool × FileTree :=
  replace Refusal.none path bytes t

end Literate.FileTree
