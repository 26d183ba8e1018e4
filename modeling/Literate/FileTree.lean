import Literate.Path

/-! A file system as a value: which absolute paths hold files or directories, and the directory
that relative paths start from. There are no links, so a path of components names one place. -/

namespace Literate

inductive FileNode where
  | directory
  | file (bytes : Text)
deriving DecidableEq, Repr

/-- Why the file system refuses an operation. -/
inductive FileCause where
  | noEntry
  | notDirectory
  | isDirectory
  | nameTooLong
  | invalidArgument
  | exists
  | separatorInPattern
deriving DecidableEq, Repr

def FileCause.message : FileCause → Text
  | .noEntry => "no such file or directory"
  | .notDirectory => "not a directory"
  | .isDirectory => "is a directory"
  | .nameTooLong => "file name too long"
  | .invalidArgument => "invalid argument"
  | .exists => "file exists"
  | .separatorInPattern => "pattern contains path separator"

/-- A refused operation, with the paths it was given. -/
structure FileError where
  operation : Text
  paths : List Text
  cause : FileCause
deriving DecidableEq, Repr

def FileError.message (e : FileError) : Text :=
  e.operation ++ " " ++ Text.join " " e.paths ++ ": " ++ e.cause.message

/-- Absolute paths are lists of components; the root is always a directory. -/
structure FileTree where
  entries : List (List Text × FileNode)
  current : List Text
deriving Repr

namespace FileTree

def get? (t : FileTree) (place : List Text) : Option FileNode :=
  if place = [] then some .directory else t.entries.lookup place

def set (t : FileTree) (place : List Text) (node : FileNode) : FileTree :=
  { t with entries := t.entries.filter (fun e => e.1 != place) ++ [(place, node)] }

def erase (t : FileTree) (place : List Text) : FileTree :=
  { t with entries := t.entries.filter (fun e => e.1 != place) }

/-- Where a walk along a path ends: at an entry, or at a free name in a directory. -/
inductive Place where
  | found (place : List Text) (node : FileNode)
  | free (place : List Text)
deriving DecidableEq, Repr

def nameLimit : Nat := 255

def pathLimit : Nat := 4095

/-- Follows components from an entry. An empty component and `.` ask only that the entry is a
directory; the last component may be missing, and so may a slash that follows it. -/
def walk (t : FileTree) : Place → List Text → Except FileCause Place
  | here, [] => .ok here
  | .free place, part :: rest =>
    if part = [] ∧ rest.all (· == []) then .ok (.free place) else .error .noEntry
  | .found _ (.file _), _ :: _ => .error .notDirectory
  | .found place .directory, part :: rest =>
    if part = [] ∨ part = ("." : Text) then walk t (.found place .directory) rest
    else if part = (".." : Text) then walk t (.found place.dropLast .directory) rest
    else if part.length > nameLimit then .error .nameTooLong
    else match t.get? (place ++ [part]) with
      | some node => walk t (.found (place ++ [part]) node) rest
      | none => walk t (.free (place ++ [part])) rest

/-- Finds the place that a path names. -/
def resolve (t : FileTree) (path : Text) : Except FileCause Place :=
  if 0 ∈ path then .error .invalidArgument
  else if path = [] then .error .noEntry
  else if path.length > pathLimit then .error .nameTooLong
  else
    let start := if Path.isAbsolute path then [] else t.current
    t.walk (.found start .directory) (Text.split Path.slash path)

/-- The entry that a path names. -/
def find (t : FileTree) (path : Text) : Except FileCause (List Text × FileNode) :=
  match t.resolve path with
  | .ok (.found place node) => .ok (place, node)
  | .ok (.free _) => .error .noEntry
  | .error cause => .error cause

/-- Opens a file or a directory for reading. -/
def openEntry (t : FileTree) (path : Text) : Except FileError FileNode :=
  match t.find path with
  | .ok (_, node) => .ok node
  | .error cause => .error ⟨"open", [path], cause⟩

/-- The bytes of an opened entry. -/
def contents (path : Text) : FileNode → Except FileError Text
  | .file bytes => .ok bytes
  | .directory => .error ⟨"read", [path], .isDirectory⟩

def readFile (t : FileTree) (path : Text) : Except FileError Text :=
  match t.openEntry path with
  | .ok node => contents path node
  | .error e => .error e

def stat (t : FileTree) (path : Text) : Except FileError FileNode :=
  match t.find path with
  | .ok (_, node) => .ok node
  | .error cause => .error ⟨"stat", [path], cause⟩

/-- The entries directly in a directory, by ascending name. -/
def children (t : FileTree) (place : List Text) : List (Text × FileNode) :=
  let below := t.entries.filterMap fun (path, node) =>
    match path.getLast? with
    | some name => if path.dropLast = place then some (name, node) else none
    | none => none
  below.mergeSort fun a b => Text.le a.1 b.1

def readDirectory (t : FileTree) (path : Text) : Except FileError (List (Text × FileNode)) :=
  match t.find path with
  | .ok (place, .directory) => .ok (t.children place)
  | .ok (_, .file _) => .error ⟨"open", [path], .notDirectory⟩
  | .error cause => .error ⟨"open", [path], cause⟩

/-- The absolute form of a path, by its words alone. -/
def absolute (t : FileTree) (path : Text) : Text :=
  if Path.isAbsolute path then Path.clean path
  else Path.join ("/" ++ Text.join "/" t.current) path

/-- Puts a file at a place and makes the directories above it. -/
def plant (t : FileTree) (place : List Text) (node : FileNode) : FileTree :=
  let above := (List.range place.length).filterMap fun n =>
    if n = 0 then none else some (place.take n)
  let t := above.foldl (fun t p => if (t.get? p).isSome then t else t.set p .directory) t
  t.set place node

/-- Takes away a place and all that is below it. -/
def prune (t : FileTree) (place : List Text) : FileTree :=
  { t with entries := t.entries.filter fun e => !place.isPrefixOf e.1 }

end FileTree

end Literate
