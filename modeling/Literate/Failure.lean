import Literate.Fault
import Literate.FileTree.Replace
import Literate.Reader

/-! Failures of whole operations: what was being done and what went wrong. -/

namespace Literate

inductive Failure where
  | fault (fault : Fault)
  /-- An output path that leaves the directory it is confined to. -/
  | outside (name : Text)
  /-- A file that could not be written in the course of an activity. -/
  | unwritten (activity : Text) (error : FileTree.ReplaceError)
  | unloaded (error : Reader.LoadError)
  /-- A file that could not be used for a purpose. -/
  | file (purpose : Text) (error : FileError)
  | cancelled
  /-- The failure has been logged already. -/
  | reported
  | plain (message : Text)
deriving DecidableEq, Repr

namespace Failure

/-- The kinds that callers tell apart. -/
inductive Kind where
  | ambiguous
  | noFullName
  | undefined
  | tangle
  | cycle
  | outside
  | notExist
  | cancelled
  | reported
deriving DecidableEq, Repr

def outsideMessage : Text := "output path leaves the output directory"

def message : Failure → Text
  | .fault f => f.message
  | .outside name => "tangle " ++ name ++ ": " ++ outsideMessage
  | .unwritten activity e => activity ++ ": " ++ e.message
  | .unloaded e => e.message
  | .file purpose e => purpose ++ ": " ++ e.message
  | .cancelled => "context canceled"
  | .reported => "errors reported"
  | .plain message => message

def kindOfCause : Fault.Cause → Kind
  | .ambiguous _ _ => .ambiguous
  | .noFullName _ => .noFullName
  | .undefined _ => .undefined
  | .textBlock _ => .tangle
  | .crossReference => .tangle
  | .cycle _ => .cycle

def kindOfFile (e : FileError) : Option Kind := if e.cause = .noEntry then some .notExist else none

def kind? : Failure → Option Kind
  | .fault f => some (kindOfCause f.cause)
  | .outside _ => some .outside
  | .unwritten _ e => kindOfFile e.error
  | .unloaded (.unopened e) => kindOfFile e
  | .unloaded (.unread _ _) => none
  | .file _ e => kindOfFile e
  | .cancelled => some .cancelled
  | .reported => some .reported
  | .plain _ => none

def allKinds : List Kind :=
  [.ambiguous, .noFullName, .undefined, .tangle, .cycle, .outside, .notExist, .cancelled, .reported]

/-- The kinds of several failures, each once, in a fixed order. -/
def kinds (fs : List Failure) : List Kind :=
  allKinds.filter fun k => fs.any fun f => f.kind? == some k

/-- Several failures reported as one. -/
def joined (fs : List Failure) : Text := Text.lines (fs.map message)

end Failure

end Literate
