import Literate.Location

/-! Chunks: the named and unnamed pieces of prose and code that a web is made of. -/

namespace Literate

inductive CrossReference where
  | files
  | macros
  | identifiers
deriving DecidableEq, Repr

inductive Command.Body where
  | text (text : Text)
  | code (text : Text)
  /-- A reference by a name as written, which may be abbreviated. -/
  | reference (name : Text)
  | crossReference (kind : CrossReference)
deriving DecidableEq, Repr

/-- The smallest unit inside a chunk. -/
structure Command where
  body : Command.Body
  location : Location
deriving DecidableEq, Repr

namespace Command

/-- The text of a text or code run. -/
def run? (c : Command) : Option Text :=
  match c.body with
  | .text t => some t
  | .code t => some t
  | _ => none

def reference? (c : Command) : Option Text :=
  match c.body with
  | .reference name => some name
  | _ => none

end Command

/-- Prose, a definition of code, an output file, or a definition of prose. -/
inductive Chunk.Kind where
  | anonymous
  | named
  | output
  | document
deriving DecidableEq, Repr

/-- How a chunk is indented where it is referenced. -/
inductive Chunk.Indent where
  | default
  | on
  | off
deriving DecidableEq, Repr

structure Chunk where
  kind : Chunk.Kind
  name : Text
  options : List Text := []
  commands : List Command := []
  identifiers : List Text := []
  location : Location := .none
  indent : Chunk.Indent := .default
  commentStart : Text := []
  commentEnd : Text := []
  woven : Bool := true
  style : Text := []
deriving DecidableEq, Repr

namespace Chunk

instance : Inhabited Chunk := ⟨⟨.anonymous, [], [], [], [], .none, .default, [], [], true, []⟩⟩

/-- An empty chunk. -/
def ofKind (kind : Kind) (name : Text) : Chunk :=
  ⟨kind, name, [], [], [], .none, .default, [], [], true, []⟩

def Kind.word : Kind → Text
  | .anonymous => "anonymous"
  | .named => "named"
  | .output => "output"
  | .document => "named_document"

def Kind.isCode : Kind → Bool
  | .named => true
  | .output => true
  | _ => false

def isCode (c : Chunk) : Bool := c.kind.isCode

def Kind.isDefinition : Kind → Bool
  | .named => true
  | .document => true
  | _ => false

/-- Chunks that other chunks can refer to by name. -/
def isDefinition (c : Chunk) : Bool := c.kind.isDefinition

/-- The file that an output chunk is written to; nothing for the other kinds. -/
def path (c : Chunk) : Text := if c.kind = .output then c.name else []

/-- Adds a command. The first command gives the chunk its position. -/
def append (c : Chunk) (cmd : Command) : Chunk :=
  { c with
    location := if c.commands = [] then cmd.location else c.location
    commands := c.commands ++ [cmd] }

/-- A run of the kind that the chunk holds: code in code chunks, text in the others. -/
def runBody (c : Chunk) (text : Text) : Command.Body :=
  if c.isCode then .code text else .text text

/-- Extends the run that the commands end with, if it is of the right kind. -/
def extendRun? (code : Bool) (text : Text) (cmd : Command) : Option Command :=
  match cmd.body, code with
  | .code t, true => some { cmd with body := .code (t ++ text) }
  | .text t, false => some { cmd with body := .text (t ++ text) }
  | _, _ => none

/-- Adds text to the run at the end of the chunk, or begins a run. -/
def appendText (c : Chunk) (text : Text) (location : Location) : Chunk :=
  match c.commands.getLast? with
  | some last =>
    match extendRun? c.isCode text last with
    | some longer => { c with commands := c.commands.dropLast ++ [longer] }
    | none => c.append ⟨c.runBody text, location⟩
  | none => c.append ⟨c.runBody text, location⟩

/-- The text and code runs put together. -/
def text (c : Chunk) : Text := (c.commands.filterMap Command.run?).flatten

/-- The names that the chunk refers to, as written. -/
def referenceNames (c : Chunk) : List Text := c.commands.filterMap Command.reference?

end Chunk

def ellipsis : Text := "..."

/-- A name that stands for the names it begins. -/
def isAbbreviation (name : Text) : Bool := ellipsis.isSuffixOf name

end Literate
