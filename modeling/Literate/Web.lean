import Literate.Chunk
import Literate.Fault

/-! A web: the chunks of a document in order, with the numbers, names and uses that tie them
together. A chunk is known by its position in the web. -/

namespace Literate

/-- Positions of chunks by name, the names in the order of their first use. -/
abbrev Index := List (Text × List Nat)

namespace Index

def get (ix : Index) (name : Text) : List Nat := (ix.lookup name).getD []

/-- Adds a position under a name. -/
def add (ix : Index) (name : Text) (i : Nat) : Index :=
  match ix with
  | [] => [(name, [i])]
  | (key, places) :: rest =>
    if key = name then (key, places ++ [i]) :: rest else (key, places) :: add rest name i

/-- Adds a position unless it is there already. -/
def insert (ix : Index) (name : Text) (i : Nat) : Index :=
  if i ∈ ix.get name then ix else ix.add name i

def sorted (ix : Index) : Index := ix.mergeSort fun a b => Text.le a.1 b.1

end Index

/-- A chunk with its place among the others. -/
structure Web.Entry where
  chunk : Chunk
  /-- The number of a named or output chunk, counted from one; zero for the other kinds. -/
  seq : Nat
  /-- The first definition of its full name, or an output chunk. -/
  initial : Bool
  /-- The name that a definition is found by. -/
  fullName : Option Text
  /-- How often the chunk was cited, and the chunks that cite it, in the order of their first
  citation. -/
  references : Nat := 0
  referencedBy : List Nat := []
deriving DecidableEq, Repr

structure Web where
  path : Text
  entries : List Web.Entry
  /-- The unabbreviated names of definitions, in ascending order. -/
  names : List Text
  definitions : Index
  /-- The code chunks that refer to a full name. -/
  users : Index
  /-- The chunks that declare an identifier. -/
  identifiers : Index
deriving DecidableEq, Repr

namespace Web

/-- The names of which an abbreviation is the beginning. -/
def completions (names : List Text) (target : Text) : List Text :=
  names.filter (target.take (target.length - ellipsis.length)).isPrefixOf

/-- The full name that a name stands for. An abbreviation that nothing completes is returned as
it is. -/
def resolveIn (names : List Text) (target : Text) : Except Fault Text :=
  if !isAbbreviation target then .ok target
  else match completions names target with
    | [] => .ok target
    | [name] => .ok name
    | many => .error ⟨.ambiguous target many, .none⟩

/-- The names that abbreviations are completed to. -/
def definedNames (chunks : List Chunk) : List Text :=
  Text.sort (Text.distinct
    ((chunks.filter fun c => c.isDefinition && !isAbbreviation c.name).map Chunk.name))

/-- What is known of the chunks up to a point of the document. -/
structure Numbering where
  seq : Nat := 0
  entries : List Entry := []
  definitions : Index := []
  identifiers : Index := []

/-- The name that a definition is filed under: its own if that is ambiguous. -/
def filedName (names : List Text) (c : Chunk) : Text :=
  match resolveIn names c.name with
  | .ok full => full
  | .error _ => c.name

def Numbering.add (names : List Text) (n : Numbering) (c : Chunk) : Numbering :=
  let i := n.entries.length
  let seq := if c.isCode then n.seq + 1 else n.seq
  let identifiers := (Text.distinct c.identifiers).foldl (fun ix id => ix.add id i) n.identifiers
  let number := if c.isCode then seq else 0
  if c.isDefinition then
    let full := filedName names c
    { seq, identifiers
      entries := n.entries ++ [{ chunk := c, seq := number, fullName := some full
                                 initial := (n.definitions.get full).isEmpty }]
      definitions := n.definitions.add full i }
  else
    { seq, identifiers
      entries := n.entries ++ [{ chunk := c, seq := number, fullName := none
                                 initial := c.kind = .output }]
      definitions := n.definitions }

/-- Files a code chunk under each full name that it refers to. -/
def addUses (names : List Text) (ix : Index) (c : Chunk) (i : Nat) : Index :=
  if c.isCode then
    c.referenceNames.foldl (fun ix name =>
      match resolveIn names name with
      | .ok full => ix.insert full i
      | .error _ => ix) ix
  else ix

def usesOf (names : List Text) (chunks : List Chunk) : Index :=
  chunks.zipIdx.foldl (fun ix (c, i) => addUses names ix c i) []

/-- The web of a list of chunks. -/
def ofChunks (path : Text) (chunks : List Chunk) : Web :=
  let names := definedNames chunks
  let n := chunks.foldl (Numbering.add names) {}
  { path, names, entries := n.entries, definitions := n.definitions
    identifiers := n.identifiers, users := usesOf names chunks }

def size (w : Web) : Nat := w.entries.length

def resolve (w : Web) (target : Text) : Except Fault Text := resolveIn w.names target

/-- All definitions that a name stands for, in the order of the document. -/
def lookup (w : Web) (target : Text) : Except Fault (List Nat) :=
  match w.resolve target with
  | .ok full => .ok (w.definitions.get full)
  | .error f => .error f

def chunk (w : Web) (i : Nat) : Chunk := (w.entries[i]?.map Entry.chunk).getD default

def seq (w : Web) (i : Nat) : Nat := (w.entries[i]?.map Entry.seq).getD 0

def Entry.full (e : Entry) : Text := e.fullName.getD []

def fullName (w : Web) (i : Nat) : Text := (w.entries[i]?.map Entry.full).getD []

/-- The full name of a definition, and the name of a chunk that is none. -/
def Entry.display (e : Entry) : Text := if e.full = [] then e.chunk.name else e.full

def displayName (w : Web) (i : Nat) : Text := (w.entries[i]?.map Entry.display).getD []

/-- The positions of the chunks that satisfy a test. -/
def positions (w : Web) (p : Chunk → Bool) : List Nat :=
  (List.range w.size).filter fun i => p (w.chunk i)

/-- The output chunks in the order of the document. -/
def files (w : Web) : List Nat := w.positions fun c => c.kind == .output

/-- The code chunks that refer to a definition. -/
def usedBy (w : Web) (i : Nat) : List Nat :=
  match w.entries[i]?.bind Entry.fullName with
  | some full => w.users.get full
  | none => []

/-- The text that a name stands for in prose: that of a document definition. -/
def documentText (w : Web) (target : Text) : Except Fault (Option Text) :=
  match w.lookup target with
  | .error f => .error f
  | .ok defs =>
    match defs with
    | first :: _ =>
      if (w.chunk first).kind = .document then
        .ok (some ((defs.map fun i => (w.chunk i).text).flatten))
      else .ok none
    | [] => .ok none

/-- The named code chunks, one entry for each full name, in ascending order. -/
def macros (w : Web) : Index :=
  w.definitions.sorted.filter fun (_, defs) =>
    match defs with
    | first :: _ => (w.chunk first).kind == .named
    | [] => false

/-- The declared identifiers in ascending order. -/
def userIds (w : Web) : Index := w.identifiers.sorted

end Web

end Literate
