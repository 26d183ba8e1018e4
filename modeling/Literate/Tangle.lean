import Literate.Web.Citations
import Literate.Tangle.Writer

/-! Expanding a chunk into code: each reference is replaced by the definitions of its name, with
the indentation of the place where it stands. What the expansion records of references stays
recorded when it fails. -/

namespace Literate.Tangle

/-- Comment brackets that source lines are marked with. -/
structure Mark where
  opening : Text
  closing : Text
deriving DecidableEq, Repr

/-- Writes the mark of a source line, if marks are wanted and a line begins here. -/
def Writer.putMark (mark : Option Mark) (location : Location) (w : Writer) : Writer :=
  match mark with
  | none => w
  | some m =>
    if m.opening = [] ∨ !w.fresh then w
    else
      let tail : Text := if m.closing = [] then [] else " " ++ m.closing
      w.put (m.opening ++ " Web: " ++ location.text ++ tail ++ [Text.newline])

/-- What expansion leaves behind: the code, the citations and the names that were used. -/
structure Pass where
  writer : Writer := {}
  citations : Citations := []
  names : List Text := []
deriving Repr

abbrev Result := Except Fault Unit × Pass

namespace Pass

/-- The indents of a pass are columns of lines that it wrote, so there is room for them. -/
def write (text : Text) (p : Pass) : Pass := { p with writer := p.writer.put text }

def writeMark (mark : Option Mark) (location : Location) (p : Pass) : Pass :=
  { p with writer := p.writer.putMark mark location }

/-- Records that a chunk cites definitions under a name. -/
def cite (name : Text) (defs : List Nat) (citing : Nat) (p : Pass) : Pass :=
  { p with
    names := if name ∈ p.names then p.names else p.names ++ [name]
    citations := p.citations ++ defs.map fun d => ⟨d, some citing⟩ }

def indentFor (first : Chunk) (p : Pass) : Pass :=
  { p with writer := p.writer.setIndent (if first.indent = .off then 0 else p.writer.column) }

def clearIndent (p : Pass) : Pass := { p with writer := p.writer.clearIndent }

end Pass

/-- Runs steps in turn up to the first that fails. -/
def sequence {α σ : Type} (run : α → σ → Except Fault Unit × σ) :
    List α → σ → Except Fault Unit × σ
  | [], p => (.ok (), p)
  | a :: rest, p =>
    match run a p with
    | (.ok (), p) => sequence run rest p
    | (.error f, p) => (.error f, p)

/-- Writes one command; references are left to `expand`. -/
def runCommand (mark : Option Mark) (expand : Text → Location → Pass → Result) (c : Command)
    (p : Pass) : Result :=
  match c.body with
  | .code text => (.ok (), (p.writeMark mark c.location).write text)
  | .text text => (.error ⟨.textBlock text, c.location⟩, p)
  | .crossReference _ => (.error ⟨.crossReference, c.location⟩, p)
  | .reference name => expand name c.location p

/-- Writes the commands of a definition, which has to be code. -/
def runDefinition (w : Web) (mark : Option Mark)
    (expand : (citing : Nat) → Text → Location → Pass → Result) (d : Nat) (p : Pass) : Result :=
  let c := w.chunk d
  if c.kind ≠ .named then (.error ⟨.textBlock c.text, c.location⟩, p)
  else sequence (runCommand mark (expand d)) c.commands p

/-- The definitions that a reference stands for, with their full name, unless it is at fault:
ambiguous, not completed, undefined, or an expansion of itself. -/
def target (w : Web) (file : Text) (stack : List Text) (name : Text) (location : Location) :
    Except Fault (Text × Nat × List Nat) :=
  match w.resolve name with
  | .error f => .error (f.locate location)
  | .ok full =>
    if isAbbreviation full then .error ⟨.noFullName name, location⟩
    else match w.definitions.get full with
      | [] => .error ⟨.undefined name, location⟩
      | first :: more =>
        if full ∈ stack then .error ⟨.cycle ([file] ++ stack ++ [full]), location⟩
        else .ok (full, first, more)

/-- Expands a reference in the chunk `citing`. `stack` holds the full names that are being
expanded; each level adds one, so `depth` need not exceed the number of full names. -/
def expandReference (w : Web) (file : Text) (mark : Option Mark) :
    Nat → (stack : List Text) → (citing : Nat) → Text → Location → Pass → Result
  | 0, stack, _, name, location, p =>
    match target w file stack name location with
    | .error f => (.error f, p)
    | .ok (full, _, _) => (.error ⟨.cycle ([file] ++ stack ++ [full]), location⟩, p)
  | depth + 1, stack, citing, name, location, p =>
    match target w file stack name location with
    | .error f => (.error f, p)
    | .ok (full, first, more) =>
      let p := (p.cite name (first :: more) citing).indentFor (w.chunk first)
      let expand := expandReference w file mark depth (stack ++ [full])
      let (result, p) := sequence (runDefinition w mark expand) (first :: more) p
      (result, p.clearIndent)

/-- Expands a chunk from an empty buffer. -/
def expandChunk (w : Web) (marked : Bool) (i : Nat) (p : Pass) : Result :=
  let c := w.chunk i
  let mark := if marked then some ⟨c.commentStart, c.commentEnd⟩ else none
  let expand := expandReference w c.name mark w.definitions.length [] i
  sequence (runCommand mark expand) c.commands { p with writer := {} }

/-- What is remembered from one expansion to the next. -/
structure Memory where
  citations : Citations := []
  /-- The reference names that were met, as written. -/
  names : List Text := []
deriving DecidableEq, Repr

/-- The names that were met, in ascending order. -/
def Memory.sortedNames (m : Memory) : List Text := Text.sort m.names

/-- The code of a chunk, or the fault that prevents it. -/
def render (w : Web) (marked : Bool) (i : Nat) (m : Memory) : Except Fault Text × Memory :=
  match expandChunk w marked i { citations := m.citations, names := m.names } with
  | (.ok (), p) => (.ok p.writer.out, ⟨p.citations, p.names⟩)
  | (.error f, p) => (.error f, ⟨p.citations, p.names⟩)

end Literate.Tangle
