import Literate.Tangle.Emit
import Literate.Web.References

/-! Tangling in place. The passes share one web: a pass that meets a reference changes the chunks
that are cited, and what it reads of the web it reads as it stands by then. -/

namespace Literate.Tangle.InPlace

/-- A web that is worked with, and the reference names that were met, as written. -/
structure Ledger where
  web : Web
  names : List Text := []
deriving DecidableEq, Repr

/-- The names that were met, in ascending order. -/
def Ledger.sortedNames (g : Ledger) : List Text := Text.sort g.names

structure Pass extends Ledger where
  writer : Writer := {}
deriving DecidableEq, Repr

abbrev Result := Except Fault Unit × Pass

/-- Records in the definitions of a name that a chunk cites them. -/
def Pass.cite (name : Text) (defs : List Nat) (citing : Nat) (x : Pass) : Pass :=
  { x with
    names := if name ∈ x.names then x.names else x.names ++ [name]
    web := defs.foldl (fun w d => w.addReferrer ⟨d, some citing⟩) x.web }

def Pass.indentFor (first : Nat) (x : Pass) : Pass :=
  { x with
    writer := x.writer.setIndent
      (if (x.web.chunk first).indent = .off then 0 else x.writer.column) }

def runCommand (mark : Option Mark) (expand : Text → Location → Pass → Result) (c : Command)
    (x : Pass) : Result :=
  match c.body with
  | .code text => (.ok (), { x with writer := (x.writer.putMark mark c.location).put text })
  | .text text => (.error ⟨.textBlock text, c.location⟩, x)
  | .crossReference _ => (.error ⟨.crossReference, c.location⟩, x)
  | .reference name => expand name c.location x

def runDefinition (mark : Option Mark) (expand : (citing : Nat) → Text → Location → Pass → Result)
    (d : Nat) (x : Pass) : Result :=
  let c := x.web.chunk d
  if c.kind ≠ .named then (.error ⟨.textBlock c.text, c.location⟩, x)
  else sequence (runCommand mark (expand d)) c.commands x

/-- Expands a reference in the chunk `citing`, within the full names of `stack`. -/
def expandReference (file : Text) (mark : Option Mark) :
    Nat → (stack : List Text) → (citing : Nat) → Text → Location → Pass → Result
  | 0, stack, _, name, location, x =>
    match target x.web file stack name location with
    | .error f => (.error f, x)
    | .ok (full, _, _) => (.error ⟨.cycle ([file] ++ stack ++ [full]), location⟩, x)
  | depth + 1, stack, citing, name, location, x =>
    match target x.web file stack name location with
    | .error f => (.error f, x)
    | .ok (full, first, more) =>
      let x := (x.cite name (first :: more) citing).indentFor first
      let expand := expandReference file mark depth (stack ++ [full])
      let (result, x) := sequence (runDefinition mark expand) (first :: more) x
      (result, { x with writer := x.writer.clearIndent })

/-- The code of a chunk, or the fault that prevents it. -/
def render (marked : Bool) (i : Nat) (g : Ledger) : Except Fault Text × Ledger :=
  let c := g.web.chunk i
  let mark := if marked then some ⟨c.commentStart, c.commentEnd⟩ else none
  let expand := expandReference c.name mark g.web.definitions.length [] i
  match sequence (runCommand mark expand) c.commands { g with } with
  | (.ok (), x) => (.ok x.writer.out, x.toLedger)
  | (.error f, x) => (.error f, x.toLedger)

/-- Writes one output chunk. -/
def file (o : EmitOptions) (e : Emission Ledger) (i : Nat) : Emission Ledger :=
  let c := e.memory.web.chunk i
  if o.confined && !Path.isLocal c.path then
    let f := Failure.outside c.name
    e.fail f "tangle refused" c.name f.message
  else
    match render o.marked i e.memory with
    | (.error f, memory) => { e with memory }.fail (.fault f) "tangle failed" c.name f.message
    | (.ok code, memory) => { e with memory }.put c.name (Path.join o.dir c.path) code

/-- Writes all output files. References are counted from nothing. -/
def emit (o : EmitOptions) (g : Ledger) (tree : FileTree) : Emission Ledger :=
  let web := g.web.resetReferences
  let e := web.files.foldl (file o) { tree, memory := { web } }
  let w := e.memory.web
  { e with log := e.log ++ sayUses w w.noReference w.multiReference w.references }

end Literate.Tangle.InPlace
