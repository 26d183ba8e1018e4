import Literate.Tangle
import Literate.Failure
import Literate.Log

/-! Writing the output files of a web. A file that fails is reported and left alone; the others
are written all the same. -/

namespace Literate.Tangle

structure EmitOptions where
  dir : Text
  /-- Marks code with source lines. -/
  marked : Bool := false
  /-- Refuses paths that leave the directory. -/
  confined : Bool := false
deriving DecidableEq, Repr

/-- The course of an emission, with what is remembered from one rendering to the next. -/
structure Emission (μ : Type := Memory) where
  tree : FileTree
  memory : μ
  written : List Text := []
  unchanged : List Text := []
  failures : List Failure := []
  log : List Log.Record := []
deriving Repr

namespace Emission

variable {μ : Type}

/-- Logs a record about a file. -/
def say (level : Log.Level) (message name : Text) (attributes : List Log.Attribute)
    (e : Emission μ) : Emission μ :=
  { e with log := e.log ++ [⟨level, message, ("file", .text name) :: attributes⟩] }

def fail (f : Failure) (message name cause : Text) (e : Emission μ) : Emission μ :=
  { e.say Log.error message name [("error", .text cause)] with failures := e.failures ++ [f] }

/-- Puts code at a path. -/
def put (name path code : Text) (e : Emission μ) : Emission μ :=
  match FileTree.writeIfChanged path code e.tree with
  | (.error err, tree) =>
    { e with tree }.fail (.unwritten ("tangle " ++ name) err) "write failed" name err.message
  | (.ok true, tree) =>
    { e with tree, written := e.written ++ [path] }.say Log.info "tangled" name
      [("path", .text path), ("bytes", .number code.length)]
  | (.ok false, tree) =>
    { e with tree, unchanged := e.unchanged ++ [path] }.say Log.debug "unchanged" name
      [("path", .text path)]

/-- Writes one output chunk. -/
def file (w : Web) (o : EmitOptions) (e : Emission) (i : Nat) : Emission :=
  let c := w.chunk i
  if o.confined && !Path.isLocal c.path then
    let f := Failure.outside c.name
    e.fail f "tangle refused" c.name f.message
  else
    match render w o.marked i e.memory with
    | (.error f, memory) => { e with memory }.fail (.fault f) "tangle failed" c.name f.message
    | (.ok code, memory) => { e with memory }.put c.name (Path.join o.dir c.path) code

end Emission

/-- What is said of the uses of chunks after all files. -/
def sayUses (w : Web) (unused often : List Nat) (count : Nat → Nat) : List Log.Record :=
  unused.map (fun i =>
    ⟨Log.warn, "chunk is never referenced",
      [("chunk", .text (w.displayName i)), ("location", .text (w.chunk i).location.text)]⟩) ++
  often.map (fun i =>
    ⟨Log.debug, "chunk is referenced more than once",
      [("chunk", .text (w.displayName i)), ("references", .number (count i))]⟩)

def usageLog (w : Web) (cs : Citations) : List Log.Record :=
  sayUses w (w.uncited cs) (w.citedOften cs) cs.count

/-- Writes all output files. Citations are counted from nothing. -/
def emit (w : Web) (o : EmitOptions) (tree : FileTree) : Emission :=
  let e := w.files.foldl (Emission.file w o) { tree, memory := {} }
  { e with log := e.log ++ usageLog w e.memory.citations }

end Literate.Tangle
