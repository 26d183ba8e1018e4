import Literate.Weave.Markup
import Literate.Failure
import Literate.Log

/-! Weaving: the document of a web, fragment by fragment in the order of the document. A consumer
takes the fragments and may stop; nothing is generated after that or after an error. -/

namespace Literate.Weave

inductive Error where
  | fault (fault : Fault)
  | layout
deriving DecidableEq, Repr

/-- What a consumer is handed: a fragment of the document, and an error where the weave fails. -/
structure Yield where
  text : Text
  error : Option Error
deriving DecidableEq, Repr

namespace Yield

def ofText (text : Text) : Yield := ⟨text, none⟩

/-- An error comes with an empty fragment. -/
def ofError (e : Error) : Yield := ⟨[], some e⟩

def result (y : Yield) : Except Error Text :=
  match y.error with
  | some e => .error e
  | none => .ok y.text

end Yield

/-- Takes a fragment and tells whether more are wanted. -/
abbrev Consumer (σ : Type) := Yield → σ → σ × Bool

/-- The course of a weave: what the consumer has made of the fragments, the log, and whether the
weave goes on. -/
structure Course (σ : Type) where
  state : σ
  log : List Log.Record := []
  going : Bool := true

namespace Course

variable {σ : Type}

/-- Hands a fragment to the consumer. -/
def give (take : Consumer σ) (text : Text) (r : Course σ) : Course σ :=
  let (state, more) := take (.ofText text) r.state
  { r with state, going := more }

/-- Hands over an error, which ends the weave. -/
def abort (take : Consumer σ) (e : Error) (r : Course σ) : Course σ :=
  { r with state := (take (.ofError e) r.state).1, going := false }

def giveRendered (take : Consumer σ) (block : Rendered) (r : Course σ) : Course σ :=
  match block with
  | .ok text => r.give take text
  | .error _ => r.abort take .layout

/-- Does a step if the weave goes on. -/
def andThen (step : Course σ → Course σ) (r : Course σ) : Course σ :=
  if r.going then step r else r

/-- Does a step for each element while the weave goes on. -/
def forEach {α : Type} (step : α → Course σ → Course σ) (items : List α) (r : Course σ) :
    Course σ :=
  items.foldl (fun r a => r.andThen (step a)) r

end Course

section Blocks

variable {σ : Type}

def refOf (w : Web) (i : Nat) : Ref := ⟨w.displayName i, w.seq i⟩

def chunkData (w : Web) (i : Nat) : ChunkData :=
  let c := w.chunk i
  ⟨c.name, w.displayName i, w.seq i, c.style, c.location, (w.usedBy i).map (refOf w)⟩

/-- The entries of a cross reference. -/
def indexEntries (w : Web) : CrossReference → List IndexEntry
  | .files => w.files.map fun i => ⟨(w.chunk i).name, [⟨(w.chunk i).name, w.seq i⟩]⟩
  | .macros => w.macros.map fun (name, defs) => ⟨name, defs.map fun d => ⟨name, w.seq d⟩⟩
  | .identifiers => w.userIds.map fun (name, places) => ⟨name, places.map (refOf w)⟩

def indexBlock (m : Markup) : CrossReference → List IndexEntry → Rendered
  | .files => m.fileIndex
  | .macros => m.macroIndex
  | .identifiers => m.identifierIndex

def crossReference (m : Markup) (w : Web) (take : Consumer σ) (kind : CrossReference)
    (r : Course σ) : Course σ :=
  r.giveRendered take (indexBlock m kind (indexEntries w kind))

/-- Shows a reference, by its name as written and number zero if nothing is defined. -/
def reference (w : Web) (take : Consumer σ) (block : Ref → Rendered) (name : Text)
    (location : Location) (r : Course σ) : Course σ :=
  match w.lookup name with
  | .error f => r.abort take (.fault (f.locate location))
  | .ok [] =>
    let warned : Course σ := { r with log := r.log ++ [⟨Log.warn, "reference to an undefined chunk",
      [("chunk", .text name), ("location", .text location.text)]⟩] }
    warned.giveRendered take (block ⟨name, 0⟩)
  | .ok (first :: _) => r.giveRendered take (block ⟨w.fullName first, w.seq first⟩)

def proseRun (m : Markup) (take : Consumer σ) (text : Text) (location : Location)
    (r : Course σ) : Course σ :=
  match m.text with
  | some block => r.giveRendered take (block ⟨text, location⟩)
  | none => r.give take text

/-- A command in prose. A reference to a document definition is replaced by its text. -/
def prose (m : Markup) (w : Web) (take : Consumer σ) (c : Command) (r : Course σ) : Course σ :=
  match c.body with
  | .text text => proseRun m take text c.location r
  | .code text => proseRun m take text c.location r
  | .reference name =>
    match w.documentText name with
    | .error f => r.abort take (.fault (f.locate c.location))
    | .ok (some text) => r.give take text
    | .ok none => reference w take m.ref name c.location r
  | .crossReference kind => crossReference m w take kind r

/-- A command in the block of a code chunk. -/
def code (m : Markup) (w : Web) (take : Consumer σ) (style : Text) (c : Command)
    (r : Course σ) : Course σ :=
  match c.body with
  | .code text => r.giveRendered take (m.code ⟨m.quote text, style⟩)
  | .text text => r.give take text
  | .reference name => reference w take m.refCode name c.location r
  | .crossReference kind => crossReference m w take kind r

def block (m : Markup) (w : Web) (take : Consumer σ) (opening closing : ChunkData → Rendered)
    (i : Nat) (r : Course σ) : Course σ :=
  let data := chunkData w i
  let c := w.chunk i
  ((r.giveRendered take (opening data)).forEach (code m w take c.style) c.commands).andThen
    (Course.giveRendered take (closing data))

/-- A chunk. Document definitions appear only where they are referenced. -/
def chunk (m : Markup) (w : Web) (take : Consumer σ) (i : Nat) (r : Course σ) : Course σ :=
  let c := w.chunk i
  match c.kind with
  | .anonymous => r.forEach (prose m w take) c.commands
  | .named => block m w take m.beginCode m.endCode i r
  | .output => if c.woven then block m w take m.beginFile m.endFile i r else r
  | .document => r

end Blocks

/-- Hands the fragments of a web to a consumer. -/
def generate {σ : Type} (m : Markup) (w : Web) (take : Consumer σ) (start : σ) : Course σ :=
  Course.forEach (chunk m w take) (List.range w.size) { state := start }

/-- Collects fragments, at most `limit` of them if that is not zero. -/
def collector (limit : Nat) : Consumer (List (Except Error Text)) := fun y got =>
  (got ++ [y.result], limit == 0 || got.length + 1 < limit)

/-- The fragments of a web, up to an error or a limit, with the log. -/
def fragments (m : Markup) (w : Web) (limit : Nat) :
    List (Except Error Text) × List Log.Record :=
  let r := generate m w (collector limit) []
  (r.state, r.log)

/-- Puts fragments together up to an error. -/
def assembler : Consumer (Except Error Text) := fun y got =>
  match y.result, got with
  | .ok text, .ok doc => (.ok (doc ++ text), true)
  | .error e, .ok _ => (.error e, false)
  | _, .error e => (.error e, false)

/-- The finished document, with the log. -/
def render (m : Markup) (w : Web) : Except Error Text × List Log.Record :=
  let r := generate m w assembler (.ok [])
  (r.state.map m.finish, r.log)

/-- The document of a web: its stem with the extension of the markup, beside it or in `dir`. -/
def targetPath (m : Markup) (dir webPath : Text) : Text :=
  let dir := if dir = [] then Path.directory webPath else dir
  let base := Path.base webPath
  let stem := base.take (base.length - (Path.extension base).length)
  Path.join dir (stem ++ m.extension)

def Error.failure : Error → Failure
  | .fault f => .fault f
  | .layout => .plain "template failed"

/-- Writes the document. Nothing is written when it cannot be rendered. -/
def emit (m : Markup) (dir : Text) (w : Web) (tree : FileTree) :
    Except Failure Unit × FileTree × List Log.Record :=
  match render m w with
  | (.error e, log) => (.error e.failure, tree, log)
  | (.ok doc, log) =>
    let path := targetPath m dir w.path
    match FileTree.writeIfChanged path doc tree with
    | (.error e, tree) => (.error (.unwritten ("weave " ++ path) e), tree, log)
    | (.ok true, tree) =>
      (.ok (), tree, log ++ [⟨Log.info, "woven", [("path", .text path),
        ("markup", .text m.name), ("bytes", .number doc.length)]⟩])
    | (.ok false, tree) =>
      (.ok (), tree, log ++ [⟨Log.debug, "unchanged", [("path", .text path)]⟩])

end Literate.Weave
