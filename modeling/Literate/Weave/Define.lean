import Literate.Weave.Markup
import Literate.Template
import Literate.Text.Quoted

/-! Markups that are defined by layouts given as text. -/

namespace Literate.Weave

structure Bundle where
  name : Text
  extension : Text
  quote : Text → Text
  /-- The delimiters of actions. -/
  delimiters : Text × Text
  layouts : List (Text × Text)

/-- The layouts that a markup has to have. -/
def layoutNames : List Text :=
  ["begin_code", "end_code", "begin_file", "end_file", "code", "ref", "ref_code", "file_xref",
    "macro_xref", "userid_xref"]

inductive DefineError where
  | malformed
  | missing (markup layout : Text)
deriving DecidableEq, Repr

def DefineError.message : DefineError → Text
  | .malformed => "malformed template"
  | .missing markup layout => "markup " ++ markup ++ ": missing template " ++ Text.quoted layout

open Template in
def Ref.value (r : Ref) : Value := .record [("Name", .text r.name), ("Seq", .number r.seq)]

open Template in
def ChunkData.value (d : ChunkData) : Value :=
  .record [("Name", .text d.name), ("FullName", .text d.fullName), ("Seq", .number d.seq),
    ("Style", .text d.style), ("Location", .location d.location),
    ("UsedBy", .list (d.usedBy.map Ref.value))]

open Template in
def CodeData.value (d : CodeData) : Value :=
  .record [("Text", .text d.text), ("Style", .text d.style)]

open Template in
def TextData.value (d : TextData) : Value :=
  .record [("Text", .text d.text), ("Location", .location d.location)]

open Template in
def indexValue (entries : List IndexEntry) : Value :=
  .record [("Entries", .list (entries.map fun e =>
    .record [("Name", .text e.name), ("Refs", .list (e.refs.map Ref.value))]))]

/-- Two braces on each side, where a bundle does not say otherwise. -/
def Bundle.delimiterPair (b : Bundle) : Text × Text :=
  let (left, right) := b.delimiters
  if left = [] then ([0x7B, 0x7B], [0x7D, 0x7D])
  else (left, if right = [] then [0x7D, 0x7D] else right)

/-- The layouts of a bundle, read in the order of their names; `none` if one is malformed. -/
def readLayouts (b : Bundle) : Option Template.Layouts :=
  let sorted := b.layouts.mergeSort fun x y => Text.le x.1 y.1
  sorted.foldlM (fun all (name, t) =>
    (Template.parse? b.delimiterPair.1 b.delimiterPair.2 name t).map all.override) []

/-- The markup that a bundle describes. -/
def define (b : Bundle) : Except DefineError Markup :=
  match readLayouts b with
  | none => .error .malformed
  | some layouts =>
    match layoutNames.find? fun name => (layouts.lookup name).isNone with
    | some name => .error (.missing b.name name)
    | none =>
      let render (name : Text) (v : Template.Value) : Rendered :=
        match Template.fillNamed layouts b.quote Template.depthLimit name v with
        | some t => .ok t
        | none => .error .mk
      .ok {
        name := b.name
        extension := b.extension
        quote := b.quote
        beginCode := fun d => render "begin_code" d.value
        endCode := fun d => render "end_code" d.value
        beginFile := fun d => render "begin_file" d.value
        endFile := fun d => render "end_file" d.value
        code := fun d => render "code" d.value
        ref := fun r => render "ref" r.value
        refCode := fun r => render "ref_code" r.value
        fileIndex := fun es => render "file_xref" (indexValue es)
        macroIndex := fun es => render "macro_xref" (indexValue es)
        identifierIndex := fun es => render "userid_xref" (indexValue es)
        text := (layouts.lookup (Text.ofString "text")).map fun _ => fun d => render "text" d.value
        finish := id }

/-- The names of markups when one more is known. -/
def namesWith (extra : Text) (names : List Text) : List Text :=
  Text.sort (if extra ∈ names then names else names ++ [extra])

end Literate.Weave
