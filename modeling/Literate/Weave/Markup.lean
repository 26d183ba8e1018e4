import Literate.Web

/-! Markups: what a document looks like. A markup has a quoting rule for code and a renderer for
each kind of block that a document is made of. -/

namespace Literate.Weave

/-- A chunk by its resolved name and its number. -/
structure Ref where
  name : Text
  seq : Nat
deriving DecidableEq, Repr

/-- What the frame of a chunk shows. -/
structure ChunkData where
  /-- The name as declared. -/
  name : Text
  /-- The full name, or the declared one of an output chunk. -/
  fullName : Text
  seq : Nat
  style : Text
  location : Location
  /-- The chunks whose code refers to this one. -/
  usedBy : List Ref
deriving DecidableEq, Repr

structure CodeData where
  /-- The code, quoted already. -/
  text : Text
  style : Text
deriving DecidableEq, Repr

structure TextData where
  text : Text
  location : Location
deriving DecidableEq, Repr

/-- One line of a cross reference. -/
structure IndexEntry where
  name : Text
  refs : List Ref
deriving DecidableEq, Repr

/-- A block may fail to render when its layout was given by a user. -/
inductive LayoutError where
  | mk
deriving DecidableEq, Repr

abbrev Rendered := Except LayoutError Text

structure Markup where
  name : Text
  /-- The extension of documents, with its dot. -/
  extension : Text
  quote : Text → Text
  beginCode : ChunkData → Rendered
  endCode : ChunkData → Rendered
  beginFile : ChunkData → Rendered
  endFile : ChunkData → Rendered
  code : CodeData → Rendered
  /-- A reference in prose. -/
  ref : Ref → Rendered
  /-- A reference in code. -/
  refCode : Ref → Rendered
  fileIndex : List IndexEntry → Rendered
  macroIndex : List IndexEntry → Rendered
  identifierIndex : List IndexEntry → Rendered
  /-- How prose is shown, if it is not shown as it is. -/
  text : Option (TextData → Rendered)
  /-- What becomes of the complete document. -/
  finish : Text → Text

end Literate.Weave
