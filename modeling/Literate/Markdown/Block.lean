import Literate.Markdown.Start
import Literate.Markdown.Reference

/-! The blocks of a Markdown source, and those that are still open while its lines are read. The
open blocks form a stack of containers with at most one leaf at its end. -/

namespace Literate.Markdown

inductive Block where
  | heading (level : Nat) (lines : List TextLine)
  | paragraph (lines : List TextLine)
  /-- A paragraph of a list item without blank lines around it. -/
  | textBlock (lines : List TextLine)
  | quote (children : List Block)
  /-- Bullets, or numbers from a first one on. -/
  | list (start : Option Nat) (items : List Block)
  | item (children : List Block)
  | code (info raw : Text)
  | html (raw : Text)
  | rule
deriving Repr

/-- A closed block. Blank lines may stand before it, and may part its children. -/
structure Placed where
  gap : Bool
  loose : Bool
  block : Block

inductive FrameKind where
  | document
  | quote
  | list (marker : Marker)
  /-- The content of an item starts at a column. -/
  | item (offset : Nat)
deriving DecidableEq, Repr

/-- An open container with its closed children. -/
structure Frame where
  kind : FrameKind
  gap : Bool
  children : List Placed := []

inductive Leaf where
  | paragraph (lines : List TextLine)
  | fenced (fence : Fence) (raw : Text)
  | indented (lines : List Text)
  | html (kind : HtmlKind) (count : Nat) (raw : Text)
  /-- A block that is one line long. -/
  | single (block : Block)

/-- An open leaf. -/
structure OpenLeaf where
  leaf : Leaf
  gap : Bool

structure Parse where
  /-- The open containers, the innermost first. -/
  frames : List Frame := [⟨.document, false, []⟩]
  leaf : Option OpenLeaf := none
  definitions : Definitions := []
  /-- A blank line has come after the marker of an item that has no content yet. -/
  emptyItem : Bool := false
  /-- For each open block, from the outermost on, whether the line before was blank in it. -/
  blanks : List Bool := []

/-- Blank lines stand before one of the blocks after the first. -/
def hasGap (blocks : List Placed) : Bool := blocks.tail.any Placed.gap

def tighten : Block → Block
  | .paragraph lines => .textBlock lines
  | b => b

def tightenItem : Block → Block
  | .item children => .item (children.map tighten)
  | b => b

/-- The block that a container closes to. A list is loose when blank lines part its items or the
children of one. -/
def Frame.close (f : Frame) : Placed :=
  let blocks := f.children.map Placed.block
  match f.kind with
  | .document | .quote => ⟨f.gap, false, .quote blocks⟩
  | .item _ => ⟨f.gap, hasGap f.children, .item blocks⟩
  | .list marker =>
    let loose := hasGap f.children || f.children.any Placed.loose
    ⟨f.gap, false, .list marker.start (if loose then blocks else blocks.map tightenItem)⟩

/-- Lines of which the last has no white space at its end. -/
def trimLast : List TextLine → List TextLine
  | [] => []
  | [line] => [{ line with text := trimRight line.text }]
  | line :: rest => line :: trimLast rest

/-- Code without the blank lines at its end. -/
def trimBlankEnd (lines : List Text) : List Text := (lines.reverse.dropWhile isBlank).reverse

/-- A line of code; the end of the source ends it too. -/
def endedLine (t : Text) : Text :=
  match t.getLast? with
  | some b => if b = 10 then t else t ++ [10]
  | none => t

/-- The block that a leaf closes to, and the definitions that it gives. If a paragraph holds nothing
else, a block without text keeps its place. -/
def Leaf.close : Leaf → Definitions × Block
  | .paragraph lines =>
    match splitDefinitions lines with
    | (defs, []) => (defs, .textBlock [])
    | (defs, lines) => (defs, .paragraph (trimLast lines))
  | .fenced fence raw => ([], .code fence.info raw)
  | .indented lines => ([], .code [] (trimBlankEnd lines).flatten)
  | .html _ _ raw => ([], .html raw)
  | .single block => ([], block)

/-- A blank line of indented code without its first four columns. A tab counts as four, and one
byte is always left. -/
def dropCodeIndent : Int → Text → Text
  | _, [] => []
  | width, [b] => List.replicate (-width).toNat 32 ++ [b]
  | width, b :: rest =>
    if width > 0 ∧ b = 32 then dropCodeIndent (width - 1) rest
    else if width > 0 ∧ b = 9 then dropCodeIndent (width - 4) rest
    else List.replicate (-width).toNat 32 ++ b :: rest

/-- What a line is to an open leaf. -/
inductive LeafStep where
  | goesOn (leaf : Leaf)
  /-- The line is the last of the leaf. -/
  | ends (leaf : Leaf)
  | apart

/-- A line inside fences: as much white space as the fence is indented by is not part of it. -/
def Fence.content (f : Fence) (c : Cursor) : Text :=
  match spanFrom c.column f.indent c.padding c.rest with
  | some (bytes, beyond) => List.replicate beyond 32 ++ c.rest.drop bytes
  | none =>
    let spaces := c.text.takeWhile fun b => b == 32 || b == 9
    let first := c.text.drop spaces.length
    if first = [] || first.head? = some 10 then c.rest else c.rest.drop spaces.length

def Leaf.step (leaf : Leaf) (c : Cursor) : LeafStep :=
  match leaf with
  | .paragraph _ => .apart
  | .single _ => .apart
  | .fenced fence raw =>
    if fence.closedBy c then .ends leaf
    else .goesOn (.fenced fence (raw ++ endedLine (fence.content c)))
  | .indented lines =>
    if c.blank then
      .goesOn (.indented (lines ++ [List.replicate (c.padding - 4) 32 ++
        dropCodeIndent (4 - c.padding : Nat) c.rest]))
    else match span? c.column 4 c.text with
      | some (bytes, beyond) => .goesOn (.indented (lines ++ [endedLine (c.pass bytes beyond).text]))
      | none => .apart
  | .html kind count raw =>
    if kind.endsAtBlank && c.blank then .apart
    else if count = 1 ∧ htmlEnds kind raw then .apart
    else
      let leaf := Leaf.html kind (count + 1) (raw ++ c.text)
      if htmlEnds kind c.text then .ends leaf else .goesOn leaf

namespace Parse

/-- Adds a closed block to the innermost container. -/
def add (p : Parse) (b : Placed) : Parse :=
  match p.frames with
  | [] => p
  | f :: rest => { p with frames := { f with children := f.children ++ [b] } :: rest }

def closeLeaf (p : Parse) : Parse :=
  match p.leaf with
  | none => p
  | some o =>
    let (defs, block) := o.leaf.close
    { p with leaf := none, definitions := p.definitions ++ defs }.add ⟨o.gap, false, block⟩

/-- Closes the innermost containers, as many as given. -/
def closeFrames : Nat → Parse → Parse
  | 0, p => p
  | n + 1, p =>
    match p.frames with
    | f :: rest => closeFrames n ({ p with frames := rest }.add f.close)
    | [] => p

/-- Closes all but the outermost containers, as many as given. -/
def closeTo (p : Parse) (keep : Nat) : Parse :=
  let p := p.closeLeaf
  closeFrames (p.frames.length - keep) p

def openFrame (p : Parse) (kind : FrameKind) (gap : Bool) : Parse :=
  { p with frames := ⟨kind, gap, []⟩ :: p.frames }

def openLeaf (p : Parse) (leaf : Leaf) (gap : Bool) : Parse := { p with leaf := some ⟨leaf, gap⟩ }

/-- The lines of the open paragraph, and whether a gap stands before it. -/
def paragraph? (p : Parse) : Option (List TextLine × Bool) :=
  match p.leaf with
  | some ⟨.paragraph lines, gap⟩ => some (lines, gap)
  | _ => none

/-- The line before was blank in an open block, or else in the innermost that was open then. -/
def blankBefore (p : Parse) (level : Nat) : Bool :=
  (p.blanks.take (level + 1)).getLast?.getD false

end Parse

end Literate.Markdown
