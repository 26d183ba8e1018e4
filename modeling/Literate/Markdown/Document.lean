import Literate.Markdown.Block

/-! The block structure of a Markdown source. Each line is followed along the open blocks, from the
outermost on; where one does not go on, the rest of the line may begin others. -/

namespace Literate.Markdown

namespace Parse

/-- A line that begins no block: it goes on with the open paragraph, even if containers around it
do not, or closes what does not go on. -/
def lazyLine (p : Parse) (keep : Nat) (c : Cursor) : Parse :=
  match p.paragraph? with
  | some (lines, gap) =>
    if c.blank then p.closeTo keep else p.openLeaf (.paragraph (lines ++ [c.textLine])) gap
  | none => p.closeTo keep

/-- A line of text: it goes on with the open paragraph or begins one. -/
def textLine (p : Parse) (keep : Nat) (gap : Bool) (c : Cursor) : Parse :=
  if p.paragraph?.isSome || c.blank then p.lazyLine keep c
  else (p.closeTo keep).openLeaf (.paragraph [c.textLine]) gap

/-- An item, and a list around it unless it belongs to the one that is open. -/
def openItem (p : Parse) (s : ItemStart) (gap : Bool) : Parse :=
  let p := match p.frames with
    | ⟨.list _, _, _⟩ :: _ => p
    | _ => p.openFrame (.list s.marker) gap
  { p.openFrame (.item s.offset) gap with emptyItem := false }

/-- What an underline makes of the open paragraph: a heading, or nothing if definitions are all
that it holds. -/
inductive Underlined where
  | heading (p : Parse)
  | definitionsOnly (p : Parse)

def underlined (p : Parse) (level : Nat) (lines : List TextLine) (gap : Bool) : Underlined :=
  match splitDefinitions (trimLast lines) with
  | (defs, []) =>
    let p := { p with leaf := none, definitions := p.definitions ++ defs }
    .definitionsOnly (p.add ⟨gap, false, .textBlock []⟩)
  | (defs, lines) =>
    let p := { p with definitions := p.definitions ++ defs }
    .heading (p.openLeaf (.single (.heading level lines)) gap)

def headingLines (c : Cursor) (text : Text) : List TextLine :=
  if text = [] then [] else [⟨(c.passed.headD 10), text⟩]

/-- Begins the blocks that a line begins, from a place in it on. The outermost containers, as many
as `keep`, go on; the others are closed when a block begins and kept when the line is text of the
open paragraph. -/
def begin (gap : Bool) : Nat → Nat → Cursor → Parse → Parse
  | 0, keep, c, p => p.lazyLine keep c
  | fuel + 1, keep, c, p =>
    let line := c.text
    let (columns, bytes) := c.indent
    let beside := p.paragraph?.filter fun _ => keep = p.frames.length
    let leaf (l : Leaf) : Parse := (p.closeTo keep).openLeaf l gap
    if c.atEnd || line.head? = some 10 then p.lazyLine keep c
    else if columns > 3 then
      match p.paragraph?, span? c.column 4 line with
      | none, some (count, beyond) =>
        if c.blank then p.lazyLine keep c
        else leaf (.indented [endedLine (c.pass count beyond).text])
      | _, _ => p.lazyLine keep c
    else match beside, underline? line with
      | some (lines, before), some level =>
        match p.underlined level lines before with
        | .heading p => p
        | .definitionsOnly p => begin gap fuel keep c p
      | _, _ =>
        if isRule c.column line then leaf (.single .rule)
        else match (itemStart? line).filter fun s => beside.isNone || s.interrupts with
          | some s =>
            let p := (p.closeTo keep).openItem s gap
            if s.blank then p else begin gap fuel p.frames.length (s.enter c) p
          | none =>
            -- An indent as wide as the rest is long hides what begins after it.
            let t := if columns < line.length then line.drop bytes else []
            match heading? t, fence? bytes t, quoteMark? c with
            | some (level, text), _, _ => leaf (.single (.heading level (headingLines c text)))
            | _, some fence, _ => leaf (.fenced fence [])
            | _, _, some c =>
              let p := (p.closeTo keep).openFrame .quote gap
              begin gap fuel p.frames.length c p
            | _, _, _ =>
              match if t = [] then none else htmlStart? p.paragraph?.isSome line with
              | some kind => leaf (.html kind 1 line)
              | none => p.textLine keep gap c

/-- How far a line goes on with the open containers. -/
inductive Reach where
  /-- Through all of them, up to a place. -/
  | through (c : Cursor)
  /-- Up to a container that does not go on. -/
  | stopped (level : Nat) (c : Cursor)
  /-- The source ends. -/
  | ended

/-- An open list goes on: with an item of its own, or inside the last item. `empty` tells that this
item has no content yet. -/
def listGoesOn (marker : Marker) (offset : Nat) (empty emptyItem : Bool) (c : Cursor) : Bool :=
  let line := c.text
  let columns := c.indent.1
  let inside := columns ≥ offset && !emptyItem
  if columns < offset || empty then
    match if columns < 4 then itemStart? line else none with
    | some s => marker.sameList s.marker && !isRule 0 (line.drop (s.width - 1))
    | none => empty && inside
  else inside

/-- The place in an open item from which a line goes on, if it does. -/
def itemGoesOn? (offset : Nat) (empty emptyItem : Bool) (c : Cursor) : Option Cursor :=
  let line := c.text
  let columns := c.indent.1
  if c.blank then some (c.advance (line.takeWhile (· != 10)).length)
  else if (empty && emptyItem || columns < offset) && columns < 4 &&
      ((itemStart? line).isSome || !(empty && emptyItem)) then none
  else match span? c.column offset line with
    | some (bytes, beyond) => some (c.pass bytes beyond)
    | none => some c

/-- Follows the open containers along a line, from the outermost on. Notes for each block that is
reached whether the line is blank in it, and whether a blank line follows an empty item. -/
def follow (p : Parse) : Nat → List Frame → Cursor → Parse × Reach
  | _, [], c => (p, .through c)
  | level, f :: inner, c =>
    if c.atEnd then (p, .ended)
    else
      let p := { p with blanks := p.blanks ++ [c.blank] }
      let empty (item : Frame) (inner : List Frame) : Bool :=
        item.children.isEmpty && inner.isEmpty && p.leaf.isNone
      match f.kind, inner with
      | .list marker, item :: deeper =>
        let bare := empty item deeper
        let offset := match item.kind with
          | .item n => n
          | _ => 0
        if c.blank then follow { p with emptyItem := p.emptyItem || bare } (level + 1) inner c
        else if listGoesOn marker offset bare p.emptyItem c then follow p (level + 1) inner c
        else (p, .stopped level c)
      | .item offset, _ =>
        match itemGoesOn? offset (empty f inner) p.emptyItem c with
        | some c => follow p (level + 1) inner c
        | none => (p, .stopped level c)
      | .quote, _ =>
        match quoteMark? c with
        | some c => follow p (level + 1) inner c
        | none => (p, .stopped level c)
      | _, _ => follow p (level + 1) inner c

/-- A line for the open leaf, if there is one, and for the blocks that begin after it. -/
def atLeaf (p : Parse) (gap : Bool) (c : Cursor) : Parse :=
  let fresh (p : Parse) : Parse := begin gap (c.text.length + 2) p.frames.length c p
  match p.leaf with
  | none => fresh p
  | some o =>
    let p := { p with blanks := p.blanks ++ [c.blank] }
    match o.leaf.step c with
    | .goesOn leaf => p.openLeaf leaf o.gap
    | .ends leaf => (p.openLeaf leaf o.gap).closeLeaf
    | .apart => fresh p

/-- One line. -/
def line (p : Parse) (t : Text) : Parse :=
  let c : Cursor := { rest := t }
  let containers := p.frames.length - 1
  if containers = 0 ∧ p.leaf.isNone then
    if c.blank then p else { p with blanks := [] }.begin false (t.length + 2) 1 c
  else match follow { p with blanks := [] } 0 p.frames.reverse.tail c with
    | (q, .through c) => if c.atEnd then p else q.atLeaf (p.blankBefore containers) c
    | (q, .stopped level c) => q.begin (p.blankBefore level) (t.length + 2) (level + 1) c
    | (_, .ended) => p

end Parse

/-- The blocks of a source and the definitions of its links. -/
def blocks (t : Text) : List Block × Definitions :=
  let p := ((linesOf t).foldl Parse.line {}).closeTo 1
  match p.frames with
  | f :: _ => (f.children.map Placed.block, p.definitions)
  | [] => ([], p.definitions)

end Literate.Markdown
