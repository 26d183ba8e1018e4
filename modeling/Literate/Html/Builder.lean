import Literate.Html.Token
import Literate.Html.Vocabulary

/-! The construction of a tree: the elements that are open, the formatting that is to be resumed,
and what is done to both when elements begin and end. -/

namespace Literate.Html

/-- Which rules the next token is under. -/
inductive Mode where
  | initial
  | beforeHtml
  | beforeHead
  | inHead
  | afterHead
  | inBody
  | rawText
  | inTable
  | inCaption
  | inColumnGroup
  | inTableBody
  | inRow
  | inCell
  | inSelect
  | inSelectInTable
  | inTemplate
  | afterBody
  | inFrameset
  | afterFrameset
  | afterAfterBody
  | afterAfterFrameset
  /-- All that follows is passed over. -/
  | ignoring
deriving DecidableEq, Repr

structure Builder where
  tree : Tree := {}
  /-- The open elements, the innermost first. -/
  open_ : List Nat := []
  /-- The active formatting, the oldest first; `none` marks where a search ends. -/
  active : List (Option Nat) := []
  mode : Mode := .initial
  /-- The mode after raw text. -/
  resumed : Mode := .inBody
  /-- The modes of the open templates, the innermost first. -/
  templates : List Mode := []
  framesetAllowed : Bool := true
  /-- The document is rendered as old browsers did. -/
  oldRules : Bool := false
  head : Option Nat := none
  form : Option Nat := none
  /-- What may not stand in a table is put before it. -/
  fostering : Bool := false
  /-- The content of the last tag is not raw, whatever its name. -/
  notRaw : Bool := false
  /-- Too many elements were open at once. -/
  overflown : Bool := false

namespace Builder

def openLimit : Nat := 512

def element (b : Builder) (i : Nat) : Element := b.tree.element i

/-- The innermost open element, or the document. -/
def top (b : Builder) : Nat := b.open_.head?.getD 0

def topElement (b : Builder) : Element := b.element b.top

def topName (b : Builder) : Text := b.topElement.name

def topIs (b : Builder) (names : List Text) : Bool := b.topName ∈ names

def pop (b : Builder) : Builder := { b with open_ := b.open_.drop 1 }

def push (i : Nat) (b : Builder) : Builder :=
  let open_ := i :: b.open_
  { b with open_, overflown := b.overflown || openLimit < open_.length }

def setMode (m : Mode) (b : Builder) : Builder := { b with mode := m }

def forbidFrameset (b : Builder) : Builder := { b with framesetAllowed := false }

/-- Takes an element out of the open ones, wherever it is. -/
def close (i : Nat) (b : Builder) : Builder := { b with open_ := b.open_.erase i }

/-- An element of HTML with the name is open. -/
def hasOpen (name : Text) (b : Builder) : Bool :=
  b.open_.any fun i => (b.element i).space == .html && (b.element i).name == name

def hasTemplate (b : Builder) : Bool := b.hasOpen "template"

/-! Scopes: how far a search among the open elements goes. -/

inductive Scope where
  | default
  | listItem
  | button
  | table
  | select
deriving DecidableEq, Repr

/-- The part that an element plays in a search. -/
inductive Role where
  | target
  | barrier
  | passed
deriving DecidableEq, Repr

def Scope.role (s : Scope) (names : List Text) (e : Element) : Role :=
  if e.space = .html ∧ e.name ∈ names then .target
  else
    let stops : Bool := match s with
      | .default => e.isBarrier
      | .listItem =>
        e.isBarrier || e.space == .html && e.name ∈ (["ol", "ul"] : List Text)
      | .button => e.isBarrier || e.space == .html && e.name == Text.ofString "button"
      | .table => e.space == .html && e.name ∈ (["html", "table", "template"] : List Text)
      | .select => e.space == .html && e.name ∉ (["optgroup", "option"] : List Text)
    if stops then .barrier else .passed

/-- The elements from the first target on, if no barrier comes before it. -/
def fromTarget? (role : Nat → Role) : List Nat → Option (List Nat)
  | [] => none
  | i :: outer =>
    match role i with
    | .target => some (i :: outer)
    | .barrier => none
    | .passed => fromTarget? role outer

def inScope? (s : Scope) (names : List Text) (b : Builder) : Option (List Nat) :=
  fromTarget? (fun i => s.role names (b.element i)) b.open_

def inScope (s : Scope) (names : List Text) (b : Builder) : Bool := (b.inScope? s names).isSome

/-- Closes the elements up to and including the first of the names in scope, if there is one. -/
def popUntil? (s : Scope) (names : List Text) (b : Builder) : Option Builder :=
  (b.inScope? s names).map fun rest => { b with open_ := rest.drop 1 }

def popUntil (s : Scope) (names : List Text) (b : Builder) : Builder :=
  (b.popUntil? s names).getD b

def closeParagraph (b : Builder) : Builder := b.popUntil .button ["p"]

/-- Closes the elements inside the innermost one of the names. -/
def clearTo (names : List Text) (b : Builder) : Builder :=
  match b.open_.dropWhile fun i => (b.element i).name ∉ names with
  | [] => b
  | rest => { b with open_ := rest }

def clearToTable (b : Builder) : Builder := b.clearTo ["html", "table", "template"]

def clearToTableBody (b : Builder) : Builder :=
  b.clearTo ["html", "tbody", "tfoot", "thead", "template"]

def clearToRow (b : Builder) : Builder := b.clearTo ["html", "tr", "template"]

/-- Closes the innermost elements whose end tags may be left out, up to one of the given name. -/
def closeImplied (but : Text) (b : Builder) : Builder :=
  { b with open_ := b.open_.dropWhile fun i =>
      (b.element i).name ∈ impliedEndNames && (b.element i).name != but }

/-! Insertion. -/

/-- The innermost open element of a name, with the elements around it. -/
def innermost? (name : Text) (b : Builder) : Option (Nat × List Nat) :=
  match b.open_.dropWhile fun i => (b.element i).name != name with
  | [] => none
  | i :: outer => some (i, outer)

def fosters (b : Builder) : Bool := b.fostering && b.topIs tableFrameNames

/-- Puts a node before the innermost table, or into a template that is open inside it. Texts side
by side become one. -/
def foster (i : Nat) (b : Builder) : Builder :=
  let table := b.innermost? "table"
  let into (parent : Nat) (before previous : Option Nat) : Builder :=
    match previous, (b.tree.node i).kind with
    | some p, .text t =>
      if b.tree.isText p then { b with tree := b.tree.extend p t }
      else { b with tree := b.tree.insertBefore parent i before }
    | _, _ => { b with tree := b.tree.insertBefore parent i before }
  match b.innermost? "template", table with
  | some (template, outer), some (_, around) =>
    if around.length < outer.length then { b with tree := b.tree.append template i }
    else fosterAt into table
  | some (template, _), none => { b with tree := b.tree.append template i }
  | none, _ => fosterAt into table
where
  /-- Before the table, or at the end of the outermost element. -/
  fosterAt (into : Nat → Option Nat → Option Nat → Builder) (table : Option (Nat × List Nat)) :
      Builder :=
    match table with
    | some (t, outer) =>
      let parent := ((b.tree.node t).parent.or outer.head?).getD 0
      into parent (some t) (b.tree.previous? t)
    | none =>
      let root := b.open_.getLast?.getD 0
      into root none (b.tree.lastChild? root)

/-- Puts a new node into the innermost open element. -/
def place (i : Nat) (b : Builder) : Builder :=
  if b.fosters then b.foster i else { b with tree := b.tree.append b.top i }

/-- Opens a new element in the innermost open one. -/
def insert (e : Element) (b : Builder) : Builder :=
  let (tree, i) := b.tree.create (.element e)
  ({ b with tree }.place i).push i

def insertTag (tag : Tag) (b : Builder) : Builder := b.insert ⟨tag.name, .html, tag.attributes⟩

/-- An element that has no content. -/
def insertVoid (tag : Tag) (b : Builder) : Builder := (b.insertTag tag).pop

def insertRemark (parent : Option Nat) (b : Builder) : Builder :=
  let (tree, i) := b.tree.create .remark
  match parent with
  | some p => { b with tree := tree.append p i }
  | none => { b with tree }.place i

/-- Adds text, to a text at the same place if there is one. -/
def insertText (t : Text) (b : Builder) : Builder :=
  if t = [] then b
  else
    match if b.fosters then none else b.tree.lastChild? b.top with
    | some last =>
      if b.tree.isText last then { b with tree := b.tree.extend last t } else fresh
    | none => fresh
where
  fresh : Builder :=
    let (tree, i) := b.tree.create (.text t)
    { b with tree }.place i

/-- Begins an element with raw content. -/
def insertRaw (tag : Tag) (b : Builder) : Builder :=
  { b.insertTag tag with resumed := b.mode, mode := .rawText }

/-! Active formatting. -/

def mark (b : Builder) : Builder := { b with active := b.active ++ [none] }

/-- Forgets the formatting after the last mark, and the mark. -/
def clearActive (b : Builder) : Builder :=
  { b with active := ((b.active.reverse.dropWhile Option.isSome).drop 1).reverse }

def forget (i : Nat) (b : Builder) : Builder := { b with active := b.active.erase (some i) }

/-- The formatting after the last mark, the newest first. -/
def recent (b : Builder) : List Nat :=
  b.active.reverse.takeWhile Option.isSome |>.filterMap id

/-- A copy of an element, which stands nowhere. -/
def copy (i : Nat) (b : Builder) : Builder × Nat :=
  let e := b.element i
  let (tree, j) := b.tree.create (.element { e with space := .html })
  ({ b with tree }, j)

def replaceActive (old new : Nat) (b : Builder) : Builder :=
  { b with active := b.active.map fun e => if e = some old then some new else e }

/-- Opens again the formatting that is active and was closed. -/
def resumeFormatting (b : Builder) : Builder :=
  let closed := (b.recent.takeWhile fun i => !b.open_.contains i).reverse
  closed.foldl (fun b i =>
    let (b, j) := b.copy i
    ((b.place j).push j).replaceActive i j) b

/-- Two lists of attributes have the same entries. -/
def sameAttributes (a b : List (Text × Text)) : Bool :=
  a.length == b.length && a.all b.contains

/-- Begins an element of formatting. At most three equal ones are active at once. -/
def insertFormatting (tag : Tag) (b : Builder) : Builder :=
  let equal := b.recent.filter fun i =>
    let e := b.element i
    e.space == .html && e.name == tag.name && sameAttributes e.attributes tag.attributes
  let b := (equal.drop 2).foldl (fun b i => b.forget i) (b.insertTag tag)
  { b with active := b.active ++ [some b.top] }

/-! End tags of formatting. An element that ends while a block inside it is still open is split:
its part inside the block becomes a copy. -/

/-- Closes the innermost element of a name, unless a special one comes first. -/
def endOther (name : Text) (b : Builder) : Builder :=
  let role (i : Nat) : Role :=
    if (b.element i).name = name then .target
    else if (b.element i).isSpecial then .barrier
    else .passed
  match fromTarget? role b.open_ with
  | some rest => { b with open_ := rest.drop 1 }
  | none => b

/-- The course of a split: how many elements were met, the one moved last, and where the copy goes
among the active ones. -/
structure Split where
  builder : Builder
  met : Nat := 0
  last : Nat
  bookmark : Nat

/-- Treats an element between the block and the formatting element: one that is active is copied
around what was moved last, and one that is not is closed. -/
def Split.step (block : Nat) (s : Split) (i : Nat) : Split :=
  let met := s.met + 1
  match s.builder.active.findIdx? (· == some i) with
  | none => { s with met, builder := s.builder.close i }
  | some k =>
    if 3 < met then
      { s with met, builder := s.builder.forget i
               bookmark := if k ≤ s.bookmark then s.bookmark - 1 else s.bookmark }
    else
      let (b, j) := s.builder.copy i
      let b := b.replaceActive i j
      let b := { b with open_ := b.open_.map fun o => if o = i then j else o }
      let bookmark := if s.last = block then k + 1 else s.bookmark
      { builder := { b with tree := (b.tree.detach s.last).append j s.last }
        met, last := j, bookmark }

/-- Inserts at a position of a list. -/
def insertAt {α : Type} (k : Nat) (a : α) (l : List α) : List α := l.take k ++ a :: l.drop k

/-- Splits a formatting element around a block inside it. -/
def splitAround (f block : Nat) (b : Builder) : Builder :=
  let inner := b.open_.takeWhile (· != f)
  let between := (inner.dropWhile (· != block)).drop 1
  let ancestor := ((b.open_.dropWhile (· != f)).drop 1).head?.getD 0
  let start : Split :=
    { builder := b, last := block, bookmark := (b.active.findIdx? (· == some f)).getD 0 }
  let s := between.foldl (Split.step block) start
  let b := { s.builder with tree := s.builder.tree.detach s.last }
  let b := if (b.element ancestor).name ∈ tableFrameNames then b.foster s.last
    else { b with tree := b.tree.append ancestor s.last }
  let (b, j) := b.copy f
  let tree := (b.tree.moveChildren block j).append block j
  let place := (b.active.findIdx? (· == some f)).getD b.active.length
  let bookmark := if place < s.bookmark then s.bookmark - 1 else s.bookmark
  { b with
    tree
    active := insertAt bookmark (some j) (b.active.erase (some f))
    open_ := (b.open_.erase f).flatMap fun o => if o = block then [j, o] else [o] }

/-- Ends formatting of a name. Up to eight elements of the name are treated. -/
def endFormattingFrom (name : Text) : Nat → Builder → Builder
  | 0, b => b
  | n + 1, b =>
    match b.recent.find? fun i => (b.element i).name == name with
    | none => b.endOther name
    | some f =>
      if !b.open_.contains f then b.forget f
      else if !b.inScope .default [name] then b
      else
        let inner := b.open_.takeWhile (· != f)
        match inner.reverse.find? fun i => (b.element i).isSpecial with
        | none => { b with open_ := (b.open_.dropWhile (· != f)).drop 1 }.forget f
        | some block => endFormattingFrom name n (b.splitAround f block)

def endFormatting (name : Text) (b : Builder) : Builder :=
  if b.topName = name ∧ !b.active.contains (some b.top) then b.pop
  else endFormattingFrom name 8 b

/-! Modes that follow from the open elements. -/

/-- A selection in a table has rules of its own, unless a template is between them. -/
def selectMode (outer : List Nat) (b : Builder) : Mode :=
  match outer.find? fun i => (b.element i).name ∈ (["template", "table"] : List Text) with
  | some i => if (b.element i).name = ("table" : Text) then .inSelectInTable else .inSelect
  | none => .inSelect

/-- The mode that the innermost open elements call for. -/
def modeOf (b : Builder) : List Nat → Mode
  | [] => .inBody
  | i :: outer =>
    let e := b.element i
    let is (names : List Text) : Bool := e.name ∈ names
    if is ["select"] then b.selectMode outer
    else if is ["td", "th"] then .inCell
    else if is ["tr"] then .inRow
    else if is bodySectionNames then .inTableBody
    else if is ["caption"] then .inCaption
    else if is ["colgroup"] then .inColumnGroup
    else if is ["table"] then .inTable
    else if is ["template"] && e.space == .html then b.templates.head?.getD .inBody
    else if is ["head"] then .inHead
    else if is ["body"] then .inBody
    else if is ["frameset"] then .inFrameset
    else if is ["html"] then if b.head.isNone then .beforeHead else .afterHead
    else modeOf b outer

def resetMode (b : Builder) : Builder := { b with mode := b.modeOf b.open_ }

end Builder

end Literate.Html
