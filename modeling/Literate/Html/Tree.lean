import Literate.Text

/-! Trees of HTML documents. Nodes have numbers, so that one can be moved while others refer to it;
the node with the number zero is the document. -/

namespace Literate.Html

/-- The vocabulary that an element belongs to. -/
inductive Space where
  | html
  | svg
  | math
deriving DecidableEq, Repr

structure Element where
  name : Text
  space : Space := .html
  attributes : List (Text × Text) := []
deriving DecidableEq, Repr

inductive Kind where
  | document
  | element (e : Element)
  | text (t : Text)
  | remark
deriving DecidableEq, Repr

structure Node where
  kind : Kind := .document
  parent : Option Nat := none
  children : Array Nat := #[]
deriving Repr

structure Tree where
  nodes : Array Node := #[{}]
deriving Repr

namespace Tree

def node (t : Tree) (i : Nat) : Node := t.nodes[i]?.getD {}

def modify (t : Tree) (i : Nat) (f : Node → Node) : Tree := { t with nodes := t.nodes.modify i f }

/-- The element with a number; other nodes have no name. -/
def element (t : Tree) (i : Nat) : Element :=
  match (t.node i).kind with
  | .element e => e
  | _ => ⟨[], .html, []⟩

def isText (t : Tree) (i : Nat) : Bool :=
  match (t.node i).kind with
  | .text _ => true
  | _ => false

/-- A new node that stands nowhere, and its number. -/
def create (t : Tree) (kind : Kind) : Tree × Nat :=
  ({ t with nodes := t.nodes.push { kind } }, t.nodes.size)

def detach (t : Tree) (i : Nat) : Tree :=
  match (t.node i).parent with
  | none => t
  | some p =>
    (t.modify p fun n => { n with children := n.children.filter (· != i) }).modify i fun n =>
      { n with parent := none }

def append (t : Tree) (parent child : Nat) : Tree :=
  (t.modify parent fun n => { n with children := n.children.push child }).modify child fun n =>
    { n with parent := some parent }

/-- Puts a node before a child of another, or at the end. -/
def insertBefore (t : Tree) (parent child : Nat) (before : Option Nat) : Tree :=
  match before.bind fun b => (t.node parent).children.findIdx? (· == b) with
  | none => t.append parent child
  | some place =>
    let put (n : Node) : Node :=
      { n with children :=
          n.children.extract 0 place ++ #[child] ++ n.children.extract place n.children.size }
    (t.modify parent put).modify child fun n => { n with parent := some parent }

/-- The node before a child of another. -/
def previous? (t : Tree) (i : Nat) : Option Nat :=
  match (t.node i).parent with
  | none => none
  | some p =>
    match (t.node p).children.findIdx? (· == i) with
    | some (k + 1) => (t.node p).children[k]?
    | _ => none

def lastChild? (t : Tree) (i : Nat) : Option Nat := (t.node i).children.back?

def hasChild (t : Tree) (i : Nat) : Bool := !(t.node i).children.isEmpty

/-- Adds to the text of a text node. -/
def extend (t : Tree) (i : Nat) (more : Text) : Tree :=
  t.modify i fun n => match n.kind with
    | .text own => { n with kind := .text (own ++ more) }
    | _ => n

/-- Moves the children of a node to the end of another. -/
def moveChildren (t : Tree) (source target : Nat) : Tree :=
  let moved := (t.node source).children
  let t := t.modify source fun n => { n with children := #[] }
  moved.foldl (fun t child => t.append target child) t

/-- The first element of a name below a node, in the order of the document. The counter bounds the
depth. -/
def find? (t : Tree) (name : Text) : Nat → Nat → Option Nat
  | 0, _ => none
  | depth + 1, i =>
    match (t.node i).kind with
    | .element e =>
      if e.name = name then some i
      else (t.node i).children.toList.findSome? fun child => find? t name depth child
    | _ => (t.node i).children.toList.findSome? fun child => find? t name depth child

/-- All text below a node, in order. -/
def textOf (t : Tree) : Nat → Nat → Text
  | 0, _ => []
  | depth + 1, i =>
    match (t.node i).kind with
    | .text own => own
    | _ => (t.node i).children.toList.flatMap fun child => textOf t depth child

end Tree

end Literate.Html
