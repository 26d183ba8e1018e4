import Mathlib.Data.List.Chain
import Mathlib.Tactic.MkIffOfInductiveProp
import Literate.Proofs.Token.Scan
import Literate.Chunk
import Literate.Text.Class

/-! Printing chunks as source text, and the documents that printing loses nothing of. A run is
printed with its command characters escaped; every other command and the brackets of a chunk are
controls. -/

namespace Literate

/-- Characters of a run, each command character followed by the sign that it stands for itself. -/
def escape (command : Char) (cs : List Char) : List Char :=
  cs.flatMap fun d => if d = command then [command, Control.literally.letter] else [d]

/-- A name between two controls, with a blank on each side of it. -/
def bracket (command : Char) (opening : Control) (name : List Char) (closing : Control) :
    List Char :=
  [command, opening.letter] ++ (' ' :: name ++ [' ', command, closing.letter])

def CrossReference.control : CrossReference → Control
  | .files => .fileIndex
  | .macros => .macroIndex
  | .identifiers => .identifierIndex

def Command.print (command : Char) (c : Command) : List Char :=
  match c.body with
  | .text t => escape command t.chars
  | .code t => escape command t.chars
  | .reference name => bracket command .openReference name.chars .closeReference
  | .crossReference kind => [command, kind.control.letter]

namespace Chunk

/-- The identifiers that a chunk declares, before the control that closes it. -/
def printEnd (command : Char) (c : Chunk) (closing : Control) : List Char :=
  if c.identifiers = [] then [command, closing.letter]
  else bracket command .identifiers (([' '] : List Char).intercalate (c.identifiers.map Text.chars))
    closing

def printBody (command : Char) (c : Chunk) : List Char := c.commands.flatMap (Command.print command)

/-- The controls that announce, open and close a chunk. The prose between chunks has none. -/
def Kind.frame? : Kind → Option (Control × Control × Control)
  | .anonymous => none
  | .named => some (.namedChunk, .openCode, .closeCode)
  | .output => some (.outputChunk, .openCode, .closeCode)
  | .document => some (.namedChunk, .openDocument, .closeDocument)

def print (command : Char) (c : Chunk) : List Char :=
  match c.kind.frame? with
  | none => c.printBody command
  | some (announcing, opening, closing) =>
    bracket command announcing c.name.chars opening ++ c.printBody command ++
      c.printEnd command closing

end Chunk

/-- The source of a document. -/
def print (command : Char) (d : List Chunk) : Text :=
  Text.ofChars (d.flatMap (Chunk.print command))

/-- A name that stands on one line, spells no control and has no blanks to trim. -/
@[mk_iff] structure IsOperand (command : Char) (name : Text) : Prop where
  utf8 : name.isUtf8 = true
  line : '\n' ∉ name.chars
  quiet : Token.spellsAny command name.chars = false
  left : ∀ d ∈ name.chars.head?, Text.isBlank d = false
  right : ∀ d ∈ name.chars.getLast?, Text.isBlank d = false

/-- A name that an option line gives back: unquoted words with one blank between them, of which
the first is no option. -/
@[mk_iff] structure IsChunkName (command : Char) (name : Text) : Prop
    extends IsOperand command name where
  unquoted : ∀ d ∈ name.chars, d ≠ '"' ∧ d ≠ '\'' ∧ d ≠ '\t' ∧ d ≠ '\r'
  single : name.chars.IsChain fun a b => ¬(a = ' ' ∧ b = ' ')
  undashed : name.chars.head? ≠ some '-'

@[mk_iff] structure IsIdentifier (command : Char) (id : Text) : Prop where
  utf8 : id.isUtf8 = true
  nonempty : id ≠ []
  solid : ∀ d ∈ id.chars, Text.isBlank d = false
  quiet : Token.spellsAny command id.chars = false

/-- A command that a chunk of code, or of prose, can hold and a reader can give back. -/
def Command.IsCanonical (command : Char) (code : Bool) (c : Command) : Prop :=
  match c.body with
  | .text t => code = false ∧ t ≠ [] ∧ t.isUtf8 = true
  | .code t => code = true ∧ t ≠ [] ∧ t.isUtf8 = true
  | .reference name => name ≠ [] ∧ IsOperand command name
  | .crossReference _ => True

/-- No option has been set. -/
@[mk_iff] structure Chunk.Unset (c : Chunk) : Prop where
  indent : c.indent = .default
  commentStart : c.commentStart = []
  commentEnd : c.commentEnd = []
  woven : c.woven = true
  style : c.style = []

@[mk_iff] structure Chunk.IsCanonical (command : Char) (c : Chunk) : Prop where
  commands : ∀ k ∈ c.commands, k.IsCanonical command c.isCode
  apart : c.commands.IsChain fun a b => a.run? = none ∨ b.run? = none
  name : IsChunkName command c.name
  identifiers : ∀ id ∈ c.identifiers, IsIdentifier command id
  declares : c.identifiers ≠ [] → c.isCode = true
  anonymous : c.kind = .anonymous → c.name = [] ∧ c.commands ≠ []
  unset : c.Unset

/-- Documents that have one printed form each. -/
@[mk_iff] structure IsCanonical (command : Char) (d : List Chunk) : Prop where
  chunks : ∀ c ∈ d, c.IsCanonical command
  apart : d.IsChain fun a b => a.kind ≠ .anonymous ∨ b.kind ≠ .anonymous

section Decidable

variable (command : Char)

-- The conditions on characters are decided along the name: all characters are too many.
instance (name : Text) : Decidable (IsOperand command name) :=
  decidable_of_iff (name.isUtf8 = true ∧ '\n' ∉ name.chars ∧
    Token.spellsAny command name.chars = false ∧
    name.chars.head?.all (fun d => !Text.isBlank d) = true ∧
    name.chars.getLast?.all (fun d => !Text.isBlank d) = true)
    (by simp [isOperand_iff, Option.all_eq_true])

instance (name : Text) : Decidable (IsChunkName command name) :=
  decidable_of_iff (IsOperand command name ∧
    name.chars.all (fun d => d ≠ '"' ∧ d ≠ '\'' ∧ d ≠ '\t' ∧ d ≠ '\r') = true ∧
    name.chars.IsChain (fun a b => ¬(a = ' ' ∧ b = ' ')) ∧ name.chars.head? ≠ some '-')
    (by simp [isChunkName_iff])

instance (id : Text) : Decidable (IsIdentifier command id) :=
  decidable_of_iff (id.isUtf8 = true ∧ id ≠ [] ∧
    id.chars.all (fun d => !Text.isBlank d) = true ∧ Token.spellsAny command id.chars = false)
    (by simp [isIdentifier_iff])

instance (code : Bool) : DecidablePred (Command.IsCanonical command code)
  | ⟨.text t, _⟩ => inferInstanceAs (Decidable (code = false ∧ t ≠ [] ∧ t.isUtf8 = true))
  | ⟨.code t, _⟩ => inferInstanceAs (Decidable (code = true ∧ t ≠ [] ∧ t.isUtf8 = true))
  | ⟨.reference name, _⟩ => inferInstanceAs (Decidable (name ≠ [] ∧ IsOperand command name))
  | ⟨.crossReference _, _⟩ => inferInstanceAs (Decidable True)

instance (c : Chunk) : Decidable c.Unset := decidable_of_iff' _ (Chunk.unset_iff c)

instance (c : Chunk) : Decidable (c.IsCanonical command) :=
  decidable_of_iff' _ (Chunk.isCanonical_iff command c)

instance (d : List Chunk) : Decidable (IsCanonical command d) :=
  decidable_of_iff' _ (isCanonical_iff command d)

end Decidable

/-- All of a chunk but its positions in a source and the words of its option line. -/
def Chunk.essence (c : Chunk) : Chunk :=
  { c with
    options := []
    location := .none
    commands := c.commands.map fun k => ⟨k.body, .none⟩ }

theorem Chunk.essence_eq {c d : Chunk} (hc : c.Unset) (hd : d.Unset) (hk : d.kind = c.kind)
    (hn : d.name = c.name) (hi : d.identifiers = c.identifiers)
    (hb : d.commands.map Command.body = c.commands.map Command.body) : d.essence = c.essence := by
  have hcommands : d.commands.map (fun k => (⟨k.body, .none⟩ : Command)) =
      c.commands.map fun k => ⟨k.body, .none⟩ := by
    simpa [Function.comp_def] using congrArg (List.map fun b => (⟨b, .none⟩ : Command)) hb
  unfold Chunk.essence
  rw [hk, hn, hi, hd.indent, hc.indent, hd.commentStart, hc.commentStart, hd.commentEnd,
    hc.commentEnd, hd.woven, hc.woven, hd.style, hc.style, hcommands]

end Literate
