import Literate.Token
import Literate.Proofs.Chunk.Quotes
import Literate.Proofs.Text.Words

/-! The grammar of sources without includes. Text, references and substitutions can stand anywhere,
chunks only between chunks, and a closing control closes whatever is open. The language is found as
that of a machine with few states, which refuses a token where the grammar has none. -/

open scoped Computability

namespace Literate.Reader.Grammar

open Literate.Grammar

def control (k : Control) : Language Token := symbol (· = .control k)

/-- A literal with a property. -/
def literal (p : List Char → Prop) : Language Token := symbol fun t => ∃ cs, t = .literal cs ∧ p cs

def newlines : Language Token := (symbol (· = .newline))∗

/-- A literal that may be missing; a missing one counts as empty. -/
def operand (p : List Char → Prop) : Language Token := literal p + emptyIf (p [])

/-- Tokens that mean something by themselves. -/
def IsPlain : Token → Prop
  | .newline => True
  | .literal _ => True
  | .control k =>
    k ∈ [Control.literally, .fileIndex, .macroIndex, .identifierIndex, .identifiers]

def reference : Language Token :=
  control .openReference * literal (fun cs => ∃ d ∈ cs, Text.isBlank d = false) * newlines *
    control .closeReference

/-- The names that a source can substitute. -/
def Known (table : List (Text × Text)) (name : Text) : Prop :=
  name = ("theFile" : Text) ∨ name = ("theLocation" : Text) ∨ name ∈ table.map Prod.fst

def substitution (table : List (Text × Text)) : Language Token :=
  control .openSubstitution *
    operand (fun cs => Known table (Text.ofChars (Text.trimChars cs))) * newlines *
    control .closeSubstitution

/-- What can stand inside a body and outside. -/
def flat (table : List (Text × Text)) : Language Token :=
  symbol IsPlain + reference + substitution table

def closer : Language Token := control .closeCode + control .closeDocument

/-- A line of options on which the quotes are closed. -/
def optionLine : Language Token := operand fun cs => Text.trimChars cs ∈ OptionLine.closedLines

def opening : Language Token :=
  control .outputChunk * optionLine * newlines * control .openCode +
    control .namedChunk * optionLine * newlines * (control .openCode + control .openDocument)

def chunk (table : List (Text × Text)) : Language Token := opening * (flat table)∗ * closer

def document (table : List (Text × Text)) : Language Token :=
  (flat table + closer + chunk table)∗

section Waiting

variable {want : Token → Prop} {l : Language Token} {t : Token} {w : List Token}

theorem newlines_mul (want : Token → Prop) (l : Language Token) :
    newlines * (symbol want * l) =
      symbol (· = .newline) * (newlines * (symbol want * l)) + symbol want * l :=
  (Language.self_eq_mul_add_iff (nil_not_mem_symbol _)).mpr rfl

@[simp] theorem nil_mem_newlines_mul : [] ∈ newlines * (symbol want * l) ↔ False := by
  rw [newlines_mul]
  simp

/-- Only newlines are passed over before a token that is waited for. -/
@[simp] theorem cons_mem_newlines_mul : t :: w ∈ newlines * (symbol want * l) ↔
    t = .newline ∧ w ∈ newlines * (symbol want * l) ∨ want t ∧ w ∈ l := by
  rw [newlines_mul, Language.mem_add, cons_mem_symbol_mul, cons_mem_symbol_mul, ← newlines_mul]

end Waiting

/-- Where the reader is in a source without faults. -/
inductive Mode where
  /-- In text, of a body if `inside`. -/
  | text (inside : Bool)
  | options (kind : Chunk.Kind)
  | opener (kind : Chunk.Kind)
  | referenceName (inside : Bool)
  | referenceEnd (inside : Bool) (name : List Char)
  | substitutionName (inside : Bool)
  | substitutionEnd (inside : Bool) (name : List Char)
deriving DecidableEq

namespace Mode

/-- Passes over newlines up to a control that is wanted. -/
def await (want : Control → Bool) (here there : Mode) : Token → Option Mode
  | .newline => some here
  | .control k => if want k then some there else none
  | .literal _ => none

def opens (kind : Chunk.Kind) (k : Control) : Bool :=
  k == .openCode || k == .openDocument && kind == .named

def awaitOpener (kind : Chunk.Kind) : Token → Option Mode :=
  await (opens kind) (.opener kind) (.text true)

def awaitReference (inside : Bool) (name : List Char) : Token → Option Mode :=
  await (fun k => k == .closeReference && name != []) (.referenceEnd inside name) (.text inside)

def awaitSubstitution (known : List Char → Bool) (inside : Bool) (name : List Char) :
    Token → Option Mode :=
  await (fun k => k == .closeSubstitution && known name) (.substitutionEnd inside name)
    (.text inside)

def obey (inside : Bool) : Control → Option Mode
  | .literally | .fileIndex | .macroIndex | .identifierIndex | .identifiers => some (.text inside)
  | .outputChunk => if inside then none else some (.options .output)
  | .namedChunk => if inside then none else some (.options .named)
  | .closeCode | .closeDocument => some (.text false)
  | .openReference => some (.referenceName inside)
  | .openSubstitution => some (.substitutionName inside)
  | .openCode | .openDocument | .closeReference | .closeSubstitution | .includeFile => none

/-- The mode after a token, unless the token is a fault. -/
def next (known : List Char → Bool) : Mode → Token → Option Mode
  | .text inside, .control k => obey inside k
  | .text inside, _ => some (.text inside)
  | .options kind, .literal cs =>
    match OptionLine.words (Text.trimChars cs) with
    | .ok _ => some (.opener kind)
    | .error _ => none
  | .options kind, t => awaitOpener kind t
  | .opener kind, t => awaitOpener kind t
  | .referenceName inside, .literal cs => some (.referenceEnd inside (Text.trimChars cs))
  | .referenceName inside, t => awaitReference inside [] t
  | .referenceEnd inside name, t => awaitReference inside name t
  | .substitutionName inside, .literal cs => some (.substitutionEnd inside (Text.trimChars cs))
  | .substitutionName inside, t => awaitSubstitution known inside [] t
  | .substitutionEnd inside name, t => awaitSubstitution known inside name t

/-- The mode without the operand that it could take. -/
def waiting : Mode → Mode
  | .options kind => .opener kind
  | .referenceName inside => .referenceEnd inside []
  | .substitutionName inside => .substitutionEnd inside []
  | m => m

theorem next_waiting (known : List Char → Bool) (m : Mode) {t : Token}
    (ht : ∀ cs, t ≠ .literal cs) : m.waiting.next known t = m.next known t := by
  cases t with
  | literal cs => exact absurd rfl (ht cs)
  | newline => cases m <;> rfl
  | control k => cases m <;> rfl

end Mode

variable (known : List Char → Bool)

/-- The sources that are read without a fault from a mode on. -/
def faultless (m : Mode) : Language Token := accepted (Mode.next known) (· = .text false) m

variable {known}

@[simp] theorem nil_mem_faultless {m : Mode} : [] ∈ faultless known m ↔ m = .text false := by
  simp [faultless]

@[simp] theorem cons_mem_faultless {m : Mode} {t : Token} {w : List Token} :
    t :: w ∈ faultless known m ↔ ∃ n, m.next known t = some n ∧ w ∈ faultless known n := by
  simp [faultless]

theorem faultless_await {want : Control → Bool} {m n : Mode}
    (h : ∀ t, m.next known t = Mode.await want m n t) (hm : m ≠ .text false) :
    faultless known m =
      newlines * (symbol (fun t => ∃ k, t = .control k ∧ want k = true) * faultless known n) := by
  apply (Language.self_eq_mul_add_iff (nil_not_mem_symbol _)).mp
  ext w
  cases w with
  | nil => simp [hm]
  | cons t w =>
    cases t with
    | newline => simp [h, Mode.await]
    | literal cs => simp [h, Mode.await]
    | control k => simp [h, Mode.await]

theorem faultless_opener (kind : Chunk.Kind) :
    faultless known (.opener kind) = newlines *
      (symbol (fun t => ∃ k, t = .control k ∧ Mode.opens kind k = true) *
        faultless known (.text true)) :=
  faultless_await (fun _ => rfl) (by simp)

/-- The end of a bracket is waited for, and only then is it known whether the name will do. -/
theorem mem_faultless_bracket {want : Control} {ok : Bool} {m n : Mode}
    (h : ∀ t, m.next known t = Mode.await (fun k => k == want && ok) m n t) (hm : m ≠ .text false)
    {w : List Token} :
    w ∈ faultless known m ↔ ok = true ∧ w ∈ newlines * (control want * faultless known n) := by
  rw [faultless_await h hm]
  cases ok with
  | true => simp [control]
  | false => simp

theorem mem_faultless_referenceEnd {inside : Bool} {name : List Char} {w : List Token} :
    w ∈ faultless known (.referenceEnd inside name) ↔
      name ≠ [] ∧ w ∈ newlines * (control .closeReference * faultless known (.text inside)) := by
  rw [mem_faultless_bracket (m := .referenceEnd inside name) (fun _ => rfl) (by simp)]
  simp

theorem mem_faultless_substitutionEnd {inside : Bool} {name : List Char} {w : List Token} :
    w ∈ faultless known (.substitutionEnd inside name) ↔
      known name = true ∧
        w ∈ newlines * (control .closeSubstitution * faultless known (.text inside)) :=
  mem_faultless_bracket (m := .substitutionEnd inside name) (fun _ => rfl) (by simp)

theorem trimChars_ne_nil {cs : List Char} :
    Text.trimChars cs ≠ [] ↔ ∃ d ∈ cs, Text.isBlank d = false := by
  simp [Text.trimChars, Text.strip_eq_nil_iff]

theorem faultless_referenceName (inside : Bool) :
    faultless known (.referenceName inside) =
      literal (fun cs => ∃ d ∈ cs, Text.isBlank d = false) *
        (newlines * (control .closeReference * faultless known (.text inside))) := by
  ext w
  cases w with
  | nil => simp [literal]
  | cons t w =>
    cases t with
    | literal cs =>
      simp [literal, Mode.next, mem_faultless_referenceEnd, trimChars_ne_nil]
    | newline => simp [literal, Mode.next, Mode.awaitReference, Mode.await, mem_faultless_referenceEnd]
    | control k => simp [literal, Mode.next, Mode.awaitReference, Mode.await]

/-- A mode that takes an operand and then waits: without an operand it waits at once. -/
theorem faultless_operand {p : List Char → Prop} {m : Mode} (hm : m ≠ .text false)
    {want : Token → Prop} (hw : ∀ cs, ¬want (.literal cs)) {l : Language Token}
    (hliteral : ∀ cs w, .literal cs :: w ∈ faultless known m ↔
      p cs ∧ w ∈ newlines * (symbol want * l))
    (hother : ∀ t w, (∀ cs, t ≠ .literal cs) → (t :: w ∈ faultless known m ↔
      p [] ∧ t :: w ∈ newlines * (symbol want * l))) :
    faultless known m = operand p * (newlines * (symbol want * l)) := by
  ext w
  rw [operand, add_mul, Language.mem_add, mem_emptyIf_mul]
  cases w with
  | nil => simp [literal, hm]
  | cons t w =>
    cases t with
    | literal cs => rw [hliteral]; simp [literal, hw]
    | newline => rw [hother _ _ (by simp)]; simp [literal]
    | control k => rw [hother _ _ (by simp)]; simp [literal]

theorem faultless_options (kind : Chunk.Kind) :
    faultless known (.options kind) = optionLine * faultless known (.opener kind) := by
  rw [faultless_opener]
  apply faultless_operand (by simp) (by simp)
  · intro cs w
    rw [← faultless_opener, ← OptionLine.words_isOk_iff]
    cases h : OptionLine.words (Text.trimChars cs) <;> simp [Mode.next, h]
  · intro t w ht
    have hempty : Text.trimChars [] ∈ OptionLine.closedLines := Language.nil_mem_kstar _
    rw [cons_mem_faultless, ← Mode.next_waiting known _ ht, ← cons_mem_faultless, Mode.waiting,
      faultless_opener]
    simp [hempty]

theorem faultless_substitutionName {table : List (Text × Text)}
    (hk : ∀ name, known name = true ↔ Known table (Text.ofChars name)) (inside : Bool) :
    faultless known (.substitutionName inside) =
      operand (fun cs => Known table (Text.ofChars (Text.trimChars cs))) *
        (newlines * (control .closeSubstitution * faultless known (.text inside))) := by
  apply faultless_operand (by simp) (by simp)
  · intro cs w
    simp [Mode.next, mem_faultless_substitutionEnd, hk, control]
  · intro t w ht
    rw [cons_mem_faultless, ← Mode.next_waiting known _ ht, ← cons_mem_faultless, Mode.waiting,
      mem_faultless_substitutionEnd, hk]
    rfl

theorem closer_eq :
    closer = symbol fun t => t = .control .closeCode ∨ t = .control .closeDocument :=
  symbol_add _ _

/-- Text goes on with a token that is no fault, and ends outside a body only. -/
theorem faultless_text_step (inside : Bool) :
    faultless known (.text inside) =
      symbol IsPlain * faultless known (.text inside) +
      control .openReference * faultless known (.referenceName inside) +
      control .openSubstitution * faultless known (.substitutionName inside) +
      closer * faultless known (.text false) +
      (if inside then 0 else control .outputChunk * faultless known (.options .output) +
        control .namedChunk * faultless known (.options .named) + 1) := by
  rw [closer_eq]
  ext w
  cases w with
  | nil => cases inside <;> simp [control]
  | cons t w =>
    cases t with
    | literal cs => cases inside <;> simp [control, IsPlain, Mode.next]
    | newline => cases inside <;> simp [control, IsPlain, Mode.next]
    | control k => cases inside <;> cases k <;> simp [control, IsPlain, Mode.next, Mode.obey]

theorem opening_mul :
    opening * faultless known (.text true) =
      control .outputChunk * faultless known (.options .output) +
        control .namedChunk * faultless known (.options .named) := by
  have houtput : symbol (fun t => ∃ k, t = .control k ∧ Mode.opens .output k = true) =
      control .openCode := by
    congr 1
    funext t
    simp [Mode.opens]
  have hnamed : symbol (fun t => ∃ k, t = .control k ∧ Mode.opens .named k = true) =
      control .openCode + control .openDocument := by
    rw [control, control, symbol_add]
    congr 1
    funext t
    simp [Mode.opens, and_or_left, exists_or]
  rw [faultless_options, faultless_options, faultless_opener, faultless_opener, houtput, hnamed]
  simp only [opening, add_mul, mul_assoc]

theorem nil_not_mem_flat (table : List (Text × Text)) : [] ∉ flat table := by
  simp [flat, reference, substitution, control, mul_assoc, nil_not_mem_symbol]

section

variable {table : List (Text × Text)}
  (hk : ∀ name, known name = true ↔ Known table (Text.ofChars name))

include hk

theorem faultless_text (inside : Bool) :
    faultless known (.text inside) =
      flat table * faultless known (.text inside) + closer * faultless known (.text false) +
      (if inside then 0 else opening * faultless known (.text true) + 1) := by
  have hstep := @faultless_text_step known inside
  rw [faultless_referenceName, faultless_substitutionName hk, ← opening_mul] at hstep
  simpa only [flat, reference, substitution, add_mul, mul_assoc] using hstep

/-- A body is text up to a control that closes it. -/
theorem faultless_inside :
    faultless known (.text true) = (flat table)∗ * (closer * faultless known (.text false)) := by
  apply (Language.self_eq_mul_add_iff (nil_not_mem_flat table)).mp
  simpa using faultless_text hk true

/-- The machine reads the grammar. -/
theorem faultless_outside : faultless known (.text false) = document table := by
  have hstep : faultless known (.text false) =
      (flat table + closer + chunk table) * faultless known (.text false) + 1 := by
    have h := faultless_text hk false
    rw [faultless_inside hk, if_neg Bool.false_ne_true] at h
    simpa only [chunk, add_mul, mul_assoc, add_assoc] using h
  have hnil : [] ∉ flat table + closer + chunk table := by
    rw [chunk, opening, add_mul, add_mul]
    simp [nil_not_mem_flat, closer_eq, control, mul_assoc, nil_not_mem_symbol]
  rw [(Language.self_eq_mul_add_iff hnil).mp hstep, mul_one, document]

end

end Literate.Reader.Grammar
