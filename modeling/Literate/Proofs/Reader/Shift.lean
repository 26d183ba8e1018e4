import Mathlib.Data.List.Forall2
import Literate.Proofs.Reader.WellFormed

/-! A source that begins some lines further down is read alike. Its positions are further down, in
the chunks and in what is said of them; the sources that it includes stay where they are. -/

namespace Literate

/-- A position so many lines further down. -/
def Location.down (n : Nat) (l : Location) : Location := ⟨l.name, l.line + n⟩

section Moved

variable (source : Text) (n : Nat)

/-- A position in a source, or none, and the same when the source begins `n` lines further down. -/
inductive Location.Moved : Location → Location → Prop
  | none : Moved .none .none
  | own {l : Location} (h : l.name = source) : Moved l (l.down n)

/-- A text that may tell positions in a source, and the same further down. -/
inductive Text.Moved : Text → Text → Prop
  | same (t : Text) : Moved t t
  | place {l l' : Location} (h : Location.Moved source n l l') : Moved l.text l'.text
  | append {t t' u u' : Text} (ht : Moved t t') (hu : Moved u u') : Moved (t ++ u) (t' ++ u')

/-- Inserted positions are the only text that is not the same further down. -/
inductive Command.Body.Moved : Command.Body → Command.Body → Prop
  | text {t t' : Text} (h : Text.Moved source n t t') : Moved (.text t) (.text t')
  | code {t t' : Text} (h : Text.Moved source n t t') : Moved (.code t) (.code t')
  | reference (name : Text) : Moved (.reference name) (.reference name)
  | crossReference (kind : CrossReference) : Moved (.crossReference kind) (.crossReference kind)

structure Command.Moved (k k' : Command) : Prop where
  body : Body.Moved source n k.body k'.body
  location : Location.Moved source n k.location k'.location

/-- A chunk of a source, and the same further down. -/
structure Chunk.Moved (c c' : Chunk) : Prop where
  frame : c' = { c with commands := c'.commands, location := c'.location }
  commands : List.Forall₂ (Command.Moved source n) c.commands c'.commands
  location : Location.Moved source n c.location c'.location

/-- A record of the log, and the same further down. -/
structure Log.Record.Moved (r r' : Log.Record) : Prop where
  frame : r' = { r with message := r'.message }
  message : Text.Moved source n r.message r'.message

end Moved

section Chunks

variable {source : Text} {n : Nat} {c c' : Chunk} {t t' : Text}

namespace Chunk.Moved

theorem ofKind (kind : Kind) (name : Text) :
    Chunk.Moved source n (Chunk.ofKind kind name) (Chunk.ofKind kind name) :=
  ⟨rfl, .nil, .none⟩

theorem kind (h : Chunk.Moved source n c c') : c'.kind = c.kind := by
  rw [h.frame]

theorem document (h : Chunk.Moved source n c c') :
    Chunk.Moved source n { c with kind := .document } { c' with kind := .document } := by
  refine ⟨?_, h.commands, h.location⟩
  rw [h.frame]

theorem commands_eq_nil_iff (h : Chunk.Moved source n c c') :
    c'.commands = [] ↔ c.commands = [] := by
  rw [← List.length_eq_zero_iff, ← h.commands.length_eq, List.length_eq_zero_iff]

theorem append (h : Chunk.Moved source n c c') {k k' : Command}
    (hk : Command.Moved source n k k') : Chunk.Moved source n (c.append k) (c'.append k') := by
  refine ⟨?_, List.rel_append h.commands (.cons hk .nil), ?_⟩
  · rw [h.frame]
    rfl
  · have hnil := h.commands_eq_nil_iff
    by_cases hc : c.commands = []
    · simpa [Chunk.append, hc, hnil.2 hc] using hk.location
    · have hc' : c'.commands ≠ [] := fun h0 => hc (hnil.1 h0)
      simpa [Chunk.append, hc, hc'] using h.location

theorem runBody (h : Chunk.Moved source n c c') (ht : Text.Moved source n t t') :
    Command.Body.Moved source n (c.runBody t) (c'.runBody t') := by
  simp only [Chunk.runBody, Chunk.isCode, h.kind]
  by_cases hc : c.kind.isCode = true
  · simpa [hc] using Command.Body.Moved.code ht
  · simpa [hc] using Command.Body.Moved.text ht

end Chunk.Moved

theorem extendRun?_moved {k k' : Command}
    (hk : Command.Moved source n k k') (code : Bool) (ht : Text.Moved source n t t') :
    Chunk.extendRun? code t k = none ∧ Chunk.extendRun? code t' k' = none ∨
      ∃ e e', Chunk.extendRun? code t k = some e ∧ Chunk.extendRun? code t' k' = some e' ∧
        Command.Moved source n e e' := by
  obtain ⟨body, l⟩ := k
  obtain ⟨body', l'⟩ := k'
  obtain ⟨hbody, hl⟩ := hk
  cases hbody with
  | text h =>
    cases code with
    | false => exact .inr ⟨_, _, rfl, rfl, .text (h.append ht), hl⟩
    | true => exact .inl ⟨rfl, rfl⟩
  | code h =>
    cases code with
    | false => exact .inl ⟨rfl, rfl⟩
    | true => exact .inr ⟨_, _, rfl, rfl, .code (h.append ht), hl⟩
  | reference name => exact .inl ⟨rfl, rfl⟩
  | crossReference kind => exact .inl ⟨rfl, rfl⟩

theorem Chunk.Moved.appendText (h : Chunk.Moved source n c c') (ht : Text.Moved source n t t')
    {l l' : Location} (hl : Location.Moved source n l l') :
    Chunk.Moved source n (c.appendText t l) (c'.appendText t' l') := by
  have hrun : Command.Moved source n ⟨c.runBody t, l⟩ ⟨c'.runBody t', l'⟩ := ⟨h.runBody ht, hl⟩
  have hnew := h.append hrun
  have hlength := h.commands.length_eq
  unfold Chunk.appendText
  rcases List.eq_nil_or_concat c.commands with hc | ⟨init, last, hc⟩
  · have hc' := h.commands_eq_nil_iff.2 hc
    simpa [hc, hc'] using hnew
  · rcases List.eq_nil_or_concat c'.commands with hc' | ⟨init', last', hc'⟩
    · simp [hc, hc'] at hlength
    · rw [List.concat_eq_append] at hc hc'
      have hcommands := h.commands
      rw [hc, hc', ← List.forall₂_reverse_iff] at hcommands
      simp only [List.reverse_append, List.reverse_singleton, List.singleton_append,
        List.forall₂_cons, List.forall₂_reverse_iff] at hcommands
      obtain ⟨hlast, hinit⟩ := hcommands
      have hcode : c'.isCode = c.isCode := congrArg Kind.isCode h.kind
      simp only [hc, hc', List.getLast?_concat, List.dropLast_concat, hcode]
      rcases extendRun?_moved hlast c.isCode ht with ⟨he, he'⟩ | ⟨e, e', he, he', hmoved⟩
      · simpa [he, he'] using hnew
      · rw [he, he']
        refine ⟨?_, List.rel_append hinit (.cons hmoved .nil), h.location⟩
        rw [h.frame]

end Chunks

namespace Reader

section Moved

variable (source : Text) (n : Nat)

/-- Chunks of a source are further down, those of the sources it includes are the same. -/
def MovedOrSame (c c' : Chunk) : Prop := Chunk.Moved source n c c' ∨ c' = c

/-- What a source gives, and the same when it begins `n` lines further down. -/
structure Outcome.Moved (o o' : Outcome) : Prop where
  chunks : List.Forall₂ (MovedOrSame source n) o.chunks o'.chunks
  errors : o'.errors = o.errors
  lines : o'.lines = o.lines + n
  log : List.Forall₂ (Log.Record.Moved source n) o.log o'.log

inductive Pending.Moved : Pending → Pending → Prop
  | nothing : Moved .nothing .nothing
  | options {l l' : Location} (kind : Chunk.Kind) (h : Location.Moved source n l l') :
      Moved (.options kind l) (.options kind l')
  | opener {c c' : Chunk} (h : Chunk.Moved source n c c') : Moved (.opener c) (.opener c')
  | referenceName {l l' : Location} (h : Location.Moved source n l l') :
      Moved (.referenceName l) (.referenceName l')
  | referenceEnd {l l' : Location} (name : List Char) (h : Location.Moved source n l l') :
      Moved (.referenceEnd name l) (.referenceEnd name l')
  | substitutionName {l l' : Location} (h : Location.Moved source n l l') :
      Moved (.substitutionName l) (.substitutionName l')
  | substitutionEnd {l l' : Location} (name : List Char) (h : Location.Moved source n l l') :
      Moved (.substitutionEnd name l) (.substitutionEnd name l')
  | identifiers : Moved .identifiers .identifiers
  | includePath {l l' : Location} (h : Location.Moved source n l l') :
      Moved (.includePath l) (.includePath l')

structure State.Moved (s s' : State) : Prop where
  newlines : s'.newlines = s.newlines + n
  body : s'.body = s.body
  before : List.Forall₂ (MovedOrSame source n) s.before s'.before
  current : Chunk.Moved source n s.current s'.current
  pending : Pending.Moved source n s.pending s'.pending
  errors : s'.errors = s.errors
  includedLines : s'.includedLines = s.includedLines
  log : List.Forall₂ (Log.Record.Moved source n) s.log s'.log

end Moved

variable {source : Text} {n : Nat} {ctx : Context} {s s' : State} {l l' : Location} {t t' : Text}

theorem atPlace_moved (hl : Location.Moved source n l l') (ht : Text.Moved source n t t') :
    Text.Moved source n (atPlace l t) (atPlace l' t') :=
  .append (.append (.append (.same _) (.place hl)) (.same _)) ht

namespace State.Moved

theorem here (h : State.Moved ctx.name n s s') :
    Location.Moved ctx.name n (s.here ctx) (s'.here ctx) := by
  have hdown : s'.here ctx = (s.here ctx).down n := by
    simp only [State.here, Location.down, h.newlines]
    congr 1
    omega
  rw [hdown]
  exact .own rfl

theorem error (h : State.Moved source n s s') (ht : Text.Moved source n t t') :
    State.Moved source n (s.error t) (s'.error t') :=
  { h with
    errors := congrArg (· + 1) h.errors
    log := List.rel_append h.log (.cons ⟨rfl, ht⟩ .nil) }

theorem warn (h : State.Moved source n s s') (ht : Text.Moved source n t t') :
    State.Moved source n (s.warn t) (s'.warn t') :=
  { h with log := List.rel_append h.log (.cons ⟨rfl, ht⟩ .nil) }

theorem warnAll {ts ts' : List Text} (h : State.Moved source n s s')
    (ht : List.Forall₂ (Text.Moved source n) ts ts') :
    State.Moved source n (s.warnAll ts) (s'.warnAll ts') := by
  induction ht generalizing s s' with
  | nil => exact h
  | cons ht _ ih => exact ih (h.warn ht)

theorem advance (h : State.Moved source n s s') (t : Token) :
    State.Moved source n (s.advance t) (s'.advance t) := by
  unfold State.advance
  split
  · exact { h with newlines := by simp only [h.newlines]; omega }
  · exact h

theorem wait (h : State.Moved source n s s') {p p' : Pending} (hp : Pending.Moved source n p p') :
    State.Moved source n { s with pending := p } { s' with pending := p' } :=
  { h with pending := hp }

theorem renew (h : State.Moved source n s s') {c c' : Chunk} (hc : Chunk.Moved source n c c')
    (body : Body) :
    State.Moved source n { s with before := s.before ++ [s.current], current := c, body }
      { s' with before := s'.before ++ [s'.current], current := c', body } :=
  { h with
    before := List.rel_append h.before (.cons (.inl h.current) .nil)
    current := hc
    body := rfl }

theorem append (h : State.Moved source n s s') {body body' : Command.Body}
    (hb : Command.Body.Moved source n body body') (hl : Location.Moved source n l l') :
    State.Moved source n (s.append body l) (s'.append body' l') :=
  { h with current := h.current.append ⟨hb, hl⟩ }

theorem appendText (h : State.Moved source n s s') (ht : Text.Moved source n t t')
    (hl : Location.Moved source n l l') :
    State.Moved source n (s.appendText t l) (s'.appendText t' l') :=
  { h with current := h.current.appendText ht hl }

theorem closer (h : State.Moved source n s s') : s'.closer = s.closer := by
  simp only [State.closer, h.body]

end State.Moved

theorem enter_moved (h : State.Moved source n s s') {c c' : Chunk} (hc : Chunk.Moved source n c c')
    (body : Body) : State.Moved source n (enter c body s) (enter c' body s') :=
  (h.renew hc body).wait .nothing

theorem substitution?_moved (ctx : Context) (hl : Location.Moved source n l l') (name : Text) :
    Option.Rel (Text.Moved source n) (ctx.substitution? name l) (ctx.substitution? name l') := by
  unfold Context.substitution?
  split
  · exact .some (.same _)
  · split
    · exact .some (.place hl)
    · cases ctx.substitutions.lookup name with
      | none => exact .none
      | some value => exact .some (.same value)

theorem wanted_moved {p p' : Pending} (hp : Pending.Moved source n p p') :
    wanted p' = wanted p := by
  cases hp with
  | opener hc => simp only [wanted, openers, hc.kind]
  | _ => rfl

theorem resume_moved (h : State.Moved source n s s') (t : Token) :
    State.Moved source n (resume ctx t s) (resume ctx t s') := by
  have hp := h.pending
  unfold resume
  generalize s.pending = p, s'.pending = p' at hp ⊢
  cases hp with
  | opener hc =>
    by_cases ht : t = .control .openDocument
    · simpa [ht] using enter_moved h hc.document .document
    · simpa [ht] using enter_moved h hc .code
  | referenceEnd name hl =>
    by_cases hname : name = []
    · simpa [hname] using (h.wait .nothing).error (atPlace_moved hl (.same _))
    · simpa [hname] using (h.wait .nothing).append (.reference _) hl
  | @substitutionEnd l l' name hl =>
    have hvalue := substitution?_moved ctx hl (Text.ofChars name)
    dsimp only
    generalize ctx.substitution? (Text.ofChars name) l = v,
      ctx.substitution? (Text.ofChars name) l' = v' at hvalue ⊢
    cases hvalue with
    | none => exact (h.wait .nothing).error (atPlace_moved hl (.same _))
    | some ht => exact (h.wait .nothing).appendText ht hl
  | _ => exact h

theorem expect_moved (h : State.Moved ctx.name n s s') (t : Token) :
    State.Moved ctx.name n (expect ctx s t) (expect ctx s' t) := by
  have herror := fun m => h.error (atPlace_moved h.here (.same m))
  cases t with
  | newline => exact h
  | literal span | control k =>
    simp only [expect, wanted_moved h.pending]
    split
    · exact resume_moved h _
    · exact resume_moved (herror _) _

theorem records_same (source : Text) (n : Nat) (log : List Log.Record) :
    List.Forall₂ (Log.Record.Moved source n) log log :=
  List.forall₂_same.2 fun _ _ => ⟨rfl, .same _⟩

/-- What an include gives stays where it is. -/
theorem splice_moved (h : State.Moved source n s s') (hl : Location.Moved source n l l')
    (path : Text) (o : Outcome) (failure : Option Text) :
    State.Moved source n (splice path l o failure s) (splice path l' o failure s') := by
  have hcollect : State.Moved source n
      { s with
        errors := s.errors + o.errors
        includedLines := s.includedLines + o.lines
        log := s.log ++ o.log }
      { s' with
        errors := s'.errors + o.errors
        includedLines := s'.includedLines + o.lines
        log := s'.log ++ o.log } :=
    { h with
      errors := congrArg (· + o.errors) h.errors
      includedLines := congrArg (· + o.lines) h.includedLines
      log := List.rel_append h.log (records_same source n o.log) }
  have hplace : ∀ {u u' : State}, State.Moved source n u u' → State.Moved source n
      { u with
        before := u.before ++ [u.current] ++ o.chunks
        current := Chunk.ofKind .anonymous []
        body := .top }
      { u' with
        before := u'.before ++ [u'.current] ++ o.chunks
        current := Chunk.ofKind .anonymous []
        body := .top } := by
    intro u u' hu
    have hrenewed := hu.renew (.ofKind .anonymous []) .top
    exact { hrenewed with
      before := List.rel_append hrenewed.before (List.forall₂_same.2 fun _ _ => .inr rfl) }
  have htold : ∀ {u u' : State}, State.Moved source n u u' → ∀ m, State.Moved source n
      (if u.errors > s.errors then { u with log := u.log ++ [⟨Log.error, m, []⟩] } else u)
      (if u'.errors > s'.errors then { u' with log := u'.log ++ [⟨Log.error, m, []⟩] }
        else u') := by
    intro u u' hu m
    by_cases he : u.errors > s.errors
    · have he' : u'.errors > s'.errors := by rwa [hu.errors, h.errors]
      rw [if_pos he, if_pos he']
      exact { hu with log := List.rel_append hu.log (records_same source n _) }
    · have he' : ¬u'.errors > s'.errors := by rwa [hu.errors, h.errors]
      rw [if_neg he, if_neg he']
      exact hu
  cases failure with
  | none => exact hplace (htold hcollect _)
  | some cause => exact hplace (htold (hcollect.error (atPlace_moved hl (.same _))) _)

theorem includeFile_moved (h : State.Moved source n s s') (hl : Location.Moved source n l l')
    (path : Text) :
    State.Moved source n (includeFile ctx path l s) (includeFile ctx path l' s') := by
  have herror := fun m => h.error (atPlace_moved hl (.same m))
  unfold includeFile
  simp only [h.body]
  split
  · exact herror _
  · split
    · exact herror _
    · split
      · exact herror _
      · split
        · exact h.warn (atPlace_moved hl (.same _))
        · exact herror _
      · exact splice_moved h hl _ _ _

theorem describe_moved (h : State.Moved source n s s') (hl : Location.Moved source n l l')
    (kind : Chunk.Kind) (line : List Char) :
    State.Moved source n (describe ctx kind l line s) (describe ctx kind l' line s') := by
  have hopener : ∀ {u u' : State} {c : Chunk}, State.Moved source n u u' → c.commands = [] →
      State.Moved source n
        { u with pending := .opener { c with location := l } }
        { u' with pending := .opener { c with location := l' } } := by
    intro u u' c hu hc
    refine hu.wait (.opener ⟨rfl, ?_, hl⟩)
    simp only [hc]
    exact .nil
  have hnamed : ∀ {u u' : State} {c : Chunk} (m : Text), State.Moved source n u u' →
      State.Moved source n (if c.name = [] then u.warn (atPlace l m) else u)
        (if c.name = [] then u'.warn (atPlace l' m) else u') := by
    intro u u' c m hu
    split
    · exact hu.warn (atPlace_moved hl (.same _))
    · exact hu
  cases hc : OptionLine.chunk kind (Text.trimChars line) with
  | error quote =>
    simp only [describe, hc]
    exact hopener (hnamed _ (h.error (atPlace_moved hl (.same _)))) rfl
  | ok described =>
    obtain ⟨chunk, warnings⟩ := described
    have hwarnings : List.Forall₂ (Text.Moved source n) (warnings.map (atPlace l))
        (warnings.map (atPlace l')) := by
      rw [List.forall₂_map_left_iff, List.forall₂_map_right_iff]
      exact List.forall₂_same.2 fun _ _ => atPlace_moved hl (.same _)
    simp only [describe, hc]
    exact hopener (hnamed _ (h.warnAll hwarnings)) (OptionLine.empty_chunk hc).1

theorem operand_moved (h : State.Moved ctx.name n s s') (span : List Char) :
    State.Moved ctx.name n (operand ctx s span) (operand ctx s' span) := by
  have hp := h.pending
  have hhere := h.here
  have hcurrent := h.current
  unfold operand
  generalize hq : s.pending = p, hq' : s'.pending = p' at hp ⊢
  cases hp with
  | options kind hl => exact describe_moved h hl kind span
  | referenceName hl => exact h.wait (.referenceEnd _ hl)
  | substitutionName hl => exact h.wait (.substitutionEnd _ hl)
  | includePath hl => exact includeFile_moved (h.wait .nothing) hl _
  | identifiers =>
    have hwait := h.wait .nothing
    by_cases hb : s.body = .code
    · have hb' : s'.body = .code := h.body.trans hb
      simp only [hb, hb', if_true]
      refine { hwait with body := rfl, current := ⟨?_, hcurrent.commands, hcurrent.location⟩ }
      rw [hcurrent.frame]
    · have hb' : s'.body ≠ .code := fun h' => hb (h.body.symm.trans h')
      simp only [hb, hb', if_false]
      exact hwait.warn (atPlace_moved hhere (.same _))
  | _ => exact h

theorem openChunk_moved (h : State.Moved ctx.name n s s') (kind : Chunk.Kind) (k : Control) :
    State.Moved ctx.name n (openChunk ctx kind k s) (openChunk ctx kind k s') := by
  unfold openChunk
  simp only [h.body, h.closer]
  split
  · exact h.wait (.options kind h.here)
  · have herror := fun m => h.error (atPlace_moved h.here (.same m))
    exact (herror _).wait (.options kind (herror _).here)

theorem closeBody_moved (h : State.Moved ctx.name n s s') (k : Control) :
    State.Moved ctx.name n (closeBody ctx k s) (closeBody ctx k s') := by
  unfold closeBody
  simp only [h.body, h.closer]
  split
  · exact h.renew (.ofKind .anonymous []) .top
  · exact (h.warn (atPlace_moved h.here (.same _))).renew (.ofKind .anonymous []) .top

theorem crossReference_moved (h : State.Moved ctx.name n s s')
    (hl : Location.Moved ctx.name n l l') (kind : CrossReference) (k : Control) :
    State.Moved ctx.name n (crossReference ctx kind k l s) (crossReference ctx kind k l' s') := by
  unfold crossReference
  simp only [h.body]
  split
  · exact (h.warn (atPlace_moved hl (.same _))).append (.crossReference kind) hl
  · exact h.append (.crossReference kind) hl

theorem extra_moved (h : State.Moved ctx.name n s s') (k : Control) (note : Text) :
    State.Moved ctx.name n (extra ctx k note s) (extra ctx k note s') :=
  h.error (.append (.same _) (.place h.here))

theorem obey_moved (h : State.Moved ctx.name n s s') (hl : Location.Moved ctx.name n l l')
    (t : Token) : State.Moved ctx.name n (obey ctx l s t) (obey ctx l' s' t) := by
  cases t with
  | newline => exact h.appendText (.same _) hl
  | literal span => exact h.appendText (.same _) hl
  | control k =>
    cases k with
    | literally => exact h.appendText (.same _) hl
    | outputChunk => exact openChunk_moved h _ _
    | namedChunk => exact openChunk_moved h _ _
    | openCode | openDocument | closeReference | closeSubstitution => exact extra_moved h _ _
    | closeCode | closeDocument => exact closeBody_moved h _
    | openReference => exact h.wait (.referenceName hl)
    | identifiers => exact h.wait .identifiers
    | fileIndex | macroIndex | identifierIndex => exact crossReference_moved h hl _ _
    | openSubstitution => exact h.wait (.substitutionName hl)
    | includeFile => exact h.wait (.includePath hl)

theorem retake_moved (h : State.Moved ctx.name n s s') (t : Token) :
    State.Moved ctx.name n (retake ctx s t) (retake ctx s' t) := by
  have hp := h.pending
  unfold retake
  generalize s.pending = p, s'.pending = p' at hp ⊢
  cases hp with
  | nothing => exact obey_moved h h.here t
  | _ => exact expect_moved h t

theorem step_moved (h : State.Moved ctx.name n s s') (t : Token) :
    State.Moved ctx.name n (step ctx s t) (step ctx s' t) := by
  have hcounted := h.advance t
  have hp := h.pending
  unfold step
  generalize s.pending = p, s'.pending = p' at hp ⊢
  cases hp with
  | nothing => exact obey_moved hcounted h.here t
  | opener | referenceEnd | substitutionEnd => exact expect_moved hcounted t
  | options | referenceName | substitutionName | identifiers | includePath =>
    cases t with
    | literal span => exact operand_moved hcounted span
    | newline | control => exact retake_moved (operand_moved hcounted []) _

theorem foldl_step_moved (h : State.Moved ctx.name n s s') (tokens : List Token) :
    State.Moved ctx.name n (tokens.foldl (step ctx) s) (tokens.foldl (step ctx) s') := by
  induction tokens generalizing s s' with
  | nil => exact h
  | cons t tokens ih => exact ih (step_moved h t)

theorem abandon_moved (h : State.Moved ctx.name n s s') :
    State.Moved ctx.name n (abandon ctx s) (abandon ctx s') := by
  have herror := fun m => h.error (atPlace_moved h.here (.same m))
  have hwanted := wanted_moved h.pending
  have hp := h.pending
  unfold abandon
  rw [hwanted]
  generalize s.pending = p, s'.pending = p' at hp ⊢
  cases hp with
  | opener hc => exact enter_moved (herror _) hc .top
  | referenceEnd | substitutionEnd => exact (herror _).wait .nothing
  | _ => exact h

theorem finish_moved (h : State.Moved ctx.name n s s') :
    State.Moved ctx.name n (finish ctx s) (finish ctx s') := by
  have habandoned := abandon_moved (operand_moved h [])
  unfold finish
  simp only [habandoned.body, habandoned.closer]
  split
  · exact habandoned
  · exact { habandoned.error (atPlace_moved habandoned.here (.same _)) with body := rfl }

theorem State.Moved.outcome (h : State.Moved source n s s') :
    Outcome.Moved source n s.outcome s'.outcome where
  chunks := List.rel_append h.before (.cons (.inl h.current) .nil)
  errors := h.errors
  lines := by
    simp only [State.outcome, h.newlines, h.includedLines]
    omega
  log := h.log

/-- Reads tokens that stand after `n` newlines. -/
def readFrom (ctx : Context) (n : Nat) (tokens : List Token) : Outcome :=
  (finish ctx (tokens.foldl (step ctx) { newlines := n })).outcome

/-- Tokens are read alike wherever they stand, but for their positions. -/
theorem readFrom_moved (ctx : Context) (n : Nat) (tokens : List Token) :
    Outcome.Moved ctx.name n (readTokens ctx tokens) (readFrom ctx n tokens) := by
  have hstart : State.Moved ctx.name n {} { newlines := n } :=
    ⟨(Nat.zero_add n).symm, rfl, .nil, .ofKind .anonymous [], .nothing, rfl, rfl, .nil⟩
  exact (finish_moved (foldl_step_moved hstart tokens)).outcome

end Reader

end Literate
