import Literate.Reader

/-! The reader does not look back. What it has collected, the chunks before the current one, the
errors, the lines of included sources and the log, changes nothing about the steps that follow. -/

namespace Literate.Reader

namespace State

/-- A state whose collections begin with those of an outcome. -/
def after (o : Outcome) (s : State) : State :=
  { s with
    before := o.chunks ++ s.before
    errors := o.errors + s.errors
    includedLines := o.lines + s.includedLines
    log := o.log ++ s.log }

variable (o : Outcome) (s : State)

@[simp] theorem after_body : (s.after o).body = s.body := rfl

@[simp] theorem after_pending : (s.after o).pending = s.pending := rfl

@[simp] theorem after_errors : (s.after o).errors = o.errors + s.errors := rfl

@[simp] theorem after_closer : (s.after o).closer = s.closer := rfl

@[simp] theorem after_here (ctx : Context) : (s.after o).here ctx = s.here ctx := rfl

@[simp] theorem after_error (message : Text) :
    (s.after o).error message = (s.error message).after o := by
  simp [error, after, Nat.add_assoc]

@[simp] theorem after_warn (message : Text) :
    (s.after o).warn message = (s.warn message).after o := by
  simp [warn, after]

@[simp] theorem after_warnAll (messages : List Text) :
    (s.after o).warnAll messages = (s.warnAll messages).after o := by
  induction messages generalizing s with
  | nil => rfl
  | cons m messages ih => simpa [warnAll] using ih (s.warn m)

@[simp] theorem after_advance (t : Token) : (s.after o).advance t = (s.advance t).after o := by
  unfold advance
  split <;> rfl

@[simp] theorem after_startAnonymous :
    (s.after o).startAnonymous = s.startAnonymous.after o := by
  simp [startAnonymous, after]

@[simp] theorem after_append (body : Command.Body) (l : Location) :
    (s.after o).append body l = (s.append body l).after o := rfl

@[simp] theorem after_pending_update (p : Pending) :
    { s.after o with pending := p } = ({ s with pending := p } : State).after o := rfl

theorem outcome_after :
    (s.after o).outcome = ⟨o.chunks ++ s.outcome.chunks, o.errors + s.outcome.errors,
      o.lines + s.outcome.lines, o.log ++ s.outcome.log⟩ := by
  simp only [outcome, after, List.append_assoc, Outcome.mk.injEq, true_and, and_true]
  omega

/-- What does not look back takes no error back. -/
theorem errors_le_of_after {f : State → State} (h : ∀ o s, f (s.after o) = (f s).after o) :
    s.errors ≤ (f s).errors := by
  have hs : s = State.after ⟨[], s.errors, 0, []⟩ { s with errors := 0 } := by simp [after]
  have hf : (f s).errors = s.errors + (f { s with errors := 0 }).errors := by
    rw [congrArg f hs, h]
    rfl
  omega

end State

variable (ctx : Context) (o : Outcome) (s : State)

theorem enter_after (chunk : Chunk) (body : Body) :
    enter chunk body (s.after o) = (enter chunk body s).after o := by
  simp [enter, State.after]

theorem resume_after (t : Token) : resume ctx t (s.after o) = (resume ctx t s).after o := by
  unfold resume
  simp only [State.after_pending, State.after_pending_update]
  split
  · split <;> exact enter_after o s _ _
  · split
    · exact State.after_error o _ _
    · rfl
  · split
    · rfl
    · exact State.after_error o _ _
  · rfl

theorem expect_after (t : Token) : expect ctx (s.after o) t = (expect ctx s t).after o := by
  cases t <;> simp only [expect, State.after_pending, State.after_here, State.after_error] <;>
    split <;> exact resume_after ctx o _ _

theorem splice_after (path : Text) (l : Location) (inner : Outcome) (failure : Option Text) :
    splice path l inner failure (s.after o) = (splice path l inner failure s).after o := by
  have hcollect : ({ s.after o with
      errors := (s.after o).errors + inner.errors
      includedLines := (s.after o).includedLines + inner.lines
      log := (s.after o).log ++ inner.log } : State) = State.after o { s with
        errors := s.errors + inner.errors
        includedLines := s.includedLines + inner.lines
        log := s.log ++ inner.log } := by
    simp [State.after, Nat.add_assoc]
  unfold splice
  simp only [hcollect]
  cases failure with
  | none =>
    simp only [State.after_errors, gt_iff_lt, Nat.add_lt_add_iff_left]
    split <;> simp [State.after]
  | some cause =>
    simp only [State.after_error, State.after_errors, gt_iff_lt, Nat.add_lt_add_iff_left]
    split <;> simp [State.after]

theorem includeFile_after (path : Text) (l : Location) :
    includeFile ctx path l (s.after o) = (includeFile ctx path l s).after o := by
  unfold includeFile
  simp only [State.after_error, State.after_body, State.after_warn]
  split
  · rfl
  · split
    · rfl
    · split
      · rfl
      · split <;> rfl
      · exact splice_after o s path l _ _

theorem describe_after (kind : Chunk.Kind) (l : Location) (line : List Char) :
    describe ctx kind l line (s.after o) = (describe ctx kind l line s).after o := by
  cases h : OptionLine.chunk kind (Text.trimChars line) with
  | ok described =>
    obtain ⟨chunk, warnings⟩ := described
    by_cases hn : chunk.name = []
    · simp only [describe, h, hn, State.after_warnAll, State.after_warn, if_true]
      rfl
    · simp only [describe, h, hn, State.after_warnAll, if_false]
      rfl
  | error quote =>
    by_cases hn : (Chunk.ofKind kind (Text.ofChars (Text.trimChars line))).name = []
    · simp only [describe, h, hn, State.after_error, State.after_warn, if_true]
      rfl
    · simp only [describe, h, hn, State.after_error, if_false]
      rfl

theorem operand_after (span : List Char) :
    operand ctx (s.after o) span = (operand ctx s span).after o := by
  unfold operand
  simp only [State.after_pending]
  split
  · exact describe_after ctx o s _ _ span
  · rfl
  · rfl
  · by_cases hb : s.body = .code
    · have hb' : (s.after o).body = .code := hb
      rw [if_pos hb, if_pos hb']
      rfl
    · have hb' : (s.after o).body ≠ .code := hb
      rw [if_neg hb, if_neg hb']
      exact State.after_warn o { s with pending := .nothing } _
  · exact includeFile_after ctx o { s with pending := .nothing } _ _
  · rfl

theorem openChunk_after (kind : Chunk.Kind) (k : Control) :
    openChunk ctx kind k (s.after o) = (openChunk ctx kind k s).after o := by
  by_cases hb : s.body = .top
  · simp only [openChunk, State.after_body, hb, if_true]
    rfl
  · simp only [openChunk, State.after_body, hb, if_false, State.after_here, State.after_closer,
      State.after_error]
    rfl

theorem closeBody_after (k : Control) :
    closeBody ctx k (s.after o) = (closeBody ctx k s).after o := by
  by_cases hb : s.body = .top ∨ k = s.closer
  · simp only [closeBody, State.after_body, State.after_closer, hb, if_true,
      State.after_startAnonymous]
  · simp only [closeBody, State.after_body, State.after_closer, hb, if_false, State.after_here,
      State.after_warn, State.after_startAnonymous]

theorem crossReference_after (kind : CrossReference) (k : Control) (l : Location) :
    crossReference ctx kind k l (s.after o) = (crossReference ctx kind k l s).after o := by
  by_cases hb : s.body = .code
  · simp only [crossReference, State.after_body, hb, if_true, State.after_warn, State.after_append]
  · simp only [crossReference, State.after_body, hb, if_false, State.after_append]

theorem obey_after (l : Location) (t : Token) :
    obey ctx l (s.after o) t = (obey ctx l s t).after o := by
  cases t with
  | newline => rfl
  | literal span => rfl
  | control k =>
    cases k with
    | outputChunk => exact openChunk_after ctx o s _ _
    | namedChunk => exact openChunk_after ctx o s _ _
    | closeCode => exact closeBody_after ctx o s _
    | closeDocument => exact closeBody_after ctx o s _
    | fileIndex => exact crossReference_after ctx o s _ _ l
    | macroIndex => exact crossReference_after ctx o s _ _ l
    | identifierIndex => exact crossReference_after ctx o s _ _ l
    | openCode => exact State.after_error o s _
    | openDocument => exact State.after_error o s _
    | closeReference => exact State.after_error o s _
    | closeSubstitution => exact State.after_error o s _
    | _ => rfl

theorem retake_after (t : Token) : retake ctx (s.after o) t = (retake ctx s t).after o := by
  unfold retake
  simp only [State.after_pending, State.after_here]
  split
  · exact obey_after ctx o s _ t
  · exact expect_after ctx o s t

theorem step_after (t : Token) : step ctx (s.after o) t = (step ctx s t).after o := by
  unfold step
  simp only [State.after_pending, State.after_here, State.after_advance]
  split
  · exact obey_after ctx o _ _ t
  · exact expect_after ctx o _ t
  · exact expect_after ctx o _ t
  · exact expect_after ctx o _ t
  · split
    · exact operand_after ctx o _ _
    · rw [operand_after, retake_after]

theorem foldl_step_after (ts : List Token) :
    ts.foldl (step ctx) (s.after o) = (ts.foldl (step ctx) s).after o := by
  induction ts generalizing s with
  | nil => rfl
  | cons t ts ih => rw [List.foldl_cons, step_after, ih, List.foldl_cons]

theorem abandon_after : abandon ctx (s.after o) = (abandon ctx s).after o := by
  unfold abandon
  simp only [State.after_pending, State.after_here, State.after_error]
  split
  · exact enter_after o _ _ _
  · rfl
  · rfl
  · rfl

theorem finish_after : finish ctx (s.after o) = (finish ctx s).after o := by
  unfold finish
  simp only [operand_after, abandon_after, State.after_body]
  split
  · rfl
  · simp only [State.after_here, State.after_closer, State.after_error]
    rfl

end Literate.Reader
