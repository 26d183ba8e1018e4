import Literate.Proofs.Reader.Origins
import Literate.Proofs.Reader.Shift

/-! Recovery from errors. The control that closes a body forgets whatever stands before it: an open
body, a chunk without one, and all that was in error. What follows is read from the beginning, but
for the line. -/

namespace Literate.Reader

variable {ctx : Context} {s : State}

/-- Where no operand and no closing control is looked up, nothing is pending but an operand that is
missing. -/
theorem pending_operand_of_untaken {t : Token} (h : s.pending.awaited.takes t = false) :
    (operand ctx s []).pending = .nothing := by
  cases hw : s.pending.awaited with
  | nothing =>
    have hs := pending_eq_nothing hw
    simp [operand, hs]
  | operand => exact pending_operand hw []
  | name | closing => simp [hw, Awaited.takes] at h

/-- Of what was read before it a closing control leaves what was collected. -/
theorem closeBody_eq_after (hs : s.pending = .nothing) (k : Control) :
    closeBody ctx k s = State.after
      ⟨s.before ++ [s.current], s.errors, s.includedLines, (closeBody ctx k s).log⟩
      { newlines := s.newlines } := by
  unfold closeBody
  split <;> simp [State.startAnonymous, State.warn, State.after, hs]

theorem step_closing_control {k : Control} (hk : k = .closeCode ∨ k = .closeDocument)
    (h : s.pending.awaited.takes (.control k) = false) :
    step ctx s (.control k) = closeBody ctx k (operand ctx s []) := by
  have hpending : (operand ctx s []).pending = .nothing := pending_operand_of_untaken h
  rw [step_control, retake]
  simp only [hpending]
  rcases hk with rfl | rfl <;> rfl

/-- A control that closes a body, read as such and not where an operand or another control is looked
up, is a point of synchronisation. Whatever stands before it, the source gives what was collected up
to it, and then what the rest gives when it is read by itself, further down by the lines before. -/
theorem outcome_closing (options : Options) (tree : FileTree) (r : Reading)
    {before after : List Token} {k : Control} (hk : k = .closeCode ∨ k = .closeDocument)
    (htokens : r.tokens options = before ++ [.control k] ++ after)
    (hread : (awaited before).takes (.control k) = false) :
    let ctx := r.context options tree
    let first := operand ctx (readTo ctx before) []
    let rest := readFrom ctx (Token.newlines before) after
    r.outcome options tree =
      { chunks := first.before ++ [first.current] ++ rest.chunks
        errors := first.errors + rest.errors
        lines := first.includedLines + rest.lines
        log := (closeBody ctx k first).log ++ rest.log } ∧
      Outcome.Moved ctx.name (Token.newlines before) (readTokens ctx after) rest := by
  intro ctx first rest
  refine ⟨?_, readFrom_moved ctx _ after⟩
  have hpending : first.pending = .nothing :=
    pending_operand_of_untaken (by rwa [awaited_readTo])
  have hlines : first.newlines = Token.newlines before := by
    simp [first, newlines_operand, readTo, newlines_foldl_step]
  have hstep : step ctx (readTo ctx before) (.control k) = closeBody ctx k first :=
    step_closing_control hk (by rwa [awaited_readTo])
  rw [closeBody_eq_after hpending, hlines] at hstep
  rw [r.outcome_eq, htokens, readTokens, List.foldl_append, ← readTo, readTo_concat, hstep,
    foldl_step_after, finish_after, State.outcome_after]
  rfl

/-- A reference that is not closed takes the first control that closes its chunk, with an error; the
second is read as such. -/
theorem outcome_closing_unclosed :
    let source : Source := ⟨"@o f @\x7b@<a\n@\x7d@]t", none⟩
    let r := Reading.start ⟨[], []⟩ "m.w" source
    let before := [.control .outputChunk, .literal [' ', 'f', ' '], .control .openCode,
      .control .openReference, .literal ['a'], .newline, .control .closeCode]
    let ctx := r.context {} ⟨[], []⟩
    let first := operand ctx (readTo ctx before) []
    let rest := readFrom ctx 1 [.literal ['t']]
    r.tokens {} = before ++ [.control .closeDocument] ++ [.literal ['t']] ∧
      (awaited before).takes (.control .closeDocument) = false ∧ first.body = .code ∧
      first.errors = 1 ∧ r.outcome {} ⟨[], []⟩ =
        { chunks := first.before ++ [first.current] ++ rest.chunks
          errors := first.errors + rest.errors
          lines := first.includedLines + rest.lines
          log := (closeBody ctx .closeDocument first).log ++ rest.log } ∧
      Outcome.Moved ctx.name 1 (readTokens ctx [.literal ['t']]) rest := by
  intro source r before ctx first rest
  have htokens : r.tokens {} = before ++ [.control .closeDocument] ++ [.literal ['t']] := by decide
  exact ⟨htokens, rfl, by decide, by decide,
    outcome_closing {} ⟨[], []⟩ r (.inr rfl) htokens rfl⟩

end Literate.Reader
