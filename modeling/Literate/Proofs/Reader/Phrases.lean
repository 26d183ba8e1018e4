import Mathlib.Data.List.Induction
import Literate.Proofs.Reader.Acceptance
import Literate.Proofs.Reader.Splicing

/-! Phrases: a token that begins something, with the operand, the newlines and the closing control
that belong to it. Where a phrase begins can be told from the tokens alone, and the reader waits
for just what may go on with it. -/

namespace Literate.Reader

/-- What may go on with a phrase. -/
inductive Awaited where
  | nothing
  | operand
  /-- An operand, and after it a closing control. -/
  | name
  /-- A closing control. Newlines before it are passed over. -/
  | closing
deriving DecidableEq, Repr

namespace Awaited

/-- What may follow a token that begins a phrase. -/
def first : Token → Awaited
  | .control .identifiers | .control .includeFile => .operand
  | .control .openReference | .control .openSubstitution => .name
  | .control .outputChunk | .control .namedChunk => .name
  | _ => .nothing

/-- A token goes on with the phrase. Whatever stands in the place of a closing control does. -/
def takes : Awaited → Token → Bool
  | .nothing, _ => false
  | .operand, .literal _ => true
  | .operand, _ => false
  | _, _ => true

def next : Awaited → Token → Awaited
  | .operand, .literal _ => .nothing
  | .name, .literal _ | .name, .newline | .closing, .newline => .closing
  | .name, .control _ | .closing, .control _ | .closing, .literal _ => .nothing
  | _, t => first t

theorem next_of_takes_false {w : Awaited} {t : Token} (h : w.takes t = false) :
    w.next t = first t := by
  cases w <;> cases t <;> simp_all [takes, next]

end Awaited

/-- What may go on after some tokens. -/
def awaited (ts : List Token) : Awaited := ts.foldl Awaited.next .nothing

theorem awaited_concat (ts : List Token) (t : Token) : awaited (ts ++ [t]) = (awaited ts).next t := by
  simp [awaited]

/-- A phrase that begins after some tokens, or as much of it as was read. -/
inductive Phrase (before : List Token) : List Token → Prop
  | first {t : Token} (h : (awaited before).takes t = false) : Phrase before [t]
  | more {phrase : List Token} {t : Token} (h : Phrase before phrase)
    (ht : (awaited (before ++ phrase)).takes t = true) : Phrase before (phrase ++ [t])

namespace Phrase

variable {before phrase : List Token}

theorem exists_first (h : Phrase before phrase) :
    ∃ t ∈ phrase.head?, (awaited before).takes t = false := by
  induction h with
  | first ht => exact ⟨_, rfl, ht⟩
  | more _ _ ih =>
    obtain ⟨u, hu, hfirst⟩ := ih
    exact ⟨u, by simp [Option.mem_def.mp hu], hfirst⟩

theorem ne_nil (h : Phrase before phrase) : phrase ≠ [] := by
  obtain ⟨t, ht, -⟩ := h.exists_first
  rintro rfl
  cases ht

theorem exists_split {ts : List Token} (h : ts ≠ []) :
    ∃ before phrase, ts = before ++ phrase ∧ Phrase before phrase := by
  induction ts using List.reverseRecOn with
  | nil => exact absurd rfl h
  | append_singleton ts t ih =>
    cases ht : (awaited ts).takes t with
    | false => exact ⟨ts, [t], rfl, .first ht⟩
    | true =>
      have hne : ts ≠ [] := by
        rintro rfl
        simp [awaited, Awaited.takes] at ht
      obtain ⟨before, phrase, hts, hphrase⟩ := ih hne
      exact ⟨before, phrase ++ [t], by simp [hts], hphrase.more (hts ▸ ht)⟩

end Phrase

def Pending.awaited : Pending → Awaited
  | .nothing => .nothing
  | .identifiers | .includePath _ => .operand
  | .options _ _ | .referenceName _ | .substitutionName _ => .name
  | .opener _ | .referenceEnd _ _ | .substitutionEnd _ _ => .closing

variable {ctx : Context} {s : State}

theorem pending_resume (hs : s.pending.awaited = .closing) (t : Token) :
    (resume ctx t s).pending = .nothing := by
  unfold resume
  split
  · split <;> rfl
  · dsimp only
    split <;> rfl
  · dsimp only
    split <;> rfl
  next hopener hreference hsubstitution =>
    cases hp : s.pending <;> simp_all [Pending.awaited]

theorem awaited_expect (hs : s.pending.awaited = .closing) (t : Token) :
    (expect ctx s t).pending.awaited = Awaited.next .closing t := by
  have hresume : ∀ (s : State) (t : Token), s.pending.awaited = .closing →
      (resume ctx t s).pending.awaited = .nothing := by
    intro s t hs
    rw [pending_resume hs]
    rfl
  cases t with
  | newline => exact hs
  | control k =>
    simp only [expect]
    split
    · exact hresume s _ hs
    · exact hresume (s.error _) _ hs
  | literal span =>
    simp only [expect]
    split
    · exact hresume s _ hs
    · exact hresume (s.error _) _ hs

theorem pending_includeFile (path : Text) (l : Location) :
    (includeFile ctx path l s).pending = s.pending := by
  unfold includeFile
  split
  · rfl
  · split
    · rfl
    · split
      · rfl
      · split <;> rfl
      next o failure _ => cases failure <;> simp only [splice] <;> split <;> rfl

theorem awaited_operand_name (hs : s.pending.awaited = .name) (span : List Char) :
    (operand ctx s span).pending.awaited = .closing := by
  cases hp : s.pending with
  | options kind l => simp [operand, hp, describe, Pending.awaited]
  | referenceName l => simp [operand, hp, Pending.awaited]
  | substitutionName l => simp [operand, hp, Pending.awaited]
  | _ => simp [hp, Pending.awaited] at hs

theorem pending_operand (hs : s.pending.awaited = .operand) (span : List Char) :
    (operand ctx s span).pending = .nothing := by
  cases hp : s.pending with
  | identifiers =>
    simp only [operand, hp]
    split <;> rfl
  | includePath l =>
    simp only [operand, hp]
    exact pending_includeFile _ _
  | _ => simp [hp, Pending.awaited] at hs

theorem awaited_obey (hs : s.pending = .nothing) (l : Location) (t : Token) :
    (obey ctx l s t).pending.awaited = Awaited.first t := by
  have hnothing : s.pending.awaited = .nothing := by simp [hs, Pending.awaited]
  cases t with
  | newline => exact hnothing
  | literal span => exact hnothing
  | control k =>
    cases k <;> simp only [obey, openChunk, closeBody, crossReference] <;>
      first | rfl | exact hnothing | (split <;> exact hnothing)

theorem pending_eq_nothing (hs : s.pending.awaited = .nothing) : s.pending = .nothing := by
  cases hp : s.pending <;> simp [hp, Pending.awaited] at hs
  rfl

/-! The three ways to take a token: it begins a phrase, it is compared with what is wanted, or it is
looked at as an operand. -/

theorem step_nothing (hs : s.pending.awaited = .nothing) (t : Token) :
    step ctx s t = obey ctx (s.here ctx) (s.advance t) t := by
  simp only [step, pending_eq_nothing hs]

theorem step_closing (hs : s.pending.awaited = .closing) (t : Token) :
    step ctx s t = expect ctx (s.advance t) t := by
  cases hp : s.pending <;> simp_all [step, Pending.awaited]

theorem step_literal (hs : s.pending.awaited = .name ∨ s.pending.awaited = .operand)
    (span : List Char) : step ctx s (.literal span) = operand ctx s span := by
  cases hp : s.pending <;> simp_all [step, Pending.awaited, State.advance]

theorem step_name (hs : s.pending.awaited = .name) {t : Token} (ht : ∀ span, t ≠ .literal span) :
    step ctx s t = expect ctx (operand ctx (s.advance t) []) t := by
  have hset : (operand ctx (s.advance t) []).pending.awaited = .closing :=
    awaited_operand_name (by rwa [advance_pending]) []
  have hretake : step ctx s t = retake ctx (operand ctx (s.advance t) []) t := by
    cases hp : s.pending <;> cases t <;> simp_all [step, Pending.awaited]
  rw [hretake, retake]
  split
  next hp => simp [hp, Pending.awaited] at hset
  · rfl

theorem step_operand (hs : s.pending.awaited = .operand) {t : Token}
    (ht : ∀ span, t ≠ .literal span) :
    step ctx s t = obey ctx ((s.advance t).here ctx) (operand ctx (s.advance t) []) t := by
  have hset : (operand ctx (s.advance t) []).pending = .nothing :=
    pending_operand (by rwa [advance_pending]) []
  have hretake : step ctx s t = retake ctx (operand ctx (s.advance t) []) t := by
    cases hp : s.pending <;> cases t <;> simp_all [step, Pending.awaited]
  rw [hretake, retake, hset]
  simp only [State.here, newlines_operand]

/-- The reader waits for what may go on with the phrase. -/
theorem awaited_step (ctx : Context) (s : State) (t : Token) :
    (step ctx s t).pending.awaited = s.pending.awaited.next t := by
  have hcounted : (s.advance t).pending = s.pending := advance_pending t
  cases hw : s.pending.awaited with
  | nothing =>
    rw [step_nothing hw]
    exact awaited_obey (hcounted.trans (pending_eq_nothing hw)) _ t
  | closing =>
    rw [step_closing hw]
    exact awaited_expect (by rwa [hcounted]) t
  | name =>
    cases t with
    | literal span =>
      rw [step_literal (.inl hw)]
      exact awaited_operand_name hw span
    | newline =>
      rw [step_name hw (by simp), awaited_expect (awaited_operand_name (by rwa [hcounted]) [])]
      rfl
    | control k =>
      rw [step_name hw (by simp), awaited_expect (awaited_operand_name (by rwa [hcounted]) [])]
      rfl
  | operand =>
    cases t with
    | literal span =>
      rw [step_literal (.inr hw), pending_operand hw]
      rfl
    | newline =>
      rw [step_operand hw (by simp), awaited_obey (pending_operand (by rwa [hcounted]) [])]
      rfl
    | control k =>
      rw [step_operand hw (by simp), awaited_obey (pending_operand (by rwa [hcounted]) [])]
      rfl

theorem awaited_foldl_step (ctx : Context) (ts : List Token) :
    (ts.foldl (step ctx) {}).pending.awaited = awaited ts := by
  induction ts using List.reverseRecOn with
  | nil => rfl
  | append_singleton ts t ih =>
    rw [List.foldl_append, List.foldl_cons, List.foldl_nil, awaited_step, ih, awaited_concat]

end Literate.Reader
