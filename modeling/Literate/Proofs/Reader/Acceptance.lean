import Literate.Proofs.Reader.Faults
import Literate.Proofs.Reader.Frame

/-! The reader accepts its grammar: reading a source without includes adds no error exactly when its
tokens are a document of the grammar. Each step adds an error where the machine of the grammar
refuses the token, and otherwise goes where the machine goes. -/

namespace Literate

theorem OptionLine.kind_apply (s : Setting) (value : Text) (c : Chunk) :
    (s.apply value c).kind = c.kind := by
  cases s <;> rfl

theorem OptionLine.kind_applyWords (kind : Chunk.Kind) (ws : List Text) (acc : Chunk × List Text) :
    (applyWords kind ws acc).1.kind = acc.1.kind := by
  fun_induction applyWords kind ws acc <;> simp_all [kind_apply]

theorem OptionLine.kind_chunk {kind : Chunk.Kind} {line : List Char} {c : Chunk}
    {warnings : List Text} (h : chunk kind line = .ok (c, warnings)) : c.kind = kind := by
  unfold chunk at h
  cases hw : words line with
  | error q => simp [hw] at h
  | ok ws =>
    simp only [hw, Except.ok.injEq] at h
    rw [← congrArg (fun p => p.1.kind) h, kind_applyWords]
    rfl

namespace Reader

open Literate.Reader.Grammar

variable {ctx : Context} {s : State}

/-- A name that the context has a value for. -/
def Context.knows (ctx : Context) (name : List Char) : Bool :=
  (ctx.substitution? (Text.ofChars name) .none).isSome

theorem isSome_substitution? (name : List Char) (l : Location) :
    (ctx.substitution? (Text.ofChars name) l).isSome = ctx.knows name := by
  unfold Context.knows Context.substitution?
  split
  · rfl
  · split <;> rfl

theorem knows_iff (ctx : Context) (name : List Char) :
    ctx.knows name = true ↔ Known ctx.substitutions (Text.ofChars name) := by
  unfold Context.knows Context.substitution? Known
  split
  · simp_all
  · split
    · simp_all
    · simp_all [List.lookup_isSome_iff]

/-- Where the reader is in the grammar. -/
def State.mode (s : State) : Mode :=
  match s.pending with
  | .nothing | .identifiers | .includePath _ => .text (s.body != .top)
  | .options kind _ => .options kind
  | .opener chunk => .opener chunk.kind
  | .referenceName _ => .referenceName (s.body != .top)
  | .referenceEnd name _ => .referenceEnd (s.body != .top) name
  | .substitutionName _ => .substitutionName (s.body != .top)
  | .substitutionEnd name _ => .substitutionEnd (s.body != .top) name

/-- A state after a token: an error is added if the machine refuses, none if it goes on. -/
def Follows (s : State) (o : Option Mode) (u : State) : Prop :=
  match o with
  | some m => u.errors = s.errors ∧ u.mode = m ∧ ∀ l, u.pending ≠ .includePath l
  | none => s.errors < u.errors

theorem Follows.of_errors_eq {o : Option Mode} {t u : State} (h : Follows t o u)
    (he : t.errors = s.errors) : Follows s o u := by
  unfold Follows at h ⊢
  rwa [← he]

theorem obey_follows (hs : s.pending = .nothing) (l : Location) {t : Token}
    (ht : t ≠ .control .includeFile) :
    Follows s (s.mode.next ctx.knows t) (obey ctx l s t) := by
  cases t with
  | newline => simp [State.mode, hs, Mode.next, Follows, obey, State.appendText]
  | literal cs => simp [State.mode, hs, Mode.next, Follows, obey, State.appendText]
  | control k =>
    cases hb : s.body <;> cases k <;>
      simp_all [State.mode, Mode.next, Mode.obey, Follows, obey, State.appendText, extra, State.error,
        openChunk, closeBody, State.warn, State.startAnonymous, crossReference, State.append, State.closer]

theorem expect_wanted {k : Control} (hk : k ∈ wanted s.pending) :
    expect ctx s (.control k) = resume ctx (.control k) s := by
  simp [expect, hk]

theorem errors_lt_expect {t : Token} (hn : t ≠ .newline)
    (hw : ∀ k ∈ wanted s.pending, t ≠ .control k) : s.errors < (expect ctx s t).errors := by
  have hany : ((wanted s.pending).any fun k => t == .control k) = false := by
    simpa using hw
  have hresume : expect ctx s t = resume ctx t (s.error (atPlace (s.here ctx)
      (expectedMessage ctx (wanted s.pending) (t.text ctx.command)))) := by
    cases t with
    | newline => exact absurd rfl hn
    | literal cs => simp [expect]
    | control k =>
      simp only [expect, hany]
      rfl
  rw [hresume]
  exact Nat.lt_of_succ_le (State.errors_le_of_after (s.error _) fun o u => resume_after ctx o u t)

/-- Waiting for a control follows the machine if going on after that control does. -/
theorem expect_follows (want : Control → Bool) (there : Mode)
    (hnext : ∀ t, s.mode.next ctx.knows t = Mode.await want s.mode there t)
    (hquiet : ∀ l, s.pending ≠ .includePath l)
    (hother : ∀ k, k ∉ wanted s.pending → want k = false)
    (hgo : ∀ k ∈ wanted s.pending,
      Follows s (if want k then some there else none) (resume ctx (.control k) s)) (t : Token) :
    Follows s (s.mode.next ctx.knows t) (expect ctx s t) := by
  rw [hnext]
  cases t with
  | newline => exact ⟨rfl, rfl, hquiet⟩
  | literal cs => exact errors_lt_expect (by simp) (by simp)
  | control k =>
    by_cases hk : k ∈ wanted s.pending
    · rw [expect_wanted hk]
      exact hgo k hk
    · have hlt : s.errors < (expect ctx s (.control k)).errors :=
        errors_lt_expect (by simp) fun j hj hkj => hk (by rwa [Token.control.inj hkj])
      rw [Mode.await, hother k hk]
      exact hlt

theorem expect_opener_follows {chunk : Chunk} (hs : s.pending = .opener chunk) (t : Token) :
    Follows s (s.mode.next ctx.knows t) (expect ctx s t) := by
  have hmode : s.mode = .opener chunk.kind := by simp [State.mode, hs]
  apply expect_follows (Mode.opens chunk.kind) (.text true)
  · intro t
    rw [hmode]
    rfl
  · simp [hs]
  · intro k hk
    by_cases hn : chunk.kind = .named <;> simp_all [wanted, openers, Mode.opens]
  · intro k hk
    by_cases hn : chunk.kind = .named
    · rcases (by simpa [wanted, openers, hs, hn] using hk : k = .openCode ∨ k = .openDocument)
        with rfl | rfl <;>
        simp [Mode.opens, hn, Follows, resume, hs, enter, State.mode]
    · obtain rfl : k = .openCode := by simpa [wanted, openers, hs, hn] using hk
      simp [Mode.opens, Follows, resume, hs, enter, State.mode]

theorem expect_referenceEnd_follows {name : List Char} {l : Location}
    (hs : s.pending = .referenceEnd name l) (t : Token) :
    Follows s (s.mode.next ctx.knows t) (expect ctx s t) := by
  have hmode : s.mode = .referenceEnd (s.body != .top) name := by simp [State.mode, hs]
  apply expect_follows (fun k => k == .closeReference && name != []) (.text (s.body != .top))
  · intro t
    rw [hmode]
    rfl
  · simp [hs]
  · intro k hk
    simp_all [wanted]
  · intro k hk
    obtain rfl : k = .closeReference := by simpa [wanted, hs] using hk
    by_cases hn : name = [] <;>
      simp [hn, Follows, resume, hs, State.error, State.append, State.mode]

theorem expect_substitutionEnd_follows {name : List Char} {l : Location}
    (hs : s.pending = .substitutionEnd name l) (t : Token) :
    Follows s (s.mode.next ctx.knows t) (expect ctx s t) := by
  have hmode : s.mode = .substitutionEnd (s.body != .top) name := by simp [State.mode, hs]
  apply expect_follows (fun k => k == .closeSubstitution && ctx.knows name)
    (.text (s.body != .top))
  · intro t
    rw [hmode]
    rfl
  · simp [hs]
  · intro k hk
    simp_all [wanted]
  · intro k hk
    obtain rfl : k = .closeSubstitution := by simpa [wanted, hs] using hk
    rw [← isSome_substitution? name l]
    cases hv : ctx.substitution? (Text.ofChars name) l <;>
      simp [hv, Follows, resume, hs, State.error, State.appendText, State.mode]

@[simp] theorem errors_warnAll (s : State) (messages : List Text) :
    (s.warnAll messages).errors = s.errors := by
  induction messages generalizing s with
  | nil => rfl
  | cons m messages ih => exact ih (s.warn m)

theorem describe_follows (kind : Chunk.Kind) (l : Location) (line : List Char) :
    Follows s (match OptionLine.words (Text.trimChars line) with
      | .ok _ => some (.opener kind)
      | .error _ => none) (describe ctx kind l line s) := by
  cases hw : OptionLine.words (Text.trimChars line) with
  | error q =>
    have hchunk : OptionLine.chunk kind (Text.trimChars line) = .error q := by
      simp [OptionLine.chunk, hw]
    simp only [describe, hchunk, Follows]
    split <;> simp [State.warn, State.error]
  | ok ws =>
    obtain ⟨chunk, warnings, hchunk⟩ : ∃ chunk warnings,
        OptionLine.chunk kind (Text.trimChars line) = .ok (chunk, warnings) := by
      simp only [OptionLine.chunk, hw]
      exact ⟨_, _, rfl⟩
    have hkind := OptionLine.kind_chunk hchunk
    simp only [describe, hchunk, Follows]
    split <;> simp [State.warn, State.mode, hkind]

namespace Pending

/-- A literal that follows is an operand. -/
def TakesOperand : Pending → Prop
  | .options _ _ | .referenceName _ | .substitutionName _ | .identifiers => True
  | _ => False

/-- The next token is obeyed or compared with what is wanted. -/
def Settled : Pending → Prop
  | .nothing | .opener _ | .referenceEnd _ _ | .substitutionEnd _ _ => True
  | _ => False

theorem takesOperand_or_settled {p : Pending} (h : ∀ l, p ≠ .includePath l) :
    p.TakesOperand ∨ p.Settled := by
  cases p <;> simp_all [TakesOperand, Settled]

end Pending

theorem operand_follows (hs : s.pending.TakesOperand) (cs : List Char) :
    Follows s (s.mode.next ctx.knows (.literal cs)) (operand ctx s cs) := by
  cases hp : s.pending with
  | options kind l =>
    have hmode : s.mode = .options kind := by simp [State.mode, hp]
    have hoperand : operand ctx s cs = describe ctx kind l cs s := by simp [operand, hp]
    rw [hmode, hoperand]
    exact describe_follows kind l cs
  | referenceName l => simp [State.mode, hp, operand, Mode.next, Follows]
  | substitutionName l => simp [State.mode, hp, operand, Mode.next, Follows]
  | identifiers =>
    by_cases hb : s.body = .code <;>
      simp [State.mode, hp, operand, hb, Mode.next, Follows, State.warn]
  | _ => simp [hp, Pending.TakesOperand] at hs

/-- Without a literal the reader goes on as after an empty one. -/
theorem operand_nil (ctx : Context) (hs : s.pending.TakesOperand) :
    (operand ctx s []).errors = s.errors ∧ (operand ctx s []).mode = s.mode.waiting ∧
      (operand ctx s []).pending.Settled := by
  cases hp : s.pending with
  | options kind l =>
    have hoperand : operand ctx s [] = describe ctx kind l [] s := by simp [operand, hp]
    obtain ⟨he, hm, -⟩ : Follows s (some (.opener kind)) (describe ctx kind l [] s) :=
      describe_follows kind l []
    have hmode : s.mode = .options kind := by simp [State.mode, hp]
    rw [hoperand, hm, hmode]
    exact ⟨he, rfl, trivial⟩
  | referenceName l =>
    simp [State.mode, hp, operand, Mode.waiting, Pending.Settled, Text.trimChars, Text.strip]
  | substitutionName l =>
    simp [State.mode, hp, operand, Mode.waiting, Pending.Settled, Text.trimChars, Text.strip]
  | identifiers =>
    by_cases hb : s.body = .code <;>
      simp [State.mode, hp, operand, hb, Mode.waiting, Pending.Settled, State.warn]
  | _ => simp [hp, Pending.TakesOperand] at hs

theorem retake_follows (hs : s.pending.Settled) {t : Token} (ht : t ≠ .control .includeFile) :
    Follows s (s.mode.next ctx.knows t) (retake ctx s t) := by
  cases hp : s.pending with
  | nothing =>
    simp only [retake, hp]
    exact obey_follows hp _ ht
  | opener chunk =>
    simp only [retake, hp]
    exact expect_opener_follows hp t
  | referenceEnd name l =>
    simp only [retake, hp]
    exact expect_referenceEnd_follows hp t
  | substitutionEnd name l =>
    simp only [retake, hp]
    exact expect_substitutionEnd_follows hp t
  | _ => simp [hp, Pending.Settled] at hs

theorem advance_pending (t : Token) : (s.advance t).pending = s.pending := by
  unfold State.advance
  split <;> rfl

theorem advance_mode (t : Token) : (s.advance t).mode = s.mode := by
  unfold State.advance
  split <;> rfl

theorem advance_errors (t : Token) : (s.advance t).errors = s.errors := by
  unfold State.advance
  split <;> rfl

/-- The reader follows the machine of the grammar. -/
theorem step_follows (ctx : Context) (hs : ∀ l, s.pending ≠ .includePath l) {t : Token}
    (ht : t ≠ .control .includeFile) :
    Follows s (s.mode.next ctx.knows t) (step ctx s t) := by
  have hpending := advance_pending (s := s) t
  rw [← advance_mode t]
  refine Follows.of_errors_eq ?_ (advance_errors t)
  rcases Pending.takesOperand_or_settled hs with hoperand | hsettled
  · have hcounted : (s.advance t).pending.TakesOperand := by rwa [hpending]
    by_cases hl : ∃ cs, t = .literal cs
    · obtain ⟨cs, rfl⟩ := hl
      have hstep : step ctx s (.literal cs) = operand ctx (s.advance (.literal cs)) cs := by
        cases hp : s.pending <;> simp_all [step, Pending.TakesOperand]
      rw [hstep]
      exact operand_follows hcounted cs
    · have hl' : ∀ cs, t ≠ .literal cs := fun cs h => hl ⟨cs, h⟩
      have hstep : step ctx s t = retake ctx (operand ctx (s.advance t) []) t := by
        cases hp : s.pending <;> cases t <;> simp_all [step, Pending.TakesOperand]
      obtain ⟨he, hm, hset⟩ := operand_nil ctx hcounted
      rw [hstep, ← Mode.next_waiting ctx.knows _ hl', ← hm]
      exact (retake_follows hset ht).of_errors_eq he
  · by_cases hn : s.pending = .nothing
    · simp only [step, hn]
      exact obey_follows (hpending.trans hn) _ ht
    · have hstep : step ctx s t = retake ctx (s.advance t) t := by
        cases hp : s.pending <;> simp_all [step, retake, Pending.Settled]
      rw [hstep]
      exact retake_follows (by rwa [hpending]) ht

theorem operand_settled (hs : s.pending.Settled) (cs : List Char) : operand ctx s cs = s := by
  cases hp : s.pending <;> simp_all [operand, Pending.Settled]

theorem finish_settled (hs : s.pending.Settled) :
    (finish ctx s).errors = s.errors ↔ s.mode = .text false := by
  rw [finish, operand_settled hs]
  cases hp : s.pending with
  | nothing => by_cases hb : s.body = .top <;> simp [abandon, hp, hb, State.mode, State.error]
  | opener chunk => simp [abandon, hp, enter, State.mode, State.error]
  | referenceEnd name l =>
    by_cases hb : s.body = .top <;> simp [abandon, hp, hb, State.mode, State.error, Nat.add_assoc]
  | substitutionEnd name l =>
    by_cases hb : s.body = .top <;> simp [abandon, hp, hb, State.mode, State.error, Nat.add_assoc]
  | _ => simp [hp, Pending.Settled] at hs

/-- A source may end where the machine does. -/
theorem finish_follows (hs : ∀ l, s.pending ≠ .includePath l) :
    (finish ctx s).errors = s.errors ↔ s.mode = .text false := by
  rcases Pending.takesOperand_or_settled hs with hoperand | hsettled
  · obtain ⟨he, hm, hset⟩ := operand_nil ctx hoperand
    have hfinish : finish ctx s = finish ctx (operand ctx s []) := by
      simp only [finish, operand_settled hset]
    have hwait : s.mode.waiting = .text false ↔ s.mode = .text false := by
      cases s.mode <;> simp [Mode.waiting]
    rw [hfinish, ← he, finish_settled hset, hm, hwait]
  · exact finish_settled hsettled

theorem errors_le_finish (ctx : Context) (s : State) (ts : List Token) :
    s.errors ≤ (finish ctx (ts.foldl (step ctx) s)).errors := by
  refine State.errors_le_of_after s (f := fun s => finish ctx (ts.foldl (step ctx) s)) ?_
  intro o s
  rw [foldl_step_after, finish_after]

/-- Reading on from a state adds no error exactly if the machine accepts what is left. -/
theorem errors_finish_eq_iff {ts : List Token} (hts : .control .includeFile ∉ ts)
    (hs : ∀ l, s.pending ≠ .includePath l) :
    (finish ctx (ts.foldl (step ctx) s)).errors = s.errors ↔ ts ∈ faultless ctx.knows s.mode := by
  induction ts generalizing s with
  | nil => simpa using finish_follows hs
  | cons t ts ih =>
    have ht : t ≠ .control .includeFile := fun h => hts (by simp [h])
    have hrest : .control .includeFile ∉ ts := fun h => hts (by simp [h])
    have hfollow := step_follows ctx hs ht
    rw [List.foldl_cons, cons_mem_faultless]
    cases hm : s.mode.next ctx.knows t with
    | none =>
      rw [hm] at hfollow
      have hlt : s.errors < (step ctx s t).errors := hfollow
      have hle := errors_le_finish ctx (step ctx s t) ts
      simp only [reduceCtorEq, false_and, exists_false, iff_false]
      omega
    | some m =>
      rw [hm] at hfollow
      obtain ⟨he, rfl, hq⟩ := hfollow
      rw [← he, ih hrest hq]
      simp

theorem errors_readTokens_eq_zero_iff {ts : List Token} (hts : .control .includeFile ∉ ts) :
    (readTokens ctx ts).errors = 0 ↔ ts ∈ document ctx.substitutions := by
  have hstart : ∀ l, ({} : State).pending ≠ .includePath l := by simp
  rw [← faultless_outside (knows_iff ctx)]
  exact errors_finish_eq_iff hts hstart

/-- A source without includes is loaded without an error exactly if its tokens are a document of the
grammar; so what the grammar refuses is an error and what it lets pass is none. -/
theorem load_errors_eq_zero_iff (options : Options) (tree : FileTree) (name : Text) (source : Source)
    (hi : .control .includeFile ∉ Token.ofText options.command source.bytes) :
    ((load options tree name source).errors = 0 ↔
      Token.ofText options.command source.bytes ∈ document options.substitutions) ∧
    Strict options.substitutions := by
  obtain ⟨ctx, hctx, hread⟩ : ∃ ctx : Context, ctx.substitutions = options.substitutions ∧
      (load options tree name source).errors =
        (readTokens ctx (Token.ofText options.command source.bytes)).errors := by
    rw [load, includeDepth, readSource]
    exact ⟨_, rfl, rfl⟩
  rw [hread, ← hctx]
  exact ⟨errors_readTokens_eq_zero_iff hi, strict (knows_iff ctx)⟩

/-- A body that is closed by the other control, a closing control between chunks, and a reference
and a substitution in prose. -/
def closings : Text := "@d a\n\n@\x7bx@<b\n@>@] @\x7d@(theFile@)"

theorem load_errors_eq_zero_iff_closings :
    .control .includeFile ∉ Token.ofText '@' closings ∧
    (load {} ⟨[], []⟩ "a.w" ⟨closings, none⟩).errors = 0 ∧
    Token.ofText '@' closings ∈ document [] :=
  ⟨by decide, by decide,
    (load_errors_eq_zero_iff {} ⟨[], []⟩ "a.w" ⟨closings, none⟩ (by decide)).1.mp (by decide)⟩

end Reader

end Literate
