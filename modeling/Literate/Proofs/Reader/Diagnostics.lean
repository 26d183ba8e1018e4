import Literate.Proofs.Reader.Sources

/-! What the reader counts is what it reports: it has counted no error exactly if it has logged
none, in the source itself and in all that it includes. -/

namespace Literate

namespace Log

@[simp] theorem debug_lt_error : debug < error := by decide

@[simp] theorem info_lt_error : info < error := by decide

@[simp] theorem warn_lt_error : warn < error := by decide

/-- No error is among the records. -/
def Quiet (rs : List Record) : Prop := ∀ r ∈ rs, r.level < error

@[simp] theorem quiet_nil : Quiet [] := by simp [Quiet]

@[simp] theorem quiet_append {rs ss : List Record} : Quiet (rs ++ ss) ↔ Quiet rs ∧ Quiet ss := by
  simp [Quiet, or_imp, forall_and]

@[simp] theorem quiet_singleton {r : Record} : Quiet [r] ↔ r.level < error := by simp [Quiet]

theorem quiet_all {common : List Attribute} {rs : List Record} :
    Quiet (all common rs) ↔ Quiet rs := by
  simp [Quiet, all, Record.under]

theorem Tally.errors_count (t : Tally) (r : Record) :
    (t.count r).errors = t.errors + if r.level < error then 0 else 1 := by
  unfold Tally.count
  by_cases hr : r.level < error
  · rw [if_neg (Int.not_le.2 hr), if_pos hr]
    split <;> rfl
  · rw [if_pos (Int.not_lt.1 hr), if_neg hr]

theorem Tally.errors_of_eq_zero {rs : List Record} : (Tally.of rs).errors = 0 ↔ Quiet rs := by
  have hfold : ∀ t : Tally, (rs.foldl Tally.count t).errors = 0 ↔ t.errors = 0 ∧ Quiet rs := by
    induction rs with
    | nil => simp
    | cons r rs ih =>
      intro t
      have hquiet : Quiet (r :: rs) ↔ r.level < error ∧ Quiet rs := by simp [Quiet]
      rw [List.foldl_cons, ih, Tally.errors_count, hquiet]
      by_cases hr : r.level < error
      · simp [hr]
      · simp [hr]
  simpa [Tally.of] using hfold {}

end Log

namespace Reader

open Log (Quiet)

/-- An outcome has counted an error exactly if it has logged one. -/
def Outcome.Told (o : Outcome) : Prop := o.errors = 0 ↔ Quiet o.log

def State.Told (s : State) : Prop := s.errors = 0 ↔ Quiet s.log

def Context.Told (ctx : Context) : Prop :=
  ∀ path outcome failure, ctx.fetch path = .read outcome failure → outcome.Told

variable {ctx : Context} {s : State}

namespace State

theorem told_error (s : State) (message : Text) : (s.error message).Told := by
  simp [Told, error]

theorem Told.warn (h : s.Told) (message : Text) : (s.warn message).Told := by
  simpa [Told, State.warn] using h

theorem Told.warnAll (h : s.Told) (messages : List Text) : (s.warnAll messages).Told := by
  induction messages generalizing s with
  | nil => exact h
  | cons m messages ih => exact ih (h.warn m)

theorem Told.advance (h : s.Told) (t : Token) : (s.advance t).Told := by
  unfold State.advance
  split <;> exact h

end State

open State (told_error)

theorem resume_told (h : s.Told) (t : Token) : (resume ctx t s).Told := by
  unfold resume
  split
  · split <;> exact h
  · dsimp only
    split
    · exact told_error _ _
    · exact h
  · dsimp only
    split
    · exact h
    · exact told_error _ _
  · exact h

theorem expect_told (h : s.Told) (t : Token) : (expect ctx s t).Told := by
  cases t with
  | newline => exact h
  | control k =>
    simp only [expect]
    split
    · exact resume_told h _
    · exact resume_told (told_error _ _) _
  | literal span =>
    simp only [expect]
    split
    · exact resume_told h _
    · exact resume_told (told_error _ _) _

/-- The notice about an included source is not counted, but it follows errors that are. -/
theorem splice_told (h : s.Told) (path : Text) (l : Location) {o : Outcome} (ho : o.Told)
    (failure : Option Text) : (splice path l o failure s).Told := by
  have hnotice : ∀ (u : State) (r : Log.Record), u.Told → r.level = Log.error →
      (if u.errors > s.errors then { u with log := u.log ++ [r] } else u).Told := by
    intro u r hu hr
    split
    next hmore =>
      have herrors : u.errors ≠ 0 := by omega
      simp [State.Told, herrors, hr]
    · exact hu
  have hboth : ({ s with
      errors := s.errors + o.errors
      includedLines := s.includedLines + o.lines
      log := s.log ++ o.log } : State).Told := by
    have hs : s.errors = 0 ↔ Quiet s.log := h
    have hi : o.errors = 0 ↔ Quiet o.log := ho
    simp [State.Told, Nat.add_eq_zero_iff, hs, hi]
  unfold splice
  cases failure with
  | none => exact hnotice _ _ hboth rfl
  | some cause => exact hnotice _ _ (told_error _ _) rfl

theorem includeFile_told (hctx : ctx.Told) (h : s.Told) (path : Text) (l : Location) :
    (includeFile ctx path l s).Told := by
  unfold includeFile
  split
  · exact told_error _ _
  · split
    · exact told_error _ _
    · split
      · exact told_error _ _
      · split
        · exact h.warn _
        · exact told_error _ _
      next o failure hfetch => exact splice_told h path l (hctx path o failure hfetch) failure

theorem describe_told (h : s.Told) (kind : Chunk.Kind) (l : Location) (line : List Char) :
    (describe ctx kind l line s).Told := by
  have hopener : ∀ {u : State} (chunk : Chunk) (message : Text), u.Told →
      ({ (if chunk.name = [] then u.warn message else u) with
        pending := .opener { chunk with location := l } } : State).Told := by
    intro u chunk message hu
    split
    · exact hu.warn message
    · exact hu
  unfold describe
  cases hline : OptionLine.chunk kind (Text.trimChars line) with
  | ok described =>
    simp only [hline]
    exact hopener described.1 _ (h.warnAll _)
  | error quote =>
    simp only [hline]
    exact hopener _ _ (told_error _ _)

theorem operand_told (hctx : ctx.Told) (h : s.Told) (span : List Char) :
    (operand ctx s span).Told := by
  unfold operand
  split
  · exact describe_told h _ _ span
  · exact h
  · exact h
  · dsimp only
    split
    · exact h
    · exact State.Told.warn (s := { s with pending := .nothing }) h _
  · exact includeFile_told (s := { s with pending := .nothing }) hctx h _ _
  · exact h

theorem obey_told (h : s.Told) (l : Location) (t : Token) : (obey ctx l s t).Told := by
  have hopen : ∀ kind k, (openChunk ctx kind k s).Told := by
    intro kind k
    unfold openChunk
    dsimp only
    split
    · exact h
    · exact told_error _ _
  have hclose : ∀ k, (closeBody ctx k s).Told := by
    intro k
    unfold closeBody
    dsimp only
    split
    · exact h
    · exact h.warn _
  have hindex : ∀ kind k, (crossReference ctx kind k l s).Told := by
    intro kind k
    unfold crossReference
    dsimp only
    split
    · exact h.warn _
    · exact h
  cases t with
  | newline => exact h
  | literal span => exact h
  | control k =>
    cases k with
    | outputChunk => exact hopen _ _
    | namedChunk => exact hopen _ _
    | closeCode => exact hclose _
    | closeDocument => exact hclose _
    | fileIndex => exact hindex _ _
    | macroIndex => exact hindex _ _
    | identifierIndex => exact hindex _ _
    | openCode => exact told_error _ _
    | openDocument => exact told_error _ _
    | closeReference => exact told_error _ _
    | closeSubstitution => exact told_error _ _
    | _ => exact h

theorem retake_told (h : s.Told) (t : Token) : (retake ctx s t).Told := by
  unfold retake
  split
  · exact obey_told h _ t
  · exact expect_told h t

theorem step_told (hctx : ctx.Told) (h : s.Told) (t : Token) : (step ctx s t).Told := by
  have hcounted := h.advance t
  unfold step
  dsimp only
  split
  · exact obey_told hcounted _ t
  · exact expect_told hcounted t
  · exact expect_told hcounted t
  · exact expect_told hcounted t
  · split
    · exact operand_told hctx hcounted _
    · exact retake_told (operand_told hctx hcounted []) _

theorem foldl_step_told (hctx : ctx.Told) (h : s.Told) (ts : List Token) :
    (ts.foldl (step ctx) s).Told := by
  induction ts generalizing s with
  | nil => exact h
  | cons t ts ih => exact ih (step_told hctx h t)

theorem finish_told (hctx : ctx.Told) (h : s.Told) : (finish ctx s).Told := by
  have habandon : ∀ {u : State}, u.Told → (abandon ctx u).Told := by
    intro u hu
    unfold abandon
    split
    · exact told_error _ _
    · exact told_error _ _
    · exact told_error _ _
    · exact hu
  unfold finish
  dsimp only
  split
  · exact habandon (operand_told hctx h [])
  · exact told_error _ _

theorem readTokens_told (hctx : ctx.Told) (ts : List Token) : (readTokens ctx ts).Told :=
  finish_told hctx (foldl_step_told hctx (by simp [State.Told]) ts)

theorem readSource_told (options : Options) (tree : FileTree) (depth : Nat) (reading : List Text)
    (name dir : Text) (source : Source) :
    (readSource options tree depth reading name dir source).Told :=
  readSource_induction options (fun _ hctx _ => readTokens_told hctx _) tree depth reading name dir
    source

/-- A load counts no error exactly if it logs none. -/
theorem load_told (options : Options) (tree : FileTree) (name : Text) (source : Source) :
    (load options tree name source).errors = 0 ↔ Quiet (load options tree name source).log :=
  readSource_told options tree _ _ name _ source

end Reader

end Literate
