import Literate.Proofs.Reader.Frame
import Literate.Proofs.Reader.Includes
import Literate.Proofs.Reader.RoundTrip
import Literate.Proofs.Token.Canonical

/-! What an included source leaves behind is its chunks, its errors and its lines. The source around
it is read as two: what stands before the include, and what stands after it, from the beginning
again but for the line numbers. -/

namespace Literate.Reader

variable (ctx : Context) (s : State)

/-! Lines are counted where a token is taken, and nowhere else. -/

theorem newlines_warnAll (messages : List Text) :
    (s.warnAll messages).newlines = s.newlines := by
  induction messages generalizing s with
  | nil => rfl
  | cons m messages ih => exact ih (s.warn m)

theorem newlines_resume (t : Token) : (resume ctx t s).newlines = s.newlines := by
  unfold resume
  split
  · split <;> rfl
  · dsimp only
    split <;> rfl
  · dsimp only
    split <;> rfl
  · rfl

theorem newlines_expect (t : Token) : (expect ctx s t).newlines = s.newlines := by
  cases t <;> simp only [expect] <;> split <;> exact newlines_resume ctx _ _

theorem newlines_splice (path : Text) (l : Location) (o : Outcome) (failure : Option Text) :
    (splice path l o failure s).newlines = s.newlines := by
  cases failure <;> simp only [splice] <;> split <;> rfl

theorem newlines_includeFile (path : Text) (l : Location) :
    (includeFile ctx path l s).newlines = s.newlines := by
  unfold includeFile
  split
  · rfl
  · split
    · rfl
    · split
      · rfl
      · split <;> rfl
      · exact newlines_splice s path l _ _

theorem newlines_describe (kind : Chunk.Kind) (l : Location) (line : List Char) :
    (describe ctx kind l line s).newlines = s.newlines := by
  cases h : OptionLine.chunk kind (Text.trimChars line) with
  | ok described =>
    simp only [describe, h]
    split <;> exact newlines_warnAll s _
  | error quote =>
    simp only [describe, h]
    split <;> rfl

theorem newlines_operand (span : List Char) : (operand ctx s span).newlines = s.newlines := by
  unfold operand
  split
  · exact newlines_describe ctx s _ _ span
  · rfl
  · rfl
  · dsimp only
    split <;> rfl
  · exact newlines_includeFile ctx _ _ _
  · rfl

theorem newlines_obey (l : Location) (t : Token) : (obey ctx l s t).newlines = s.newlines := by
  cases t with
  | newline => rfl
  | literal span => rfl
  | control k =>
    cases k <;> simp only [obey, openChunk, closeBody, crossReference] <;>
      first | rfl | (split <;> rfl)

theorem newlines_step (t : Token) : (step ctx s t).newlines = (s.advance t).newlines := by
  unfold step
  dsimp only
  split
  · exact newlines_obey ctx _ _ t
  · exact newlines_expect ctx _ t
  · exact newlines_expect ctx _ t
  · exact newlines_expect ctx _ t
  · split
    · exact newlines_operand ctx _ _
    · unfold retake
      split
      · rw [newlines_obey, newlines_operand]
      · rw [newlines_expect, newlines_operand]

theorem newlines_foldl_step (ts : List Token) :
    (ts.foldl (step ctx) s).newlines = s.newlines + Token.newlines ts := by
  induction ts generalizing s with
  | nil => rfl
  | cons t ts ih =>
    rw [List.foldl_cons, ih, newlines_step, Token.newlines_cons, ← Nat.add_assoc]
    by_cases h : t = .newline <;> simp [State.advance, h]

theorem newlines_finish : (finish ctx s).newlines = s.newlines := by
  have habandon : ∀ u : State, (abandon ctx u).newlines = u.newlines := by
    intro u
    unfold abandon
    split <;> rfl
  unfold finish
  dsimp only
  split
  · rw [habandon, newlines_operand]
  · exact (habandon _).trans (newlines_operand ctx s [])

/-! An include at rest. -/

/-- A control is taken again after an operand that is missing. -/
theorem step_control (k : Control) :
    step ctx s (.control k) = retake ctx (operand ctx s []) (.control k) := by
  cases h : s.pending <;> simp [step, retake, operand, h, State.advance]

theorem finish_of_atRest (h : AtRest (operand ctx s [])) : finish ctx s = operand ctx s [] := by
  simp [finish, abandon, h.pending, h.body]

variable {ctx s}

theorem step_includeFile (h : AtRest (operand ctx s [])) :
    step ctx s (.control .includeFile) =
      { operand ctx s [] with pending := .includePath ((operand ctx s []).here ctx) } := by
  rw [step_control, retake]
  simp only [h.pending, obey]

/-- The include leaves the reader where it begins, but for the line and what was collected. -/
theorem splice_atRest (h : AtRest s) (path : Text) (l : Location) (o : Outcome) :
    splice path l o none s =
      State.after ⟨s.outcome.chunks ++ o.chunks, s.errors + o.errors, s.includedLines + o.lines,
        (splice path l o none s).log⟩ { newlines := s.newlines } := by
  simp only [splice]
  split <;> simp [State.after, State.outcome, h.pending]

theorem foldl_step_include (h : AtRest (operand ctx s [])) {span : List Char}
    (hpath : Text.ofChars (Text.trimChars span) ≠ []) {o : Outcome}
    (hfetch : ctx.fetch (Text.ofChars (Text.trimChars span)) = .read o none) :
    ∃ log, [.control .includeFile, .literal span].foldl (step ctx) s =
      State.after ⟨(finish ctx s).outcome.chunks ++ o.chunks, (finish ctx s).errors + o.errors,
        (finish ctx s).includedLines + o.lines, log⟩ { newlines := s.newlines } := by
  have hclear : ({ operand ctx s [] with pending := .nothing } : State) = operand ctx s [] := by
    rw [← h.pending]
  have hsteps : [.control .includeFile, .literal span].foldl (step ctx) s =
      splice (Text.ofChars (Text.trimChars span)) ((operand ctx s []).here ctx) o none
        (operand ctx s []) := by
    rw [List.foldl_cons, List.foldl_cons, List.foldl_nil, step_includeFile h, step_path rfl, hclear,
      includeFile, if_neg hpath, if_neg (not_not.2 h.body), hfetch]
  rw [hsteps, finish_of_atRest ctx s h, ← newlines_operand ctx s []]
  exact ⟨_, splice_atRest h _ _ o⟩

/-- An include of a source that is read without failure. The reader takes its control between chunks:
at rest, once an operand that is missing there is given up. What stands before it ends as if the
source ended there; the included source is read by itself, from its own directory and with its own
path on the list of what is being read; and what stands after it is read from the beginning, but
for the line. However the included source ends, nothing else of it remains. -/
theorem read_include (options : Options) {tree : FileTree} (ht : tree.WellPlaced)
    (reading : List Text) (name dir : Text) (source : Source)
    {before after : List Token} {span : List Char} {path bytes : Text}
    (htokens : Token.ofText options.command source.bytes =
      before ++ [.control .includeFile, .literal span] ++ after)
    (htop : AtRest (operand (contextIn options tree reading name dir)
      (before.foldl (step (contextIn options tree reading name dir)) {}) []))
    (hspan : Text.ofChars (Text.trimChars span) = path) (hpath : path ≠ [])
    (hopen : tree.openEntry (resolveInclude dir path) = .ok (.file bytes))
    (hnew : tree.absolute (resolveInclude dir path) ∉ reading) :
    let ctx := contextIn options tree reading name dir
    let whole := read options tree reading name dir source
    let first := finish ctx (before.foldl (step ctx) {})
    let inner := read options tree (reading ++ [tree.absolute (resolveInclude dir path)]) path
      (Path.directory (resolveInclude dir path)) ⟨bytes, none⟩
    let last := finish ctx (after.foldl (step ctx) { newlines := Token.newlines before })
    whole.chunks = first.outcome.chunks ++ inner.chunks ++ last.outcome.chunks ∧
      whole.errors = first.errors + inner.errors + last.errors ∧
      whole.lines = source.bytes.count Text.newline + first.includedLines + inner.lines +
        last.includedLines := by
  intro ctx whole first inner last
  subst hspan
  have hfetch : ctx.fetch (Text.ofChars (Text.trimChars span)) = .read inner none := by
    show inclusion tree reading dir (read options tree) _ = _
    simp only [inclusion]
    rw [if_neg hnew, hopen]
    rfl
  obtain ⟨log, hinclude⟩ := foldl_step_include htop hpath hfetch
  have hlines : source.bytes.count Text.newline = Token.newlines before + Token.newlines after := by
    rw [← Text.count_newline, ← Token.newlines_scan options.command, ← Token.ofText, htokens,
      Token.newlines_append, Token.newlines_append]
    rfl
  have hlast : last.newlines = Token.newlines before + Token.newlines after := by
    rw [newlines_finish, newlines_foldl_step]
  have hwhole : whole = ⟨first.outcome.chunks ++ inner.chunks ++ last.outcome.chunks,
      first.errors + inner.errors + last.errors,
      first.includedLines + inner.lines + last.outcome.lines, log ++ last.log⟩ := by
    rw [show whole = _ from read_eq options ht reading name dir source, htokens, readTokens,
      List.foldl_append, List.foldl_append, hinclude, foldl_step_after, finish_after,
      State.outcome_after, newlines_foldl_step, Nat.zero_add]
    rfl
  rw [hwhole]
  refine ⟨rfl, rfl, ?_⟩
  simp only [State.outcome]
  omega

/-- Two sources of one line each, and one that ends in the body of a chunk. -/
def drafts : FileTree :=
  ⟨[(["a"], .file "x\n"), (["b"], .file "y\n"), (["c"], .file "@d n\n@\x7bz\n")], []⟩

theorem wellPlaced_drafts : drafts.WellPlaced where
  names := nofun
  directories := fun place h => by
    rw [List.prefix_nil.1 h]
    rfl

theorem read_include_drafts :
    let source : Source := ⟨"p@i c\n@i a\nq", none⟩
    let after := [.newline, .control .includeFile, .literal [' ', 'a'], .newline, .literal ['q']]
    let ctx := contextIn {} drafts ["/m.w"] "m.w" "."
    let whole := read {} drafts ["/m.w"] "m.w" "." source
    let first := finish ctx ([.literal ['p']].foldl (step ctx) {})
    let inner := read {} drafts ["/m.w", "/c"] "c" "." ⟨"@d n\n@\x7bz\n", none⟩
    let last := finish ctx (after.foldl (step ctx) {})
    drafts.WellPlaced ∧
      Token.ofText '@' source.bytes =
        [.literal ['p']] ++ [.control .includeFile, .literal [' ', 'c']] ++ after ∧
      drafts.openEntry (resolveInclude "." "c") = .ok (.file "@d n\n@\x7bz\n") ∧
      whole.chunks = first.outcome.chunks ++ inner.chunks ++ last.outcome.chunks ∧
      inner.errors = 1 ∧ whole.errors = first.errors + inner.errors + last.errors ∧
      whole.lines = 2 + first.includedLines + inner.lines + last.includedLines := by
  intro source after ctx whole first inner last
  have htokens : Token.ofText '@' source.bytes =
      [.literal ['p']] ++ [.control .includeFile, .literal [' ', 'c']] ++ after := by decide
  have hopen : drafts.openEntry (resolveInclude "." "c") = .ok (.file "@d n\n@\x7bz\n") := by decide
  obtain ⟨hchunks, herrors, hlines⟩ := read_include {} wellPlaced_drafts ["/m.w"] "m.w" "." source
    htokens ⟨by decide, by decide⟩ rfl (by decide) hopen (by decide)
  exact ⟨wellPlaced_drafts, htokens, hopen, hchunks, by decide, herrors, hlines⟩

/-- Each include adds the lines of what it reads, and not only the one that a text is cut at. -/
theorem read_include_lines_pair :
    let source : Source := ⟨"@i a\n@i b\n", none⟩
    let ctx := contextIn {} drafts ["/m.w"] "m.w" "."
    Token.ofText '@' source.bytes =
        [] ++ [.control .includeFile, .literal [' ', 'a']] ++
          [.newline, .control .includeFile, .literal [' ', 'b'], .newline] ∧
      AtRest (operand ctx {} []) ∧
      drafts.openEntry (resolveInclude "." "a") = .ok (.file "x\n") ∧
      drafts.absolute (resolveInclude "." "a") = ("/a" : Text) ∧
      (load {} drafts "m.w" source).lines ≠
        source.bytes.count Text.newline +
          (read {} drafts ["/m.w", "/a"] "a" "." ⟨"x\n", none⟩).lines := by
  refine ⟨by decide, ⟨rfl, rfl⟩, by decide, by decide, by decide⟩

end Literate.Reader
