import Literate.Proofs.Tangle.Success
import Literate.Proofs.Tangle.Writing

/-! Indentation is compositional: a name expands to the same lines wherever it is referred to, and
the place of the reference only moves them to the right. Two passes over the same definitions are
compared, one from an empty buffer and one in place. -/

namespace Literate.Tangle

def indentLine (k : Nat) (line : Text) : Text :=
  if line = [] then [] else List.replicate k 32 ++ line

/-- A text with `k` spaces before each line that is not empty; the first line takes them only if
it begins on a fresh line. -/
def indentLines (k : Nat) (fresh : Bool) (t : Text) : Text :=
  match t.split Text.newline with
  | [] => []
  | first :: rest =>
    Text.lines ((if fresh then indentLine k first else first) :: rest.map (indentLine k))

section IndentLines

variable {k : Nat} {fresh : Bool} {piece t : Text}

theorem indentLines_nil (k : Nat) (fresh : Bool) : indentLines k fresh [] = [] := by
  cases fresh <;> rfl

theorem indentLines_newline (k : Nat) (fresh : Bool) (t : Text) :
    indentLines k fresh (Text.newline :: t) = Text.newline :: indentLines k true t := by
  cases hs : t.split Text.newline with
  | nil => exact absurd hs (Text.split_ne_nil _ t)
  | cons first rest =>
    have hempty : (if fresh = true then indentLine k [] else []) = [] := by simp [indentLine]
    simp [indentLines, Text.split_sep, hs, hempty, Text.lines_cons_cons]

theorem indentLines_started (h : Text.newline ∉ piece) :
    indentLines k false (piece ++ t) = piece ++ indentLines k false t := by
  cases hs : t.split Text.newline with
  | nil => exact absurd hs (Text.split_ne_nil _ t)
  | cons first rest => simp [indentLines, Text.split_append h hs, hs, Text.lines_append_cons]

theorem indentLines_fresh (h : Text.newline ∉ piece) (hne : piece ≠ []) :
    indentLines k true (piece ++ t) =
      List.replicate k 32 ++ (piece ++ indentLines k false t) := by
  cases hs : t.split Text.newline with
  | nil => exact absurd hs (Text.split_ne_nil _ t)
  | cons first rest =>
    have hline : indentLine k (piece ++ first) = List.replicate k 32 ++ (piece ++ first) := by
      simp [indentLine, hne]
    simp [indentLines, Text.split_append h hs, hs, hline, Text.lines_append_cons]

end IndentLines

/-- Two buffers that were given the same text, `b` from some point on with all columns moved by
`k` and `a` from its beginning. Until something is written, `a` has no indent. -/
structure Shifted (k : Nat) (base : Text) (fresh : Bool) (a b : Writer) : Prop where
  out : ∀ t, base ++ indentLines k fresh (a.out ++ t) = b.out ++ indentLines k b.fresh t
  indent : b.indent = a.indent + k
  column : b.column = a.column + k
  nonneg : 0 ≤ a.indent ∧ 0 ≤ a.column
  freshness : b.fresh = if a.out = [] then fresh else a.fresh
  start : a.out = [] → a.fresh = true ∧ a.indent = 0

namespace Shifted

variable {k : Nat} {base : Text} {fresh : Bool} {a b : Writer}

theorem padding (h : Shifted k base fresh a b) {piece : Text} (hne : piece ≠ [])
    (hp : Text.newline ∉ piece) (t : Text) :
    indentLines k b.fresh (a.padding ++ piece ++ t) =
      b.padding ++ piece ++ indentLines k false t := by
  have hquiet : ∀ n, Text.newline ∉ List.replicate n 32 ++ piece := by
    intro n
    have hspace : Text.newline ≠ 32 := by decide
    simp [hp, List.mem_replicate, hspace]
  cases hb : b.fresh with
  | true =>
    have ha : a.fresh = true := by
      have hf := h.freshness
      by_cases hout : a.out = []
      · exact (h.start hout).1
      · simp only [hb, hout, if_false] at hf
        exact hf.symm
    have hindent : b.indent.toNat = k + a.indent.toNat := by
      have hi := h.indent
      have hn := h.nonneg.1
      omega
    have hne' : List.replicate a.indent.toNat 32 ++ piece ≠ [] := by simp [hne]
    simp only [Writer.padding, ha, hb, if_true]
    rw [indentLines_fresh (hquiet _) hne', hindent, ← List.replicate_append_replicate]
    simp only [List.append_assoc]
  | false =>
    have hpad : a.padding = [] := by
      have hf := h.freshness
      by_cases hout : a.out = []
      · simp [Writer.padding, (h.start hout).2]
      · simp only [hb, hout, if_false] at hf
        simp [Writer.padding, ← hf]
    have hpad' : b.padding = [] := by simp [Writer.padding, hb]
    rw [hpad, hpad', List.nil_append, indentLines_started hp]

theorem putPiece (h : Shifted k base fresh a b) {piece : Text} (hp : Text.newline ∉ piece) :
    Shifted k base fresh (a.putPiece piece) (b.putPiece piece) := by
  by_cases hne : piece = []
  · simpa [hne] using h
  · rw [Writer.putPiece_of_ne_nil hne, Writer.putPiece_of_ne_nil hne]
    have hcol := h.column
    have hnn := h.nonneg
    refine ⟨?_, h.indent, ?_, ⟨hnn.1, ?_⟩, ?_, ?_⟩
    · intro t
      have hout := h.out (a.padding ++ piece ++ t)
      rw [h.padding hne hp] at hout
      simpa using hout
    · simp only [Writer.column, Bool.false_eq_true, if_false] at hcol ⊢
      omega
    · simp only [Writer.column, Bool.false_eq_true, if_false] at hnn ⊢
      omega
    · simp [hne]
    · simp [hne]

theorem endLine (h : Shifted k base fresh a b) : Shifted k base fresh a.endLine b.endLine := by
  refine ⟨?_, h.indent, h.indent, ⟨h.nonneg.1, h.nonneg.1⟩, ?_, ?_⟩
  · intro t
    have hout := h.out (Text.newline :: t)
    rw [indentLines_newline] at hout
    simpa [Writer.endLine] using hout
  · simp [Writer.endLine]
  · simp [Writer.endLine]

theorem put (h : Shifted k base fresh a b) (text : Text) :
    Shifted k base fresh (a.put text) (b.put text) := by
  induction text using Text.byLines generalizing a b with
  | last piece hp =>
    rw [Writer.put_of_not_mem hp, Writer.put_of_not_mem hp]
    exact h.putPiece hp
  | line piece rest hp ih =>
    rw [Writer.put_line hp, Writer.put_line hp]
    exact ih (h.putPiece hp).endLine

theorem enter (h : Shifted k base fresh a b) :
    Shifted k base fresh (a.setIndent a.column) (b.setIndent b.column) := by
  refine ⟨h.out, h.column, ?_, ⟨h.nonneg.2, ?_⟩, h.freshness, ?_⟩
  · rw [Writer.column_setIndent, Writer.column_setIndent]
    exact h.column
  · rw [Writer.column_setIndent]
    exact h.nonneg.2
  · intro hout
    obtain ⟨hf, hi⟩ := h.start hout
    exact ⟨hf, by simp [Writer.setIndent, Writer.column, hf, hi]⟩

/-- The indents that were there before come back. -/
theorem leave (h : Shifted k base fresh a b) {a' b' : Writer} (h' : Shifted k base fresh a' b')
    (ha : Writer.Kept a a'.clearIndent) (hb : Writer.Kept b b'.clearIndent) :
    Shifted k base fresh a'.clearIndent b'.clearIndent := by
  have hstart : a'.out = [] → a'.fresh = true ∧ a.indent = 0 ∧ a'.indent = 0 := by
    intro hout
    have hprefix := ha.out
    rw [Writer.out_clearIndent, hout, List.prefix_nil] at hprefix
    exact ⟨(h'.start hout).1, (h.start hprefix).2, (h'.start hout).2⟩
  have hindent : b'.clearIndent.indent = a'.clearIndent.indent + k := by
    rw [hb.indent, ha.indent]
    exact h.indent
  have hcolumn : b'.clearIndent.column = a'.clearIndent.column + k := by
    have hf := h'.freshness
    have hcol := h'.column
    simp only [Writer.column, Writer.fresh_clearIndent, Writer.written_clearIndent] at hcol ⊢
    by_cases hout : a'.out = []
    · obtain ⟨haf, hai, hai'⟩ := hstart hout
      rw [ha.indent, hb.indent, h.indent]
      cases hbf : b'.fresh with
      | true => simp [haf]
      | false =>
        simp only [haf, hbf, hai', if_true, Bool.false_eq_true, if_false] at hcol ⊢
        omega
    · simp only [hout, if_false] at hf
      rw [hf] at hcol ⊢
      cases haf : a'.fresh with
      | true => simpa using hindent
      | false => simpa [haf] using hcol
  refine ⟨?_, hindent, hcolumn, ⟨?_, ?_⟩, ?_, ?_⟩
  · simpa using h'.out
  · rw [ha.indent]
    exact h.nonneg.1
  · exact ha.column h.nonneg.1 h.nonneg.2
  · simpa using h'.freshness
  · rw [Writer.out_clearIndent, Writer.fresh_clearIndent, ha.indent]
    exact fun hout => ⟨(hstart hout).1, (hstart hout).2.1⟩

end Shifted

variable {w : Web} {full : Text} {k : Nat} {base : Text} {fresh : Bool} {p q q' : Pass}

/-- No name that the expansion of a full name goes through turns indentation off. -/
def Steady (w : Web) (full : Text) : Prop :=
  ∀ m, Relation.ReflTransGen (Calls w) full m →
    ∀ first ∈ (w.definitions.get m).head?, (w.chunk first).indent ≠ .off

theorem Steady.callee {m : Text} (h : Steady w full) (hc : Calls w full m) : Steady w m :=
  fun n hn => h n (hn.head hc)

theorem Steady.first {first : Nat} {more : List Nat} (h : Steady w full)
    (hg : w.definitions.get full = first :: more) : (w.chunk first).indent ≠ .off :=
  h full .refl first (by simp [hg])

/-- A step has a reference to a full name. -/
def Step.Refers (w : Web) (a : Step) (full : Text) : Prop :=
  ∃ c ∈ a.commands w, ∃ name, c.body = .reference name ∧ w.resolve name = .ok full

/-- The definitions of a steady name refer to steady names. -/
theorem Steady.definitions (h : Steady w full) {a : Step}
    (ha : a ∈ (w.definitions.get full).map Step.definition) {m : Text} (hm : a.Refers w m) :
    Steady w m := by
  obtain ⟨d, hd, rfl⟩ := List.mem_map.1 ha
  obtain ⟨c, hc, name, hname, hresolve⟩ := hm
  exact h.callee ⟨d, hd, name, mem_referenceNames.mpr ⟨c, hc, hname⟩, hresolve⟩

/-- Steps taken after the same text at two columns. In place more names may be on the stack than from
the empty buffer, and less depth may be left. -/
theorem Expands.shifted {file file' : Text} {depth depth' : Nat} {stack stack' : List Text}
    {as : List Step} {e : Except Fault Unit} (h : Expands w file' none depth' stack' as q e q')
    (he : e = .ok ()) (hd : depth' ≤ depth) (hs : stack ⊆ stack')
    (hsteady : ∀ a ∈ as, ∀ full, a.Refers w full → Steady w full)
    (hp : Shifted k base fresh p.writer q.writer) :
    ∃ p', sequence (Step.run w file none depth stack) as p = (.ok (), p') ∧
      Shifted k base fresh p'.writer q'.writer := by
  induction h generalizing depth stack p with
  | nil q => exact ⟨p, rfl, hp⟩
  | cons _ _ iha ihas =>
    obtain ⟨ha, has⟩ := List.forall_mem_cons.1 hsteady
    obtain ⟨r, hr, hshift⟩ := iha rfl hd hs (by simpa using ha) hp
    obtain ⟨p', hp', hshift'⟩ := ihas he hd hs has hshift
    rw [sequence_singleton] at hr
    exact ⟨p', by rw [sequence_cons_of_ok hr, hp'], hshift'⟩
  | abort => cases he
  | fault => cases he
  | code hc q => exact ⟨_, by rw [sequence_singleton, Step.run_code hc], hp.put _⟩
  | definition hk _ ih =>
    obtain ⟨p', hp', hshift⟩ := ih he hd hs (fun a ha full ⟨c, hc, hfull⟩ =>
      hsteady _ (List.mem_singleton.2 rfl) full ⟨c, mem_of_mem_stepsOf ha hc, hfull⟩) hp
    exact ⟨p', by rw [sequence_singleton, Step.run_definition hk, hp'], hshift⟩
  | @reference below' stack' s c name full first more q r e hc ht h ih =>
    obtain ⟨below, rfl⟩ : ∃ below, depth = below + 1 := ⟨depth - 1, by omega⟩
    obtain ⟨hfull, ha, hg, hout⟩ := target_ok.mp ht
    have ht' : target w file stack name c.location = .ok (full, first, more) :=
      target_ok.mpr ⟨hfull, ha, hg, fun hm => hout (hs hm)⟩
    have hsteady' : Steady w full :=
      hsteady _ (List.mem_singleton.2 rfl) full ⟨c, List.mem_singleton.2 rfl, name, hc, hfull⟩
    have henter : Shifted k base fresh (p.enter w name first more s.chunk).writer
        (q.enter w name first more s.chunk).writer := by
      simpa [Pass.writer_enter, hsteady'.first hg] using hp.enter
    have hstack : stack ++ [full] ⊆ stack' ++ [full] :=
      List.append_subset.2 ⟨fun m hm => List.mem_append_left _ (hs hm), List.subset_append_right _ _⟩
    obtain ⟨r', hr', hshift⟩ := ih he (Nat.le_of_succ_le_succ hd) hstack
      (fun a ha m hm => hsteady'.definitions (hg ▸ ha) hm) henter
    have hkept := (expands_sequence w file none below (stack ++ [full])
      ((first :: more).map .definition) (p.enter w name first more s.chunk)).kept
    rw [hr'] at hkept
    refine ⟨r'.clearIndent, ?_, ?_⟩
    · rw [sequence_singleton, Step.run_reference hc ht' hr']
    · exact hp.leave hshift (Pass.leave_kept w name first more s.chunk hkept)
        (Pass.leave_kept w name first more s.chunk h.kept)

/-- A full name expanded into an empty buffer. -/
def expansion (w : Web) (full : Text) : Result :=
  expandReference w [] none w.definitions.length [] 0 full .none {}

theorem resolve_full (w : Web) (h : isAbbreviation full = false) : w.resolve full = .ok full := by
  simp [Web.resolve, Web.resolveIn, h]

/-- Expanding a reference appends the expansion of its full name, moved to the column where the
reference stands. -/
theorem expandReference_indented {file : Text} {depth : Nat} {stack : List Text} {citing : Nat}
    {name : Text} {l : Location} (hdepth : depth ≤ w.definitions.length)
    (hcolumn : 0 ≤ p.writer.column) (hname : w.resolve name = .ok full) (hsteady : Steady w full)
    (hrun : expandReference w file none depth stack citing name l p = (.ok (), q)) :
    ∃ x, expansion w full = (.ok (), x) ∧
      q.writer.out = p.writer.out ++
        indentLines p.writer.column.toNat p.writer.fresh x.writer.out := by
  obtain ⟨below, full', first, more, r, rfl, ht, hbody, rfl⟩ := expandReference_ok hrun
  obtain ⟨hfull, ha, hg, hout⟩ := target_ok.mp ht
  rw [hname] at hfull
  cases hfull
  obtain ⟨n, hn⟩ : ∃ n, w.definitions.length = n + 1 := ⟨w.definitions.length - 1, by omega⟩
  have ht' : target w [] [] full .none = .ok (full, first, more) :=
    target_ok.mpr ⟨resolve_full w ha, ha, hg, by simp⟩
  have hfirst := hsteady.first hg
  have henter : Shifted p.writer.column.toNat p.writer.out p.writer.fresh
      (Pass.enter w full first more 0 {}).writer (p.enter w name first more citing).writer := by
    have hc := Writer.column_setIndent p.writer
    simp only [Pass.writer_enter, hfirst, if_false]
    refine ⟨fun t => rfl, ?_, ?_, ?_, rfl, ?_⟩
    · simp only [Writer.setIndent, Writer.column, if_true] at hcolumn ⊢
      omega
    · rw [hc, Writer.column_setIndent]
      simp only [Writer.column, if_true] at hcolumn ⊢
      omega
    · simp [Writer.setIndent, Writer.column]
    · simp [Writer.setIndent, Writer.column]
  have hplace := expands_definitions w file none below (stack ++ [full]) (first :: more)
    (p.enter w name first more citing)
  rw [hbody] at hplace
  obtain ⟨s, hs, hshift⟩ := hplace.shifted rfl (by omega : below ≤ n) (List.subset_append_right _ _)
    (fun a ha m hm => hsteady.definitions (hg ▸ ha) hm) henter
  rw [← sequence_definitions] at hs
  refine ⟨s.clearIndent, ?_, ?_⟩
  · rw [expansion, hn, expandReference_of_ok ht', List.nil_append, hs]
  · have hfinal := hshift.out []
    rw [List.append_nil, indentLines_nil, List.append_nil] at hfinal
    simpa [Pass.clearIndent] using hfinal.symm

/-- Rendering a chunk comes to a command: `depth` and `stack` are those of its expansion, `citing`
is the chunk that holds it and the pass is what was written before it. -/
inductive Meets (w : Web) (i : Nat) (m : Memory) :
    (depth : Nat) → (stack : List Text) → (citing : Nat) → Command → Pass → Prop
  | top (before after : List Command) {c : Command} {p : Pass}
    (hc : (w.chunk i).commands = before ++ c :: after)
    (hp : sequence (runCommand none (expandReference w (w.chunk i).name none
      w.definitions.length [] i)) before { citations := m.citations, names := m.names } =
        (.ok (), p)) :
    Meets w i m w.definitions.length [] i c p
  | inner {depth citing : Nat} {stack : List Text} {c c' : Command} {p q r : Pass}
    {name full : Text} {first d : Nat} {more : List Nat} (ds es : List Nat)
    (before after : List Command) (h : Meets w i m (depth + 1) stack citing c p)
    (hname : c.body = .reference name)
    (ht : target w (w.chunk i).name stack name c.location = .ok (full, first, more))
    (hd : first :: more = ds ++ d :: es)
    (hq : sequence (runDefinition w none (expandReference w (w.chunk i).name none depth
      (stack ++ [full]))) ds (p.enter w name first more citing) = (.ok (), q))
    (hkind : (w.chunk d).kind = .named)
    (hc : (w.chunk d).commands = before ++ c' :: after)
    (hr : sequence (runCommand none (expandReference w (w.chunk i).name none depth
      (stack ++ [full]) d)) before q = (.ok (), r)) :
    Meets w i m depth (stack ++ [full]) d c' r

namespace Meets

variable {i depth citing : Nat} {m : Memory} {stack : List Text} {c : Command}

theorem depth_le (h : Meets w i m depth stack citing c p) : depth ≤ w.definitions.length := by
  induction h with
  | top => exact Nat.le_refl _
  | inner _ _ _ _ _ _ _ _ _ _ _ _ ih => omega

/-- No column is negative. -/
theorem nonneg (h : Meets w i m depth stack citing c p) :
    0 ≤ p.writer.indent ∧ 0 ≤ p.writer.column := by
  induction h with
  | top before _ _ hp =>
    have hkept := (expands_commands w (w.chunk i).name none w.definitions.length [] i before
      { citations := m.citations, names := m.names }).kept
    rw [hp] at hkept
    exact hkept.nonneg ⟨Int.le_refl 0, Int.le_refl 0⟩
  | @inner depth citing stack _ _ p q _ name full first d more ds _ before _ _ _ _ _ hq _ _ hr ih =>
    have hkept := (expands_definitions w (w.chunk i).name none depth (stack ++ [full]) ds
      (p.enter w name first more citing)).kept
    have hkept' := (expands_commands w (w.chunk i).name none depth (stack ++ [full]) d before q).kept
    rw [hq] at hkept
    rw [hr] at hkept'
    exact hkept'.nonneg (hkept.nonneg (Pass.enter_nonneg w name first more citing ih.2))

end Meets

/-- Wherever rendering comes to a reference and expands it, it appends the expansion of the full
name with as many spaces before each line that is not empty as the column of the reference says,
except before a line that was begun earlier; and it restores the indents. -/
theorem reference_indented {i depth citing : Nat} {m : Memory} {stack : List Text}
    {name : Text} {l : Location} (hmeets : Meets w i m depth stack citing ⟨.reference name, l⟩ p)
    (hname : w.resolve name = .ok full) (hsteady : Steady w full)
    (hrun : expandReference w (w.chunk i).name none depth stack citing name l p = (.ok (), q)) :
    ∃ x, expansion w full = (.ok (), x) ∧ 0 ≤ p.writer.column ∧
      q.writer.out = p.writer.out ++
        indentLines p.writer.column.toNat p.writer.fresh x.writer.out ∧
      q.writer.indent = p.writer.indent ∧ q.writer.stack = p.writer.stack := by
  have hcolumn := hmeets.nonneg.2
  obtain ⟨x, hx, hout⟩ :=
    expandReference_indented hmeets.depth_le hcolumn hname hsteady hrun
  have hkept := expandReference_kept w (w.chunk i).name none depth stack citing name l p
  rw [hrun] at hkept
  exact ⟨x, hx, hcolumn, hout, hkept.indent, hkept.stack⟩

/-- A file that refers to a name in the middle of a line, within the expansion of another. -/
def nested : Web where
  path := "a.w"
  names := ["body", "rest of it"]
  entries :=
    [{ chunk := { Chunk.ofKind .output "a.py" with
        commands := [⟨.code "if a:\n  ", .none⟩, ⟨.reference "body", .none⟩] }
       seq := 1, initial := true, fullName := none },
      { chunk := { Chunk.ofKind .named "body" with
          commands := [⟨.code "b\n\nif c: ", .none⟩, ⟨.reference "rest...", .none⟩] }
        seq := 2, initial := true, fullName := some "body" },
      { chunk := { Chunk.ofKind .named "rest of it" with
          commands := [⟨.code "d\n\ne\n", .none⟩] }
        seq := 3, initial := true, fullName := some "rest of it" }]
  definitions := [("body", [1]), ("rest of it", [2])]
  users := [("body", [0]), ("rest of it", [1])]
  identifiers := []

theorem nested_steady (full : Text) : Steady nested full := by
  have hplain : ∀ d, (nested.chunk d).indent = .default := by
    intro d
    match d with
    | 0 | 1 | 2 => rfl
    | d + 3 => rfl
  intro m _ first _
  simp [hplain]

theorem reference_indented_nested : ∃ p q x,
    Meets nested 0 {} 1 ["body"] 1 ⟨.reference "rest...", .none⟩ p ∧
    p.writer.column = 8 ∧ p.writer.fresh = false ∧ Steady nested "rest of it" ∧
    expandReference nested "a.py" none 1 ["body"] 1 "rest..." .none p = (.ok (), q) ∧
    expansion nested "rest of it" = (.ok (), x) ∧
    q.writer.out = p.writer.out ++ indentLines 8 false x.writer.out ∧
    q.writer.indent = p.writer.indent ∧ q.writer.stack = p.writer.stack := by
  have htop : Meets nested 0 {} 2 [] 0 ⟨.reference "body", .none⟩ _ :=
    .top [⟨.code "if a:\n  ", .none⟩] [] rfl rfl
  have hmeets : Meets nested 0 {} 1 ["body"] 1 ⟨.reference "rest...", .none⟩ _ :=
    .inner [] [] [⟨.code "b\n\nif c: ", .none⟩] [] htop rfl rfl rfl rfl rfl rfl rfl
  have hname : nested.resolve "rest..." = .ok (Text.ofString "rest of it") := rfl
  obtain ⟨x, hx, -, hout, hi, hs⟩ := reference_indented hmeets hname (nested_steady _) rfl
  exact ⟨_, _, x, hmeets, rfl, rfl, nested_steady _, rfl, hx, hout, hi, hs⟩

end Literate.Tangle
