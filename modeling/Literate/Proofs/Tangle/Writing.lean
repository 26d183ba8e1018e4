import Literate.Proofs.Tangle.Expansion
import Literate.Proofs.Text.Lines

/-! What writing does to a buffer, line by line, and what no expansion changes: the indent and the
stack of indents are restored, and what was written stays. -/

namespace Literate.Tangle

namespace Writer

variable {piece : Text} {u v w : Writer}

/-- The spaces that come before the next byte of a line. -/
def padding (w : Writer) : Text := if w.fresh then List.replicate w.indent.toNat 32 else []

theorem newline_not_mem_padding (w : Writer) : Text.newline ∉ w.padding := by
  have hspace : Text.newline ≠ 32 := by decide
  cases hf : w.fresh <;> simp [padding, hf, List.mem_replicate, hspace]

@[simp] theorem putPiece_nil (w : Writer) : w.putPiece [] = w := by simp [putPiece]

theorem putPiece_of_ne_nil (h : piece ≠ []) (w : Writer) :
    w.putPiece piece = { w with
      out := w.out ++ (w.padding ++ piece)
      written := w.column + piece.runes.length
      fresh := false } := by
  by_cases hf : w.fresh = true
  · simp [putPiece, h, hf, padding, column]
  · simp only [Bool.not_eq_true] at hf
    simp [putPiece, h, hf, padding, column]

theorem put_of_not_mem (h : Text.newline ∉ piece) (w : Writer) :
    w.put piece = w.putPiece piece := by
  simp [put, Text.split_of_not_mem h, putLines]

theorem put_line (h : Text.newline ∉ piece) (rest : Text) (w : Writer) :
    w.put (piece ++ Text.newline :: rest) = (w.putPiece piece).endLine.put rest := by
  rw [put, Text.split_append_sep h]
  cases hs : Text.split Text.newline rest with
  | nil => exact absurd hs (Text.split_ne_nil _ rest)
  | cons first more => simp [putLines, put, hs]

@[simp] theorem out_clearIndent (w : Writer) : w.clearIndent.out = w.out := by
  unfold clearIndent
  split <;> rfl

@[simp] theorem fresh_clearIndent (w : Writer) : w.clearIndent.fresh = w.fresh := by
  unfold clearIndent
  split <;> rfl

@[simp] theorem written_clearIndent (w : Writer) : w.clearIndent.written = w.written := by
  unfold clearIndent
  split <;> rfl

theorem column_setIndent (w : Writer) : (w.setIndent w.column).column = w.column := by
  by_cases hf : w.fresh = true
  · simp [column, setIndent, hf]
  · simp [column, setIndent, hf]

theorem column_setIndent_nonneg {n : Int} (hn : 0 ≤ n) (hc : 0 ≤ w.column) :
    0 ≤ (w.setIndent n).column := by
  by_cases hf : w.fresh = true
  · simpa [column, setIndent, hf] using hn
  · simpa [column, setIndent, hf] using hc

/-- Writing has left the indents alone and kept what was there. -/
structure Kept (u v : Writer) : Prop where
  indent : v.indent = u.indent
  stack : v.stack = u.stack
  out : u.out <+: v.out
  column : 0 ≤ u.indent → 0 ≤ u.column → 0 ≤ v.column

namespace Kept

theorem refl (w : Writer) : Kept w w := ⟨rfl, rfl, List.prefix_rfl, fun _ h => h⟩

theorem trans (h : Kept u v) (h' : Kept v w) : Kept u w where
  indent := h'.indent.trans h.indent
  stack := h'.stack.trans h.stack
  out := h.out.trans h'.out
  column hi hc := h'.column (h.indent ▸ hi) (h.column hi hc)

theorem putPiece (piece : Text) (w : Writer) : Kept w (w.putPiece piece) := by
  by_cases h : piece = []
  · rw [h, putPiece_nil]
    exact refl w
  · rw [putPiece_of_ne_nil h]
    refine ⟨rfl, rfl, List.prefix_append _ _, ?_⟩
    intro _ hc
    simp only [Writer.column, Bool.false_eq_true, if_false] at hc ⊢
    omega

theorem endLine (w : Writer) : Kept w w.endLine :=
  ⟨rfl, rfl, List.prefix_append _ _, fun hi _ => by simpa [Writer.endLine, Writer.column] using hi⟩

theorem put (text : Text) (w : Writer) : Kept w (w.put text) := by
  induction text using Text.byLines generalizing w with
  | last piece h =>
    rw [put_of_not_mem h]
    exact putPiece piece w
  | line piece rest h ih =>
    rw [put_line h]
    exact ((putPiece piece w).trans (endLine _)).trans (ih _)

theorem nonneg (h : Kept u v) (hu : 0 ≤ u.indent ∧ 0 ≤ u.column) :
    0 ≤ v.indent ∧ 0 ≤ v.column :=
  ⟨h.indent ▸ hu.1, h.column hu.1 hu.2⟩

/-- An indent that is begun and ended around some writing leaves no trace. -/
theorem nest {n : Int} (hn : 0 ≤ u.column → 0 ≤ n) (h : Kept (u.setIndent n) v) :
    Kept u v.clearIndent := by
  have hclear : v.clearIndent = { v with indent := u.indent, stack := u.stack } := by
    simp [clearIndent, h.stack, setIndent]
  rw [hclear]
  refine ⟨rfl, rfl, h.out, ?_⟩
  intro hi hc
  have hv := h.nonneg ⟨hn hc, column_setIndent_nonneg (hn hc) hc⟩
  by_cases hf : v.fresh = true
  · simpa [Writer.column, hf] using hi
  · simpa [Writer.column, hf] using hv.2

end Kept

end Writer

open Writer (Kept)

theorem Writer.putMark_kept (mark : Option Mark) (l : Location) (u : Writer) :
    Kept u (u.putMark mark l) := by
  unfold Writer.putMark
  split
  · exact Kept.refl u
  · split
    · exact Kept.refl u
    · exact Kept.put _ u

section Enter

variable (w : Web) (name : Text) (first : Nat) (more : List Nat) (citing : Nat) {p q : Pass}

theorem Pass.enter_nonneg (h : 0 ≤ p.writer.column) :
    0 ≤ (p.enter w name first more citing).writer.indent ∧
      0 ≤ (p.enter w name first more citing).writer.column := by
  rw [Pass.writer_enter]
  have hn : 0 ≤ if (w.chunk first).indent = .off then 0 else p.writer.column := by
    split
    · exact Int.le_refl 0
    · exact h
  exact ⟨hn, Writer.column_setIndent_nonneg hn h⟩

/-- Expanding the definitions of a name restores the indents if each of them does. -/
theorem Pass.leave_kept (h : Kept (p.enter w name first more citing).writer q.writer) :
    Kept p.writer q.clearIndent.writer := by
  exact Kept.nest (fun hc => (Pass.enter_nonneg w name first more citing hc).1) h

end Enter

section Runs

variable {w : Web} {file : Text} {mark : Option Mark} {depth : Nat} {stack : List Text}

/-- An expansion restores the indents, whether it succeeds or not. -/
theorem Expands.kept {as : List Step} {p q : Pass} {e : Except Fault Unit}
    (h : Expands w file mark depth stack as p e q) : Kept p.writer q.writer := by
  induction h with
  | nil p => exact .refl _
  | cons _ _ iha ihas => exact iha.trans ihas
  | abort _ _ ih => exact ih
  | fault _ p => exact .refl _
  | code _ p => exact (p.writer.putMark_kept mark _).trans (.put _ _)
  | definition _ _ ih => exact ih
  | reference _ _ _ ih => exact Pass.leave_kept w _ _ _ _ ih

theorem expandReference_kept (w : Web) (file : Text) (mark : Option Mark) (depth : Nat)
    (stack : List Text) (citing : Nat) (name : Text) (l : Location) (p : Pass) :
    Kept p.writer (expandReference w file mark depth stack citing name l p).2.writer :=
  (expands_reference w file mark depth stack ⟨citing, 0⟩ name l p).kept

end Runs

end Literate.Tangle
