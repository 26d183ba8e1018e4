import Literate.Text

/-! The lines of a text, and induction over them. -/

namespace Literate.Text

variable {sep : UInt8}

theorem split_ne_nil (sep : UInt8) (t : Text) : split sep t ≠ [] := by
  induction t with
  | nil => simp [split]
  | cons b t ih =>
    unfold split
    split
    · simp
    · split <;> simp

theorem split_sep (t : Text) : split sep (sep :: t) = [] :: split sep t := by
  simp [split]

/-- What stands before the first separator goes into the first part. -/
theorem split_append {piece : Text} (h : sep ∉ piece) {t first : Text} {rest : List Text}
    (ht : split sep t = first :: rest) : split sep (piece ++ t) = (piece ++ first) :: rest := by
  induction piece with
  | nil => exact ht
  | cons b piece ih =>
    have hb : b ≠ sep := fun he => h (by simp [he])
    have hrest := ih (fun hm => h (by simp [hm]))
    simp [split, hb, hrest]

theorem split_of_not_mem {piece : Text} (h : sep ∉ piece) : split sep piece = [piece] := by
  have hnil : split sep [] = [[]] := rfl
  simpa using split_append h hnil

theorem split_append_sep {piece : Text} (h : sep ∉ piece) (t : Text) :
    split sep (piece ++ sep :: t) = piece :: split sep t := by
  simpa using split_append h (split_sep t)

/-- Two texts meet in one part: the last of the first and the first of the second. -/
theorem split_append_append {s t last first : Text} {before after : List Text}
    (hs : split sep s = before ++ [last]) (ht : split sep t = first :: after) :
    split sep (s ++ t) = before ++ (last ++ first) :: after := by
  induction s generalizing before last with
  | nil =>
    obtain ⟨rfl, rfl⟩ : before = [] ∧ last = [] := by
      cases before <;> simp_all [split]
    exact ht
  | cons b s ih =>
    obtain ⟨head, rest, hsplit⟩ := List.exists_cons_of_ne_nil (split_ne_nil sep s)
    by_cases hb : b = sep
    · simp only [split, hb, if_true, hsplit] at hs
      cases before with
      | nil => simp at hs
      | cons part before =>
        simp only [List.cons_append, List.cons.injEq] at hs
        obtain ⟨rfl, hs⟩ := hs
        simp [split, hb, ih (hsplit.trans hs)]
    · simp only [split, hb, if_false, hsplit] at hs
      cases before with
      | nil =>
        simp only [List.nil_append, List.cons.injEq] at hs
        obtain ⟨rfl, rfl⟩ := hs
        have hrest : split sep (s ++ t) = [] ++ (head ++ first) :: after := ih hsplit
        simp [split, hb, hrest]
      | cons part before =>
        simp only [List.cons_append, List.cons.injEq] at hs
        obtain ⟨rfl, rfl⟩ := hs
        have hrest : split sep (s ++ t) = (head :: before) ++ (last ++ first) :: after := ih hsplit
        simp [split, hb, hrest]

theorem split_append_cons_sep (s t : Text) :
    split sep (s ++ sep :: t) = split sep s ++ split sep t := by
  have hs := List.dropLast_concat_getLast (split_ne_nil sep s)
  rw [split_append_append hs.symm (split_sep t), List.append_nil, List.append_cons, hs]

theorem length_split (t : Text) : (split sep t).length = t.count sep + 1 := by
  induction t with
  | nil => rfl
  | cons b t ih =>
    obtain ⟨head, rest, hsplit⟩ := List.exists_cons_of_ne_nil (split_ne_nil sep t)
    by_cases hb : b = sep
    · simp [split, hb, ih]
    · rw [hsplit] at ih
      simpa [split, hb, hsplit, List.count_cons] using ih

/-- A text is a last line, or a line with a newline and the text after it. -/
theorem byLines {P : Text → Prop} (last : ∀ piece, newline ∉ piece → P piece)
    (line : ∀ piece rest, newline ∉ piece → P rest → P (piece ++ newline :: rest)) (t : Text) :
    P t := by
  suffices h : ∀ piece, newline ∉ piece → P (piece ++ t) from h [] (by simp)
  induction t with
  | nil =>
    intro piece hp
    rw [List.append_nil]
    exact last piece hp
  | cons b t ih =>
    intro piece hp
    by_cases hb : b = newline
    · rw [hb]
      exact line piece t hp (ih [] (by simp))
    · have hpb : newline ∉ piece ++ [b] := by simp [hp, Ne.symm hb]
      simpa using ih (piece ++ [b]) hpb

theorem lines_cons_cons (a b : Text) (rest : List Text) :
    lines (a :: b :: rest) = a ++ newline :: lines (b :: rest) := by
  simp [lines, join, List.intercalate_cons_cons]

theorem lines_split (t : Text) : lines (split newline t) = t := by
  induction t using byLines with
  | last piece hp => simp [split_of_not_mem hp, lines, join]
  | line piece rest hp ih =>
    obtain ⟨first, more, hrest⟩ := List.exists_cons_of_ne_nil (split_ne_nil newline rest)
    rw [split_append_sep hp, hrest, lines_cons_cons, ← hrest, ih]

theorem lines_append_cons (a b : Text) (rest : List Text) :
    lines ((a ++ b) :: rest) = a ++ lines (b :: rest) := by
  cases rest with
  | nil => simp [lines, join]
  | cons c rest => simp [lines_cons_cons]

end Literate.Text
