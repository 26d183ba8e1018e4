import Literate.Text.Class

/-! Trimming and splitting at blanks: a name comes back from between two blanks, and words come
back from a line in which single blanks separate them. -/

namespace Literate.Text

variable {α : Type} {p : α → Bool}

theorem strip_between {a b : α} (ha : p a = true) (hb : p b = true) {l : List α}
    (hl : ∀ d ∈ l.head?, p d = false) (hr : ∀ d ∈ l.getLast?, p d = false) :
    strip p (a :: l ++ [b]) = l := by
  cases l with
  | nil => simp [strip, ha, hb]
  | cons d l =>
    have hd : p d = false := hl d (by simp)
    obtain ⟨init, last, he⟩ : ∃ init last, d :: l = init ++ [last] :=
      ⟨_, _, (List.dropLast_concat_getLast (by simp : d :: l ≠ [])).symm⟩
    have hlast : p last = false := hr last (by simp [he])
    have hstart : (a :: (d :: l) ++ [b]).dropWhile p = (d :: l) ++ [b] := by simp [ha, hd]
    rw [strip, hstart, he]
    simp [hb, hlast]

theorem strip_eq_nil_iff {l : List α} : strip p l = [] ↔ ∀ a ∈ l, p a = true := by
  induction l with
  | nil => simp [strip]
  | cons a l ih =>
    by_cases ha : p a = true
    · have hdrop : strip p (a :: l) = strip p l := by simp [strip, ha]
      rw [hdrop, ih]
      simp [ha]
    · have hkept : a ∈ strip p (a :: l) := by
        have hstart : (a :: l).dropWhile p = a :: l := List.dropWhile_cons_of_neg ha
        rw [strip, hstart, List.reverse_cons, List.dropWhile_append, List.mem_reverse]
        split <;> simp [ha]
      constructor
      · intro hnil
        rw [hnil] at hkept
        cases hkept
      · intro hall
        exact absurd (hall a (by simp)) ha

theorem mem_of_mem_strip {a : α} {l : List α} (h : a ∈ strip p l) : a ∈ l := by
  rw [strip, List.mem_reverse] at h
  have hback := (List.dropWhile_sublist p).subset h
  exact (List.dropWhile_sublist p).subset (List.mem_reverse.mp hback)

theorem head?_dropWhile {l : List α} {a : α} (h : a ∈ (l.dropWhile p).head?) : p a = false := by
  have hnot := List.head?_dropWhile_not p l
  rw [Option.mem_def.mp h] at hnot
  exact hnot

theorem getLast?_strip {l : List α} {a : α} (h : a ∈ (strip p l).getLast?) : p a = false := by
  rw [strip, List.getLast?_reverse] at h
  exact head?_dropWhile h

theorem head?_strip {l : List α} {a : α} (h : a ∈ (strip p l).head?) : p a = false := by
  rw [strip, List.head?_reverse] at h
  obtain ⟨init, hinit⟩ := List.getLast?_eq_some_iff.mp h
  -- what is dropped from the right leaves the first element as it is
  have hsplit := List.takeWhile_append_dropWhile (p := p) (l := (l.dropWhile p).reverse)
  rw [hinit] at hsplit
  have hfirst : a ∈ (l.dropWhile p).head? := by
    rw [← List.getLast?_reverse, ← hsplit, ← List.append_assoc, List.getLast?_concat]
    rfl
  exact head?_dropWhile hfirst

theorem runsWithout_cons {a : α} (ha : p a = true) (l : List α) :
    runsWithout p (a :: l) = runsWithout p l := by
  simp [runsWithout, ha]

/-- The runs are not empty, and what satisfies the test is not in them. -/
theorem mem_runsWithout {l run : List α} (h : run ∈ runsWithout p l) :
    run ≠ [] ∧ ∀ a ∈ run, p a = false := by
  induction l generalizing run with
  | nil => simp [runsWithout] at h
  | cons a rest ih =>
    by_cases ha : p a = true
    · rw [runsWithout_cons ha] at h
      exact ih h
    · have hone : [a] ≠ [] ∧ ∀ b ∈ [a], p b = false := by simpa using ha
      rw [runsWithout.eq_def] at h
      simp only [if_neg ha] at h
      split at h
      next b tail first more hruns =>
        have hfirst : first ≠ [] ∧ ∀ b ∈ first, p b = false := ih (by simp [hruns])
        split at h
        · rcases List.mem_cons.mp h with rfl | h
          · exact hone
          · exact ih (by rwa [hruns])
        · rcases List.mem_cons.mp h with rfl | h
          · refine ⟨by simp, ?_⟩
            intro c hc
            rcases List.mem_cons.mp hc with rfl | hc
            · simpa using ha
            · exact hfirst.2 c hc
          · exact ih (by simp [hruns, h])
      · rcases List.mem_cons.mp h with rfl | h
        · exact hone
        · exact ih h

theorem runsWithout_append {word : List α} (hw : word ≠ []) (hp : ∀ d ∈ word, p d = false)
    {a : α} (ha : p a = true) (l : List α) :
    runsWithout p (word ++ a :: l) = word :: runsWithout p l := by
  induction word with
  | nil => exact absurd rfl hw
  | cons d word ih =>
    have hd : p d = false := hp d (by simp)
    cases word with
    | nil =>
      rw [List.singleton_append, runsWithout.eq_def]
      simp only [hd, runsWithout_cons ha, Bool.false_eq_true, if_false]
      cases runsWithout p l with
      | nil => rfl
      | cons run more => simp [ha]
    | cons e word =>
      have he : p e = false := hp e (by simp)
      have ht := ih (by simp) (fun x hx => hp x (by simp [hx]))
      rw [List.cons_append, runsWithout.eq_def]
      simp only [hd, ht, Bool.false_eq_true, if_false]
      simp [he]

theorem runsWithout_intercalate {words : List (List α)}
    (hw : ∀ w ∈ words, w ≠ [] ∧ ∀ d ∈ w, p d = false) {a : α} (ha : p a = true) :
    runsWithout p (a :: [a].intercalate words ++ [a]) = words := by
  rw [List.cons_append, runsWithout_cons ha]
  induction words with
  | nil => simp [runsWithout, ha]
  | cons w words ih =>
    obtain ⟨hne, hp⟩ := hw w (by simp)
    have ht := ih (fun x hx => hw x (by simp [hx]))
    cases words with
    | nil => simpa [runsWithout] using runsWithout_append hne hp ha []
    | cons v words =>
      rw [List.intercalate_cons_cons, List.append_assoc, List.append_assoc, List.singleton_append,
        runsWithout_append hne hp ha, ht]

theorem mem_intercalate {a d : α} {words : List (List α)} (h : d ∈ [a].intercalate words) :
    d = a ∨ ∃ w ∈ words, d ∈ w := by
  induction words with
  | nil => simp at h
  | cons w words ih =>
    cases words with
    | nil => exact .inr ⟨w, by simp, by simpa using h⟩
    | cons v words =>
      rw [List.intercalate_cons_cons, List.mem_append, List.mem_append] at h
      rcases h with (h | h) | h
      · exact .inr ⟨w, by simp, h⟩
      · exact .inl (by simpa using h)
      · rcases ih h with h | ⟨u, hu, hd⟩
        · exact .inl h
        · exact .inr ⟨u, by simp [hu], hd⟩

end Literate.Text
