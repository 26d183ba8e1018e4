import Literate.Text
import Mathlib.Data.List.Infix

/-! Occurrences of a mark in a text that is put together from parts. A part is passed when no
occurrence begins in it, though one may end in what follows. The marks of interest do not contain
their first byte again, so that occurrences do not overlap. -/

namespace Literate.Text

variable {a : UInt8} {p mark new s t rest after : Text}

/-- No occurrence of the mark begins in `t` when `rest` follows. -/
def Passes (mark t rest : Text) : Prop := ∀ k < t.length, ¬mark <+: (t ++ rest).drop k

/-- No occurrence of the mark begins in `t`, whatever follows. -/
def Clear (mark t : Text) : Prop := ∀ rest, Passes mark t rest

@[simp] theorem passes_nil : Passes mark [] rest := fun _ hk => absurd hk (Nat.not_lt_zero _)

theorem passes_cons {b : UInt8} (hfirst : ¬mark <+: b :: (t ++ rest)) (h : Passes mark t rest) :
    Passes mark (b :: t) rest := by
  intro k hk
  cases k with
  | zero => exact hfirst
  | succ k => exact h k (Nat.lt_of_succ_lt_succ hk)

theorem Passes.append (hs : Passes mark s (t ++ rest)) (ht : Passes mark t rest) :
    Passes mark (s ++ t) rest := by
  induction s with
  | nil => exact ht
  | cons b s ih =>
    have hfirst : ¬mark <+: b :: (s ++ t ++ rest) := by
      simpa using hs 0 (Nat.zero_lt_succ _)
    exact passes_cons hfirst (ih fun k hk => hs (k + 1) (Nat.succ_lt_succ hk))

/-- An occurrence that starts in or after a part that is passed starts after it. -/
theorem Passes.le_of_eq (h : Passes mark t rest) {before after : Text}
    (heq : t ++ rest = before ++ mark ++ after) : t.length ≤ before.length := by
  by_contra hlt
  refine h before.length (Nat.not_le.1 hlt) ?_
  rw [heq, List.append_assoc, List.drop_left]
  exact List.prefix_append mark after

theorem Passes.absent (h : Passes mark t rest) (hne : mark ≠ []) : ¬mark <:+: t := by
  rintro ⟨before, after, rfl⟩
  have heq : before ++ mark ++ after ++ rest = before ++ mark ++ (after ++ rest) := by simp
  have hlength := h.le_of_eq heq
  have hpos := List.length_pos_iff.2 hne
  simp only [List.length_append] at hlength
  omega

theorem clear_nil : Clear mark [] := fun _ => passes_nil

theorem Clear.append (hs : Clear mark s) (ht : Clear mark t) : Clear mark (s ++ t) :=
  fun rest => (hs (t ++ rest)).append (ht rest)

theorem Clear.flatMap {α : Type} {f : α → Text} {items : List α}
    (h : ∀ x ∈ items, Clear mark (f x)) : Clear mark (items.flatMap f) := by
  induction items with
  | nil => exact clear_nil
  | cons x items ih =>
    rw [List.flatMap_cons]
    exact (h x (by simp)).append (ih fun y hy => h y (by simp [hy]))

theorem Clear.join {sep : Text} (hsep : Clear mark sep) {parts : List Text}
    (h : ∀ part ∈ parts, Clear mark part) : Clear mark (join sep parts) := by
  induction parts with
  | nil => exact clear_nil
  | cons part parts ih =>
    have hpart := h part (by simp)
    have hrest := ih fun part hpart => h part (by simp [hpart])
    cases parts with
    | nil => simpa [Text.join] using hpart
    | cons next parts =>
      rw [Text.join, List.intercalate_cons_cons]
      exact (hpart.append hsep).append hrest

/-- Of a text alone it can be decided that whatever follows it does not complete an occurrence. -/
theorem clear_of_drop (h : ∀ k < t.length, ¬mark <+: t.drop k ∧ ¬t.drop k <+: mark) :
    Clear mark t := by
  intro rest k hk hmark
  rw [List.drop_append_of_le_length hk.le] at hmark
  -- the mark and what is left of the text begin alike
  rcases List.prefix_or_prefix_of_prefix hmark (List.prefix_append _ rest) with hin | hover
  · exact (h k hk).1 hin
  · exact (h k hk).2 hover

theorem clear_of_not_mem (h : a ∉ t) : Clear (a :: p) t := by
  intro rest k hk hmark
  rw [List.drop_append_of_le_length hk.le, List.drop_eq_getElem_cons hk, List.cons_append,
    List.cons_prefix_cons] at hmark
  exact h (hmark.1 ▸ List.getElem_mem hk)

/-- The one occurrence of a mark between texts that have none. -/
theorem occurrence_unique (hmark : a ∉ p) {content : Text}
    (hcontent : Passes (a :: p) content (a :: p ++ after)) (hafter : Clear (a :: p) after)
    (before rest : Text) : content ++ a :: p ++ after = before ++ a :: p ++ rest ↔
      before = content ∧ rest = after := by
  constructor
  · intro heq
    have hwhole : content ++ (a :: p ++ after) = before ++ a :: p ++ rest := by
      rw [← heq, List.append_assoc]
    have hle : content.length ≤ before.length := hcontent.le_of_eq hwhole
    have hprefix : content <+: before := by
      refine List.prefix_of_prefix_length_le (List.prefix_append _ (a :: p ++ after)) ?_ hle
      rw [← List.append_assoc, heq, List.append_assoc]
      exact List.prefix_append _ _
    obtain ⟨more, rfl⟩ := hprefix
    simp only [List.append_assoc, List.append_cancel_left_eq] at heq
    cases more with
    | nil => simpa [eq_comm] using heq
    | cons b more =>
      -- an occurrence further on would begin in the mark or after it
      rw [List.cons_append, List.cons_append, List.cons.injEq] at heq
      have hrest : Passes (a :: p) (p ++ after) [] := (clear_of_not_mem hmark).append hafter []
      have htail : p ++ after ++ [] = more ++ a :: p ++ rest := by
        rw [List.append_nil, heq.2, List.append_assoc]
      have hlength := hrest.le_of_eq htail
      rw [heq.2] at hlength
      simp only [List.length_append, List.length_cons] at hlength
      omega
  · rintro ⟨rfl, rfl⟩
    rfl

section Replace

variable {old : Text}

theorem replace_nil : replace old new [] = [] := rfl

theorem replace_cons {b : UInt8} (h : ¬old <+: b :: t) :
    replace old new (b :: t) = b :: replace old new t := by
  simp [replace, replaceAny, replaceFrom, h]

theorem replaceFrom_append (table : List (Text × Text)) (s t : Text) :
    replaceFrom table s.length (s ++ t) = replaceFrom table 0 t := by
  induction s with
  | nil => rfl
  | cons b s ih => exact ih

theorem replace_append (hold : old ≠ []) (t : Text) :
    replace old new (old ++ t) = new ++ replace old new t := by
  obtain ⟨b, p, rfl⟩ := List.exists_cons_of_ne_nil hold
  have hpassed := replaceFrom_append [(b :: p, new)] p t
  simpa [replace, replaceAny, replaceFrom] using hpassed

/-- The parts of a text in which occurrences are replaced. -/
theorem replace_induction {P : Text → Prop} (hold : old ≠ []) (nil : P [])
    (found : ∀ t, P t → P (old ++ t))
    (byte : ∀ b t, ¬old <+: b :: t → P t → P (b :: t)) (t : Text) : P t := by
  induction hn : t.length using Nat.strong_induction_on generalizing t with
  | _ n ih =>
    subst hn
    by_cases hfound : old <+: t
    · obtain ⟨rest, rfl⟩ := hfound
      have hpos := List.length_pos_iff.2 hold
      exact found rest (ih _ (by simp [hpos]) rest rfl)
    · cases t with
      | nil => exact nil
      | cons b t => exact byte b t hfound (ih _ (by simp) t rfl)

/-- A single byte is replaced wherever it stands. -/
theorem replace_byte (t : Text) :
    replace [a] new t = t.flatMap fun b => if b = a then new else [b] := by
  induction t with
  | nil => rfl
  | cons b t ih =>
    rw [List.flatMap_cons, ← ih]
    by_cases hb : b = a
    · rw [if_pos hb, hb]
      exact replace_append (by simp) t
    · rw [if_neg hb]
      exact replace_cons (by simpa [eq_comm] using hb)

/-- What a text begins with after a replacement that begins with `a`, if it is free of `a`, it began
with before. -/
theorem prefix_of_prefix_replace {q : Text} (hold : old ≠ []) (hnew : new.head? = some a)
    (hq : a ∉ q) (hrest : ∀ b ∈ rest.head?, b ∉ q) (h : q <+: replace old new t ++ rest) :
    q <+: t := by
  induction t using replace_induction hold generalizing q with
  | nil =>
    cases q with
    | nil => exact List.nil_prefix
    | cons c q =>
      obtain ⟨tail, htail⟩ := h
      have hhead : c ∈ rest.head? := by
        rw [replace_nil, List.nil_append] at htail
        rw [← htail]
        rfl
      exact absurd List.mem_cons_self (hrest c hhead)
  | found t ih =>
    obtain ⟨new, rfl⟩ := List.head?_eq_some_iff.1 hnew
    cases q with
    | nil => exact List.nil_prefix
    | cons c q =>
      rw [replace_append hold, List.append_assoc, List.cons_append, List.cons_prefix_cons] at h
      exact absurd (h.1 ▸ List.mem_cons_self) hq
  | byte b t hb ih =>
    cases q with
    | nil => exact List.nil_prefix
    | cons c q =>
      rw [replace_cons hb, List.cons_append, List.cons_prefix_cons] at h
      have hprefix := ih (fun hmem => hq (by simp [hmem]))
        (fun d hd hmem => hrest d hd (by simp [hmem])) h.2
      exact List.cons_prefix_cons.2 ⟨h.1, hprefix⟩

/-- A text in which every occurrence of a mark is replaced is passed, if what follows does not
continue one. -/
theorem passes_replace (hmark : a ∉ p) (hhead : new.head? = some a) (hnew : Clear (a :: p) new)
    (hrest : ∀ b ∈ rest.head?, b ∉ p) : Passes (a :: p) (replace (a :: p) new t) rest := by
  induction t using replace_induction (List.cons_ne_nil a p) with
  | nil => exact passes_nil
  | found t ih =>
    rw [replace_append (List.cons_ne_nil a p)]
    exact (hnew _).append ih
  | byte b t hb ih =>
    rw [replace_cons hb]
    refine passes_cons (fun hfound => hb ?_) ih
    obtain ⟨rfl, htail⟩ := List.cons_prefix_cons.1 hfound
    exact List.cons_prefix_cons.2 ⟨rfl,
      prefix_of_prefix_replace (List.cons_ne_nil _ _) hhead hmark hrest htail⟩

end Replace

end Literate.Text
