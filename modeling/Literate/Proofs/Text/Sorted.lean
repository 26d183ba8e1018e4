import Mathlib.Data.List.Nodup
import Literate.Text

/-! Lists without repetition, and texts in ascending order. -/

namespace Literate

section Collect

variable {α : Type} [DecidableEq α]

/-- Adds an element at the end, unless it is there already. -/
def collect (seen : List α) (a : α) : List α := if a ∈ seen then seen else seen ++ [a]

theorem mem_collect {seen : List α} {a b : α} : b ∈ collect seen a ↔ b ∈ seen ∨ b = a := by
  by_cases ha : a ∈ seen
  · simp only [collect, ha, if_true, iff_self_or]
    rintro rfl
    exact ha
  · simp [collect, ha]

theorem mem_foldl_collect {l seen : List α} {a : α} :
    a ∈ l.foldl collect seen ↔ a ∈ seen ∨ a ∈ l := by
  induction l generalizing seen with
  | nil => simp
  | cons b l ih => rw [List.foldl_cons, ih, mem_collect, List.mem_cons, or_assoc]

theorem nodup_collect {seen : List α} (h : seen.Nodup) (a : α) : (collect seen a).Nodup := by
  by_cases ha : a ∈ seen
  · simpa [collect, ha] using h
  · rw [collect, if_neg ha, ← List.concat_eq_append]
    exact h.concat ha

theorem nodup_foldl_collect {l seen : List α} (h : seen.Nodup) : (l.foldl collect seen).Nodup := by
  induction l generalizing seen with
  | nil => exact h
  | cons a l ih => exact ih (nodup_collect h a)

end Collect

/-- Lists in ascending order are settled by what is in them. -/
theorem eq_of_pairwise_of_mem {α : Type} {r : α → α → Prop} [Std.Asymm r] {l m : List α}
    (hl : l.Pairwise r) (hm : m.Pairwise r) (h : ∀ a, a ∈ l ↔ a ∈ m) : l = m := by
  have hnodup : ∀ {k : List α}, k.Pairwise r → k.Nodup := by
    intro k hk
    refine hk.imp fun {a b} hab he => ?_
    subst he
    exact Std.Asymm.asymm a a hab hab
  have hperm : l.Perm m := (List.perm_ext_iff_of_nodup (hnodup hl) (hnodup hm)).2 h
  exact hperm.eq_of_pairwise (fun a b _ _ hab hba => absurd hba (Std.Asymm.asymm a b hab)) hl hm

namespace Text

theorem mem_sort {ts : List Text} {t : Text} : t ∈ sort ts ↔ t ∈ ts :=
  (List.mergeSort_perm ts le).mem_iff

theorem pairwise_sort {ts : List Text} (h : ts.Nodup) :
    (sort ts).Pairwise fun a b => lt a b = true := by
  have hle : (sort ts).Pairwise fun a b => le a b = true := by
    apply List.pairwise_mergeSort
    · intro a b c hab hbc
      exact decide_eq_true (List.le_trans (of_decide_eq_true hab) (of_decide_eq_true hbc))
    · intro a b
      simpa [le] using List.le_total a b
  have hne : (sort ts).Nodup := (List.mergeSort_perm ts le).nodup_iff.2 h
  refine (hle.and hne).imp fun ⟨hab, hne⟩ => ?_
  exact decide_eq_true (Std.lt_of_le_of_ne (of_decide_eq_true hab) hne)

theorem pairwise_lt_sort {ts : List Text} (h : ts.Nodup) : (sort ts).Pairwise (· < ·) :=
  (pairwise_sort h).imp of_decide_eq_true

theorem distinct_eq (ts : List Text) : distinct ts = ts.foldl collect [] := by
  unfold distinct
  congr 1
  funext seen t
  by_cases ht : t ∈ seen <;> simp [collect, ht]

theorem mem_distinct {ts : List Text} {t : Text} : t ∈ distinct ts ↔ t ∈ ts := by
  simp [distinct_eq, mem_foldl_collect]

theorem nodup_distinct (ts : List Text) : (distinct ts).Nodup := by
  rw [distinct_eq]
  exact nodup_foldl_collect List.nodup_nil

end Text

end Literate
