import Literate.Text
import Mathlib.Data.Nat.Digits.Defs

/-! Numbers that are spelled by digits in a base, the most significant first. With equally many
digits the order of the numbers is that of their digits. -/

namespace Literate

/-- The number that digits spell. -/
def positional (base : Nat) (ds : List Nat) : Nat := Nat.ofDigits base ds.reverse

variable {base : Nat} {ds es : List Nat}

@[simp] theorem positional_nil (base : Nat) : positional base [] = 0 := rfl

theorem positional_concat (base : Nat) (ds : List Nat) (d : Nat) :
    positional base (ds ++ [d]) = base * positional base ds + d := by
  rw [positional, List.reverse_concat, Nat.ofDigits_cons, Nat.add_comm]
  rfl

theorem positional_append (base : Nat) (ds es : List Nat) :
    positional base (ds ++ es) = positional base ds * base ^ es.length + positional base es := by
  rw [positional, List.reverse_append, Nat.ofDigits_append, List.length_reverse, Nat.add_comm,
    Nat.mul_comm]
  rfl

theorem positional_cons (base d : Nat) (ds : List Nat) :
    positional base (d :: ds) = d * base ^ ds.length + positional base ds := by
  have hone : positional base [d] = d := Nat.ofDigits_singleton
  rw [← List.singleton_append, positional_append, hone]

theorem positional_lt (hbase : 1 < base) (h : ∀ d ∈ ds, d < base) :
    positional base ds < base ^ ds.length := by
  rw [← List.length_reverse]
  exact Nat.ofDigits_lt_base_pow_length hbase fun d hd => h d (List.mem_reverse.1 hd)

/-- Of two numbers with equally many digits the lesser has the lesser digits. -/
theorem positional_lt_iff (hbase : 1 < base) (hlength : ds.length = es.length)
    (hds : ∀ d ∈ ds, d < base) (hes : ∀ e ∈ es, e < base) :
    positional base ds < positional base es ↔ ds < es := by
  induction ds generalizing es with
  | nil => simp [List.length_eq_zero_iff.1 hlength.symm]
  | cons d ds ih =>
    obtain ⟨e, es, rfl⟩ := List.exists_cons_of_length_eq_add_one hlength.symm
    have hpower : ds.length = es.length := by simpa using hlength
    have hds' : ∀ a ∈ ds, a < base := fun a ha => hds a (by simp [ha])
    have hes' : ∀ a ∈ es, a < base := fun a ha => hes a (by simp [ha])
    have hrest := ih hpower hds' hes'
    have hd := positional_lt hbase hds'
    have he := positional_lt hbase hes'
    rw [positional_cons, positional_cons, List.cons_lt_cons_iff, ← hrest, hpower]
    rw [hpower] at hd
    generalize base ^ es.length = unit at hd he
    -- a greater first digit outweighs all digits after it
    have hfirst : ∀ {a b m n : Nat}, a < b → m < unit → a * unit + m < b * unit + n := by
      intro a b m n hab hm
      have hunit : (a + 1) * unit ≤ b * unit := Nat.mul_le_mul_right unit hab
      rw [Nat.add_mul, Nat.one_mul] at hunit
      omega
    rcases Nat.lt_trichotomy d e with hlt | rfl | hgt
    · simp [hlt, hfirst hlt hd]
    · simp
    · have hnot := hfirst (n := positional base ds) hgt he
      simp only [Nat.not_lt.2 hgt.le, hgt.ne', false_and, or_self, iff_false]
      omega

theorem positional_injective (hbase : 1 < base) (hlength : ds.length = es.length)
    (hds : ∀ d ∈ ds, d < base) (hes : ∀ e ∈ es, e < base)
    (h : positional base ds = positional base es) : ds = es :=
  List.reverse_inj.1 (Nat.ofDigits_inj_of_len_eq hbase (by simpa using hlength)
    (by simpa using hds) (by simpa using hes) h)

/-- A map that keeps the order of the elements keeps the order of lists. -/
theorem map_lt_map_iff {α β : Type} [LT α] [LT β] {f : α → β} {l m : List α}
    (hf : ∀ a ∈ l, ∀ b ∈ m, (f a < f b ↔ a < b) ∧ (f a = f b ↔ a = b)) :
    l.map f < m.map f ↔ l < m := by
  induction l generalizing m with
  | nil => cases m <;> simp
  | cons a l ih =>
    cases m with
    | nil => simp
    | cons b m =>
      obtain ⟨hlt, heq⟩ := hf a (by simp) b (by simp)
      have hrest := ih (m := m) fun a' ha b' hb => hf a' (by simp [ha]) b' (by simp [hb])
      simp only [List.map_cons, List.cons_lt_cons_iff, hlt, heq, hrest]

end Literate
