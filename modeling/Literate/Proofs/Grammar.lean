import Mathlib.Computability.Language

/-! Languages that are read one symbol at a time, and the equations by which they are found. -/

open scoped Computability

namespace Literate.Grammar

variable {α σ : Type}

/-- One symbol with a property. -/
def symbol (p : α → Prop) : Language α := {w | ∃ a, p a ∧ w = [a]}

theorem nil_not_mem_symbol (p : α → Prop) : [] ∉ symbol p := by
  rintro ⟨a, -, h⟩
  cases h

theorem symbol_add (p q : α → Prop) : symbol p + symbol q = symbol fun a => p a ∨ q a := by
  ext w
  constructor
  · rintro (⟨a, ha, rfl⟩ | ⟨a, ha, rfl⟩)
    · exact ⟨a, .inl ha, rfl⟩
    · exact ⟨a, .inr ha, rfl⟩
  · rintro ⟨a, ha | ha, rfl⟩
    · exact .inl ⟨a, ha, rfl⟩
    · exact .inr ⟨a, ha, rfl⟩

@[simp] theorem symbol_false : symbol (fun _ : α => False) = 0 := by
  ext w
  constructor
  · rintro ⟨a, h, -⟩
    exact h.elim
  · exact False.elim

@[simp] theorem nil_mem_symbol_mul (p : α → Prop) (l : Language α) : [] ∈ symbol p * l ↔ False := by
  rw [iff_false]
  rintro ⟨-, ⟨a, -, rfl⟩, v, -, h⟩
  cases h

@[simp] theorem cons_mem_symbol_mul {p : α → Prop} {l : Language α} {a : α} {w : List α} :
    a :: w ∈ symbol p * l ↔ p a ∧ w ∈ l := by
  constructor
  · rintro ⟨-, ⟨b, hb, rfl⟩, v, hv, h⟩
    obtain ⟨rfl, rfl⟩ := List.cons.inj h
    exact ⟨hb, hv⟩
  · rintro ⟨ha, hw⟩
    exact ⟨[a], ⟨a, ha, rfl⟩, w, hw, rfl⟩

@[simp] theorem cons_mem_one {a : α} {w : List α} : a :: w ∈ (1 : Language α) ↔ False := by
  simp [Language.mem_one]

/-- The empty word, under a condition. -/
def emptyIf (c : Prop) : Language α := {w | c ∧ w = []}

@[simp] theorem mem_emptyIf_mul {c : Prop} {l : Language α} {w : List α} :
    w ∈ emptyIf c * l ↔ c ∧ w ∈ l := by
  constructor
  · rintro ⟨-, ⟨hc, rfl⟩, v, hv, rfl⟩
    exact ⟨hc, hv⟩
  · rintro ⟨hc, hw⟩
    exact ⟨[], ⟨hc, rfl⟩, w, hw, rfl⟩

-- sums of languages are suprema to the simplifier
@[simp] theorem mem_sup {l m : Language α} {w : List α} : w ∈ l ⊔ m ↔ w ∈ l ∨ w ∈ m := Iff.rfl

/-- The words that lead a machine, which may refuse a symbol, from a state to a final one. -/
def accepted (next : σ → α → Option σ) (final : σ → Prop) (s : σ) : Language α :=
  {w | ∃ t, w.foldlM next s = some t ∧ final t}

variable {next : σ → α → Option σ} {final : σ → Prop} {s : σ}

@[simp] theorem nil_mem_accepted : [] ∈ accepted next final s ↔ final s := by
  constructor
  · rintro ⟨t, ht, hf⟩
    obtain rfl := Option.some.inj ht
    exact hf
  · intro hf
    exact ⟨s, rfl, hf⟩

@[simp] theorem cons_mem_accepted {a : α} {w : List α} :
    a :: w ∈ accepted next final s ↔ ∃ t, next s a = some t ∧ w ∈ accepted next final t := by
  constructor
  · rintro ⟨u, hu, hf⟩
    rw [List.foldlM_cons] at hu
    obtain ⟨t, ht, hw⟩ := Option.bind_eq_some_iff.mp hu
    exact ⟨t, ht, u, hw, hf⟩
  · rintro ⟨t, ht, u, hu, hf⟩
    exact ⟨u, by rw [List.foldlM_cons, ht]; exact hu, hf⟩

end Literate.Grammar
