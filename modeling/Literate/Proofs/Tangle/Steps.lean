import Literate.Tangle

/-! The equations of an expansion: how a sequence begins, and what a reference does that is at fault
or that has found its definitions. -/

namespace Literate.Tangle

section Sequence

variable {α σ : Type} {run : α → σ → Except Fault Unit × σ} {p q : σ} {a : α} {rest : List α}

@[simp] theorem sequence_nil (p : σ) : sequence run [] p = (.ok (), p) := rfl

theorem sequence_cons_of_ok (h : run a p = (.ok (), q)) :
    sequence run (a :: rest) p = sequence run rest q := by
  simp [sequence, h]

theorem sequence_cons_of_error {f : Fault} (h : run a p = (.error f, q)) :
    sequence run (a :: rest) p = (.error f, q) := by
  simp [sequence, h]

@[simp] theorem sequence_singleton (run : α → σ → Except Fault Unit × σ) (a : α) (p : σ) :
    sequence run [a] p = run a p := by
  rcases h : run a p with ⟨⟨f⟩ | ⟨⟨⟩⟩, q⟩
  · exact sequence_cons_of_error h
  · exact sequence_cons_of_ok h

theorem sequence_map {β : Type} (f : β → α) (bs : List β) (p : σ) :
    sequence run (bs.map f) p = sequence (fun b => run (f b)) bs p := by
  induction bs generalizing p with
  | nil => rfl
  | cons b bs ih => simp [sequence, ih]

end Sequence

variable {w : Web} {file : Text} {mark : Option Mark} {stack : List Text} {name full : Text}
  {l : Location} {p q : Pass}

theorem target_ok {first : Nat} {more : List Nat} :
    target w file stack name l = .ok (full, first, more) ↔
      w.resolve name = .ok full ∧ isAbbreviation full = false ∧
        w.definitions.get full = first :: more ∧ full ∉ stack := by
  constructor
  · intro h
    unfold target at h
    cases hr : w.resolve name with
    | error f => simp [hr] at h
    | ok found =>
      by_cases ha : isAbbreviation found = true
      · simp [hr, ha] at h
      · cases hg : w.definitions.get found with
        | nil => simp [hr, ha, hg] at h
        | cons d ds =>
          by_cases hs : found ∈ stack
          · simp [hr, ha, hg, hs] at h
          · simp only [hr, ha, hg, hs, if_false] at h
            cases h
            exact ⟨rfl, by simpa using ha, hg, hs⟩
  · rintro ⟨hr, ha, hg, hs⟩
    simp [target, hr, ha, hg, hs]

/-- What a pass keeps for the next one. -/
def Pass.memory (p : Pass) : Memory := ⟨p.citations, p.names⟩

/-- The pass in which the definitions of a name are expanded. -/
def Pass.enter (w : Web) (name : Text) (first : Nat) (more : List Nat) (citing : Nat) (p : Pass) :
    Pass :=
  (p.cite name (first :: more) citing).indentFor (w.chunk first)

theorem Pass.writer_enter (w : Web) (name : Text) (first : Nat) (more : List Nat) (citing : Nat)
    (p : Pass) : (p.enter w name first more citing).writer =
      p.writer.setIndent (if (w.chunk first).indent = .off then 0 else p.writer.column) := rfl

theorem expandReference_of_error {f : Fault} (h : target w file stack name l = .error f)
    (depth citing : Nat) (p : Pass) :
    expandReference w file mark depth stack citing name l p = (.error f, p) := by
  cases depth <;> simp [expandReference, h]

theorem expandReference_of_ok {first : Nat} {more : List Nat}
    (h : target w file stack name l = .ok (full, first, more)) (depth citing : Nat) (p : Pass) :
    expandReference w file mark (depth + 1) stack citing name l p =
      ((sequence (runDefinition w mark (expandReference w file mark depth (stack ++ [full])))
        (first :: more) (p.enter w name first more citing)).1,
      (sequence (runDefinition w mark (expandReference w file mark depth (stack ++ [full])))
        (first :: more) (p.enter w name first more citing)).2.clearIndent) := by
  simp only [expandReference, h, Pass.enter]

theorem expandReference_ok {depth citing : Nat}
    (h : expandReference w file mark depth stack citing name l p = (.ok (), q)) :
    ∃ below full first more r, depth = below + 1 ∧
      target w file stack name l = .ok (full, first, more) ∧
      sequence (runDefinition w mark (expandReference w file mark below (stack ++ [full])))
        (first :: more) (p.enter w name first more citing) = (.ok (), r) ∧
      q = r.clearIndent := by
  cases ht : target w file stack name l with
  | error f => simp [expandReference_of_error ht] at h
  | ok found =>
    obtain ⟨full, first, more⟩ := found
    cases depth with
    | zero => simp [expandReference, ht] at h
    | succ below =>
      rw [expandReference_of_ok ht, Prod.mk.injEq] at h
      exact ⟨below, full, first, more, _, rfl, rfl, Prod.ext h.1 rfl, h.2.symm⟩

/-- What is remembered of a rendering is what its expansion recorded, also if that failed. -/
theorem memory_render (w : Web) (marked : Bool) (i : Nat) (m : Memory) :
    (render w marked i m).2 =
      (expandChunk w marked i { citations := m.citations, names := m.names }).2.memory := by
  unfold render
  split <;> next hr => rw [hr, Pass.memory]

end Literate.Tangle
