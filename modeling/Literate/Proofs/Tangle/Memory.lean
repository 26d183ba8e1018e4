import Literate.Proofs.Tangle.Expansion

/-! An expansion looks at its web and at its own buffer, never at what was recorded of references.
So what is remembered of other renderings has no influence on the code of a chunk. -/

namespace Literate.Tangle

/-- Passes with equal buffers take their steps alike. -/
theorem Step.run_visible (w : Web) (file : Text) (mark : Option Mark) :
    Lockstep w file mark (fun p p' => p'.writer = p.writer) (Step.run w file mark) where
  fault h _ := Step.run_of_fault h _
  code hc hp := ⟨_, Step.run_code hc _, by simp [Pass.write, Pass.writeMark, hp]⟩
  definition hk _ := Step.run_definition hk _
  reference hc ht hp := ⟨_, by rw [Pass.writer_enter, Pass.writer_enter, hp], fun hbody hq =>
    ⟨_, Step.run_reference hc ht hbody, congrArg Writer.clearIndent hq⟩⟩

/-- What is remembered has no influence on the code of a chunk, nor on the fault that prevents it. -/
theorem render_of_memory (w : Web) (marked : Bool) (i : Nat) (m n : Memory) :
    (render w marked i m).1 = (render w marked i n).1 := by
  have hwriter : ({ citations := m.citations, names := m.names } : Pass).writer =
      ({ citations := n.citations, names := n.names } : Pass).writer := rfl
  obtain ⟨q, hq, hw⟩ := (expands_chunk w marked i n).lockstep (Step.run_visible w _ _) hwriter
  rw [← sequence_stepsOf] at hq
  have hexpand : expandChunk w marked i { citations := m.citations, names := m.names } = (_, q) := hq
  unfold render
  rw [hexpand]
  rcases hr : expandChunk w marked i { citations := n.citations, names := n.names } with
    ⟨⟨f⟩ | ⟨⟨⟩⟩, r⟩
  · simp
  · rw [hr] at hw
    simp [hw]

end Literate.Tangle
