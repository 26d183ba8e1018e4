import Literate.Reader

/-! Induction over the sources of a load: what holds of the reading of one source, given that it
holds of those that it includes, holds of all that is read. -/

namespace Literate.Reader

theorem readSource_induction {P : Outcome → Prop} (options : Options)
    (h : ∀ ctx : Context, (∀ path o failure, ctx.fetch path = .read o failure → P o) →
      ∀ bytes, P (readTokens ctx (Token.ofText ctx.command bytes)))
    (tree : FileTree) (depth : Nat) (reading : List Text) (name dir : Text) (source : Source) :
    P (readSource options tree depth reading name dir source) := by
  induction depth generalizing reading name dir source with
  | zero =>
    exact h ⟨options.command, options.permitMissing, options.substitutions, name, fun _ => .cycle⟩
      nofun source.bytes
  | succ depth ih =>
    refine h ⟨options.command, options.permitMissing, options.substitutions, name, _⟩ ?_
      source.bytes
    intro path o failure hfetch
    dsimp only at hfetch
    split at hfetch
    · cases hfetch
    · split at hfetch
      · cases hfetch
      · cases hfetch
        exact ih _ _ _ _

/-- The chunks of a load are those that were read, but for prose that says nothing. -/
theorem mem_of_load {options : Options} {tree : FileTree} {name : Text} {source : Source}
    {chunks : List Chunk} (h : (load options tree name source).chunks = .ok chunks) {c : Chunk}
    (hc : c ∈ chunks) : c ∈ (readSource options tree (includeDepth tree) [tree.absolute name] name
      (Path.directory name) source).chunks ∧ isVacuous c = false := by
  cases hf : source.failure with
  | some cause => simp [load, hf] at h
  | none =>
    simp only [load, hf, Except.ok.injEq] at h
    subst h
    simpa using hc

end Literate.Reader
