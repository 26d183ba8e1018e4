import Literate.Proofs.Tangle.Expansion
import Literate.Proofs.Web.Citations
import Literate.Proofs.Web.Definitions

/-! An expansion, also one that fails, records citations only by the chunk that it expands and by
chunks that it has recorded before. Whatever files of a web are rendered, the chain of first
referrers of a chunk therefore leads to an output chunk. -/

namespace Literate.Tangle

open Citations (Grounded Rooted)

variable {w : Web} {p q r : Pass} {u : Nat}

/-- A pass has gone on from another: it has the citations of that and perhaps more, and a chunk
that cites in them is an output chunk or has been cited. -/
structure Pass.Led (w : Web) (p q : Pass) : Prop where
  grounded : Grounded w q.citations
  grown : p.citations <+: q.citations

namespace Pass.Led

theorem refl (h : Grounded w p.citations) : Led w p p := ⟨h, List.prefix_rfl⟩

theorem trans (h : Led w p q) (h' : Led w q r) : Led w p r := ⟨h'.grounded, h.grown.trans h'.grown⟩

theorem rooted (h : Led w p q) (hu : Rooted w p.citations u) : Rooted w q.citations u := by
  obtain ⟨more, hmore⟩ := h.grown
  rw [← hmore]
  exact hu.append more

end Pass.Led

open Pass (Led)

/-- A reference cites its definitions before they are expanded, and each of them may cite then. -/
theorem Expands.led (hw : ∀ full, ∀ d ∈ w.definitions.get full, d ∉ w.files ∧ d < w.size)
    {file : Text} {mark : Option Mark} {depth : Nat} {stack : List Text} {as : List Step}
    {e : Except Fault Unit} (h : Expands w file mark depth stack as p e q)
    (hp : Grounded w p.citations) (has : ∀ a ∈ as, Rooted w p.citations a.home) : Led w p q := by
  induction h with
  | nil p => exact .refl hp
  | cons _ _ iha ihas =>
    obtain ⟨ha, has⟩ := List.forall_mem_cons.1 has
    have hled := iha hp (by simpa using ha)
    exact hled.trans (ihas hled.grounded fun b hb => hled.rooted (has b hb))
  | abort _ _ ih => exact ih hp (by simpa using (List.forall_mem_cons.1 has).1)
  | fault _ p => exact .refl hp
  | code _ p => exact ⟨hp, List.prefix_rfl⟩
  | definition _ _ ih =>
    refine ih hp fun a ha => ?_
    rw [home_of_mem_stepsOf ha]
    exact has _ (List.mem_singleton.2 rfl)
  | @reference _ _ s _ name full first more p q _ _ ht _ ih =>
    obtain ⟨-, -, hdefs, -⟩ := target_ok.mp ht
    have hcitations : (p.enter w name first more s.chunk).citations =
        p.citations ++ (first :: more).map fun d => ⟨d, some s.chunk⟩ := rfl
    have henter : Led w p (p.enter w name first more s.chunk) := by
      refine ⟨?_, hcitations ▸ List.prefix_append _ _⟩
      rw [hcitations]
      exact hp.cite_all (has _ (List.mem_singleton.2 rfl)) fun d hd => hw full d (hdefs ▸ hd)
    have hbody : Led w (p.enter w name first more s.chunk) q := by
      refine ih henter.grounded fun a ha => .inr (Citations.count_pos_iff.2 ?_)
      obtain ⟨d, hd, rfl⟩ := List.mem_map.1 ha
      exact ⟨⟨d, some s.chunk⟩,
        hcitations ▸ List.mem_append_right _ (List.mem_map_of_mem hd), rfl⟩
    exact henter.trans ⟨hbody.grounded, hbody.grown⟩

section Web

variable (path : Text) (chunks : List Chunk)

/-- Renders chunks one after another, each with marks or without. -/
def renderAll (w : Web) (runs : List (Bool × Nat)) (m : Memory) : Memory :=
  runs.foldl (fun m run => (render w run.1 run.2 m).2) m

theorem definition_not_file {full : Text} {d : Nat}
    (hd : d ∈ (Web.ofChunks path chunks).definitions.get full) :
    d ∉ (Web.ofChunks path chunks).files ∧ d < (Web.ofChunks path chunks).size := by
  obtain ⟨c, hc, hdef, -⟩ := (Web.mem_definitions path chunks).1 hd
  constructor
  · rw [Web.mem_files, Web.chunk_ofChunks, hc, Option.getD_some]
    intro hk
    simp [Chunk.isDefinition, Chunk.Kind.isDefinition, hk] at hdef
  · rw [Web.size_ofChunks]
    exact (List.getElem?_eq_some_iff.1 hc).1

theorem render_grounded (marked : Bool) {i : Nat} (hi : i ∈ (Web.ofChunks path chunks).files)
    {m : Memory} (hm : Grounded (Web.ofChunks path chunks) m.citations) :
    Grounded (Web.ofChunks path chunks) (render (Web.ofChunks path chunks) marked i m).2.citations := by
  have hled : Led (Web.ofChunks path chunks) { citations := m.citations, names := m.names }
      (expandChunk (Web.ofChunks path chunks) marked i
        { citations := m.citations, names := m.names }).2 :=
    (expands_chunk _ marked i m).led (fun _ _ hd => definition_not_file path chunks hd) hm
      fun a ha => home_of_mem_stepsOf ha ▸ .inl hi
  rw [memory_render]
  exact hled.grounded

theorem renderAll_grounded {runs : List (Bool × Nat)}
    (hruns : ∀ run ∈ runs, run.2 ∈ (Web.ofChunks path chunks).files) {m : Memory}
    (hm : Grounded (Web.ofChunks path chunks) m.citations) :
    Grounded (Web.ofChunks path chunks) (renderAll (Web.ofChunks path chunks) runs m).citations := by
  induction runs generalizing m with
  | nil => exact hm
  | cons run runs ih =>
    exact ih (fun r hr => hruns r (by simp [hr]))
      (render_grounded path chunks run.1 (hruns run (by simp)) hm)

/-- After any renderings of output chunks, whether they succeed or fail, the first referrers of a
cited chunk lead to an output chunk and meet no chunk twice. A chunk that is not cited has none. -/
theorem ancestry_ends_at_file {runs : List (Bool × Nat)}
    (hruns : ∀ run ∈ runs, run.2 ∈ (Web.ofChunks path chunks).files) (names : List Text) (i : Nat) :
    let w := Web.ofChunks path chunks
    let cs := (renderAll w runs { names }).citations
    (0 < cs.count i → cs.ancestry w i ≠ [] ∧ (cs.ancestry w i).Nodup ∧ i ∉ cs.ancestry w i ∧
      (i :: cs.ancestry w i).IsChain (fun a b => (cs.referrers a).head? = some b) ∧
      ∃ file ∈ (cs.ancestry w i).getLast?, (w.chunk file).kind = .output) ∧
    (cs.count i = 0 → cs.ancestry w i = []) := by
  intro w cs
  have hgrounded : Grounded w cs := renderAll_grounded path chunks hruns .nil
  constructor
  · intro hi
    obtain ⟨line, hline, hnodup, hrooted, file, hlast, hfile⟩ := hgrounded.lineage hi
    rw [Citations.ancestry_of_lineage hgrounded hi hline hnodup hrooted]
    obtain ⟨hout, hline'⟩ := List.nodup_cons.1 hnodup
    have hne : line ≠ [] := by
      rintro rfl
      simp at hlast
    exact ⟨hne, hline', hout, hline.isChain, file, hlast, (Web.mem_files path chunks).1 hfile⟩
  · intro hi
    have hline : Citations.Lineage cs i [] := .root (Citations.referrers_of_count hi)
    exact Citations.climb_of_lineage hline List.nodup_nil (by simp) (Nat.zero_le _)

end Web

/-- Two definitions that refer to each other, and a file that begins with either of them. -/
def entwined : List Chunk :=
  [{ Chunk.ofKind .output "a" with commands := [⟨.reference "x", .none⟩] },
    { Chunk.ofKind .named "x" with commands := [⟨.reference "y", .none⟩] },
    { Chunk.ofKind .named "y" with commands := [⟨.code "y", .none⟩, ⟨.reference "x", .none⟩] },
    { Chunk.ofKind .output "b" with commands := [⟨.reference "y", .none⟩] }]

theorem definedNames_entwined : Web.definedNames entwined = ["x", "y"] :=
  List.mergeSort_of_pairwise (by decide)

/-- Both files fail, and each definition is among the referrers of the other. -/
theorem ancestry_ends_at_file_entwined :
    let w := Web.ofChunks "m.w" entwined
    let cs := (renderAll w [(false, 3), (true, 0)] {}).citations
    (∀ run ∈ [(false, 3), (true, 0)], run.2 ∈ w.files) ∧
      cs.referrers 1 = [2, 0] ∧ cs.referrers 2 = [3, 1] ∧ cs.ancestry w 1 = [2, 3] ∧
      (cs.ancestry w 1).Nodup ∧ 1 ∉ cs.ancestry w 1 ∧
      (1 :: cs.ancestry w 1).IsChain (fun a b => (cs.referrers a).head? = some b) ∧
      ∃ file ∈ (cs.ancestry w 1).getLast?, (w.chunk file).kind = .output := by
  intro w cs
  have hw : w = _ := Web.ofChunks_of_names "m.w" entwined definedNames_entwined
  have hruns : ∀ run ∈ [(false, 3), (true, 0)], run.2 ∈ w.files := by
    rw [hw]
    decide
  have hcs : cs = [⟨2, some 3⟩, ⟨1, some 2⟩, ⟨1, some 0⟩, ⟨2, some 1⟩] := by
    simp only [cs, hw]
    rfl
  have hone : 0 < cs.count 1 := by
    rw [hcs]
    decide
  have hchain : cs.ancestry w 1 = [2, 3] := by
    rw [hcs, hw]
    rfl
  obtain ⟨-, hnodup, hout, hfirst, hlast⟩ :=
    (ancestry_ends_at_file "m.w" entwined hruns [] 1).1 hone
  exact ⟨hruns, by rw [hcs]; rfl, by rw [hcs]; rfl, hchain, hnodup, hout, hfirst, hlast⟩

end Literate.Tangle
