import Mathlib.Data.Finset.Card
import Mathlib.Data.List.Infix
import Literate.Proofs.Text.Sorted
import Literate.Web.Citations

/-! Who cites whom. When only output chunks and chunks that were cited before cite others, a chunk
cannot come before its first referrer, so the chain of first referrers of a chunk goes back in time
and ends at an output chunk. -/

namespace Literate

namespace Citations

variable {w : Web} {cs ds : Citations} {i d u : Nat} {line : List Nat}

theorem count_append (cs ds : Citations) (i : Nat) :
    Citations.count (cs ++ ds) i = cs.count i + ds.count i := List.countP_append

theorem count_pos_iff : 0 < cs.count i ↔ ∃ c ∈ cs, c.cited = i := by
  simp [Citations.count, List.countP_pos_iff]

theorem referrers_eq (cs : Citations) (i : Nat) :
    cs.referrers i =
      (cs.filterMap fun c => if c.cited = i then c.citing else none).foldl collect [] := rfl

theorem mem_referrers : u ∈ cs.referrers i ↔ ⟨i, some u⟩ ∈ cs := by
  have hc : ∀ c : Citation, (if c.cited = i then c.citing else none) = some u ↔
      c = ⟨i, some u⟩ := by
    rintro ⟨cited, citing⟩
    by_cases hi : cited = i <;> simp [hi]
  simp [referrers_eq, mem_foldl_collect, hc]

theorem nodup_referrers (cs : Citations) (i : Nat) : (cs.referrers i).Nodup :=
  nodup_foldl_collect List.nodup_nil

theorem referrers_of_count (h : cs.count i = 0) : cs.referrers i = [] := by
  refine List.eq_nil_iff_forall_not_mem.2 fun u hu => ?_
  have hpos : 0 < cs.count i := count_pos_iff.2 ⟨_, mem_referrers.1 hu, rfl⟩
  omega

theorem referrers_concat (cs : Citations) (d u i : Nat) :
    Citations.referrers (cs ++ [⟨d, some u⟩]) i =
      if d = i then collect (cs.referrers i) u else cs.referrers i := by
  by_cases hd : d = i <;> simp [referrers_eq, hd]

/-- A chunk that may cite: an output chunk, or one that is cited. -/
def Rooted (w : Web) (cs : Citations) (u : Nat) : Prop := u ∈ w.files ∨ 0 < cs.count u

theorem Rooted.append (h : Rooted w cs u) (ds : Citations) : Rooted w (cs ++ ds) u := by
  rcases h with h | h
  · exact .inl h
  · refine .inr ?_
    rw [count_append]
    omega

/-- Citations in the order of which each chunk that cites is an output chunk or has been cited. -/
inductive Grounded (w : Web) : Citations → Prop
  | nil : Grounded w []
  | cite {cs : Citations} {d u : Nat} (h : Grounded w cs) (hu : Rooted w cs u) (hd : d ∉ w.files)
    (hsize : d < w.size) : Grounded w (cs ++ [⟨d, some u⟩])

/-- The first referrers of a chunk, each of the one before it, up to a chunk without one. -/
inductive Lineage (cs : Citations) : Nat → List Nat → Prop
  | root {i : Nat} (h : cs.referrers i = []) : Lineage cs i []
  | parent {i u : Nat} {rest line : List Nat} (h : cs.referrers i = u :: rest)
    (hline : Lineage cs u line) : Lineage cs i (u :: line)

theorem Lineage.isChain (h : Lineage cs i line) :
    (i :: line).IsChain fun a b => (cs.referrers a).head? = some b := by
  induction h with
  | root _ => exact .singleton _
  | parent hparent _ ih => exact .cons_cons (by rw [hparent, List.head?_cons]) ih

namespace Grounded

theorem cite_all (h : Grounded w cs) (hu : Rooted w cs u) {defs : List Nat}
    (hdefs : ∀ d ∈ defs, d ∉ w.files ∧ d < w.size) :
    Grounded w (cs ++ defs.map fun d => ⟨d, some u⟩) := by
  induction defs using List.reverseRecOn with
  | nil => simpa using h
  | append_singleton defs d ih =>
    obtain ⟨hd, hsize⟩ := hdefs d (by simp)
    have hgrounded := ih fun e he => hdefs e (by simp [he])
    simpa using hgrounded.cite (hu.append _) hd hsize

theorem count_file (h : Grounded w cs) (hi : i ∈ w.files) : cs.count i = 0 := by
  induction h with
  | nil => rfl
  | @cite cs d u _ _ hd _ ih =>
    have hne : d ≠ i := fun he => hd (he ▸ hi)
    rw [count_append, ih]
    simp [Citations.count, hne]

theorem lt_size (h : Grounded w cs) (hi : Rooted w cs i) : i < w.size := by
  rcases hi with hi | hi
  · simp only [Web.files, Web.positions, List.mem_filter, List.mem_range] at hi
    exact hi.1
  · induction h with
    | nil => simp [Citations.count] at hi
    | @cite cs d u _ _ _ hsize ih =>
      by_cases hd : d = i
      · exact hd ▸ hsize
      · rw [count_append] at hi
        exact ih (by simpa [Citations.count, hd] using hi)

theorem citing_lt_size (h : Grounded w cs) (hu : ⟨d, some u⟩ ∈ cs) : u < w.size := by
  induction h with
  | nil => simp at hu
  | @cite cs e v h hv _ _ ih =>
    rcases List.mem_append.1 hu with hu | hu
    · exact ih hu
    · obtain ⟨-, rfl⟩ : d = e ∧ u = v := by simpa using hu
      exact h.lt_size hv

theorem referrers_ne_nil (h : Grounded w cs) (hi : 0 < cs.count i) : cs.referrers i ≠ [] := by
  induction h with
  | nil => simp [Citations.count] at hi
  | @cite cs d u _ _ _ _ ih =>
    intro hnil
    have hu : ∀ v, v ∉ Citations.referrers (cs ++ [⟨d, some u⟩]) i := by simp [hnil]
    by_cases hd : d = i
    · exact hu u (mem_referrers.2 (by simp [hd]))
    · rw [referrers_concat, if_neg hd] at hnil
      rw [count_append] at hi
      exact ih (by simpa [Citations.count, hd] using hi) hnil

/-- A first referrer stays the first, and an output chunk stays without one. -/
theorem lineage_cite (h : Grounded w cs) (hd : d ∉ w.files) (hline : Lineage cs i line)
    (hi : Rooted w cs i) (hall : ∀ x ∈ line, Rooted w cs x) :
    Lineage (cs ++ [⟨d, some u⟩]) i line := by
  induction hline with
  | @root i hnil =>
    have hfile : i ∈ w.files := hi.resolve_right fun hpos => h.referrers_ne_nil hpos hnil
    have hne : d ≠ i := fun he => hd (he ▸ hfile)
    exact .root (by rw [referrers_concat, if_neg hne, hnil])
  | @parent i parent rest line hparent _ ih =>
    have hrest := ih (hall parent (by simp)) fun x hx => hall x (by simp [hx])
    by_cases hdi : d = i
    · obtain ⟨more, hmore⟩ : ∃ more, collect (parent :: rest) u = parent :: more := by
        by_cases hu : u ∈ parent :: rest
        · exact ⟨rest, by rw [collect, if_pos hu]⟩
        · exact ⟨rest ++ [u], by rw [collect, if_neg hu, List.cons_append]⟩
      exact .parent (by rw [referrers_concat, if_pos hdi, hparent, hmore]) hrest
    · exact .parent (by rw [referrers_concat, if_neg hdi, hparent]) hrest

/-- A cited chunk has a lineage without repetition that ends at an output chunk. -/
theorem lineage (h : Grounded w cs) (hi : 0 < cs.count i) :
    ∃ line, Lineage cs i line ∧ (i :: line).Nodup ∧ (∀ x ∈ line, Rooted w cs x) ∧
      ∃ file ∈ line.getLast?, file ∈ w.files := by
  -- On the citations: the first one of a chunk puts it before the lineage of the chunk that cites.
  induction h generalizing i with
  | nil => simp [Citations.count] at hi
  | @cite cs d u h hu hd hsize ih =>
    by_cases hold : 0 < cs.count i
    · obtain ⟨line, hline, hnodup, hrooted, hlast⟩ := ih hold
      exact ⟨line, h.lineage_cite hd hline (.inr hold) hrooted, hnodup,
        fun x hx => (hrooted x hx).append _, hlast⟩
    · have hzero : cs.count i = 0 := by omega
      obtain rfl : d = i := by
        by_contra hne
        rw [count_append, hzero] at hi
        simp [Citations.count, hne] at hi
      have hfirst : Citations.referrers (cs ++ [⟨d, some u⟩]) d = [u] := by
        rw [referrers_concat, if_pos rfl, referrers_of_count hzero]
        rfl
      have hfresh : ∀ x, Rooted w cs x → d ≠ x := by
        rintro x (hx | hx) rfl
        · exact hd hx
        · omega
      have hline : ∃ line, Lineage cs u line ∧ (u :: line).Nodup ∧ (∀ x ∈ line, Rooted w cs x) ∧
          ∃ file ∈ (u :: line).getLast?, file ∈ w.files := by
        rcases hu with hfile | hcited
        · exact ⟨[], .root (referrers_of_count (h.count_file hfile)), by simp, by simp,
            u, by simp, hfile⟩
        · obtain ⟨line, hline, hnodup, hrooted, file, hlast, hfile⟩ := ih hcited
          refine ⟨line, hline, hnodup, hrooted, file, ?_, hfile⟩
          rw [List.getLast?_cons, Option.mem_def.1 hlast]
          rfl
      obtain ⟨line, hline, hnodup, hrooted, hlast⟩ := hline
      have hall : ∀ x ∈ u :: line, Rooted w cs x := by simpa using ⟨hu, hrooted⟩
      refine ⟨u :: line, .parent hfirst (h.lineage_cite hd hline hu hrooted), ?_,
        fun x hx => (hall x hx).append _, hlast⟩
      exact List.nodup_cons.2 ⟨fun hx => hfresh d (hall d hx) rfl, hnodup⟩

end Grounded

/-- Climbing follows the lineage of a chunk while it meets nothing that it has met. -/
theorem climb_of_lineage {start here fuel : Nat} {chain : List Nat} (h : Lineage cs here line)
    (hnodup : line.Nodup) (hnew : ∀ x ∈ line, x ≠ start ∧ x ∉ chain) (hfuel : line.length ≤ fuel) :
    climb cs.referrers start fuel here chain = chain ++ line := by
  induction h generalizing fuel chain with
  | root hnil =>
    cases fuel with
    | zero => simp [climb]
    | succ fuel => simp [climb, hnil]
  | @parent i u rest line hparent _ ih =>
    obtain ⟨fuel, rfl⟩ : ∃ n, fuel = n + 1 := ⟨fuel - 1, by simp at hfuel; omega⟩
    obtain ⟨hu, hline⟩ := List.nodup_cons.1 hnodup
    obtain ⟨hstart, hchain⟩ := hnew u (by simp)
    have hrest : climb cs.referrers start fuel u (chain ++ [u]) = chain ++ [u] ++ line := by
      refine ih hline ?_ (by simpa using hfuel)
      intro x hx
      obtain ⟨hxs, hxc⟩ := hnew x (by simp [hx])
      have hxu : x ≠ u := fun he => hu (he ▸ hx)
      exact ⟨hxs, by simp [hxc, hxu]⟩
    simp [climb, hparent, hstart, hchain, hrest]

theorem ancestry_of_lineage (h : Grounded w cs) (hi : 0 < cs.count i) (hline : Lineage cs i line)
    (hnodup : (i :: line).Nodup) (hrooted : ∀ x ∈ line, Rooted w cs x) : cs.ancestry w i = line := by
  have hsub : (i :: line).toFinset ⊆ Finset.range w.size := by
    intro x hx
    rw [List.mem_toFinset, List.mem_cons] at hx
    rw [Finset.mem_range]
    rcases hx with rfl | hx
    · exact h.lt_size (.inr hi)
    · exact h.lt_size (hrooted x hx)
  have hcard := Finset.card_le_card hsub
  rw [List.toFinset_card_of_nodup hnodup, Finset.card_range, List.length_cons] at hcard
  obtain ⟨hout, hline'⟩ := List.nodup_cons.1 hnodup
  have hnew : ∀ x ∈ line, x ≠ i ∧ x ∉ ([] : List Nat) := fun x hx =>
    ⟨fun he => hout (he ▸ hx), List.not_mem_nil⟩
  exact climb_of_lineage hline hline' hnew (by omega)

end Citations

end Literate
