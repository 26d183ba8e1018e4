import Mathlib.Data.Set.Card
import Literate.Proofs.Tangle.Ancestry
import Literate.Proofs.Tangle.Routes
import Literate.Proofs.Tangle.Success
import Literate.Proofs.Web.Uses
import Literate.Tangle.Emit

/-! What is recorded of references when all files of a web are written agrees with the reference
graph: a chunk is counted once for every route from an output chunk to its name, its referrers are
the chunks that use it and were expanded, and the names are those of the expanded references. -/

namespace Literate.Tangle

/-- A route that begins in an output chunk. -/
abbrev FileRoute (w : Web) : Text → List Site → Prop := Route w fun s => s.chunk ∈ w.files

section Sites

variable {w : Web} {u : Nat} {name full : Text}

theorem mem_referenceNames_iff_site :
    name ∈ (w.chunk u).referenceNames ↔ ∃ s : Site, s.chunk = u ∧ s.name? w = some name := by
  constructor
  · intro h
    obtain ⟨k, hk, hname⟩ := List.mem_filterMap.1 h
    obtain ⟨place, hplace⟩ := List.mem_iff_getElem?.1 hk
    exact ⟨⟨u, place⟩, rfl, by simp [Site.name?, hplace, hname]⟩
  · rintro ⟨s, rfl, hname⟩
    obtain ⟨k, hk, hname⟩ := Option.bind_eq_some_iff.1 hname
    exact List.mem_filterMap.2 ⟨k, List.mem_of_getElem? hk, hname⟩

theorem refers_iff_site : Refers w u full ↔ ∃ s : Site, s.chunk = u ∧ s.full? w = some full := by
  constructor
  · rintro ⟨name, hname, hfull⟩
    obtain ⟨s, hs, hn⟩ := mem_referenceNames_iff_site.1 hname
    exact ⟨s, hs, Site.full?_of_name hn hfull⟩
  · rintro ⟨s, hs, hfull⟩
    obtain ⟨name, hn, hresolve⟩ := Option.bind_eq_some_iff.1 hfull
    refine ⟨name, mem_referenceNames_iff_site.2 ⟨s, hs, hn⟩, ?_⟩
    cases hr : w.resolve name with
    | error f => simp [hr, Except.toOption] at hresolve
    | ok found =>
      rw [hr] at hresolve
      rw [Option.some.inj hresolve]

theorem Route.full?_last {start : Site → Prop} {route : List Site} {s : Site}
    (h : Route w start full route) (hs : s ∈ route.getLast?) : s.full? w = some full := by
  have hend := h.last
  rwa [ending, Option.mem_def.1 hs] at hend

theorem Route.reaches {route : List Site} (h : FileRoute w full route) :
    ∃ i ∈ w.files, ∀ s ∈ route.getLast?, Reaches w i s.chunk := by
  induction route using List.reverseRecOn generalizing full with
  | nil => exact absurd rfl h.ne_nil
  | append_singleton route s ih =>
    by_cases hne : route = []
    · subst hne
      obtain ⟨hs, -⟩ := Route.cons_iff.1 h
      exact ⟨s.chunk, hs, by simpa using Reaches.start⟩
    · obtain ⟨-, m, hroute, hdef⟩ := (Route.concat_iff hne).1 h
      obtain ⟨i, hi, hreach⟩ := ih hroute
      obtain ⟨r, hr, hm⟩ := Option.bind_eq_some_iff.1 hroute.last
      have hs : Reaches w i s.chunk :=
        (hreach r hr).definition (refers_iff_site.2 ⟨r, rfl, hm⟩) hdef
      exact ⟨i, hi, by simpa using hs⟩

end Sites

/-- All routes from output chunks are on record, and nothing else. -/
structure Recorded (w : Web) (routes : List (List Site)) (m : Memory) : Prop where
  lists : Lists w (fun s => s.chunk ∈ w.files) routes
  records : Records w routes {} m

namespace Recorded

variable {w : Web} {routes : List (List Site)} {m : Memory} {d u : Nat} {full name : Text}

theorem route_iff (h : Recorded w routes m) {route : List Site} :
    FileRoute w full route ↔ route ∈ routes ∧ ending w route = some full := by
  rw [h.lists.mem_iff]
  constructor
  · intro hroute
    exact ⟨⟨full, hroute⟩, hroute.last⟩
  · rintro ⟨⟨m, hroute⟩, hend⟩
    rw [hroute.last, Option.some.injEq] at hend
    exact hend ▸ hroute

theorem mem_citations (h : Recorded w routes m) {c : Citation} :
    c ∈ m.citations ↔ ∃ full, c.cited ∈ w.definitions.get full ∧
      ∃ route s, FileRoute w full route ∧ s ∈ route.getLast? ∧ c.citing = some s.chunk := by
  simp only [h.records.citations, List.nil_append, List.mem_flatMap, h.route_iff]
  constructor
  · rintro ⟨route, hr, hc⟩
    obtain ⟨full, hroute⟩ := (h.lists.mem_iff route).1 hr
    obtain ⟨s, hs, -⟩ := Option.bind_eq_some_iff.1 hroute.last
    simp only [citationsOf, hroute.last, List.mem_map] at hc
    obtain ⟨d, hd, rfl⟩ := hc
    exact ⟨full, hd, route, s, ⟨hr, hroute.last⟩, hs, by simp [hs]⟩
  · rintro ⟨full, hd, route, s, ⟨hr, hend⟩, hs, hciting⟩
    refine ⟨route, hr, ?_⟩
    simp only [citationsOf, hend, List.mem_map]
    exact ⟨c.cited, hd, by rw [Option.mem_def.1 hs, Option.map_some, ← hciting]⟩

theorem count_pos_iff (h : Recorded w routes m) :
    0 < m.citations.count d ↔
      ∃ full, d ∈ w.definitions.get full ∧ ∃ route, FileRoute w full route := by
  simp only [Citations.count_pos_iff, h.mem_citations]
  constructor
  · rintro ⟨c, ⟨full, hd, route, s, hroute, -⟩, rfl⟩
    exact ⟨full, hd, route, hroute⟩
  · rintro ⟨full, hd, route, hroute⟩
    obtain ⟨s, hs, -⟩ := Option.bind_eq_some_iff.1 hroute.last
    exact ⟨⟨d, some s.chunk⟩, ⟨full, hd, route, s, hroute, hs, rfl⟩, rfl⟩

theorem exists_route_iff (h : Recorded w routes m) {s : Site} (hs : s.full? w = some full) :
    (∃ route, FileRoute w full route ∧ s ∈ route.getLast?) ↔
      s.chunk ∈ w.files ∨ 0 < m.citations.count s.chunk := by
  constructor
  · rintro ⟨route, hroute, hlast⟩
    obtain ⟨init, rfl⟩ := List.getLast?_eq_some_iff.1 hlast
    by_cases hne : init = []
    · subst hne
      exact .inl (Route.cons_iff.1 hroute).1
    · obtain ⟨-, n, hinit, hdef⟩ := (Route.concat_iff hne).1 hroute
      exact .inr (h.count_pos_iff.2 ⟨n, hdef, init, hinit⟩)
  · rintro (hfile | hcited)
    · exact ⟨[s], Route.cons_iff.2 ⟨hfile, .inl ⟨rfl, hs⟩⟩, by simp⟩
    · obtain ⟨n, hdef, route, hroute⟩ := h.count_pos_iff.1 hcited
      exact ⟨route ++ [s], (Route.concat_iff hroute.ne_nil).2 ⟨hs, n, hroute, hdef⟩, by simp⟩

theorem mem_referrers (h : Recorded w routes m) :
    u ∈ m.citations.referrers d ↔ (∃ full, d ∈ w.definitions.get full ∧ Refers w u full) ∧
      (u ∈ w.files ∨ 0 < m.citations.count u) := by
  rw [Citations.mem_referrers, h.mem_citations]
  constructor
  · rintro ⟨full, hd, route, s, hroute, hs, hu⟩
    obtain rfl : u = s.chunk := Option.some.inj hu
    have hfull := hroute.full?_last hs
    exact ⟨⟨full, hd, refers_iff_site.2 ⟨s, rfl, hfull⟩⟩,
      (h.exists_route_iff hfull).1 ⟨route, hroute, hs⟩⟩
  · rintro ⟨⟨full, hd, hrefers⟩, hu⟩
    obtain ⟨s, rfl, hfull⟩ := refers_iff_site.1 hrefers
    obtain ⟨route, hroute, hs⟩ := (h.exists_route_iff hfull).2 hu
    exact ⟨full, hd, route, s, hroute, hs, rfl⟩

theorem mem_names (h : Recorded w routes m) :
    name ∈ m.names ↔ ∃ s : Site, s.name? w = some name ∧ s.full? w ≠ none ∧
      (s.chunk ∈ w.files ∨ 0 < m.citations.count s.chunk) := by
  rw [h.records.names, mem_foldl_collect]
  simp only [List.not_mem_nil, false_or, List.mem_filterMap]
  constructor
  · rintro ⟨route, hr, hname⟩
    obtain ⟨s, hs, hname⟩ := Option.bind_eq_some_iff.1 hname
    obtain ⟨full, hroute⟩ := (h.lists.mem_iff route).1 hr
    have hfull := hroute.full?_last hs
    exact ⟨s, hname, by simp [hfull], (h.exists_route_iff hfull).1 ⟨route, hroute, hs⟩⟩
  · rintro ⟨s, hname, hfull, hu⟩
    obtain ⟨full, hfull⟩ := Option.ne_none_iff_exists'.1 hfull
    obtain ⟨route, hroute, hs⟩ := (h.exists_route_iff hfull).2 hu
    refine ⟨route, (h.lists.mem_iff route).2 ⟨full, hroute⟩, ?_⟩
    rw [writtenName, Option.mem_def.1 hs]
    exact hname

/-- A chunk is counted once for each route that leads to its full name. -/
theorem count_eq (h : Recorded w routes m) (hnodup : ∀ full, (w.definitions.get full).Nodup)
    (hd : ∀ n, d ∈ w.definitions.get n ↔ n = full) :
    (m.citations.count d : ℕ∞) = {route | FileRoute w full route}.encard := by
  have hone : ∀ route,
      (citationsOf w route).count d = if ending w route = some full then 1 else 0 := by
    intro route
    unfold citationsOf Citations.count
    cases ending w route with
    | none => rfl
    | some n =>
      have hcount : ((w.definitions.get n).map fun e =>
          (⟨e, route.getLast?.map Site.chunk⟩ : Citation)).countP (fun c => c.cited == d) =
            (w.definitions.get n).count d := by
        rw [List.countP_map]
        rfl
      rw [hcount]
      by_cases hn : n = full
      · rw [if_pos (by rw [hn]), List.count_eq_one_of_mem (hnodup n) ((hd n).2 hn)]
      · rw [if_neg (by simpa using hn), List.count_eq_zero.2 (mt (hd n).1 hn)]
  have hcount : ∀ routes : List (List Site), Citations.count (routes.flatMap (citationsOf w)) d =
      (routes.filter fun r => ending w r = some full).length := by
    intro routes
    induction routes with
    | nil => rfl
    | cons route routes ih =>
      rw [List.flatMap_cons, Citations.count_append, hone, ih]
      by_cases hend : ending w route = some full
      · rw [if_pos hend, List.filter_cons_of_pos (by simpa using hend), List.length_cons]
        omega
      · rw [if_neg hend, List.filter_cons_of_neg (by simpa using hend)]
        omega
  have hset : {route | FileRoute w full route} =
      ((routes.filter fun r => ending w r = some full).toFinset : Set (List Site)) := by
    ext route
    simp [h.route_iff]
  rw [hset, Set.encard_coe_eq_coe_finsetCard, List.toFinset_card_of_nodup (h.lists.nodup.filter _),
    h.records.citations, List.nil_append, hcount]

theorem rooted_iff_reaches (h : Recorded w routes m) :
    u ∈ w.files ∨ 0 < m.citations.count u ↔ ∃ i ∈ w.files, Reaches w i u := by
  constructor
  · rintro (hfile | hcited)
    · exact ⟨u, hfile, .start⟩
    · obtain ⟨full, hd, route, hroute⟩ := h.count_pos_iff.1 hcited
      obtain ⟨i, hi, hreach⟩ := hroute.reaches
      obtain ⟨s, hs, hfull⟩ := Option.bind_eq_some_iff.1 hroute.last
      exact ⟨i, hi, (hreach s hs).definition (refers_iff_site.2 ⟨s, rfl, hfull⟩) hd⟩
  · rintro ⟨i, hi, hreach⟩
    induction hreach with
    | start => exact .inl hi
    | definition _ hrefers he ih =>
      obtain ⟨s, rfl, hfull⟩ := refers_iff_site.1 hrefers
      obtain ⟨route, hroute, -⟩ := (h.exists_route_iff hfull).2 ih
      exact .inr (h.count_pos_iff.2 ⟨_, he, route, hroute⟩)

end Recorded

section Emission

variable {w : Web} {o : EmitOptions}

theorem Emission.memory_put (name path code : Text) (e : Emission) :
    (e.put name path code).memory = e.memory := by
  unfold Emission.put
  split <;> rfl

theorem Emission.memory_file {i : Nat}
    (hlocal : o.confined = true → Path.isLocal (w.chunk i).path = true) (e : Emission) :
    (e.file w o i).memory = (render w o.marked i e.memory).2 := by
  have haccepted : (o.confined && !Path.isLocal (w.chunk i).path) = false := by
    cases hc : o.confined <;> simp_all
  unfold Emission.file
  simp only [haccepted, Bool.false_eq_true, if_false]
  split <;> next hr => simp [hr, Emission.fail, Emission.say, Emission.memory_put]

theorem memory_emit (hlocal : o.confined = true → ∀ i ∈ w.files, Path.isLocal (w.chunk i).path = true)
    (tree : FileTree) :
    (emit w o tree).memory = renderAll w (w.files.map fun i => (o.marked, i)) {} := by
  have hfold : ∀ (is : List Nat) (e : Emission), (∀ i ∈ is, i ∈ w.files) →
      (is.foldl (Emission.file w o) e).memory =
        renderAll w (is.map fun i => (o.marked, i)) e.memory := by
    intro is
    induction is with
    | nil => exact fun e _ => rfl
    | cons i is ih =>
      intro e his
      have hi := his i (by simp)
      rw [List.foldl_cons, ih _ fun j hj => his j (by simp [hj]),
        Emission.memory_file fun hc => hlocal hc i hi]
      rfl
  exact hfold w.files { tree, memory := {} } fun i hi => hi

/-- Whether a chunk can be rendered does not depend on what was rendered before. -/
theorem render_ok_of_ok {marked : Bool} {i : Nat} {m : Memory} {code : Text}
    (h : (render w marked i m).1 = .ok code) (n : Memory) :
    ∃ code, (render w marked i n).1 = .ok code := by
  have hm := render_visits w marked i m
  rw [h] at hm
  have hn := hm.unique (render_visits w marked i n)
  cases hr : (render w marked i n).1 with
  | ok code => exact ⟨code, rfl⟩
  | error f => simp [hr, Except.map] at hn

theorem render_records (hw : ∀ full, (w.definitions.get full).Nodup) {marked : Bool} {i : Nat}
    {m : Memory} {code : Text} (h : (render w marked i m).1 = .ok code) :
    ∃ routes, Lists w (fun s => s.chunk = i) routes ∧ Records w routes m (render w marked i m).2 := by
  have hexpands := expands_chunk w marked i m
  rw [memory_render]
  rcases hr : expandChunk w marked i { citations := m.citations, names := m.names } with
    ⟨⟨f⟩ | ⟨u⟩, p⟩
  · simp [render, hr] at h
  · rw [hr] at hexpands
    exact (hexpands.covers hw rfl (fun _ ha => placed_of_mem_stepsOf ha)
      (pairwise_stepsOf i _)).congr fun _ => starts_stepsOf

theorem renderAll_records (hw : ∀ full, (w.definitions.get full).Nodup) {marked : Bool}
    {is : List Nat} (his : is.Nodup) {m : Memory}
    (h : ∀ i ∈ is, ∃ code, (render w marked i m).1 = .ok code) :
    ∃ routes, Lists w (fun s => s.chunk ∈ is) routes ∧
      Records w routes m (renderAll w (is.map fun i => (marked, i)) m) := by
  induction is generalizing m with
  | nil => exact ⟨[], .empty (by simp), .refl w m⟩
  | cons i is ih =>
    obtain ⟨hi, his⟩ := List.nodup_cons.1 his
    obtain ⟨code, hcode⟩ := h i (by simp)
    obtain ⟨routes, hlists, hrecords⟩ := render_records hw hcode
    obtain ⟨routes', hlists', hrecords'⟩ := ih his fun j hj => by
      obtain ⟨code, hcode⟩ := h j (by simp [hj])
      exact render_ok_of_ok hcode (render w marked i m).2
    refine ⟨routes ++ routes', ?_, hrecords.trans hrecords'⟩
    have hboth := hlists.append hlists' fun s hs hs' => hi (hs ▸ hs')
    exact hboth.congr fun s _ => by simp

end Emission

/-- What can be done to the record of a web. -/
inductive Act where
  | render (marked : Bool) (i : Nat)
  | emit (o : EmitOptions)
  | cite (c : Citation)
  /-- Forgets all citations. -/
  | reset

/-- The record of a web and the files around it. -/
structure Workspace where
  memory : Memory := {}
  tree : FileTree

def Workspace.act (w : Web) (s : Workspace) : Act → Workspace
  | .render marked i => { s with memory := (render w marked i s.memory).2 }
  | .emit o => ⟨(emit w o s.tree).memory, (emit w o s.tree).tree⟩
  | .cite c => { s with memory := ⟨s.memory.citations ++ [c], s.memory.names⟩ }
  | .reset => { s with memory := ⟨[], s.memory.names⟩ }

theorem Workspace.memory_act_emit {w : Web} {o : EmitOptions}
    (hlocal : o.confined = true → ∀ i ∈ w.files, Path.isLocal (w.chunk i).path = true)
    (s : Workspace) :
    (s.act w (.emit o)).memory = renderAll w (w.files.map fun i => (o.marked, i)) {} :=
  memory_emit hlocal s.tree

/-- The record of a web agrees with its reference graph. -/
structure Agrees (w : Web) (m : Memory) : Prop where
  count : ∀ d, (w.chunk d).kind = .named →
    (m.citations.count d : ℕ∞) = {route | FileRoute w (w.fullName d) route}.encard
  uncited : ∀ d, d ∈ w.uncited m.citations ↔
    (w.chunk d).kind = .named ∧ ∀ i ∈ w.files, ¬Reaches w i d
  citedOften : ∀ d, d ∈ w.citedOften m.citations ↔
    (w.chunk d).kind = .named ∧ 1 < {route | FileRoute w (w.fullName d) route}.encard
  ordered : (w.uncited m.citations).Pairwise (· < ·) ∧ (w.citedOften m.citations).Pairwise (· < ·)
  distinct : ∀ d, (m.citations.referrers d).Nodup
  referrers : ∀ d, (w.chunk d).kind = .named → ∀ u, u ∈ m.citations.referrers d ↔
    u ∈ w.usedBy d ∧ ((w.chunk u).kind = .output ∨ 0 < m.citations.count u)
  names : ∀ name, name ∈ m.sortedNames ↔
    ∃ u, ((w.chunk u).kind = .output ∨ (w.chunk u).kind = .named ∧ 0 < m.citations.count u) ∧
      name ∈ (w.chunk u).referenceNames
  sorted : m.sortedNames.Pairwise fun a b => Text.lt a b = true

namespace Recorded

variable {path : Text} {chunks : List Chunk} {routes : List (List Site)} {m : Memory} {u : Nat}

theorem kind_of_cited {w : Web} (h : Recorded w routes m)
    (htangleable : ∀ i ∈ w.files, Tangleable w i) (hu : 0 < m.citations.count u) :
    (w.chunk u).kind = .named := by
  obtain ⟨full, hd, route, hroute⟩ := h.count_pos_iff.1 hu
  obtain ⟨i, hi, hreach⟩ := hroute.reaches
  obtain ⟨s, hs, hfull⟩ := Option.bind_eq_some_iff.1 hroute.last
  obtain ⟨name, hname, hresolve⟩ := refers_iff_site.2 ⟨s, rfl, hfull⟩
  obtain ⟨full', hresolve', -, -, hkind⟩ := (htangleable i hi).resolved _ (hreach s hs) name hname
  obtain rfl : full = full' := Except.ok.inj (hresolve.symm.trans hresolve')
  exact hkind u hd

theorem agrees (h : Recorded (Web.ofChunks path chunks) routes m)
    (htangleable : ∀ i ∈ (Web.ofChunks path chunks).files, Tangleable (Web.ofChunks path chunks) i) :
    Agrees (Web.ofChunks path chunks) m := by
  generalize hw : Web.ofChunks path chunks = w at h htangleable
  have hnodup : ∀ full, (w.definitions.get full).Nodup := fun full =>
    (hw ▸ Web.pairwise_definitions path chunks full).imp Nat.ne_of_lt
  have hfiles : ∀ i, i ∈ w.files ↔ (w.chunk i).kind = .output := fun i =>
    hw ▸ Web.mem_files path chunks
  have hnamed : ∀ d, d ∈ w.positions (fun c => c.kind == .named) ↔ (w.chunk d).kind = .named := by
    intro d
    rw [← hw, Web.mem_positions path chunks rfl, beq_iff_eq]
  have hcount : ∀ d, (w.chunk d).kind = .named →
      (m.citations.count d : ℕ∞) = {route | FileRoute w (w.fullName d) route}.encard := by
    intro d hd
    refine h.count_eq hnodup fun n => ?_
    subst hw
    rw [Web.mem_definitions_iff path chunks (by simp [Chunk.isDefinition, Chunk.Kind.isDefinition, hd]),
      eq_comm]
  have hrooted : ∀ d, (w.chunk d).kind = .named →
      (0 < m.citations.count d ↔ ∃ i ∈ w.files, Reaches w i d) := by
    intro d hd
    rw [← h.rooted_iff_reaches, hfiles, hd]
    simp
  refine ⟨hcount, ?_, ?_, ⟨?_, ?_⟩, fun d => Citations.nodup_referrers _ d, ?_, ?_, ?_⟩
  · intro d
    simp only [Web.uncited, List.mem_filter, hnamed, beq_iff_eq]
    refine and_congr_right fun hd => ?_
    rw [← not_iff_not]
    simp only [← Nat.pos_iff_ne_zero, hrooted d hd, not_forall, not_not, exists_prop]
  · intro d
    simp only [Web.citedOften, List.mem_filter, hnamed, decide_eq_true_eq, gt_iff_lt]
    refine and_congr_right fun hd => ?_
    rw [← hcount d hd, Nat.one_lt_cast]
  · exact (Web.pairwise_positions w _).sublist List.filter_sublist
  · exact (Web.pairwise_positions w _).sublist List.filter_sublist
  · intro d hd u
    rw [h.mem_referrers, hfiles]
    subst hw
    rw [Web.mem_usedBy]
    refine and_congr_left fun hu => exists_congr fun full => and_congr_right fun _ => ?_
    have hcode : ((Web.ofChunks path chunks).chunk u).isCode = true := by
      rcases hu with hu | hu
      · simp [Chunk.isCode, Chunk.Kind.isCode, hu]
      · simp [Chunk.isCode, Chunk.Kind.isCode, h.kind_of_cited htangleable hu]
    simp [Refers, hcode]
  · intro name
    rw [Memory.sortedNames, Text.mem_sort, h.mem_names]
    constructor
    · rintro ⟨s, hname, -, hs⟩
      refine ⟨s.chunk, ?_, mem_referenceNames_iff_site.2 ⟨s, rfl, hname⟩⟩
      rcases hs with hs | hs
      · exact .inl ((hfiles s.chunk).1 hs)
      · exact .inr ⟨h.kind_of_cited htangleable hs, hs⟩
    · rintro ⟨u, hu, hname⟩
      obtain ⟨s, rfl, hs⟩ := mem_referenceNames_iff_site.1 hname
      have hroot : s.chunk ∈ w.files ∨ 0 < m.citations.count s.chunk :=
        hu.imp (hfiles s.chunk).2 And.right
      obtain ⟨i, hi, hreach⟩ := h.rooted_iff_reaches.1 hroot
      obtain ⟨full, hfull, -⟩ := (htangleable i hi).resolved _ hreach name hname
      exact ⟨s, hs, by simp [Site.full?_of_name hs hfull], hroot⟩
  · refine Text.pairwise_sort ?_
    rw [h.records.names]
    exact nodup_foldl_collect List.nodup_nil

end Recorded

/-- When all output chunks of a web can be rendered, and none is refused, writing them leaves a
record that agrees with the reference graph. It is the same whatever was done before. -/
theorem emit_agrees {path : Text} {chunks : List Chunk} {o : EmitOptions}
    (hrender : ∀ i ∈ (Web.ofChunks path chunks).files,
      ∃ code, (render (Web.ofChunks path chunks) o.marked i {}).1 = .ok code)
    (hlocal : o.confined = true → ∀ i ∈ (Web.ofChunks path chunks).files,
      Path.isLocal ((Web.ofChunks path chunks).chunk i).path = true)
    (acts : List Act) (s : Workspace) :
    let w := Web.ofChunks path chunks
    let m := ((acts ++ [Act.emit o]).foldl (Workspace.act w) s).memory
    Agrees w m ∧ ∀ t : Workspace, (t.act w (.emit o)).memory = m := by
  intro w m
  have hm : m = ((acts.foldl (Workspace.act w) s).act w (.emit o)).memory := by
    simp only [m, List.foldl_append, List.foldl_cons, List.foldl_nil]
  rw [Workspace.memory_act_emit hlocal] at hm
  refine ⟨?_, fun t => (Workspace.memory_act_emit hlocal t).trans hm.symm⟩
  have hnodup : ∀ full, (w.definitions.get full).Nodup := fun full =>
    (Web.pairwise_definitions path chunks full).imp Nat.ne_of_lt
  have hfiles : w.files.Nodup := (Web.pairwise_positions w _).imp Nat.ne_of_lt
  have htangleable : ∀ i ∈ w.files, Tangleable w i := by
    intro i hi
    obtain ⟨code, hcode⟩ := hrender i hi
    have hvisits := render_visits w o.marked i {}
    rw [hcode] at hvisits
    exact tangleable_of_visits hvisits
  obtain ⟨routes, hlists, hrecords⟩ := renderAll_records hnodup hfiles hrender
  rw [hm]
  exact Recorded.agrees ⟨hlists, hrecords⟩ htangleable

/-- A name with two definitions that a file refers to twice, and a chunk that no file reaches. -/
def shared : List Chunk :=
  [{ Chunk.ofKind .output "a" with
      commands := [⟨.reference "body", .none⟩, ⟨.code "\n", .none⟩, ⟨.reference "bo...", .none⟩] },
    { Chunk.ofKind .named "body" with commands := [⟨.reference "leaf", .none⟩] },
    { Chunk.ofKind .named "leaf" with commands := [⟨.code "l", .none⟩] },
    { Chunk.ofKind .named "body" with
      commands := [⟨.code "b", .none⟩, ⟨.reference "leaf", .none⟩] },
    { Chunk.ofKind .named "spare" with commands := [⟨.reference "leaf", .none⟩] },
    { Chunk.ofKind .output "b" with commands := [⟨.reference "leaf", .none⟩] }]

theorem definedNames_shared : Web.definedNames shared = ["body", "leaf", "spare"] :=
  List.mergeSort_of_pairwise (by decide)

theorem emit_agrees_shared :
    let w := Web.ofChunks "m.w" shared
    let o : EmitOptions := { dir := "out", confined := true }
    let s : Workspace := { tree := ⟨[], []⟩ }
    let m := (([Act.render true 4, .cite ⟨2, none⟩] ++ [Act.emit o]).foldl (Workspace.act w) s).memory
    (∀ i ∈ w.files, ∃ code, (render w o.marked i {}).1 = .ok code) ∧
      (∀ i ∈ w.files, Path.isLocal (w.chunk i).path = true) ∧ Agrees w m ∧
      {route | FileRoute w (w.fullName 2) route}.encard = 5 ∧
      m.citations.referrers 2 = [1, 3, 5] ∧ w.usedBy 2 = [1, 3, 4, 5] := by
  intro w o s m
  have hw : w = _ := Web.ofChunks_of_names "m.w" shared definedNames_shared
  have hfiles : w.files = [0, 5] := by
    rw [hw]
    decide
  have hrender : ∀ i ∈ w.files, ∃ code, (render w o.marked i {}).1 = .ok code := by
    rw [hfiles, hw]
    simp only [List.forall_mem_cons, List.not_mem_nil, false_implies, implies_true, and_true]
    exact ⟨⟨_, rfl⟩, ⟨_, rfl⟩⟩
  have hlocal : ∀ i ∈ w.files, Path.isLocal (w.chunk i).path = true := by
    rw [hfiles, hw]
    decide
  obtain ⟨hagrees, hsame⟩ := emit_agrees hrender (fun _ => hlocal)
    [Act.render true 4, .cite ⟨2, none⟩] s
  have hm : m = renderAll w [(false, 0), (false, 5)] {} := by
    have hsame' : (s.act w (.emit o)).memory = m := hsame s
    rw [← hsame', Workspace.memory_act_emit fun _ => hlocal, hfiles]
    rfl
  have hcitations : m.citations = [⟨1, some 0⟩, ⟨3, some 0⟩, ⟨2, some 1⟩, ⟨2, some 3⟩, ⟨1, some 0⟩,
      ⟨3, some 0⟩, ⟨2, some 1⟩, ⟨2, some 3⟩, ⟨2, some 5⟩] := by
    rw [hm, hw]
    rfl
  have hcount : m.citations.count 2 = 5 := by
    rw [hcitations]
    rfl
  have hkind : (w.chunk 2).kind = .named := by
    rw [hw]
    rfl
  refine ⟨hrender, hlocal, hagrees, ?_, ?_, ?_⟩
  · rw [← hagrees.count 2 hkind, hcount]
    rfl
  · rw [hcitations]
    rfl
  · rw [hw]
    rfl

end Literate.Tangle
