import Mathlib.Logic.Relation
import Literate.Proofs.Tangle.Traversal

/-! When a chunk can be tangled: all that it reaches is code, its references stand for definitions
of code, and no name comes to itself through them. -/

namespace Literate.Tangle

variable {w : Web} {file : Text} {i d e : Nat} {full : Text} {ts : List Task} {a b : Task}

/-- A chunk refers to a full name. -/
def Refers (w : Web) (d : Nat) (full : Text) : Prop :=
  ∃ name ∈ (w.chunk d).referenceNames, w.resolve name = .ok full

/-- The chunks that go into the code of a chunk. -/
inductive Reaches (w : Web) (i : Nat) : Nat → Prop
  | start : Reaches w i i
  | definition {d e : Nat} {full : Text} (hd : Reaches w i d) (hr : Refers w d full)
    (he : e ∈ w.definitions.get full) : Reaches w i e

/-- Some definition of a full name refers to another. -/
def Calls (w : Web) (m n : Text) : Prop := ∃ d ∈ w.definitions.get m, Refers w d n

structure Tangleable (w : Web) (i : Nat) : Prop where
  code : ∀ d, Reaches w i d → ∀ c ∈ (w.chunk d).commands,
    (∀ t, c.body ≠ .text t) ∧ ∀ k, c.body ≠ .crossReference k
  resolved : ∀ d, Reaches w i d → ∀ name ∈ (w.chunk d).referenceNames,
    ∃ full, w.resolve name = .ok full ∧ isAbbreviation full = false ∧
      w.definitions.get full ≠ [] ∧ ∀ e ∈ w.definitions.get full, (w.chunk e).kind = .named
  acyclic : ∀ d n, Reaches w i d → Refers w d n → ¬Relation.TransGen (Calls w) n n

theorem mem_referenceNames {c : Chunk} {name : Text} :
    name ∈ c.referenceNames ↔ ∃ k ∈ c.commands, k.body = .reference name := by
  have hk : ∀ k : Command, k.reference? = some name ↔ k.body = .reference name := by
    intro k
    cases hb : k.body <;> simp [Command.reference?, hb]
  simp [Chunk.referenceNames, hk]

/-- A task is among others or part of one of them. -/
def Met (w : Web) (ts : List Task) (b : Task) : Prop :=
  ∃ a ∈ ts, Relation.ReflTransGen (fun a b => b ∈ Task.below w a) a b

theorem met_of_mem (h : a ∈ ts) : Met w ts a := ⟨a, h, .refl⟩

theorem Met.below (h : Met w ts a) (hb : b ∈ a.below w) : Met w ts b := by
  obtain ⟨c, hc, hca⟩ := h
  exact ⟨c, hc, hca.tail hb⟩

theorem Met.cons (h : Met w (a :: ts) b) : a = b ∨ Met w (a.below w ++ ts) b := by
  obtain ⟨c, hc, hcb⟩ := h
  rcases List.mem_cons.mp hc with rfl | hc
  · rcases Relation.ReflTransGen.cases_head hcb with rfl | ⟨c', hc', hcb'⟩
    · exact .inl rfl
    · exact .inr ⟨c', by simp [hc'], hcb'⟩
  · exact .inr ⟨c, by simp [hc], hcb⟩

theorem Visits.faultless (h : Visits w file ts (.ok ())) (hb : Met w ts b) :
    b.fault? w file = none := by
  generalize hr : Except.ok () = r at h
  induction h with
  | done =>
    obtain ⟨a, ha, -⟩ := hb
    simp at ha
  | stop rest hf => cases hr
  | next hf _ ih =>
    rcases hb.cons with rfl | hb
    · exact hf
    · exact ih hb hr

theorem Visits.faulty {f : Fault} (h : Visits w file ts (.error f)) :
    ∃ b, Met w ts b ∧ b.fault? w file = some f := by
  generalize hr : Except.error f = r at h
  induction h with
  | done => cases hr
  | stop rest hf =>
    cases hr
    exact ⟨_, met_of_mem (by simp), hf⟩
  | @next a rest r hf _ ih =>
    obtain ⟨b, ⟨c, hc, hcb⟩, hb⟩ := ih hr
    rcases List.mem_append.mp hc with hc | hc
    · exact ⟨b, ⟨a, by simp, hcb.head hc⟩, hb⟩
    · exact ⟨b, ⟨c, by simp [hc], hcb⟩, hb⟩

/-- The commands of a chunk are met while certain names are being expanded. -/
def MetCommands (w : Web) (ts : List Task) (stack : List Text) (d : Nat) : Prop :=
  ∀ c ∈ (w.chunk d).commands, Met w ts (.command stack c)

theorem MetCommands.definition {stack : List Text} (h : MetCommands w ts stack d)
    (hr : Refers w d full) (he : e ∈ w.definitions.get full) :
    MetCommands w ts (stack ++ [full]) e := by
  obtain ⟨name, hn, hfull⟩ := hr
  obtain ⟨k, hk, hkb⟩ := mem_referenceNames.mp hn
  have hdef : Met w ts (.definition (stack ++ [full]) e) := by
    apply (h k hk).below
    simpa [Task.below, Command.reference?, hkb, hfull] using he
  intro c hc
  apply hdef.below
  simpa [Task.below] using hc

/-- The tasks of a chunk that is to be tangled. -/
def tasksOf (w : Web) (i : Nat) : List Task := (w.chunk i).commands.map (.command [])

theorem Reaches.met (h : Reaches w i d) : ∃ stack, MetCommands w (tasksOf w i) stack d := by
  induction h with
  | start => exact ⟨[], fun c hc => met_of_mem (by simp [tasksOf, hc])⟩
  | definition _ hr he ih =>
    obtain ⟨stack, hs⟩ := ih
    exact ⟨_, hs.definition hr he⟩

/-- A name that is called from the expansion of another is met while that one is expanded. -/
theorem met_of_calls {stack : List Text} {m n : Text} (hd : MetCommands w ts stack d)
    (hr : Refers w d n) (hc : Relation.ReflTransGen (Calls w) n m) :
    ∀ e ∈ w.definitions.get m, ∃ stack, n ∈ stack ∧ MetCommands w ts stack e := by
  induction hc with
  | refl => exact fun e he => ⟨stack ++ [n], by simp, hd.definition hr he⟩
  | tail _ hcall ih =>
    intro e he
    obtain ⟨e', he', hr'⟩ := hcall
    obtain ⟨stack', hn, hmet⟩ := ih e' he'
    exact ⟨_, List.mem_append_left _ hn, hmet.definition hr' he⟩

theorem fault?_reference_eq_none {stack : List Text} {k : Command} {name : Text}
    (hk : k.body = .reference name) :
    Task.fault? w file (.command stack k) = none ↔
      ∃ full, w.resolve name = .ok full ∧ isAbbreviation full = false ∧
        w.definitions.get full ≠ [] ∧ full ∉ stack := by
  simp [Task.fault?, hk, ← referenceCause?_eq_none file]

theorem tangleable_of_visits (h : Visits w file (tasksOf w i) (.ok ())) : Tangleable w i := by
  refine ⟨?_, ?_, ?_⟩
  · intro d hd c hc
    obtain ⟨stack, hmet⟩ := hd.met
    have hnone := h.faultless (hmet c hc)
    constructor
    · intro t ht
      simp [Task.fault?, ht] at hnone
    · intro k hk
      simp [Task.fault?, hk] at hnone
  · intro d hd name hname
    obtain ⟨stack, hmet⟩ := hd.met
    obtain ⟨k, hk, hkb⟩ := mem_referenceNames.mp hname
    obtain ⟨full, hfull, ha, hg, -⟩ := (fault?_reference_eq_none hkb).mp (h.faultless (hmet k hk))
    refine ⟨full, hfull, ha, hg, ?_⟩
    intro e he
    have hdef : Met w (tasksOf w i) (.definition (stack ++ [full]) e) := by
      apply (hmet k hk).below
      simpa [Task.below, Command.reference?, hkb, hfull] using he
    by_contra hkind
    simpa [Task.fault?, hkind] using h.faultless hdef
  · intro d n hd hn hcycle
    obtain ⟨stack, hmet⟩ := hd.met
    obtain ⟨m, hm, e, he, name, hname, hfull⟩ := Relation.TransGen.tail'_iff.mp hcycle
    obtain ⟨k, hk, hkb⟩ := mem_referenceNames.mp hname
    -- the reference that closes the cycle is met while its name is being expanded
    obtain ⟨stack', hs, hmet'⟩ := met_of_calls hmet hn hm e he
    obtain ⟨full, hfull', -, -, hout⟩ :=
      (fault?_reference_eq_none hkb).mp (h.faultless (hmet' k hk))
    rw [hfull] at hfull'
    cases hfull'
    exact hout hs

/-- A definition is found at the end of calls from each name that is being expanded. -/
def Under (w : Web) (stack : List Text) (d : Nat) : Prop :=
  ∀ m ∈ stack, ∃ n, Relation.ReflTransGen (Calls w) m n ∧ d ∈ w.definitions.get n

/-- Where a task belongs that is met on the way through a chunk. -/
def Task.Placed (w : Web) (i : Nat) : Task → Prop
  | .command stack c => ∃ d, Reaches w i d ∧ c ∈ (w.chunk d).commands ∧ Under w stack d
  | .definition stack e => Under w stack e ∧
    ∃ d full, Reaches w i d ∧ Refers w d full ∧ e ∈ w.definitions.get full

theorem Under.push {stack : List Text} (h : Under w stack d) (hr : Refers w d full)
    (he : e ∈ w.definitions.get full) : Under w (stack ++ [full]) e := by
  intro m hm
  rcases List.mem_append.mp hm with hm | hm
  · obtain ⟨n, hmn, hd⟩ := h m hm
    exact ⟨full, hmn.tail ⟨d, hd, hr⟩, he⟩
  · rw [List.mem_singleton.mp hm]
    exact ⟨full, .refl, he⟩

theorem Task.Placed.below (h : a.Placed w i) (hb : b ∈ a.below w) : b.Placed w i := by
  cases a with
  | command stack c =>
    obtain ⟨d, hd, hc, hu⟩ := h
    cases hbody : c.body with
    | reference name =>
      cases hr : w.resolve name with
      | error f => simp [Task.below, Command.reference?, hbody, hr] at hb
      | ok full =>
        simp only [Task.below, Command.reference?, hbody, Option.map_some, hr,
          List.mem_map] at hb
        obtain ⟨e, he, rfl⟩ := hb
        have hrefers : Refers w d full := ⟨name, mem_referenceNames.mpr ⟨c, hc, hbody⟩, hr⟩
        exact ⟨hu.push hrefers he, d, full, hd, hrefers, he⟩
    | _ => simp [Task.below, Command.reference?, hbody] at hb
  | definition stack e =>
    obtain ⟨hu, d, full, hd, hr, he⟩ := h
    simp only [Task.below, List.mem_map] at hb
    obtain ⟨c, hc, rfl⟩ := hb
    exact ⟨e, hd.definition hr he, hc, hu⟩

theorem Met.placed (h : Met w (tasksOf w i) b) : b.Placed w i := by
  obtain ⟨a, ha, hab⟩ := h
  induction hab with
  | refl =>
    simp only [tasksOf, List.mem_map] at ha
    obtain ⟨c, hc, rfl⟩ := ha
    exact ⟨i, .start, hc, by simp [Under]⟩
  | tail _ hb ih => exact ih.below hb

theorem Tangleable.faultless (h : Tangleable w i) (hb : b.Placed w i) : b.fault? w file = none := by
  cases b with
  | command stack c =>
    obtain ⟨d, hd, hc, hu⟩ := hb
    cases hbody : c.body with
    | text t => exact absurd hbody ((h.code d hd c hc).1 t)
    | code t => simp [Task.fault?, hbody]
    | crossReference k => exact absurd hbody ((h.code d hd c hc).2 k)
    | reference name =>
      have hname : name ∈ (w.chunk d).referenceNames := mem_referenceNames.mpr ⟨c, hc, hbody⟩
      obtain ⟨full, hfull, ha, hg, -⟩ := h.resolved d hd name hname
      refine (fault?_reference_eq_none hbody).mpr ⟨full, hfull, ha, hg, ?_⟩
      intro hs
      obtain ⟨n, hn, hdn⟩ := hu full hs
      have hrefers : Refers w d full := ⟨name, hname, hfull⟩
      exact h.acyclic d full hd hrefers (Relation.TransGen.tail' hn ⟨d, hdn, hrefers⟩)
  | definition stack e =>
    obtain ⟨-, d, full, hd, ⟨name, hname, hfull⟩, he⟩ := hb
    obtain ⟨full', hfull', -, -, hkind⟩ := h.resolved d hd name hname
    rw [hfull] at hfull'
    cases hfull'
    simp [Task.fault?, hkind e he]

/-- Rendering comes to an end, with the outcome of the depth-first visit of the commands of the
chunk; it yields code exactly if the chunk can be tangled. -/
theorem render_outcome (w : Web) (marked : Bool) (i : Nat) (m : Memory) :
    (∀ r, Visits w (w.chunk i).name (tasksOf w i) r ↔
      (render w marked i m).1.map (fun _ => ()) = r) ∧
    ((∃ code, (render w marked i m).1 = .ok code) ↔ Tangleable w i) := by
  have hvisits := render_visits w marked i m
  refine ⟨fun r => ⟨hvisits.unique, fun hr => hr ▸ hvisits⟩, ?_, ?_⟩
  · rintro ⟨code, hcode⟩
    rw [hcode] at hvisits
    exact tangleable_of_visits hvisits
  · intro h
    cases hr : (render w marked i m).1 with
    | ok code => exact ⟨code, rfl⟩
    | error f =>
      rw [hr] at hvisits
      obtain ⟨b, hmet, hb⟩ := hvisits.faulty
      simp [h.faultless hmet.placed] at hb

end Literate.Tangle
