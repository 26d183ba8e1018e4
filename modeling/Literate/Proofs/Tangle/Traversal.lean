import Mathlib.Data.List.Perm.Subperm
import Literate.Proofs.Tangle.Expansion

/-! The order in which an expansion comes to commands and definitions, and where it stops. The
names that are being expanded are distinct names of definitions, so their number is bounded and
every expansion comes to its end. -/

namespace Literate

theorem Index.mem_keys {ix : Index} {name : Text} (h : ix.get name ≠ []) :
    name ∈ ix.map Prod.fst := by
  cases hl : ix.lookup name with
  | none => simp [Index.get, hl] at h
  | some places =>
    obtain ⟨before, after, he, -⟩ := List.lookup_eq_some_iff.mp hl
    simp [he]

namespace Tangle

/-- Work that an expansion has before it, within the names that are being expanded. -/
inductive Task where
  | command (stack : List Text) (c : Command)
  | definition (stack : List Text) (d : Nat)

/-- Why a reference cannot be expanded. -/
def referenceCause? (w : Web) (file : Text) (stack : List Text) (name : Text) :
    Option Fault.Cause :=
  match w.resolve name with
  | .error f => some f.cause
  | .ok full =>
    if isAbbreviation full then some (.noFullName name)
    else if w.definitions.get full = [] then some (.undefined name)
    else if full ∈ stack then some (.cycle (file :: stack ++ [full]))
    else none

theorem referenceCause?_eq_none {w : Web} (file : Text) {stack : List Text} {name : Text} :
    referenceCause? w file stack name = none ↔
      ∃ full, w.resolve name = .ok full ∧ isAbbreviation full = false ∧
        w.definitions.get full ≠ [] ∧ full ∉ stack := by
  unfold referenceCause?
  cases hr : w.resolve name with
  | error f => simp
  | ok full =>
    by_cases ha : isAbbreviation full = true
    · simp [ha]
    · by_cases hg : w.definitions.get full = []
      · simp [ha, hg]
      · by_cases hs : full ∈ stack
        · simp [ha, hg, hs]
        · simp [ha, hg, hs]

namespace Task

/-- The fault of a task by itself: a command has it at its own position, and a definition that is
not code at the position of the definition. -/
def fault? (w : Web) (file : Text) : Task → Option Fault
  | .command stack c =>
    match c.body with
    | .code _ => none
    | .text t => some ⟨.textBlock t, c.location⟩
    | .crossReference _ => some ⟨.crossReference, c.location⟩
    | .reference name => (referenceCause? w file stack name).map fun cause => ⟨cause, c.location⟩
  | .definition _ d =>
    if (w.chunk d).kind = .named then none
    else some ⟨.textBlock (w.chunk d).text, (w.chunk d).location⟩

/-- The tasks that a task consists of: a reference of the definitions of its full name, and a
definition of its commands. -/
def below (w : Web) : Task → List Task
  | .command stack c =>
    match c.reference?.map w.resolve with
    | some (.ok full) => (w.definitions.get full).map (.definition (stack ++ [full]))
    | _ => []
  | .definition stack d => (w.chunk d).commands.map (.command stack)

end Task

/-- Tasks done from left to right, each before what comes after it, end well or with the first
fault. -/
inductive Visits (w : Web) (file : Text) : List Task → Except Fault Unit → Prop
  | done : Visits w file [] (.ok ())
  | stop {a : Task} {f : Fault} (rest : List Task) (h : a.fault? w file = some f) :
    Visits w file (a :: rest) (.error f)
  | next {a : Task} {rest : List Task} {r : Except Fault Unit} (h : a.fault? w file = none)
    (hr : Visits w file (a.below w ++ rest) r) : Visits w file (a :: rest) r

namespace Visits

variable {w : Web} {file : Text} {ts us : List Task} {r : Except Fault Unit}

theorem unique {r' : Except Fault Unit} (h : Visits w file ts r) (h' : Visits w file ts r') :
    r = r' := by
  induction h with
  | done =>
    cases h'
    rfl
  | stop rest hf =>
    cases h' with
    | stop _ hf' =>
      rw [hf] at hf'
      rw [Option.some.inj hf']
    | next hf' _ => simp [hf] at hf'
  | next hf _ ih =>
    cases h' with
    | stop _ hf' => simp [hf] at hf'
    | next _ hr' => exact ih hr'

theorem append (h : Visits w file ts (.ok ())) (h' : Visits w file us r) :
    Visits w file (ts ++ us) r := by
  generalize hr : Except.ok () = r' at h
  induction h with
  | done => exact h'
  | stop rest hf => cases hr
  | next hf _ ih =>
    refine .next hf ?_
    simpa using ih hr

theorem append_error {f : Fault} (us : List Task) (h : Visits w file ts (.error f)) :
    Visits w file (ts ++ us) (.error f) := by
  generalize hr : Except.error f = r' at h
  induction h with
  | done => cases hr
  | stop rest hf =>
    cases hr
    exact .stop _ hf
  | next hf _ ih =>
    refine .next hf ?_
    simpa using ih hr

end Visits

/-- A stack of names on which expansion can go `depth` levels deeper and no further. -/
structure Bounded (w : Web) (depth : Nat) (stack : List Text) : Prop where
  nodup : stack.Nodup
  defined : ∀ name ∈ stack, w.definitions.get name ≠ []
  room : w.definitions.length ≤ depth + stack.length

namespace Bounded

variable {w : Web} {depth : Nat} {stack : List Text} {full : Text}

theorem length_lt (h : Bounded w depth stack) (hd : w.definitions.get full ≠ [])
    (hn : full ∉ stack) : stack.length < w.definitions.length := by
  have hnodup : (full :: stack).Nodup := List.nodup_cons.mpr ⟨hn, h.nodup⟩
  have hsub : full :: stack ⊆ w.definitions.map Prod.fst := by
    intro name hm
    rcases List.mem_cons.mp hm with rfl | hm
    · exact Index.mem_keys hd
    · exact Index.mem_keys (h.defined name hm)
  have hle := (List.subperm_of_subset hnodup hsub).length_le
  simp only [List.length_cons, List.length_map] at hle
  omega

theorem push (h : Bounded w (depth + 1) stack) (hd : w.definitions.get full ≠ [])
    (hn : full ∉ stack) : Bounded w depth (stack ++ [full]) where
  nodup := by simpa [List.nodup_append] using ⟨h.nodup, fun a ha hf => hn (hf ▸ ha)⟩
  defined := by
    intro name hm
    rcases List.mem_append.mp hm with hm | hm
    · exact h.defined name hm
    · rwa [List.mem_singleton.mp hm]
  room := by
    have hroom := h.room
    simp only [List.length_append, List.length_singleton]
    omega

end Bounded

variable {w : Web} {file : Text} {mark : Option Mark} {depth : Nat} {stack : List Text}

theorem resolve_error_location {w : Web} {name : Text} {f : Fault} (h : w.resolve name = .error f) :
    f.location = .none := by
  unfold Web.resolve Web.resolveIn at h
  split at h
  · cases h
  · split at h <;> cases h
    rfl

theorem target_error {name : Text} {l : Location} {f : Fault}
    (h : target w file stack name l = .error f) :
    (referenceCause? w file stack name).map (fun cause => ⟨cause, l⟩) = some f := by
  unfold target at h
  cases hr : w.resolve name with
  | error g =>
    simp only [hr, Except.error.injEq] at h
    rw [← h]
    simp [referenceCause?, hr, Fault.locate, resolve_error_location hr, Location.none]
  | ok full =>
    by_cases ha : isAbbreviation full = true
    · simp [hr, ha] at h
      simp [referenceCause?, hr, ha, h]
    · cases hg : w.definitions.get full with
      | nil =>
        simp [hr, ha, hg] at h
        simp [referenceCause?, hr, ha, hg, h]
      | cons d ds =>
        by_cases hs : full ∈ stack
        · simp [hr, ha, hg, hs] at h
          simp [referenceCause?, hr, ha, hg, hs, h]
        · simp [hr, ha, hg, hs] at h

/-- What a step has before it, within the names that are being expanded. -/
def Step.task (stack : List Text) : Step → Task
  | command _ c => .command stack c
  | definition d => .definition stack d

theorem task_stepsOf (stack : List Text) (d : Nat) (cs : List Command) :
    (stepsOf d cs).map (Step.task stack) = cs.map (.command stack) := by
  conv => rhs; rw [← List.zipIdx_map_fst 0 cs, List.map_map]
  rw [stepsOf, List.map_map]
  rfl

/-- Within the bounds of a stack there is always room for the names that an expansion goes through,
so its faults are those of the tasks. -/
theorem Step.fault?_task (hb : Bounded w depth stack) (a : Step) :
    (a.task stack).fault? w file = a.fault? w file depth stack := by
  cases a with
  | definition d => rfl
  | command s c =>
    cases hc : c.body with
    | reference name =>
      cases ht : target w file stack name c.location with
      | error f => simpa [Step.task, Task.fault?, Step.fault?, hc, ht] using target_error ht
      | ok found =>
        obtain ⟨full, first, more⟩ := found
        obtain ⟨hr, ha, hg, hs⟩ := target_ok.mp ht
        have hdepth : depth ≠ 0 := by
          have hlt := hb.length_lt (by simp [hg]) hs
          have hroom := hb.room
          omega
        simp [Step.task, Task.fault?, Step.fault?, referenceCause?, hc, ht, hr, ha, hg, hs, hdepth]
    | _ => simp [Step.task, Task.fault?, Step.fault?, hc]

/-- An expansion visits the tasks of its steps. -/
theorem Expands.visits {as : List Step} {p q : Pass} {e : Except Fault Unit}
    (h : Expands w file mark depth stack as p e q) (hb : Bounded w depth stack) :
    Visits w file (as.map (Step.task stack)) e := by
  induction h with
  | nil p => exact .done
  | cons _ _ iha ihas => exact (iha hb).append (ihas hb)
  | abort as _ ih => exact (ih hb).append_error _
  | fault hf p => exact .stop _ (by rwa [Step.fault?_task hb])
  | code hc p =>
    refine .next (by simp [Step.task, Task.fault?, hc]) ?_
    simpa [Step.task, Task.below, Command.reference?, hc] using Visits.done
  | @definition _ stack d _ _ _ hk _ ih =>
    refine .next (by simp [Step.task, Task.fault?, hk]) ?_
    simpa [Step.task, Task.below, task_stepsOf] using ih hb
  | @reference _ stack s c name full first more _ _ _ hc ht _ ih =>
    obtain ⟨hr, ha, hg, hs⟩ := target_ok.mp ht
    refine .next (by simp [Step.task, Task.fault?, hc, referenceCause?, hr, ha, hg, hs]) ?_
    have hbelow : Task.below w (.command stack c) =
        ((first :: more).map Step.definition).map (Step.task (stack ++ [full])) := by
      simp [Task.below, Command.reference?, hc, hr, hg, Step.task]
    rw [List.map_nil, List.append_nil, Step.task, hbelow]
    exact ih (hb.push (by simp [hg]) hs)

/-- Rendering a chunk visits its commands. -/
theorem render_visits (w : Web) (marked : Bool) (i : Nat) (m : Memory) :
    Visits w (w.chunk i).name ((w.chunk i).commands.map (.command []))
      ((render w marked i m).1.map fun _ => ()) := by
  have hbounded : Bounded w w.definitions.length [] := ⟨List.nodup_nil, by simp, by simp⟩
  have h := (expands_chunk w marked i m).visits hbounded
  rw [task_stepsOf] at h
  unfold render
  rcases hr : expandChunk w marked i { citations := m.citations, names := m.names } with
    ⟨⟨f⟩ | ⟨u⟩, p⟩
  · rwa [hr] at h
  · rwa [hr] at h

end Tangle

end Literate
