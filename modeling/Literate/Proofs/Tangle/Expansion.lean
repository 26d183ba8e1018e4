import Literate.Proofs.Tangle.Steps

/-! Expansion by rules. The steps of an expansion are the commands of chunks and the definitions of
names; there is one rule for each kind of step, and two that put steps in a row. What every
expansion does is proved by induction on these rules. Another way to take steps that follows the
rules step by step also follows them in every sequence of steps. -/

namespace Literate.Tangle

/-- A command of a web: the chunk that it stands in and its place among the commands there. -/
structure Site where
  chunk : Nat
  place : Nat
deriving DecidableEq, Repr

inductive Step where
  | command (s : Site) (c : Command)
  | definition (d : Nat)

/-- The steps of commands that a chunk begins with. -/
def stepsOf (d : Nat) (cs : List Command) : List Step :=
  cs.zipIdx.map fun c => .command ⟨d, c.2⟩ c.1

namespace Step

/-- The chunk that a step is taken in. -/
def home : Step → Nat
  | command s _ => s.chunk
  | definition d => d

def commands (w : Web) : Step → List Command
  | command _ c => [c]
  | definition d => (w.chunk d).commands

def run (w : Web) (file : Text) (mark : Option Mark) (depth : Nat) (stack : List Text) :
    Step → Pass → Result
  | command s c => runCommand mark (expandReference w file mark depth stack s.chunk) c
  | definition d => runDefinition w mark (expandReference w file mark depth stack) d

/-- The fault of a step before it has done anything. -/
def fault? (w : Web) (file : Text) (depth : Nat) (stack : List Text) : Step → Option Fault
  | command _ c =>
    match c.body with
    | .code _ => none
    | .text t => some ⟨.textBlock t, c.location⟩
    | .crossReference _ => some ⟨.crossReference, c.location⟩
    | .reference name =>
      match target w file stack name c.location with
      | .error f => some f
      | .ok (full, _, _) =>
        if depth = 0 then some ⟨.cycle ([file] ++ stack ++ [full]), c.location⟩ else none
  | definition d =>
    if (w.chunk d).kind = .named then none
    else some ⟨.textBlock (w.chunk d).text, (w.chunk d).location⟩

end Step

variable {w : Web} {file : Text} {mark : Option Mark} {depth : Nat} {stack : List Text}
  {s : Site} {c : Command} {d : Nat} {text name full : Text} {first : Nat} {more : List Nat}

theorem flatMap_commands_stepsOf (w : Web) (d : Nat) (cs : List Command) :
    (stepsOf d cs).flatMap (Step.commands w) = cs := by
  rw [stepsOf, List.flatMap_map]
  change cs.zipIdx.flatMap (fun c => [c.1]) = cs
  rw [← List.map_eq_flatMap, List.zipIdx_map_fst]

theorem mem_of_mem_stepsOf {cs : List Command} {a : Step}
    (h : a ∈ stepsOf d cs) (hc : c ∈ a.commands w) : c ∈ cs := by
  rw [← flatMap_commands_stepsOf w d cs]
  exact List.mem_flatMap.2 ⟨a, h, hc⟩

theorem home_of_mem_stepsOf {cs : List Command} {a : Step} (h : a ∈ stepsOf d cs) :
    a.home = d := by
  obtain ⟨c, -, rfl⟩ := List.mem_map.1 h
  rfl

/-- Commands are taken one after the other as their steps are. -/
theorem sequence_steps {σ : Type} {take : Step → σ → Except Fault Unit × σ}
    {run : Command → σ → Except Fault Unit × σ} (h : ∀ k c, take (.command ⟨d, k⟩ c) = run c)
    (cs : List Command) (x : σ) : sequence run cs x = sequence take (stepsOf d cs) x := by
  conv => lhs; rw [← List.zipIdx_map_fst 0 cs, sequence_map]
  rw [stepsOf, sequence_map]
  simp only [h]

theorem sequence_stepsOf (w : Web) (file : Text) (mark : Option Mark) (depth : Nat)
    (stack : List Text) (d : Nat) (cs : List Command) (p : Pass) :
    sequence (runCommand mark (expandReference w file mark depth stack d)) cs p =
      sequence (Step.run w file mark depth stack) (stepsOf d cs) p :=
  sequence_steps (fun _ _ => rfl) cs p

theorem sequence_definitions (w : Web) (file : Text) (mark : Option Mark) (depth : Nat)
    (stack : List Text) (ds : List Nat) (p : Pass) :
    sequence (runDefinition w mark (expandReference w file mark depth stack)) ds p =
      sequence (Step.run w file mark depth stack) (ds.map .definition) p := by
  rw [sequence_map]
  rfl

namespace Step

theorem run_of_fault {a : Step} {f : Fault} (h : a.fault? w file depth stack = some f) (p : Pass) :
    a.run w file mark depth stack p = (.error f, p) := by
  cases a with
  | definition d =>
    by_cases hk : (w.chunk d).kind = .named <;> simp_all [fault?, run, runDefinition]
  | command s c =>
    cases hb : c.body with
    | reference name =>
      cases ht : target w file stack name c.location with
      | error g =>
        simp_all [fault?, run, runCommand, expandReference_of_error]
      | ok found =>
        cases depth <;> simp_all [fault?, run, runCommand, expandReference]
    | _ => simp_all [fault?, run, runCommand]

/-- A command without a fault is code, or a reference to definitions that there is room for. -/
theorem command_of_faultless (h : (command s c).fault? w file depth stack = none) :
    (∃ text, c.body = .code text) ∨ ∃ below name full first more, depth = below + 1 ∧
      c.body = .reference name ∧ target w file stack name c.location = .ok (full, first, more) := by
  cases hb : c.body with
  | code text => exact .inl ⟨text, rfl⟩
  | text t => simp [fault?, hb] at h
  | crossReference k => simp [fault?, hb] at h
  | reference name =>
    cases ht : target w file stack name c.location with
    | error f => simp [fault?, hb, ht] at h
    | ok found =>
      obtain ⟨below, rfl⟩ : ∃ below, depth = below + 1 :=
        Nat.exists_eq_succ_of_ne_zero (by simpa [fault?, hb, ht] using h)
      exact .inr ⟨below, name, _, _, _, rfl, rfl, ht⟩

theorem run_code (hc : c.body = .code text) (p : Pass) :
    (command s c).run w file mark depth stack p =
      (.ok (), (p.writeMark mark c.location).write text) := by
  simp [run, runCommand, hc]

theorem run_definition (hk : (w.chunk d).kind = .named) (p : Pass) :
    (definition d).run w file mark depth stack p =
      sequence (run w file mark depth stack) (stepsOf d (w.chunk d).commands) p := by
  simp [run, runDefinition, hk, sequence_stepsOf]

/-- A reference enters its definitions, and the indent that they were given ends with them. -/
theorem run_reference (hc : c.body = .reference name)
    (ht : target w file stack name c.location = .ok (full, first, more)) {p q : Pass}
    {e : Except Fault Unit}
    (h : sequence (run w file mark depth (stack ++ [full])) ((first :: more).map .definition)
      (p.enter w name first more s.chunk) = (e, q)) :
    (command s c).run w file mark (depth + 1) stack p = (e, q.clearIndent) := by
  rw [← sequence_definitions] at h
  simp [run, runCommand, hc, expandReference_of_ok ht, h]

end Step

/-- What steps do that are taken one after the other: the pass that they leave, and how they end. -/
inductive Expands (w : Web) (file : Text) (mark : Option Mark) :
    (depth : Nat) → (stack : List Text) → List Step → Pass → Except Fault Unit → Pass → Prop
  | nil {depth : Nat} {stack : List Text} (p : Pass) : Expands w file mark depth stack [] p (.ok ()) p
  | cons {depth : Nat} {stack : List Text} {a : Step} {as : List Step} {p q r : Pass}
    {e : Except Fault Unit} (ha : Expands w file mark depth stack [a] p (.ok ()) q)
    (has : Expands w file mark depth stack as q e r) : Expands w file mark depth stack (a :: as) p e r
  | abort {depth : Nat} {stack : List Text} {a : Step} {p q : Pass} {f : Fault} (as : List Step)
    (ha : Expands w file mark depth stack [a] p (.error f) q) :
    Expands w file mark depth stack (a :: as) p (.error f) q
  | fault {depth : Nat} {stack : List Text} {a : Step} {f : Fault}
    (h : a.fault? w file depth stack = some f) (p : Pass) :
    Expands w file mark depth stack [a] p (.error f) p
  | code {depth : Nat} {stack : List Text} {s : Site} {c : Command} {text : Text}
    (hc : c.body = .code text) (p : Pass) :
    Expands w file mark depth stack [.command s c] p (.ok ())
      ((p.writeMark mark c.location).write text)
  | definition {depth : Nat} {stack : List Text} {d : Nat} {p q : Pass} {e : Except Fault Unit}
    (hk : (w.chunk d).kind = .named)
    (h : Expands w file mark depth stack (stepsOf d (w.chunk d).commands) p e q) :
    Expands w file mark depth stack [.definition d] p e q
  | reference {depth : Nat} {stack : List Text} {s : Site} {c : Command} {name full : Text}
    {first : Nat} {more : List Nat} {p q : Pass} {e : Except Fault Unit}
    (hc : c.body = .reference name)
    (ht : target w file stack name c.location = .ok (full, first, more))
    (h : Expands w file mark depth (stack ++ [full]) ((first :: more).map .definition)
      (p.enter w name first more s.chunk) e q) :
    Expands w file mark (depth + 1) stack [.command s c] p e q.clearIndent

section Lockstep

variable {σ : Type} {as : List Step} {p q : Pass} {e : Except Fault Unit}

/-- Steps are taken in another state in lockstep with the rules: from a state that matches a pass
they end in the same way, in a state that matches the pass that the rules leave. -/
structure Lockstep (w : Web) (file : Text) (mark : Option Mark) (Matches : Pass → σ → Prop)
    (take : Nat → List Text → Step → σ → Except Fault Unit × σ) : Prop where
  fault {depth : Nat} {stack : List Text} {a : Step} {f : Fault} {p : Pass} {x : σ}
    (h : a.fault? w file depth stack = some f) (hx : Matches p x) :
    take depth stack a x = (.error f, x)
  code {depth : Nat} {stack : List Text} {s : Site} {c : Command} {text : Text} {p : Pass} {x : σ}
    (hc : c.body = .code text) (hx : Matches p x) :
    ∃ y, take depth stack (.command s c) x = (.ok (), y) ∧
      Matches ((p.writeMark mark c.location).write text) y
  definition {depth : Nat} {stack : List Text} {d : Nat} {p : Pass} {x : σ}
    (hk : (w.chunk d).kind = .named) (hx : Matches p x) : take depth stack (.definition d) x =
      sequence (take depth stack) (stepsOf d (w.chunk d).commands) x
  reference {depth : Nat} {stack : List Text} {s : Site} {c : Command} {name full : Text}
    {first : Nat} {more : List Nat} {p : Pass} {x : σ} (hc : c.body = .reference name)
    (ht : target w file stack name c.location = .ok (full, first, more)) (hx : Matches p x) :
    ∃ x', Matches (p.enter w name first more s.chunk) x' ∧ ∀ {e : Except Fault Unit} {q : Pass}
      {y : σ}, sequence (take depth (stack ++ [full])) ((first :: more).map .definition) x' = (e, y) →
        Matches q y → ∃ z, take (depth + 1) stack (.command s c) x = (e, z) ∧ Matches q.clearIndent z

theorem Expands.lockstep {Matches : Pass → σ → Prop}
    {take : Nat → List Text → Step → σ → Except Fault Unit × σ}
    (hl : Lockstep w file mark Matches take) (h : Expands w file mark depth stack as p e q) {x : σ}
    (hx : Matches p x) : ∃ y, sequence (take depth stack) as x = (e, y) ∧ Matches q y := by
  induction h generalizing x with
  | nil p => exact ⟨x, rfl, hx⟩
  | cons _ _ iha ihas =>
    obtain ⟨y, ha, hy⟩ := iha hx
    obtain ⟨z, has, hz⟩ := ihas hy
    rw [sequence_singleton] at ha
    exact ⟨z, by rw [sequence_cons_of_ok ha, has], hz⟩
  | abort as _ ih =>
    obtain ⟨y, ha, hy⟩ := ih hx
    rw [sequence_singleton] at ha
    exact ⟨y, sequence_cons_of_error ha, hy⟩
  | fault hf p => exact ⟨x, by rw [sequence_singleton, hl.fault hf hx], hx⟩
  | code hc p =>
    obtain ⟨y, hcode, hy⟩ := hl.code hc hx
    exact ⟨y, by rw [sequence_singleton, hcode], hy⟩
  | definition hk _ ih =>
    obtain ⟨y, hbody, hy⟩ := ih hx
    exact ⟨y, by rw [sequence_singleton, hl.definition hk hx, hbody], hy⟩
  | reference hc ht _ ih =>
    obtain ⟨x', hx', hleave⟩ := hl.reference hc ht hx
    obtain ⟨y, hbody, hy⟩ := ih hx'
    obtain ⟨z, hz, hmatches⟩ := hleave hbody hy
    exact ⟨z, by rw [sequence_singleton, hz], hmatches⟩

end Lockstep

theorem Step.run_lockstep (w : Web) (file : Text) (mark : Option Mark) :
    Lockstep w file mark Eq (Step.run w file mark) where
  fault h _ := Step.run_of_fault h _
  code hc hx := ⟨_, Step.run_code hc _, by rw [hx]⟩
  definition hk _ := Step.run_definition hk _
  reference hc ht hx := ⟨_, rfl, fun hbody hy => ⟨_, Step.run_reference hc ht (hx ▸ hbody), by rw [hy]⟩⟩

section Total

variable {as : List Step} {p q : Pass} {e : Except Fault Unit}

/-- What the rules say, a sequence of steps does. -/
theorem Expands.sequence_eq (h : Expands w file mark depth stack as p e q) :
    sequence (Step.run w file mark depth stack) as p = (e, q) := by
  obtain ⟨y, hy, rfl⟩ := h.lockstep (Step.run_lockstep w file mark) rfl
  exact hy

/-- Steps do what the rules say if each of them does. -/
theorem expands_list
    (h : ∀ a ∈ as, ∀ p, Expands w file mark depth stack [a] p (a.run w file mark depth stack p).1
      (a.run w file mark depth stack p).2) (p : Pass) :
    Expands w file mark depth stack as p (sequence (Step.run w file mark depth stack) as p).1
      (sequence (Step.run w file mark depth stack) as p).2 := by
  induction as generalizing p with
  | nil => exact .nil p
  | cons a as ih =>
    have ha := h a (by simp) p
    have has := ih fun b hb => h b (by simp [hb])
    rcases hr : a.run w file mark depth stack p with ⟨⟨f⟩ | ⟨⟨⟩⟩, q⟩
    · rw [hr] at ha
      rw [sequence_cons_of_error hr]
      exact .abort as ha
    · rw [hr] at ha
      rw [sequence_cons_of_ok hr]
      exact .cons ha (has q)

/-- What a sequence of steps does, the rules say. -/
theorem expands_sequence (w : Web) (file : Text) (mark : Option Mark) (depth : Nat)
    (stack : List Text) (as : List Step) (p : Pass) :
    Expands w file mark depth stack as p (sequence (Step.run w file mark depth stack) as p).1
      (sequence (Step.run w file mark depth stack) as p).2 := by
  induction depth using Nat.strongRecOn generalizing stack as p with
  | ind depth ih =>
    -- Definitions consist of commands, so these come first.
    have hcommand : ∀ s c p, Expands w file mark depth stack [.command s c] p
        (Step.run w file mark depth stack (.command s c) p).1
        (Step.run w file mark depth stack (.command s c) p).2 := by
      intro s c p
      cases hf : Step.fault? w file depth stack (.command s c) with
      | some f =>
        rw [Step.run_of_fault hf]
        exact .fault hf p
      | none =>
        rcases Step.command_of_faultless hf with
          ⟨text, hc⟩ | ⟨below, name, full, first, more, rfl, hc, ht⟩
        · rw [Step.run_code hc]
          exact .code hc p
        · rw [Step.run_reference hc ht rfl]
          exact .reference hc ht (ih below (by omega) _ _ _)
    refine expands_list (fun a _ p => ?_) p
    cases a with
    | command s c => exact hcommand s c p
    | definition d =>
      cases hf : Step.fault? w file depth stack (.definition d) with
      | some f =>
        rw [Step.run_of_fault hf]
        exact .fault hf p
      | none =>
        have hk : (w.chunk d).kind = .named := by simpa [Step.fault?] using hf
        rw [Step.run_definition hk]
        refine .definition hk (expands_list (fun a ha p => ?_) p)
        obtain ⟨c, -, rfl⟩ := List.mem_map.1 ha
        exact hcommand _ _ p

theorem expands_commands (w : Web) (file : Text) (mark : Option Mark) (depth : Nat)
    (stack : List Text) (d : Nat) (cs : List Command) (p : Pass) :
    Expands w file mark depth stack (stepsOf d cs) p
      (sequence (runCommand mark (expandReference w file mark depth stack d)) cs p).1
      (sequence (runCommand mark (expandReference w file mark depth stack d)) cs p).2 := by
  rw [sequence_stepsOf]
  exact expands_sequence w file mark depth stack _ p

theorem expands_definitions (w : Web) (file : Text) (mark : Option Mark) (depth : Nat)
    (stack : List Text) (ds : List Nat) (p : Pass) :
    Expands w file mark depth stack (ds.map .definition) p
      (sequence (runDefinition w mark (expandReference w file mark depth stack)) ds p).1
      (sequence (runDefinition w mark (expandReference w file mark depth stack)) ds p).2 := by
  rw [sequence_definitions]
  exact expands_sequence w file mark depth stack _ p

theorem expands_reference (w : Web) (file : Text) (mark : Option Mark) (depth : Nat)
    (stack : List Text) (s : Site) (name : Text) (l : Location) (p : Pass) :
    Expands w file mark depth stack [.command s ⟨.reference name, l⟩] p
      (expandReference w file mark depth stack s.chunk name l p).1
      (expandReference w file mark depth stack s.chunk name l p).2 := by
  have h := expands_sequence w file mark depth stack [.command s ⟨.reference name, l⟩] p
  rwa [sequence_singleton] at h

theorem expands_chunk (w : Web) (marked : Bool) (i : Nat) (m : Memory) :
    Expands w (w.chunk i).name
      (if marked then some ⟨(w.chunk i).commentStart, (w.chunk i).commentEnd⟩ else none)
      w.definitions.length [] (stepsOf i (w.chunk i).commands)
      { citations := m.citations, names := m.names }
      (expandChunk w marked i { citations := m.citations, names := m.names }).1
      (expandChunk w marked i { citations := m.citations, names := m.names }).2 :=
  expands_commands w (w.chunk i).name _ w.definitions.length [] i _ _

end Total

end Literate.Tangle
