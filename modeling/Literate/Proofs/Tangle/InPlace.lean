import Literate.Proofs.Tangle.Bookkeeping
import Literate.Proofs.Web.References
import Literate.Tangle.InPlace

/-! Tangling in place does what tangling with a memory does: the web that the passes share is the
web that was built, with the citations that are remembered on record in its chunks. -/

namespace Literate.Tangle

/-- The pass that keeps its citations in the web. -/
def Pass.inPlace (w : Web) (p : Pass) : InPlace.Pass :=
  { web := w.recorded p.citations, names := p.names, writer := p.writer }

def Memory.inPlace (w : Web) (m : Memory) : InPlace.Ledger := ⟨w.recorded m.citations, m.names⟩

namespace InPlace

variable {w : Web} {file : Text} {mark : Option Mark} {depth : Nat} {stack : List Text} {s : Site}
  {c : Command} {d first : Nat} {text name full : Text} {more : List Nat}

def run (file : Text) (mark : Option Mark) (depth : Nat) (stack : List Text) :
    Step → Pass → Result
  | .command s c => runCommand mark (expandReference file mark depth stack s.chunk) c
  | .definition d => runDefinition mark (expandReference file mark depth stack) d

theorem sequence_stepsOf (file : Text) (mark : Option Mark) (depth : Nat) (stack : List Text)
    (d : Nat) (cs : List Command) (x : Pass) :
    sequence (runCommand mark (expandReference file mark depth stack d)) cs x =
      sequence (run file mark depth stack) (stepsOf d cs) x :=
  sequence_steps (fun _ _ => rfl) cs x

theorem target_recorded (cs : Citations) (stack : List Text) (name : Text) (l : Location) :
    target (w.recorded cs) file stack name l = target w file stack name l := rfl

@[simp] theorem chunk_inPlace (p : Tangle.Pass) (i : Nat) : (p.inPlace w).web.chunk i = w.chunk i :=
  w.chunk_recorded _ i

theorem run_of_fault {a : Step} {f : Fault} (h : a.fault? w file depth stack = some f)
    (p : Tangle.Pass) : run file mark depth stack a (p.inPlace w) = (.error f, p.inPlace w) := by
  cases a with
  | definition d =>
    by_cases hk : (w.chunk d).kind = .named <;> simp_all [Step.fault?, run, runDefinition]
  | command s c =>
    cases hb : c.body with
    | reference name =>
      cases ht : target w file stack name c.location <;> cases depth <;>
        simp_all [Step.fault?, run, runCommand, expandReference, Pass.inPlace, target_recorded]
    | _ => simp_all [Step.fault?, run, runCommand]

theorem run_code (hc : c.body = .code text) (p : Tangle.Pass) :
    run file mark depth stack (.command s c) (p.inPlace w) =
      (.ok (), ((p.writeMark mark c.location).write text).inPlace w) := by
  simp [run, runCommand, hc, Pass.inPlace, Pass.write, Pass.writeMark]

theorem run_definition (hk : (w.chunk d).kind = .named) (p : Tangle.Pass) :
    run file mark depth stack (.definition d) (p.inPlace w) =
      sequence (run file mark depth stack) (stepsOf d (w.chunk d).commands) (p.inPlace w) := by
  simp [run, runDefinition, hk, sequence_stepsOf]

/-- To cite the definitions of a name changes the web as it changes the memory. -/
theorem enter_inPlace (w : Web) (name : Text) (first : Nat) (more : List Nat) (citing : Nat)
    (p : Tangle.Pass) : ((p.inPlace w).cite name (first :: more) citing).indentFor first =
      (p.enter w name first more citing).inPlace w := by
  have hweb : (first :: more).foldl (fun v d => v.addReferrer ⟨d, some citing⟩)
      (w.recorded p.citations) =
        w.recorded (p.citations ++ (first :: more).map fun d => ⟨d, some citing⟩) := by
    rw [← Web.foldl_addReferrer_recorded, List.foldl_map]
  simp only [Pass.cite, Pass.indentFor, Pass.inPlace, hweb, Web.chunk_recorded]
  rfl

theorem run_reference (hc : c.body = .reference name)
    (ht : target w file stack name c.location = .ok (full, first, more)) {p q : Tangle.Pass}
    {e : Except Fault Unit}
    (h : sequence (run file mark depth (stack ++ [full])) ((first :: more).map .definition)
      ((p.enter w name first more s.chunk).inPlace w) = (e, q.inPlace w)) :
    run file mark (depth + 1) stack (.command s c) (p.inPlace w) = (e, q.clearIndent.inPlace w) := by
  have ht' : target (p.inPlace w).web file stack name c.location = .ok (full, first, more) := ht
  have hbody : sequence (runDefinition mark (expandReference file mark depth (stack ++ [full])))
      (first :: more) (((p.inPlace w).cite name (first :: more) s.chunk).indentFor first) =
        (e, q.inPlace w) := by
    rw [enter_inPlace, ← h, sequence_map]
    rfl
  simp only [run, runCommand, hc, expandReference, ht', hbody]
  rfl

/-- Steps in place are taken as with a memory, and leave their pass in place. -/
theorem run_lockstep (w : Web) (file : Text) (mark : Option Mark) :
    Lockstep w file mark (fun p x => x = p.inPlace w) (run file mark) where
  fault h hx := hx ▸ run_of_fault h _
  code hc hx := ⟨_, hx ▸ run_code hc _, rfl⟩
  definition hk hx := hx ▸ run_definition hk _
  reference hc ht hx := ⟨_, rfl, fun hbody hy =>
    ⟨_, hx ▸ run_reference hc ht (hy ▸ hbody), rfl⟩⟩

end InPlace

/-- Rendering in place yields the same code or fault, and leaves the same on record. -/
theorem render_inPlace (w : Web) (marked : Bool) (i : Nat) (m : Memory) :
    InPlace.render marked i (m.inPlace w) =
      ((render w marked i m).1, (render w marked i m).2.inPlace w) := by
  obtain ⟨x, h, rfl⟩ := (expands_chunk w marked i m).lockstep (InPlace.run_lockstep w _ _) rfl
  rw [← InPlace.sequence_stepsOf] at h
  have hchunk : (m.inPlace w).web.chunk i = w.chunk i := w.chunk_recorded _ i
  have hlength : (m.inPlace w).web.definitions.length = w.definitions.length := rfl
  have hstart : ({ m.inPlace w with } : InPlace.Pass) =
      ({ citations := m.citations, names := m.names } : Pass).inPlace w := rfl
  unfold InPlace.render render
  simp only [hchunk, hlength, hstart, h]
  rcases expandChunk w marked i { citations := m.citations, names := m.names } with
    ⟨⟨f⟩ | ⟨⟨⟩⟩, p⟩ <;> rfl

section Emission

variable {w : Web} {o : EmitOptions}

def Emission.inPlace (w : Web) (e : Emission) : Emission InPlace.Ledger where
  tree := e.tree
  memory := e.memory.inPlace w
  written := e.written
  unchanged := e.unchanged
  failures := e.failures
  log := e.log

theorem Emission.put_inPlace (name path code : Text) (e : Emission) :
    (e.inPlace w).put name path code = (e.put name path code).inPlace w := by
  have htree : (e.inPlace w).tree = e.tree := rfl
  unfold Emission.put
  rw [htree]
  rcases FileTree.writeIfChanged path code e.tree with ⟨f | ⟨⟨⟩ | ⟨⟩⟩, t⟩ <;> rfl

theorem Emission.file_inPlace (e : Emission) (i : Nat) :
    InPlace.file o (e.inPlace w) i = (e.file w o i).inPlace w := by
  have hmemory : (e.inPlace w).memory = e.memory.inPlace w := rfl
  have hchunk : (e.memory.inPlace w).web.chunk i = w.chunk i := w.chunk_recorded _ i
  unfold InPlace.file Emission.file
  simp only [hmemory, hchunk, render_inPlace]
  split
  · rfl
  · rcases render w o.marked i e.memory with ⟨f | code, m⟩
    · rfl
    · exact Emission.put_inPlace _ _ _ { e with memory := m }

/-- What is said of references in place is said of the citations. -/
theorem sayUses_recorded (w : Web) (cs : Citations) :
    sayUses (w.recorded cs) (w.recorded cs).noReference (w.recorded cs).multiReference
      (w.recorded cs).references = usageLog w cs := by
  have hcounts : ∀ i ∈ w.citedOften cs, (w.recorded cs).references i = cs.count i := fun i hi =>
    w.references_recorded cs (Web.lt_size_of_mem_positions (List.mem_filter.1 hi).1)
  rw [w.noReference_recorded, w.multiReference_recorded]
  simp only [sayUses, usageLog, Web.recorded, Web.displayName_withReferences,
    Web.chunk_withReferences]
  refine congrArg _ (List.map_congr_left fun i hi => ?_)
  rw [← hcounts i hi]
  rfl

/-- Writing all files in place comes to the same files, log and record. -/
theorem emit_inPlace (w : Web) (o : EmitOptions) (m : Memory) (tree : FileTree) :
    InPlace.emit o (m.inPlace w) tree = (emit w o tree).inPlace w := by
  have hfold : ∀ (is : List Nat) (e : Emission),
      is.foldl (InPlace.file o) (e.inPlace w) = (is.foldl (Emission.file w o) e).inPlace w := by
    intro is
    induction is with
    | nil => exact fun e => rfl
    | cons i is ih =>
      intro e
      rw [List.foldl_cons, Emission.file_inPlace, ih, List.foldl_cons]
  have hweb : (m.inPlace w).web.resetReferences = w.recorded [] := w.resetReferences_recorded _
  have hfiles : (w.recorded []).files = w.files := w.files_withReferences _ _
  have hstart : ({ tree, memory := { web := w.recorded [] } } : Emission InPlace.Ledger) =
      ({ tree, memory := {} } : Emission).inPlace w := rfl
  unfold InPlace.emit emit
  simp only [hweb, hfiles, hstart, hfold]
  generalize w.files.foldl (Emission.file w o) { tree, memory := {} } = e
  exact congrArg (fun said => { e.inPlace w with log := e.log ++ said })
    (sayUses_recorded w e.memory.citations)

end Emission

end Literate.Tangle
