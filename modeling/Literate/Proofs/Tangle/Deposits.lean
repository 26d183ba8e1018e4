import Literate.Proofs.FileTree.Outcome
import Literate.Proofs.Tangle.Memory
import Literate.Tangle.Emit

/-! An emission, file by file. What becomes of an output chunk is decided by its code and by the
tree that it is written to; the lists of an emission tell this of one chunk after the other. -/

namespace Literate.Tangle

open FileTree (IsJoined Spares Outcome writeIfChanged isJoined_join)

section Definitions

variable (w : Web) (o : EmitOptions)

/-- The path that an output chunk is written to. -/
def outputPath (i : Nat) : Text := Path.join o.dir (w.chunk i).path

/-- The code of an output chunk, unless its path is refused or it cannot be rendered. -/
def codeOf (i : Nat) : Except Failure Text :=
  if o.confined && !Path.isLocal (w.chunk i).path then .error (.outside (w.chunk i).name)
  else (render w o.marked i {}).1.mapError .fault

/-- What becomes of an output chunk. -/
inductive Fate where
  | written (code : Text)
  | unchanged (code : Text)
  | failed
deriving DecidableEq, Repr

namespace Fate

def ofWrite (code : Text) : Option Bool → Fate
  | some true => written code
  | some false => unchanged code
  | none => failed

def isWritten : Fate → Bool
  | written _ => true
  | _ => false

def isUnchanged : Fate → Bool
  | unchanged _ => true
  | _ => false

def isFailed : Fate → Bool
  | failed => true
  | _ => false

end Fate

/-- What becomes of an output chunk that is written to a tree. -/
def fate (t : FileTree) (i : Nat) : Fate :=
  match codeOf w o i with
  | .ok code => .ofWrite code (writeIfChanged (outputPath w o i) code t).1.toOption
  | .error _ => .failed

/-- The tree after an output chunk was written to it. -/
def deposit (t : FileTree) (i : Nat) : FileTree :=
  match codeOf w o i with
  | .ok code => (writeIfChanged (outputPath w o i) code t).2
  | .error _ => t

/-- What becomes of output chunks that are written one after the other. -/
def fates : FileTree → List Nat → List (Nat × Fate)
  | _, [] => []
  | t, i :: is => (i, fate w o t i) :: fates (deposit w o t i) is

/-- The failure tells why there is no file for an output chunk. -/
def Blames (i : Nat) (f : Failure) : Prop :=
  match codeOf w o i with
  | .error g => f = g
  | .ok _ => ∃ e, f = .unwritten ("tangle " ++ (w.chunk i).name) e

/-- One emission is the other after these chunks. -/
structure Tells (e e' : Emission) (fs : List (Nat × Fate)) : Prop where
  written : e'.written = e.written ++ (fs.filter (·.2.isWritten)).map (outputPath w o ·.1)
  unchanged : e'.unchanged = e.unchanged ++ (fs.filter (·.2.isUnchanged)).map (outputPath w o ·.1)
  failures : ∃ added, e'.failures = e.failures ++ added ∧
    List.Forall₂ (Blames w o) ((fs.filter (·.2.isFailed)).map (·.1)) added

end Definitions

variable {w : Web} {o : EmitOptions} {t : FileTree} {e : Emission} {i : Nat}

theorem isJoined_outputPath (w : Web) (o : EmitOptions) (i : Nat) : IsJoined (outputPath w o i) :=
  isJoined_join o.dir (w.chunk i).path

/-- A chunk has code if its path is not refused and it renders, whatever is remembered. -/
theorem codeOf_eq_ok {code : Text} : codeOf w o i = .ok code ↔
    (o.confined = true → Path.isLocal (w.chunk i).path = true) ∧
      ∀ m, (render w o.marked i m).1 = .ok code := by
  have hmemory : (∀ m, (render w o.marked i m).1 = .ok code) ↔
      (render w o.marked i {}).1 = .ok code :=
    ⟨fun h => h {}, fun h m => (render_of_memory w o.marked i m {}).trans h⟩
  rw [hmemory]
  unfold codeOf
  split
  next hout =>
    simp only [Bool.and_eq_true, Bool.not_eq_true'] at hout
    simp [hout]
  next hin =>
    have hlocal : o.confined = true → Path.isLocal (w.chunk i).path = true := by simpa using hin
    rw [and_iff_right hlocal]
    cases (render w o.marked i {}).1 <;> simp [Except.mapError]

/-- A path that is not refused has the code that its chunk renders to, whatever is remembered. -/
theorem codeOf_eq_render (hin : ¬(o.confined && !Path.isLocal (w.chunk i).path) = true) (m : Memory) :
    codeOf w o i = (render w o.marked i m).1.mapError .fault := by
  rw [codeOf, if_neg hin, render_of_memory w o.marked i m {}]

section Emission

theorem Tells.append {e e' e'' : Emission} {fs gs : List (Nat × Fate)} (h : Tells w o e e' fs)
    (h' : Tells w o e' e'' gs) : Tells w o e e'' (fs ++ gs) := by
  obtain ⟨added, hadded, hblames⟩ := h.failures
  obtain ⟨added', hadded', hblames'⟩ := h'.failures
  refine ⟨?_, ?_, added ++ added', ?_, ?_⟩
  · rw [h'.written, h.written]
    simp
  · rw [h'.unchanged, h.unchanged]
    simp
  · rw [hadded', hadded, List.append_assoc]
  · rw [List.filter_append, List.map_append]
    exact List.rel_append hblames hblames'

theorem tells_fail {f : Failure} (hb : Blames w o i f) (tree : FileTree) (memory : Memory)
    (message name cause : Text) :
    Tells w o e ({ e with tree, memory }.fail f message name cause) [(i, .failed)] :=
  ⟨by simp [Fate.isWritten, Emission.fail, Emission.say],
    by simp [Fate.isUnchanged, Emission.fail, Emission.say],
    [f], rfl, by simpa [Fate.isFailed] using hb⟩

theorem put_tells {code : Text} (hcode : codeOf w o i = .ok code) (e : Emission) :
    Tells w o e (e.put (w.chunk i).name (outputPath w o i) code) [(i, fate w o e.tree i)] ∧
      (e.put (w.chunk i).name (outputPath w o i) code).tree = deposit w o e.tree i := by
  unfold Emission.put
  rw [fate, deposit, hcode]
  dsimp only
  rcases writeIfChanged (outputPath w o i) code e.tree with ⟨result, u⟩
  cases result with
  | error err =>
    have hblames : Blames w o i (.unwritten ("tangle " ++ (w.chunk i).name) err) := by
      simp [Blames, hcode]
    exact ⟨tells_fail hblames u e.memory _ _ _, rfl⟩
  | ok changed =>
    cases changed with
    | true =>
      refine ⟨⟨?_, ?_, [], ?_, ?_⟩, rfl⟩ <;>
        simp [Except.toOption, Fate.ofWrite, Fate.isWritten, Fate.isUnchanged, Fate.isFailed,
          Emission.say]
    | false =>
      refine ⟨⟨?_, ?_, [], ?_, ?_⟩, rfl⟩ <;>
        simp [Except.toOption, Fate.ofWrite, Fate.isWritten, Fate.isUnchanged, Fate.isFailed,
          Emission.say]

/-- One output chunk: what is told of it is its fate, and the tree is the one it leaves. -/
theorem file_tells (e : Emission) (i : Nat) :
    Tells w o e (e.file w o i) [(i, fate w o e.tree i)] ∧
      (e.file w o i).tree = deposit w o e.tree i := by
  have hfailed : ∀ f, codeOf w o i = .error f → ∀ memory message cause,
      Tells w o e ({ e with memory }.fail f message (w.chunk i).name cause)
          [(i, fate w o e.tree i)] ∧
        ({ e with memory }.fail f message (w.chunk i).name cause).tree = deposit w o e.tree i := by
    intro f hcode memory message cause
    rw [fate, deposit, hcode]
    exact ⟨tells_fail (by simp [Blames, hcode]) e.tree memory _ _ _, rfl⟩
  unfold Emission.file
  dsimp only
  by_cases hout : (o.confined && !Path.isLocal (w.chunk i).path) = true
  · rw [if_pos hout]
    exact hfailed _ (by rw [codeOf, if_pos hout]) e.memory _ _
  · rw [if_neg hout]
    have hcode := codeOf_eq_render hout e.memory
    rcases hr : render w o.marked i e.memory with ⟨r, memory⟩
    rw [hr] at hcode
    cases r with
    | error f => exact hfailed _ hcode memory _ _
    | ok code =>
      obtain ⟨⟨hwritten, hunchanged, hfailures⟩, htree⟩ :=
        put_tells (w := w) (o := o) (i := i) hcode { e with memory }
      exact ⟨⟨hwritten, hunchanged, hfailures⟩, htree⟩

theorem foldl_file_tells (is : List Nat) (e : Emission) :
    Tells w o e (is.foldl (Emission.file w o) e) (fates w o e.tree is) ∧
      (is.foldl (Emission.file w o) e).tree = is.foldl (deposit w o) e.tree := by
  induction is generalizing e with
  | nil => exact ⟨⟨by simp [fates], by simp [fates], [], by simp, by simp [fates]⟩, rfl⟩
  | cons i is ih =>
    obtain ⟨hfile, htree⟩ := file_tells (w := w) (o := o) e i
    obtain ⟨hrest, hend⟩ := ih (e.file w o i)
    rw [htree] at hrest hend
    exact ⟨hfile.append hrest, hend⟩

/-- An emission tells the fates of the output chunks in their order. -/
theorem emit_tells (w : Web) (o : EmitOptions) (t : FileTree) :
    Tells w o { tree := t, memory := {} } (emit w o t) (fates w o t w.files) ∧
      (emit w o t).tree = w.files.foldl (deposit w o) t := by
  obtain ⟨h, htree⟩ := foldl_file_tells (w := w) (o := o) w.files { tree := t, memory := {} }
  exact ⟨⟨h.written, h.unchanged, h.failures⟩, htree⟩

end Emission

/-- What the fate of an output chunk says of the trees before and after it. -/
inductive Deposited (w : Web) (o : EmitOptions) (t : FileTree) (i : Nat) :
    Fate → FileTree → Prop where
  | written {code : Text} {u : FileTree} (rendered : codeOf w o i = .ok code)
      (differed : t.readFile (outputPath w o i) ≠ .ok code)
      (vacant : t.get? (t.placeOf (outputPath w o i)) ≠ some .directory)
      (holds : u.readFile (outputPath w o i) = .ok code)
      (spares : Spares t u (t.placeOf (outputPath w o i))) : Deposited w o t i (.written code) u
  | unchanged {code : Text} (rendered : codeOf w o i = .ok code)
      (held : t.readFile (outputPath w o i) = .ok code) : Deposited w o t i (.unchanged code) t
  | failed {u : FileTree}
      (same : u.get? (t.placeOf (outputPath w o i)) = t.get? (t.placeOf (outputPath w o i)))
      (spares : Spares t u (t.placeOf (outputPath w o i))) : Deposited w o t i .failed u

theorem deposited (w : Web) (o : EmitOptions) (t : FileTree) (i : Nat) :
    Deposited w o t i (fate w o t i) (deposit w o t i) := by
  unfold fate deposit
  cases hcode : codeOf w o i with
  | error f => exact .failed rfl ⟨rfl, fun q _ => .inl rfl⟩
  | ok code =>
    have hout := FileTree.outcome_writeIfChanged (t := t) (isJoined_outputPath w o i) code
    dsimp only
    generalize writeIfChanged (outputPath w o i) code t = out at hout ⊢
    cases hout with
    | kept held => exact .unchanged hcode held
    | written differed vacant holds spares => exact .written hcode differed vacant holds spares
    | refused differed same spares => exact .failed same spares

theorem codeOf_of_fate {code : Text}
    (h : fate w o t i = .written code ∨ fate w o t i = .unchanged code) :
    codeOf w o i = .ok code := by
  have hdeposited := deposited w o t i
  generalize fate w o t i = f, deposit w o t i = u at hdeposited h
  cases hdeposited with
  | written rendered _ _ _ _ =>
    obtain rfl : _ = code := by simpa using h
    exact rendered
  | unchanged rendered _ =>
    obtain rfl : _ = code := by simpa using h
    exact rendered
  | failed _ _ => simp at h

/-- What a fate says of the tree that is left, as seen from the tree before. -/
def Fate.Left (t u : FileTree) (path : Text) : Fate → Prop
  | written code => u.readFile path = .ok code
  | unchanged code => u.readFile path = .ok code
  | failed => u.get? (t.placeOf path) = t.get? (t.placeOf path)

theorem left_deposit (w : Web) (o : EmitOptions) (t : FileTree) (i : Nat) :
    (fate w o t i).Left t (deposit w o t i) (outputPath w o i) := by
  have h := deposited w o t i
  generalize fate w o t i = f, deposit w o t i = u at h ⊢
  cases h with
  | written _ _ _ holds _ => exact holds
  | unchanged _ held => exact held
  | failed same _ => exact same

theorem spares_deposit (w : Web) (o : EmitOptions) (t : FileTree) (i : Nat) :
    Spares t (deposit w o t i) (t.placeOf (outputPath w o i)) := by
  have h := deposited w o t i
  generalize fate w o t i = f, deposit w o t i = u at h ⊢
  cases h with
  | written _ _ _ _ spares => exact spares
  | unchanged _ _ => exact ⟨rfl, fun q _ => .inl rfl⟩
  | failed _ spares => exact spares

theorem current_foldl_deposit (w : Web) (o : EmitOptions) (t : FileTree) (is : List Nat) :
    (is.foldl (deposit w o) t).current = t.current := by
  induction is generalizing t with
  | nil => rfl
  | cons i is ih => exact (ih _).trans (spares_deposit w o t i).current

/-- Directories stay. -/
theorem get?_deposit_directory (w : Web) (o : EmitOptions) (i : Nat) {q : List Text}
    (hq : t.get? q = some .directory) : (deposit w o t i).get? q = some .directory := by
  by_cases hne : q = t.placeOf (outputPath w o i)
  · subst hne
    have h := deposited w o t i
    generalize fate w o t i = f, deposit w o t i = u at h ⊢
    cases h with
    | written _ _ vacant _ _ => exact absurd hq vacant
    | unchanged _ _ => exact hq
    | failed same _ => rw [same, hq]
  · rcases (spares_deposit w o t i).elsewhere q hne with h | ⟨-, hdir, -⟩
    · rw [h, hq]
    · exact hdir

/-- A file that can be read stays readable, with the bytes that are at its place. -/
theorem readFile_deposit {path code code' : Text} (hpath : IsJoined path)
    (hread : t.readFile path = .ok code)
    (hget : (deposit w o t i).get? (t.placeOf path) = some (.file code')) :
    (deposit w o t i).readFile path = .ok code' :=
  FileTree.readFile_of_directories hpath hread (spares_deposit w o t i).current
    (fun _ => get?_deposit_directory w o i) hget

end Literate.Tangle
