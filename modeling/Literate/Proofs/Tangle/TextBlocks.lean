import Literate.Proofs.Reader.WellFormed
import Literate.Proofs.Tangle.Success
import Literate.Proofs.Web.Definitions

/-! Text in the place of code. Chunks of code that were loaded hold none, so an expansion comes to
text only where a reference stands for a definition of prose. -/

namespace Literate.Tangle

variable {w : Web} {file : Text} {i : Nat} {ts : List Task} {a b : Task} {f : Fault}

/-- An expansion comes to a task: nothing before it has a fault. -/
inductive Comes (w : Web) (file : Text) : List Task → Task → Prop
  | here (a : Task) (rest : List Task) : Comes w file (a :: rest) a
  | next {a b : Task} {rest : List Task} (h : a.fault? w file = none)
    (hb : Comes w file (a.below w ++ rest) b) : Comes w file (a :: rest) b

theorem Comes.error (h : Comes w file ts b) (hf : b.fault? w file = some f) {r : Except Fault Unit}
    (hr : Visits w file ts r) : r = .error f := by
  induction h with
  | here a rest => exact hr.unique (.stop rest hf)
  | next hnone _ ih =>
    cases hr with
    | stop _ hf' => simp [hnone] at hf'
    | next _ hr' => exact ih hf hr'

theorem Visits.comes (h : Visits w file ts (.error f)) :
    ∃ b, Comes w file ts b ∧ b.fault? w file = some f := by
  generalize hr : Except.error f = r at h
  induction h with
  | done => cases hr
  | stop rest hf =>
    cases hr
    exact ⟨_, .here _ rest, hf⟩
  | next hnone _ ih =>
    obtain ⟨b, hb, hf⟩ := ih hr
    exact ⟨b, .next hnone hb, hf⟩

/-- Rendering fails with the fault of the task that it comes to. -/
theorem render_error_iff (w : Web) (marked : Bool) (i : Nat) (m : Memory) :
    (render w marked i m).1 = .error f ↔
      ∃ b, Comes w (w.chunk i).name (tasksOf w i) b ∧ b.fault? w (w.chunk i).name = some f := by
  have hvisits := render_visits w marked i m
  constructor
  · intro h
    rw [h] at hvisits
    exact hvisits.comes
  · rintro ⟨b, hb, hf⟩
    have hr := hb.error hf hvisits
    cases hcode : (render w marked i m).1 with
    | ok code => simp [hcode, Except.map] at hr
    | error g => simpa [hcode, Except.map] using hr

/-- Whatever holds of the first tasks, and of the parts of each task without a fault that it holds
of, holds of every task that the expansion comes to. -/
theorem Comes.invariant {P : Task → Prop} (hts : ∀ a ∈ ts, P a)
    (hbelow : ∀ a, P a → a.fault? w file = none → ∀ b ∈ a.below w, P b)
    (h : Comes w file ts b) : P b := by
  induction h with
  | here a rest => exact hts a (by simp)
  | @next a b rest hnone _ ih =>
    refine ih fun c hc => ?_
    rcases List.mem_append.mp hc with hc | hc
    · exact hbelow a (hts a (by simp)) hnone c hc
    · exact hts c (by simp [hc])

/-- Commands are those of code chunks. -/
def Task.InCode (w : Web) : Task → Prop
  | .command _ k => ∃ d, (w.chunk d).isCode = true ∧ k ∈ (w.chunk d).commands
  | .definition _ _ => True

theorem Comes.isCode (hi : (w.chunk i).isCode = true) {stack : List Text} {k : Command}
    (h : Comes w file (tasksOf w i) (.command stack k)) : Task.InCode w (.command stack k) := by
  refine h.invariant (P := Task.InCode w) ?_ ?_
  · intro a ha
    obtain ⟨k, hk, rfl⟩ := List.mem_map.mp ha
    exact ⟨i, hi, hk⟩
  · intro a _ hnone b hb
    cases a with
    | definition stack d =>
      obtain ⟨k, hk, rfl⟩ := List.mem_map.mp hb
      have hkind : (w.chunk d).kind = .named := by
        by_contra hkind
        simp [Task.fault?, hkind] at hnone
      exact ⟨d, by simp [Chunk.isCode, Chunk.Kind.isCode, hkind], hk⟩
    | command stack k =>
      simp only [Task.below] at hb
      split at hb
      · obtain ⟨e, -, rfl⟩ := List.mem_map.mp hb
        trivial
      · simp at hb

theorem Comes.met (h : Comes w file ts b) : Met w ts b :=
  h.invariant (fun _ ha => met_of_mem ha) fun _ ha _ _ hb => ha.below hb

section Loaded

variable {path : Text} {chunks : List Chunk}

theorem Comes.not_text (hchunks : ∀ c ∈ chunks, c.WellFormed)
    (hi : ((Web.ofChunks path chunks).chunk i).isCode = true) {stack : List Text} {k : Command}
    (h : Comes (Web.ofChunks path chunks) file (tasksOf (Web.ofChunks path chunks) i)
      (.command stack k)) (t : Text) : k.body ≠ .text t := by
  obtain ⟨d, hcode, hk⟩ := h.isCode hi
  rw [Web.chunk_ofChunks] at hcode hk
  intro htext
  cases hd : chunks[d]? with
  | none => simp [hd, default] at hk
  | some c =>
    rw [hd, Option.getD_some] at hcode hk
    have hsuits := (hchunks c (List.mem_of_getElem? hd)).commands k hk
    simp [Command.Suits, htext, hcode] at hsuits

theorem referenceCause?_ne_text (w : Web) (file : Text) (stack : List Text) (name t : Text) :
    referenceCause? w file stack name ≠ some (.textBlock t) := by
  have hresolve : ∀ f, w.resolve name = .error f → f.cause ≠ .textBlock t := by
    intro f hf
    unfold Web.resolve Web.resolveIn at hf
    split at hf
    · cases hf
    · split at hf <;> cases hf
      simp
  unfold referenceCause?
  split
  next f hf => simpa using hresolve f hf
  · split
    · simp
    · split
      · simp
      · split <;> simp

theorem kind_of_fault {full : Text} {e : Nat} {stack : List Text}
    (he : e ∈ (Web.ofChunks path chunks).definitions.get full)
    (hf : Task.fault? (Web.ofChunks path chunks) file (.definition stack e) = some f) :
    ((Web.ofChunks path chunks).chunk e).kind = .document ∧
      f = ⟨.textBlock ((Web.ofChunks path chunks).chunk e).text,
        ((Web.ofChunks path chunks).chunk e).location⟩ := by
  obtain ⟨c, hc, hdef, -⟩ := (Web.mem_definitions path chunks).mp he
  simp only [Task.fault?, Web.chunk_ofChunks, hc, Option.getD_some] at hf ⊢
  cases hkind : c.kind <;> simp_all [Chunk.isDefinition, Chunk.Kind.isDefinition]

end Loaded

/-- Loaded chunks are well formed. So rendering an output chunk never comes to a command of text,
and where it fails for text it is because a reference stands for a definition of prose. -/
theorem load_wellFormed_textless {options : Reader.Options} {tree : FileTree} {name : Text}
    {source : Reader.Source} {chunks : List Chunk}
    (h : (Reader.load options tree name source).chunks = .ok chunks) :
    (∀ c ∈ chunks, c.WellFormed ∧ ¬(c.kind = .anonymous ∧ c.commands = [])) ∧
    ∀ (path : Text) (marked : Bool) (i : Nat) (m : Memory),
      let w := Web.ofChunks path chunks
      (w.chunk i).kind = .output →
      (∀ stack k t, Comes w (w.chunk i).name (tasksOf w i) (.command stack k) → k.body ≠ .text t) ∧
      ∀ t l, (render w marked i m).1 = .error ⟨.textBlock t, l⟩ →
        ∃ d full e, Reaches w i d ∧ Refers w d full ∧ e ∈ w.definitions.get full ∧
          (w.chunk e).kind = .document ∧ t = (w.chunk e).text ∧ l = (w.chunk e).location := by
  have hloaded := Reader.load_wellFormed h
  refine ⟨hloaded, ?_⟩
  intro path marked i m w hi
  have hcode : (w.chunk i).isCode = true := by simp [Chunk.isCode, Chunk.Kind.isCode, hi]
  have hnever : ∀ stack k t,
      Comes w (w.chunk i).name (tasksOf w i) (.command stack k) → k.body ≠ .text t :=
    fun stack k t hk => hk.not_text (fun c hc => (hloaded c hc).1) hcode t
  refine ⟨hnever, ?_⟩
  intro t l hr
  obtain ⟨b, hb, hf⟩ := (render_error_iff w marked i m).mp hr
  cases b with
  | command stack k =>
    exfalso
    cases hbody : k.body with
    | text t => exact hnever stack k t hb hbody
    | code t => simp [Task.fault?, hbody] at hf
    | crossReference kind => simp [Task.fault?, hbody] at hf
    | reference n =>
      simp only [Task.fault?, hbody, Option.map_eq_some_iff, Fault.mk.injEq] at hf
      obtain ⟨cause, hcause, rfl, -⟩ := hf
      exact referenceCause?_ne_text w _ stack n t hcause
  | definition stack e =>
    obtain ⟨-, d, full, hd, hrefers, he⟩ := hb.met.placed
    obtain ⟨hkind, hfault⟩ := kind_of_fault he hf
    cases hfault
    exact ⟨d, full, e, hd, hrefers, he, hkind, rfl, rfl⟩

/-- A name that is announced as code and opened as prose, a reference that is cut at its line, and a
file that ends in its body. -/
def reopened : Text := "p@d n\n@[t@|i\n@]@o f @\x7bx@<\n n @> @| a  b\n@<n@>"

def reopenedChunks : List Chunk :=
  [{ Chunk.ofKind .anonymous [] with
      commands := [⟨.text "p", ⟨"m.w", 1⟩⟩]
      location := ⟨"m.w", 1⟩ },
    { Chunk.ofKind .document "n" with
      commands := [⟨.text "t\n", ⟨"m.w", 2⟩⟩]
      options := ["n"]
      location := ⟨"m.w", 2⟩ },
    { Chunk.ofKind .output "f" with
      commands := [⟨.code "x \n", ⟨"m.w", 3⟩⟩, ⟨.reference "n", ⟨"m.w", 5⟩⟩]
      options := ["f"]
      identifiers := ["a", "b"]
      location := ⟨"m.w", 3⟩ }]

theorem definedNames_reopened : Web.definedNames reopenedChunks = ["n"] :=
  List.mergeSort_of_pairwise (by decide)

theorem load_wellFormed_textless_reopened :
    let w := Web.ofChunks "m.w" reopenedChunks
    (Reader.load {} ⟨[], []⟩ "m.w" ⟨reopened, none⟩).chunks = .ok reopenedChunks ∧
      (∀ c ∈ reopenedChunks, c.WellFormed ∧ ¬(c.kind = .anonymous ∧ c.commands = [])) ∧
      (w.chunk 2).kind = .output ∧
      (render w false 2 {}).1 = .error ⟨.textBlock "t\n", ⟨"m.w", 2⟩⟩ ∧
      ∃ d full e, Reaches w 2 d ∧ Refers w d full ∧ e ∈ w.definitions.get full ∧
        (w.chunk e).kind = .document ∧ "t\n" = (w.chunk e).text ∧
          ⟨"m.w", 2⟩ = (w.chunk e).location := by
  intro w
  have hload : (Reader.load {} ⟨[], []⟩ "m.w" ⟨reopened, none⟩).chunks = .ok reopenedChunks := by
    decide
  have hw : w = _ := Web.ofChunks_of_names "m.w" reopenedChunks definedNames_reopened
  have hkind : (w.chunk 2).kind = .output := by
    rw [hw]
    rfl
  have hrender : (render w false 2 {}).1 = .error ⟨.textBlock "t\n", ⟨"m.w", 2⟩⟩ := by
    rw [hw]
    rfl
  obtain ⟨hchunks, htext⟩ := load_wellFormed_textless hload
  exact ⟨hload, hchunks, hkind, hrender, (htext "m.w" false 2 {} hkind).2 _ _ hrender⟩

end Literate.Tangle
