import Literate.Proofs.Tangle.InPlace
import Literate.Proofs.Tangle.Memory
import Literate.Weave

/-! Passes that share a web do not interfere. Renderings and emissions in place change what its
chunks have on record of references, and so do citations; nothing that is rendered, woven or asked
depends on that. After any history of them a web answers as it did when it was built. -/

namespace Literate

namespace Weave

variable {σ : Type} (m : Markup) (w : Web) (take : Consumer σ) (f : Nat → Nat) (g : Nat → List Nat)

@[simp] theorem refOf_withReferences : refOf (w.withReferences f g) = refOf w := by
  funext i
  simp [refOf]

@[simp] theorem chunkData_withReferences (i : Nat) :
    chunkData (w.withReferences f g) i = chunkData w i := by
  simp [chunkData]

@[simp] theorem indexEntries_withReferences (kind : CrossReference) :
    indexEntries (w.withReferences f g) kind = indexEntries w kind := by
  cases kind <;> simp [indexEntries]

@[simp] theorem reference_withReferences (block : Ref → Rendered) (name : Text) (l : Location) :
    reference (w.withReferences f g) take block name l = reference w take block name l := by
  funext r
  simp [reference]

@[simp] theorem prose_withReferences :
    prose m (w.withReferences f g) take = prose m w take := by
  funext c r
  simp [prose, crossReference]

@[simp] theorem code_withReferences (style : Text) :
    code m (w.withReferences f g) take style = code m w take style := by
  funext c r
  simp [code, crossReference]

/-- What a web has on record does not show in its document, whatever becomes of the fragments. -/
theorem generate_withReferences (start : σ) :
    generate m (w.withReferences f g) take start = generate m w take start := by
  have hchunk : chunk m (w.withReferences f g) take = chunk m w take := by
    funext i r
    simp [chunk, block]
  simp [generate, hchunk]

theorem render_withReferences : render m (w.withReferences f g) = render m w := by
  rw [render, render, generate_withReferences]

end Weave

namespace Tangle

open InPlace (Ledger)

/-- A web that is worked with in place, and the files around it. -/
structure Session where
  ledger : Ledger
  tree : FileTree

def Session.act (s : Session) : Act → Session
  | .render marked i => { s with ledger := (InPlace.render marked i s.ledger).2 }
  | .emit o =>
    let e := InPlace.emit o s.ledger s.tree
    ⟨e.memory, e.tree⟩
  | .cite c => { s with ledger.web := s.ledger.web.addReferrer c }
  | .reset => { s with ledger.web := s.ledger.web.resetReferences }

/-- The session that keeps its record in the web. -/
def Workspace.inPlace (w : Web) (s : Workspace) : Session := ⟨s.memory.inPlace w, s.tree⟩

theorem Workspace.act_inPlace (w : Web) (s : Workspace) (a : Act) :
    (s.inPlace w).act a = (s.act w a).inPlace w := by
  cases a with
  | render marked i =>
    have h := congrArg Prod.snd (render_inPlace w marked i s.memory)
    exact congrArg (fun ledger => (⟨ledger, s.tree⟩ : Session)) h
  | emit o =>
    have h := emit_inPlace w o s.memory s.tree
    exact congrArg (fun e => (⟨e.memory, e.tree⟩ : Session)) h
  | cite c =>
    have h := w.addReferrer_recorded s.memory.citations c
    exact congrArg (fun web => (⟨⟨web, s.memory.names⟩, s.tree⟩ : Session)) h
  | reset =>
    have h := w.resetReferences_recorded s.memory.citations
    exact congrArg (fun web => (⟨⟨web, s.memory.names⟩, s.tree⟩ : Session)) h

/-- Whatever is done in place, the web is the one that was there, with what is remembered of it on
record. -/
theorem Workspace.foldl_act_inPlace (w : Web) (s : Workspace) (acts : List Act) :
    acts.foldl Session.act (s.inPlace w) = (acts.foldl (Workspace.act w) s).inPlace w := by
  induction acts generalizing s with
  | nil => rfl
  | cons a acts ih => rw [List.foldl_cons, act_inPlace, ih, List.foldl_cons]

/-- What can be asked of a web. A rendering comes after others, of which there are names. -/
inductive Query where
  | render (marked : Bool) (names : List Text) (i : Nat)
  | weave (m : Weave.Markup)
  | resolve (name : Text)
  | lookup (name : Text)
  | fullName (i : Nat)
  | displayName (i : Nat)
  | documentText (name : Text)
  | usedBy (i : Nat)
  | files
  | macros
  | userIds

namespace Query

def Answer : Query → Type
  | render _ _ _ => Except Fault Text
  | weave _ => Except Weave.Error Text × List Log.Record
  | resolve _ => Except Fault Text
  | lookup _ => Except Fault (List Nat)
  | fullName _ => Text
  | displayName _ => Text
  | documentText _ => Except Fault (Option Text)
  | usedBy _ => List Nat
  | files => List Nat
  | macros => Index
  | userIds => Index

/-- The answer of a web as it stands. -/
def answer (w : Web) : (q : Query) → q.Answer
  | render marked names i => (InPlace.render marked i ⟨w, names⟩).1
  | weave m => Weave.render m w
  | resolve name => w.resolve name
  | lookup name => w.lookup name
  | fullName i => w.fullName i
  | displayName i => w.displayName i
  | documentText name => w.documentText name
  | usedBy i => w.usedBy i
  | files => w.files
  | macros => w.macros
  | userIds => w.userIds

/-- No answer but a rendering looks at what is on record. -/
theorem answer_withReferences (w : Web) (f : Nat → Nat) (g : Nat → List Nat) (q : Query)
    (hq : ∀ marked names i, q ≠ .render marked names i) :
    q.answer (w.withReferences f g) = q.answer w := by
  cases q with
  | render marked names i => exact absurd rfl (hq marked names i)
  | weave m => exact Weave.render_withReferences m w f g
  | resolve name => exact w.resolve_withReferences f g name
  | lookup name => exact w.lookup_withReferences f g name
  | fullName i => exact w.fullName_withReferences f g i
  | displayName i => exact w.displayName_withReferences f g i
  | documentText name => exact w.documentText_withReferences f g name
  | usedBy i => exact w.usedBy_withReferences f g i
  | files => exact w.files_withReferences f g
  | macros => exact w.macros_withReferences f g
  | userIds => exact w.userIds_withReferences f g

/-- A rendering adds to what is on record, but what it yields does not depend on it. -/
theorem answer_render_recorded (w : Web) (cs : Citations) (marked : Bool) (names : List Text)
    (i : Nat) : (Query.render marked names i).answer (w.recorded cs) =
      (Tangle.render w marked i {}).1 := by
  have hcode := congrArg Prod.fst (render_inPlace w marked i ⟨cs, names⟩)
  exact hcode.trans (render_of_memory w marked i _ _)

/-- What citations leave on record has no influence on an answer. -/
theorem answer_recorded (w : Web) (cs ds : Citations) (q : Query) :
    q.answer (w.recorded cs) = q.answer (w.recorded ds) := by
  by_cases hq : ∃ marked names i, q = .render marked names i
  · obtain ⟨marked, names, i, rfl⟩ := hq
    rw [answer_render_recorded, answer_render_recorded]
  · have hne : ∀ marked names i, q ≠ .render marked names i := fun marked names i h =>
      hq ⟨marked, names, i, h⟩
    rw [Web.recorded, Web.recorded, answer_withReferences w _ _ q hne,
      answer_withReferences w _ _ q hne]

end Query

/-- Whatever is rendered, emitted, cited and forgotten in a web, of its chunks only the references
to them and their origins change, and every question is answered as it was when the web was built. -/
theorem Session.answer_after_acts (path : Text) (chunks : List Chunk) (tree : FileTree)
    (acts : List Act) :
    let w := Web.ofChunks path chunks
    let s := acts.foldl Session.act ⟨{ web := w }, tree⟩
    (∃ references referencedBy, s.ledger.web = w.withReferences references referencedBy) ∧
    ∀ q : Query, q.answer s.ledger.web = q.answer w := by
  intro w s
  have hbuilt : w.recorded [] = w := Web.recorded_ofChunks path chunks
  have hstart : (⟨{ web := w }, tree⟩ : Session) = Workspace.inPlace w { tree } := by
    rw [Workspace.inPlace, Memory.inPlace, hbuilt]
  have hweb : s.ledger.web =
      w.recorded (acts.foldl (Workspace.act w) { tree }).memory.citations := by
    simp only [s, hstart, Workspace.foldl_act_inPlace]
    rfl
  refine ⟨⟨_, _, hweb⟩, fun q => ?_⟩
  rw [hweb, Query.answer_recorded w _ [] q, hbuilt]

end Tangle

end Literate
