import Literate.Weave

/-! What a weave hands over. A web has one sequence of pieces, whatever the markup and the consumer;
each of them is rendered and handed over in turn until the consumer stops or one of them fails. -/

namespace Literate

/-- A chunk whose commands are woven where it stands. -/
def Chunk.shown (c : Chunk) : Bool :=
  match c.kind with
  | .anonymous => true
  | .named => true
  | .output => c.woven
  | .document => false

namespace Weave

/-- A step of a document before it is rendered, with all that the renderer of its block is given. -/
inductive Piece where
  | plain (text : Text)
  | prose (data : TextData)
  | beginCode (data : ChunkData)
  | endCode (data : ChunkData)
  | beginFile (data : ChunkData)
  | endFile (data : ChunkData)
  | code (text style : Text)
  | ref (r : Ref)
  | codeRef (r : Ref)
  | index (kind : CrossReference) (entries : List IndexEntry)
deriving DecidableEq, Repr

def Piece.render (m : Markup) : Piece → Rendered
  | .plain text => .ok text
  | .prose data =>
    match m.text with
    | some block => block data
    | none => .ok data.text
  | .beginCode data => m.beginCode data
  | .endCode data => m.endCode data
  | .beginFile data => m.beginFile data
  | .endFile data => m.endFile data
  | .code text style => m.code ⟨m.quote text, style⟩
  | .ref r => m.ref r
  | .codeRef r => m.refCode r
  | .index kind entries => indexBlock m kind entries

section Pieces

variable (w : Web)

def referencePiece (block : Ref → Piece) (name : Text) (location : Location) :
    Except Fault Piece :=
  match w.lookup name with
  | .error f => .error (f.locate location)
  | .ok [] => .ok (block ⟨name, 0⟩)
  | .ok (first :: _) => .ok (block ⟨w.fullName first, w.seq first⟩)

def prosePiece (c : Command) : Except Fault Piece :=
  match c.body with
  | .text text => .ok (.prose ⟨text, c.location⟩)
  | .code text => .ok (.prose ⟨text, c.location⟩)
  | .reference name =>
    match w.documentText name with
    | .error f => .error (f.locate c.location)
    | .ok (some text) => .ok (.plain text)
    | .ok none => referencePiece w .ref name c.location
  | .crossReference kind => .ok (.index kind (indexEntries w kind))

def codePiece (style : Text) (c : Command) : Except Fault Piece :=
  match c.body with
  | .code text => .ok (.code text style)
  | .text text => .ok (.plain text)
  | .reference name => referencePiece w .codeRef name c.location
  | .crossReference kind => .ok (.index kind (indexEntries w kind))

def blockPieces (opening closing : ChunkData → Piece) (i : Nat) : List (Except Fault Piece) :=
  .ok (opening (chunkData w i)) :: (w.chunk i).commands.map (codePiece w (w.chunk i).style) ++
    [.ok (closing (chunkData w i))]

def chunkPieces (i : Nat) : List (Except Fault Piece) :=
  match (w.chunk i).kind with
  | .anonymous => (w.chunk i).commands.map (prosePiece w)
  | .named => blockPieces w .beginCode .endCode i
  | .output => if (w.chunk i).woven then blockPieces w .beginFile .endFile i else []
  | .document => []

/-- The pieces of a web, with a fault in the place of each reference that cannot be resolved. -/
def pieces : List (Except Fault Piece) := (List.range w.size).flatMap (chunkPieces w)

end Pieces

/-- What is handed over for a rendered block. -/
def Yield.ofRendered : Rendered → Yield
  | .ok text => .ofText text
  | .error _ => .ofError .layout

def yieldOf (m : Markup) : Except Fault Piece → Yield
  | .ok p => .ofRendered (p.render m)
  | .error f => .ofError (.fault f)

section Feed

variable {σ : Type} (take : Consumer σ)

/-- Hands one element to a consumer that wants more. -/
def offer (r : σ × Bool) (y : Yield) : σ × Bool :=
  if r.2 then ((take y r.1).1, (take y r.1).2 && y.error.isNone) else r

def feed (ys : List Yield) (r : σ × Bool) : σ × Bool := ys.foldl (offer take) r

theorem feed_append (ys zs : List Yield) (r : σ × Bool) :
    feed take (ys ++ zs) r = feed take zs (feed take ys r) := List.foldl_append

theorem feed_stopped (ys : List Yield) (s : σ) : feed take ys (s, false) = (s, false) := by
  induction ys with
  | nil => rfl
  | cons y ys ih => exact ih

/-- The state of the consumer and whether the weave goes on. -/
def Course.outcome (r : Course σ) : σ × Bool := (r.state, r.going)

/-- A step of a weave that goes on hands over the elements of a list. -/
def Hands (ys : List Yield) (step : Course σ → Course σ) : Prop :=
  ∀ r, r.going = true → (step r).outcome = feed take ys r.outcome

variable {take} {m : Markup} {w : Web}

theorem Hands.andThen {ys : List Yield} {step : Course σ → Course σ} (h : Hands take ys step)
    (r : Course σ) : (r.andThen step).outcome = feed take ys r.outcome := by
  unfold Course.andThen
  cases hr : r.going with
  | true => exact h r hr
  | false => simp [Course.outcome, hr, feed_stopped]

theorem outcome_forEach {α : Type} {step : α → Course σ → Course σ} {ys : α → List Yield}
    (h : ∀ a, Hands take (ys a) (step a)) (items : List α) (r : Course σ) :
    (r.forEach step items).outcome = feed take (items.flatMap ys) r.outcome := by
  induction items generalizing r with
  | nil => rfl
  | cons a items ih =>
    rw [List.flatMap_cons, feed_append, ← (h a).andThen]
    exact ih _

theorem hands_give (text : Text) : Hands take [.ofText text] (Course.give take text) := by
  intro r hr
  simp [feed, offer, Course.outcome, Course.give, Yield.ofText, hr]

theorem hands_abort (e : Error) : Hands take [.ofError e] (Course.abort take e) := by
  intro r hr
  simp [feed, offer, Course.outcome, Course.abort, Yield.ofError, hr]

theorem hands_giveRendered (block : Rendered) :
    Hands take [.ofRendered block] (Course.giveRendered take block) := by
  cases block with
  | ok text => exact hands_give text
  | error e => exact hands_abort .layout

theorem hands_reference {render : Ref → Rendered} {block : Ref → Piece}
    (hblock : ∀ r, (block r).render m = render r) (name : Text) (l : Location) :
    Hands take [yieldOf m (referencePiece w block name l)] (reference w take render name l) := by
  intro r hr
  have hshown : ∀ (found : Ref) (r : Course σ), r.going = true →
      (r.giveRendered take (render found)).outcome =
        feed take [yieldOf m (.ok (block found))] r.outcome := by
    intro found r hr
    rw [← hblock]
    exact hands_giveRendered _ r hr
  unfold reference referencePiece
  cases w.lookup name with
  | error f => exact hands_abort _ r hr
  | ok defs =>
    cases defs with
    | nil => exact hshown ⟨name, 0⟩ { r with log := _ } hr
    | cons first rest => exact hshown _ r hr

theorem hands_proseRun (text : Text) (l : Location) :
    Hands take [yieldOf m (.ok (.prose ⟨text, l⟩))] (proseRun m take text l) := by
  intro r hr
  unfold proseRun yieldOf Piece.render
  cases m.text with
  | some block => exact hands_giveRendered _ r hr
  | none => exact hands_give _ r hr

theorem hands_prose (c : Command) : Hands take [yieldOf m (prosePiece w c)] (prose m w take c) := by
  intro r hr
  have href : ∀ r, (Piece.ref r).render m = m.ref r := fun _ => rfl
  unfold prose prosePiece
  cases c.body with
  | text text => exact hands_proseRun _ _ r hr
  | code text => exact hands_proseRun _ _ r hr
  | reference name =>
    dsimp only
    cases w.documentText name with
    | error f => exact hands_abort _ r hr
    | ok found =>
      cases found with
      | some text => exact hands_give _ r hr
      | none => exact hands_reference href _ _ r hr
  | crossReference kind => exact hands_giveRendered _ r hr

theorem hands_code (style : Text) (c : Command) :
    Hands take [yieldOf m (codePiece w style c)] (code m w take style c) := by
  intro r hr
  have href : ∀ r, (Piece.codeRef r).render m = m.refCode r := fun _ => rfl
  unfold code codePiece
  cases c.body with
  | code text => exact hands_giveRendered _ r hr
  | text text => exact hands_give _ r hr
  | reference name => exact hands_reference href _ _ r hr
  | crossReference kind => exact hands_giveRendered _ r hr

theorem hands_block {opening closing : ChunkData → Rendered} {first last : ChunkData → Piece}
    (hfirst : ∀ d, (first d).render m = opening d) (hlast : ∀ d, (last d).render m = closing d)
    (i : Nat) : Hands take ((blockPieces w first last i).map (yieldOf m))
      (block m w take opening closing i) := by
  intro r hr
  have hys : (blockPieces w first last i).map (yieldOf m) =
      [.ofRendered (opening (chunkData w i))] ++
        (w.chunk i).commands.flatMap (fun c => [yieldOf m (codePiece w (w.chunk i).style c)]) ++
        [.ofRendered (closing (chunkData w i))] := by
    rw [← hfirst, ← hlast, ← List.map_eq_flatMap]
    simp [blockPieces, yieldOf]
  rw [hys, feed_append, feed_append, ← hands_giveRendered _ r hr,
    ← outcome_forEach (hands_code (w.chunk i).style), ← (hands_giveRendered _).andThen]
  rfl

theorem hands_chunk (i : Nat) :
    Hands take ((chunkPieces w i).map (yieldOf m)) (chunk m w take i) := by
  intro r hr
  have hcode : ∀ d, (Piece.beginCode d).render m = m.beginCode d ∧
      (Piece.endCode d).render m = m.endCode d := fun _ => ⟨rfl, rfl⟩
  have hfile : ∀ d, (Piece.beginFile d).render m = m.beginFile d ∧
      (Piece.endFile d).render m = m.endFile d := fun _ => ⟨rfl, rfl⟩
  simp only [chunk, chunkPieces]
  cases (w.chunk i).kind with
  | anonymous =>
    have hprose : ∀ c, Hands take [yieldOf m (prosePiece w c)] (prose m w take c) := hands_prose
    dsimp only
    rw [outcome_forEach hprose, ← List.map_eq_flatMap, List.map_map]
    rfl
  | named => exact hands_block (fun d => (hcode d).1) (fun d => (hcode d).2) i r hr
  | output =>
    cases (w.chunk i).woven with
    | true => exact hands_block (fun d => (hfile d).1) (fun d => (hfile d).2) i r hr
    | false => rfl
  | document => rfl

/-- Every consumer is fed the same sequence of pieces. -/
theorem outcome_generate (m : Markup) (w : Web) (take : Consumer σ) (start : σ) :
    (generate m w take start).outcome = feed take ((pieces w).map (yieldOf m)) (start, true) := by
  rw [pieces, List.map_flatMap]
  exact outcome_forEach hands_chunk _ _

end Feed

end Weave

end Literate
