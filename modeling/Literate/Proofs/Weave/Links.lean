import Literate.Proofs.Weave.Consumers
import Literate.Proofs.Web.Indices
import Literate.Reader
import Mathlib.Data.List.Nodup

/-! The links of a document. Whatever number a link has is that of one chunk of code, and the block
of the chunk is the anchor of the link if the document shows it. -/

namespace Literate

/-- A chunk that a document shows in a block of its own. -/
def Chunk.framed (c : Chunk) : Bool := c.isCode && c.shown

theorem Chunk.isCode_of_framed {c : Chunk} (h : c.framed = true) : c.isCode = true :=
  ((Bool.and_eq_true _ _).mp h).1

theorem Chunk.framed_iff {c : Chunk} (h : c.isCode = true) :
    c.framed = true ↔ ¬(c.kind = .output ∧ c.woven = false) := by
  unfold framed shown
  cases hkind : c.kind <;> simp_all [isCode, Kind.isCode]

theorem Chunk.named_of_isCode {c : Chunk} (hcode : c.isCode = true)
    (hdef : c.isDefinition = true) : c.kind = .named := by
  cases hkind : c.kind <;> simp_all [isCode, Kind.isCode, isDefinition, Kind.isDefinition]

namespace Weave

namespace Piece

/-- The chunks that the renderer of a piece is given to refer to. -/
def refs : Piece → List Ref
  | .beginCode data => data.usedBy
  | .endCode data => data.usedBy
  | .beginFile data => data.usedBy
  | .endFile data => data.usedBy
  | .ref r => [r]
  | .codeRef r => [r]
  | .index _ entries => entries.flatMap IndexEntry.refs
  | _ => []

/-- The references by name, and those of the index of names. -/
def nameRefs : Piece → List Ref
  | .ref r => [r]
  | .codeRef r => [r]
  | .index .macros entries => entries.flatMap IndexEntry.refs
  | _ => []

/-- The number of the chunk whose block a piece begins. -/
def anchor? : Piece → Option Nat
  | .beginCode data => some data.seq
  | .beginFile data => some data.seq
  | _ => none

end Piece

section Refs

variable {path : Text} {chunks : List Chunk}

/-- A reference has the number of a chunk, or no number. -/
structure Numbered (w : Web) (p : Piece) : Prop where
  refs : ∀ r ∈ p.refs, r.seq ≠ 0 → ∃ i, w.seq i = r.seq
  nameRefs : ∀ r ∈ p.nameRefs, r.seq ≠ 0 → ∃ i, w.seq i = r.seq ∧ (w.chunk i).isDefinition = true

theorem numbered_of_nil {w : Web} {p : Piece} (h : p.refs = []) (h' : p.nameRefs = []) :
    Numbered w p := ⟨by simp [h], by simp [h']⟩

theorem isDefinition_of_lookup {name : Text} {defs : List Nat} {d : Nat}
    (h : (Web.ofChunks path chunks).lookup name = .ok defs) (hd : d ∈ defs) :
    ((Web.ofChunks path chunks).chunk d).isDefinition = true := by
  unfold Web.lookup at h
  split at h
  next full _ =>
    rw [← Except.ok.inj h] at hd
    exact (((Web.groups_ofChunks path chunks full).mem d).1 hd).1
  · cases h

theorem numbered_referencePiece {block : Ref → Piece} (hblock : block = .ref ∨ block = .codeRef)
    {name : Text} {l : Location} {p : Piece}
    (h : referencePiece (Web.ofChunks path chunks) block name l = .ok p) :
    Numbered (Web.ofChunks path chunks) p := by
  have hrefs : ∀ r, (block r).refs = [r] ∧ (block r).nameRefs = [r] := by
    rcases hblock with rfl | rfl <;> exact fun r => ⟨rfl, rfl⟩
  unfold referencePiece at h
  split at h
  · cases h
  · cases h
    constructor <;> simp [hrefs]
  next first rest hlookup =>
    cases h
    have hdef := isDefinition_of_lookup hlookup List.mem_cons_self
    constructor
    · simp [hrefs]
    · simpa [hrefs] using fun _ => ⟨first, rfl, hdef⟩

theorem numbered_index (kind : CrossReference) : Numbered (Web.ofChunks path chunks)
    (.index kind (indexEntries (Web.ofChunks path chunks) kind)) := by
  cases kind with
  | files =>
    refine ⟨fun r hr _ => ?_, by simp [Piece.nameRefs]⟩
    obtain ⟨entry, hentry, hr⟩ := List.mem_flatMap.1 hr
    obtain ⟨i, -, rfl⟩ := List.mem_map.1 hentry
    obtain rfl := List.mem_singleton.1 hr
    exact ⟨i, rfl⟩
  | identifiers =>
    refine ⟨fun r hr _ => ?_, by simp [Piece.nameRefs]⟩
    obtain ⟨entry, hentry, hr⟩ := List.mem_flatMap.1 hr
    obtain ⟨⟨id, places⟩, -, rfl⟩ := List.mem_map.1 hentry
    obtain ⟨i, -, rfl⟩ := List.mem_map.1 hr
    exact ⟨i, rfl⟩
  | macros =>
    have hlisted : ∀ r ∈ (indexEntries (Web.ofChunks path chunks) .macros).flatMap IndexEntry.refs,
        ∃ i, (Web.ofChunks path chunks).seq i = r.seq ∧
          ((Web.ofChunks path chunks).chunk i).isDefinition = true := by
      intro r hr
      obtain ⟨entry, hentry, hr⟩ := List.mem_flatMap.1 hr
      obtain ⟨⟨full, defs⟩, hdefs, rfl⟩ := List.mem_map.1 hentry
      obtain ⟨d, hd, rfl⟩ := List.mem_map.1 hr
      obtain ⟨rfl, -⟩ := (Web.macros_ofChunks path chunks full defs).1 hdefs
      exact ⟨d, rfl, (((Web.groups_ofChunks path chunks full).mem d).1 hd).1⟩
    exact ⟨fun r hr _ => (hlisted r hr).imp fun _ h => h.1, fun r hr _ => hlisted r hr⟩

theorem numbered_prosePiece {c : Command} {p : Piece}
    (h : prosePiece (Web.ofChunks path chunks) c = .ok p) :
    Numbered (Web.ofChunks path chunks) p := by
  unfold prosePiece at h
  split at h
  · cases h
    exact numbered_of_nil rfl rfl
  · cases h
    exact numbered_of_nil rfl rfl
  · split at h
    · cases h
    · cases h
      exact numbered_of_nil rfl rfl
    · exact numbered_referencePiece (.inl rfl) h
  · cases h
    exact numbered_index _

theorem numbered_codePiece {style : Text} {c : Command} {p : Piece}
    (h : codePiece (Web.ofChunks path chunks) style c = .ok p) :
    Numbered (Web.ofChunks path chunks) p := by
  unfold codePiece at h
  split at h
  · cases h
    exact numbered_of_nil rfl rfl
  · cases h
    exact numbered_of_nil rfl rfl
  · exact numbered_referencePiece (.inr rfl) h
  · cases h
    exact numbered_index _

theorem numbered_frame {w : Web} {i : Nat} {p : Piece} (hrefs : p.refs = (chunkData w i).usedBy)
    (hnames : p.nameRefs = []) : Numbered w p := by
  refine ⟨fun r hr _ => ?_, by simp [hnames]⟩
  rw [hrefs] at hr
  obtain ⟨u, -, rfl⟩ := List.mem_map.1 hr
  exact ⟨u, rfl⟩

theorem numbered_pieces {p : Piece} (h : .ok p ∈ pieces (Web.ofChunks path chunks)) :
    Numbered (Web.ofChunks path chunks) p := by
  obtain ⟨i, -, h⟩ := List.mem_flatMap.1 h
  have hblock : ∀ first last : ChunkData → Piece,
      (∀ d, (first d).refs = d.usedBy ∧ (first d).nameRefs = []) →
      (∀ d, (last d).refs = d.usedBy ∧ (last d).nameRefs = []) →
      .ok p ∈ blockPieces (Web.ofChunks path chunks) first last i →
      Numbered (Web.ofChunks path chunks) p := by
    intro first last hfirst hlast h
    simp only [blockPieces, List.mem_append, List.mem_cons, List.not_mem_nil, or_false,
      Except.ok.injEq] at h
    rcases h with (rfl | h) | rfl
    · exact numbered_frame (hfirst _).1 (hfirst _).2
    · obtain ⟨c, -, hc⟩ := List.mem_map.1 h
      exact numbered_codePiece hc
    · exact numbered_frame (hlast _).1 (hlast _).2
  unfold chunkPieces at h
  split at h
  · obtain ⟨c, -, hc⟩ := List.mem_map.1 h
    exact numbered_prosePiece hc
  · exact hblock _ _ (fun _ => ⟨rfl, rfl⟩) (fun _ => ⟨rfl, rfl⟩) h
  · split at h
    · exact hblock _ _ (fun _ => ⟨rfl, rfl⟩) (fun _ => ⟨rfl, rfl⟩) h
    · cases h
  · cases h

end Refs

section Anchors

def anchorOf : Except Fault Piece → Option Nat
  | .ok p => p.anchor?
  | .error _ => none

variable {w : Web}

theorem anchorOf_referencePiece {block : Ref → Piece} (hblock : ∀ r, (block r).anchor? = none)
    (name : Text) (l : Location) : anchorOf (referencePiece w block name l) = none := by
  unfold referencePiece
  split
  · rfl
  · exact hblock _
  · exact hblock _

theorem anchorOf_prosePiece (c : Command) : anchorOf (prosePiece w c) = none := by
  unfold prosePiece
  split
  · rfl
  · rfl
  · split
    · rfl
    · rfl
    · exact anchorOf_referencePiece (fun _ => rfl) _ _
  · rfl

theorem anchorOf_codePiece (style : Text) (c : Command) :
    anchorOf (codePiece w style c) = none := by
  unfold codePiece
  split
  · rfl
  · rfl
  · exact anchorOf_referencePiece (fun _ => rfl) _ _
  · rfl

theorem anchors_chunkPieces (i : Nat) : (chunkPieces w i).filterMap anchorOf =
    if (w.chunk i).framed then [w.seq i] else [] := by
  have hblock : ∀ first last : ChunkData → Piece, (∀ d, (first d).anchor? = some d.seq) →
      (∀ d, (last d).anchor? = none) →
      (blockPieces w first last i).filterMap anchorOf = [w.seq i] := by
    intro first last hfirst hlast
    have hopening : anchorOf (.ok (first (chunkData w i))) = some (w.seq i) := hfirst _
    have hclosing : anchorOf (.ok (last (chunkData w i))) = none := hlast _
    simp [blockPieces, hopening, hclosing, List.filterMap_map, anchorOf_codePiece]
  unfold chunkPieces Chunk.framed Chunk.isCode Chunk.shown
  cases (w.chunk i).kind with
  | anonymous => simp [List.filterMap_map, anchorOf_prosePiece, Chunk.Kind.isCode]
  | named => exact hblock _ _ (fun _ => rfl) (fun _ => rfl)
  | output =>
    cases (w.chunk i).woven with
    | true => exact hblock _ _ (fun _ => rfl) (fun _ => rfl)
    | false => rfl
  | document => rfl

/-- The anchors of a document are the numbers of the chunks that it shows in blocks. -/
theorem anchors_pieces (w : Web) : (pieces w).filterMap anchorOf =
    ((List.range w.size).filter fun i => (w.chunk i).framed).map w.seq := by
  rw [pieces, List.filterMap_flatMap]
  induction List.range w.size with
  | nil => rfl
  | cons i is ih =>
    rw [List.flatMap_cons, ih, anchors_chunkPieces]
    cases hframed : (w.chunk i).framed <;> simp [hframed]

theorem count_anchors (path : Text) (chunks : List Chunk) {i : Nat}
    (hi : i < (Web.ofChunks path chunks).size) :
    ((pieces (Web.ofChunks path chunks)).filterMap anchorOf).count
        ((Web.ofChunks path chunks).seq i) =
      if ((Web.ofChunks path chunks).chunk i).framed then 1 else 0 := by
  have hframed : ∀ {j}, ((Web.ofChunks path chunks).chunk j).framed = true →
      (Web.ofChunks path chunks).seq j ≠ 0 := fun h =>
    (Web.seq_ne_zero_iff path chunks).2 (Chunk.isCode_of_framed h)
  have hnodup : (((List.range (Web.ofChunks path chunks).size).filter fun i =>
      ((Web.ofChunks path chunks).chunk i).framed).map (Web.ofChunks path chunks).seq).Nodup := by
    refine List.Nodup.map_on (fun j hj k _ hseq => ?_) (List.nodup_range.filter _)
    exact Web.seq_injective path chunks (hframed (List.mem_filter.1 hj).2) hseq
  rw [anchors_pieces, hnodup.count]
  refine if_congr ?_ rfl rfl
  simp only [List.mem_map, List.mem_filter, List.mem_range]
  constructor
  · rintro ⟨j, ⟨-, hj⟩, hseq⟩
    rwa [← Web.seq_injective path chunks (hframed hj) hseq]
  · exact fun hi' => ⟨i, ⟨hi, hi'⟩, rfl⟩

end Anchors

theorem exists_map_ok {ε α : Type} {xs : List (Except ε α)} (h : ∀ x ∈ xs, ∃ a, x = .ok a) :
    ∃ as : List α, xs = as.map .ok := by
  induction xs with
  | nil => exact ⟨[], rfl⟩
  | cons x xs ih =>
    obtain ⟨a, rfl⟩ := h x (by simp)
    obtain ⟨as, rfl⟩ := ih fun y hy => h y (by simp [hy])
    exact ⟨a :: as, rfl⟩

/-- A document that is rendered is made of pieces that all resolve and render. -/
theorem pieces_of_render {m : Markup} {w : Web} {doc : Text} (h : (render m w).1 = .ok doc) :
    ∃ (ps : List Piece) (texts : List Text), pieces w = ps.map .ok ∧
      ps.map (Piece.render m) = texts.map .ok ∧ doc = m.finish texts.flatten := by
  rw [render_eq] at h
  split at h
  · cases h
  next hnone =>
    have hdoc := (Except.ok.inj h).symm
    rw [List.findSome?_map, List.findSome?_eq_none_iff] at hnone
    have hok : ∀ q ∈ pieces w, ∃ p text, q = .ok p ∧ p.render m = .ok text := by
      intro q hq
      have herror : (yieldOf m q).error = none := hnone q hq
      cases q with
      | error f => cases herror
      | ok p =>
        rw [yieldOf] at herror
        cases hrender : p.render m with
        | error e =>
          rw [hrender] at herror
          cases herror
        | ok text => exact ⟨p, text, rfl, hrender⟩
    obtain ⟨ps, hps⟩ := exists_map_ok fun q hq => (hok q hq).imp fun p h => h.choose_spec.1
    have htexts : ∀ block ∈ ps.map (Piece.render m), ∃ text, block = .ok text := by
      intro block hblock
      obtain ⟨p, hp, rfl⟩ := List.mem_map.1 hblock
      obtain ⟨p', text, heq, hrender⟩ := hok (.ok p) (hps ▸ List.mem_map_of_mem hp)
      cases heq
      exact ⟨text, hrender⟩
    obtain ⟨texts, htexts⟩ := exists_map_ok htexts
    refine ⟨ps, texts, hps, htexts, hdoc.trans ?_⟩
    have hyields : (pieces w).map (yieldOf m) = texts.map .ofText := by
      have hrendered : (ps.map (Piece.render m)).map Yield.ofRendered = _ :=
        congrArg (List.map Yield.ofRendered) htexts
      rw [List.map_map, List.map_map] at hrendered
      rw [hps, List.map_map]
      exact hrendered
    rw [hyields, List.flatMap_map]
    simp [Yield.ofText]

/-- Links lead to one chunk. The number of a link is that of exactly one chunk, which is code, and a
definition if the link goes by its name; and the document has exactly one block that begins the chunk,
unless it is a file that is not to be woven, of which there is none. -/
theorem links_anchored (m : Markup) (path : Text) (chunks : List Chunk) {doc : Text}
    (h : (render m (Web.ofChunks path chunks)).1 = .ok doc) :
    let w := Web.ofChunks path chunks
    ∃ (ps : List Piece) (texts : List Text), pieces w = ps.map .ok ∧
      ps.map (Piece.render m) = texts.map .ok ∧ doc = m.finish texts.flatten ∧
      ∀ p ∈ ps, ∀ r ∈ p.refs, r.seq ≠ 0 →
        ∃ i < w.size, w.seq i = r.seq ∧ (∀ j < w.size, w.seq j = r.seq → j = i) ∧
          (w.chunk i).isCode = true ∧ (r ∈ p.nameRefs → (w.chunk i).kind = .named) ∧
          (ps.filterMap Piece.anchor?).count r.seq =
            if (w.chunk i).kind = .output ∧ (w.chunk i).woven = false then 0 else 1 := by
  intro w
  obtain ⟨ps, texts, hps, htexts, hdoc⟩ := pieces_of_render h
  refine ⟨ps, texts, hps, htexts, hdoc, fun p hp r hr hseq => ?_⟩
  have hnumbered : Numbered w p := numbered_pieces (hps ▸ List.mem_map_of_mem hp)
  obtain ⟨i, hi⟩ := hnumbered.refs r hr hseq
  have hcode : (w.chunk i).isCode = true := (Web.seq_ne_zero_iff path chunks).1 (hi ▸ hseq)
  have hunique : ∀ j, w.seq j = r.seq → j = i := fun j hj =>
    Web.seq_injective path chunks (hj ▸ hseq) (hj.trans hi.symm)
  have hsize : i < w.size := Web.lt_size_of_seq (hi ▸ hseq)
  have hanchors : ps.filterMap Piece.anchor? = (pieces w).filterMap anchorOf := by
    rw [hps, List.filterMap_map]
    rfl
  refine ⟨i, hsize, hi, fun j _ => hunique j, hcode, fun hname => ?_, ?_⟩
  · obtain ⟨d, hd, hdef⟩ := hnumbered.nameRefs r hname hseq
    obtain rfl := hunique d hd
    exact Chunk.named_of_isCode hcode hdef
  · rw [hanchors, ← hi, count_anchors path chunks hsize]
    exact (if_congr (Chunk.framed_iff hcode) rfl rfl).trans (ite_not ..)

/-- A file and a page refer to a definition: the link goes to the one block that begins it. -/
theorem links_anchored_definition :
    let chunks : List Chunk :=
      [{ kind := .anonymous, name := [], commands := [⟨.reference "a", ⟨"m.w", 1⟩⟩] },
        { kind := .output, name := "f", commands := [⟨.reference "a", ⟨"m.w", 2⟩⟩] },
        { kind := .named, name := "a", commands := [⟨.code "x", ⟨"m.w", 3⟩⟩] }]
    let w := Web.ofChunks "m.w" chunks
    (∃ doc, (render html w).1 = .ok doc) ∧
      ∃ ps : List Piece, pieces w = ps.map .ok ∧ .ref ⟨"a", 2⟩ ∈ ps ∧
        (ps.filterMap Piece.anchor?).count 2 = 1 := by
  intro chunks w
  have hnames : Web.definedNames chunks = [Text.ofString "a"] :=
    List.mergeSort_of_pairwise (by decide)
  have hw : w = _ := Web.ofChunks_of_names "m.w" chunks hnames
  obtain ⟨doc, hdoc⟩ : ∃ doc, (render html w).1 = .ok doc := by
    rw [hw]
    exact ⟨_, rfl⟩
  obtain ⟨ps, -, hps, -, -, hlinks⟩ := links_anchored html "m.w" chunks hdoc
  have href : .ref ⟨"a", 2⟩ ∈ ps := by
    have hfirst : (pieces w).head? = some (.ok (.ref ⟨"a", 2⟩)) := by
      rw [hw]
      rfl
    have hmem := List.mem_of_head? hfirst
    rw [hps] at hmem
    simpa using hmem
  obtain ⟨i, -, -, -, -, hnamed, hcount⟩ := hlinks _ href ⟨"a", 2⟩ (by decide) (by decide)
  rw [if_neg fun hfile => by simp [hnamed (by decide)] at hfile] at hcount
  exact ⟨⟨doc, hdoc⟩, ps, hps, href, hcount⟩

/-- The index of files links to a file that is not to be woven, for which there is no block. -/
theorem file_link_without_anchor :
    ∃ chunks, (Reader.load {} ⟨[], []⟩ "m.w" ⟨"@o -noweave f @\x7bx@\x7d\n@f\n", none⟩).chunks =
        .ok chunks ∧
      (render html (Web.ofChunks "m.w" chunks)).1 =
        .ok ("\n<dl>\n<dt><tt>f</tt></dt><dd>&rarr;<a href=\"#litweb_1\"><em>f (1)</em></a></dd>\n" ++
          "</dl>\n\n") ∧
      .ok (.index .files [⟨"f", [⟨"f", 1⟩]⟩]) ∈ pieces (Web.ofChunks "m.w" chunks) ∧
      (pieces (Web.ofChunks "m.w" chunks)).filterMap anchorOf = [] := by
  let chunks : List Chunk :=
    [{ kind := .output, name := "f", options := ["-noweave", "f"], woven := false
       commands := [⟨.code "x", ⟨"m.w", 1⟩⟩], location := ⟨"m.w", 1⟩ },
      { kind := .anonymous, name := [], location := ⟨"m.w", 1⟩
        commands := [⟨.text "\n", ⟨"m.w", 1⟩⟩, ⟨.crossReference .files, ⟨"m.w", 2⟩⟩,
          ⟨.text "\n", ⟨"m.w", 2⟩⟩] }]
  have hnames : Web.definedNames chunks = [] := List.mergeSort_of_pairwise (by decide)
  have hw := Web.ofChunks_of_names "m.w" chunks hnames
  refine ⟨chunks, by decide, ?_, ?_, ?_⟩
  · rw [hw]
    decide +kernel
  · rw [hw]
    exact List.mem_cons_of_mem _ List.mem_cons_self
  · rw [hw]
    rfl

end Weave

end Literate
