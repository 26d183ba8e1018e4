import Literate.Proofs.Weave.Consumers
import Literate.Proofs.Web.Resolution
import Literate.Weave.Markups

/-! When a weave fails. The markups that are always there render every block, so a document fails
only at a reference that stands for several names, and at the first of these that it shows. -/

namespace Literate.Weave

/-- The commands that a document shows, in its order. -/
def shownCommands (chunks : List Chunk) : List Command :=
  (chunks.filter Chunk.shown).flatMap Chunk.commands

/-- A reference by an abbreviation that several names complete. -/
def Ambiguous (chunks : List Chunk) (c : Command) : Prop :=
  ∃ name, c.body = .reference name ∧
    ∃ a b, a ≠ b ∧ Web.Completes chunks name a ∧ Web.Completes chunks name b

variable {w : Web} {m : Markup}

section Faults

/-- The fault of a command, wherever it is woven. -/
def commandFault (w : Web) (c : Command) : Option Fault :=
  match c.body with
  | .reference name =>
    match w.lookup name with
    | .error f => some (f.locate c.location)
    | .ok _ => none
  | _ => none

/-- The fault in the place of a piece. -/
def pieceFault : Except Fault Piece → Option Fault
  | .error f => some f
  | .ok _ => none

theorem fault_referencePiece (block : Ref → Piece) (name : Text) (l : Location) :
    pieceFault (referencePiece w block name l) = match w.lookup name with
      | .error f => some (f.locate l)
      | .ok _ => none := by
  unfold referencePiece
  cases w.lookup name with
  | error f => rfl
  | ok defs => cases defs <;> rfl

theorem fault_prosePiece (c : Command) : pieceFault (prosePiece w c) = commandFault w c := by
  unfold prosePiece commandFault
  cases c.body with
  | text text => rfl
  | code text => rfl
  | crossReference kind => rfl
  | reference name =>
    have href := fault_referencePiece (w := w) Piece.ref name c.location
    dsimp only
    cases hlookup : w.lookup name with
    | error f => simp [Web.documentText, hlookup, pieceFault]
    | ok defs =>
      rw [hlookup] at href
      have hfound : ∃ found, w.documentText name = .ok found := by
        unfold Web.documentText
        rw [hlookup]
        dsimp only
        split
        · split <;> exact ⟨_, rfl⟩
        · exact ⟨_, rfl⟩
      obtain ⟨found, hfound⟩ := hfound
      rw [hfound]
      cases found with
      | none => exact href
      | some text => rfl

theorem fault_codePiece (style : Text) (c : Command) :
    pieceFault (codePiece w style c) = commandFault w c := by
  unfold codePiece commandFault
  cases c.body with
  | text text => rfl
  | code text => rfl
  | crossReference kind => rfl
  | reference name => exact fault_referencePiece Piece.codeRef name c.location

theorem faults_chunkPieces (i : Nat) : (chunkPieces w i).filterMap pieceFault =
    (if (w.chunk i).shown then (w.chunk i).commands else []).filterMap (commandFault w) := by
  have hblock : ∀ first last, (blockPieces w first last i).filterMap pieceFault =
      (w.chunk i).commands.filterMap (commandFault w) := by
    intro first last
    have hcode : pieceFault ∘ codePiece w (w.chunk i).style = commandFault w :=
      funext (fault_codePiece _)
    rw [blockPieces, List.filterMap_append, List.filterMap_cons_none rfl, List.filterMap_map, hcode]
    exact List.append_nil _
  unfold chunkPieces Chunk.shown
  cases (w.chunk i).kind with
  | anonymous => simp [List.filterMap_map, fault_prosePiece]
  | named => simp [hblock]
  | output => cases (w.chunk i).woven <;> simp [hblock]
  | document => simp

theorem shownCommands_eq (chunks : List Chunk) : shownCommands chunks =
    chunks.flatMap fun c => if c.shown then c.commands else [] := by
  induction chunks with
  | nil => rfl
  | cons c chunks ih =>
    rw [shownCommands] at ih ⊢
    cases hc : c.shown <;> simp [hc, ih]

/-- The faults of a document are those of the commands that it shows. -/
theorem faults_pieces (path : Text) (chunks : List Chunk) :
    (pieces (Web.ofChunks path chunks)).filterMap pieceFault =
      (shownCommands chunks).filterMap (commandFault (Web.ofChunks path chunks)) := by
  have hchunks : (List.range (Web.ofChunks path chunks).size).map
      (Web.ofChunks path chunks).chunk = chunks := by
    refine List.ext_getElem (by simp [Web.size_ofChunks]) fun i _ hi => ?_
    simp [Web.chunk_ofChunks, hi]
  generalize Web.ofChunks path chunks = w at hchunks ⊢
  rw [pieces, List.filterMap_flatMap, shownCommands_eq, List.filterMap_flatMap, ← hchunks,
    List.flatMap_map]
  exact congrArg (List.flatMap · _) (funext faults_chunkPieces)

end Faults

section Ambiguity

variable (path : Text) (chunks : List Chunk)

/-- What a name stands for is one of its completions only if it has no other. -/
theorem completion_unique {name full a b : Text} (h : Web.Denotes chunks name (.ok full))
    (ha : Web.Completes chunks name a) (hb : Web.Completes chunks name b) : a = b := by
  cases h with
  | whole hname =>
    obtain ⟨-, -, stem, rfl, -⟩ := ha
    rw [isAbbreviation_iff.2 ⟨stem, rfl⟩] at hname
    cases hname
  | unmatched _ hnone => exact absurd ha (hnone a)
  | completed _ hone => exact ((hone a).1 ha).trans ((hone b).1 hb).symm

/-- A command has a fault exactly if it is ambiguous, and the fault says where and between what. -/
theorem commandFault_eq_some {c : Command} {f : Fault} :
    commandFault (Web.ofChunks path chunks) c = some f ↔
      Ambiguous chunks c ∧ ∃ name names, c.body = .reference name ∧ names.Pairwise (· < ·) ∧
        (∀ full, full ∈ names ↔ Web.Completes chunks name full) ∧
        f = ⟨.ambiguous name names, c.location⟩ := by
  unfold commandFault Ambiguous
  cases hbody : c.body with
  | text text => simp
  | code text => simp
  | crossReference kind => simp
  | reference name =>
    have hdenotes := Web.denotes_resolveIn chunks name
    rw [← Web.resolve_ofChunks path] at hdenotes
    simp only [Web.lookup, Command.Body.reference.injEq, exists_eq_left']
    cases hresolve : (Web.ofChunks path chunks).resolve name with
    | ok full =>
      rw [hresolve] at hdenotes
      simp only [reduceCtorEq, false_iff, not_and]
      rintro ⟨a, b, hab, ha, hb⟩
      exact absurd (completion_unique chunks hdenotes ha hb) hab
    | error g =>
      rw [hresolve] at hdenotes
      cases hdenotes with
      | @ambiguous names hname hall hascending hmany =>
        constructor
        · rintro ⟨rfl⟩
          refine ⟨?_, name, names, rfl, hascending, fun full => (hall full).symm, rfl⟩
          obtain ⟨a, b, rest, rfl⟩ : ∃ a b rest, names = a :: b :: rest := by
            rcases names with - | ⟨a, - | ⟨b, rest⟩⟩
            · simp at hmany
            · simp at hmany
            · exact ⟨a, b, rest, rfl⟩
          have hlt : a < b := List.rel_of_pairwise_cons hascending (by simp)
          have hne : a ≠ b := fun heq => List.lt_irrefl b (heq ▸ hlt)
          exact ⟨a, b, hne, (hall a).2 (by simp), (hall b).2 (by simp)⟩
        · rintro ⟨-, _, names', rfl, hascending', hall', rfl⟩
          have hnames : names' = names :=
            eq_of_pairwise_of_mem hascending' hascending fun full =>
              (hall' full).trans (hall full)
          rw [hnames]
          rfl

theorem exists_commandFault {c : Command} :
    (∃ f, commandFault (Web.ofChunks path chunks) c = some f) ↔ Ambiguous chunks c := by
  simp only [commandFault_eq_some]
  constructor
  · rintro ⟨f, hc, -⟩
    exact hc
  · intro hc
    obtain ⟨name, hbody, a, -, -, ⟨-, -, stem, hstem, -⟩, -⟩ := id hc
    exact ⟨_, hc, name, _, hbody, Web.pairwise_completions chunks name,
      fun full => Web.mem_completions (isAbbreviation_iff.2 ⟨stem, hstem⟩), rfl⟩

end Ambiguity

theorem render_of_mem_markups (hm : m ∈ markups) (p : Piece) : ∃ text, p.render m = .ok text := by
  simp only [markups, List.mem_cons, List.not_mem_nil, or_false] at hm
  rcases hm with rfl | rfl | rfl | rfl | rfl | rfl | rfl <;> cases p with
  | index kind entries => cases kind <;> exact ⟨_, rfl⟩
  | _ => exact ⟨_, rfl⟩

/-- A document that is built from blocks which render fails at its first fault. -/
theorem render_error_iff (hm : m ∈ markups) (w : Web) {e : Error} :
    (render m w).1 = .error e ↔
      ∃ f, ((pieces w).filterMap pieceFault).head? = some f ∧ e = .fault f := by
  have herror : Yield.error ∘ yieldOf m = Option.map Error.fault ∘ pieceFault := by
    funext p
    cases p with
    | error f => rfl
    | ok p =>
      obtain ⟨text, htext⟩ := render_of_mem_markups hm p
      simp [yieldOf, htext, Yield.ofRendered, Yield.ofText, pieceFault]
  have hfound : ((pieces w).map (yieldOf m)).findSome? Yield.error =
      (((pieces w).filterMap pieceFault).head?).map Error.fault := by
    rw [List.findSome?_map, herror, ← List.head?_filterMap, ← List.head?_map, List.map_filterMap]
    rfl
  rw [render_eq, hfound]
  cases ((pieces w).filterMap pieceFault).head? with
  | none => simp
  | some f => simp [eq_comm]

/-- Weaving fails exactly if the document shows an ambiguous reference. It fails at the first of
them, whose place and possible meanings the error tells, and then nothing is written. -/
theorem render_fails_iff_ambiguous (hm : m ∈ markups) (path : Text) (chunks : List Chunk) :
    let w := Web.ofChunks path chunks
    ((∃ e, (render m w).1 = .error e) ↔ ∃ c ∈ shownCommands chunks, Ambiguous chunks c) ∧
    ∀ before c after, shownCommands chunks = before ++ c :: after →
      (∀ b ∈ before, ¬Ambiguous chunks b) → Ambiguous chunks c →
      ∃ name names, c.body = .reference name ∧ names.Pairwise (· < ·) ∧
        (∀ full, full ∈ names ↔ Web.Completes chunks name full) ∧
        (render m w).1 = .error (.fault ⟨.ambiguous name names, c.location⟩) ∧
        ∀ dir tree, emit m dir w tree =
          (.error (.fault ⟨.ambiguous name names, c.location⟩), tree, (render m w).2) := by
  intro w
  constructor
  · simp only [render_error_iff hm, w, faults_pieces]
    simp only [← exists_commandFault path chunks]
    constructor
    · rintro ⟨e, f, hfirst, -⟩
      obtain ⟨c, hc, hf⟩ := List.mem_filterMap.1 (List.mem_of_head? hfirst)
      exact ⟨c, hc, f, hf⟩
    · rintro ⟨c, hc, f, hf⟩
      have hne := List.ne_nil_of_mem (List.mem_filterMap.2 ⟨c, hc, hf⟩)
      exact ⟨_, _, List.head?_eq_some_head hne, rfl⟩
  · intro before c after hshown hbefore hc
    obtain ⟨f, hf⟩ := (exists_commandFault path chunks).2 hc
    obtain ⟨-, name, names, hbody, hascending, hall, rfl⟩ :=
      (commandFault_eq_some path chunks).1 hf
    have hnone : before.filterMap (commandFault w) = [] := by
      refine List.filterMap_eq_nil_iff.2 fun b hb => Option.eq_none_iff_forall_ne_some.2 ?_
      exact fun g hg => hbefore b hb ((exists_commandFault path chunks).1 ⟨g, hg⟩)
    have hfailed : (render m w).1 = .error (.fault ⟨.ambiguous name names, c.location⟩) := by
      refine (render_error_iff hm w).2 ⟨_, ?_, rfl⟩
      rw [faults_pieces, hshown, List.filterMap_append, hnone, List.filterMap_cons_some hf]
      rfl
    refine ⟨name, names, hbody, hascending, hall, hfailed, fun dir tree => ?_⟩
    unfold emit
    rcases hrender : render m w with ⟨result, log⟩
    rw [hrender] at hfailed
    obtain rfl := hfailed
    rfl

/-- Of two references on a page the second can stand for two definitions. -/
theorem render_fails_iff_ambiguous_parts :
    let page : Chunk := { kind := .anonymous, name := [], commands :=
      [⟨.reference "part o...", ⟨"m.w", 1⟩⟩, ⟨.reference "part...", ⟨"m.w", 2⟩⟩] }
    let chunks := [page, .ofKind .named "part one", .ofKind .document "part two"]
    html ∈ markups ∧ ∃ names,
      (render html (Web.ofChunks "m.w" chunks)).1 =
        .error (.fault ⟨.ambiguous "part..." names, ⟨"m.w", 2⟩⟩) := by
  intro page chunks
  have hm : html ∈ markups := by simp [markups]
  have hone : Web.Completes chunks "part..." "part one" :=
    ⟨⟨.ofKind .named "part one", by simp [chunks], rfl, rfl⟩, by decide, "part", by decide,
      by decide⟩
  have htwo : Web.Completes chunks "part..." "part two" :=
    ⟨⟨.ofKind .document "part two", by simp [chunks], rfl, rfl⟩, by decide, "part", by decide,
      by decide⟩
  have hnames : Web.definedNames chunks =
      [Text.ofString "part one", Text.ofString "part two"] :=
    List.mergeSort_of_pairwise (by decide)
  have honly : Web.completions (Web.definedNames chunks) "part o..." =
      [Text.ofString "part one"] := by
    rw [hnames]
    decide
  have hclear : ¬Ambiguous chunks ⟨.reference "part o...", ⟨"m.w", 1⟩⟩ := by
    rintro ⟨name, hbody, a, b, hab, ha, hb⟩
    cases hbody
    rw [← Web.mem_completions (by decide), honly, List.mem_singleton] at ha hb
    exact hab (ha.trans hb.symm)
  obtain ⟨-, hfirst⟩ := render_fails_iff_ambiguous hm "m.w" chunks
  obtain ⟨name, names, hbody, -, -, hfailed, -⟩ := hfirst [⟨.reference "part o...", ⟨"m.w", 1⟩⟩]
    ⟨.reference "part...", ⟨"m.w", 2⟩⟩ [] rfl (by simpa using hclear)
    ⟨"part...", rfl, "part one", "part two", by decide, hone, htwo⟩
  cases hbody
  exact ⟨hm, names, hfailed⟩

end Literate.Weave
