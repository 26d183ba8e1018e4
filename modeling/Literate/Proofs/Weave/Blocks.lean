import Literate.Proofs.Weave.Failures
import Literate.Proofs.Weave.Links

/-! The block of a chunk: what it begins and ends with, and between these what its commands show, up
to the first reference that fails. -/

namespace Literate.Weave

section Frame

variable (m : Markup) (w : Web) (i : Nat)

/-- What the block of a chunk begins with. -/
def opening : Rendered :=
  if (w.chunk i).kind = .output then m.beginFile (chunkData w i) else m.beginCode (chunkData w i)

/-- What the block of a chunk ends with. -/
def closing : Rendered :=
  if (w.chunk i).kind = .output then m.endFile (chunkData w i) else m.endCode (chunkData w i)

/-- The fragments of a chunk put together. -/
def chunkText : Text := (chunk m w keeping i { state := [] }).state.flatMap Yield.text

/-- What is shown for a command in the block of a chunk. -/
def shownText (style : Text) (c : Command) : Text := (yieldOf m (codePiece w style c)).text

/-- What a name leads to, as it is shown: itself, with no number, if nothing is defined. -/
def target (name : Text) : Ref :=
  match w.lookup name with
  | .ok (first :: _) => ⟨w.fullName first, w.seq first⟩
  | _ => ⟨name, 0⟩

end Frame

variable {m : Markup} {w : Web} {i : Nat}

theorem getElem?_of_framed {path : Text} {chunks : List Chunk}
    (hi : ((Web.ofChunks path chunks).chunk i).framed = true) :
    chunks[i]? = some ((Web.ofChunks path chunks).chunk i) := by
  rw [Web.chunk_ofChunks] at hi ⊢
  cases hget : chunks[i]? with
  | none =>
    rw [hget] at hi
    cases hi
  | some c => rfl

theorem commandFault_eq_none_iff (path : Text) (chunks : List Chunk) {c : Command} :
    commandFault (Web.ofChunks path chunks) c = none ↔ ¬Ambiguous chunks c := by
  rw [← exists_commandFault path chunks, Option.eq_none_iff_forall_ne_some]
  exact not_exists.symm

theorem not_ambiguous {chunks : List Chunk} {c : Command}
    (h : c.reference?.all (fun name => !isAbbreviation name) = true) : ¬Ambiguous chunks c := by
  rintro ⟨name, hbody, a, -, -, ⟨-, -, stem, hstem, -⟩, -⟩
  have hwhole : isAbbreviation name = false := by simpa [Command.reference?, hbody] using h
  rw [isAbbreviation_iff.2 ⟨stem, hstem⟩] at hwhole
  contradiction

theorem codePiece_reference {style name : Text} {l : Location}
    (h : commandFault w ⟨.reference name, l⟩ = none) :
    codePiece w style ⟨.reference name, l⟩ = .ok (.codeRef (target w name)) := by
  unfold commandFault at h
  unfold codePiece referencePiece target
  dsimp only at h ⊢
  cases hlookup : w.lookup name with
  | error f => simp [hlookup] at h
  | ok defs => cases defs <;> rfl

theorem error_codePiece (hm : m ∈ markups) (style : Text) (c : Command) :
    (yieldOf m (codePiece w style c)).error = (commandFault w c).map .fault := by
  rw [← fault_codePiece style c]
  cases codePiece w style c with
  | error f => rfl
  | ok p =>
    obtain ⟨text, htext⟩ := render_of_mem_markups hm p
    simp [yieldOf, htext, Yield.ofRendered, Yield.ofText, pieceFault]

/-- Up to the first command that fails each shows its text, and the last element follows if none
fails. -/
theorem text_commands (hm : m ∈ markups) (style last : Text) (commands : List Command) :
    ∃ done rest, commands = done ++ rest ∧ (∀ c ∈ done, commandFault w c = none) ∧
      (∀ c ∈ rest.head?, commandFault w c ≠ none) ∧
      (upToError (commands.map (fun c => yieldOf m (codePiece w style c)) ++
        [.ofText last])).flatMap Yield.text =
        done.flatMap (shownText m w style) ++ if rest = [] then last else [] := by
  induction commands with
  | nil => exact ⟨[], [], rfl, by simp, by simp, by simp [upToError, Yield.ofText]⟩
  | cons c commands ih =>
    have herror := error_codePiece (w := w) hm style c
    rw [List.map_cons, List.cons_append, upToError]
    cases hfault : commandFault w c with
    | none =>
      obtain ⟨done, rest, rfl, hdone, hrest, htext⟩ := ih
      refine ⟨c :: done, rest, rfl, by simpa [hfault] using hdone, hrest, ?_⟩
      rw [herror, hfault, Option.map_none, Option.isNone_none, if_pos rfl, List.flatMap_cons, htext,
        List.flatMap_cons, List.append_assoc]
      rfl
    | some f =>
      refine ⟨[], c :: commands, rfl, by simp, by simp [hfault], ?_⟩
      have hempty : (yieldOf m (codePiece w style c)).text = [] :=
        text_of_error m (by simp [herror, hfault])
      rw [herror, hfault, Option.map_some]
      simp [hempty]

theorem chunkText_eq (i : Nat) : chunkText m w i =
    (upToError ((chunkPieces w i).map (yieldOf m))).flatMap Yield.text := by
  have hstate : (chunk m w keeping i { state := [] }).state = _ :=
    congrArg Prod.fst (hands_chunk i { state := [] } rfl)
  rw [chunkText, hstate]
  exact congrArg (List.flatMap Yield.text) (feed_keeping _ [])

theorem chunkPieces_framed (hi : (w.chunk i).framed = true) : ∃ begins ends : Piece,
    begins.render m = opening m w i ∧ ends.render m = closing m w i ∧
      chunkPieces w i = .ok begins ::
        (w.chunk i).commands.map (codePiece w (w.chunk i).style) ++ [.ok ends] := by
  have hcode := Chunk.isCode_of_framed hi
  cases hkind : (w.chunk i).kind with
  | named =>
    refine ⟨.beginCode (chunkData w i), .endCode (chunkData w i), ?_, ?_, ?_⟩
    · simp [opening, hkind, Piece.render]
    · simp [closing, hkind, Piece.render]
    · simp [chunkPieces, hkind, blockPieces]
  | output =>
    have hwoven : (w.chunk i).woven = true := by
      simpa [hkind] using (Chunk.framed_iff hcode).1 hi
    refine ⟨.beginFile (chunkData w i), .endFile (chunkData w i), ?_, ?_, ?_⟩
    · simp [opening, hkind, Piece.render]
    · simp [closing, hkind, Piece.render]
    · simp [chunkPieces, hkind, hwoven, blockPieces]
  | anonymous => simp [Chunk.isCode, Chunk.Kind.isCode, hkind] at hcode
  | document => simp [Chunk.isCode, Chunk.Kind.isCode, hkind] at hcode

/-- The fragments of a block: what begins it, its commands up to the first that fails, and what ends
it if none fails. -/
structure Shows (m : Markup) (w : Web) (i : Nat) (first last : Text) (done rest : List Command) :
    Prop where
  opening : opening m w i = .ok first
  closing : closing m w i = .ok last
  commands : (w.chunk i).commands = done ++ rest
  resolved : ∀ c ∈ done, commandFault w c = none
  failed : ∀ c ∈ rest.head?, commandFault w c ≠ none
  text : chunkText m w i = first ++ done.flatMap (shownText m w (w.chunk i).style) ++
    if rest = [] then last else []

theorem exists_shows (hm : m ∈ markups) (hi : (w.chunk i).framed = true) :
    ∃ first last done rest, Shows m w i first last done rest := by
  obtain ⟨begins, ends, hbegins, hends, hpieces⟩ := chunkPieces_framed (m := m) hi
  obtain ⟨first, hfirst⟩ := render_of_mem_markups hm begins
  obtain ⟨last, hlast⟩ := render_of_mem_markups hm ends
  obtain ⟨done, rest, hcommands, hdone, hrest, htext⟩ :=
    text_commands (w := w) hm (w.chunk i).style last (w.chunk i).commands
  refine ⟨first, last, done, rest, hbegins.symm.trans hfirst, hends.symm.trans hlast, hcommands,
    hdone, hrest, ?_⟩
  have hyields : (chunkPieces w i).map (yieldOf m) = .ofText first ::
      ((w.chunk i).commands.map (fun c => yieldOf m (codePiece w (w.chunk i).style c)) ++
        [.ofText last]) := by
    simp [hpieces, yieldOf, hfirst, hlast, Yield.ofRendered]
  rw [chunkText_eq, hyields, upToError, if_pos (by rfl), List.flatMap_cons, htext,
    List.append_assoc]
  rfl

namespace Shows

variable {path : Text} {chunks : List Chunk} {first last : Text} {done rest : List Command}

theorem mem_commands (h : Shows m w i first last done rest) {c : Command} (hc : c ∈ done) :
    c ∈ (w.chunk i).commands := by
  rw [h.commands]
  exact List.mem_append_left rest hc

theorem not_ambiguous_of_mem (h : Shows m (Web.ofChunks path chunks) i first last done rest) :
    ∀ c ∈ done, ¬Ambiguous chunks c :=
  fun c hc => (commandFault_eq_none_iff path chunks).1 (h.resolved c hc)

theorem ambiguous_head (h : Shows m (Web.ofChunks path chunks) i first last done rest) :
    ∀ c ∈ rest.head?, Ambiguous chunks c :=
  fun c hc => not_not.1 (mt (commandFault_eq_none_iff path chunks).2 (h.failed c hc))

/-- A block is complete exactly if it has no ambiguous reference. -/
theorem rest_eq_nil_iff (h : Shows m (Web.ofChunks path chunks) i first last done rest) :
    rest = [] ↔ ∀ c ∈ ((Web.ofChunks path chunks).chunk i).commands, ¬Ambiguous chunks c := by
  rw [h.commands]
  constructor
  · rintro rfl c hc
    exact h.not_ambiguous_of_mem c (by simpa using hc)
  · intro hclear
    cases rest with
    | nil => rfl
    | cons c rest => exact absurd (h.ambiguous_head c rfl) (hclear c (by simp))

end Shows

end Literate.Weave
