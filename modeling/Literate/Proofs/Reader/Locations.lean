import Literate.Proofs.Reader.Includes
import Literate.Proofs.Reader.Phrases
import Literate.Proofs.Reader.WellFormed

/-! Where the commands of a web begin. A command is put where the phrase begins that adds it, and it
stays there. What an include splices in keeps the positions of the source that it comes from. -/

namespace Literate.Reader

/-- The position of a command, by the number of its chunk and its number there. -/
def placeAt (cs : List Chunk) (a b : Nat) : Option Location :=
  cs[a]?.bind fun c => c.commands[b]?.map Command.location

/-- No command moves, and each that is new has a property. -/
def Grows (P : Nat → Nat → Location → Prop) (cs ds : List Chunk) : Prop :=
  ∀ a b, placeAt ds a b = placeAt cs a b ∨
    placeAt cs a b = none ∧ ∃ l, placeAt ds a b = some l ∧ P a b l

namespace Grows

variable {P : Nat → Nat → Location → Prop} {cs ds es : List Chunk} {a b : Nat} {l : Location}

theorem of_eq (h : placeAt ds = placeAt cs) : Grows P cs ds := fun a b => .inl (by rw [h])

theorem refl (cs : List Chunk) : Grows P cs cs := of_eq rfl

theorem keeps (h : Grows P cs ds) (hl : placeAt cs a b = some l) : placeAt ds a b = some l := by
  rcases h a b with hsame | ⟨hnone, -⟩
  · rw [hsame, hl]
  · simp [hl] at hnone

theorem new (h : Grows P cs ds) (hcs : placeAt cs a b = none) (hds : placeAt ds a b = some l) :
    P a b l := by
  rcases h a b with hsame | ⟨-, m, hm, hP⟩
  · simp [hsame, hcs] at hds
  · rw [hm, Option.some.injEq] at hds
    exact hds ▸ hP

theorem trans (h : Grows P cs ds) (h' : Grows P ds es) : Grows P cs es := by
  intro a b
  cases hcs : placeAt cs a b with
  | some l => exact .inl (h'.keeps (h.keeps hcs))
  | none =>
    cases hes : placeAt es a b with
    | none => exact .inl rfl
    | some l =>
      refine .inr ⟨rfl, l, rfl, ?_⟩
      cases hds : placeAt ds a b with
      | none => exact h'.new hds hes
      | some m =>
        have hm := h'.keeps hds
        rw [hes, Option.some.injEq] at hm
        exact h.new hcs (hm ▸ hds)

end Grows

section Chunks

variable {P : Nat → Nat → Location → Prop} {c d : Chunk} {cs ds : List Chunk}

theorem placeAt_congr (h : ds.map Chunk.commands = cs.map Chunk.commands) :
    placeAt ds = placeAt cs := by
  have hmap : ∀ (es : List Chunk) (a b : Nat), placeAt es a b =
      (es.map Chunk.commands)[a]?.bind fun ks => ks[b]?.map Command.location := by
    intro es a b
    rw [List.getElem?_map, Option.bind_map]
    rfl
  funext a b
  rw [hmap, hmap, h]

theorem placeAt_append_left {a : Nat} (ha : a < cs.length) (ds : List Chunk) (b : Nat) :
    placeAt (cs ++ ds) a b = placeAt cs a b := by
  rw [placeAt, List.getElem?_append_left ha, placeAt]

theorem placeAt_append_right (cs ds : List Chunk) (a b : Nat) :
    placeAt (cs ++ ds) (cs.length + a) b = placeAt ds a b := by
  rw [placeAt, List.getElem?_append_right (by omega), Nat.add_sub_cancel_left, placeAt]

theorem placeAt_eq_none {a : Nat} (ha : cs.length ≤ a) (b : Nat) : placeAt cs a b = none := by
  rw [placeAt, List.getElem?_eq_none ha, Option.bind_none]

theorem grows_append (h : ∀ a b l, placeAt ds a b = some l → P (cs.length + a) b l) :
    Grows P cs (cs ++ ds) := by
  intro a b
  by_cases ha : a < cs.length
  · exact .inl (placeAt_append_left ha ds b)
  · obtain ⟨a, rfl⟩ := Nat.exists_eq_add_of_le (Nat.le_of_not_lt ha)
    have hnone : placeAt cs (cs.length + a) b = none := placeAt_eq_none (by omega) b
    rw [placeAt_append_right, hnone]
    cases hl : placeAt ds a b with
    | none => exact .inl rfl
    | some l => exact .inr ⟨rfl, l, rfl, h a b l hl⟩

theorem placeAt_empty (hc : c.commands = []) (a b : Nat) : placeAt [c] a b = none := by
  cases a <;> simp [placeAt, hc]

theorem grows_concat (hc : c.commands = []) : Grows P cs (cs ++ [c]) :=
  grows_append fun a b l h => by simp [placeAt_empty hc] at h

theorem placeAt_concat (hc : c.commands = []) : placeAt (cs ++ [c]) = placeAt cs := by
  funext a b
  have hgrows : Grows (fun _ _ _ => False) cs (cs ++ [c]) := grows_concat hc
  rcases hgrows a b with hsame | ⟨-, _, -, hfalse⟩
  · exact hsame
  · exact hfalse.elim

theorem grows_last (h : ∀ b, d.commands[b]?.map Command.location = c.commands[b]?.map Command.location ∨
    c.commands[b]? = none ∧ ∃ l, d.commands[b]?.map Command.location = some l ∧ P cs.length b l) :
    Grows P (cs ++ [c]) (cs ++ [d]) := by
  intro a b
  by_cases ha : a < cs.length
  · exact .inl (by rw [placeAt_append_left ha, placeAt_append_left ha])
  · obtain ⟨a, rfl⟩ := Nat.exists_eq_add_of_le (Nat.le_of_not_lt ha)
    rw [placeAt_append_right, placeAt_append_right]
    cases a with
    | succ a => exact .inl rfl
    | zero =>
      rcases h b with hsame | ⟨hnone, hnew⟩
      · exact .inl hsame
      · exact .inr ⟨by simp [placeAt, hnone], hnew⟩

theorem locations_append (c : Chunk) (k : Command) (b : Nat) :
    (c.append k).commands[b]?.map Command.location = c.commands[b]?.map Command.location ∨
      c.commands[b]? = none ∧ (c.append k).commands[b]?.map Command.location = some k.location := by
  simp only [Chunk.append]
  by_cases hb : b < c.commands.length
  · exact .inl (by rw [List.getElem?_append_left hb])
  · obtain ⟨b, rfl⟩ := Nat.exists_eq_add_of_le (Nat.le_of_not_lt hb)
    have hnone : c.commands[c.commands.length + b]? = none := List.getElem?_eq_none (by omega)
    rw [List.getElem?_append_right (by omega), Nat.add_sub_cancel_left, hnone]
    cases b with
    | zero => exact .inr ⟨rfl, rfl⟩
    | succ b => exact .inl rfl

theorem locations_appendText (c : Chunk) (t : Text) (l : Location) (b : Nat) :
    (c.appendText t l).commands[b]?.map Command.location = c.commands[b]?.map Command.location ∨
      c.commands[b]? = none ∧ (c.appendText t l).commands[b]?.map Command.location = some l := by
  cases hlast : c.commands.getLast? with
  | none =>
    simp only [Chunk.appendText, hlast]
    exact locations_append c _ b
  | some last =>
    cases he : Chunk.extendRun? c.isCode t last with
    | none =>
      simp only [Chunk.appendText, hlast, he]
      exact locations_append c _ b
    | some longer =>
      obtain ⟨init, hinit⟩ := List.getLast?_eq_some_iff.mp hlast
      have hlocation : longer.location = last.location := by
        obtain ⟨body, location⟩ := last
        cases body <;> cases hc : c.isCode <;> simp [Chunk.extendRun?, hc] at he <;> subst he <;> rfl
      refine .inl ?_
      simp only [Chunk.appendText, hlast, he]
      rw [← List.getElem?_map, ← List.getElem?_map, hinit, List.dropLast_concat]
      simp [hlocation]

end Chunks

def State.chunks (s : State) : List Chunk := s.before ++ [s.current]

variable {ctx : Context} {s : State} {l : Location}

/-- No command moves, and each that is new is put at a position. -/
abbrev GrowsAt (l : Location) : List Chunk → List Chunk → Prop := Grows fun _ _ m => m = l

theorem growsAt_append (s : State) (body : Command.Body) (l : Location) :
    GrowsAt l s.chunks (s.append body l).chunks := by
  refine grows_last fun b => ?_
  rcases locations_append s.current ⟨body, l⟩ b with hsame | ⟨hnone, hnew⟩
  · exact .inl hsame
  · exact .inr ⟨hnone, l, hnew, rfl⟩

theorem growsAt_appendText (s : State) (t : Text) (l : Location) :
    GrowsAt l s.chunks (s.appendText t l).chunks := by
  refine grows_last fun b => ?_
  rcases locations_appendText s.current t l b with hsame | ⟨hnone, hnew⟩
  · exact .inl hsame
  · exact .inr ⟨hnone, l, hnew, rfl⟩

/-- What the reader waits for belongs to a phrase that began at a position. -/
def Pending.At (l : Location) : Pending → Prop
  | .opener chunk => chunk.commands = []
  | .referenceName m | .referenceEnd _ m | .substitutionName m | .substitutionEnd _ m => m = l
  | _ => True

theorem at_of_awaited {p : Pending} (h : p.awaited = .nothing ∨ p.awaited = .operand) : p.At l := by
  cases p <;> simp_all [Pending.awaited, Pending.At]

theorem resume_growsAt (hs : s.pending.At l) (t : Token) :
    GrowsAt l s.chunks (resume ctx t s).chunks := by
  unfold resume
  split
  next chunk hp =>
    have hempty : chunk.commands = [] := by simpa [Pending.At, hp] using hs
    split
    · exact grows_concat hempty
    · exact grows_concat hempty
  next name m hp =>
    obtain rfl : m = l := by simpa [Pending.At, hp] using hs
    dsimp only
    split
    · exact .refl _
    · exact growsAt_append _ _ m
  next name m hp =>
    obtain rfl : m = l := by simpa [Pending.At, hp] using hs
    dsimp only
    split
    · exact growsAt_appendText _ _ m
    · exact .refl _
  · exact .refl _

theorem expect_growsAt (hw : s.pending.awaited = .closing) (hs : s.pending.At l) (t : Token) :
    GrowsAt l s.chunks (expect ctx s t).chunks ∧ (expect ctx s t).pending.At l := by
  have hend : (expect ctx s t).pending.awaited = Awaited.next .closing t := awaited_expect hw t
  have hresume : ∀ message, GrowsAt l s.chunks (resume ctx t (s.error message)).chunks :=
    fun message => resume_growsAt (s := s.error message) hs t
  cases t with
  | newline => exact ⟨.refl _, hs⟩
  | control k =>
    refine ⟨?_, at_of_awaited (.inl hend)⟩
    simp only [expect]
    split
    · exact resume_growsAt hs _
    · exact hresume _
  | literal span =>
    refine ⟨?_, at_of_awaited (.inl hend)⟩
    simp only [expect]
    split
    · exact resume_growsAt hs _
    · exact hresume _

theorem chunks_warnAll (messages : List Text) : (s.warnAll messages).chunks = s.chunks := by
  induction messages generalizing s with
  | nil => rfl
  | cons m messages ih => exact ih (s := s.warn m)

theorem describe_at (kind : Chunk.Kind) (m : Location) (line : List Char) :
    (describe ctx kind m line s).pending.At l ∧ (describe ctx kind m line s).chunks = s.chunks := by
  unfold describe
  cases hline : OptionLine.chunk kind (Text.trimChars line) with
  | ok described =>
    obtain ⟨chunk, warnings⟩ := described
    simp only [hline]
    refine ⟨(OptionLine.empty_chunk hline).1, ?_⟩
    split <;> exact chunks_warnAll _
  | error quote =>
    simp only [hline]
    refine ⟨rfl, ?_⟩
    split <;> rfl

/-- An operand that is not a path adds no command. -/
theorem operand_at (hs : s.pending.At l) {span : List Char}
    (hspan : ∀ m, s.pending = .includePath m → span = []) :
    (operand ctx s span).pending.At l ∧
      placeAt (operand ctx s span).chunks = placeAt s.chunks := by
  cases hp : s.pending with
  | options kind m =>
    have hdescribe : (describe ctx kind m span s).pending.At l ∧
        (describe ctx kind m span s).chunks = s.chunks := describe_at kind m span
    simp only [operand, hp]
    exact ⟨hdescribe.1, by rw [hdescribe.2]⟩
  | referenceName m => simpa [operand, hp, Pending.At, State.chunks] using hs
  | substitutionName m => simpa [operand, hp, Pending.At, State.chunks] using hs
  | identifiers =>
    simp only [operand, hp]
    split
    · exact ⟨trivial, placeAt_congr (by simp [State.chunks])⟩
    · exact ⟨trivial, rfl⟩
  | includePath m =>
    obtain rfl := hspan m hp
    have hpath : operand ctx s [] = State.error { s with pending := .nothing }
        (atPlace m (ctx.spell .includeFile ++ " needs a file name")) := by
      simp [operand, hp, includeFile, Text.trimChars, Text.strip]
    rw [hpath]
    exact ⟨trivial, rfl⟩
  | _ => simp_all [operand]

theorem obey_growsAt (hs : s.pending = .nothing) (t : Token) :
    GrowsAt l s.chunks (obey ctx l s t).chunks ∧ (obey ctx l s t).pending.At l := by
  have hat : s.pending.At l := by simp [hs, Pending.At]
  have hstart : ∀ s : State, GrowsAt l s.chunks s.startAnonymous.chunks :=
    fun s => grows_concat rfl
  cases t with
  | newline => exact ⟨growsAt_appendText s _ l, hat⟩
  | literal span => exact ⟨growsAt_appendText s _ l, hat⟩
  | control k =>
    cases k with
    | literally => exact ⟨growsAt_appendText s _ l, hat⟩
    | outputChunk =>
      simp only [obey, openChunk]
      split <;> exact ⟨.refl _, trivial⟩
    | namedChunk =>
      simp only [obey, openChunk]
      split <;> exact ⟨.refl _, trivial⟩
    | closeCode =>
      simp only [obey, closeBody]
      split <;> exact ⟨hstart _, hat⟩
    | closeDocument =>
      simp only [obey, closeBody]
      split <;> exact ⟨hstart _, hat⟩
    | fileIndex =>
      simp only [obey, crossReference]
      split <;> exact ⟨growsAt_append _ _ l, hat⟩
    | macroIndex =>
      simp only [obey, crossReference]
      split <;> exact ⟨growsAt_append _ _ l, hat⟩
    | identifierIndex =>
      simp only [obey, crossReference]
      split <;> exact ⟨growsAt_append _ _ l, hat⟩
    | openReference => exact ⟨.refl _, rfl⟩
    | openSubstitution => exact ⟨.refl _, rfl⟩
    | identifiers => exact ⟨.refl _, trivial⟩
    | includeFile => exact ⟨.refl _, trivial⟩
    | _ => exact ⟨.refl _, hat⟩

theorem chunks_advance (s : State) (t : Token) : (s.advance t).chunks = s.chunks := by
  unfold State.advance
  split <;> rfl

/-- A token is taken in a phrase that began at a position, or begins one there. -/
structure Tells (ctx : Context) (s : State) (t : Token) (l : Location) : Prop where
  pending : s.pending.At l
  begins : s.pending.awaited = .nothing → l = s.here ctx
  /-- A token that is no operand was counted when it was looked at. -/
  retakes : s.pending.awaited = .operand → (∀ span, t ≠ .literal span) → l = (s.advance t).here ctx
  /-- The token is no path. -/
  path : ∀ m, s.pending = .includePath m → ∀ span, t ≠ .literal span

theorem step_growsAt {t : Token} (h : Tells ctx s t l) :
    GrowsAt l s.chunks (step ctx s t).chunks ∧ (step ctx s t).pending.At l := by
  have hcounted : (s.advance t).pending = s.pending := advance_pending t
  have hchunks := chunks_advance s t
  have hlook : (operand ctx (s.advance t) []).pending.At l ∧
      placeAt (operand ctx (s.advance t) []).chunks = placeAt s.chunks := by
    rw [← hchunks]
    exact operand_at (hcounted ▸ h.pending) fun _ _ => rfl
  have hoperand : ∀ span, t = .literal span →
      GrowsAt l s.chunks (operand ctx s span).chunks ∧ (operand ctx s span).pending.At l := by
    rintro span rfl
    obtain ⟨hat, hsame⟩ : (operand ctx s span).pending.At l ∧
        placeAt (operand ctx s span).chunks = placeAt s.chunks :=
      operand_at h.pending fun m hp => absurd rfl (h.path m hp span)
    exact ⟨.of_eq hsame, hat⟩
  cases hw : s.pending.awaited with
  | nothing =>
    rw [step_nothing hw, ← h.begins hw, ← hchunks]
    exact obey_growsAt (hcounted.trans (pending_eq_nothing hw)) t
  | closing =>
    rw [step_closing hw, ← hchunks]
    exact expect_growsAt (by rwa [hcounted]) (hcounted ▸ h.pending) t
  | name =>
    by_cases ht : ∃ span, t = .literal span
    · obtain ⟨span, rfl⟩ := ht
      rw [step_literal (.inl hw)]
      exact hoperand span rfl
    · rw [step_name hw fun span he => ht ⟨span, he⟩]
      have hset : (operand ctx (s.advance t) []).pending.awaited = .closing :=
        awaited_operand_name (by rwa [hcounted]) []
      exact (expect_growsAt hset hlook.1 t).imp_left (Grows.of_eq hlook.2).trans
  | operand =>
    by_cases ht : ∃ span, t = .literal span
    · obtain ⟨span, rfl⟩ := ht
      rw [step_literal (.inr hw)]
      exact hoperand span rfl
    · have ht' : ∀ span, t ≠ .literal span := fun span he => ht ⟨span, he⟩
      have hset : (operand ctx (s.advance t) []).pending = .nothing :=
        pending_operand (by rwa [hcounted]) []
      rw [step_operand hw ht', ← h.retakes hw ht']
      exact (obey_growsAt hset t).imp_left (Grows.of_eq hlook.2).trans

theorem step_path_grows {m : Location} (hs : s.pending = .includePath m) (span : List Char) :
    Grows (fun a b l => ∃ a' o failure, ctx.fetch (Text.ofChars (Text.trimChars span)) =
        .read o failure ∧ a = s.chunks.length + a' ∧ placeAt o.chunks a' b = some l)
      s.chunks (step ctx s (.literal span)).chunks := by
  rw [step_path hs]
  unfold includeFile
  split
  · exact .refl _
  · split
    · exact .refl _
    · split
      · exact .refl _
      · split <;> exact .refl _
      next o failure hfetch =>
        have hsplice : (splice (Text.ofChars (Text.trimChars span)) m o failure
            { s with pending := .nothing }).chunks =
              s.chunks ++ (o.chunks ++ [Chunk.ofKind .anonymous []]) := by
          cases failure <;> simp only [splice] <;> split <;>
            simp only [State.chunks, List.append_assoc] <;> rfl
        rw [hsplice]
        refine grows_append fun a b l hl => ⟨a, o, failure, hfetch, rfl, ?_⟩
        rwa [placeAt_concat rfl] at hl

theorem step_include (hs : s.pending.awaited.takes (.control .includeFile) = false) :
    (∃ m, (step ctx s (.control .includeFile)).pending = .includePath m) ∧
      placeAt (step ctx s (.control .includeFile)).chunks = placeAt s.chunks := by
  cases hw : s.pending.awaited with
  | nothing =>
    rw [step_nothing hw]
    exact ⟨⟨_, rfl⟩, rfl⟩
  | operand =>
    obtain ⟨-, hsame⟩ : (operand ctx s []).pending.At .none ∧
        placeAt (operand ctx s []).chunks = placeAt s.chunks :=
      operand_at (at_of_awaited (.inr hw)) fun _ _ => rfl
    rw [step_operand hw (by simp)]
    exact ⟨⟨_, rfl⟩, hsame⟩
  | _ => simp [hw, Awaited.takes] at hs

theorem step_includePath {t : Token} {m : Location} (h : (step ctx s t).pending = .includePath m) :
    t = .control .includeFile ∧ s.pending.awaited.takes t = false := by
  have hnext : s.pending.awaited.next t = .operand := by
    rw [← awaited_step ctx, h]
    rfl
  have hfirst : s.pending.awaited.takes t = false ∧
      (t = .control .includeFile ∨ t = .control .identifiers) := by
    cases hw : s.pending.awaited <;> rw [hw] at hnext <;> cases t with
    | newline => simp [Awaited.next, Awaited.first] at hnext
    | literal span => simp [Awaited.next, Awaited.first] at hnext
    | control k => cases k <;> simp_all [Awaited.next, Awaited.first, Awaited.takes]
  refine ⟨?_, hfirst.1⟩
  rcases hfirst.2 with rfl | rfl
  · rfl
  · cases hw : s.pending.awaited with
    | nothing => simp [step_nothing hw, obey] at h
    | operand => simp [step_operand hw, obey] at h
    | _ => simp [hw, Awaited.takes] at hfirst

theorem finish_places (hs : s.pending.At l) :
    placeAt (finish ctx s).chunks = placeAt s.chunks := by
  have habandon : ∀ u : State, u.pending.At l → placeAt (abandon ctx u).chunks = placeAt u.chunks := by
    intro u hu
    unfold abandon
    split
    next chunk hp =>
      have hempty : chunk.commands = [] := by simpa [Pending.At, hp] using hu
      exact placeAt_concat hempty
    · rfl
    · rfl
    · rfl
  obtain ⟨hat, hsame⟩ : (operand ctx s []).pending.At l ∧
      placeAt (operand ctx s []).chunks = placeAt s.chunks := operand_at hs fun _ _ => rfl
  rw [← hsame, ← habandon _ hat]
  unfold finish
  dsimp only
  split <;> rfl

def readTo (ctx : Context) (ts : List Token) : State := ts.foldl (step ctx) {}

theorem readTo_concat (ctx : Context) (ts : List Token) (t : Token) :
    readTo ctx (ts ++ [t]) = step ctx (readTo ctx ts) t := by
  simp [readTo]

theorem awaited_readTo (ctx : Context) (ts : List Token) :
    (readTo ctx ts).pending.awaited = awaited ts :=
  awaited_foldl_step ctx ts

theorem here_readTo (ctx : Context) (ts : List Token) :
    (readTo ctx ts).here ctx = ⟨ctx.name, (Token.newlines ts : Nat) + 1⟩ := by
  simp [State.here, readTo, newlines_foldl_step]

/-- One more line, when a phrase is a newline that was looked at as an operand: it is counted by
then. -/
def late (before phrase : List Token) : Nat :=
  if awaited before = .operand ∧ phrase.head? = some .newline then 1 else 0

/-- The position of a phrase in a source. -/
def beginning (name : Text) (before phrase : List Token) : Location :=
  ⟨name, (Token.newlines before + late before phrase : Nat) + 1⟩

variable {before phrase : List Token}

theorem Phrase.eq_include (h : Phrase before phrase) {m : Location}
    (hp : (readTo ctx (before ++ phrase)).pending = .includePath m) :
    phrase = [.control .includeFile] := by
  cases h with
  | first ht =>
    rw [readTo_concat] at hp
    rw [(step_includePath hp).1]
  | more _ ht =>
    rw [← List.append_assoc, readTo_concat] at hp
    have hnot := (step_includePath hp).2
    rw [awaited_readTo, ht] at hnot
    contradiction

theorem Phrase.takes_path {span : List Char} (h : Phrase before [.control .includeFile, .literal span])
    (t : Token) :
    (Reader.awaited (before ++ [.control .includeFile, .literal span])).takes t = false := by
  obtain ⟨u, hu, hfirst⟩ := h.exists_first
  obtain rfl : .control .includeFile = u := by simpa using hu
  have hpath : Reader.awaited (before ++ [.control .includeFile, .literal span]) = .nothing := by
    have hnext := Awaited.next_of_takes_false hfirst
    simp only [Reader.awaited, List.foldl_append, List.foldl_cons, List.foldl_nil] at hnext ⊢
    rw [hnext]
    rfl
  rw [hpath]
  rfl

theorem late_more (h : phrase ≠ []) (t : Token) : late before (phrase ++ [t]) = late before phrase := by
  cases phrase with
  | nil => exact absurd rfl h
  | cons u phrase => rfl

theorem late_of_not_operand (h : awaited before ≠ .operand) (phrase : List Token) :
    late before phrase = 0 := by
  simp [late, h]

theorem tells_first {t : Token} (ht : (awaited before).takes t = false) :
    Tells ctx (readTo ctx before) t (beginning ctx.name before [t]) where
  pending := by
    refine at_of_awaited ?_
    rw [awaited_readTo]
    cases hw : awaited before <;> simp_all [Awaited.takes]
  begins hw := by
    rw [awaited_readTo] at hw
    rw [here_readTo, beginning, late_of_not_operand (by simp [hw]), Nat.add_zero]
  retakes hw hliteral := by
    rw [awaited_readTo] at hw
    have hline : (readTo ctx before).newlines = Token.newlines before := by
      simp [readTo, newlines_foldl_step]
    by_cases hn : t = .newline <;>
      simp [State.advance, State.here, beginning, late, hw, hn, hline]
  path m hp span hspan := by
    have hw := awaited_readTo ctx before
    rw [hp] at hw
    rw [← hw, hspan] at ht
    cases ht

/-- A phrase puts what it adds where it begins. The commands that an include adds are not its own. -/
theorem phrase_growsAt (h : Phrase before phrase)
    (hpath : ∀ span, phrase ≠ [.control .includeFile, .literal span]) :
    GrowsAt (beginning ctx.name before phrase) (readTo ctx before).chunks
        (readTo ctx (before ++ phrase)).chunks ∧
      (readTo ctx (before ++ phrase)).pending.At (beginning ctx.name before phrase) := by
  induction h with
  | first ht =>
    rw [readTo_concat]
    exact step_growsAt (tells_first ht)
  | @more phrase t h ht ih =>
    have hinner : ∀ span, phrase ≠ [.control .includeFile, .literal span] := by
      rintro span rfl
      rw [h.takes_path] at ht
      contradiction
    obtain ⟨hgrows, hat⟩ := ih hinner
    have hsame : beginning ctx.name before (phrase ++ [t]) = beginning ctx.name before phrase := by
      rw [beginning, late_more h.ne_nil, beginning]
    have hw := awaited_readTo ctx (before ++ phrase)
    have htells : Tells ctx (readTo ctx (before ++ phrase)) t (beginning ctx.name before phrase) := by
      refine ⟨hat, ?_, ?_, ?_⟩
      · intro hnothing
        rw [← hw, hnothing] at ht
        contradiction
      · intro hoperand hliteral
        rw [← hw, hoperand] at ht
        cases t with
        | literal span => exact absurd rfl (hliteral span)
        | newline => contradiction
        | control k => contradiction
      · rintro m hp span rfl
        rw [h.eq_include hp] at hpath
        exact hpath span rfl
    obtain ⟨hstep, hat'⟩ := step_growsAt htells
    rw [← List.append_assoc, readTo_concat, hsame]
    exact ⟨hgrows.trans hstep, hat'⟩

theorem readTo_at (ctx : Context) (ts : List Token) : ∃ l, (readTo ctx ts).pending.At l := by
  by_cases hts : ts = []
  · subst hts
    exact ⟨.none, trivial⟩
  · obtain ⟨before, phrase, rfl, h⟩ := Phrase.exists_split hts
    by_cases hpath : ∃ span, phrase = [.control .includeFile, .literal span]
    · obtain ⟨span, rfl⟩ := hpath
      refine ⟨.none, at_of_awaited ?_⟩
      rw [awaited_readTo]
      have htakes := h.takes_path
      cases hw : awaited (before ++ [.control .includeFile, .literal span]) with
      | nothing => exact .inl rfl
      | operand => exact .inr rfl
      | name => simpa [hw, Awaited.takes] using htakes .newline
      | closing => simpa [hw, Awaited.takes] using htakes .newline
    · exact ⟨_, (phrase_growsAt h fun span he => hpath ⟨span, he⟩).2⟩

variable {a b : Nat}

theorem readTo_keeps {ts : List Token} (h : placeAt (readTo ctx ts).chunks a b = some l)
    (us : List Token) : placeAt (readTo ctx (ts ++ us)).chunks a b = some l := by
  induction us using List.reverseRecOn with
  | nil => simpa using h
  | append_singleton us t ih =>
    rw [← List.append_assoc, readTo_concat]
    by_cases hpath : ∃ m span, (readTo ctx (ts ++ us)).pending = .includePath m ∧ t = .literal span
    · obtain ⟨m, span, hp, rfl⟩ := hpath
      exact (step_path_grows hp span).keeps ih
    · have hnot : ∀ m, (readTo ctx (ts ++ us)).pending = .includePath m → ∀ span,
          t ≠ .literal span := fun m hp span he => hpath ⟨m, span, hp, he⟩
      have htells : ∃ l, Tells ctx (readTo ctx (ts ++ us)) t l := by
        obtain ⟨l, hat⟩ := readTo_at ctx (ts ++ us)
        cases hw : (readTo ctx (ts ++ us)).pending.awaited with
        | nothing => exact ⟨_, at_of_awaited (.inl hw), fun _ => rfl, by simp [hw], hnot⟩
        | operand => exact ⟨_, at_of_awaited (.inr hw), by simp [hw], fun _ _ => rfl, hnot⟩
        | name => exact ⟨l, hat, by simp [hw], by simp [hw], hnot⟩
        | closing => exact ⟨l, hat, by simp [hw], by simp [hw], hnot⟩
      obtain ⟨m, htells⟩ := htells
      exact (step_growsAt htells).1.keeps ih

theorem placeAt_readTokens (ctx : Context) (ts : List Token) :
    placeAt (readTokens ctx ts).chunks = placeAt (readTo ctx ts).chunks := by
  obtain ⟨l, hat⟩ := readTo_at ctx ts
  exact finish_places hat

end Literate.Reader
