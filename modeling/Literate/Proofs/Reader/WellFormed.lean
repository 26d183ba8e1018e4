import Literate.Proofs.Reader.Acceptance
import Literate.Proofs.Reader.Passage
import Literate.Proofs.Reader.Sources
import Literate.Proofs.Text.Words
import Literate.Proofs.Token.Canonical

/-! What every chunk that is read looks like, whatever is wrong with its source. Each step of the
reader, those that go on after an error included, leaves well formed chunks behind, and so does
each source that is spliced in. -/

namespace Literate

/-- The name of a reference stands on one line and has no white space around it. -/
structure IsReferenceName (name : Text) : Prop where
  ne_nil : name ≠ []
  line : Text.newline ∉ name
  left : ∀ d ∈ name.chars.head?, Text.isBlank d = false
  right : ∀ d ∈ name.chars.getLast?, Text.isBlank d = false

/-- A command that a chunk of code, or of prose, may hold. -/
def Command.Suits (code : Bool) (k : Command) : Prop :=
  match k.body with
  | .text _ => code = false
  | .code _ => code = true
  | .reference name => IsReferenceName name
  | .crossReference _ => True

structure Chunk.WellFormed (c : Chunk) : Prop where
  commands : ∀ k ∈ c.commands, k.Suits c.isCode
  apart : c.commands.IsChain fun a b => a.run? = none ∨ b.run? = none
  declares : c.identifiers ≠ [] → c.isCode = true
  identifiers : ∀ id ∈ c.identifiers, id ≠ [] ∧ ∀ d ∈ id.chars, Text.isBlank d = false
  location : ∀ k ∈ c.commands.head?, c.location = k.location

namespace Chunk

variable {c : Chunk}

theorem wellFormed_of_no_commands (hc : c.commands = []) (hi : c.identifiers = []) :
    c.WellFormed := by
  constructor <;> simp [hc, hi]

theorem suits_runBody (c : Chunk) (t : Text) (l : Location) :
    Command.Suits c.isCode ⟨c.runBody t, l⟩ := by
  cases h : c.isCode <;> simp [Command.Suits, runBody, h]

theorem WellFormed.append (h : c.WellFormed) {k : Command} (hk : k.Suits c.isCode)
    (hrun : ∀ last ∈ c.commands.getLast?, last.run? = none ∨ k.run? = none) :
    (c.append k).WellFormed where
  commands := by
    intro k' hk'
    rcases List.mem_append.mp hk' with hk' | hk'
    · exact h.commands k' hk'
    · rw [List.mem_singleton.mp hk']
      exact hk
  apart := by
    refine List.isChain_append.mpr ⟨h.apart, List.isChain_singleton _, ?_⟩
    intro last hlast k' hk'
    obtain rfl : k = k' := by simpa using hk'
    exact hrun last hlast
  declares := h.declares
  identifiers := h.identifiers
  location := by
    intro k' hk'
    by_cases hc : c.commands = []
    · have hkk : k = k' := by simpa [Chunk.append, hc] using hk'
      simp [Chunk.append, hc, hkk]
    · obtain ⟨first, rest, hcons⟩ := List.exists_cons_of_ne_nil hc
      have hfirst : first = k' := by simpa [Chunk.append, hcons] using hk'
      have hloc := h.location first (by simp [hcons])
      simp [Chunk.append, hcons, hloc, hfirst]

theorem extendRun?_eq_some {code : Bool} {t : Text} {k longer : Command}
    (h : extendRun? code t k = some longer) :
    longer.Suits code ∧ longer.location = k.location ∧ k.run?.isSome := by
  obtain ⟨body, location⟩ := k
  cases body <;> cases code <;> simp [extendRun?] at h <;> subst h <;>
    simp [Command.Suits, Command.run?]

theorem run?_of_extendRun? {code : Bool} {t : Text} {k : Command} (hk : k.Suits code)
    (h : extendRun? code t k = none) : k.run? = none := by
  obtain ⟨body, location⟩ := k
  cases body <;> simp_all [Command.Suits, extendRun?, Command.run?]

theorem WellFormed.appendText (h : c.WellFormed) (t : Text) (l : Location) :
    (c.appendText t l).WellFormed := by
  have hsuits := suits_runBody c t l
  cases hlast : c.commands.getLast? with
  | none =>
    simp only [Chunk.appendText, hlast]
    exact h.append hsuits (by simp [hlast])
  | some last =>
    obtain ⟨init, hinit⟩ := List.getLast?_eq_some_iff.mp hlast
    cases he : extendRun? c.isCode t last with
    | none =>
      have hrun := run?_of_extendRun? (h.commands last (by simp [hinit])) he
      simp only [Chunk.appendText, hlast, he]
      exact h.append hsuits (by simp [hlast, hrun])
    | some longer =>
      obtain ⟨hlonger, hloc, hrun⟩ := extendRun?_eq_some he
      have hc : c.appendText t l = { c with commands := init ++ [longer] } := by
        simp only [Chunk.appendText, hlast, he]
        rw [hinit, List.dropLast_concat]
      have hapart := h.apart
      have hlocation := h.location
      rw [hinit] at hapart hlocation
      rw [hc]
      refine ⟨?_, ?_, h.declares, h.identifiers, ?_⟩
      · intro k hk
        rcases List.mem_append.mp hk with hk | hk
        · exact h.commands k (by simp [hinit, hk])
        · rw [List.mem_singleton.mp hk]
          exact hlonger
      · obtain ⟨hfirst, -, hjoin⟩ := List.isChain_append.mp hapart
        refine List.isChain_append.mpr ⟨hfirst, List.isChain_singleton _, ?_⟩
        intro a ha b _
        have ha' := hjoin a ha last (by simp)
        -- the last command was a run, so the one before it is none
        exact .inl (ha'.resolve_right (by simpa [Option.isSome_iff_ne_none] using hrun))
      · intro k hk
        cases init with
        | nil =>
          obtain rfl : longer = k := by simpa using hk
          rw [hlocation last (by simp), hloc]
        | cons first rest => exact hlocation k (by simpa using hk)

end Chunk

theorem OptionLine.empty_applyWords (kind : Chunk.Kind) (ws : List Text) (acc : Chunk × List Text) :
    (applyWords kind ws acc).1.commands = acc.1.commands ∧
      (applyWords kind ws acc).1.identifiers = acc.1.identifiers := by
  have happly : ∀ (s : Setting) (value : Text) (c : Chunk),
      (s.apply value c).commands = c.commands ∧ (s.apply value c).identifiers = c.identifiers := by
    intro s value c
    cases s <;> exact ⟨rfl, rfl⟩
  fun_induction applyWords kind ws acc <;> simp_all

theorem OptionLine.empty_chunk {kind : Chunk.Kind} {line : List Char} {c : Chunk}
    {warnings : List Text} (h : chunk kind line = .ok (c, warnings)) :
    c.commands = [] ∧ c.identifiers = [] := by
  unfold chunk at h
  cases hw : words line with
  | error q => simp [hw] at h
  | ok ws =>
    simp only [hw, Except.ok.injEq] at h
    have hempty := empty_applyWords kind (ws.map Text.ofChars)
      ({ Chunk.ofKind kind [] with options := ws.map Text.ofChars }, [])
    rw [h] at hempty
    exact hempty

namespace Reader

/-- What is waited for leads to a well formed chunk. -/
def Pending.Sound : Pending → Prop
  | .options kind _ => kind.isCode = true
  | .opener chunk => chunk.isCode = true ∧ chunk.commands = [] ∧ chunk.identifiers = []
  | .referenceEnd name _ => name ≠ [] → IsReferenceName (Text.ofChars name)
  | _ => True

structure State.Sound (s : State) : Prop where
  before : ∀ c ∈ s.before, c.WellFormed
  current : s.current.WellFormed
  body : s.body = .code → s.current.isCode = true
  pending : s.pending.Sound

def Context.Sound (ctx : Context) : Prop :=
  ∀ path outcome failure, ctx.fetch path = .read outcome failure →
    ∀ c ∈ outcome.chunks, c.WellFormed

variable {ctx : Context} {s : State}

namespace State.Sound

theorem error (h : s.Sound) (message : Text) : (s.error message).Sound :=
  ⟨h.before, h.current, h.body, h.pending⟩

theorem warn (h : s.Sound) (message : Text) : (s.warn message).Sound :=
  ⟨h.before, h.current, h.body, h.pending⟩

theorem warnAll (h : s.Sound) (messages : List Text) : (s.warnAll messages).Sound := by
  induction messages generalizing s with
  | nil => exact h
  | cons m messages ih => exact ih (h.warn m)

theorem advance (h : s.Sound) (t : Token) : (s.advance t).Sound := by
  unfold State.advance
  split
  · exact ⟨h.before, h.current, h.body, h.pending⟩
  · exact h

theorem wait (h : s.Sound) {p : Pending} (hp : p.Sound) : ({ s with pending := p } : State).Sound :=
  ⟨h.before, h.current, h.body, hp⟩

theorem append (h : s.Sound) {body : Command.Body} {l : Location}
    (hk : Command.Suits s.current.isCode ⟨body, l⟩) (hrun : Command.run? ⟨body, l⟩ = none) :
    (s.append body l).Sound :=
  ⟨h.before, h.current.append hk fun _ _ => .inr hrun, h.body, h.pending⟩

theorem appendText (h : s.Sound) (t : Text) (l : Location) : (s.appendText t l).Sound where
  before := h.before
  current := h.current.appendText t l
  body hb := by
    have hcode : (s.current.appendText t l).isCode = s.current.isCode := by
      unfold Chunk.appendText
      split
      · split <;> rfl
      · rfl
    exact hcode.trans (h.body hb)
  pending := h.pending

theorem renew (h : s.Sound) {chunk : Chunk} (hc : chunk.commands = []) (hi : chunk.identifiers = [])
    {body : Body} (hb : body = .code → chunk.isCode = true) {p : Pending} (hp : p.Sound) :
    ({ s with before := s.before ++ [s.current], current := chunk, body := body,
              pending := p } : State).Sound where
  before := by
    intro c hc
    rcases List.mem_append.mp hc with hc | hc
    · exact h.before c hc
    · rw [List.mem_singleton.mp hc]
      exact h.current
  current := Chunk.wellFormed_of_no_commands hc hi
  body := hb
  pending := hp

theorem startAnonymous (h : s.Sound) : s.startAnonymous.Sound :=
  h.renew rfl rfl (by simp) h.pending

end State.Sound

theorem enter_sound (h : s.Sound) {chunk : Chunk} (hc : chunk.commands = [])
    (hi : chunk.identifiers = []) {body : Body} (hb : body = .code → chunk.isCode = true) :
    (enter chunk body s).Sound :=
  h.renew hc hi hb trivial

theorem resume_sound (h : s.Sound) (t : Token) : (resume ctx t s).Sound := by
  have hpending := h.pending
  unfold resume
  split
  next chunk hp =>
    rw [hp] at hpending
    obtain ⟨hcode, hcommands, hidentifiers⟩ := hpending
    split
    · refine enter_sound h ?_ ?_ (by simp)
      · exact hcommands
      · exact hidentifiers
    · exact enter_sound h hcommands hidentifiers fun _ => hcode
  next name l hp =>
    rw [hp] at hpending
    have hclear : ({ s with pending := .nothing } : State).Sound := h.wait trivial
    dsimp only
    split
    · exact hclear.error _
    next hname => exact hclear.append (hpending hname) rfl
  next name l hp =>
    have hclear : ({ s with pending := .nothing } : State).Sound := h.wait trivial
    dsimp only
    split
    · exact hclear.appendText _ _
    · exact hclear.error _
  · exact h

theorem expect_sound (h : s.Sound) (t : Token) : (expect ctx s t).Sound := by
  cases t with
  | newline => exact h
  | control k =>
    simp only [expect]
    split
    · exact resume_sound h _
    · exact resume_sound (h.error _) _
  | literal span =>
    simp only [expect]
    split
    · exact resume_sound h _
    · exact resume_sound (h.error _) _

theorem splice_sound (h : s.Sound) (path : Text) (l : Location) {o : Outcome}
    (ho : ∀ c ∈ o.chunks, c.WellFormed) (failure : Option Text) :
    (splice path l o failure s).Sound := by
  have hbefore : ∀ c ∈ s.before ++ [s.current] ++ o.chunks, c.WellFormed := by
    intro c hc
    rcases List.mem_append.mp hc with hc | hc
    · exact h.startAnonymous.before c hc
    · exact ho c hc
  have hempty : (Chunk.ofKind .anonymous []).WellFormed :=
    Chunk.wellFormed_of_no_commands rfl rfl
  cases failure <;> simp only [splice] <;> split <;> exact ⟨hbefore, hempty, nofun, h.pending⟩

theorem includeFile_sound (hctx : ctx.Sound) (h : s.Sound) (path : Text) (l : Location) :
    (includeFile ctx path l s).Sound := by
  unfold includeFile
  split
  · exact h.error _
  · split
    · exact h.error _
    · split
      · exact h.error _
      · split
        · exact h.warn _
        · exact h.error _
      next o failure hfetch => exact splice_sound h path l (hctx path o failure hfetch) failure

theorem describe_sound (h : s.Sound) {kind : Chunk.Kind} (hk : kind.isCode = true) (l : Location)
    (line : List Char) : (describe ctx kind l line s).Sound := by
  have hopener : ∀ {s : State} {chunk : Chunk} (message : Text), s.Sound → chunk.kind = kind →
      chunk.commands = [] → chunk.identifiers = [] →
      ({ (if chunk.name = [] then s.warn message else s) with
        pending := .opener { chunk with location := l } } : State).Sound := by
    intro s chunk message hs hkind hcommands hidentifiers
    have hp : (Pending.opener { chunk with location := l }).Sound :=
      ⟨by simpa [Chunk.isCode, hkind] using hk, hcommands, hidentifiers⟩
    split
    · exact (hs.warn message).wait hp
    · exact hs.wait hp
  unfold describe
  cases hline : OptionLine.chunk kind (Text.trimChars line) with
  | ok described =>
    obtain ⟨chunk, warnings⟩ := described
    obtain ⟨hcommands, hidentifiers⟩ := OptionLine.empty_chunk hline
    simp only [hline]
    exact hopener _ (h.warnAll _) (OptionLine.kind_chunk hline) hcommands hidentifiers
  | error quote =>
    simp only [hline]
    exact hopener _ (h.error _) rfl rfl rfl

theorem isReferenceName_trimChars {span : List Char} (hspan : '\n' ∉ span)
    (hne : Text.trimChars span ≠ []) : IsReferenceName (Text.ofChars (Text.trimChars span)) where
  ne_nil := mt Text.ofChars_eq_nil.mp hne
  line := by
    intro h
    obtain ⟨d, hd, hn⟩ := List.mem_flatMap.mp h
    rw [Text.newline_mem_utf8 hn] at hd
    exact hspan (Text.mem_of_mem_strip hd)
  left := by
    rw [Text.chars_ofChars]
    exact fun d hd => Text.head?_strip hd
  right := by
    rw [Text.chars_ofChars]
    exact fun d hd => Text.getLast?_strip hd

theorem operand_sound (hctx : ctx.Sound) (h : s.Sound) {span : List Char} (hspan : '\n' ∉ span) :
    (operand ctx s span).Sound := by
  have hpending := h.pending
  have hclear : ({ s with pending := .nothing } : State).Sound := h.wait trivial
  unfold operand
  split
  next kind l hp =>
    rw [hp] at hpending
    exact describe_sound h hpending l span
  · exact h.wait (isReferenceName_trimChars hspan)
  · exact h.wait trivial
  · dsimp only
    split
    next hb =>
      refine ⟨h.before, ?_, h.body, trivial⟩
      refine ⟨h.current.commands, h.current.apart, fun _ => h.body hb, ?_, h.current.location⟩
      intro id hid
      rcases List.mem_append.mp hid with hid | hid
      · exact h.current.identifiers id hid
      · obtain ⟨word, hword, rfl⟩ := List.mem_map.mp hid
        obtain ⟨hne, hsolid⟩ := Text.mem_runsWithout hword
        refine ⟨mt Text.ofChars_eq_nil.mp hne, ?_⟩
        rwa [Text.chars_ofChars]
    · exact hclear.warn _
  · exact includeFile_sound hctx hclear _ _
  · exact h

theorem openChunk_sound (h : s.Sound) {kind : Chunk.Kind} (hk : kind.isCode = true) (k : Control) :
    (openChunk ctx kind k s).Sound := by
  unfold openChunk
  dsimp only
  split
  · exact h.wait hk
  · exact (h.error _).wait hk

theorem closeBody_sound (h : s.Sound) (k : Control) : (closeBody ctx k s).Sound := by
  unfold closeBody
  dsimp only
  split
  · exact h.startAnonymous
  · exact (h.warn _).startAnonymous

theorem crossReference_sound (h : s.Sound) (kind : CrossReference) (k : Control) (l : Location) :
    (crossReference ctx kind k l s).Sound := by
  unfold crossReference
  dsimp only
  split
  · exact (h.warn _).append trivial rfl
  · exact h.append trivial rfl

theorem obey_sound (h : s.Sound) (l : Location) (t : Token) : (obey ctx l s t).Sound := by
  cases t with
  | newline => exact h.appendText _ l
  | literal span => exact h.appendText _ l
  | control k =>
    cases k with
    | literally => exact h.appendText _ l
    | outputChunk => exact openChunk_sound h rfl _
    | namedChunk => exact openChunk_sound h rfl _
    | closeCode => exact closeBody_sound h _
    | closeDocument => exact closeBody_sound h _
    | fileIndex => exact crossReference_sound h _ _ l
    | macroIndex => exact crossReference_sound h _ _ l
    | identifierIndex => exact crossReference_sound h _ _ l
    | openReference => exact h.wait trivial
    | openSubstitution => exact h.wait trivial
    | identifiers => exact h.wait trivial
    | includeFile => exact h.wait trivial
    | _ => exact h.error _

theorem retake_sound (h : s.Sound) (t : Token) : (retake ctx s t).Sound := by
  unfold retake
  split
  · exact obey_sound h _ t
  · exact expect_sound h t

theorem step_sound (hctx : ctx.Sound) (h : s.Sound) {t : Token}
    (ht : ∀ span, t = .literal span → '\n' ∉ span) : (step ctx s t).Sound := by
  have hcounted := h.advance t
  unfold step
  dsimp only
  split
  · exact obey_sound hcounted _ t
  · exact expect_sound hcounted t
  · exact expect_sound hcounted t
  · exact expect_sound hcounted t
  · split
    next span => exact operand_sound hctx hcounted (ht span rfl)
    · exact retake_sound (operand_sound hctx hcounted (by simp)) _

theorem foldl_step_sound (hctx : ctx.Sound) (h : s.Sound) {ts : List Token}
    (hts : ∀ span, .literal span ∈ ts → '\n' ∉ span) : (ts.foldl (step ctx) s).Sound := by
  induction ts generalizing s with
  | nil => exact h
  | cons t ts ih =>
    refine ih (step_sound hctx h ?_) fun span hspan => hts span (by simp [hspan])
    rintro span rfl
    exact hts span (by simp)

theorem abandon_sound (h : s.Sound) : (abandon ctx s).Sound := by
  have hpending := h.pending
  unfold abandon
  split
  next chunk hp =>
    rw [hp] at hpending
    exact enter_sound (h.error _) hpending.2.1 hpending.2.2 (by simp)
  · exact (h.error _).wait trivial
  · exact (h.error _).wait trivial
  · exact h

theorem finish_sound (hctx : ctx.Sound) (h : s.Sound) : (finish ctx s).Sound := by
  have hend : (abandon ctx (operand ctx s [])).Sound :=
    abandon_sound (operand_sound hctx h (by simp))
  unfold finish
  dsimp only
  split
  · exact hend
  · exact ⟨hend.before, hend.current, nofun, hend.pending⟩

theorem sound_start : ({} : State).Sound where
  before := by simp
  current := Chunk.wellFormed_of_no_commands rfl rfl
  body := nofun
  pending := trivial

theorem readTokens_wellFormed (hctx : ctx.Sound) (command : Char) (bytes : Text) :
    ∀ c ∈ (readTokens ctx (Token.ofText command bytes)).chunks, c.WellFormed := by
  have hlines : ∀ span, .literal span ∈ Token.ofText command bytes → '\n' ∉ span :=
    fun span hspan => (Token.wellFormed_scan command bytes.chars _ hspan).2.1
  have hend := finish_sound hctx (foldl_step_sound hctx sound_start hlines)
  exact hend.startAnonymous.before

/-- Whatever is read, to any depth of includes, is well formed. -/
theorem readSource_wellFormed (options : Options) (tree : FileTree) (depth : Nat)
    (reading : List Text) (name dir : Text) (source : Source) :
    ∀ c ∈ (readSource options tree depth reading name dir source).chunks, c.WellFormed :=
  readSource_induction options (fun _ hctx bytes => readTokens_wellFormed hctx _ bytes) tree depth
    reading name dir source

theorem load_wellFormed {options : Options} {tree : FileTree} {name : Text} {source : Source}
    {chunks : List Chunk} (h : (load options tree name source).chunks = .ok chunks) :
    ∀ c ∈ chunks, c.WellFormed ∧ ¬(c.kind = .anonymous ∧ c.commands = []) := by
  intro c hc
  obtain ⟨hmem, hkept⟩ := mem_of_load h hc
  refine ⟨readSource_wellFormed _ _ _ _ _ _ _ c hmem, ?_⟩
  rintro ⟨hkind, hcommands⟩
  simp [isVacuous, hkind, hcommands] at hkept

end Reader

end Literate
