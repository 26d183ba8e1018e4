import Literate.Proofs.Reader.WellFormed

/-! The headings of chunks. Names and styles are words of an option line, so that a loaded chunk has
no newline in them. A step of the reader keeps the headings there are, and adds at most one that it
describes, one that is empty, or those of a source that is spliced in. -/

namespace Literate

/-- What stands over the block of a chunk, as it was written: its name and its style. -/
def Chunk.heading (c : Chunk) : Text × Text := (c.name, c.style)

def OneLine (heading : Text × Text) : Prop :=
  Text.newline ∉ heading.1 ∧ Text.newline ∉ heading.2

theorem Text.newline_not_mem_ofChars {cs : List Char} (h : '\n' ∉ cs) : newline ∉ ofChars cs := by
  intro hmem
  obtain ⟨d, hd, hn⟩ := List.mem_flatMap.1 hmem
  exact h (newline_mem_utf8 hn ▸ hd)

theorem oneLine_nil : OneLine ([], []) := ⟨List.not_mem_nil, List.not_mem_nil⟩

namespace OptionLine

variable {kind : Chunk.Kind} {line : List Char}

def Scan.chars (s : Scan) : List Char := s.words.flatten ++ s.word.getD []

theorem Scan.chars_step (s : Scan) (c : Char) :
    (s.step c).chars = s.chars ∨ (s.step c).chars = s.chars ++ [c] := by
  unfold step chars
  cases s.quote with
  | some q =>
    dsimp only
    split
    · exact .inl rfl
    · exact .inr (by simp)
  | none =>
    dsimp only
    split
    · exact .inl rfl
    · split
      · cases s.word <;> exact .inl (by simp)
      · exact .inr (by simp)

/-- Words consist of characters of their line. -/
theorem mem_of_mem_words {ws : List (List Char)} (h : words line = .ok ws) {word : List Char}
    (hword : word ∈ ws) {c : Char} (hc : c ∈ word) : c ∈ line := by
  have hscan : ∀ s : Scan, ∀ d ∈ (line.foldl Scan.step s).chars, d ∈ s.chars ∨ d ∈ line := by
    clear h
    induction line with
    | nil => exact fun s d hd => .inl hd
    | cons a line ih =>
      intro s d hd
      rcases ih (s.step a) d hd with hd | hd
      · rcases s.chars_step a with ha | ha
        · exact .inl (ha ▸ hd)
        · rw [ha, List.mem_append, List.mem_singleton] at hd
          exact hd.imp id fun hd => by simp [hd]
      · exact .inr (List.mem_cons_of_mem a hd)
  unfold words at h
  dsimp only at h
  split at h
  · cases h
  · have hmem : c ∈ (line.foldl Scan.step {}).chars := by
      rw [← Except.ok.inj h, List.mem_append] at hword
      unfold Scan.chars
      rcases hword with hword | hword
      · exact List.mem_append_left _ (List.mem_flatten_of_mem hword hc)
      · rw [Option.mem_toList] at hword
        simp [Option.mem_def.1 hword, hc]
    exact (hscan {} c hmem).resolve_left (by simp [Scan.chars])

theorem Setting.oneLine_apply {c : Chunk} (hc : OneLine c.heading) {value : Text}
    (hvalue : Text.newline ∉ value) (s : Setting) : OneLine (s.apply value c).heading := by
  cases s with
  | style => exact ⟨hc.1, hvalue⟩
  | _ => exact hc

theorem oneLine_applyWords {ws : List Text} (hws : ∀ word ∈ ws, Text.newline ∉ word)
    {acc : Chunk × List Text} (hacc : OneLine acc.1.heading) :
    OneLine (applyWords kind ws acc).1.heading := by
  have hempty : Text.newline ∉ ([] : Text) := List.not_mem_nil
  fun_induction applyWords kind ws acc with
  | case1 acc => exact hacc
  | case2 word c warnings _ => exact ⟨hws word (by simp), hacc.2⟩
  | case3 word c warnings _ s _ => exact s.oneLine_apply hacc hempty
  | case4 word c warnings _ _ => exact hacc
  | case5 word value rest c warnings _ =>
    refine ⟨fun hmem => ?_, hacc.2⟩
    have hspace : Text.ofString " " = [32] := by decide
    rw [Text.join, hspace] at hmem
    rcases Text.mem_intercalate hmem with hn | ⟨w, hw, hn⟩
    · exact absurd hn (by decide)
    · exact hws w hw hn
  | case6 word value rest c warnings _ s _ _ ih =>
    exact ih (fun w hw => hws w (by simp [hw])) (s.oneLine_apply hacc (hws value (by simp)))
  | case7 word value rest c warnings _ s _ _ ih =>
    exact ih (fun w hw => hws w (List.mem_cons_of_mem word hw)) (s.oneLine_apply hacc hempty)
  | case8 word value rest c warnings _ _ ih =>
    exact ih (fun w hw => hws w (List.mem_cons_of_mem word hw)) hacc

/-- A line describes a chunk whose heading has no newline. -/
theorem oneLine_chunk {c : Chunk} {warnings : List Text} (h : chunk kind line = .ok (c, warnings))
    (hline : '\n' ∉ line) : OneLine c.heading := by
  unfold chunk at h
  cases hwords : words line with
  | error q => simp [hwords] at h
  | ok ws =>
    simp only [hwords, Except.ok.injEq] at h
    have hws : ∀ word ∈ ws.map Text.ofChars, Text.newline ∉ word := by
      intro word hword
      obtain ⟨cs, hcs, rfl⟩ := List.mem_map.1 hword
      exact Text.newline_not_mem_ofChars fun hn => hline (mem_of_mem_words hwords hcs hn)
    let empty : Chunk := { Chunk.ofKind kind [] with options := ws.map Text.ofChars }
    have hempty : OneLine empty.heading := oneLine_nil
    have happly : OneLine (applyWords kind (ws.map Text.ofChars) (empty, [])).1.heading :=
      oneLine_applyWords hws hempty
    rw [h] at happly
    exact happly

end OptionLine

namespace Reader

/-- The chunk whose body is waited for. -/
def Pending.described : Pending → List Chunk
  | .opener chunk => [chunk]
  | _ => []

/-- The headings of the chunks so far, and of the one that is about to be opened. -/
def State.headings (s : State) : List (Text × Text) :=
  (s.before ++ [s.current] ++ s.pending.described).map Chunk.heading

variable {ctx : Context} {s : State}

theorem heading_appendText (c : Chunk) (t : Text) (l : Location) :
    (c.appendText t l).heading = c.heading := by
  unfold Chunk.appendText
  split
  · split <;> rfl
  · rfl

theorem headings_appendText (t : Text) (l : Location) :
    (s.appendText t l).headings = s.headings := by
  simp [State.headings, State.appendText, heading_appendText]

theorem headings_resume (t : Token) : (resume ctx t s).headings = s.headings := by
  unfold resume
  split
  next chunk hp => split <;> simp [State.headings, enter, hp, Pending.described, Chunk.heading]
  next name l hp =>
    have hclear : ({ s with pending := .nothing } : State).headings = s.headings := by
      simp [State.headings, hp, Pending.described]
    dsimp only
    split
    · exact hclear
    · exact Eq.trans (by simp [State.headings, State.append, Chunk.append, Chunk.heading]) hclear
  next name l hp =>
    have hclear : ({ s with pending := .nothing } : State).headings = s.headings := by
      simp [State.headings, hp, Pending.described]
    dsimp only
    split
    · rw [headings_appendText, hclear]
    · exact hclear
  · rfl

theorem headings_expect (t : Token) : (expect ctx s t).headings = s.headings := by
  cases t with
  | newline => rfl
  | control k =>
    simp only [expect]
    split <;> exact headings_resume _
  | literal span =>
    simp only [expect]
    split <;> exact headings_resume _

/-- No newline in any heading. -/
def State.Headed (s : State) : Prop := ∀ h ∈ s.headings, OneLine h

def Context.Headed (ctx : Context) : Prop :=
  ∀ path outcome failure, ctx.fetch path = .read outcome failure →
    ∀ c ∈ outcome.chunks, OneLine c.heading

namespace State.Headed

theorem of_eq (h : s.Headed) {t : State} (ht : t.headings = s.headings) : t.Headed :=
  fun heading hheading => h heading (ht ▸ hheading)

/-- After chunks that are put behind those there are, and another chunk to be waited for. -/
theorem renew (h : s.Headed) {t : State} {more : List Chunk}
    (ht : t.headings = (s.before ++ [s.current] ++ more).map Chunk.heading)
    (hmore : ∀ c ∈ more, OneLine c.heading) : t.Headed := by
  intro heading hheading
  rw [ht, List.map_append, List.mem_append] at hheading
  rcases hheading with hold | hnew
  · refine h heading ?_
    rw [headings, List.map_append]
    exact List.mem_append_left _ hold
  · obtain ⟨c, hc, rfl⟩ := List.mem_map.1 hnew
    exact hmore c hc

theorem described (h : s.Headed) : ∀ c ∈ s.pending.described, OneLine c.heading := by
  intro c hc
  refine h _ ?_
  rw [headings, List.map_append]
  exact List.mem_append_right _ (List.mem_map_of_mem hc)

theorem wait (h : s.Headed) {p : Pending} (hp : ∀ c ∈ p.described, OneLine c.heading) :
    ({ s with pending := p } : State).Headed := h.renew rfl hp

theorem startAnonymous (h : s.Headed) : s.startAnonymous.Headed := by
  have hheadings : s.startAnonymous.headings = (s.before ++ [s.current] ++
      Chunk.ofKind .anonymous [] :: s.pending.described).map Chunk.heading := by
    simp [headings, State.startAnonymous]
  refine h.renew hheadings fun c hc => ?_
  rcases List.mem_cons.1 hc with rfl | hc
  · exact oneLine_nil
  · exact h.described c hc

end State.Headed

theorem headed_describe (h : s.Headed) (kind : Chunk.Kind) (l : Location) {line : List Char}
    (hline : '\n' ∉ line) : (describe ctx kind l line s).Headed := by
  have htrimmed : '\n' ∉ Text.trimChars line := fun hn => hline (Text.mem_of_mem_strip hn)
  have hopener : ∀ {t : State} {chunk : Chunk} (message : Text), t.headings = s.headings →
      OneLine chunk.heading →
      ({ (if chunk.name = [] then t.warn message else t) with
        pending := .opener { chunk with location := l } } : State).Headed := by
    intro t chunk message ht hchunk
    have hp : ∀ c ∈ (Pending.opener { chunk with location := l }).described, OneLine c.heading := by
      intro c hc
      rw [List.mem_singleton.1 hc]
      exact hchunk
    split
    · exact State.Headed.wait (h.of_eq ht) hp
    · exact State.Headed.wait (h.of_eq ht) hp
  have hwarned : ∀ (messages : List Text) (t : State),
      (t.warnAll messages).headings = t.headings := by
    intro messages
    induction messages with
    | nil => exact fun _ => rfl
    | cons m messages ih => exact fun t => ih (t.warn m)
  unfold describe
  cases hchunk : OptionLine.chunk kind (Text.trimChars line) with
  | ok described =>
    simp only [hchunk]
    exact hopener _ (hwarned _ s) (OptionLine.oneLine_chunk hchunk htrimmed)
  | error quote =>
    simp only [hchunk]
    exact hopener _ rfl ⟨Text.newline_not_mem_ofChars htrimmed, List.not_mem_nil⟩

theorem headed_includeFile (hctx : ctx.Headed) (h : s.Headed) (path : Text) (l : Location) :
    (includeFile ctx path l s).Headed := by
  unfold includeFile
  split
  · exact h.of_eq rfl
  · split
    · exact h.of_eq rfl
    · split
      · exact h.of_eq rfl
      · split
        · exact h.of_eq rfl
        · exact h.of_eq rfl
      next o failure hfetch =>
        -- what was pending goes behind the chunks of the source, and those behind the current one
        have hspliced : (splice path l o failure s).headings = (s.before ++ [s.current] ++
            (o.chunks ++ Chunk.ofKind .anonymous [] :: s.pending.described)).map Chunk.heading := by
          cases failure <;> simp only [splice] <;> split <;> simp [State.headings, State.error]
        refine h.renew hspliced fun c hc => ?_
        rcases List.mem_append.1 hc with hc | hc
        · exact hctx path o failure hfetch c hc
        · rcases List.mem_cons.1 hc with rfl | hc
          · exact oneLine_nil
          · exact h.described c hc

theorem headed_operand (hctx : ctx.Headed) (h : s.Headed) {span : List Char} (hspan : '\n' ∉ span) :
    (operand ctx s span).Headed := by
  have hclear : ({ s with pending := .nothing } : State).Headed := h.wait nofun
  unfold operand
  split
  next kind l _ => exact headed_describe h kind l hspan
  · exact h.wait nofun
  · exact h.wait nofun
  · dsimp only
    split
    · exact hclear.of_eq (by simp [State.headings, Chunk.heading])
    · exact hclear.of_eq rfl
  · exact headed_includeFile hctx hclear _ _
  · exact h

theorem headed_openChunk (h : s.Headed) (kind : Chunk.Kind) (k : Control) :
    (openChunk ctx kind k s).Headed := by
  unfold openChunk
  dsimp only
  split
  · exact h.wait nofun
  · exact State.Headed.wait (h.of_eq rfl) nofun

theorem headed_closeBody (h : s.Headed) (k : Control) : (closeBody ctx k s).Headed := by
  unfold closeBody
  dsimp only
  split
  · exact h.startAnonymous
  · exact State.Headed.startAnonymous (h.of_eq rfl)

theorem headings_crossReference (kind : CrossReference) (k : Control) (l : Location) :
    (crossReference ctx kind k l s).headings = s.headings := by
  unfold crossReference
  dsimp only
  split <;> simp [State.headings, State.append, State.warn, Chunk.append, Chunk.heading]

theorem headed_obey (h : s.Headed) (l : Location) (t : Token) : (obey ctx l s t).Headed := by
  cases t with
  | newline => exact h.of_eq (headings_appendText _ l)
  | literal span => exact h.of_eq (headings_appendText _ l)
  | control k =>
    cases k with
    | literally => exact h.of_eq (headings_appendText _ l)
    | outputChunk => exact headed_openChunk h _ _
    | namedChunk => exact headed_openChunk h _ _
    | closeCode => exact headed_closeBody h _
    | closeDocument => exact headed_closeBody h _
    | fileIndex => exact h.of_eq (headings_crossReference _ _ l)
    | macroIndex => exact h.of_eq (headings_crossReference _ _ l)
    | identifierIndex => exact h.of_eq (headings_crossReference _ _ l)
    | openReference => exact h.wait nofun
    | openSubstitution => exact h.wait nofun
    | identifiers => exact h.wait nofun
    | includeFile => exact h.wait nofun
    | _ => exact h.of_eq rfl

theorem headed_step (hctx : ctx.Headed) (h : s.Headed) {t : Token}
    (ht : ∀ span, t = .literal span → '\n' ∉ span) : (step ctx s t).Headed := by
  have hcounted : (s.advance t).Headed := h.of_eq (by unfold State.advance; split <;> rfl)
  have hretake : ∀ {s : State}, s.Headed → (retake ctx s t).Headed := by
    intro s h
    unfold retake
    split
    · exact headed_obey h _ t
    · exact h.of_eq (headings_expect t)
  unfold step
  dsimp only
  split
  · exact headed_obey hcounted _ t
  · exact hcounted.of_eq (headings_expect t)
  · exact hcounted.of_eq (headings_expect t)
  · exact hcounted.of_eq (headings_expect t)
  · split
    next span => exact headed_operand hctx hcounted (ht span rfl)
    · exact hretake (headed_operand hctx hcounted (by simp))

theorem headings_abandon : (abandon ctx s).headings = s.headings := by
  unfold abandon
  split
  next chunk hp => simp [State.headings, enter, hp, Pending.described, State.error]
  next hp => simp [State.headings, hp, Pending.described, State.error]
  next hp => simp [State.headings, hp, Pending.described, State.error]
  · rfl

theorem headed_finish (hctx : ctx.Headed) (h : s.Headed) : (finish ctx s).Headed := by
  have hend : (abandon ctx (operand ctx s [])).Headed :=
    (headed_operand hctx h (by simp)).of_eq headings_abandon
  unfold finish
  dsimp only
  split
  · exact hend
  · exact hend.of_eq rfl

theorem oneLine_readTokens (hctx : ctx.Headed) (bytes : Text) :
    ∀ c ∈ (readTokens ctx (Token.ofText ctx.command bytes)).chunks, OneLine c.heading := by
  have hstart : ({} : State).Headed := by
    intro heading hheading
    rw [List.mem_singleton.1 hheading]
    exact oneLine_nil
  have hread : ((Token.ofText ctx.command bytes).foldl (step ctx) {}).Headed := by
    refine List.foldlRecOn _ (step ctx) hstart fun s hs t ht => headed_step hctx hs ?_
    rintro span rfl
    exact (Token.wellFormed_scan ctx.command bytes.chars _ ht).2.1
  intro c hc
  refine headed_finish hctx hread _ ?_
  rw [State.headings, List.map_append]
  exact List.mem_append_left _ (List.mem_map_of_mem hc)

/-- The name and the style of a chunk that is loaded have no newline. -/
theorem oneLine_load {options : Options} {tree : FileTree} {name : Text} {source : Source}
    {chunks : List Chunk} (h : (load options tree name source).chunks = .ok chunks) :
    ∀ c ∈ chunks, OneLine c.heading :=
  fun c hc => readSource_induction (P := fun o => ∀ c ∈ o.chunks, OneLine c.heading) options
    (fun _ hctx bytes => oneLine_readTokens hctx bytes) _ _ _ _ _ _ c (mem_of_load h hc).1

end Reader

end Literate
