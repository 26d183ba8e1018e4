import Literate.Settings
import Literate.Proofs.Chunk.PlainName
import Literate.Proofs.Reader.Passage
import Literate.Proofs.Text.Words

/-! Loading undoes printing: the source of a canonical document is read without errors, and the
chunks that it is read as are those of the document. -/

namespace Literate.Reader

variable {ctx : Context} {s t : State}

/-- The reader is at rest and has added commands to the current chunk, and nothing else. -/
structure Extends (bodies : List Command.Body) (s t : State) : Prop where
  pending : t.pending = .nothing
  body : t.body = s.body
  before : t.before = s.before
  errors : t.errors = s.errors
  current : t.current =
    { s.current with location := t.current.location, commands := t.current.commands }
  commands : t.current.commands.map Command.body = s.current.commands.map Command.body ++ bodies

theorem Extends.refl (hs : s.pending = .nothing) : Extends [] s s :=
  ⟨hs, rfl, rfl, rfl, rfl, by simp⟩

theorem Extends.trans {a b : List Command.Body} {u : State} (h : Extends a s t)
    (h' : Extends b t u) : Extends (a ++ b) s u where
  pending := h'.pending
  body := h'.body.trans h.body
  before := h'.before.trans h.before
  errors := h'.errors.trans h.errors
  current := by
    rw [h'.current, h.current]
  commands := by
    rw [h'.commands, h.commands, List.append_assoc]

theorem Extends.isCode {bodies : List Command.Body} (h : Extends bodies s t) :
    t.current.isCode = s.current.isCode := by
  rw [h.current]
  rfl

/-- The run that a chunk ends in, if it ends in one, depends on the last command alone. -/
def EndsInRun (c : Chunk) : Prop := ∃ k ∈ c.commands.getLast?, k.run? ≠ none

theorem Extends.endsInRun {k : Command} (h : Extends [k.body] s t) :
    EndsInRun t.current ↔ k.run? ≠ none := by
  obtain ⟨init, last, hl⟩ : ∃ init last, t.current.commands = init ++ [last] := by
    have hne : t.current.commands ≠ [] := by
      intro he
      have hc := h.commands
      simp [he] at hc
    exact ⟨_, _, (List.dropLast_concat_getLast hne).symm⟩
  have hb : last.body = k.body := by
    have hc := h.commands
    rw [hl, List.map_append] at hc
    exact List.singleton_inj.mp (List.append_inj_right' hc rfl)
  simp [EndsInRun, hl, Command.run?, hb]

theorem takeRun_extends (ctx : Context) (hs : s.pending = .nothing) {cs : List Char} (hne : cs ≠ [])
    (hrun : ¬EndsInRun s.current) :
    Extends [s.current.runBody (Text.ofChars cs)] s (s.takeRun ctx cs) := by
  have hr : ∀ k ∈ s.current.commands.getLast?, k.run? = none := by
    intro k hk
    by_contra hn
    exact hrun ⟨k, hk, hn⟩
  have he : s.takeRun ctx cs = { s with
      newlines := s.newlines + cs.count '\n'
      current := s.current.append ⟨s.current.runBody (Text.ofChars cs), s.here ctx⟩ } := by
    rw [State.takeRun, if_neg hne, Chunk.appendText_of_no_run hr]
  rw [he]
  exact ⟨hs, rfl, rfl, rfl, rfl, by simp [Chunk.append]⟩

theorem append_extends (hs : s.pending = .nothing) (body : Command.Body) (l : Location) :
    Extends [body] s (s.append body l) :=
  ⟨hs, rfl, rfl, rfl, rfl, by simp [State.append, Chunk.append]⟩

theorem trimChars_blank {command : Char} {name : Text} (h : IsOperand command name) :
    Text.trimChars (' ' :: (name.chars ++ [' '])) = name.chars :=
  Text.strip_between (by decide) (by decide) h.left h.right

theorem chars_ne_nil {name : Text} (hu : name.isUtf8 = true) (hne : name ≠ []) :
    name.chars ≠ [] := by
  intro he
  apply hne
  rw [← Text.ofChars_chars hu, he]
  rfl

/-- The option line of a plain name is taken without an error. -/
theorem describe_plain (ctx : Context) (kind : Chunk.Kind) (l : Location) (s : State) {name : Text}
    (h : IsChunkName ctx.command name) :
    ∃ options log, Text.join " " options = name ∧
      describe ctx kind l (' ' :: (name.chars ++ [' '])) s =
        { s with
          log
          pending := .opener { Chunk.ofKind kind name with options, location := l } } := by
  have hblank : Text.isBlank ' ' = true := by decide
  have hh : name.chars.head? ≠ some ' ' := by
    intro he
    simpa [hblank] using h.left ' ' he
  have hl : name.chars.getLast? ≠ some ' ' := by
    intro he
    simpa [hblank] using h.right ' ' he
  obtain ⟨options, hj, hchunk⟩ :=
    OptionLine.chunk_plain kind h.unquoted h.single hh hl h.undashed
  rw [Text.ofChars_chars h.utf8] at hj hchunk
  refine ⟨options, (describe ctx kind l (' ' :: (name.chars ++ [' '])) s).log, hj, ?_⟩
  simp only [describe, trimChars_blank h.toIsOperand, hchunk, List.map_nil, State.warnAll,
    List.foldl_nil]
  split <;> rfl

/-- What the text of a chunk is read as. -/
def Body.ofKind : Chunk.Kind → Body
  | .anonymous => .top
  | .document => .document
  | _ => .code

theorem closer_of_frame {kind : Chunk.Kind} {announcing opening closing : Control}
    (hk : kind.frame? = some (announcing, opening, closing)) (hs : s.body = Body.ofKind kind) :
    s.body ≠ .top ∧ s.closer = closing := by
  rw [State.closer, hs]
  cases kind <;> simp_all [Chunk.Kind.frame?, Body.ofKind]

/-- The reader has begun the body of an empty chunk. -/
structure Opens (kind : Chunk.Kind) (name : Text) (s t : State) : Prop where
  pending : t.pending = .nothing
  body : t.body = Body.ofKind kind
  before : t.before = s.before ++ [s.current]
  errors : t.errors = s.errors
  current : ∃ options l, Text.join " " options = name ∧
    t.current = { Chunk.ofKind kind name with options, location := l }

def State.declare (s : State) (ids : List Text) : State :=
  { s with current := { s.current with identifiers := s.current.identifiers ++ ids } }

/-- The control that closes the open body starts a prose chunk. -/
theorem closeBody_closer (ctx : Context) (hm : s.body ≠ .top) (l : Location) :
    obey ctx l s (.control s.closer) = s.startAnonymous := by
  cases hbody : s.body with
  | top => exact absurd hbody hm
  | code => simp [State.closer, hbody, obey, closeBody]
  | document => simp [State.closer, hbody, obey, closeBody]

theorem step_closer (hs : s.pending = .nothing) (hm : s.body ≠ .top) :
    step ctx s (.control s.closer) = s.startAnonymous := by
  rw [← closeBody_closer ctx hm (s.here ctx)]
  simp [step, hs, State.advance]

/-- The reader is at rest between chunks. -/
structure AtRest (s : State) : Prop where
  pending : s.pending = .nothing
  body : s.body = .top

theorem finish_atRest (ctx : Context) (hs : AtRest s) : finish ctx s = s := by
  simp [finish, operand, abandon, hs.pending, hs.body]

/-- A chunk as it is read: the words of its option line make up its name. -/
def Renders (c d : Chunk) : Prop := d.essence = c.essence ∧ Text.join " " d.options = d.name

/-- The chunks that a state shows: all but prose that says nothing. -/
def State.shown (s : State) : List Chunk := (s.before ++ [s.current]).filter fun c => !isVacuous c

@[simp] theorem isVacuous_prose : isVacuous (Chunk.ofKind .anonymous []) = true := rfl

/-- Identifiers with single blanks between them make up an operand that is split back into them. -/
theorem identifiers_operand {command : Char} (hb : command ≠ ' ') {ids : List Text}
    (hids : ∀ id ∈ ids, IsIdentifier command id) :
    '\n' ∉ [' '].intercalate (ids.map Text.chars) ∧
      Token.spellsAny command ([' '].intercalate (ids.map Text.chars)) = false ∧
      (Text.wordsOfChars (' ' :: [' '].intercalate (ids.map Text.chars) ++ [' '])).map
        Text.ofChars = ids := by
  have hwords : ∀ w ∈ ids.map Text.chars, w ≠ [] ∧ ∀ d ∈ w, Text.isBlank d = false := by
    intro w hw
    obtain ⟨id, hid, rfl⟩ := List.mem_map.mp hw
    exact ⟨chars_ne_nil (hids id hid).utf8 (hids id hid).nonempty, (hids id hid).solid⟩
  refine ⟨?_, ?_, ?_⟩
  · intro hn
    rcases Text.mem_intercalate hn with h | ⟨w, hw, hd⟩
    · exact absurd h (by decide)
    · exact absurd ((hwords w hw).2 _ hd) (by decide)
  · apply Token.spellsAny_intercalate hb
    intro w hw
    obtain ⟨id, hid, rfl⟩ := List.mem_map.mp hw
    exact (hids id hid).quiet
  · rw [Text.wordsOfChars, Text.runsWithout_intercalate hwords (by decide), List.map_map]
    conv_rhs => rw [← List.map_id ids]
    exact List.map_congr_left fun id hid => Text.ofChars_chars (hids id hid).utf8

section

variable (hc : ctx.command ≠ '\n') (hb : ctx.command ≠ ' ')

include hc hb

theorem reads_reference (hs : s.pending = .nothing) {name : Text} (hne : name ≠ [])
    (h : IsOperand ctx.command name) :
    ∃ t, Reads ctx s (bracket ctx.command .openReference name.chars .closeReference) t ∧
      Extends [.reference name] s t := by
  refine ⟨s.append (.reference name) (s.here ctx), ?_, append_extends hs _ _⟩
  apply reads_bracket hc hb h.line h.quiet
  simp [step, hs, obey, State.advance, operand, expect, wanted, resume, trimChars_blank h,
    chars_ne_nil h.utf8 hne, Text.ofChars_chars h.utf8, State.append]

theorem reads_opening (hs : s.pending = .nothing) (ht : s.body = .top) {name : Text}
    (h : IsChunkName ctx.command name) {kind : Chunk.Kind} {announcing opening closing : Control}
    (hk : kind.frame? = some (announcing, opening, closing)) :
    ∃ t, Reads ctx s (bracket ctx.command announcing name.chars opening) t ∧
      Opens kind name s t := by
  -- the reader learns of a document chunk from its opener only
  let described : Chunk.Kind := if announcing = .outputChunk then .output else .named
  obtain ⟨options, log, hj, hd⟩ := describe_plain ctx described (s.here ctx)
    { s with pending := .options described (s.here ctx) } h
  have hcontrol : step ctx s (.control announcing) =
      { s with pending := .options described (s.here ctx) } := by
    cases kind <;> simp only [Chunk.Kind.frame?, Option.some.injEq, Prod.mk.injEq,
      reduceCtorEq] at hk
    all_goals
      obtain ⟨rfl, -, -⟩ := hk
      simp [step, hs, obey, State.advance, openChunk, ht, described, State.here]
  have hname : step ctx { s with pending := .options described (s.here ctx) }
      (.literal (' ' :: name.chars ++ [' '])) = { s with
        log
        pending :=
          .opener { Chunk.ofKind described name with options, location := s.here ctx } } := by
    simpa [step, operand, State.advance] using hd
  refine ⟨_, reads_bracket hc hb h.line h.quiet announcing opening rfl, ?_⟩
  simp only [List.foldl_cons, List.foldl_nil, hcontrol, hname]
  cases kind <;> simp only [Chunk.Kind.frame?, Option.some.injEq, Prod.mk.injEq,
    reduceCtorEq] at hk
  all_goals
    obtain ⟨rfl, rfl, rfl⟩ := hk
    exact ⟨rfl, rfl, rfl, rfl, options, s.here ctx, hj, rfl⟩

theorem reads_command (hs : s.pending = .nothing) {k : Command}
    (hk : k.IsCanonical ctx.command s.current.isCode) (hrun : EndsInRun s.current → k.run? = none) :
    ∃ t, Reads ctx s (k.print ctx.command) t ∧ Extends [k.body] s t := by
  have run : ∀ t : Text, t ≠ [] → t.isUtf8 = true → k.run? ≠ none →
      s.current.runBody t = k.body →
      ∃ u, Reads ctx s (escape ctx.command t.chars) u ∧ Extends [k.body] s u := by
    intro t hne hu hr hbody
    have hx := takeRun_extends ctx hs (chars_ne_nil hu hne) (fun h => hr (hrun h))
    rw [Text.ofChars_chars hu, hbody] at hx
    exact ⟨_, reads_escape hs hc t.chars, hx⟩
  obtain ⟨body, l⟩ := k
  cases body with
  | text t =>
    obtain ⟨hcode, hne, hu⟩ := hk
    exact run t hne hu (by simp [Command.run?]) (by simp [Chunk.runBody, hcode])
  | code t =>
    obtain ⟨hcode, hne, hu⟩ := hk
    exact run t hne hu (by simp [Command.run?]) (by simp [Chunk.runBody, hcode])
  | reference name => exact reads_reference hc hb hs hk.1 hk.2
  | crossReference kind =>
    refine ⟨_, reads_control hs hc kind.control, ?_⟩
    have hx : obey ctx (s.here ctx) s (.control kind.control) =
        crossReference ctx kind kind.control (s.here ctx) s := by
      cases kind <;> rfl
    rw [hx, crossReference]
    split
    · exact ⟨hs, rfl, rfl, rfl, rfl, by simp [State.append, Chunk.append, State.warn]⟩
    · exact append_extends hs _ _

theorem reads_commands (hs : s.pending = .nothing) {ks : List Command}
    (hk : ∀ k ∈ ks, k.IsCanonical ctx.command s.current.isCode)
    (ha : ks.IsChain fun a b => a.run? = none ∨ b.run? = none)
    (hrun : EndsInRun s.current → ∀ k ∈ ks.head?, k.run? = none) :
    ∃ t, Reads ctx s (ks.flatMap (Command.print ctx.command)) t ∧
      Extends (ks.map Command.body) s t := by
  induction ks generalizing s with
  | nil => exact ⟨s, Reads.nil ctx s, Extends.refl hs⟩
  | cons k ks ih =>
    obtain ⟨t, hr, hx⟩ := reads_command hc hb hs (hk k (by simp)) (fun h => hrun h k (by simp))
    have hrest : EndsInRun t.current → ∀ l ∈ ks.head?, l.run? = none := by
      intro he l hl
      have hkr := hx.endsInRun.mp he
      obtain ⟨tail, rfl⟩ := List.head?_eq_some_iff.mp hl
      exact (List.isChain_cons_cons.mp ha).1.resolve_left hkr
    obtain ⟨u, hr', hx'⟩ := ih hx.pending
      (fun l hl => by rw [hx.isCode]; exact hk l (by simp [hl])) ha.tail hrest
    exact ⟨u, by simpa using hr.append hr', by simpa using hx.trans hx'⟩

theorem reads_end (hs : s.pending = .nothing) (hm : s.body ≠ .top) {c : Chunk}
    (hids : ∀ id ∈ c.identifiers, IsIdentifier ctx.command id)
    (hcode : c.identifiers ≠ [] → s.body = .code) :
    Reads ctx s (c.printEnd ctx.command s.closer) (s.declare c.identifiers).startAnonymous := by
  by_cases hnone : c.identifiers = []
  · have hsame : s.declare c.identifiers = s := by simp [State.declare, hnone]
    rw [hsame, Chunk.printEnd, if_pos hnone, ← closeBody_closer ctx hm (s.here ctx)]
    exact reads_control hs hc s.closer
  · rw [Chunk.printEnd, if_neg hnone]
    obtain ⟨hline, hquiet, hfields⟩ := identifiers_operand hb hids
    have hcode' := hcode hnone
    have hdeclare : step ctx { s with pending := .identifiers }
        (.literal (' ' :: [' '].intercalate (c.identifiers.map Text.chars) ++ [' '])) =
        s.declare c.identifiers := by
      simp only [State.declare, step, State.advance, operand, hcode', hfields, if_true,
        reduceCtorEq, if_false]
      rw [← hs]
    have hstart : step ctx s (.control .identifiers) = { s with pending := .identifiers } := by
      simp [step, hs, obey, State.advance]
    apply reads_bracket hc hb hline hquiet .identifiers s.closer
    simp only [List.foldl_cons, List.foldl_nil, hstart, hdeclare]
    exact step_closer hs hm

theorem reads_framed {c : Chunk} (hcan : c.IsCanonical ctx.command) (hk : c.kind ≠ .anonymous)
    (hs : AtRest s) :
    ∃ t d, Reads ctx s (c.print ctx.command) t ∧ AtRest t ∧ t.errors = s.errors ∧
      t.before = s.before ++ [s.current, d] ∧ t.current = Chunk.ofKind .anonymous [] ∧
      Renders c d := by
  obtain ⟨announcing, opening, closing, hf⟩ :
      ∃ announcing opening closing, c.kind.frame? = some (announcing, opening, closing) := by
    cases hkind : c.kind <;> simp_all [Chunk.Kind.frame?]
  obtain ⟨t, hrt, ht⟩ := reads_opening hc hb hs.pending hs.body hcan.name hf
  obtain ⟨options, l, hj, hcur⟩ := ht.current
  obtain ⟨u, hru, hu⟩ := reads_commands hc hb ht.pending
    (by rw [hcur]; exact hcan.commands) hcan.apart (by simp [hcur, EndsInRun])
  obtain ⟨hm, hclose⟩ := closer_of_frame hf (hu.body.trans ht.body)
  have hcode : c.identifiers ≠ [] → u.body = .code := by
    intro hids
    have hkind := hcan.declares hids
    rw [hu.body, ht.body]
    cases hk : c.kind <;> simp_all [Chunk.isCode, Chunk.Kind.isCode, Body.ofKind]
  have hend := reads_end hc hb hu.pending hm hcan.identifiers hcode
  rw [hclose] at hend
  have hread : (u.declare c.identifiers).current =
      { u.current with identifiers := c.identifiers } := by
    rw [State.declare, hu.current, hcur]
    rfl
  refine ⟨(u.declare c.identifiers).startAnonymous, (u.declare c.identifiers).current, ?_,
    ⟨hu.pending, rfl⟩, hu.errors.trans ht.errors, ?_, rfl, ?_⟩
  · rw [Chunk.print, hf]
    exact (hrt.append hru).append hend
  · simp [State.startAnonymous, State.declare, hu.before, ht.before]
  · have hbodies := hu.commands
    rw [hcur] at hbodies
    rw [hread, hu.current, hcur]
    exact ⟨Chunk.essence_eq hcan.unset ⟨rfl, rfl, rfl, rfl, rfl⟩ rfl rfl rfl
      (by simpa using hbodies), hj⟩

theorem reads_prose {c : Chunk} (hcan : c.IsCanonical ctx.command) (hk : c.kind = .anonymous)
    (hs : AtRest s) (hcur : s.current = Chunk.ofKind .anonymous []) :
    ∃ t, Reads ctx s (c.print ctx.command) t ∧ AtRest t ∧ t.errors = s.errors ∧
      t.before = s.before ∧ isVacuous t.current = false ∧ Renders c t.current := by
  obtain ⟨hname, hne⟩ := hcan.anonymous hk
  have hcode : c.isCode = false := by simp [Chunk.isCode, hk, Chunk.Kind.isCode]
  have hdeclares := hcan.declares
  have hids : c.identifiers = [] := by
    by_contra h
    simp [hcode] at hdeclares
    exact h hdeclares
  obtain ⟨t, hr, ht⟩ := reads_commands hc hb hs.pending
    (by rw [hcur]; simpa [hcode, Chunk.Kind.isCode] using hcan.commands) hcan.apart
    (by simp [hcur, EndsInRun])
  have hbodies := ht.commands
  rw [hcur] at hbodies
  refine ⟨t, ?_, ⟨ht.pending, ht.body.trans hs.body⟩, ht.errors, ht.before, ?_, ?_⟩
  · rw [Chunk.print, hk]
    exact hr
  · have hcommands : t.current.commands ≠ [] := by
      intro he
      rw [he] at hbodies
      exact hne (by simpa using hbodies.symm)
    simp [isVacuous, hcommands]
  · rw [ht.current, hcur]
    exact ⟨Chunk.essence_eq hcan.unset ⟨rfl, rfl, rfl, rfl, rfl⟩ hk.symm hname.symm hids.symm
      (by simpa using hbodies), rfl⟩

theorem reads_document {d : List Chunk} (hd : IsCanonical ctx.command d) (hs : AtRest s)
    (hcur : (∀ c ∈ d.head?, c.kind ≠ .anonymous) ∨ s.current = Chunk.ofKind .anonymous []) :
    ∃ t cs, Reads ctx s (d.flatMap (Chunk.print ctx.command)) t ∧ AtRest t ∧
      t.errors = s.errors ∧ t.shown = s.shown ++ cs ∧ List.Forall₂ Renders d cs := by
  induction d generalizing s with
  | nil => exact ⟨s, [], Reads.nil ctx s, hs, rfl, by simp, .nil⟩
  | cons c d ih =>
    have hcan := hd.chunks c (by simp)
    have hd' : IsCanonical ctx.command d := ⟨fun e he => hd.chunks e (by simp [he]), hd.apart.tail⟩
    by_cases hk : c.kind = .anonymous
    · have hempty := hcur.resolve_left (fun h => h c (by simp) hk)
      obtain ⟨t, hr, ht, he, hbefore, hvac, hren⟩ := reads_prose hc hb hcan hk hs hempty
      have hnext : ∀ e ∈ d.head?, e.kind ≠ .anonymous := by
        intro e he
        obtain ⟨tail, rfl⟩ := List.head?_eq_some_iff.mp he
        exact (List.isChain_cons_cons.mp hd.apart).1.resolve_left (fun h => h hk)
      obtain ⟨u, cs, hr', hu, he', hshown, hall⟩ := ih hd' ht (.inl hnext)
      refine ⟨u, t.current :: cs, by simpa using hr.append hr', hu, he'.trans he, ?_,
        .cons hren hall⟩
      rw [hshown]
      simp [State.shown, hbefore, hvac, hempty]
    · obtain ⟨t, e, hr, ht, he, hbefore, hcurrent, hren⟩ := reads_framed hc hb hcan hk hs
      obtain ⟨u, cs, hr', hu, he', hshown, hall⟩ := ih hd' ht (.inr hcurrent)
      refine ⟨u, e :: cs, by simpa using hr.append hr', hu, he'.trans he, ?_, .cons hren hall⟩
      have hkind : e.essence.kind = c.essence.kind := congrArg Chunk.kind hren.1
      have hvac : isVacuous e = false := by
        have hne : e.kind ≠ .anonymous := fun h => hk (hkind.symm.trans h)
        simp [isVacuous, hne]
      have hsplit : t.before ++ [t.current] =
          (s.before ++ [s.current]) ++ [e, Chunk.ofKind .anonymous []] := by
        simp [hbefore, hcurrent]
      rw [hshown, State.shown, hsplit, List.filter_append]
      simp [State.shown, hvac]

end

theorem command_of_textual {command : Char} (h : Settings.isTextual command = false) :
    command ≠ '\n' ∧ command ≠ ' ' := by
  constructor
  · rintro rfl
    exact absurd h (by decide)
  · rintro rfl
    exact absurd h (by decide)

/-- Loading undoes printing: the source of a canonical document is read without an error as that
document. -/
theorem load_print {command : Char} (h : Settings.isTextual command = false)
    (h0 : command.toNat ≠ 0) {d : List Chunk} (hd : IsCanonical command d) (permit : List Text)
    (substitutions : List (Text × Text)) (tree : FileTree) (name : Text) :
    ∃ l cs, load (Options.of command permit substitutions) tree name ⟨print command d, none⟩ = l ∧
      l.chunks = .ok cs ∧ List.Forall₂ Renders d cs ∧ l.errors = 0 := by
  obtain ⟨hc, hb⟩ := command_of_textual h
  have hcommand : (Options.of command permit substitutions).command = command := by
    simp [Options.of, Token.commandOf, h0]
  obtain ⟨ctx, hctx, hread⟩ : ∃ ctx : Context, ctx.command = command ∧
      readSource (Options.of command permit substitutions) tree (includeDepth tree)
        [tree.absolute name] name (Path.directory name) ⟨print command d, none⟩ =
      readTokens ctx (Token.scan command (d.flatMap (Chunk.print command))) := by
    rw [includeDepth, readSource, Token.ofText, print, Text.chars_ofChars, hcommand]
    exact ⟨_, rfl, rfl⟩
  subst hctx
  obtain ⟨t, cs, hr, ht, he, hshown, hall⟩ := reads_document hc hb hd
    (⟨rfl, rfl⟩ : AtRest {}) (.inr rfl)
  have hfold := hr []
  rw [List.append_nil, Token.scan, List.foldl_nil] at hfold
  have hout : readTokens ctx (Token.scan ctx.command (d.flatMap (Chunk.print ctx.command))) =
      t.outcome := by
    rw [readTokens, hfold, finish_atRest ctx ht]
  refine ⟨_, cs, rfl, ?_, hall, ?_⟩
  · rw [load, hread, hout]
    exact congrArg Except.ok hshown
  · rw [load, hread, hout]
    exact he

/-- A document in which the command character stands in code, in names and before letters that
are no controls. -/
def comparison : List Chunk :=
  [{ Chunk.ofKind .anonymous [] with
      commands := [⟨.text "a<b\n", .none⟩, ⟨.crossReference .files, .none⟩] },
    { Chunk.ofKind .output "a.go" with
      commands := [⟨.code "if x < y \x7b", .none⟩, ⟨.reference "the ...", .none⟩,
        ⟨.code "\x7d\n", .none⟩]
      identifiers := ["x", "y"] },
    { Chunk.ofKind .document "the end" with
      commands := [⟨.reference "a <b", .none⟩, ⟨.text "\n", .none⟩] }]

theorem isCanonical_comparison : IsCanonical '<' comparison := by decide

theorem load_print_comparison : Settings.isTextual '<' = false ∧ IsCanonical '<' comparison ∧
    ∃ l cs, load (Options.of '<' [] []) ⟨[], []⟩ "a.w" ⟨print '<' comparison, none⟩ = l ∧
      l.chunks = .ok cs ∧ List.Forall₂ Renders comparison cs ∧ l.errors = 0 :=
  ⟨by decide, isCanonical_comparison,
    load_print (by decide) (by decide) isCanonical_comparison [] [] ⟨[], []⟩ "a.w"⟩

end Literate.Reader
