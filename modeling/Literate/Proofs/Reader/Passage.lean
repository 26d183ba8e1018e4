import Literate.Reader
import Literate.Proofs.Reader.Printing

/-! Passages of a source: reading some characters takes the reader from one state to another,
whatever follows them. Passages compose, so the effect of a text is put together from those of its
pieces. -/

namespace Literate

namespace Chunk

@[simp] theorem commands_ofKind (kind : Kind) (name : Text) :
    (ofKind kind name).commands = [] := rfl

@[simp] theorem isCode_ofKind (kind : Kind) (name : Text) :
    (ofKind kind name).isCode = kind.isCode := rfl

theorem extendRun?_run (code : Bool) (a b : Text) (l : Location) :
    extendRun? code b ⟨if code then .code a else .text a, l⟩ =
      some ⟨if code then .code (a ++ b) else .text (a ++ b), l⟩ := by
  cases code <;> rfl

theorem extendRun?_extendRun? {code : Bool} {a b : Text} {k longer : Command}
    (h : extendRun? code a k = some longer) :
    extendRun? code b longer = extendRun? code (a ++ b) k := by
  obtain ⟨body, location⟩ := k
  cases body <;> cases code <;> simp [extendRun?] at h <;> subst h <;> simp [extendRun?]

theorem extendRun?_of_no_run {code : Bool} {t : Text} {k : Command} (h : k.run? = none) :
    extendRun? code t k = none := by
  obtain ⟨body, location⟩ := k
  cases body <;> cases code <;> simp_all [Command.run?, extendRun?]

/-- Text that is added in two parts is one run at the position of the first part. -/
theorem appendText_appendText (c : Chunk) (a b : Text) (l m : Location) :
    (c.appendText a l).appendText b m = c.appendText (a ++ b) l := by
  have hnew : (c.append ⟨c.runBody a, l⟩).appendText b m = c.append ⟨c.runBody (a ++ b), l⟩ := by
    have hrun := extendRun?_run c.isCode a b l
    simp only [appendText, append, runBody, isCode] at hrun ⊢
    simp [hrun]
  cases hlast : c.commands.getLast? with
  | none => simpa [appendText, hlast] using hnew
  | some last =>
    cases he : extendRun? c.isCode a last with
    | none =>
      have hab : extendRun? c.isCode (a ++ b) last = none := by
        obtain ⟨body, location⟩ := last
        cases body <;> cases hc : c.isCode <;> simp_all [extendRun?]
      simpa [appendText, hlast, he, hab] using hnew
    | some longer =>
      have hab := extendRun?_extendRun? (b := b) he
      obtain ⟨longest, hl⟩ : ∃ longest, extendRun? c.isCode b longer = some longest := by
        obtain ⟨body, location⟩ := last
        cases body <;> cases hc : c.isCode <;> simp [extendRun?, hc] at he <;> subst he <;>
          simp [extendRun?]
      rw [hl] at hab
      simp only [isCode] at hl hab he
      simp [appendText, isCode, hlast, he, hl, ← hab]

theorem appendText_of_no_run {c : Chunk} (h : ∀ k ∈ c.commands.getLast?, k.run? = none) (t : Text)
    (l : Location) : c.appendText t l = c.append ⟨c.runBody t, l⟩ := by
  cases hlast : c.commands.getLast? with
  | none => simp [appendText, hlast]
  | some last => simp [appendText, hlast, extendRun?_of_no_run (h last (by simp [hlast]))]

end Chunk

namespace Reader

variable {ctx : Context} {s : State}

/-- Reading characters from a state leads to another, whatever comes after them. -/
def Reads (ctx : Context) (s : State) (cs : List Char) (t : State) : Prop :=
  ∀ rest, (Token.scan ctx.command (cs ++ rest)).foldl (step ctx) s =
    (Token.scan ctx.command rest).foldl (step ctx) t

theorem Reads.nil (ctx : Context) (s : State) : Reads ctx s [] s := fun _ => rfl

theorem Reads.append {a b : List Char} {t u : State} (h : Reads ctx s a t) (h' : Reads ctx t b u) :
    Reads ctx s (a ++ b) u := by
  intro rest
  rw [List.append_assoc, h, h']

theorem foldl_step_consLiteral (hs : s.pending = .nothing) (d : Char) (ts : List Token) :
    (Token.consLiteral d ts).foldl (step ctx) s =
      ts.foldl (step ctx) (step ctx s (.literal [d])) := by
  have hlit : ∀ span : List Char, step ctx s (.literal (d :: span)) =
      { s with current := s.current.appendText (Text.ofChars (d :: span)) (s.here ctx) } := by
    intro span
    simp [step, hs, obey, State.advance, State.appendText]
  cases ts with
  | nil => rfl
  | cons t ts =>
    cases t with
    | newline => rfl
    | control k => rfl
    | literal span =>
      rw [Token.consLiteral, List.foldl_cons, List.foldl_cons, hlit, hlit]
      congr 1
      simp [step, hs, obey, State.advance, State.appendText, State.here,
        Chunk.appendText_appendText]

/-- The state after the text of a run. -/
def State.takeRun (ctx : Context) (s : State) (cs : List Char) : State :=
  if cs = [] then s
  else { s with
    newlines := s.newlines + cs.count '\n'
    current := s.current.appendText (Text.ofChars cs) (s.here ctx) }

theorem takeRun_cons (s : State) (d : Char) (cs : List Char) :
    (s.takeRun ctx [d]).takeRun ctx cs = s.takeRun ctx (d :: cs) := by
  cases cs with
  | nil => rfl
  | cons e cs =>
    have hcount : s.newlines + [d].count '\n' + (e :: cs).count '\n' =
        s.newlines + (d :: e :: cs).count '\n' := by
      rw [Nat.add_assoc, ← List.count_append]
      rfl
    simp [State.takeRun, Chunk.appendText_appendText, hcount]

theorem takeRun_pending (s : State) (cs : List Char) :
    (s.takeRun ctx cs).pending = s.pending := by
  unfold State.takeRun
  split <;> rfl

theorem step_char (hs : s.pending = .nothing) {d : Char} (hd : d ≠ '\n') :
    step ctx s (.literal [d]) = s.takeRun ctx [d] := by
  simp [step, hs, obey, State.advance, State.appendText, State.takeRun, hd]

theorem step_newline (hs : s.pending = .nothing) : step ctx s .newline = s.takeRun ctx ['\n'] := by
  have hn : Text.ofChars ['\n'] = [Text.newline] := rfl
  simp [step, hs, obey, State.advance, State.appendText, State.takeRun, hn]

theorem step_literally (hs : s.pending = .nothing) (hc : ctx.command ≠ '\n') :
    step ctx s (.control .literally) = s.takeRun ctx [ctx.command] := by
  simp [step, hs, obey, State.advance, State.appendText, State.takeRun, hc]

/-- An escaped run is read as the run. -/
theorem reads_escape (hs : s.pending = .nothing) (hc : ctx.command ≠ '\n') (cs : List Char) :
    Reads ctx s (escape ctx.command cs) (s.takeRun ctx cs) := by
  intro rest
  induction cs generalizing s with
  | nil => rfl
  | cons d cs ih =>
    have hd := ih (s := s.takeRun ctx [d]) (by rw [takeRun_pending, hs])
    rw [takeRun_cons] at hd
    rw [← hd]
    by_cases hcmd : d = ctx.command
    · subst hcmd
      have he : escape ctx.command (ctx.command :: cs) ++ rest =
          ctx.command :: Control.literally.letter :: (escape ctx.command cs ++ rest) := by
        simp [escape]
      rw [he, Token.scan_control hc, List.foldl_cons, step_literally hs hc]
    · have he : escape ctx.command (d :: cs) ++ rest = d :: (escape ctx.command cs ++ rest) := by
        simp [escape, hcmd]
      rw [he]
      by_cases hn : d = '\n'
      · subst hn
        rw [Token.scan_newline, List.foldl_cons, step_newline hs]
      · rw [Token.scan_other hcmd hn, foldl_step_consLiteral hs, step_char hs hn]

theorem reads_control (hs : s.pending = .nothing) (hc : ctx.command ≠ '\n') (k : Control) :
    Reads ctx s [ctx.command, k.letter] (obey ctx (s.here ctx) s (.control k)) := by
  intro rest
  rw [List.cons_append, List.singleton_append, Token.scan_control hc, List.foldl_cons]
  simp [step, hs, State.advance]

/-- A name between two controls, of which the first waits for an operand. -/
theorem reads_bracket (hc : ctx.command ≠ '\n') (hb : ctx.command ≠ ' ') {name : List Char}
    (hn : '\n' ∉ name)
    (hq : Token.spellsAny ctx.command name = false) (k l : Control) {t : State}
    (ht : [Token.control k, .literal (' ' :: name ++ [' ']), .control l].foldl (step ctx) s = t) :
    Reads ctx s (bracket ctx.command k name l) t := by
  intro rest
  have he : bracket ctx.command k name l ++ rest = ctx.command :: k.letter ::
      (' ' :: name ++ ' ' :: ctx.command :: l.letter :: rest) := by
    simp [bracket]
  rw [he, Token.scan_control hc, Token.scan_operand hc hb hn (Token.spellsAny_blank hb hq), ← ht]
  simp

end Reader

end Literate
