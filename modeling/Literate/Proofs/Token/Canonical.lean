import Mathlib.Data.List.Chain
import Literate.Proofs.Text.Repair
import Literate.Proofs.Token.Scanner

/-! Scanning loses nothing and leaves no choice. The characters of the tokens are those of the
text, every token is of one of three shapes that exclude each other, no two literals touch, and the
lines are counted at the newlines. -/

namespace Literate

theorem Control.letter_ne_newline (k : Control) : k.letter ≠ '\n' := by
  cases k <;> decide

namespace Token

/-- The shapes of tokens: the newline, the command character with a letter, or characters among
which there is neither. -/
def WellFormed (command : Char) : Token → Prop
  | .newline => True
  | .control _ => command ≠ '\n'
  | .literal span => span ≠ [] ∧ '\n' ∉ span ∧ spellsAny command span = false

variable {command : Char}

theorem flatMap_chars_consLiteral (c : Char) (ts : List Token) :
    (consLiteral c ts).flatMap (chars command) = c :: ts.flatMap (chars command) := by
  cases ts with
  | nil => rfl
  | cons t ts => cases t <;> simp [consLiteral, chars]

theorem flatMap_chars_scan (command : Char) (cs : List Char) :
    (scan command cs).flatMap (chars command) = cs := by
  fun_induction scan command cs with
  | case1 => rfl
  | case2 => rfl
  | case3 c hc => rfl
  | case4 d rest ih => rw [List.flatMap_cons, ih, chars, List.singleton_append]
  | case5 d rest k hk hn ih =>
    rw [List.flatMap_cons, ih, chars, Control.letter_of_ofLetter? hk]
    rfl
  | case6 d rest hk hn ih => rw [flatMap_chars_consLiteral, ih]
  | case7 c d rest hn hc ih => rw [flatMap_chars_consLiteral, ih]

theorem spellsAny_cons {c : Char} {span : List Char} (hs : spellsAny command span = false)
    (hc : c = command → ∀ d ∈ span.head?, Control.ofLetter? d = none) :
    spellsAny command (c :: span) = false := by
  cases span with
  | nil => rfl
  | cons d span =>
    rw [spellsAny, hs, Bool.or_false, Bool.and_eq_false_iff]
    by_cases he : c = command
    · exact .inr (by simp [hc he d (by simp)])
    · exact .inl (by simpa using he)

/-- A character in front of a literal makes it longer. It must spell no control with what
follows. -/
theorem wellFormed_consLiteral {c : Char} (hn : c ≠ '\n') {ts : List Token}
    (hts : ∀ t ∈ ts, t.WellFormed command)
    (hc : c = command → ∀ d ∈ (ts.flatMap (chars command)).head?, Control.ofLetter? d = none) :
    ∀ t ∈ consLiteral c ts, t.WellFormed command := by
  have hone : Token.WellFormed command (.literal [c]) := ⟨by simp, by simpa using hn.symm, rfl⟩
  cases ts with
  | nil => simpa [consLiteral] using hone
  | cons t ts =>
    cases t with
    | newline => simpa [consLiteral, hone] using hts
    | control k => simpa [consLiteral, hone] using hts
    | literal span =>
      obtain ⟨hne, hline, hquiet⟩ := hts (.literal span) (by simp)
      have hhead : c = command → ∀ d ∈ span.head?, Control.ofLetter? d = none := by
        intro he d hd
        obtain ⟨tail, rfl⟩ := List.head?_eq_some_iff.mp hd
        exact hc he d (by simp [chars])
      intro t ht
      rcases List.mem_cons.mp ht with rfl | ht
      · exact ⟨by simp, by simp [hline, Ne.symm hn], spellsAny_cons hquiet hhead⟩
      · exact hts t (by simp [ht])

theorem wellFormed_scan (command : Char) (cs : List Char) :
    ∀ t ∈ scan command cs, t.WellFormed command := by
  fun_induction scan command cs with
  | case1 => simp
  | case2 => simp [WellFormed]
  | case3 c hn => simpa [WellFormed, spellsAny] using Ne.symm hn
  | case4 d rest ih => simpa [WellFormed] using ih
  | case5 d rest k hk hn ih => simpa [WellFormed, hn] using ih
  | case6 d rest hk hn ih =>
    apply wellFormed_consLiteral hn ih
    intro _ e he
    rw [flatMap_chars_scan] at he
    obtain rfl : d = e := by simpa using he
    exact hk
  | case7 c d rest hn hc ih =>
    exact wellFormed_consLiteral hn ih fun he => absurd he hc

theorem isChain_consLiteral (c : Char) {ts : List Token}
    (h : ts.IsChain fun a b => a.isLiteral = true → b.isLiteral = false) :
    (consLiteral c ts).IsChain fun a b => a.isLiteral = true → b.isLiteral = false := by
  cases ts with
  | nil => exact List.isChain_singleton _
  | cons t ts =>
    cases t with
    | newline => exact List.isChain_cons_cons.mpr ⟨fun _ => rfl, h⟩
    | control k => exact List.isChain_cons_cons.mpr ⟨fun _ => rfl, h⟩
    | literal span =>
      cases ts with
      | nil => exact List.isChain_singleton _
      | cons u ts =>
        obtain ⟨hu, hrest⟩ := List.isChain_cons_cons.mp h
        exact List.isChain_cons_cons.mpr ⟨fun _ => hu rfl, hrest⟩

theorem isChain_of_not_literal {t : Token} (ht : t.isLiteral = false) {ts : List Token}
    (h : ts.IsChain fun a b => a.isLiteral = true → b.isLiteral = false) :
    (t :: ts).IsChain fun a b => a.isLiteral = true → b.isLiteral = false := by
  cases ts with
  | nil => exact List.isChain_singleton _
  | cons u ts =>
    refine List.isChain_cons_cons.mpr ⟨fun hl => ?_, h⟩
    rw [ht] at hl
    cases hl

theorem isChain_scan (command : Char) (cs : List Char) :
    (scan command cs).IsChain fun a b => a.isLiteral = true → b.isLiteral = false := by
  fun_induction scan command cs with
  | case1 => exact List.isChain_nil
  | case2 => exact List.isChain_singleton _
  | case3 c hn => exact List.isChain_singleton _
  | case4 d rest ih => exact isChain_of_not_literal rfl ih
  | case5 d rest k hk hn ih => exact isChain_of_not_literal rfl ih
  | case6 d rest hk hn ih => exact isChain_consLiteral _ ih
  | case7 c d rest hn hc ih => exact isChain_consLiteral _ ih

/-- The shapes are told apart by the characters of a token alone. -/
theorem spellsControl_text {t : Token} (h : t.WellFormed command) :
    spellsControl command (t.text command) = t.isControl := by
  unfold spellsControl text
  rw [Text.chars_ofChars]
  cases t with
  | newline => rfl
  | control k => simp [chars, isControl, Control.ofLetter?_letter]
  | literal span =>
    obtain ⟨-, -, hquiet⟩ := h
    match span, hquiet with
    | [], _ => rfl
    | [c], _ => rfl
    | [c, d], hquiet => simpa [chars, isControl, spellsAny] using hquiet
    | _ :: _ :: _ :: _, _ => rfl

theorem count_newline_chars {t : Token} (h : t.WellFormed command) :
    (t.chars command).count '\n' = if t = .newline then 1 else 0 := by
  cases t with
  | newline => rfl
  | control k =>
    have hc : command ≠ '\n' := h
    simp [chars, hc, Control.letter_ne_newline k]
  | literal span => simpa [chars] using List.count_eq_zero_of_not_mem h.2.1

theorem newlines_cons (t : Token) (ts : List Token) :
    newlines (t :: ts) = (if t = .newline then 1 else 0) + newlines ts := by
  by_cases h : t = .newline
  · simp [newlines, h, Nat.add_comm]
  · simp [newlines, h]

theorem newlines_append (ts us : List Token) : newlines (ts ++ us) = newlines ts + newlines us :=
  List.countP_append

theorem newlines_eq_count {ts : List Token} (h : ∀ t ∈ ts, t.WellFormed command) :
    newlines ts = (ts.flatMap (chars command)).count '\n' := by
  induction ts with
  | nil => rfl
  | cons t ts ih =>
    rw [newlines_cons, List.flatMap_cons, List.count_append,
      count_newline_chars (h t (by simp)), ih fun u hu => h u (by simp [hu])]

theorem newlines_scan (command : Char) (cs : List Char) :
    newlines (scan command cs) = cs.count '\n' := by
  rw [newlines_eq_count (wellFormed_scan command cs), flatMap_chars_scan]

/-- The count beside a token is that of the newlines up to it. -/
theorem getElem?_counted (n : Nat) (ts : List Token) (i : Nat) :
    (counted n ts)[i]? = ts[i]?.map fun t => (t, n + newlines (ts.take (i + 1))) := by
  induction ts generalizing n i with
  | nil => rfl
  | cons t ts ih =>
    have hstep : (if t = .newline then n + 1 else n) = n + if t = .newline then 1 else 0 := by
      split <;> rfl
    cases i with
    | zero => simp [counted, hstep, newlines]
    | succ i =>
      rw [counted, List.getElem?_cons_succ, ih, hstep, List.getElem?_cons_succ,
        List.take_succ_cons, newlines_cons]
      simp only [Nat.add_assoc]

theorem text_eq_ofChars (command : Char) (ts : List Token) :
    ts.flatMap (text command) = Text.ofChars (ts.flatMap (chars command)) := by
  induction ts with
  | nil => rfl
  | cons t ts ih =>
    rw [List.flatMap_cons, List.flatMap_cons, Text.ofChars_append, ih, text]

/-- The texts of the tokens, put together, are the repaired text. -/
theorem flatMap_text_ofText (command : Char) (t : Text) :
    (ofText command t).flatMap (text command) = t.repaired := by
  rw [text_eq_ofChars, ofText, flatMap_chars_scan, Text.repaired]

/-- Scanning is lossless and canonical. The tokens of a text hold its runes, with U+FFFD for each
malformed byte; each is of one of the three shapes, and its text alone tells whether it is a
control; literals are maximal; a scanner takes these tokens, and its lines are the newlines so
far, in the end those of the text; and the tokens put together are scanned as the same tokens. -/
theorem ofText_canonical (command : Char) (t : Text) :
    Text.ofRunes t.runes = t ∧
    (ofText command t).flatMap (text command) =
      (t.runes.flatMap fun r =>
        if Text.isMalformed r then Text.utf8 Text.replacement else r.bytes) ∧
    (∀ tok ∈ ofText command t, tok.WellFormed command ∧
      spellsControl command (tok.text command) = tok.isControl) ∧
    ((ofText command t).IsChain fun a b => a.isLiteral = true → b.isLiteral = false) ∧
    (Scanner.ofText t).tokens command = counted 0 (ofText command t) ∧
    (∀ i, (counted 0 (ofText command t))[i]? = (ofText command t)[i]?.map fun tok =>
      (tok, newlines ((ofText command t).take (i + 1)))) ∧
    newlines (ofText command t) = t.count Text.newline ∧
    ofText command ((ofText command t).flatMap (text command)) = ofText command t := by
  refine ⟨Text.ofRunes_runes t, ?_, ?_, isChain_scan command t.chars,
    Scanner.tokens_ofText command t, ?_, ?_, ?_⟩
  · rw [flatMap_text_ofText, Text.repaired_eq]
  · intro tok htok
    have hshape := wellFormed_scan command t.chars tok htok
    exact ⟨hshape, spellsControl_text hshape⟩
  · intro i
    simpa using getElem?_counted 0 (ofText command t) i
  · rw [ofText, newlines_scan, Text.count_newline]
  · rw [flatMap_text_ofText, Text.repaired, ofText, Text.chars_ofChars, ofText]

end Token

end Literate
