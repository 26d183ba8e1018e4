import Literate.Token

/-! Scanning text piece by piece. A control is found wherever it is spelled; a span without
newlines and controls that does not end in the command character is scanned as itself, whatever
follows it. -/

namespace Literate

theorem Control.ofLetter?_letter (k : Control) : Control.ofLetter? k.letter = some k := by
  cases k <;> rfl

theorem Control.letter_of_ofLetter? {c : Char} {k : Control} (h : ofLetter? c = some k) :
    k.letter = c := by
  have hk := List.find?_some h
  exact beq_iff_eq.mp hk

namespace Token

/-- Somewhere the command character is followed by a letter of a control. -/
def spellsAny (command : Char) : List Char → Bool
  | a :: b :: rest =>
    (a == command && (Control.ofLetter? b).isSome) || spellsAny command (b :: rest)
  | _ => false

def isLiteral : Token → Bool
  | .literal _ => true
  | _ => false

variable {command : Char}

theorem scan_newline (rest : List Char) :
    scan command ('\n' :: rest) = .newline :: scan command rest := by
  cases rest <;> simp [scan]

theorem scan_control (hc : command ≠ '\n') (k : Control) (rest : List Char) :
    scan command (command :: k.letter :: rest) = .control k :: scan command rest := by
  simp [scan, hc, Control.ofLetter?_letter]

theorem scan_other {d : Char} (hd : d ≠ command) (hn : d ≠ '\n') (rest : List Char) :
    scan command (d :: rest) = consLiteral d (scan command rest) := by
  cases rest <;> simp [scan, hd, hn, consLiteral]

theorem scan_lone (hc : command ≠ '\n') {d : Char} (hd : Control.ofLetter? d = none)
    (rest : List Char) :
    scan command (command :: d :: rest) = consLiteral command (scan command (d :: rest)) := by
  simp [scan, hc, hd]

theorem scan_span (hc : command ≠ '\n') {span : List Char} (hn : '\n' ∉ span)
    (hs : spellsAny command span = false) (hl : span.getLast? ≠ some command)
    (rest : List Char) :
    scan command (span ++ rest) = span.foldr consLiteral (scan command rest) := by
  induction span with
  | nil => rfl
  | cons a span ih =>
    have ha : a ≠ '\n' := fun h => hn (by simp [h])
    have hn' : '\n' ∉ span := fun h => hn (by simp [h])
    cases span with
    | nil =>
      have hd : a ≠ command := fun h => hl (by simp [h])
      simpa using scan_other hd ha rest
    | cons b span =>
      simp only [spellsAny, Bool.or_eq_false_iff, Bool.and_eq_false_iff, beq_eq_false_iff_ne] at hs
      have ht := ih hn' hs.2 (by simpa using hl)
      rw [List.foldr_cons, ← ht]
      by_cases hd : a = command
      · subst hd
        have hb : Control.ofLetter? b = none := by simpa using hs.1
        exact scan_lone hc hb (span ++ rest)
      · exact scan_other hd ha (b :: span ++ rest)

/-- Characters before tokens that start with no literal are a literal of their own. -/
theorem foldr_consLiteral {span : List Char} (hs : span ≠ []) {ts : List Token}
    (hts : ∀ t ∈ ts.head?, t.isLiteral = false) :
    span.foldr consLiteral ts = .literal span :: ts := by
  induction span with
  | nil => exact absurd rfl hs
  | cons a span ih =>
    cases span with
    | nil =>
      cases ts with
      | nil => rfl
      | cons t ts => cases t <;> simp_all [isLiteral, consLiteral]
    | cons b span => rw [List.foldr_cons, ih (by simp), consLiteral]

/-- An operand between blanks, with the control that ends it. -/
theorem scan_operand (hc : command ≠ '\n') (hb : command ≠ ' ') {name : List Char}
    (hn : '\n' ∉ name) (hs : spellsAny command (' ' :: name ++ [' ']) = false) (k : Control)
    (rest : List Char) :
    scan command (' ' :: name ++ ' ' :: command :: k.letter :: rest) =
      .literal (' ' :: name ++ [' ']) :: .control k :: scan command rest := by
  have hl : (' ' :: name ++ [' ']).getLast? ≠ some command := by
    rw [List.getLast?_concat]
    simpa using hb.symm
  have hspan := scan_span hc (by simp [hn]) hs hl (command :: k.letter :: rest)
  rw [scan_control hc, foldr_consLiteral (by simp) (by simp [isLiteral])] at hspan
  simpa using hspan

/-- No control goes across a blank. -/
theorem spellsAny_append_blank (hb : command ≠ ' ') (a b : List Char) :
    spellsAny command (a ++ ' ' :: b) = (spellsAny command a || spellsAny command b) := by
  have hblank : spellsAny command (' ' :: b) = spellsAny command b := by
    cases b with
    | nil => rfl
    | cons d b => simp [spellsAny, hb.symm]
  induction a with
  | nil => simpa [spellsAny] using hblank
  | cons d a ih =>
    cases a with
    | nil =>
      have hl : Control.ofLetter? ' ' = none := rfl
      simpa [spellsAny, hl] using hblank
    | cons e a =>
      simp only [List.cons_append, spellsAny] at ih ⊢
      rw [ih, Bool.or_assoc]

theorem spellsAny_blank (hb : command ≠ ' ') {name : List Char}
    (hs : spellsAny command name = false) : spellsAny command (' ' :: name ++ [' ']) = false := by
  have hl := spellsAny_append_blank hb [] (name ++ [' '])
  have hr := spellsAny_append_blank hb name []
  rw [hs] at hr
  rw [hr] at hl
  simpa [spellsAny] using hl

theorem spellsAny_intercalate (hb : command ≠ ' ') {words : List (List Char)}
    (hw : ∀ w ∈ words, spellsAny command w = false) :
    spellsAny command ([' '].intercalate words) = false := by
  induction words with
  | nil => rfl
  | cons w words ih =>
    have ht := ih (fun v hv => hw v (by simp [hv]))
    cases words with
    | nil => simpa using hw w (by simp)
    | cons v words =>
      rw [List.intercalate_cons_cons, List.append_assoc, List.singleton_append,
        spellsAny_append_blank hb, hw w (by simp), ht]
      rfl

end Token

end Literate
