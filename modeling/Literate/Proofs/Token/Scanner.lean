import Literate.Proofs.Token.Scan
import Literate.Token.Scanner

/-! What a scanner takes one by one are the tokens of the characters that it has before it, and its
line count is that of the newlines among them. -/

namespace Literate.Token.Scanner

/-- A span that was read is the start of the literal that follows. -/
theorem foldr_span_concat (command c : Char) (span rest : List Char)
    (h : scan command (c :: rest) = consLiteral c (scan command rest)) :
    span.foldr consLiteral (scan command (c :: rest)) =
      (span ++ [c]).foldr consLiteral (scan command rest) := by
  rw [h, List.foldr_append]
  rfl

/-- There is no token left only when there are no characters left. -/
theorem next_eq_none {command : Char} {span : List Char} {s : Scanner}
    (h : next command span s = none) : span = [] ∧ s.remaining = [] := by
  fun_induction next command span s with
  | case1 s hs => exact ⟨rfl, read_eq_none hs⟩
  | case5 span s r hr hs hlen hn ih => simpa using (ih h).1
  | case8 span s r d v hv hlen' hk hs hlen hn ih => simpa using (ih h).1
  | case9 span s d r hs hlen hn hc ih => simpa using (ih h).1
  | _ => cases h

/-- A token that is taken is the first of the tokens that scanning gives, and those after it are
left. -/
theorem next_eq_some {command : Char} {span : List Char} {s u : Scanner} {t : Token}
    (h : next command span s = some (t, u)) :
    span.foldr consLiteral (scan command s.remaining) = t :: scan command u.remaining ∧
      u.lines = if t = .newline then s.lines + 1 else s.lines := by
  fun_induction next command span s with
  | case1 => cases h
  | case2 span s hs hne =>
    cases h
    rw [read_eq_none hs]
    exact ⟨foldr_consLiteral hne (by simp [scan]), by simp⟩
  | case3 s r hs =>
    cases h
    obtain ⟨hrem, hlines⟩ := read_eq_some hs
    rw [hrem, scan_newline]
    exact ⟨rfl, by simp [hlines]⟩
  | case4 span s r hne hs =>
    cases h
    obtain ⟨hrem, hlines⟩ := read_eq_some hs
    rw [hrem, remaining_unread, scan_newline]
    exact ⟨foldr_consLiteral hne (by simp [isLiteral]), by simp [hlines]⟩
  | case5 span s r hr hs hlen hn ih =>
    obtain ⟨hrem, hlines⟩ := read_eq_some hs
    obtain ⟨htoks, hcount⟩ := ih h
    have hlast : scan command [command] = consLiteral command (scan command []) := by
      simp [scan, hn, consLiteral]
    rw [read_eq_none hr] at htoks hrem
    rw [hrem, foldr_span_concat command command span [] hlast]
    exact ⟨htoks, by rw [hcount, hlines]⟩
  | case6 s r d v hv hlen' k hk hs hlen hn =>
    cases h
    obtain ⟨hrem, hlines⟩ := read_eq_some hs
    obtain ⟨hrem', hlines'⟩ := read_eq_some hv
    have hd := Control.letter_of_ofLetter? hk
    rw [hrem, hrem', ← hd, scan_control hn]
    exact ⟨rfl, by simp [hlines, hlines']⟩
  | case7 span s r d v hv hlen' k hk hne hs hlen hn =>
    cases h
    obtain ⟨hrem, hlines⟩ := read_eq_some hs
    obtain ⟨hrem', hlines'⟩ := read_eq_some hv
    have hd := Control.letter_of_ofLetter? hk
    rw [hrem, hrem', remaining_unread, remaining_unread, ← hd, scan_control hn]
    exact ⟨foldr_consLiteral hne (by simp [isLiteral]), by simp [hlines, hlines']⟩
  | case8 span s r d v hv hlen' hk hs hlen hn ih =>
    obtain ⟨hrem, hlines⟩ := read_eq_some hs
    obtain ⟨hrem', hlines'⟩ := read_eq_some hv
    obtain ⟨htoks, hcount⟩ := ih h
    rw [hrem, hrem', foldr_span_concat command command span _ (scan_lone hn hk _)]
    exact ⟨htoks, by rw [hcount, lines_unread, hlines', hlines]⟩
  | case9 span s d r hs hlen hn hc ih =>
    obtain ⟨hrem, hlines⟩ := read_eq_some hs
    obtain ⟨htoks, hcount⟩ := ih h
    rw [hrem, foldr_span_concat command d span _ (scan_other hc hn _)]
    exact ⟨htoks, by rw [hcount, hlines]⟩

theorem tokens_eq_counted (command : Char) (s : Scanner) :
    s.tokens command = counted s.lines (scan command s.remaining) := by
  fun_induction tokens command s with
  | case1 s h => rw [(next_eq_none h).2, scan, counted]
  | case2 s t u h ih =>
    obtain ⟨htoks, hlines⟩ := next_eq_some h
    rw [List.foldr_nil] at htoks
    rw [htoks, ih, counted, hlines]

/-- The tokens of a text and the lines beside them are those that a scanner of it takes. -/
theorem tokens_ofText (command : Char) (t : Text) :
    (ofText t).tokens command = counted 0 (Token.ofText command t) :=
  tokens_eq_counted command (ofText t)

end Literate.Token.Scanner
