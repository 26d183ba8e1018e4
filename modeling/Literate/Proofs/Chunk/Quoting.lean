import Literate.Proofs.Chunk.Quotes

/-! How words are written on an option line: a word is made up of bare characters and quoted pieces,
and separators stand between words. The words of a line are those that it was written for, and a
line that was written for none has a quote that is left open. -/

namespace Literate.OptionLine

/-- A part of a written word: a character that stands for itself, or a piece between quotes. -/
inductive Part where
  | bare (c : Char) (hquote : isQuote c = false) (hseparator : isSeparator c = false)
  | quoted (q : Char) (text : List Char) (hquote : isQuote q = true) (htext : q ∉ text)

namespace Part

def written : Part → List Char
  | bare c _ _ => [c]
  | quoted q text _ _ => q :: (text ++ [q])

def text : Part → List Char
  | bare c _ _ => [c]
  | quoted _ text _ _ => text

/-- A character between quotes of the other kind. -/
def ofChar (c : Char) : Part :=
  if h : '"' = c then .quoted '\'' [c] rfl (by simp [← h])
  else .quoted '"' [c] rfl (by simpa using h)

theorem text_ofChar (c : Char) : (ofChar c).text = [c] := by
  unfold ofChar
  split <;> rfl

end Part

/-- What a word in parts looks like on a line. -/
def written (parts : List Part) : List Char := parts.flatMap Part.written

/-- The word that is written in parts. -/
def spelled (parts : List Part) : List Char := parts.flatMap Part.text

def Blank (gap : List Char) : Prop := ∀ c ∈ gap, isSeparator c = true

theorem blank_nil : Blank [] := by simp [Blank]

/-- A line that is written for some words: each of them in one or more parts, with one or more
separators between two of them and any number before the first and after the last. -/
inductive Writes : List Char → List (List Char) → Prop
  | blank {gap : List Char} (hgap : Blank gap) : Writes gap []
  | last {gap : List Char} (parts : List Part) (hgap : Blank gap) (hparts : parts ≠ []) :
    Writes (gap ++ written parts) [spelled parts]
  | word {gap line : List Char} {c : Char} {ws : List (List Char)} (parts : List Part)
    (hgap : Blank gap) (hparts : parts ≠ []) (hc : isSeparator c = true) (hline : Writes line ws) :
    Writes (gap ++ written parts ++ c :: line) (spelled parts :: ws)

/-- Every word can be written in parts, whichever quotes it holds. -/
theorem exists_spelled (word : List Char) : ∃ parts, parts ≠ [] ∧ spelled parts = word := by
  have hempty : Part.text (.quoted '"' [] rfl (by simp)) = [] := rfl
  refine ⟨.quoted '"' [] rfl (by simp) :: word.map Part.ofChar, by simp, ?_⟩
  simp [spelled, hempty, List.flatMap_map, Part.text_ofChar]

theorem exists_writes (ws : List (List Char)) : ∃ line, Writes line ws := by
  induction ws with
  | nil => exact ⟨[], .blank blank_nil⟩
  | cons w ws ih =>
    obtain ⟨line, hline⟩ := ih
    obtain ⟨parts, hne, rfl⟩ := exists_spelled w
    have hseparator : isSeparator ' ' = true := rfl
    exact ⟨_, .word parts blank_nil hne hseparator hline⟩

section Steps

variable {c q : Char} {gap line text : List Char} {ws new : List (List Char)}
  {word : Option (List Char)}

theorem isQuote_of_isSeparator (h : isSeparator c = true) : isQuote c = false := by
  simp only [isSeparator, Bool.or_eq_true, beq_iff_eq] at h
  rcases h with (rfl | rfl) | rfl <;> rfl

theorem step_separator (h : isSeparator c = true) :
    Scan.step ⟨ws, word, none⟩ c = ⟨ws ++ word.toList, none, none⟩ := by
  simp [Scan.step, isQuote_of_isSeparator h, h]

theorem step_bare (hq : isQuote c = false) (hs : isSeparator c = false) :
    Scan.step ⟨ws, word, none⟩ c = ⟨ws, some (word.getD [] ++ [c]), none⟩ := by
  simp [Scan.step, hq, hs]

theorem step_open (h : isQuote q = true) :
    Scan.step ⟨ws, word, none⟩ q = ⟨ws, some (word.getD []), some q⟩ := by
  simp [Scan.step, h]

theorem step_close : Scan.step ⟨ws, word, some q⟩ q = ⟨ws, word, none⟩ := by
  simp [Scan.step]

theorem step_inside (h : c ≠ q) :
    Scan.step ⟨ws, word, some q⟩ c = ⟨ws, some (word.getD [] ++ [c]), some q⟩ := by
  simp [Scan.step, h]

theorem foldl_inside (h : q ∉ text) (w : List Char) :
    text.foldl Scan.step ⟨ws, some w, some q⟩ = ⟨ws, some (w ++ text), some q⟩ := by
  induction text generalizing w with
  | nil => simp
  | cons c text ih =>
    have hc : c ≠ q := fun he => h (by simp [he])
    rw [List.foldl_cons, step_inside hc, ih (fun hm => h (by simp [hm]))]
    simp

theorem foldl_gap (h : Blank gap) : gap.foldl Scan.step ⟨ws, none, none⟩ = ⟨ws, none, none⟩ := by
  induction gap with
  | nil => rfl
  | cons c gap ih =>
    rw [List.foldl_cons, step_separator (h c (by simp)), Option.toList_none, List.append_nil]
    exact ih fun d hd => h d (by simp [hd])

theorem foldl_part (p : Part) :
    p.written.foldl Scan.step ⟨ws, word, none⟩ = ⟨ws, some (word.getD [] ++ p.text), none⟩ := by
  cases p with
  | bare c hq hs => exact step_bare hq hs
  | quoted q text hq ht =>
    rw [Part.written, List.foldl_cons, List.foldl_append, step_open hq, foldl_inside ht]
    exact step_close

theorem foldl_written {parts : List Part} (h : parts ≠ []) :
    (written parts).foldl Scan.step ⟨ws, word, none⟩ =
      ⟨ws, some (word.getD [] ++ spelled parts), none⟩ := by
  induction parts generalizing word with
  | nil => exact absurd rfl h
  | cons p parts ih =>
    rw [written, List.flatMap_cons, List.foldl_append, foldl_part, ← written]
    by_cases hne : parts = []
    · simp [hne, written, spelled]
    · rw [ih hne]
      simp [spelled]

/-- Reading a line that was written for some words finds them, whatever was found before. -/
theorem Writes.foldl (h : Writes line new) (ws : List (List Char)) :
    ∃ done word, line.foldl Scan.step ⟨ws, none, none⟩ = ⟨ws ++ done, word, none⟩ ∧
      done ++ word.toList = new := by
  induction h generalizing ws with
  | blank hgap => exact ⟨[], none, by simp [foldl_gap hgap], rfl⟩
  | last parts hgap hparts =>
    exact ⟨[], some (spelled parts), by simp [foldl_gap hgap, foldl_written hparts], rfl⟩
  | word parts hgap hparts hc _ ih =>
    obtain ⟨done, word, hfold, hnew⟩ := ih (ws ++ [spelled parts])
    refine ⟨spelled parts :: done, word, ?_, by simp [hnew]⟩
    rw [List.foldl_append, List.foldl_append, foldl_gap hgap, foldl_written hparts,
      List.foldl_cons, step_separator hc]
    simpa using hfold

end Steps

/-- What was read since the last word ended: separators, then the parts of a word, then what
follows a quote that is open. -/
inductive Since : List Char → Option (List Char) → Option Char → Prop
  | between {gap : List Char} (hgap : Blank gap) : Since gap none none
  | inWord {gap : List Char} (parts : List Part) (hgap : Blank gap) (hparts : parts ≠ []) :
    Since (gap ++ written parts) (some (spelled parts)) none
  | inQuotes {gap text : List Char} {q : Char} (parts : List Part) (hgap : Blank gap)
    (hq : isQuote q = true) (htext : q ∉ text) :
    Since (gap ++ written parts ++ q :: text) (some (spelled parts ++ text)) (some q)

theorem Since.bare {gap : List Char} {c : Char} (parts : List Part) (hgap : Blank gap)
    (hq : isQuote c = false) (hs : isSeparator c = false) :
    Since (gap ++ written parts ++ [c]) (some (spelled parts ++ [c])) none := by
  have h := Since.inWord (parts ++ [.bare c hq hs]) hgap (by simp)
  simpa [written, spelled, Part.written, Part.text] using h

theorem Since.opened {gap : List Char} {c : Char} (parts : List Part) (hgap : Blank gap)
    (hq : isQuote c = true) :
    Since (gap ++ written parts ++ [c]) (some (spelled parts)) (some c) := by
  have h : Since (gap ++ written parts ++ c :: []) (some (spelled parts ++ [])) (some c) :=
    .inQuotes parts hgap hq (by simp)
  simpa using h

/-- A character carries on what was read since the last word ended, or it ends the word. -/
theorem Since.step {read : List Char} {s : Scan} (h : Since read s.word s.quote) (c : Char) :
    ((s.step c).words = s.words ∧ Since (read ++ [c]) (s.step c).word (s.step c).quote) ∨
      ∃ gap parts, Blank gap ∧ parts ≠ [] ∧ isSeparator c = true ∧
        read = gap ++ written parts ∧ s.step c = ⟨s.words ++ [spelled parts], none, none⟩ := by
  obtain ⟨ws, word, quote⟩ := s
  cases h with
  | between hgap =>
    left
    cases hq : isQuote c with
    | true =>
      rw [step_open hq]
      exact ⟨rfl, by simpa [written, spelled] using Since.opened [] hgap hq⟩
    | false =>
      cases hs : isSeparator c with
      | true =>
        rw [step_separator hs]
        refine ⟨by simp, .between ?_⟩
        intro d hd
        rcases List.mem_append.mp hd with hd | hd
        · exact hgap d hd
        · rwa [List.mem_singleton.mp hd]
      | false =>
        rw [step_bare hq hs]
        exact ⟨rfl, by simpa [written, spelled] using Since.bare [] hgap hq hs⟩
  | inWord parts hgap hparts =>
    cases hq : isQuote c with
    | true =>
      left
      rw [step_open hq]
      exact ⟨rfl, .opened parts hgap hq⟩
    | false =>
      cases hs : isSeparator c with
      | true => exact .inr ⟨_, parts, hgap, hparts, rfl, rfl, by simp [step_separator hs]⟩
      | false =>
        left
        rw [step_bare hq hs]
        exact ⟨rfl, .bare parts hgap hq hs⟩
  | @inQuotes gap text q parts hgap hq htext =>
    left
    by_cases hc : c = q
    · rw [hc, step_close]
      refine ⟨rfl, ?_⟩
      have h := Since.inWord (parts ++ [.quoted q text hq htext]) hgap (by simp)
      simpa [written, spelled, Part.written, Part.text] using h
    · rw [step_inside hc]
      refine ⟨rfl, ?_⟩
      have hmore : q ∉ text ++ [c] := by simp [htext, Ne.symm hc]
      simpa using Since.inQuotes parts hgap hq hmore

/-- What is found on the rest of a line was written there. -/
theorem Since.writes {read : List Char} {s : Scan} (h : Since read s.word s.quote)
    (line : List Char) (hclosed : (line.foldl Scan.step s).quote = none) :
    ∃ new, (line.foldl Scan.step s).words ++ (line.foldl Scan.step s).word.toList =
      s.words ++ new ∧ Writes (read ++ line) new := by
  induction line generalizing read s with
  | nil =>
    obtain ⟨ws, word, quote⟩ := s
    cases h with
    | between hgap => exact ⟨[], rfl, by simpa using Writes.blank hgap⟩
    | inWord parts hgap hparts =>
      exact ⟨[spelled parts], rfl, by simpa using Writes.last parts hgap hparts⟩
    | inQuotes => cases hclosed
  | cons c line ih =>
    rw [List.foldl_cons] at hclosed ⊢
    rcases h.step c with ⟨hwords, hsince⟩ | ⟨gap, parts, hgap, hparts, hc, rfl, hstep⟩
    · obtain ⟨new, hnew, hwrites⟩ := ih hsince hclosed
      exact ⟨new, by rw [hnew, hwords], by simpa using hwrites⟩
    · rw [hstep] at hclosed ⊢
      obtain ⟨new, hnew, hwrites⟩ := ih (.between blank_nil) hclosed
      exact ⟨spelled parts :: new, by simpa using hnew, .word parts hgap hparts hc hwrites⟩

/-- The words of a line are found exactly when it is written for them. -/
theorem words_eq_ok_iff {line : List Char} {ws : List (List Char)} :
    words line = .ok ws ↔ Writes line ws := by
  constructor
  · intro h
    have hsince : Since [] none none := .between blank_nil
    cases hq : (line.foldl Scan.step {}).quote with
    | some q => simp [words, hq] at h
    | none =>
      obtain ⟨new, hnew, hwrites⟩ := Since.writes (s := {}) hsince line hq
      simp only [words, hq, Except.ok.injEq] at h
      rw [← h, hnew]
      simpa using hwrites
  · intro h
    obtain ⟨done, word, hfold, hws⟩ := h.foldl []
    simpa [words, hfold] using hws

/-- A quote that is opened where no other is open, and not closed after that. -/
def LeftOpen (q : Char) (line : List Char) : Prop :=
  isQuote q = true ∧ ∃ before ∈ closedLines, ∃ after, q ∉ after ∧ line = before ++ q :: after

theorem foldl_nextQuote_eq_some {line : List Char} {q : Char} :
    line.foldl nextQuote none = some q ↔ LeftOpen q line := by
  constructor
  · intro h
    induction line using List.reverseRecOn generalizing q with
    | nil => cases h
    | append_singleton line c ih =>
      rw [List.foldl_append, List.foldl_cons, List.foldl_nil] at h
      cases hq : line.foldl nextQuote none with
      | none =>
        have hclosed : line ∈ closedLines := by rwa [← closing_none, mem_closing]
        by_cases hc : isQuote c = true
        · obtain rfl : c = q := by simpa [hq, nextQuote, hc] using h
          exact ⟨hc, line, hclosed, [], by simp, rfl⟩
        · simp [hq, nextQuote, hc] at h
      | some r =>
        by_cases hc : c = r
        · simp [hq, nextQuote, hc] at h
        · obtain rfl : r = q := by simpa [hq, nextQuote, hc] using h
          obtain ⟨hr, before, hbefore, after, hafter, rfl⟩ := ih hq
          exact ⟨hr, before, hbefore, after ++ [c], by simp [hafter, Ne.symm hc], by simp⟩
  · rintro ⟨hq, before, hbefore, after, hafter, rfl⟩
    have hclosed : before.foldl nextQuote none = none := by
      rwa [← closing_none, mem_closing] at hbefore
    have hopen : after.foldl nextQuote (some q) = some q := by
      induction after with
      | nil => rfl
      | cons c after ih =>
        have hc : c ≠ q := fun he => hafter (by simp [he])
        rw [List.foldl_cons, nextQuote, if_neg hc]
        exact ih fun hm => hafter (by simp [hm])
    rw [List.foldl_append, hclosed, List.foldl_cons, nextQuote, if_pos hq, hopen]

theorem words_eq_error_iff {line : List Char} {q : Char} :
    words line = .error q ↔ LeftOpen q line := by
  rw [← foldl_nextQuote_eq_some, ← quote_foldl line {}]
  cases h : (line.foldl Scan.step {}).quote <;> simp [words, h]

/-- Words can be written on a line in any way and come back, lines that hold words hold them in
such a way, and only a quote that is left open prevents it, and is named. -/
theorem words_written :
    (∀ ws, ∃ line, Writes line ws) ∧
    ∀ line, (∀ ws, words line = .ok ws ↔ Writes line ws) ∧
      ∀ message, (words line).mapError unclosedMessage = .error message ↔
        ∃ q, LeftOpen q line ∧ message = "unterminated " ++ Text.utf8 q ++ " quote" := by
  refine ⟨exists_writes, fun line => ⟨fun ws => words_eq_ok_iff, fun message => ?_⟩⟩
  simp only [← words_eq_error_iff]
  cases h : words line with
  | ok ws => simp [Except.mapError]
  | error q => simp [Except.mapError, unclosedMessage, eq_comm]

end Literate.OptionLine
