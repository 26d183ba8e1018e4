import Mathlib.Data.List.Chain
import Literate.Proofs.Chunk.Quoting
import Literate.Proofs.Text.Decoding

/-! Option lines that hold a name and nothing else. Words without quotes and with one blank
between them are found again, and joined they are the line. -/

namespace Literate

theorem Text.ofChars_intercalate (words : List (List Char)) :
    ofChars ([' '].intercalate words) = join " " (words.map ofChars) := by
  induction words with
  | nil => rfl
  | cons w words ih =>
    cases words with
    | nil => simp [join]
    | cons v words =>
      rw [List.intercalate_cons_cons, ofChars_append, ofChars_append, ih]
      simp only [join, List.map_cons, List.intercalate_cons_cons]
      rfl

/-- Only a dash begins with the byte of a dash. -/
theorem Text.head?_ofChars_ne {cs : List Char} (h : cs.head? ≠ some '-') :
    (ofChars cs).head? ≠ some 45 := by
  cases cs with
  | nil => simp
  | cons d cs =>
    intro he
    obtain ⟨rest, hr⟩ := List.head?_eq_some_iff.mp he
    have hd : d = '-' := by
      apply utf8_append_inj (a := ofChars cs) (b := rest)
      rw [← ofChars_cons, hr]
      rfl
    exact h (by simp [hd])

namespace OptionLine

/-- A character that is neither a quote nor a separator other than the blank. -/
def IsPlain (d : Char) : Prop := d ≠ '"' ∧ d ≠ '\'' ∧ d ≠ '\t' ∧ d ≠ '\r'

theorem step_plain {d : Char} (hp : IsPlain d) (hd : d ≠ ' ') (words : List (List Char))
    (word : Option (List Char)) :
    Scan.step ⟨words, word, none⟩ d = ⟨words, some (word.getD [] ++ [d]), none⟩ := by
  obtain ⟨h1, h2, h3, h4⟩ := hp
  exact step_bare (by simp [isQuote, h1, h2]) (by simp [isSeparator, h3, h4, hd])

/-- From inside a word: the line goes on with the rest of that word, and ends in a word. -/
theorem foldl_step_plain {line : List Char} (hp : ∀ d ∈ line, IsPlain d)
    (hs : line.IsChain fun a b => ¬(a = ' ' ∧ b = ' ')) (hl : line.getLast? ≠ some ' ')
    (words : List (List Char)) (word : List Char) :
    ∃ tail more last, line.foldl Scan.step ⟨words, some word, none⟩ =
        ⟨words ++ more.dropLast, some last, none⟩ ∧
      more = (word ++ tail) :: more.tail ∧ more.getLast? = some last ∧
      [' '].intercalate more = word ++ line := by
  induction hn : line.length using Nat.strongRecOn generalizing line words word with
  | _ n ih =>
    cases line with
    | nil => exact ⟨[], [word], word, by simp, by simp, by simp, by simp⟩
    | cons d line =>
      have hd := hp d (by simp)
      have hp' : ∀ e ∈ line, IsPlain e := fun e he => hp e (by simp [he])
      have hs' := hs.tail
      simp only [List.tail_cons] at hs'
      simp only [List.length_cons] at hn
      by_cases hb : d = ' '
      · subst hb
        -- a blank ends the word, and the character after it begins the next one
        cases line with
        | nil => simp at hl
        | cons e line =>
          have he : e ≠ ' ' := fun h => (List.isChain_cons_cons.mp hs).1 ⟨rfl, h⟩
          have hl' : line.getLast? ≠ some ' ' := by
            cases line with
            | nil => simp
            | cons f line => simpa using hl
          have hrest : line.IsChain fun a b => ¬(a = ' ' ∧ b = ' ') := hs'.tail
          obtain ⟨tail, more, last, hf, hm, hlast, hj⟩ := ih line.length
            (by simp only [List.length_cons] at hn; omega) (fun f hf => hp' f (by simp [hf]))
            hrest hl' (words ++ [word]) [e] rfl
          refine ⟨[], word :: more, last, ?_, by simp, ?_, ?_⟩
          · rw [List.foldl_cons, List.foldl_cons, step_separator rfl,
              step_plain (hp' e (by simp)) he]
            rw [hm] at hf ⊢
            simpa using hf
          · rw [hm] at hlast ⊢
            simpa using hlast
          · rw [hm, List.intercalate_cons_cons, ← hm, hj]
            simp
      · have hl' : line.getLast? ≠ some ' ' := by
          cases line with
          | nil => simp
          | cons f line => simpa using hl
        obtain ⟨tail, more, last, hf, hm, hlast, hj⟩ :=
          ih line.length (by omega) hp' hs' hl' words (word ++ [d]) rfl
        refine ⟨d :: tail, more, last, ?_, by simpa using hm, hlast, by simpa using hj⟩
        rw [List.foldl_cons, step_plain hd hb]
        simpa using hf

theorem words_plain {d : Char} {line : List Char} (hp : ∀ e ∈ d :: line, IsPlain e)
    (hs : (d :: line).IsChain fun a b => ¬(a = ' ' ∧ b = ' ')) (hd : d ≠ ' ')
    (hl : (d :: line).getLast? ≠ some ' ') :
    ∃ tail more, words (d :: line) = .ok ((d :: tail) :: more) ∧
      [' '].intercalate ((d :: tail) :: more) = d :: line := by
  have hl' : line.getLast? ≠ some ' ' := by
    cases line with
    | nil => simp
    | cons f line => simpa using hl
  have hs' := hs.tail
  simp only [List.tail_cons] at hs'
  obtain ⟨tail, more, last, hf, hm, hlast, hj⟩ :=
    foldl_step_plain (fun e he => hp e (by simp [he])) hs' hl' [] [d]
  refine ⟨tail, more.tail, ?_, ?_⟩
  · have he : more.dropLast ++ [last] = more := by
      obtain ⟨init, hi⟩ := List.getLast?_eq_some_iff.mp hlast
      simp [hi]
    simp only [words, List.foldl_cons, step_plain (hp d (by simp)) hd, Option.getD_none,
      List.nil_append, hf, Option.toList_some, he]
    exact congrArg Except.ok hm
  · rw [hm] at hj
    simpa using hj

theorem applyWords_undashed (kind : Chunk.Kind) {word : Text} (hw : word.head? ≠ some 45)
    (rest : List Text) (c : Chunk) (warnings : List Text) :
    applyWords kind (word :: rest) (c, warnings) =
      ({ c with name := Text.join " " (word :: rest) }, warnings) := by
  cases rest with
  | nil => simp [applyWords, hw, Text.join]
  | cons value rest => simp [applyWords, hw]

/-- A line that is a plain name describes an empty chunk of that name. -/
theorem chunk_plain (kind : Chunk.Kind) {name : List Char} (hp : ∀ d ∈ name, IsPlain d)
    (hs : name.IsChain fun a b => ¬(a = ' ' ∧ b = ' ')) (hh : name.head? ≠ some ' ')
    (hl : name.getLast? ≠ some ' ') (hd : name.head? ≠ some '-') :
    ∃ options, Text.join " " options = Text.ofChars name ∧
      chunk kind name = .ok ({ Chunk.ofKind kind (Text.ofChars name) with options }, []) := by
  cases name with
  | nil => exact ⟨[], rfl, rfl⟩
  | cons d name =>
    obtain ⟨tail, more, hw, hj⟩ := words_plain hp hs (fun h => hh (by simp [h])) hl
    refine ⟨((d :: tail) :: more).map Text.ofChars, ?_, ?_⟩
    · rw [← Text.ofChars_intercalate, hj]
    · have hfirst : (Text.ofChars (d :: tail)).head? ≠ some 45 :=
        Text.head?_ofChars_ne (by simpa using hd)
      simp only [chunk, hw, List.map_cons]
      rw [applyWords_undashed kind hfirst, ← List.map_cons, ← Text.ofChars_intercalate, hj]
      rfl

end OptionLine

end Literate
