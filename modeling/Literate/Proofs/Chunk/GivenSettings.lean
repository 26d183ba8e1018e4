import Literate.Proofs.Chunk.PlainName

/-! Option lines that hold settings and then a name. However its words are quoted, a line with known
settings describes the chunk that has them and the defaults elsewhere, without a warning. -/

namespace Literate.OptionLine

/-- The word that names a setting. -/
def Setting.word : Setting → List Char
  | .style => "-style".toList
  | .commentStart => "-start".toList
  | .commentEnd => "-end".toList
  | .unwoven => "-noweave".toList
  | .indent => "-indent".toList
  | .noIndent => "-noindent".toList

/-- Output chunks have comment brackets and can be left out of the document; only chunks that are
referred to can be indented. -/
def Setting.Fits (kind : Chunk.Kind) : Setting → Prop
  | .style => True
  | .commentStart | .commentEnd | .unwoven => kind = .output
  | .indent | .noIndent => kind ≠ .output

/-- A setting as it is given on a line, with its value if it takes one. -/
structure Given where
  setting : Setting
  value : List Char := []

namespace Given

def words (g : Given) : List (List Char) :=
  g.setting.word :: if g.setting.takesValue then [g.value] else []

def apply (g : Given) (c : Chunk) : Chunk := g.setting.apply (Text.ofChars g.value) c

end Given

/-- The value that a setting was given last. -/
def lastValue (s : Setting) (given : List Given) : Option Text :=
  (given.filter fun g => g.setting = s).getLast?.map fun g => Text.ofChars g.value

def Setting.indent? : Setting → Option Chunk.Indent
  | .indent => some .on
  | .noIndent => some .off
  | _ => none

/-- The indentation that was asked for last. -/
def lastIndent (given : List Given) : Option Chunk.Indent :=
  (given.filterMap fun g => g.setting.indent?).getLast?

def keepsWoven (given : List Given) : Bool := given.all fun g => g.setting ≠ .unwoven

variable {kind : Chunk.Kind}

theorem head?_word (s : Setting) : (Text.ofChars s.word).head? = some 45 := by
  cases s <;> rfl

theorem setting?_word {s : Setting} (h : s.Fits kind) :
    setting? kind (Text.ofChars s.word) = some s := by
  cases s with
  | style => rfl
  | commentStart | commentEnd | unwoven =>
    obtain rfl : kind = .output := h
    rfl
  | indent | noIndent =>
    have hkind : kind ≠ .output := h
    cases kind with
    | output => exact absurd rfl hkind
    | _ => rfl

/-- A setting that takes no value is the same with any. -/
theorem apply_of_valueless {s : Setting} (h : s.takesValue = false) (value : Text) (c : Chunk) :
    s.apply [] c = s.apply value c := by
  cases s with
  | style | commentStart | commentEnd => cases h
  | unwoven | indent | noIndent => rfl

theorem applyWords_given {g : Given} (h : g.setting.Fits kind) (rest : List Text) (c : Chunk)
    (warnings : List Text) :
    applyWords kind (g.words.map Text.ofChars ++ rest) (c, warnings) =
      applyWords kind rest (g.apply c, warnings) := by
  have hdash := head?_word g.setting
  have hsetting := setting?_word h
  cases hv : g.setting.takesValue with
  | true => simp [Given.words, Given.apply, hv, applyWords, hdash, hsetting]
  | false =>
    have happly := apply_of_valueless hv (Text.ofChars g.value) c
    cases rest with
    | nil => simp [Given.words, Given.apply, hv, applyWords, hdash, hsetting, happly]
    | cons next rest => simp [Given.words, Given.apply, hv, applyWords, hdash, hsetting, happly]

theorem applyWords_all_given {given : List Given} (h : ∀ g ∈ given, g.setting.Fits kind)
    (rest : List Text) (c : Chunk) (warnings : List Text) :
    applyWords kind ((given.flatMap Given.words).map Text.ofChars ++ rest) (c, warnings) =
      applyWords kind rest (given.foldl (fun c g => g.apply c) c, warnings) := by
  induction given generalizing c with
  | nil => rfl
  | cons g given ih =>
    rw [List.flatMap_cons, List.map_append, List.append_assoc, applyWords_given (h g (by simp)),
      ih fun g' hg' => h g' (by simp [hg'])]
    rfl

/-- Settings given one after the other leave each field at the value given last. -/
theorem foldl_apply (given : List Given) (c : Chunk) :
    given.foldl (fun c g => g.apply c) c =
      { c with
        style := (lastValue .style given).getD c.style
        commentStart := (lastValue .commentStart given).getD c.commentStart
        commentEnd := (lastValue .commentEnd given).getD c.commentEnd
        woven := keepsWoven given && c.woven
        indent := (lastIndent given).getD c.indent } := by
  induction given using List.reverseRecOn with
  | nil => rfl
  | append_singleton given g ih =>
    obtain ⟨s, value⟩ := g
    rw [List.foldl_append, ih]
    cases s <;>
      simp [Given.apply, Setting.apply, lastValue, lastIndent, keepsWoven, Setting.indent?]

/-- A line that is written for settings and then for the words of a name, of which the first has no
dash, describes the chunk with that name and those settings. Of a setting that is given more than
once the last counts. -/
theorem chunk_settings {given : List Given} {first : List Char} {more : List (List Char)}
    {line : List Char} (hfits : ∀ g ∈ given, g.setting.Fits kind) (hdash : first.head? ≠ some '-')
    (hline : Writes line (given.flatMap Given.words ++ first :: more)) :
    chunk kind line = .ok ({ Chunk.ofKind kind (Text.ofChars ([' '].intercalate (first :: more))) with
      options := (given.flatMap Given.words ++ first :: more).map Text.ofChars
      style := (lastValue .style given).getD []
      commentStart := (lastValue .commentStart given).getD []
      commentEnd := (lastValue .commentEnd given).getD []
      woven := keepsWoven given
      indent := (lastIndent given).getD .default }, []) := by
  have hfirst : (Text.ofChars first).head? ≠ some 45 := Text.head?_ofChars_ne hdash
  simp only [chunk, words_eq_ok_iff.mpr hline, Text.ofChars_intercalate, Except.ok.injEq]
  rw [List.map_append, applyWords_all_given hfits, List.map_cons,
    applyWords_undashed kind hfirst, foldl_apply]
  simp [Chunk.ofKind]

/-- All that an output chunk can be given, with an empty value and one that looks like a setting. -/
def fileSettings : List Given :=
  [⟨.commentEnd, "-->".toList⟩, ⟨.unwoven, []⟩, ⟨.style, []⟩,
    ⟨.commentStart, "-style \"it's\"".toList⟩]

def fileLine : List Char :=
  "-end '-->'\t-\"no\"weave -style '' -start '-style \"it'\"'\"'s\"'  \"\" '-a  b' ".toList

theorem chunk_settings_file :
    (∀ g ∈ fileSettings, g.setting.Fits .output) ∧
    Writes fileLine (fileSettings.flatMap Given.words ++ [[], "-a  b".toList]) ∧
    chunk .output fileLine = .ok ({ Chunk.ofKind .output " -a  b" with
      options := ["-end", "-->", "-noweave", "-style", "", "-start", "-style \"it's\"", "", "-a  b"]
      style := ""
      commentStart := "-style \"it's\""
      commentEnd := "-->"
      woven := false
      indent := .default }, []) := by
  have hfits : ∀ g ∈ fileSettings, g.setting.Fits .output := by
    simp [fileSettings, Setting.Fits]
  have hline : Writes fileLine (fileSettings.flatMap Given.words ++ [[], "-a  b".toList]) :=
    words_eq_ok_iff.mp (by decide +kernel)
  exact ⟨hfits, hline, chunk_settings hfits (by simp) hline⟩

end Literate.OptionLine
