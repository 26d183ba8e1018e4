import Literate.Proofs.Text.Decoding
import Literate.Proofs.Text.Lines

/-! The decoding of an arbitrary text. Its runes hold all of its bytes in order, only malformed
bytes are read as something else, and a newline is read wherever its byte stands. So a text of
characters has lines of characters. -/

namespace Literate.Text

theorem headRune_bytes {t : Text} (h : t ≠ []) :
    (headRune t).bytes ≠ [] ∧ (headRune t).bytes <+: t := by
  unfold headRune
  cases hf : [1, 2, 3, 4].findSome? fun n => exactly? (t.take n) with
  | none =>
    rw [Option.getD_none]
    exact ⟨by simp [h], List.take_prefix 1 t⟩
  | some r =>
    obtain ⟨n, _, hr⟩ := List.exists_of_findSome?_eq_some hf
    obtain ⟨hb, hu⟩ := exactly?_eq_some hr
    rw [Option.getD_some, hb]
    refine ⟨?_, List.take_prefix n t⟩
    rw [← hu]
    exact utf8_ne_nil r.char

/-- A text is empty, or a rune and the text after it. -/
theorem byRunes {P : Text → Prop} (nil : P [])
    (rune : ∀ r rest, headRune (r.bytes ++ rest) = r → r.bytes ≠ [] →
      runes (r.bytes ++ rest) = r :: runes rest → P rest → P (r.bytes ++ rest)) (t : Text) :
    P t := by
  induction hn : t.length using Nat.strongRecOn generalizing t with
  | _ n ih =>
    by_cases ht : t = []
    · rw [ht]
      exact nil
    · obtain ⟨hne, rest, hrest⟩ := headRune_bytes ht
      have hpos := List.length_pos_iff.mpr hne
      have hlen : t.length = (headRune t).bytes.length + rest.length := by
        rw [← List.length_append, hrest]
      have hruns : runes ((headRune t).bytes ++ rest) = headRune t :: runes rest := by
        have hdrop : t.drop ((headRune t).bytes.length - 1 + 1) = rest := by
          have hleft : ((headRune t).bytes ++ rest).drop (headRune t).bytes.length = rest :=
            List.drop_left
          rw [hrest] at hleft
          rw [Nat.sub_add_cancel hpos, hleft]
        rw [hrest, runes_eq_cons ht, hdrop]
      have hfirst : headRune ((headRune t).bytes ++ rest) = headRune t := by rw [hrest]
      rw [← hrest]
      exact rune _ rest hfirst hne hruns (ih rest.length (by omega) rest rfl)

theorem ofRunes_runes (t : Text) : ofRunes (runes t) = t := by
  induction t using byRunes with
  | nil => rfl
  | rune r rest _ _ hruns ih =>
    rw [hruns, ofRunes, List.flatMap_cons, ← ofRunes, ih]

theorem length_runes_le (t : Text) : (runes t).length ≤ t.length := by
  induction t using byRunes with
  | nil => simp
  | rune r rest _ hne hruns ih =>
    have hpos := List.length_pos_iff.mpr hne
    rw [hruns, List.length_cons, List.length_append]
    omega

theorem isMalformed_or_utf8 {r : Rune} {rest : Text} (hr : headRune (r.bytes ++ rest) = r)
    (hne : r.bytes ≠ []) : isMalformed r = true ∨ r.bytes = utf8 r.char := by
  have hcases := headRune_cases (t := r.bytes ++ rest) (by simp [hne])
  rw [hr] at hcases
  rcases hcases with ⟨_, _, hb⟩ | hm
  · exact .inr hb
  · exact .inl hm

/-- Repairing replaces the malformed bytes and keeps the others. -/
theorem repaired_eq (t : Text) :
    repaired t = (runes t).flatMap fun r => if isMalformed r then utf8 replacement else r.bytes := by
  induction t using byRunes with
  | nil => rfl
  | rune r rest hr hne hruns ih =>
    have hone : utf8 r.char = if isMalformed r then utf8 replacement else r.bytes := by
      by_cases hm : isMalformed r = true
      · have hchar : r.char = replacement := by
          simp only [isMalformed, Bool.and_eq_true, beq_iff_eq] at hm
          exact hm.1
        rw [if_pos hm, hchar]
      · rw [if_neg hm, (isMalformed_or_utf8 hr hne).resolve_left hm]
    rw [hruns, List.flatMap_cons, ← ih, ← hone]
    simp [repaired, chars, hruns]

/-- The byte of an ASCII character occurs in no other encoded character. -/
theorem toNat_of_mem_utf8 {b : UInt8} {c : Char} (hb : b.toNat < 128) (h : b ∈ utf8 c) :
    c.toNat = b.toNat := by
  have hmax := toNat_le c
  unfold Char.toNat at hmax ⊢
  simp only [utf8, String.utf8EncodeChar] at h
  generalize c.val.toNat = n at hmax h
  split at h
  · simp only [List.mem_singleton, ← UInt8.toNat_inj, UInt8.toNat_ofNat'] at h
    omega
  · exfalso
    split at h
    · simp only [List.mem_cons, List.not_mem_nil, ← UInt8.toNat_inj, UInt8.toNat_ofNat',
        or_false] at h
      omega
    · split at h <;>
      · simp only [List.mem_cons, List.not_mem_nil, ← UInt8.toNat_inj, UInt8.toNat_ofNat',
          or_false] at h
        omega

theorem newline_mem_utf8 {c : Char} (h : newline ∈ utf8 c) : c = '\n' := by
  rw [← Char.ofNat_toNat c, toNat_of_mem_utf8 (by decide) h]
  rfl

/-- A number is written in digits only. -/
theorem not_mem_ofNat {b : UInt8} (hb : b.toNat < 128)
    (hdigit : (Char.ofNat b.toNat).isDigit = false) (n : Nat) : b ∉ ofNat n := by
  intro h
  obtain ⟨c, hc, hbyte⟩ := List.mem_flatMap.1 h
  have hc := Nat.isDigit_of_mem_toDigits (by omega) (by omega) hc
  rw [← Char.ofNat_toNat c, toNat_of_mem_utf8 hb hbyte, hdigit] at hc
  contradiction

theorem newline_not_mem_ofNat (n : Nat) : newline ∉ ofNat n :=
  not_mem_ofNat (by decide) (by decide) n

theorem count_newline_bytes {r : Rune} {rest : Text} (hr : headRune (r.bytes ++ rest) = r)
    (hne : r.bytes ≠ []) : r.bytes.count newline = if r.char = '\n' then 1 else 0 := by
  have hnewline : utf8 '\n' = [newline] := rfl
  rcases isMalformed_or_utf8 hr hne with hm | hu
  · simp only [isMalformed, Bool.and_eq_true, beq_iff_eq, List.length_eq_one_iff] at hm
    obtain ⟨hchar, b, hb⟩ := hm
    have hn : r.char ≠ '\n' := by
      rw [hchar]
      decide
    have hne : b ≠ newline := by
      intro he
      -- a newline would have been read as itself
      rw [hb, he, ← hnewline, headRune_utf8_append] at hr
      exact hn (congrArg Rune.char hr).symm
    rw [if_neg hn, hb]
    simp [hne]
  · by_cases hn : r.char = '\n'
    · rw [if_pos hn, hu, hn, hnewline]
      rfl
    · rw [if_neg hn, hu]
      exact List.count_eq_zero_of_not_mem fun h => hn (newline_mem_utf8 h)

theorem count_newline (t : Text) : t.chars.count '\n' = t.count newline := by
  induction t using byRunes with
  | nil => rfl
  | rune r rest hr hne hruns ih =>
    rw [chars, hruns, List.map_cons, ← chars, List.count_cons, ih, List.count_append,
      count_newline_bytes hr hne]
    simp only [beq_iff_eq]
    omega

/-- A line of a well-formed text is well-formed, and so is what comes after it. -/
theorem exists_chars_line {cs : List Char} {piece rest : Text}
    (h : ofChars cs = piece ++ newline :: rest) :
    ∃ as bs, ofChars as = piece ∧ ofChars bs = rest := by
  induction cs generalizing piece with
  | nil => simp at h
  | cons c cs ih =>
    rw [ofChars_cons] at h
    rcases List.append_eq_append_iff.mp h with ⟨more, hpiece, htail⟩ | ⟨more, hc, hmore⟩
    · obtain ⟨as, bs, has, hbs⟩ := ih htail
      exact ⟨c :: as, bs, by rw [ofChars_cons, has, hpiece], hbs⟩
    · cases more with
      | nil =>
        have htail : ofChars cs = [] ++ newline :: rest := hmore.symm
        obtain ⟨as, bs, has, hbs⟩ := ih htail
        rw [List.append_nil] at hc
        exact ⟨[c], bs, by simp [hc], hbs⟩
      | cons b more =>
        -- a newline inside an encoded character is all of that character
        obtain ⟨hb, hrest⟩ := List.cons.inj hmore
        have hnewline : utf8 '\n' = [newline] := rfl
        obtain rfl : c = '\n' := newline_mem_utf8 (by simp [hc, hb])
        obtain ⟨rfl, hbmore⟩ : piece = [] ∧ more = [] := by
          rw [hnewline] at hc
          have hl := congrArg List.length hc
          simp only [List.length_append, List.length_cons, List.length_nil] at hl
          exact ⟨List.length_eq_zero_iff.mp (by omega), List.length_eq_zero_iff.mp (by omega)⟩
        exact ⟨[], cs, rfl, by simpa [hbmore] using hrest.symm⟩

/-- Lines of characters. -/
inductive CharLines : Text → Prop
  | last (cs : List Char) (h : newline ∉ ofChars cs) : CharLines (ofChars cs)
  | line (cs : List Char) {rest : Text} (h : newline ∉ ofChars cs) (hrest : CharLines rest) :
    CharLines (ofChars cs ++ newline :: rest)

theorem charLines_of_isUtf8 {t : Text} (h : isUtf8 t = true) : CharLines t := by
  have hchars : ofChars (chars t) = t := ofChars_chars h
  clear h
  generalize chars t = cs at hchars
  induction t using byLines generalizing cs with
  | last piece hp =>
    rw [← hchars] at hp ⊢
    exact .last cs hp
  | line piece rest hp ih =>
    obtain ⟨as, bs, rfl, rfl⟩ := exists_chars_line hchars
    exact .line as hp (ih bs rfl)

end Literate.Text
