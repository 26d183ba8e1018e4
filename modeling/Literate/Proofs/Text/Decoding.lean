import Literate.Text.Rune

/-! Decoding inverts encoding. The characters of an encoded list are that list, and a text
without malformed bytes is the encoding of its characters. -/

namespace Literate.Text

/-- No encoded character begins another. -/
theorem utf8_append_inj {c d : Char} {a b : Text} (h : utf8 c ++ a = utf8 d ++ b) : c = d := by
  have hc := ByteArray.utf8DecodeChar?_utf8EncodeChar_append (b := a.toByteArray) (c := c)
  have hd := ByteArray.utf8DecodeChar?_utf8EncodeChar_append (b := b.toByteArray) (c := d)
  rw [← List.toByteArray_append] at hc hd
  have he : String.utf8EncodeChar c ++ a = String.utf8EncodeChar d ++ b := h
  rw [he, hd] at hc
  exact (Option.some.inj hc).symm

theorem utf8_ne_nil (c : Char) : utf8 c ≠ [] := by
  intro h
  have hl : (utf8 c).length = c.utf8Size := String.length_utf8EncodeChar c
  have hp := c.utf8Size_pos
  simp only [h, List.length_nil] at hl
  omega

theorem utf8_length_mem (c : Char) : (utf8 c).length ∈ [1, 2, 3, 4] := by
  have hl : (utf8 c).length = c.utf8Size := String.length_utf8EncodeChar c
  have hs := c.utf8Size_eq
  simp only [hl, List.mem_cons, List.not_mem_nil, or_false]
  exact hs

theorem toNat_le (c : Char) : c.toNat ≤ 0x10FFFF := by
  have h := c.valid
  unfold UInt32.isValidChar Nat.isValidChar at h
  unfold Char.toNat
  omega

theorem spelled_utf8 (c : Char) : spelled (utf8 c) = c.toNat := by
  have hmax := toNat_le c
  unfold Char.toNat at hmax ⊢
  simp only [utf8, String.utf8EncodeChar]
  generalize c.val.toNat = n at hmax
  -- `spelled` is opened by `change`: its equations are stated for all lengths at once
  split
  · change (UInt8.ofNat n).toNat = n
    simp only [UInt8.toNat_ofNat']
    omega
  · split
    · change ((UInt8.ofNat _).toNat - 0xC0) * 64 + ((UInt8.ofNat _).toNat - 0x80) = n
      simp only [UInt8.toNat_ofNat']
      omega
    · split
      · change (((UInt8.ofNat _).toNat - 0xE0) * 64 + ((UInt8.ofNat _).toNat - 0x80)) * 64 +
          ((UInt8.ofNat _).toNat - 0x80) = n
        simp only [UInt8.toNat_ofNat']
        omega
      · change ((((UInt8.ofNat _).toNat - 0xF0) * 64 + ((UInt8.ofNat _).toNat - 0x80)) * 64 +
          ((UInt8.ofNat _).toNat - 0x80)) * 64 + ((UInt8.ofNat _).toNat - 0x80) = n
        simp only [UInt8.toNat_ofNat']
        omega

theorem exactly?_utf8 (c : Char) : exactly? (utf8 c) = some ⟨c, utf8 c⟩ := by
  simp [exactly?, spelled_utf8, Char.ofNat_toNat]

theorem exactly?_eq_some {bytes : Text} {r : Rune} (h : exactly? bytes = some r) :
    r.bytes = bytes ∧ utf8 r.char = bytes := by
  simp only [exactly?] at h
  split at h
  · rename_i hu
    obtain rfl := Option.some.inj h
    exact ⟨rfl, hu⟩
  · cases h

/-- A part of a text that spells a character at its start spells the only one there is. -/
theorem exactly?_take {c : Char} {rest : Text} {n : Nat} {r : Rune}
    (h : exactly? ((utf8 c ++ rest).take n) = some r) : r = ⟨c, utf8 c⟩ := by
  obtain ⟨hb, hu⟩ := exactly?_eq_some h
  have he : utf8 r.char ++ (utf8 c ++ rest).drop n = utf8 c ++ rest := by
    rw [hu, List.take_append_drop]
  have hc := utf8_append_inj he
  cases r with
  | mk char bytes =>
    simp only at hb hu hc
    rw [hc] at hu
    rw [hb, ← hu, hc]

theorem headRune_utf8_append (c : Char) (rest : Text) :
    headRune (utf8 c ++ rest) = ⟨c, utf8 c⟩ := by
  unfold headRune
  cases hf : [1, 2, 3, 4].findSome? fun n => exactly? ((utf8 c ++ rest).take n) with
  | none =>
    have hn := List.findSome?_eq_none_iff.mp hf _ (utf8_length_mem c)
    simp [exactly?_utf8] at hn
  | some r =>
    obtain ⟨n, _, hr⟩ := List.exists_of_findSome?_eq_some hf
    exact exactly?_take hr

theorem runesAfter_eq_drop (k : Nat) (t : Text) : runesAfter k t = runes (t.drop k) := by
  induction t generalizing k with
  | nil => simp [runes, runesAfter]
  | cons b t ih =>
    cases k with
    | zero => rfl
    | succ k => simpa [runesAfter] using ih k

theorem runes_eq_cons {t : Text} (h : t ≠ []) :
    runes t = headRune t :: runes (t.drop ((headRune t).bytes.length - 1 + 1)) := by
  cases t with
  | nil => exact absurd rfl h
  | cons b t => exact congrArg (_ :: ·) (runesAfter_eq_drop _ t)

theorem runes_utf8_append (c : Char) (rest : Text) :
    runes (utf8 c ++ rest) = ⟨c, utf8 c⟩ :: runes rest := by
  have hl := List.length_pos_iff.mpr (utf8_ne_nil c)
  rw [runes_eq_cons (by simp [utf8_ne_nil]), headRune_utf8_append]
  simp [Nat.sub_add_cancel hl]

@[simp] theorem runes_nil : runes [] = [] := rfl

theorem runes_ofChars (cs : List Char) : runes (ofChars cs) = cs.map fun c => ⟨c, utf8 c⟩ := by
  induction cs with
  | nil => rfl
  | cons c cs ih => rw [ofChars_cons, runes_utf8_append, ih, List.map_cons]

theorem runes_ofChars_append (cs : List Char) (t : Text) :
    runes (ofChars cs ++ t) = runes (ofChars cs) ++ runes t := by
  induction cs with
  | nil => rfl
  | cons c cs ih =>
    rw [ofChars_cons, List.append_assoc, runes_utf8_append, runes_utf8_append, ih, List.cons_append]

theorem ofChars_replicate_space (n : Nat) :
    ofChars (List.replicate n ' ') = List.replicate n 32 := by
  have hspace : utf8 ' ' = [32] := rfl
  simp [ofChars, List.flatMap_replicate, hspace]

@[simp] theorem chars_ofChars (cs : List Char) : chars (ofChars cs) = cs := by
  simp [chars, runes_ofChars, Function.comp_def]

theorem ofChars_eq_nil {cs : List Char} : ofChars cs = [] ↔ cs = [] := by
  cases cs with
  | nil => simp
  | cons c cs => simp [utf8_ne_nil]

/-- What is read at the start of a text is an encoded character or a malformed byte. -/
theorem headRune_cases {t : Text} (h : t ≠ []) :
    (∃ rest, t = utf8 (headRune t).char ++ rest ∧ (headRune t).bytes = utf8 (headRune t).char) ∨
      isMalformed (headRune t) = true := by
  unfold headRune
  cases hf : [1, 2, 3, 4].findSome? fun n => exactly? (t.take n) with
  | none =>
    right
    have hl := List.length_pos_iff.mpr h
    simp [isMalformed]
    omega
  | some r =>
    left
    obtain ⟨n, _, hr⟩ := List.exists_of_findSome?_eq_some hf
    obtain ⟨hb, hu⟩ := exactly?_eq_some hr
    refine ⟨t.drop n, ?_, ?_⟩
    · simp only [Option.getD_some]
      rw [hu, List.take_append_drop]
    · simp only [Option.getD_some]
      rw [hb, hu]

theorem isUtf8_utf8_append (c : Char) (rest : Text) :
    isUtf8 (utf8 c ++ rest) = (!isMalformed ⟨c, utf8 c⟩ && isUtf8 rest) := by
  simp [isUtf8, runes_utf8_append]

theorem ofChars_chars {t : Text} (h : isUtf8 t = true) : ofChars (chars t) = t := by
  induction hn : t.length using Nat.strongRecOn generalizing t with
  | _ n ih =>
    by_cases ht : t = []
    · subst ht
      rfl
    · rcases headRune_cases ht with ⟨rest, hr, _⟩ | hm
      · rw [hr, isUtf8_utf8_append, Bool.and_eq_true] at h
        have hp := List.length_pos_iff.mpr (utf8_ne_nil (headRune t).char)
        have hlen : rest.length < n := by
          rw [← hn, hr, List.length_append]
          omega
        have hrest := ih _ hlen h.2 rfl
        rw [hr]
        simp only [chars, runes_utf8_append, List.map_cons, ofChars_cons]
        rw [show ofChars ((runes rest).map Rune.char) = rest from hrest]
      · rw [isUtf8, runes_eq_cons ht, List.all_cons, hm] at h
        simp at h

end Literate.Text
