import Literate.Job.Id
import Literate.Proofs.Text.Positional
import Mathlib.Data.List.Induction

/-! Identifiers as numbers. The digits of an identifier spell the number that its sixteen bytes
spell, so the bytes can be read back, and identifiers sort as their bytes do. -/

namespace Literate.Job.Id

/-- The number that bytes spell, the most significant first. -/
def number (bytes : Text) : Nat := positional 256 (bytes.map UInt8.toNat)

/-- The number that the digits of an identifier spell. -/
def value (id : Text) : Nat := positional 32 (id.map (alphabet.idxOf ·))

/-- The sixteen bytes of an identifier. -/
def decode (id : Text) : Text := bigEndian 16 (value id)

section Number

variable {a b : Text}

theorem number_concat (bytes : Text) (b : UInt8) :
    number (bytes ++ [b]) = 256 * number bytes + b.toNat := by
  simp [number, positional_concat]

theorem number_append (a b : Text) :
    number (a ++ b) = number a * 256 ^ b.length + number b := by
  simp [number, positional_append]

theorem lt_of_mem_map_toNat {d : Nat} (h : d ∈ b.map UInt8.toNat) : d < 256 := by
  obtain ⟨byte, -, rfl⟩ := List.mem_map.1 h
  exact byte.toNat_lt

theorem number_lt (bytes : Text) : number bytes < 256 ^ bytes.length := by
  have hbytes : ∀ d ∈ bytes.map UInt8.toNat, d < 256 := fun _ => lt_of_mem_map_toNat
  have hlt := positional_lt (by decide) hbytes
  rwa [List.length_map] at hlt

theorem number_lt_iff (h : a.length = b.length) : number a < number b ↔ a < b := by
  rw [number, number, positional_lt_iff (by decide) (by simpa using h)
    (fun _ => lt_of_mem_map_toNat) (fun _ => lt_of_mem_map_toNat)]
  exact map_lt_map_iff fun _ _ _ _ => ⟨UInt8.lt_iff_toNat_lt.symm, UInt8.toNat_inj⟩

theorem number_injective (hlength : a.length = b.length) (h : number a = number b) : a = b :=
  (List.map_inj_right fun _ _ => UInt8.toNat_inj.1).1
    (positional_injective (by decide) (by simpa using hlength)
      (fun _ => lt_of_mem_map_toNat) (fun _ => lt_of_mem_map_toNat) h)

@[simp] theorem length_bigEndian (width n : Nat) : (bigEndian width n).length = width := by
  simp [bigEndian]

theorem bigEndian_succ (width n : Nat) :
    bigEndian (width + 1) n = bigEndian width (n / 256) ++ [(n % 256).toUInt8] := by
  have hshift : ∀ i < width, n >>> (8 * (width + 1 - 1 - i)) =
      (n / 256) >>> (8 * (width - 1 - i)) := by
    intro i hi
    have hplaces : 8 * (width + 1 - 1 - i) = 8 + 8 * (width - 1 - i) := by omega
    rw [hplaces, Nat.shiftRight_add, Nat.shiftRight_eq_div_pow n 8]
  rw [bigEndian, List.range_succ, List.map_append, List.map_singleton]
  congr 1
  · exact List.map_congr_left fun i hi => by rw [hshift i (List.mem_range.1 hi)]
  · simp

theorem number_bigEndian (width n : Nat) : number (bigEndian width n) = n % 256 ^ width := by
  induction width generalizing n with
  | zero => simp [bigEndian, number, Nat.mod_one]
  | succ width ih =>
    have hbyte : ((n % 256).toUInt8).toNat = n % 256 :=
      UInt8.toNat_ofNat'.trans (Nat.mod_mod n 256)
    rw [bigEndian_succ, number_concat, ih, hbyte, Nat.pow_succ', Nat.mod_mul, Nat.add_comm]

theorem bigEndian_number (bytes : Text) : bigEndian bytes.length (number bytes) = bytes := by
  refine number_injective (length_bigEndian _ _) ?_
  rw [number_bigEndian, Nat.mod_eq_of_lt (number_lt bytes)]

end Number

namespace Wide

/-- The number of 128 bits that two words hold. -/
def number (w : Wide) : Nat := w.high.toNat * 256 ^ 8 + w.low.toNat

theorem toNat_word {bytes : Text} (h : bytes.length ≤ 8) :
    (word bytes).toNat = Id.number bytes := by
  induction bytes using List.reverseRecOn with
  | nil => rfl
  | append_singleton bytes b ih =>
    rw [List.length_append, List.length_singleton] at h
    have hprevious := ih (by omega)
    have hroom : Id.number bytes < 256 ^ 7 :=
      (number_lt bytes).trans_le (Nat.pow_le_pow_right (by decide) (by omega))
    have hword : word (bytes ++ [b]) = word bytes <<< 8 ||| b.toUInt64 := by simp [word]
    have hshift : (word bytes <<< 8).toNat = 2 ^ 8 * Id.number bytes := by
      rw [UInt64.toNat_shiftLeft, hprevious, Nat.shiftLeft_eq, Nat.mul_comm]
      exact Nat.mod_eq_of_lt (show 2 ^ 8 * Id.number bytes < 2 ^ 64 by omega)
    rw [hword, UInt64.toNat_or, hshift, UInt8.toNat_toUInt64,
      ← Nat.two_pow_add_eq_or_of_lt b.toNat_lt, number_concat]

theorem number_ofBytes {bytes : Text} (h : bytes.length = 16) :
    (ofBytes bytes).number = Id.number bytes := by
  have hhigh : (word (bytes.take 8)).toNat = Id.number (bytes.take 8) := toNat_word (by simp)
  have hlow : (word (bytes.drop 8)).toNat = Id.number (bytes.drop 8) := toNat_word (by simp [h])
  have hsplit := number_append (bytes.take 8) (bytes.drop 8)
  rw [List.take_append_drop, List.length_drop, h] at hsplit
  rw [hsplit, number, ofBytes, hhigh, hlow]

/-- The bits that leave the high word are the first of the low word. -/
theorem number_shift (w : Wide) : w.shift.number = w.number / 32 := by
  have hhigh : (w.high >>> 5).toNat = w.high.toNat / 32 := by
    rw [UInt64.toNat_shiftRight]
    exact Nat.shiftRight_eq_div_pow _ 5
  have hlow : (w.low >>> 5).toNat = w.low.toNat / 32 := by
    rw [UInt64.toNat_shiftRight]
    exact Nat.shiftRight_eq_div_pow _ 5
  have hcarried : (w.high <<< 59).toNat = 2 ^ 59 * (w.high.toNat % 32) := by
    rw [UInt64.toNat_shiftLeft, ← Nat.mul_mod_mul_left, Nat.mul_comm]
    exact congrArg (· % 2 ^ 64) (Nat.shiftLeft_eq _ 59)
  have hroom : w.low.toNat / 32 < 2 ^ 59 := by
    have hlt := w.low.toNat_lt
    omega
  have hjoined : (w.low >>> 5 ||| w.high <<< 59).toNat =
      2 ^ 59 * (w.high.toNat % 32) + w.low.toNat / 32 := by
    rw [UInt64.toNat_or, Nat.or_comm, hlow, hcarried, Nat.two_pow_add_eq_or_of_lt hroom]
  rw [number, number, shift, hhigh, hjoined]
  omega

theorem lastDigit_eq (w : Wide) : w.lastDigit = alphabet.getD (w.number % 32) 0 := by
  have hlow : (w.low &&& 31).toNat = w.low.toNat % 32 := by
    rw [UInt64.toNat_and]
    exact Nat.and_two_pow_sub_one_eq_mod _ 5
  have hwhole : w.number % 32 = w.low.toNat % 32 := by
    rw [number]
    omega
  rw [lastDigit, hlow, hwhole]

theorem digit_of_lt {k : Nat} (h : k < 32) :
    alphabet.getD k 0 ∈ alphabet ∧ alphabet.idxOf (alphabet.getD k 0) = k := by
  have hall : ∀ k < 32, alphabet.getD k 0 ∈ alphabet ∧ alphabet.idxOf (alphabet.getD k 0) = k := by
    decide +kernel
  exact hall k h

theorem length_digits (count : Nat) (w : Wide) : (w.digits count).length = count := by
  induction count generalizing w with
  | zero => rfl
  | succ count ih => rw [digits, List.length_append, ih, List.length_singleton]

theorem mem_alphabet {count : Nat} {w : Wide} {d : UInt8} (h : d ∈ w.digits count) :
    d ∈ alphabet := by
  induction count generalizing w with
  | zero => cases h
  | succ count ih =>
    rcases List.mem_append.1 h with h | h
    · exact ih h
    · rw [List.mem_singleton.1 h, lastDigit_eq]
      exact (digit_of_lt (Nat.mod_lt _ (by decide))).1

/-- Each step gives one digit and goes on with the number that is left. -/
theorem value_digits (count : Nat) (w : Wide) : value (w.digits count) = w.number % 32 ^ count := by
  induction count generalizing w with
  | zero => exact (Nat.mod_one _).symm
  | succ count ih =>
    have hlast : alphabet.idxOf w.lastDigit = w.number % 32 := by
      rw [lastDigit_eq]
      exact (digit_of_lt (Nat.mod_lt _ (by decide))).2
    have hrest := ih w.shift
    rw [value] at hrest
    rw [digits, value, List.map_append, List.map_singleton, positional_concat, hrest, hlast,
      number_shift, Nat.pow_succ', Nat.mod_mul, Nat.add_comm]

end Wide

section Encode

variable {a b : Text}

theorem value_lt_iff (hlength : a.length = b.length) (ha : ∀ d ∈ a, d ∈ alphabet)
    (hb : ∀ d ∈ b, d ∈ alphabet) : value a < value b ↔ a < b := by
  have hdigits : ∀ {id : Text}, (∀ d ∈ id, d ∈ alphabet) →
      ∀ k ∈ id.map (alphabet.idxOf ·), k < 32 := by
    intro id hid k hk
    obtain ⟨d, hd, rfl⟩ := List.mem_map.1 hk
    exact List.idxOf_lt_length_of_mem (hid d hd)
  -- the signs ascend with the digits that they stand for
  have hascending : ∀ c ∈ alphabet, ∀ d ∈ alphabet,
      (alphabet.idxOf c < alphabet.idxOf d ↔ c < d) ∧
        (alphabet.idxOf c = alphabet.idxOf d ↔ c = d) := by
    decide +kernel
  rw [value, value, positional_lt_iff (by decide) (by simpa using hlength) (hdigits ha)
    (hdigits hb)]
  exact map_lt_map_iff fun c hc d hd => hascending c (ha c hc) d (hb d hd)

theorem length_encode (b : Text) : (encode b).length = 26 := Wide.length_digits 26 _

theorem value_encode (h : b.length = 16) : value (encode b) = number b := by
  have hroom : number b < 32 ^ 26 := by
    have hlt := number_lt b
    rw [h] at hlt
    omega
  rw [encode, Wide.value_digits, Wide.number_ofBytes h, Nat.mod_eq_of_lt hroom]

theorem encode_lt_iff (ha : a.length = 16) (hb : b.length = 16) :
    encode a < encode b ↔ a < b := by
  have hvalues : value (encode a) < value (encode b) ↔ encode a < encode b :=
    value_lt_iff ((length_encode a).trans (length_encode b).symm) (fun _ => Wide.mem_alphabet)
      fun _ => Wide.mem_alphabet
  rw [← hvalues, value_encode ha, value_encode hb, number_lt_iff (ha.trans hb.symm)]

theorem decode_encode (h : b.length = 16) : decode (encode b) = b := by
  rw [decode, value_encode h, ← h, bigEndian_number]

/-- The first of 26 digits counts what is above 125 bits. -/
theorem first_digit_le (h : b.length = 16) {d : UInt8} (hd : d ∈ (encode b).head?) :
    alphabet.idxOf d ≤ 7 := by
  obtain ⟨rest, hrest⟩ := List.head?_eq_some_iff.1 hd
  have hlength := length_encode b
  have hvalue := value_encode h
  have hlt := number_lt b
  rw [hrest, List.length_cons] at hlength
  rw [hrest, value, List.map_cons, positional_cons, List.length_map,
    Nat.succ.inj hlength] at hvalue
  rw [h] at hlt
  omega

/-- An identifier is the number of its sixteen bytes in base 32. It has 26 digits, of which the first
is at most seven, it can be read back, and identifiers sort as their bytes do. -/
theorem encode_positional (hb : b.length = 16) :
    (encode b).length = 26 ∧ (∀ d ∈ encode b, d ∈ alphabet) ∧ value (encode b) = number b ∧
      (∀ d ∈ (encode b).head?, alphabet.idxOf d ≤ 7) ∧ decode (encode b) = b ∧
      ∀ a, a.length = 16 → (encode a = encode b → a = b) ∧ (encode a < encode b ↔ a < b) := by
  refine ⟨length_encode b, fun _ => Wide.mem_alphabet, value_encode hb,
    fun _ => first_digit_le hb, decode_encode hb, fun a ha => ⟨fun h => ?_, encode_lt_iff ha hb⟩⟩
  rw [← decode_encode ha, h, decode_encode hb]

/-- The greatest number, and one that is less in the last byte of its high word. -/
theorem encode_positional_greatest :
    (List.replicate 16 255 : Text).length = 16 ∧
      value (encode (List.replicate 16 255)) = 340282366920938463463374607431768211455 ∧
      encode (List.replicate 7 255 ++ 254 :: List.replicate 8 255) <
        encode (List.replicate 16 255) := by
  have hlength : (List.replicate 16 255 : Text).length = 16 := rfl
  obtain ⟨-, -, hvalue, -, -, horder⟩ := encode_positional hlength
  refine ⟨hlength, hvalue.trans (by decide +kernel), ?_⟩
  exact (horder (List.replicate 7 255 ++ 254 :: List.replicate 8 255) rfl).2.2 (by decide)

end Encode

end Literate.Job.Id
