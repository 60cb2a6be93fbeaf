import Transplant.Text.Utf8
import Mathlib.Data.List.Basic

/-!
# Bytes that can be read are the bytes of what is read

The reader takes one character at a time, from the first byte of its encoding and at most three
bytes behind it.  It accepts a sequence of bytes only if this is the encoding of the character that
it returns, so a text that has been read is written as the bytes that it was read from.

* `head_eq_char_iff`: the character at the head, by the number of its bytes
* `encodeChar_of_head`: the character at the head is encoded by the bytes it was read from
* `encode_of_decode`: the same for a whole text
* `decode_encode`: and the bytes of a text are read as that text
-/

namespace Transplant
namespace Utf8

/-! ## One character -/

theorem toNat_val_ofNat {n : Nat} (h : n.isValidChar) : (Char.ofNat n).val.toNat = n := by
  rw [Char.ofNat, dif_pos h]
  rfl

theorem isContinuation_iff {b : Nat} : isContinuation b = true ↔ 128 ≤ b ∧ b < 192 := by
  simp [isContinuation]

theorem isSecond_iff {a b : Nat} :
    isSecond a b = true ↔ (128 ≤ b ∧ b < 192) ∧ (a = 224 → 160 ≤ b) ∧ (a = 237 → b < 160) ∧
      (a = 240 → 144 ≤ b) ∧ (a = 244 → b < 144) := by
  simp only [isSecond, Bool.and_eq_true, isContinuation_iff, Bool.not_eq_true',
    Bool.and_eq_false_iff, beq_eq_false_iff_ne, decide_eq_false_iff_not]
  omega

theorem byte_eq {n : Nat} {b : UInt8} (h : n = b.toNat) : UInt8.ofNat n = b := by
  rw [h, UInt8.ofNat_toNat]

theorem encodeChar_one {b : UInt8} (hb : b.toNat < 128) :
    String.utf8EncodeChar (Char.ofNat b.toNat) = [b] := by
  have hv : (Char.ofNat b.toNat).val.toNat = b.toNat := toNat_val_ofNat (Or.inl (by omega))
  rw [String.utf8EncodeChar, hv, if_pos (by omega), UInt8.ofNat_toNat]

theorem encodeChar_two {a b : UInt8} (ha : 194 ≤ a.toNat) (ha' : a.toNat < 224)
    (hb : isSecond a.toNat b.toNat = true) :
    String.utf8EncodeChar (Char.ofNat ((a.toNat - 192) * 64 + (b.toNat - 128))) = [a, b] := by
  rw [isSecond_iff] at hb
  have hv := toNat_val_ofNat (n := (a.toNat - 192) * 64 + (b.toNat - 128)) (Or.inl (by omega))
  rw [String.utf8EncodeChar, hv, if_neg (by omega), if_pos (by omega)]
  rw [List.cons.injEq, List.cons.injEq]
  exact ⟨byte_eq (by omega), byte_eq (by omega), rfl⟩

theorem encodeChar_three {a b c : UInt8} (ha : 224 ≤ a.toNat) (ha' : a.toNat < 240)
    (hb : isSecond a.toNat b.toNat = true) (hc : isContinuation c.toNat = true) :
    String.utf8EncodeChar (Char.ofNat
      ((a.toNat - 224) * 4096 + (b.toNat - 128) * 64 + (c.toNat - 128))) = [a, b, c] := by
  rw [isSecond_iff] at hb
  rw [isContinuation_iff] at hc
  have hvalid : Nat.isValidChar
      ((a.toNat - 224) * 4096 + (b.toNat - 128) * 64 + (c.toNat - 128)) := by
    unfold Nat.isValidChar
    omega
  rw [String.utf8EncodeChar, toNat_val_ofNat hvalid, if_neg (by omega), if_neg (by omega),
    if_pos (by omega)]
  rw [List.cons.injEq, List.cons.injEq, List.cons.injEq]
  exact ⟨byte_eq (by omega), byte_eq (by omega), byte_eq (by omega), rfl⟩

theorem encodeChar_four {a b c d : UInt8} (ha : 240 ≤ a.toNat) (ha' : a.toNat < 245)
    (hb : isSecond a.toNat b.toNat = true) (hc : isContinuation c.toNat = true)
    (hd : isContinuation d.toNat = true) :
    String.utf8EncodeChar (Char.ofNat ((a.toNat - 240) * 262144 + (b.toNat - 128) * 4096 +
      (c.toNat - 128) * 64 + (d.toNat - 128))) = [a, b, c, d] := by
  rw [isSecond_iff] at hb
  rw [isContinuation_iff] at hc hd
  have hvalid : Nat.isValidChar ((a.toNat - 240) * 262144 + (b.toNat - 128) * 4096 +
      (c.toNat - 128) * 64 + (d.toNat - 128)) := by
    unfold Nat.isValidChar
    omega
  rw [String.utf8EncodeChar, toNat_val_ofNat hvalid, if_neg (by omega), if_neg (by omega),
    if_neg (by omega)]
  rw [List.cons.injEq, List.cons.injEq, List.cons.injEq, List.cons.injEq]
  exact ⟨byte_eq (by omega), byte_eq (by omega), byte_eq (by omega), byte_eq (by omega), rfl⟩

theorem widthOf_cases (a : Nat) :
    (widthOf a = 0 ∧ (128 ≤ a ∧ a < 194 ∨ 245 ≤ a)) ∨ (widthOf a = 1 ∧ a < 128) ∨
      (widthOf a = 2 ∧ 194 ≤ a ∧ a < 224) ∨ (widthOf a = 3 ∧ 224 ≤ a ∧ a < 240) ∨
      (widthOf a = 4 ∧ 240 ≤ a ∧ a < 245) := by
  unfold widthOf
  split_ifs <;> omega

/-- **When a character stands at the head, and which.** -/
theorem head_eq_char_iff {a : Nat} {rest : List Nat} {c : Char} {width : Nat} :
    head a rest = .char c width ↔
      (widthOf a = 1 ∧ Char.ofNat a = c ∧ 1 = width) ∨
      (widthOf a = 2 ∧ ∃ x l, rest = x :: l ∧ isSecond a x = true ∧
        Char.ofNat ((a - 192) * 64 + (x - 128)) = c ∧ 2 = width) ∨
      (widthOf a = 3 ∧ ∃ x y l, rest = x :: y :: l ∧ isSecond a x = true ∧
        isContinuation y = true ∧
        Char.ofNat ((a - 224) * 4096 + (x - 128) * 64 + (y - 128)) = c ∧ 3 = width) ∨
      (widthOf a = 4 ∧ ∃ x y z l, rest = x :: y :: z :: l ∧ isSecond a x = true ∧
        isContinuation y = true ∧ isContinuation z = true ∧
        Char.ofNat ((a - 240) * 262144 + (x - 128) * 4096 + (y - 128) * 64 + (z - 128)) = c ∧
        4 = width) := by
  obtain ⟨hw, -⟩ | ⟨hw, -⟩ | ⟨hw, -⟩ | ⟨hw, -⟩ | ⟨hw, -⟩ := widthOf_cases a
  · simp [head, hw]
  · simp [head, hw]
  · match rest with
    | [] => simp [head, hw]
    | x :: l =>
      simp only [head, hw]
      by_cases hx : isSecond a x = true <;> simp [hx]
  · match rest with
    | [] => simp [head, hw]
    | [x] =>
      simp only [head, hw]
      split_ifs <;> simp
    | x :: y :: l =>
      simp only [head, hw]
      by_cases hx : isSecond a x = true <;> by_cases hy : isContinuation y = true <;> simp [hx, hy]
  · match rest with
    | [] => simp [head, hw]
    | [x] =>
      simp only [head, hw]
      split_ifs <;> simp
    | [x, y] =>
      simp only [head, hw]
      split_ifs <;> simp
    | x :: y :: z :: l =>
      simp only [head, hw]
      by_cases hx : isSecond a x = true <;> by_cases hy : isContinuation y = true <;>
        by_cases hz : isContinuation z = true <;> simp [hx, hy, hz]

/-- **The character at the head is encoded by the bytes that it was read from.** -/
theorem encodeChar_of_head {b : UInt8} {rest : Bytes} {c : Char} {width : Nat}
    (h : head b.toNat ((rest.take 3).map UInt8.toNat) = .char c width) :
    String.utf8EncodeChar c = b :: rest.take (width - 1) := by
  have hbounds := widthOf_cases b.toNat
  rw [head_eq_char_iff] at h
  obtain ⟨hw, rfl, rfl⟩ | ⟨hw, x, l, hrest, hx, rfl, rfl⟩ | ⟨hw, x, y, l, hrest, hx, hy, rfl, rfl⟩ |
    ⟨hw, x, y, z, l, hrest, hx, hy, hz, rfl, rfl⟩ := h
  · exact encodeChar_one (by omega)
  · match rest with
    | x :: rest =>
      obtain ⟨rfl, -⟩ := List.cons.inj hrest
      exact encodeChar_two (by omega) (by omega) hx
  · match rest with
    | x :: y :: rest =>
      obtain ⟨rfl, hlater⟩ := List.cons.inj hrest
      obtain ⟨rfl, -⟩ := List.cons.inj hlater
      exact encodeChar_three (by omega) (by omega) hx hy
  · match rest with
    | x :: y :: z :: rest =>
      obtain ⟨rfl, hlater⟩ := List.cons.inj hrest
      obtain ⟨rfl, hlast⟩ := List.cons.inj hlater
      obtain ⟨rfl, -⟩ := List.cons.inj hlast
      exact encodeChar_four (by omega) (by omega) hx hy hz

/-! ## A whole text -/

/-- The reader stands at some character of which `skip` bytes remain. -/
theorem encode_of_decodeFrom {bytes : Bytes} {at_ skip : Nat} {chars : List Char}
    (h : decodeFrom at_ skip bytes = .ok chars) :
    chars.flatMap String.utf8EncodeChar = bytes.drop skip := by
  induction bytes generalizing at_ skip chars with
  | nil =>
    obtain rfl : [] = chars := by simpa [decodeFrom] using h
    simp
  | cons b rest ih =>
    cases skip with
    | succ skip => exact ih (by simpa [decodeFrom] using h)
    | zero =>
      rw [decodeFrom] at h
      split at h
      next c width hhead =>
        cases hrest : decodeFrom (at_ + 1) (width - 1) rest with
        | error e => simp [hrest, Except.map] at h
        | ok chars' =>
          obtain rfl : c :: chars' = chars := by simpa [hrest, Except.map] using h
          rw [List.flatMap_cons, ih hrest, encodeChar_of_head hhead]
          simp
      next => cases h

/-- **A text that has been read is written as the bytes that it was read from.** -/
theorem encode_of_decode {bytes : Bytes} {text : String} (h : decode bytes = .ok text) :
    encode text = bytes := by
  cases hchars : decodeFrom 0 0 bytes with
  | error e => simp [decode, hchars, Except.map] at h
  | ok chars =>
    obtain rfl : String.ofList chars = text := by simpa [decode, hchars, Except.map] using h
    rw [encode, String.toList_ofList, encode_of_decodeFrom hchars, List.drop_zero]

/-! ## Reading what has been written -/

/-- **The encoding of a character is read as that character.** -/
theorem head_encodeChar (c : Char) (rest : Bytes) :
    ∃ b bs, String.utf8EncodeChar c = b :: bs ∧
      head b.toNat (((bs ++ rest).take 3).map UInt8.toNat) = .char c (bs.length + 1) := by
  have hvalid : c.val.toNat < 55296 ∨ (57343 < c.val.toNat ∧ c.val.toNat < 1114112) := c.valid
  have hchar {n : Nat} (hn : n = c.val.toNat) : Char.ofNat n = c := hn ▸ Char.ofNat_toNat c
  have hbyte {n : Nat} (hn : n < 256) : (UInt8.ofNat n).toNat = n := by
    rw [UInt8.toNat_ofNat', Nat.mod_eq_of_lt hn]
  unfold String.utf8EncodeChar
  simp only
  split_ifs with hone htwo hthree
  · have hwidth := widthOf_cases c.val.toNat
    refine ⟨_, _, rfl, ?_⟩
    rw [hbyte (by omega), head_eq_char_iff]
    exact .inl ⟨by omega, hchar rfl, rfl⟩
  · have hwidth := widthOf_cases (c.val.toNat / 64 % 32 + 192)
    refine ⟨_, _, rfl, ?_⟩
    simp only [List.cons_append, List.take_succ_cons, List.map_cons]
    rw [hbyte (by omega), hbyte (by omega), head_eq_char_iff]
    exact .inr (.inl ⟨by omega, _, _, rfl, isSecond_iff.mpr (by omega), hchar (by omega), rfl⟩)
  · have hwidth := widthOf_cases (c.val.toNat / 4096 % 16 + 224)
    refine ⟨_, _, rfl, ?_⟩
    simp only [List.cons_append, List.take_succ_cons, List.map_cons]
    rw [hbyte (by omega), hbyte (by omega), hbyte (by omega), head_eq_char_iff]
    exact .inr (.inr (.inl ⟨by omega, _, _, _, rfl, isSecond_iff.mpr (by omega),
      isContinuation_iff.mpr (by omega), hchar (by omega), rfl⟩))
  · have hwidth := widthOf_cases (c.val.toNat / 262144 % 8 + 240)
    refine ⟨_, _, rfl, ?_⟩
    simp only [List.cons_append, List.take_succ_cons, List.map_cons]
    rw [hbyte (by omega), hbyte (by omega), hbyte (by omega), hbyte (by omega), head_eq_char_iff]
    exact .inr (.inr (.inr ⟨by omega, _, _, _, _, rfl, isSecond_iff.mpr (by omega),
      isContinuation_iff.mpr (by omega), isContinuation_iff.mpr (by omega), hchar (by omega), rfl⟩))

theorem decodeFrom_skip (at_ : Nat) (l rest : Bytes) :
    decodeFrom at_ l.length (l ++ rest) = decodeFrom (at_ + l.length) 0 rest := by
  induction l generalizing at_ with
  | nil => rfl
  | cons b l ih =>
    rw [List.length_cons, List.cons_append, decodeFrom, ih, Nat.add_assoc, Nat.add_comm 1]

theorem decodeFrom_encode (at_ : Nat) (chars : List Char) :
    decodeFrom at_ 0 (chars.flatMap String.utf8EncodeChar) = .ok chars := by
  induction chars generalizing at_ with
  | nil => rfl
  | cons c rest ih =>
    obtain ⟨b, bs, hencode, hhead⟩ := head_encodeChar c (rest.flatMap String.utf8EncodeChar)
    rw [List.flatMap_cons, hencode, List.cons_append, decodeFrom]
    simp only [hhead, Nat.add_sub_cancel, decodeFrom_skip, ih]
    rfl

/-- **The bytes of a text are read as that text.** -/
theorem decode_encode (text : String) : decode (encode text) = .ok text := by
  rw [decode, encode, decodeFrom_encode]
  exact congrArg Except.ok String.ofList_toList

end Utf8
end Transplant
