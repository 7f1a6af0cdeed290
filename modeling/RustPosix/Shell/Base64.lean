import RustPosix.Shell.Editor

/-! The encoding of the bytes that are sent to the clipboard: what `base64_encode` writes, as
far as its destination goes, is read back by a decoder of RFC 4648. -/

namespace RustPosix.Shell

open Library

/-- The character for six bits. -/
def b64Char (bits : Nat) : Byte := b64Chars.getD bits 0

/-- The four characters of every group, by the value of its bits. -/
def encoded : List Byte → List Byte
  | [] => []
  | [b0] => [b64Char (b0.toNat / 4), b64Char (b0.toNat % 4 * 16), equalsSign, equalsSign]
  | [b0, b1] =>
    [b64Char (b0.toNat / 4), b64Char (b0.toNat % 4 * 16 + b1.toNat / 16),
      b64Char (b1.toNat % 16 * 4), equalsSign]
  | b0 :: b1 :: b2 :: rest =>
    b64Char (b0.toNat / 4) :: b64Char (b0.toNat % 4 * 16 + b1.toNat / 16) ::
      b64Char (b1.toNat % 16 * 4 + b2.toNat / 64) :: b64Char (b2.toNat % 64) :: encoded rest

/-- The number of groups. -/
def groups (src : List Byte) : Nat := (src.length + 2) / 3

theorem length_encoded : ∀ src : List Byte, (encoded src).length = 4 * groups src
  | [] => rfl
  | [_] => by simp [encoded, groups]
  | [_, _] => by simp [encoded, groups]
  | _ :: _ :: _ :: rest => by
    have ih := length_encoded rest
    simp only [encoded, groups, List.length_cons] at ih ⊢
    omega

section Bits

theorem b64Chars_found {bits : Nat} (small : bits < 64) :
    b64Chars[bits]? = some (b64Char bits) := by
  have inside : bits < b64Chars.length := small
  rw [b64Char, List.getD_eq_getElem?_getD, List.getElem?_eq_getElem inside, Option.getD_some]

theorem high_bits (byte : Byte) (shift : Nat) : (byte >>> shift).toNat = byte.toNat / 2 ^ shift := by
  rw [BitVec.toNat_ushiftRight, Nat.shiftRight_eq_div_pow]

/-- The last bits of a byte, moved up. -/
theorem low_bits (byte : Byte) (bits shift : Nat) (fits : bits + shift ≤ 8) :
    ((byte &&& BitVec.ofNat 8 (2 ^ bits - 1)) <<< shift).toNat =
      byte.toNat % 2 ^ bits * 2 ^ shift := by
  have whole : 2 ^ bits * 2 ^ shift ≤ 2 ^ 8 := by
    rw [← Nat.pow_add]
    exact Nat.pow_le_pow_right (by decide) fits
  have below : byte.toNat % 2 ^ bits < 2 ^ bits := Nat.mod_lt _ (Nat.two_pow_pos bits)
  have mask : (BitVec.ofNat 8 (2 ^ bits - 1)).toNat = 2 ^ bits - 1 := by
    have high : 2 ^ bits ≤ 2 ^ 8 := Nat.pow_le_pow_right (by decide) (by omega)
    have low := Nat.two_pow_pos bits
    rw [BitVec.toNat_ofNat, Nat.mod_eq_of_lt (by omega)]
  rw [BitVec.toNat_shiftLeft, BitVec.toNat_and, mask, Nat.and_two_pow_sub_one_eq_mod,
    Nat.shiftLeft_eq, Nat.mod_eq_of_lt]
  exact Nat.lt_of_lt_of_le ((Nat.mul_lt_mul_right (Nat.two_pow_pos shift)).mpr below) whole

/-- Bits of one byte with those of the next one behind them. -/
theorem joined_bits (byte next : Byte) (bits shift : Nat) (fits : bits + shift = 6) :
    ((byte &&& BitVec.ofNat 8 (2 ^ bits - 1)) <<< shift ||| next >>> (8 - shift)).toNat =
      byte.toNat % 2 ^ bits * 2 ^ shift + next.toNat / 2 ^ (8 - shift) := by
  have small : next.toNat / 2 ^ (8 - shift) < 2 ^ shift := by
    refine Nat.div_lt_of_lt_mul ?_
    rw [← Nat.pow_add, Nat.sub_add_cancel (by omega)]
    exact next.isLt
  rw [BitVec.toNat_or, low_bits byte bits shift (by omega), high_bits, Nat.mul_comm,
    Nat.two_pow_add_eq_or_of_lt small]

end Bits

/-- A group is put at the start of what is free. -/
theorem putAll_group {front free : List Byte} (c0 c1 c2 c3 : Byte) (room : 4 ≤ free.length) :
    Buffer.putAll front.length [c0, c1, c2, c3] (front ++ free) =
      some (front ++ [c0, c1, c2, c3] ++ free.drop 4) := by
  have gap : (free.take 4).length = [c0, c1, c2, c3].length := List.length_take_of_le room
  have put := @Buffer.putAll_between _ (free.drop 4) _ front.length front _ rfl gap
  rwa [List.append_assoc, List.take_append_drop] at put

/-- What fits into the free part of the destination is written there. -/
theorem base64Encode_eq : ∀ (src front free : List Byte),
    base64Encode src (front ++ free) front.length =
      some (front.length + 4 * min (groups src) (free.length / 4),
        front ++ (encoded src).take (4 * min (groups src) (free.length / 4)) ++
          free.drop (4 * min (groups src) (free.length / 4)))
  | [], front, free => by simp [base64Encode, encoded, groups]
  | [b0], front, free => by
    have byte := b0.isLt
    have last := low_bits b0 2 4 (by decide)
    rw [base64Encode, List.length_append]
    by_cases room : 4 ≤ free.length
    · have count : 4 * min (groups [b0]) (free.length / 4) = 4 := by simp [groups]; omega
      rw [if_neg (by omega), count, show (0x03 : Byte) = BitVec.ofNat 8 (2 ^ 2 - 1) from rfl, last,
        high_bits, b64Chars_found (by omega), b64Chars_found (by omega)]
      simp [putAll_group, room, encoded]
    · have count : 4 * min (groups [b0]) (free.length / 4) = 0 := by omega
      rw [if_pos (by omega), count]
      simp
  | [b0, b1], front, free => by
    have byte := b0.isLt
    have next := b1.isLt
    have middle := joined_bits b0 b1 2 4 (by decide)
    have last := low_bits b1 4 2 (by decide)
    rw [base64Encode, List.length_append]
    by_cases room : 4 ≤ free.length
    · have count : 4 * min (groups [b0, b1]) (free.length / 4) = 4 := by simp [groups]; omega
      rw [if_neg (by omega), count, show (0x03 : Byte) = BitVec.ofNat 8 (2 ^ 2 - 1) from rfl,
        show (0x0F : Byte) = BitVec.ofNat 8 (2 ^ 4 - 1) from rfl, last, middle,
        high_bits, b64Chars_found (by omega), b64Chars_found (by omega), b64Chars_found (by omega)]
      simp [putAll_group, room, encoded]
    · have count : 4 * min (groups [b0, b1]) (free.length / 4) = 0 := by omega
      rw [if_pos (by omega), count]
      simp
  | b0 :: b1 :: b2 :: rest, front, free => by
    have byte := b0.isLt
    have next := b1.isLt
    have third := b2.isLt
    have middle := joined_bits b0 b1 2 4 (by decide)
    have later := joined_bits b1 b2 4 2 (by decide)
    have last := low_bits b2 6 0 (by decide)
    rw [BitVec.shiftLeft_zero] at last
    rw [base64Encode, List.length_append]
    have whole : groups (b0 :: b1 :: b2 :: rest) = groups rest + 1 := by simp [groups]; omega
    by_cases room : 4 ≤ free.length
    · have count : 4 * min (groups (b0 :: b1 :: b2 :: rest)) (free.length / 4) =
          4 * min (groups rest) ((free.drop 4).length / 4) + 4 := by
        rw [whole, List.length_drop]
        omega
      rw [if_neg (by omega), count, show (0x03 : Byte) = BitVec.ofNat 8 (2 ^ 2 - 1) from rfl,
        show (0x0F : Byte) = BitVec.ofNat 8 (2 ^ 4 - 1) from rfl,
        show (0x3F : Byte) = BitVec.ofNat 8 (2 ^ 6 - 1) from rfl, last, middle, later, high_bits,
        b64Chars_found (by omega), b64Chars_found (by omega), b64Chars_found (by omega),
        b64Chars_found (by omega)]
      simp only [Option.bind_eq_bind, Option.bind_some, putAll_group _ _ _ _ room]
      have tail := base64Encode_eq rest (front ++ [b64Char (b0.toNat / 4),
        b64Char (b0.toNat % 4 * 16 + b1.toNat / 16), b64Char (b1.toNat % 16 * 4 + b2.toNat / 64),
        b64Char (b2.toNat % 64)]) (free.drop 4)
      rw [List.length_append] at tail
      refine Eq.trans ?_ (tail.trans ?_)
      · simp
      · generalize 4 * min (groups rest) ((free.drop 4).length / 4) = count
        rw [Nat.add_assoc, Nat.add_comm _ count]
        simp [encoded, Nat.add_comm 4 count]
    · have count : 4 * min (groups (b0 :: b1 :: b2 :: rest)) (free.length / 4) = 0 := by omega
      rw [if_pos (by omega), count]
      simp

theorem base64Encode_fits (src dst : List Byte) : ∃ length result,
    base64Encode src dst 0 = some (length, result) ∧ result.length = dst.length ∧
      length ≤ dst.length := by
  refine ⟨_, _, base64Encode_eq src [] dst, ?_, ?_⟩
  · have fits := length_encoded src
    simp
    omega
  · simp only [List.length_nil]
    omega

/-- The sequence for the clipboard fits its buffer, whatever is copied. -/
theorem osc52Copy_fits (data : List Byte) : ∃ sent, osc52Copy data = some sent := by
  rw [osc52Copy]
  split
  · exact ⟨[], rfl⟩
  · have size : (List.replicate 1536 (0 : Byte)).length = 1536 := List.length_replicate
    dsimp only
    generalize List.replicate 1536 (0 : Byte) = out at size ⊢
    have header : osc52Header.length = 7 := rfl
    have start : 0 + osc52Header.length ≤ out.length := by omega
    have begun : (splice out 0 osc52Header).length = 1536 := by rw [length_splice start, size]
    have wrote : Buffer.overwrite out 0 osc52Header = some (splice out 0 osc52Header) :=
      if_pos start
    simp only [wrote, Option.bind_eq_bind, Option.bind_some]
    generalize splice out 0 osc52Header = out at begun
    have cut : Buffer.range out osc52Header.length (osc52Header.length + 1400) =
        some (slice out osc52Header.length (osc52Header.length + 1400)) := if_pos (by omega)
    have room : (slice out osc52Header.length (osc52Header.length + 1400)).length = 1400 := by
      rw [slice, List.length_drop, List.length_take]
      omega
    obtain ⟨encoded, result, ran, same, last⟩ := base64Encode_fits data _
    rw [cut, Option.bind_some, ran, Option.bind_some]
    rw [room] at same last
    have back : osc52Header.length + result.length ≤ out.length := by omega
    have whole := length_splice back
    have put : Buffer.overwrite out osc52Header.length result =
        some (splice out osc52Header.length result) := if_pos back
    have ends : osc52Header.length + encoded < (splice out osc52Header.length result).length := by
      omega
    dsimp only
    rw [put, Option.bind_some, Buffer.put, if_pos ends, Option.bind_some, Buffer.range, List.length_set, if_pos ⟨Nat.zero_le _, ends⟩]
    exact ⟨_, rfl⟩

section Decoding

/-- The six bits of a character. -/
def b64Value (char : Byte) : Option Nat :=
  if 0x41 ≤ char ∧ char ≤ 0x5A then some (char.toNat - 0x41)
  else if 0x61 ≤ char ∧ char ≤ 0x7A then some (char.toNat - 0x61 + 26)
  else if 0x30 ≤ char ∧ char ≤ 0x39 then some (char.toNat - 0x30 + 52)
  else if char = 0x2B then some 62
  else if char = 0x2F then some 63
  else none

/-- A decoder of RFC 4648: padding only in the last group, and the bits that it stands for
are zero. -/
def base64Decode : List Byte → Option (List Byte)
  | [] => some []
  | c0 :: c1 :: c2 :: c3 :: rest => do
    let v0 ← b64Value c0
    let v1 ← b64Value c1
    if c2 = equalsSign ∧ c3 = equalsSign ∧ rest = [] then
      if v1 % 16 = 0 then some [BitVec.ofNat 8 (v0 * 4 + v1 / 16)] else none
    else
      let v2 ← b64Value c2
      if c3 = equalsSign ∧ rest = [] then
        if v2 % 4 = 0 then
          some [BitVec.ofNat 8 (v0 * 4 + v1 / 16), BitVec.ofNat 8 (v1 % 16 * 16 + v2 / 4)]
        else none
      else
        let v3 ← b64Value c3
        let tail ← base64Decode rest
        some (BitVec.ofNat 8 (v0 * 4 + v1 / 16) :: BitVec.ofNat 8 (v1 % 16 * 16 + v2 / 4) ::
          BitVec.ofNat 8 (v2 % 4 * 64 + v3) :: tail)
  | _ => none

theorem b64Value_char {bits : Nat} (small : bits < 64) : b64Value (b64Char bits) = some bits :=
  (by decide +kernel : ∀ bits : Fin 64, b64Value (b64Char bits) = some bits.val) ⟨bits, small⟩

theorem b64Char_ne_equals {bits : Nat} (small : bits < 64) : b64Char bits ≠ equalsSign :=
  (by decide +kernel : ∀ bits : Fin 64, b64Char bits ≠ equalsSign) ⟨bits, small⟩

theorem ofNat_byte (byte : Byte) {value : Nat} (same : value = byte.toNat) :
    BitVec.ofNat 8 value = byte := by
  rw [same, BitVec.ofNat_toNat, BitVec.setWidth_eq]

/-- Decoding gives back what was encoded. -/
theorem base64Decode_encoded : ∀ src : List Byte, base64Decode (encoded src) = some src
  | [] => rfl
  | [b0] => by
    have byte := b0.isLt
    rw [encoded, base64Decode, b64Value_char (by omega), b64Value_char (by omega)]
    simp only [Option.bind_eq_bind, Option.bind_some, and_self, if_true]
    rw [if_pos (by omega), ofNat_byte b0 (by omega)]
  | [b0, b1] => by
    have byte := b0.isLt
    have next := b1.isLt
    rw [encoded, base64Decode, b64Value_char (by omega), b64Value_char (by omega)]
    simp only [Option.bind_eq_bind, Option.bind_some, and_self, if_true]
    rw [if_neg (fun padded => b64Char_ne_equals (by omega) padded.1), b64Value_char (by omega),
      Option.bind_some, if_pos (by omega), ofNat_byte b0 (by omega), ofNat_byte b1 (by omega)]
  | b0 :: b1 :: b2 :: rest => by
    have byte := b0.isLt
    have next := b1.isLt
    have third := b2.isLt
    rw [encoded, base64Decode, b64Value_char (by omega), b64Value_char (by omega)]
    simp only [Option.bind_eq_bind, Option.bind_some]
    rw [if_neg (fun padded => b64Char_ne_equals (by omega) padded.1), b64Value_char (by omega),
      Option.bind_some, if_neg (fun padded => b64Char_ne_equals (by omega) padded.1),
      b64Value_char (by omega), Option.bind_some, base64Decode_encoded rest, Option.bind_some,
      ofNat_byte b0 (by omega), ofNat_byte b1 (by omega), ofNat_byte b2 (by omega)]

/-- The first groups are the encoding of the bytes in them. -/
theorem take_encoded : ∀ (src : List Byte) {count : Nat}, 3 * count ≤ src.length →
    (encoded src).take (4 * count) = encoded (src.take (3 * count))
  | _, 0, _ => rfl
  | b0 :: b1 :: b2 :: rest, count + 1, inside => by
    have ih := @take_encoded rest count (by simp at inside; omega)
    simp only [Nat.mul_add, Nat.mul_one, List.take_succ_cons, encoded, ih]

/-- The encoding stays in its destination, is as long as the groups that fit, and is read back
as the source, or as the part of it that those groups hold. -/
theorem base64_encode_decodes (src dst : List Byte) : ∃ length result,
    base64Encode src dst 0 = some (length, result) ∧ result.length = dst.length ∧
      length = 4 * min ((src.length + 2) / 3) (dst.length / 4) ∧
      result.drop length = dst.drop length ∧
      base64Decode (result.take length) =
        some (if 4 * ((src.length + 2) / 3) ≤ dst.length then src
          else src.take (3 * (length / 4))) := by
  have fits := length_encoded src
  have written := base64Encode_eq src [] dst
  rw [groups] at fits written
  simp only [List.length_nil, List.nil_append, Nat.zero_add] at written
  generalize length_eq : 4 * min ((src.length + 2) / 3) (dst.length / 4) = length at written
  have front : ((encoded src).take length).length = length := List.length_take_of_le (by omega)
  refine ⟨length, _, written, ?_, rfl, List.drop_left' front, ?_⟩
  · rw [List.length_append, front, List.length_drop]
    omega
  · rw [List.take_left' front]
    by_cases room : 4 * ((src.length + 2) / 3) ≤ dst.length
    · rw [if_pos room, List.take_of_length_le (by omega), base64Decode_encoded]
    · -- Only whole groups fit: an incomplete one is the last, and is cut off.
      have whole : length = 4 * (length / 4) := by omega
      rw [if_neg room, whole, take_encoded src (by omega), base64Decode_encoded,
        Nat.mul_div_cancel_left _ (by decide)]

end Decoding

end RustPosix.Shell
