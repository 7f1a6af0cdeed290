import RustPosix.Libc.FormatOnly

/-! The contract of `snprintf`: it returns the length of the whole expansion, and stores as much
of it as fits before the terminator. A buffer of no bytes is the exception. -/

namespace RustPosix.Libc

open Library

/-- The pieces that the contract speaks of: numbers with a width of at most 1000, and the other
conversions without a width. -/
def Piece.Supported : Piece → Prop
  | literal byte => byte ≠ 0 ∧ byte ≠ percent
  | directive digits spec =>
    digits = [] ∧ (spec = percent ∨ spec = 0x63 ∨ spec = 0x73 ∨ spec = 0x70) ∨
      (∀ digit ∈ digits, isDigit digit = true) ∧ decimal 0 digits ≤ 1000 ∧
        (spec = 0x64 ∨ spec = 0x69 ∨ spec = 0x75 ∨ spec = 0x78)

/-- The value is the length of the expansion whatever the size is, the buffer holds the start of
it and a terminator if it has any bytes, and it keeps its size. -/
def MeetsContract (passed : Passed) (format : Nat) (pieces : List Piece) (buf : List Byte) : Prop :=
  ∃ value stored, Settles (snprintf passed format buf) (.ok (value, stored)) ∧
    value.toInt = (expand passed 0 pieces).length ∧ stored.length = buf.length ∧
    (0 < buf.length →
      stored.take (min (expand passed 0 pieces).length (buf.length - 1) + 1) =
        (expand passed 0 pieces).take (min (expand passed 0 pieces).length (buf.length - 1)) ++ [0])

section Contract

variable {passed : Passed} {format : Nat} {pieces : List Piece} {buf : List Byte}

theorem Piece.Supported.proper {piece : Piece} (supported : piece.Supported) :
    piece.Proper ∧ piece.Fits := by
  cases piece with
  | literal byte => exact ⟨supported, trivial⟩
  | directive digits spec =>
    rcases supported with ⟨rfl, kind⟩ | ⟨digitsOnly, narrow, kind⟩
    · refine ⟨⟨nofun, ?_⟩, show 0 < 2 ^ 64 by decide⟩
      rcases kind with rfl | rfl | rfl | rfl <;> rfl
    · refine ⟨⟨digitsOnly, ?_⟩, Nat.lt_of_le_of_lt narrow (by decide)⟩
      rcases kind with rfl | rfl | rfl | rfl <;> rfl

/-- A format that is spelled by proper pieces, with room for at least the terminator. -/
theorem snprintf_settles (proper : ∀ piece ∈ pieces, piece.Proper)
    (spelled : Spells passed.bytes format (pieces.flatMap Piece.bytes ++ [0]))
    (matching : Matching passed 0 pieces) (counted : Counted passed pieces)
    (room : buf.length ≠ 0) :
    Settles (snprintf passed format buf)
      (.ok (BitVec.ofNat 32 (expand passed 0 pieces).length,
        ((expand passed 0 pieces).take buf.length ++ buf.drop (expand passed 0 pieces).length).set
          (if (expand passed 0 pieces).length < buf.length then (expand passed 0 pieces).length
            else buf.length - 1) 0)) := by
  rw [spells_append] at spelled
  have readable : Readable passed format pieces ⟨0, 0, ⟨buf, 0⟩⟩ := ⟨proper, matching, spelled.1⟩
  have ran := @walked_of_counted passed pieces buf counted
  have scan : Settles (fun fuel => scanLoop passed format fuel ⟨0, 0, ⟨buf, 0⟩⟩)
      (walked passed pieces ⟨0, 0, ⟨buf, 0⟩⟩) := by
    refine readable.loop (fun last same => ?_) fun problem failed => failed
    rw [same]
    rw [ran] at same
    cases same
    refine .of_succ ⟨0, fun fuel _ => ?_⟩
    dsimp only
    rw [scanLoop, if_pos spelled.2.1]
  rw [ran] at scan
  exact snprintf_of_scan room scan

theorem toInt_ofNat_length {length : Nat} (short : length < 2 ^ 31) :
    (BitVec.ofNat 32 length).toInt = length := by
  have same : (BitVec.ofNat 32 length).toNat = length := Nat.mod_eq_of_lt (by omega)
  rw [BitVec.toInt_eq_toNat_of_lt (by omega), same]

end Contract

end RustPosix.Libc
