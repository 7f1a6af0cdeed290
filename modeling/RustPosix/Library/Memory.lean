import Mathlib

/-! Byte-addressed memory and the little-endian words in it. -/

namespace RustPosix.Library

abbrev Byte := BitVec 8

abbrev Memory := Nat → Byte

namespace Memory

/-- The memory with `count` bytes from `base` on replaced. Every store is one of these. -/
def patch (mem : Memory) (base count : Nat) (value : Nat → Byte) : Memory :=
  fun addr => if base ≤ addr ∧ addr < base + count then value (addr - base) else mem addr

def fill (mem : Memory) (base count : Nat) (byte : Byte) : Memory :=
  mem.patch base count fun _ => byte

def store (mem : Memory) (base : Nat) (bytes : List Byte) : Memory :=
  mem.patch base bytes.length fun offset => bytes.getD offset 0

def write64 (mem : Memory) (base : Nat) (word : BitVec 64) : Memory :=
  mem.patch base 8 fun offset => BitVec.ofNat 8 (word.toNat / 256 ^ offset)

/-- The number spelled by `count` bytes, the least significant first. -/
def number (mem : Memory) (base : Nat) : Nat → Nat
  | 0 => 0
  | count + 1 => (mem base).toNat + 256 * number mem (base + 1) count

def read64 (mem : Memory) (base : Nat) : BitVec 64 :=
  BitVec.ofNat 64 (mem.number base 8)

/-- Words one behind the other. -/
def writeWords (mem : Memory) (base : Nat) : List (BitVec 64) → Memory
  | [] => mem
  | word :: rest => writeWords (mem.write64 base word) (base + 8) rest

def readWords (mem : Memory) (base : Nat) : Nat → List (BitVec 64)
  | 0 => []
  | count + 1 => mem.read64 base :: readWords mem (base + 8) count

variable {mem after : Memory} {base count addr : Nat} {value : Nat → Byte}

theorem patch_inside (inside : base ≤ addr ∧ addr < base + count) :
    mem.patch base count value addr = value (addr - base) := if_pos inside

theorem patch_outside (outside : ¬ (base ≤ addr ∧ addr < base + count)) :
    mem.patch base count value addr = mem addr := if_neg outside

/-- A word depends on its own bytes only. -/
theorem number_congr {other : Nat}
    (same : ∀ offset < count, after (other + offset) = mem (base + offset)) :
    number after other count = number mem base count := by
  induction count generalizing base other with
  | zero => rfl
  | succ count ih =>
    have first := same 0 (Nat.succ_pos count)
    rw [Nat.add_zero, Nat.add_zero] at first
    rw [number, number, first, ih fun offset inside => ?_]
    have next := same (offset + 1) (Nat.succ_lt_succ inside)
    rwa [Nat.add_comm offset 1, ← Nat.add_assoc, ← Nat.add_assoc] at next

theorem read64_congr {other : Nat}
    (same : ∀ offset < 8, after (other + offset) = mem (base + offset)) :
    after.read64 other = mem.read64 base := by
  rw [read64, read64, number_congr same]

theorem read64_patch_outside (apart : addr + 8 ≤ base ∨ base + count ≤ addr) :
    (mem.patch base count value).read64 addr = mem.read64 addr :=
  read64_congr fun offset inside => patch_outside (by omega)

private theorem number_digits (mem : Memory) (value count : Nat) : ∀ base start,
    (∀ offset < count, mem (base + offset) = BitVec.ofNat 8 (value / 256 ^ (start + offset))) →
      mem.number base count = value / 256 ^ start % 256 ^ count := by
  induction count with
  | zero => intro base start _; simp [number, Nat.mod_one]
  | succ count ih =>
    intro base start digits
    have first := digits 0 (Nat.succ_pos count)
    rw [Nat.add_zero, Nat.add_zero] at first
    have rest := ih (base + 1) (start + 1) fun offset inside => by
      have next := digits (offset + 1) (Nat.succ_lt_succ inside)
      rwa [Nat.add_comm offset 1, ← Nat.add_assoc, ← Nat.add_assoc] at next
    have byte : (mem base).toNat = value / 256 ^ start % 256 := by
      rw [first, BitVec.toNat_ofNat]
    rw [number, byte, rest, Nat.pow_succ 256 start, ← Nat.div_div_eq_div_mul,
      Nat.pow_succ' (m := 256), Nat.mod_mul]

theorem read64_write64 (mem : Memory) (base : Nat) (word : BitVec 64) :
    (mem.write64 base word).read64 base = word := by
  have digits := number_digits (mem.write64 base word) word.toNat 8 base 0 fun offset inside => by
    rw [write64, patch_inside (by omega)]
    simp
  rw [read64, digits]
  apply BitVec.eq_of_toNat_eq
  have small := word.isLt
  simp only [Nat.pow_zero, Nat.div_one, BitVec.toNat_ofNat]
  omega

private theorem number_lt (mem : Memory) (base count : Nat) : mem.number base count < 256 ^ count := by
  induction count generalizing base with
  | zero => exact Nat.one_pos
  | succ count ih =>
    have byte := (mem base).isLt
    have rest := ih (base + 1)
    rw [number, Nat.pow_succ]
    omega

private theorem number_digit (mem : Memory) (count : Nat) : ∀ base offset, offset < count →
    mem.number base count / 256 ^ offset % 256 = (mem (base + offset)).toNat := by
  induction count with
  | zero => exact fun _ _ inside => absurd inside (Nat.not_lt_zero _)
  | succ count ih =>
    intro base offset inside
    have byte := (mem base).isLt
    cases offset with
    | zero =>
      rw [number, Nat.pow_zero, Nat.div_one, Nat.add_mul_mod_self_left]
      exact Nat.mod_eq_of_lt byte
    | succ offset =>
      have rest := ih (base + 1) offset (Nat.lt_of_succ_lt_succ inside)
      have shifted : mem.number base (count + 1) / 256 = mem.number (base + 1) count := by
        rw [number]
        omega
      rw [Nat.pow_succ', ← Nat.div_div_eq_div_mul, shifted, rest]
      congr 2
      omega

/-- Copying a word copies its bytes. -/
theorem write64_read64 (mem other : Memory) (base src addr : Nat) :
    mem.write64 base (other.read64 src) addr =
      if base ≤ addr ∧ addr < base + 8 then other (src + (addr - base)) else mem addr := by
  rw [write64, patch]
  split
  · rename_i inside
    have word : (other.read64 src).toNat = other.number src 8 := by
      rw [read64, BitVec.toNat_ofNat]
      exact Nat.mod_eq_of_lt (number_lt other src 8)
    apply BitVec.eq_of_toNat_eq
    rw [BitVec.toNat_ofNat, word]
    exact number_digit other 8 src (addr - base) (by omega)
  · rfl

theorem read64_fill_zero (inside : base ≤ addr ∧ addr + 8 ≤ base + count) :
    (mem.fill base count 0).read64 addr = 0 := by
  have blank : (mem.fill base count 0).number addr 8 = number (fun _ => 0) addr 8 :=
    number_congr fun offset small => patch_inside (by omega)
  rw [read64, blank]
  simp [number]

theorem writeWords_outside {words : List (BitVec 64)}
    (outside : addr < base ∨ base + 8 * words.length ≤ addr) :
    mem.writeWords base words addr = mem addr := by
  induction words generalizing mem base with
  | nil => rfl
  | cons word rest ih =>
    rw [List.length_cons] at outside
    rw [writeWords, ih (by omega), write64, patch_outside (by omega)]

theorem readWords_congr {other : Nat}
    (same : ∀ offset < 8 * count, after (other + offset) = mem (base + offset)) :
    after.readWords other count = mem.readWords base count := by
  induction count generalizing base other with
  | zero => rfl
  | succ count ih =>
    rw [readWords, readWords, read64_congr fun offset small => same offset (by omega),
      ih fun offset small => ?_]
    have later := same (8 + offset) (by omega)
    rwa [← Nat.add_assoc, ← Nat.add_assoc] at later

theorem readWords_writeWords (mem : Memory) (base : Nat) (words : List (BitVec 64)) :
    (mem.writeWords base words).readWords base words.length = words := by
  induction words generalizing mem base with
  | nil => rfl
  | cons word rest ih =>
    rw [writeWords, List.length_cons, readWords, ih]
    have first : ((mem.write64 base word).writeWords (base + 8) rest).read64 base =
        (mem.write64 base word).read64 base :=
      read64_congr fun offset small => writeWords_outside (by omega)
    rw [first, read64_write64]

end Memory

end RustPosix.Library
