import RustPosix.Mm.Paging

/-! The bits of a page table entry, and the entries of memory as separate cells. -/

namespace RustPosix.Mm

open Library

/-- Testing an entry with a mask of one bit reads that bit. -/
theorem and_twoPow_ne_zero (entry : BitVec 64) (bit : Nat) (inside : bit < 64) :
    (entry &&& BitVec.twoPow 64 bit != 0) = entry.getLsbD bit := by
  have some : BitVec.twoPow 64 bit ≠ 0#64 := by
    intro zero
    have same := congrArg (fun word => word.getLsbD bit) zero
    simp [inside] at same
  rw [BitVec.and_twoPow]
  cases entry.getLsbD bit with
  | false => rfl
  | true => simpa using some

theorem isPresent_eq (entry : BitVec 64) : isPresent entry = entry.getLsbD 0 :=
  and_twoPow_ne_zero entry 0 (by decide)

/-- Physical addresses an entry can hold. -/
structure FrameAddr (phys : Nat) : Prop where
  aligned : phys % pageSize = 0
  small : phys < 2 ^ 52

namespace FrameAddr

variable {phys other : Nat}

private theorem bit_outside (frame : FrameAddr phys) (bit : Nat) (outside : bit < 12 ∨ 52 ≤ bit) :
    (BitVec.ofNat 64 phys).getLsbD bit = false := by
  have power : phys = phys / pageSize * 2 ^ 12 := by
    have := frame.aligned
    simp only [pageSize] at this ⊢
    omega
  rw [BitVec.getLsbD_ofNat]
  rcases outside with low | high
  · rw [power, Nat.testBit_mul_two_pow]
    simp [show ¬ 12 ≤ bit by omega]
  · have bounded : phys < 2 ^ bit :=
      Nat.lt_of_lt_of_le frame.small (Nat.pow_le_pow_right (by decide) high)
    simp [Nat.testBit_lt_two_pow bounded]

private theorem mask_bit (bit : Nat) (inside : bit < 64) :
    ptAddrMask.getLsbD bit = decide (12 ≤ bit ∧ bit < 52) := by
  have all : ∀ bit < 64, ptAddrMask.getLsbD bit = decide (12 ≤ bit ∧ bit < 52) := by decide
  exact all bit inside

private theorem masked (frame : FrameAddr phys) :
    BitVec.ofNat 64 phys &&& ptAddrMask = BitVec.ofNat 64 phys := by
  apply BitVec.eq_of_getLsbD_eq
  intro bit inside
  rw [BitVec.getLsbD_and, mask_bit bit inside]
  by_cases within : 12 ≤ bit ∧ bit < 52
  · simp [within]
  · rw [frame.bit_outside bit (by omega)]
    rfl

/-- The address comes back out of an entry whose other bits avoid it. -/
theorem ptePhys_or (frame : FrameAddr phys) {bits : BitVec 64} (apart : bits &&& ptAddrMask = 0) :
    ptePhys (BitVec.ofNat 64 phys ||| bits) = phys := by
  have split : (BitVec.ofNat 64 phys ||| bits) &&& ptAddrMask = BitVec.ofNat 64 phys := by
    rw [BitVec.and_comm, BitVec.and_or_distrib_left, BitVec.and_comm, frame.masked,
      BitVec.and_comm, apart]
    simp
  have small := frame.small
  rw [ptePhys, split, BitVec.toNat_ofNat]
  omega

/-- The bits below 12 and above 51 are those of the flags. -/
theorem getLsbD_or (frame : FrameAddr phys) (bits : BitVec 64) (bit : Nat)
    (outside : bit < 12 ∨ 52 ≤ bit) :
    (BitVec.ofNat 64 phys ||| bits).getLsbD bit = bits.getLsbD bit := by
  rw [BitVec.getLsbD_or, frame.bit_outside bit outside, Bool.false_or]

theorem ptePhys_tableEntry (frame : FrameAddr phys) (flags : BitVec 64) :
    ptePhys (tableEntry phys flags) = phys := by
  have mask : pageUser = BitVec.twoPow 64 2 := by decide
  rw [tableEntry, BitVec.or_assoc, BitVec.or_assoc, mask, BitVec.and_twoPow]
  apply frame.ptePhys_or
  cases flags.getLsbD 2 <;> decide

theorem isPresent_tableEntry (frame : FrameAddr phys) (flags : BitVec 64) :
    isPresent (tableEntry phys flags) = true := by
  rw [tableEntry, isPresent_eq, BitVec.or_assoc, BitVec.or_assoc, frame.getLsbD_or _ 0 (by omega),
    BitVec.getLsbD_or]
  rfl

private theorem leafFlags_apart (flags : PageFlags) :
    (pageFlagsToArch flags ||| pagePresent) &&& ptAddrMask = 0 := by
  obtain ⟨present, writable, user, noExec⟩ := flags
  revert present writable user noExec
  decide

theorem ptePhys_leafEntry (frame : FrameAddr phys) (flags : PageFlags) :
    ptePhys (leafEntry phys flags) = phys :=
  frame.ptePhys_or (leafFlags_apart flags)

theorem isPresent_leafEntry (frame : FrameAddr phys) (flags : PageFlags) :
    isPresent (leafEntry phys flags) = true := by
  rw [leafEntry, isPresent_eq, frame.getLsbD_or _ 0 (by omega), BitVec.getLsbD_or]
  simp [pagePresent]

/-- The protections of a page as its entry carries them. -/
theorem leafEntry_bits (frame : FrameAddr phys) (flags : PageFlags) :
    (leafEntry phys flags &&& pageWritable != 0) = flags.writable ∧
      (leafEntry phys flags &&& pageNx != 0) = flags.noExec := by
  have writable : pageWritable = BitVec.twoPow 64 1 := by decide
  have noExec : pageNx = BitVec.twoPow 64 63 := by decide
  rw [writable, noExec, and_twoPow_ne_zero _ _ (by decide), and_twoPow_ne_zero _ _ (by decide),
    leafEntry, frame.getLsbD_or _ 1 (by omega), frame.getLsbD_or _ 63 (by omega)]
  obtain ⟨present, writable, user, noExec⟩ := flags
  revert present writable user noExec
  decide

theorem eq_of_frame (frame : FrameAddr phys) (second : FrameAddr other)
    (same : phys / pageSize = other / pageSize) : phys = other := by
  have first := frame.aligned
  have next := second.aligned
  simp only [pageSize] at *
  omega

end FrameAddr

section Cells

variable {mem : Memory} {table other idx slot : Nat}

theorem entryAt_setEntry_same (mem : Memory) (table idx : Nat) (entry : BitVec 64) :
    entryAt (setEntry mem table idx entry) table idx = entry :=
  Memory.read64_write64 mem _ entry

theorem entryAt_setEntry_other {entry : BitVec 64} (tableFrame : FrameAddr table)
    (otherFrame : FrameAddr other) (idxSmall : idx < 512) (slotSmall : slot < 512)
    (apart : ¬ (other = table ∧ slot = idx)) :
    entryAt (setEntry mem table idx entry) other slot = entryAt mem other slot := by
  have first := tableFrame.aligned
  have second := otherFrame.aligned
  simp only [pageSize] at first second
  exact Memory.read64_patch_outside (by omega)

theorem entryAt_zeroPhysFrame_same (mem : Memory) (table : Nat) (idxSmall : idx < 512) :
    entryAt (zeroPhysFrame mem table) table idx = 0 :=
  Memory.read64_fill_zero (by simp only [pageSize]; omega)

theorem entryAt_zeroPhysFrame_other (tableFrame : FrameAddr table) (otherFrame : FrameAddr other)
    (slotSmall : slot < 512) (apart : other ≠ table) :
    entryAt (zeroPhysFrame mem table) other slot = entryAt mem other slot := by
  have first := tableFrame.aligned
  have second := otherFrame.aligned
  simp only [pageSize] at first second
  exact Memory.read64_patch_outside (by simp only [pageSize]; omega)

/-- A table depends on the bytes of its own frame only. -/
theorem entryAt_congr {after : Memory} (idxSmall : idx < 512)
    (same : ∀ addr, table ≤ addr → addr < table + pageSize → after addr = mem addr) :
    entryAt after table idx = entryAt mem table idx :=
  Memory.read64_congr fun offset small => same _ (by omega) (by simp only [pageSize]; omega)

theorem getTable_congr {after : Memory} (idxSmall : idx < 512)
    (same : ∀ addr, table ≤ addr → addr < table + pageSize → after addr = mem addr) :
    getTable after table idx = getTable mem table idx := by
  rw [getTable, getTable, entryAt_congr idxSmall same]

end Cells

theorem ptIndex_eq (virtAddr shift : Nat) :
    (virtAddr >>> shift) &&& ptIndexMask = virtAddr / 2 ^ shift % 512 := by
  rw [Nat.shiftRight_eq_div_pow]
  exact Nat.and_two_pow_sub_one_eq_mod (virtAddr / 2 ^ shift) 9

/-- The four indices of an address, as its digits. -/
theorem ptIndices_eq (virtAddr : Nat) : ptIndices virtAddr =
    (virtAddr / 2 ^ 39 % 512, virtAddr / 2 ^ 30 % 512, virtAddr / 2 ^ 21 % 512,
      virtAddr / 2 ^ 12 % 512) := by
  simp only [ptIndices, ptIndex_eq]

end RustPosix.Mm
