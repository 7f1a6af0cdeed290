import RustPosix.Mm.KernelHalf
import RustPosix.Process.ElfSteps

/-! What a load may touch: the pages and tables of the lower half and free frames. -/

namespace RustPosix.Process

open Library Mm

/-- The memory of a segment and the bytes it takes from the file end below `USER_SPACE_END`. -/
def InUserHalf (phdr : Elf64Phdr) : Prop :=
  phdr.vaddr + phdr.memsz ≤ userSpaceEnd ∧ phdr.vaddr + phdr.filesz ≤ userSpaceEnd

instance : Decidable (InUserHalf phdr) := inferInstanceAs (Decidable (_ ∧ _))

/-- The part of a step that later steps rely on. -/
def Keeps (before after : VmState) : Prop :=
  PageTree before.machine before.root → SpaceChange before after

namespace Keeps

theorem refl (state : VmState) : Keeps state state := SpaceChange.refl

theorem trans (first second third : VmState) (early : Keeps first second)
    (late : Keeps second third) : Keeps first third :=
  fun tree => (early tree).trans (late (early tree).tree)

theorem allocAndMapRange {start size : Nat} (user : start + size ≤ userSpaceEnd)
    (flags : PageFlags) :
    Ensures Keeps (VmSpace.allocAndMapRange start size flags) fun _ => True :=
  Ensures.of_invariant fun _ tree => (allocAndMapRange_spec tree user flags).mono
    (fun _ _ granted => granted.spaceChange) fun _ _ refused => refused.spaceChange

theorem writeBytesToSpace {virt : Nat} {data : List Byte}
    (user : virt + data.length ≤ userSpaceEnd) :
    Ensures Keeps (VmSpace.writeBytesToSpace virt data) fun _ => True :=
  Ensures.of_invariant fun _ tree => (writeBytesToSpace_spec tree user).mono
    (fun _ _ wrote => ⟨wrote.root, wrote.stored.change⟩)
    fun _ _ ⟨_, wrote⟩ => ⟨wrote.root, wrote.stored.change⟩

theorem loadSegment {elfBytes : List Byte} {phdr : Elf64Phdr} (user : InUserHalf phdr)
    (phoff phdrVaddr : Nat) :
    Ensures Keeps (Process.loadSegment elfBytes phoff phdrVaddr phdr) fun _ => True := by
  have data : phdr.vaddr + (segmentData elfBytes phdr).length ≤ userSpaceEnd := by
    have taken : (segmentData elfBytes phdr).length ≤ phdr.filesz := List.length_take_le ..
    exact Nat.le_trans (Nat.add_le_add_left taken _) user.2
  exact loadSegment_ensures refl trans (allocAndMapRange user.1 _) (writeBytesToSpace data)

theorem loadElf {elfBytes : List Byte} (user : ∀ phdr ∈ ptLoads elfBytes, InUserHalf phdr)
    (argv envp : List (List Byte)) :
    Ensures Keeps (Process.loadElf elfBytes argv envp) fun _ => True := by
  refine loadElf_ensures refl trans elfBytes argv envp
    (fun phdr member => loadSegment (user phdr member)) ?_ fun virt data _ upper => ?_
  · exact allocAndMapRange (by decide) _
  · exact writeBytesToSpace (Nat.le_trans upper (by decide))

end Keeps

/-- The bytes of a program header. -/
def encodePhdr (phdr : Elf64Phdr) : List Byte :=
  leBytes 4 phdr.type ++ leBytes 4 phdr.flags ++ leBytes 8 phdr.offset ++ leBytes 8 phdr.vaddr ++
    leBytes 8 phdr.vaddr ++ leBytes 8 phdr.filesz ++ leBytes 8 phdr.memsz ++ leBytes 8 pageSize

/-- A file of a header, its program headers and further bytes. -/
def encodeElf (phdrs : List Elf64Phdr) (data : List Byte) : List Byte :=
  elfMagic ++ [elfClass64, elfData2lsb, 1] ++ List.replicate 9 0 ++ leBytes 2 2 ++
    leBytes 2 emX8664 ++ leBytes 4 1 ++ leBytes 8 0 ++ leBytes 8 64 ++ leBytes 8 0 ++ leBytes 4 0 ++
    leBytes 2 64 ++ leBytes 2 56 ++ leBytes 2 phdrs.length ++ leBytes 6 0 ++
    phdrs.flatMap encodePhdr ++ data

/-- The root of the kernel at `0x1000`, whose slot 256 holds the table at `0x2000`. -/
def bootMemory : Memory := fun addr =>
  if addr = 0x1800 then 0x03 else if addr = 0x1801 then 0x20 else 0

/-- The first three frames are in use. -/
def bootPmm (frames : Nat) : PhysicalMemoryManager where
  bitmap := fun idx => if idx = 0 then 0b00000111 else 0
  totalFrames := frames
  freeFrames := frames - 3
  lastFrame := 1

/-- The memory once a root at `0x3000` shares slot 256. -/
def sharedMemory : Memory := fun addr =>
  if addr = 0x1800 ∨ addr = 0x3800 then 0x03 else if addr = 0x1801 ∨ addr = 0x3801 then 0x20 else 0

/-- The address space that `VmSpace::new` creates there. -/
def sharedSpace (frames : Nat) : VmState :=
  ⟨⟨sharedMemory, (bootPmm frames).takeFrame 3⟩, 3 * pageSize, []⟩

section Shared

variable {frames : Nat} (taken : (bootPmm frames).allocFrame =
  (some (3 * pageSize), (bootPmm frames).takeFrame 3))

private theorem bootRoot : FrameAddr 0x1000 := ⟨by decide, by decide⟩

private theorem copied : copyKernelMappings (zeroPhysFrame bootMemory (3 * pageSize)) (3 * pageSize)
    0x1000 = sharedMemory := by
  have root : FrameAddr (3 * pageSize) := ⟨by decide, by decide⟩
  have zeroed (addr : Nat) : zeroPhysFrame bootMemory (3 * pageSize) addr =
      if 3 * pageSize ≤ addr ∧ addr < 3 * pageSize + pageSize then 0 else bootMemory addr := rfl
  funext addr
  rw [copyKernelMappings_apply root bootRoot, zeroed, zeroed, bootMemory, bootMemory,
    sharedMemory, pageSize]
  by_cases upper : 3 * 4096 + 2048 ≤ addr ∧ addr < 3 * 4096 + 4096
  · rw [if_pos upper, if_neg (by omega)]
    by_cases first : addr = 0x3800
    · rw [if_pos (by omega), if_pos (.inr first)]
    · by_cases second : addr = 0x3801
      · rw [if_neg (by omega), if_pos (by omega), if_neg (by omega), if_pos (.inr second)]
      · rw [if_neg (by omega), if_neg (by omega), if_neg (by omega), if_neg (by omega)]
  · rw [if_neg upper]
    by_cases lower : 3 * 4096 ≤ addr ∧ addr < 3 * 4096 + 4096
    · rw [if_pos lower, if_neg (by omega), if_neg (by omega)]
    · rw [if_neg lower]
      by_cases first : addr = 0x1800
      · rw [if_pos first, if_pos (.inl first)]
      · by_cases second : addr = 0x1801
        · rw [if_neg first, if_pos second, if_neg (by omega), if_pos (.inl second)]
        · rw [if_neg first, if_neg second, if_neg (by omega), if_neg (by omega)]

include taken in
theorem new_sharedSpace : VmSpace.new 0x1000 ⟨bootMemory, bootPmm frames⟩ =
    (some (sharedSpace frames), (sharedSpace frames).machine) := by
  rw [VmSpace.new, taken]
  dsimp only
  rw [copied]
  rfl

private theorem bootMemory_blank {table slot : Nat}
    (outside : ∀ offset < 8, table + 8 * slot + offset ∉ [0x1800, 0x1801]) :
    getTable bootMemory table slot = none := by
  have blank : entryAt bootMemory table slot = entryAt (fun _ => 0) table slot := by
    refine Memory.read64_congr fun offset small => ?_
    have apart := outside offset small
    simp only [List.mem_cons, List.not_mem_nil, or_false, not_or] at apart
    simp only [bootMemory, apart, if_false]
  rw [PageTree.getTable_eq, blank]
  simp [entryAt, Memory.read64, Memory.number, PageTree.decode, isPresent]

private theorem bootTables : KernelTables ⟨bootMemory, bootPmm frames⟩ 0x1000 := by
  intro path table valid found
  have only : table = 0x1000 ∨ table = 0x2000 := by
    rcases path with _ | ⟨slot, rest⟩
    · exact .inl (Option.some.inj found).symm
    · have top : getTable bootMemory 0x1000 slot = if slot = 256 then some 0x2000 else none := by
        split
        · subst slot
          decide
        · refine bootMemory_blank fun offset small member => ?_
          simp only [List.mem_cons, List.not_mem_nil, or_false] at member
          omega
      rw [view, walk, top] at found
      split at found
      · rw [Option.bind_some] at found
        rcases rest with _ | ⟨idx, deeper⟩
        · exact .inr (Option.some.inj found).symm
        · have small := valid.slots idx (by simp)
          rw [walk, bootMemory_blank fun offset inside member => ?_] at found
          · cases found
          · simp only [List.mem_cons, List.not_mem_nil, or_false] at member
            omega
      · cases found
  have used : ∀ frame < 3, (bootPmm frames).testBit frame = true := by
    intro frame small
    rw [PhysicalMemoryManager.testBit]
    split
    · rfl
    · have cases : frame = 0 ∨ frame = 1 ∨ frame = 2 := by omega
      rcases cases with rfl | rfl | rfl <;> simp [bootPmm]
  rcases only with rfl | rfl
  · exact ⟨by decide, used 1 (by decide)⟩
  · exact ⟨by decide, used 2 (by decide)⟩

include taken in
theorem sharedSpace_fresh (boot : (bootPmm frames).Boot) (bounded : frames ≤ 2 ^ 40) :
    FreshSpace ⟨bootMemory, bootPmm frames⟩ (sharedSpace frames) ∧
      KernelHalf (sharedSpace frames).machine (sharedSpace frames).root :=
  ⟨(new_spec boot bounded (new_sharedSpace taken)).2,
    new_kernelHalf boot bounded bootRoot bootTables (new_sharedSpace taken)⟩

end Shared

/-- One page at `0xFFFF800000000000`, to be placed below slot 256 of the root. -/
def escapingElf : List Byte := encodeElf [⟨ptLoad, 6, 0, 0xFFFF800000000000, 0, 1⟩] []

end RustPosix.Process
