import RustPosix.Mm.MmCore
import RustPosix.Mm.PageTree

/-! The memory calls of `services/posix/mem.rs`. -/

namespace RustPosix.Posix

open Library Mm

/-- `KernelPmmAllocator` and `VmSpaceMapper` over the address space with the given root. -/
def kernelOps (root : Nat) : MmapOps Machine Nat where
  allocFrame machine :=
    let (frame, pmm) := machine.pmm.allocFrame
    (frame, { machine with pmm })
  freeFrame frame machine := { machine with pmm := machine.pmm.freeFrame frame }
  mapPage vaddr frame prot := mapPage root vaddr frame (PageFlags.fromProt prot)
  unmapRange startVaddr count machine := VmSpace.unmapRange root startVaddr count machine
  zeroFrame frame machine := { machine with mem := zeroPhysFrame machine.mem frame }

/-- The fields of a process that the memory calls use. -/
structure Task where
  space : VmState
  mmapNextVaddr : Nat

/-- The bump pointer of a fresh process, `DEFAULT_MMAP_BASE`. -/
def defaultMmapBase : Nat := 0x60000000

/-- Who makes the call: the current process, if there is one and if it has an
address space. -/
inductive MemoryCaller where
  | noProcess
  | noSpace
  | task (task : Task)

def Task.mmap (addr length : Nat) (prot flags : BitVec 32) (task : Task) : Int × Task :=
  let space := task.space
  match mmapAllocate (kernelOps space.root) addr length prot userSpaceEnd
      space.machine.pmm.freeFrames task.mmapNextVaddr space.machine with
  | (.ok vaddr, mmapNextVaddr, machine) =>
    let mapped : VmState := { space with machine }
    let space := match (checkedMul (pagesFor length) pageSize).bind (checkedAdd vaddr) with
      | some endVaddr => VmSpace.insertVma vaddr endVaddr prot flags mapped
      | none => mapped
    (vaddr, ⟨space, mmapNextVaddr⟩)
  | (.error errno, mmapNextVaddr, machine) => (-errno, ⟨{ space with machine }, mmapNextVaddr⟩)

def sysMmap (addr length : Nat) (prot flags : BitVec 32) : MemoryCaller → Int × MemoryCaller
  | .noProcess => (-esrch, .noProcess)
  | .noSpace => (-enomem, .noSpace)
  | .task task => ((task.mmap addr length prot flags).1, .task (task.mmap addr length prot flags).2)

/-- The end of a range given by a page-aligned address and a length, if it is one of
user space. -/
def userRangeEnd (addr length : Nat) : Option Nat :=
  if length > userSpaceEnd then none
  else (checkedMul (pagesFor length) pageSize).bind fun byteLen =>
    (checkedAdd addr byteLen).filter fun stop => stop ≤ userSpaceEnd

def Task.munmap (addr endAddr : Nat) (task : Task) : Task :=
  { task with space := (VmSpace.removeVmaRange addr endAddr task.space).2 }

def sysMunmap (addr length : Nat) (caller : MemoryCaller) : Int × MemoryCaller :=
  if addr % pageSize ≠ 0 ∨ length = 0 then (-einval, caller)
  else
    match userRangeEnd addr length with
    | none => (-einval, caller)
    | some endAddr =>
      match caller with
      | .noProcess => (-esrch, caller)
      | .noSpace => (0, caller)
      | .task task => (0, .task (task.munmap addr endAddr))

def Task.mprotect (addr endAddr : Nat) (prot : BitVec 32) (task : Task) : Int × Task :=
  if containsRange task.space.vmas addr endAddr = false then (-enomem, task)
  else
    match VmSpace.mprotectRange addr endAddr prot task.space with
    | (.error _, space) => (-enomem, { task with space })
    | (.ok _, space) => (0, { task with space })

def sysMprotect (addr length : Nat) (prot : BitVec 32) (caller : MemoryCaller) :
    Int × MemoryCaller :=
  if addr % pageSize ≠ 0 ∨ length = 0 then (-einval, caller)
  else
    match userRangeEnd addr length with
    | none => (-enomem, caller)
    | some endAddr =>
      match caller with
      | .noProcess => (-esrch, caller)
      | .noSpace => (0, caller)
      | .task task =>
        ((task.mprotect addr endAddr prot).1, .task (task.mprotect addr endAddr prot).2)

end RustPosix.Posix
