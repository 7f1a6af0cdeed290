import RustPosix.Mm.VmSpace

/-! The anonymous mapping loop of `libs/mm-core`, over any allocator and any mapper. -/

namespace RustPosix.Mm

open Library

/-- Error numbers of `libs/posix-abi`. -/
def esrch : Int := 3
def enomem : Int := 12
def einval : Int := 22

/-- The traits `FrameAllocator` and `PageMapper` and the function `zero_frame`, over
the state they share. -/
structure MmapOps (State Frame : Type) where
  allocFrame : State → Option Frame × State
  freeFrame : Frame → State → State
  mapPage : (vaddr : Nat) → Frame → (prot : BitVec 32) → Action State Fault Unit
  unmapRange : (startVaddr count : Nat) → State → State
  zeroFrame : Frame → State → State

/-- `length.div_ceil(PAGE_SIZE)` -/
def pagesFor (length : Nat) : Nat := (length + (pageSize - 1)) / pageSize

section MmapAllocate

variable {State Frame : Type} (ops : MmapOps State Frame)

/-- The loop of `mmap_allocate` with `remaining` pages left and `pagesMapped` mapped. -/
def mmapPages (vaddr : Nat) (prot : BitVec 32) :
    (remaining pagesMapped : Nat) → State → Except Int Unit × State
  | 0, _, state => (.ok (), state)
  | remaining + 1, pagesMapped, state =>
    match (checkedMul pagesMapped pageSize).bind (checkedAdd vaddr) with
    | none => (.error enomem, ops.unmapRange vaddr pagesMapped state)
    | some pageVaddr =>
      match ops.allocFrame state with
      | (none, state) => (.error enomem, ops.unmapRange vaddr pagesMapped state)
      | (some frame, state) =>
        match ops.mapPage pageVaddr frame prot state with
        | (.error _, state) =>
          (.error enomem, ops.unmapRange vaddr pagesMapped (ops.freeFrame frame state))
        | (.ok _, state) =>
          mmapPages vaddr prot remaining (pagesMapped + 1) (ops.zeroFrame frame state)

/-- Where a mapping goes: the bump pointer and the value it moves to, or the given
page with the pointer left alone. -/
def mmapTarget (addr byteLen userSpaceEnd mmapNextVaddr : Nat) : Option (Nat × Nat) :=
  let fits (base : Nat) := (checkedAdd base byteLen).filter fun stop => stop ≤ userSpaceEnd
  if addr = 0 then (fits mmapNextVaddr).map fun next => (mmapNextVaddr, next)
  else (fits (alignDown addr)).map fun _ => (alignDown addr, mmapNextVaddr)

/-- The address mapped or an error number, the bump pointer and the state. The
pointer goes back to its old value on every failure. -/
def mmapAllocate (addr length : Nat) (prot : BitVec 32) (userSpaceEnd freeFrames : Nat)
    (mmapNextVaddr : Nat) (state : State) : Except Int Nat × Nat × State :=
  if length = 0 then (.error einval, mmapNextVaddr, state)
  else if length > userSpaceEnd then (.error enomem, mmapNextVaddr, state)
  else
    match checkedMul (pagesFor length) pageSize with
    | none => (.error enomem, mmapNextVaddr, state)
    | some byteLen =>
      if pagesFor length > freeFrames then (.error enomem, mmapNextVaddr, state)
      else
        match mmapTarget addr byteLen userSpaceEnd mmapNextVaddr with
        | none => (.error enomem, mmapNextVaddr, state)
        | some (vaddr, next) =>
          match mmapPages ops vaddr prot (pagesFor length) 0 state with
          | (.ok _, state) => (.ok vaddr, next, state)
          | (.error errno, state) => (.error errno, mmapNextVaddr, state)

end MmapAllocate

end RustPosix.Mm
