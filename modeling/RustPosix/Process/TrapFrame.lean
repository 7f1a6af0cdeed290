import RustPosix.Library.Memory

/-! The frame from which `iretq` resumes a task: `ostd/arch/x86_64/idt.rs` and the frame that
`ostd/arch/x86_64/task.rs` prepares for ring 3. -/

namespace RustPosix.Process

open Library

/-- What an interrupt saves, with the part that the processor pushes at the end. -/
structure TrapFrame where
  r15 : BitVec 64
  r14 : BitVec 64
  r13 : BitVec 64
  r12 : BitVec 64
  r11 : BitVec 64
  r10 : BitVec 64
  r9 : BitVec 64
  r8 : BitVec 64
  rbp : BitVec 64
  rdi : BitVec 64
  rsi : BitVec 64
  rdx : BitVec 64
  rcx : BitVec 64
  rbx : BitVec 64
  rax : BitVec 64
  rip : BitVec 64
  cs : BitVec 64
  rflags : BitVec 64
  rsp : BitVec 64
  ss : BitVec 64
  deriving DecidableEq, Repr

def userCodeSel : BitVec 16 := 0x23
def userDataSel : BitVec 16 := 0x1B

def TrapFrame.isUserMode (frame : TrapFrame) : Bool :=
  frame.cs &&& 3 = 3 || frame.cs.setWidth 16 = userCodeSel

namespace TrapFrame

/-- The fields in the order of the layout. -/
def words (frame : TrapFrame) : List (BitVec 64) :=
  [frame.r15, frame.r14, frame.r13, frame.r12, frame.r11, frame.r10, frame.r9, frame.r8, frame.rbp,
    frame.rdi, frame.rsi, frame.rdx, frame.rcx, frame.rbx, frame.rax, frame.rip, frame.cs,
    frame.rflags, frame.rsp, frame.ss]

/-- `size_of::<TrapFrame>()` -/
def size : Nat := 20 * 8

/-- The frame for the first entry into ring 3. -/
def entering (entryPoint userStackTop : Nat) : TrapFrame where
  r15 := 0
  r14 := 0
  r13 := 0
  r12 := 0
  r11 := 0
  r10 := 0
  r9 := 0
  r8 := 0
  rbp := 0
  rdi := 0
  rsi := 0
  rdx := 0
  rcx := 0
  rbx := 0
  rax := 0
  rip := BitVec.ofNat 64 entryPoint
  cs := userCodeSel.setWidth 64
  rflags := 0x202
  rsp := BitVec.ofNat 64 userStackTop
  ss := userDataSel.setWidth 64

end TrapFrame

def kernelStackSize : Nat := 16 * 1024

/-- `init_user_kernel_stack` on the kernel stack that begins at `base`: the address of the frame
and the memory with it. -/
def initUserKernelStack (base entryPoint userStackTop : Nat) (mem : Memory) : Nat × Memory :=
  let framePtr := base + (kernelStackSize - TrapFrame.size)
  (framePtr, mem.writeWords framePtr (TrapFrame.entering entryPoint userStackTop).words)

end RustPosix.Process
