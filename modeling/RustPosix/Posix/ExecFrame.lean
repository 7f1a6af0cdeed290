import RustPosix.Posix.Execve
import RustPosix.Process.ElfImage

/-! The bytes of a kernel stack that a system call still needs while `sys_execve` prepares a
frame for ring 3 at the top of the same stack: `syscall_entry` of
`ostd/arch/x86_64/syscall.rs` against `init_user_kernel_stack`. -/

namespace RustPosix.Posix

open Library Mm Ipc Process

/-- `size_of::<SyscallRegisters>()` -/
def SyscallRegisters.size : Nat := 16 * 8

/-- What `dispatch_syscall` assigns after a successful `sys_execve`, in the registers that
`syscall_entry` has pushed below `kernelRsp`. -/
def assignRegisters (kernelRsp entryPoint userStackTop : Nat) (mem : Memory) : Memory :=
  let r := kernelRsp - SyscallRegisters.size
  ((mem.write64 (r + 104) (BitVec.ofNat 64 entryPoint)).write64 (r + 120)
    (BitVec.ofNat 64 userStackTop)).write64 (r + 96) 0

/-- The live part of the stack of a call that has come in at `kernelRsp` is as it was, up to
`rax`, `rcx` and `rsp`, and the call returns into the image. -/
structure FrameKept (kernelRsp entryPoint userStackTop : Nat) (before after : Memory) : Prop where
  /-- The return address of the dispatcher, then `r15` to `rdi`. -/
  below : ∀ addr, kernelRsp - 136 ≤ addr → addr < kernelRsp - 32 → after addr = before addr
  r11 : ∀ addr, kernelRsp - 16 ≤ addr → addr < kernelRsp - 8 → after addr = before addr
  rip : after.read64 (kernelRsp - 24) = BitVec.ofNat 64 entryPoint
  rsp : after.read64 (kernelRsp - 8) = BitVec.ofNat 64 userStackTop
  flags : Unprivileged (before.read64 (kernelRsp - 16)) →
    Unprivileged (after.read64 (kernelRsp - 16))

def Image.kernelStackTop {Fds : Type} (process : Image Fds) : Nat :=
  process.kernelStack + kernelStackSize

section Frames

variable {kernelRsp entryPoint userStackTop : Nat} {before after mem : Memory}

theorem assignRegisters_apply (live : 136 ≤ kernelRsp) {addr : Nat}
    (other : addr < kernelRsp - 32 ∨ (kernelRsp - 16 ≤ addr ∧ addr < kernelRsp - 8)) :
    assignRegisters kernelRsp entryPoint userStackTop mem addr = mem addr := by
  have size : SyscallRegisters.size = 128 := rfl
  unfold assignRegisters Memory.write64
  rw [Memory.patch_outside (by omega), Memory.patch_outside (by omega),
    Memory.patch_outside (by omega)]

theorem assignRegisters_rcx (live : 136 ≤ kernelRsp) :
    (assignRegisters kernelRsp entryPoint userStackTop mem).read64 (kernelRsp - 24) =
      BitVec.ofNat 64 entryPoint := by
  have size : SyscallRegisters.size = 128 := rfl
  have place : kernelRsp - 24 = kernelRsp - SyscallRegisters.size + 104 := by omega
  unfold assignRegisters
  rw [place]
  unfold Memory.write64
  rw [Memory.read64_patch_outside (by omega), Memory.read64_patch_outside (by omega)]
  exact Memory.read64_write64 ..

theorem assignRegisters_rsp (live : 136 ≤ kernelRsp) :
    (assignRegisters kernelRsp entryPoint userStackTop mem).read64 (kernelRsp - 8) =
      BitVec.ofNat 64 userStackTop := by
  have size : SyscallRegisters.size = 128 := rfl
  have place : kernelRsp - 8 = kernelRsp - SyscallRegisters.size + 120 := by omega
  unfold assignRegisters
  rw [place]
  unfold Memory.write64
  rw [Memory.read64_patch_outside (by omega)]
  exact Memory.read64_write64 ..

/-- A frame that is written elsewhere leaves the call alone. -/
theorem frameKept_of_same (live : 136 ≤ kernelRsp)
    (same : ∀ addr, kernelRsp - 136 ≤ addr → addr < kernelRsp → mem addr = before addr) :
    FrameKept kernelRsp entryPoint userStackTop before
      (assignRegisters kernelRsp entryPoint userStackTop mem) where
  below addr low high := by
    rw [assignRegisters_apply live (.inl high)]
    exact same addr low (by omega)
  r11 addr low high := by
    rw [assignRegisters_apply live (.inr ⟨low, high⟩)]
    exact same addr (by omega) (by omega)
  rip := assignRegisters_rcx live
  rsp := assignRegisters_rsp live
  flags := by
    have kept : (assignRegisters kernelRsp entryPoint userStackTop mem).read64 (kernelRsp - 16) =
        before.read64 (kernelRsp - 16) := by
      refine Memory.read64_congr fun offset inside => ?_
      rw [assignRegisters_apply live (by omega)]
      exact same _ (by omega) (by omega)
    rw [kept]
    exact id

/-- The frame at the top of the stack puts a zero where the return address of the dispatcher
is: its `r12`. -/
theorem initUserKernelStack_returnAddress (base : Nat) :
    (initUserKernelStack base entryPoint userStackTop mem).2.read64
      (base + kernelStackSize - 136) = 0 := by
  have size : kernelStackSize = 16384 ∧ TrapFrame.size = 160 := by decide
  have frame := Memory.readWords_writeWords mem (base + (kernelStackSize - TrapFrame.size))
    (TrapFrame.entering entryPoint userStackTop).words
  have place : base + kernelStackSize - 136 =
      base + (kernelStackSize - TrapFrame.size) + 8 + 8 + 8 := by omega
  rw [place]
  simp only [TrapFrame.words, List.length_cons, List.length_nil, Memory.readWords,
    List.cons.injEq] at frame
  exact frame.2.2.2.1

theorem initUserKernelStack_apply {base addr : Nat}
    (outside : addr < base + kernelStackSize - 160 ∨ base + kernelStackSize ≤ addr) :
    (initUserKernelStack base entryPoint userStackTop mem).2 addr = mem addr := by
  have size : kernelStackSize = 16384 ∧ TrapFrame.size = 160 := by decide
  refine Memory.writeWords_outside ?_
  simp only [TrapFrame.words, List.length_cons, List.length_nil]
  omega

end Frames

/-- A successful `sys_execve` leaves the frame of its own system call alone exactly if the
call does not run on the kernel stack of its process. The stack that a call runs on is
either that one or the boot stack, which lies elsewhere. -/
theorem execve_keeps_frame_iff {Fds : Type} {request : ExecRequest} {world after : ExecWorld Fds}
    {kernelRsp : Nat} (executed : sysExecve (.ok request) world = (some 0, after))
    (live : 136 ≤ kernelRsp) (called : world.kernelMemory.read64 (kernelRsp - 136) ≠ 0)
    (placed : kernelRsp = world.process.kernelStackTop ∨
      kernelRsp ≤ world.process.kernelStackTop - 160 ∨
      world.process.kernelStackTop ≤ kernelRsp - 136) :
    FrameKept kernelRsp after.process.entryPoint after.process.userStackTop world.kernelMemory
        (assignRegisters kernelRsp after.process.entryPoint after.process.userStackTop
          after.kernelMemory) ↔
      kernelRsp ≠ world.process.kernelStackTop := by
  obtain ⟨newVm, loaded, _, _, _, rfl⟩ := sysExecve_applied executed
  unfold Image.kernelStackTop at placed ⊢
  constructor
  · rintro kept rfl
    have cleared := @initUserKernelStack_returnAddress loaded.entryPoint loaded.userStackTop
      world.kernelMemory world.process.kernelStack
    refine called (Eq.trans (Memory.read64_congr fun offset inside => ?_) cleared)
    rw [← kept.below _ (Nat.le_add_right ..) (by omega), assignRegisters_apply live (by omega)]
    rfl
  · intro elsewhere
    have apart := placed.resolve_left elsewhere
    refine frameKept_of_same live fun addr low high => ?_
    exact initUserKernelStack_apply (by omega)

/-- A process on its way into the image, with its kernel stack at 0x100000. -/
def execWorld : ExecWorld Unit where
  process :=
    { creds := ⟨⟨0, 0, 0⟩, ⟨0, 0, 0⟩⟩
      root := 0x1000
      vmas := []
      entryPoint := 0
      userStackTop := 0
      mmapNextVaddr := defaultMmapBase
      savedKernelRsp := 0
      hasStarted := true
      kernelStack := 0x100000
      fds := () }
  machine := ⟨bootMemory, bootPmm 64⟩
  kernelMemory := fun _ => 0xFF
  signals := .new

def tidyRequest : ExecRequest := ⟨⟨tidyElf, 0, 0, 0⟩, [], []⟩

theorem execWorld_executes (signals : SignalManager) : ∃ newVm,
    sysExecve (.ok tidyRequest) { execWorld with signals } =
      (some 0, applyExec ⟨0, 0x7FFFFFFEFF80⟩ newVm tidyRequest.file { execWorld with signals }) := by
  have created : VmSpace.new execWorld.process.root execWorld.machine =
      (some (sharedSpace 64), (sharedSpace 64).machine) := new_sharedSpace rfl
  obtain ⟨built, load⟩ := Action.exists_state tidyElf_loads
  exact ⟨built, @sysExecve_loads _ tidyRequest { execWorld with signals } _ _ _ _ created load⟩

/-- The call of a process that is still on the boot stack. -/
theorem execve_keeps_frame_iff_boot : ∃ after,
    sysExecve (.ok tidyRequest) execWorld = (some 0, after) ∧
      FrameKept 0x80000 after.process.entryPoint after.process.userStackTop execWorld.kernelMemory
        (assignRegisters 0x80000 after.process.entryPoint after.process.userStackTop
          after.kernelMemory) := by
  obtain ⟨newVm, executed⟩ := execWorld_executes .new
  refine ⟨_, executed, ?_⟩
  exact (execve_keeps_frame_iff executed (by decide) (by decide +kernel)
    (.inr (.inl (by decide)))).mpr (by decide)

/-- On its own kernel stack the call of a process returns to address 0, with the new stack
pointer for flags. -/
theorem execve_clears_return_address : ∃ after,
    sysExecve (.ok tidyRequest) execWorld = (some 0, after) ∧
      execWorld.process.kernelStackTop = 0x104000 ∧
      execWorld.kernelMemory.read64 (0x104000 - 136) = 0xFFFFFFFFFFFFFFFF ∧
      (assignRegisters 0x104000 after.process.entryPoint after.process.userStackTop
        after.kernelMemory).read64 (0x104000 - 136) = 0 ∧
      (assignRegisters 0x104000 after.process.entryPoint after.process.userStackTop
        after.kernelMemory).read64 (0x104000 - 16) = 0x7FFFFFFEFF80 := by
  obtain ⟨newVm, executed⟩ := execWorld_executes .new
  refine ⟨_, executed, by decide, by decide +kernel, ?_⟩
  change (assignRegisters 0x104000 0 0x7FFFFFFEFF80
      (initUserKernelStack 0x100000 0 0x7FFFFFFEFF80 fun _ => 0xFF).2).read64 (0x104000 - 136) = 0 ∧
    (assignRegisters 0x104000 0 0x7FFFFFFEFF80
      (initUserKernelStack 0x100000 0 0x7FFFFFFEFF80 fun _ => 0xFF).2).read64 (0x104000 - 16) =
        0x7FFFFFFEFF80
  decide +kernel

end RustPosix.Posix
