import RustPosix.Ipc.SignalSteps
import RustPosix.Posix.Signals
import RustPosix.Process.Elf

/-! What `dispatch_syscall` leaves in the registers from which `sysretq` takes the instruction
pointer and the flags. -/

namespace RustPosix.Posix

open Library Mm Vfs Ipc Process

/-- A system call as far as it decides the registers on return; `other` is any call that does
something to the memory and to the signals and returns a value. -/
inductive Syscall where
  | rtSigreturn
  | execve (image : List Byte) (argv envp : List (List Byte)) (vm : VmState) (space : UserSpace)
  | exit
  | other (ret : BitVec 64) (space : UserSpace) (signals : SignalManager)

def enoexec : Nat := 8

/-- The way out of all calls but `rt_sigreturn`, unless the process ends. -/
def leaveSyscall (pid : Pid) (user : UserContext) : Option UserContext :=
  match checkAndDeliverSignals pid user with
  | .nothing after | .handler _ after => some after
  | .ended .. => none

/-- What `sys_execve` leaves in the registers, for what the loader returned. -/
def enterImage (user : UserContext) (space : UserSpace) : Except Fault LoadedElf → UserContext
  | .ok loaded =>
    { user with
      regs := { user.regs with
        rax := 0
        rcx := BitVec.ofNat 64 loaded.entryPoint
        rsp := BitVec.ofNat 64 loaded.userStackTop }
      space }
  | .error _ => { user with regs := { user.regs with rax := -enoexec } }

def dispatchSyscall (pid : Pid) (user : UserContext) : Syscall → Option UserContext
  -- An error is not even reported: the registers stay as they were.
  | .rtSigreturn => some ((sysRtSigreturn pid user).toOption.getD user)
  | .execve image argv envp vm space =>
    leaveSyscall pid (enterImage user space (loadElf image argv envp vm).1)
  | .exit => none
  | .other ret space signals => leaveSyscall pid ⟨{ user.regs with rax := ret }, space, signals⟩

/-- The flags that a process cannot change: IF, IOPL and VM. -/
structure Unprivileged (flags : BitVec 64) : Prop where
  interrupts : flags.getLsbD 9 = true
  iopl : flags.getLsbD 12 = false ∧ flags.getLsbD 13 = false
  vm : flags.getLsbD 17 = false

/-- `sysretq` takes a canonical user address and harmless flags. -/
structure SafeReturn (regs : SyscallRegisters) : Prop where
  rip : regs.rcx.toNat < 2 ^ 47
  flags : Unprivileged regs.r11
  nt : regs.r11.getLsbD 14 = false

inductive Ring3Event where
  /-- Code of the process runs up to its next system call; timer interrupts are part of it. -/
  | run (user : UserContext)
  | syscall (call : Syscall)

def ring3Step (pid : Pid) (user : UserContext) : Ring3Event → Option UserContext
  | .run after => some after
  | .syscall call => dispatchSyscall pid user call

/-- What the processor makes sure of in ring 3: a system call is made from below 2^47, and
the privileged flags stay as they are. Other flags, NT among them, are the user's. -/
def ByHardware (user : UserContext) : Ring3Event → Prop
  | .run after =>
    after.regs.rcx.toNat ≤ 2 ^ 47 ∧ ∀ bit ∈ [9, 12, 13, 17],
      after.regs.r11.getLsbD bit = user.regs.r11.getLsbD bit
  | .syscall _ => True

/-- The action of the signal that is taken on the way out of a call. -/
def takenAction (pid : Pid) (signals : SignalManager) : Option SigAction :=
  if pid ≤ 0 then none else (signals.nextUnblockedSignal pid).1.map fun (_, action, _) => action

/-- The address to go on at is a user address: that of the handler, if there is one. -/
def SafeTarget (pid : Pid) (signals : SignalManager) (rip : BitVec 64) : Prop :=
  match takenAction pid signals with
  | some action => (BitVec.ofNat 64 action.handler).toNat < 2 ^ 47
  | none => rip.toNat < 2 ^ 47

/-- `e_entry` of an image. -/
def elfEntry (image : List Byte) : Nat := (readHeader image).elim 0 (·.entry)

/-- The address that a call goes on at if it loads the image, or fails to. -/
def imageTarget (user : UserContext) (image : List Byte) : Except Fault LoadedElf → BitVec 64
  | .ok _ => BitVec.ofNat 64 (elfEntry image)
  | .error _ => user.regs.rcx

/-- The words that a call takes from the user and hands on to `sysretq` are all right. -/
def SafeCall (pid : Pid) (user : UserContext) : Syscall → Prop
  | .rtSigreturn =>
    (user.space.readFrame (user.regs.rsp.toNat - 8)).elim
      (user.regs.rcx.toNat < 2 ^ 47 ∧ user.regs.r11.getLsbD 14 = false)
      fun frame => frame.rcx.toNat < 2 ^ 47
  | .execve image argv envp vm _ =>
    user.regs.r11.getLsbD 14 = false ∧
      SafeTarget pid user.signals (imageTarget user image (loadElf image argv envp vm).1)
  | .exit => True
  | .other _ _ signals =>
    user.regs.r11.getLsbD 14 = false ∧ SafeTarget pid signals user.regs.rcx

section Returns

variable {pid : Pid} {user after : UserContext} {call : Syscall}

theorem deliver_regs {sig : Int} {action : SigAction} {blocked : SigSet}
    (delivered : deliverSignalToUser pid sig action blocked user = some after) :
    after.regs.r11 = user.regs.r11 ∧ after.regs.rcx = BitVec.ofNat 64 action.handler := by
  obtain ⟨space, _, rfl⟩ := Option.map_eq_some_iff.mp delivered
  exact ⟨rfl, rfl⟩

/-- The way out of a call keeps the flags and goes on at the handler, if there is one. -/
theorem leaveSyscall_regs (left : leaveSyscall pid user = some after) :
    after.regs.r11 = user.regs.r11 ∧
      (after.regs.rcx.toNat < 2 ^ 47 ↔ SafeTarget pid user.signals user.regs.rcx) := by
  rw [leaveSyscall, checkAndDeliverSignals] at left
  rw [SafeTarget, takenAction]
  by_cases none : pid ≤ 0
  · rw [if_pos none] at left ⊢
    cases left
    exact ⟨rfl, Iff.rfl⟩
  · rw [if_neg none] at left ⊢
    generalize user.signals.nextUnblockedSignal pid = result at left ⊢
    rcases result with ⟨_ | ⟨sig, action, blocked⟩, signals⟩
    · cases left
      exact ⟨rfl, Iff.rfl⟩
    · dsimp only at left
      by_cases ends : action.handler = sigDfl
      · rw [if_pos ends] at left
        cases left
      · rw [if_neg ends] at left
        cases delivered : deliverSignalToUser pid sig action blocked { user with signals } with
        | none =>
          rw [delivered] at left
          cases left
        | some reached =>
          rw [delivered] at left
          cases left
          obtain ⟨flags, target⟩ := deliver_regs delivered
          refine ⟨flags, ?_⟩
          rw [target]
          exact Iff.rfl

theorem checkHeader_entry {image : List Byte} {header : Elf64Header}
    (checked : checkHeader image = .ok header) : header.entry = elfEntry image := by
  unfold checkHeader at checked
  split at checked
  · cases checked
  · rename_i found
    split_ifs at checked
    cases checked
    rw [elfEntry, found]
    rfl

theorem loadElf_entry {image : List Byte} {argv envp : List (List Byte)} {vm : VmState}
    {loaded : LoadedElf} (ok : (loadElf image argv envp vm).1 = .ok loaded) :
    loaded.entryPoint = elfEntry image := by
  have given : Ensures (fun _ _ => True) (loadElf image argv envp)
      fun loaded => loaded.entryPoint = elfEntry image := by
    unfold loadElf
    split
    · exact fun _ => trivial
    · rename_i header checked
      have entry : header.entry = elfEntry image := checkHeader_entry checked
      refine .bind (fun _ _ _ _ _ => trivial) (.anything _) fun _ _ => ?_
      refine .bind (fun _ _ _ _ _ => trivial) (.anything _) fun _ _ => ?_
      refine .bind (fun _ _ _ _ _ => trivial) (.anything _) fun _ _ => ?_
      exact .pure (fun _ => trivial) entry
  exact ((given vm).of_ok (Prod.ext ok rfl)).2

/-- The flags that a frame brings back are the user's own ones. -/
theorem restore_flags (flags : BitVec 64) :
    Unprivileged ((flags &&& userRflagsMask) ||| userRflagsReserved) ∧
      ((flags &&& userRflagsMask) ||| userRflagsReserved).getLsbD 14 = false := by
  have fixed (bit : Nat) (masked : userRflagsMask.getLsbD bit = false) :
      ((flags &&& userRflagsMask) ||| userRflagsReserved).getLsbD bit =
        userRflagsReserved.getLsbD bit := by
    rw [BitVec.getLsbD_or, BitVec.getLsbD_and, masked, Bool.and_false, Bool.false_or]
  exact ⟨⟨fixed 9 (by decide), ⟨fixed 12 (by decide), fixed 13 (by decide)⟩,
    fixed 17 (by decide)⟩, fixed 14 (by decide)⟩

theorem dispatchSyscall_safe (unprivileged : Unprivileged user.regs.r11)
    (returned : dispatchSyscall pid user call = some after) :
    Unprivileged after.regs.r11 ∧ (SafeReturn after.regs ↔ SafeCall pid user call) := by
  have leaves {before : UserContext} (left : leaveSyscall pid before = some after)
      (flags : before.regs.r11 = user.regs.r11) :
      Unprivileged after.regs.r11 ∧ (SafeReturn after.regs ↔
        user.regs.r11.getLsbD 14 = false ∧ SafeTarget pid before.signals before.regs.rcx) := by
    obtain ⟨kept, target⟩ := leaveSyscall_regs left
    rw [flags] at kept
    refine ⟨kept ▸ unprivileged, fun safe => ⟨kept ▸ safe.nt, target.mp safe.rip⟩, ?_⟩
    exact fun ⟨nt, safe⟩ => ⟨target.mpr safe, kept ▸ unprivileged, kept ▸ nt⟩
  cases call with
  | rtSigreturn =>
    rw [dispatchSyscall, sysRtSigreturn] at returned
    rw [SafeCall]
    generalize user.space.readFrame (user.regs.rsp.toNat - 8) = found at returned ⊢
    cases found with
    | none =>
      cases returned
      exact ⟨unprivileged, fun safe => ⟨safe.rip, safe.nt⟩, fun ⟨rip, nt⟩ => ⟨rip, unprivileged, nt⟩⟩
    | some frame =>
      cases returned
      obtain ⟨harmless, nt⟩ := restore_flags frame.r11
      exact ⟨harmless, SafeReturn.rip, fun rip => ⟨rip, harmless, nt⟩⟩
  | execve image argv envp vm space =>
    rw [dispatchSyscall] at returned
    rw [SafeCall]
    cases ok : (loadElf image argv envp vm).1 with
    | ok loaded =>
      rw [ok] at returned
      have safe := leaves returned rfl
      rw [imageTarget, ← loadElf_entry ok]
      exact safe
    | error fault =>
      rw [ok] at returned
      have safe := leaves returned rfl
      exact safe
  | exit => cases returned
  | other ret space signals =>
    have safe := leaves returned rfl
    exact safe

end Returns

/-- In every run of a process a system call returns safely exactly if the words that it takes
from the user are: the address that a frame brings back, the handler that is started, the
entry point of a new image or the address of the call, and NT if the flags are the user's. -/
theorem sysret_is_safe_iff {pid : Pid} {start user after : UserContext} {call : Syscall}
    (unprivileged : Unprivileged start.regs.r11)
    (run : Run (ring3Step pid) ByHardware start user)
    (returned : dispatchSyscall pid user call = some after) :
    SafeReturn after.regs ↔ SafeCall pid user call := by
  have held : Unprivileged user.regs.r11 := by
    clear returned
    induction run with
    | start => exact unprivileged
    | step _ event hardware next kept =>
      cases event with
      | run other =>
        cases next
        obtain ⟨_, same⟩ := hardware
        refine ⟨(same 9 ?_).trans kept.interrupts, ⟨(same 12 ?_).trans kept.iopl.1,
          (same 13 ?_).trans kept.iopl.2⟩, (same 17 ?_).trans kept.vm⟩
        all_goals decide
      | syscall call => exact (dispatchSyscall_safe kept next).1
  exact (dispatchSyscall_safe held returned).2

/-- A process behind a system call at 0x400000, with one byte of its memory set. -/
private def ring3User (addr : Nat) (byte : Byte) : UserContext where
  regs := ⟨0, 0, 0, 0, 0, 0, 0, 0, 0, 0, 0, 0, 0, 0x400002, 0x202, 0x7008⟩
  space := ⟨fun other => if other = addr then byte else 0, fun _ _ => true, fun _ valid => valid⟩
  signals := .new

private theorem ring3User_unprivileged (addr : Nat) (byte : Byte) :
    Unprivileged (ring3User addr byte).regs.r11 := by
  refine ⟨?_, ⟨?_, ?_⟩, ?_⟩
  all_goals
    change BitVec.getLsbD 0x202#64 _ = _
    decide

/-- A call that neither finds a signal nor changes the address to go on at. -/
theorem sysret_is_safe_iff_getpid : ∃ after,
    dispatchSyscall 5 (ring3User 0 0) (.other 5 (ring3User 0 0).space .new) = some after ∧
      SafeReturn after.regs := by
  obtain ⟨after, returned⟩ : ∃ after,
      dispatchSyscall 5 (ring3User 0 0) (.other 5 (ring3User 0 0).space .new) = some after :=
    ⟨_, rfl⟩
  have harmless : SafeCall 5 (ring3User 0 0) (.other 5 (ring3User 0 0).space .new) := by
    refine ⟨by decide, ?_⟩
    change (0x400002 : Nat) < 2 ^ 47
    decide
  exact ⟨after, returned,
    (sysret_is_safe_iff (ring3User_unprivileged 0 0) .start returned).mpr harmless⟩

/-- A frame that a process has made up sends `sysretq` to the first address that is none. -/
theorem forged_frame_returns_to_noncanonical :
    Unprivileged (ring3User 0x7085 0x80).regs.r11 ∧
    ∃ after, dispatchSyscall 5 (ring3User 0x7085 0x80) .rtSigreturn = some after ∧
      after.regs.rcx = 2 ^ 47 ∧ ¬ SafeReturn after.regs := by
  have forged : (dispatchSyscall 5 (ring3User 0x7085 0x80) .rtSigreturn).map (·.regs.rcx) =
      some (2 ^ 47) := by
    decide +kernel
  obtain ⟨after, returned, rip⟩ := Option.map_eq_some_iff.mp forged
  refine ⟨ring3User_unprivileged _ _, after, returned, rip, fun safe => ?_⟩
  have low := safe.rip
  rw [rip] at low
  exact absurd low (by decide)

end RustPosix.Posix
