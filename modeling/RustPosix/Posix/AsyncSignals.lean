import RustPosix.Posix.SignalNesting
import RustPosix.Posix.Sysret
import RustPosix.Process.TrapFrame

/-! A signal that the timer delivers to running code: `check_and_deliver_signals_irq` of
`services/posix/process.rs` rewrites the frame that `iretq` takes, and the handler comes back
through `sys_rt_sigreturn` and `sysretq`. -/

namespace RustPosix.Posix

open Library Mm Vfs Ipc Process

def SignalFrame.saveTrap (sig : Int) (action : SigAction) (blocked : SigSet) (frame : TrapFrame) :
    SignalFrame where
  restorer := BitVec.ofNat 64 action.restorer
  signum := BitVec.ofInt 64 sig
  oldMask := blocked
  r15 := frame.r15
  r14 := frame.r14
  r13 := frame.r13
  r12 := frame.r12
  rbp := frame.rbp
  rbx := frame.rbx
  r9 := frame.r9
  r8 := frame.r8
  r10 := frame.r10
  rdx := frame.rdx
  rsi := frame.rsi
  rdi := frame.rdi
  rax := frame.rax
  -- The two words from which `sysretq` will take the instruction pointer and the flags.
  rcx := frame.rip
  r11 := frame.rflags
  rsp := frame.rsp

/-- What the look for signals at the end of an interrupt comes to. -/
inductive IrqDelivery where
  | nothing (signals : SignalManager)
  | handler (sig : Int) (frame : TrapFrame) (space : UserSpace) (signals : SignalManager)
  /-- `terminate_cpu_bound_task` -/
  | terminated (sig : Int) (signals : SignalManager)

def checkAndDeliverSignalsIrq (pid : Pid) (frame : TrapFrame) (space : UserSpace)
    (signals : SignalManager) : IrqDelivery :=
  if frame.isUserMode then
    match signals.nextUnblockedSignal pid with
    | (none, signals) => .nothing signals
    | (some (sig, action, blocked), signals) =>
      if action.handler = sigDfl then .terminated sig (signals.cleanupProcess pid)
      else
        let top := newRsp frame.rsp
        match space.writeFrame top (.saveTrap sig action blocked frame) with
        | some space =>
          .handler sig
            { frame with
              rsp := BitVec.ofNat 64 top
              rip := BitVec.ofNat 64 action.handler
              rdi := BitVec.ofInt 64 sig
              rsi := 0
              rdx := BitVec.ofNat 64 top }
            space (signals.updateSignalMaskAndDisposition pid sig action blocked)
        | none => .terminated sigsegv (signals.cleanupProcess pid)
  else .nothing signals

/-- The registers that code in ring 3 goes on with. -/
structure UserRegisters where
  r15 : BitVec 64
  r14 : BitVec 64
  r13 : BitVec 64
  r12 : BitVec 64
  r11 : BitVec 64
  r10 : BitVec 64
  r9 : BitVec 64
  r8 : BitVec 64
  rbp : BitVec 64
  rdi : BitVec 64
  rsi : BitVec 64
  rdx : BitVec 64
  rcx : BitVec 64
  rbx : BitVec 64
  rax : BitVec 64
  rsp : BitVec 64
  rip : BitVec 64
  rflags : BitVec 64
  deriving DecidableEq, Repr

/-- The pops at the end of `syscall_entry`, then `sysretq`: the instruction pointer comes from
`rcx` and the flags from `r11`, both of which keep what was popped. The processor clears the
flags RF and VM and the reserved ones. -/
def sysretq (regs : SyscallRegisters) : UserRegisters where
  r15 := regs.r15
  r14 := regs.r14
  r13 := regs.r13
  r12 := regs.r12
  r11 := regs.r11
  r10 := regs.r10
  r9 := regs.r9
  r8 := regs.r8
  rbp := regs.rbp
  rdi := regs.rdi
  rsi := regs.rsi
  rdx := regs.rdx
  rcx := regs.rcx
  rbx := regs.rbx
  rax := regs.rax
  rsp := regs.rsp
  rip := regs.rcx
  rflags := (regs.r11 &&& 0x3C7FD7) ||| 2

/-- The flags CF, PF, AF, ZF, SF and OF. -/
def arithmeticFlags : BitVec 64 := 0x8D5

/-- Code goes on where it was interrupted. -/
structure Resumes (frame : TrapFrame) (user : UserRegisters) : Prop where
  rip : user.rip = frame.rip
  rsp : user.rsp = frame.rsp
  r15 : user.r15 = frame.r15
  r14 : user.r14 = frame.r14
  r13 : user.r13 = frame.r13
  r12 : user.r12 = frame.r12
  r11 : user.r11 = frame.r11
  r10 : user.r10 = frame.r10
  r9 : user.r9 = frame.r9
  r8 : user.r8 = frame.r8
  rbp : user.rbp = frame.rbp
  rdi : user.rdi = frame.rdi
  rsi : user.rsi = frame.rsi
  rdx : user.rdx = frame.rdx
  rcx : user.rcx = frame.rcx
  rbx : user.rbx = frame.rbx
  rax : user.rax = frame.rax
  flags : user.rflags &&& arithmeticFlags = frame.rflags &&& arithmeticFlags

/-- The frame of a handler is as the kernel wrote it, and the handler has returned to the
restorer. -/
structure HandlerReturns (handler : TrapFrame) (space : UserSpace) (user : UserContext) : Prop where
  rsp : user.regs.rsp = handler.rsp + 8
  readable : user.space.validateUserRange handler.rsp.toNat SignalFrame.size false = true
  intact : ∀ offset < SignalFrame.size,
    user.space.memory (handler.rsp.toNat + offset) = space.memory (handler.rsp.toNat + offset)

section Returns

variable {pid : Pid} {sig : Int} {frame handler : TrapFrame} {space after : UserSpace}
  {signals left : SignalManager}

/-- A delivery to a handler, taken apart. -/
theorem irq_handler
    (delivered : checkAndDeliverSignalsIrq pid frame space signals = .handler sig handler after left) :
    ∃ action blocked, handler.rsp = BitVec.ofNat 64 (newRsp frame.rsp) ∧
      space.writeFrame (newRsp frame.rsp) (.saveTrap sig action blocked frame) = some after := by
  unfold checkAndDeliverSignalsIrq at delivered
  split at delivered
  · split at delivered
    · cases delivered
    · rename_i action blocked _ _
      split at delivered
      · cases delivered
      · dsimp only at delivered
        split at delivered
        · rename_i written
          cases delivered
          exact ⟨action, blocked, rfl, written⟩
        · cases delivered
  · cases delivered

theorem newRsp_lt (rsp : BitVec 64) : newRsp rsp < 2 ^ 64 := by
  have bound := rsp.isLt
  unfold newRsp
  omega

/-- The registers that `sys_rt_sigreturn` brings back. -/
theorem sigreturn_after_irq {user : UserContext}
    (delivered : checkAndDeliverSignalsIrq pid frame space signals = .handler sig handler after left)
    (returns : HandlerReturns handler after user) :
    ∃ action blocked returned, dispatchSyscall pid user .rtSigreturn = some returned ∧
      returned.regs = (SignalFrame.saveTrap sig action blocked frame).restore := by
  obtain ⟨action, blocked, rsp, written⟩ := irq_handler delivered
  have top : handler.rsp.toNat = newRsp frame.rsp := by
    rw [rsp, BitVec.toNat_ofNat, Nat.mod_eq_of_lt (newRsp_lt frame.rsp)]
  simp only [UserSpace.writeFrame] at written
  split at written
  · rename_i accepted
    obtain ⟨inside, _⟩ := Bool.and_eq_true_iff.mp accepted
    cases written
    have low : newRsp frame.rsp + SignalFrame.size ≤ userSpaceEnd :=
      of_decide_eq_true (Bool.and_eq_true_iff.mp inside).2
    have behind : user.regs.rsp.toNat - 8 = newRsp frame.rsp := by
      have small : SignalFrame.size = 152 ∧ userSpaceEnd < 2 ^ 64 := by decide
      rw [returns.rsp, BitVec.toNat_add, top]
      change (newRsp frame.rsp + 8) % 2 ^ 64 - 8 = newRsp frame.rsp
      omega
    have readable := returns.readable
    have intact := returns.intact
    rw [top] at readable intact
    refine ⟨action, blocked, _, rfl, ?_⟩
    rw [sysRtSigreturn, behind, UserSpace.readFrame, inside, readable,
      SignalFrame.load_congr intact, SignalFrame.load_writeWords]
    rfl
  · cases written

theorem arithmetic_restored (flags : BitVec 64) :
    ((((flags &&& userRflagsMask) ||| userRflagsReserved) &&& 0x3C7FD7) ||| 2) &&& arithmeticFlags =
      flags &&& arithmeticFlags := by
  simp only [BitVec.and_or_distrib_right, BitVec.and_assoc]
  simp [userRflagsMask, userRflagsReserved, arithmeticFlags]

/-- A handler that returns at once. -/
theorem HandlerReturns.atOnce (regs : SyscallRegisters)
    (delivered : checkAndDeliverSignalsIrq pid frame space signals = .handler sig handler after left) :
    HandlerReturns handler after ⟨{ regs with rsp := handler.rsp + 8 }, after, left⟩ := by
  obtain ⟨action, blocked, rsp, written⟩ := irq_handler delivered
  simp only [UserSpace.writeFrame] at written
  split at written
  · rename_i accepted
    cases written
    refine ⟨rfl, ?_, fun _ _ => rfl⟩
    rw [rsp, BitVec.toNat_ofNat, Nat.mod_eq_of_lt (newRsp_lt frame.rsp)]
    exact @validateUserRange_read space _ _ (Bool.and_eq_true_iff.mp accepted).2
  · cases written

end Returns

/-- A signal that the timer delivers is transparent exactly for code that has its own address
in `rcx` and its own flags in `r11`, as code that comes from a system call does. -/
theorem async_delivery_is_transparent_iff {pid : Pid} {sig : Int} {frame handler : TrapFrame}
    {space after : UserSpace} {signals left : SignalManager} {user : UserContext}
    (delivered : checkAndDeliverSignalsIrq pid frame space signals = .handler sig handler after left)
    (returns : HandlerReturns handler after user) :
    ∃ returned, dispatchSyscall pid user .rtSigreturn = some returned ∧
      (Resumes frame (sysretq returned.regs) ↔ frame.rcx = frame.rip ∧
        frame.r11 = (frame.rflags &&& userRflagsMask) ||| userRflagsReserved) := by
  obtain ⟨action, blocked, returned, dispatched, regs⟩ := sigreturn_after_irq delivered returns
  refine ⟨returned, dispatched, ?_⟩
  rw [regs]
  constructor
  · intro resumes
    exact ⟨resumes.rcx.symm, resumes.r11.symm⟩
  · rintro ⟨rcx, r11⟩
    exact ⟨rfl, rfl, rfl, rfl, rfl, rfl, r11.symm, rfl, rfl, rfl, rfl, rfl, rfl, rfl, rcx.symm, rfl,
      rfl, arithmetic_restored frame.rflags⟩

/-- Code at 0x400000 with the given registers `rcx` and `r11`. -/
def runningFrame (rcx r11 : BitVec 64) : TrapFrame where
  r15 := 1
  r14 := 2
  r13 := 3
  r12 := 4
  r11 := r11
  r10 := 5
  r9 := 6
  r8 := 7
  rbp := 8
  rdi := 9
  rsi := 10
  rdx := 11
  rcx := rcx
  rbx := 12
  rax := 13
  rip := 0x400000
  cs := 0x23
  rflags := 0x246
  rsp := 0x8000
  ss := 0x1B

/-- Process 5 has a handler for a signal that is pending. -/
def pendingHandler : SignalManager :=
  (SignalManager.new.setAction 5 10 ⟨0x400100, 0, 0x400200, 0⟩).setPending 5 10

/-- The memory in which every page can be written. -/
def UserSpace.all : UserSpace := ⟨fun _ => 0, fun _ _ => true, fun _ valid => valid⟩

/-- The signal is delivered whatever the two registers hold. -/
private theorem running_delivered (rcx r11 : BitVec 64) : ∃ handler after left,
    checkAndDeliverSignalsIrq 5 (runningFrame rcx r11) .all pendingHandler = .handler 10 handler after left := by
  have found : (pendingHandler.nextUnblockedSignal 5).1 =
      some (10, ⟨0x400100, 0, 0x400200, 0⟩, 0) := by
    decide +kernel
  have room : (UserSpace.fromRaw (newRsp 0x8000) SignalFrame.size &&
      UserSpace.all.validateUserRange (newRsp 0x8000) SignalFrame.size true) = true := by
    decide +kernel
  have rsp : (runningFrame rcx r11).rsp = 0x8000 := rfl
  unfold checkAndDeliverSignalsIrq
  rw [if_pos (by simp [TrapFrame.isUserMode, runningFrame]), rsp]
  generalize pendingHandler.nextUnblockedSignal 5 = next at found ⊢
  obtain ⟨_, signals⟩ := next
  cases found
  dsimp only
  rw [if_neg (by decide), UserSpace.writeFrame, if_pos room]
  exact ⟨_, _, _, rfl⟩

/-- Code that has just come back from a system call is interrupted and goes on. -/
theorem async_delivery_is_transparent_iff_syscall : ∃ handler after left user returned,
    checkAndDeliverSignalsIrq 5 (runningFrame 0x400000 0x246) .all pendingHandler =
      .handler 10 handler after left ∧
    HandlerReturns handler after user ∧
    dispatchSyscall 5 user .rtSigreturn = some returned ∧
    Resumes (runningFrame 0x400000 0x246) (sysretq returned.regs) := by
  obtain ⟨handler, after, left, delivered⟩ := running_delivered 0x400000 0x246
  have returns := HandlerReturns.atOnce (UserContext.mapped 0).regs delivered
  obtain ⟨returned, dispatched, transparent⟩ := async_delivery_is_transparent_iff delivered returns
  exact ⟨handler, after, left, _, returned, delivered, returns, dispatched,
    transparent.mpr ⟨rfl, by decide⟩⟩

/-- Code that counts in `rcx` goes on with its own address in it. -/
theorem async_delivery_clobbers_rcx : ∃ handler after left user returned,
    checkAndDeliverSignalsIrq 5 (runningFrame 7 0) .all pendingHandler = .handler 10 handler after left ∧
    HandlerReturns handler after user ∧
    dispatchSyscall 5 user .rtSigreturn = some returned ∧
    (sysretq returned.regs).rcx = 0x400000 ∧ (sysretq returned.regs).r11 = 0x246 := by
  obtain ⟨handler, after, left, delivered⟩ := running_delivered 7 0
  have returns := HandlerReturns.atOnce (UserContext.mapped 0).regs delivered
  obtain ⟨action, blocked, returned, dispatched, regs⟩ := sigreturn_after_irq delivered returns
  refine ⟨handler, after, left, _, returned, delivered, returns, dispatched, ?_⟩
  rw [regs]
  refine ⟨rfl, ?_⟩
  change ((0x246 : BitVec 64) &&& userRflagsMask) ||| userRflagsReserved = 0x246
  decide

end RustPosix.Posix
