import RustPosix.Ipc.Signals
import RustPosix.Mm.PageTree

/-! The way of a signal to a handler and back on the path of system calls: the frame on the
user stack, `check_and_deliver_signals` and `sys_rt_sigreturn` of `services/posix/process.rs`,
for the registers that `syscall_entry` saves. -/

namespace RustPosix.Posix

open Library Mm Vfs Ipc

structure SyscallRegisters where
  r15 : BitVec 64
  r14 : BitVec 64
  r13 : BitVec 64
  r12 : BitVec 64
  rbp : BitVec 64
  rbx : BitVec 64
  r9 : BitVec 64
  r8 : BitVec 64
  r10 : BitVec 64
  rdx : BitVec 64
  rsi : BitVec 64
  rdi : BitVec 64
  rax : BitVec 64
  /-- The user's instruction pointer. -/
  rcx : BitVec 64
  /-- The user's flags. -/
  r11 : BitVec 64
  rsp : BitVec 64
  deriving DecidableEq, Repr

structure SignalFrame where
  restorer : BitVec 64
  signum : BitVec 64
  oldMask : SigSet
  r15 : BitVec 64
  r14 : BitVec 64
  r13 : BitVec 64
  r12 : BitVec 64
  rbp : BitVec 64
  rbx : BitVec 64
  r9 : BitVec 64
  r8 : BitVec 64
  r10 : BitVec 64
  rdx : BitVec 64
  rsi : BitVec 64
  rdi : BitVec 64
  rax : BitVec 64
  rcx : BitVec 64
  r11 : BitVec 64
  rsp : BitVec 64
  deriving DecidableEq, Repr

namespace SignalFrame

/-- The fields in the order of the layout. -/
def words (frame : SignalFrame) : List (BitVec 64) :=
  [frame.restorer, frame.signum, frame.oldMask, frame.r15, frame.r14, frame.r13, frame.r12,
    frame.rbp, frame.rbx, frame.r9, frame.r8, frame.r10, frame.rdx, frame.rsi, frame.rdi,
    frame.rax, frame.rcx, frame.r11, frame.rsp]

/-- `size_of::<SignalFrame>()` -/
def size : Nat := 19 * 8

def load (mem : Memory) (addr : Nat) : SignalFrame where
  restorer := mem.read64 addr
  signum := mem.read64 (addr + 8)
  oldMask := mem.read64 (addr + 16)
  r15 := mem.read64 (addr + 24)
  r14 := mem.read64 (addr + 32)
  r13 := mem.read64 (addr + 40)
  r12 := mem.read64 (addr + 48)
  rbp := mem.read64 (addr + 56)
  rbx := mem.read64 (addr + 64)
  r9 := mem.read64 (addr + 72)
  r8 := mem.read64 (addr + 80)
  r10 := mem.read64 (addr + 88)
  rdx := mem.read64 (addr + 96)
  rsi := mem.read64 (addr + 104)
  rdi := mem.read64 (addr + 112)
  rax := mem.read64 (addr + 120)
  rcx := mem.read64 (addr + 128)
  r11 := mem.read64 (addr + 136)
  rsp := mem.read64 (addr + 144)

end SignalFrame

/-- The memory of a process, with the pages that `validate_user_page` accepts. -/
structure UserSpace where
  memory : Memory
  valid : (page : Nat) → (needWrite : Bool) → Bool
  readable : ∀ page, valid page true = true → valid page false = true

namespace UserSpace

/-- `validate_user_range`, one page after the other. -/
def validateUserRange (space : UserSpace) (addr len : Nat) (needWrite : Bool) : Bool :=
  len = 0 || (decide (addr + len ≤ userSpaceEnd) &&
    (List.range ((addr % pageSize + len + pageSize - 1) / pageSize)).all fun page =>
      space.valid (addr / pageSize * pageSize + page * pageSize) needWrite)

/-- `UserPtr::from_raw` for a value of `size` bytes. -/
def fromRaw (addr size : Nat) : Bool := addr ≠ 0 && decide (addr + size ≤ userSpaceEnd)

/-- `UserPtr::<SignalFrame>::read` -/
def readFrame (space : UserSpace) (addr : Nat) : Option SignalFrame :=
  if fromRaw addr SignalFrame.size && space.validateUserRange addr SignalFrame.size false then
    some (.load space.memory addr)
  else none

/-- `UserPtr::<SignalFrame>::write` -/
def writeFrame (space : UserSpace) (addr : Nat) (frame : SignalFrame) : Option UserSpace :=
  if fromRaw addr SignalFrame.size && space.validateUserRange addr SignalFrame.size true then
    some { space with memory := space.memory.writeWords addr frame.words }
  else none

end UserSpace

def redZoneSize : Nat := 128
def userRflagsMask : BitVec 64 := 0xCD5
def userRflagsReserved : BitVec 64 := 0x202
def efault : Int := 14

/-- What a process leaves to the kernel with a system call. -/
structure UserContext where
  regs : SyscallRegisters
  space : UserSpace
  signals : SignalManager

/-- Where the frame of a signal goes: below the red zone, on a multiple of 16. -/
def newRsp (rsp : BitVec 64) : Nat := (rsp.toNat - (redZoneSize + SignalFrame.size)) / 16 * 16

def SignalFrame.save (sig : Int) (action : SigAction) (blocked : SigSet) (r : SyscallRegisters) :
    SignalFrame where
  restorer := BitVec.ofNat 64 action.restorer
  signum := BitVec.ofInt 64 sig
  oldMask := blocked
  r15 := r.r15
  r14 := r.r14
  r13 := r.r13
  r12 := r.r12
  rbp := r.rbp
  rbx := r.rbx
  r9 := r.r9
  r8 := r.r8
  r10 := r.r10
  rdx := r.rdx
  rsi := r.rsi
  rdi := r.rdi
  rax := r.rax
  rcx := r.rcx
  r11 := r.r11
  rsp := r.rsp

/-- `deliver_signal_to_user`; there is no way on if the frame cannot be written, the process
then ends with `SIGSEGV`. -/
def deliverSignalToUser (pid : Pid) (sig : Int) (action : SigAction) (blocked : SigSet)
    (user : UserContext) : Option UserContext :=
  let r := user.regs
  let top := newRsp r.rsp
  (user.space.writeFrame top (.save sig action blocked r)).map fun space =>
    { regs := { r with
        rsp := BitVec.ofNat 64 top
        rcx := BitVec.ofNat 64 action.handler
        rdi := BitVec.ofInt 64 sig
        rsi := 0
        rdx := BitVec.ofNat 64 top }
      space
      signals := user.signals.updateSignalMaskAndDisposition pid sig action blocked }

/-- What a look for signals on the way back to ring 3 comes to. -/
inductive Delivery where
  | nothing (user : UserContext)
  | handler (sig : Int) (user : UserContext)
  | ended (sig : Int) (user : UserContext)

def checkAndDeliverSignals (pid : Pid) (user : UserContext) : Delivery :=
  if pid ≤ 0 then .nothing user
  else
    match user.signals.nextUnblockedSignal pid with
    | (none, signals) => .nothing { user with signals }
    | (some (sig, action, blocked), signals) =>
      let scanned := { user with signals }
      if action.handler = sigDfl then .ended sig scanned
      else
        match deliverSignalToUser pid sig action blocked scanned with
        | some after => .handler sig after
        | none => .ended sigsegv scanned

/-- The registers that a frame brings back. -/
def SignalFrame.restore (frame : SignalFrame) : SyscallRegisters where
  r15 := frame.r15
  r14 := frame.r14
  r13 := frame.r13
  r12 := frame.r12
  rbp := frame.rbp
  rbx := frame.rbx
  r9 := frame.r9
  r8 := frame.r8
  r10 := frame.r10
  rdx := frame.rdx
  rsi := frame.rsi
  rdi := frame.rdi
  rax := frame.rax
  rcx := frame.rcx
  -- Bits such as IOPL and NT are not the user's to choose.
  r11 := (frame.r11 &&& userRflagsMask) ||| userRflagsReserved
  rsp := frame.rsp

/-- `sys_rt_sigreturn`; the frame is the word below the stack pointer of the restorer. -/
def sysRtSigreturn (pid : Pid) (user : UserContext) : Except Int UserContext :=
  (user.space.readFrame (user.regs.rsp.toNat - 8)).elim (.error efault) fun frame =>
    .ok { user with
      regs := frame.restore
      signals := user.signals.setProcmask pid .setMask frame.oldMask }

end RustPosix.Posix
