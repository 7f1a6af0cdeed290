import RustPosix.Ipc.Signals
import RustPosix.Sched.Scheduler

/-! The system calls that schedule, block or wake, one lock-delimited section at a time:
`services/posix/process.rs`, `FileHandle` and the loops of `services/vfs/pipe.rs`. What a call
hands back to its caller is left out. -/

namespace RustPosix.Sched

open Library Vfs Ipc

abbrev FileId := Nat
abbrev PipeId := Nat

/-- What a file handle refers to; ramfs files and devices are `plain`. -/
inductive Inode where
  | readEnd (pipe : PipeId)
  | writeEnd (pipe : PipeId)
  | plain
  deriving DecidableEq, Repr

structure FileHandle where
  inode : Inode
  flags : BitVec 32

inductive PipeSide where
  | reader
  | writer
  deriving DecidableEq, Repr

/-- System calls; `other` stands for those that neither block nor touch any of this. -/
inductive Request where
  | read (file : FileId) (wanted : Nat)
  | write (file : FileId) (bytes : List Byte)
  | wait4 (pid : Pid) (options : BitVec 32)
  | exit (code : Int)
  | fork
  | kill (pid : Pid) (sig : Int)
  | close (dropped : Option (PipeSide × PipeId))
  | rtSigaction (sig : Int) (act : SigAction)
  | rtSigprocmask (how : MaskChange) (newSet : SigSet)
  | rtSigreturn (oldMask : SigSet)
  | schedYield
  | other

/-- Points between the sections of a call. -/
inductive Pc where
  | lockOffset
  | markPipe
  | pipeSection
  | wake (pids : List Pid) (shouldSwitch done : Bool)
  | settle (done : Bool)
  | removeWaiter
  | unlockOffset
  | snapshot
  | inspect (candidates rest : ProcessTable) (hasChildren : Bool)
  | markWait (candidates : ProcessTable)
  | recheck (rest : ProcessTable)
  | settleFound (target : Pid) (status : Int)
  | reap (target : Pid) (status : Int)
  | cleanup (target : Pid) (status : Int)
  | release (again : Bool)
  | dropWake (pids : List Pid) (again : Bool)
  | switchOut
  | sti
  | resumed
  | checkSignals
  | exitMark (code : Int) (killedBySig : Option Int)
  | exitWake (ppid : Pid)
  | exitLoop
  | exitSti
  | act
  | closeWake (pids : List Pid)
  | yield
  | yieldSti
  | deliver
  | popRsp
  | swapgs
  | sysretq
  deriving DecidableEq, Repr

/-- A call in progress: the guard of the offset it holds, with the interrupt flag that the
guard restores, and whether the call has come back from a switch. -/
structure Call where
  request : Request
  callerPid : Pid
  guard : Option (FileId × Bool)
  switched : Bool

/-- What a context on a kernel stack resumes. -/
inductive Ctx where
  | user
  | idle
  | kernel (call : Call) (pc : Pc)

/-- A saved `TrapFrame`. -/
structure Frame where
  ctx : Ctx
  interrupts : Bool

structure Kernel where
  sched : Scheduler
  frames : Handle → Frame
  files : FileId → FileHandle
  /-- The process that holds the lock of the offset of a file. -/
  offsets : FileId → Option Handle
  pipes : PipeId → PipeBuffer
  signals : SignalManager

/-- What the surroundings decide in a step: whether user memory and frames are there, and
which end of a pipe goes with the last reference to a reaped process. -/
inductive Choice where
  | go
  | fail
  | drop (side : PipeSide) (pipe : PipeId)

/-- Whether the frame of a signal handler fits onto the user stack. -/
def Choice.stackOk : Choice → Bool
  | .fail => false
  | _ => true

/-- How a step leaves the processor. -/
inductive Move where
  | goto (interrupts : Bool) (pc : Pc)
  | switchOut (resume stay : Pc)
  | yield (resume stay : Pc)
  | swapgs (pc : Pc)
  | sysret

structure Outcome where
  kernel : Kernel
  call : Call
  move : Move

/-- The loop of a pipe that a call runs. -/
inductive PipeIo where
  | read (pipe : PipeId) (wanted : Nat) (flags : BitVec 32)
  | write (pipe : PipeId) (bytes : List Byte) (flags : BitVec 32)

namespace PipeIo

def pipe : PipeIo → PipeId
  | .read pipe _ _ | .write pipe _ _ => pipe

/-- The section of the loop, reduced to what the loop goes on with. -/
def runSection (io : PipeIo) (buffer : PipeBuffer) (callerPid : Pid) :
    Option (List Pid × Bool × Bool) × PipeBuffer :=
  match io with
  | .read _ wanted flags =>
    match buffer.readSection wanted flags callerPid with
    | (.leave _, after) => (none, after)
    | (.go toWake shouldSwitch done, after) => (some (toWake, shouldSwitch, done.isSome), after)
  | .write _ bytes flags =>
    match buffer.writeSection bytes flags callerPid with
    | (.leave _, after) => (none, after)
    | (.go toWake shouldSwitch done, after) => (some (toWake, shouldSwitch, done.isSome), after)

/-- Take the caller off the queue it waits on. -/
def unregister (io : PipeIo) (buffer : PipeBuffer) (callerPid : Pid) : PipeBuffer :=
  match io with
  | .read .. => { buffer with readWaiters := buffer.readWaiters.removeWaiter callerPid }
  | .write .. => { buffer with writeWaiters := buffer.writeWaiters.removeWaiter callerPid }

end PipeIo

def PipeSide.drop (side : PipeSide) (buffer : PipeBuffer) : List Pid × PipeBuffer :=
  match side with
  | .reader => buffer.dropReadEnd
  | .writer => buffer.dropWriteEnd

/-- The loop that a call on a file runs, if the file is the right end of a pipe. -/
def Request.pipeIo (files : FileId → FileHandle) : Request → Option PipeIo
  | .read file wanted =>
    match (files file).inode with
    | .readEnd pipe => some (.read pipe wanted (files file).flags)
    | _ => none
  | .write file bytes =>
    match (files file).inode with
    | .writeEnd pipe => some (.write pipe bytes (files file).flags)
    | _ => none
  | _ => none

def wnohang : BitVec 32 := 1

namespace Kernel

/-- `sys_wait4` asks `CURRENT_PID` who it is, the calls on files ask the process. -/
def callerPid (kernel : Kernel) (self : Handle) : Request → Pid
  | .wait4 .. => kernel.sched.currentPid
  | _ => (kernel.sched.procs self).pid

def setPipe (kernel : Kernel) (pipe : PipeId) (buffer : PipeBuffer) : Kernel :=
  { kernel with pipes := Function.update kernel.pipes pipe buffer }

def setOffset (kernel : Kernel) (file : FileId) (owner : Option Handle) : Kernel :=
  { kernel with offsets := Function.update kernel.offsets file owner }

/-- The process that forks goes on with the child enqueued behind it. -/
def sysFork (kernel : Kernel) (self : Handle) : Kernel :=
  let parentPid := (kernel.sched.procs self).pid
  let (childPid, sched) := kernel.sched.allocPid
  { kernel with
    sched := sched.spawn childPid parentPid
    frames := Function.update kernel.frames sched.created ⟨.user, true⟩
    signals := kernel.signals.inheritFrom parentPid childPid }

def sysKill (kernel : Kernel) (pid : Pid) (sig : Int) : Kernel :=
  if pid ≤ 0 ∨ ¬ (sigMin ≤ sig ∧ sig ≤ sigMax) then kernel
  else
    match kernel.sched.table.get pid with
    | none => kernel
    | some _ =>
      { kernel with
        signals := kernel.signals.setPending pid sig
        sched := kernel.sched.wakeTasks [pid] }

/-- The candidates that `sys_wait4` takes from the table. -/
def candidates (kernel : Kernel) (pid : Pid) : ProcessTable :=
  if pid = -1 ∨ pid = 0 ∨ pid < -1 then kernel.sched.table
  else
    match kernel.sched.table.get pid with
    | some handle => [(pid, handle)]
    | none => []

/-- `check_and_deliver_signals`: the signal that ends the process, if there is one; the frame
of a handler needs room on the user stack. -/
def deliverSignals (kernel : Kernel) (stackOk : Bool) : Kernel × Option Int :=
  let pid := kernel.sched.currentPid
  if pid ≤ 0 then (kernel, none)
  else
    match kernel.signals.nextUnblockedSignal pid with
    | (none, signals) => ({ kernel with signals }, none)
    | (some (sig, action, blocked), signals) =>
      if action.handler = sigDfl then ({ kernel with signals }, some sig)
      else if stackOk then
        ({ kernel with
          signals := signals.updateSignalMaskAndDisposition pid sig action blocked }, none)
      else ({ kernel with signals }, some sigsegv)

/-- The calls that are over in one section, and the point they go on at. -/
def runAct (kernel : Kernel) (self : Handle) (choice : Choice) : Request → Kernel × Pc
  | .fork =>
    match choice with
    | .fail => (kernel, .deliver)
    | _ => (kernel.sysFork self, .deliver)
  | .kill pid sig => (kernel.sysKill pid sig, .deliver)
  | .close (some (side, pipe)) =>
    let (toWake, buffer) := side.drop (kernel.pipes pipe)
    (kernel.setPipe pipe buffer, .closeWake toWake)
  | .rtSigaction sig act =>
    ({ kernel with signals := kernel.signals.setAction kernel.sched.currentPid sig act }, .deliver)
  | .rtSigprocmask how newSet =>
    ({ kernel with signals := kernel.signals.setProcmask kernel.sched.currentPid how newSet },
      .deliver)
  -- The only call that does not look at pending signals on its way out.
  | .rtSigreturn oldMask =>
    ({ kernel with signals := kernel.signals.setProcmask kernel.sched.currentPid .setMask oldMask },
      .popRsp)
  | _ => (kernel, .deliver)

end Kernel

/-- Where a call starts. -/
def Request.entry : Request → Pc
  | .read .. | .write .. => .lockOffset
  | .wait4 .. => .snapshot
  | .exit code => .exitMark code none
  | .schedYield => .yield
  | _ => .act

/-- The file whose offset a call locks. -/
def Request.file? : Request → Option FileId
  | .read file _ | .write file _ => some file
  | _ => none

/-- One section of a call of the current process `self`, with interrupts as given outside
the locks that the section takes. There is no step while a lock cannot be had. -/
def Kernel.exec (kernel : Kernel) (self : Handle) (interrupts : Bool) (call : Call)
    (choice : Choice) : Pc → Option Outcome
  | .lockOffset =>
    match call.request.file? with
    | none => none
    | some file =>
      match kernel.offsets file with
      | some _ => none
      | none =>
        let next := if (call.request.pipeIo kernel.files).isSome then Pc.markPipe else .unlockOffset
        some ⟨kernel.setOffset file (some self), { call with guard := some (file, interrupts) },
          .goto false next⟩
  | .markPipe =>
    some ⟨{ kernel with sched := kernel.sched.markCurrentBlocked }, call,
      .goto interrupts .pipeSection⟩
  | .pipeSection =>
    match call.request.pipeIo kernel.files with
    | none => none
    | some io =>
      match io.runSection (kernel.pipes io.pipe) call.callerPid with
      | (none, buffer) =>
        some ⟨kernel.setPipe io.pipe buffer, call, .goto interrupts .unlockOffset⟩
      | (some (toWake, shouldSwitch, done), buffer) =>
        some ⟨kernel.setPipe io.pipe buffer, call,
          .goto interrupts (.wake toWake shouldSwitch done)⟩
  | .wake pids shouldSwitch done =>
    let next := if shouldSwitch && !done then Pc.switchOut else .settle done
    some ⟨{ kernel with sched := kernel.sched.wakeTasks pids }, call, .goto interrupts next⟩
  | .settle done =>
    let next := if done then Pc.unlockOffset else .markPipe
    some ⟨{ kernel with sched := kernel.sched.markCurrentRunning }, call, .goto interrupts next⟩
  | .removeWaiter =>
    match call.request.pipeIo kernel.files with
    | none => none
    | some io =>
      let buffer := io.unregister (kernel.pipes io.pipe) call.callerPid
      some ⟨kernel.setPipe io.pipe buffer, call, .goto interrupts .unlockOffset⟩
  | .unlockOffset =>
    match call.guard with
    | none => none
    | some (file, saved) =>
      some ⟨kernel.setOffset file none, { call with guard := none }, .goto saved .deliver⟩
  | .snapshot =>
    match call.request with
    | .wait4 pid _ =>
      let candidates := kernel.candidates pid
      let next := if pid > 0 ∧ candidates = [] then Pc.release false
        else .inspect candidates candidates false
      some ⟨kernel, call, .goto interrupts next⟩
    | _ => none
  | .inspect candidates rest hasChildren =>
    match rest, call.request with
    | (pid, handle) :: rest, _ =>
      let proc := kernel.sched.procs handle
      let next :=
        if proc.ppid = call.callerPid then
          if proc.state = .zombie then Pc.reap pid (encodeWaitStatus proc)
          else .inspect candidates rest true
        else .inspect candidates rest hasChildren
      some ⟨kernel, call, .goto interrupts next⟩
    | [], .wait4 _ options =>
      let next := if ¬ hasChildren ∨ options &&& wnohang ≠ 0 then Pc.release false
        else .markWait candidates
      some ⟨kernel, call, .goto interrupts next⟩
    | [], _ => none
  | .markWait candidates =>
    some ⟨{ kernel with sched := kernel.sched.markCurrentBlocked }, call,
      .goto interrupts (.recheck candidates)⟩
  | .recheck rest =>
    match rest with
    | (pid, handle) :: rest =>
      let proc := kernel.sched.procs handle
      let next :=
        if proc.ppid = call.callerPid ∧ proc.state = .zombie then
          Pc.settleFound pid (encodeWaitStatus proc)
        else .recheck rest
      some ⟨kernel, call, .goto interrupts next⟩
    | [] => some ⟨kernel, call, .goto interrupts .switchOut⟩
  | .settleFound target status =>
    some ⟨{ kernel with sched := kernel.sched.markCurrentRunning }, call,
      .goto interrupts (.reap target status)⟩
  | .reap target status =>
    let sched := { kernel.sched with table := kernel.sched.table.remove target }
    some ⟨{ kernel with sched }, call, .goto interrupts (.cleanup target status)⟩
  | .cleanup target _ =>
    some ⟨{ kernel with signals := kernel.signals.cleanupProcess target }, call,
      .goto interrupts (.release false)⟩
  | .release again =>
    match choice with
    | .drop side pipe =>
      let (toWake, buffer) := side.drop (kernel.pipes pipe)
      some ⟨kernel.setPipe pipe buffer, call, .goto interrupts (.dropWake toWake again)⟩
    | _ =>
      let next := if again then Pc.snapshot else .deliver
      some ⟨kernel, call, .goto interrupts next⟩
  | .dropWake pids again =>
    some ⟨{ kernel with sched := kernel.sched.wakeTasks pids }, call,
      .goto interrupts (.release again)⟩
  | .switchOut => some ⟨kernel, call, .switchOut .sti .resumed⟩
  | .sti => some ⟨kernel, { call with switched := true }, .goto true .resumed⟩
  | .resumed =>
    some ⟨{ kernel with sched := kernel.sched.markCurrentRunning }, call,
      .goto interrupts .checkSignals⟩
  | .checkSignals =>
    let interrupted := kernel.signals.hasUnblockedSignals call.callerPid
    let next :=
      match call.request with
      | .wait4 .. => Pc.release !interrupted
      | _ => if interrupted then .removeWaiter else .markPipe
    some ⟨kernel, call, .goto interrupts next⟩
  | .exitMark code killedBySig =>
    some ⟨{ kernel with sched := kernel.sched.markZombie self code killedBySig }, call,
      .goto interrupts (.exitWake (kernel.sched.procs self).ppid)⟩
  | .exitWake ppid =>
    some ⟨{ kernel with sched := kernel.sched.wakeParent ppid }, call, .goto interrupts .exitLoop⟩
  | .exitLoop => some ⟨kernel, call, .switchOut .exitSti .exitLoop⟩
  | .exitSti => some ⟨kernel, { call with switched := true }, .goto true .exitLoop⟩
  | .act =>
    let (after, next) := kernel.runAct self choice call.request
    some ⟨after, call, .goto interrupts next⟩
  -- `sys_close` still holds the lock of its own process here.
  | .closeWake pids =>
    if pids.any fun pid => kernel.sched.table.get pid = some self then none
    else some ⟨{ kernel with sched := kernel.sched.wakeTasks pids }, call,
      .goto interrupts .deliver⟩
  | .yield => some ⟨kernel, call, .yield .yieldSti .deliver⟩
  | .yieldSti => some ⟨kernel, { call with switched := true }, .goto true .deliver⟩
  | .deliver =>
    match kernel.deliverSignals choice.stackOk with
    | (after, none) => some ⟨after, call, .goto interrupts .popRsp⟩
    | (after, some sig) => some ⟨after, call, .goto interrupts (.exitMark (sig % 128) (some sig))⟩
  | .popRsp => some ⟨kernel, call, .goto interrupts .swapgs⟩
  | .swapgs => some ⟨kernel, call, .swapgs .sysretq⟩
  | .sysretq => some ⟨kernel, call, .sysret⟩

end RustPosix.Sched
