import RustPosix.Library.Run
import RustPosix.Sched.Kernel

/-! The processor that runs the kernel: system calls, context switches and timer ticks of
`ostd/arch/x86_64` and `ostd/task/mod.rs` on one CPU. -/

namespace RustPosix.Sched

open Library Vfs Ipc

/-- What a GS base register holds. -/
inductive GsBase where
  | user
  | perCpu
  deriving DecidableEq, Repr

structure Machine where
  kernel : Kernel
  ctx : Ctx
  interrupts : Bool
  gsBase : GsBase
  kernelGsBase : GsBase

/-- The timer interrupts with whether the user stack has room for the frame of a handler. -/
inductive Event where
  | syscall (request : Request)
  | run (choice : Choice)
  | tick (stackOk : Bool)

namespace Machine

def swapGs (machine : Machine) : Machine :=
  { machine with gsBase := machine.kernelGsBase, kernelGsBase := machine.gsBase }

def resume (machine : Machine) (frame : Frame) : Machine :=
  { machine with ctx := frame.ctx, interrupts := frame.interrupts }

/-- `switch_tasks`: the incoming frame has been read before the outgoing one is written. -/
def switchTasks (machine : Machine) (call : Call) (resume stay : Pc) :
    Option Scheduler.Switch × Scheduler → Machine
  | (none, sched) =>
    { machine with kernel := { machine.kernel with sched }, ctx := .kernel call stay }
  | (some ⟨prev, next⟩, sched) =>
    let kernel := { machine.kernel with
      sched
      frames := Function.update machine.kernel.frames prev ⟨.kernel call resume, false⟩ }
    { machine with kernel }.resume (machine.kernel.frames next)

def applyMove (machine : Machine) (outcome : Outcome) : Machine :=
  let after := { machine with kernel := outcome.kernel }
  match outcome.move with
  | .goto interrupts pc => { after with ctx := .kernel outcome.call pc, interrupts }
  | .switchOut resume stay =>
    after.switchTasks outcome.call resume stay outcome.kernel.sched.switchOutCurrent
  | .yield resume stay =>
    after.switchTasks outcome.call resume stay outcome.kernel.sched.scheduleYield
  | .swapgs pc => { after.swapGs with ctx := .kernel outcome.call pc }
  | .sysret => { after with ctx := .user, interrupts := true }

/-- The saved frames once that of the current process is written. -/
def saveCurrent (kernel : Kernel) (frame : Frame) : Handle → Frame :=
  match kernel.sched.current with
  | some prev => Function.update kernel.frames prev frame
  | none => kernel.frames

/-- `timer_tick_schedule` for the frame that the interrupt has pushed: the outgoing frame is
written before the incoming one is read. -/
def tickSchedule (kernel : Kernel) (frame : Frame) : Kernel × Frame :=
  match kernel.sched.timerTickSchedule with
  | (none, sched) => ({ kernel with sched }, frame)
  | (some next, sched) =>
    let frames := saveCurrent kernel frame
    ({ kernel with sched, frames }, frames next)

/-- `terminate_cpu_bound_task` -/
def terminate (kernel : Kernel) (sig : Int) : Kernel :=
  match kernel.sched.current with
  | none => { kernel with signals := kernel.signals.cleanupProcess kernel.sched.currentPid }
  | some self =>
    let zombie := kernel.sched.markZombie self (sig % 128) (some sig)
    { kernel with
      sched := zombie.wakeParent (kernel.sched.procs self).ppid
      signals := kernel.signals.cleanupProcess kernel.sched.currentPid }

/-- `rust_timer_tick_handler` -/
def timerTick (kernel : Kernel) (frame : Frame) (stackOk : Bool) : Kernel × Frame :=
  let (scheduled, next) := tickSchedule kernel frame
  match next.ctx with
  | .user =>
    if scheduled.sched.currentPid > 0 ∧
        scheduled.signals.hasUnblockedSignals scheduled.sched.currentPid then
      match scheduled.deliverSignals stackOk with
      | (delivered, none) => (delivered, next)
      | (delivered, some sig) => tickSchedule (terminate delivered sig) next
    else (scheduled, next)
  | _ => (scheduled, next)

def step (machine : Machine) : Event → Option Machine
  | .syscall request =>
    match machine.ctx, machine.kernel.sched.current with
    | .user, some self =>
      let call : Call := ⟨request, machine.kernel.callerPid self request, none, false⟩
      some { machine.swapGs with ctx := .kernel call request.entry, interrupts := false }
    | _, _ => none
  | .run choice =>
    match machine.ctx, machine.kernel.sched.current with
    | .kernel call pc, some self =>
      (machine.kernel.exec self machine.interrupts call choice pc).map machine.applyMove
    | _, _ => none
  | .tick stackOk =>
    if machine.interrupts then
      let (kernel, frame) := timerTick machine.kernel ⟨machine.ctx, true⟩ stackOk
      some ({ machine with kernel }.resume frame)
    else none

end Machine

/-- The scheduler as `services_init` leaves it: PID 1 is current, PID 0 is the idle task. -/
def Scheduler.boot : Scheduler where
  procs handle := if handle = 0 then .new 1 0 else .new 0 0
  created := 2
  table := [(0, 1), (1, 0)]
  readyQueue := []
  current := some 0
  idle := some 1
  currentPid := 1
  nextPid := 1

/-- Boot has entered ring 3 with the first process; no file is a pipe end until it is
opened, so that which files will be pipe ends is given here. -/
def Machine.boot (files : FileId → FileHandle) : Machine where
  kernel :=
    { sched := .boot
      frames := fun handle => if handle = 1 then ⟨.idle, true⟩ else ⟨.user, true⟩
      files
      offsets := fun _ => none
      pipes := fun _ => .new
      signals := .new }
  ctx := .user
  interrupts := true
  gsBase := .user
  kernelGsBase := .perCpu

end RustPosix.Sched
