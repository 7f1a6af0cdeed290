import RustPosix.Vfs.Pipe

/-! Processes and the round-robin scheduler of `services/process/mod.rs` and
`services/scheduler/mod.rs`. A process is named by its handle, which stands for the
shared reference to its control block; its `pid` is a field like the others. -/

namespace RustPosix.Sched

open Vfs

abbrev Handle := Nat

inductive ProcessState where
  | ready
  | running
  | blocked
  | zombie
  deriving DecidableEq, Repr

/-- The fields of a control block that scheduling, waiting and exiting use. -/
structure Process where
  pid : Pid
  ppid : Pid
  state : ProcessState
  exitCode : Int
  killedBySig : Option Int
  deriving DecidableEq, Repr

def Process.new (pid ppid : Pid) : Process := ⟨pid, ppid, .ready, 0, none⟩

/-- `PROCESS_TABLE`, in the order in which it is iterated. -/
abbrev ProcessTable := List (Pid × Handle)

namespace ProcessTable

def get (table : ProcessTable) (pid : Pid) : Option Handle := table.lookup pid

/-- Put an entry into its place, replacing one with the same key. -/
def insert (pid : Pid) (handle : Handle) : ProcessTable → ProcessTable
  | [] => [(pid, handle)]
  | (key, other) :: rest =>
    if pid < key then (pid, handle) :: (key, other) :: rest
    else if pid = key then (pid, handle) :: rest
    else (key, other) :: insert pid handle rest

def remove (pid : Pid) (table : ProcessTable) : ProcessTable :=
  table.filter fun entry => entry.1 ≠ pid

end ProcessTable

/-- The statics of the scheduler and the control blocks behind the handles below `created`. -/
structure Scheduler where
  procs : Handle → Process
  created : Nat
  table : ProcessTable
  readyQueue : List Handle
  current : Option Handle
  idle : Option Handle
  currentPid : Pid
  nextPid : Int

namespace Scheduler

def modifyProc (sched : Scheduler) (handle : Handle) (change : Process → Process) : Scheduler :=
  { sched with procs := Function.update sched.procs handle (change (sched.procs handle)) }

def stateOf (sched : Scheduler) (handle : Handle) : ProcessState := (sched.procs handle).state

def setState (sched : Scheduler) (handle : Handle) (state : ProcessState) : Scheduler :=
  sched.modifyProc handle fun proc => { proc with state }

def addTask (sched : Scheduler) (handle : Handle) : Scheduler :=
  { sched with readyQueue := sched.readyQueue ++ [handle] }

def markCurrentBlocked (sched : Scheduler) : Scheduler :=
  match sched.current with
  | none => sched
  | some handle =>
    if sched.stateOf handle = .running then sched.setState handle .blocked else sched

def markCurrentRunning (sched : Scheduler) : Scheduler :=
  match sched.current with
  | none => sched
  | some handle =>
    if sched.stateOf handle = .blocked then sched.setState handle .running else sched

/-- The body of the loop of `wake_tasks`. -/
def wakeTask (sched : Scheduler) (pid : Pid) : Scheduler :=
  match sched.table.get pid with
  | none => sched
  | some handle =>
    if sched.stateOf handle = .blocked then (sched.setState handle .ready).addTask handle
    else sched

def wakeTasks (sched : Scheduler) (pids : List Pid) : Scheduler := pids.foldl wakeTask sched

/-- Make a process the current one. -/
def dispatch (sched : Scheduler) (next : Handle) : Scheduler :=
  { sched.setState next .running with
    current := some next
    currentPid := (sched.procs next).pid }

/-- Put the outgoing process back into the queue, if it is still running. -/
def requeue (sched : Scheduler) (prev : Handle) : Scheduler :=
  if sched.stateOf prev = .running then (sched.setState prev .ready).addTask prev else sched

/-- The outgoing and the incoming process of a switch. -/
structure Switch where
  prev : Handle
  next : Handle
  deriving DecidableEq, Repr

def switchOutCurrent (sched : Scheduler) : Option Switch × Scheduler :=
  match sched.current with
  | none => (none, sched)
  | some prev =>
    match sched.readyQueue with
    | next :: rest => (some ⟨prev, next⟩, { sched with readyQueue := rest }.dispatch next)
    | [] =>
      match sched.idle with
      | some idle => (some ⟨prev, idle⟩, sched.dispatch idle)
      | none =>
        (none, if sched.stateOf prev = .blocked then sched.setState prev .running else sched)

def scheduleYield (sched : Scheduler) : Option Switch × Scheduler :=
  match sched.current, sched.readyQueue with
  | some prev, next :: rest =>
    (some ⟨prev, next⟩, ({ sched with readyQueue := rest }.requeue prev).dispatch next)
  | _, _ => (none, sched)

/-- The process that a timer tick switches to, if any. -/
def timerTickSchedule (sched : Scheduler) : Option Handle × Scheduler :=
  match sched.readyQueue with
  | [] => (none, sched)
  | next :: rest =>
    let popped := { sched with readyQueue := rest }
    let requeued := match sched.current with
      | some prev => popped.requeue prev
      | none => popped
    (some next, requeued.dispatch next)

/-- The value of a 32-bit signed integer. -/
def wrapI32 (value : Int) : Int := (value + 2 ^ 31) % 2 ^ 32 - 2 ^ 31

def allocPid (sched : Scheduler) : Pid × Scheduler :=
  let pid := sched.nextPid
  if pid ≤ 0 then (2, { sched with nextPid := 2 })
  else (pid, { sched with nextPid := wrapI32 (pid + 1) })

/-- Register a child of the current process and enqueue it. -/
def spawn (sched : Scheduler) (childPid parentPid : Pid) : Scheduler :=
  let child := sched.created
  { sched with
    procs := Function.update sched.procs child (.new childPid parentPid)
    created := child + 1
    table := sched.table.insert childPid child
    readyQueue := sched.readyQueue ++ [child] }

/-- The current process has ended, with an exit code or by a signal. -/
def markZombie (sched : Scheduler) (handle : Handle) (exitCode : Int) (killedBySig : Option Int) :
    Scheduler :=
  sched.modifyProc handle fun proc => { proc with state := .zombie, exitCode, killedBySig }

/-- The parent of a process that has ended is woken. -/
def wakeParent (sched : Scheduler) (ppid : Pid) : Scheduler :=
  if ppid > 0 then sched.wakeTasks [ppid] else sched

end Scheduler

/-- The status word of `wait4`. -/
def encodeWaitStatus (proc : Process) : Int :=
  match proc.killedBySig with
  | some sig => sig % 128
  | none => (proc.exitCode % 256) * 256

end RustPosix.Sched
