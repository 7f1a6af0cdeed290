import RustPosix.Sched.Frames
import RustPosix.Sched.SchedulerSteps

/-! What one step of the machine can do to the processes and to the signals, once for all:
every invariant about them goes through these few cases. -/

namespace RustPosix.Sched

open Library Vfs Ipc

/-- What a section does to the scheduler and to the signals. -/
inductive Change (kernel : Kernel) (self : Handle) (call : Call) : Pc → Kernel → Prop where
  | quiet {pc : Pc} {after : Kernel} (sched : after.sched = kernel.sched)
      (signals : after.signals = kernel.signals) : Change kernel self call pc after
  | blocks {pc : Pc} :
      Change kernel self call pc { kernel with sched := kernel.sched.markCurrentBlocked }
  | runs {pc : Pc} :
      Change kernel self call pc { kernel with sched := kernel.sched.markCurrentRunning }
  | wakes {pc : Pc} (pids : List Pid) :
      Change kernel self call pc { kernel with sched := kernel.sched.wakeTasks pids }
  | ends (code : Int) (killedBySig : Option Int) :
      Change kernel self call (.exitMark code killedBySig)
        { kernel with sched := kernel.sched.markZombie self code killedBySig }
  | reaps (target : Pid) (status : Int) :
      Change kernel self call (.reap target status)
        { kernel with sched := { kernel.sched with table := kernel.sched.table.remove target } }
  | cleans (target : Pid) (status : Int) :
      Change kernel self call (.cleanup target status)
        { kernel with signals := kernel.signals.cleanupProcess target }
  | forks (request : call.request = .fork) : Change kernel self call .act (kernel.sysFork self)
  | kills (pid : Pid) (sig : Int) (request : call.request = .kill pid sig) :
      Change kernel self call .act (kernel.sysKill pid sig)
  | acts (sig : Int) (act : SigAction) :
      Change kernel self call .act
        { kernel with signals := kernel.signals.setAction kernel.sched.currentPid sig act }
  | masks (how : MaskChange) (set : SigSet) :
      Change kernel self call .act
        { kernel with signals := kernel.signals.setProcmask kernel.sched.currentPid how set }
  | delivers (stackOk : Bool) :
      Change kernel self call .deliver (kernel.deliverSignals stackOk).1

section Exec

variable {kernel : Kernel} {self : Handle} {interrupts : Bool} {call : Call} {choice : Choice}
  {pc : Pc} {outcome : Outcome}

theorem runAct_change :
    Change kernel self call .act (kernel.runAct self choice call.request).1 := by
  cases request : call.request with
  | fork =>
    cases choice with
    | fail => exact .quiet rfl rfl
    | _ => exact .forks request
  | kill pid sig => exact .kills pid sig request
  | close dropped =>
    cases dropped with
    | none => exact .quiet rfl rfl
    | some ended => exact .quiet rfl rfl
  | rtSigaction sig act => exact .acts sig act
  | rtSigprocmask how set => exact .masks how set
  | rtSigreturn set => exact .masks .setMask set
  | _ => exact .quiet rfl rfl

theorem exec_change (next : kernel.exec self interrupts call choice pc = some outcome) :
    Change kernel self call pc outcome.kernel := by
  cases pc with
  | act =>
    cases next
    exact runAct_change
  | deliver =>
    simp only [Kernel.exec] at next
    split at next
    all_goals
      rename_i delivered
      cases next
      have change : Change kernel self call .deliver _ := .delivers choice.stackOk
      rwa [delivered] at change
  | markPipe | markWait =>
    cases next
    exact .blocks
  | settle | settleFound | resumed =>
    cases next
    exact .runs
  | wake pids | dropWake pids =>
    cases next
    exact .wakes pids
  | closeWake pids =>
    simp only [Kernel.exec] at next
    split at next
    · cases next
    · cases next
      exact .wakes pids
  | exitWake ppid =>
    cases next
    dsimp only [Scheduler.wakeParent]
    split
    · exact .wakes [ppid]
    · exact .quiet rfl rfl
  | exitMark code killedBySig =>
    cases next
    exact .ends code killedBySig
  | reap target status =>
    cases next
    exact .reaps target status
  | cleanup target status =>
    cases next
    exact .cleans target status
  | _ =>
    simp only [Kernel.exec] at next
    repeat' split at next
    all_goals cases next <;> exact .quiet rfl rfl

end Exec

namespace Scheduler

/-- Nobody is created, removed or ended. -/
structure Calm (before after : Scheduler) : Prop extends KeepsIds before after where
  nextPid : after.nextPid = before.nextPid
  alive : ∀ handle, after.stateOf handle = .zombie → before.stateOf handle = .zombie
  exitCode : ∀ handle, (after.procs handle).exitCode = (before.procs handle).exitCode
  killedBySig : ∀ handle, (after.procs handle).killedBySig = (before.procs handle).killedBySig

namespace Calm

variable {first second third : Scheduler}

theorem refl (sched : Scheduler) : Calm sched sched :=
  ⟨.refl sched, rfl, fun _ => id, fun _ => rfl, fun _ => rfl⟩

theorem trans (before : Calm first second) (after : Calm second third) : Calm first third :=
  ⟨before.toKeepsIds.trans after.toKeepsIds, after.nextPid.trans before.nextPid,
    fun handle ended => before.alive handle (after.alive handle ended),
    fun handle => (after.exitCode handle).trans (before.exitCode handle),
    fun handle => (after.killedBySig handle).trans (before.killedBySig handle)⟩

/-- The queue and the current process do not matter. -/
theorem moves (calm : Calm first second) (procs : third.procs = second.procs)
    (created : third.created = second.created) (table : third.table = second.table)
    (idle : third.idle = second.idle) (nextPid : third.nextPid = second.nextPid) :
    Calm first third where
  created := created.trans calm.created
  table := table.trans calm.table
  idle := idle.trans calm.idle
  pid handle := procs ▸ calm.pid handle
  ppid handle := procs ▸ calm.ppid handle
  nextPid := nextPid.trans calm.nextPid
  alive handle ended := calm.alive handle (by rwa [stateOf, procs] at ended)
  exitCode handle := procs ▸ calm.exitCode handle
  killedBySig handle := procs ▸ calm.killedBySig handle

theorem setState (calm : Calm first second) (handle : Handle) (state : ProcessState)
    (goesOn : state ≠ .zombie) : Calm first (second.setState handle state) := by
  refine calm.trans ⟨(keepsCurrent_setState second handle state).toKeepsIds, rfl, ?_, ?_, ?_⟩
  · intro other ended
    by_cases same : other = handle
    · subst same
      rw [stateOf_setState_self] at ended
      exact absurd ended goesOn
    · rwa [stateOf_setState_of_ne _ _ _ _ same] at ended
  all_goals
    intro other
    simp only [Scheduler.setState, modifyProc, Function.update_apply]
    split
    · rename_i same
      rw [same]
    · rfl

theorem addTask (calm : Calm first second) (handle : Handle) : Calm first (second.addTask handle) :=
  calm.moves rfl rfl rfl rfl rfl

theorem dispatch (calm : Calm first second) (next : Handle) : Calm first (second.dispatch next) :=
  (calm.setState next .running nofun).moves rfl rfl rfl rfl rfl

theorem requeue (calm : Calm first second) (prev : Handle) : Calm first (second.requeue prev) := by
  unfold Scheduler.requeue
  split
  · exact (calm.setState prev .ready nofun).addTask prev
  · exact calm

end Calm

section Operations

variable (sched : Scheduler)

theorem markCurrentBlocked_calm : Calm sched sched.markCurrentBlocked := by
  fun_cases markCurrentBlocked sched
  · exact .refl sched
  · exact (Calm.refl sched).setState _ _ nofun
  · exact .refl sched

theorem markCurrentRunning_calm : Calm sched sched.markCurrentRunning := by
  fun_cases markCurrentRunning sched
  · exact .refl sched
  · exact (Calm.refl sched).setState _ _ nofun
  · exact .refl sched

theorem wakeTasks_calm (pids : List Pid) : Calm sched (sched.wakeTasks pids) := by
  induction pids generalizing sched with
  | nil => exact .refl sched
  | cons pid rest ih =>
    have first : Calm sched (sched.wakeTask pid) := by
      fun_cases wakeTask sched pid
      · exact .refl sched
      · exact ((Calm.refl sched).setState _ .ready nofun).addTask _
      · exact .refl sched
    exact first.trans (ih _)

theorem wakeParent_calm (ppid : Pid) : Calm sched (sched.wakeParent ppid) := by
  unfold wakeParent
  split
  · exact wakeTasks_calm sched [ppid]
  · exact .refl sched

/-- A scheduler whose queue has lost its head. -/
theorem popped_calm (rest : List Handle) : Calm sched { sched with readyQueue := rest } :=
  (Calm.refl sched).moves rfl rfl rfl rfl rfl

theorem switchOutCurrent_calm : Calm sched sched.switchOutCurrent.2 := by
  fun_cases switchOutCurrent sched
  · exact .refl sched
  · exact (popped_calm sched _).dispatch _
  · exact (Calm.refl sched).dispatch _
  · dsimp only
    split
    · exact (Calm.refl sched).setState _ _ nofun
    · exact .refl sched

theorem scheduleYield_calm : Calm sched sched.scheduleYield.2 := by
  fun_cases scheduleYield sched
  · exact ((popped_calm sched _).requeue _).dispatch _
  · exact .refl sched

theorem timerTickSchedule_calm : Calm sched sched.timerTickSchedule.2 := by
  unfold timerTickSchedule
  split
  · exact .refl sched
  · rename_i next rest _
    refine Calm.dispatch ?_ next
    split
    · exact (popped_calm sched rest).requeue _
    · exact popped_calm sched rest

end Operations

end Scheduler

namespace Machine

/-- The process that a step ends. -/
def victim (machine : Machine) : Event → Option Handle
  | .syscall _ => none
  | .run _ =>
    match machine.ctx with
    | .kernel _ (.exitMark ..) => machine.kernel.sched.current
    | _ => none
  | .tick stackOk => tickVictim machine.kernel ⟨machine.ctx, true⟩ stackOk

/-- What a step does to the processes, between moves that create, remove and end nobody. -/
inductive Turn (machine : Machine) (event : Event) (after : Scheduler) : Prop where
  | calm (calm : machine.kernel.sched.Calm after)
  | ends (self : Handle) (victim : machine.victim event = some self) (middle : Scheduler)
      (before : machine.kernel.sched.Calm middle) (code : Int) (killedBySig : Option Int)
      (calm : (middle.markZombie self code killedBySig).Calm after)
  | reaps (choice : Choice) (run : event = .run choice) (call : Call) (target : Pid) (status : Int)
      (inside : machine.ctx = .kernel call (.reap target status))
      (calm : Scheduler.Calm
        { machine.kernel.sched with table := machine.kernel.sched.table.remove target } after)
  | forks (choice : Choice) (run : event = .run choice) (call : Call) (self : Handle)
      (inside : machine.ctx = .kernel call .act)
      (request : call.request = .fork) (current : machine.kernel.sched.current = some self)
      (calm : (machine.kernel.sysFork self).sched.Calm after)

end Machine

section Step

variable {machine after : Machine} {event : Event} {kernel : Kernel}

theorem switchTasks_sched (machine : Machine) (call : Call) (resume stay : Pc)
    (switch : Option Scheduler.Switch × Scheduler) :
    (machine.switchTasks call resume stay switch).kernel.sched = switch.2 := by
  obtain ⟨switch, sched⟩ := switch
  cases switch with
  | none => rfl
  | some pair => rfl

theorem applyMove_calm (machine : Machine) (outcome : Outcome) :
    outcome.kernel.sched.Calm (machine.applyMove outcome).kernel.sched := by
  obtain ⟨kernel, call, move⟩ := outcome
  cases move with
  | switchOut resume stay =>
    simp only [Machine.applyMove, switchTasks_sched]
    exact Scheduler.switchOutCurrent_calm kernel.sched
  | yield resume stay =>
    simp only [Machine.applyMove, switchTasks_sched]
    exact Scheduler.scheduleYield_calm kernel.sched
  | _ => exact .refl _

theorem tickSchedule_calm (kernel : Kernel) (frame : Frame) :
    kernel.sched.Calm (Machine.tickSchedule kernel frame).1.sched := by
  have calm := Scheduler.timerTickSchedule_calm kernel.sched
  unfold Machine.tickSchedule
  generalize kernel.sched.timerTickSchedule = result at calm
  obtain ⟨next, sched⟩ := result
  cases next with
  | none => exact calm
  | some next => exact calm

theorem terminate_sched {self : Handle} (current : kernel.sched.current = some self) (sig : Int) :
    (Machine.terminate kernel sig).sched =
      (kernel.sched.markZombie self (sig % 128) (some sig)).wakeParent
        (kernel.sched.procs self).ppid := by
  unfold Machine.terminate
  rw [current]

/-- What a tick does to the processes. -/
theorem timerTick_calm (kernel : Kernel) (frame : Frame) (stackOk : Bool) :
    kernel.sched.Calm (Machine.timerTick kernel frame stackOk).1.sched ∨
      ∃ self middle code killedBySig, Machine.tickVictim kernel frame stackOk = some self ∧
        kernel.sched.Calm middle ∧ (middle.markZombie self code killedBySig).Calm
          (Machine.timerTick kernel frame stackOk).1.sched := by
  have first := tickSchedule_calm kernel frame
  have ticked := Machine.timerTick_ticked kernel frame stackOk
  generalize Machine.tickVictim kernel frame stackOk = victim at ticked
  generalize Machine.timerTick kernel frame stackOk = result at ticked
  cases ticked with
  | scheduled => exact .inl first
  | delivered => exact .inl first
  | ended signals sig =>
    generalize Machine.tickSchedule kernel frame = scheduled at first
    obtain ⟨scheduled, next⟩ := scheduled
    have second := tickSchedule_calm (Machine.terminate { scheduled with signals } sig) next
    cases current : scheduled.sched.current with
    | none =>
      have idle : (Machine.terminate { scheduled with signals } sig).sched = scheduled.sched := by
        simp only [Machine.terminate, current]
      exact .inl (first.trans (idle ▸ second))
    | some self =>
      rw [@terminate_sched { scheduled with signals } self current] at second
      exact .inr ⟨self, scheduled.sched, sig % 128, some sig, rfl, first,
        (Scheduler.wakeParent_calm _ _).trans second⟩

theorem deliverSignals_sched (kernel : Kernel) (stackOk : Bool) :
    (kernel.deliverSignals stackOk).1.sched = kernel.sched := by
  fun_cases Kernel.deliverSignals kernel stackOk
  all_goals rfl

theorem sysKill_calm (kernel : Kernel) (pid : Pid) (sig : Int) :
    kernel.sched.Calm (kernel.sysKill pid sig).sched := by
  fun_cases Kernel.sysKill kernel pid sig
  · exact .refl _
  · exact .refl _
  · exact Scheduler.wakeTasks_calm _ _

theorem sysFork_sched (kernel : Kernel) (self : Handle) :
    ∃ nextPid, (kernel.sysFork self).sched =
      { kernel.sched.spawn kernel.sched.allocPid.1 (kernel.sched.procs self).pid with nextPid } := by
  simp only [Kernel.sysFork, Scheduler.allocPid]
  split
  · exact ⟨_, rfl⟩
  · exact ⟨_, rfl⟩

theorem sysFork_created {kernel : Kernel} (self : Handle) :
    (kernel.sysFork self).sched.created = kernel.sched.created + 1 := by
  obtain ⟨nextPid, forked⟩ := sysFork_sched kernel self
  rw [forked]
  rfl

theorem step_turn (next : machine.step event = some after) :
    machine.Turn event after.kernel.sched := by
  cases event with
  | syscall request =>
    simp only [Machine.step] at next
    split at next
    · cases next
      exact .calm (.refl _)
    · cases next
  | run choice =>
    simp only [Machine.step] at next
    split at next
    · rename_i call pc self inside current
      obtain ⟨outcome, ran, rfl⟩ := Option.map_eq_some_iff.mp next
      have moved := applyMove_calm machine outcome
      have change := exec_change ran
      generalize outcome.kernel = kernel at change moved
      cases change with
      | quiet sched signals => exact .calm (sched ▸ moved)
      | blocks => exact .calm ((Scheduler.markCurrentBlocked_calm _).trans moved)
      | runs => exact .calm ((Scheduler.markCurrentRunning_calm _).trans moved)
      | wakes pids => exact .calm ((Scheduler.wakeTasks_calm _ pids).trans moved)
      | ends code killedBySig =>
        refine .ends self ?_ machine.kernel.sched (.refl _) code killedBySig moved
        simp only [Machine.victim, inside, current]
      | reaps target status => exact .reaps choice rfl call target status inside moved
      | cleans target status => exact .calm moved
      | forks request => exact .forks choice rfl call self inside request current moved
      | kills pid sig request => exact .calm ((sysKill_calm _ pid sig).trans moved)
      | acts sig act => exact .calm moved
      | masks how set => exact .calm moved
      | delivers stackOk =>
        rw [deliverSignals_sched] at moved
        exact .calm moved
    · cases next
  | tick stackOk =>
    simp only [Machine.step] at next
    split at next
    · cases next
      rcases timerTick_calm machine.kernel ⟨machine.ctx, true⟩ stackOk with
        calm | ⟨self, middle, code, killedBySig, victim, before, calm⟩
      · exact .calm calm
      · exact .ends self victim middle before code killedBySig calm
    · cases next

end Step

end RustPosix.Sched
