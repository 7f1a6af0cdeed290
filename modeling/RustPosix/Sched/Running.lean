import RustPosix.Sched.Frames
import RustPosix.Sched.SchedulerSteps

/-! The current process is marked running, except between the marks of a blocking loop. -/

namespace RustPosix.Sched

open Library Vfs Ipc

/-- The points of a blocking loop at which the process has been marked blocked. -/
def Pc.marked : Pc → Bool
  | .pipeSection | .wake .. | .settle _ | .recheck _ | .settleFound .. | .switchOut => true
  | _ => false

def Ctx.marked : Ctx → Bool
  | .kernel _ pc => pc.marked
  | _ => false

/-- The section of a pipe returns from inside: end of file, no reader left, or nothing to do
for a call that must not block. -/
def PipeIo.EndsEarly (buffer : PipeBuffer) : PipeIo → Prop
  | .read _ _ flags =>
    buffer.len = 0 ∧ (buffer.writersOpen = 0 ∨ flags &&& oNonblock ≠ 0)
  | .write _ _ flags =>
    buffer.readersOpen = 0 ∨ (buffer.len = 4096 ∧ flags &&& oNonblock ≠ 0)

theorem readSection_leave {buffer : PipeBuffer} {wanted : Nat} {flags : BitVec 32}
    {callerPid : Pid} {result : Except Int (List Byte)}
    (left : (buffer.readSection wanted flags callerPid).1 = .leave result) :
    buffer.len = 0 ∧ (buffer.writersOpen = 0 ∨ flags &&& oNonblock ≠ 0) := by
  unfold PipeBuffer.readSection at left
  dsimp only at left
  split at left
  · rename_i empty
    split at left
    · exact ⟨empty, .inl (by assumption)⟩
    · split at left
      · exact ⟨empty, .inr (by assumption)⟩
      · split at left
        · cases left
        · cases left
  · split at left
    · cases left
    · cases left

theorem writeSection_leave {buffer : PipeBuffer} {bytes : List Byte} {flags : BitVec 32}
    {callerPid : Pid} {result : Except Int Nat}
    (left : (buffer.writeSection bytes flags callerPid).1 = .leave result) :
    buffer.readersOpen = 0 ∨ (buffer.len = 4096 ∧ flags &&& oNonblock ≠ 0) := by
  unfold PipeBuffer.writeSection at left
  dsimp only at left
  split at left
  · exact .inl (by assumption)
  · split at left
    · rename_i space
      have full : buffer.len = 4096 := by
        have fits := buffer.fits
        change 4096 - buffer.len = 0 at space
        change buffer.len ≤ 4096 at fits
        omega
      split at left
      · exact .inr ⟨full, by assumption⟩
      · split at left
        · cases left
        · cases left
    · split at left
      · cases left
      · cases left

theorem endsEarly_of_runSection {io : PipeIo} {buffer after : PipeBuffer} {callerPid : Pid}
    (left : io.runSection buffer callerPid = (none, after)) : io.EndsEarly buffer := by
  cases io with
  | read pipe wanted flags =>
    simp only [PipeIo.runSection] at left
    split at left
    · rename_i result _ ran
      exact readSection_leave (congrArg Prod.fst ran)
    · cases left
  | write pipe bytes flags =>
    simp only [PipeIo.runSection] at left
    split at left
    · rename_i result _ ran
      exact writeSection_leave (congrArg Prod.fst ran)
    · cases left

/-- A process that is marked blocked neither returns from the section of a pipe nor is woken
by itself. -/
def Machine.Careful (machine : Machine) : Event → Prop
  | .run _ => ∀ self call, machine.kernel.sched.current = some self →
      machine.kernel.sched.stateOf self = .blocked →
      (machine.ctx = .kernel call .pipeSection →
        ∀ io, call.request.pipeIo machine.kernel.files = some io →
          ¬ io.EndsEarly (machine.kernel.pipes io.pipe)) ∧
      ∀ pids shouldSwitch done, machine.ctx = .kernel call (.wake pids shouldSwitch done) →
        ∀ pid ∈ pids, machine.kernel.sched.table.get pid ≠ some self
  | _ => True

/-- The scheduler of a machine whose processor runs `ctx`. Processes that are `exempt` have
never been dispatched. -/
structure Kernel.Tidy (exempt : Handle → Prop) (idle : Handle) (kernel : Kernel) (ctx : Ctx)
    (task : Handle) : Prop where
  orderly : kernel.sched.Orderly task idle
  exemptOld : ∀ handle, exempt handle → handle < kernel.sched.created
  exemptAway : ∀ handle, exempt handle → handle ∉ kernel.sched.readyQueue
  exemptState : ∀ handle, exempt handle →
    kernel.sched.stateOf handle = .ready ∨ kernel.sched.stateOf handle = .zombie
  idleKept : ¬ exempt idle
  idleFrame : (kernel.frames idle).ctx = .idle
  idleCtx : task = idle → ctx = .idle
  state : ¬ exempt task → kernel.sched.stateOf task = .running ∨
    kernel.sched.stateOf task = .zombie ∨
    (kernel.sched.stateOf task = .blocked ∧ ctx.marked = true)

namespace Kernel.Tidy

variable {exempt : Handle → Prop} {idle self : Handle} {kernel after : Kernel} {ctx next : Ctx}

theorem busy (tidy : kernel.Tidy exempt idle ctx self) (awake : ctx ≠ .idle) : self ≠ idle :=
  fun same => awake (tidy.idleCtx same)

/-- A section that does not touch the scheduler. -/
theorem moves (tidy : kernel.Tidy exempt idle ctx self) (busy : self ≠ idle)
    (sched : after.sched = kernel.sched) (frame : (after.frames idle).ctx = (kernel.frames idle).ctx)
    (mark : ctx.marked = true → kernel.sched.stateOf self = .blocked → next.marked = true) :
    after.Tidy exempt idle next self where
  orderly := sched ▸ tidy.orderly
  exemptOld := sched ▸ tidy.exemptOld
  exemptAway := sched ▸ tidy.exemptAway
  exemptState := sched ▸ tidy.exemptState
  idleKept := tidy.idleKept
  idleFrame := frame.trans tidy.idleFrame
  idleCtx same := absurd same busy
  state usual := by
    rw [sched]
    rcases tidy.state usual with running | zombie | ⟨blocked, marked⟩
    · exact .inl running
    · exact .inr (.inl zombie)
    · exact .inr (.inr ⟨blocked, mark marked blocked⟩)

/-- A section that gives the current process another state. -/
theorem sets (tidy : kernel.Tidy exempt idle ctx self) (busy : self ≠ idle)
    {state : ProcessState} (sets : Scheduler.Sets self state kernel.sched after.sched)
    (frame : (after.frames idle).ctx = (kernel.frames idle).ctx)
    (special : exempt self → state = .ready ∨ state = .zombie)
    (usual : ¬ exempt self → state = .running ∨ state = .zombie ∨
      (state = .blocked ∧ next.marked = true)) : after.Tidy exempt idle next self where
  orderly := tidy.orderly.sets sets busy
  exemptOld := sets.created ▸ tidy.exemptOld
  exemptAway := sets.queue ▸ tidy.exemptAway
  exemptState handle isExempt := by
    by_cases same : handle = self
    · subst same
      rw [sets.here]
      exact special isExempt
    · rw [sets.away handle same]
      exact tidy.exemptState handle isExempt
  idleKept := tidy.idleKept
  idleFrame := frame.trans tidy.idleFrame
  idleCtx same := absurd same busy
  state isUsual := by
    rw [sets.here]
    exact usual isUsual

/-- Processes are woken, but not the current one. -/
theorem wakes (tidy : kernel.Tidy exempt idle ctx self) (busy : self ≠ idle) {pids : List Pid}
    (sched : after.sched = kernel.sched.wakeTasks pids)
    (frame : (after.frames idle).ctx = (kernel.frames idle).ctx)
    (apart : kernel.sched.stateOf self = .blocked →
      ∀ pid ∈ pids, kernel.sched.table.get pid ≠ some self)
    (mark : ctx.marked = true → kernel.sched.stateOf self = .blocked → next.marked = true) :
    after.Tidy exempt idle next self := by
  obtain ⟨woken, woke⟩ := kernel.sched.wakeTasks_woke pids
  rw [← sched] at woke
  have asleep : self ∉ woken := by
    intro here
    obtain ⟨pid, named, found⟩ := woke.named self here
    exact apart (woke.blocked self here) pid named found
  have exemptApart (handle : Handle) (isExempt : exempt handle) : handle ∉ woken := by
    intro here
    have blocked := woke.blocked handle here
    rcases tidy.exemptState handle isExempt with state | state
    all_goals
      rw [state] at blocked
      cases blocked
  refine
    { orderly := tidy.orderly.woke woke asleep
      exemptOld := woke.created ▸ tidy.exemptOld
      exemptAway := ?_
      exemptState := ?_
      idleKept := tidy.idleKept
      idleFrame := frame.trans tidy.idleFrame
      idleCtx := fun same => absurd same busy
      state := ?_ }
  · intro handle isExempt here
    rw [woke.queue] at here
    rcases List.mem_append.mp here with before | added
    · exact tidy.exemptAway handle isExempt before
    · exact exemptApart handle isExempt added
  · intro handle isExempt
    rw [woke.away handle (exemptApart handle isExempt)]
    exact tidy.exemptState handle isExempt
  · intro usual
    rw [woke.away self asleep]
    rcases tidy.state usual with running | zombie | ⟨blocked, marked⟩
    · exact .inl running
    · exact .inr (.inl zombie)
    · exact .inr (.inr ⟨blocked, mark marked blocked⟩)

/-- Outside the loops the current process is not marked blocked. -/
theorem awake (tidy : kernel.Tidy exempt idle ctx self) (unmarked : ctx.marked = false) :
    kernel.sched.stateOf self ≠ .blocked := by
  intro blocked
  by_cases isExempt : exempt self
  · rcases tidy.exemptState self isExempt with state | state
    all_goals
      rw [state] at blocked
      cases blocked
  · rcases tidy.state isExempt with state | state | ⟨_, marked⟩
    · rw [state] at blocked
      cases blocked
    · rw [state] at blocked
      cases blocked
    · rw [unmarked] at marked
      cases marked

/-- Marked blocked on the way into a loop. -/
theorem marksBlocked (tidy : kernel.Tidy exempt idle ctx self) (busy : self ≠ idle)
    (marked : next.marked = true) :
    Tidy exempt idle { kernel with sched := kernel.sched.markCurrentBlocked } next self := by
  refine tidy.sets busy (Scheduler.markCurrentBlocked_sets tidy.orderly.current) rfl ?_ ?_
  · intro isExempt
    rcases tidy.exemptState self isExempt with state | state
    all_goals simp [state]
  · intro usual
    rcases tidy.state usual with state | state | ⟨state, _⟩
    all_goals simp [state, marked]

/-- Marked running on the way out of a loop. -/
theorem marksRunning (tidy : kernel.Tidy exempt idle ctx self) (busy : self ≠ idle) :
    Tidy exempt idle { kernel with sched := kernel.sched.markCurrentRunning } next self := by
  refine tidy.sets busy (Scheduler.markCurrentRunning_sets tidy.orderly.current) rfl ?_ ?_
  · intro isExempt
    rcases tidy.exemptState self isExempt with state | state
    all_goals simp [state]
  · intro usual
    rcases tidy.state usual with state | state | ⟨state, _⟩
    all_goals simp [state]

theorem ends (tidy : kernel.Tidy exempt idle ctx self) (busy : self ≠ idle) (code : Int)
    (killedBySig : Option Int) :
    Tidy exempt idle { kernel with sched := kernel.sched.markZombie self code killedBySig } next
      self := by
  refine tidy.sets busy (Scheduler.markZombie_sets kernel.sched self code killedBySig) rfl ?_ ?_
  · exact fun _ => .inr rfl
  · exact fun _ => .inr (.inl rfl)

theorem reaps (tidy : kernel.Tidy exempt idle ctx self) (busy : self ≠ idle) (target : Pid)
    (unmarked : ctx.marked = false) :
    Tidy exempt idle { kernel with
      sched := { kernel.sched with table := kernel.sched.table.remove target } } next self :=
  { tidy with
    orderly := tidy.orderly.remove target
    idleCtx := fun same => absurd same busy
    state := fun usual => by
      rcases tidy.state usual with running | zombie | ⟨_, marked⟩
      · exact .inl running
      · exact .inr (.inl zombie)
      · rw [unmarked] at marked
        cases marked }

theorem forks (tidy : kernel.Tidy exempt idle ctx self) (busy : self ≠ idle)
    (unmarked : ctx.marked = false) : Tidy exempt idle (kernel.sysFork self) next self := by
  obtain ⟨nextPid, counted⟩ : ∃ nextPid, kernel.sched.allocPid.2 = { kernel.sched with nextPid } := by
    unfold Scheduler.allocPid
    dsimp only
    split
    · exact ⟨_, rfl⟩
    · exact ⟨_, rfl⟩
  generalize pid : kernel.sched.allocPid.1 = childPid
  have allocated : kernel.sched.allocPid = (childPid, { kernel.sched with nextPid }) :=
    Prod.ext pid counted
  have orderly : Scheduler.Orderly { kernel.sched with nextPid } self idle := { tidy.orderly with }
  have spawned := orderly.spawn childPid (kernel.sched.procs self).pid
  have old {handle : Handle} (before : handle < kernel.sched.created) :
      (Scheduler.spawn { kernel.sched with nextPid } childPid
        (kernel.sched.procs self).pid).stateOf handle = kernel.sched.stateOf handle :=
    congrArg Process.state (Function.update_of_ne (Nat.ne_of_lt before) ..)
  unfold Kernel.sysFork
  rw [allocated]
  refine
    { orderly := spawned
      exemptOld := fun handle isExempt => Nat.lt_succ_of_lt (tidy.exemptOld handle isExempt)
      exemptAway := ?_
      exemptState := ?_
      idleKept := tidy.idleKept
      idleFrame := ?_
      idleCtx := fun same => absurd same busy
      state := ?_ }
  · intro handle isExempt here
    rcases List.mem_append.mp here with before | child
    · exact tidy.exemptAway handle isExempt before
    · exact Nat.ne_of_lt (tidy.exemptOld handle isExempt) (List.mem_singleton.mp child)
  · intro handle isExempt
    simp only [old (tidy.exemptOld handle isExempt)]
    exact tidy.exemptState handle isExempt
  · change (Function.update kernel.frames kernel.sched.created _ idle).ctx = .idle
    rw [Function.update_of_ne (Nat.ne_of_lt tidy.orderly.idleCreated)]
    exact tidy.idleFrame
  · intro usual
    simp only [old tidy.orderly.selfCreated]
    rcases tidy.state usual with running | zombie | ⟨_, marked⟩
    · exact .inl running
    · exact .inr (.inl zombie)
    · rw [unmarked] at marked
      cases marked

/-- A switch to the first of the queue. -/
theorem dispatches (tidy : kernel.Tidy exempt idle ctx self) {task : Handle}
    {rest back : List Handle} (queue : kernel.sched.readyQueue = task :: rest)
    (returns : back = kernel.sched.goesBack self ∨ back = [])
    (moved : Scheduler.Dispatched task rest back kernel.sched after.sched)
    (frame : (after.frames idle).ctx = .idle) (resumes : task = idle → next = .idle) :
    after.Tidy exempt idle next task := by
  have exemptBack (handle : Handle) (isExempt : exempt handle) : handle ∉ back := by
    intro here
    rcases returns with rfl | rfl
    · obtain ⟨rfl, running⟩ := Scheduler.goesBack_subset here
      rcases tidy.exemptState handle isExempt with state | state
      all_goals
        rw [state] at running
        cases running
    · cases here
  have exemptOther (handle : Handle) (isExempt : exempt handle) : handle ≠ task := by
    rintro rfl
    exact tidy.exemptAway handle isExempt (queue ▸ List.mem_cons_self)
  refine
    { orderly := tidy.orderly.dispatched queue returns moved
      exemptOld := moved.created ▸ tidy.exemptOld
      exemptAway := ?_
      exemptState := ?_
      idleKept := tidy.idleKept
      idleFrame := frame
      idleCtx := resumes
      state := fun _ => .inl moved.running }
  · intro handle isExempt here
    rw [moved.queue] at here
    rcases List.mem_append.mp here with before | returned
    · exact tidy.exemptAway handle isExempt (queue ▸ List.mem_cons_of_mem _ before)
    · exact exemptBack handle isExempt returned
  · intro handle isExempt
    rw [moved.away handle (exemptOther handle isExempt) (exemptBack handle isExempt)]
    exact tidy.exemptState handle isExempt

/-- A switch to the idle task. -/
theorem idles (tidy : kernel.Tidy exempt idle ctx self)
    (moved : Scheduler.Dispatched idle [] [] kernel.sched after.sched)
    (frame : (after.frames idle).ctx = .idle) : after.Tidy exempt idle .idle idle where
  orderly := tidy.orderly.idled moved
  exemptOld := moved.created ▸ tidy.exemptOld
  exemptAway handle isExempt := by simp [moved.queue]
  exemptState handle isExempt := by
    have other : handle ≠ idle := fun same => tidy.idleKept (same ▸ isExempt)
    rw [moved.away handle other List.not_mem_nil]
    exact tidy.exemptState handle isExempt
  idleKept := tidy.idleKept
  idleFrame := frame
  idleCtx _ := rfl
  state _ := .inl moved.running

end Kernel.Tidy

/-- A property of the context that a step goes on with, if it does not switch, and one of
the context that `switch_out_current` leaves behind. -/
def Move.Lands (holds leaves : Ctx → Prop) (call : Call) : Move → Prop
  | .goto _ pc | .swapgs pc | .yield _ pc => holds (.kernel call pc)
  | .switchOut resume _ => leaves (.kernel call resume)
  | .sysret => holds .user

section Exec

variable {exempt : Handle → Prop} {idle self : Handle} {kernel : Kernel} {interrupts : Bool}
  {call : Call} {choice : Choice} {pc : Pc} {outcome : Outcome}

theorem runAct_tidy {request : Request} {ctx : Ctx} {target : Pc}
    (tidy : kernel.Tidy exempt idle ctx self) (busy : self ≠ idle)
    (unmarked : ctx.marked = false) :
    (kernel.runAct self choice request).1.Tidy exempt idle (.kernel call target) self := by
  have awake := tidy.awake unmarked
  have stays {after : Kernel} (sched : after.sched = kernel.sched)
      (frames : after.frames = kernel.frames) :
      after.Tidy exempt idle (.kernel call target) self :=
    tidy.moves busy sched (by rw [frames]) fun _ blocked => absurd blocked awake
  cases request with
  | fork =>
    cases choice with
    | fail => exact stays rfl rfl
    | _ => exact tidy.forks busy unmarked
  | kill pid sig =>
    simp only [Kernel.runAct, Kernel.sysKill]
    split
    · exact stays rfl rfl
    · split
      · exact stays rfl rfl
      · exact tidy.wakes busy rfl rfl (fun blocked => absurd blocked awake)
          fun _ blocked => absurd blocked awake
  | close dropped =>
    cases dropped with
    | none => exact stays rfl rfl
    | some ended => exact stays rfl rfl
  | _ => exact stays rfl rfl

theorem exec_tidy (tidy : kernel.Tidy exempt idle (.kernel call pc) self)
    (early : pc = .pipeSection → kernel.sched.stateOf self = .blocked →
      ∀ io, call.request.pipeIo kernel.files = some io → ¬ io.EndsEarly (kernel.pipes io.pipe))
    (apart : ∀ pids shouldSwitch done, pc = .wake pids shouldSwitch done →
      kernel.sched.stateOf self = .blocked → ∀ pid ∈ pids, kernel.sched.table.get pid ≠ some self)
    (next : kernel.exec self interrupts call choice pc = some outcome) :
    outcome.move.Lands (outcome.kernel.Tidy exempt idle · self)
      (fun _ => ∃ ctx, outcome.kernel.Tidy exempt idle ctx self) outcome.call := by
  have busy := tidy.busy Ctx.noConfusion
  have stays {after : Kernel} {ctx : Ctx} (sched : after.sched = kernel.sched)
      (frames : after.frames = kernel.frames) (mark : pc.marked = true → ctx.marked = true) :
      after.Tidy exempt idle ctx self :=
    tidy.moves busy sched (by rw [frames]) fun marked _ => mark marked
  have leaves {after : Kernel} {ctx : Ctx} (sched : after.sched = kernel.sched)
      (frames : after.frames = kernel.frames) (unmarked : pc.marked = false) :
      after.Tidy exempt idle ctx self :=
    stays sched frames fun marked => absurd (unmarked.symm.trans marked) Bool.false_ne_true
  cases pc with
  | markPipe =>
    cases next
    exact tidy.marksBlocked busy rfl
  | markWait candidates =>
    cases next
    exact tidy.marksBlocked busy rfl
  | settle done =>
    cases next
    exact tidy.marksRunning busy
  | settleFound target status =>
    cases next
    exact tidy.marksRunning busy
  | resumed =>
    cases next
    exact tidy.marksRunning busy
  | exitMark code killedBySig =>
    cases next
    exact tidy.ends busy code killedBySig
  | reap target status =>
    cases next
    exact tidy.reaps busy target rfl
  | act =>
    cases next
    exact runAct_tidy tidy busy rfl
  | wake pids shouldSwitch done =>
    cases next
    refine tidy.wakes busy rfl rfl (apart pids shouldSwitch done rfl) fun _ _ => ?_
    split
    · rfl
    · rfl
  | dropWake pids again =>
    cases next
    exact tidy.wakes busy rfl rfl (fun blocked => absurd blocked (tidy.awake rfl))
      fun _ blocked => absurd blocked (tidy.awake rfl)
  | closeWake pids =>
    simp only [Kernel.exec] at next
    split at next
    · cases next
    · cases next
      exact tidy.wakes busy rfl rfl (fun blocked => absurd blocked (tidy.awake rfl))
        fun _ blocked => absurd blocked (tidy.awake rfl)
  | exitWake ppid =>
    cases next
    simp only [Move.Lands, Scheduler.wakeParent]
    split
    · exact tidy.wakes busy rfl rfl (fun blocked => absurd blocked (tidy.awake rfl))
        fun _ blocked => absurd blocked (tidy.awake rfl)
    · exact leaves rfl rfl rfl
  | pipeSection =>
    simp only [Kernel.exec] at next
    split at next
    · cases next
    · rename_i io piped
      split at next
      · rename_i left
        cases next
        refine tidy.moves busy rfl rfl fun _ blocked => ?_
        exact absurd (endsEarly_of_runSection left) (early rfl blocked io piped)
      · cases next
        exact stays rfl rfl fun _ => rfl
  | recheck rest =>
    simp only [Kernel.exec] at next
    split at next
    · cases next
      apply stays rfl rfl
      intro _
      split
      · rfl
      · rfl
    · cases next
      exact stays rfl rfl fun _ => rfl
  | switchOut =>
    cases next
    exact ⟨_, tidy⟩
  | exitLoop =>
    cases next
    exact ⟨_, tidy⟩
  | deliver =>
    simp only [Kernel.exec] at next
    split at next
    all_goals
      rename_i delivered
      cases next
      obtain ⟨signals, rfl⟩ := deliverSignals_signals delivered
      exact leaves rfl rfl rfl
  | _ =>
    simp only [Kernel.exec] at next
    repeat' split at next
    all_goals cases next <;> exact leaves rfl rfl rfl

end Exec

section Step

variable {exempt : Handle → Prop} {idle self : Handle} {kernel : Kernel} {machine after : Machine}

theorem saveCurrent_current {frame : Frame} (current : kernel.sched.current = some self) :
    Machine.saveCurrent kernel frame = Function.update kernel.frames self frame := by
  unfold Machine.saveCurrent
  rw [current]

theorem tickSchedule_nil {frame : Frame} (empty : kernel.sched.readyQueue = []) :
    Machine.tickSchedule kernel frame = (kernel, frame) := by
  unfold Machine.tickSchedule
  rw [Scheduler.timerTickSchedule_nil empty]

theorem tickSchedule_cons {frame : Frame} {task : Handle} {rest : List Handle}
    (current : kernel.sched.current = some self) (queue : kernel.sched.readyQueue = task :: rest) :
    Machine.tickSchedule kernel frame =
      ({ kernel with
        sched := ({ kernel.sched with readyQueue := rest }.requeue self).dispatch task
        frames := Function.update kernel.frames self frame },
      Function.update kernel.frames self frame task) := by
  unfold Machine.tickSchedule
  rw [Scheduler.timerTickSchedule_cons current queue, saveCurrent_current current]

theorem tickSchedule_tidy {frame : Frame} (tidy : kernel.Tidy exempt idle frame.ctx self) :
    ∃ task, (Machine.tickSchedule kernel frame).1.Tidy exempt idle
      (Machine.tickSchedule kernel frame).2.ctx task := by
  have current := tidy.orderly.current
  have idleFrame : (Function.update kernel.frames self frame idle).ctx = .idle := by
    by_cases same : idle = self
    · subst same
      rw [Function.update_self]
      exact tidy.idleCtx rfl
    · rw [Function.update_of_ne same]
      exact tidy.idleFrame
  cases queue : kernel.sched.readyQueue with
  | nil =>
    rw [tickSchedule_nil queue]
    exact ⟨self, tidy⟩
  | cons task rest =>
    rw [tickSchedule_cons current queue]
    refine ⟨task, tidy.dispatches queue (.inl rfl)
      (Scheduler.requeue_dispatched kernel.sched rest self task) idleFrame ?_⟩
    rintro rfl
    exact idleFrame

theorem terminate_tidy {ctx : Ctx} (tidy : kernel.Tidy exempt idle ctx self) (busy : self ≠ idle)
    (sig : Int) (next : Ctx) : (Machine.terminate kernel sig).Tidy exempt idle next self := by
  have ended : Kernel.Tidy exempt idle
      { kernel with sched := kernel.sched.markZombie self (sig % 128) (some sig) } next self :=
    tidy.ends busy _ _
  have zombie : (kernel.sched.markZombie self (sig % 128) (some sig)).stateOf self ≠ .blocked := by
    rw [(Scheduler.markZombie_sets kernel.sched self (sig % 128) (some sig)).here]
    exact ProcessState.noConfusion
  unfold Machine.terminate
  rw [tidy.orderly.current]
  simp only [Scheduler.wakeParent]
  split
  · exact ended.wakes busy rfl rfl (fun blocked => absurd blocked zombie)
      fun _ blocked => absurd blocked zombie
  · exact ended.moves busy rfl rfl fun _ blocked => absurd blocked zombie

/-- A look for signals in ring 3. -/
theorem Kernel.Tidy.passes {ctx : Ctx} (tidy : kernel.Tidy exempt idle ctx self)
    (user : ctx = .user) (signals : SignalManager) :
    self ≠ idle ∧ Kernel.Tidy exempt idle { kernel with signals } ctx self := by
  have busy := tidy.busy (user.trans_ne Ctx.noConfusion)
  exact ⟨busy, tidy.moves busy rfl rfl fun marked _ => marked⟩

theorem timerTick_tidy {frame : Frame} {stackOk : Bool}
    (tidy : kernel.Tidy exempt idle frame.ctx self) :
    ∃ task, (Machine.timerTick kernel frame stackOk).1.Tidy exempt idle
      (Machine.timerTick kernel frame stackOk).2.ctx task := by
  obtain ⟨task, scheduled⟩ := tickSchedule_tidy tidy
  have ticked := Machine.timerTick_ticked kernel frame stackOk
  generalize Machine.tickVictim kernel frame stackOk = victim at ticked
  generalize Machine.timerTick kernel frame stackOk = result at ticked
  cases ticked with
  | scheduled => exact ⟨task, scheduled⟩
  | delivered signals user => exact ⟨task, (scheduled.passes user signals).2⟩
  | ended signals sig user =>
    obtain ⟨busy, passed⟩ := scheduled.passes user signals
    exact tickSchedule_tidy (terminate_tidy passed busy sig _)

/-- The switches of `switch_out_current`. -/
theorem switchOut_tidy {ctx : Ctx} {call : Call} {resume stay : Pc}
    (tidy : machine.kernel.Tidy exempt idle ctx self) (busy : self ≠ idle) :
    ∃ task, (machine.switchTasks call resume stay
        machine.kernel.sched.switchOutCurrent).kernel.Tidy exempt idle
      (machine.switchTasks call resume stay machine.kernel.sched.switchOutCurrent).ctx task := by
  obtain ⟨task, rest, successor, switch, moved⟩ :=
    Scheduler.switchOutCurrent_dispatched tidy.orderly.current tidy.orderly.fallback
  generalize machine.kernel.sched.switchOutCurrent = switched at switch moved
  obtain ⟨pair, sched⟩ := switched
  cases switch
  have idleFrame : (Function.update machine.kernel.frames self ⟨.kernel call resume, false⟩
      idle).ctx = .idle := by
    rw [Function.update_of_ne busy.symm]
    exact tidy.idleFrame
  cases successor with
  | queued queue =>
    refine ⟨task, tidy.dispatches queue (.inr rfl) moved idleFrame ?_⟩
    rintro rfl
    exact tidy.idleFrame
  | idle empty =>
    refine ⟨idle, ?_⟩
    change Kernel.Tidy exempt idle _ (machine.kernel.frames idle).ctx idle
    rw [tidy.idleFrame]
    exact tidy.idles moved idleFrame

/-- The switches of `schedule_yield`. -/
theorem yield_tidy {call : Call} {resume stay : Pc}
    (tidy : machine.kernel.Tidy exempt idle (.kernel call stay) self) (busy : self ≠ idle) :
    ∃ task, (machine.switchTasks call resume stay
        machine.kernel.sched.scheduleYield).kernel.Tidy exempt idle
      (machine.switchTasks call resume stay machine.kernel.sched.scheduleYield).ctx task := by
  cases queue : machine.kernel.sched.readyQueue with
  | nil =>
    rw [Scheduler.scheduleYield_nil queue]
    exact ⟨self, tidy⟩
  | cons task rest =>
    rw [Scheduler.scheduleYield_cons tidy.orderly.current queue]
    have idleFrame : (Function.update machine.kernel.frames self ⟨.kernel call resume, false⟩
        idle).ctx = .idle := by
      rw [Function.update_of_ne busy.symm]
      exact tidy.idleFrame
    refine ⟨task, tidy.dispatches queue (.inl rfl)
      (Scheduler.requeue_dispatched machine.kernel.sched rest self task) idleFrame ?_⟩
    rintro rfl
    exact tidy.idleFrame

/-- Where a careful section leaves the scheduler. -/
theorem careful_lands {call : Call} {pc : Pc} {choice : Choice} {outcome : Outcome}
    (tidy : machine.kernel.Tidy exempt idle (.kernel call pc) self)
    (careful : machine.Careful (.run choice)) (inside : machine.ctx = .kernel call pc)
    (ran : machine.kernel.exec self machine.interrupts call choice pc = some outcome) :
    outcome.move.Lands (outcome.kernel.Tidy exempt idle · self)
      (fun _ => ∃ ctx, outcome.kernel.Tidy exempt idle ctx self) outcome.call := by
  have current := tidy.orderly.current
  refine exec_tidy tidy (fun here blocked => ?_) (fun pids shouldSwitch done here blocked => ?_) ran
  · exact (careful self call current blocked).1 (here ▸ inside)
  · exact (careful self call current blocked).2 pids shouldSwitch done (here ▸ inside)

theorem step_tidy (tidy : machine.kernel.Tidy exempt idle machine.ctx self) {event : Event}
    (careful : machine.Careful event) (next : machine.step event = some after) :
    ∃ task, after.kernel.Tidy exempt idle after.ctx task := by
  have current := tidy.orderly.current
  cases event with
  | syscall request =>
    simp only [Machine.step, current] at next
    split at next
    · rename_i user same
      cases same
      cases next
      have busy := tidy.busy (user.trans_ne Ctx.noConfusion)
      refine ⟨self, tidy.moves busy rfl rfl fun marked _ => ?_⟩
      rw [user] at marked
      cases marked
    · cases next
  | run choice =>
    simp only [Machine.step, current] at next
    split at next
    · rename_i call pc _ inside same
      cases same
      obtain ⟨outcome, ran, rfl⟩ := Option.map_eq_some_iff.mp next
      rw [inside] at tidy
      have busy := tidy.busy Ctx.noConfusion
      have landed := careful_lands tidy careful inside ran
      obtain ⟨kernel, call, move⟩ := outcome
      cases move with
      | goto interrupts target => exact ⟨self, landed⟩
      | swapgs target => exact ⟨self, landed⟩
      | sysret => exact ⟨self, landed⟩
      | switchOut resume stay =>
        obtain ⟨ctx, landed⟩ := landed
        exact @switchOut_tidy exempt idle self { machine with kernel } ctx call resume stay landed
          busy
      | yield resume stay =>
        exact @yield_tidy exempt idle self { machine with kernel } call resume stay landed busy
    · cases next
  | tick stackOk =>
    simp only [Machine.step] at next
    split at next
    · cases next
      exact @timerTick_tidy exempt idle self machine.kernel ⟨machine.ctx, true⟩ stackOk tidy
    · cases next

end Step

end RustPosix.Sched
