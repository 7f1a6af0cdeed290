import RustPosix.Sched.Running

/-! The first process starts as the current one without ever having been marked running. -/

namespace RustPosix.Sched

open Library Vfs

/-- The handle of the process that boot makes current. -/
def firstProcess : Handle := 0

theorem boot_orderly : Scheduler.boot.Orderly firstProcess 1 where
  current := rfl
  currentPid := rfl
  fallback := rfl
  selfCreated := by decide
  idleCreated := by decide
  queueCreated := nofun
  tableCreated := by decide
  nodup := List.nodup_nil
  ready := nofun
  away := List.not_mem_nil
  idleState := .inl rfl

theorem boot_tidy (files : FileId → FileHandle) :
    (Machine.boot files).kernel.Tidy (· = firstProcess) 1 .user firstProcess where
  orderly := boot_orderly
  exemptOld _ isFirst := isFirst ▸ boot_orderly.selfCreated
  exemptAway _ _ := List.not_mem_nil
  exemptState handle isFirst := by
    subst isFirst
    exact .inl rfl
  idleKept := by decide
  idleFrame := rfl
  idleCtx same := nomatch same
  state other := absurd rfl other

theorem run_tidy {files : FileId → FileHandle} {machine : Machine}
    (run : Run Machine.step Machine.Careful (.boot files) machine) :
    ∃ task, machine.kernel.Tidy (· = firstProcess) 1 machine.ctx task := by
  induction run with
  | start => exact ⟨_, boot_tidy files⟩
  | step _ event careful next ih =>
    obtain ⟨task, tidy⟩ := ih
    exact step_tidy tidy careful next

section Tick

variable {exempt : Handle → Prop} {idle self handle : Handle} {kernel : Kernel} {frame : Frame}

/-- A process that a tick leaves current or in the queue. -/
def Kernel.Keeps (kernel : Kernel) (handle : Handle) : Prop :=
  kernel.sched.current = some handle ∨ handle ∈ kernel.sched.readyQueue

theorem tickSchedule_keeps {ctx : Ctx} (tidy : kernel.Tidy exempt idle ctx self)
    (queued : handle ∈ kernel.sched.readyQueue) :
    (Machine.tickSchedule kernel frame).1.Keeps handle := by
  cases queue : kernel.sched.readyQueue with
  | nil =>
    rw [queue] at queued
    cases queued
  | cons task rest =>
    rw [tickSchedule_cons tidy.orderly.current queue]
    have moved := Scheduler.requeue_dispatched kernel.sched rest self task
    rw [queue] at queued
    rcases List.mem_cons.mp queued with rfl | later
    · exact .inl moved.current
    · exact .inr (moved.queue.symm ▸ List.mem_append_left _ later)

/-- A tick that switches puts a running process back into the queue. -/
theorem tickSchedule_requeues {ctx : Ctx} (tidy : kernel.Tidy exempt idle ctx self)
    (waiting : kernel.sched.readyQueue ≠ []) (running : kernel.sched.stateOf self = .running) :
    self ∈ (Machine.tickSchedule kernel frame).1.sched.readyQueue := by
  cases queue : kernel.sched.readyQueue with
  | nil => exact absurd queue waiting
  | cons task rest =>
    rw [tickSchedule_cons tidy.orderly.current queue]
    have moved := Scheduler.requeue_dispatched kernel.sched rest self task
    change self ∈ (Scheduler.dispatch _ task).readyQueue
    rw [moved.queue, Scheduler.goesBack, if_pos running]
    exact List.mem_append_right _ (List.mem_singleton_self self)

/-- A tick that switches takes the processor away from a process that was never queued. -/
theorem tickSchedule_drops {ctx : Ctx} (tidy : kernel.Tidy exempt idle ctx self)
    (isExempt : exempt handle) (off : kernel.sched.readyQueue ≠ [] ∨ self ≠ handle) :
    (Machine.tickSchedule kernel frame).1.sched.current ≠ some handle := by
  cases queue : kernel.sched.readyQueue with
  | nil =>
    rw [tickSchedule_nil queue]
    rcases off with waiting | other
    · exact absurd queue waiting
    · rw [tidy.orderly.current]
      exact fun same => other (Option.some.inj same)
  | cons task rest =>
    rw [tickSchedule_cons tidy.orderly.current queue]
    have moved := Scheduler.requeue_dispatched kernel.sched rest self task
    intro same
    have chosen : task = handle := Option.some.inj (moved.current.symm.trans same)
    exact tidy.exemptAway handle isExempt (queue ▸ chosen ▸ List.mem_cons_self)

theorem terminate_queue {ctx : Ctx} (tidy : kernel.Tidy exempt idle ctx self) (sig : Int)
    (queued : handle ∈ kernel.sched.readyQueue) :
    handle ∈ (Machine.terminate kernel sig).sched.readyQueue := by
  unfold Machine.terminate
  rw [tidy.orderly.current]
  simp only [Scheduler.wakeParent]
  split
  · obtain ⟨woken, woke⟩ := (kernel.sched.markZombie self (sig % 128) (some sig)).wakeTasks_woke
      [(kernel.sched.procs self).ppid]
    rw [woke.queue]
    exact List.mem_append_left _ queued
  · exact queued

theorem timerTick_keeps {stackOk : Bool} (tidy : kernel.Tidy exempt idle frame.ctx self)
    (waiting : kernel.sched.readyQueue ≠ []) (running : kernel.sched.stateOf self = .running) :
    (Machine.timerTick kernel frame stackOk).1.Keeps self := by
  have queued : self ∈ (Machine.tickSchedule kernel frame).1.sched.readyQueue :=
    tickSchedule_requeues tidy waiting running
  obtain ⟨task, scheduled⟩ := tickSchedule_tidy tidy
  have ticked := Machine.timerTick_ticked kernel frame stackOk
  generalize Machine.tickVictim kernel frame stackOk = victim at ticked
  generalize Machine.timerTick kernel frame stackOk = result at ticked
  cases ticked with
  | scheduled => exact .inr queued
  | delivered => exact .inr queued
  | ended signals sig user =>
    obtain ⟨busy, passed⟩ := scheduled.passes user signals
    exact tickSchedule_keeps (terminate_tidy passed busy sig .user) (terminate_queue passed sig queued)

theorem timerTick_drops {stackOk : Bool} (tidy : kernel.Tidy exempt idle frame.ctx self)
    (waiting : kernel.sched.readyQueue ≠ []) (isExempt : exempt handle) :
    ¬ (Machine.timerTick kernel frame stackOk).1.Keeps handle := by
  have dropped : (Machine.tickSchedule kernel frame).1.sched.current ≠ some handle :=
    tickSchedule_drops tidy isExempt (.inl waiting)
  obtain ⟨last, after⟩ := @timerTick_tidy exempt idle self kernel frame stackOk tidy
  have away : handle ∉ (Machine.timerTick kernel frame stackOk).1.sched.readyQueue :=
    after.exemptAway handle isExempt
  obtain ⟨task, scheduled⟩ := tickSchedule_tidy tidy
  suffices off : (Machine.timerTick kernel frame stackOk).1.sched.current ≠ some handle by
    rintro (current | queued)
    · exact off current
    · exact away queued
  clear after away
  have ticked := Machine.timerTick_ticked kernel frame stackOk
  generalize Machine.tickVictim kernel frame stackOk = victim at ticked
  generalize Machine.timerTick kernel frame stackOk = result at ticked
  cases ticked with
  | scheduled => exact dropped
  | delivered => exact dropped
  | ended signals sig user =>
    obtain ⟨busy, passed⟩ := scheduled.passes user signals
    have other : task ≠ handle := by
      rintro rfl
      exact dropped scheduled.orderly.current
    exact tickSchedule_drops (terminate_tidy passed busy sig .user) isExempt (.inr other)

end Tick

/-- In ring 3 a live process is marked running and not queued exactly if it is not the first
one, and exactly then does a tick keep it while others are ready. -/
theorem current_is_running_iff {files : FileId → FileHandle} {machine : Machine}
    (run : Run Machine.step Machine.Careful (.boot files) machine) {self : Handle}
    (current : machine.kernel.sched.current = some self) (ring3 : machine.ctx = .user)
    (alive : machine.kernel.sched.stateOf self ≠ .zombie) :
    (machine.kernel.sched.stateOf self = .running ∧ self ∉ machine.kernel.sched.readyQueue ↔
      self ≠ firstProcess) ∧
    ∀ stackOk after, machine.kernel.sched.readyQueue ≠ [] →
      machine.step (.tick stackOk) = some after →
      (after.kernel.sched.current = some self ∨ self ∈ after.kernel.sched.readyQueue ↔
        self ≠ firstProcess) := by
  obtain ⟨task, tidy⟩ := run_tidy run
  cases Option.some.inj (current.symm.trans tidy.orderly.current)
  have running (other : self ≠ firstProcess) : machine.kernel.sched.stateOf self = .running := by
    rcases tidy.state other with running | zombie | ⟨_, marked⟩
    · exact running
    · exact absurd zombie alive
    · rw [ring3] at marked
      cases marked
  constructor
  · constructor
    · rintro ⟨running, _⟩ isFirst
      rcases tidy.exemptState self isFirst with state | state
      all_goals
        rw [state] at running
        cases running
    · exact fun other => ⟨running other, tidy.orderly.away⟩
  · intro stackOk after waiting ticked
    simp only [Machine.step] at ticked
    split at ticked
    · cases ticked
      constructor
      · intro kept isFirst
        exact @timerTick_drops _ _ _ self machine.kernel ⟨machine.ctx, true⟩ stackOk tidy waiting
          isFirst kept
      · intro other
        exact @timerTick_keeps _ _ _ machine.kernel ⟨machine.ctx, true⟩ stackOk tidy waiting
          (running other)
    · cases ticked

private def forkAndTick : List Event :=
  [.syscall .fork] ++ List.replicate 5 (.run .go) ++ [.tick true]

private def ordinaryFiles : FileId → FileHandle := fun _ => ⟨.plain, 0⟩

private def unblocked (machine : Machine) : Event → Bool
  | .run _ => machine.kernel.sched.current.all fun self =>
      machine.kernel.sched.stateOf self != .blocked
  | _ => true

private theorem unblocked_careful (machine : Machine) (event : Event)
    (calm : unblocked machine event = true) : machine.Careful event := by
  cases event with
  | run choice =>
    intro self call current blocked
    simp [unblocked, current, blocked] at calm
  | _ => trivial

/-- The child of the first process, once a tick has made it current. -/
theorem current_is_running_iff_child :
    ∃ machine, Run Machine.step Machine.Careful (.boot ordinaryFiles) machine ∧
      machine.kernel.sched.current = some 2 ∧ machine.ctx = .user ∧
      machine.kernel.sched.stateOf 2 = .running := by
  have seen : ((follow Machine.step unblocked (.boot ordinaryFiles) forkAndTick).any fun machine =>
      decide (machine.kernel.sched.current = some 2 ∧ machine.kernel.sched.stateOf 2 ≠ .zombie) &&
        machine.ctx.isUser) = true := by
    decide +kernel
  obtain ⟨machine, _, run, look⟩ := Run.seen unblocked_careful seen
  obtain ⟨facts, user⟩ := Bool.and_eq_true_iff.mp look
  obtain ⟨current, alive⟩ := of_decide_eq_true facts
  have ring3 := Ctx.eq_user_of_isUser user
  have second : (2 : Handle) ≠ firstProcess := by decide
  exact ⟨machine, run, current, ring3,
    ((current_is_running_iff run current ring3 alive).1.mpr second).1⟩

/-- The first process forks and is interrupted: it is neither current nor queued any more. -/
theorem first_process_is_lost :
    Scheduler.boot.current = some firstProcess ∧
    Scheduler.boot.stateOf firstProcess = .ready ∧
    ∃ machine, Run Machine.step (fun _ _ => True) (.boot ordinaryFiles) machine ∧
      machine.kernel.sched.stateOf firstProcess = .ready ∧
      machine.kernel.sched.current = some 2 ∧ machine.kernel.sched.readyQueue = [] := by
  have seen : ((follow Machine.step (fun _ _ => true) (.boot ordinaryFiles) forkAndTick).any
      fun machine => decide (machine.kernel.sched.stateOf firstProcess = .ready ∧
        machine.kernel.sched.current = some 2 ∧ machine.kernel.sched.readyQueue = [])) = true := by
    decide +kernel
  obtain ⟨machine, _, run, look⟩ := Run.seen (fun _ _ _ => trivial) seen
  exact ⟨rfl, rfl, machine, run, of_decide_eq_true look⟩

end RustPosix.Sched
