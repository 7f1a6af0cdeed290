import RustPosix.Library.Rotation
import RustPosix.Library.Run
import RustPosix.Sched.SchedulerSteps

/-! While no process blocks or ends, the scheduler takes turns: `timer_tick_schedule`,
`schedule_yield` and `add_task` are the operations of a rotation. -/

namespace RustPosix.Sched

open Library

inductive Turn where
  | timerTick
  | yield
  | addTask (handle : Handle)

/-- A scheduler with the journal of its queue. -/
structure Rounds where
  sched : Scheduler
  journal : Journal Handle

namespace Rounds

def start (sched : Scheduler) : Rounds := ⟨sched, .start sched.readyQueue⟩

/-- The scheduler has chosen a process to switch to, or none. -/
def switch (rounds : Rounds) : Option Handle × Scheduler → Rounds
  | (none, sched) => { rounds with sched }
  | (some next, sched) =>
    match rounds.sched.current with
    | none => { rounds with sched }
    | some prev => ⟨sched, rounds.journal.pass prev next sched.readyQueue⟩

/-- Only a ready process that the scheduler does not hold yet is added. -/
def step (rounds : Rounds) : Turn → Option Rounds
  | .timerTick => some (rounds.switch rounds.sched.timerTickSchedule)
  | .yield =>
    let (switched, sched) := rounds.sched.scheduleYield
    some (rounds.switch (switched.map Scheduler.Switch.next, sched))
  | .addTask handle =>
    if rounds.sched.stateOf handle = .ready ∧ handle ∉ rounds.sched.readyQueue ∧
        rounds.sched.current ≠ some handle then
      some ⟨rounds.sched.addTask handle, rounds.journal.join handle⟩
    else none

/-- The turns so far, from a scheduler that began with `first` as the current process. -/
structure Exact (start : Scheduler) (first : Handle) (rounds : Rounds) (task : Handle) :
    Prop where
  current : rounds.sched.current = some task
  running : ∀ handle ∈ task :: rounds.sched.readyQueue,
    rounds.sched.stateOf handle = .running ↔ handle = task
  ready : ∀ handle ∈ rounds.sched.readyQueue, rounds.sched.stateOf handle = .ready
  distinct : (task :: rounds.sched.readyQueue).Nodup
  members : ∀ handle, handle ∈ task :: rounds.sched.readyQueue ↔
    handle ∈ first :: start.readyQueue ∨ handle ∈ rounds.journal.joined
  others : ∀ handle, handle ∉ task :: rounds.sched.readyQueue →
    rounds.sched.stateOf handle = start.stateOf handle
  currentPid : start.currentPid = (start.procs first).pid ∨ rounds.journal.turns ≠ [] →
    rounds.sched.currentPid = (rounds.sched.procs task).pid
  inOrder : rounds.sched.readyQueue.Pairwise fun former latter =>
    rounds.journal.since former < rounds.journal.since latter
  fair : rounds.journal.Fair

/-- `Exact` with what the journal needs to go on. -/
private structure Abides (start : Scheduler) (first : Handle) (rounds : Rounds) (task : Handle) :
    Prop where
  current : rounds.sched.current = some task
  running : rounds.sched.stateOf task = .running
  ready : ∀ handle ∈ rounds.sched.readyQueue, rounds.sched.stateOf handle = .ready
  members : ∀ handle, handle ∈ task :: rounds.sched.readyQueue ↔
    handle ∈ first :: start.readyQueue ∨ handle ∈ rounds.journal.joined
  others : ∀ handle, handle ∉ task :: rounds.sched.readyQueue →
    rounds.sched.stateOf handle = start.stateOf handle
  currentPid : start.currentPid = (start.procs first).pid ∨ rounds.journal.turns ≠ [] →
    rounds.sched.currentPid = (rounds.sched.procs task).pid
  recorded : Rotation.Recorded ⟨task, rounds.sched.readyQueue⟩ rounds.journal

variable {start : Scheduler} {first task next : Handle} {rest : List Handle} {rounds : Rounds}

private theorem Abides.exact (abides : Abides start first rounds task) :
    rounds.Exact start first task where
  current := abides.current
  running handle here := by
    rcases List.mem_cons.mp here with rfl | queued
    · simp [abides.running]
    · have other : handle ≠ task := by
        rintro rfl
        exact (List.nodup_cons.mp abides.recorded.distinct).1 queued
      simp [abides.ready handle queued, other]
  ready := abides.ready
  distinct := abides.recorded.distinct
  members := abides.members
  others := abides.others
  currentPid := abides.currentPid
  inOrder := abides.recorded.inOrder
  fair := abides.recorded.fair

/-- Both dispatchers switch in the same way. -/
private theorem Abides.dispatch (abides : Abides start first rounds task)
    (queue : rounds.sched.readyQueue = next :: rest) {after : Scheduler}
    (moved : Scheduler.Dispatched next rest (rounds.sched.goesBack task) rounds.sched after) :
    Abides start first (rounds.switch (some next, after)) next := by
  rw [Scheduler.goesBack, if_pos abides.running] at moved
  have recorded := abides.recorded
  rw [queue] at recorded
  have distinct : (task ≠ next ∧ task ∉ rest) ∧ next ∉ rest ∧ rest.Nodup := by
    simpa using recorded.distinct
  simp only [switch, abides.current]
  have same (handle : Handle) :
      handle ∈ next :: after.readyQueue ↔ handle ∈ task :: rounds.sched.readyQueue := by
    rw [moved.queue, queue]
    simp only [List.mem_cons, List.mem_append, List.not_mem_nil, or_false]
    tauto
  refine
    { current := moved.current
      running := moved.running
      ready := ?_
      members := fun handle => (same handle).trans (abides.members handle)
      others := ?_
      currentPid := fun _ => moved.currentPid.trans (moved.pid next).symm
      recorded := moved.queue ▸ recorded.pass }
  · intro handle here
    rw [moved.queue] at here
    rcases List.mem_append.mp here with waited | back
    · refine (moved.away handle ?_ ?_).trans (abides.ready handle (by simp [queue, waited]))
      · rintro rfl
        exact distinct.2.1 waited
      · rw [List.mem_singleton]
        rintro rfl
        exact distinct.1.2 waited
    · refine moved.ready handle back ?_
      rw [List.mem_singleton.mp back]
      exact distinct.1.1
  · intro handle outside
    rw [same] at outside
    have away : handle ≠ next ∧ handle ∉ [task] := by
      rw [queue] at outside
      simp only [List.mem_cons, List.not_mem_nil, or_false, not_or] at outside ⊢
      exact ⟨outside.2.1, outside.1⟩
    exact (moved.away handle away.1 away.2).trans (abides.others handle outside)

private theorem Abides.add (abides : Abides start first rounds task) {handle : Handle}
    (fresh : rounds.sched.stateOf handle = .ready ∧ handle ∉ rounds.sched.readyQueue ∧
      rounds.sched.current ≠ some handle) :
    Abides start first ⟨rounds.sched.addTask handle, rounds.journal.join handle⟩ task where
  current := abides.current
  running := abides.running
  ready other here := by
    rcases List.mem_append.mp here with queued | added
    · exact abides.ready other queued
    · rw [List.mem_singleton.mp added]
      exact fresh.1
  members other := by
    have before := abides.members other
    simp only [Scheduler.addTask, Journal.join, ← List.cons_append, List.mem_append] at before ⊢
    tauto
  others other outside := by
    refine abides.others other fun held => outside ?_
    simp only [Scheduler.addTask, ← List.cons_append]
    exact List.mem_append_left _ held
  currentPid := abides.currentPid
  recorded := by
    refine abides.recorded.join ?_
    rw [List.mem_cons]
    rintro (rfl | queued)
    · exact fresh.2.2 abides.current
    · exact fresh.2.1 queued

private theorem step_abides {turn : Turn} {after : Rounds} (abides : Abides start first rounds task)
    (stepped : rounds.step turn = some after) : ∃ task, Abides start first after task := by
  cases turn with
  | timerTick =>
    cases stepped
    cases queue : rounds.sched.readyQueue with
    | nil =>
      rw [Scheduler.timerTickSchedule_nil queue]
      exact ⟨task, abides⟩
    | cons next rest =>
      rw [Scheduler.timerTickSchedule_cons abides.current queue]
      exact ⟨next, abides.dispatch queue (Scheduler.requeue_dispatched ..)⟩
  | yield =>
    simp only [step] at stepped
    cases queue : rounds.sched.readyQueue with
    | nil =>
      rw [Scheduler.scheduleYield_nil queue] at stepped
      cases stepped
      exact ⟨task, abides⟩
    | cons next rest =>
      rw [Scheduler.scheduleYield_cons abides.current queue] at stepped
      cases stepped
      exact ⟨next, abides.dispatch queue (Scheduler.requeue_dispatched ..)⟩
  | addTask handle =>
    simp only [step] at stepped
    split at stepped
    · rename_i fresh
      cases stepped
      exact ⟨task, abides.add fresh⟩
    · cases stepped

/-- Round robin is exact: one process runs, the others are queued in the order in which they
were last put there, and everybody queued at a dispatch has one turn before the next
dispatch of the same process. -/
theorem round_robin_is_exact {self : Handle} (current : start.current = some self)
    (running : start.stateOf self = .running) (away : self ∉ start.readyQueue)
    (distinct : start.readyQueue.Nodup)
    (ready : ∀ handle ∈ start.readyQueue, start.stateOf handle = .ready)
    (run : Run step (fun _ _ => True) (.start start) rounds) :
    ∃ task, rounds.Exact start self task := by
  have begins : Abides start self (.start start) self :=
    { current
      running
      ready
      members := fun handle => by simp [Rounds.start, Journal.start]
      others := fun _ _ => rfl
      currentPid := fun known => known.resolve_right (fun turns => turns rfl)
      recorded := Rotation.recorded_start (List.nodup_cons.mpr ⟨away, distinct⟩) }
  have kept : ∃ task, Abides start self rounds task := by
    induction run with
    | start => exact ⟨self, begins⟩
    | step _ turn _ stepped ih =>
      obtain ⟨task, abides⟩ := ih
      exact step_abides abides stepped
  obtain ⟨task, abides⟩ := kept
  exact ⟨task, abides.exact⟩

/-- Handle 0 runs, 1 and 2 are queued, and 3 is ready to be added. -/
def threeTasks : Scheduler where
  procs handle := ⟨handle + 1, 0, if handle = 0 then .running else .ready, 0, none⟩
  created := 4
  table := []
  readyQueue := [1, 2]
  current := some 0
  idle := none
  currentPid := 1
  nextPid := 5

theorem round_robin_is_exact_four : ∃ rounds,
    Run step (fun _ _ => True) (.start threeTasks) rounds ∧
      rounds.journal.turns.map Prod.fst = [1, 2, 3, 0, 1] ∧
      ∃ task, rounds.Exact threeTasks 0 task := by
  obtain ⟨rounds, _, run, seen⟩ : ∃ rounds,
      follow step (fun _ _ => true) (.start threeTasks)
        [.addTask 3, .timerTick, .yield, .timerTick, .timerTick, .yield] = some rounds ∧
      Run step (fun _ _ => True) (.start threeTasks) rounds ∧
      decide (rounds.journal.turns.map Prod.fst = [1, 2, 3, 0, 1]) = true :=
    Run.seen (fun _ _ _ => trivial) (by decide +kernel)
  exact ⟨rounds, run, of_decide_eq_true seen,
    round_robin_is_exact rfl rfl (by decide) (by decide) (by decide) run⟩

end Rounds

end RustPosix.Sched
