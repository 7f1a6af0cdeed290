import RustPosix.Sched.Scheduler

/-! What each operation of the scheduler does to the states of the processes and to the
ready queue, and the order of the queue that all of them keep. -/

namespace RustPosix.Sched

open Vfs

namespace Scheduler

/-- Nobody is created, and the parts of a process that never change do not. -/
structure KeepsIds (before after : Scheduler) : Prop where
  created : after.created = before.created
  table : after.table = before.table
  idle : after.idle = before.idle
  pid : ∀ handle, (after.procs handle).pid = (before.procs handle).pid
  ppid : ∀ handle, (after.procs handle).ppid = (before.procs handle).ppid

/-- The processor stays with the current process. -/
structure KeepsCurrent (before after : Scheduler) : Prop extends KeepsIds before after where
  current : after.current = before.current
  currentPid : after.currentPid = before.currentPid

theorem KeepsIds.refl (sched : Scheduler) : KeepsIds sched sched :=
  ⟨rfl, rfl, rfl, fun _ => rfl, fun _ => rfl⟩

theorem KeepsIds.trans {first second third : Scheduler} (before : KeepsIds first second)
    (after : KeepsIds second third) : KeepsIds first third where
  created := after.created.trans before.created
  table := after.table.trans before.table
  idle := after.idle.trans before.idle
  pid handle := (after.pid handle).trans (before.pid handle)
  ppid handle := (after.ppid handle).trans (before.ppid handle)

theorem KeepsCurrent.refl (sched : Scheduler) : KeepsCurrent sched sched :=
  ⟨.refl sched, rfl, rfl⟩

theorem KeepsCurrent.trans {first second third : Scheduler} (before : KeepsCurrent first second)
    (after : KeepsCurrent second third) : KeepsCurrent first third :=
  ⟨before.toKeepsIds.trans after.toKeepsIds, after.current.trans before.current,
    after.currentPid.trans before.currentPid⟩

section Operations

variable (sched : Scheduler) (handle other : Handle)

theorem stateOf_modifyProc {change : Process → Process} (differs : other ≠ handle) :
    (sched.modifyProc handle change).stateOf other = sched.stateOf other := by
  simp only [stateOf, modifyProc, Function.update_of_ne differs]

@[simp] theorem stateOf_setState_self (state : ProcessState) :
    (sched.setState handle state).stateOf handle = state := by
  simp [stateOf, setState, modifyProc]

theorem stateOf_setState_of_ne (state : ProcessState) (differs : other ≠ handle) :
    (sched.setState handle state).stateOf other = sched.stateOf other :=
  stateOf_modifyProc sched handle other differs

theorem keepsCurrent_modifyProc {change : Process → Process}
    (ids : ∀ proc, (change proc).pid = proc.pid ∧ (change proc).ppid = proc.ppid) :
    KeepsCurrent sched (sched.modifyProc handle change) := by
  have same (other : Handle) :
      ((sched.modifyProc handle change).procs other).pid = (sched.procs other).pid ∧
        ((sched.modifyProc handle change).procs other).ppid = (sched.procs other).ppid := by
    by_cases here : other = handle
    · subst here
      simp only [modifyProc, Function.update_self]
      exact ids _
    · simp only [modifyProc, Function.update_of_ne here, and_self]
  exact ⟨⟨rfl, rfl, rfl, fun other => (same other).1, fun other => (same other).2⟩, rfl, rfl⟩

theorem keepsCurrent_setState (state : ProcessState) :
    KeepsCurrent sched (sched.setState handle state) :=
  keepsCurrent_modifyProc sched handle fun _ => ⟨rfl, rfl⟩

end Operations

theorem KeepsCurrent.addTask {before after : Scheduler} (kept : KeepsCurrent before after)
    (handle : Handle) : KeepsCurrent before (after.addTask handle) :=
  ⟨⟨kept.created, kept.table, kept.idle, kept.pid, kept.ppid⟩, kept.current, kept.currentPid⟩

/-- An operation that gives at most one process another state. -/
structure Sets (handle : Handle) (state : ProcessState) (before after : Scheduler) : Prop
    extends KeepsCurrent before after where
  queue : after.readyQueue = before.readyQueue
  here : after.stateOf handle = state
  away : ∀ other, other ≠ handle → after.stateOf other = before.stateOf other

theorem sets_setState (sched : Scheduler) (handle : Handle) (state : ProcessState) :
    Sets handle state sched (sched.setState handle state) :=
  ⟨keepsCurrent_setState sched handle state, rfl, stateOf_setState_self sched handle state,
    fun other differs => stateOf_setState_of_ne sched handle other state differs⟩

theorem sets_refl (sched : Scheduler) (handle : Handle) :
    Sets handle (sched.stateOf handle) sched sched :=
  ⟨.refl sched, rfl, rfl, fun _ _ => rfl⟩

theorem markCurrentBlocked_sets {sched : Scheduler} {self : Handle}
    (current : sched.current = some self) :
    Sets self (if sched.stateOf self = .running then .blocked else sched.stateOf self) sched
      sched.markCurrentBlocked := by
  simp only [markCurrentBlocked, current]
  split
  · exact sets_setState ..
  · exact sets_refl ..

theorem markCurrentRunning_sets {sched : Scheduler} {self : Handle}
    (current : sched.current = some self) :
    Sets self (if sched.stateOf self = .blocked then .running else sched.stateOf self) sched
      sched.markCurrentRunning := by
  simp only [markCurrentRunning, current]
  split
  · exact sets_setState ..
  · exact sets_refl ..

theorem markZombie_sets (sched : Scheduler) (handle : Handle) (code : Int)
    (killedBySig : Option Int) :
    Sets handle .zombie sched (sched.markZombie handle code killedBySig) := by
  refine ⟨keepsCurrent_modifyProc sched handle fun _ => ⟨rfl, rfl⟩, rfl, ?_, ?_⟩
  · simp [markZombie, stateOf, modifyProc]
  · intro other differs
    exact stateOf_modifyProc sched handle other differs

/-- Waking: some blocked processes become ready and are enqueued in order. -/
structure Woke (pids : List Pid) (woken : List Handle) (before after : Scheduler) : Prop
    extends KeepsCurrent before after where
  queue : after.readyQueue = before.readyQueue ++ woken
  nodup : woken.Nodup
  blocked : ∀ handle ∈ woken, before.stateOf handle = .blocked
  named : ∀ handle ∈ woken, ∃ pid ∈ pids, before.table.get pid = some handle
  ready : ∀ handle ∈ woken, after.stateOf handle = .ready
  away : ∀ handle, handle ∉ woken → after.stateOf handle = before.stateOf handle
  all : ∀ pid ∈ pids, ∀ handle, before.table.get pid = some handle →
    before.stateOf handle = .blocked → handle ∈ woken

theorem woke_nil (sched : Scheduler) : Woke [] [] sched sched := by
  refine ⟨.refl sched, (List.append_nil _).symm, List.nodup_nil, ?_, ?_, ?_, ?_, ?_⟩
  all_goals simp

theorem wakeTask_woke (sched : Scheduler) (pid : Pid) :
    ∃ woken, Woke [pid] woken sched (sched.wakeTask pid) := by
  unfold wakeTask
  split
  · rename_i missing
    refine ⟨[], .refl sched, (List.append_nil _).symm, List.nodup_nil, ?_, ?_, ?_, ?_, ?_⟩
    all_goals simp [missing]
  · rename_i handle found
    split
    · rename_i blocked
      refine ⟨[handle], (keepsCurrent_setState sched handle .ready).addTask handle, rfl, List.nodup_singleton _,
        ?_, ?_, ?_, ?_, ?_⟩
      · simpa using blocked
      · simpa using found
      · intro other here
        cases List.mem_singleton.mp here
        exact stateOf_setState_self sched handle .ready
      · intro other apart
        exact stateOf_setState_of_ne sched handle other .ready (by simpa using apart)
      · intro key named other same _
        cases List.mem_singleton.mp named
        rw [found] at same
        exact List.mem_singleton.mpr (Option.some.inj same).symm
    · rename_i awake
      refine ⟨[], .refl sched, (List.append_nil _).symm, List.nodup_nil, ?_, ?_, ?_, ?_, ?_⟩
      · simp
      · simp
      · simp
      · simp
      · intro key named other same blocked
        cases List.mem_singleton.mp named
        rw [found] at same
        cases same
        exact absurd blocked awake

theorem Woke.append {firstPids secondPids : List Pid} {first second : List Handle}
    {before middle after : Scheduler} (one : Woke firstPids first before middle)
    (two : Woke secondPids second middle after) :
    Woke (firstPids ++ secondPids) (first ++ second) before after := by
  have still {handle : Handle} (here : handle ∈ second) :
      handle ∉ first ∧ before.stateOf handle = .blocked := by
    have blocked := two.blocked handle here
    have apart : handle ∉ first := by
      intro both
      rw [one.ready handle both] at blocked
      cases blocked
    exact ⟨apart, one.away handle apart ▸ blocked⟩
  refine ⟨one.toKeepsCurrent.trans two.toKeepsCurrent, ?_, ?_, ?_, ?_, ?_, ?_, ?_⟩
  · rw [two.queue, one.queue, List.append_assoc]
  · exact one.nodup.append two.nodup fun handle left right => (still right).1 left
  · intro handle here
    rcases List.mem_append.mp here with left | right
    · exact one.blocked handle left
    · exact (still right).2
  · intro handle here
    rcases List.mem_append.mp here with left | right
    · obtain ⟨pid, named, found⟩ := one.named handle left
      exact ⟨pid, List.mem_append_left _ named, found⟩
    · obtain ⟨pid, named, found⟩ := two.named handle right
      exact ⟨pid, List.mem_append_right _ named, one.table ▸ found⟩
  · intro handle here
    by_cases right : handle ∈ second
    · exact two.ready handle right
    · have left := (List.mem_append.mp here).resolve_right right
      exact (two.away handle right).trans (one.ready handle left)
  · intro handle apart
    have ⟨left, right⟩ := not_or.mp (mt List.mem_append.mpr apart)
    exact (two.away handle right).trans (one.away handle left)
  · intro pid named handle found blocked
    by_cases left : handle ∈ first
    · exact List.mem_append_left _ left
    · rcases List.mem_append.mp named with early | late
      · exact absurd (one.all pid early handle found blocked) left
      · apply List.mem_append_right
        exact two.all pid late handle (one.table.symm ▸ found) ((one.away handle left).trans blocked)

theorem wakeTasks_woke (sched : Scheduler) (pids : List Pid) :
    ∃ woken, Woke pids woken sched (sched.wakeTasks pids) := by
  induction pids generalizing sched with
  | nil => exact ⟨[], woke_nil sched⟩
  | cons pid rest ih =>
    obtain ⟨first, one⟩ := wakeTask_woke sched pid
    obtain ⟨second, two⟩ := ih (sched.wakeTask pid)
    exact ⟨first ++ second, one.append two⟩

/-- A switch: `next` has been taken from the queue, or is the idle task, and the process in
`back`, if there is one, has been put behind the `rest`. -/
structure Dispatched (next : Handle) (rest back : List Handle) (before after : Scheduler) : Prop
    extends KeepsIds before after where
  current : after.current = some next
  currentPid : after.currentPid = (before.procs next).pid
  queue : after.readyQueue = rest ++ back
  running : after.stateOf next = .running
  ready : ∀ handle ∈ back, handle ≠ next → after.stateOf handle = .ready
  away : ∀ handle, handle ≠ next → handle ∉ back → after.stateOf handle = before.stateOf handle

theorem dispatch_dispatched (sched : Scheduler) (rest : List Handle) (next : Handle) :
    Dispatched next rest [] sched ({ sched with readyQueue := rest }.dispatch next) := by
  have kept := keepsCurrent_setState { sched with readyQueue := rest } next .running
  refine ⟨⟨rfl, rfl, rfl, kept.pid, kept.ppid⟩, rfl, rfl, (List.append_nil _).symm, ?_, ?_, ?_⟩
  · exact stateOf_setState_self { sched with readyQueue := rest } next .running
  · simp
  · intro other differs _
    exact stateOf_setState_of_ne { sched with readyQueue := rest } next other .running differs

/-- The process that a switch puts back into the queue. -/
def goesBack (sched : Scheduler) (prev : Handle) : List Handle :=
  if sched.stateOf prev = .running then [prev] else []

theorem requeue_dispatched (sched : Scheduler) (rest : List Handle) (prev next : Handle) :
    Dispatched next rest (sched.goesBack prev) sched
      (({ sched with readyQueue := rest }.requeue prev).dispatch next) := by
  unfold goesBack requeue
  change Dispatched next rest _ sched (Scheduler.dispatch (if sched.stateOf prev = .running then _
    else _) next)
  split
  · have first := keepsCurrent_setState { sched with readyQueue := rest } prev .ready
    have kept := keepsCurrent_setState
      (({ sched with readyQueue := rest }.setState prev .ready).addTask prev) next .running
    have both := (first.addTask prev).toKeepsIds.trans kept.toKeepsIds
    refine ⟨⟨rfl, rfl, rfl, both.pid, both.ppid⟩, rfl, first.pid next, rfl, ?_, ?_, ?_⟩
    · exact stateOf_setState_self _ next .running
    · intro other here differs
      cases List.mem_singleton.mp here
      refine (stateOf_setState_of_ne _ next prev .running differs).trans ?_
      exact stateOf_setState_self { sched with readyQueue := rest } prev .ready
    · intro other differs apart
      refine (stateOf_setState_of_ne _ next other .running differs).trans ?_
      exact stateOf_setState_of_ne { sched with readyQueue := rest } prev other .ready
        (by simpa using apart)
  · exact dispatch_dispatched sched rest next

/-- Where a process that leaves the processor finds its successor. -/
inductive Successor (sched : Scheduler) (idle : Handle) : Handle → List Handle → Prop where
  | queued {next : Handle} {rest : List Handle} (first : sched.readyQueue = next :: rest) :
      Successor sched idle next rest
  | idle (empty : sched.readyQueue = []) : Successor sched idle idle []

theorem switchOutCurrent_dispatched {sched : Scheduler} {self idle : Handle}
    (current : sched.current = some self) (fallback : sched.idle = some idle) :
    ∃ next rest, Successor sched idle next rest ∧
      (sched.switchOutCurrent).1 = some ⟨self, next⟩ ∧
      Dispatched next rest [] sched sched.switchOutCurrent.2 := by
  unfold switchOutCurrent
  rw [current]
  cases queue : sched.readyQueue with
  | cons next rest => exact ⟨next, rest, .queued queue, rfl, dispatch_dispatched sched rest next⟩
  | nil =>
    have same : sched = { sched with readyQueue := [] } := by rw [← queue]
    simp only [fallback]
    refine ⟨idle, [], .idle queue, rfl, ?_⟩
    have moved := dispatch_dispatched sched [] idle
    rwa [← same] at moved

theorem scheduleYield_cons {sched : Scheduler} {self next : Handle} {rest : List Handle}
    (current : sched.current = some self) (queue : sched.readyQueue = next :: rest) :
    sched.scheduleYield =
      (some ⟨self, next⟩, ({ sched with readyQueue := rest }.requeue self).dispatch next) := by
  cases sched
  cases current
  cases queue
  rfl

theorem timerTickSchedule_cons {sched : Scheduler} {self next : Handle} {rest : List Handle}
    (current : sched.current = some self) (queue : sched.readyQueue = next :: rest) :
    sched.timerTickSchedule =
      (some next, ({ sched with readyQueue := rest }.requeue self).dispatch next) := by
  cases sched
  cases current
  cases queue
  rfl

theorem scheduleYield_nil {sched : Scheduler} (empty : sched.readyQueue = []) :
    sched.scheduleYield = (none, sched) := by
  unfold scheduleYield
  rw [empty]
  cases sched.current <;> rfl

theorem timerTickSchedule_nil {sched : Scheduler} (empty : sched.readyQueue = []) :
    sched.timerTickSchedule = (none, sched) := by
  unfold timerTickSchedule
  rw [empty]

end Scheduler

namespace ProcessTable

variable {table : ProcessTable} {pid : Pid} {handle : Handle} {entry : Pid × Handle}

theorem mem_of_get (found : table.get pid = some handle) : (pid, handle) ∈ table := by
  induction table with
  | nil => cases found
  | cons head rest ih =>
    obtain ⟨key, other⟩ := head
    unfold get List.lookup at found
    split at found
    · rename_i same
      cases found
      cases beq_iff_eq.mp same
      exact List.mem_cons_self
    · exact List.mem_cons_of_mem _ (ih found)

theorem get_remove_of_ne {target : Pid} (differs : pid ≠ target) :
    (remove target table).get pid = table.get pid := by
  induction table with
  | nil => rfl
  | cons head rest ih =>
    obtain ⟨key, other⟩ := head
    unfold remove get at ih ⊢
    by_cases same : key = target
    · have apart : (pid == key) = false := beq_false_of_ne (same ▸ differs)
      simp only [List.filter, same, ne_eq, not_true_eq_false, decide_false]
      rw [ih, List.lookup_cons, ← same, apart]
    · simp only [List.filter, ne_eq, same, not_false_eq_true, decide_true, List.lookup_cons, ih]

theorem mem_of_mem_insert (here : entry ∈ insert pid handle table) :
    entry = (pid, handle) ∨ entry ∈ table := by
  induction table with
  | nil => exact .inl (List.mem_singleton.mp here)
  | cons head rest ih =>
    obtain ⟨key, other⟩ := head
    unfold insert at here
    split at here
    · exact List.mem_cons.mp here
    · split at here
      · rcases List.mem_cons.mp here with same | later
        · exact .inl same
        · exact .inr (List.mem_cons_of_mem _ later)
      · rcases List.mem_cons.mp here with same | later
        · exact .inr (same ▸ List.mem_cons_self)
        · rcases ih later with same | later
          · exact .inl same
          · exact .inr (List.mem_cons_of_mem _ later)

end ProcessTable

namespace Scheduler

/-- The queue holds ready processes, each once and not the current one, and the idle task
never blocks or ends. -/
structure Orderly (sched : Scheduler) (task idle : Handle) : Prop where
  current : sched.current = some task
  currentPid : sched.currentPid = (sched.procs task).pid
  fallback : sched.idle = some idle
  selfCreated : task < sched.created
  idleCreated : idle < sched.created
  queueCreated : ∀ handle ∈ sched.readyQueue, handle < sched.created
  tableCreated : ∀ entry ∈ sched.table, entry.2 < sched.created
  nodup : sched.readyQueue.Nodup
  ready : ∀ handle ∈ sched.readyQueue, sched.stateOf handle = .ready
  away : task ∉ sched.readyQueue
  idleState : sched.stateOf idle = .ready ∨ sched.stateOf idle = .running

section Orderly

variable {sched after : Scheduler} {self idle : Handle}

theorem Orderly.sets (orderly : sched.Orderly self idle) {state : ProcessState}
    (sets : Sets self state sched after) (busy : self ≠ idle) : after.Orderly self idle where
  current := sets.current.trans orderly.current
  currentPid := by rw [sets.currentPid, sets.pid, orderly.currentPid]
  fallback := sets.idle.trans orderly.fallback
  selfCreated := sets.created ▸ orderly.selfCreated
  idleCreated := sets.created ▸ orderly.idleCreated
  queueCreated := by
    rw [sets.queue, sets.created]
    exact orderly.queueCreated
  tableCreated := by
    rw [sets.table, sets.created]
    exact orderly.tableCreated
  nodup := sets.queue ▸ orderly.nodup
  ready handle here := by
    rw [sets.queue] at here
    have differs : handle ≠ self := fun same => orderly.away (same ▸ here)
    rw [sets.away handle differs]
    exact orderly.ready handle here
  away := sets.queue ▸ orderly.away
  idleState := by
    rw [sets.away idle busy.symm]
    exact orderly.idleState

theorem Orderly.woke (orderly : sched.Orderly self idle) {pids : List Pid} {woken : List Handle}
    (woke : Woke pids woken sched after) (apart : self ∉ woken) : after.Orderly self idle where
  current := woke.current.trans orderly.current
  currentPid := by rw [woke.currentPid, woke.pid, orderly.currentPid]
  fallback := woke.idle.trans orderly.fallback
  selfCreated := woke.created ▸ orderly.selfCreated
  idleCreated := woke.created ▸ orderly.idleCreated
  queueCreated handle here := by
    rw [woke.created]
    rw [woke.queue] at here
    rcases List.mem_append.mp here with before | added
    · exact orderly.queueCreated handle before
    · obtain ⟨pid, _, found⟩ := woke.named handle added
      exact orderly.tableCreated _ (ProcessTable.mem_of_get found)
  tableCreated := by
    rw [woke.table, woke.created]
    exact orderly.tableCreated
  nodup := by
    rw [woke.queue]
    apply orderly.nodup.append woke.nodup
    intro handle before added
    have ready := orderly.ready handle before
    rw [woke.blocked handle added] at ready
    cases ready
  ready handle here := by
    rw [woke.queue] at here
    by_cases added : handle ∈ woken
    · exact woke.ready handle added
    · rw [woke.away handle added]
      exact orderly.ready handle ((List.mem_append.mp here).resolve_right added)
  away := by
    rw [woke.queue]
    intro here
    rcases List.mem_append.mp here with before | added
    · exact orderly.away before
    · exact apart added
  idleState := by
    have apart : idle ∉ woken := by
      intro added
      have blocked := woke.blocked idle added
      rcases orderly.idleState with state | state
      all_goals
        rw [state] at blocked
        cases blocked
    rw [woke.away idle apart]
    exact orderly.idleState

theorem Orderly.remove (orderly : sched.Orderly self idle) (target : Pid) :
    { sched with table := sched.table.remove target }.Orderly self idle :=
  { orderly with
    tableCreated := fun entry here => orderly.tableCreated entry (List.mem_filter.mp here).1 }

theorem goesBack_subset {handle : Handle} (here : handle ∈ sched.goesBack self) :
    handle = self ∧ sched.stateOf self = .running := by
  unfold goesBack at here
  split at here
  · rename_i running
    exact ⟨List.mem_singleton.mp here, running⟩
  · cases here

/-- After a switch to the first of the queue. -/
theorem Orderly.dispatched (orderly : sched.Orderly self idle) {next : Handle}
    {rest back : List Handle} (queue : sched.readyQueue = next :: rest)
    (returns : back = sched.goesBack self ∨ back = [])
    (moved : Dispatched next rest back sched after) : after.Orderly next idle := by
  have nodup := orderly.nodup
  rw [queue, List.nodup_cons] at nodup
  have inQueue {handle : Handle} (here : handle ∈ rest) : handle ∈ sched.readyQueue :=
    queue ▸ List.mem_cons_of_mem _ here
  have self_ne : self ≠ next := by
    rintro rfl
    exact orderly.away (queue ▸ List.mem_cons_self)
  have back_self {handle : Handle} (here : handle ∈ back) : handle = self := by
    rcases returns with rfl | rfl
    · exact (goesBack_subset here).1
    · cases here
  have back_nodup : back.Nodup := by
    rcases returns with rfl | rfl
    · unfold goesBack
      split
      · exact List.nodup_singleton _
      · exact List.nodup_nil
    · exact List.nodup_nil
  refine
    { current := moved.current
      currentPid := by rw [moved.currentPid, moved.pid]
      fallback := moved.idle.trans orderly.fallback
      selfCreated := ?_
      idleCreated := moved.created ▸ orderly.idleCreated
      queueCreated := ?_
      tableCreated := ?_
      nodup := ?_
      ready := ?_
      away := ?_
      idleState := ?_ }
  · rw [moved.created]
    exact orderly.queueCreated next (queue ▸ List.mem_cons_self)
  · intro handle here
    rw [moved.created]
    rw [moved.queue] at here
    rcases List.mem_append.mp here with before | returned
    · exact orderly.queueCreated handle (inQueue before)
    · exact back_self returned ▸ orderly.selfCreated
  · rw [moved.table, moved.created]
    exact orderly.tableCreated
  · rw [moved.queue]
    apply nodup.2.append back_nodup
    intro handle before returned
    exact orderly.away (back_self returned ▸ inQueue before)
  · intro handle here
    rw [moved.queue] at here
    have differs : handle ≠ next := by
      rcases List.mem_append.mp here with before | returned
      · rintro rfl
        exact nodup.1 before
      · exact back_self returned ▸ self_ne
    by_cases returned : handle ∈ back
    · exact moved.ready handle returned differs
    · rw [moved.away handle differs returned]
      exact orderly.ready handle (inQueue ((List.mem_append.mp here).resolve_right returned))
  · rw [moved.queue]
    intro here
    rcases List.mem_append.mp here with before | returned
    · exact nodup.1 before
    · exact self_ne (back_self returned).symm
  · by_cases same : idle = next
    · exact .inr (same ▸ moved.running)
    · by_cases returned : idle ∈ back
      · exact .inl (moved.ready idle returned same)
      · rw [moved.away idle same returned]
        exact orderly.idleState

/-- After a switch to the idle task because nobody else is ready. -/
theorem Orderly.idled (orderly : sched.Orderly self idle)
    (moved : Dispatched idle [] [] sched after) : after.Orderly idle idle where
  current := moved.current
  currentPid := by rw [moved.currentPid, moved.pid]
  fallback := moved.idle.trans orderly.fallback
  selfCreated := moved.created ▸ orderly.idleCreated
  idleCreated := moved.created ▸ orderly.idleCreated
  queueCreated := by simp [moved.queue]
  tableCreated := by
    rw [moved.table, moved.created]
    exact orderly.tableCreated
  nodup := by simp [moved.queue]
  ready := by simp [moved.queue]
  away := by simp [moved.queue]
  idleState := .inr moved.running

theorem Orderly.spawn (orderly : sched.Orderly self idle) (childPid parentPid : Pid) :
    (sched.spawn childPid parentPid).Orderly self idle := by
  have old {handle : Handle} (before : handle < sched.created) :
      (sched.spawn childPid parentPid).procs handle = sched.procs handle :=
    Function.update_of_ne (Nat.ne_of_lt before) ..
  refine
    { current := orderly.current
      currentPid := by rw [old orderly.selfCreated]; exact orderly.currentPid
      fallback := orderly.fallback
      selfCreated := Nat.lt_succ_of_lt orderly.selfCreated
      idleCreated := Nat.lt_succ_of_lt orderly.idleCreated
      queueCreated := ?_
      tableCreated := ?_
      nodup := ?_
      ready := ?_
      away := ?_
      idleState := ?_ }
  · intro handle here
    rcases List.mem_append.mp here with before | child
    · exact Nat.lt_succ_of_lt (orderly.queueCreated handle before)
    · exact List.mem_singleton.mp child ▸ Nat.lt_succ_self _
  · intro entry here
    rcases ProcessTable.mem_of_mem_insert here with same | before
    · exact same ▸ Nat.lt_succ_self _
    · exact Nat.lt_succ_of_lt (orderly.tableCreated entry before)
  · apply orderly.nodup.append (List.nodup_singleton _)
    intro handle before child
    cases List.mem_singleton.mp child
    exact Nat.lt_irrefl _ (orderly.queueCreated _ before)
  · intro handle here
    rcases List.mem_append.mp here with before | child
    · change ((sched.spawn childPid parentPid).procs handle).state = .ready
      rw [old (orderly.queueCreated handle before)]
      exact orderly.ready handle before
    · cases List.mem_singleton.mp child
      simp [stateOf, Scheduler.spawn, Process.new]
  · intro here
    rcases List.mem_append.mp here with before | child
    · exact orderly.away before
    · exact Nat.ne_of_lt orderly.selfCreated (List.mem_singleton.mp child)
  · change ((sched.spawn childPid parentPid).procs idle).state = .ready ∨
      ((sched.spawn childPid parentPid).procs idle).state = .running
    rw [old orderly.idleCreated]
    exact orderly.idleState

end Orderly

end Scheduler

end RustPosix.Sched
