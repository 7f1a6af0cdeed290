import RustPosix.Sched.Pids

/-! Who can reap whom. A process that ends leaves its children as they are. -/

namespace RustPosix.Sched

open Library Vfs

namespace ProcessTable

variable {table : ProcessTable} {pid other : Pid} {handle : Handle}

theorem get_cons (key : Pid) (owner : Handle) :
    get ((key, owner) :: table) pid = if pid = key then some owner else table.get pid := by
  unfold get
  rw [List.lookup_cons]
  by_cases same : pid = key
  · rw [if_pos same, beq_iff_eq.mpr same]
  · rw [if_neg same, beq_false_of_ne same]

theorem get_insert_self : (table.insert pid handle).get pid = some handle := by
  induction table with
  | nil => exact (get_cons pid handle).trans (if_pos rfl)
  | cons head rest ih =>
    obtain ⟨key, owner⟩ := head
    unfold insert
    split
    · exact (get_cons pid handle).trans (if_pos rfl)
    · split
      · exact (get_cons pid handle).trans (if_pos rfl)
      · rename_i differs
        rw [get_cons, if_neg differs]
        exact ih

theorem get_insert_of_ne (differs : other ≠ pid) :
    (table.insert pid handle).get other = table.get other := by
  induction table with
  | nil => exact (get_cons pid handle).trans (if_neg differs)
  | cons head rest ih =>
    obtain ⟨key, owner⟩ := head
    unfold insert
    split
    · rw [get_cons, if_neg differs]
    · split
      · rename_i same
        rw [get_cons, if_neg differs, get_cons, if_neg (same ▸ differs)]
      · rw [get_cons, get_cons, ih]

end ProcessTable

namespace Scheduler

variable {sched after : Scheduler} {self : Handle} {pid : Pid}

/-- The table has a process of this number that has not ended. -/
def Lives (sched : Scheduler) (pid : Pid) : Prop :=
  ∃ handle, sched.table.get pid = some handle ∧ sched.stateOf handle ≠ .zombie ∧
    (sched.procs handle).pid = pid

/-- Everybody in the table but the idle task and the first process has a parent that has not
ended. -/
def Parented (sched : Scheduler) : Prop :=
  ∀ entry ∈ sched.table, entry.1 ≠ 0 → entry.1 ≠ 1 → sched.Lives (sched.procs entry.2).ppid

theorem Calm.lives (calm : sched.Calm after) (lives : sched.Lives pid) : after.Lives pid := by
  obtain ⟨handle, found, alive, named⟩ := lives
  exact ⟨handle, calm.table ▸ found, fun ended => alive (calm.alive handle ended),
    (calm.pid handle).trans named⟩

theorem Calm.parented (calm : sched.Calm after) (before : sched.Parented) : after.Parented := by
  intro entry here notIdle notFirst
  rw [calm.ppid]
  exact calm.lives (before entry (calm.table ▸ here) notIdle notFirst)

/-- The process that ends is not its table's parent of anybody. -/
theorem Parented.markZombie (before : sched.Parented) (code : Int) (killedBySig : Option Int)
    (childless : sched.table.get (sched.procs self).pid = some self →
      ∀ entry ∈ sched.table, entry.1 ≠ 0 → entry.1 ≠ 1 →
        (sched.procs entry.2).ppid ≠ (sched.procs self).pid) :
    (sched.markZombie self code killedBySig).Parented := by
  intro entry here notIdle notFirst
  obtain ⟨parent, found, alive, named⟩ := before entry here notIdle notFirst
  have other : parent ≠ self := by
    rintro rfl
    exact childless (named.symm ▸ found) entry here notIdle notFirst named.symm
  have kept : ((sched.markZombie self code killedBySig).procs entry.2).ppid =
      (sched.procs entry.2).ppid := by
    simp only [Scheduler.markZombie, modifyProc, Function.update_apply]
    split
    · rename_i same
      rw [same]
    · rfl
  rw [kept]
  refine ⟨parent, found, ?_, ?_⟩
  · exact (stateOf_modifyProc sched self parent other).symm ▸ alive
  · simpa [Scheduler.markZombie, modifyProc, Function.update_of_ne other] using named

theorem Parented.reap (before : sched.Parented) {target : Pid}
    (ended : ∀ handle, sched.table.get target = some handle → sched.stateOf handle = .zombie) :
    Parented { sched with table := sched.table.remove target } := by
  intro entry here notIdle notFirst
  obtain ⟨parent, found, alive, named⟩ :=
    before entry (List.mem_filter.mp here).1 notIdle notFirst
  refine ⟨parent, ?_, alive, named⟩
  have other : (sched.procs entry.2).ppid ≠ target := by
    rintro rfl
    exact alive (ended parent found)
  exact (ProcessTable.get_remove_of_ne other).trans found

/-- A new process replaces at most the parent of others, and then is their parent. -/
theorem Lives.spawn (lives : sched.Lives pid) (numbered : sched.Numbered) (childPid ppid : Pid) :
    (sched.spawn childPid ppid).Lives pid := by
  by_cases same : pid = childPid
  · subst same
    refine ⟨sched.created, ProcessTable.get_insert_self, ?_, ?_⟩
    · simp [stateOf, Scheduler.spawn, Process.new]
    · simp [Scheduler.spawn, Process.new]
  · obtain ⟨handle, found, alive, named⟩ := lives
    have old : handle ≠ sched.created :=
      Nat.ne_of_lt (numbered.table _ (ProcessTable.mem_of_get found)).1
    refine ⟨handle, (ProcessTable.get_insert_of_ne same).trans found, ?_, ?_⟩
    · simpa [stateOf, Scheduler.spawn, Function.update_of_ne old] using alive
    · simpa [Scheduler.spawn, Function.update_of_ne old] using named

theorem Parented.spawn (before : sched.Parented) (numbered : sched.Numbered) {ppid : Pid}
    (lives : sched.Lives ppid) (childPid : Pid) : (sched.spawn childPid ppid).Parented := by
  intro entry here notIdle notFirst
  rcases ProcessTable.mem_of_mem_insert here with rfl | older
  · have child : ((sched.spawn childPid ppid).procs sched.created).ppid = ppid := by
      simp [Scheduler.spawn, Process.new]
    exact child.symm ▸ lives.spawn numbered childPid ppid
  · have old : entry.2 ≠ sched.created := Nat.ne_of_lt (numbered.table entry older).1
    have kept : (sched.spawn childPid ppid).procs entry.2 = sched.procs entry.2 :=
      Function.update_of_ne old ..
    exact kept.symm ▸ (before entry older notIdle notFirst).spawn numbered childPid ppid

end Scheduler

/-- A step after which nobody has lost a parent: a process ends only without children, a
process whose own entry has ended does not fork, and `wait4` removes only who has ended. -/
structure Machine.KeepsParents (machine : Machine) (event : Event) : Prop where
  ends : ∀ self, machine.victim event = some self →
    machine.kernel.sched.table.get (machine.kernel.sched.procs self).pid = some self →
    ∀ entry ∈ machine.kernel.sched.table, entry.1 ≠ 0 → entry.1 ≠ 1 →
      (machine.kernel.sched.procs entry.2).ppid ≠ (machine.kernel.sched.procs self).pid
  forks : ∀ call self, machine.ctx = .kernel call .act → call.request = .fork →
    machine.kernel.sched.current = some self →
    machine.kernel.sched.Lives (machine.kernel.sched.procs self).pid
  reaps : ∀ call target status handle, machine.ctx = .kernel call (.reap target status) →
    machine.kernel.sched.table.get target = some handle →
    machine.kernel.sched.stateOf handle = .zombie

theorem step_parented {machine after : Machine} {event : Event}
    (before : machine.kernel.sched.Parented) (numbered : machine.kernel.sched.Numbered)
    (keeps : machine.KeepsParents event) (next : machine.step event = some after) :
    after.kernel.sched.Parented := by
  cases step_turn next with
  | calm calm => exact calm.parented before
  | ends self victim middle first code killedBySig calm =>
    apply calm.parented
    apply (first.parented before).markZombie
    intro itself entry here notIdle notFirst
    rw [first.ppid, first.pid]
    rw [first.table, first.pid] at itself
    exact keeps.ends self victim itself entry (first.table ▸ here) notIdle notFirst
  | reaps _ _ call target status inside calm =>
    apply calm.parented
    exact before.reap fun handle found => keeps.reaps call target status handle inside found
  | forks _ _ call self inside request current calm =>
    apply calm.parented
    obtain ⟨nextPid, forked⟩ := sysFork_sched machine.kernel self
    rw [forked]
    exact before.spawn numbered (keeps.forks call self inside request current) _

/-- In every run from boot whose steps all keep the parents, everybody in the table but the
idle task and the first process has a parent there that has not ended. -/
theorem every_process_has_live_parent {files : FileId → FileHandle} {machine : Machine}
    (run : Run Machine.step Machine.KeepsParents (.boot files) machine) :
    machine.kernel.sched.Parented := by
  induction run with
  | start =>
    intro entry here notIdle notFirst
    rcases List.mem_cons.mp here with rfl | later
    · exact absurd rfl notIdle
    · cases List.mem_singleton.mp later
      exact absurd rfl notFirst
  | step ran event keeps next ih => exact step_parented ih (run_numbered ran) keeps next

private def noFiles : FileId → FileHandle := fun _ => ⟨.plain, 0⟩

/-- The first process forks twice; its second child gets the number 2. -/
private def secondChild : List Event :=
  [.syscall .fork] ++ List.replicate 5 (.run .go) ++ [.syscall .fork] ++
    List.replicate 5 (.run .go)

private def nobodyEnds (machine : Machine) (event : Event) : Bool :=
  (machine.victim event).isNone &&
    match machine.ctx with
    | .kernel _ .act => machine.kernel.sched.current.all fun self =>
        let pid := (machine.kernel.sched.procs self).pid
        (machine.kernel.sched.table.get pid).any fun handle =>
          machine.kernel.sched.stateOf handle != .zombie &&
            (machine.kernel.sched.procs handle).pid == pid
    | .kernel _ (.reap ..) => false
    | _ => true

private theorem nobodyEnds_keeps (machine : Machine) (event : Event)
    (calm : nobodyEnds machine event = true) : machine.KeepsParents event := by
  obtain ⟨nobody, calm⟩ := Bool.and_eq_true_iff.mp calm
  refine ⟨fun self victim => ?_, fun call self inside _ current => ?_,
    fun call target status handle inside => ?_⟩
  · rw [victim] at nobody
    cases nobody
  · simp only [inside, current, Option.all_some, Option.any_eq_true, Bool.and_eq_true,
      bne_iff_ne, beq_iff_eq] at calm
    exact calm
  · rw [inside] at calm
    cases calm

/-- The second child of the first process has a live parent, in fact its elder sibling. -/
theorem every_process_has_live_parent_second :
    ∃ machine, Run Machine.step Machine.KeepsParents (.boot noFiles) machine ∧
      (2, 3) ∈ machine.kernel.sched.table ∧ machine.kernel.sched.Lives
        (machine.kernel.sched.procs 3).ppid := by
  have seen : ((follow Machine.step nobodyEnds (.boot noFiles) secondChild).any
      fun machine => decide ((2, 3) ∈ machine.kernel.sched.table)) = true := by
    decide +kernel
  obtain ⟨machine, _, run, look⟩ := Run.seen nobodyEnds_keeps seen
  have here := of_decide_eq_true look
  exact ⟨machine, run, here, every_process_has_live_parent run _ here (by decide) (by decide)⟩

/-- Process 2 forks process 3 and exits: the parent of process 3 is a zombie. -/
theorem exit_orphans_child :
    ∃ machine, Run Machine.step (fun _ _ => True) (.boot noFiles) machine ∧
      (3, 4) ∈ machine.kernel.sched.table ∧ (machine.kernel.sched.procs 4).ppid = 2 ∧
      machine.kernel.sched.table.get 2 = some 3 ∧ machine.kernel.sched.stateOf 3 = .zombie := by
  have seen : ((follow Machine.step (fun _ _ => true) (.boot noFiles)
      (secondChild ++ [.tick true, .tick true, .syscall .fork] ++ List.replicate 5 (.run .go) ++
        [.syscall (.exit 0), .run .go])).any fun machine =>
          decide ((3, 4) ∈ machine.kernel.sched.table ∧ (machine.kernel.sched.procs 4).ppid = 2 ∧
            machine.kernel.sched.table.get 2 = some 3 ∧
            machine.kernel.sched.stateOf 3 = .zombie)) = true := by
    decide +kernel
  obtain ⟨machine, _, run, look⟩ := Run.seen (fun _ _ _ => trivial) seen
  exact ⟨machine, run, of_decide_eq_true look⟩

end RustPosix.Sched
