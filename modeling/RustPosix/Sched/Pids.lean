import RustPosix.Sched.Changes
import RustPosix.Sched.FirstProcess

/-! The numbers that `alloc_pid` hands out from boot on. `NEXT_PID` starts at the number that
boot has given to the first process, and wraps. -/

namespace RustPosix.Sched

open Library Vfs

/-- How many forks it takes until `NEXT_PID` wraps. -/
def lap : Nat := 2 ^ 31 - 1

/-- The place of a fork in its lap, given the number of forks before it. The two first forks
of every lap but the first share a place. -/
def lapPlace (forks : Nat) : Nat :=
  if forks < lap then forks else max 1 ((forks - lap) % lap)

/-- `NEXT_PID` after some forks. -/
def pidCounter (forks : Nat) : Int :=
  if forks < lap then forks + 1
  else if (forks - lap) % lap = 0 then -2 ^ 31
  else ((forks - lap) % lap : Nat) + 1

theorem lap_eq : lap = 2147483647 := by decide

/-- The counter has wrapped. -/
theorem pidCounter_wrapped {forks : Nat} (wrapped : pidCounter forks ≤ 0) :
    lapPlace forks = 1 ∧ pidCounter (forks + 1) = 2 := by
  unfold pidCounter at wrapped ⊢
  unfold lapPlace
  rw [lap_eq] at wrapped ⊢
  split_ifs at wrapped ⊢
  all_goals omega

theorem pidCounter_counts {forks : Nat} (counts : ¬ pidCounter forks ≤ 0) :
    pidCounter forks = lapPlace forks + 1 ∧
      pidCounter (forks + 1) = Scheduler.wrapI32 (pidCounter forks + 1) := by
  unfold pidCounter at counts ⊢
  unfold lapPlace Scheduler.wrapI32
  rw [lap_eq] at counts ⊢
  split_ifs at counts ⊢
  all_goals omega

namespace Scheduler

variable {sched after : Scheduler} {forks : Nat}

theorem allocPid_eq (counted : sched.nextPid = pidCounter forks) :
    sched.allocPid =
      ((lapPlace forks : Int) + 1, { sched with nextPid := pidCounter (forks + 1) }) := by
  unfold allocPid
  rw [counted]
  by_cases wrapped : pidCounter forks ≤ 0
  · obtain ⟨place, counter⟩ := pidCounter_wrapped wrapped
    simp only [if_pos wrapped, place, counter]
    rfl
  · obtain ⟨place, counter⟩ := pidCounter_counts wrapped
    simp only [if_neg wrapped, counter, ← place]

/-- The number of the process behind a handle. -/
def bornPid (handle : Handle) : Pid :=
  match handle with
  | 0 => 1
  | 1 => 0
  | forks + 2 => (lapPlace forks : Int) + 1

/-- Every process has the number of its handle, and is in the table under it. -/
structure Numbered (sched : Scheduler) : Prop where
  booted : 2 ≤ sched.created
  counter : sched.nextPid = pidCounter (sched.created - 2)
  pids : ∀ handle < sched.created, (sched.procs handle).pid = bornPid handle
  table : ∀ entry ∈ sched.table, entry.2 < sched.created ∧ entry.1 = bornPid entry.2

theorem boot_numbered : Scheduler.boot.Numbered where
  booted := Nat.le_refl 2
  counter := by decide
  pids := by
    intro handle created
    match handle, created with
    | 0, _ => rfl
    | 1, _ => rfl
  table := by decide

theorem Calm.numbered (calm : sched.Calm after) (before : sched.Numbered) : after.Numbered where
  booted := calm.created ▸ before.booted
  counter := by
    rw [calm.nextPid, calm.created]
    exact before.counter
  pids handle created := by
    rw [calm.pid]
    exact before.pids handle (calm.created ▸ created)
  table := by
    rw [calm.table, calm.created]
    exact before.table

theorem Numbered.markZombie (before : sched.Numbered) (handle : Handle) (code : Int)
    (killedBySig : Option Int) : (sched.markZombie handle code killedBySig).Numbered where
  booted := before.booted
  counter := before.counter
  pids other created := by
    have same := before.pids other created
    by_cases self : other = handle
    · subst self
      simpa [Scheduler.markZombie, modifyProc] using same
    · simpa [Scheduler.markZombie, modifyProc, Function.update_of_ne self] using same
  table := before.table

theorem Numbered.reap (before : sched.Numbered) (target : Pid) :
    Numbered { sched with table := sched.table.remove target } where
  booted := before.booted
  counter := before.counter
  pids := before.pids
  table entry here := before.table entry (List.mem_filter.mp here).1

theorem Numbered.fork {kernel : Kernel} (before : kernel.sched.Numbered) (self : Handle) :
    (kernel.sysFork self).sched.Numbered := by
  obtain ⟨forks, created⟩ := Nat.exists_eq_add_of_le' before.booted
  have counter := before.counter
  rw [created] at counter
  simp only [Kernel.sysFork, allocPid_eq counter]
  refine ⟨Nat.le_succ_of_le before.booted, ?_, ?_, ?_⟩
  · simp [spawn, created]
  · intro handle old
    by_cases child : handle = kernel.sched.created
    · subst child
      simp [spawn, created, Process.new, bornPid]
    · have older : handle < kernel.sched.created :=
        Nat.lt_of_le_of_ne (Nat.le_of_lt_succ old) child
      simpa [spawn, Function.update_of_ne child] using before.pids handle older
  · intro entry here
    rcases ProcessTable.mem_of_mem_insert here with same | older
    · subst same
      refine ⟨Nat.lt_succ_self _, ?_⟩
      rw [created]
      rfl
    · obtain ⟨old, number⟩ := before.table entry older
      exact ⟨Nat.lt_succ_of_lt old, number⟩

end Scheduler

section Step

variable {machine after : Machine} {event : Event}

theorem step_numbered (before : machine.kernel.sched.Numbered)
    (next : machine.step event = some after) : after.kernel.sched.Numbered := by
  cases step_turn next with
  | calm calm => exact calm.numbered before
  | ends self _ middle first code killedBySig calm =>
    exact calm.numbered ((first.numbered before).markZombie self code killedBySig)
  | reaps _ _ _ target _ _ calm => exact calm.numbered (before.reap target)
  | forks _ _ _ self _ _ _ calm => exact calm.numbered (before.fork self)

theorem run_numbered {files : FileId → FileHandle} {allowed : Machine → Event → Prop}
    (run : Run Machine.step allowed (.boot files) machine) : machine.kernel.sched.Numbered :=
  run.invariant Scheduler.boot_numbered fun _ _ _ before _ next => step_numbered before next

theorem step_created (next : machine.step event = some after) :
    machine.kernel.sched.created ≤ after.kernel.sched.created := by
  cases step_turn next with
  | calm calm => exact calm.created.ge
  | ends _ _ _ first _ _ calm => exact (calm.created.trans first.created).ge
  | reaps _ _ _ _ _ _ calm => exact calm.created.ge
  | forks _ _ _ self _ _ _ calm =>
    rw [calm.created, sysFork_created]
    exact Nat.le_succ _

end Step

/-- The points at which `wait4` has found a child to reap. -/
def Pc.reaping : Pc → Bool
  | .settleFound .. | .reap .. | .cleanup .. => true
  | _ => false

/-- The first process is calling, and `wait4` has not found anybody. -/
def Ctx.Childless : Ctx → Prop
  | .kernel call pc => call.callerPid = 1 ∧ pc.reaping = false
  | _ => True

theorem exec_childless {kernel : Kernel} {self : Handle} {interrupts : Bool} {call : Call}
    {choice : Choice} {pc : Pc} {outcome : Outcome}
    (orphans : ∀ handle, (kernel.sched.procs handle).ppid = 0)
    (before : Ctx.Childless (.kernel call pc))
    (next : kernel.exec self interrupts call choice pc = some outcome) :
    outcome.move.All (fun frame => frame.ctx.Childless) outcome.call interrupts := by
  obtain ⟨caller, searching⟩ := before
  have nobody (handle : Handle) : (kernel.sched.procs handle).ppid ≠ call.callerPid := by
    rw [orphans, caller]
    decide
  cases pc with
  | reap | cleanup | settleFound => cases searching
  | act =>
    cases next
    exact ⟨caller, runAct_next (·.reaping = false) rfl rfl (fun _ => rfl) _⟩
  | inspect candidates rest hasChildren =>
    simp only [Kernel.exec, nobody, if_false] at next
    split at next
    · cases next
      exact ⟨caller, rfl⟩
    · cases next
      refine ⟨caller, ?_⟩
      split
      · rfl
      · rfl
    · cases next
  | recheck rest =>
    simp only [Kernel.exec, nobody, false_and, if_false] at next
    split at next
    · cases next
      exact ⟨caller, rfl⟩
    · cases next
      exact ⟨caller, rfl⟩
  | _ =>
    simp only [Kernel.exec] at next
    repeat' split at next
    all_goals
      cases next <;> first
        | exact trivial
        | exact ⟨caller, rfl⟩
        | exact ⟨⟨caller, rfl⟩, caller, rfl⟩

/-- Nobody has been forked: the first process is there, and is nobody's child. -/
structure Machine.Early (files : FileId → FileHandle) (machine : Machine) : Prop
    extends machine.Contexts files (fun frame => frame.ctx.Childless) where
  tidy : ∃ task, machine.kernel.Tidy (· = firstProcess) 1 machine.ctx task
  numbered : machine.kernel.sched.Numbered
  orphans : ∀ handle, (machine.kernel.sched.procs handle).ppid = 0
  first : (1, firstProcess) ∈ machine.kernel.sched.table

theorem boot_early (files : FileId → FileHandle) : (Machine.boot files).Early files where
  files := rfl
  running := trivial
  saved handle := by
    simp only [Machine.boot]
    split
    · trivial
    · trivial
  tidy := ⟨_, boot_tidy files⟩
  numbered := Scheduler.boot_numbered
  orphans handle := by
    simp only [Machine.boot, Scheduler.boot]
    split
    · rfl
    · rfl
  first := List.mem_cons_of_mem _ List.mem_cons_self

section Early

variable {files : FileId → FileHandle} {machine after : Machine} {event : Event}

theorem Machine.Early.current (early : machine.Early files)
    (alone : machine.kernel.sched.created = 2) {self : Handle}
    (current : machine.kernel.sched.current = some self) : self = firstProcess ∨ self = 1 := by
  obtain ⟨task, tidy⟩ := early.tidy
  cases Option.some.inj (current.symm.trans tidy.orderly.current)
  have created := tidy.orderly.selfCreated
  rw [alone] at created
  exact Nat.le_one_iff_eq_zero_or_eq_one.mp (Nat.le_of_lt_succ created)

/-- The idle task makes no calls, so that the caller is the first process. -/
theorem Machine.Early.caller (early : machine.Early files)
    (alone : machine.kernel.sched.created = 2) {self : Handle} (ring3 : machine.ctx = .user)
    (current : machine.kernel.sched.current = some self) (request : Request) :
    machine.kernel.callerPid self request = 1 := by
  have isFirst := early.current alone current
  obtain ⟨task, tidy⟩ := early.tidy
  cases Option.some.inj (current.symm.trans tidy.orderly.current)
  have busy : self ≠ 1 := tidy.busy (ring3.trans_ne Ctx.noConfusion)
  have pid : (machine.kernel.sched.procs self).pid = 1 := by
    rw [early.numbered.pids self tidy.orderly.selfCreated, isFirst.resolve_right busy]
    rfl
  unfold Kernel.callerPid
  split
  · exact tidy.orderly.currentPid.trans pid
  · exact pid

/-- The first process, never marked running, is never marked blocked. -/
theorem Machine.Early.careful (early : machine.Early files)
    (alone : machine.kernel.sched.created = 2) : machine.Careful event := by
  cases event with
  | run choice =>
    intro self call current blocked
    obtain ⟨task, tidy⟩ := early.tidy
    rcases early.current alone current with rfl | rfl
    · have first := tidy.exemptState firstProcess rfl
      simp [blocked] at first
    · have idle := tidy.orderly.idleState
      simp [blocked] at idle
  | _ => trivial

theorem Machine.Early.step (early : machine.Early files)
    (alone : machine.kernel.sched.created = 2) (next : machine.step event = some after)
    (still : after.kernel.sched.created = 2) : after.Early files := by
  have contexts := early.toContexts.step trivial
    (fun self request _ ring3 current =>
      ⟨early.caller alone ring3 current request, by cases request <;> rfl⟩)
    (fun self call choice pc outcome inside ran =>
      exec_childless early.orphans (inside ▸ early.running) ran) next
  obtain ⟨task, tidy⟩ := early.tidy
  suffices kept : (∀ handle, (after.kernel.sched.procs handle).ppid = 0) ∧
      after.kernel.sched.table = machine.kernel.sched.table from
    ⟨contexts, step_tidy tidy (early.careful alone) next, step_numbered early.numbered next,
      kept.1, kept.2 ▸ early.first⟩
  cases step_turn next with
  | calm calm => exact ⟨fun handle => (calm.ppid handle).trans (early.orphans handle), calm.table⟩
  | ends self _ middle first code killedBySig calm =>
    refine ⟨fun handle => (calm.ppid handle).trans ?_, calm.table.trans first.table⟩
    have orphan := (first.ppid handle).trans (early.orphans handle)
    simp only [Scheduler.markZombie, Scheduler.modifyProc, Function.update_apply]
    split
    · rename_i same
      exact same ▸ orphan
    · exact orphan
  | reaps _ _ call target status inside _ =>
    have running := early.running
    rw [inside] at running
    cases running.2
  | forks _ _ call self _ _ _ calm =>
    have more := calm.created.trans (sysFork_created self)
    rw [still, alone] at more
    cases more

theorem run_early (run : Run Machine.step (fun _ _ => True) (.boot files) machine)
    (alone : machine.kernel.sched.created = 2) : machine.Early files := by
  induction run with
  | start => exact boot_early files
  | step ran event _ next ih =>
    have before := (run_numbered ran).booted
    have more := step_created next
    rw [alone] at more
    exact (ih (Nat.le_antisymm more before)).step (Nat.le_antisymm more before) next alone

end Early

theorem ProcessTable.mem_insert_of_ne {table : ProcessTable} {pid : Pid} {handle : Handle}
    {entry : Pid × Handle} (here : entry ∈ table) (other : entry.1 ≠ pid) :
    entry ∈ table.insert pid handle := by
  induction table with
  | nil => cases here
  | cons head rest ih =>
    obtain ⟨key, owner⟩ := head
    unfold ProcessTable.insert
    rcases List.mem_cons.mp here with rfl | later
    · split
      · exact List.mem_cons_of_mem _ here
      · split
        · rename_i same
          exact absurd same.symm other
        · exact List.mem_cons_self
    · split
      · exact List.mem_cons_of_mem _ here
      · split
        · exact List.mem_cons_of_mem _ later
        · exact List.mem_cons_of_mem _ (ih later)

/-- Two forks of the first lap have places of their own. -/
theorem lapPlace_first {earlier forks : Nat} (before : earlier < forks) (first : forks < lap) :
    lapPlace earlier ≠ lapPlace forks := by
  unfold lapPlace
  rw [if_pos first, if_pos (Nat.lt_trans before first)]
  exact Nat.ne_of_lt before

theorem lapPlace_pos {forks : Nat} (later : forks ≠ 0) : 0 < lapPlace forks := by
  unfold lapPlace
  split
  · exact Nat.pos_of_ne_zero later
  · exact Nat.lt_of_lt_of_le Nat.one_pos (Nat.le_max_left ..)

theorem bornPid_ne {handle : Handle} {forks : Nat} (later : forks ≠ 0)
    (apart : ∀ earlier, handle = earlier + 2 → lapPlace earlier ≠ lapPlace forks) :
    Scheduler.bornPid handle ≠ (lapPlace forks : Int) + 1 := by
  have place := lapPlace_pos later
  match handle with
  | 0 =>
    have differs : (1 : Int) ≠ lapPlace forks + 1 := by omega
    exact differs
  | 1 =>
    have differs : (0 : Int) ≠ lapPlace forks + 1 := by omega
    exact differs
  | earlier + 2 =>
    have other := apart earlier rfl
    have differs : (lapPlace earlier : Int) + 1 ≠ lapPlace forks + 1 := by omega
    exact differs

/-- After boot and some forks the next one gets a positive number, and one that is not in the
table exactly if it is not the first fork and, once `NEXT_PID` has wrapped, no process that is
still in the table was forked at the same place of its lap. Then it replaces nobody. -/
theorem fork_pid_is_fresh_iff {files : FileId → FileHandle} {machine : Machine}
    (run : Run Machine.step (fun _ _ => True) (.boot files) machine) {forks : Nat}
    (counted : machine.kernel.sched.created = forks + 2) :
    0 < machine.kernel.sched.allocPid.1 ∧
    ((∀ entry ∈ machine.kernel.sched.table, entry.1 ≠ machine.kernel.sched.allocPid.1) ↔
      forks ≠ 0 ∧ (forks < lap ∨ ∀ entry ∈ machine.kernel.sched.table, ∀ earlier,
        entry.2 = earlier + 2 → lapPlace earlier ≠ lapPlace forks)) ∧
    ((∀ entry ∈ machine.kernel.sched.table, entry.1 ≠ machine.kernel.sched.allocPid.1) →
      ∀ self, ∀ entry ∈ machine.kernel.sched.table,
        entry ∈ (machine.kernel.sysFork self).sched.table) := by
  have numbered := run_numbered run
  have counter : machine.kernel.sched.nextPid = pidCounter forks := by
    rw [numbered.counter, counted, Nat.add_sub_cancel]
  have number : machine.kernel.sched.allocPid.1 = (lapPlace forks : Int) + 1 := by
    rw [Scheduler.allocPid_eq counter]
  refine ⟨?_, ⟨?_, ?_⟩, ?_⟩
  · rw [number]
    exact Int.lt_add_one_of_le (Int.natCast_nonneg _)
  · intro fresh
    rw [number] at fresh
    constructor
    · rintro rfl
      exact fresh _ (run_early run counted).first rfl
    · right
      intro entry here earlier born same
      apply fresh entry here
      rw [(numbered.table entry here).2, born, ← same]
      rfl
  · rintro ⟨later, apart⟩ entry here
    obtain ⟨created, key⟩ := numbered.table entry here
    rw [number, key]
    apply bornPid_ne later
    intro earlier born
    rcases apart with first | apart
    · rw [born, counted] at created
      exact lapPlace_first (Nat.lt_of_add_lt_add_right created) first
    · exact apart entry here earlier born
  · intro fresh self entry here
    simp only [Kernel.sysFork, Scheduler.allocPid_eq counter]
    exact ProcessTable.mem_insert_of_ne here (number ▸ fresh entry here)

private def plainFiles : FileId → FileHandle := fun _ => ⟨.plain, 0⟩

private def twoForks : List Event :=
  [.syscall .fork] ++ List.replicate 5 (.run .go) ++ [.syscall .fork]

/-- The second fork from boot on gets the number 2, which is new. -/
theorem fork_pid_is_fresh_iff_second :
    ∃ machine, Run Machine.step (fun _ _ => True) (.boot plainFiles) machine ∧
      machine.kernel.sched.created = 3 ∧
      ∀ entry ∈ machine.kernel.sched.table, entry.1 ≠ machine.kernel.sched.allocPid.1 := by
  have seen : ((follow Machine.step (fun _ _ => true) (.boot plainFiles) twoForks).any
      fun machine => decide (machine.kernel.sched.created = 3)) = true := by
    decide +kernel
  obtain ⟨machine, _, run, look⟩ := Run.seen (fun _ _ _ => trivial) seen
  have created := of_decide_eq_true look
  refine ⟨machine, run, created, (fork_pid_is_fresh_iff run created).2.1.mpr ?_⟩
  exact ⟨Nat.one_ne_zero, .inl (by decide)⟩

/-- The first fork gets the number of the first process, whose entry it replaces. -/
theorem first_fork_replaces_first_process :
    Scheduler.boot.allocPid.1 = 1 ∧ (1, firstProcess) ∈ Scheduler.boot.table ∧
    ∃ machine, Run Machine.step (fun _ _ => True) (.boot plainFiles) machine ∧
      machine.kernel.sched.stateOf firstProcess ≠ .zombie ∧
      machine.kernel.sched.table = [(0, 1), (1, 2)] := by
  refine ⟨rfl, by decide, ?_⟩
  have seen : ((follow Machine.step (fun _ _ => true) (.boot plainFiles)
      [.syscall .fork, .run .go]).any fun machine =>
        decide (machine.kernel.sched.stateOf firstProcess ≠ .zombie ∧
          machine.kernel.sched.table = [(0, 1), (1, 2)])) = true := by
    decide +kernel
  obtain ⟨machine, _, run, look⟩ := Run.seen (fun _ _ _ => trivial) seen
  exact ⟨machine, run, of_decide_eq_true look⟩

end RustPosix.Sched
