import RustPosix.Sched.Frames

/-! The guard of the offset of a file lives as long as the read or write, across the
switches of the call and with the interrupt flag it saved at the start. -/

namespace RustPosix.Sched

open Library

namespace Call

variable (files : FileId → FileHandle) (call : Call)

/-- The call holds the offset of its file, and saved the flag while interrupts were off. -/
def Guarded : Prop := ∃ file, call.request.file? = some file ∧ call.guard = some (file, false)

/-- The call is in the loop of a pipe. -/
def Pipes : Prop := call.Guarded ∧ (call.request.pipeIo files).isSome

/-- The call is a `wait4`, which holds nothing. -/
def Waits : Prop := call.guard = none ∧ ∃ pid options, call.request = .wait4 pid options

/-- What a call at a point holds. -/
def Fits : Pc → Prop
  | .lockOffset => call.guard = none ∧ call.switched = false
  | .markPipe | .pipeSection | .wake .. | .settle _ | .removeWaiter => call.Pipes files
  | .unlockOffset => call.Guarded
  | .switchOut | .sti | .resumed | .checkSignals => call.Pipes files ∨ call.Waits
  | .snapshot | .inspect .. | .markWait _ | .recheck _ | .settleFound .. | .reap ..
  | .cleanup .. | .release _ | .dropWake .. => call.Waits
  | .yield | .yieldSti => call.guard = none ∧ call.request.file? = none
  | _ => call.guard = none

/-- The interrupt flag between the sections of a call. -/
def level : Bool := call.switched && (call.guard.isSome || call.request.file?.isNone)

end Call

/-- The points at which the flag is settled: not those between a switch and the `sti` behind
it, and not those of a process that ends. -/
def Pc.settled : Pc → Bool
  | .sti | .yieldSti | .exitSti | .exitMark .. | .exitWake _ | .exitLoop => false
  | _ => true

/-- A context with the guard and the flag that belong to it. -/
def Frame.Stands (files : FileId → FileHandle) (frame : Frame) : Prop :=
  match frame.ctx with
  | .user | .idle => frame.interrupts = true
  | .kernel call pc =>
    call.Fits files pc ∧ (pc.settled = true → frame.interrupts = call.level)

section Exec

variable {files : FileId → FileHandle} {kernel : Kernel} {self : Handle} {interrupts : Bool}
  {call : Call} {choice : Choice} {pc : Pc} {outcome : Outcome}

theorem Call.Guarded.file (guarded : call.Guarded) : call.request.file?.isSome = true := by
  obtain ⟨file, named, _⟩ := guarded
  rw [named]
  rfl

theorem Call.Waits.file (waits : call.Waits) : call.request.file? = none := by
  obtain ⟨_, pid, options, request⟩ := waits
  rw [request]
  rfl

/-- In the loops the flag is on exactly after the first switch. -/
theorem Call.level_loop (loops : call.Pipes files ∨ call.Waits) : call.level = call.switched := by
  unfold Call.level
  rcases loops with ⟨⟨file, _, guard⟩, _⟩ | waits
  · rw [guard]
    exact Bool.and_true _
  · rw [waits.file, Option.isNone_none, Bool.or_true, Bool.and_true]

/-- A section that stays in the call and keeps the flag. -/
theorem stands_goto {next : Pc} (settled : pc.settled = true)
    (flag : pc.settled = true → interrupts = call.level) (fits : call.Fits files next) :
    Frame.Stands files ⟨.kernel call next, interrupts⟩ :=
  ⟨fits, fun _ => flag settled⟩

theorem runAct_fits {request : Request} (free : call.guard = none) :
    call.Fits files (kernel.runAct self choice request).2 :=
  runAct_next (call.Fits files) free free (fun _ => free) request

theorem exec_stands (stands : Frame.Stands kernel.files ⟨.kernel call pc, interrupts⟩)
    (next : kernel.exec self interrupts call choice pc = some outcome) :
    outcome.move.All (Frame.Stands kernel.files) outcome.call interrupts := by
  obtain ⟨fits, flag⟩ := stands
  cases pc with
  | lockOffset =>
    obtain ⟨_, fresh⟩ := fits
    have off : interrupts = false := (flag rfl).trans (by rw [Call.level, fresh]; rfl)
    subst off
    simp only [Kernel.exec] at next
    split at next
    · cases next
    · rename_i file named
      split at next
      · cases next
      · cases next
        refine ⟨?_, fun _ => ?_⟩
        · split
          · rename_i piped
            exact ⟨⟨file, named, rfl⟩, piped⟩
          · exact ⟨file, named, rfl⟩
        · simp [Call.level, fresh]
  | unlockOffset =>
    obtain ⟨file, named, guard⟩ := fits
    simp only [Kernel.exec, guard] at next
    cases next
    refine ⟨rfl, fun _ => ?_⟩
    simp [Call.level, named]
  | sti =>
    cases next
    refine ⟨fits, fun _ => ?_⟩
    exact (@Call.level_loop kernel.files { call with switched := true } fits).symm
  | yieldSti =>
    cases next
    refine ⟨fits.1, fun _ => ?_⟩
    simp [Call.level, fits.2]
  | checkSignals =>
    simp only [Kernel.exec] at next
    cases next
    apply stands_goto rfl flag
    split
    · rename_i request
      rcases fits with pipes | waits
      · have file := pipes.1.file
        rw [request] at file
        cases file
      · exact waits
    · rename_i other
      rcases fits with pipes | waits
      · split
        · exact pipes
        · exact pipes
      · obtain ⟨_, pid, options, request⟩ := waits
        exact absurd request (other pid options)
  | act =>
    cases next
    apply stands_goto rfl flag
    exact runAct_fits fits
  | pipeSection =>
    simp only [Kernel.exec] at next
    split at next
    · cases next
    · split at next
      · cases next
        exact stands_goto rfl flag fits.1
      · cases next
        exact stands_goto rfl flag fits
  | wake pids shouldSwitch done =>
    cases next
    apply stands_goto rfl flag
    split
    · exact .inl fits
    · exact fits
  | settle done =>
    cases next
    apply stands_goto rfl flag
    split
    · exact fits.1
    · exact fits
  | removeWaiter =>
    simp only [Kernel.exec] at next
    split at next
    · cases next
    · cases next
      exact stands_goto rfl flag fits.1
  | snapshot =>
    simp only [Kernel.exec] at next
    split at next
    · cases next
      apply stands_goto rfl flag
      split
      · exact fits
      · exact fits
    · cases next
  | inspect candidates rest hasChildren =>
    simp only [Kernel.exec] at next
    split at next
    · cases next
      apply stands_goto rfl flag
      split
      · split
        · exact fits
        · exact fits
      · exact fits
    · cases next
      apply stands_goto rfl flag
      split
      · exact fits
      · exact fits
    · cases next
  | recheck rest =>
    simp only [Kernel.exec] at next
    split at next
    · cases next
      apply stands_goto rfl flag
      split
      · exact fits
      · exact fits
    · cases next
      exact stands_goto rfl flag (.inr fits)
  | release again =>
    simp only [Kernel.exec] at next
    split at next
    · cases next
      exact stands_goto rfl flag fits
    · cases next
      apply stands_goto rfl flag
      split
      · exact fits
      · exact fits.1
  | switchOut =>
    cases next
    exact ⟨⟨fits, by rintro ⟨⟩⟩, fits, flag⟩
  | exitLoop =>
    cases next
    exact ⟨⟨fits, by rintro ⟨⟩⟩, fits, by rintro ⟨⟩⟩
  | closeWake pids =>
    simp only [Kernel.exec] at next
    split at next
    · cases next
    · cases next
      exact stands_goto rfl flag fits
  | yield =>
    cases next
    exact ⟨⟨fits, by rintro ⟨⟩⟩, fits.1, flag⟩
  | deliver =>
    simp only [Kernel.exec] at next
    split at next
    · cases next
      exact stands_goto rfl flag fits
    · cases next
      exact ⟨fits, by rintro ⟨⟩⟩
  | exitMark | exitWake | exitSti =>
    cases next
    exact ⟨fits, by rintro ⟨⟩⟩
  | sysretq =>
    cases next
    trivial
  -- The sections left are in one place and go on to one place that asks for the same.
  | _ =>
    cases next
    exact stands_goto rfl flag fits

/-- Guard and flag belong to the point in every context of every run. -/
theorem stands_local (files : FileId → FileHandle) : Local files (Frame.Stands files) where
  user := rfl
  entry request callerPid := by
    cases request with
    | read | write => exact ⟨⟨rfl, rfl⟩, fun _ => rfl⟩
    | wait4 pid options => exact ⟨⟨rfl, pid, options, rfl⟩, fun _ => rfl⟩
    | schedYield => exact ⟨⟨rfl, rfl⟩, fun _ => rfl⟩
    | exit => exact ⟨rfl, by rintro ⟨⟩⟩
    | _ => exact ⟨rfl, fun _ => rfl⟩
  exec kernel self interrupts call choice pc outcome same stands next := by
    subst same
    exact exec_stands stands next

theorem boot_stands {files : FileId → FileHandle} {allowed : Machine → Event → Prop}
    {machine : Machine} (run : Run Machine.step allowed (.boot files) machine) :
    machine.Contexts files (Frame.Stands files) :=
  (stands_local files).run run ((stands_local files).boot rfl)

end Exec

/-! ## Interrupts on the way out -/

/-- The user stack pointer is about to be installed, or is, and control is still in ring 0. -/
def Pc.leaving : Pc → Bool
  | .popRsp | .swapgs | .sysretq => true
  | _ => false

/-- Interrupts are off on the way out exactly in calls that have not come back from a switch
and in reads and writes, whose guard turns them off again. -/
theorem interrupts_masked_on_exit_iff {files : FileId → FileHandle} {machine : Machine}
    (run : Run Machine.step (fun _ _ => True) (.boot files) machine) {call : Call} {pc : Pc}
    (inside : machine.ctx = .kernel call pc) (leaving : pc.leaving = true) :
    machine.interrupts = false ↔
      call.switched = false ∨ call.request.file?.isSome = true := by
  have stands := (boot_stands run).running
  rw [inside] at stands
  obtain ⟨fits, flag⟩ := stands
  have free : call.guard = none := by
    cases pc with
    | popRsp | swapgs | sysretq => exact fits
    | _ => cases leaving
  have settled : pc.settled = true := by
    cases pc with
    | popRsp | swapgs | sysretq => rfl
    | _ => cases leaving
  have level : machine.interrupts = call.level := flag settled
  rw [level, Call.level, free, Bool.and_eq_false_iff, Option.isSome_none, Bool.false_or]
  apply or_congr_right
  exact Option.isNone_eq_false_iff

private def go (count : Nat) : List Event := List.replicate count (.run .go)

private def noPipes : FileId → FileHandle := fun _ => ⟨.plain, 0⟩

private def atPopRsp (interrupts : Bool) (machine : Machine) : Bool :=
  match machine.ctx with
  | .kernel _ .popRsp => machine.interrupts == interrupts
  | _ => false

private theorem atPopRsp_ctx {interrupts : Bool} {machine : Machine}
    (seen : atPopRsp interrupts machine = true) :
    ∃ call, machine.ctx = .kernel call .popRsp ∧ machine.interrupts = interrupts := by
  unfold atPopRsp at seen
  split at seen
  · rename_i call inside
    exact ⟨call, inside, beq_iff_eq.mp seen⟩
  · cases seen

/-- A call that does nothing comes back with interrupts off. -/
theorem interrupts_masked_on_exit_iff_other :
    ∃ machine call, Run Machine.step (fun _ _ => True) (.boot noPipes) machine ∧
      machine.ctx = .kernel call .popRsp ∧ call.switched = false ∧
      machine.interrupts = false := by
  have seen : ((follow Machine.step (fun _ _ => true) (.boot noPipes)
      ([.syscall .other] ++ go 2)).any fun machine =>
        match machine.ctx with
        | .kernel call .popRsp => !call.switched
        | _ => false) = true := by
    decide +kernel
  obtain ⟨machine, _, run, look⟩ := Run.seen (fun _ _ _ => trivial) seen
  split at look
  · rename_i call inside
    have fresh : call.switched = false := Bool.not_eq_true' _ ▸ look
    refine ⟨machine, call, run, inside, fresh, ?_⟩
    exact (interrupts_masked_on_exit_iff run inside rfl).mpr (.inl fresh)
  · cases look

/-- The first process forks a child that takes over and forks a child of its own; the parent
waits, the child exits, and the parent comes back. -/
def waitTrace : List Event :=
  [.syscall .fork] ++ go 5 ++ [.tick true] ++
  [.syscall .fork] ++ go 5 ++
  [.syscall (.wait4 (-1) 0)] ++ go 11 ++
  [.syscall (.exit 0)] ++ go 3 ++ go 12

theorem wait4_leaves_with_interrupts :
    ∃ machine call, Run Machine.step (fun _ _ => True) (.boot noPipes) machine ∧
      machine.ctx = .kernel call .popRsp ∧ machine.interrupts = true := by
  have seen : ((follow Machine.step (fun _ _ => true) (.boot noPipes) waitTrace).any
      (atPopRsp true)) = true := by
    decide +kernel
  obtain ⟨machine, _, run, look⟩ := Run.seen (fun _ _ _ => trivial) seen
  obtain ⟨call, inside, enabled⟩ := atPopRsp_ctx look
  exact ⟨machine, call, run, inside, enabled⟩

/-! ## Locks of sleeping processes -/

/-- Locks that are held from one section to the next. -/
inductive Lock where
  | offset (file : FileId)
  | process
  deriving DecidableEq, Repr

/-- The locks whose guards a context keeps alive. -/
def Ctx.locks : Ctx → List Lock
  | .user | .idle => []
  | .kernel call pc =>
    (call.guard.map fun guard => Lock.offset guard.1).toList ++
      match pc with
      | .closeWake _ => [.process]
      | _ => []

/-- A process executes `switch_out_current`. -/
def Pc.switchesOut : Pc → Bool
  | .switchOut | .exitLoop => true
  | _ => false

theorem Call.Pipes.some {files : FileId → FileHandle} {call : Call} (pipes : call.Pipes files) :
    call.guard ≠ none ∧ call.request.pipeIo files ≠ none := by
  obtain ⟨⟨file, _, guard⟩, piped⟩ := pipes
  exact ⟨guard ▸ Option.some_ne_none _, Option.isSome_iff_ne_none.mp piped⟩

theorem Call.Waits.none {files : FileId → FileHandle} {call : Call} (waits : call.Waits) :
    call.guard = none ∧ call.request.pipeIo files = none := by
  obtain ⟨guard, pid, options, request⟩ := waits
  exact ⟨guard, request ▸ rfl⟩

/-- A call that blocks has a guard exactly if it is in the loop of a pipe. -/
theorem guard_none_iff {files : FileId → FileHandle} {call : Call}
    (loops : call.Pipes files ∨ call.Waits) :
    call.guard = none ↔ call.request.pipeIo files = none := by
  rcases loops with pipes | waits
  · exact iff_of_false pipes.some.1 pipes.some.2
  · obtain ⟨guard, plain⟩ := @Call.Waits.none files call waits
    exact iff_of_true guard plain

/-- A process that executes `switch_out_current` holds no lock exactly if it is not in the
loop of a pipe, and so it is for the processes that have been switched out there. -/
theorem sleeps_without_lock_iff {files : FileId → FileHandle} {machine : Machine}
    (run : Run Machine.step (fun _ _ => True) (.boot files) machine) :
    (∀ call pc, machine.ctx = .kernel call pc → pc.switchesOut = true →
      (machine.ctx.locks = [] ↔ pc = .exitLoop ∨ call.request.pipeIo files = none)) ∧
    ∀ handle call, (machine.kernel.frames handle).ctx = .kernel call .sti →
      ((machine.kernel.frames handle).ctx.locks = [] ↔ call.request.pipeIo files = none) := by
  have contexts := boot_stands run
  constructor
  · intro call pc inside switching
    have stands := contexts.running
    rw [inside] at stands ⊢
    cases pc with
    | switchOut => simpa [Ctx.locks] using guard_none_iff stands.1
    | exitLoop =>
      have free : call.guard = none := stands.1
      simp [Ctx.locks, free]
    | _ => cases switching
  · intro handle call inside
    have stands := contexts.saved handle
    unfold Frame.Stands at stands
    rw [inside] at stands ⊢
    simpa [Ctx.locks] using guard_none_iff stands.1

private def onePipe : FileId → FileHandle := fun file =>
  if file = 0 then ⟨.readEnd 0, 0⟩ else ⟨.plain, 0⟩

/-- The call is one without a pipe and its process is being switched out. -/
private def sleepsElsewhere (machine : Machine) : Bool :=
  match machine.ctx with
  | .kernel call .switchOut => (call.request.pipeIo noPipes).isNone
  | _ => false

/-- A process waits for its children without a lock. -/
theorem sleeps_without_lock_iff_wait4 :
    ∃ machine call, Run Machine.step (fun _ _ => True) (.boot noPipes) machine ∧
      machine.ctx = .kernel call .switchOut ∧ machine.ctx.locks = [] := by
  have seen : ((follow Machine.step (fun _ _ => true) (.boot noPipes)
      ([.syscall .fork] ++ go 5 ++ [.syscall (.wait4 (-1) 0)] ++ go 8)).any sleepsElsewhere) = true := by
    decide +kernel
  obtain ⟨machine, _, run, look⟩ := Run.seen (fun _ _ _ => trivial) seen
  rw [sleepsElsewhere] at look
  split at look
  · rename_i call inside
    refine ⟨machine, call, run, inside, ?_⟩
    apply ((sleeps_without_lock_iff run).1 call .switchOut inside rfl).mpr
    exact .inr (Option.isNone_iff_eq_none.mp look)
  · cases look

/-- The first process reads from an empty pipe: it is switched out with the lock of the
offset of the file, which stays locked. -/
theorem pipe_read_sleeps_with_lock :
    ∃ machine, Run Machine.step (fun _ _ => True) (.boot onePipe) machine ∧
      machine.kernel.sched.current = some 1 ∧ machine.kernel.offsets 0 = some 0 ∧
      (machine.kernel.frames 0).ctx.locks = [.offset 0] := by
  have seen : ((follow Machine.step (fun _ _ => true) (.boot onePipe)
      ([.syscall (.read 0 1)] ++ go 5)).any fun machine =>
        decide (machine.kernel.sched.current = some 1 ∧ machine.kernel.offsets 0 = some 0 ∧
          (machine.kernel.frames 0).ctx.locks = [.offset 0])) = true := by
    decide +kernel
  obtain ⟨machine, _, run, look⟩ := Run.seen (fun _ _ _ => trivial) seen
  exact ⟨machine, run, of_decide_eq_true look⟩

end RustPosix.Sched
