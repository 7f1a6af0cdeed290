import RustPosix.Posix.Signals
import RustPosix.Sched.Changes

/-! What a call of `sys_wait4` does to `PROCESS_TABLE` and to the signals by the time it
returns, section by section, whatever others do in between. Unlike in the machine, the call
has a status pointer here. -/

namespace RustPosix.Sched

open Library Vfs Ipc Posix

theorem ProcessTable.mem_remove {table : ProcessTable} {target : Pid} {entry : Pid × Handle} :
    entry ∈ table.remove target ↔ entry ∈ table ∧ entry.1 ≠ target := by
  unfold ProcessTable.remove
  rw [List.mem_filter, decide_eq_true_eq]

/-- What `sys_wait4` returns: `ECHILD`, 0, or a child and its status word. -/
inductive WaitResult where
  | echild
  | nothing
  | reaped (target : Pid) (status : Int)
  deriving DecidableEq, Repr

/-- What `sys_wait4` returns from a section, if it returns there and can write the status. -/
def Kernel.waitResult (kernel : Kernel) (call : Call) : Pc → Option WaitResult
  | .snapshot =>
    match call.request with
    | .wait4 pid _ => if pid > 0 ∧ kernel.candidates pid = [] then some .echild else none
    | _ => none
  | .inspect _ [] false => some .echild
  | .inspect _ [] true =>
    match call.request with
    | .wait4 _ options => if options &&& wnohang ≠ 0 then some .nothing else none
    | _ => none
  | .cleanup target status => some (.reaped target status)
  | _ => none

def echild : Int := 10

/-- The pointer that a caller passes for the status, with its memory. Nobody else can change
that while the caller is in its call. -/
structure StatusPtr where
  space : UserSpace
  addr : Nat

/-- Null asks for no status; otherwise there must be four bytes to write to. -/
def StatusPtr.fits (ptr : StatusPtr) : Bool :=
  ptr.addr = 0 ||
    (UserSpace.fromRaw ptr.addr 4 && ptr.space.validateUserRange ptr.addr 4 true)

/-- What the call returns from a section, if it returns there. -/
def Kernel.wait4Returns (kernel : Kernel) (ptr : StatusPtr) (call : Call) (pc : Pc) :
    Option (Except Int Pid) :=
  match kernel.waitResult call pc with
  | some .echild => some (.error echild)
  | some .nothing => some (.ok 0)
  | some (.reaped target _) => some (if ptr.fits then .ok target else .error efault)
  | none =>
    if pc = .checkSignals ∧ kernel.signals.hasUnblockedSignals call.callerPid then
      some (.error eintr)
    else none

/-- A section that the call has run. -/
structure WaitSection where
  call : Call
  pc : Pc
  before : Kernel
  after : Kernel

namespace WaitSection

/-- The table and the signals are left alone. -/
def Clean (part : WaitSection) : Prop :=
  part.after.sched.table = part.before.sched.table ∧ part.after.signals = part.before.signals

/-- The section looks at a child of the caller that has ended. -/
def Sees (part : WaitSection) : Prop :=
  match part.pc with
  | .inspect _ ((_, handle) :: _) _ | .recheck ((_, handle) :: _) =>
    (part.before.sched.procs handle).ppid = part.call.callerPid ∧
      (part.before.sched.procs handle).state = .zombie
  | _ => False

/-- The section takes somebody out of the table. -/
def Removes (part : WaitSection) : Prop :=
  ∃ target status, part.pc = .reap target status ∧
    part.after.sched.table = part.before.sched.table.remove target

end WaitSection

/-- A call of `sys_wait4` in progress, with the sections so far and what it has returned. -/
structure WaitCall where
  kernel : Kernel
  call : Call
  pc : Pc
  sections : List WaitSection
  result : Option (Except Int Pid)

/-- The call runs a section, or others do whatever they like. -/
inductive WaitEvent where
  | run (choice : Choice) (interrupts : Bool)
  | interfere (kernel : Kernel)

namespace WaitCall

def start (kernel : Kernel) (pid : Pid) (options : BitVec 32) : WaitCall :=
  ⟨kernel, ⟨.wait4 pid options, kernel.sched.currentPid, none, false⟩, .snapshot, [], none⟩

/-- Where the call goes on. -/
def land (kernel : Kernel) (call : Call) : Move → Option (Kernel × Pc)
  | .goto _ pc => some (kernel, pc)
  | .switchOut resume stay =>
    match kernel.sched.switchOutCurrent with
    | (none, sched) => some ({ kernel with sched }, stay)
    | (some ⟨prev, _⟩, sched) =>
      let frames := Function.update kernel.frames prev ⟨.kernel call resume, false⟩
      some ({ kernel with sched, frames }, resume)
  | _ => none

def step (ptr : StatusPtr) (self : Handle) (waiting : WaitCall) : WaitEvent → Option WaitCall
  | .interfere kernel => some { waiting with kernel }
  | .run choice interrupts =>
    if waiting.result.isSome then none
    else do
      let before := waiting.kernel
      let outcome ← before.exec self interrupts waiting.call choice waiting.pc
      let (after, pc) ← land outcome.kernel outcome.call outcome.move
      some ⟨after, outcome.call, pc, ⟨waiting.call, waiting.pc, before, after⟩ :: waiting.sections,
        before.wait4Returns ptr waiting.call waiting.pc⟩

/-- The call has not come across a child that has ended. -/
def Untouched (sections : List WaitSection) : Prop :=
  ∀ part ∈ sections, part.Clean ∧ ¬ part.Sees

/-- The sections that lead to each point of the call. -/
def Progress (sections : List WaitSection) : Pc → Prop
  | .settleFound .. | .reap .. => ∃ part ∈ sections, part.Sees
  | .cleanup .. => (∃ part ∈ sections, part.Sees) ∧ ∃ part ∈ sections, part.Removes
  | .snapshot | .inspect .. | .markWait _ | .recheck _ | .release true | .dropWake _ true
  | .switchOut | .sti | .resumed | .checkSignals => Untouched sections
  | _ => False

/-- What the call has done when it is over. -/
inductive Ended (ptr : StatusPtr) (sections : List WaitSection) : Except Int Pid → Prop where
  | untouched {result : Except Int Pid} (clean : Untouched sections) : Ended ptr sections result
  | reaped (target : Pid) (sees : ∃ part ∈ sections, part.Sees)
      (removes : ∃ part ∈ sections, part.Removes) :
      Ended ptr sections (if ptr.fits then .ok target else .error efault)

/-- The call has got somewhere. -/
structure Sound (ptr : StatusPtr) (waiting : WaitCall) : Prop where
  request : ∃ pid options, waiting.call.request = .wait4 pid options
  going : waiting.result = none → Progress waiting.sections waiting.pc
  ended : ∀ result, waiting.result = some result → Ended ptr waiting.sections result

section Sections

variable {ptr : StatusPtr} {self : Handle} {waiting result : WaitCall} {kernel : Kernel}
  {call : Call} {pc : Pc} {sections : List WaitSection} {part : WaitSection}

theorem Untouched.cons (untouched : Untouched sections) (clean : part.Clean)
    (blind : ¬ part.Sees) : Untouched (part :: sections) := by
  intro other listed
  rcases List.mem_cons.mp listed with rfl | earlier
  · exact ⟨clean, blind⟩
  · exact untouched other earlier

theorem Sees.cons (sees : ∃ part ∈ sections, part.Sees) (next : WaitSection) :
    ∃ part ∈ next :: sections, part.Sees := by
  obtain ⟨part, listed, sees⟩ := sees
  exact ⟨part, List.mem_cons_of_mem _ listed, sees⟩

theorem land_switchOut {after : Kernel} {resume stay : Pc}
    (lands : land kernel call (.switchOut resume stay) = some (after, pc)) :
    after.sched.table = kernel.sched.table ∧ after.signals = kernel.signals ∧
      (pc = resume ∨ pc = stay) := by
  have calm := kernel.sched.switchOutCurrent_calm
  simp only [land] at lands
  generalize kernel.sched.switchOutCurrent = switched at calm lands
  rcases switched with ⟨_ | ⟨prev, next⟩, sched⟩
  · cases lands
    exact ⟨calm.table, rfl, .inr rfl⟩
  · cases lands
    exact ⟨calm.table, rfl, .inl rfl⟩

/-- Where a section that does not return leads. -/
theorem exec_progress {choice : Choice} {interrupts : Bool} {outcome : Outcome} {after : Kernel}
    {next : Pc} (request : ∃ pid options, call.request = .wait4 pid options)
    (progress : Progress sections pc)
    (ran : kernel.exec self interrupts call choice pc = some outcome)
    (lands : land outcome.kernel outcome.call outcome.move = some (after, next))
    (goesOn : kernel.wait4Returns ptr call pc = none) :
    Progress (⟨call, pc, kernel, after⟩ :: sections) next := by
  obtain ⟨asked, options, request⟩ := request
  have quiet {after : Kernel} (untouched : Untouched sections)
      (clean : after.sched.table = kernel.sched.table ∧ after.signals = kernel.signals)
      (blind : ¬ (WaitSection.mk call pc kernel after).Sees) :
      Untouched (⟨call, pc, kernel, after⟩ :: sections) := untouched.cons clean blind
  cases pc with
  | snapshot =>
    simp only [Kernel.wait4Returns, Kernel.waitResult, request] at goesOn
    simp only [Kernel.exec, request] at ran
    cases ran
    by_cases none : asked > 0 ∧ kernel.candidates asked = []
    · rw [if_pos none] at goesOn
      cases goesOn
    · dsimp only at lands
      rw [if_neg none] at lands
      cases lands
      exact quiet progress ⟨rfl, rfl⟩ id
  | inspect candidates rest hasChildren =>
    cases rest with
    | nil =>
      simp only [Kernel.exec, request] at ran
      cases ran
      cases hasChildren with
      | false => cases goesOn
      | true =>
        simp only [Kernel.wait4Returns, Kernel.waitResult, request] at goesOn
        by_cases hang : options &&& wnohang ≠ 0
        · rw [if_pos hang] at goesOn
          cases goesOn
        · dsimp only at lands
          rw [if_neg (by simpa using hang)] at lands
          cases lands
          exact quiet progress ⟨rfl, rfl⟩ id
    | cons entry rest =>
      cases ran
      dsimp only at lands
      by_cases child : (kernel.sched.procs entry.2).ppid = call.callerPid
      · rw [if_pos child] at lands
        by_cases ended : (kernel.sched.procs entry.2).state = .zombie
        · rw [if_pos ended] at lands
          cases lands
          exact ⟨_, List.mem_cons_self, child, ended⟩
        · rw [if_neg ended] at lands
          cases lands
          exact quiet progress ⟨rfl, rfl⟩ fun sees => ended sees.2
      · rw [if_neg child] at lands
        cases lands
        exact quiet progress ⟨rfl, rfl⟩ fun sees => child sees.1
  | markWait candidates =>
    cases ran
    cases lands
    exact quiet progress ⟨kernel.sched.markCurrentBlocked_calm.table, rfl⟩ id
  | recheck rest =>
    cases rest with
    | nil =>
      cases ran
      cases lands
      exact quiet progress ⟨rfl, rfl⟩ id
    | cons entry rest =>
      cases ran
      dsimp only at lands
      by_cases ended : (kernel.sched.procs entry.2).ppid = call.callerPid ∧
          (kernel.sched.procs entry.2).state = .zombie
      · rw [if_pos ended] at lands
        cases lands
        exact ⟨_, List.mem_cons_self, ended⟩
      · rw [if_neg ended] at lands
        cases lands
        exact quiet progress ⟨rfl, rfl⟩ ended
  | settleFound target status =>
    cases ran
    cases lands
    exact Sees.cons progress _
  | reap target status =>
    cases ran
    cases lands
    exact ⟨Sees.cons progress _, _, List.mem_cons_self, target, status, rfl, rfl⟩
  | cleanup target status => cases goesOn
  | release again =>
    cases again with
    | false => exact progress.elim
    | true =>
      cases choice
      all_goals
        cases ran
        cases lands
        exact quiet progress ⟨rfl, rfl⟩ id
  | dropWake pids again =>
    cases again with
    | false => exact progress.elim
    | true =>
      cases ran
      cases lands
      exact quiet progress ⟨(kernel.sched.wakeTasks_calm pids).table, rfl⟩ id
  | switchOut =>
    cases ran
    obtain ⟨table, signals, rfl | rfl⟩ := land_switchOut lands
    all_goals exact quiet progress ⟨table, signals⟩ id
  | sti =>
    cases ran
    cases lands
    exact quiet progress ⟨rfl, rfl⟩ id
  | resumed =>
    cases ran
    cases lands
    exact quiet progress ⟨kernel.sched.markCurrentRunning_calm.table, rfl⟩ id
  | checkSignals =>
    simp only [Kernel.exec, request] at ran
    cases ran
    cases waits : kernel.signals.hasUnblockedSignals call.callerPid with
    | true => simp [Kernel.wait4Returns, Kernel.waitResult, waits] at goesOn
    | false =>
      rw [waits] at lands
      cases lands
      exact quiet progress ⟨rfl, rfl⟩ id
  | _ => exact progress.elim

/-- What a section that returns leaves behind. -/
theorem exec_ends {choice : Choice} {interrupts : Bool} {outcome : Outcome} {after : Kernel}
    {next : Pc} {returned : Except Int Pid}
    (request : ∃ pid options, call.request = .wait4 pid options)
    (progress : Progress sections pc)
    (ran : kernel.exec self interrupts call choice pc = some outcome)
    (lands : land outcome.kernel outcome.call outcome.move = some (after, next))
    (returns : kernel.wait4Returns ptr call pc = some returned) :
    Ended ptr (⟨call, pc, kernel, after⟩ :: sections) returned := by
  obtain ⟨asked, options, request⟩ := request
  cases pc with
  | snapshot =>
    simp only [Kernel.exec, request] at ran
    cases ran
    cases lands
    exact .untouched (Untouched.cons progress ⟨rfl, rfl⟩ id)
  | inspect candidates rest hasChildren =>
    cases rest with
    | nil =>
      simp only [Kernel.exec, request] at ran
      cases ran
      cases lands
      exact .untouched (Untouched.cons progress ⟨rfl, rfl⟩ id)
    | cons entry rest => simp [Kernel.wait4Returns, Kernel.waitResult] at returns
  | cleanup target status =>
    cases returns
    obtain ⟨sees, part, listed, removes⟩ := progress
    exact .reaped target (Sees.cons sees _) ⟨part, List.mem_cons_of_mem _ listed, removes⟩
  | checkSignals =>
    cases ran
    cases lands
    exact .untouched (Untouched.cons progress ⟨rfl, rfl⟩ id)
  | _ => simp [Kernel.wait4Returns, Kernel.waitResult] at returns

/-- No section of the call makes it another call. -/
theorem exec_request {choice : Choice} {interrupts : Bool} {outcome : Outcome}
    (ran : kernel.exec self interrupts call choice pc = some outcome) :
    outcome.call.request = call.request := by
  cases pc
  all_goals
    simp only [Kernel.exec] at ran
    repeat' split at ran
    all_goals cases ran <;> rfl

theorem Sound.step (sound : waiting.Sound ptr) {event : WaitEvent}
    (next : waiting.step ptr self event = some result) : result.Sound ptr := by
  cases event with
  | interfere kernel =>
    cases next
    exact ⟨sound.request, sound.going, sound.ended⟩
  | run choice interrupts =>
    simp only [WaitCall.step] at next
    split at next
    · cases next
    · rename_i open'
      have going := sound.going (by simpa using open')
      obtain ⟨outcome, ran, next⟩ := Option.bind_eq_some_iff.mp next
      obtain ⟨⟨after, pc⟩, lands, next⟩ := Option.bind_eq_some_iff.mp next
      cases next
      exact
        { request := (exec_request ran).symm ▸ sound.request
          going := exec_progress sound.request going ran lands
          ended := fun _ => exec_ends sound.request going ran lands }

theorem start_sound (pid : Pid) (options : BitVec 32) :
    (start kernel pid options).Sound ptr where
  request := ⟨pid, options, rfl⟩
  going _ := fun _ listed => absurd listed List.not_mem_nil
  ended := nofun

end Sections

end WaitCall

/-- Whatever others do, a call of `sys_wait4` that fails has left the table and the signals
alone if the status can be written or the call has not seen a child that has ended. The other
way round this is needed whenever the child is still in the table as the call takes it out,
which only its parent does. -/
theorem wait4_fails_without_trace {ptr : StatusPtr} {self : Handle} {kernel : Kernel} {pid : Pid}
    {options : BitVec 32} {waiting : WaitCall} {result : Except Int Pid}
    (run : Run (WaitCall.step ptr self) (fun _ _ => True) (.start kernel pid options) waiting)
    (returned : waiting.result = some result) :
    (ptr.fits = true ∨ (∀ part ∈ waiting.sections, ¬ part.Sees) →
      ∀ errno, result = .error errno → ∀ part ∈ waiting.sections, part.Clean) ∧
    ((∀ part ∈ waiting.sections, ∀ target status, part.pc = .reap target status →
        (part.before.sched.table.get target).isSome) →
      (∀ errno, result = .error errno → ∀ part ∈ waiting.sections, part.Clean) →
      ptr.fits = true ∨ ∀ part ∈ waiting.sections, ¬ part.Sees) := by
  have sound : waiting.Sound ptr :=
    run.invariant (WaitCall.start_sound pid options) fun _ _ _ sound _ next => sound.step next
  cases sound.ended result returned with
  | untouched untouched =>
    exact ⟨fun _ _ _ part listed => (untouched part listed).1,
      fun _ _ => .inr fun part listed => (untouched part listed).2⟩
  | reaped target sees removes =>
    obtain ⟨seen, found, sees⟩ := sees
    constructor
    · rintro (fits | unseen) errno failed
      · rw [if_pos fits] at failed
        cases failed
      · exact absurd sees (unseen seen found)
    · intro there clean
      left
      by_contra bad
      obtain ⟨part, listed, target, status, reap, removed⟩ := removes
      have kept := (clean efault (if_neg bad) part listed).1
      obtain ⟨child, entry⟩ := Option.isSome_iff_exists.mp (there part listed target status reap)
      have still := ProcessTable.mem_of_get entry
      rw [← kept, removed, ProcessTable.mem_remove] at still
      exact still.2 rfl

private def failedWith (errno : Int) (waiting : WaitCall) : Bool :=
  match waiting.result with
  | some (.error other) => decide (other = errno)
  | _ => false

private theorem result_of_failedWith {errno : Int} {waiting : WaitCall}
    (failed : failedWith errno waiting = true) : waiting.result = some (.error errno) := by
  unfold failedWith at failed
  split at failed
  · rename_i other result
    rw [result, of_decide_eq_true failed]
  · cases failed

private def bootKernel : Kernel := (Machine.boot fun _ => ⟨.plain, 0⟩).kernel

/-- The first process waits without a child. -/
theorem wait4_fails_without_trace_childless : ∃ waiting,
    Run (WaitCall.step ⟨⟨fun _ => 0, fun _ _ => true, fun _ => id⟩, 0x8000⟩ 0) (fun _ _ => True)
      (.start bootKernel (-1) 0) waiting ∧ waiting.result = some (.error echild) ∧
    waiting.sections.length = 4 ∧ ∀ part ∈ waiting.sections, part.Clean := by
  have seen : ((follow (WaitCall.step ⟨⟨fun _ => 0, fun _ _ => true, fun _ => id⟩, 0x8000⟩ 0)
      (fun _ _ => true) (.start bootKernel (-1) 0) (List.replicate 4 (.run .go false))).any
        fun waiting => failedWith echild waiting && decide (waiting.sections.length = 4)) = true := by
    decide +kernel
  obtain ⟨waiting, _, run, look⟩ := Run.seen (fun _ _ _ => trivial) seen
  obtain ⟨failed, count⟩ := Bool.and_eq_true_iff.mp look
  have returned := result_of_failedWith failed
  exact ⟨waiting, run, returned, of_decide_eq_true count,
    (wait4_fails_without_trace run returned).1 (.inl (by decide +kernel)) echild rfl⟩

/-- The first process with a child that has exited with code 7. -/
private def bereavedKernel : Kernel :=
  { bootKernel with
    sched := { bootKernel.sched with
      procs := Function.update bootKernel.sched.procs 2 ⟨2, 1, .zombie, 7, none⟩
      created := 3
      table := [(0, 1), (1, 0), (2, 2)]
      nextPid := 3 } }

/-- With a pointer to a page that is not mapped the call fails, the child is gone, and a call
with a good pointer finds no child. -/
theorem wait4_loses_status : ∃ waiting,
    Run (WaitCall.step ⟨⟨fun _ => 0, fun _ _ => false, fun _ => id⟩, 0x8000⟩ 0) (fun _ _ => True)
      (.start bereavedKernel (-1) 0) waiting ∧ waiting.result = some (.error efault) ∧
    bereavedKernel.sched.table.get 2 = some 2 ∧ waiting.kernel.sched.table.get 2 = none ∧
    ∃ later, Run (WaitCall.step ⟨⟨fun _ => 0, fun _ _ => true, fun _ => id⟩, 0x8000⟩ 0)
      (fun _ _ => True) (.start waiting.kernel 2 0) later ∧
      later.result = some (.error echild) := by
  have seen : ((follow (WaitCall.step ⟨⟨fun _ => 0, fun _ _ => false, fun _ => id⟩, 0x8000⟩ 0)
      (fun _ _ => true) (.start bereavedKernel (-1) 0) (List.replicate 6 (.run .go false))).any
        fun waiting => failedWith efault waiting &&
          decide (waiting.kernel.sched.table.get 2 = none)) = true := by
    decide +kernel
  obtain ⟨waiting, _, run, look⟩ := Run.seen (fun _ _ _ => trivial) seen
  obtain ⟨failed, absent⟩ := Bool.and_eq_true_iff.mp look
  have gone := of_decide_eq_true absent
  have empty : waiting.kernel.candidates 2 = [] := by simp [Kernel.candidates, gone]
  refine ⟨waiting, run, result_of_failedWith failed, rfl, gone, _,
    Run.step .start (.run .go false) trivial rfl, ?_⟩
  change waiting.kernel.wait4Returns _ _ .snapshot = _
  simp only [Kernel.wait4Returns, Kernel.waitResult, WaitCall.start, empty]
  rfl

end RustPosix.Sched
