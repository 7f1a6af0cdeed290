import RustPosix.Vfs.PipeReaders

/-! Who may be left on the queue of the writers of a pipe. A read wakes one writer, and
only when it finds the pipe full. -/

namespace RustPosix.Vfs

open Library

/-- Where a process is in `PipeWriteEnd::write_with_flags`: on its way to the section of
the pipe, with whether it comes from a switch and whether a section has taken it off the
queue since its last own section, or switched out after it registered. -/
inductive WriterPhase where
  | outside
  | trying (bytes : List Byte) (flags : BitVec 32) (resumed popped : Bool)
  | asleep (bytes : List Byte) (flags : BitVec 32)

namespace WriterPhase

/-- Taken off the queue and on the way to retrying. -/
def popped : WriterPhase → Bool
  | .trying _ _ _ popped => popped
  | .outside | .asleep .. => false

/-- A section takes the process off the queue to wake it. -/
def pop : WriterPhase → WriterPhase
  | .outside => .outside
  | .trying bytes flags resumed _ => .trying bytes flags resumed true
  | .asleep bytes flags => .trying bytes flags true true

end WriterPhase

/-- A pipe and the processes that write to it. -/
structure PipeTraffic where
  pipe : PipeBuffer
  writers : Pid → WriterPhase

inductive TrafficStep where
  | read (wanted : Nat) (flags : BitVec 32) (callerPid : Pid)
  | unregisterReader (callerPid : Pid)
  | call (callerPid : Pid) (bytes : List Byte) (flags : BitVec 32)
  | attempt (callerPid : Pid)
  | wakeUp (callerPid : Pid)
  | interrupt (callerPid : Pid)
  | dropReadEnd
  | dropWriteEnd

namespace PipeTraffic

def new : PipeTraffic := ⟨.new, fun _ => .outside⟩

def popAll (toWake : List Pid) (writers : Pid → WriterPhase) (pid : Pid) : WriterPhase :=
  if pid ∈ toWake then (writers pid).pop else writers pid

/-- Where a writer goes on after its section. -/
def afterSection (bytes : List Byte) (flags : BitVec 32) (resumed popped : Bool) :
    Section Nat → WriterPhase
  | .leave _ => .outside
  | .go _ _ (some _) => .outside
  | .go _ true none => .asleep bytes flags
  | .go _ false none => .trying bytes flags resumed popped

def step (traffic : PipeTraffic) : TrafficStep → Option PipeTraffic
  | .read wanted flags callerPid =>
    let (result, pipe) := traffic.pipe.readSection wanted flags callerPid
    some ⟨pipe, popAll result.woken traffic.writers⟩
  | .unregisterReader callerPid =>
    some { traffic with pipe := traffic.pipe.unregisterReader callerPid }
  | .call callerPid bytes flags =>
    match traffic.writers callerPid with
    | .outside => some { traffic with
        writers := Function.update traffic.writers callerPid (.trying bytes flags false false) }
    | _ => none
  | .attempt callerPid =>
    match traffic.writers callerPid with
    | .trying bytes flags resumed popped =>
      let (result, pipe) := traffic.pipe.writeSection bytes flags callerPid
      some ⟨pipe, Function.update traffic.writers callerPid
        (afterSection bytes flags resumed popped result)⟩
    | _ => none
  -- A signal, or any other call of `wake_tasks` that names the process.
  | .wakeUp callerPid =>
    match traffic.writers callerPid with
    | .asleep bytes flags => some { traffic with
        writers := Function.update traffic.writers callerPid (.trying bytes flags true false) }
    | _ => none
  -- An unblocked signal is pending after the switch: EINTR.
  | .interrupt callerPid =>
    match traffic.writers callerPid with
    | .trying _ _ true _ => some ⟨traffic.pipe.unregisterWriter callerPid,
        Function.update traffic.writers callerPid .outside⟩
    | _ => none
  | .dropReadEnd =>
    let (toWake, pipe) := traffic.pipe.dropReadEnd
    some ⟨pipe, popAll toWake traffic.writers⟩
  | .dropWriteEnd => some { traffic with pipe := traffic.pipe.dropWriteEnd.2 }

/-- No writer taken off the queue is still on its way to retrying. -/
def Quiet (traffic : PipeTraffic) : Prop := ∀ pid, (traffic.writers pid).popped = false

/-- No writer waits on a pipe that could be written to. -/
def WritersWait (traffic : PipeTraffic) : Prop :=
  traffic.Quiet → traffic.pipe.writeWaiters.waiters ≠ [] →
    traffic.pipe.len = 4096 ∧ 0 < traffic.pipe.readersOpen

/-- The waiters of a pipe have readers. -/
def HaveReaders (traffic : PipeTraffic) : Prop :=
  traffic.pipe.writeWaiters.waiters ≠ [] → 0 < traffic.pipe.readersOpen

/-- No process but this one is on its way to retrying. -/
def QuietBut (traffic : PipeTraffic) (pid : Pid) : Prop :=
  ∀ other, other ≠ pid → (traffic.writers other).popped = false

/-- The one wake-up of the writers is not spent without filling the pipe: a read does not
spend it on a process that has left its call while others wait, and a process that is the
only one on its way to retrying while others wait has enough bytes to fill the pipe, and
is not interrupted. -/
def KeepsWake (traffic : PipeTraffic) : TrafficStep → Prop
  | .read wanted _ _ =>
    traffic.Quiet → traffic.pipe.len = 4096 → 0 < wanted →
      ∀ pid rest, traffic.pipe.writeWaiters.waiters = pid :: rest →
        traffic.writers pid = .outside → rest = []
  | .attempt callerPid =>
    traffic.QuietBut callerPid → traffic.pipe.writeWaiters.waiters ≠ [] →
      ∀ bytes flags resumed, traffic.writers callerPid = .trying bytes flags resumed true →
        4096 ≤ traffic.pipe.len + bytes.length
  | .interrupt callerPid =>
    traffic.QuietBut callerPid → (traffic.writers callerPid).popped = true →
      (∃ other ∈ traffic.pipe.writeWaiters.waiters, other ≠ callerPid) →
        traffic.pipe.len = 4096
  | _ => True

end PipeTraffic

section Sections

variable {pipe : PipeBuffer}

theorem readSection_readersOpen (wanted : Nat) (flags : BitVec 32) (callerPid : Pid) :
    (pipe.readSection wanted flags callerPid).2.readersOpen = pipe.readersOpen := by
  unfold PipeBuffer.readSection
  dsimp only
  split
  · split
    · rfl
    · split
      · rfl
      · split
        · rfl
        · rfl
  · split
    · rfl
    · rfl

/-- A read that makes room in a full pipe takes the first writer off the queue. -/
theorem readSection_pops {wanted : Nat} (full : pipe.len = 4096) (some : 0 < wanted)
    (flags : BitVec 32) (callerPid : Pid) :
    (pipe.readSection wanted flags callerPid).1.woken =
        pipe.writeWaiters.waiters.head?.toList ∧
      (pipe.readSection wanted flags callerPid).2.writeWaiters.waiters =
        pipe.writeWaiters.waiters.tail ∧
      (pipe.readSection wanted flags callerPid).2.len < 4096 := by
  have taken : (pipe.takeBytes (min wanted pipe.len)).2.len < pipeBufferSize := by
    change pipe.len - min wanted pipe.len < 4096
    omega
  unfold PipeBuffer.readSection
  rw [if_neg (by omega)]
  dsimp only
  rw [if_pos ⟨full, taken⟩]
  exact ⟨rfl, rfl, taken⟩

/-- Any other read leaves the writers alone. -/
theorem readSection_leaves {wanted : Nat} (other : ¬ (pipe.len = 4096 ∧ 0 < wanted))
    (flags : BitVec 32) (callerPid : Pid) :
    (pipe.readSection wanted flags callerPid).1.woken = [] ∧
      (pipe.readSection wanted flags callerPid).2.writeWaiters = pipe.writeWaiters ∧
      (pipe.len = 4096 → (pipe.readSection wanted flags callerPid).2.len = 4096) := by
  unfold PipeBuffer.readSection
  dsimp only
  split
  · split
    · exact ⟨rfl, rfl, id⟩
    · split
      · exact ⟨rfl, rfl, id⟩
      · split
        · exact ⟨rfl, rfl, id⟩
        · exact ⟨rfl, rfl, id⟩
  · have edge : ¬ (pipe.len = pipeBufferSize ∧
        (pipe.takeBytes (min wanted pipe.len)).2.len < pipeBufferSize) := by
      rintro ⟨full, less⟩
      change pipe.len - min wanted pipe.len < 4096 at less
      change pipe.len = 4096 at full
      apply other
      constructor
      · exact full
      · omega
    rw [if_neg edge]
    refine ⟨rfl, rfl, ?_⟩
    intro full
    change pipe.len - min wanted pipe.len = 4096
    omega

/-- A write to a full pipe that is open for reading leaves it full. -/
theorem writeSection_full (full : pipe.len = 4096) (bytes : List Byte) (flags : BitVec 32)
    (callerPid : Pid) :
    (pipe.writeSection bytes flags callerPid).2.len = 4096 := by
  unfold PipeBuffer.writeSection
  dsimp only
  split
  · exact full
  · split
    · split
      · exact full
      · split
        · exact full
        · exact full
    · rename_i space
      exact absurd (by rw [full]; rfl) space

/-- A write to a pipe with room ends the call and registers nobody. -/
theorem writeSection_room (room : pipe.len < 4096) (readers : 0 < pipe.readersOpen)
    (bytes : List Byte) (flags : BitVec 32) (callerPid : Pid) :
    (∃ woken count, (pipe.writeSection bytes flags callerPid).1 = .go woken false (some count)) ∧
      (pipe.writeSection bytes flags callerPid).2.writeWaiters = pipe.writeWaiters ∧
      (pipe.writeSection bytes flags callerPid).2.len =
        pipe.len + min bytes.length (4096 - pipe.len) := by
  have space : ¬ pipeBufferSize - pipe.len = 0 := by
    change ¬ 4096 - pipe.len = 0
    omega
  unfold PipeBuffer.writeSection
  rw [if_neg (Nat.pos_iff_ne_zero.mp readers), if_neg space]
  dsimp only
  split
  · exact ⟨⟨_, _, rfl⟩, rfl, rfl⟩
  · exact ⟨⟨_, _, rfl⟩, rfl, rfl⟩

theorem writeSection_readersOpen (bytes : List Byte) (flags : BitVec 32) (callerPid : Pid) :
    (pipe.writeSection bytes flags callerPid).2.readersOpen = pipe.readersOpen := by
  unfold PipeBuffer.writeSection
  dsimp only
  split
  · rfl
  · split
    · split
      · rfl
      · split
        · rfl
        · rfl
    · split
      · rfl
      · rfl

/-- Nobody registers with a pipe that has no readers. -/
theorem writeSection_closed (closed : pipe.readersOpen = 0) (bytes : List Byte)
    (flags : BitVec 32) (callerPid : Pid) :
    pipe.writeSection bytes flags callerPid = (.leave (.error epipe), pipe) := if_pos closed

end Sections

namespace PipeTraffic

variable {traffic after : PipeTraffic}

theorem pop_popped {phase : WriterPhase} : phase.pop.popped = false ↔ phase = .outside := by
  cases phase <;> simp [WriterPhase.pop, WriterPhase.popped]

/-- Taking one process off the queue leaves nobody on the way exactly if nobody was and
the process has left its call. -/
theorem popAll_quiet {pid : Pid} {writers : Pid → WriterPhase} :
    (∀ other, (popAll [pid] writers other).popped = false) ↔
      (∀ other, (writers other).popped = false) ∧ writers pid = .outside := by
  have self : popAll [pid] writers pid = (writers pid).pop := if_pos (List.mem_singleton_self pid)
  have apart {other : Pid} (differs : other ≠ pid) : popAll [pid] writers other = writers other :=
    if_neg (fun here => differs (List.mem_singleton.mp here))
  constructor
  · intro quiet
    have left : writers pid = .outside := pop_popped.mp (self ▸ quiet pid)
    refine ⟨fun other => ?_, left⟩
    by_cases same : other = pid
    · subst same
      rw [left]
      rfl
    · exact apart same ▸ quiet other
  · rintro ⟨quiet, left⟩ other
    by_cases same : other = pid
    · subst same
      rw [self]
      exact pop_popped.mpr left
    · rw [apart same]
      exact quiet other

theorem update_quiet {pid : Pid} {phase : WriterPhase} {pipe : PipeBuffer} :
    Quiet ⟨pipe, Function.update traffic.writers pid phase⟩ ↔
      phase.popped = false ∧ traffic.QuietBut pid := by
  constructor
  · intro quiet
    constructor
    · have here : (Function.update traffic.writers pid phase pid).popped = false := quiet pid
      rwa [Function.update_self] at here
    · intro other differs
      have here : (Function.update traffic.writers pid phase other).popped = false := quiet other
      rwa [Function.update_of_ne differs] at here
  · rintro ⟨here, others⟩ other
    change (Function.update traffic.writers pid phase other).popped = false
    by_cases same : other = pid
    · subst same
      rwa [Function.update_self]
    · rw [Function.update_of_ne same]
      exact others other same

theorem QuietBut.quiet {pid : Pid} (others : traffic.QuietBut pid)
    (here : (traffic.writers pid).popped = false) : traffic.Quiet := by
  intro other
  by_cases same : other = pid
  · rwa [same]
  · exact others other same

theorem step_haveReaders (traffic : PipeTraffic) (label : TrafficStep) (after : PipeTraffic)
    (readers : traffic.HaveReaders) (next : traffic.step label = some after) :
    after.HaveReaders := by
  cases label with
  | read wanted flags callerPid =>
    cases next
    intro waiting
    change 0 < (traffic.pipe.readSection wanted flags callerPid).2.readersOpen
    rw [readSection_readersOpen]
    apply readers
    intro empty
    apply waiting
    by_cases pops : traffic.pipe.len = 4096 ∧ 0 < wanted
    · exact (readSection_pops pops.1 pops.2 flags callerPid).2.1.trans (by rw [empty]; rfl)
    · exact (congrArg _ (readSection_leaves pops flags callerPid).2.1).trans empty
  | unregisterReader callerPid =>
    cases next
    exact readers
  | call callerPid bytes flags =>
    simp only [step] at next
    split at next
    · cases next
      exact readers
    · cases next
  | attempt callerPid =>
    simp only [step] at next
    split at next
    · rename_i bytes flags resumed popped _
      cases next
      by_cases closed : traffic.pipe.readersOpen = 0
      · simp only [writeSection_closed closed]
        exact readers
      · intro _
        change 0 < (traffic.pipe.writeSection bytes flags callerPid).2.readersOpen
        rw [writeSection_readersOpen]
        exact Nat.pos_of_ne_zero closed
    · cases next
  | wakeUp callerPid =>
    simp only [step] at next
    split at next
    · cases next
      exact readers
    · cases next
  | interrupt callerPid =>
    simp only [step] at next
    split at next
    · cases next
      exact fun waiting => readers (WaitQueue.removeWaiter_nonempty waiting)
    · cases next
  | dropReadEnd =>
    simp only [step, Option.some.injEq] at next
    subst next
    unfold HaveReaders PipeBuffer.dropReadEnd
    dsimp only
    split
    · exact fun waiting => absurd rfl waiting
    · rename_i left
      exact fun _ => Nat.pos_of_ne_zero left
  | dropWriteEnd =>
    simp only [step, Option.some.injEq] at next
    subst next
    unfold HaveReaders PipeBuffer.dropWriteEnd
    dsimp only
    split
    · exact readers
    · exact readers

theorem read_writersWait_iff (readers : traffic.HaveReaders) (waits : traffic.WritersWait)
    {wanted : Nat} {flags : BitVec 32} {callerPid : Pid}
    (next : traffic.step (.read wanted flags callerPid) = some after) :
    after.WritersWait ↔ traffic.KeepsWake (.read wanted flags callerPid) := by
  have shape : after = ⟨(traffic.pipe.readSection wanted flags callerPid).2,
      popAll (traffic.pipe.readSection wanted flags callerPid).1.woken traffic.writers⟩ :=
    (Option.some.inj next).symm
  by_cases pops : traffic.pipe.len = 4096 ∧ 0 < wanted
  · obtain ⟨full, wants⟩ := pops
    obtain ⟨woken, left, room⟩ := readSection_pops full wants flags callerPid
    have leftover : after.pipe.writeWaiters.waiters = traffic.pipe.writeWaiters.waiters.tail :=
      shape ▸ left
    have short : after.pipe.len < 4096 := shape ▸ room
    have moved : after.writers =
        popAll traffic.pipe.writeWaiters.waiters.head?.toList traffic.writers := by
      rw [shape, woken]
    cases queue : traffic.pipe.writeWaiters.waiters with
    | nil =>
      rw [queue] at leftover
      constructor
      · intro _ _ _ _ pid rest waiting
        rw [queue] at waiting
        cases waiting
      · intro _ _ waiting
        exact absurd leftover waiting
    | cons pid rest =>
      rw [queue] at leftover moved
      have quiet : after.Quiet ↔ traffic.Quiet ∧ traffic.writers pid = .outside := by
        unfold Quiet
        rw [moved]
        exact popAll_quiet
      constructor
      · intro waits quietBefore _ _ first others same left
        rw [queue, List.cons.injEq] at same
        rw [← same.1] at left
        rw [← same.2]
        by_contra more
        have filled := (waits (quiet.mpr ⟨quietBefore, left⟩) (leftover ▸ more)).1
        omega
      · intro keeps quietAfter waiting
        obtain ⟨quietBefore, left⟩ := quiet.mp quietAfter
        exact absurd (leftover.trans (keeps quietBefore full wants pid rest queue left)) waiting
  · obtain ⟨woken, same, filled⟩ := readSection_leaves pops flags callerPid
    have moved : after.writers = traffic.writers := by rw [shape, woken]; rfl
    have queue : after.pipe.writeWaiters = traffic.pipe.writeWaiters := shape ▸ same
    have full : traffic.pipe.len = 4096 → after.pipe.len = 4096 := shape ▸ filled
    have kept : after.pipe.readersOpen = traffic.pipe.readersOpen :=
      shape ▸ readSection_readersOpen wanted flags callerPid
    constructor
    · intro _ _ full wants
      exact absurd ⟨full, wants⟩ pops
    · intro _ quiet waiting
      rw [queue] at waiting
      unfold Quiet at quiet
      rw [moved] at quiet
      rw [kept]
      exact ⟨full (waits quiet waiting).1, readers waiting⟩

theorem attempt_writersWait_iff (readers : traffic.HaveReaders) (waits : traffic.WritersWait)
    {callerPid : Pid} (next : traffic.step (.attempt callerPid) = some after) :
    after.WritersWait ↔ traffic.KeepsWake (.attempt callerPid) := by
  cases phase : traffic.writers callerPid with
  | outside => simp [step, phase] at next
  | asleep bytes flags => simp [step, phase] at next
  | trying bytes flags resumed popped =>
    have shape : after = ⟨(traffic.pipe.writeSection bytes flags callerPid).2,
        Function.update traffic.writers callerPid (afterSection bytes flags resumed popped
          (traffic.pipe.writeSection bytes flags callerPid).1)⟩ := by
      simp only [step, phase, Option.some.injEq] at next
      exact next.symm
    by_cases closed : traffic.pipe.readersOpen = 0
    · have nobody : traffic.pipe.writeWaiters.waiters = [] := by
        by_contra waiting
        exact Nat.ne_of_gt (readers waiting) closed
      have still : after.pipe.writeWaiters.waiters = [] := by
        rw [shape, writeSection_closed closed]
        exact nobody
      constructor
      · exact fun _ _ waiting => absurd nobody waiting
      · exact fun _ _ waiting => absurd still waiting
    · have opened : 0 < traffic.pipe.readersOpen := Nat.pos_of_ne_zero closed
      have kept : after.pipe.readersOpen = traffic.pipe.readersOpen :=
        shape ▸ writeSection_readersOpen bytes flags callerPid
      by_cases full : traffic.pipe.len = 4096
      · have stays : after.pipe.len = 4096 := shape ▸ writeSection_full full bytes flags callerPid
        constructor
        · intro _ _ _ _ _ _ _
          omega
        · exact fun _ _ _ => ⟨stays, kept ▸ opened⟩
      · have room : traffic.pipe.len < 4096 := Nat.lt_of_le_of_ne traffic.pipe.fits full
        obtain ⟨⟨woken, count, result⟩, same, length⟩ :=
          writeSection_room room opened bytes flags callerPid
        have queue : after.pipe.writeWaiters = traffic.pipe.writeWaiters := shape ▸ same
        have grown : after.pipe.len =
            traffic.pipe.len + min bytes.length (4096 - traffic.pipe.len) := shape ▸ length
        have quiet : after.Quiet ↔ traffic.QuietBut callerPid := by
          rw [shape, result, update_quiet]
          exact and_iff_right rfl
        unfold WritersWait
        rw [quiet, queue, kept]
        constructor
        · intro waits others waiting bytes' flags' resumed' same
          rw [phase] at same
          cases same
          have filled := (waits others waiting).1
          omega
        · intro keeps others waiting
          refine ⟨?_, opened⟩
          cases popped with
          | true =>
            have enough := keeps others waiting bytes flags resumed phase
            omega
          | false =>
            have calm : traffic.Quiet := others.quiet (by rw [phase]; rfl)
            exact absurd (waits calm waiting).1 full

theorem interrupt_writersWait_iff (readers : traffic.HaveReaders) (waits : traffic.WritersWait)
    {callerPid : Pid} (next : traffic.step (.interrupt callerPid) = some after) :
    after.WritersWait ↔ traffic.KeepsWake (.interrupt callerPid) := by
  have shape : after = ⟨traffic.pipe.unregisterWriter callerPid,
      Function.update traffic.writers callerPid .outside⟩ := by
    simp only [step] at next
    split at next
    · exact (Option.some.inj next).symm
    · cases next
  have quiet : after.Quiet ↔ traffic.QuietBut callerPid := by
    rw [shape, update_quiet]
    exact and_iff_right rfl
  have queue : after.pipe.writeWaiters.waiters ≠ [] ↔
      ∃ other ∈ traffic.pipe.writeWaiters.waiters, other ≠ callerPid := by
    rw [shape]
    change traffic.pipe.writeWaiters.waiters.filter _ ≠ [] ↔ _
    simp [List.filter_eq_nil_iff]
  have length : after.pipe.len = traffic.pipe.len := shape ▸ rfl
  have kept : after.pipe.readersOpen = traffic.pipe.readersOpen := shape ▸ rfl
  unfold WritersWait
  rw [quiet, queue, length, kept]
  constructor
  · exact fun waits others _ waiting => (waits others waiting).1
  · intro keeps others waiting
    have nonempty : traffic.pipe.writeWaiters.waiters ≠ [] := by
      obtain ⟨other, here, _⟩ := waiting
      exact List.ne_nil_of_mem here
    refine ⟨?_, readers nonempty⟩
    cases popped : (traffic.writers callerPid).popped with
    | true => exact keeps others popped waiting
    | false => exact (waits (others.quiet popped) nonempty).1

/-- A step that changes neither the queue, the length and the readers of the pipe nor who
is on the way to retrying. -/
theorem WritersWait.same (waits : traffic.WritersWait)
    (popped : ∀ pid, (after.writers pid).popped = (traffic.writers pid).popped)
    (queue : after.pipe.writeWaiters = traffic.pipe.writeWaiters)
    (length : after.pipe.len = traffic.pipe.len)
    (readers : after.pipe.readersOpen = traffic.pipe.readersOpen) : after.WritersWait := by
  intro quiet waiting
  rw [length, readers]
  rw [queue] at waiting
  exact waits (fun pid => popped pid ▸ quiet pid) waiting

theorem update_popped {pid : Pid} {phase : WriterPhase}
    (same : phase.popped = (traffic.writers pid).popped) (other : Pid) :
    (Function.update traffic.writers pid phase other).popped = (traffic.writers other).popped := by
  by_cases here : other = pid
  · subst here
    rw [Function.update_self, same]
  · rw [Function.update_of_ne here]

theorem dropReadEnd_writersWait (waits : traffic.WritersWait)
    (next : traffic.step .dropReadEnd = some after) : after.WritersWait := by
  simp only [step, PipeBuffer.dropReadEnd] at next
  split at next
  · cases next
    exact fun _ waiting => absurd rfl waiting
  · rename_i left
    cases next
    intro quiet waiting
    exact ⟨(waits quiet waiting).1, Nat.pos_of_ne_zero left⟩

theorem dropWriteEnd_writersWait (waits : traffic.WritersWait)
    (next : traffic.step .dropWriteEnd = some after) : after.WritersWait := by
  simp only [step, PipeBuffer.dropWriteEnd] at next
  split at next
  · cases next
    exact waits
  · cases next
    exact waits

/-- Each step is exactly as good as its side condition. -/
theorem step_writersWait_iff (traffic : PipeTraffic) (label : TrafficStep) (after : PipeTraffic)
    (readers : traffic.HaveReaders) (waits : traffic.WritersWait)
    (next : traffic.step label = some after) :
    after.WritersWait ↔ traffic.KeepsWake label := by
  cases label with
  | read wanted flags callerPid => exact read_writersWait_iff readers waits next
  | unregisterReader callerPid =>
    cases next
    exact iff_of_true waits trivial
  | call callerPid bytes flags =>
    simp only [step] at next
    split at next
    · rename_i phase
      cases next
      exact iff_of_true (waits.same (update_popped (by rw [phase]; rfl)) rfl rfl rfl) trivial
    · cases next
  | attempt callerPid => exact attempt_writersWait_iff readers waits next
  | wakeUp callerPid =>
    simp only [step] at next
    split at next
    · rename_i phase
      cases next
      exact iff_of_true (waits.same (update_popped (by rw [phase]; rfl)) rfl rfl rfl) trivial
    · cases next
  | interrupt callerPid => exact interrupt_writersWait_iff readers waits next
  | dropReadEnd => exact iff_of_true (dropReadEnd_writersWait waits next) trivial
  | dropWriteEnd => exact iff_of_true (dropWriteEnd_writersWait waits next) trivial

/-- A process that is not in a call stays outside until it calls. -/
theorem outside_step {pid : Pid} {label : TrafficStep} (out : traffic.writers pid = .outside)
    (other : ∀ bytes flags, label ≠ .call pid bytes flags)
    (next : traffic.step label = some after) : after.writers pid = .outside := by
  have popped (toWake : List Pid) : popAll toWake traffic.writers pid = .outside := by
    unfold popAll
    rw [out]
    exact ite_self _
  have updated {caller : Pid} {phase : WriterPhase} (inside : traffic.writers caller ≠ .outside) :
      Function.update traffic.writers caller phase pid = .outside := by
    rwa [Function.update_of_ne]
    rintro rfl
    exact inside out
  cases label with
  | read wanted flags callerPid =>
    cases next
    exact popped _
  | unregisterReader callerPid =>
    cases next
    exact out
  | call callerPid bytes flags =>
    simp only [step] at next
    split at next
    · cases next
      have differs : pid ≠ callerPid := by
        rintro rfl
        exact other bytes flags rfl
      exact (Function.update_of_ne differs ..).trans out
    · cases next
  | attempt callerPid =>
    simp only [step] at next
    split at next
    · rename_i phase
      cases next
      exact updated (by simp [phase])
    · cases next
  | wakeUp callerPid =>
    simp only [step] at next
    split at next
    · rename_i phase
      cases next
      exact updated (by simp [phase])
    · cases next
  | interrupt callerPid =>
    simp only [step] at next
    split at next
    · rename_i phase
      cases next
      exact updated (by simp [phase])
    · cases next
  | dropReadEnd =>
    cases next
    exact popped _
  | dropWriteEnd =>
    cases next
    exact out

theorem outside_follow {check : PipeTraffic → TrafficStep → Bool} {pid : Pid}
    {labels : List TrafficStep} (out : traffic.writers pid = .outside)
    (others : ∀ label ∈ labels, ∀ bytes flags, label ≠ .call pid bytes flags)
    (path : follow step check traffic labels = some after) : after.writers pid = .outside := by
  induction labels generalizing traffic with
  | nil =>
    cases path
    exact out
  | cons label rest ih =>
    obtain ⟨middle, _, next, path⟩ := follow_cons path
    have here := outside_step out (others label List.mem_cons_self) next
    exact ih here (fun label here => others label (List.mem_cons_of_mem _ here)) path

end PipeTraffic

/-- As long as no step spends the wake-up of the writers for nothing, no writer is left
waiting on a pipe with room or without readers, and only such a step can leave one. -/
theorem no_writer_waits_on_writable {traffic : PipeTraffic}
    (run : Run PipeTraffic.step PipeTraffic.KeepsWake .new traffic) :
    (traffic.Quiet → traffic.pipe.writeWaiters.waiters ≠ [] →
      traffic.pipe.len = 4096 ∧ 0 < traffic.pipe.readersOpen) ∧
    ∀ label after, traffic.step label = some after →
      (after.WritersWait ↔ traffic.KeepsWake label) := by
  have holds : traffic.HaveReaders ∧ traffic.WritersWait := by
    induction run with
    | start => exact ⟨fun waiting => absurd rfl waiting, fun _ waiting => absurd rfl waiting⟩
    | step _ label meets next ih =>
      constructor
      · exact PipeTraffic.step_haveReaders _ label _ ih.1 next
      · exact (PipeTraffic.step_writersWait_iff _ label _ ih.1 ih.2 next).mpr meets
  constructor
  · exact holds.2
  · intro label after next
    exact PipeTraffic.step_writersWait_iff traffic label after holds.1 holds.2 next

def fullBuffer : List Byte := List.replicate 4096 0

/-- One process fills a pipe, and two more find it full. -/
def crowdedTrace : List TrafficStep :=
  [.call 1 fullBuffer 0, .attempt 1, .call 2 [1] 0, .attempt 2, .call 3 [2] 0,
    .attempt 3]

private def unpopped (traffic : PipeTraffic) : TrafficStep → Bool
  | .attempt callerPid => !(traffic.writers callerPid).popped
  | .call .. => true
  | _ => false

private theorem unpopped_keepsWake (traffic : PipeTraffic) (label : TrafficStep)
    (calm : unpopped traffic label = true) : traffic.KeepsWake label := by
  cases label with
  | attempt callerPid =>
    intro _ _ bytes flags resumed phase
    simp [unpopped, phase, WriterPhase.popped] at calm
  | call => trivial
  | _ => cases calm

theorem no_writer_waits_on_writable_crowded :
    ∃ traffic, Run PipeTraffic.step PipeTraffic.KeepsWake .new traffic ∧
      traffic.pipe.writeWaiters.waiters = [2, 3] ∧
      (traffic.Quiet → traffic.pipe.len = 4096 ∧ 0 < traffic.pipe.readersOpen) := by
  have seen : ((follow PipeTraffic.step unpopped .new crowdedTrace).any fun traffic =>
      traffic.pipe.writeWaiters.waiters == [2, 3]) = true := by decide +kernel
  obtain ⟨traffic, _, run, look⟩ := Run.seen unpopped_keepsWake seen
  have waiting : traffic.pipe.writeWaiters.waiters = [2, 3] := beq_iff_eq.mp look
  refine ⟨traffic, run, waiting, ?_⟩
  intro quiet
  exact (no_writer_waits_on_writable run).1 quiet (by simp [waiting])

/-- A read makes room for many bytes and wakes the first of them, which has only one. -/
def shortTrace : List TrafficStep := crowdedTrace ++ [.read 1000 0 4, .attempt 2]

/-- The other one waits although the pipe has room and nobody is on the way. -/
theorem short_write_strands_writer :
    ∃ traffic, Run PipeTraffic.step (fun _ _ => True) .new traffic ∧ traffic.Quiet ∧
      traffic.pipe.writeWaiters.waiters = [3] ∧ traffic.pipe.len = 3097 := by
  have seen : ((follow PipeTraffic.step (fun _ _ => true) .new shortTrace).any fun traffic =>
      decide (traffic.pipe.writeWaiters.waiters = [3] ∧ traffic.pipe.len = 3097 ∧
        ∀ pid ∈ ([1, 2, 3] : List Pid), (traffic.writers pid).popped = false)) = true := by
    decide +kernel
  obtain ⟨traffic, path, run, look⟩ := Run.seen (fun _ _ _ => trivial) seen
  obtain ⟨waiting, length, few⟩ := of_decide_eq_true look
  refine ⟨traffic, run, ?_, waiting, length⟩
  intro pid
  by_cases known : pid ∈ ([1, 2, 3] : List Pid)
  · exact few pid known
  · have out : traffic.writers pid = .outside := by
      apply PipeTraffic.outside_follow rfl _ path
      intro label here bytes flags same
      subst same
      simp [shortTrace, crowdedTrace] at here known
      rcases here with first | second | third
      · exact known.1 first.1
      · exact known.2.1 second.1
      · exact known.2.2 third.1
    rw [out]
    rfl

end RustPosix.Vfs
