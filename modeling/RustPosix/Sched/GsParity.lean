import RustPosix.Sched.Guards

/-! `swapgs` is executed on the way into and out of a system call and nowhere else, so that
context switches carry the GS base of one context over to the next. -/

namespace RustPosix.Sched

open Library

def GsBase.other : GsBase → GsBase
  | .user => .perCpu
  | .perCpu => .user

/-- The GS base that a context counts on; the idle loop does not use it. -/
def Ctx.gs? : Ctx → Option GsBase
  | .user | .kernel _ .sysretq => some .user
  | .kernel .. => some .perCpu
  | .idle => none

/-- A machine with the side of `swapgs` that the last context was on, the idle loop aside. -/
structure Tracked where
  machine : Machine
  side : GsBase

namespace Tracked

def boot (files : FileId → FileHandle) : Tracked := ⟨.boot files, .user⟩

def step (tracked : Tracked) (event : Event) : Option Tracked :=
  (tracked.machine.step event).map fun after => ⟨after, after.ctx.gs?.getD tracked.side⟩

end Tracked

/-- Steps after which another process may be on the processor. -/
def Machine.Switches (machine : Machine) : Event → Prop
  | .syscall _ => False
  | .run _ => ∃ call, machine.ctx = .kernel call .switchOut ∨ machine.ctx = .kernel call .exitLoop ∨
      machine.ctx = .kernel call .yield
  | .tick _ => True

/-- A switch resumes a context on the same side of `swapgs` as the last one. -/
def Tracked.SameSide (tracked : Tracked) (event : Event) : Prop :=
  tracked.machine.Switches event → ∀ after, tracked.machine.step event = some after →
    after.ctx.gs? = none ∨ after.ctx.gs? = some tracked.side

/-- The registers are as the last context had them. -/
structure Tracked.Parity (tracked : Tracked) : Prop where
  ctx : tracked.machine.ctx.gs? = none ∨ tracked.machine.ctx.gs? = some tracked.side
  gsBase : tracked.machine.gsBase = tracked.side
  kernelGsBase : tracked.machine.kernelGsBase = tracked.side.other

section Exec

variable {kernel : Kernel} {self : Handle} {interrupts : Bool} {call : Call} {choice : Choice}
  {pc : Pc} {outcome : Outcome}

/-- What a section at a point may do to the processor. -/
def Move.Allowed (pc : Pc) : Move → Prop
  | .goto _ target => pc ≠ .swapgs ∧ pc ≠ .sysretq ∧ target ≠ .sysretq
  | .switchOut .. => pc = .switchOut ∨ pc = .exitLoop
  | .yield .. => pc = .yield
  | .swapgs target => pc = .swapgs ∧ target = .sysretq
  | .sysret => pc = .sysretq

theorem runAct_side {request : Request} :
    (kernel.runAct self choice request).2 ≠ .sysretq :=
  runAct_next (· ≠ .sysretq) Pc.noConfusion Pc.noConfusion (fun _ => Pc.noConfusion) request

theorem exec_side (next : kernel.exec self interrupts call choice pc = some outcome) :
    outcome.move.Allowed pc := by
  cases pc with
  | act =>
    cases next
    exact ⟨Pc.noConfusion, Pc.noConfusion, runAct_side⟩
  | _ =>
    simp only [Kernel.exec] at next
    repeat' split at next
    all_goals cases next <;> simp only [Move.Allowed] <;> grind

end Exec

theorem gs?_kernel {call : Call} {pc : Pc} (inside : pc ≠ .sysretq) :
    (Ctx.kernel call pc).gs? = some .perCpu := by
  cases pc with
  | sysretq => exact absurd rfl inside
  | _ => rfl

namespace Tracked

variable {tracked after : Tracked}

/-- A step that leaves the registers alone and resumes a context of the same side. -/
theorem Parity.same (parity : tracked.Parity) {machine : Machine}
    (gsBase : machine.gsBase = tracked.machine.gsBase)
    (kernelGsBase : machine.kernelGsBase = tracked.machine.kernelGsBase)
    (side : machine.ctx.gs? = none ∨ machine.ctx.gs? = some tracked.side) :
    Parity ⟨machine, machine.ctx.gs?.getD tracked.side⟩ := by
  have kept : machine.ctx.gs?.getD tracked.side = tracked.side := by
    rcases side with idle | same
    · rw [idle]
      rfl
    · rw [same]
      rfl
  rw [kept]
  exact ⟨side, gsBase.trans parity.gsBase, kernelGsBase.trans parity.kernelGsBase⟩

/-- `swapgs` together with a context of the other side. -/
theorem Parity.swapped (parity : tracked.Parity) {machine : Machine}
    (gsBase : machine.gsBase = tracked.machine.kernelGsBase)
    (kernelGsBase : machine.kernelGsBase = tracked.machine.gsBase)
    (side : machine.ctx.gs? = some tracked.side.other) :
    Parity ⟨machine, machine.ctx.gs?.getD tracked.side⟩ := by
  rw [side]
  refine ⟨.inr side, gsBase.trans parity.kernelGsBase, ?_⟩
  change machine.kernelGsBase = tracked.side.other.other
  rw [kernelGsBase, parity.gsBase]
  cases tracked.side <;> rfl

theorem switchTasks_gs {machine : Machine} {call : Call} {resume stay : Pc}
    {switch : Option Scheduler.Switch × Scheduler} :
    (machine.switchTasks call resume stay switch).gsBase = machine.gsBase ∧
      (machine.switchTasks call resume stay switch).kernelGsBase = machine.kernelGsBase := by
  obtain ⟨switch, sched⟩ := switch
  cases switch with
  | none => exact ⟨rfl, rfl⟩
  | some pair => exact ⟨rfl, rfl⟩

theorem run_parity (parity : tracked.Parity) {choice : Choice}
    (same : tracked.SameSide (.run choice)) (next : tracked.step (.run choice) = some after) :
    after.Parity := by
  obtain ⟨machine, stepped, rfl⟩ := Option.map_eq_some_iff.mp next
  have stepped' := stepped
  simp only [Machine.step] at stepped
  split at stepped
  · rename_i call pc self inside running
    obtain ⟨outcome, ran, rfl⟩ := Option.map_eq_some_iff.mp stepped
    have allowed := exec_side ran
    obtain ⟨kernel, after, move⟩ := outcome
    have side (inner : pc ≠ .sysretq) : tracked.side = .perCpu := by
      have here := parity.ctx
      rw [inside, gs?_kernel inner] at here
      rcases here with none | here
      · cases none
      · exact (Option.some.inj here).symm
    cases move with
    | goto interrupts target =>
      obtain ⟨_, inner, outer⟩ := allowed
      refine parity.same ?_ ?_ (.inr ?_)
      · rfl
      · rfl
      · exact (gs?_kernel outer).trans (congrArg some (side inner).symm)
    | switchOut resume stay =>
      have switches : tracked.machine.Switches (.run choice) := by
        rcases allowed with rfl | rfl
        · exact ⟨call, .inl inside⟩
        · exact ⟨call, .inr (.inl inside)⟩
      exact parity.same switchTasks_gs.1 switchTasks_gs.2 (same switches _ stepped')
    | yield resume stay =>
      have switches : tracked.machine.Switches (.run choice) := by
        cases allowed
        exact ⟨call, .inr (.inr inside)⟩
      exact parity.same switchTasks_gs.1 switchTasks_gs.2 (same switches _ stepped')
    | swapgs target =>
      obtain ⟨rfl, rfl⟩ := allowed
      apply parity.swapped rfl rfl
      rw [side Pc.noConfusion]
      rfl
    | sysret =>
      cases allowed
      have here := parity.ctx
      rw [inside] at here
      refine parity.same ?_ ?_ here
      · rfl
      · rfl
  · cases stepped

theorem step_parity (tracked : Tracked) (event : Event) (after : Tracked)
    (parity : tracked.Parity) (same : tracked.SameSide event)
    (next : tracked.step event = some after) : after.Parity := by
  cases event with
  | syscall request =>
    obtain ⟨machine, stepped, rfl⟩ := Option.map_eq_some_iff.mp next
    simp only [Machine.step] at stepped
    split at stepped
    · rename_i self inside running
      cases stepped
      have side : tracked.side = .user := by
        have here := parity.ctx
        rw [inside] at here
        rcases here with none | here
        · cases none
        · exact (Option.some.inj here).symm
      apply parity.swapped rfl rfl
      rw [side]
      apply gs?_kernel
      cases request <;> exact Pc.noConfusion
    · cases stepped
  | run choice => exact run_parity parity same next
  | tick stackOk =>
    obtain ⟨machine, stepped, rfl⟩ := Option.map_eq_some_iff.mp next
    have resumed := same trivial machine stepped
    simp only [Machine.step] at stepped
    split at stepped
    · cases stepped
      exact parity.same rfl rfl resumed
    · cases stepped

end Tracked

private def consoleFiles : FileId → FileHandle := fun _ => ⟨.plain, 0⟩

private def staysOn (tracked : Tracked) : Event → Bool
  | .syscall _ => true
  | .run _ =>
    match tracked.machine.ctx with
    | .kernel _ .switchOut | .kernel _ .exitLoop | .kernel _ .yield => false
    | _ => true
  | .tick _ => false

private theorem staysOn_sameSide (tracked : Tracked) (event : Event)
    (stays : staysOn tracked event = true) : tracked.SameSide event := by
  intro switches
  cases event with
  | syscall => exact absurd switches id
  | run choice =>
    obtain ⟨call, inside | inside | inside⟩ := switches
    all_goals
      simp only [staysOn, inside] at stays
      cases stays
  | tick => cases stays

end RustPosix.Sched
