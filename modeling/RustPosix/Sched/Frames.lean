import RustPosix.Sched.Machine

/-! The rule for properties of contexts: what every section of a call keeps holds of the
context on the processor and of every saved frame, whatever is scheduled. -/

namespace RustPosix.Sched

open Library Ipc

/-- A property of the contexts that a step may leave behind. -/
def Move.All (holds : Frame → Prop) (call : Call) (interrupts : Bool) : Move → Prop
  | .goto after pc => holds ⟨.kernel call pc, after⟩
  | .switchOut resume stay | .yield resume stay =>
    holds ⟨.kernel call resume, false⟩ ∧ holds ⟨.kernel call stay, interrupts⟩
  | .swapgs pc => holds ⟨.kernel call pc, interrupts⟩
  | .sysret => True

/-- A property of contexts that entering the kernel establishes and every section keeps. -/
structure Local (files : FileId → FileHandle) (holds : Frame → Prop) : Prop where
  user : holds ⟨.user, true⟩
  entry : ∀ request callerPid,
    holds ⟨.kernel ⟨request, callerPid, none, false⟩ request.entry, false⟩
  exec : ∀ (kernel : Kernel) self interrupts call choice pc outcome, kernel.files = files →
    holds ⟨.kernel call pc, interrupts⟩ →
    kernel.exec self interrupts call choice pc = some outcome →
    outcome.move.All holds outcome.call interrupts

/-- All contexts of the machine. -/
structure Machine.Contexts (files : FileId → FileHandle) (holds : Frame → Prop)
    (machine : Machine) : Prop where
  files : machine.kernel.files = files
  running : holds ⟨machine.ctx, machine.interrupts⟩
  saved : ∀ handle, holds (machine.kernel.frames handle)

section Exec

variable {kernel : Kernel} {self : Handle} {interrupts : Bool} {call : Call} {choice : Choice}
  {pc : Pc} {outcome : Outcome}

/-- Looking for signals changes nothing but the signals. -/
theorem deliverSignals_signals {stackOk : Bool} {after : Kernel} {found : Option Int}
    (delivered : kernel.deliverSignals stackOk = (after, found)) :
    ∃ signals, after = { kernel with signals } := by
  revert delivered
  fun_cases Kernel.deliverSignals kernel stackOk
  all_goals
    intro delivered
    cases delivered
    exact ⟨_, rfl⟩

/-- The files are as they were, and no frame is saved but that of a child. -/
structure KeepsFrames (before after : Kernel) : Prop where
  files : after.files = before.files
  frames : after.frames = before.frames ∨
    after.frames = Function.update before.frames before.sched.created ⟨.user, true⟩

theorem KeepsFrames.refl (kernel : Kernel) : KeepsFrames kernel kernel := ⟨rfl, .inl rfl⟩

/-- Where a call that is over in one section goes on. -/
theorem runAct_next (holds : Pc → Prop) (deliver : holds .deliver) (popRsp : holds .popRsp)
    (closeWake : ∀ pids, holds (.closeWake pids)) (request : Request) :
    holds (kernel.runAct self choice request).2 := by
  cases request with
  | fork =>
    cases choice with
    | fail => exact deliver
    | _ => exact deliver
  | close dropped =>
    cases dropped with
    | none => exact deliver
    | some ended => exact closeWake _
  | rtSigreturn set => exact popRsp
  | _ => exact deliver

theorem runAct_frames {request : Request} {after : Kernel}
    (acted : kernel.runAct self choice request = (after, pc)) : KeepsFrames kernel after := by
  cases request with
  | fork =>
    cases choice with
    | fail =>
      cases acted
      exact .refl kernel
    | _ =>
      cases acted
      refine ⟨rfl, .inr ?_⟩
      simp only [Kernel.sysFork, Scheduler.allocPid]
      split
      · rfl
      · rfl
  | kill pid sig =>
    cases acted
    fun_cases Kernel.sysKill kernel pid sig
    all_goals exact ⟨rfl, .inl rfl⟩
  | close dropped =>
    cases dropped with
    | none =>
      cases acted
      exact .refl kernel
    | some ended =>
      cases acted
      exact ⟨rfl, .inl rfl⟩
  | _ =>
    cases acted
    exact ⟨rfl, .inl rfl⟩

theorem exec_frames (next : kernel.exec self interrupts call choice pc = some outcome) :
    KeepsFrames kernel outcome.kernel := by
  cases pc with
  | act =>
    cases next
    exact runAct_frames rfl
  | deliver =>
    simp only [Kernel.exec] at next
    split at next
    all_goals
      rename_i delivered
      cases next
      obtain ⟨signals, rfl⟩ := deliverSignals_signals delivered
      exact ⟨rfl, .inl rfl⟩
  | _ =>
    simp only [Kernel.exec] at next
    repeat' split at next
    all_goals cases next <;> exact ⟨rfl, .inl rfl⟩

end Exec

/-- The processor is in ring 3. -/
def Ctx.isUser : Ctx → Bool
  | .user => true
  | _ => false

theorem Ctx.eq_user_of_isUser {ctx : Ctx} (ring3 : ctx.isUser = true) : ctx = .user := by
  cases ctx with
  | user => rfl
  | idle => cases ring3
  | kernel call pc => cases ring3

namespace Machine

/-- The process that a tick of the timer ends. -/
def tickVictim (kernel : Kernel) (frame : Frame) (stackOk : Bool) : Option Handle :=
  let (scheduled, next) := tickSchedule kernel frame
  match next.ctx with
  | .user =>
    if scheduled.sched.currentPid > 0 ∧
        scheduled.signals.hasUnblockedSignals scheduled.sched.currentPid ∧
        (scheduled.deliverSignals stackOk).2.isSome then scheduled.sched.current
    else none
  | _ => none

/-- What a tick comes to, with the process that it ends. -/
inductive Ticked (kernel : Kernel) (frame : Frame) (stackOk : Bool) :
    Option Handle → Kernel × Frame → Prop where
  | scheduled : Ticked kernel frame stackOk none (tickSchedule kernel frame)
  | delivered (signals : SignalManager) (user : (tickSchedule kernel frame).2.ctx = .user)
      (pass : (tickSchedule kernel frame).1.deliverSignals stackOk =
        ({ (tickSchedule kernel frame).1 with signals }, none)) :
      Ticked kernel frame stackOk none
        ({ (tickSchedule kernel frame).1 with signals }, (tickSchedule kernel frame).2)
  | ended (signals : SignalManager) (sig : Int)
      (user : (tickSchedule kernel frame).2.ctx = .user)
      (pass : (tickSchedule kernel frame).1.deliverSignals stackOk =
        ({ (tickSchedule kernel frame).1 with signals }, some sig)) :
      Ticked kernel frame stackOk (tickSchedule kernel frame).1.sched.current
        (tickSchedule (terminate { (tickSchedule kernel frame).1 with signals } sig)
          (tickSchedule kernel frame).2)

theorem timerTick_ticked (kernel : Kernel) (frame : Frame) (stackOk : Bool) :
    Ticked kernel frame stackOk (tickVictim kernel frame stackOk)
      (timerTick kernel frame stackOk) := by
  have plain := @Ticked.scheduled kernel frame stackOk
  have delivered := @Ticked.delivered kernel frame stackOk
  have ended := @Ticked.ended kernel frame stackOk
  unfold timerTick tickVictim
  generalize Ticked kernel frame stackOk = ticked at plain delivered ended
  generalize tickSchedule kernel frame = result at plain delivered ended
  obtain ⟨scheduled, next⟩ := result
  dsimp only at plain delivered ended ⊢
  cases place : next.ctx with
  | user =>
    dsimp only
    by_cases waiting : scheduled.sched.currentPid > 0 ∧
        scheduled.signals.hasUnblockedSignals scheduled.sched.currentPid = true
    · rw [if_pos waiting]
      cases pass : scheduled.deliverSignals stackOk with
      | mk after found =>
        obtain ⟨signals, rfl⟩ := deliverSignals_signals pass
        cases found with
        | none =>
          rw [if_neg fun all => Bool.noConfusion all.2.2]
          exact delivered signals place pass
        | some sig =>
          rw [if_pos ⟨waiting.1, waiting.2, rfl⟩]
          exact ended signals sig place pass
    · rw [if_neg waiting, if_neg fun all => waiting ⟨all.1, all.2.1⟩]
      exact plain
  | idle => exact plain
  | kernel call pc => exact plain

end Machine

section Step

variable {files : FileId → FileHandle} {holds : Frame → Prop}

/-- A property of the frame to resume and of all saved ones. -/
structure Saved (files : FileId → FileHandle) (holds : Frame → Prop) (result : Kernel × Frame) :
    Prop where
  files : result.1.files = files
  running : holds result.2
  saved : ∀ handle, holds (result.1.frames handle)

theorem update_holds {frames : Handle → Frame} {handle : Handle} {frame : Frame}
    (saved : ∀ other, holds (frames other)) (here : holds frame) (other : Handle) :
    holds (Function.update frames handle frame other) := by
  by_cases same : other = handle
  · subst same
    rwa [Function.update_self]
  · rw [Function.update_of_ne same]
    exact saved other

theorem saveCurrent_holds {kernel : Kernel} {frame : Frame}
    (saved : ∀ handle, holds (kernel.frames handle)) (here : holds frame) (handle : Handle) :
    holds (Machine.saveCurrent kernel frame handle) := by
  cases running : kernel.sched.current with
  | none =>
    simp only [Machine.saveCurrent, running]
    exact saved handle
  | some prev =>
    simp only [Machine.saveCurrent, running]
    exact update_holds saved here handle

theorem tickSchedule_saved {kernel : Kernel} {frame : Frame}
    (before : Saved files holds (kernel, frame)) :
    Saved files holds (Machine.tickSchedule kernel frame) := by
  unfold Machine.tickSchedule
  split
  · exact ⟨before.files, before.running, before.saved⟩
  · have frames := saveCurrent_holds before.saved before.running
    exact ⟨before.files, frames _, frames⟩

theorem terminate_frames (kernel : Kernel) (sig : Int) :
    (Machine.terminate kernel sig).files = kernel.files ∧
      (Machine.terminate kernel sig).frames = kernel.frames := by
  fun_cases Machine.terminate kernel sig
  all_goals exact ⟨rfl, rfl⟩

theorem timerTick_saved {kernel : Kernel} {frame : Frame} {stackOk : Bool}
    (before : Saved files holds (kernel, frame)) :
    Saved files holds (Machine.timerTick kernel frame stackOk) := by
  have first := tickSchedule_saved before
  have ticked := Machine.timerTick_ticked kernel frame stackOk
  generalize Machine.tickVictim kernel frame stackOk = victim at ticked
  generalize Machine.timerTick kernel frame stackOk = result at ticked
  cases ticked with
  | scheduled => exact first
  | delivered signals => exact ⟨first.files, first.running, first.saved⟩
  | ended signals sig =>
    generalize Machine.tickSchedule kernel frame = scheduled at first
    obtain ⟨scheduled, next⟩ := scheduled
    obtain ⟨files, frames⟩ := terminate_frames { scheduled with signals } sig
    apply tickSchedule_saved
    refine ⟨files.trans first.files, first.running, fun handle => ?_⟩
    exact (congrFun frames handle).symm ▸ first.saved handle

theorem switchTasks_contexts {machine : Machine} {call : Call} {resume stay : Pc}
    {switch : Option Scheduler.Switch × Scheduler} (files_ : machine.kernel.files = files)
    (saved : ∀ handle, holds (machine.kernel.frames handle))
    (resumed : holds ⟨.kernel call resume, false⟩)
    (stayed : holds ⟨.kernel call stay, machine.interrupts⟩) :
    (machine.switchTasks call resume stay switch).Contexts files holds := by
  obtain ⟨switch, sched⟩ := switch
  cases switch with
  | none => exact ⟨files_, stayed, saved⟩
  | some pair => exact ⟨files_, saved pair.next, update_holds saved resumed⟩

theorem KeepsFrames.saved {before after : Kernel} (kept : KeepsFrames before after)
    (user : holds ⟨.user, true⟩) (saved : ∀ handle, holds (before.frames handle))
    (handle : Handle) : holds (after.frames handle) := by
  rcases kept.frames with same | same
  · rw [same]
    exact saved handle
  · rw [same]
    exact update_holds saved user handle

theorem applyMove_contexts (user : holds ⟨.user, true⟩) {machine : Machine} {outcome : Outcome}
    (files_ : outcome.kernel.files = files)
    (saved : ∀ handle, holds (outcome.kernel.frames handle))
    (moved : outcome.move.All holds outcome.call machine.interrupts) :
    (machine.applyMove outcome).Contexts files holds := by
  obtain ⟨kernel, call, move⟩ := outcome
  cases move with
  | goto interrupts pc => exact ⟨files_, moved, saved⟩
  | switchOut resume stay => exact switchTasks_contexts files_ saved moved.1 moved.2
  | yield resume stay => exact switchTasks_contexts files_ saved moved.1 moved.2
  | swapgs pc => exact ⟨files_, moved, saved⟩
  | sysret => exact ⟨files_, user, saved⟩

/-- What entering the kernel establishes and the section at hand keeps. -/
theorem Machine.Contexts.step {machine : Machine} {event : Event} {after : Machine}
    (before : machine.Contexts files holds) (user : holds ⟨.user, true⟩)
    (entry : ∀ self request, event = .syscall request → machine.ctx = .user →
      machine.kernel.sched.current = some self →
      holds ⟨.kernel ⟨request, machine.kernel.callerPid self request, none, false⟩ request.entry,
        false⟩)
    (exec : ∀ self call choice pc outcome, machine.ctx = .kernel call pc →
      machine.kernel.exec self machine.interrupts call choice pc = some outcome →
      outcome.move.All holds outcome.call machine.interrupts)
    (next : machine.step event = some after) : after.Contexts files holds := by
  cases event with
  | syscall request =>
    simp only [Machine.step] at next
    split at next
    · rename_i self ring3 current
      cases next
      exact ⟨before.files, entry self request rfl ring3 current, before.saved⟩
    · cases next
  | run choice =>
    simp only [Machine.step] at next
    split at next
    · rename_i call pc self inside _
      obtain ⟨outcome, ran, rfl⟩ := Option.map_eq_some_iff.mp next
      have kept := exec_frames ran
      apply applyMove_contexts user (kept.files.trans before.files) (kept.saved user before.saved)
      exact exec self call choice pc outcome inside ran
    · cases next
  | tick stackOk =>
    simp only [Machine.step] at next
    split at next
    · rename_i enabled
      cases next
      have ticked : Saved files holds (Machine.timerTick machine.kernel ⟨machine.ctx, true⟩ stackOk) :=
        timerTick_saved ⟨before.files, enabled ▸ before.running, before.saved⟩
      exact ⟨ticked.files, ticked.running, ticked.saved⟩
    · cases next

theorem Local.step (rule : Local files holds) (machine : Machine) (event : Event)
    (after : Machine) (before : machine.Contexts files holds)
    (next : machine.step event = some after) : after.Contexts files holds := by
  refine before.step rule.user (fun _ request _ _ _ => rule.entry request _) ?_ next
  intro self call choice pc outcome inside ran
  exact rule.exec _ _ _ _ _ _ _ before.files (inside ▸ before.running) ran

/-- What every section keeps holds of all contexts of every run that starts so. -/
theorem Local.run (rule : Local files holds) {allowed : Machine → Event → Prop}
    {start last : Machine} (run : Run Machine.step allowed start last)
    (before : start.Contexts files holds) : last.Contexts files holds := by
  apply run.invariant before
  intro machine event after before _ next
  exact rule.step machine event after before next

theorem Local.boot (rule : Local files holds) (idle : holds ⟨.idle, true⟩) :
    (Machine.boot files).Contexts files holds := by
  refine ⟨rfl, rule.user, fun handle => ?_⟩
  change holds (if handle = 1 then ⟨.idle, true⟩ else ⟨.user, true⟩)
  split
  · exact idle
  · exact rule.user

end Step

end RustPosix.Sched
