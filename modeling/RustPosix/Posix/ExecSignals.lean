import RustPosix.Posix.ExecFrame
import RustPosix.Posix.Interrupted
import RustPosix.Posix.SignalNesting

/-! The signal dispositions of a process across `sys_execve`, and the deliveries to the new
image. -/

namespace RustPosix.Posix

open Library Mm Vfs Ipc

/-- The process has an address of its own to go to when the signal comes. -/
def Caught (signals : SignalManager) (pid : Pid) (sig : Int) : Prop :=
  (signals.getAction pid sig).handler ≠ sigDfl ∧ (signals.getAction pid sig).handler ≠ sigIgn

/-- What happens to the signal state between two calls of `sys_execve`. -/
inductive SignalEvent where
  | rtSigaction (pid : Pid) (sig : Int) (act : SigAction)
  | rtSigprocmask (pid : Pid) (how : MaskChange) (set : SigSet)
  | fork (parent child : Pid)
  | kill (pid : Pid) (sig : Int)
  | deliver (pid : Pid) (regs : SyscallRegisters) (space : UserSpace)
  | rtSigreturn (pid : Pid) (regs : SyscallRegisters) (space : UserSpace)

/-- The address of the handler that a process is sent to. -/
def Delivery.handlerAddress : Delivery → Option (BitVec 64)
  | .handler _ user => some user.regs.rcx
  | _ => none

namespace SignalEvent

def apply (signals : SignalManager) : SignalEvent → SignalManager
  | .rtSigaction pid sig act => signals.setAction pid sig act
  | .rtSigprocmask pid how set => signals.setProcmask pid how set
  | .fork parent child => signals.inheritFrom parent child
  | .kill pid sig => signals.setPending pid sig
  | .deliver pid regs space => (checkAndDeliverSignals pid ⟨regs, space, signals⟩).user.signals
  | .rtSigreturn pid regs space =>
    match sysRtSigreturn pid ⟨regs, space, signals⟩ with
    | .ok user => user.signals
    | .error _ => signals

def run (history : List SignalEvent) (signals : SignalManager) : SignalManager :=
  history.foldl apply signals

/-- The process asks for a handler, or it begins as the child of another. -/
def Registers (pid : Pid) : SignalEvent → Prop
  | .rtSigaction caller _ act => caller = pid ∧ act.handler ≠ sigDfl ∧ act.handler ≠ sigIgn
  | .fork _ child => child = pid
  | _ => False

end SignalEvent

/-- What `exec` owes the new image: `before` and `after` are the states around the call. -/
structure HandlersReset (pid : Pid) (before after : SignalManager) : Prop where
  caught : ∀ sig, Caught before pid sig → (after.getAction pid sig).handler = sigDfl
  others : ∀ sig, ¬ Caught before pid sig →
    (after.getAction pid sig).handler = (before.getAction pid sig).handler
  mask : after.blocked pid = before.blocked pid
  /-- Nothing is delivered to a handler until the new image has asked for one. -/
  unreached : ∀ later : List SignalEvent, (∀ event ∈ later, ¬ event.Registers pid) →
    ∀ regs space, (checkAndDeliverSignals pid
      ⟨regs, space, SignalEvent.run later after⟩).handlerAddress = none

section Dispositions

variable {pid : Pid} {before after signals : SignalManager}

/-- No signal of the process is caught. -/
def Tame (signals : SignalManager) (pid : Pid) : Prop := ∀ sig, ¬ Caught signals pid sig

theorem Tame.same (tame : Tame before pid) (actions : after.actions pid = before.actions pid) :
    Tame after pid := by
  intro sig
  have same : after.getAction pid sig = before.getAction pid sig := by
    unfold SignalManager.getAction
    rw [actions]
  rw [Caught, same]
  exact tame sig

theorem setAction_actions_others {other : Pid} (apart : other ≠ pid) (sig : Int) (act : SigAction) :
    (signals.setAction other sig act).actions pid = signals.actions pid := by
  unfold SignalManager.setAction
  split
  · rfl
  · exact Function.update_of_ne apart.symm ..

theorem setAction_getAction (sig other : Int) (act : SigAction) :
    (signals.setAction pid sig act).getAction pid other = signals.getAction pid other ∨
      (signals.setAction pid sig act).getAction pid other = act := by
  unfold SignalManager.setAction SignalManager.getAction
  by_cases refused : ¬ (sigMin ≤ sig ∧ sig ≤ sigMax) ∨ sig = sigkill ∨ sig = sigstop
  · rw [if_pos refused]
    exact .inl rfl
  · rw [if_neg refused]
    dsimp only
    rw [Function.update_self, Function.update_apply]
    by_cases same : other = sig
    · subst same
      rw [if_pos rfl, if_pos (not_not.mp (not_or.mp refused).1)]
      exact .inr rfl
    · rw [if_neg same]
      exact .inl rfl

theorem Tame.setAction (tame : Tame signals pid) (caller : Pid) (sig : Int) {act : SigAction}
    (allowed : ¬ (caller = pid ∧ act.handler ≠ sigDfl ∧ act.handler ≠ sigIgn)) :
    Tame (signals.setAction caller sig act) pid := by
  by_cases own : caller = pid
  · subst own
    intro other caught
    rw [Caught] at caught
    rcases @setAction_getAction caller signals sig other act with same | changed
    · rw [same] at caught
      exact tame other caught
    · rw [changed] at caught
      exact allowed ⟨rfl, caught⟩
  · exact tame.same (setAction_actions_others own sig act)

theorem Tame.inheritFrom (tame : Tame signals pid) (parent : Pid) {child : Pid}
    (other : child ≠ pid) : Tame (signals.inheritFrom parent child) pid := by
  unfold SignalManager.inheritFrom
  refine List.foldlRecOn _ _ (motive := fun after => Tame after pid) (tame.same rfl)
    fun after kept sig _ => ?_
  exact kept.same (setAction_actions_others other sig _)

theorem Tame.updateSignalMask (tame : Tame signals pid) (owner : Pid) (sig : Int)
    (action : SigAction) (blocked : SigSet) :
    Tame (signals.updateSignalMaskAndDisposition owner sig action blocked) pid := by
  have masked {set : SigSet} : Tame (signals.setProcmask owner .setMask set) pid := tame.same rfl
  unfold SignalManager.updateSignalMaskAndDisposition
  dsimp only
  split
  · exact masked.setAction owner sig fun ⟨_, caught⟩ => caught.1 rfl
  · exact masked

theorem nextUnblockedSignal_actions (signals : SignalManager) (pid : Pid) :
    (signals.nextUnblockedSignal pid).2.actions = signals.actions := by
  have picked := SignalManager.nextUnblockedSignal_picked signals pid
  generalize signals.nextUnblockedSignal pid = result at picked
  cases picked with
  | nothing scanned => exact scanned.actions
  | signal _ _ scanned => exact scanned.actions

theorem Tame.deliver (tame : Tame signals pid) (owner : Pid) (regs : SyscallRegisters)
    (space : UserSpace) :
    Tame (checkAndDeliverSignals owner ⟨regs, space, signals⟩).user.signals pid := by
  have scanned : Tame (signals.nextUnblockedSignal owner).2 pid :=
    tame.same (congrFun (nextUnblockedSignal_actions signals owner) pid)
  unfold checkAndDeliverSignals
  split
  · exact tame
  · dsimp only
    generalize signals.nextUnblockedSignal owner = result at scanned
    rcases result with ⟨_ | ⟨sig, action, blocked⟩, signals⟩
    · exact scanned
    · dsimp only
      split
      · exact scanned
      · split
        · rename_i user delivered
          unfold deliverSignalToUser at delivered
          obtain ⟨_, _, rfl⟩ := Option.map_eq_some_iff.mp delivered
          exact scanned.updateSignalMask owner sig action blocked
        · exact scanned

/-- A signal with nothing but a default cannot lead to a handler. -/
theorem Tame.unreached (tame : Tame signals pid) (regs : SyscallRegisters) (space : UserSpace) :
    (checkAndDeliverSignals pid ⟨regs, space, signals⟩).handlerAddress = none := by
  have picked := SignalManager.nextUnblockedSignal_picked signals pid
  unfold checkAndDeliverSignals
  split
  · rfl
  · dsimp only
    generalize signals.nextUnblockedSignal pid = result at picked
    cases picked with
    | nothing _ => rfl
    | signal found deliverable _ =>
      have default : (signals.getAction pid found).handler = sigDfl := by
        by_contra caught
        exact tame found ⟨caught, fun ignored => deliverable.cares (.inl ignored)⟩
      dsimp only
      rw [if_pos default]
      rfl

theorem SignalEvent.apply_tame (tame : Tame signals pid) {event : SignalEvent}
    (silent : ¬ event.Registers pid) : Tame (event.apply signals) pid := by
  cases event with
  | rtSigaction caller sig act => exact tame.setAction caller sig silent
  | rtSigprocmask caller how set => exact tame.same rfl
  | fork parent child => exact tame.inheritFrom parent silent
  | kill target sig => exact tame.same rfl
  | deliver owner regs space => exact tame.deliver owner regs space
  | rtSigreturn owner regs space =>
    unfold apply
    dsimp only
    split
    · rename_i user returned
      unfold sysRtSigreturn at returned
      cases frame : space.readFrame (regs.rsp.toNat - 8) with
      | none =>
        rw [frame] at returned
        cases returned
      | some frame' =>
        rw [frame] at returned
        cases returned
        exact tame.same rfl
    · exact tame

theorem SignalEvent.run_tame (tame : Tame signals pid) {history : List SignalEvent}
    (silent : ∀ event ∈ history, ¬ event.Registers pid) :
    Tame (SignalEvent.run history signals) pid :=
  List.foldlRecOn history apply (motive := fun after => Tame after pid) tame
    fun _ kept event listed => apply_tame kept (silent event listed)

end Dispositions

/-- A successful `sys_execve` does right by the dispositions of its process exactly if there
was nothing to reset. -/
theorem execve_resets_handlers_iff {Fds : Type} {request : ExecRequest}
    {world after : ExecWorld Fds} (executed : sysExecve (.ok request) world = (some 0, after))
    (pid : Pid) :
    HandlersReset pid world.signals after.signals ↔ ∀ sig, ¬ Caught world.signals pid sig := by
  obtain ⟨_, _, _, _, _, rfl⟩ := sysExecve_applied executed
  constructor
  · intro reset sig caught
    exact caught.1 (reset.caught sig caught)
  · intro tame
    refine ⟨fun sig caught => (tame sig caught).elim, fun _ _ => rfl, rfl, ?_⟩
    intro later silent regs space
    exact Tame.unreached (SignalEvent.run_tame tame silent) regs space

/-- A process that ignores `SIGINT` and catches nothing. -/
theorem execve_resets_handlers_iff_ignoring : ∃ after,
    sysExecve (.ok tidyRequest)
        { execWorld with signals := SignalManager.new.setAction 1 2 ⟨sigIgn, 0, 0, 0⟩ } =
      (some 0, after) ∧
    HandlersReset 1 (SignalManager.new.setAction 1 2 ⟨sigIgn, 0, 0, 0⟩) after.signals := by
  obtain ⟨newVm, executed⟩ := execWorld_executes (.setAction .new 1 2 ⟨sigIgn, 0, 0, 0⟩)
  refine ⟨_, executed, (execve_resets_handlers_iff executed 1).mpr ?_⟩
  have free : Tame .new 1 := fun sig caught => caught.1 (congrArg SigAction.handler (ite_self _))
  exact free.setAction 1 2 fun ⟨_, caught⟩ => caught.2 rfl

/-- The handler at 0x400100 that the old image has asked for is where the new one goes when
the signal comes. -/
theorem execve_keeps_handler : ∃ after,
    sysExecve (.ok tidyRequest)
        { execWorld with signals := SignalManager.new.setAction 1 10 ⟨0x400100, 0, 0, 0⟩ } =
      (some 0, after) ∧
    (after.signals.getAction 1 10).handler = 0x400100 ∧
    (checkAndDeliverSignals 1 { UserContext.mapped 0x8000 with
      signals := SignalEvent.run [.kill 1 10] after.signals }).handlerAddress = some 0x400100 := by
  obtain ⟨newVm, executed⟩ := execWorld_executes (.setAction .new 1 10 ⟨0x400100, 0, 0, 0⟩)
  refine ⟨_, executed, rfl, ?_⟩
  change (checkAndDeliverSignals 1 { UserContext.mapped 0x8000 with
    signals := SignalEvent.run [.kill 1 10]
      (SignalManager.new.setAction 1 10 ⟨0x400100, 0, 0, 0⟩) }).handlerAddress = some 0x400100
  decide +kernel

end RustPosix.Posix
