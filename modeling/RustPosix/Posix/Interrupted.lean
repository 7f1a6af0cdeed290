import RustPosix.Ipc.SignalSteps
import RustPosix.Posix.Signals

/-! A blocking call gives up as soon as some signal is pending and not blocked; the look for
signals on its way out may still find nothing to do. -/

namespace RustPosix.Posix

open Vfs Ipc

namespace Delivery

/-- A handler was started, or the process has ended. -/
def Acts : Delivery → Prop
  | .nothing _ => False
  | .handler .. | .ended .. => True

def user : Delivery → UserContext
  | .nothing user | .handler _ user | .ended _ user => user

end Delivery

/-- The calls of a process whose signals change only by the looks on the way out of each. -/
def Undisturbed (pid : Pid) (calls : Nat → UserContext) : Prop :=
  ∀ n, (calls (n + 1)).signals = (checkAndDeliverSignals pid (calls n)).user.signals

/-- A signal that no look for signals ever takes away: one that would stop the process, or
one that cannot be sent at all. -/
structure Lasting (signals : SignalManager) (pid : Pid) (sig : Int) : Prop where
  isBit : Bit sig
  waiting : hasSignal (signals.unblocked pid) sig = true
  stops : Known sig → signals.Stops pid sig

section Look

variable {pid : Pid} {user : UserContext} {sig : Int} {signals after : SignalManager}

theorem stops_cares (stops : signals.Stops pid sig) : ¬ signals.Ignores pid sig := by
  obtain ⟨default, stop⟩ := stops
  rintro (ignored | ⟨_, ignored⟩)
  · rw [default] at ignored
    cases ignored
  · simp only [isDefaultStop, isDefaultIgnore, Bool.or_eq_true, decide_eq_true_eq] at stop ignored
    simp only [sigstop, sigtstp, sigttin, sigttou, sigchld, sigurg, sigwinch] at stop ignored
    omega

theorem hasUnblockedSignals_iff :
    signals.hasUnblockedSignals pid = true ↔
      ∃ sig, Bit sig ∧ hasSignal (signals.unblocked pid) sig = true := by
  rw [SignalManager.hasUnblockedSignals, bne_iff_ne]
  exact ne_zero_iff

/-- A scan of all signals that has found nothing to deliver. -/
abbrev FoundNothing (pid : Pid) (before after : SignalManager) : Prop :=
  before.Scanned pid (before.unblocked pid) sigMin (sigMax + 1) none after

theorem FoundNothing.getAction_eq (idle : FoundNothing pid signals after) :
    after.getAction pid sig = signals.getAction pid sig := by
  rw [SignalManager.getAction, SignalManager.getAction, idle.actions]

theorem FoundNothing.stops_iff (idle : FoundNothing pid signals after) :
    after.Stops pid sig ↔ signals.Stops pid sig := by
  rw [SignalManager.Stops, SignalManager.Stops, idle.getAction_eq]

/-- What such a scan leaves is what it may not drop. -/
theorem FoundNothing.left_iff (idle : FoundNothing pid signals after) (isBit : Bit sig) :
    hasSignal (after.unblocked pid) sig = true ↔
      hasSignal (signals.unblocked pid) sig = true ∧ (Known sig → ¬ signals.Ignores pid sig) := by
  have both : hasSignal (after.unblocked pid) sig = true ↔
      hasSignal (after.pending pid) sig = true ∧ hasSignal (~~~signals.blocked pid) sig = true := by
    rw [SignalManager.unblocked, hasSignal_and, Bool.and_eq_true, idle.blocked]
  rw [both, idle.left sig isBit]
  constructor
  · rintro ⟨⟨pending, _, kept⟩, unmasked⟩
    have waiting : hasSignal (signals.unblocked pid) sig = true := by
      rw [SignalManager.unblocked, hasSignal_and, pending, unmasked, Bool.and_true]
    exact ⟨waiting, fun known ignores => kept ⟨known.1, Int.lt_add_one_of_le known.2, waiting, ignores⟩⟩
  · rintro ⟨waiting, cares⟩
    rw [SignalManager.unblocked, hasSignal_and, Bool.and_eq_true] at waiting
    refine ⟨⟨waiting.1, by rintro ⟨⟩, ?_⟩, waiting.2⟩
    rintro ⟨lower, upper, _, ignores⟩
    exact cares ⟨lower, Int.le_of_lt_add_one upper⟩ ignores

theorem FoundNothing.none_deliverable (idle : FoundNothing pid signals after) :
    ¬ ∃ sig, signals.Deliverable pid sig := by
  rintro ⟨sig, deliverable⟩
  rcases idle.passed sig deliverable.known.1 (Int.lt_add_one_of_le deliverable.known.2)
    deliverable.waiting with ignores | stops
  · exact deliverable.cares ignores
  · exact deliverable.goesOn stops

theorem FoundNothing.stays (idle : FoundNothing pid signals after) :
    ¬ ∃ sig, after.Deliverable pid sig := by
  rintro ⟨sig, known, waiting, cares, goesOn⟩
  refine idle.none_deliverable ⟨sig, known, ((idle.left_iff known.bit).mp waiting).1, ?_, ?_⟩
  · rwa [SignalManager.Ignores, idle.getAction_eq] at cares
  · rwa [idle.stops_iff] at goesOn

/-- Lasting signals last. -/
theorem FoundNothing.lasting_iff (idle : FoundNothing pid signals after) :
    Lasting after pid sig ↔ Lasting signals pid sig := by
  constructor
  · intro lasting
    refine ⟨lasting.isBit, ((idle.left_iff lasting.isBit).mp lasting.waiting).1, fun known => ?_⟩
    exact idle.stops_iff.mp (lasting.stops known)
  · intro lasting
    refine ⟨lasting.isBit, (idle.left_iff lasting.isBit).mpr ⟨lasting.waiting, fun known => ?_⟩,
      fun known => idle.stops_iff.mpr (lasting.stops known)⟩
    exact stops_cares (lasting.stops known)

/-- Only lasting signals make the next call give up again. -/
theorem FoundNothing.interrupted_iff (idle : FoundNothing pid signals after) :
    after.hasUnblockedSignals pid = true ↔ ∃ sig, Lasting signals pid sig := by
  rw [hasUnblockedSignals_iff]
  constructor
  · rintro ⟨sig, isBit, waiting⟩
    obtain ⟨before, cares⟩ := (idle.left_iff isBit).mp waiting
    refine ⟨sig, isBit, before, fun known => ?_⟩
    rcases idle.passed sig known.1 (Int.lt_add_one_of_le known.2) before with ignores | stops
    · exact absurd ignores (cares known)
    · exact stops
  · rintro ⟨sig, lasting⟩
    exact ⟨sig, lasting.isBit, (idle.lasting_iff.mpr lasting).waiting⟩

/-- A look with something to deliver acts, any other one only drops ignored signals. -/
theorem checkAndDeliverSignals_cases (positive : 0 < pid) :
    (checkAndDeliverSignals pid user).Acts ∧ (∃ sig, user.signals.Deliverable pid sig) ∨
      ∃ after, checkAndDeliverSignals pid user = .nothing { user with signals := after } ∧
        FoundNothing pid user.signals after := by
  rw [checkAndDeliverSignals, if_neg (Int.not_le.mpr positive)]
  have picked := user.signals.nextUnblockedSignal_picked pid
  generalize user.signals.nextUnblockedSignal pid = result at picked
  cases picked with
  | nothing scanned => exact .inr ⟨_, rfl, scanned⟩
  | signal sig deliverable scanned =>
    left
    refine ⟨?_, sig, deliverable⟩
    dsimp only
    split
    · trivial
    · split
      · trivial
      · trivial

theorem acts_iff (positive : 0 < pid) :
    (checkAndDeliverSignals pid user).Acts ↔ ∃ sig, user.signals.Deliverable pid sig := by
  rcases @checkAndDeliverSignals_cases pid user positive with ⟨acts, some⟩ | ⟨_, idle, scanned⟩
  · exact ⟨fun _ => some, fun _ => acts⟩
  · rw [idle]
    exact ⟨False.elim, fun some => FoundNothing.none_deliverable scanned some⟩

/-- One call of an undisturbed process that finds nothing to deliver leads to the next. -/
theorem Undisturbed.found_nothing {calls : Nat → UserContext} (undisturbed : Undisturbed pid calls)
    (positive : 0 < pid) {n : Nat} (idle : ¬ (checkAndDeliverSignals pid (calls n)).Acts) :
    FoundNothing pid (calls n).signals (calls (n + 1)).signals := by
  rcases @checkAndDeliverSignals_cases pid (calls n) positive with ⟨acts, _⟩ | ⟨after, found, scanned⟩
  · exact absurd acts idle
  · rw [undisturbed n, found]
    exact scanned

/-- With a lasting signal and nothing to deliver, every later call is interrupted in vain. -/
theorem Undisturbed.stuck {calls : Nat → UserContext} (undisturbed : Undisturbed pid calls)
    (positive : 0 < pid) (idle : ¬ ∃ sig, (calls 0).signals.Deliverable pid sig)
    (lasting : Lasting (calls 0).signals pid sig) (n : Nat) :
    (calls n).signals.hasUnblockedSignals pid = true ∧
      ¬ (checkAndDeliverSignals pid (calls n)).Acts := by
  have kept : Lasting (calls n).signals pid sig ∧
      ¬ ∃ sig, (calls n).signals.Deliverable pid sig := by
    induction n with
    | zero => exact ⟨lasting, idle⟩
    | succ n ih =>
      have found := undisturbed.found_nothing positive ((acts_iff positive).not.mpr ih.2)
      exact ⟨found.lasting_iff.mpr ih.1, found.stays⟩
  exact ⟨hasUnblockedSignals_iff.mpr ⟨sig, kept.1.isBit, kept.1.waiting⟩,
    (acts_iff positive).not.mpr kept.2⟩

end Look

/-- The look behind an interrupted call acts exactly if a signal is waiting that is neither
ignored nor would stop the process. A process that is left alone is interrupted for ever
without any effect exactly if nothing of this kind is waiting, but a signal that would stop
the process is. -/
theorem interruption_acts_iff {pid : Pid} (positive : 0 < pid) (user : UserContext) :
    ((checkAndDeliverSignals pid user).Acts ↔ ∃ sig, user.signals.Deliverable pid sig) ∧
    ∀ calls, Undisturbed pid calls → calls 0 = user →
      ((∀ n, (calls n).signals.hasUnblockedSignals pid = true ∧
          ¬ (checkAndDeliverSignals pid (calls n)).Acts) ↔
        (¬ ∃ sig, user.signals.Deliverable pid sig) ∧ ∃ sig, Lasting user.signals pid sig) := by
  refine ⟨acts_iff positive, ?_⟩
  rintro calls undisturbed rfl
  constructor
  · intro stuck
    have idle := undisturbed.found_nothing positive (stuck 0).2
    exact ⟨idle.none_deliverable, idle.interrupted_iff.mp (stuck 1).1⟩
  · rintro ⟨idle, sig, lasting⟩
    exact undisturbed.stuck positive idle lasting

/-- A process to which one signal has been sent, in a call with nothing in its registers. -/
def UserContext.sent (pid : Pid) (sig : Int) : UserContext where
  regs := ⟨0, 0, 0, 0, 0, 0, 0, 0, 0, 0, 0, 0, 0, 0, 0, 0⟩
  space := ⟨fun _ => 0, fun _ _ => false, fun _ => id⟩
  signals := SignalManager.new.setPending pid sig

/-- The signal that has been sent is the only one that can be delivered. -/
theorem UserContext.sent_deliverable {pid : Pid} {sig other : Int} (known : Known sig)
    (deliverable : (UserContext.sent pid sig).signals.Deliverable pid other) : other = sig := by
  have waiting := deliverable.waiting
  have only : (UserContext.sent pid sig).signals.unblocked pid = sigBit sig := by
    simp only [SignalManager.unblocked, sent, SignalManager.setPending, SignalManager.new,
      Function.update_self]
    exact (BitVec.and_allOnes (x := _)).trans BitVec.zero_or
  rw [only, hasSignal_sigBit deliverable.known.bit known] at waiting
  exact of_decide_eq_true waiting

theorem interruption_acts_iff_sigsegv :
    (UserContext.sent 5 sigsegv).signals.hasUnblockedSignals 5 = true ∧
      (checkAndDeliverSignals 5 (.sent 5 sigsegv)).Acts := by
  have deliverable : (UserContext.sent 5 sigsegv).signals.Deliverable 5 sigsegv :=
    ⟨by decide, by decide, by decide, by decide⟩
  exact ⟨by decide, (interruption_acts_iff (by decide) _).1.mpr ⟨sigsegv, deliverable⟩⟩

/-- A child that has ended interrupts a call for nothing; `SIGSTOP` interrupts every call. -/
theorem stop_signal_interrupts_for_ever :
    ((UserContext.sent 5 sigchld).signals.hasUnblockedSignals 5 = true ∧
      ¬ (checkAndDeliverSignals 5 (.sent 5 sigchld)).Acts) ∧
    ∃ calls, Undisturbed 5 calls ∧ calls 0 = .sent 5 sigstop ∧
      ∀ n, (calls n).signals.hasUnblockedSignals 5 = true ∧
        ¬ (checkAndDeliverSignals 5 (calls n)).Acts := by
  constructor
  · refine ⟨by decide, (acts_iff (by decide)).not.mpr ?_⟩
    rintro ⟨sig, deliverable⟩
    cases UserContext.sent_deliverable (by decide) deliverable
    exact deliverable.cares (by decide)
  · let calls (n : Nat) := (fun user => (checkAndDeliverSignals 5 user).user)^[n] (.sent 5 sigstop)
    have undisturbed : Undisturbed 5 calls := fun n => by
      simp only [calls, Function.iterate_succ_apply']
    have lasting : Lasting (UserContext.sent 5 sigstop).signals 5 sigstop :=
      ⟨⟨by decide, by decide⟩, by decide, fun _ => by decide⟩
    refine ⟨calls, undisturbed, rfl, undisturbed.stuck (by decide) ?_ lasting⟩
    rintro ⟨sig, deliverable⟩
    cases UserContext.sent_deliverable (by decide) deliverable
    exact deliverable.goesOn (by decide)

end RustPosix.Posix
