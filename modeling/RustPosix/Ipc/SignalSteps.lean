import RustPosix.Ipc.Signals

/-! What each operation on the signal state does, signal by signal: which signal the scan
picks, which pending ones it drops on its way, and that nothing masks or replaces what
`SIGKILL` and `SIGSTOP` do. -/

namespace RustPosix.Ipc

open Vfs

/-- A signal is in a set. -/
def hasSignal (set : SigSet) (sig : Int) : Bool := set.getLsbD (sig - 1).toNat

/-- The signals that can be sent. -/
def Known (sig : Int) : Prop := sigMin ≤ sig ∧ sig ≤ sigMax

instance (sig : Int) : Decidable (Known sig) := inferInstanceAs (Decidable (_ ∧ _))

/-- The signals that a set has a bit for. -/
def Bit (sig : Int) : Prop := sigMin ≤ sig ∧ sig ≤ 64

theorem Known.bit {sig : Int} (known : Known sig) : Bit sig :=
  ⟨known.1, le_trans known.2 (by decide)⟩

section Sets

variable {set other : SigSet} {sig bit : Int}

theorem hasSignal_sigBit (isBit : Bit sig) (known : Known bit) :
    hasSignal (sigBit bit) sig = decide (sig = bit) := by
  obtain ⟨lower, upper⟩ := isBit
  obtain ⟨bitLower, bitUpper⟩ := known
  simp only [sigMin, sigMax] at lower upper bitLower bitUpper
  rw [hasSignal, sigBit, ← BitVec.twoPow_eq, BitVec.getLsbD_twoPow]
  have small : (bit - 1).toNat < 64 := by omega
  rw [decide_eq_true small, Bool.true_and]
  exact decide_eq_decide.mpr (by omega)

theorem hasSignal_zero : hasSignal 0 sig = false := BitVec.getLsbD_zero

theorem hasSignal_or : hasSignal (set ||| other) sig = (hasSignal set sig || hasSignal other sig) :=
  BitVec.getLsbD_or

theorem hasSignal_and : hasSignal (set &&& other) sig = (hasSignal set sig && hasSignal other sig) :=
  BitVec.getLsbD_and

theorem hasSignal_not (isBit : Bit sig) : hasSignal (~~~set) sig = !hasSignal set sig := by
  obtain ⟨lower, upper⟩ := isBit
  simp only [sigMin] at lower
  have small : (sig - 1).toNat < 64 := by omega
  rw [hasSignal, BitVec.getLsbD_not, decide_eq_true small, Bool.true_and]
  rfl

/-- The test of the source is the test of the bit. -/
theorem and_sigBit_eq_zero (known : Known sig) :
    set &&& sigBit sig = 0 ↔ hasSignal set sig = false := by
  have one : hasSignal (sigBit sig) sig = true := by
    rw [hasSignal_sigBit known.bit known, decide_eq_true rfl]
  constructor
  · intro zero
    have both : hasSignal (set &&& sigBit sig) sig = false := by
      rw [zero, hasSignal_zero]
    rwa [hasSignal_and, one, Bool.and_true] at both
  · intro absent
    rw [sigBit, ← BitVec.twoPow_eq, BitVec.and_twoPow]
    exact if_neg (by rw [hasSignal] at absent; rw [absent]; exact Bool.false_ne_true)

theorem set_ext (same : ∀ sig, Bit sig → (hasSignal set sig = true ↔ hasSignal other sig = true)) :
    set = other := by
  apply BitVec.eq_of_getLsbD_eq
  intro index small
  have here := same (index + 1) ⟨by simp only [sigMin]; omega, by omega⟩
  rw [hasSignal, hasSignal, add_sub_cancel_right, Int.toNat_natCast] at here
  exact Bool.eq_iff_iff.mpr here

theorem ne_zero_iff : set ≠ 0 ↔ ∃ sig, Bit sig ∧ hasSignal set sig = true := by
  constructor
  · intro some
    by_contra none
    refine some (set_ext fun sig isBit => ⟨fun present => absurd ⟨sig, isBit, present⟩ none, ?_⟩)
    rw [hasSignal_zero]
    exact nofun
  · rintro ⟨sig, _, present⟩ rfl
    rw [hasSignal_zero] at present
    cases present

/-- The signals that a mask never holds, taken out of a set. -/
def maskable (set : SigSet) : SigSet := set &&& ~~~(sigBit sigkill ||| sigBit sigstop)

theorem hasSignal_maskable (isBit : Bit sig) :
    hasSignal (maskable set) sig = true ↔
      hasSignal set sig = true ∧ sig ≠ sigkill ∧ sig ≠ sigstop := by
  rw [maskable, hasSignal_and, hasSignal_not isBit, hasSignal_or,
    hasSignal_sigBit isBit (by decide), hasSignal_sigBit isBit (by decide), Bool.and_eq_true,
    Bool.not_eq_true', Bool.or_eq_false_iff, decide_eq_false_iff_not, decide_eq_false_iff_not]

theorem maskable_eq (kill : hasSignal set sigkill = false) (stop : hasSignal set sigstop = false) :
    maskable set = set := by
  apply set_ext
  intro sig isBit
  rw [hasSignal_maskable isBit]
  refine ⟨And.left, fun present => ⟨present, ?_, ?_⟩⟩
  · rintro rfl
    exact Bool.false_ne_true (kill.symm.trans present)
  · rintro rfl
    exact Bool.false_ne_true (stop.symm.trans present)

end Sets

/-- A mask that a process can have. -/
structure Clean (mask : SigSet) : Prop where
  kill : hasSignal mask sigkill = false
  stop : hasSignal mask sigstop = false

theorem Clean.maskable_eq {mask : SigSet} (clean : Clean mask) : maskable mask = mask :=
  Ipc.maskable_eq clean.kill clean.stop

theorem maskable_clean (set : SigSet) : Clean (maskable set) where
  kill := by
    rw [← Bool.not_eq_true, hasSignal_maskable ⟨by decide, by decide⟩]
    exact fun present => present.2.1 rfl
  stop := by
    rw [← Bool.not_eq_true, hasSignal_maskable ⟨by decide, by decide⟩]
    exact fun present => present.2.2 rfl

namespace SignalManager

section Masks

variable (signals : SignalManager) (pid : Pid)

theorem setProcmask_setMask (set : SigSet) : (signals.setProcmask pid .setMask set).blocked =
    Function.update signals.blocked pid (maskable set) := rfl

theorem setAction_blocked (sig : Int) (act : SigAction) :
    (signals.setAction pid sig act).blocked = signals.blocked := by
  rw [setAction]
  split
  · rfl
  · rfl

/-- Whatever a handler masks, it is a mask that a process can have. -/
theorem updateSignalMask_blocked (sig : Int) (action : SigAction) (blocked : SigSet) :
    ∃ set, (signals.updateSignalMaskAndDisposition pid sig action blocked).blocked =
      Function.update signals.blocked pid (maskable set) := by
  rw [updateSignalMaskAndDisposition]
  split
  · rw [setAction_blocked]
    exact ⟨_, signals.setProcmask_setMask pid _⟩
  · exact ⟨_, signals.setProcmask_setMask pid _⟩

end Masks

section Kinds

variable (signals : SignalManager) (pid : Pid) (sig : Int)

/-- The process does not care about the signal. -/
def Ignores : Prop :=
  (signals.getAction pid sig).handler = sigIgn ∨
    ((signals.getAction pid sig).handler = sigDfl ∧ isDefaultIgnore sig)

/-- The signal would stop the process. -/
def Stops : Prop := (signals.getAction pid sig).handler = sigDfl ∧ isDefaultStop sig

instance : Decidable (signals.Ignores pid sig) := inferInstanceAs (Decidable (_ ∨ _))

instance : Decidable (signals.Stops pid sig) := inferInstanceAs (Decidable (_ ∧ _))

/-- The pending signals that are not blocked. -/
def unblocked : SigSet := signals.pending pid &&& ~~~signals.blocked pid

/-- A signal that is waiting for a process and makes it do something. -/
structure Deliverable : Prop where
  known : Known sig
  waiting : hasSignal (signals.unblocked pid) sig = true
  cares : ¬ signals.Ignores pid sig
  goesOn : ¬ signals.Stops pid sig

end Kinds

/-- What a scan of the signals from `sig` on that went as far as `stop` has found and left. -/
structure Scanned (pid : Pid) (unblocked : SigSet) (sig stop : Int) (before : SignalManager)
    (found : Option Int) (after : SignalManager) : Prop where
  blocked : after.blocked = before.blocked
  actions : after.actions = before.actions
  others : ∀ other, other ≠ pid → after.pending other = before.pending other
  passed : ∀ bit, sig ≤ bit → bit < stop → hasSignal unblocked bit = true →
    before.Ignores pid bit ∨ before.Stops pid bit
  left : ∀ bit, Bit bit → (hasSignal (after.pending pid) bit = true ↔
    hasSignal (before.pending pid) bit = true ∧ found ≠ some bit ∧
      ¬ (sig ≤ bit ∧ bit < stop ∧ hasSignal unblocked bit = true ∧ before.Ignores pid bit))

section Steps

variable {pid : Pid} {sig : Int} {signals : SignalManager} {unblocked : SigSet}

theorem clearPending_known (known : Known sig) :
    signals.clearPending pid sig = { signals with
      pending := Function.update signals.pending pid (signals.pending pid &&& ~~~sigBit sig) } :=
  if_pos known

theorem clearPending_pending (known : Known sig) {bit : Int} (isBit : Bit bit) :
    hasSignal ((signals.clearPending pid sig).pending pid) bit = true ↔
      hasSignal (signals.pending pid) bit = true ∧ sig ≠ bit := by
  rw [clearPending_known known]
  simp only [Function.update_self]
  rw [hasSignal_and, hasSignal_not isBit, hasSignal_sigBit isBit known, Bool.and_eq_true,
    Bool.not_eq_true', decide_eq_false_iff_not, ← ne_eq, ne_comm]

theorem clearPending_others (known : Known sig) {other : Pid} (apart : other ≠ pid) :
    (signals.clearPending pid sig).pending other = signals.pending other := by
  rw [clearPending_known known]
  exact Function.update_of_ne apart _ _

theorem clearPending_getAction (known : Known sig) :
    (signals.clearPending pid sig).getAction = signals.getAction := by
  rw [clearPending_known known]
  rfl

/-- A scan that starts behind a signal it has nothing to do with. -/
theorem Scanned.skip {stop : Int} {found : Option Int} {after : SignalManager}
    (scanned : Scanned pid unblocked (sig + 1) stop signals found after)
    (idle : hasSignal unblocked sig = false ∨ ¬ signals.Ignores pid sig ∧ signals.Stops pid sig) :
    Scanned pid unblocked sig stop signals found after where
  blocked := scanned.blocked
  actions := scanned.actions
  others := scanned.others
  passed bit lower upper waiting := by
    by_cases same : bit = sig
    · subst same
      rcases idle with absent | ⟨_, stops⟩
      · rw [absent] at waiting
        cases waiting
      · exact .inr stops
    · exact scanned.passed bit (by omega) upper waiting
  left bit isBit := by
    rw [scanned.left bit isBit]
    have behind : bit = sig → ¬ (hasSignal unblocked bit = true ∧ signals.Ignores pid bit) := by
      rintro rfl ⟨waiting, ignores⟩
      rcases idle with absent | ⟨cares, _⟩
      · rw [absent] at waiting
        cases waiting
      · exact cares ignores
    constructor
    · rintro ⟨pending, other, kept⟩
      refine ⟨pending, other, fun ⟨lower, upper, dropped⟩ => ?_⟩
      by_cases same : bit = sig
      · exact behind same dropped
      · exact kept ⟨by omega, upper, dropped⟩
    · rintro ⟨pending, other, kept⟩
      exact ⟨pending, other, fun ⟨lower, rest⟩ => kept ⟨by omega, rest⟩⟩

/-- A scan that has dropped an ignored signal on its way. -/
theorem Scanned.drop {stop : Int} {found : Option Int} {after : SignalManager} (known : Known sig)
    (scanned : Scanned pid unblocked (sig + 1) stop (signals.clearPending pid sig) found after)
    (waiting : hasSignal unblocked sig = true) (ignores : signals.Ignores pid sig)
    (further : sig < stop) : Scanned pid unblocked sig stop signals found after where
  blocked := scanned.blocked.trans (by rw [clearPending_known known])
  actions := scanned.actions.trans (by rw [clearPending_known known])
  others other apart := (scanned.others other apart).trans (clearPending_others known apart)
  passed bit lower upper here := by
    by_cases same : bit = sig
    · exact .inl (same ▸ ignores)
    · have passed := scanned.passed bit (by omega) upper here
      rwa [Ignores, Stops, clearPending_getAction known] at passed
  left bit isBit := by
    rw [scanned.left bit isBit, clearPending_pending known isBit, Ignores,
      clearPending_getAction known, ← Ignores]
    constructor
    · rintro ⟨⟨pending, other⟩, apart, kept⟩
      exact ⟨pending, apart, fun ⟨lower, rest⟩ => kept ⟨by omega, rest⟩⟩
    · rintro ⟨pending, apart, kept⟩
      refine ⟨⟨pending, ?_⟩, apart, fun ⟨lower, rest⟩ => kept ⟨by omega, rest⟩⟩
      rintro rfl
      exact kept ⟨le_refl _, further, waiting, ignores⟩

/-- The loop stops at the first signal that is waiting, not ignored and does not stop the
process; without one it runs to its end. -/
def ScanResult (pid : Pid) (unblocked : SigSet) (sig stop : Int) (before : SignalManager) :
    Option (Int × SigAction) × SignalManager → Prop
  | (none, after) => Scanned pid unblocked sig stop before none after
  | (some (found, action), after) =>
    Scanned pid unblocked sig found before (some found) after ∧ sig ≤ found ∧ found < stop ∧
      hasSignal unblocked found = true ∧ ¬ before.Ignores pid found ∧ ¬ before.Stops pid found ∧
      action = before.getAction pid found

theorem ScanResult.skip {stop : Int} {result : Option (Int × SigAction) × SignalManager}
    (rest : ScanResult pid unblocked (sig + 1) stop signals result)
    (idle : hasSignal unblocked sig = false ∨ ¬ signals.Ignores pid sig ∧ signals.Stops pid sig) :
    ScanResult pid unblocked sig stop signals result := by
  rcases result with ⟨_ | ⟨found, action⟩, after⟩
  · exact Scanned.skip rest idle
  · obtain ⟨scanned, further, rest⟩ := rest
    exact ⟨scanned.skip idle, by omega, rest⟩

theorem ScanResult.drop {stop : Int} {result : Option (Int × SigAction) × SignalManager}
    (rest : ScanResult pid unblocked (sig + 1) stop (signals.clearPending pid sig) result)
    (known : Known sig) (waiting : hasSignal unblocked sig = true)
    (ignores : signals.Ignores pid sig) (further : sig < stop) :
    ScanResult pid unblocked sig stop signals result := by
  rcases result with ⟨_ | ⟨found, action⟩, after⟩
  · exact Scanned.drop known rest waiting ignores further
  · obtain ⟨scanned, beyond, rest⟩ := rest
    rw [Ignores, Stops, clearPending_getAction known] at rest
    exact ⟨scanned.drop known waiting ignores (by omega), by omega, rest⟩

theorem scanSignals_result (count : Nat) (sig stop : Int) (signals : SignalManager)
    (lower : sigMin ≤ sig) (last : sig + count = stop) (upper : stop ≤ sigMax + 1) :
    ScanResult pid unblocked sig stop signals (scanSignals pid unblocked count sig signals) := by
  induction count generalizing sig signals with
  | zero =>
    refine ⟨rfl, rfl, fun _ _ => rfl, fun bit lower upper => ?_, fun bit _ => ?_⟩
    · omega
    · exact ⟨fun pending => ⟨pending, nofun, fun ⟨_, _, _⟩ => by omega⟩, And.left⟩
  | succ count ih =>
    have known : Known sig := ⟨lower, by omega⟩
    have rest (signals : SignalManager) := ih (sig + 1) signals (by omega) (by omega)
    rw [scanSignals]
    split
    · rename_i absent
      exact (rest signals).skip (.inl ((and_sigBit_eq_zero known).mp absent))
    · rename_i present
      rw [and_sigBit_eq_zero known, Bool.not_eq_false] at present
      dsimp only
      split
      · rename_i ignores
        exact (rest _).drop known present ignores (by omega)
      · rename_i cares
        split
        · rename_i stops
          exact (rest signals).skip (.inr ⟨cares, stops⟩)
        · rename_i goesOn
          refine ⟨⟨?_, ?_, fun _ => clearPending_others known, fun bit low high => ?_,
            fun bit isBit => ?_⟩, le_refl _, by omega, present, cares, goesOn, rfl⟩
          · rw [clearPending_known known]
          · rw [clearPending_known known]
          · omega
          · rw [clearPending_pending known isBit]
            constructor
            · rintro ⟨pending, other⟩
              exact ⟨pending, fun same => other (Option.some.inj same), fun ⟨_, _, _⟩ => by omega⟩
            · rintro ⟨pending, other, _⟩
              exact ⟨pending, fun same => other (congrArg some same)⟩

end Steps

/-- What the choice of the next signal comes to. -/
inductive Picked (pid : Pid) (before : SignalManager) :
    Option (Int × SigAction × SigSet) × SignalManager → Prop where
  | nothing {after : SignalManager}
      (scanned : Scanned pid (before.unblocked pid) sigMin (sigMax + 1) before none after) :
      Picked pid before (none, after)
  | signal {after : SignalManager} (sig : Int) (deliverable : before.Deliverable pid sig)
      (scanned : Scanned pid (before.unblocked pid) sigMin sig before (some sig) after) :
      Picked pid before
        (some (sig, before.getAction pid sig, before.blocked pid), after)

theorem nextUnblockedSignal_picked (signals : SignalManager) (pid : Pid) :
    Picked pid signals (signals.nextUnblockedSignal pid) := by
  rw [nextUnblockedSignal]
  dsimp only
  split
  · rename_i nothing
    have absent (bit : Int) : hasSignal (signals.unblocked pid) bit = false := by
      rw [unblocked, nothing, hasSignal_zero]
    refine .nothing ⟨rfl, rfl, fun _ _ => rfl, fun bit _ _ waiting => ?_, fun bit _ => ?_⟩
    · rw [absent] at waiting
      cases waiting
    · refine ⟨fun pending => ⟨pending, nofun, fun ⟨_, _, waiting, _⟩ => ?_⟩, And.left⟩
      rw [absent] at waiting
      cases waiting
  · have result := @scanSignals_result pid (signals.unblocked pid) 31 sigMin (sigMax + 1) signals
      (le_refl _) rfl (le_refl _)
    rw [unblocked] at result
    generalize scanSignals pid _ 31 sigMin signals = found at result
    rcases found with ⟨_ | ⟨sig, action⟩, after⟩
    · exact .nothing result
    · obtain ⟨scanned, lower, upper, waiting, cares, goesOn, rfl⟩ := result
      exact .signal sig ⟨⟨lower, by omega⟩, waiting, cares, goesOn⟩ scanned

end SignalManager

end RustPosix.Ipc
