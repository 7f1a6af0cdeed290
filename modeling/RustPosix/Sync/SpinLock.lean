import RustPosix.Library.Run

/-! The guards of `ostd/sync.rs` and `ostd/irq` on one processor: a lock saves the
interrupt flag and masks interrupts, its guard restores what it saved. -/

namespace RustPosix.Sync

open Library

/-- The interrupt flag and the guards that exist, newest first, each with its lock
and the flag it saved. The word of a lock is set while it has a guard. -/
structure Cpu where
  interrupts : Bool
  guards : List (Nat × Bool)

inductive Use where
  | lock (lock : Nat)
  | drop (lock : Nat)
  | unlockWithoutRestoringInterrupts (lock : Nat)

namespace Cpu

def guard (cpu : Cpu) (lock : Nat) : Option (Nat × Bool) := cpu.guards.find? (·.1 = lock)

def acquire (cpu : Cpu) (lock : Nat) : Cpu := ⟨false, (lock, cpu.interrupts) :: cpu.guards⟩

/-- A lock that is held spins for ever with interrupts masked. -/
def step (cpu : Cpu) : Use → Option Cpu
  | .lock lock => if (cpu.guard lock).isSome then none else some (cpu.acquire lock)
  | .drop lock => (cpu.guard lock).map fun guard => ⟨guard.2, cpu.guards.erase guard⟩
  | .unlockWithoutRestoringInterrupts lock =>
    (cpu.guard lock).map fun guard => { cpu with guards := cpu.guards.erase guard }

/-- The flag of the processor and those that guards saved, newest first. -/
def flags (cpu : Cpu) : List Bool := cpu.interrupts :: cpu.guards.map Prod.snd

variable {cpu after last : Cpu} {use : Use} {lock : Nat}

theorem flags_drop (next : cpu.step (.drop lock) = some after) :
    cpu.flags.Perm (cpu.interrupts :: after.flags) := by
  obtain ⟨guard, found, rfl⟩ := Option.map_eq_some_iff.mp next
  exact ((List.perm_cons_erase (List.mem_of_find?_eq_some found)).map _).cons _

/-- No use of a lock makes a flag that is set. -/
theorem count_flags_step (next : cpu.step use = some after) :
    after.flags.count true ≤ cpu.flags.count true := by
  cases use with
  | lock lock =>
    obtain ⟨_, rfl⟩ : _ ∧ cpu.acquire lock = after := by simpa [step] using next
    simp [flags, acquire]
  | drop lock => simp [(flags_drop next).count_eq, List.count_cons]
  | unlockWithoutRestoringInterrupts lock =>
    obtain ⟨guard, _, rfl⟩ := Option.map_eq_some_iff.mp next
    exact ((List.erase_sublist.map _).cons_cons _).count_le _

theorem count_flags_run (run : Run step (fun _ _ => True) cpu last) :
    last.flags.count true ≤ cpu.flags.count true := by
  induction run with
  | start => exact le_rfl
  | step _ _ _ next ih => exact (count_flags_step next).trans ih

/-- The drop of a guard that outlives the one that masked interrupts masks them for good. -/
theorem outliving_guard_masks (run : Run step (fun _ _ => True) ⟨true, []⟩ cpu)
    (unmasked : cpu.interrupts = true) (next : cpu.step (.drop lock) = some after)
    (later : Run step (fun _ _ => True) after last) : last.interrupts = false := by
  have one : cpu.flags.count true ≤ 1 := count_flags_run run
  have none : after.flags.count true = 0 := by
    simpa [(flags_drop next).count_eq, unmasked] using one
  have zero : last.flags.count true = 0 := by simpa [none] using count_flags_run later
  refine Bool.eq_false_of_not_eq_true fun set => List.count_eq_zero.mp zero ?_
  simp [flags, set]

theorem outliving_guard_masks_inner :
    ∃ after : Cpu, step ⟨true, [(2, false)]⟩ (.drop 2) = some after ∧ after.interrupts = false :=
  have run : Run step (fun _ _ => True) ⟨true, []⟩ ⟨true, [(2, false)]⟩ :=
    Run.start.step (.lock 1) trivial rfl |>.step (.lock 2) trivial rfl |>.step (.drop 1) trivial rfl
  have next : step ⟨true, [(2, false)]⟩ (.drop 2) = some ⟨false, []⟩ := rfl
  ⟨_, next, outliving_guard_masks run rfl next .start⟩

end Cpu

end RustPosix.Sync
