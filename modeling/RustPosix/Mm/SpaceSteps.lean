import RustPosix.Mm.RangeSteps

/-! `alloc_and_map_range` and `write_bytes_to_space` on a whole address space. -/

namespace RustPosix.Mm

open Library

/-- The page-aligned end of the range that a request covers. -/
def rangeEnd (start size : Nat) : Nat := alignDown (start + size + (pageSize - 1))

/-- The number of pages that a request covers. -/
def rangePages (start size : Nat) : Nat := (rangeEnd start size - alignDown start) / pageSize

section Range

variable {start size : Nat}

theorem rangeEnd_le (user : start + size ≤ userSpaceEnd) : rangeEnd start size ≤ userSpaceEnd := by
  simp only [rangeEnd, alignDown, pageSize, userSpaceEnd] at *
  omega

theorem alignDown_aligned (addr : Nat) : alignDown addr % pageSize = 0 :=
  Nat.mul_mod_left ..

theorem rangePages_end (start size : Nat) :
    alignDown start + rangePages start size * pageSize = rangeEnd start size := by
  simp only [rangePages, rangeEnd, alignDown, pageSize]
  omega

theorem alignedEnd_eq (user : start + size ≤ userSpaceEnd) :
    (checkedAdd start size).bind alignUp = some (rangeEnd start size) := by
  have small : start + size + pageSize < 2 ^ 64 := by
    simp only [userSpaceEnd, pageSize] at *
    omega
  have sum : start + size + pageSize - 1 = start + size + (pageSize - 1) := by
    simp only [pageSize]
    omega
  rw [checkedAdd, if_pos (by omega), Option.bind_some, alignUp, checkedAdd, if_pos small,
    Option.map_some, sum, rangeEnd]

end Range

/-- The address space keeps its root and stays inside its frames. -/
structure SpaceChange (before after : VmState) : Prop where
  root : after.root = before.root
  change : Change before.root before.machine after.machine

theorem SpaceChange.refl {state : VmState} (tree : PageTree state.machine state.root) :
    SpaceChange state state := ⟨rfl, Change.refl tree⟩

theorem SpaceChange.tree {before after : VmState} (step : SpaceChange before after) :
    PageTree after.machine after.root := step.root ▸ step.change.tree

theorem SpaceChange.trans {before middle after : VmState} (first : SpaceChange before middle)
    (second : SpaceChange middle after) : SpaceChange before after :=
  ⟨second.root.trans first.root, first.change.trans (first.root ▸ second.change)⟩

/-- What a granted request for a range leaves. -/
structure Granted (start size : Nat) (flags : PageFlags) (before after : VmState) : Prop where
  root : after.root = before.root
  filled : Filled before.root (alignDown start) (rangePages start size) flags before.machine
    after.machine
  vmas : after.vmas = insertVma before.vmas (alignDown start) (rangeEnd start size)
    (VmSpace.protOf flags) 0

/-- What a refused request for a range leaves. -/
structure Refused (start size : Nat) (before after : VmState) : Prop where
  root : after.root = before.root
  vmas : after.vmas = before.vmas
  machine : ∃ reached, reached ≤ rangePages start size ∧
    RolledBack before.root (alignDown start) reached before.machine after.machine

theorem RolledBack.none {root base : Nat} {before : Machine} (tree : PageTree before root) :
    RolledBack root base 0 before before :=
  ⟨Change.refl tree, fun _ _ held => held, fun _ _ => by simp [not_inPages_zero],
    fun _ _ => by simp [not_inPages_zero]⟩

/-- Work on the machine leaves the rest of the address space alone. -/
theorem onMachine_yields {Value : Type} {act : Nat → Action Machine Fault Value} {state : VmState}
    {returns : Value → Machine → Prop} {fails : Fault → Machine → Prop}
    (given : Yields (act state.root state.machine) returns fails) :
    Yields (VmSpace.onMachine act state)
      (fun value after => after = { state with machine := after.machine } ∧
        returns value after.machine)
      (fun fault after => after = { state with machine := after.machine } ∧
        fails fault after.machine) := by
  rw [VmSpace.onMachine]
  match act state.root state.machine, given with
  | (.ok _, _), given => exact ⟨rfl, given⟩
  | (.error _, _), given => exact ⟨rfl, given⟩

theorem allocAndMapRange_spec {state : VmState} {start size : Nat}
    (tree : PageTree state.machine state.root) (user : start + size ≤ userSpaceEnd)
    (flags : PageFlags) :
    Yields (VmSpace.allocAndMapRange start size flags state)
      (fun _ after => Granted start size flags state after)
      (fun _ after => Refused start size state after) := by
  have bound : alignDown start + (0 + rangePages start size) * pageSize ≤ userSpaceEnd := by
    rw [Nat.zero_add, rangePages_end]
    exact rangeEnd_le user
  have filled : Filled state.root (alignDown start) 0 flags state.machine state.machine :=
    Filled.none tree
  have mapped := mapPages_spec (alignDown_aligned start) (rangePages start size) 0 _ bound filled
  rw [Nat.zero_add] at mapped
  rw [VmSpace.allocAndMapRange, alignedEnd_eq user]
  dsimp only
  split
  · exact ⟨rfl, rfl, 0, Nat.zero_le _, RolledBack.none tree⟩
  · refine Yields.bind (onMachine_yields mapped) ?_ ?_
    · rintro _ after ⟨same, done⟩
      rw [same]
      exact ⟨rfl, done, rfl⟩
    · rintro _ after ⟨same, back⟩
      rw [same]
      exact ⟨rfl, rfl, back⟩

theorem Granted.spaceChange {start size : Nat} {flags : PageFlags} {before after : VmState}
    (granted : Granted start size flags before after) : SpaceChange before after :=
  ⟨granted.root, granted.filled.change⟩

theorem Refused.spaceChange {start size : Nat} {before after : VmState}
    (refused : Refused start size before after) : SpaceChange before after := by
  obtain ⟨_, _, back⟩ := refused.machine
  exact ⟨refused.root, back.change⟩

/-- Bytes have been written to an address space. -/
structure Wrote (virt : Nat) (data : List Byte) (before after : VmState) : Prop where
  root : after.root = before.root
  vmas : after.vmas = before.vmas
  stored : Stored before.root virt data before.machine after.machine

theorem Wrote.nil {state : VmState} (virt : Nat) (tree : PageTree state.machine state.root) :
    Wrote virt [] state state :=
  ⟨rfl, rfl, Stored.nil tree⟩

theorem writeBytesToSpace_spec {state : VmState} {virt : Nat} {data : List Byte}
    (tree : PageTree state.machine state.root) (user : virt + data.length ≤ userSpaceEnd) :
    Yields (VmSpace.writeBytesToSpace virt data state)
      (fun _ after => Wrote virt data state after)
      (fun _ after => ∃ written, Wrote virt (data.take written) state after) := by
  refine (onMachine_yields (writeChunks_spec data.length virt data state.machine tree user
    (Nat.le_refl _))).mono ?_ ?_
  · rintro _ after ⟨same, stored⟩
    rw [same]
    exact ⟨rfl, rfl, stored⟩
  · rintro _ after ⟨same, written, stored⟩
    rw [same]
    exact ⟨written, rfl, rfl, stored⟩

end RustPosix.Mm
