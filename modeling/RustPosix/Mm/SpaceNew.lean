import RustPosix.Mm.SpaceSteps

/-! A fresh address space: one frame for the root, no user page, the kernel half
shared with the active root. -/

namespace RustPosix.Mm

open Library

theorem copyKernelMappings_within {mem : Memory} {dest src addr : Nat}
    (changed : copyKernelMappings mem dest src addr ≠ mem addr) :
    dest + 2048 ≤ addr ∧ addr < dest + pageSize := by
  have upper : ∀ indices : List Nat, (∀ idx ∈ indices, 256 ≤ idx ∧ idx < 512) → ∀ start : Memory,
      indices.foldl (fun mem idx => setEntry mem dest idx (entryAt mem src idx)) start addr ≠
        start addr → dest + 2048 ≤ addr ∧ addr < dest + pageSize := by
    intro indices
    induction indices with
    | nil => exact fun _ _ differs => absurd rfl differs
    | cons idx rest ih =>
      intro bounds start differs
      by_cases first : setEntry start dest idx (entryAt start src idx) addr = start addr
      · refine ih (fun next member => bounds next (List.mem_cons_of_mem _ member))
          (setEntry start dest idx (entryAt start src idx)) ?_
        rw [first]
        exact differs
      · have slot := setEntry_within first
        have small := bounds idx (List.mem_cons_self ..)
        simp only [pageSize]
        omega
  exact upper _ (fun idx member => by have := List.mem_range'_1.mp member; omega) mem changed

/-- The upper half of a root is copied byte by byte. -/
theorem copyKernelMappings_apply {mem : Memory} {dest src : Nat} (destFrame : FrameAddr dest)
    (srcFrame : FrameAddr src) (addr : Nat) :
    copyKernelMappings mem dest src addr =
      if dest + 2048 ≤ addr ∧ addr < dest + pageSize then mem (src + (addr - dest)) else mem addr := by
  have destAligned := destFrame.aligned
  have srcAligned := srcFrame.aligned
  have copied : ∀ count ≤ 256, ∀ addr, (List.range' 256 count).foldl
      (fun mem idx => setEntry mem dest idx (entryAt mem src idx)) mem addr =
        if dest + 2048 ≤ addr ∧ addr < dest + 2048 + 8 * count then mem (src + (addr - dest))
        else mem addr := by
    intro count
    induction count with
    | zero =>
      intro _ addr
      rw [if_neg (by omega)]
      rfl
    | succ count ih =>
      intro small addr
      have before := ih (by omega)
      rw [List.range'_concat, List.foldl_append, List.foldl_cons, List.foldl_nil, setEntry, entryAt,
        Memory.write64_read64, before, before]
      simp only [pageSize] at *
      by_cases here : dest + 8 * (256 + 1 * count) ≤ addr ∧ addr < dest + 8 * (256 + 1 * count) + 8
      · rw [if_pos here, if_neg (by omega), if_pos (by omega)]
        congr 1
        omega
      · rw [if_neg here]
        by_cases early : dest + 2048 ≤ addr ∧ addr < dest + 2048 + 8 * count
        · rw [if_pos early, if_pos (by omega)]
        · rw [if_neg early, if_neg (by omega)]
  rw [copyKernelMappings, copied 256 (Nat.le_refl _)]
  rfl

/-- What `VmSpace::new` leaves. -/
structure FreshSpace (before : Machine) (state : VmState) : Prop where
  tree : PageTree state.machine state.root
  empty : ∀ virtAddr < userSpaceEnd, leafAt state.machine.mem state.root virtAddr = none
  vmas : state.vmas = []
  rootClear : before.pmm.testBit (state.root / pageSize) = false
  owned : ∀ frame, Owned state.machine state.root frame ↔ frame * pageSize = state.root
  pmm : state.machine.pmm = before.pmm.takeFrame (state.root / pageSize)
  bytes : ∀ addr, state.machine.mem addr ≠ before.mem addr →
    addr / pageSize = state.root / pageSize

section Fresh

variable {before : Machine} {state : VmState}

/-- What a fresh space has and what is left free was free before. -/
theorem FreshSpace.charged_iff (fresh : FreshSpace before state) (frame : Nat) :
    Charged state.machine state.root frame ↔ before.pmm.testBit frame = false := by
  have aligned := div_pageSize_mul (fresh.tree.taken [] state.root UserPath.nil rfl).aligned
  rw [Charged, fresh.owned, fresh.pmm, PhysicalMemoryManager.testBit_takeFrame fresh.rootClear]
  by_cases same : state.root / pageSize = frame
  · subst same
    simp [aligned, fresh.rootClear]
  · have differs : ¬ frame * pageSize = state.root := by
      intro equal
      rw [← equal, mul_pageSize_div] at same
      exact same rfl
    simp [same, differs]

/-- All that a fresh space can write to was free before. -/
theorem FreshSpace.clear_of_reach (fresh : FreshSpace before state) {addr : Nat}
    (reach : Reach state.machine state.root addr) :
    before.pmm.testBit (addr / pageSize) = false := by
  rw [← fresh.charged_iff]
  rcases reach with clear | ⟨path, phys, valid, _, found, same⟩ | lower
  · exact .inl clear
  · have aligned := div_pageSize_mul (fresh.tree.taken path phys valid found).aligned
    exact .inr ⟨path, valid, by rw [same, aligned]; exact found⟩
  · have aligned := (fresh.tree.taken [] state.root UserPath.nil rfl).aligned
    refine .inr ((fresh.owned _).mpr ?_)
    simp only [pageSize] at *
    omega

end Fresh

/-- A root with an empty lower half in a frame just taken. -/
theorem freshSpace_of_vacant {before : Machine} {mem : Memory} {frame : Nat}
    (boot : before.pmm.Boot) (bounded : before.pmm.totalFrames ≤ 2 ^ 40) (positive : 1 ≤ frame)
    (clear : before.pmm.testBit frame = false)
    (vacant : ∀ slot < 256, getTable mem (frame * pageSize) slot = none)
    (within : ∀ addr, mem addr ≠ before.mem addr → addr / pageSize = frame) :
    FreshSpace before ⟨⟨mem, before.pmm.takeFrame frame⟩, frame * pageSize, []⟩ := by
  have index := mul_pageSize_div frame
  have inside := PhysicalMemoryManager.lt_of_clear clear
  have rootTaken : Taken (before.pmm.takeFrame frame) (frame * pageSize) := by
    refine ⟨Nat.mul_mod_left .., by rwa [index], by rw [index]; simpa using inside, ?_⟩
    rw [index]
    simp [PhysicalMemoryManager.testBit_takeFrame clear]
  have only : ∀ path phys, UserPath path → view mem (frame * pageSize) path = some phys →
      path = [] ∧ phys = frame * pageSize :=
    fun path phys valid found => view_of_vacant vacant valid found
  refine ⟨⟨boot.takeFrame clear, ?_, ?_, ?_⟩, ?_, rfl, index.symm ▸ clear, ?_, by rw [index], ?_⟩
  · rw [PhysicalMemoryManager.takeFrame_totalFrames]
    exact bounded
  · intro first second node firstValid secondValid firstFound secondFound
    rw [(only first node firstValid firstFound).1, (only second node secondValid secondFound).1]
  · intro path phys valid found
    rw [(only path phys valid found).2]
    exact rootTaken
  · exact fun virtAddr user => leafAt_of_vacant vacant user
  · intro other
    constructor
    · rintro ⟨path, valid, found⟩
      exact (only path _ valid found).2
    · intro same
      exact ⟨[], UserPath.nil, congrArg some same.symm⟩
  · exact fun addr changed => (within addr changed).trans index.symm

theorem new_spec {activeRoot : Nat} {before after : Machine} {state : VmState}
    (boot : before.pmm.Boot) (bounded : before.pmm.totalFrames ≤ 2 ^ 40)
    (created : VmSpace.new activeRoot before = (some state, after)) :
    state.machine = after ∧ FreshSpace before state := by
  rw [VmSpace.new] at created
  cases taken : before.pmm.allocFrame with
  | mk found pmm =>
    rw [taken] at created
    cases found with
    | none => exact nomatch created
    | some root =>
      obtain ⟨frame, rfl, positive, clear, rfl⟩ :=
        PhysicalMemoryManager.allocFrame_some boot.cursor.1 taken
      obtain ⟨same, rfl⟩ := Prod.mk.inj created
      obtain rfl := Option.some.inj same
      refine ⟨rfl, freshSpace_of_vacant boot bounded positive clear (fun slot low => ?_) ?_⟩
      · have blank : entryAt (copyKernelMappings (zeroPhysFrame before.mem (frame * pageSize))
            (frame * pageSize) activeRoot) (frame * pageSize) slot =
            entryAt (zeroPhysFrame before.mem (frame * pageSize)) (frame * pageSize) slot := by
          refine Memory.read64_congr fun offset small => ?_
          apply Classical.byContradiction
          intro changed
          have upper := copyKernelMappings_within changed
          omega
        rw [PageTree.getTable_eq, blank, entryAt_zeroPhysFrame_same _ _ (by omega)]
        rfl
      · intro addr changed
        by_cases copied : copyKernelMappings (zeroPhysFrame before.mem (frame * pageSize))
            (frame * pageSize) activeRoot addr = zeroPhysFrame before.mem (frame * pageSize) addr
        · have zeroed : zeroPhysFrame before.mem (frame * pageSize) addr ≠ before.mem addr :=
            fun same => changed (copied.trans same)
          exact (zeroPhysFrame_within (Nat.mul_mod_left ..) zeroed).trans (mul_pageSize_div frame)
        · have upper := copyKernelMappings_within copied
          simp only [pageSize] at *
          omega

end RustPosix.Mm
