import RustPosix.Mm.SpaceNew

/-! The upper half of a root table, which every address space shares with the kernel. -/

namespace RustPosix.Mm

open Library

/-- Indices from the root that stay in its upper half and lead to a table. -/
structure KernelPath (path : List Nat) : Prop where
  depth : path.length ≤ 3
  slots : ∀ idx ∈ path, idx < 512
  upper : ∀ idx, path.head? = some idx → 256 ≤ idx

theorem KernelPath.closed : Closed KernelPath := by
  intro path idx valid
  refine ⟨?_, fun slot member => valid.slots slot (List.mem_append_left _ member), ?_⟩
  · have := valid.depth
    rw [List.length_append] at this
    omega
  · intro slot first
    exact valid.upper slot (by rw [List.head?_append, first]; rfl)

theorem tablePath_kernel {virtAddr : Nat} (high : 256 ≤ virtAddr / 2 ^ 39 % 512) :
    KernelPath (tablePath virtAddr) := by
  refine ⟨by simp [tablePath], ?_, ?_⟩
  · intro idx member
    simp only [tablePath, List.mem_cons, List.not_mem_nil, or_false] at member
    omega
  · intro idx first
    simp only [tablePath, List.head?_cons, Option.some.injEq] at first
    exact first ▸ high

/-- The tables behind the upper half are no free frames and no part of the lower half. -/
def KernelHalf (machine : Machine) (root : Nat) : Prop :=
  ∀ path table, KernelPath path → path ≠ [] → view machine.mem root path = some table →
    ∀ addr, table ≤ addr → addr < table + pageSize → ¬ Reach machine root addr

/-- The upper half of the root is as before, entry by entry and address by address,
and so is every byte outside the free frames and the lower half. -/
structure Confined (before after : VmState) : Prop where
  root : after.root = before.root
  slots : ∀ slot, 256 ≤ slot → slot < 512 →
    entryAt after.machine.mem before.root slot = entryAt before.machine.mem before.root slot
  mappings : ∀ virtAddr, 256 ≤ virtAddr / 2 ^ 39 % 512 →
    leafAt after.machine.mem before.root virtAddr = leafAt before.machine.mem before.root virtAddr
  bytes : ∀ addr, ¬ Reach before.machine before.root addr →
    after.machine.mem addr = before.machine.mem addr

section Upper

variable {machine : Machine} {root addr : Nat} {before after : VmState}

/-- The upper half of the root is out of reach. -/
theorem not_reach_upper (tree : PageTree machine root) (lower : root + 2048 ≤ addr)
    (upper : addr < root + pageSize) : ¬ Reach machine root addr := by
  have held := tree.taken [] root UserPath.nil rfl
  have frame : addr / pageSize = root / pageSize := by
    have aligned := held.aligned
    simp only [pageSize] at *
    omega
  rintro (clear | ⟨path, phys, valid, below, found, inside⟩ | inRoot)
  · rw [frame, held.used] at clear
    cases clear
  · have same := (tree.frameAddr valid found).eq_of_frame (held.frameAddr tree.bounded)
      (inside.symm.trans frame)
    exact below (tree.unique valid UserPath.nil (same ▸ found) rfl)
  · omega

/-- The entries of the upper half lie out of reach, at every level. -/
theorem kernel_entryAt (tree : PageTree machine root) (kernel : KernelHalf machine root)
    {mem : Memory} (bytes : ∀ addr, ¬ Reach machine root addr → mem addr = machine.mem addr)
    {path : List Nat} {table slot : Nat} (valid : KernelPath path)
    (found : view machine.mem root path = some table) (small : slot < 512)
    (high : path = [] → 256 ≤ slot) : entryAt mem table slot = entryAt machine.mem table slot := by
  by_cases top : path = []
  · subst top
    obtain rfl := Option.some.inj found
    have lower := high rfl
    exact Memory.read64_congr fun offset inside =>
      bytes _ (not_reach_upper tree (by omega) (by simp only [pageSize]; omega))
  · exact entryAt_congr small fun addr lower upper =>
      bytes addr (kernel path table valid top found addr lower upper)

/-- A change that stays inside the address space does not show in its upper half. -/
theorem confined_of_spaceChange (step : SpaceChange before after)
    (tree : PageTree before.machine before.root) (kernel : KernelHalf before.machine before.root) :
    Confined before after := by
  have bytes : ∀ addr, ¬ Reach before.machine before.root addr →
      after.machine.mem addr = before.machine.mem addr :=
    fun addr outside => Classical.byContradiction fun changed =>
      outside (step.change.bytes addr changed)
  refine ⟨step.root, fun slot lower upper => ?_, fun virtAddr high => ?_, bytes⟩
  · have top : KernelPath [] := ⟨by simp, by simp, by simp⟩
    exact kernel_entryAt tree kernel bytes top rfl upper fun _ => lower
  · have valid := tablePath_kernel high
    refine leafAt_congr ?_ fun pt found => ?_
    · refine walk_congr KernelPath.closed (fun path node slot slotValid found => ?_) valid
      rw [PageTree.getTable_eq, PageTree.getTable_eq, kernel_entryAt tree kernel bytes
        (KernelPath.closed path slot slotValid) found (slotValid.slots slot (by simp)) ?_]
      rintro rfl
      exact slotValid.upper slot rfl
    · exact kernel_entryAt tree kernel bytes valid found (Nat.mod_lt _ (by decide)) (by simp [tablePath])

end Upper

section Sharing

variable {activeRoot : Nat} {before after : Machine} {state : VmState}

/-- The tables behind the upper half, the root included, lie in frames in use. -/
def KernelTables (machine : Machine) (root : Nat) : Prop :=
  ∀ path table, KernelPath path → view machine.mem root path = some table →
    table % pageSize = 0 ∧ machine.pmm.testBit (table / pageSize) = true

/-- A new address space shares the upper half of the active one. -/
theorem new_entryAt (boot : before.pmm.Boot) (bounded : before.pmm.totalFrames ≤ 2 ^ 40)
    (active : FrameAddr activeRoot) (used : before.pmm.testBit (activeRoot / pageSize) = true)
    (created : VmSpace.new activeRoot before = (some state, after)) {slot : Nat}
    (lower : 256 ≤ slot) (upper : slot < 512) :
    entryAt state.machine.mem state.root slot = entryAt before.mem activeRoot slot := by
  obtain ⟨_, fresh⟩ := new_spec boot bounded created
  have rootFrame := fresh.tree.frameAddr UserPath.nil rfl
  have apart : activeRoot ≠ state.root := by
    rintro rfl
    rw [fresh.rootClear] at used
    cases used
  have mem : state.machine.mem = copyKernelMappings (zeroPhysFrame before.mem state.root) state.root
      activeRoot := by
    rw [VmSpace.new] at created
    split at created
    · cases created
    · obtain ⟨same, _⟩ := Prod.mk.inj created
      rw [← Option.some.inj same]
  rw [mem, entryAt, entryAt]
  refine Memory.read64_congr fun offset small => ?_
  have inRoot : state.root + 2048 ≤ state.root + 8 * slot + offset ∧
      state.root + 8 * slot + offset < state.root + pageSize := by
    simp only [pageSize]
    omega
  have source : activeRoot + (state.root + 8 * slot + offset - state.root) =
      activeRoot + 8 * slot + offset := by omega
  rw [copyKernelMappings_apply rootFrame active, if_pos inRoot, source]
  apply Classical.byContradiction
  intro changed
  have activeAligned := active.aligned
  have frames := zeroPhysFrame_within rootFrame.aligned changed
  exact apart (active.eq_of_frame rootFrame (by simp only [pageSize] at *; omega))

/-- The tables behind the upper half of a new address space are those of the active one. -/
theorem new_view (boot : before.pmm.Boot) (bounded : before.pmm.totalFrames ≤ 2 ^ 40)
    (active : FrameAddr activeRoot) (tables : KernelTables before activeRoot)
    (created : VmSpace.new activeRoot before = (some state, after)) {path : List Nat}
    (valid : KernelPath path) (below : path ≠ []) :
    view state.machine.mem state.root path = view before.mem activeRoot path := by
  obtain ⟨_, fresh⟩ := new_spec boot bounded created
  have used := (tables [] activeRoot ⟨by simp, by simp, by simp⟩ rfl).2
  cases path with
  | nil => exact absurd rfl below
  | cons slot rest =>
    have first : getTable state.machine.mem state.root slot = getTable before.mem activeRoot slot := by
      rw [PageTree.getTable_eq, PageTree.getTable_eq, new_entryAt boot bounded active used created
        (valid.upper slot rfl) (valid.slots slot (List.mem_cons_self ..))]
    rw [view, view, walk, walk, first]
    cases found : getTable before.mem activeRoot slot with
    | none => simp only [Option.bind_none]
    | some table =>
      have closed : Closed fun rest => KernelPath (slot :: rest) :=
        fun path idx => KernelPath.closed (slot :: path) idx
      rw [Option.bind_some, Option.bind_some]
      refine walk_congr closed (fun path node idx idxValid reached => ?_) valid
      have here : view before.mem activeRoot (slot :: path) = some node := by
        rw [view, walk, found]
        exact reached
      obtain ⟨aligned, nodeUsed⟩ := tables _ node (KernelPath.closed (slot :: path) idx idxValid) here
      refine getTable_congr (idxValid.slots idx (by simp)) fun addr lower upper => ?_
      apply Classical.byContradiction
      intro changed
      have frame : node / pageSize = state.root / pageSize := by
        rw [← fresh.bytes addr changed]
        simp only [pageSize] at *
        omega
      rw [frame, fresh.rootClear] at nodeUsed
      cases nodeUsed

/-- A fresh lower half is apart from tables in frames that were in use before. -/
theorem FreshSpace.kernelHalf (fresh : FreshSpace before state)
    (tables : ∀ path table, KernelPath path → path ≠ [] →
      view state.machine.mem state.root path = some table →
      table % pageSize = 0 ∧ before.pmm.testBit (table / pageSize) = true) :
    KernelHalf state.machine state.root := by
  intro path table valid below found addr lower upper
  obtain ⟨aligned, used⟩ := tables path table valid below found
  have frame : addr / pageSize = table / pageSize := by
    simp only [pageSize] at *
    omega
  have apart : addr / pageSize ≠ state.root / pageSize := by
    intro same
    rw [← frame, same, fresh.rootClear] at used
    cases used
  rintro (clear | ⟨other, phys, otherValid, _, reached, inside⟩ | inRoot)
  · rw [frame, fresh.pmm, PhysicalMemoryManager.testBit_takeFrame fresh.rootClear] at clear
    split at clear
    · cases clear
    · rw [used] at clear
      cases clear
  · have physAligned := div_pageSize_mul (fresh.tree.taken other phys otherValid reached).aligned
    have owned := (fresh.owned (phys / pageSize)).mp
      ⟨other, otherValid, by rw [physAligned, reached]⟩
    rw [physAligned] at owned
    exact apart (owned ▸ inside)
  · have rootAligned := (fresh.tree.taken [] state.root UserPath.nil rfl).aligned
    simp only [pageSize] at *
    omega

/-- A new address space keeps its lower half apart from the shared upper half. -/
theorem new_kernelHalf (boot : before.pmm.Boot) (bounded : before.pmm.totalFrames ≤ 2 ^ 40)
    (active : FrameAddr activeRoot) (tables : KernelTables before activeRoot)
    (created : VmSpace.new activeRoot before = (some state, after)) :
    KernelHalf state.machine state.root := by
  refine (new_spec boot bounded created).2.kernelHalf fun path table valid below found => ?_
  rw [new_view boot bounded active tables created valid below] at found
  exact tables path table valid found

end Sharing

end RustPosix.Mm
