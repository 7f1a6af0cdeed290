import RustPosix.Mm.PageTree

/-! What each operation of `paging.rs` does to the tree, to its leaves, to the
frames and to the bytes of memory. -/

namespace RustPosix.Mm

open Library

/-- The indices of the table that holds the leaf of an address. -/
def tablePath (virtAddr : Nat) : List Nat :=
  [virtAddr / 2 ^ 39 % 512, virtAddr / 2 ^ 30 % 512, virtAddr / 2 ^ 21 % 512]

def leafIndex (virtAddr : Nat) : Nat := virtAddr / 2 ^ 12 % 512

theorem pathOf_eq (virtAddr : Nat) : pathOf virtAddr = tablePath virtAddr ++ [leafIndex virtAddr] :=
  rfl

theorem tablePath_valid {virtAddr : Nat} (user : virtAddr < userSpaceEnd) :
    UserPath (tablePath virtAddr) :=
  UserPath.closed _ _ (pathOf_eq virtAddr ▸ pathOf_valid user)

/-- The present leaf entry of an address. -/
def leafAt (mem : Memory) (root virtAddr : Nat) : Option (BitVec 64) :=
  (leafTable mem root virtAddr).bind fun (pt, idx) =>
    if isPresent (entryAt mem pt idx) then some (entryAt mem pt idx) else none

theorem leafTable_eq (mem : Memory) (root virtAddr : Nat) :
    leafTable mem root virtAddr =
      (view mem root (tablePath virtAddr)).map fun pt => (pt, leafIndex virtAddr) := by
  simp only [leafTable, ptIndices_eq, view, tablePath, walk, leafIndex]
  cases getTable mem root (virtAddr / 2 ^ 39 % 512) with
  | none => rfl
  | some pdpt =>
    simp only [Option.bind_some]
    cases getTable mem pdpt (virtAddr / 2 ^ 30 % 512) with
    | none => rfl
    | some pd =>
      simp only [Option.bind_some]
      cases getTable mem pd (virtAddr / 2 ^ 21 % 512) <;> rfl

theorem leafAt_eq (mem : Memory) (root virtAddr : Nat) :
    leafAt mem root virtAddr = (view mem root (tablePath virtAddr)).bind fun pt =>
      if isPresent (entryAt mem pt (leafIndex virtAddr)) then
        some (entryAt mem pt (leafIndex virtAddr)) else none := by
  rw [leafAt, leafTable_eq]
  cases view mem root (tablePath virtAddr) <;> rfl

theorem view_pathOf (mem : Memory) (root virtAddr : Nat) :
    view mem root (pathOf virtAddr) = (leafAt mem root virtAddr).map ptePhys := by
  rw [leafAt_eq, pathOf_eq, view, walk_concat, ← view]
  cases view mem root (tablePath virtAddr) with
  | none => rfl
  | some pt =>
    simp only [Option.bind_some, getTable]
    split <;> rfl

theorem translate_eq (mem : Memory) (root virtAddr : Nat) :
    translate mem root virtAddr =
      (leafAt mem root virtAddr).map fun entry => ptePhys entry + virtAddr % pageSize := by
  have offset : virtAddr &&& 0xFFF = virtAddr % pageSize :=
    Nat.and_two_pow_sub_one_eq_mod virtAddr 12
  simp only [translate, leafAt, offset]
  cases leafTable mem root virtAddr with
  | none => rfl
  | some found =>
    simp only [Option.bind_some]
    cases isPresent (entryAt mem found.1 found.2) <;> rfl

theorem leafAt_congr {mem after : Memory} {root virtAddr : Nat}
    (table : view after root (tablePath virtAddr) = view mem root (tablePath virtAddr))
    (entry : ∀ pt, view mem root (tablePath virtAddr) = some pt →
      entryAt after pt (leafIndex virtAddr) = entryAt mem pt (leafIndex virtAddr)) :
    leafAt after root virtAddr = leafAt mem root virtAddr := by
  rw [leafAt_eq, leafAt_eq, table]
  cases found : view mem root (tablePath virtAddr) with
  | none => simp only [Option.bind_none]
  | some pt => simp only [Option.bind_some, entry pt found]

section Vacant

variable {mem : Memory} {root : Nat} (vacant : ∀ slot < 256, getTable mem root slot = none)
include vacant

/-- An empty lower half has no tables below the root. -/
theorem view_of_vacant {path : List Nat} {phys : Nat} (valid : UserPath path)
    (found : view mem root path = some phys) : path = [] ∧ phys = root := by
  cases path with
  | nil => exact ⟨rfl, (Option.some.inj found).symm⟩
  | cons slot rest =>
    rw [view, walk, vacant slot (valid.lower slot rfl)] at found
    cases found

theorem leafAt_of_vacant {virtAddr : Nat} (user : virtAddr < userSpaceEnd) :
    leafAt mem root virtAddr = none := by
  have gone : view mem root (tablePath virtAddr) = none := by
    apply Option.eq_none_iff_forall_ne_some.mpr
    intro phys found
    have short := (view_of_vacant vacant (tablePath_valid user) found).1
    simp [tablePath] at short
  rw [leafAt_eq, gone]
  rfl

end Vacant

/-- Paths to the tables of the lower half. -/
def TablePath (path : List Nat) : Prop := UserPath path ∧ path.length ≤ 3

theorem TablePath.closed : Closed TablePath := by
  intro path idx valid
  refine ⟨UserPath.closed path idx valid.1, ?_⟩
  have depth := valid.2
  rw [List.length_append] at depth
  omega

/-- The frame belongs to the tree. -/
def Owned (machine : Machine) (root frame : Nat) : Prop :=
  ∃ path, UserPath path ∧ view machine.mem root path = some (frame * pageSize)

/-- The frame is free or belongs to the tree. -/
def Charged (machine : Machine) (root frame : Nat) : Prop :=
  machine.pmm.testBit frame = false ∨ Owned machine root frame

/-- The byte lies in a free frame, in a frame below the root, or in the lower half of the root. -/
def Reach (machine : Machine) (root addr : Nat) : Prop :=
  machine.pmm.testBit (addr / pageSize) = false ∨
    (∃ path phys, UserPath path ∧ path ≠ [] ∧ view machine.mem root path = some phys ∧
      addr / pageSize = phys / pageSize) ∨
    (root ≤ addr ∧ addr < root + 2048)

/-- The byte lies in a free frame, or in a table of the tree, of the root only
in its lower half. -/
def InTables (machine : Machine) (root addr : Nat) : Prop :=
  machine.pmm.testBit (addr / pageSize) = false ∨
    ∃ path table, UserPath path ∧ path.length ≤ 3 ∧ view machine.mem root path = some table ∧
      addr / pageSize = table / pageSize ∧ (path = [] → addr < root + 2048)

/-- The tree has gained tables and nothing else has happened. -/
structure Grown (root : Nat) (before after : Machine) : Prop where
  tree : PageTree after root
  total : after.pmm.totalFrames = before.pmm.totalFrames
  kept : ∀ path phys, UserPath path → view before.mem root path = some phys →
    view after.mem root path = some phys
  fresh : ∀ path phys, UserPath path → view after.mem root path = some phys →
    view before.mem root path = some phys ∨ before.pmm.testBit (phys / pageSize) = false
  leaves : ∀ virtAddr < userSpaceEnd,
    leafAt after.mem root virtAddr = leafAt before.mem root virtAddr
  clear : ∀ frame, after.pmm.testBit frame = false → before.pmm.testBit frame = false
  account : ∀ frame, before.pmm.testBit frame = false → Charged after root frame
  bytes : ∀ addr, after.mem addr ≠ before.mem addr → InTables before root addr

theorem Grown.refl {root : Nat} {machine : Machine} (tree : PageTree machine root) :
    Grown root machine machine :=
  ⟨tree, rfl, fun _ _ _ found => found, fun _ _ _ found => .inl found, fun _ _ => rfl,
    fun _ clear => clear, fun _ clear => .inl clear, fun _ changed => absurd rfl changed⟩

theorem Grown.trans {root : Nat} {before middle after : Machine} (first : Grown root before middle)
    (second : Grown root middle after) : Grown root before after := by
  refine ⟨second.tree, second.total.trans first.total, ?_, ?_, ?_, ?_, ?_, ?_⟩
  · exact fun path phys valid found => second.kept path phys valid (first.kept path phys valid found)
  · intro path phys valid found
    rcases second.fresh path phys valid found with old | clear
    · exact first.fresh path phys valid old
    · exact .inr (first.clear _ clear)
  · exact fun virtAddr user => (second.leaves virtAddr user).trans (first.leaves virtAddr user)
  · exact fun frame clear => first.clear frame (second.clear frame clear)
  · intro frame clear
    rcases first.account frame clear with still | ⟨path, valid, found⟩
    · exact second.account frame still
    · exact .inr ⟨path, valid, second.kept path _ valid found⟩
  · intro addr changed
    by_cases late : after.mem addr = middle.mem addr
    · exact first.bytes addr (late ▸ changed)
    · rcases second.bytes addr late with clear | ⟨path, table, valid, short, found, inside, lower⟩
      · exact .inl (first.clear _ clear)
      · rcases first.fresh path table valid found with old | clear
        · exact .inr ⟨path, table, valid, short, old, inside, lower⟩
        · exact .inl (inside ▸ clear)

section Create

variable {valid : List Nat → Prop} {machine : Machine} {root table idx frame : Nat}
  {path : List Nat}

/-- The machine after a table has been created in an empty slot. -/
def createTable (machine : Machine) (table idx frame : Nat) (flags : BitVec 64) : Machine where
  mem := setEntry (zeroPhysFrame machine.mem (frame * pageSize)) table idx
    (tableEntry (frame * pageSize) flags)
  pmm := machine.pmm.takeFrame frame

theorem setEntry_within {mem : Memory} {entry : BitVec 64} {addr : Nat}
    (changed : setEntry mem table idx entry addr ≠ mem addr) :
    table + 8 * idx ≤ addr ∧ addr < table + 8 * idx + 8 := by
  apply Classical.byContradiction
  intro outside
  apply changed
  rw [setEntry, Memory.write64, Memory.patch_outside outside]

theorem zeroPhysFrame_within {mem : Memory} {phys addr : Nat} (aligned : phys % pageSize = 0)
    (changed : zeroPhysFrame mem phys addr ≠ mem addr) : addr / pageSize = phys / pageSize := by
  have inside : phys ≤ addr ∧ addr < phys + pageSize := by
    apply Classical.byContradiction
    intro outside
    apply changed
    rw [zeroPhysFrame, Memory.fill, Memory.patch_outside outside]
  simp only [pageSize] at *
  omega

theorem zeroPhysFrame_inside {mem : Memory} {frame addr : Nat} (inside : addr / pageSize = frame) :
    zeroPhysFrame mem (frame * pageSize) addr = 0 := by
  rw [zeroPhysFrame, Memory.fill, Memory.patch_inside]
  simp only [pageSize] at *
  omega

private theorem decode_tableEntry {phys : Nat} (addr : FrameAddr phys) (flags : BitVec 64) :
    PageTree.decode (tableEntry phys flags) = some phys := by
  rw [PageTree.decode, addr.isPresent_tableEntry, addr.ptePhys_tableEntry]
  rfl

/-- The tree and its view after a table has been created. -/
theorem createTable_view (tree : TreeOver valid machine root)
    (reached : view machine.mem root path = some table) (slotValid : valid (path ++ [idx]))
    (vacant : getTable machine.mem table idx = none) (positive : 1 ≤ frame)
    (clear : machine.pmm.testBit frame = false) (flags : BitVec 64) :
    TreeOver valid (createTable machine table idx frame flags) root ∧
      ∀ query, valid query → view (createTable machine table idx frame flags).mem root query =
        if query = path ++ [idx] then some (frame * pageSize)
        else view machine.mem root query := by
  obtain ⟨taken, held, absent⟩ := tree.takeFrame positive clear
  have frameAddr := held.frameAddr taken.bounded
  have pathValid := tree.paths.closed path idx slotValid
  obtain ⟨zeroed, views⟩ := taken.patchFrame (zeroPhysFrame machine.mem (frame * pageSize)) frameAddr
    (fun path follows _ => absent path follows)
    (fun addr changed => zeroPhysFrame_within frameAddr.aligned changed)
  have decoded := decode_tableEntry frameAddr flags
  have tableFrame := tree.frameAddr pathValid reached
  have apart : frame * pageSize ≠ table := by
    rintro rfl
    exact absent path pathValid reached
  have reachedNow : view (zeroPhysFrame machine.mem (frame * pageSize)) root path = some table :=
    (views path pathValid).trans reached
  have bare : PageTree.Bare { machine with
      mem := zeroPhysFrame machine.mem (frame * pageSize)
      pmm := machine.pmm.takeFrame frame } table idx path (tableEntry (frame * pageSize) flags) := by
    refine .inr ⟨?_, fun next found => ?_⟩
    · rw [PageTree.getTable_eq, entryAt_zeroPhysFrame_other frameAddr tableFrame
        (tree.last_lt slotValid) (Ne.symm apart), ← PageTree.getTable_eq, vacant]
    · obtain rfl := Option.some.inj (decoded.symm.trans found)
      refine ⟨frameAddr, apart, fun slot small => ?_⟩
      rw [PageTree.getTable_eq, entryAt_zeroPhysFrame_same _ _ small]
      rfl
  refine ⟨zeroed.setEntry reachedNow slotValid bare fun next found => ?_, fun query follows => ?_⟩
  · obtain rfl := Option.some.inj (decoded.symm.trans found)
    refine ⟨held, fun query follows _ => ?_⟩
    rw [views query follows]
    exact absent query follows
  · have update := zeroed.view_setEntry reachedNow slotValid bare follows
    rw [decoded, views query follows] at update
    exact update

theorem createTable_bytes {flags : BitVec 64} {addr : Nat}
    (changed : (createTable machine table idx frame flags).mem addr ≠ machine.mem addr) :
    addr / pageSize = frame ∨ (table + 8 * idx ≤ addr ∧ addr < table + 8 * idx + 8) := by
  by_cases slot : setEntry (zeroPhysFrame machine.mem (frame * pageSize)) table idx
      (tableEntry (frame * pageSize) flags) addr = zeroPhysFrame machine.mem (frame * pageSize) addr
  · left
    have zeroed : zeroPhysFrame machine.mem (frame * pageSize) addr ≠ machine.mem addr :=
      fun same => changed (slot.trans same)
    rw [zeroPhysFrame_within (Nat.mul_mod_left ..) zeroed]
    exact mul_pageSize_div frame
  · exact .inr (setEntry_within slot)

/-- The slots of other tables, and the other slots of the parent, are not touched. -/
theorem createTable_entryAt {flags : BitVec 64} {other slot : Nat} (tableFrame : FrameAddr table)
    (newFrame : FrameAddr (frame * pageSize)) (otherFrame : FrameAddr other)
    (idxSmall : idx < 512) (slotSmall : slot < 512) (apart : ¬ (other = table ∧ slot = idx))
    (old : other ≠ frame * pageSize) :
    entryAt (createTable machine table idx frame flags).mem other slot =
      entryAt machine.mem other slot := by
  rw [createTable, entryAt_setEntry_other tableFrame otherFrame idxSmall slotSmall apart,
    entryAt_zeroPhysFrame_other newFrame otherFrame slotSmall old]

/-- The new table is empty. -/
theorem createTable_blank {flags : BitVec 64} {slot : Nat} (tableFrame : FrameAddr table)
    (newFrame : FrameAddr (frame * pageSize)) (idxSmall : idx < 512) (slotSmall : slot < 512)
    (apart : frame * pageSize ≠ table) :
    entryAt (createTable machine table idx frame flags).mem (frame * pageSize) slot = 0 := by
  rw [createTable, entryAt_setEntry_other tableFrame newFrame idxSmall slotSmall
    (fun same => apart same.1), entryAt_zeroPhysFrame_same _ _ slotSmall]

theorem createTable_leaves (tree : TreeOver valid machine root)
    (reached : view machine.mem root path = some table) (slotValid : valid (path ++ [idx]))
    (short : path.length ≤ 2) (vacant : getTable machine.mem table idx = none)
    (positive : 1 ≤ frame) (clear : machine.pmm.testBit frame = false) (flags : BitVec 64)
    (virtAddr : Nat) (user : virtAddr < userSpaceEnd) :
    leafAt (createTable machine table idx frame flags).mem root virtAddr =
      leafAt machine.mem root virtAddr := by
  obtain ⟨_, views⟩ := createTable_view tree reached slotValid vacant positive clear flags
  obtain ⟨taken, held, absent⟩ := tree.takeFrame positive clear
  have newFrame := held.frameAddr taken.bounded
  have pathValid := tree.paths.closed path idx slotValid
  have tableFrame := tree.frameAddr pathValid reached
  have idxSmall := tree.last_lt slotValid
  have leafSmall : leafIndex virtAddr < 512 := Nat.mod_lt _ (by decide)
  have tableValid := tree.paths.tables _ (tablePath_valid user) (Nat.le_refl 3)
  have lookup := views (tablePath virtAddr) tableValid
  by_cases below : tablePath virtAddr = path ++ [idx]
  · rw [if_pos below] at lookup
    have before : view machine.mem root (tablePath virtAddr) = none := by
      rw [below, view, walk_concat, ← view, reached]
      exact vacant
    have apart : frame * pageSize ≠ table := by
      rintro rfl
      exact absent path pathValid reached
    rw [leafAt_eq, leafAt_eq, lookup, before, Option.bind_some,
      createTable_blank tableFrame newFrame idxSmall leafSmall apart]
    rfl
  · rw [if_neg below] at lookup
    refine leafAt_congr lookup fun pt found => ?_
    have ptFrame := tree.frameAddr tableValid found
    refine createTable_entryAt tableFrame newFrame ptFrame idxSmall leafSmall ?_ ?_
    · rintro ⟨rfl, _⟩
      have same := tree.unique tableValid pathValid found reached
      have := congrArg List.length same
      simp only [tablePath, List.length_cons, List.length_nil] at this
      omega
    · rintro rfl
      exact absent _ tableValid found

theorem grown_createTable (tree : PageTree machine root)
    (reached : view machine.mem root path = some table) (slotValid : UserPath (path ++ [idx]))
    (short : path.length ≤ 2) (vacant : getTable machine.mem table idx = none)
    (positive : 1 ≤ frame) (clear : machine.pmm.testBit frame = false) (flags : BitVec 64) :
    Grown root machine (createTable machine table idx frame flags) := by
  obtain ⟨grown, views⟩ := createTable_view tree.over reached slotValid vacant positive clear flags
  have index := mul_pageSize_div frame
  have slotEmpty : view machine.mem root (path ++ [idx]) = none := by
    rw [view, walk_concat, ← view, reached]
    exact vacant
  refine ⟨grown.pageTree, PhysicalMemoryManager.takeFrame_totalFrames .., ?_, ?_,
    createTable_leaves tree.over reached slotValid short vacant positive clear flags, ?_, ?_, ?_⟩
  · intro query phys valid found
    rw [views query valid, if_neg]
    · exact found
    · rintro rfl
      rw [slotEmpty] at found
      cases found
  · intro query phys valid found
    rw [views query valid] at found
    split at found
    · obtain rfl := Option.some.inj found
      exact .inr (index.symm ▸ clear)
    · exact .inl found
  · intro other free
    simp only [createTable, PhysicalMemoryManager.testBit_takeFrame clear] at free
    split at free
    · cases free
    · exact free
  · intro other free
    by_cases same : frame = other
    · subst other
      exact .inr ⟨path ++ [idx], slotValid, by rw [views _ slotValid, if_pos rfl]⟩
    · left
      simp only [createTable, PhysicalMemoryManager.testBit_takeFrame clear, if_neg same]
      exact free
  · intro addr changed
    rcases createTable_bytes changed with inFrame | inSlot
    · exact .inl (inFrame ▸ clear)
    · have pathValid := UserPath.closed path idx slotValid
      have aligned := (tree.frameAddr pathValid reached).aligned
      have small := slotValid.last
      refine .inr ⟨path, table, pathValid, by omega, reached, ?_, ?_⟩
      · simp only [pageSize] at aligned ⊢
        omega
      · rintro rfl
        obtain rfl := Option.some.inj reached
        have lower := slotValid.lower idx rfl
        omega

/-- The table is there, or it is created, or the allocator has no frame for it. -/
theorem getOrCreateTable_cases (tree : TreeOver valid machine root) (table idx : Nat)
    (flags : BitVec 64) :
    (∃ next, getTable machine.mem table idx = some next ∧
      getOrCreateTable table idx flags machine = (.ok next, machine)) ∨
    (getTable machine.mem table idx = none ∧ (∀ f, 1 ≤ f → machine.pmm.testBit f = true) ∧
      ∃ fault, getOrCreateTable table idx flags machine = (.error fault, machine)) ∨
    ∃ f, getTable machine.mem table idx = none ∧ 1 ≤ f ∧ machine.pmm.testBit f = false ∧
      getOrCreateTable table idx flags machine =
        (.ok (f * pageSize), createTable machine table idx f flags) := by
  by_cases present : isPresent (entryAt machine.mem table idx) = true
  · refine .inl ⟨ptePhys (entryAt machine.mem table idx), ?_, ?_⟩
    · rw [getTable, if_pos present]
    · rw [getOrCreateTable, if_pos present]
  · have vacant : getTable machine.mem table idx = none := by rw [getTable, if_neg present]
    rw [getOrCreateTable, if_neg present]
    cases taken : machine.pmm.allocFrame with
    | mk found pmm =>
      cases found with
      | none =>
        obtain ⟨rfl, full⟩ := PhysicalMemoryManager.allocFrame_none taken
        exact .inr (.inl ⟨vacant, full, _, rfl⟩)
      | some addr =>
        obtain ⟨f, rfl, positive, clear, rfl⟩ :=
          PhysicalMemoryManager.allocFrame_some tree.boot.cursor.1 taken
        obtain ⟨grown, held, _⟩ := tree.takeFrame positive clear
        refine .inr (.inr ⟨f, vacant, positive, clear, ?_⟩)
        simp only [entryAt_setEntry_same, (held.frameAddr grown.bounded).ptePhys_tableEntry]
        rfl

theorem view_slot (reached : view machine.mem root path = some table) :
    view machine.mem root (path ++ [idx]) = getTable machine.mem table idx := by
  rw [view, walk_concat, ← view, reached, Option.bind_some]

theorem getOrCreateTable_spec (path : List Nat) (tree : PageTree machine root)
    (reached : view machine.mem root path = some table) (slotValid : UserPath (path ++ [idx]))
    (short : path.length ≤ 2) (flags : BitVec 64) :
    Yields (getOrCreateTable table idx flags machine)
      (fun next after => Grown root machine after ∧ view after.mem root (path ++ [idx]) = some next)
      (fun _ after => after = machine ∧ ∀ f, 1 ≤ f → machine.pmm.testBit f = true) := by
  rcases getOrCreateTable_cases tree.over table idx flags with
    ⟨next, present, result⟩ | ⟨_, full, fault, result⟩ | ⟨f, vacant, positive, clear, result⟩
  · rw [result]
    exact ⟨Grown.refl tree, (view_slot reached).trans present⟩
  · rw [result]
    exact ⟨rfl, full⟩
  · rw [result]
    refine ⟨grown_createTable tree reached slotValid short vacant positive clear flags, ?_⟩
    rw [(createTable_view tree.over reached slotValid vacant positive clear flags).2 _ slotValid,
      if_pos rfl]

end Create

/-- The indices of the three tables on the way to a page. -/
def tablesOf (virtAddr : Nat) : Finset (List Nat) :=
  {[virtAddr / 2 ^ 39 % 512], [virtAddr / 2 ^ 39 % 512, virtAddr / 2 ^ 30 % 512],
    tablePath virtAddr}

/-- The paths that lead to no table. -/
def missing (mem : Memory) (root : Nat) (paths : Finset (List Nat)) : Finset (List Nat) :=
  paths.filter fun path => view mem root path = none

/-- Each frame taken in between is a table that was missing. -/
def Supplied (root : Nat) (paths : Finset (List Nat)) (before after : Machine) : Prop :=
  before.pmm.freeFrames + (missing after.mem root paths).card =
    after.pmm.freeFrames + (missing before.mem root paths).card

/-- Paths to tables of the lower half. -/
def TablePaths (paths : Finset (List Nat)) : Prop :=
  ∀ path ∈ paths, UserPath path ∧ path.length ≤ 3

/-- A set of table paths that holds those of a page. -/
structure Roads (virtAddr : Nat) where
  paths : Finset (List Nat)
  valid : TablePaths paths
  listed : tablesOf virtAddr ⊆ paths

instance : CoeOut (Roads virtAddr) (Finset (List Nat)) := ⟨Roads.paths⟩

namespace Roads

variable {virtAddr : Nat} (roads : Roads virtAddr)

theorem first : [virtAddr / 2 ^ 39 % 512] ∈ roads.paths :=
  roads.listed (by simp [tablesOf])

theorem second : [virtAddr / 2 ^ 39 % 512, virtAddr / 2 ^ 30 % 512] ∈ roads.paths :=
  roads.listed (by simp [tablesOf])

theorem third : tablePath virtAddr ∈ roads.paths :=
  roads.listed (by simp [tablesOf])

end Roads

section Supply

variable {machine middle after : Machine} {root table idx : Nat} {paths : Finset (List Nat)}

theorem Supplied.trans (first : Supplied root paths machine middle)
    (second : Supplied root paths middle after) : Supplied root paths machine after := by
  simp only [Supplied] at *
  omega

theorem missing_congr {mem other : Memory}
    (same : ∀ path ∈ paths, view other root path = view mem root path) :
    missing other root paths = missing mem root paths :=
  Finset.filter_congr fun path member => by rw [same path member]

theorem getOrCreateTable_supplied (path : List Nat) (tree : PageTree machine root)
    (reached : view machine.mem root path = some table) (slotValid : UserPath (path ++ [idx]))
    (valid : TablePaths paths) (listed : path ++ [idx] ∈ paths) (flags : BitVec 64) :
    Yields (getOrCreateTable table idx flags machine)
      (fun _ after => Supplied root paths machine after)
      (fun _ _ => machine.pmm.freeFrames < (missing machine.mem root paths).card) := by
  have lacking (vacant : getTable machine.mem table idx = none) :
      path ++ [idx] ∈ missing machine.mem root paths :=
    Finset.mem_filter.mpr ⟨listed, (view_slot reached).trans vacant⟩
  rcases getOrCreateTable_cases tree.over table idx flags with
    ⟨_, _, result⟩ | ⟨vacant, full, fault, result⟩ | ⟨f, vacant, least, clear, result⟩
  · rw [result]
    exact rfl
  · rw [result]
    change machine.pmm.freeFrames < _
    rw [tree.boot.freeFrames_exhausted full]
    exact Finset.card_pos.mpr ⟨_, lacking vacant⟩
  · have positive := Finset.card_pos.mpr ⟨_, lacking vacant⟩
    have counted := tree.boot.freeFrames_takeFrame clear
    have views := (createTable_view tree.over reached slotValid vacant least clear flags).2
    have erased : missing (createTable machine table idx f flags).mem root paths =
        (missing machine.mem root paths).erase (path ++ [idx]) := by
      ext query
      rw [missing, missing, Finset.mem_filter, Finset.mem_erase, Finset.mem_filter]
      by_cases listed : query ∈ paths
      · rw [views query (valid query listed).1]
        by_cases same : query = path ++ [idx] <;> simp [same, listed]
      · simp [listed]
    rw [result]
    change machine.pmm.freeFrames +
      (missing (createTable machine table idx f flags).mem root paths).card =
        (machine.pmm.takeFrame f).freeFrames + _
    rw [erased, Finset.card_erase_of_mem (lacking vacant)]
    omega

end Supply

section Leaf

variable {valid : List Nat → Prop} {machine : Machine} {root pt phys virtAddr : Nat}
  {entry : BitVec 64}

/-- The machine after the leaf of an address has been written. -/
def writeLeaf (machine : Machine) (pt virtAddr : Nat) (entry : BitVec 64) : Machine :=
  { machine with mem := setEntry machine.mem pt (leafIndex virtAddr) entry }

/-- What the leaf may receive: nothing, or a frame in use that no other path leads to. -/
def Admits (machine : Machine) (root virtAddr : Nat) (entry : BitVec 64) : Prop :=
  ∀ next, PageTree.decode entry = some next → Taken machine.pmm next ∧
    ∀ query, UserPath query → query ≠ pathOf virtAddr → view machine.mem root query ≠ some next

theorem writeLeaf_tree (tree : PageTree machine root)
    (reached : view machine.mem root (tablePath virtAddr) = some pt)
    (user : virtAddr < userSpaceEnd) (admits : Admits machine root virtAddr entry) :
    PageTree (writeLeaf machine pt virtAddr entry) root :=
  tree.setEntry reached (pathOf_eq virtAddr ▸ pathOf_valid user) (.inl rfl) admits

theorem view_writeLeaf (tree : PageTree machine root)
    (reached : view machine.mem root (tablePath virtAddr) = some pt)
    (user : virtAddr < userSpaceEnd) {query : List Nat} (valid : UserPath query) :
    view (writeLeaf machine pt virtAddr entry).mem root query =
      if query = pathOf virtAddr then PageTree.decode entry else view machine.mem root query :=
  tree.view_setEntry reached (pathOf_eq virtAddr ▸ pathOf_valid user) (.inl rfl) valid

/-- A leaf is no slot on the way to a table. -/
theorem writeLeaf_slots (tree : TreeOver valid machine root)
    (reached : view machine.mem root (tablePath virtAddr) = some pt)
    (user : virtAddr < userSpaceEnd) {path : List Nat} {node slot : Nat}
    (follows : UserPath (path ++ [slot])) (short : path.length ≤ 2)
    (found : view machine.mem root path = some node) :
    entryAt (writeLeaf machine pt virtAddr entry).mem node slot = entryAt machine.mem node slot := by
  have pathValid := tree.paths.tables path (UserPath.closed path slot follows) (by omega)
  have tableValid := tree.paths.tables _ (tablePath_valid user) (Nat.le_refl 3)
  refine entryAt_setEntry_other (tree.frameAddr tableValid reached) (tree.frameAddr pathValid found)
    (Nat.mod_lt _ (by decide)) follows.last ?_
  rintro ⟨rfl, _⟩
  have same := congrArg List.length (tree.unique pathValid tableValid found reached)
  simp only [tablePath, List.length_cons, List.length_nil] at same
  omega

theorem writeLeaf_tables (tree : TreeOver valid machine root)
    (reached : view machine.mem root (tablePath virtAddr) = some pt)
    (user : virtAddr < userSpaceEnd) {query : List Nat} (follows : UserPath query)
    (short : query.length ≤ 3) :
    view (writeLeaf machine pt virtAddr entry).mem root query = view machine.mem root query := by
  refine walk_congr TablePath.closed (fun path node slot deeper found => ?_) ⟨follows, short⟩
  have depth := deeper.2
  rw [List.length_append, List.length_singleton] at depth
  rw [PageTree.getTable_eq, PageTree.getTable_eq,
    writeLeaf_slots tree reached user deeper.1 (by omega) found]

theorem leafAt_writeLeaf (tree : TreeOver valid machine root)
    (reached : view machine.mem root (tablePath virtAddr) = some pt)
    (user : virtAddr < userSpaceEnd) {other : Nat} (otherUser : other < userSpaceEnd) :
    leafAt (writeLeaf machine pt virtAddr entry).mem root other =
      if other / pageSize = virtAddr / pageSize then
        if isPresent entry then some entry else none
      else leafAt machine.mem root other := by
  have tableValid := tree.paths.tables _ (tablePath_valid user) (Nat.le_refl 3)
  have otherValid := tree.paths.tables _ (tablePath_valid otherUser) (Nat.le_refl 3)
  have tableKept : view (writeLeaf machine pt virtAddr entry).mem root (tablePath other) =
      view machine.mem root (tablePath other) :=
    writeLeaf_tables tree reached user (tablePath_valid otherUser) (Nat.le_refl 3)
  by_cases here : other / pageSize = virtAddr / pageSize
  · have samePath := (pathOf_eq_iff otherUser user).mpr here
    have parts : tablePath other = tablePath virtAddr ∧ leafIndex other = leafIndex virtAddr := by
      simp only [pathOf, List.cons.injEq, and_true] at samePath
      simp only [tablePath, leafIndex, List.cons.injEq, and_true]
      exact ⟨⟨samePath.1, samePath.2.1, samePath.2.2.1⟩, samePath.2.2.2⟩
    rw [if_pos here, leafAt_eq, tableKept, parts.1, parts.2, reached, Option.bind_some, writeLeaf,
      entryAt_setEntry_same]
  · rw [if_neg here]
    refine leafAt_congr tableKept fun node found => ?_
    have nodeFrame := tree.frameAddr otherValid found
    have tableFrame := tree.frameAddr tableValid reached
    have idxSmall : leafIndex virtAddr < 512 := Nat.mod_lt _ (by decide)
    have slotSmall : leafIndex other < 512 := Nat.mod_lt _ (by decide)
    refine entryAt_setEntry_other tableFrame nodeFrame idxSmall slotSmall ?_
    rintro ⟨rfl, sameIndex⟩
    have sameTable := tree.unique otherValid tableValid found reached
    refine here ((pathOf_eq_iff otherUser user).mp ?_)
    rw [pathOf_eq, pathOf_eq, sameTable, sameIndex]

/-- Only the table of the leaf changes. -/
theorem writeLeaf_bytes {addr : Nat} (tree : PageTree machine root)
    (reached : view machine.mem root (tablePath virtAddr) = some pt)
    (user : virtAddr < userSpaceEnd)
    (changed : (writeLeaf machine pt virtAddr entry).mem addr ≠ machine.mem addr) :
    InTables machine root addr := by
  have within := setEntry_within changed
  have valid := tablePath_valid user
  have aligned := (tree.frameAddr valid reached).aligned
  have small : leafIndex virtAddr < 512 := Nat.mod_lt _ (by decide)
  refine .inr ⟨tablePath virtAddr, pt, valid, by simp [tablePath], reached, ?_, ?_⟩
  · simp only [pageSize] at aligned ⊢
    omega
  · intro empty
    simp [tablePath] at empty

/-- A spare frame stays spare while the tree grows. -/
theorem PageTree.Spare.grown {after : Machine} (spare : PageTree.Spare machine root phys)
    (grown : Grown root machine after) : PageTree.Spare after root phys := by
  have held := spare.taken
  refine ⟨⟨held.aligned, held.positive, grown.total ▸ held.inside, ?_⟩, ?_⟩
  · cases bit : after.pmm.testBit (phys / pageSize) with
    | true => rfl
    | false => exact absurd (grown.clear _ bit) (by simp [held.used])
  · intro path valid found
    rcases grown.fresh path phys valid found with old | clear
    · exact spare.absent path valid old
    · rw [held.used] at clear
      exact nomatch clear

theorem mapPage_spec (tree : PageTree machine root) (user : virtAddr < userSpaceEnd)
    (flags : PageFlags) :
    Yields (mapPage root virtAddr phys flags machine)
      (fun _ after => ∃ middle pt, Grown root machine middle ∧
        view middle.mem root (tablePath virtAddr) = some pt ∧
        after = writeLeaf middle pt virtAddr (leafEntry phys flags) ∧
        ∀ paths : Roads virtAddr, Supplied root paths machine middle)
      (fun _ after => Grown root machine after ∧ ∀ paths : Roads virtAddr,
        machine.pmm.freeFrames < (missing machine.mem root paths).card) := by
  have valid := tablePath_valid user
  have second := UserPath.closed [_, _] _ valid
  have first := UserPath.closed [_] _ second
  have behind {start middle : Machine} {paths : Finset (List Nat)}
      (supplied : Supplied root paths start middle)
      (short : middle.pmm.freeFrames < (missing middle.mem root paths).card) :
      start.pmm.freeFrames < (missing start.mem root paths).card := by
    rw [Supplied] at supplied
    omega
  simp only [mapPage, ptIndices_eq]
  refine Yields.bind ((getOrCreateTable_spec [] tree rfl first (by simp) _).both (Yields.all
    fun paths : Roads virtAddr => getOrCreateTable_supplied [] tree rfl first paths.valid
      (paths.first) _)) ?_ ?_
  · rintro pdpt one ⟨⟨grownOne, foundOne⟩, supplyOne⟩
    refine Yields.bind ((getOrCreateTable_spec [_] grownOne.tree foundOne second (by simp) _).both
      (Yields.all fun paths : Roads virtAddr => getOrCreateTable_supplied [_] grownOne.tree foundOne
        second paths.valid paths.second _)) ?_ ?_
    · rintro pd two ⟨⟨grownTwo, foundTwo⟩, supplyTwo⟩
      refine Yields.bind ((getOrCreateTable_spec [_, _] grownTwo.tree foundTwo valid (by simp) _).both
        (Yields.all fun paths : Roads virtAddr => getOrCreateTable_supplied [_, _] grownTwo.tree
          foundTwo valid paths.valid paths.third _)) ?_ ?_
      · rintro pt three ⟨⟨grownThree, foundThree⟩, supplyThree⟩
        exact ⟨three, pt, (grownOne.trans grownTwo).trans grownThree, foundThree, rfl, fun paths =>
          ((supplyOne paths).trans (supplyTwo paths)).trans (supplyThree paths)⟩
      · rintro _ after ⟨⟨rfl, _⟩, short⟩
        exact ⟨grownOne.trans grownTwo, fun paths =>
          behind ((supplyOne paths).trans (supplyTwo paths)) (short paths)⟩
    · rintro _ after ⟨⟨rfl, _⟩, short⟩
      exact ⟨grownOne, fun paths => behind (supplyOne paths) (short paths)⟩
  · rintro _ after ⟨⟨rfl, _⟩, short⟩
    exact ⟨Grown.refl tree, short⟩

end Leaf

end RustPosix.Mm
