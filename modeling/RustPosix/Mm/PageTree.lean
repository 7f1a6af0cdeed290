import RustPosix.Library.Radix
import RustPosix.Mm.PageEntry
import RustPosix.Mm.PmmInvariant

/-! The lower half of a page table as a tree: paths of indices to frames. Each
frame is reached by one path, and every frame reached is in use. -/

namespace RustPosix.Mm

open Library

/-- Exclusive upper bound of user addresses. -/
def userSpaceEnd : Nat := 0x0000800000000000

/-- Indices from the root that stay in its lower half. Four of them lead to a page. -/
structure UserPath (path : List Nat) : Prop where
  depth : path.length ≤ 4
  slots : ∀ idx ∈ path, idx < 512
  lower : ∀ idx, path.head? = some idx → idx < 256

theorem UserPath.closed : Closed UserPath := by
  intro path idx valid
  refine ⟨?_, fun slot member => valid.slots slot (List.mem_append_left _ member), ?_⟩
  · have := valid.depth
    rw [List.length_append] at this
    omega
  · intro slot first
    exact valid.lower slot (by rw [List.head?_append, first]; rfl)

theorem UserPath.nil : UserPath [] := ⟨by simp, by simp, by simp⟩

theorem UserPath.last {path : List Nat} {idx : Nat} (valid : UserPath (path ++ [idx])) : idx < 512 :=
  valid.slots idx (by simp)

/-- The indices of an address from the root to its page. -/
def pathOf (virtAddr : Nat) : List Nat :=
  [virtAddr / 2 ^ 39 % 512, virtAddr / 2 ^ 30 % 512, virtAddr / 2 ^ 21 % 512,
    virtAddr / 2 ^ 12 % 512]

theorem pathOf_valid {virtAddr : Nat} (user : virtAddr < userSpaceEnd) : UserPath (pathOf virtAddr) := by
  refine ⟨by simp [pathOf], ?_, ?_⟩
  · intro idx member
    simp only [pathOf, List.mem_cons, List.not_mem_nil, or_false] at member
    omega
  · intro idx first
    simp only [pathOf, List.head?_cons, Option.some.injEq] at first
    simp only [userSpaceEnd] at user
    omega

theorem pathOf_eq_iff {first second : Nat} (firstUser : first < userSpaceEnd)
    (secondUser : second < userSpaceEnd) :
    pathOf first = pathOf second ↔ first / pageSize = second / pageSize := by
  simp only [userSpaceEnd] at firstUser secondUser
  simp only [pathOf, pageSize, List.cons.injEq, and_true]
  omega

/-- A frame handed out by the allocator. -/
structure Taken (pmm : PhysicalMemoryManager) (phys : Nat) : Prop where
  aligned : phys % pageSize = 0
  positive : 1 ≤ phys / pageSize
  inside : phys / pageSize < pmm.totalFrames
  used : pmm.testBit (phys / pageSize) = true

/-- The frame a path of the tree leads to. -/
def view (mem : Memory) (root : Nat) (path : List Nat) : Option Nat :=
  walk (getTable mem) root path

/-- The invariant of an address space: what the tree of its lower half is. -/
structure PageTree (machine : Machine) (root : Nat) : Prop where
  boot : machine.pmm.Boot
  bounded : machine.pmm.totalFrames ≤ 2 ^ 40
  separate : Separate (getTable machine.mem) root UserPath
  taken : ∀ path phys, UserPath path → view machine.mem root path = some phys →
    Taken machine.pmm phys

theorem Taken.frameAddr {pmm : PhysicalMemoryManager} {phys : Nat} (held : Taken pmm phys)
    (bounded : pmm.totalFrames ≤ 2 ^ 40) : FrameAddr phys := by
  refine ⟨held.aligned, ?_⟩
  have aligned := held.aligned
  have inside := held.inside
  simp only [pageSize] at aligned inside
  omega

/-- Sets of paths that hold those to all tables, and perhaps those to the pages. -/
structure PathSet (valid : List Nat → Prop) : Prop where
  closed : Closed valid
  user : ∀ path, valid path → UserPath path
  tables : ∀ path, UserPath path → path.length ≤ 3 → valid path

/-- The tree as far as some of its paths lead. -/
structure TreeOver (valid : List Nat → Prop) (machine : Machine) (root : Nat) : Prop where
  paths : PathSet valid
  boot : machine.pmm.Boot
  bounded : machine.pmm.totalFrames ≤ 2 ^ 40
  separate : Separate (getTable machine.mem) root valid
  taken : ∀ path phys, valid path → view machine.mem root path = some phys →
    Taken machine.pmm phys

theorem PageTree.over {machine : Machine} {root : Nat} (tree : PageTree machine root) :
    TreeOver UserPath machine root :=
  ⟨⟨UserPath.closed, fun _ valid => valid, fun _ valid _ => valid⟩, tree.boot, tree.bounded,
    tree.separate, tree.taken⟩

theorem TreeOver.pageTree {machine : Machine} {root : Nat} (tree : TreeOver UserPath machine root) :
    PageTree machine root :=
  ⟨tree.boot, tree.bounded, tree.separate, tree.taken⟩

namespace PageTree

/-- What an entry says to a walk. -/
def decode (entry : BitVec 64) : Option Nat :=
  if isPresent entry then some (ptePhys entry) else none

theorem getTable_eq (mem : Memory) (table idx : Nat) :
    getTable mem table idx = decode (entryAt mem table idx) := rfl

theorem getTable_setEntry_same (mem : Memory) (table idx : Nat) (entry : BitVec 64) :
    getTable (setEntry mem table idx entry) table idx = decode entry := by
  rw [getTable_eq, entryAt_setEntry_same]

/-- A slot that may be written without cutting off or adding more than one frame:
a leaf, or an empty slot that receives nothing or an empty table. -/
def Bare (machine : Machine) (table idx : Nat) (path : List Nat) (entry : BitVec 64) : Prop :=
  path.length = 3 ∨ (getTable machine.mem table idx = none ∧
    ∀ next, decode entry = some next → FrameAddr next ∧ next ≠ table ∧
      ∀ slot < 512, getTable machine.mem next slot = none)

/-- The frame is used but no path leads to it. -/
structure Spare (machine : Machine) (root phys : Nat) : Prop where
  taken : Taken machine.pmm phys
  absent : ∀ path, UserPath path → view machine.mem root path ≠ some phys

end PageTree

namespace TreeOver

variable {valid : List Nat → Prop} {machine : Machine} {root table idx phys : Nat}
  {path query : List Nat}

theorem frameAddr (tree : TreeOver valid machine root) (follows : valid path)
    (found : view machine.mem root path = some phys) : FrameAddr phys :=
  (tree.taken path phys follows found).frameAddr tree.bounded

theorem unique (tree : TreeOver valid machine root) (follows : valid path) (other : valid query)
    (found : view machine.mem root path = some phys)
    (again : view machine.mem root query = some phys) : path = query :=
  tree.separate path query phys follows other found again

theorem last_lt (tree : TreeOver valid machine root) (follows : valid (path ++ [idx])) :
    idx < 512 :=
  (tree.paths.user _ follows).last

/-- A store to one entry changes one slot. -/
theorem slotChange (tree : TreeOver valid machine root)
    (reached : view machine.mem root path = some table) (slotValid : valid (path ++ [idx]))
    (entry : BitVec 64) :
    SlotChange (getTable machine.mem) (getTable (setEntry machine.mem table idx entry)) root
      valid table idx := by
  intro other node slot follows found apart
  have tableFrame := tree.frameAddr (tree.paths.closed path idx slotValid) reached
  have nodeFrame := tree.frameAddr (tree.paths.closed other slot follows) found
  rw [PageTree.getTable_eq, PageTree.getTable_eq, entryAt_setEntry_other tableFrame nodeFrame
    (tree.last_lt slotValid) (tree.last_lt follows) apart]

theorem view_setEntry (tree : TreeOver valid machine root)
    (reached : view machine.mem root path = some table) (slotValid : valid (path ++ [idx]))
    {entry : BitVec 64} (bare : PageTree.Bare machine table idx path entry)
    (follows : valid query) :
    view (setEntry machine.mem table idx entry) root query =
      if query = path ++ [idx] then PageTree.decode entry else view machine.mem root query := by
  have change := tree.slotChange reached slotValid entry
  have shallow : ∀ slot rest, valid (path ++ [idx] ++ slot :: rest) → path.length ≠ 3 := by
    intro slot rest deeper full
    have depth := (tree.paths.user _ deeper).depth
    simp only [List.length_append, List.length_cons, List.length_nil] at depth
    omega
  have update := walk_slotChange tree.paths.closed tree.separate change reached slotValid
    (fun node slot rest deeper found => ?_) (fun node slot rest deeper found => ?_) follows
  · rwa [PageTree.getTable_setEntry_same] at update
  · rcases bare with full | ⟨empty, _⟩
    · exact absurd full (shallow slot rest deeper)
    · rw [empty] at found
      exact nomatch found
  · rcases bare with full | ⟨_, blank⟩
    · exact absurd full (shallow slot rest deeper)
    · rw [PageTree.getTable_setEntry_same] at found
      obtain ⟨frame, differs, vacant⟩ := blank node found
      have small : slot < 512 := (tree.paths.user _ deeper).slots slot (by simp)
      have tableFrame := tree.frameAddr (tree.paths.closed path idx slotValid) reached
      rw [PageTree.getTable_eq, entryAt_setEntry_other tableFrame frame (tree.last_lt slotValid)
        small (fun same => differs same.1), ← PageTree.getTable_eq, vacant slot small]

/-- The tree after a slot has received nothing, or a frame no other path leads to. -/
theorem setEntry (tree : TreeOver valid machine root)
    (reached : view machine.mem root path = some table) (slotValid : valid (path ++ [idx]))
    {entry : BitVec 64} (bare : PageTree.Bare machine table idx path entry)
    (fresh : ∀ next, PageTree.decode entry = some next → Taken machine.pmm next ∧
      ∀ query, valid query → query ≠ path ++ [idx] → view machine.mem root query ≠ some next) :
    TreeOver valid { machine with mem := Mm.setEntry machine.mem table idx entry } root := by
  have update : ∀ query, valid query →
      walk (getTable (Mm.setEntry machine.mem table idx entry)) root query =
        if query = path ++ [idx] then getTable (Mm.setEntry machine.mem table idx entry) table idx
        else walk (getTable machine.mem) root query := by
    intro query follows
    rw [PageTree.getTable_setEntry_same]
    exact tree.view_setEntry reached slotValid bare follows
  refine ⟨tree.paths, tree.boot, tree.bounded, tree.separate.slotChange update ?_, ?_⟩
  · intro next found query follows apart
    rw [PageTree.getTable_setEntry_same] at found
    exact (fresh next found).2 query follows apart
  · intro query phys follows found
    change walk (getTable (Mm.setEntry machine.mem table idx entry)) root query = some phys at found
    rw [update query follows, PageTree.getTable_setEntry_same] at found
    split at found
    · exact (fresh phys found).1
    · exact tree.taken query phys follows found

/-- Changes that leave the slots of the tree alone leave the tree alone. -/
theorem of_same_slots (tree : TreeOver valid machine root) (after : Machine)
    (boot : after.pmm.Boot) (bounded : after.pmm.totalFrames ≤ 2 ^ 40)
    (kept : ∀ path phys, valid path → view machine.mem root path = some phys →
      Taken after.pmm phys)
    (same : ∀ path node slot, valid (path ++ [slot]) → view machine.mem root path = some node →
      getTable after.mem node slot = getTable machine.mem node slot) :
    TreeOver valid after root ∧
      ∀ path, valid path → view after.mem root path = view machine.mem root path := by
  have views : ∀ path, valid path → view after.mem root path = view machine.mem root path :=
    fun path follows => walk_congr tree.paths.closed same follows
  refine ⟨⟨tree.paths, boot, bounded, ?_, ?_⟩, views⟩
  · intro first second node firstValid secondValid firstFound secondFound
    have firstSame := views first firstValid
    have secondSame := views second secondValid
    simp only [view] at firstSame secondSame
    rw [firstSame] at firstFound
    rw [secondSame] at secondFound
    exact tree.separate first second node firstValid secondValid firstFound secondFound
  · intro path phys follows found
    exact kept path phys follows (views path follows ▸ found)

/-- Memory may change anywhere inside frames that are no tables of the tree. -/
theorem same_slots_of_frame (tree : TreeOver valid machine root) {after : Memory}
    (frame : FrameAddr phys)
    (noTable : ∀ path, valid path → path.length ≤ 3 → view machine.mem root path ≠ some phys)
    (within : ∀ addr, after addr ≠ machine.mem addr → addr / pageSize = phys / pageSize) :
    ∀ path node slot, valid (path ++ [slot]) → view machine.mem root path = some node →
      getTable after node slot = getTable machine.mem node slot := by
  intro path node slot follows found
  have pathValid := tree.paths.closed path slot follows
  have nodeFrame := tree.frameAddr pathValid found
  refine getTable_congr (tree.last_lt follows) fun addr lower upper => ?_
  apply Classical.byContradiction
  intro changed
  have depth := (tree.paths.user _ follows).depth
  rw [List.length_append, List.length_singleton] at depth
  have frames : node / pageSize = phys / pageSize := by
    have := within addr changed
    have aligned := nodeFrame.aligned
    simp only [pageSize] at *
    omega
  have same := nodeFrame.eq_of_frame frame frames
  exact noTable path pathValid (by omega) (same ▸ found)

theorem patchFrame (tree : TreeOver valid machine root) (after : Memory) (frame : FrameAddr phys)
    (noTable : ∀ path, valid path → path.length ≤ 3 → view machine.mem root path ≠ some phys)
    (within : ∀ addr, after addr ≠ machine.mem addr → addr / pageSize = phys / pageSize) :
    TreeOver valid { machine with mem := after } root ∧
      ∀ path, valid path → view after root path = view machine.mem root path :=
  tree.of_same_slots { machine with mem := after } tree.boot tree.bounded tree.taken
    (tree.same_slots_of_frame frame noTable within)

/-- A frame taken from the allocator is no part of the tree. -/
theorem takeFrame (tree : TreeOver valid machine root) {frame : Nat} (positive : 1 ≤ frame)
    (clear : machine.pmm.testBit frame = false) :
    TreeOver valid { machine with pmm := machine.pmm.takeFrame frame } root ∧
      Taken (machine.pmm.takeFrame frame) (frame * pageSize) ∧
      ∀ path, valid path → view machine.mem root path ≠ some (frame * pageSize) := by
  have inside := PhysicalMemoryManager.lt_of_clear clear
  have index := mul_pageSize_div frame
  have total := PhysicalMemoryManager.takeFrame_totalFrames machine.pmm frame
  have kept : ∀ path phys, valid path → view machine.mem root path = some phys →
      Taken (machine.pmm.takeFrame frame) phys := by
    intro path phys follows found
    have held := tree.taken path phys follows found
    refine ⟨held.aligned, held.positive, total ▸ held.inside, ?_⟩
    rw [PhysicalMemoryManager.testBit_takeFrame clear]
    split
    · rfl
    · exact held.used
  have same := tree.of_same_slots { machine with pmm := machine.pmm.takeFrame frame }
    (tree.boot.takeFrame clear) (total ▸ tree.bounded) kept fun _ _ _ _ _ => rfl
  refine ⟨same.1, ⟨Nat.mul_mod_left .., by rwa [index], ?_, ?_⟩, ?_⟩
  · rw [index]
    exact total ▸ inside
  · rw [index]
    simp [PhysicalMemoryManager.testBit_takeFrame clear]
  · intro path follows found
    have used := (tree.taken path _ follows found).used
    rw [index, clear] at used
    exact nomatch used

end TreeOver

namespace PageTree

variable {machine : Machine} {root table idx phys : Nat} {path query : List Nat}

theorem frameAddr (tree : PageTree machine root) (valid : UserPath path)
    (found : view machine.mem root path = some phys) : FrameAddr phys :=
  tree.over.frameAddr valid found

theorem unique (tree : PageTree machine root) (valid : UserPath path) (other : UserPath query)
    (found : view machine.mem root path = some phys)
    (again : view machine.mem root query = some phys) : path = query :=
  tree.separate path query phys valid other found again

theorem view_setEntry (tree : PageTree machine root)
    (reached : view machine.mem root path = some table) (slotValid : UserPath (path ++ [idx]))
    {entry : BitVec 64} (bare : Bare machine table idx path entry) (valid : UserPath query) :
    view (setEntry machine.mem table idx entry) root query =
      if query = path ++ [idx] then decode entry else view machine.mem root query :=
  tree.over.view_setEntry reached slotValid bare valid

theorem setEntry (tree : PageTree machine root)
    (reached : view machine.mem root path = some table) (slotValid : UserPath (path ++ [idx]))
    {entry : BitVec 64} (bare : Bare machine table idx path entry)
    (fresh : ∀ next, decode entry = some next → Taken machine.pmm next ∧
      ∀ query, UserPath query → query ≠ path ++ [idx] → view machine.mem root query ≠ some next) :
    PageTree { machine with mem := Mm.setEntry machine.mem table idx entry } root :=
  (tree.over.setEntry reached slotValid bare fresh).pageTree

theorem of_same_slots (tree : PageTree machine root) (after : Machine) (boot : after.pmm.Boot)
    (total : after.pmm.totalFrames = machine.pmm.totalFrames)
    (kept : ∀ path phys, UserPath path → view machine.mem root path = some phys →
      after.pmm.testBit (phys / pageSize) = true)
    (same : ∀ path node slot, UserPath (path ++ [slot]) → view machine.mem root path = some node →
      getTable after.mem node slot = getTable machine.mem node slot) :
    PageTree after root ∧
      ∀ path, UserPath path → view after.mem root path = view machine.mem root path := by
  have still : ∀ path phys, UserPath path → view machine.mem root path = some phys →
      Taken after.pmm phys := by
    intro path phys valid found
    have held := tree.taken path phys valid found
    exact ⟨held.aligned, held.positive, total ▸ held.inside, kept path phys valid found⟩
  obtain ⟨whole, views⟩ := tree.over.of_same_slots after boot (total ▸ tree.bounded) still same
  exact ⟨whole.pageTree, views⟩

theorem patchFrame (tree : PageTree machine root) (after : Memory) (frame : FrameAddr phys)
    (noTable : ∀ path, UserPath path → path.length ≤ 3 → view machine.mem root path ≠ some phys)
    (within : ∀ addr, after addr ≠ machine.mem addr → addr / pageSize = phys / pageSize) :
    PageTree { machine with mem := after } root ∧
      ∀ path, UserPath path → view after root path = view machine.mem root path := by
  obtain ⟨whole, views⟩ := tree.over.patchFrame after frame noTable within
  exact ⟨whole.pageTree, views⟩

/-- A frame taken from the allocator is no part of the tree. -/
theorem spare_takeFrame (tree : PageTree machine root) {frame : Nat} (positive : 1 ≤ frame)
    (clear : machine.pmm.testBit frame = false) :
    PageTree { machine with pmm := machine.pmm.takeFrame frame } root ∧
      Spare { machine with pmm := machine.pmm.takeFrame frame } root (frame * pageSize) := by
  obtain ⟨whole, taken, absent⟩ := tree.over.takeFrame positive clear
  exact ⟨whole.pageTree, taken, absent⟩

end PageTree

end RustPosix.Mm
