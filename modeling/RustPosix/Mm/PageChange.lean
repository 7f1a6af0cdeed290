import RustPosix.Mm.PageOps
import RustPosix.Mm.VmSpace

/-! Changes to an address space: which frames and bytes they may touch, and what
the user reads afterwards. -/

namespace RustPosix.Mm

open Library

/-- The byte a user address reads. -/
def byteAt (machine : Machine) (root virtAddr : Nat) : Option Byte :=
  (translate machine.mem root virtAddr).map machine.mem

theorem byteAt_eq (machine : Machine) (root virtAddr : Nat) :
    byteAt machine root virtAddr = (leafAt machine.mem root virtAddr).map fun entry =>
      machine.mem (ptePhys entry + virtAddr % pageSize) := by
  rw [byteAt, translate_eq, Option.map_map]
  rfl

/-- A step that stays inside the address space and the free frames. -/
structure Change (root : Nat) (before after : Machine) : Prop where
  tree : PageTree after root
  total : after.pmm.totalFrames = before.pmm.totalFrames
  charged : ∀ frame, Charged after root frame → Charged before root frame
  bytes : ∀ addr, after.mem addr ≠ before.mem addr → Reach before root addr

theorem Change.refl {root : Nat} {machine : Machine} (tree : PageTree machine root) :
    Change root machine machine :=
  ⟨tree, rfl, fun _ held => held, fun _ changed => absurd rfl changed⟩

/-- The free and owned frames together are the same. -/
def Balanced (root : Nat) (before after : Machine) : Prop :=
  ∀ frame, Charged before root frame → Charged after root frame

theorem Balanced.trans {root : Nat} {before middle after : Machine}
    (first : Balanced root before middle) (second : Balanced root middle after) :
    Balanced root before after :=
  fun frame held => second frame (first frame held)

section Reaching

variable {root addr : Nat} {before after : Machine}

theorem div_pageSize_mul {phys : Nat} (aligned : phys % pageSize = 0) :
    phys / pageSize * pageSize = phys := by
  simp only [pageSize] at *
  omega

theorem Change.reach (change : Change root before after) (reach : Reach after root addr) :
    Reach before root addr := by
  have rootTaken := change.tree.taken [] root UserPath.nil rfl
  rcases reach with clear | ⟨path, phys, valid, below, found, inside⟩ | lower
  · rcases change.charged _ (.inl clear) with free | ⟨path, valid, found⟩
    · exact .inl free
    · refine .inr (.inl ⟨path, _, valid, ?_, found, ?_⟩)
      · rintro rfl
        obtain rfl := Option.some.inj found
        have used := rootTaken.used
        rw [mul_pageSize_div, clear] at used
        exact nomatch used
      · rw [mul_pageSize_div]
  · have aligned := div_pageSize_mul (change.tree.taken path phys valid found).aligned
    have owned : Owned after root (phys / pageSize) := ⟨path, valid, by rw [aligned, found]⟩
    rcases change.charged _ (.inr owned) with free | ⟨other, otherValid, again⟩
    · exact .inl (inside ▸ free)
    · rw [aligned] at again
      refine .inr (.inl ⟨other, phys, otherValid, ?_, again, inside⟩)
      rintro rfl
      obtain rfl := Option.some.inj again
      exact below (change.tree.unique valid UserPath.nil found rfl)
  · exact .inr (.inr lower)

theorem Change.trans {last : Machine} (first : Change root before after)
    (second : Change root after last) : Change root before last := by
  refine ⟨second.tree, second.total.trans first.total, ?_, ?_⟩
  · exact fun frame held => first.charged frame (second.charged frame held)
  · intro addr changed
    by_cases late : last.mem addr = after.mem addr
    · exact first.bytes addr (late ▸ changed)
    · exact first.reach (second.bytes addr late)

theorem reach_of_inTables (tree : PageTree before root) (inside : InTables before root addr) :
    Reach before root addr := by
  rcases inside with clear | ⟨path, table, valid, _, found, frame, lower⟩
  · exact .inl clear
  · by_cases top : path = []
    · subst top
      obtain rfl := Option.some.inj found
      have aligned := (tree.taken [] root UserPath.nil rfl).aligned
      refine .inr (.inr ⟨?_, lower rfl⟩)
      simp only [pageSize] at *
      omega
    · exact .inr (.inl ⟨path, table, valid, top, found, frame⟩)

/-- The bytes of a mapped page lie in no table. -/
theorem not_inTables {virtAddr phys : Nat} (tree : PageTree before root)
    (user : virtAddr < userSpaceEnd) (found : view before.mem root (pathOf virtAddr) = some phys)
    (inside : addr / pageSize = phys / pageSize) : ¬ InTables before root addr := by
  have valid := pathOf_valid user
  have held := tree.taken _ _ valid found
  rintro (clear | ⟨path, table, pathValid, short, reached, frame, _⟩)
  · rw [inside, held.used] at clear
    exact nomatch clear
  · have same : table = phys := (tree.frameAddr pathValid reached).eq_of_frame
      (tree.frameAddr valid found) (frame.symm.trans inside)
    have paths := tree.unique pathValid valid reached (same ▸ found)
    rw [paths] at short
    simp [pathOf] at short

theorem frame_of_offset {phys virtAddr : Nat} (aligned : phys % pageSize = 0) :
    (phys + virtAddr % pageSize) / pageSize = phys / pageSize := by
  simp only [pageSize] at *
  omega

/-- Changes inside tables do not show in what the user reads. -/
theorem byteAt_of_inTables {virtAddr : Nat} (tree : PageTree before root)
    (user : virtAddr < userSpaceEnd)
    (leaf : leafAt after.mem root virtAddr = leafAt before.mem root virtAddr)
    (tables : ∀ addr, after.mem addr ≠ before.mem addr → InTables before root addr) :
    byteAt after root virtAddr = byteAt before root virtAddr := by
  rw [byteAt_eq, byteAt_eq, leaf]
  cases found : leafAt before.mem root virtAddr with
  | none => rfl
  | some entry =>
    have reached : view before.mem root (pathOf virtAddr) = some (ptePhys entry) := by
      rw [view_pathOf, found]; rfl
    have aligned := (tree.taken _ _ (pathOf_valid user) reached).aligned
    simp only [Option.map_some, Option.some.injEq]
    apply Classical.byContradiction
    intro changed
    exact not_inTables tree user reached (frame_of_offset aligned) (tables _ changed)

end Reaching

/-- A leaf depends on its table only, so the contents of other frames are free. -/
theorem leafAt_patchFrame {machine : Machine} {root phys virtAddr : Nat} {after : Memory}
    (tree : PageTree machine root) (frame : FrameAddr phys)
    (noTable : ∀ path, UserPath path → path.length ≤ 3 → view machine.mem root path ≠ some phys)
    (within : ∀ addr, after addr ≠ machine.mem addr → addr / pageSize = phys / pageSize)
    (user : virtAddr < userSpaceEnd) :
    leafAt after root virtAddr = leafAt machine.mem root virtAddr := by
  have valid := tablePath_valid user
  refine leafAt_congr ((tree.patchFrame after frame noTable within).2 _ valid) fun pt found => ?_
  have ptFrame := tree.frameAddr valid found
  refine entryAt_congr (Nat.mod_lt _ (by decide)) fun addr lower upper => ?_
  apply Classical.byContradiction
  intro changed
  have inside := within addr changed
  have frames : pt / pageSize = phys / pageSize := by
    have aligned := ptFrame.aligned
    simp only [pageSize] at *
    omega
  exact noTable _ valid (by simp [tablePath]) (ptFrame.eq_of_frame frame frames ▸ found)

/-- A page that now shows a zeroed frame which was free before. -/
structure FreshPage (root virtAddr : Nat) (flags : PageFlags) (before after : Machine) : Prop where
  change : Change root before after
  account : leafAt before.mem root virtAddr = none → Balanced root before after
  leaf : ∀ other < userSpaceEnd, other / pageSize = virtAddr / pageSize →
    ∃ phys, FrameAddr phys ∧ leafAt after.mem root other = some (leafEntry phys flags)
  others : ∀ other < userSpaceEnd, other / pageSize ≠ virtAddr / pageSize →
    leafAt after.mem root other = leafAt before.mem root other
  bytes : ∀ other < userSpaceEnd, byteAt after root other =
    if other / pageSize = virtAddr / pageSize then some 0 else byteAt before root other
  frames : ∀ roads : Roads virtAddr,
    before.pmm.freeFrames + (missing after.mem root roads).card =
      after.pmm.freeFrames + (missing before.mem root roads).card + 1

/-- A frame has been taken from the allocator and perhaps zeroed. -/
structure SetAside (root frame : Nat) (before start : Machine) : Prop where
  clear : before.pmm.testBit frame = false
  positive : 1 ≤ frame
  startTree : PageTree start root
  startPmm : start.pmm = before.pmm.takeFrame frame
  startViews : ∀ path, UserPath path → view start.mem root path = view before.mem root path
  startLeaves : ∀ other < userSpaceEnd,
    leafAt start.mem root other = leafAt before.mem root other
  startBytes : ∀ addr, start.mem addr ≠ before.mem addr → addr / pageSize = frame

namespace SetAside

variable {root frame : Nat} {before start : Machine}

theorem spare (aside : SetAside root frame before start) (tree : PageTree before root) :
    PageTree.Spare start root (frame * pageSize) := by
  have set := (tree.spare_takeFrame aside.positive aside.clear).2
  refine ⟨aside.startPmm ▸ set.taken, fun path valid => ?_⟩
  rw [aside.startViews path valid]
  exact set.absent path valid

/-- Frames free once the frame is set aside were free before. -/
theorem clear_before (aside : SetAside root frame before start) {other : Nat}
    (free : start.pmm.testBit other = false) : before.pmm.testBit other = false := by
  rw [aside.startPmm, PhysicalMemoryManager.testBit_takeFrame aside.clear] at free
  split at free
  · exact nomatch free
  · exact free

theorem clear_start (aside : SetAside root frame before start) {other : Nat}
    (free : before.pmm.testBit other = false) (apart : frame ≠ other) :
    start.pmm.testBit other = false := by
  rw [aside.startPmm, PhysicalMemoryManager.testBit_takeFrame aside.clear, if_neg apart]
  exact free

theorem freeFrames (aside : SetAside root frame before start) (tree : PageTree before root) :
    start.pmm.freeFrames + 1 = before.pmm.freeFrames := by
  rw [aside.startPmm]
  exact tree.boot.freeFrames_takeFrame aside.clear

theorem missing_start (aside : SetAside root frame before start) {paths : Finset (List Nat)}
    (valid : TablePaths paths) : missing start.mem root paths = missing before.mem root paths :=
  missing_congr fun path member => aside.startViews path (valid path member).1

/-- Too few frames for the missing tables, counted before the frame is set aside. -/
theorem short (aside : SetAside root frame before start) (tree : PageTree before root)
    {paths : Finset (List Nat)} (valid : TablePaths paths)
    (behind : start.pmm.freeFrames < (missing start.mem root paths).card) :
    before.pmm.freeFrames ≤ (missing before.mem root paths).card := by
  have taken := aside.freeFrames tree
  rw [aside.missing_start valid] at behind
  omega

theorem plain (tree : PageTree before root) (clear : before.pmm.testBit frame = false)
    (positive : 1 ≤ frame) :
    SetAside root frame before { before with pmm := before.pmm.takeFrame frame } :=
  ⟨clear, positive, (tree.spare_takeFrame positive clear).1, rfl, fun _ _ => rfl, fun _ _ => rfl,
    fun _ changed => absurd rfl changed⟩

theorem zeroed (tree : PageTree before root) (clear : before.pmm.testBit frame = false)
    (positive : 1 ≤ frame) :
    SetAside root frame before
      ⟨zeroPhysFrame before.mem (frame * pageSize), before.pmm.takeFrame frame⟩ := by
  obtain ⟨taken, spare⟩ := tree.spare_takeFrame positive clear
  have addr := spare.taken.frameAddr taken.bounded
  have noTable : ∀ path, UserPath path → path.length ≤ 3 →
      view before.mem root path ≠ some (frame * pageSize) :=
    fun path valid _ => spare.absent path valid
  have within : ∀ addr, zeroPhysFrame before.mem (frame * pageSize) addr ≠ before.mem addr →
      addr / pageSize = frame * pageSize / pageSize :=
    fun _ changed => zeroPhysFrame_within addr.aligned changed
  obtain ⟨patched, views⟩ := taken.patchFrame _ addr noTable within
  exact ⟨clear, positive, patched, rfl, views,
    fun other user => leafAt_patchFrame tree addr noTable within user,
    fun at' changed => (within at' changed).trans (mul_pageSize_div frame)⟩

end SetAside

/-- The stages of mapping a fresh frame: it is set aside, the tree grows to
`middle`, and the frame is zeroed before or after the leaf is written. -/
structure Placing (root virtAddr frame pt : Nat) (flags : PageFlags)
    (before start middle after : Machine) : Prop extends SetAside root frame before start where
  user : virtAddr < userSpaceEnd
  grown : Grown root start middle
  reached : view middle.mem root (tablePath virtAddr) = some pt
  afterPmm : after.pmm = middle.pmm
  afterBytes : ∀ addr, after.mem addr ≠
    (writeLeaf middle pt virtAddr (leafEntry (frame * pageSize) flags)).mem addr →
    addr / pageSize = frame
  zeroed : ∀ addr, addr / pageSize = frame → after.mem addr = 0
  supplied : ∀ roads : Roads virtAddr, Supplied root roads start middle

namespace Placing

variable {root virtAddr frame pt : Nat} {flags : PageFlags} {before start middle after : Machine}

theorem frameAddr (placing : Placing root virtAddr frame pt flags before start middle after)
    (tree : PageTree before root) : FrameAddr (frame * pageSize) :=
  (placing.toSetAside.spare tree).taken.frameAddr placing.startTree.bounded

theorem decode (placing : Placing root virtAddr frame pt flags before start middle after)
    (tree : PageTree before root) :
    PageTree.decode (leafEntry (frame * pageSize) flags) = some (frame * pageSize) := by
  have addr := placing.frameAddr tree
  rw [PageTree.decode, addr.isPresent_leafEntry, addr.ptePhys_leafEntry]
  rfl

theorem leafed (placing : Placing root virtAddr frame pt flags before start middle after)
    (tree : PageTree before root) :
    PageTree (writeLeaf middle pt virtAddr (leafEntry (frame * pageSize) flags)) root := by
  refine writeLeaf_tree placing.grown.tree placing.reached placing.user fun next found => ?_
  obtain rfl := Option.some.inj ((placing.decode tree).symm.trans found)
  have spare := (placing.toSetAside.spare tree).grown placing.grown
  exact ⟨spare.taken, fun query valid _ => spare.absent query valid⟩

theorem view_leafed (placing : Placing root virtAddr frame pt flags before start middle after)
    (tree : PageTree before root) {path : List Nat} (valid : UserPath path) :
    view (writeLeaf middle pt virtAddr (leafEntry (frame * pageSize) flags)).mem root path =
      if path = pathOf virtAddr then some (frame * pageSize) else view middle.mem root path := by
  rw [view_writeLeaf placing.grown.tree placing.reached placing.user valid, placing.decode tree]

/-- The new frame is a page, so no table. -/
theorem noTable (placing : Placing root virtAddr frame pt flags before start middle after)
    (tree : PageTree before root) (path : List Nat) (valid : UserPath path)
    (short : path.length ≤ 3) :
    view (writeLeaf middle pt virtAddr (leafEntry (frame * pageSize) flags)).mem root path ≠
      some (frame * pageSize) := by
  have spare := (placing.toSetAside.spare tree).grown placing.grown
  rw [placing.view_leafed tree valid]
  split
  · rename_i same
    rw [same] at short
    simp [pathOf] at short
  · exact spare.absent path valid

theorem after_tree (placing : Placing root virtAddr frame pt flags before start middle after)
    (tree : PageTree before root) : PageTree after root ∧
      ∀ path, UserPath path → view after.mem root path =
        if path = pathOf virtAddr then some (frame * pageSize) else view middle.mem root path := by
  have addr := placing.frameAddr tree
  obtain ⟨patched, views⟩ := (placing.leafed tree).patchFrame after.mem addr (placing.noTable tree)
    fun at' changed => (placing.afterBytes at' changed).trans (mul_pageSize_div frame).symm
  have same : { writeLeaf middle pt virtAddr (leafEntry (frame * pageSize) flags) with
      mem := after.mem } = after := by
    rw [writeLeaf, ← placing.afterPmm]
  rw [same] at patched
  refine ⟨patched, fun path valid => ?_⟩
  rw [views path valid, placing.view_leafed tree valid]

theorem leafAt_after (placing : Placing root virtAddr frame pt flags before start middle after)
    (tree : PageTree before root) {other : Nat} (otherUser : other < userSpaceEnd) :
    leafAt after.mem root other =
      if other / pageSize = virtAddr / pageSize then some (leafEntry (frame * pageSize) flags)
      else leafAt before.mem root other := by
  have addr := placing.frameAddr tree
  rw [leafAt_patchFrame (placing.leafed tree) addr (placing.noTable tree)
      (fun at' changed => (placing.afterBytes at' changed).trans (mul_pageSize_div frame).symm) otherUser,
    leafAt_writeLeaf placing.grown.tree.over placing.reached placing.user otherUser,
    addr.isPresent_leafEntry, placing.grown.leaves other otherUser,
    placing.startLeaves other otherUser]
  rfl

/-- A byte outside the new frame changes only inside a table. -/
theorem changed (placing : Placing root virtAddr frame pt flags before start middle after)
    {addr : Nat} (outside : addr / pageSize ≠ frame) (differs : after.mem addr ≠ before.mem addr) :
    InTables start root addr ∨ InTables middle root addr := by
  have afterSame : after.mem addr =
      (writeLeaf middle pt virtAddr (leafEntry (frame * pageSize) flags)).mem addr :=
    Classical.byContradiction fun apart => outside (placing.afterBytes addr apart)
  have startSame : start.mem addr = before.mem addr :=
    Classical.byContradiction fun apart => outside (placing.startBytes addr apart)
  by_cases grew : middle.mem addr = start.mem addr
  · have written : (writeLeaf middle pt virtAddr (leafEntry (frame * pageSize) flags)).mem addr ≠
        middle.mem addr :=
      fun same => differs (afterSame.trans (same.trans (grew.trans startSame)))
    exact .inr (writeLeaf_bytes placing.grown.tree placing.reached placing.user written)
  · exact .inl (placing.grown.bytes addr grew)

/-- In terms of the first state, every changed byte lies in a free frame or in a table. -/
theorem inTables (placing : Placing root virtAddr frame pt flags before start middle after)
    {addr : Nat} (differs : after.mem addr ≠ before.mem addr) : InTables before root addr := by
  have fromStart : InTables start root addr → InTables before root addr := by
    rintro (clear | ⟨path, table, valid, short, found, rest⟩)
    · exact .inl (placing.toSetAside.clear_before clear)
    · rw [placing.startViews path valid] at found
      exact .inr ⟨path, table, valid, short, found, rest⟩
  by_cases here : addr / pageSize = frame
  · exact .inl (here ▸ placing.clear)
  rcases placing.changed here differs with early | clear | ⟨path, table, valid, short, found, same, lower⟩
  · exact fromStart early
  · exact .inl (placing.toSetAside.clear_before (placing.grown.clear _ clear))
  · rcases placing.grown.fresh path table valid found with old | clear
    · exact fromStart (.inr ⟨path, table, valid, short, old, same, lower⟩)
    · exact .inl (same ▸ placing.toSetAside.clear_before clear)

theorem change (placing : Placing root virtAddr frame pt flags before start middle after)
    (tree : PageTree before root) : Change root before after := by
  obtain ⟨afterTree, views⟩ := placing.after_tree tree
  have grown := placing.grown
  refine ⟨afterTree, ?_, ?_, ?_⟩
  · rw [placing.afterPmm, grown.total, placing.startPmm]
    exact PhysicalMemoryManager.takeFrame_totalFrames ..
  · rintro other (clear | ⟨path, valid, found⟩)
    · rw [placing.afterPmm] at clear
      exact .inl (placing.toSetAside.clear_before (grown.clear other clear))
    · rw [views path valid] at found
      split at found
      · have same : frame = other := by
          have := congrArg (fun phys => phys / pageSize) (Option.some.inj found)
          simpa only [mul_pageSize_div] using this
        exact .inl (same ▸ placing.clear)
      · rcases grown.fresh path _ valid found with old | clear
        · rw [placing.startViews path valid] at old
          exact .inr ⟨path, valid, old⟩
        · rw [mul_pageSize_div] at clear
          exact .inl (placing.toSetAside.clear_before clear)
  · exact fun addr differs => reach_of_inTables tree (placing.inTables differs)

theorem account (placing : Placing root virtAddr frame pt flags before start middle after)
    (tree : PageTree before root) (unmapped : leafAt before.mem root virtAddr = none) :
    Balanced root before after := by
  obtain ⟨_, views⟩ := placing.after_tree tree
  have grown := placing.grown
  have vacant : view middle.mem root (pathOf virtAddr) = none := by
    rw [view_pathOf, grown.leaves _ placing.user, placing.startLeaves _ placing.user, unmapped]
    rfl
  have moved : ∀ other, Owned middle root other → Owned after root other := by
    rintro other ⟨path, valid, found⟩
    refine ⟨path, valid, ?_⟩
    rw [views path valid, if_neg]
    · exact found
    · rintro rfl
      rw [vacant] at found
      exact nomatch found
  rintro other (clear | ⟨path, valid, found⟩)
  · by_cases same : frame = other
    · subst other
      refine .inr ⟨pathOf virtAddr, pathOf_valid placing.user, ?_⟩
      rw [views _ (pathOf_valid placing.user), if_pos rfl]
    · rcases grown.account other (placing.toSetAside.clear_start clear same) with still | owned
      · exact .inl (placing.afterPmm ▸ still)
      · exact .inr (moved other owned)
  · rw [← placing.startViews path valid] at found
    exact .inr (moved other ⟨path, valid, grown.kept path _ valid found⟩)

theorem byteAt_after (placing : Placing root virtAddr frame pt flags before start middle after)
    (tree : PageTree before root) {other : Nat} (otherUser : other < userSpaceEnd) :
    byteAt after root other =
      if other / pageSize = virtAddr / pageSize then some 0 else byteAt before root other := by
  have addr := placing.frameAddr tree
  have leaf := placing.leafAt_after tree otherUser
  by_cases here : other / pageSize = virtAddr / pageSize
  · rw [if_pos here] at leaf
    rw [if_pos here, byteAt_eq, leaf, Option.map_some, addr.ptePhys_leafEntry,
      placing.zeroed _ ((frame_of_offset addr.aligned).trans (mul_pageSize_div frame))]
  · rw [if_neg here] at leaf
    rw [if_neg here]
    exact byteAt_of_inTables tree otherUser leaf fun _ differs => placing.inTables differs

theorem frames (placing : Placing root virtAddr frame pt flags before start middle after)
    (tree : PageTree before root) (roads : Roads virtAddr) :
    before.pmm.freeFrames + (missing after.mem root roads).card =
      after.pmm.freeFrames + (missing before.mem root roads).card + 1 := by
  have taken := placing.toSetAside.freeFrames tree
  have supplied := placing.supplied roads
  have last : missing after.mem root roads = missing middle.mem root roads := by
    refine missing_congr fun path member => ?_
    obtain ⟨valid, short⟩ := roads.valid path member
    rw [(placing.after_tree tree).2 path valid, if_neg]
    rintro rfl
    simp [pathOf] at short
  rw [Supplied, placing.toSetAside.missing_start roads.valid] at supplied
  rw [last, placing.afterPmm]
  omega

theorem freshPage (placing : Placing root virtAddr frame pt flags before start middle after)
    (tree : PageTree before root) : FreshPage root virtAddr flags before after where
  change := placing.change tree
  account := placing.account tree
  leaf other otherUser here :=
    ⟨frame * pageSize, placing.frameAddr tree, by rw [placing.leafAt_after tree otherUser, if_pos here]⟩
  others other otherUser apart := by rw [placing.leafAt_after tree otherUser, if_neg apart]
  bytes _ otherUser := placing.byteAt_after tree otherUser
  frames := placing.frames tree

end Placing

end RustPosix.Mm
