import RustPosix.Mm.PageChange

/-! The page-sized steps that the loops of `vmm.rs` and `mm-core` are made of. -/

namespace RustPosix.Mm

open Library

/-- A step after which the same pages are mapped to the same frames. -/
structure SamePages (root : Nat) (before after : Machine) : Prop where
  change : Change root before after
  balanced : Balanced root before after
  leaves : ∀ other < userSpaceEnd, leafAt after.mem root other = leafAt before.mem root other

/-- A step that does not show in what the user reads either. -/
structure Quiet (root : Nat) (before after : Machine) : Prop extends
    SamePages root before after where
  bytes : ∀ other < userSpaceEnd, byteAt after root other = byteAt before root other

/-- Bytes have been stored at user addresses. -/
structure Stored (root virtAddr : Nat) (data : List Byte) (before after : Machine) : Prop extends
    SamePages root before after where
  bytes : ∀ other < userSpaceEnd, byteAt after root other =
    if virtAddr ≤ other ∧ other < virtAddr + data.length then data[other - virtAddr]?
    else byteAt before root other

theorem SamePages.refl {root : Nat} {machine : Machine} (tree : PageTree machine root) :
    SamePages root machine machine :=
  ⟨Change.refl tree, fun _ held => held, fun _ _ => rfl⟩

theorem SamePages.trans {root : Nat} {before middle after : Machine}
    (first : SamePages root before middle) (second : SamePages root middle after) :
    SamePages root before after :=
  ⟨first.change.trans second.change, first.balanced.trans second.balanced,
    fun other user => (second.leaves other user).trans (first.leaves other user)⟩

section Abandon

variable {root frame : Nat} {before start middle : Machine}

/-- Freeing a frame that no path leads to keeps the tree. -/
theorem PageTree.free_spare {machine : Machine} {phys : Nat} (tree : PageTree machine root)
    (spare : PageTree.Spare machine root phys) :
    PageTree { machine with pmm := machine.pmm.freeFrame phys } root := by
  have held := spare.taken
  refine (tree.of_same_slots { machine with pmm := machine.pmm.freeFrame phys }
    (tree.boot.freeFrame held.positive held.inside held.used)
    (PhysicalMemoryManager.freeFrame_totalFrames ..) (fun path other valid found => ?_)
    fun _ _ _ _ _ => rfl).1
  have owned := tree.taken path other valid found
  rw [PhysicalMemoryManager.testBit_freeFrame _ _ _ held.inside, if_neg]
  · exact owned.used
  · intro same
    have equal := (held.frameAddr tree.bounded).eq_of_frame (owned.frameAddr tree.bounded) same
    exact spare.absent path valid (equal ▸ found)

/-- Giving the frame back after the tree has grown in vain. -/
theorem SetAside.abandon (aside : SetAside root frame before start) (tree : PageTree before root)
    (grown : Grown root start middle) :
    Quiet root before { middle with pmm := middle.pmm.freeFrame (frame * pageSize) } := by
  have spare := (aside.spare tree).grown grown
  have inside := spare.taken.inside
  have freed (other : Nat) :
      (middle.pmm.freeFrame (frame * pageSize)).testBit other =
        if frame = other then false else middle.pmm.testBit other := by
    rw [PhysicalMemoryManager.testBit_freeFrame _ _ _ inside, mul_pageSize_div]
  have tables : ∀ addr, middle.mem addr ≠ before.mem addr → InTables before root addr := by
    intro addr changed
    by_cases outside : addr / pageSize = frame
    · exact .inl (outside ▸ aside.clear)
    have same : start.mem addr = before.mem addr :=
      Classical.byContradiction fun apart => outside (aside.startBytes addr apart)
    rcases grown.bytes addr (same ▸ changed) with clear | ⟨path, table, valid, short, found, rest⟩
    · exact .inl (aside.clear_before clear)
    · rw [aside.startViews path valid] at found
      exact .inr ⟨path, table, valid, short, found, rest⟩
  have leaves : ∀ other < userSpaceEnd, leafAt middle.mem root other = leafAt before.mem root other :=
    fun other user => (grown.leaves other user).trans (aside.startLeaves other user)
  refine ⟨⟨⟨grown.tree.free_spare spare, ?_, ?_, ?_⟩, ?_, leaves⟩, ?_⟩
  · rw [PhysicalMemoryManager.freeFrame_totalFrames, grown.total, aside.startPmm]
    exact PhysicalMemoryManager.takeFrame_totalFrames ..
  · rintro other (clear | ⟨path, valid, found⟩)
    · rw [freed] at clear
      split at clear
      · rename_i same; exact .inl (same ▸ aside.clear)
      · exact .inl (aside.clear_before (grown.clear other clear))
    · rcases grown.fresh path _ valid found with old | clear
      · rw [aside.startViews path valid] at old
        exact .inr ⟨path, valid, old⟩
      · rw [mul_pageSize_div] at clear
        exact .inl (aside.clear_before clear)
  · exact fun addr changed => reach_of_inTables tree (tables addr changed)
  · rintro other (clear | ⟨path, valid, found⟩)
    · by_cases same : frame = other
      · exact .inl (by rw [freed, if_pos same])
      · rcases grown.account other (aside.clear_start clear same) with still | owned
        · exact .inl (by rw [freed, if_neg same]; exact still)
        · exact .inr owned
    · rw [← aside.startViews path valid] at found
      exact .inr ⟨path, valid, grown.kept path _ valid found⟩
  · exact fun other user => byteAt_of_inTables tree user (leaves other user) tables

end Abandon

section MapFresh

variable {root frame virtAddr : Nat} {before start : Machine}

/-- The bytes of a spare frame lie in no table. -/
theorem PageTree.Spare.not_inTables {machine : Machine} {phys addr : Nat}
    (spare : PageTree.Spare machine root phys) (tree : PageTree machine root)
    (inside : addr / pageSize = phys / pageSize) : ¬ InTables machine root addr := by
  rintro (clear | ⟨path, table, valid, _, found, frame, _⟩)
  · rw [inside, spare.taken.used] at clear
    exact nomatch clear
  · have same := (tree.frameAddr valid found).eq_of_frame (spare.taken.frameAddr tree.bounded)
      (frame.symm.trans inside)
    exact spare.absent path valid (same ▸ found)

/-- `alloc_and_map_range` zeroes the frame before it maps it. -/
theorem mapPage_zeroFirst (tree : PageTree before root) (positive : 1 ≤ frame)
    (clear : before.pmm.testBit frame = false) (user : virtAddr < userSpaceEnd)
    (flags : PageFlags) :
    Yields (mapPage root virtAddr (frame * pageSize) flags
        ⟨zeroPhysFrame before.mem (frame * pageSize), before.pmm.takeFrame frame⟩)
      (fun _ after => FreshPage root virtAddr flags before after)
      (fun _ after => Quiet root before
          { after with pmm := after.pmm.freeFrame (frame * pageSize) } ∧
        ∀ roads : Roads virtAddr,
          before.pmm.freeFrames ≤ (missing before.mem root roads).card) := by
  have aside := SetAside.zeroed tree clear positive
  refine (mapPage_spec aside.startTree user flags).mono ?_ ?_
  · rintro _ after ⟨middle, pt, grown, reached, rfl, supplied⟩
    suffices zeroed : ∀ addr, addr / pageSize = frame →
        (writeLeaf middle pt virtAddr (leafEntry (frame * pageSize) flags)).mem addr = 0 from
      Placing.freshPage ⟨aside, user, grown, reached, rfl, fun _ changed => absurd rfl changed,
        zeroed, supplied⟩ tree
    intro addr inside
    have frameIndex : addr / pageSize = frame * pageSize / pageSize :=
      inside.trans (mul_pageSize_div frame).symm
    have spare := aside.spare tree
    have grew : middle.mem addr = zeroPhysFrame before.mem (frame * pageSize) addr :=
      Classical.byContradiction fun changed =>
        spare.not_inTables aside.startTree frameIndex (grown.bytes addr changed)
    have kept : (writeLeaf middle pt virtAddr (leafEntry (frame * pageSize) flags)).mem addr =
        middle.mem addr :=
      Classical.byContradiction fun changed =>
        (spare.grown grown).not_inTables grown.tree frameIndex
          (writeLeaf_bytes grown.tree reached user changed)
    rw [kept, grew, zeroPhysFrame_inside inside]
  · rintro _ after ⟨grown, behind⟩
    exact ⟨aside.abandon tree grown, fun roads => aside.short tree roads.valid (behind roads)⟩

/-- `mmap_allocate` maps the frame before it zeroes it. -/
theorem placing_zeroLast {pt : Nat} {middle : Machine} (tree : PageTree before root)
    (positive : 1 ≤ frame) (clear : before.pmm.testBit frame = false)
    (user : virtAddr < userSpaceEnd) {flags : PageFlags}
    (grown : Grown root { before with pmm := before.pmm.takeFrame frame } middle)
    (reached : view middle.mem root (tablePath virtAddr) = some pt)
    (supplied : ∀ roads : Roads virtAddr,
      Supplied root roads { before with pmm := before.pmm.takeFrame frame } middle) :
    Placing root virtAddr frame pt flags before { before with pmm := before.pmm.takeFrame frame }
      middle { middle with
        mem := zeroPhysFrame (writeLeaf middle pt virtAddr (leafEntry (frame * pageSize) flags)).mem
          (frame * pageSize) } :=
  ⟨SetAside.plain tree clear positive, user, grown, reached, rfl,
    fun _ changed => (zeroPhysFrame_within (Nat.mul_mod_left ..) changed).trans
      (mul_pageSize_div frame),
    fun _ inside => zeroPhysFrame_inside inside, supplied⟩

theorem mapPage_zeroLast (tree : PageTree before root) (positive : 1 ≤ frame)
    (clear : before.pmm.testBit frame = false) (user : virtAddr < userSpaceEnd)
    (flags : PageFlags) :
    Yields (mapPage root virtAddr (frame * pageSize) flags
        { before with pmm := before.pmm.takeFrame frame })
      (fun _ after => FreshPage root virtAddr flags before
        { after with mem := zeroPhysFrame after.mem (frame * pageSize) })
      (fun _ after => Quiet root before
          { after with pmm := after.pmm.freeFrame (frame * pageSize) } ∧
        ∀ roads : Roads virtAddr,
          before.pmm.freeFrames ≤ (missing before.mem root roads).card) := by
  have aside := SetAside.plain tree clear positive
  refine (mapPage_spec aside.startTree user flags).mono ?_ ?_
  · rintro _ after ⟨middle, pt, grown, reached, rfl, supplied⟩
    exact (placing_zeroLast tree positive clear user grown reached supplied).freshPage tree
  · rintro _ after ⟨grown, behind⟩
    exact ⟨aside.abandon tree grown, fun roads => aside.short tree roads.valid (behind roads)⟩

end MapFresh

/-- A page has gone, and its frame is free. -/
structure Unmapped (root virtAddr : Nat) (before after : Machine) : Prop where
  change : Change root before after
  balanced : Balanced root before after
  leaves : ∀ other < userSpaceEnd, leafAt after.mem root other =
    if other / pageSize = virtAddr / pageSize then none else leafAt before.mem root other
  bytes : ∀ other < userSpaceEnd, byteAt after root other =
    if other / pageSize = virtAddr / pageSize then none else byteAt before root other

section Unmap

variable {root virtAddr : Nat} {before : Machine}

theorem same_page {other : Nat} (user : virtAddr < userSpaceEnd) (otherUser : other < userSpaceEnd)
    (same : other / pageSize = virtAddr / pageSize) (mem : Memory) :
    leafAt mem root other = leafAt mem root virtAddr := by
  have paths := (pathOf_eq_iff otherUser user).mpr same
  simp only [pathOf, List.cons.injEq, and_true] at paths
  rw [leafAt_eq, leafAt_eq, tablePath, tablePath, leafIndex, leafIndex, paths.1, paths.2.1,
    paths.2.2.1, paths.2.2.2]

/-- An absent page needs no unmapping. -/
theorem unmapPage_absent (tree : PageTree before root) (user : virtAddr < userSpaceEnd)
    (absent : leafAt before.mem root virtAddr = none) : Unmapped root virtAddr before before := by
  have gone (other : Nat) (otherUser : other < userSpaceEnd)
      (same : other / pageSize = virtAddr / pageSize) : leafAt before.mem root other = none :=
    (same_page user otherUser same _).trans absent
  refine ⟨Change.refl tree, fun _ held => held, ?_, ?_⟩
  · intro other otherUser
    split
    · rename_i same; exact gone other otherUser same
    · rfl
  · intro other otherUser
    split
    · rename_i same; rw [byteAt_eq, gone other otherUser same]; rfl
    · rfl

/-- A present page loses its leaf and its frame goes back to the allocator. -/
theorem unmapPage_present {pt : Nat} (tree : PageTree before root) (user : virtAddr < userSpaceEnd)
    (reached : view before.mem root (tablePath virtAddr) = some pt) {entry : BitVec 64}
    (present : leafAt before.mem root virtAddr = some entry) :
    Unmapped root virtAddr before
      { writeLeaf before pt virtAddr 0 with pmm := before.pmm.freeFrame (ptePhys entry) } := by
  have valid := pathOf_valid user
  have mapped : view before.mem root (pathOf virtAddr) = some (ptePhys entry) := by
    rw [view_pathOf, present]; rfl
  have held := tree.taken _ _ valid mapped
  have cut : PageTree (writeLeaf before pt virtAddr 0) root :=
    writeLeaf_tree tree reached user fun next found => nomatch found
  have views : ∀ path, UserPath path → view (writeLeaf before pt virtAddr 0).mem root path =
      if path = pathOf virtAddr then none else view before.mem root path :=
    fun path pathValid => view_writeLeaf tree reached user pathValid
  have spare : PageTree.Spare (writeLeaf before pt virtAddr 0) root (ptePhys entry) := by
    refine ⟨held, fun path pathValid found => ?_⟩
    rw [views path pathValid] at found
    split at found
    · exact nomatch found
    · rename_i apart
      exact apart (tree.unique pathValid valid found mapped)
  have freed (frame : Nat) : (before.pmm.freeFrame (ptePhys entry)).testBit frame =
      if ptePhys entry / pageSize = frame then false else before.pmm.testBit frame :=
    PhysicalMemoryManager.testBit_freeFrame _ _ _ held.inside
  have tables : ∀ addr, (writeLeaf before pt virtAddr 0).mem addr ≠ before.mem addr →
      InTables before root addr := fun addr changed => writeLeaf_bytes tree reached user changed
  have leaves : ∀ other < userSpaceEnd, leafAt (writeLeaf before pt virtAddr 0).mem root other =
      if other / pageSize = virtAddr / pageSize then none else leafAt before.mem root other :=
    fun other otherUser => leafAt_writeLeaf tree.over reached user otherUser
  refine ⟨⟨cut.free_spare spare, PhysicalMemoryManager.freeFrame_totalFrames .., ?_,
    fun addr changed => reach_of_inTables tree (tables addr changed)⟩, ?_, leaves, ?_⟩
  · rintro frame (clear | ⟨path, pathValid, found⟩)
    · rw [freed] at clear
      split at clear
      · rename_i same
        refine .inr ⟨pathOf virtAddr, valid, ?_⟩
        rw [mapped, ← same, div_pageSize_mul held.aligned]
      · exact .inl clear
    · change view (writeLeaf before pt virtAddr 0).mem root path = _ at found
      rw [views path pathValid] at found
      split at found
      · exact nomatch found
      · exact .inr ⟨path, pathValid, found⟩
  · rintro frame (clear | ⟨path, pathValid, found⟩)
    · refine .inl ?_
      rw [freed]
      split
      · rfl
      · exact clear
    · by_cases same : path = pathOf virtAddr
      · refine .inl ?_
        rw [same, mapped] at found
        rw [freed, if_pos]
        rw [Option.some.inj found, mul_pageSize_div]
      · refine .inr ⟨path, pathValid, ?_⟩
        change view (writeLeaf before pt virtAddr 0).mem root path = _
        rw [views path pathValid, if_neg same, found]
  · intro other otherUser
    by_cases same : other / pageSize = virtAddr / pageSize
    · rw [if_pos same, byteAt_eq]
      change Option.map _ (leafAt (writeLeaf before pt virtAddr 0).mem root other) = none
      rw [leaves other otherUser, if_pos same]
      rfl
    · rw [if_neg same]
      refine byteAt_of_inTables tree otherUser ?_ tables
      exact (leaves other otherUser).trans (if_neg same)

theorem unmapPage_spec (tree : PageTree before root) (user : virtAddr < userSpaceEnd) :
    Unmapped root virtAddr before (VmSpace.unmapPage root virtAddr before) := by
  rw [VmSpace.unmapPage, unmapPage, leafTable_eq]
  cases reached : view before.mem root (tablePath virtAddr) with
  | none =>
    refine unmapPage_absent tree user ?_
    rw [leafAt_eq, reached]; rfl
  | some pt =>
    simp only [Option.map_some]
    by_cases present : isPresent (entryAt before.mem pt (leafIndex virtAddr)) = true
    · rw [if_pos present]
      refine unmapPage_present tree user reached ?_
      rw [leafAt_eq, reached, Option.bind_some, if_pos present]
    · rw [if_neg present]
      refine unmapPage_absent tree user ?_
      rw [leafAt_eq, reached, Option.bind_some, if_neg present]

end Unmap

/-- A page keeps its frame and its bytes and gets new flags. -/
structure Reflagged (root virtAddr : Nat) (flags : PageFlags) (before after : Machine) : Prop where
  change : Change root before after
  balanced : Balanced root before after
  leaves : ∀ other < userSpaceEnd, leafAt after.mem root other =
    if other / pageSize = virtAddr / pageSize then
      (leafAt before.mem root other).map fun entry => leafEntry (ptePhys entry) flags
    else leafAt before.mem root other
  bytes : ∀ other < userSpaceEnd, byteAt after root other = byteAt before root other

section Protect

variable {root virtAddr : Nat} {before : Machine}

theorem setPageFlags_absent (tree : PageTree before root) (user : virtAddr < userSpaceEnd)
    (absent : leafAt before.mem root virtAddr = none) (flags : PageFlags) :
    Reflagged root virtAddr flags before before := by
  refine ⟨Change.refl tree, fun _ held => held, ?_, fun _ _ => rfl⟩
  intro other otherUser
  split
  · rename_i same; rw [same_page user otherUser same, absent]; rfl
  · rfl

theorem setPageFlags_present {pt : Nat} (tree : PageTree before root)
    (user : virtAddr < userSpaceEnd)
    (reached : view before.mem root (tablePath virtAddr) = some pt) {entry : BitVec 64}
    (present : leafAt before.mem root virtAddr = some entry) (flags : PageFlags) :
    Reflagged root virtAddr flags before
      (writeLeaf before pt virtAddr (leafEntry (ptePhys entry) flags)) := by
  have valid := pathOf_valid user
  have mapped : view before.mem root (pathOf virtAddr) = some (ptePhys entry) := by
    rw [view_pathOf, present]; rfl
  have held := tree.taken _ _ valid mapped
  have addr := held.frameAddr tree.bounded
  have decoded : PageTree.decode (leafEntry (ptePhys entry) flags) = some (ptePhys entry) := by
    rw [PageTree.decode, addr.isPresent_leafEntry, addr.ptePhys_leafEntry]; rfl
  have rewritten : PageTree (writeLeaf before pt virtAddr (leafEntry (ptePhys entry) flags)) root := by
    refine writeLeaf_tree tree reached user fun next found => ?_
    obtain rfl := Option.some.inj (decoded.symm.trans found)
    exact ⟨held, fun query queryValid apart again =>
      apart (tree.unique queryValid valid again mapped)⟩
  have views : ∀ path, UserPath path →
      view (writeLeaf before pt virtAddr (leafEntry (ptePhys entry) flags)).mem root path =
        view before.mem root path := by
    intro path pathValid
    rw [view_writeLeaf tree reached user pathValid, decoded]
    split
    · rename_i same; rw [same, mapped]
    · rfl
  have owned (frame : Nat) :
      Owned (writeLeaf before pt virtAddr (leafEntry (ptePhys entry) flags)) root frame ↔
        Owned before root frame := by
    constructor
    · rintro ⟨path, pathValid, found⟩
      exact ⟨path, pathValid, (views path pathValid).symm.trans found⟩
    · rintro ⟨path, pathValid, found⟩
      exact ⟨path, pathValid, (views path pathValid).trans found⟩
  have tables : ∀ addr, (writeLeaf before pt virtAddr (leafEntry (ptePhys entry) flags)).mem addr ≠
      before.mem addr → InTables before root addr :=
    fun addr changed => writeLeaf_bytes tree reached user changed
  have leaves : ∀ other < userSpaceEnd,
      leafAt (writeLeaf before pt virtAddr (leafEntry (ptePhys entry) flags)).mem root other =
        if other / pageSize = virtAddr / pageSize then some (leafEntry (ptePhys entry) flags)
        else leafAt before.mem root other := by
    intro other otherUser
    rw [leafAt_writeLeaf tree.over reached user otherUser, addr.isPresent_leafEntry]
    rfl
  refine ⟨⟨rewritten, rfl, ?_, fun addr changed => reach_of_inTables tree (tables addr changed)⟩,
    ?_, ?_, ?_⟩
  · exact fun frame held => held.imp id (owned frame).mp
  · exact fun frame held => held.imp id (owned frame).mpr
  · intro other otherUser
    rw [leaves other otherUser]
    split
    · rename_i same; rw [same_page user otherUser same, present]; rfl
    · rfl
  · intro other otherUser
    by_cases same : other / pageSize = virtAddr / pageSize
    · have old : leafAt before.mem root other = some entry :=
        (same_page user otherUser same _).trans present
      have reachedOther : view before.mem root (pathOf other) = some (ptePhys entry) := by
        rw [view_pathOf, old]; rfl
      rw [byteAt_eq, byteAt_eq, leaves other otherUser, if_pos same, old, Option.map_some,
        Option.map_some, addr.ptePhys_leafEntry]
      congr 1
      apply Classical.byContradiction
      intro changed
      exact not_inTables tree otherUser reachedOther (frame_of_offset held.aligned)
        (tables _ changed)
    · exact byteAt_of_inTables tree otherUser ((leaves other otherUser).trans (if_neg same)) tables

theorem setPageFlags_spec (tree : PageTree before root) (user : virtAddr < userSpaceEnd)
    (flags : PageFlags) : Reflagged root virtAddr flags before
      { before with mem := setPageFlags before.mem root virtAddr flags } := by
  rw [setPageFlags, leafTable_eq]
  cases reached : view before.mem root (tablePath virtAddr) with
  | none =>
    refine setPageFlags_absent tree user ?_ flags
    rw [leafAt_eq, reached]; rfl
  | some pt =>
    simp only [Option.map_some]
    by_cases present : isPresent (entryAt before.mem pt (leafIndex virtAddr)) = true
    · rw [if_pos present]
      refine setPageFlags_present tree user reached ?_ flags
      rw [leafAt_eq, reached, Option.bind_some, if_pos present]
    · rw [if_neg present]
      refine setPageFlags_absent tree user ?_ flags
      rw [leafAt_eq, reached, Option.bind_some, if_neg present]

end Protect

section Store

variable {root virtAddr : Nat} {before : Machine} {data : List Byte}

theorem store_within {mem : Memory} {phys addr : Nat} (aligned : phys % pageSize = 0)
    (fits : virtAddr % pageSize + data.length ≤ pageSize)
    (changed : mem.store (phys + virtAddr % pageSize) data addr ≠ mem addr) :
    addr / pageSize = phys / pageSize := by
  have inside : phys + virtAddr % pageSize ≤ addr ∧
      addr < phys + virtAddr % pageSize + data.length := by
    apply Classical.byContradiction
    intro outside
    apply changed
    rw [Memory.store, Memory.patch_outside outside]
  simp only [pageSize] at *
  omega

/-- A store inside one page. -/
theorem store_spec (tree : PageTree before root) (user : virtAddr < userSpaceEnd)
    {entry : BitVec 64} (present : leafAt before.mem root virtAddr = some entry)
    (fits : virtAddr % pageSize + data.length ≤ pageSize) :
    Stored root virtAddr data before { before with
      mem := before.mem.store (ptePhys entry + virtAddr % pageSize) data } := by
  have valid := pathOf_valid user
  have mapped : view before.mem root (pathOf virtAddr) = some (ptePhys entry) := by
    rw [view_pathOf, present]; rfl
  have held := tree.taken _ _ valid mapped
  have frameAddr := held.frameAddr tree.bounded
  have noTable : ∀ path, UserPath path → path.length ≤ 3 →
      view before.mem root path ≠ some (ptePhys entry) := by
    intro path pathValid short found
    have same := tree.unique pathValid valid found mapped
    rw [same] at short
    simp [pathOf] at short
  have within : ∀ addr, before.mem.store (ptePhys entry + virtAddr % pageSize) data addr ≠
      before.mem addr → addr / pageSize = ptePhys entry / pageSize :=
    fun addr changed => store_within held.aligned fits changed
  obtain ⟨stored, views⟩ := tree.patchFrame _ frameAddr noTable within
  have leaves : ∀ other < userSpaceEnd,
      leafAt (before.mem.store (ptePhys entry + virtAddr % pageSize) data) root other =
        leafAt before.mem root other :=
    fun other otherUser => leafAt_patchFrame tree frameAddr noTable within otherUser
  refine ⟨⟨⟨stored, rfl, ?_, ?_⟩, ?_, leaves⟩, ?_⟩
  · rintro frame (clear | ⟨path, pathValid, found⟩)
    · exact .inl clear
    · exact .inr ⟨path, pathValid, (views path pathValid).symm.trans found⟩
  · intro addr changed
    exact .inr (.inl ⟨pathOf virtAddr, _, valid, by simp [pathOf], mapped, within addr changed⟩)
  · rintro frame (clear | ⟨path, pathValid, found⟩)
    · exact .inl clear
    · exact .inr ⟨path, pathValid, (views path pathValid).trans found⟩
  · intro other otherUser
    rw [byteAt_eq, leaves other otherUser]
    by_cases same : other / pageSize = virtAddr / pageSize
    · have found : leafAt before.mem root other = some entry :=
        (same_page user otherUser same _).trans present
      rw [byteAt_eq, found, Option.map_some, Option.map_some]
      by_cases inside : virtAddr ≤ other ∧ other < virtAddr + data.length
      · have offset : ptePhys entry + other % pageSize - (ptePhys entry + virtAddr % pageSize) =
            other - virtAddr := by
          simp only [pageSize] at *
          omega
        have within : ptePhys entry + virtAddr % pageSize ≤ ptePhys entry + other % pageSize ∧
            ptePhys entry + other % pageSize < ptePhys entry + virtAddr % pageSize + data.length := by
          simp only [pageSize] at *
          omega
        have bound : other - virtAddr < data.length := by omega
        rw [if_pos inside]
        change some (before.mem.store _ data _) = _
        rw [Memory.store, Memory.patch_inside within, offset, List.getElem?_eq_getElem bound,
          List.getD_eq_getElem?_getD, List.getElem?_eq_getElem bound, Option.getD_some]
      · have outside : ¬ (ptePhys entry + virtAddr % pageSize ≤ ptePhys entry + other % pageSize ∧
            ptePhys entry + other % pageSize < ptePhys entry + virtAddr % pageSize + data.length) := by
          simp only [pageSize] at *
          omega
        rw [if_neg inside]
        change some (before.mem.store _ data _) = _
        rw [Memory.store, Memory.patch_outside outside]
    · have outside : ¬ (virtAddr ≤ other ∧ other < virtAddr + data.length) := by
        simp only [pageSize] at *
        omega
      rw [if_neg outside, byteAt_eq]
      cases found : leafAt before.mem root other with
      | none => rfl
      | some other' =>
        have reached : view before.mem root (pathOf other) = some (ptePhys other') := by
          rw [view_pathOf, found]; rfl
        have otherHeld := tree.taken _ _ (pathOf_valid otherUser) reached
        simp only [Option.map_some, Option.some.injEq]
        apply Classical.byContradiction
        intro changed
        have frames := within _ changed
        rw [frame_of_offset otherHeld.aligned] at frames
        have equal := (otherHeld.frameAddr tree.bounded).eq_of_frame frameAddr frames
        have paths := tree.unique (pathOf_valid otherUser) valid reached (equal ▸ mapped)
        exact same ((pathOf_eq_iff otherUser user).mp paths)

end Store

end RustPosix.Mm
