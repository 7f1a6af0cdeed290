import RustPosix.Mm.PmmInvariant
import RustPosix.Mm.VmSpace

/-! `pmm_init` of `ostd/mm/pmm.rs`: the bitmap is placed in the first usable region that can
hold it, filled from the memory map, and takes itself and frame 0 out. -/

namespace RustPosix.Mm

open Library PhysicalMemoryManager

/-- An entry of the memory map; `typ` is kept as whether it says `LIMINE_MEMMAP_USABLE`. -/
structure MemmapEntry where
  base : Nat
  length : Nat
  usable : Bool
  deriving DecidableEq, Repr

namespace MemmapEntry

def top (entry : MemmapEntry) : Nat := entry.base + entry.length

def startFrame (entry : MemmapEntry) : Nat := entry.base / pageSize

def frameCount (entry : MemmapEntry) : Nat := entry.length / pageSize

end MemmapEntry

def divCeil (a b : Nat) : Nat := (a + b - 1) / b

/-- The first loop: the usable bytes and the highest address. The sums panic when they do
not fit. -/
def scanMemmap : List MemmapEntry → Nat → Nat → Option (Nat × Nat)
  | [], totalBytes, highestAddr => some (totalBytes, highestAddr)
  | entry :: rest, totalBytes, highestAddr =>
    if entry.usable then do
      let totalBytes ← checkedAdd totalBytes entry.length
      let top ← checkedAdd entry.base entry.length
      scanMemmap rest totalBytes (if top > highestAddr then top else highestAddr)
    else scanMemmap rest totalBytes highestAddr

/-- The second loop stops at the first region that is large enough. -/
def bitmapRegion (entries : List MemmapEntry) (bitmapSize : Nat) : Option MemmapEntry :=
  entries.find? fun entry => entry.usable && decide (entry.length ≥ bitmapSize)

/-- One frame of a usable region. -/
def releaseFrame (manager : PhysicalMemoryManager) (f : Nat) : PhysicalMemoryManager :=
  { manager.setBit f false with freeFrames := manager.freeFrames + 1 }

/-- The third loop. -/
def releaseUsable (entries : List MemmapEntry) (manager : PhysicalMemoryManager) :
    PhysicalMemoryManager :=
  entries.foldl (fun manager entry =>
    if entry.usable then
      (List.range' entry.startFrame entry.frameCount).foldl releaseFrame manager
    else manager) manager

/-- One frame of the bitmap. -/
def reserveFrame (manager : PhysicalMemoryManager) (f : Nat) : PhysicalMemoryManager :=
  { manager.setBit f true with freeFrames := manager.freeFrames - 1 }

/-- The manager, and where its bitmap lies. -/
structure PmmBoot where
  manager : PhysicalMemoryManager
  bitmapAddr : Nat
  bitmapSize : Nat
  totalBytes : Nat

/-- None is a panic. `stale` is what the memory behind the bitmap held before. -/
def pmmInit (stale : Nat → BitVec 8) (entries : List MemmapEntry) (hhdmOffset : Nat) :
    Option PmmBoot := do
  let (totalBytes, highestAddr) ← scanMemmap entries 0 0
  let totalFrames := divCeil highestAddr pageSize
  let bitmapSize := divCeil totalFrames 8
  let bitmapAddr := ((bitmapRegion entries bitmapSize).map MemmapEntry.base).getD 0
  let _bitmapPtr ← checkedAdd bitmapAddr hhdmOffset
  let manager : PhysicalMemoryManager :=
    { bitmap := fun idx => if idx < bitmapSize then 0xFF else stale idx
      totalFrames
      freeFrames := 0
      lastFrame := 1 }
  let manager := releaseUsable entries manager
  -- Frame 0 is marked as used without being counted.
  let manager := manager.setBit 0 true
  let bitmapStartFrame := bitmapAddr / pageSize
  let bitmapFrameCount := divCeil bitmapSize pageSize
  let manager := (List.range' bitmapStartFrame bitmapFrameCount).foldl reserveFrame manager
  pure ⟨manager, bitmapAddr, bitmapSize, totalBytes⟩

/-- What the bootloader promises: usable regions consist of whole pages and share no address. -/
structure MemmapValid (entries : List MemmapEntry) : Prop where
  aligned : ∀ entry ∈ entries, entry.usable → entry.base % pageSize = 0 ∧ entry.length % pageSize = 0
  apart : entries.Pairwise fun first second => first.usable → second.usable →
    ∀ addr, ¬ ((first.base ≤ addr ∧ addr < first.top) ∧ second.base ≤ addr ∧ addr < second.top)

/-- The page with the given number lies in a usable region. -/
def InUsable (entries : List MemmapEntry) (frame : Nat) : Prop :=
  ∃ entry ∈ entries, entry.usable ∧ entry.base ≤ frame * pageSize ∧
    frame * pageSize + pageSize ≤ entry.top

/-- Some byte of the bitmap lies in the page. -/
def PmmBoot.InStorage (boot : PmmBoot) (frame : Nat) : Prop :=
  frame * pageSize < boot.bitmapAddr + boot.bitmapSize ∧
    boot.bitmapAddr < frame * pageSize + pageSize

structure PmmBoot.Consistent (entries : List MemmapEntry) (boot : PmmBoot) : Prop where
  counted : boot.manager.freeFrames = boot.manager.clearFrames.card
  clear_iff : ∀ frame, boot.manager.testBit frame = false ↔
    InUsable entries frame ∧ frame ≠ 0 ∧ ¬ boot.InStorage frame
  storage : ∃ entry ∈ entries, entry.usable ∧ entry.base ≤ boot.bitmapAddr ∧
    boot.bitmapAddr + boot.bitmapSize ≤ entry.top

section Loops

variable {manager : PhysicalMemoryManager} {entries : List MemmapEntry}

theorem setBit_freeFrames (f : Nat) (used : Bool) :
    (manager.setBit f used).freeFrames = manager.freeFrames := by
  unfold setBit; split <;> rfl

theorem releaseFrames_spec (count : Nat) : ∀ {start : Nat} {manager : PhysicalMemoryManager},
    let after := (List.range' start count).foldl releaseFrame manager
    after.totalFrames = manager.totalFrames ∧ after.lastFrame = manager.lastFrame ∧
      after.freeFrames = manager.freeFrames + count ∧
      ∀ f, after.testBit f = false ↔ manager.testBit f = false ∨
        f < manager.totalFrames ∧ start ≤ f ∧ f < start + count := by
  induction count with
  | zero =>
    intro start manager
    refine ⟨rfl, rfl, rfl, fun f => ⟨.inl, ?_⟩⟩
    rintro (clear | range)
    · exact clear
    · omega
  | succ count ih =>
    intro start manager
    obtain ⟨total, last, free, bits⟩ := @ih (start + 1) (releaseFrame manager start)
    rw [List.range'_succ, List.foldl_cons]
    refine ⟨total.trans (setBit_totalFrames ..), last.trans (setBit_lastFrame ..), ?_, fun f => ?_⟩
    · rw [free]
      change manager.freeFrames + 1 + count = _
      omega
    · have here : (releaseFrame manager start).testBit f = (manager.setBit start false).testBit f := rfl
      have size : (releaseFrame manager start).totalFrames = manager.totalFrames :=
        setBit_totalFrames ..
      rw [bits, here, testBit_setBit, size]
      by_cases first : start = f ∧ start < manager.totalFrames
      · rw [if_pos first]
        exact ⟨fun _ => .inr (by omega), fun _ => .inl rfl⟩
      · rw [if_neg first]
        refine or_congr Iff.rfl ?_
        omega

theorem reserveFrames_spec (count : Nat) : ∀ {start : Nat} {manager : PhysicalMemoryManager},
    let after := (List.range' start count).foldl reserveFrame manager
    after.totalFrames = manager.totalFrames ∧ after.lastFrame = manager.lastFrame ∧
      after.freeFrames = manager.freeFrames - count ∧
      ∀ f, after.testBit f = false ↔
        manager.testBit f = false ∧ ¬ (start ≤ f ∧ f < start + count) := by
  induction count with
  | zero =>
    intro start manager
    exact ⟨rfl, rfl, rfl, fun f => ⟨fun clear => ⟨clear, fun inside => by omega⟩, And.left⟩⟩
  | succ count ih =>
    intro start manager
    obtain ⟨total, last, free, bits⟩ := @ih (start + 1) (reserveFrame manager start)
    rw [List.range'_succ, List.foldl_cons]
    refine ⟨total.trans (setBit_totalFrames ..), last.trans (setBit_lastFrame ..), ?_, fun f => ?_⟩
    · rw [free]
      change manager.freeFrames - 1 - count = _
      omega
    · have here : (reserveFrame manager start).testBit f = (manager.setBit start true).testBit f := rfl
      rw [bits, here, testBit_setBit]
      by_cases first : start = f ∧ start < manager.totalFrames
      · rw [if_pos first]
        refine ⟨fun both => (Bool.true_eq_false_eq_False both.1).elim, fun both => ?_⟩
        omega
      · rw [if_neg first]
        refine and_congr_right fun clear => not_congr ?_
        have inside := lt_of_clear clear
        omega

/-- The frames of a region. -/
def MemmapEntry.frames (entry : MemmapEntry) : Finset Nat :=
  Finset.Ico entry.startFrame (entry.startFrame + entry.frameCount)

/-- All values that the usable regions of a map have. -/
def gather (values : MemmapEntry → Finset Nat) (entries : List MemmapEntry) : Finset Nat :=
  (entries.filter MemmapEntry.usable).foldr (fun entry rest => values entry ∪ rest) ∅

theorem gather_cons_pos {values : MemmapEntry → Finset Nat} {entry : MemmapEntry}
    (usable : entry.usable) :
    gather values (entry :: entries) = values entry ∪ gather values entries := by
  rw [gather, List.filter_cons_of_pos usable]
  rfl

theorem gather_cons_neg {values : MemmapEntry → Finset Nat} {entry : MemmapEntry}
    (unusable : ¬ entry.usable) : gather values (entry :: entries) = gather values entries := by
  rw [gather, List.filter_cons_of_neg unusable]
  rfl

theorem mem_gather {values : MemmapEntry → Finset Nat} {value : Nat} :
    value ∈ gather values entries ↔ ∃ entry ∈ entries, entry.usable ∧ value ∈ values entry := by
  induction entries with
  | nil => simp [gather]
  | cons entry rest ih =>
    by_cases usable : entry.usable
    · rw [gather_cons_pos usable, Finset.mem_union, ih]
      simp [usable]
    · rw [gather_cons_neg usable, ih]
      simp [usable]

/-- Disjoint regions are counted one by one. -/
theorem card_gather {values : MemmapEntry → Finset Nat}
    (apart : entries.Pairwise fun first second => first.usable → second.usable →
      Disjoint (values first) (values second)) :
    (gather values entries).card =
      ((entries.filter MemmapEntry.usable).map fun entry => (values entry).card).sum := by
  induction entries with
  | nil => rfl
  | cons entry rest ih =>
    obtain ⟨first, others⟩ := List.pairwise_cons.mp apart
    have later := ih others
    by_cases usable : entry.usable
    · have disjoint : Disjoint (values entry) (gather values rest) := by
        rw [Finset.disjoint_left]
        intro value here there
        obtain ⟨other, listed, otherUsable, member⟩ := mem_gather.mp there
        exact Finset.disjoint_left.mp (first other listed usable otherUsable) here member
      rw [gather_cons_pos usable, Finset.card_union_of_disjoint disjoint, later, List.filter_cons_of_pos usable,
        List.map_cons, List.sum_cons]
    · rw [gather_cons_neg usable, later, List.filter_cons_of_neg usable]

def usableFrames (entries : List MemmapEntry) : Finset Nat := gather MemmapEntry.frames entries

/-- The number of frames that the third loop counts. -/
def releasedCount (entries : List MemmapEntry) : Nat :=
  ((entries.filter MemmapEntry.usable).map MemmapEntry.frameCount).sum

theorem releaseUsable_spec (entries : List MemmapEntry) : ∀ {manager : PhysicalMemoryManager},
    (releaseUsable entries manager).totalFrames = manager.totalFrames ∧
      (releaseUsable entries manager).lastFrame = manager.lastFrame ∧
      (releaseUsable entries manager).freeFrames = manager.freeFrames + releasedCount entries ∧
      ∀ f, (releaseUsable entries manager).testBit f = false ↔ manager.testBit f = false ∨
        f < manager.totalFrames ∧ f ∈ usableFrames entries := by
  induction entries with
  | nil =>
    intro manager
    refine ⟨rfl, rfl, rfl, fun f => ⟨.inl, ?_⟩⟩
    rintro (clear | ⟨_, member⟩)
    · exact clear
    · exact absurd member (Finset.notMem_empty f)
  | cons entry rest ih =>
    intro manager
    rw [releaseUsable, List.foldl_cons]
    by_cases usable : entry.usable
    · rw [if_pos usable]
      obtain ⟨total, last, free, bits⟩ :=
        @releaseFrames_spec entry.frameCount entry.startFrame manager
      obtain ⟨restTotal, restLast, restFree, restBits⟩ := @ih
        ((List.range' entry.startFrame entry.frameCount).foldl releaseFrame manager)
      refine ⟨restTotal.trans total, restLast.trans last, ?_, fun f => ?_⟩
      · rw [releasedCount, List.filter_cons_of_pos usable, List.map_cons, List.sum_cons]
        refine restFree.trans ?_
        rw [free, Nat.add_assoc]
        rfl
      · refine (restBits f).trans ?_
        rw [bits, total, or_assoc, ← and_or_left]
        refine or_congr Iff.rfl (and_congr_right fun _ => ?_)
        rw [usableFrames, usableFrames, gather_cons_pos usable, Finset.mem_union,
          MemmapEntry.frames, Finset.mem_Ico]
    · rw [if_neg usable]
      obtain ⟨restTotal, restLast, restFree, restBits⟩ := @ih manager
      refine ⟨restTotal, restLast, ?_, fun f => ?_⟩
      · rw [releasedCount, List.filter_cons_of_neg usable]
        exact restFree
      · rw [usableFrames, gather_cons_neg usable]
        exact restBits f

end Loops

section Scan

variable {entries : List MemmapEntry}

/-- The end of the highest usable region. -/
def highestTop (entries : List MemmapEntry) : Nat :=
  ((entries.filter MemmapEntry.usable).map MemmapEntry.top).foldr max 0

theorem top_le_highestTop {entry : MemmapEntry} (listed : entry ∈ entries)
    (usable : entry.usable) : entry.top ≤ highestTop entries := by
  have member : entry.top ∈ (entries.filter MemmapEntry.usable).map MemmapEntry.top :=
    List.mem_map_of_mem (List.mem_filter.mpr ⟨listed, usable⟩)
  rw [highestTop]
  generalize (entries.filter MemmapEntry.usable).map MemmapEntry.top = tops at member
  induction tops with
  | nil => exact absurd member List.not_mem_nil
  | cons first rest ih =>
    rw [List.foldr_cons]
    rcases List.mem_cons.mp member with rfl | later
    · exact Nat.le_max_left ..
    · exact Nat.le_trans (ih later) (Nat.le_max_right ..)

def usableBytes (entries : List MemmapEntry) : Nat :=
  ((entries.filter MemmapEntry.usable).map MemmapEntry.length).sum

theorem scanMemmap_some (small : ∀ entry ∈ entries, entry.usable → entry.top < 2 ^ 64) :
    ∀ {totalBytes highest : Nat}, totalBytes + usableBytes entries < 2 ^ 64 →
    scanMemmap entries totalBytes highest =
      some (totalBytes + usableBytes entries, max (highestTop entries) highest) := by
  induction entries with
  | nil =>
    intro totalBytes highest _
    rw [scanMemmap, usableBytes, highestTop]
    simp
  | cons entry rest ih =>
    intro totalBytes highest fits
    replace ih := @ih fun other listed => small other (List.mem_cons_of_mem _ listed)
    by_cases usable : entry.usable
    · have here := small entry (List.mem_cons_self ..) usable
      have split : usableBytes (entry :: rest) = entry.length + usableBytes rest := by
        rw [usableBytes, List.filter_cons_of_pos usable, List.map_cons, List.sum_cons, usableBytes]
      have tops : highestTop (entry :: rest) = max entry.top (highestTop rest) := by
        rw [highestTop, List.filter_cons_of_pos usable, List.map_cons, List.foldr_cons, highestTop]
      rw [split] at fits
      rw [MemmapEntry.top] at here tops
      rw [scanMemmap, if_pos usable, checkedAdd, if_pos (by omega), Option.bind_eq_bind,
        Option.bind_some, checkedAdd, if_pos here, Option.bind_some, ih (by omega), split, tops]
      congr 2
      · omega
      · split <;> omega
    · have split : usableBytes (entry :: rest) = usableBytes rest := by
        rw [usableBytes, List.filter_cons_of_neg usable, usableBytes]
      have tops : highestTop (entry :: rest) = highestTop rest := by
        rw [highestTop, List.filter_cons_of_neg usable, highestTop]
      rw [split] at fits
      rw [scanMemmap, if_neg usable, ih fits, split, tops]

theorem small_of_scanMemmap : ∀ {entries : List MemmapEntry} {totalBytes highest : Nat}
    {result : Nat × Nat}, scanMemmap entries totalBytes highest = some result →
    ∀ entry ∈ entries, entry.usable → entry.top < 2 ^ 64
  | [], _, _, _, _, _, listed, _ => absurd listed List.not_mem_nil
  | first :: rest, totalBytes, highest, result, scanned, entry, listed, usable => by
    rw [scanMemmap] at scanned
    by_cases firstUsable : first.usable
    · rw [if_pos firstUsable] at scanned
      obtain ⟨sum, _, scanned⟩ := Option.bind_eq_some_iff.mp scanned
      obtain ⟨top, fits, scanned⟩ := Option.bind_eq_some_iff.mp scanned
      rcases List.mem_cons.mp listed with rfl | later
      · exact (checkedAdd_eq_some.mp fits).1
      · exact small_of_scanMemmap scanned entry later usable
    · rw [if_neg firstUsable] at scanned
      rcases List.mem_cons.mp listed with rfl | later
      · exact absurd usable firstUsable
      · exact small_of_scanMemmap scanned entry later usable

end Scan

section Boot

variable {stale : Nat → BitVec 8} {entries : List MemmapEntry} {hhdmOffset : Nat} {boot : PmmBoot}

def bitmapBytes (entries : List MemmapEntry) : Nat :=
  divCeil (divCeil (highestTop entries) pageSize) 8

def bitmapBase (entries : List MemmapEntry) : Nat :=
  ((bitmapRegion entries (bitmapBytes entries)).map MemmapEntry.base).getD 0

theorem MemmapEntry.mem_frames {entry : MemmapEntry} {frame : Nat}
    (aligned : entry.base % pageSize = 0 ∧ entry.length % pageSize = 0) :
    frame ∈ entry.frames ↔
      entry.base ≤ frame * pageSize ∧ frame * pageSize + pageSize ≤ entry.top := by
  rw [frames, Finset.mem_Ico, startFrame, frameCount, top]
  simp only [pageSize] at aligned ⊢
  omega

theorem MemmapValid.mem_usableFrames (valid : MemmapValid entries) {frame : Nat} :
    frame ∈ usableFrames entries ↔ InUsable entries frame := by
  rw [usableFrames, mem_gather]
  constructor
  · rintro ⟨entry, listed, usable, member⟩
    exact ⟨entry, listed, usable, (MemmapEntry.mem_frames (valid.aligned entry listed usable)).mp member⟩
  · rintro ⟨entry, listed, usable, within⟩
    exact ⟨entry, listed, usable, (MemmapEntry.mem_frames (valid.aligned entry listed usable)).mpr within⟩

theorem MemmapValid.card_usableFrames (valid : MemmapValid entries) :
    (usableFrames entries).card = releasedCount entries := by
  have apart : entries.Pairwise fun first second => first.usable → second.usable →
      Disjoint first.frames second.frames := by
    refine valid.apart.imp_of_mem fun {first second} firstListed secondListed disjoint
      firstUsable secondUsable => Finset.disjoint_left.mpr fun frame inFirst inSecond => ?_
    have here := (MemmapEntry.mem_frames (valid.aligned first firstListed firstUsable)).mp inFirst
    have there := (MemmapEntry.mem_frames (valid.aligned second secondListed secondUsable)).mp inSecond
    refine disjoint firstUsable secondUsable (frame * pageSize) ?_
    simp only [pageSize] at here there ⊢
    omega
  rw [usableFrames, card_gather apart, releasedCount]
  congr 1
  refine List.map_congr_left fun entry _ => ?_
  rw [MemmapEntry.frames, Nat.card_Ico, Nat.add_sub_cancel_left]

/-- Disjoint regions below the end of the address space cannot add up to more than it. -/
theorem MemmapValid.usableBytes_lt (valid : MemmapValid entries)
    (small : ∀ entry ∈ entries, entry.usable → entry.top < 2 ^ 64) :
    usableBytes entries < 2 ^ 64 := by
  let addresses (entry : MemmapEntry) : Finset Nat := Finset.Ico entry.base entry.top
  have apart : entries.Pairwise fun first second => first.usable → second.usable →
      Disjoint (addresses first) (addresses second) := by
    refine valid.apart.imp fun {first second} disjoint firstUsable secondUsable =>
      Finset.disjoint_left.mpr fun addr inFirst inSecond => ?_
    exact disjoint firstUsable secondUsable addr ⟨Finset.mem_Ico.mp inFirst, Finset.mem_Ico.mp inSecond⟩
  have counted : (gather addresses entries).card = usableBytes entries := by
    rw [card_gather apart, usableBytes]
    congr 1
    refine List.map_congr_left fun entry _ => ?_
    rw [Nat.card_Ico, MemmapEntry.top, Nat.add_sub_cancel_left]
  have inside : gather addresses entries ⊆ Finset.range (2 ^ 64 - 1) := by
    intro addr member
    obtain ⟨entry, listed, usable, within⟩ := mem_gather.mp member
    have bound := small entry listed usable
    have below := (Finset.mem_Ico.mp within).2
    rw [Finset.mem_range]
    omega
  have least := Finset.card_le_card inside
  rw [counted, Finset.card_range] at least
  omega

theorem MemmapValid.scanMemmap_eq (valid : MemmapValid entries)
    (small : ∀ entry ∈ entries, entry.usable → entry.top < 2 ^ 64) :
    scanMemmap entries 0 0 = some (usableBytes entries, highestTop entries) := by
  have scanned := @scanMemmap_some entries small 0 0
  rw [Nat.zero_add, Nat.max_zero] at scanned
  exact scanned (valid.usableBytes_lt small)

theorem MemmapValid.pmmInit_isSome_iff (valid : MemmapValid entries) :
    (∃ boot, pmmInit stale entries hhdmOffset = some boot) ↔
      (∀ entry ∈ entries, entry.usable → entry.top < 2 ^ 64) ∧
        bitmapBase entries + hhdmOffset < 2 ^ 64 := by
  constructor
  · rintro ⟨boot, booted⟩
    obtain ⟨result, scanned, booted⟩ := Option.bind_eq_some_iff.mp booted
    have small := small_of_scanMemmap scanned
    rw [valid.scanMemmap_eq small, Option.some_inj] at scanned
    subst scanned
    obtain ⟨pointer, fits, _⟩ := Option.bind_eq_some_iff.mp booted
    exact ⟨small, (checkedAdd_eq_some.mp fits).1⟩
  · rintro ⟨small, fits⟩
    have pointer : checkedAdd (bitmapBase entries) hhdmOffset =
        some (bitmapBase entries + hhdmOffset) := if_pos fits
    rw [bitmapBase, bitmapBytes] at pointer
    rw [pmmInit, valid.scanMemmap_eq small]
    simp only [Option.bind_eq_bind, Option.bind_some]
    rw [pointer]
    exact ⟨_, rfl⟩

/-- The manager before the third loop: every frame is used. -/
def fullManager (stale : Nat → BitVec 8) (totalFrames : Nat) : PhysicalMemoryManager where
  bitmap idx := if idx < divCeil totalFrames 8 then 0xFF else stale idx
  totalFrames
  freeFrames := 0
  lastFrame := 1

theorem fullManager_testBit (stale : Nat → BitVec 8) (totalFrames f : Nat) :
    (fullManager stale totalFrames).testBit f = true := by
  have ones : ∀ bit, bit < 8 → ((0xFF#8 &&& (1#8 <<< bit)) != 0#8) = true := by decide
  unfold testBit
  by_cases outside : f ≥ totalFrames
  · exact if_pos outside
  · have byte : f / 8 < divCeil totalFrames 8 := by
      rw [divCeil]
      omega
    have filled : (fullManager stale totalFrames).bitmap (f / 8) = 0xFF#8 := if_pos byte
    rw [filled]
    exact (if_neg outside).trans (ones (f % 8) (Nat.mod_lt f (by decide)))

theorem MemmapValid.usableFrames_lt (valid : MemmapValid entries) {frame : Nat}
    (member : frame ∈ usableFrames entries) : frame < divCeil (highestTop entries) pageSize := by
  obtain ⟨entry, listed, usable, within⟩ := valid.mem_usableFrames.mp member
  have bound := top_le_highestTop listed usable
  rw [divCeil]
  simp only [pageSize] at within ⊢
  omega

theorem MemmapValid.pmmInit_spec (valid : MemmapValid entries)
    (booted : pmmInit stale entries hhdmOffset = some boot) :
    boot.bitmapAddr = bitmapBase entries ∧ boot.bitmapSize = bitmapBytes entries ∧
      boot.manager.freeFrames =
        (usableFrames entries).card - divCeil (bitmapBytes entries) pageSize ∧
      ∀ f, boot.manager.testBit f = false ↔ (f ∈ usableFrames entries ∧ f ≠ 0) ∧
        ¬ (bitmapBase entries / pageSize ≤ f ∧
          f < bitmapBase entries / pageSize + divCeil (bitmapBytes entries) pageSize) := by
  have small := (valid.pmmInit_isSome_iff.mp ⟨boot, booted⟩).1
  rw [pmmInit, valid.scanMemmap_eq small] at booted
  simp only [Option.bind_eq_bind, Option.bind_some] at booted
  obtain ⟨pointer, _, booted⟩ := Option.bind_eq_some_iff.mp booted
  obtain rfl := Option.some.inj booted
  obtain ⟨total, _, free, bits⟩ := @releaseUsable_spec entries
    (fullManager stale (divCeil (highestTop entries) pageSize))
  obtain ⟨_, _, less, after⟩ := @reserveFrames_spec (divCeil (bitmapBytes entries) pageSize)
    (bitmapBase entries / pageSize)
    ((releaseUsable entries (fullManager stale (divCeil (highestTop entries) pageSize))).setBit 0 true)
  refine ⟨rfl, rfl, less.trans ?_, fun f => (after f).trans (and_congr_left' ?_)⟩
  · rw [setBit_freeFrames, free, valid.card_usableFrames]
    congr 1
    exact Nat.zero_add _
  · rw [testBit_setBit, total]
    by_cases first : 0 = f ∧ 0 < divCeil (highestTop entries) pageSize
    · refine (if_pos first) ▸ ⟨fun contra => Bool.noConfusion contra, fun both => absurd first.1.symm both.2⟩
    · refine (if_neg first) ▸ (bits f).trans ?_
      rw [fullManager_testBit]
      refine ⟨?_, fun both => .inr ⟨valid.usableFrames_lt both.1, both.1⟩⟩
      rintro (contra | ⟨inside, member⟩)
      · exact Bool.noConfusion contra
      · have positive := valid.usableFrames_lt member
        exact ⟨member, by omega⟩

/-- The bitmap finds a region, every sum fits, and frame 0 is either no usable memory or the
first frame of the bitmap. -/
structure BitmapSited (entries : List MemmapEntry) (hhdmOffset : Nat) : Prop where
  small : ∀ entry ∈ entries, entry.usable → entry.top < 2 ^ 64
  region : ∃ region, bitmapRegion entries (bitmapBytes entries) = some region ∧
    region.base + hhdmOffset < 2 ^ 64 ∧
    (region.base = 0 ∨ ∀ entry ∈ entries, entry.usable → entry.base = 0 → entry.length = 0)

theorem MemmapValid.zero_mem_usableFrames (valid : MemmapValid entries) :
    0 ∈ usableFrames entries ↔
      ¬ ∀ entry ∈ entries, entry.usable → entry.base = 0 → entry.length = 0 := by
  rw [valid.mem_usableFrames, InUsable]
  push Not
  refine exists_congr fun entry => and_congr_right fun listed => and_congr_right fun usable => ?_
  have aligned := valid.aligned entry listed usable
  rw [MemmapEntry.top]
  simp only [pageSize] at aligned ⊢
  omega

theorem PmmBoot.inStorage_iff {frame : Nat} (aligned : boot.bitmapAddr % pageSize = 0) :
    boot.InStorage frame ↔ boot.bitmapAddr / pageSize ≤ frame ∧
      frame < boot.bitmapAddr / pageSize + divCeil boot.bitmapSize pageSize := by
  rw [PmmBoot.InStorage, divCeil]
  simp only [pageSize] at aligned ⊢
  omega

theorem bitmapRegion_some {region : MemmapEntry} {bitmapSize : Nat}
    (found : bitmapRegion entries bitmapSize = some region) :
    region ∈ entries ∧ region.usable ∧ bitmapSize ≤ region.length := by
  have chosen := List.find?_some found
  rw [Bool.and_eq_true, decide_eq_true_eq] at chosen
  exact ⟨List.mem_of_find?_eq_some found, chosen⟩

/-- The frames of the bitmap are usable ones. -/
theorem MemmapValid.bitmap_subset (valid : MemmapValid entries) {region : MemmapEntry}
    (found : bitmapRegion entries (bitmapBytes entries) = some region) :
    Finset.Ico (region.base / pageSize)
        (region.base / pageSize + divCeil (bitmapBytes entries) pageSize) ⊆
      usableFrames entries := by
  obtain ⟨listed, usable, large⟩ := bitmapRegion_some found
  have aligned := valid.aligned region listed usable
  intro frame member
  refine valid.mem_usableFrames.mpr ⟨region, listed, usable, ?_⟩
  rw [Finset.mem_Ico, divCeil] at member
  rw [MemmapEntry.top]
  simp only [pageSize] at aligned member ⊢
  omega

/-- The counter misses frame 0, so it is right where that frame is unusable or lies in the
bitmap. -/
theorem MemmapValid.counted_iff (valid : MemmapValid entries) {region : MemmapEntry}
    (booted : pmmInit stale entries hhdmOffset = some boot)
    (found : bitmapRegion entries (bitmapBytes entries) = some region) :
    boot.manager.freeFrames = boot.manager.clearFrames.card ↔
      region.base = 0 ∨ ∀ entry ∈ entries, entry.usable → entry.base = 0 → entry.length = 0 := by
  obtain ⟨_, _, free, bits⟩ := valid.pmmInit_spec booted
  have base : bitmapBase entries = region.base := by rw [bitmapBase, found]; rfl
  rw [base] at bits
  let own := Finset.Ico (region.base / pageSize)
    (region.base / pageSize + divCeil (bitmapBytes entries) pageSize)
  have clear : boot.manager.clearFrames = (usableFrames entries \ own).erase 0 := by
    ext frame
    rw [mem_clearFrames, bits, Finset.mem_erase, Finset.mem_sdiff, Finset.mem_Ico]
    tauto
  have count : (usableFrames entries \ own).card = boot.manager.freeFrames := by
    rw [Finset.card_sdiff_of_subset (valid.bitmap_subset found), Nat.card_Ico,
      Nat.add_sub_cancel_left, free]
  have zeroOwn (usable : 0 ∈ usableFrames entries) : 0 ∈ own ↔ region.base = 0 := by
    obtain ⟨listed, regionUsable, _⟩ := bitmapRegion_some found
    have aligned := valid.aligned region listed regionUsable
    have inside := valid.usableFrames_lt usable
    rw [Finset.mem_Ico, bitmapBytes]
    simp only [divCeil, pageSize] at aligned inside ⊢
    omega
  rw [clear, ← count]
  by_cases zero : 0 ∈ usableFrames entries
  · have covered := valid.zero_mem_usableFrames.mp zero
    by_cases first : region.base = 0
    · have absent : 0 ∉ usableFrames entries \ own := by
        rw [Finset.mem_sdiff]
        exact fun both => both.2 ((zeroOwn zero).mpr first)
      rw [Finset.erase_eq_of_notMem absent]
      exact ⟨fun _ => .inl first, fun _ => rfl⟩
    · have present : 0 ∈ usableFrames entries \ own :=
        Finset.mem_sdiff.mpr ⟨zero, fun inside => first ((zeroOwn zero).mp inside)⟩
      have positive := Finset.card_pos.mpr ⟨0, present⟩
      rw [Finset.card_erase_of_mem present]
      exact ⟨fun same => by omega, fun either => absurd either (not_or.mpr ⟨first, covered⟩)⟩
  · have absent : 0 ∉ usableFrames entries \ own := fun both => zero (Finset.mem_sdiff.mp both).1
    rw [Finset.erase_eq_of_notMem absent]
    exact ⟨fun _ => .inr (not_not.mp fun covered => zero (valid.zero_mem_usableFrames.mpr covered)),
      fun _ => rfl⟩

theorem pmmInit_consistent_iff (stale : Nat → BitVec 8) (hhdmOffset : Nat)
    (valid : MemmapValid entries) :
    (∃ boot, pmmInit stale entries hhdmOffset = some boot ∧ boot.Consistent entries) ↔
      BitmapSited entries hhdmOffset := by
  constructor
  · rintro ⟨boot, booted, consistent⟩
    obtain ⟨small, fits⟩ := valid.pmmInit_isSome_iff.mp ⟨boot, booted⟩
    obtain ⟨addr, size, _, _⟩ := valid.pmmInit_spec booted
    cases found : bitmapRegion entries (bitmapBytes entries) with
    | none =>
      obtain ⟨entry, listed, usable, above, below⟩ := consistent.storage
      have base : bitmapBase entries = 0 := by rw [bitmapBase, found]; rfl
      rw [addr, base] at above below
      rw [size, MemmapEntry.top] at below
      have refused := List.find?_eq_none.mp found entry listed
      rw [Bool.and_eq_true, decide_eq_true_eq] at refused
      exact absurd ⟨usable, by omega⟩ refused
    | some region =>
      have base : bitmapBase entries = region.base := by rw [bitmapBase, found]; rfl
      exact ⟨small, region, found, base ▸ fits, (valid.counted_iff booted found).mp consistent.counted⟩
  · rintro ⟨small, region, found, fits, zero⟩
    have base : bitmapBase entries = region.base := by rw [bitmapBase, found]; rfl
    obtain ⟨boot, booted⟩ : ∃ boot, pmmInit stale entries hhdmOffset = some boot :=
      valid.pmmInit_isSome_iff.mpr ⟨small, base ▸ fits⟩
    obtain ⟨addr, size, _, bits⟩ := valid.pmmInit_spec booted
    obtain ⟨listed, usable, large⟩ := bitmapRegion_some found
    refine ⟨boot, booted, (valid.counted_iff booted found).mpr zero, fun frame => ?_, region, listed,
      usable, ?_⟩
    · have aligned : boot.bitmapAddr % pageSize = 0 := by
        rw [addr, base]
        exact (valid.aligned region listed usable).1
      rw [bits, PmmBoot.inStorage_iff aligned, addr, size, valid.mem_usableFrames, and_assoc]
    · rw [addr, base, size, MemmapEntry.top]
      omega

/-- A machine whose lowest page is reserved. -/
def reservedLowMap : List MemmapEntry := [⟨0, 0x1000, false⟩, ⟨0x1000, 0x3000, true⟩]

theorem pmmInit_consistent_reserved :
    ∃ boot, pmmInit (fun _ => 0) reservedLowMap 0xffff800000000000 = some boot ∧
      boot.Consistent reservedLowMap := by
  have valid : MemmapValid reservedLowMap := by
    refine ⟨by decide, ?_⟩
    rw [reservedLowMap, List.pairwise_pair]
    intro usable
    exact nomatch usable
  refine (pmmInit_consistent_iff (fun _ => 0) 0xffff800000000000 valid).mpr ⟨by decide, ?_⟩
  exact ⟨⟨0x1000, 0x3000, true⟩, by decide, by decide, .inr (by decide)⟩

/-- The lowest page is usable and too small for the bitmap, which has 4097 bytes. -/
def usableLowMap : List MemmapEntry := [⟨0, 0x1000, true⟩, ⟨0x100000, 0x7f01000, true⟩]

theorem pmmInit_miscounts_frame_zero :
    MemmapValid usableLowMap ∧
      ∃ boot, pmmInit (fun _ => 0) usableLowMap 0xffff800000000000 = some boot ∧
        boot.manager.freeFrames ≠ boot.manager.clearFrames.card := by
  have valid : MemmapValid usableLowMap := by
    refine ⟨by decide, ?_⟩
    rw [usableLowMap, List.pairwise_pair]
    intro _ _ addr
    simp only [MemmapEntry.top]
    omega
  have found : bitmapRegion usableLowMap (bitmapBytes usableLowMap) =
      some ⟨0x100000, 0x7f01000, true⟩ := by decide +kernel
  obtain ⟨boot, booted⟩ : ∃ boot, pmmInit (fun _ => 0) usableLowMap 0xffff800000000000 = some boot :=
    valid.pmmInit_isSome_iff.mpr ⟨by decide, by decide +kernel⟩
  refine ⟨valid, boot, booted, fun counted => ?_⟩
  have either := (valid.counted_iff booted found).mp counted
  revert either
  decide

end Boot

end RustPosix.Mm
