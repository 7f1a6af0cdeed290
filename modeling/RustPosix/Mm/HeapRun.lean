import RustPosix.Mm.FreeList

/-! Runs of the kernel heap: calls in any order, blocks freed at most once with their own
layout, and stores of the owners into their blocks in between. -/

namespace RustPosix.Mm

open Library

/-- The region given to `init`. It is valid memory, so it is in the address space and does
not hold the null address. -/
structure HeapRegion where
  start : Nat
  size : Nat
  nonnull : 0 < start
  word : start + size ≤ 2 ^ 64

def HeapRegion.extent (region : HeapRegion) : Extent := ⟨region.start, region.size⟩

deriving instance DecidableEq for Layout

/-- A block that was returned and not yet freed. -/
structure Block where
  ptr : Nat
  layout : Layout
  deriving DecidableEq

/-- The bytes that a layout takes from the heap. -/
def roundedSize (layout : Layout) : Nat :=
  max (clearLow (layout.size + Heap.blockAlign layout - 1) (Heap.blockAlign layout)) nodeSize

def Block.extent (block : Block) : Extent := ⟨block.ptr, roundedSize block.layout⟩

/-- The heap and the blocks in use. -/
structure HeapWorld where
  heap : Heap
  live : List Block

inductive HeapCall where
  | alloc (layout : Layout)
  | dealloc (block : Block)
  /-- the rest of the kernel stores a byte -/
  | store (addr : Nat) (byte : Byte)

namespace HeapWorld

/-- A call that does not return ends the run. -/
def step (world : HeapWorld) : HeapCall → Option HeapWorld
  | .alloc layout =>
    match world.heap.alloc layout with
    | .error _ => none
    | .ok (none, heap) => some { world with heap }
    | .ok (some ptr, heap) => some ⟨heap, ⟨ptr, layout⟩ :: world.live⟩
  | .dealloc block =>
    match world.heap.dealloc block.ptr block.layout with
    | .error _ => none
    | .ok heap => some ⟨heap, world.live.erase block⟩
  | .store addr byte =>
    some { world with heap := { world.heap with mem := world.heap.mem.fill addr 1 byte } }

/-- Only blocks in use are freed, and the heap region is written in blocks in use only. -/
def Permits (region : HeapRegion) (world : HeapWorld) : HeapCall → Prop
  | .alloc _ => True
  | .dealloc block => block ∈ world.live
  | .store addr _ => ¬ (region.start ≤ addr ∧ addr < region.start + region.size) ∨
      ∃ block ∈ world.live, block.ptr ≤ addr ∧ addr < block.ptr + block.layout.size

instance (region : HeapRegion) (world : HeapWorld) (call : HeapCall) :
    Decidable (world.Permits region call) :=
  match call with
  | .alloc _ => inferInstanceAs (Decidable True)
  | .dealloc block => inferInstanceAs (Decidable (block ∈ world.live))
  | .store addr _ => inferInstanceAs (Decidable
      (¬ (region.start ≤ addr ∧ addr < region.start + region.size) ∨
        ∃ block ∈ world.live, block.ptr ≤ addr ∧ addr < block.ptr + block.layout.size))

/-- `init` on a region, before any block is in use -/
def boot (mem : Memory) (region : HeapRegion) : Option HeapWorld :=
  match Heap.init mem region.start region.size with
  | .error _ => none
  | .ok heap => some ⟨heap, []⟩

end HeapWorld

section Layouts

variable {layout : Layout} {size : Nat}

private theorem eight_dvd_power {exponent : Nat} (large : 8 ≤ 2 ^ exponent) : 8 ∣ 2 ^ exponent := by
  have three : 3 ≤ exponent := by
    by_contra small
    have bound : 2 ^ exponent ≤ 2 ^ 2 := Nat.pow_le_pow_right (by decide) (by omega)
    omega
  exact Nat.pow_dvd_pow 2 three

theorem blockAlign_power : (Heap.blockAlign layout).isPowerOfTwo := by
  unfold Heap.blockAlign
  rcases Nat.le_total layout.align nodeAlign with small | large
  · rw [Nat.max_eq_right small]
    exact nodeAlign_power
  · rw [Nat.max_eq_left large]
    exact layout.power

theorem nodeAlign_dvd_blockAlign : nodeAlign ∣ Heap.blockAlign layout := by
  obtain ⟨exponent, same⟩ := @blockAlign_power layout
  have large : 8 ≤ Heap.blockAlign layout := Nat.le_max_right _ _
  rw [same] at large ⊢
  exact eight_dvd_power large

theorem align_dvd_blockAlign : layout.align ∣ Heap.blockAlign layout := by
  unfold Heap.blockAlign
  rcases Nat.le_total layout.align nodeAlign with small | large
  · rw [Nat.max_eq_right small]
    obtain ⟨exponent, same⟩ := layout.power
    rw [same] at small ⊢
    have three : exponent ≤ 3 := by
      by_contra more
      have bound : 2 ^ 4 ≤ 2 ^ exponent := Nat.pow_le_pow_right (by decide) (by omega)
      unfold nodeAlign at small
      omega
    exact Nat.pow_dvd_pow 2 three
  · rw [Nat.max_eq_left large]

theorem minSize_eq_ok (done : Heap.minSize layout = .ok size) : size = roundedSize layout := by
  unfold Heap.minSize roundUp at done
  unfold roundedSize
  cases sum : checkedAdd layout.size (Heap.blockAlign layout) with
  | none =>
    rw [sum] at done
    cases done
  | some total =>
    obtain ⟨-, rfl⟩ := checkedAdd_eq_some.mp sum
    rw [sum] at done
    cases done
    rfl

theorem nodeSize_le_roundedSize : nodeSize ≤ roundedSize layout := Nat.le_max_right _ _

/-- Rounding up gives a multiple of the alignment that holds the size. -/
theorem roundedSize_bounds : layout.size ≤ roundedSize layout ∧ roundedSize layout % nodeAlign = 0 := by
  have positive : 0 < Heap.blockAlign layout := Nat.pos_of_isPowerOfTwo blockAlign_power
  unfold roundedSize
  rw [clearLow_eq blockAlign_power]
  have below := Nat.mod_lt (layout.size + Heap.blockAlign layout - 1) positive
  have aligned := Nat.mod_eq_zero_of_dvd (Nat.dvd_trans (@nodeAlign_dvd_blockAlign layout)
    (Nat.dvd_sub_mod (layout.size + Heap.blockAlign layout - 1)))
  refine ⟨Nat.le_trans (by omega) (Nat.le_max_left _ _), ?_⟩
  rcases Nat.le_total (layout.size + Heap.blockAlign layout - 1 -
    (layout.size + Heap.blockAlign layout - 1) % Heap.blockAlign layout) nodeSize with small | large
  · rw [Nat.max_eq_right small]
    rfl
  · rw [Nat.max_eq_left large]
    exact aligned

end Layouts

/-- The free regions and the blocks in use are disjoint pieces of the heap region. -/
structure HeapSound (region : HeapRegion) (free : List Extent) (live : List Block) : Prop where
  apart : (free ++ live.map Block.extent).Pairwise Extent.Apart
  within : ∀ extent ∈ free ++ live.map Block.extent, extent.Within region.extent
  headers : ∀ extent ∈ free, nodeSize < extent.size ∧ extent.start % nodeAlign = 0
  aligned : ∀ block ∈ live, block.ptr % Heap.blockAlign block.layout = 0

namespace HeapSound

variable {region : HeapRegion} {free : List Extent} {live : List Block}
  (sound : HeapSound region free live)

include sound

theorem laid : Laid free := by
  have inside : ∀ extent ∈ free, extent.Within region.extent := fun extent member =>
    sound.within extent (List.mem_append_left _ member)
  refine ⟨(List.pairwise_append.mp sound.apart).1, fun extent member =>
    (sound.headers extent member).1, fun extent member => ?_, fun extent member => ?_⟩
  · exact Nat.lt_of_lt_of_le region.nonnull (inside extent member).1
  · exact Nat.le_trans (inside extent member).2 region.word

theorem blocks_total : totalSize (live.map Block.extent) ≤ region.size := by
  apply totalSize_le region.extent
  · exact (List.pairwise_append.mp sound.apart).2.1
  · exact fun extent member => sound.within extent (List.mem_append_right _ member)

/-- The free list is shorter than a walk. -/
theorem short : free.length < 2 ^ 61 := by
  have room : totalSize free ≤ region.size := by
    apply totalSize_le region.extent
    · exact (List.pairwise_append.mp sound.apart).1
    · exact fun extent member => sound.within extent (List.mem_append_left _ member)
  have each : nodeSize * free.length ≤ totalSize free :=
    length_mul_le_totalSize fun extent member => Nat.le_of_lt (sound.headers extent member).1
  have word := region.word
  unfold nodeSize at each
  omega

end HeapSound

/-- A region that is added, unless it has no room for more than a header. -/
def keep (region : Extent) (free : List Extent) : List Extent :=
  if region.size ≤ nodeSize then free else region :: free

theorem addRegion_aligned {free added : List Extent} {addr size : Nat}
    (aligned : addr % nodeAlign = 0) (done : addRegion free addr size = .ok added) :
    added = keep ⟨addr, size⟩ free := by
  unfold addRegion at done
  cases rounds : roundUp addr nodeAlign with
  | error halt =>
    rw [rounds] at done
    cases done
  | ok start =>
    obtain ⟨-, multiple, low, near⟩ := (roundUp_eq_ok nodeAlign_power).mp rounds
    obtain rfl : start = addr := by
      unfold nodeAlign at *
      omega
    rw [rounds] at done
    simp only [bind, Except.bind, pure, Except.pure, Nat.sub_self, Nat.zero_add, Nat.sub_zero] at done
    unfold keep
    split at done
    · rename_i small
      cases done
      rw [if_pos small]
    · rename_i large
      cases done
      rw [if_neg large]

namespace Found

variable {found : Found} {free : List Extent} {layout : Layout}

/-- What is left of the region that was found, behind the block. -/
def rest (found : Found) (size : Nat) : Extent :=
  ⟨found.start + size, found.region.stop - (found.start + size)⟩

theorem rest_within {size align : Nat} (power : align.isPowerOfTwo)
    (fits : Fits size align found.region found.start) :
    (found.rest size).Within found.region := by
  obtain ⟨-, -, low, -⟩ := (roundUp_eq_ok power).mp fits.rounds
  have room := fits.room
  unfold Extent.Within Extent.stop rest
  unfold Extent.stop at room ⊢
  dsimp only
  omega

theorem rest_aligned (fits : Fits (roundedSize layout) (Heap.blockAlign layout) found.region
    found.start) : (found.rest (roundedSize layout)).start % nodeAlign = 0 := by
  obtain ⟨-, aligned, -⟩ := (roundUp_eq_ok blockAlign_power).mp fits.rounds
  have first : nodeAlign ∣ found.start :=
    Nat.dvd_trans nodeAlign_dvd_blockAlign (Nat.dvd_of_mod_eq_zero aligned)
  exact Nat.mod_eq_zero_of_dvd
    (Nat.dvd_add first (Nat.dvd_of_mod_eq_zero roundedSize_bounds.2))

end Found

namespace Heap

variable {heap after : Heap} {free : List Extent} {region : HeapRegion} {live : List Block}
  {layout : Layout} {result : Option Nat}

theorem unlinked_used {found : Found} {current : Option Nat} :
    (heap.unlinked current found).used = heap.used := by
  unfold unlinked linkTo
  split <;> rfl

/-- The end of `alloc` gives back what is left behind the block. -/
private theorem split_lists {found : Found} {rest : Heap}
    (lists : rest.Lists (found.before ++ found.behind)) (laid : Laid free)
    (first : found.First (roundedSize layout) (blockAlign layout) free)
    (done : rest.giveBack (found.start + roundedSize layout)
      (found.region.stop - (found.start + roundedSize layout)) = .ok after) :
    after.Lists (keep (found.rest (roundedSize layout)) (found.before ++ found.behind)) ∧
      after.used = rest.used := by
  have split := first.split
  have within := found.rest_within blockAlign_power first.fits
  unfold giveBack at done
  split at done
  · subst split
    have others : Laid (found.before ++ found.behind) :=
      laid.sublist (List.Sublist.append (List.Sublist.refl _) (List.sublist_cons_self _ _))
    have apart : ∀ other ∈ found.before ++ found.behind,
        (found.rest (roundedSize layout)).Apart other :=
      fun other member => (laid.middle member).mono within
    have high := laid.high found.region (by simp)
    have low := laid.low found.region (by simp)
    obtain ⟨added, done, lists, used⟩ := lists.addFreeRegion others apart
      (Nat.le_trans within.2 high) (Nat.lt_of_lt_of_le low within.1) done
    rw [addRegion_aligned (found.rest_aligned first.fits) done] at lists
    exact ⟨lists, used⟩
  · rename_i small
    cases done
    have none : keep (found.rest (roundedSize layout)) (found.before ++ found.behind) =
        found.before ++ found.behind := if_pos (Nat.le_of_not_le small)
    rw [none]
    exact ⟨lists, rfl⟩

/-- A call to `alloc` that returns. -/
theorem alloc_inv (lists : heap.Lists free) (sound : HeapSound region free live)
    (done : heap.alloc layout = .ok (result, after)) :
    (result = none ∧ after = heap ∧
        ∀ found : Found, ¬ found.First (roundedSize layout) (blockAlign layout) free) ∨
      ∃ found : Found, found.First (roundedSize layout) (blockAlign layout) free ∧
        result = some found.start ∧
        after.Lists (keep (found.rest (roundedSize layout)) (found.before ++ found.behind)) ∧
        after.used = (heap.used + roundedSize layout) % 2 ^ 64 := by
  unfold alloc at done
  cases sized : minSize layout with
  | error halt =>
    rw [sized] at done
    cases done
  | ok size =>
    obtain rfl := minSize_eq_ok sized
    have walk : heap.findRegion (roundedSize layout) (blockAlign layout) = _ :=
      findFrom_eq lists.chain lists.sizes sound.short
    rw [sized] at done
    simp only [bind, Except.bind, pure, Except.pure, walk] at done
    cases searched : findIn (roundedSize layout) (blockAlign layout) free with
    | error halt =>
      rw [searched] at done
      cases done
    | ok found =>
      rw [searched] at done
      cases found with
      | none =>
        cases done
        refine Or.inl ⟨rfl, rfl, fun found first => ?_⟩
        cases searched.symm.trans (findIn_eq_some.mpr first)
      | some found =>
        right
        have first := findIn_eq_some.mp searched
        obtain ⟨rest, size⟩ := lists.unlinked sound.laid first.split
        simp only [Except.map, Option.map_some, size] at done
        split at done
        · cases done
        · rename_i cut split
          cases done
          obtain ⟨lists, used⟩ := split_lists rest sound.laid first split
          refine ⟨found, first, rfl, lists.congr rfl fun _ _ _ _ => rfl, ?_⟩
          rw [used, unlinked_used]

end Heap

theorem keep_eq_append {extent : Extent} {free : List Extent} :
    keep extent free = keep extent [] ++ free := by
  unfold keep
  split <;> rfl

theorem mem_keep {extent other : Extent} (member : other ∈ keep extent []) :
    other = extent ∧ nodeSize < extent.size := by
  unfold keep at member
  split at member
  · cases member
  · rename_i large
    exact ⟨List.mem_singleton.mp member, Nat.not_le.mp large⟩

theorem keep_pairwise {extent : Extent} : (keep extent []).Pairwise Extent.Apart := by
  unfold keep
  split
  · exact List.Pairwise.nil
  · exact List.pairwise_singleton _ _

namespace HeapSound

variable {region : HeapRegion} {free free' : List Extent} {live live' : List Block}

/-- One extent of the heap is replaced by disjoint pieces of it. -/
theorem carve (sound : HeapSound region free live) {whole : Extent} {pieces rest : List Extent}
    (old : (free ++ live.map Block.extent).Perm (whole :: rest))
    (new : (free' ++ live'.map Block.extent).Perm (pieces ++ rest))
    (within : ∀ piece ∈ pieces, piece.Within whole) (each : pieces.Pairwise Extent.Apart)
    (headers : ∀ extent ∈ free', nodeSize < extent.size ∧ extent.start % nodeAlign = 0)
    (aligned : ∀ block ∈ live', block.ptr % Heap.blockAlign block.layout = 0) :
    HeapSound region free' live' := by
  have apart := (old.pairwise_iff Extent.Apart.symm).mp sound.apart
  refine ⟨(new.pairwise_iff Extent.Apart.symm).mpr (pairwise_carve apart within each), ?_,
    headers, aligned⟩
  intro extent member
  rcases List.mem_append.mp (new.mem_iff.mp member) with piece | other
  · exact (within extent piece).trans (sound.within whole (old.mem_iff.mpr List.mem_cons_self))
  · exact sound.within extent (old.mem_iff.mpr (List.mem_cons_of_mem _ other))

/-- The region given to `init`. -/
theorem init {region : HeapRegion} {free : List Extent}
    (added : addRegion [] region.start region.size = .ok free) : HeapSound region free [] := by
  unfold addRegion at added
  cases rounds : roundUp region.start nodeAlign with
  | error halt =>
    rw [rounds] at added
    cases added
  | ok start =>
    obtain ⟨-, aligned, low, -⟩ := (roundUp_eq_ok nodeAlign_power).mp rounds
    rw [rounds] at added
    simp only [bind, Except.bind, pure, Except.pure] at added
    split at added
    · cases added
      exact ⟨List.Pairwise.nil, nofun, nofun, nofun⟩
    · rename_i large
      cases added
      have room : nodeSize < region.size - (start - region.start) := by omega
      refine ⟨List.pairwise_singleton _ _, fun extent member => ?_, fun extent member => ?_, nofun⟩
      · obtain rfl := List.mem_singleton.mp member
        unfold Extent.Within Extent.stop HeapRegion.extent
        dsimp only
        omega
      · obtain rfl := List.mem_singleton.mp member
        exact ⟨room, aligned⟩

theorem alloc (sound : HeapSound region free live) {layout : Layout} {found : Found}
    (first : found.First (roundedSize layout) (Heap.blockAlign layout) free) :
    HeapSound region (keep (found.rest (roundedSize layout)) (found.before ++ found.behind))
      (⟨found.start, layout⟩ :: live) := by
  have split := first.split
  have fits := first.fits
  obtain ⟨-, aligned, low, -⟩ := (roundUp_eq_ok blockAlign_power).mp fits.rounds
  have old : (free ++ live.map Block.extent).Perm
      (found.region :: (found.before ++ found.behind ++ live.map Block.extent)) := by
    rw [split]
    exact List.perm_middle.append_right _
  have new : (keep (found.rest (roundedSize layout)) (found.before ++ found.behind) ++
      (Block.mk found.start layout :: live).map Block.extent).Perm
      ((keep (found.rest (roundedSize layout)) [] ++ [Block.extent ⟨found.start, layout⟩]) ++
        (found.before ++ found.behind ++ live.map Block.extent)) := by
    generalize found.before ++ found.behind = others
    rw [keep_eq_append, List.append_assoc, List.append_assoc, List.map_cons]
    exact List.perm_middle.append_left _
  refine sound.carve old new ?_ ?_ ?_ ?_
  · intro piece member
    rcases List.mem_append.mp member with kept | block
    · rw [(mem_keep kept).1]
      exact found.rest_within blockAlign_power fits
    · rw [List.mem_singleton.mp block]
      exact ⟨low, fits.room⟩
  · refine List.pairwise_append.mpr ⟨keep_pairwise, List.pairwise_singleton _ _, ?_⟩
    intro kept member block last
    rw [(mem_keep member).1, List.mem_singleton.mp last]
    exact Or.inr (Nat.le_refl _)
  · intro extent member
    rw [keep_eq_append] at member
    rcases List.mem_append.mp member with kept | other
    · obtain ⟨rfl, large⟩ := mem_keep kept
      exact ⟨large, found.rest_aligned fits⟩
    · refine sound.headers extent ?_
      rw [split]
      exact List.perm_middle.mem_iff.mpr (List.mem_cons_of_mem _ other)
  · intro block member
    rcases List.mem_cons.mp member with rfl | old
    · exact aligned
    · exact sound.aligned block old

theorem header_aligned (sound : HeapSound region free live) {block : Block}
    (member : block ∈ live) : block.ptr % nodeAlign = 0 := by
  have aligned := Nat.dvd_of_mod_eq_zero (sound.aligned block member)
  exact Nat.mod_eq_zero_of_dvd (Nat.dvd_trans nodeAlign_dvd_blockAlign aligned)

theorem dealloc (sound : HeapSound region free live) {block : Block} (member : block ∈ live) :
    HeapSound region (keep block.extent free) (live.erase block) := by
  have old : (free ++ live.map Block.extent).Perm
      (block.extent :: (free ++ (live.erase block).map Block.extent)) :=
    (((List.perm_cons_erase member).map Block.extent).append_left free).trans List.perm_middle
  have new : (keep block.extent free ++ (live.erase block).map Block.extent).Perm
      (keep block.extent [] ++ (free ++ (live.erase block).map Block.extent)) := by
    rw [keep_eq_append, List.append_assoc]
  refine sound.carve old new ?_ keep_pairwise ?_ ?_
  · intro piece kept
    rw [(mem_keep kept).1]
    exact ⟨Nat.le_refl _, Nat.le_refl _⟩
  · intro extent inside
    rw [keep_eq_append] at inside
    rcases List.mem_append.mp inside with kept | other
    · obtain ⟨rfl, large⟩ := mem_keep kept
      exact ⟨large, sound.header_aligned member⟩
    · exact sound.headers extent other
  · exact fun other inside => sound.aligned other (List.mem_of_mem_erase inside)

end HeapSound

/-- A call to `dealloc` that returns. -/
theorem Heap.dealloc_inv {heap after : Heap} {region : HeapRegion} {free : List Extent}
    {live : List Block} {block : Block} (lists : heap.Lists free)
    (sound : HeapSound region free live) (member : block ∈ live)
    (done : heap.dealloc block.ptr block.layout = .ok after) :
    after.Lists (keep block.extent free) ∧
      after.used = (heap.used + (2 ^ 64 - roundedSize block.layout)) % 2 ^ 64 := by
  have present : block.extent ∈ free ++ live.map Block.extent :=
    List.mem_append_right _ (List.mem_map_of_mem member)
  have within := sound.within _ present
  have apart : ∀ other ∈ free, block.extent.Apart other := fun other inside =>
    ((List.pairwise_append.mp sound.apart).2.2 other inside _ (List.mem_map_of_mem member)).symm
  unfold dealloc at done
  cases sized : minSize block.layout with
  | error halt =>
    rw [sized] at done
    cases done
  | ok size =>
    obtain rfl := minSize_eq_ok sized
    rw [sized] at done
    simp only [bind, Except.bind, pure, Except.pure] at done
    split at done
    · cases done
    · rename_i freed added
      cases done
      obtain ⟨free', added, lists', used⟩ := lists.addFreeRegion sound.laid apart
        (Nat.le_trans within.2 region.word) (Nat.lt_of_lt_of_le region.nonnull within.1) added
      rw [addRegion_aligned (sound.header_aligned member) added] at lists'
      exact ⟨lists'.congr rfl fun _ _ _ _ => rfl, by rw [used]⟩

/-- What every state of a run satisfies, with the free list that is in its memory. -/
structure HeapWorld.Kept (region : HeapRegion) (world : HeapWorld) (free : List Extent) : Prop where
  lists : world.heap.Lists free
  sound : HeapSound region free world.live
  used : world.heap.used = totalSize (world.live.map Block.extent)

namespace HeapWorld

variable {region : HeapRegion} {world after : HeapWorld} {free : List Extent}

theorem boot_inv {mem : Memory} (booted : boot mem region = some world) :
    ∃ free, addRegion [] region.start region.size = .ok free ∧ world.Kept region free ∧
      world.live = [] := by
  unfold boot Heap.init at booted
  split at booted
  · cases booted
  · rename_i heap initial
    cases booted
    have empty : Heap.Lists ⟨mem, none, 0⟩ [] := ⟨rfl, nofun⟩
    have laid : Laid [] := ⟨List.Pairwise.nil, nofun, nofun, nofun⟩
    obtain ⟨free, added, lists, used⟩ :=
      empty.addFreeRegion laid nofun region.word region.nonnull initial
    exact ⟨free, added, ⟨lists, HeapSound.init added, used⟩, rfl⟩

/-- The stores of the rest of the kernel miss the headers. -/
theorem Kept.store (kept : world.Kept region free) {addr : Nat} {byte : Byte}
    (permitted : world.Permits region (.store addr byte)) :
    Kept region { world with heap := { world.heap with mem := world.heap.mem.fill addr 1 byte } }
      free := by
  have outside : ∀ extent ∈ free, addr < extent.start ∨ extent.stop ≤ addr := by
    intro extent member
    rcases permitted with elsewhere | ⟨block, owned, low, high⟩
    · have within := kept.sound.within extent (List.mem_append_left _ member)
      unfold Extent.Within HeapRegion.extent Extent.stop at within
      unfold Extent.stop
      dsimp only at within
      omega
    · have apart := (List.pairwise_append.mp kept.sound.apart).2.2 extent member _
        (List.mem_map_of_mem owned)
      have fits := (@roundedSize_bounds block.layout).1
      unfold Extent.Apart Block.extent at apart
      unfold Extent.stop at apart ⊢
      dsimp only at apart
      omega
  refine ⟨kept.lists.congr rfl fun extent member offset small => ?_, kept.sound, kept.used⟩
  have roomy := (kept.sound.headers extent member).1
  have miss := outside extent member
  unfold nodeSize at roomy
  unfold Extent.stop at miss
  have elsewhere : ¬ (addr ≤ extent.start + offset ∧ extent.start + offset < addr + 1) := by omega
  have same : world.heap.mem.fill addr 1 byte (extent.start + offset) =
      world.heap.mem (extent.start + offset) := Memory.patch_outside elsewhere
  exact same

/-- What a call that returns does to the free list and to the blocks in use. -/
inductive Effect (world : HeapWorld) (free : List Extent) :
    HeapCall → List Extent → List Block → Prop where
  | refused (layout : Layout) (none : ∀ found : Found,
      ¬ found.First (roundedSize layout) (Heap.blockAlign layout) free) :
      Effect world free (.alloc layout) free world.live
  | taken (layout : Layout) (found : Found)
      (first : found.First (roundedSize layout) (Heap.blockAlign layout) free) :
      Effect world free (.alloc layout)
        (keep (found.rest (roundedSize layout)) (found.before ++ found.behind))
        (⟨found.start, layout⟩ :: world.live)
  | freed (block : Block) (member : block ∈ world.live) :
      Effect world free (.dealloc block) (keep block.extent free) (world.live.erase block)
  | stored (addr : Nat) (byte : Byte) : Effect world free (.store addr byte) free world.live

theorem totalSize_erase {live : List Block} {block : Block} (member : block ∈ live) :
    totalSize (live.map Block.extent) =
      roundedSize block.layout + totalSize ((live.erase block).map Block.extent) := by
  have perm := ((List.perm_cons_erase member).map Block.extent).map Extent.size
  unfold totalSize
  rw [perm.sum_eq]
  rfl

/-- The step lemma: what a call keeps and what it does. -/
theorem Kept.step (kept : world.Kept region free) {call : HeapCall}
    (permitted : world.Permits region call) (next : world.step call = some after) :
    ∃ free', after.Kept region free' ∧ Effect world free call free' after.live := by
  have word := region.word
  have positive := region.nonnull
  cases call with
  | alloc layout =>
    unfold HeapWorld.step at next
    dsimp only at next
    split at next
    · cases next
    · rename_i heap done
      cases next
      rcases Heap.alloc_inv kept.lists kept.sound done with ⟨-, rfl, none⟩ | ⟨_, _, wrong, _⟩
      · exact ⟨free, kept, .refused layout none⟩
      · cases wrong
    · rename_i ptr heap done
      cases next
      rcases Heap.alloc_inv kept.lists kept.sound done with ⟨wrong, _⟩ | ⟨found, first, same, lists, used⟩
      · cases wrong
      · cases same
        have sound := kept.sound.alloc first
        refine ⟨_, ⟨lists, sound, ?_⟩, .taken layout found first⟩
        have total := sound.blocks_total
        rw [used, kept.used, Nat.add_comm]
        exact Nat.mod_eq_of_lt (Nat.lt_of_le_of_lt total (by omega))
  | dealloc block =>
    unfold HeapWorld.step at next
    dsimp only at next
    split at next
    · cases next
    · rename_i heap done
      cases next
      obtain ⟨lists, used⟩ := Heap.dealloc_inv kept.lists kept.sound permitted done
      refine ⟨_, ⟨lists, kept.sound.dealloc permitted, ?_⟩, .freed block permitted⟩
      have total := kept.sound.blocks_total
      have split := totalSize_erase permitted
      rw [used, kept.used]
      dsimp only
      omega
  | store addr byte =>
    cases next
    exact ⟨free, kept.store permitted, .stored addr byte⟩

/-- The run lemma. -/
theorem kept_of_run {mem : Memory} {first : HeapWorld} (booted : boot mem region = some first)
    (run : Run HeapWorld.step (Permits region) first world) : ∃ free, world.Kept region free := by
  induction run with
  | start =>
    obtain ⟨free, -, kept, -⟩ := boot_inv booted
    exact ⟨free, kept⟩
  | step run call permitted next ih =>
    obtain ⟨free, kept⟩ := ih
    obtain ⟨free', kept', -⟩ := kept.step permitted next
    exact ⟨free', kept'⟩

end HeapWorld

namespace Heap

theorem minSize_error {layout : Layout} {halt : Halt} (failed : minSize layout = .error halt) :
    halt = .panicked := by
  unfold minSize at failed
  cases rounds : roundUp layout.size (blockAlign layout) with
  | error halt =>
    rw [rounds] at failed
    cases failed
    exact roundUp_error rounds
  | ok size =>
    rw [rounds] at failed
    cases failed

theorem giveBack_error {heap : Heap} {addr size : Nat} {halt : Halt}
    (failed : heap.giveBack addr size = .error halt) : halt = .panicked := by
  unfold giveBack addFreeRegion at failed
  split at failed
  · cases rounds : roundUp addr nodeAlign with
    | error halt =>
      rw [rounds] at failed
      cases failed
      exact roundUp_error rounds
    | ok start =>
      rw [rounds] at failed
      simp only [bind, Except.bind, pure, Except.pure] at failed
      split at failed <;> cases failed
  · cases failed

/-- The walk over the free list ends. -/
theorem alloc_error {heap : Heap} {region : HeapRegion} {free : List Extent} {live : List Block}
    {layout : Layout} {halt : Halt} (lists : heap.Lists free) (sound : HeapSound region free live)
    (failed : heap.alloc layout = .error halt) : halt = .panicked := by
  unfold alloc at failed
  cases sized : minSize layout with
  | error halt =>
    rw [sized] at failed
    cases failed
    exact minSize_error sized
  | ok size =>
    have walk : heap.findRegion size (blockAlign layout) = _ :=
      findFrom_eq lists.chain lists.sizes sound.short
    rw [sized] at failed
    simp only [bind, Except.bind, pure, Except.pure, walk] at failed
    cases searched : findIn size (blockAlign layout) free with
    | error halt =>
      rw [searched] at failed
      cases failed
      exact findIn_error searched
    | ok found =>
      rw [searched] at failed
      cases found with
      | none => cases failed
      | some found =>
        simp only [Except.map, Option.map_some] at failed
        split at failed
        · rename_i returned
          cases failed
          exact giveBack_error returned
        · cases failed

end Heap

namespace HeapWorld

variable {region : HeapRegion} {mem : Memory} {first world : HeapWorld}

/-- In every state of every run the blocks in use are aligned, large enough and inside the
heap region, they and the regions of the free list are disjoint, the free list ends and
meets no node twice, the bytes in use are counted exactly, and no search is endless. -/
theorem kernel_heap_sound (booted : boot mem region = some first)
    (run : Run HeapWorld.step (Permits region) first world) :
    (∀ block ∈ world.live, block.layout.align ∣ block.ptr ∧
      block.layout.size ≤ block.extent.size ∧ block.extent.Within region.extent) ∧
    (∃ free, world.heap.Lists free ∧ (free.map Extent.start).Nodup ∧
      (∀ extent ∈ free, nodeSize ≤ extent.size ∧ extent.Within region.extent) ∧
      (free ++ world.live.map Block.extent).Pairwise Extent.Apart) ∧
    world.heap.used = (world.live.map fun block => roundedSize block.layout).sum ∧
    ∀ layout, world.heap.alloc layout ≠ .error .endless := by
  obtain ⟨free, lists, sound, used⟩ := kept_of_run booted run
  refine ⟨?_, ⟨free, lists, lists.chain.nodup, ?_, sound.apart⟩, ?_, ?_⟩
  · intro block member
    have aligned := Nat.dvd_of_mod_eq_zero (sound.aligned block member)
    exact ⟨Nat.dvd_trans align_dvd_blockAlign aligned, roundedSize_bounds.1,
      sound.within _ (List.mem_append_right _ (List.mem_map_of_mem member))⟩
  · intro extent member
    exact ⟨Nat.le_of_lt (sound.headers extent member).1,
      sound.within extent (List.mem_append_left _ member)⟩
  · rw [used, totalSize, List.map_map]
    rfl
  · intro layout failed
    cases Heap.alloc_error lists sound failed

/-- Three words with the alignment of a header. -/
private def small : Layout := ⟨24, 8, ⟨3, rfl⟩⟩

private def smallRegion : HeapRegion := ⟨4096, 256, by decide, by decide⟩

private def smallHeap : HeapWorld :=
  ⟨⟨Heap.setNext (Heap.setSize (fun _ => 0) 4096 256) 4096 none, some 4096, 0⟩, []⟩

/-- Two blocks are taken from one region, the first is written to and freed. -/
theorem kernel_heap_sound_two : ∃ world, boot (fun _ => 0) smallRegion = some smallHeap ∧
    Run HeapWorld.step (Permits smallRegion) smallHeap world ∧
    world.live.map Block.ptr = [4120] ∧
    world.heap.used = (world.live.map fun block => roundedSize block.layout).sum := by
  have seen : (Library.follow HeapWorld.step
      (fun world call => decide (world.Permits smallRegion call)) smallHeap
      [.alloc small, .alloc small, .store 4100 255, .dealloc ⟨4096, small⟩]).any
      (fun world => decide (world.live.map Block.ptr = [4120])) = true := by
    decide +kernel
  obtain ⟨world, _, run, look⟩ := Run.seen (fun _ _ passes => of_decide_eq_true passes) seen
  exact ⟨world, rfl, run, of_decide_eq_true look, (kernel_heap_sound rfl run).2.2.1⟩

end HeapWorld

end RustPosix.Mm
