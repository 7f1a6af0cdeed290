import RustPosix.Mm.HeapRun

/-! Which calls lose bytes of the kernel heap: alignment gaps in front of a block, remainders
of at most a header behind it, and freed blocks of the size of a header. -/

namespace RustPosix.Mm

open Library

/-- The bytes that are free or in use. -/
def accounted (free : List Extent) (live : List Block) : Nat :=
  totalSize free + totalSize (live.map Block.extent)

theorem totalSize_keep {extent : Extent} {free : List Extent} :
    totalSize (keep extent free) ≤ extent.size + totalSize free ∧
      (totalSize (keep extent free) = extent.size + totalSize free ↔
        extent.size = 0 ∨ nodeSize < extent.size) := by
  unfold keep
  split
  · rename_i small
    omega
  · rename_i large
    rw [totalSize_cons]
    omega

/-- A freed block is larger than a header. -/
theorem nodeSize_lt_roundedSize {layout : Layout} :
    nodeSize < roundedSize layout ↔
      nodeSize < layout.size ∨ (0 < layout.size ∧ nodeSize < layout.align) := by
  have positive : 0 < Heap.blockAlign layout := Nat.pos_of_isPowerOfTwo blockAlign_power
  have eight := Nat.mod_eq_zero_of_dvd (@nodeAlign_dvd_blockAlign layout)
  have wide : nodeSize < Heap.blockAlign layout ↔ nodeSize < layout.align := by
    unfold Heap.blockAlign nodeSize nodeAlign
    omega
  have below := Nat.mod_lt (layout.size + Heap.blockAlign layout - 1) positive
  have multiple := @Nat.dvd_sub_mod (Heap.blockAlign layout) (layout.size + Heap.blockAlign layout - 1)
  unfold roundedSize
  rw [clearLow_eq blockAlign_power, lt_max_iff, or_iff_left (Nat.lt_irrefl nodeSize), ← wide]
  have low : layout.size ≤ layout.size + Heap.blockAlign layout - 1 -
      (layout.size + Heap.blockAlign layout - 1) % Heap.blockAlign layout := by omega
  have high : layout.size + Heap.blockAlign layout - 1 - (layout.size + Heap.blockAlign layout - 1) %
      Heap.blockAlign layout < layout.size + Heap.blockAlign layout := by omega
  generalize layout.size + Heap.blockAlign layout - 1 - (layout.size + Heap.blockAlign layout - 1) %
    Heap.blockAlign layout = rounded at *
  generalize Heap.blockAlign layout = align at *
  unfold nodeSize nodeAlign at *
  constructor
  · intro large
    by_contra small
    have narrow : align = 8 ∨ align = 16 ∨ layout.size = 0 := by omega
    rcases narrow with rfl | rfl | none
    · omega
    · omega
    · -- no multiple of the alignment lies strictly between zero and the alignment
      have zero := Nat.eq_zero_of_dvd_of_lt multiple (by omega)
      omega
  · rintro (large | ⟨some, wide⟩)
    · omega
    · have atLeast := Nat.le_of_dvd (by omega) multiple
      omega

namespace HeapWorld

variable {region : HeapRegion} {world after first last : HeapWorld} {free : List Extent}
  {call : HeapCall} {calls : List HeapCall}

/-- The call loses no byte: the first free region with room starts at the alignment of the
block and has nothing or more than a header left behind it, or the block that is freed is
larger than a header. -/
def Keeps (world : HeapWorld) : HeapCall → Prop
  | .alloc layout => ∀ free, world.heap.Lists free → ∀ found : Found,
      found.First (roundedSize layout) (Heap.blockAlign layout) free →
        found.region.start % Heap.blockAlign layout = 0 ∧
        (found.region.size = roundedSize layout ∨
          roundedSize layout + nodeSize < found.region.size)
  | .dealloc block => nodeSize < block.layout.size ∨
      (0 < block.layout.size ∧ nodeSize < block.layout.align)
  | .store _ _ => True

/-- No call of the sequence loses a byte. -/
def Lossless : HeapWorld → List HeapCall → Prop
  | _, [] => True
  | world, call :: rest =>
    world.Keeps call ∧ ∀ after, world.step call = some after → Lossless after rest

/-- The first region with room, cut. -/
private theorem accounted_taken {layout : Layout} {found : Found} {live : List Block}
    (first : found.First (roundedSize layout) (Heap.blockAlign layout) free) :
    accounted (keep (found.rest (roundedSize layout)) (found.before ++ found.behind))
        (⟨found.start, layout⟩ :: live) ≤ accounted free live ∧
      (accounted (keep (found.rest (roundedSize layout)) (found.before ++ found.behind))
          (⟨found.start, layout⟩ :: live) = accounted free live ↔
        found.region.start % Heap.blockAlign layout = 0 ∧
        (found.region.size = roundedSize layout ∨
          roundedSize layout + nodeSize < found.region.size)) := by
  obtain ⟨-, aligned, low, near⟩ := (roundUp_eq_ok blockAlign_power).mp first.fits.rounds
  have room := first.fits.room
  have kept := @totalSize_keep (found.rest (roundedSize layout)) (found.before ++ found.behind)
  have split : totalSize free = found.region.size + totalSize (found.before ++ found.behind) := by
    rw [first.split, totalSize_append, totalSize_cons, totalSize_append]
    omega
  have block : totalSize ((Block.mk found.start layout :: live).map Block.extent) =
      roundedSize layout + totalSize (live.map Block.extent) := rfl
  have rest : (found.rest (roundedSize layout)).size =
      found.region.start + found.region.size - (found.start + roundedSize layout) := rfl
  -- the block starts at the region exactly if the region is aligned
  have gap : found.region.start % Heap.blockAlign layout = 0 ↔ found.start = found.region.start := by
    constructor
    · intro multiple
      have behind := (Nat.dvd_sub (Nat.dvd_of_mod_eq_zero aligned) (Nat.dvd_of_mod_eq_zero multiple))
      have zero := Nat.eq_zero_of_dvd_of_lt behind (by omega)
      omega
    · intro same
      rw [← same, aligned]
  unfold accounted
  unfold Extent.stop at room
  rw [split, block, gap]
  omega

theorem accounted_step (kept : world.Kept region free) {free' : List Extent} {live : List Block}
    (effect : Effect world free call free' live) :
    accounted free' live ≤ accounted free world.live ∧
      (accounted free' live = accounted free world.live ↔ world.Keeps call) := by
  cases effect with
  | refused layout none =>
    refine ⟨Nat.le_refl _, fun _ free' lists found first => ?_, fun _ => rfl⟩
    rw [← kept.lists.unique lists] at first
    exact (none found first).elim
  | taken layout found first =>
    obtain ⟨least, exactly⟩ := @accounted_taken free layout found world.live first
    refine ⟨least, exactly.trans ⟨fun holds free' lists other also => ?_, fun keeps => ?_⟩⟩
    · rw [← kept.lists.unique lists] at also
      have same := findIn_eq_some.mpr also
      rw [findIn_eq_some.mpr first] at same
      cases same
      exact holds
    · exact keeps free kept.lists found first
  | freed block member =>
    have kept := @totalSize_keep block.extent free
    have split := totalSize_erase member
    have size : block.extent.size = roundedSize block.layout := rfl
    have header := @nodeSize_le_roundedSize block.layout
    have large : world.Keeps (.dealloc block) ↔ nodeSize < roundedSize block.layout :=
      nodeSize_lt_roundedSize.symm
    unfold accounted
    rw [large]
    unfold nodeSize at *
    omega
  | stored addr byte => exact ⟨Nat.le_refl _, fun _ => trivial, fun _ => rfl⟩

theorem accounted_run (kept : world.Kept region free)
    (path : Library.follow HeapWorld.step (fun world call => decide (world.Permits region call))
      world calls = some last) :
    ∃ free', last.Kept region free' ∧ accounted free' last.live ≤ accounted free world.live ∧
      (accounted free' last.live = accounted free world.live ↔ world.Lossless calls) := by
  induction calls generalizing world free with
  | nil =>
    cases path
    exact ⟨free, kept, Nat.le_refl _, by simp [Lossless]⟩
  | cons call rest ih =>
    obtain ⟨after, permitted, next, path⟩ := follow_cons path
    obtain ⟨free', kept', effect⟩ := kept.step (of_decide_eq_true permitted) next
    obtain ⟨least, exactly⟩ := accounted_step kept effect
    obtain ⟨free'', kept'', lower, same⟩ := ih kept' path
    refine ⟨free'', kept'', Nat.le_trans lower least, ?_⟩
    have tail : (∀ after, world.step call = some after → Lossless after rest) ↔
        after.Lossless rest := by
      rw [next]
      simp
    rw [Lossless, tail, ← exactly, ← same]
    omega

/-- A sequence of calls on an aligned region leaves every byte free or in use exactly if
the region is not lost to `init` and no call of the sequence loses a byte. -/
theorem heap_conserved_iff {mem : Memory} (aligned : region.start % nodeAlign = 0)
    (booted : boot mem region = some first)
    (path : Library.follow HeapWorld.step (fun world call => decide (world.Permits region call))
      first calls = some last) (lists : last.heap.Lists free) :
    totalSize free + last.heap.used = region.size ↔
      (region.size = 0 ∨ nodeSize < region.size) ∧ first.Lossless calls := by
  obtain ⟨start, added, kept, none⟩ := boot_inv booted
  obtain ⟨free', kept', least, exactly⟩ := accounted_run kept path
  have initial := @totalSize_keep region.extent []
  obtain rfl := kept'.lists.unique lists
  obtain rfl := addRegion_aligned aligned added
  have all : accounted (keep region.extent []) first.live = totalSize (keep region.extent []) := by
    rw [accounted, none]
    rfl
  have size : region.extent.size = region.size := rfl
  rw [kept'.used, ← exactly]
  unfold HeapRegion.extent at *
  unfold accounted at *
  rw [totalSize_nil] at initial
  omega

private theorem quarter_nonnull : 0 < 4096 := by decide

private theorem quarter_word : 4096 + 256 ≤ 2 ^ 64 := by decide

private def quarter : HeapRegion := ⟨4096, 256, quarter_nonnull, quarter_word⟩

private def quarterHeap : HeapWorld :=
  ⟨⟨Heap.setNext (Heap.setSize (fun _ => 0) 4096 256) 4096 none, some 4096, 0⟩, []⟩

private theorem boot_quarter : boot (fun _ => 0) quarter = some quarterHeap := rfl

private theorem word_power : Nat.isPowerOfTwo 8 := ⟨3, rfl⟩

private def words (count : Nat) : Layout := ⟨8 * count, 8, word_power⟩

/-- A list of two nodes, read off the memory. -/
private theorem lists_two {heap : Heap} {one other : Extent}
    (seen : heap.head = some one.start ∧ Heap.nextAt heap.mem one.start = some other.start ∧
      Heap.nextAt heap.mem other.start = none ∧ Heap.sizeAt heap.mem one.start = one.size ∧
      Heap.sizeAt heap.mem other.start = other.size) : heap.Lists [one, other] := by
  obtain ⟨head, next, last, size, size'⟩ := seen
  refine ⟨⟨head, next, last⟩, ?_⟩
  intro region member
  rcases List.mem_cons.mp member with rfl | member
  · exact size
  · rw [List.mem_singleton.mp member]
    exact size'

/-- Three words are taken and freed. -/
theorem heap_conserved_iff_three_words :
    ∃ last free, boot (fun _ => 0) quarter = some quarterHeap ∧
      Library.follow HeapWorld.step (fun world call => decide (world.Permits quarter call))
        quarterHeap [.alloc (words 3), .dealloc ⟨4096, words 3⟩] = some last ∧
      last.heap.Lists free ∧ totalSize free + last.heap.used = 256 ∧
      quarterHeap.Lossless [.alloc (words 3), .dealloc ⟨4096, words 3⟩] := by
  have seen : (Library.follow HeapWorld.step
      (fun world call => decide (world.Permits quarter call)) quarterHeap
      [.alloc (words 3), .dealloc ⟨4096, words 3⟩]).any
      (fun world => decide ((world.heap.head = some 4096 ∧
        Heap.nextAt world.heap.mem 4096 = some 4120 ∧ Heap.nextAt world.heap.mem 4120 = none ∧
        Heap.sizeAt world.heap.mem 4096 = 24 ∧ Heap.sizeAt world.heap.mem 4120 = 232) ∧
        world.heap.used = 0)) = true := by
    decide +kernel
  obtain ⟨last, path, _, look⟩ := Run.seen (fun _ _ passes => of_decide_eq_true passes) seen
  obtain ⟨nodes, used⟩ := of_decide_eq_true look
  have lists : last.heap.Lists [⟨4096, 24⟩, ⟨4120, 232⟩] := lists_two nodes
  have total : totalSize [⟨4096, 24⟩, ⟨4120, 232⟩] + last.heap.used = 256 := by rw [used]; rfl
  exact ⟨last, _, boot_quarter, path, lists, total,
    ((heap_conserved_iff rfl boot_quarter path lists).mp total).2⟩

/-- A block of two words is lost when it is freed. -/
theorem heap_loses_header_block :
    ∃ last free, boot (fun _ => 0) quarter = some quarterHeap ∧
      Run HeapWorld.step (Permits quarter) quarterHeap last ∧ last.live = [] ∧
      last.heap.Lists free ∧ totalSize free + last.heap.used = 240 ∧ quarter.size = 256 := by
  have seen : (Library.follow HeapWorld.step
      (fun world call => decide (world.Permits quarter call)) quarterHeap
      [.alloc (words 2), .dealloc ⟨4096, words 2⟩]).any
      (fun world => decide (world.live = [] ∧ world.heap.head = some 4112 ∧
        Heap.nextAt world.heap.mem 4112 = none ∧ Heap.sizeAt world.heap.mem 4112 = 240 ∧
        world.heap.used = 0)) = true := by
    decide +kernel
  obtain ⟨last, _, run, look⟩ := Run.seen (fun _ _ passes => of_decide_eq_true passes) seen
  obtain ⟨none, head, next, size, used⟩ := of_decide_eq_true look
  have lists : last.heap.Lists [⟨4112, 240⟩] := by
    refine ⟨⟨head, next⟩, fun region member => ?_⟩
    rw [List.mem_singleton.mp member]
    exact size
  exact ⟨last, _, boot_quarter, run, none, lists, by rw [used]; rfl, rfl⟩

end HeapWorld

end RustPosix.Mm
