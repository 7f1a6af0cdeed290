import RustPosix.Libc.Refines

/-! Every call does to the memory what it does to the ledger. -/

namespace RustPosix.Libc

open Library Mm

/-- The blocks in use, the one at `freed` apart, keep their bytes. -/
def Ledger.Keeps (ledger : Ledger) (mem after : Memory) (freed : Nat) : Prop :=
  ∀ block ∈ ledger.books.live, block.ptr ≠ freed → ∀ capacity, ledger.Room block.ptr capacity →
    Unchanged mem after ⟨block.ptr, capacity⟩

/-- The outcome of a call on both levels. -/
structure Simulates (ledger : Ledger) (mem : Memory) (freed : Nat) (result : Nat × UserHeap)
    (expected : Nat × Ledger) : Prop where
  ptr : result.1 = expected.1
  refines : Refines result.2 expected.2
  keeps : ledger.Keeps mem result.2.mem freed

section Malloc

variable {heap : UserHeap} {ledger : Ledger} {size : Nat} {answer : Answer}

theorem Simulates.unchanged {mem : Memory} {ptr : Nat} (refines : Refines heap ledger) (freed : Nat)
    (same : heap.mem = mem) : Simulates ledger mem freed (ptr, heap) (ptr, ledger) :=
  ⟨rfl, refines, fun _ _ _ _ _ _ _ _ => same ▸ rfl⟩

/-- What is written to a new mapping only does not touch a block. -/
theorem keeps_of_fresh (sound : ledger.Sound) {addr length : Nat} {mem : Memory}
    (fresh : Fresh ledger.mappings length (.ok addr))
    (same : ∀ extent, Extent.Apart ⟨addr, length⟩ extent → Unchanged heap.mem mem extent) :
    ledger.Keeps heap.mem mem 0 := by
  intro block _ _ capacity room
  obtain ⟨mapping, member, -, -, within⟩ := sound.room_mapping room
  exact same _ ((fresh.2.2 mapping member).symm.mono within).symm

theorem mallocLarge_simulates (refines : Refines heap ledger) (sound : ledger.Sound)
    (large : smallThreshold < size) (fresh : Fresh ledger.mappings (mappingSize size) answer) :
    Option.Rel (Simulates ledger heap.mem 0) (heap.mallocLarge size answer)
      (ledger.mallocLarge size answer) := by
  unfold UserHeap.mallocLarge Ledger.mallocLarge
  cases aligned : alignedSize size with
  | none => exact .none
  | some length =>
    obtain ⟨-, rfl⟩ := alignedSize_eq_some aligned
    rw [mappingSize, if_pos large] at fresh
    generalize whole : (size + blockHeaderSize + 4095) / 4096 * 4096 = length at fresh
    have sized : blockHeaderSize < length := by
      have positive := Nat.zero_lt_of_lt large
      omega
    cases answer with
    | error errno =>
      have failed : MapFailed (2 ^ 64 - errno) := Or.inr (by have := fresh.2; omega)
      change Option.Rel _ (if MapFailed (2 ^ 64 - errno) then _ else _)
        (if MapFailed (2 ^ 64 - errno) then _ else _)
      rw [if_pos failed, if_pos failed]
      exact .some (Simulates.unchanged refines 0 rfl)
    | ok addr =>
      have filled : ∀ extent, Extent.Apart ⟨addr, length⟩ extent →
          Unchanged heap.mem (heap.mem.fill addr length 0) extent := fun _ apart => .patch apart
      change Option.Rel _ (if MapFailed addr then _ else _) (if MapFailed addr then _ else _)
      by_cases failed : MapFailed addr
      · rw [if_pos failed, if_pos failed]
        exact .some ⟨rfl, refines.map sound (by omega) fresh filled,
          keeps_of_fresh sound fresh filled⟩
      · rw [if_neg failed, if_neg failed]
        have written : ∀ extent, Extent.Apart ⟨addr, length⟩ extent →
            Unchanged heap.mem (((heap.mem.fill addr length 0).write64 addr
              (BitVec.ofNat 64 length)).write64 (addr + 8) largeMagic) extent := by
          intro extent apart
          refine ((filled extent apart).trans (.write64 (apart.mono ?_))).trans
            (.write64 (apart.mono ?_))
          all_goals
            refine ⟨by simp only; omega, ?_⟩
            simp only [Extent.stop, blockHeaderSize] at sized ⊢
            omega
        refine .some ⟨rfl, ?_, keeps_of_fresh sound fresh written⟩
        refine (refines.map sound (by omega) fresh written).grant _ _ fun mapping large place => ?_
        have start : mapping.start = addr := (Nat.add_right_cancel place).symm
        obtain ⟨mapped, -⟩ := sound.map (by omega) fresh
        have same : mapping = ⟨addr, length⟩ :=
          mapped.mapping_eq large.member List.mem_cons_self start
        subst same
        refine ⟨?_, Memory.read64_write64 ..⟩
        have apart : Extent.Apart ⟨addr + 8, 8⟩ ⟨addr, 8⟩ := Or.inr (Nat.le_refl _)
        exact ((Unchanged.write64 apart).firstWord (Nat.le_refl 8)).trans
          (Memory.read64_write64 ..)

theorem mallocArena_simulates {idx : Nat} (refines : Refines heap ledger) (sound : ledger.Sound)
    (fresh : Fresh ledger.mappings arenaSize answer) :
    Simulates ledger heap.mem 0 (heap.mallocArena idx answer)
      (ledger.mallocArena idx size answer) := by
  unfold UserHeap.mallocArena Ledger.mallocArena
  rw [refines.records]
  by_cases room : maxArenas ≤ ledger.records.length
  · rw [if_pos room, if_pos room]
    exact Simulates.unchanged refines 0 rfl
  rw [if_neg room, if_neg room]
  cases answer with
  | error errno =>
    have failed : MapFailed (2 ^ 64 - errno) := Or.inr (by have := fresh.2; omega)
    change Simulates _ _ _ (if MapFailed (2 ^ 64 - errno) then _ else _)
      (if MapFailed (2 ^ 64 - errno) then _ else _)
    rw [if_pos failed, if_pos failed]
    exact Simulates.unchanged refines 0 rfl
  | ok addr =>
    have filled : ∀ extent, Extent.Apart ⟨addr, arenaSize⟩ extent →
        Unchanged heap.mem (heap.mem.fill addr arenaSize 0) extent := fun _ apart => .patch apart
    change Simulates _ _ _ (if MapFailed addr then _ else _) (if MapFailed addr then _ else _)
    by_cases failed : MapFailed addr
    · rw [if_pos failed, if_pos failed]
      exact ⟨rfl, refines.map sound (by decide) fresh filled, keeps_of_fresh sound fresh filled⟩
    · rw [if_neg failed, if_neg failed]
      generalize words : [arenaMagic, BitVec.ofNat 64 idx, BitVec.ofNat 64 (arenaHeaderSize +
        sizeClass idx), BitVec.ofNat 64 (heap.currentArenas idx)] = header
      have written : ∀ extent, Extent.Apart ⟨addr, arenaSize⟩ extent →
          Unchanged heap.mem ((heap.mem.fill addr arenaSize 0).writeWords addr header) extent := by
        intro extent apart
        refine (filled extent apart).trans fun byte low high => Memory.writeWords_outside ?_
        rw [← words]
        simp only [Extent.Apart, Extent.stop, arenaSize, List.length_cons, List.length_nil] at *
        omega
      obtain ⟨mapped, clear⟩ := sound.map (by decide) fresh
      refine ⟨rfl, ?_, keeps_of_fresh sound fresh written⟩
      have word : ((heap.mem.fill addr arenaSize 0).writeWords addr header).read64 (addr + 16) =
          BitVec.ofNat 64 (arenaHeaderSize + sizeClass idx) := by
        have all := Memory.readWords_writeWords (heap.mem.fill addr arenaSize 0) addr header
        rw [← words] at all ⊢
        simp only [List.length_cons, List.length_nil, Memory.readWords, List.cons.injEq] at all
        exact all.2.2.1
      refine ((refines.map sound (by decide) fresh written).openArena mapped clear.arena word).grant _ _ ?_
      -- the block is behind the header of an arena, not of a mapping of its own
      intro mapping large place
      have page := (mapped.pages mapping large.member).1
      have page' := fresh.1
      simp only [arenaHeaderSize, blockHeaderSize] at place
      omega

theorem mallocSmall_simulates (refines : Refines heap ledger) (sound : ledger.Sound)
    (small : size ≤ smallThreshold) (fresh : Fresh ledger.mappings arenaSize answer) :
    Simulates ledger heap.mem 0 (heap.mallocSmall size answer) (ledger.mallocSmall size answer) := by
  obtain ⟨valid, fits⟩ := classIdx_fits small
  have still : (ledger.mallocSmall size answer).2.Sound := (sound.mallocSmall small fresh rfl).1
  unfold Ledger.mallocSmall at still ⊢
  unfold UserHeap.mallocSmall
  dsimp only at still ⊢
  by_cases nonnull : heap.freeLists (classIdx size) ≠ 0
  · obtain ⟨rest, first⟩ := refines.free_eq_cons nonnull
    rw [if_pos nonnull]
    rw [first] at still ⊢
    generalize heap.freeLists (classIdx size) = node at *
    obtain ⟨waits, record, place, -⟩ := sound.free _ node (first ▸ List.mem_cons_self)
    have bytes := sound.room_wide (.small place)
    have inside : Extent.Within ⟨node + 8, 8⟩ ⟨node, sizeClass record.classIdx⟩ :=
      ⟨Nat.le_add_right _ _, by simp only [Extent.stop]; omega⟩
    refine ⟨rfl, ?_, fun block live _ capacity room => .write64 ?_⟩
    · have popped := (refines.pop first).grant node size fun mapping large same =>
        absurd same (sound.small_not_large place large)
      exact popped.write still List.mem_cons_self (.small place) inside
    · have differ : node ≠ block.ptr := ((sound.freed node waits).2 block live).symm
      exact (sound.room_apart (.small place) room differ).mono inside
  · have null : heap.freeLists (classIdx size) = 0 := not_not.mp nonnull
    rw [if_neg nonnull]
    rw [refines.free_eq_nil null, congrFun refines.current (classIdx size)]
    dsimp only
    generalize current : ledger.current (classIdx size) = arena
    by_cases opened : arena = 0
    · rw [if_neg fun room => room.1 opened, if_neg fun room => room.1 opened]
      exact mallocArena_simulates refines sound fresh
    · obtain ⟨record, member, start, -⟩ := sound.current (classIdx size) (current ▸ opened)
      obtain rfl : record.start = arena := start.trans current
      have arena := sound.arena record member
      have most := arena.bump
      have offset : (heap.mem.read64 (record.start + 16)).toNat = ledger.bump record.start := by
        rw [refines.bumps record member, BitVec.toNat_ofNat]
        exact Nat.mod_eq_of_lt (Nat.lt_of_le_of_lt most (by decide))
      rw [offset]
      by_cases room : record.start ≠ 0 ∧
          ledger.bump record.start + sizeClass (classIdx size) ≤ arenaSize
      · rw [if_pos room, if_pos room]
        refine ⟨rfl, (refines.extend sound member).grant _ _ fun mapping large place => ?_,
          fun block live _ capacity room => .write64 ?_⟩
        · have bytes := (sizeClass_bounds valid).1
          have same := sound.mapping_unique arena.mapped large.member
            ⟨Nat.le_add_right _ _, Nat.add_lt_add_left (show ledger.bump record.start < arenaSize by
              omega) _⟩
            ⟨place ▸ Nat.le_add_right _ _, place ▸ Nat.add_lt_add_left large.behind _⟩
          exact absurd (congrArg Extent.start same) (large.alone record member)
        · refine ((sound.room_apart_header room member).symm.mono ⟨Nat.le_add_right _ _, ?_⟩)
          simp only [Extent.stop, arenaHeaderSize]
          omega
      · rw [if_neg room, if_neg room]
        exact mallocArena_simulates refines sound fresh

theorem malloc_simulates (refines : Refines heap ledger) (sound : ledger.Sound)
    (fresh : Fresh ledger.mappings (mappingSize size) answer) :
    Option.Rel (Simulates ledger heap.mem 0) (heap.malloc size answer)
      (ledger.malloc size answer) := by
  unfold UserHeap.malloc Ledger.malloc
  by_cases empty : size = 0
  · rw [if_pos empty, if_pos empty]
    exact .some (Simulates.unchanged refines 0 rfl)
  rw [if_neg empty, if_neg empty]
  by_cases large : smallThreshold < size
  · rw [if_pos large, if_pos large]
    exact mallocLarge_simulates refines sound large fresh
  · rw [if_neg large, if_neg large]
    rw [mappingSize, if_neg large] at fresh
    exact .some (mallocSmall_simulates refines sound (Nat.le_of_not_lt large) fresh)

end Malloc

section Free

variable {heap : UserHeap} {ledger : Ledger} {ptr : Nat}

/-- The guard of `free` takes the block for one that is already free. -/
def UserHeap.marked (heap : UserHeap) (ptr : Nat) : Bool :=
  decide (heap.mem.read64 (ptr + 8) = freeMagic)

/-- What may be given to `free`: null, a block in use, or a small block that is still free. -/
def Books.Frees (books : Books) (ptr : Nat) : Prop :=
  ptr = 0 ∨ (∃ block ∈ books.live, block.ptr = ptr) ∨ ptr ∈ books.freed

instance (books : Books) (ptr : Nat) : Decidable (books.Frees ptr) :=
  inferInstanceAs (Decidable (_ ∨ (∃ block ∈ books.live, block.ptr = ptr) ∨ _))

theorem writeNode_mark (mem : Memory) (node next : Nat) :
    (writeNode mem node next).read64 (node + 8) = freeMagic := by
  have apart : Extent.Apart ⟨node, 8⟩ ⟨node + 8, 8⟩ := Or.inl (Nat.le_refl _)
  exact ((Unchanged.write64 apart).firstWord (Nat.le_refl 8)).trans (Memory.read64_write64 ..)

theorem nextFree_writeNode (mem : Memory) {node next : Nat} (small : next < 2 ^ 64) :
    nextFree (writeNode mem node next) node = link next := by
  rw [nextFree, writeNode, Memory.read64_write64, BitVec.toNat_ofNat, Nat.mod_eq_of_lt small]

theorem unchanged_writeNode {mem : Memory} {node next : Nat} {extent : Extent}
    (apart : Extent.Apart ⟨node, 16⟩ extent) : Unchanged mem (writeNode mem node next) extent := by
  refine Unchanged.trans (.write64 (apart.mono ?_)) (.write64 (apart.mono ?_))
  · exact ⟨Nat.le_add_right _ _, Nat.le_refl _⟩
  · exact ⟨Nat.le_refl _, Nat.add_le_add_left (show 8 ≤ 16 by decide) _⟩

/-- A block in use goes to the list of its class. -/
theorem free_small_refines (refines : Refines heap ledger) (sound : ledger.Sound) {block : Block}
    {record : ArenaRecord} (live : block ∈ ledger.books.live)
    (small : ledger.Small record block.ptr) :
    Refines { heap with
        mem := writeNode heap.mem block.ptr (heap.freeLists record.classIdx)
        freeLists := Function.update heap.freeLists record.classIdx block.ptr }
      { ledger with
        free := Function.update ledger.free record.classIdx
          (block.ptr :: ledger.free record.classIdx)
        books := ledger.books.release block.ptr true } := by
  have bytes := sound.room_wide (.small small)
  have node : Extent.Within ⟨block.ptr, 16⟩ ⟨block.ptr, sizeClass record.classIdx⟩ :=
    ⟨Nat.le_refl _, Nat.add_le_add_left bytes _⟩
  -- the block is still in use when its node is written
  have written : Refines { heap with
      mem := writeNode heap.mem block.ptr (heap.freeLists record.classIdx) } ledger :=
    refines.frame sound fun _ notes => unchanged_writeNode
      ((sound.room_apart_notes (.small small) (sound.live_not_freed live) notes).mono node)
  have nonnull := (sound.room_nonnull (.small small)).1
  exact (written.retire_small (writeNode_mark ..)).push (Nat.ne_of_gt nonnull)
    (nextFree_writeNode _ (refines.head_lt sound _))

theorem retire_refines (refines : Refines heap ledger) :
    Refines heap { ledger with books := ledger.books.release ptr false } where
  mappings := refines.mappings
  records := refines.records
  current := refines.current
  bumps := refines.bumps
  lists := refines.lists
  marks := refines.marks
  headers := fun block live => refines.headers block (List.mem_of_mem_filter live)

theorem free_simulates (refines : Refines heap ledger) (sound : ledger.Sound)
    (frees : ledger.books.Frees ptr) :
    Simulates ledger heap.mem ptr (0, heap.free ptr)
      (0, ledger.release ptr (heap.marked ptr)) := by
  unfold UserHeap.free Ledger.release
  by_cases null : ptr = 0
  · rw [if_pos null, if_pos null]
    exact Simulates.unchanged refines ptr rfl
  have table : recordOf heap.arenaRecords ptr = recordOf ledger.records ptr := by
    rw [refines.records]
  rw [if_neg null, if_neg null, table]
  rcases frees with zero | ⟨block, live, place⟩ | freed
  · exact absurd zero null
  · obtain ⟨capacity, room, -⟩ := sound.live block live
    rw [place] at room
    cases room with
    | @small record _ small =>
      rw [sound.recordOf_small small]
      dsimp only
      by_cases mark : heap.mem.read64 (ptr + 8) = freeMagic
      · have marked : heap.marked ptr = true := decide_eq_true mark
        rw [if_pos mark, marked]
        exact ⟨rfl, refines.retire_small mark, fun _ _ _ _ _ _ _ _ => rfl⟩
      · have marked : heap.marked ptr = false := decide_eq_false mark
        rw [if_neg mark, marked]
        subst place
        refine ⟨rfl, free_small_refines refines sound live small, ?_⟩
        intro other _ differ capacity room
        have bytes := sound.room_wide (.small small)
        exact unchanged_writeNode ((sound.room_apart (.small small) room differ.symm).mono
          ⟨Nat.le_refl _, Nat.add_le_add_left bytes _⟩)
    | @large mapping large =>
      rw [sound.recordOf_large large ⟨Nat.le_add_right _ _, Nat.add_lt_add_left large.behind _⟩]
      obtain ⟨size, magic⟩ := refines.headers block live mapping large place
      have below := (sound.pages mapping large.member).2.2
      have length : (heap.mem.read64 mapping.start).toNat = mapping.size := by
        rw [size, BitVec.toNat_ofNat]
        exact Nat.mod_eq_of_lt (Nat.lt_of_le_of_lt (Nat.le_add_left _ _) below)
      dsimp only
      rw [Nat.add_sub_cancel, if_pos magic, length]
      refine ⟨rfl, ?_, fun other _ differ capacity room => .write64 ?_⟩
      · exact (retire_refines refines).unmap (sound.retire _) large fun other member =>
          of_decide_eq_true (List.mem_filter.mp member).2
      · exact (sound.room_apart_large room large).symm.mono ⟨Nat.le_add_right _ _, Nat.le_refl _⟩
  · obtain ⟨⟨record, small⟩, -⟩ := sound.freed ptr freed
    have mark := refines.marks ptr freed
    have marked : heap.marked ptr = true := decide_eq_true mark
    rw [sound.recordOf_small small, marked]
    dsimp only
    rw [if_pos mark]
    exact ⟨rfl, refines.retire_small mark, fun _ _ _ _ _ _ _ _ => rfl⟩

end Free

end RustPosix.Libc
