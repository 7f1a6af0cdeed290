import RustPosix.Libc.Ledger

/-! Where blocks can lie: the slots of the arenas and the mappings of the large blocks, no two
of which meet. -/

namespace RustPosix.Libc

open Library Mm

/-- A block's place in an arena whose first `used` bytes are handed out. -/
def ArenaRecord.Slot (record : ArenaRecord) (used ptr : Nat) : Prop :=
  ∃ index, ptr = record.start + arenaHeaderSize + index * sizeClass record.classIdx ∧
    ptr + sizeClass record.classIdx ≤ record.start + used

theorem recordOf_some {records : List ArenaRecord} {record : ArenaRecord} {ptr : Nat}
    (found : recordOf records ptr = some record) :
    record ∈ records ∧ record.start ≤ ptr ∧ ptr < record.stop :=
  ⟨List.mem_of_find?_eq_some found, by simpa using List.find?_some found⟩

namespace Territory

/-- What an entry of the table promises. -/
structure Arena (ground : Territory) (record : ArenaRecord) : Prop where
  stop : record.stop = record.start + arenaSize
  idx : record.classIdx < sizeClasses.length
  nonnull : 0 < record.start
  mapped : ⟨record.start, arenaSize⟩ ∈ ground.mappings
  bump : ground.bump record.start ≤ arenaSize
  full : ∃ taken, ground.bump record.start = arenaHeaderSize + taken * sizeClass record.classIdx

structure Arenas (ground : Territory) : Prop where
  apart : ground.mappings.Pairwise Extent.Apart
  pages : ∀ mapping ∈ ground.mappings,
    mapping.start % 4096 = 0 ∧ 0 < mapping.size ∧ mapping.stop < 2 ^ 64
  arena : ∀ record ∈ ground.records, ground.Arena record
  once : (ground.records.map (·.start)).Nodup
  current : ∀ idx, ground.current idx ≠ 0 →
    ∃ record ∈ ground.records, record.start = ground.current idx ∧ record.classIdx = idx

/-- A mapping that is no arena, with room for a header and more. -/
structure Large (ground : Territory) (mapping : Extent) : Prop where
  member : mapping ∈ ground.mappings
  sized : 2 * blockHeaderSize ≤ mapping.size
  alone : ∀ record ∈ ground.records, record.start ≠ mapping.start

theorem Large.behind {ground : Territory} {mapping : Extent} (large : ground.Large mapping) :
    blockHeaderSize < mapping.size := Nat.lt_of_lt_of_le (by decide) large.sized

def Small (ground : Territory) (record : ArenaRecord) (ptr : Nat) : Prop :=
  record ∈ ground.records ∧ record.Slot (ground.bump record.start) ptr

/-- A place for a block and the bytes it has. -/
inductive Room (ground : Territory) : Nat → Nat → Prop where
  | small {record : ArenaRecord} {ptr : Nat} (small : ground.Small record ptr) :
      Room ground ptr (sizeClass record.classIdx)
  | large {mapping : Extent} (large : ground.Large mapping) :
      Room ground (mapping.start + blockHeaderSize) (mapping.size - blockHeaderSize)

namespace Arenas

variable {ground : Territory} {record other : ArenaRecord} {mapping mapping' : Extent}
  {ptr ptr' capacity capacity' : Nat}

/-- An address is in one mapping. -/
theorem mapping_unique (arenas : ground.Arenas) (member : mapping ∈ ground.mappings)
    (member' : mapping' ∈ ground.mappings) {addr : Nat}
    (inside : mapping.start ≤ addr ∧ addr < mapping.stop)
    (inside' : mapping'.start ≤ addr ∧ addr < mapping'.stop) : mapping = mapping' := by
  by_contra differ
  have apart : mapping.Apart mapping' :=
    arenas.apart.forall member member' differ
  rcases apart with before | behind <;> omega

theorem mapping_eq (arenas : ground.Arenas) (member : mapping ∈ ground.mappings)
    (member' : mapping' ∈ ground.mappings) (same : mapping.start = mapping'.start) :
    mapping = mapping' := by
  have sized := (arenas.pages mapping member).2.1
  have sized' := (arenas.pages mapping' member').2.1
  refine arenas.mapping_unique member member' ⟨Nat.le_refl _, ?_⟩ ⟨same.ge, ?_⟩
  · exact Nat.lt_add_of_pos_right sized
  · rw [same]
    exact Nat.lt_add_of_pos_right sized'

theorem record_eq (arenas : ground.Arenas) (member : record ∈ ground.records)
    (member' : other ∈ ground.records) (same : record.start = other.start) : record = other :=
  List.inj_on_of_nodup_map arenas.once member member' same

/-- Bounds of a slot, and its alignment. -/
theorem small_bounds (arenas : ground.Arenas) (small : ground.Small record ptr) :
    record.start + arenaHeaderSize ≤ ptr ∧
      ptr + sizeClass record.classIdx ≤ record.start + arenaSize ∧ ptr % 16 = 0 := by
  obtain ⟨member, index, rfl, fits⟩ := small
  have arena := arenas.arena record member
  have bytes := sizeClass_bounds arena.idx
  have page : record.start % 4096 = 0 := (arenas.pages _ arena.mapped).1
  have multiple : index * sizeClass record.classIdx % 16 = 0 := by
    rw [Nat.mul_mod, bytes.2.2, Nat.mul_zero, Nat.zero_mod]
  have most := arena.bump
  simp only [arenaHeaderSize] at fits ⊢
  omega

/-- What lies in different mappings does not meet. -/
theorem apart_of_mappings (arenas : ground.Arenas) {piece piece' : Extent}
    (member : mapping ∈ ground.mappings) (member' : mapping' ∈ ground.mappings)
    (differ : mapping.start ≠ mapping'.start) (within : piece.Within mapping)
    (within' : piece'.Within mapping') : piece.Apart piece' := by
  have apart : mapping.Apart mapping' :=
    arenas.apart.forall member member' fun same => differ (congrArg Extent.start same)
  exact ((apart.mono within).symm.mono within').symm

theorem small_within (arenas : ground.Arenas) (small : ground.Small record ptr) :
    Extent.Within ⟨ptr, sizeClass record.classIdx⟩ ⟨record.start, arenaSize⟩ := by
  obtain ⟨low, high, -⟩ := arenas.small_bounds small
  exact ⟨Nat.le_trans (Nat.le_add_right _ _) low, high⟩

/-- The table finds the arena of a slot. -/
theorem recordOf_small (arenas : ground.Arenas) (small : ground.Small record ptr) :
    recordOf ground.records ptr = some record := by
  obtain ⟨low, high, -⟩ := arenas.small_bounds small
  have arena := arenas.arena record small.1
  have bytes := (sizeClass_bounds arena.idx).1
  have stop := arena.stop
  have found : ∃ found, recordOf ground.records ptr = some found := by
    refine Option.isSome_iff_exists.mp (List.find?_isSome.mpr ⟨record, small.1, ?_⟩)
    exact decide_eq_true ⟨by omega, by omega⟩
  obtain ⟨found, here⟩ := found
  obtain ⟨member, holds⟩ := recordOf_some here
  have arena' := arenas.arena found member
  have stop' := arena'.stop
  have same := arenas.mapping_unique arena.mapped arena'.mapped
    (show _ ≤ ptr ∧ ptr < _ from ⟨by simp only; omega, by simp only [Extent.stop]; omega⟩)
    ⟨holds.1, by simp only [Extent.stop]; omega⟩
  rw [here, arenas.record_eq small.1 member (congrArg Extent.start same)]

/-- No arena holds an address of a large mapping. -/
theorem recordOf_large (arenas : ground.Arenas) (large : ground.Large mapping)
    {addr : Nat} (inside : mapping.start ≤ addr ∧ addr < mapping.stop) :
    recordOf ground.records addr = none := by
  refine List.find?_eq_none.mpr fun record member holds => ?_
  have holds := of_decide_eq_true holds
  have arena := arenas.arena record member
  have stop := arena.stop
  have same := arenas.mapping_unique arena.mapped large.member
    ⟨holds.1, by simp only [Extent.stop]; omega⟩ inside
  exact large.alone record member (congrArg Extent.start same)

theorem large_within (large : ground.Large mapping) :
    Extent.Within ⟨mapping.start + blockHeaderSize, mapping.size - blockHeaderSize⟩ mapping := by
  have sized := large.behind
  refine ⟨Nat.le_add_right _ _, ?_⟩
  simp only [Extent.stop]
  omega

/-- Two slots of one arena. -/
theorem slot_apart {used : Nat} (slot : record.Slot used ptr) (slot' : record.Slot used ptr')
    (differ : ptr ≠ ptr') : Extent.Apart ⟨ptr, sizeClass record.classIdx⟩
      ⟨ptr', sizeClass record.classIdx⟩ := by
  obtain ⟨index, rfl, -⟩ := slot
  obtain ⟨index', rfl, -⟩ := slot'
  rcases Nat.lt_trichotomy index index' with before | same | behind
  · have step := Nat.mul_le_mul_right (sizeClass record.classIdx) before
    rw [Nat.succ_mul] at step
    exact Or.inl (by simp only [Extent.stop]; omega)
  · exact absurd (by rw [same]) differ
  · have step := Nat.mul_le_mul_right (sizeClass record.classIdx) behind
    rw [Nat.succ_mul] at step
    exact Or.inr (by simp only [Extent.stop]; omega)

theorem room_apart (arenas : ground.Arenas) (room : ground.Room ptr capacity)
    (room' : ground.Room ptr' capacity') (differ : ptr ≠ ptr') :
    Extent.Apart ⟨ptr, capacity⟩ ⟨ptr', capacity'⟩ := by
  have mixed : ∀ {record ptr mapping}, ground.Small record ptr → ground.Large mapping →
      Extent.Apart ⟨ptr, sizeClass record.classIdx⟩
        ⟨mapping.start + blockHeaderSize, mapping.size - blockHeaderSize⟩ :=
    fun {record _ _} small large => arenas.apart_of_mappings (arenas.arena record small.1).mapped
      large.member (large.alone record small.1) (arenas.small_within small) (large_within large)
  cases room with
  | @small record _ small =>
    cases room' with
    | @small other _ small' =>
      by_cases same : record.start = other.start
      · obtain rfl := arenas.record_eq small.1 small'.1 same
        exact slot_apart small.2 small'.2 differ
      · exact arenas.apart_of_mappings (arenas.arena record small.1).mapped
          (arenas.arena other small'.1).mapped same (arenas.small_within small)
          (arenas.small_within small')
    | large large' => exact mixed small large'
  | large large =>
    cases room' with
    | small small' => exact (mixed small' large).symm
    | large large' =>
      exact arenas.apart_of_mappings large.member large'.member
        (fun same => differ (by rw [same])) (large_within large) (large_within large')

/-- A place has room for a node. -/
theorem room_wide (arenas : ground.Arenas) (room : ground.Room ptr capacity) : 16 ≤ capacity := by
  cases room with
  | @small record _ small => exact (sizeClass_bounds (arenas.arena record small.1).idx).1
  | large large =>
    have sized := large.sized
    simp only [blockHeaderSize] at sized ⊢
    omega

/-- Every place is in a mapping, behind a header. -/
theorem room_mapping (arenas : ground.Arenas) (room : ground.Room ptr capacity) :
    ∃ mapping ∈ ground.mappings, mapping.start < ptr ∧ ptr < mapping.stop ∧
      Extent.Within ⟨ptr, capacity⟩ mapping := by
  cases room with
  | @small record _ small =>
    obtain ⟨low, high, -⟩ := arenas.small_bounds small
    have arena := arenas.arena record small.1
    have bytes := (sizeClass_bounds arena.idx).1
    refine ⟨_, arena.mapped, ?_, ?_, arenas.small_within small⟩
    · exact Nat.lt_of_lt_of_le (Nat.lt_add_of_pos_right (by decide)) low
    · simp only [Extent.stop]
      omega
  | @large mapping large =>
    exact ⟨mapping, large.member, Nat.lt_add_of_pos_right (by decide),
      Nat.add_lt_add_left large.behind _, large_within large⟩

/-- A place in an arena is one of its slots. -/
theorem room_in_arena (arenas : ground.Arenas) (room : ground.Room ptr capacity)
    (member : record ∈ ground.records)
    (inside : record.start ≤ ptr ∧ ptr < record.start + arenaSize) : ground.Small record ptr := by
  have mapped := (arenas.arena record member).mapped
  cases room with
  | @small other _ small =>
    obtain ⟨low, high, -⟩ := arenas.small_bounds small
    have arena := arenas.arena other small.1
    have bytes := (sizeClass_bounds arena.idx).1
    have same := arenas.mapping_unique arena.mapped mapped
      ⟨Nat.le_trans (Nat.le_add_right _ _) low, by simp only [Extent.stop]; omega⟩ inside
    rwa [← arenas.record_eq small.1 member (congrArg Extent.start same)]
  | @large mapping large =>
    have same := arenas.mapping_unique large.member mapped
      ⟨Nat.le_add_right _ _, Nat.add_lt_add_left large.behind _⟩ inside
    exact absurd (congrArg Extent.start same).symm (large.alone record member)

theorem room_nonnull (arenas : ground.Arenas) (room : ground.Room ptr capacity) :
    0 < ptr ∧ ptr % 16 = 0 := by
  cases room with
  | small small =>
    obtain ⟨low, -, aligned⟩ := arenas.small_bounds small
    exact ⟨Nat.lt_of_lt_of_le (Nat.add_pos_right _ (by decide)) low, aligned⟩
  | large large =>
    have page := (arenas.pages _ large.member).1
    simp only [blockHeaderSize]
    omega

/-- The header of an arena is apart from every block. -/
theorem room_apart_header (arenas : ground.Arenas) (room : ground.Room ptr capacity)
    (member : record ∈ ground.records) :
    Extent.Apart ⟨ptr, capacity⟩ ⟨record.start, arenaHeaderSize⟩ := by
  have within : Extent.Within ⟨record.start, arenaHeaderSize⟩ ⟨record.start, arenaSize⟩ :=
    ⟨Nat.le_refl _, Nat.add_le_add_left (show arenaHeaderSize ≤ arenaSize by decide) _⟩
  have mapped := (arenas.arena record member).mapped
  cases room with
  | @small other _ small =>
    by_cases same : other.start = record.start
    · obtain rfl := arenas.record_eq small.1 member same
      exact Or.inr (arenas.small_bounds small).1
    · exact arenas.apart_of_mappings (arenas.arena other small.1).mapped mapped same
        (arenas.small_within small) within
  | large large =>
    exact arenas.apart_of_mappings large.member mapped (large.alone record member).symm
      (large_within large) within

theorem large_header_within (large : ground.Large mapping) :
    Extent.Within ⟨mapping.start, blockHeaderSize⟩ mapping :=
  ⟨Nat.le_refl _, Nat.add_le_add_left large.behind.le _⟩

/-- The header of a large block is apart from every block. -/
theorem room_apart_large (arenas : ground.Arenas) (room : ground.Room ptr capacity)
    (large : ground.Large mapping) :
    Extent.Apart ⟨ptr, capacity⟩ ⟨mapping.start, blockHeaderSize⟩ := by
  cases room with
  | @small record _ small =>
    exact arenas.apart_of_mappings (arenas.arena record small.1).mapped large.member
      (large.alone record small.1) (arenas.small_within small) (large_header_within large)
  | @large mapping' large' =>
    by_cases same : mapping'.start = mapping.start
    · exact Or.inr (by simp only [Extent.stop, same, Nat.le_refl])
    · exact arenas.apart_of_mappings large'.member large.member same (large_within large')
        (large_header_within large)

end Arenas

end Territory

end RustPosix.Libc
