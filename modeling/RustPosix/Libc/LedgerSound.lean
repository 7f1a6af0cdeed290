import RustPosix.Libc.Rooms

/-! The ledger never hands out a place twice: what each part of `malloc`, `free` and `realloc`
does to it keeps the invariant. -/

namespace RustPosix.Libc

open Library Mm

/-- The kernel keeps its word: a new mapping starts a page, meets no other one and ends below
the end of the address space; an error is one of the error numbers. -/
def Fresh (mappings : List Extent) (length : Nat) : Answer → Prop
  | .error errno => 0 < errno ∧ errno ≤ 4095
  | .ok addr => addr % 4096 = 0 ∧ addr + length < 2 ^ 64 ∧
    ∀ mapping ∈ mappings, Extent.Apart ⟨addr, length⟩ mapping

instance (extent other : Extent) : Decidable (extent.Apart other) :=
  inferInstanceAs (Decidable (_ ∨ _))

instance (mappings : List Extent) (length : Nat) (answer : Answer) :
    Decidable (Fresh mappings length answer) :=
  match answer with
  | .error _ => inferInstanceAs (Decidable (_ ∧ _))
  | .ok addr => inferInstanceAs (Decidable (_ ∧ _ ∧
      ∀ mapping ∈ mappings, Extent.Apart ⟨addr, length⟩ mapping))

namespace Territory

variable {ground : Territory} {start other bytes arena idx : Nat}

@[simp] theorem extend_self :
    (ground.extend start bytes).bump start = ground.bump start + bytes := Function.update_self ..

theorem extend_of_ne (differs : other ≠ start) :
    (ground.extend start bytes).bump other = ground.bump other := Function.update_of_ne differs ..

@[simp] theorem openArena_self :
    (ground.openArena arena idx).bump arena = arenaHeaderSize + sizeClass idx :=
  Function.update_self ..

theorem openArena_of_ne (differs : other ≠ arena) :
    (ground.openArena arena idx).bump other = ground.bump other :=
  Function.update_of_ne differs ..

end Territory

namespace Territory.Arenas

variable {ground : Territory} {record : ArenaRecord}

theorem extend (arenas : ground.Arenas) (member : record ∈ ground.records)
    (fits : ground.bump record.start + sizeClass record.classIdx ≤ arenaSize) :
    (ground.extend record.start (sizeClass record.classIdx)).Arenas := by
  refine ⟨arenas.apart, arenas.pages, fun other member' => ?_, arenas.once, arenas.current⟩
  have arena := arenas.arena other member'
  refine ⟨arena.stop, arena.idx, arena.nonnull, arena.mapped, ?_, ?_⟩
  all_goals
    by_cases same : other.start = record.start
  · simpa only [extend_self, same] using fits
  · simpa only [extend_of_ne same] using arena.bump
  · obtain rfl := arenas.record_eq member' member same
    obtain ⟨taken, full⟩ := arena.full
    refine ⟨taken + 1, ?_⟩
    rw [extend_self, full, Nat.succ_mul, Nat.add_assoc]
  · simpa only [extend_of_ne same] using arena.full

theorem map (arenas : ground.Arenas) {addr length : Nat} (positive : 0 < length)
    (fresh : Fresh ground.mappings length (.ok addr)) :
    Arenas { ground with mappings := ⟨addr, length⟩ :: ground.mappings } := by
  obtain ⟨page, below, apart⟩ := fresh
  refine ⟨List.pairwise_cons.mpr ⟨apart, arenas.apart⟩, fun mapping member => ?_,
    fun record member => ?_, arenas.once, arenas.current⟩
  · rcases List.mem_cons.mp member with rfl | member
    · exact ⟨page, positive, below⟩
    · exact arenas.pages mapping member
  · have arena := arenas.arena record member
    exact ⟨arena.stop, arena.idx, arena.nonnull, List.mem_cons_of_mem _ arena.mapped, arena.bump,
      arena.full⟩

/-- A mapping that is no arena yet becomes one. -/
theorem openArena (arenas : ground.Arenas) {arena idx : Nat} (valid : idx < sizeClasses.length)
    (nonnull : 0 < arena) (mapped : ⟨arena, arenaSize⟩ ∈ ground.mappings)
    (unused : ∀ record ∈ ground.records, record.start ≠ arena) :
    (ground.openArena arena idx).Arenas := by
  refine ⟨arenas.apart, arenas.pages, fun record member => ?_, ?_, ?_⟩
  · rcases List.mem_append.mp member with old | new
    · have kept := arenas.arena record old
      have bump : (ground.openArena arena idx).bump record.start = ground.bump record.start :=
        openArena_of_ne (unused record old)
      exact ⟨kept.stop, kept.idx, kept.nonnull, kept.mapped, bump ▸ kept.bump, bump ▸ kept.full⟩
    · obtain rfl := List.mem_singleton.mp new
      have bytes := (sizeClass_bounds valid).2.1
      refine ⟨rfl, valid, nonnull, mapped, ?_, 1, ?_⟩
      · rw [openArena_self]
        exact Nat.le_trans (Nat.add_le_add_left bytes _) (by decide)
      · rw [openArena_self, Nat.one_mul]
  · rw [Territory.openArena, List.map_append]
    refine List.nodup_append.mpr ⟨arenas.once, List.nodup_singleton _, ?_⟩
    intro start old start' new
    obtain ⟨record, member, rfl⟩ := List.mem_map.mp old
    rw [List.mem_singleton.mp new]
    exact unused record member
  · refine (Function.forall_update_iff ground.current fun other current => current ≠ 0 →
      ∃ record ∈ (ground.openArena arena idx).records, record.start = current ∧
        record.classIdx = other).mpr ⟨fun _ => ?_, fun idx' _ opened => ?_⟩
    · exact ⟨_, List.mem_append_right _ (List.mem_singleton_self _), rfl, rfl⟩
    · obtain ⟨record, member, same⟩ := arenas.current idx' opened
      exact ⟨record, List.mem_append_left _ member, same⟩

theorem unmap (arenas : ground.Arenas) {keep : Extent → Bool}
    (kept : ∀ record ∈ ground.records, keep ⟨record.start, arenaSize⟩) :
    Arenas { ground with mappings := ground.mappings.filter keep } := by
  refine ⟨arenas.apart.filter _, fun mapping member => ?_, fun record member => ?_, arenas.once,
    arenas.current⟩
  · exact arenas.pages mapping (List.mem_of_mem_filter member)
  · have arena := arenas.arena record member
    exact ⟨arena.stop, arena.idx, arena.nonnull,
      List.mem_filter.mpr ⟨arena.mapped, kept record member⟩, arena.bump, arena.full⟩

end Territory.Arenas

namespace Ledger

structure Sound (ledger : Ledger) : Prop extends ledger.toTerritory.Arenas where
  live : ∀ block ∈ ledger.books.live, ∃ capacity,
    ledger.Room block.ptr capacity ∧ block.size ≤ capacity
  liveOnce : (ledger.books.live.map (·.ptr)).Nodup
  freed : ∀ ptr ∈ ledger.books.freed, (∃ record, ledger.Small record ptr) ∧
    ∀ block ∈ ledger.books.live, block.ptr ≠ ptr
  free : ∀ idx, ∀ ptr ∈ ledger.free idx, ptr ∈ ledger.books.freed ∧
    ∃ record, ledger.Small record ptr ∧ record.classIdx = idx
  freeOnce : ∀ idx, (ledger.free idx).Nodup

/-- No block, used or free, and no arena is in this region. -/
structure Clear (ledger : Ledger) (region : Extent) : Prop where
  arena : ∀ record ∈ ledger.records, record.start ≠ region.start
  live : ∀ block ∈ ledger.books.live, block.ptr < region.start ∨ region.stop ≤ block.ptr
  freed : ∀ ptr ∈ ledger.books.freed, ptr < region.start ∨ region.stop ≤ ptr

/-- The other territory has all places of this ledger. -/
structure Houses (ledger : Ledger) (ground : Territory) : Prop where
  small : ∀ record ptr, ledger.Small record ptr → ground.Small record ptr
  large : ∀ mapping, ledger.Large mapping →
    (∃ block ∈ ledger.books.live, block.ptr = mapping.start + blockHeaderSize) →
      ground.Large mapping

namespace Houses

variable {ledger : Ledger} {ground : Territory}

theorem refl (ledger : Ledger) : ledger.Houses ledger.toTerritory :=
  ⟨fun _ _ small => small, fun _ large _ => large⟩

theorem trans {middle : Ledger} (first : ledger.Houses middle.toTerritory)
    (same : middle.books = ledger.books) (second : middle.Houses ground) : ledger.Houses ground :=
  ⟨fun _ _ small => second.small _ _ (first.small _ _ small),
    fun _ large used => second.large _ (first.large _ large used) (same ▸ used)⟩

theorem room (houses : ledger.Houses ground) {block : Block} (live : block ∈ ledger.books.live)
    {capacity : Nat} (room : ledger.Room block.ptr capacity) : ground.Room block.ptr capacity := by
  generalize place : block.ptr = ptr at room
  cases room with
  | small small => exact .small (houses.small _ _ small)
  | large large => exact .large (houses.large _ large ⟨block, live, place⟩)

theorem map (mapping : Extent) :
    ledger.Houses { ledger.toTerritory with mappings := mapping :: ledger.mappings } :=
  ⟨fun _ _ small => small,
    fun _ large _ => ⟨List.mem_cons_of_mem _ large.member, large.sized, large.alone⟩⟩

theorem extend (start bytes : Nat) : ledger.Houses (ledger.extend start bytes) := by
  refine ⟨?_, fun _ large _ => ⟨large.member, large.sized, large.alone⟩⟩
  rintro record ptr ⟨member, index, place, below⟩
  refine ⟨member, index, place, Nat.le_trans below (Nat.add_le_add_left ?_ _)⟩
  by_cases same : record.start = start
  · rw [same, Territory.extend_self]
    exact Nat.le_add_right _ _
  · rw [Territory.extend_of_ne same]

theorem openArena {arena : Nat} (clear : ledger.Clear ⟨arena, arenaSize⟩) (idx : Nat) :
    ledger.Houses (ledger.openArena arena idx) := by
  refine ⟨?_, ?_⟩
  · rintro record ptr ⟨member, slot⟩
    refine ⟨List.mem_append_left _ member, ?_⟩
    rwa [Territory.openArena_of_ne (clear.arena record member)]
  · rintro mapping large ⟨block, live, place⟩
    refine ⟨large.member, large.sized, fun record member => ?_⟩
    rcases List.mem_append.mp member with old | new
    · exact large.alone record old
    · rw [List.mem_singleton.mp new]
      rintro rfl
      have outside := clear.live block live
      simp only [place, Extent.stop, blockHeaderSize, arenaSize] at outside
      omega

end Houses

namespace Sound

variable {ledger : Ledger} {ptr size capacity : Nat}

/-- A place that is neither used nor in a list can be handed out. -/
theorem grant (sound : ledger.Sound) (room : ledger.Room ptr capacity) (fits : size ≤ capacity)
    (unused : ∀ block ∈ ledger.books.live, block.ptr ≠ ptr)
    (unlisted : ∀ idx, ptr ∉ ledger.free idx) : (ledger.grant ptr size).Sound where
  toArenas := sound.toArenas
  live := by
    intro block member
    rcases List.mem_cons.mp member with rfl | member
    · exact ⟨capacity, room, fits⟩
    · exact sound.live block member
  liveOnce := by
    refine List.nodup_cons.mpr ⟨fun member => ?_, sound.liveOnce⟩
    obtain ⟨block, member, same⟩ := List.mem_map.mp member
    exact unused block member same
  freed := by
    intro free member
    obtain ⟨member, differs⟩ := List.mem_filter.mp member
    obtain ⟨small, away⟩ := sound.freed free member
    refine ⟨small, fun block live => ?_⟩
    rcases List.mem_cons.mp live with rfl | live
    · exact fun same => of_decide_eq_true differs same.symm
    · exact away block live
  free := by
    intro idx free member
    obtain ⟨waits, small⟩ := sound.free idx free member
    refine ⟨List.mem_filter.mpr ⟨waits, decide_eq_true ?_⟩, small⟩
    rintro rfl
    exact unlisted idx member
  freeOnce := sound.freeOnce

/-- A block in use is in no list. -/
theorem unlisted (sound : ledger.Sound) {block : Block} (member : block ∈ ledger.books.live)
    (idx : Nat) : block.ptr ∉ ledger.free idx := fun listed =>
  (sound.freed _ (sound.free idx _ listed).1).2 block member rfl

/-- A free block has one arena, so it is in the list of one class. -/
theorem listed_once (sound : ledger.Sound) {idx idx' : Nat} (listed : ptr ∈ ledger.free idx)
    (listed' : ptr ∈ ledger.free idx') : idx = idx' := by
  obtain ⟨-, record, small, rfl⟩ := sound.free idx ptr listed
  obtain ⟨-, record', small', rfl⟩ := sound.free idx' ptr listed'
  rw [Option.some.inj ((sound.recordOf_small small).symm.trans (sound.recordOf_small small'))]

theorem pop (sound : ledger.Sound) {idx : Nat} {rest : List Nat}
    (first : ledger.free idx = ptr :: rest) :
    Sound { ledger with free := Function.update ledger.free idx rest } ∧
      ∀ idx', ptr ∉ Function.update ledger.free idx rest idx' := by
  have here : ∀ {other}, other ∈ rest → other ∈ ledger.free idx := fun member =>
    first ▸ List.mem_cons_of_mem _ member
  have once := sound.freeOnce idx
  rw [first, List.nodup_cons] at once
  refine ⟨⟨sound.toArenas, sound.live, sound.liveOnce, sound.freed, ?_, ?_⟩, ?_⟩
  · refine (Function.forall_update_iff ledger.free fun idx list => ∀ ptr ∈ list,
      ptr ∈ ledger.books.freed ∧ ∃ record, ledger.Small record ptr ∧ record.classIdx = idx).mpr ?_
    exact ⟨fun other member => sound.free idx other (here member),
      fun idx' _ => sound.free idx'⟩
  · refine (Function.forall_update_iff ledger.free fun _ list => list.Nodup).mpr ?_
    exact ⟨once.2, fun idx' _ => sound.freeOnce idx'⟩
  · refine (Function.forall_update_iff ledger.free fun _ list => ptr ∉ list).mpr ?_
    refine ⟨once.1, fun idx' differs member => differs ?_⟩
    exact sound.listed_once member (first ▸ List.mem_cons_self)

/-- A block that is free again goes to the list of its class. -/
theorem push (sound : ledger.Sound) {record : ArenaRecord} (waits : ptr ∈ ledger.books.freed)
    (small : ledger.Small record ptr) (unlisted : ptr ∉ ledger.free record.classIdx) :
    Sound { ledger with
      free := Function.update ledger.free record.classIdx
        (ptr :: ledger.free record.classIdx) } := by
  refine ⟨sound.toArenas, sound.live, sound.liveOnce, sound.freed, ?_, ?_⟩
  · refine (Function.forall_update_iff ledger.free fun idx list => ∀ ptr ∈ list,
      ptr ∈ ledger.books.freed ∧ ∃ record, ledger.Small record ptr ∧ record.classIdx = idx).mpr ?_
    refine ⟨fun other member => ?_, fun idx _ => sound.free idx⟩
    rcases List.mem_cons.mp member with rfl | member
    · exact ⟨waits, record, small, rfl⟩
    · exact sound.free _ other member
  · refine (Function.forall_update_iff ledger.free fun _ list => list.Nodup).mpr ?_
    exact ⟨List.nodup_cons.mpr ⟨unlisted, sound.freeOnce _⟩, fun idx _ => sound.freeOnce idx⟩

/-- The arenas and mappings can change as long as the blocks keep their places. -/
theorem move (sound : ledger.Sound) {ground : Territory} (arenas : ground.Arenas)
    (houses : ledger.Houses ground) : Sound { ledger with toTerritory := ground } where
  toArenas := arenas
  live := fun block member =>
    let ⟨capacity, room, fits⟩ := sound.live block member
    ⟨capacity, houses.room member room, fits⟩
  liveOnce := sound.liveOnce
  freed := fun ptr member =>
    let ⟨⟨record, small⟩, away⟩ := sound.freed ptr member
    ⟨⟨record, houses.small record ptr small⟩, away⟩
  free := fun idx ptr member =>
    let ⟨waits, record, small, same⟩ := sound.free idx ptr member
    ⟨waits, record, houses.small record ptr small, same⟩
  freeOnce := sound.freeOnce

/-- A new mapping is empty. -/
theorem map (sound : ledger.Sound) {addr length : Nat} (positive : 0 < length)
    (fresh : Fresh ledger.mappings length (.ok addr)) :
    Sound { ledger with mappings := ⟨addr, length⟩ :: ledger.mappings } ∧
      Clear { ledger with mappings := ⟨addr, length⟩ :: ledger.mappings } ⟨addr, length⟩ := by
  have outside : ∀ {ptr capacity}, ledger.Room ptr capacity → ptr < addr ∨ addr + length ≤ ptr := by
    intro ptr capacity room
    obtain ⟨mapping, member, low, high, -⟩ := sound.room_mapping room
    rcases fresh.2.2 mapping member with before | behind
    · exact Or.inr (Nat.le_trans before low.le)
    · exact Or.inl (Nat.lt_of_lt_of_le high behind)
  refine ⟨sound.move (sound.toArenas.map positive fresh) (.map _), fun record member same => ?_, fun block member => ?_, fun ptr member => ?_⟩
  · have apart := fresh.2.2 _ (sound.arena record member).mapped
    have sized : 0 < arenaSize := by decide
    simp only [Extent.Apart, Extent.stop] at apart same
    omega
  · obtain ⟨capacity, room, -⟩ := sound.live block member
    exact outside room
  · obtain ⟨⟨record, small⟩, -⟩ := sound.freed ptr member
    exact outside (.small small)

/-- The next block of the current arena is handed out. -/
theorem extend (sound : ledger.Sound) {record : ArenaRecord} (member : record ∈ ledger.records)
    (fits : ledger.bump record.start + sizeClass record.classIdx ≤ arenaSize)
    (small : size ≤ sizeClass record.classIdx) :
    Sound ({ ledger with toTerritory := ledger.extend record.start (sizeClass record.classIdx) }.grant
      (record.start + ledger.bump record.start) size) := by
  have arena := sound.arena record member
  have bytes := (sizeClass_bounds arena.idx).1
  -- the slots taken so far end where this one starts
  have above : ∀ {capacity}, ¬ ledger.Room (record.start + ledger.bump record.start) capacity := by
    intro capacity room
    obtain ⟨-, index, -, below⟩ := sound.room_in_arena room member
      ⟨Nat.le_add_right _ _, Nat.add_lt_add_left (by omega) _⟩
    omega
  obtain ⟨taken, full⟩ := arena.full
  have moved := sound.move (sound.toArenas.extend member fits) (.extend _ _)
  have room : (ledger.extend record.start (sizeClass record.classIdx)).Room
      (record.start + ledger.bump record.start) (sizeClass record.classIdx) := by
    refine .small ⟨member, taken, ?_, ?_⟩
    · rw [full, Nat.add_assoc]
    · rw [Territory.extend_self, Nat.add_assoc]
  refine moved.grant room small (fun block live same => ?_) fun idx listed => ?_
  · obtain ⟨capacity, room, -⟩ := sound.live block live
    exact above (same ▸ room)
  · obtain ⟨-, other, small, -⟩ := sound.free idx _ listed
    exact above (.small small)

/-- An empty mapping becomes an arena and its first block is handed out. -/
theorem openArena (sound : ledger.Sound) {arena idx : Nat} (valid : idx < sizeClasses.length)
    (nonnull : 0 < arena) (mapped : ⟨arena, arenaSize⟩ ∈ ledger.mappings)
    (clear : ledger.Clear ⟨arena, arenaSize⟩) (small : size ≤ sizeClass idx) :
    Sound ({ ledger with toTerritory := ledger.openArena arena idx }.grant
      (arena + arenaHeaderSize) size) := by
  have first : arena ≤ arena + arenaHeaderSize ∧ arena + arenaHeaderSize < arena + arenaSize :=
    ⟨Nat.le_add_right _ _, Nat.add_lt_add_left (by decide) _⟩
  have moved := sound.move (sound.toArenas.openArena valid nonnull mapped clear.arena)
    (.openArena clear idx)
  have room : (ledger.openArena arena idx).Room (arena + arenaHeaderSize) (sizeClass idx) := by
    have small : (ledger.openArena arena idx).Small ⟨arena, arena + arenaSize, idx⟩
        (arena + arenaHeaderSize) := by
      refine ⟨List.mem_append_right _ (List.mem_singleton_self _), 0, ?_, ?_⟩
      · rw [Nat.zero_mul, Nat.add_zero]
      · rw [Territory.openArena_self, Nat.add_assoc]
    exact .small small
  refine moved.grant room small (fun block live same => ?_) fun idx' listed => ?_
  · rcases clear.live block live with before | behind <;> simp only [Extent.stop] at * <;> omega
  · rcases clear.freed _ (sound.free idx' _ listed).1 with before | behind <;>
      simp only [Extent.stop] at * <;> omega

/-- An empty mapping becomes a large block. -/
theorem grant_large (sound : ledger.Sound) {mapping : Extent} (mapped : mapping ∈ ledger.mappings)
    (clear : ledger.Clear mapping) (large : smallThreshold < size)
    (fits : size + blockHeaderSize ≤ mapping.size) :
    Sound (ledger.grant (mapping.start + blockHeaderSize) size) := by
  have sized : 2 * blockHeaderSize ≤ mapping.size := by
    simp only [smallThreshold, blockHeaderSize] at large fits ⊢
    omega
  have inside : ¬ (mapping.start + blockHeaderSize < mapping.start ∨
      mapping.stop ≤ mapping.start + blockHeaderSize) := by
    simp only [Extent.stop, blockHeaderSize] at sized ⊢
    omega
  refine sound.grant (.large ⟨mapped, sized, clear.arena⟩) (Nat.le_sub_of_add_le fits)
    (fun block live same => inside (same ▸ clear.live block live)) fun idx listed => ?_
  exact inside (clear.freed _ (sound.free idx _ listed).1)

/-- The blocks that stay are sound. -/
theorem retire (sound : ledger.Sound) (ptr : Nat) :
    Sound { ledger with books := ledger.books.release ptr false } := by
  have kept : ∀ {block}, block ∈ ledger.books.live.filter (·.ptr ≠ ptr) →
      block ∈ ledger.books.live := List.mem_of_mem_filter
  refine ⟨sound.toArenas, fun block member => sound.live block (kept member), ?_,
    fun other member => ?_, sound.free, sound.freeOnce⟩
  · exact sound.liveOnce.sublist (List.filter_sublist.map _)
  · obtain ⟨small, away⟩ := sound.freed other member
    exact ⟨small, fun block live => away block (kept live)⟩

theorem retire_small (sound : ledger.Sound) {record : ArenaRecord} (small : ledger.Small record ptr) :
    Sound { ledger with books := ledger.books.release ptr true } := by
  have retired := sound.retire ptr
  refine ⟨sound.toArenas, retired.live, retired.liveOnce, fun other member => ?_,
    fun idx other listed => ?_, sound.freeOnce⟩
  · rcases List.mem_cons.mp member with rfl | member
    · exact ⟨⟨record, small⟩, fun block live => of_decide_eq_true (List.mem_filter.mp live).2⟩
    · exact retired.freed other member
  · obtain ⟨waits, small⟩ := sound.free idx other listed
    exact ⟨List.mem_cons_of_mem _ waits, small⟩

/-- The mapping of a large block that is no longer in use goes away. -/
theorem unmap (sound : ledger.Sound) {mapping : Extent} (large : ledger.Large mapping)
    (unused : ∀ block ∈ ledger.books.live, block.ptr ≠ mapping.start + blockHeaderSize) :
    Sound { ledger with
      mappings := ledger.mappings.filter
        (·.start + blockHeaderSize ≠ mapping.start + blockHeaderSize) } := by
  refine sound.move (sound.toArenas.unmap fun record member => ?_) ⟨fun _ _ small => small, ?_⟩
  · have differs := large.alone record member
    exact decide_eq_true fun same => differs (Nat.add_right_cancel same)
  · rintro other large' ⟨block, live, place⟩
    have differs := unused block live
    rw [place] at differs
    exact ⟨List.mem_filter.mpr ⟨large'.member, decide_eq_true differs⟩, large'.sized, large'.alone⟩

theorem release (sound : ledger.Sound) {marked : Bool}
    (released : ptr = 0 ∨ (∃ block ∈ ledger.books.live, block.ptr = ptr) ∨
      ptr ∈ ledger.books.freed ∧ marked = true) : (ledger.release ptr marked).Sound := by
  unfold Ledger.release
  split
  · exact sound
  rename_i nonnull
  have place : (∃ record, ledger.Small record ptr) ∨
      ∃ mapping, ledger.Large mapping ∧ ptr = mapping.start + blockHeaderSize := by
    rcases released with zero | ⟨block, live, rfl⟩ | ⟨freed, -⟩
    · exact absurd zero nonnull
    · obtain ⟨capacity, room, -⟩ := sound.live block live
      generalize block.ptr = ptr at room
      cases room with
      | small small => exact Or.inl ⟨_, small⟩
      | large large => exact Or.inr ⟨_, large, rfl⟩
    · exact Or.inl (sound.freed ptr freed).1
  rcases place with ⟨record, small⟩ | ⟨mapping, large, rfl⟩
  · rw [sound.recordOf_small small]
    have retired := sound.retire_small small
    cases marked with
    | true => exact retired
    | false =>
      refine retired.push List.mem_cons_self small ?_
      rcases released with zero | ⟨block, live, rfl⟩ | ⟨-, marked⟩
      · exact absurd zero nonnull
      · exact sound.unlisted live record.classIdx
      · cases marked
  · rw [sound.recordOf_large large ⟨Nat.le_add_right _ _, Nat.add_lt_add_left large.behind _⟩]
    exact (sound.retire (mapping.start + blockHeaderSize)).unmap large fun block live =>
      of_decide_eq_true (List.mem_filter.mp live).2

theorem mmap (sound : ledger.Sound) {length : Nat} {answer : Answer} (positive : 0 < length)
    (fresh : Fresh ledger.mappings length answer) {after : Ledger}
    (ran : ledger.mmap length answer = (ptr, after)) :
    after.Sound ∧ after.books = ledger.books ∧ ledger.Houses after.toTerritory ∧ (¬ MapFailed ptr →
      0 < ptr ∧ ⟨ptr, length⟩ ∈ after.mappings ∧ after.Clear ⟨ptr, length⟩) := by
  cases answer with
  | error errno =>
    cases ran
    refine ⟨sound, rfl, .refl ledger, fun mapped => absurd ?_ mapped⟩
    have small := fresh.2
    exact Or.inr (by omega)
  | ok addr =>
    cases ran
    obtain ⟨mapped, clear⟩ := sound.map positive fresh
    refine ⟨mapped, rfl, .map _, fun usable => ⟨?_, List.mem_cons_self, clear⟩⟩
    exact Nat.pos_of_ne_zero fun zero => usable (Or.inl zero)

theorem mallocLarge (sound : ledger.Sound) {answer : Answer} (large : smallThreshold < size)
    (fresh : Fresh ledger.mappings (mappingSize size) answer) {after : Ledger}
    (ran : ledger.mallocLarge size answer = some (ptr, after)) :
    after.Sound ∧ after.books = ledger.books.serve ptr size ∧ ledger.Houses after.toTerritory := by
  unfold Ledger.mallocLarge at ran
  split at ran
  · cases ran
  rename_i length aligned
  obtain ⟨-, rfl⟩ := alignedSize_eq_some aligned
  rw [mappingSize, if_pos large] at fresh
  have fits : size + blockHeaderSize ≤ (size + blockHeaderSize + 4095) / 4096 * 4096 := by omega
  obtain ⟨still, same, houses, usable⟩ := sound.mmap (by omega) fresh rfl
  dsimp only at ran
  split at ran
  · cases ran
    exact ⟨still, same, houses⟩
  · rename_i mapped
    cases ran
    obtain ⟨-, member, clear⟩ := usable mapped
    refine ⟨still.grant_large member clear large fits, ?_, houses⟩
    rw [Books.serve_of_ne (Nat.ne_of_gt (Nat.add_pos_right _ (by decide))), ← same]
    rfl

theorem mallocArena (sound : ledger.Sound) {answer : Answer} {idx : Nat}
    (valid : idx < sizeClasses.length) (fits : size ≤ sizeClass idx)
    (fresh : Fresh ledger.mappings arenaSize answer) {after : Ledger}
    (ran : ledger.mallocArena idx size answer = (ptr, after)) :
    after.Sound ∧ after.books = ledger.books.serve ptr size ∧ ledger.Houses after.toTerritory := by
  unfold Ledger.mallocArena at ran
  split at ran
  · cases ran
    exact ⟨sound, rfl, .refl ledger⟩
  obtain ⟨still, same, houses, usable⟩ := sound.mmap (by decide) fresh rfl
  dsimp only at ran
  split at ran
  · cases ran
    exact ⟨still, same, houses⟩
  · rename_i mapped
    cases ran
    obtain ⟨nonnull, member, clear⟩ := usable mapped
    refine ⟨still.openArena valid nonnull member clear fits, ?_,
      houses.trans same (.openArena clear idx)⟩
    rw [Books.serve_of_ne (Nat.ne_of_gt (Nat.add_pos_right _ (by decide))), ← same]
    rfl

theorem mallocSmall (sound : ledger.Sound) {answer : Answer} (small : size ≤ smallThreshold)
    (fresh : Fresh ledger.mappings arenaSize answer) {after : Ledger}
    (ran : ledger.mallocSmall size answer = (ptr, after)) :
    after.Sound ∧ after.books = ledger.books.serve ptr size ∧ ledger.Houses after.toTerritory := by
  obtain ⟨valid, fits⟩ := classIdx_fits small
  unfold Ledger.mallocSmall at ran
  dsimp only at ran
  split at ran
  · rename_i node rest first
    cases ran
    obtain ⟨popped, unlisted⟩ := sound.pop first
    obtain ⟨waits, record, place, same⟩ := sound.free _ ptr (first ▸ List.mem_cons_self)
    have nonnull := (sound.room_nonnull (.small place)).1
    refine ⟨popped.grant (.small place) (same ▸ fits) (sound.freed ptr waits).2 unlisted, ?_,
      .refl ledger⟩
    rw [Books.serve_of_ne (Nat.ne_of_gt nonnull)]
    rfl
  · split at ran
    · rename_i room
      cases ran
      obtain ⟨record, member, start, same⟩ := sound.current _ room.1
      have nonnull := (sound.arena record member).nonnull
      rw [← start, ← same] at room ⊢
      rw [← same] at fits
      refine ⟨sound.extend member room.2 fits, ?_, .extend _ _⟩
      rw [Books.serve_of_ne (Nat.ne_of_gt (Nat.add_pos_left nonnull _))]
      rfl
    · exact sound.mallocArena valid fits fresh ran

theorem malloc (sound : ledger.Sound) {answer : Answer}
    (fresh : Fresh ledger.mappings (mappingSize size) answer) {after : Ledger}
    (ran : ledger.malloc size answer = some (ptr, after)) :
    after.Sound ∧ after.books = ledger.books.serve ptr size ∧ ledger.Houses after.toTerritory := by
  unfold Ledger.malloc at ran
  split at ran
  · cases ran
    exact ⟨sound, rfl, .refl ledger⟩
  · split at ran
    · rename_i large
      exact sound.mallocLarge large fresh ran
    · rename_i small
      rw [mappingSize, if_neg small] at fresh
      exact sound.mallocSmall (Nat.le_of_not_lt small) fresh (Option.some.inj ran)

/-- The code finds the capacity of a block. -/
theorem capacityOf (sound : ledger.Sound) (room : ledger.Room ptr capacity) :
    ledger.capacityOf ptr = some capacity := by
  unfold Ledger.capacityOf
  cases room with
  | small small => rw [sound.recordOf_small small]
  | @large mapping large =>
    rw [sound.recordOf_large large ⟨Nat.le_add_right _ _, Nat.add_lt_add_left large.behind _⟩]
    have found : (ledger.mappings.find?
        (·.start + blockHeaderSize = mapping.start + blockHeaderSize)).isSome :=
      List.find?_isSome.mpr ⟨mapping, large.member, decide_eq_true rfl⟩
    obtain ⟨found, here⟩ := Option.isSome_iff_exists.mp found
    have same : found.start + blockHeaderSize = mapping.start + blockHeaderSize := by
      simpa using List.find?_some here
    have member := List.mem_of_find?_eq_some here
    rw [here, sound.mapping_eq member large.member (Nat.add_right_cancel same)]
    rfl

theorem resize (sound : ledger.Sound) {block : Block} (live : block ∈ ledger.books.live)
    (room : ledger.Room block.ptr capacity) (fits : size ≤ capacity) :
    (ledger.resize block.ptr size).Sound := by
  have kept : ledger.books.freed.filter (· ≠ block.ptr) = ledger.books.freed :=
    List.filter_eq_self.mpr fun free member =>
      decide_eq_true ((sound.freed free member).2 block live).symm
  have granted := (sound.retire block.ptr).grant room fits
    (fun other member => of_decide_eq_true (List.mem_filter.mp member).2) (sound.unlisted live)
  have same : ledger.resize block.ptr size =
      Ledger.grant { ledger with books := ledger.books.release block.ptr false } block.ptr size := by
    simp only [Ledger.resize, Ledger.grant, Books.resize, Books.grant, Books.release, kept,
      Bool.false_eq_true, if_false]
  rwa [same]

end Sound

end Ledger

end RustPosix.Libc
