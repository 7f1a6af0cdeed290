import RustPosix.Libc.Calls

/-! Runs of the user heap: calls in any order with any answers of the kernel, and stores of
the program into its blocks in between. -/

namespace RustPosix.Libc

open Library Mm

structure UserWorld where
  heap : UserHeap
  books : Books

inductive UserEvent where
  | call (call : Call) (answer : Answer)
  /-- the program stores into memory -/
  | write (addr : Nat) (bytes : List Byte)

namespace UserWorld

/-- A process before its first call, with whatever its memory holds. -/
def start (mem : Memory) : UserWorld := ⟨⟨mem, [], fun _ => 0, fun _ => 0, []⟩, ⟨[], []⟩⟩

def call (world : UserWorld) (call : Call) (answer : Answer) : Option (Nat × UserWorld) :=
  match world.heap.call answer call with
  | none => none
  | some (ptr, heap) =>
    some (ptr, ⟨heap, world.books.after (recordOf heap.arenaRecords call.target).isSome ptr call⟩)

/-- A call that panics ends the run. -/
def step (world : UserWorld) : UserEvent → Option UserWorld
  | .call call answer => (world.call call answer).map Prod.snd
  | .write addr bytes =>
    some { world with heap := { world.heap with mem := world.heap.mem.store addr bytes } }

/-- The program gives back what it may give back and writes inside its blocks, and the kernel
answers with fresh mappings. -/
def Permits (world : UserWorld) : UserEvent → Prop
  | .call call answer => world.books.Allows call ∧
    Fresh world.heap.mappings (mappingSize call.requested) answer
  | .write addr bytes => ∃ block ∈ world.books.live,
    block.ptr ≤ addr ∧ addr + bytes.length ≤ block.ptr + block.size

instance (world : UserWorld) (event : UserEvent) : Decidable (world.Permits event) :=
  match event with
  | .call _ _ => inferInstanceAs (Decidable (_ ∧ _))
  | .write addr bytes => inferInstanceAs (Decidable (∃ block ∈ world.books.live,
      block.ptr ≤ addr ∧ addr + bytes.length ≤ block.ptr + block.size))

/-- The promises about every block in use and every free one. -/
structure Sound (world : UserWorld) : Prop where
  aligned : ∀ block ∈ world.books.live, 0 < block.ptr ∧ block.ptr % 16 = 0
  inside : ∀ block ∈ world.books.live,
    (∃ record ∈ world.heap.arenaRecords, ⟨record.start, arenaSize⟩ ∈ world.heap.mappings ∧
      block.extent.Within ⟨record.start, arenaSize⟩) ∨
    ∃ mapping ∈ world.heap.mappings, recordOf world.heap.arenaRecords block.ptr = none ∧
      block.ptr = mapping.start + blockHeaderSize ∧ block.extent.Within mapping
  apart : world.books.live.Pairwise fun block other => block.extent.Apart other.extent
  arenaHeaders : ∀ block ∈ world.books.live, ∀ record ∈ world.heap.arenaRecords,
    block.extent.Apart ⟨record.start, arenaHeaderSize⟩
  largeHeaders : ∀ block ∈ world.books.live, ∀ other ∈ world.books.live,
    recordOf world.heap.arenaRecords other.ptr = none →
      block.extent.Apart ⟨other.ptr - blockHeaderSize, blockHeaderSize⟩
  lists : ∀ idx < sizeClasses.length, ∃ nodes,
    Chain (nextFree world.heap.mem) (link (world.heap.freeLists idx)) nodes ∧ nodes.Nodup ∧
      ∀ node ∈ nodes,
        (∃ record ∈ world.heap.arenaRecords, record.classIdx = idx ∧ ∃ index,
          node = record.start + arenaHeaderSize + index * sizeClass idx ∧
            node + sizeClass idx ≤ record.start + arenaSize) ∧
        ∀ block ∈ world.books.live, block.extent.Apart ⟨node, sizeClass idx⟩

/-- The promises about one call that returned `ptr`. -/
def Answers (world : UserWorld) (ptr : Nat) (after : UserWorld) : Call → Prop
  | .malloc size => ptr ≠ 0 → ⟨ptr, size⟩ ∈ after.books.live
  | .calloc nmemb size => ptr ≠ 0 → ⟨ptr, nmemb * size⟩ ∈ after.books.live ∧
    ∀ offset < nmemb * size, after.heap.mem (ptr + offset) = 0
  | .realloc old size =>
    -- no bytes asked for is not a failure: the block is given back
    (ptr ≠ 0 → ⟨ptr, size⟩ ∈ after.books.live ∧
      ∀ block ∈ world.books.live, block.ptr = old → ∀ offset < min block.size size,
        after.heap.mem (ptr + offset) = world.heap.mem (old + offset)) ∧
    (ptr = 0 → size ≠ 0 → ∀ block ∈ world.books.live, block.ptr = old →
      block ∈ after.books.live ∧ Unchanged world.heap.mem after.heap.mem block.extent)
  | .free _ => True

/-- The memory shows a sound ledger with these books. -/
structure Agrees (world : UserWorld) (ledger : Ledger) : Prop where
  refines : Refines world.heap ledger
  sound : ledger.Sound
  books : ledger.books = world.books

end UserWorld

/-- The ledger of a heap that was never used. -/
def Ledger.empty : Ledger := ⟨⟨[], [], fun _ => 0, fun _ => 0⟩, fun _ => [], ⟨[], []⟩⟩

theorem Ledger.sound_empty : Ledger.empty.Sound where
  apart := .nil
  pages := nofun
  arena := nofun
  once := List.nodup_nil
  current := fun _ opened => absurd rfl opened
  live := nofun
  liveOnce := List.nodup_nil
  freed := nofun
  free := nofun
  freeOnce := fun _ => List.nodup_nil

namespace UserWorld.Agrees

variable {world after : UserWorld} {ledger : Ledger} {call : Call} {answer : Answer} {ptr : Nat}

theorem start (mem : Memory) : (UserWorld.start mem).Agrees Ledger.empty where
  refines := ⟨rfl, rfl, rfl, nofun, fun _ => rfl, nofun, nofun⟩
  sound := Ledger.sound_empty
  books := rfl

/-- A call does the same to the world and to the ledger. -/
theorem rel (agrees : world.Agrees ledger) (permits : world.Permits (.call call answer)) :
    Option.Rel (fun result expected => result.1 = expected.1 ∧ result.2.Agrees expected.2)
      (world.call call answer) (ledger.call answer (world.heap.marked call.target) call) := by
  obtain ⟨allows, fresh⟩ := permits
  rw [← agrees.books] at allows
  rw [agrees.refines.mappings] at fresh
  have simulates := call_simulates agrees.refines agrees.sound allows fresh
  have guards : call.target ∈ ledger.books.freed → world.heap.marked call.target = true :=
    fun freed => decide_eq_true (agrees.refines.marks _ freed)
  unfold UserWorld.call
  rcases rel_cases simulates with ⟨fails, fails'⟩ | ⟨result, ⟨ptr, ledger'⟩, ran, ran', simulates⟩
  · rw [fails, fails']
    exact .none
  · obtain ⟨sound, books⟩ := agrees.sound.call allows fresh guards ran'
    rw [ran, ran']
    refine .some ⟨simulates.ptr, simulates.refines, sound, ?_⟩
    rw [books, agrees.books, simulates.refines.records, simulates.ptr]

theorem serves (agrees : world.Agrees ledger) (permits : world.Permits (.call call answer))
    (ran : world.call call answer = some (ptr, after)) :
    ∃ ledger', ledger.call answer (world.heap.marked call.target) call = some (ptr, ledger') ∧
      after.Agrees ledger' := by
  rcases rel_cases (agrees.rel permits) with ⟨fails, -⟩ | ⟨_, ⟨_, ledger'⟩, ran', expected, rfl, agrees⟩
  · cases fails.symm.trans ran
  · cases ran'.symm.trans ran
    exact ⟨ledger', expected, agrees⟩

theorem write (agrees : world.Agrees ledger) {addr : Nat} {bytes : List Byte}
    (permits : world.Permits (.write addr bytes)) :
    Agrees { world with heap := { world.heap with mem := world.heap.mem.store addr bytes } }
      ledger := by
  obtain ⟨block, live, low, high⟩ := permits
  rw [← agrees.books] at live
  obtain ⟨capacity, room, fits⟩ := agrees.sound.live block live
  refine ⟨agrees.refines.write agrees.sound live room ⟨low, ?_⟩, agrees.sound, agrees.books⟩
  exact Nat.le_trans high (Nat.add_le_add_left fits _)

/-- One event of a run. -/
theorem step (agrees : world.Agrees ledger) {event : UserEvent} (permits : world.Permits event)
    (next : world.step event = some after) : ∃ ledger', after.Agrees ledger' := by
  cases event with
  | call call answer =>
    obtain ⟨⟨ptr, after⟩, ran, rfl⟩ := Option.map_eq_some_iff.mp next
    obtain ⟨ledger', -, agrees⟩ := agrees.serves permits ran
    exact ⟨ledger', agrees⟩
  | write addr bytes =>
    cases next
    exact ⟨ledger, agrees.write permits⟩

/-- What the ledger promises can be seen in the memory. -/
theorem world_sound (agrees : world.Agrees ledger) : world.Sound := by
  obtain ⟨refines, sound, books⟩ := agrees
  have fit : ∀ {block : Block} {capacity}, block.size ≤ capacity →
      block.extent.Within ⟨block.ptr, capacity⟩ := fun fits =>
    ⟨Nat.le_refl _, Nat.add_le_add_left fits _⟩
  refine ⟨?_, ?_, ?_, ?_, ?_, ?_⟩
  all_goals rw [← books]
  · intro block live
    obtain ⟨capacity, room, -⟩ := sound.live block live
    exact sound.room_nonnull room
  · intro block live
    obtain ⟨capacity, room, fits⟩ := sound.live block live
    have within := fit fits
    rw [refines.mappings, refines.records]
    generalize place : block.ptr = ptr at room within
    cases room with
    | @small record _ small =>
      refine Or.inl ⟨record, small.1, (sound.arena record small.1).mapped, ?_⟩
      exact within.trans (sound.small_within small)
    | @large mapping large =>
      refine Or.inr ⟨mapping, large.member, ?_, rfl, ?_⟩
      · exact sound.recordOf_large large
          ⟨Nat.le_add_right _ _, Nat.add_lt_add_left large.behind _⟩
      · exact within.trans (Territory.Arenas.large_within large)
  · refine (List.pairwise_map.mp sound.liveOnce).imp_of_mem ?_
    intro block other live live' differ
    obtain ⟨capacity, room, fits⟩ := sound.live block live
    obtain ⟨capacity', room', fits'⟩ := sound.live other live'
    exact (((sound.room_apart room room' differ).mono (fit fits)).symm.mono (fit fits')).symm
  · intro block live record member
    rw [refines.records] at member
    obtain ⟨capacity, room, fits⟩ := sound.live block live
    exact (sound.room_apart_header room member).mono (fit fits)
  · intro block live other live' outside
    rw [refines.records] at outside
    obtain ⟨capacity, room, fits⟩ := sound.live block live
    obtain ⟨capacity', room', -⟩ := sound.live other live'
    generalize other.ptr = ptr at room' outside
    cases room' with
    | small small => cases outside.symm.trans (sound.recordOf_small small)
    | large large =>
      rw [Nat.add_sub_cancel]
      exact (sound.room_apart_large room large).mono (fit fits)
  · intro idx _
    refine ⟨ledger.free idx, refines.lists idx, sound.freeOnce idx, fun node listed => ?_⟩
    obtain ⟨waits, record, small, rfl⟩ := sound.free idx node listed
    refine ⟨⟨record, ?_, rfl, ?_⟩, fun block live => ?_⟩
    · rw [refines.records]
      exact small.1
    · obtain ⟨index, place, -⟩ := small.2
      exact ⟨index, place, (sound.small_bounds small).2.1⟩
    · obtain ⟨capacity, room, fits⟩ := sound.live block live
      have differ := (sound.freed node waits).2 block live
      exact (sound.room_apart room (.small small) differ).mono (fit fits)

end UserWorld.Agrees

theorem agrees_of_run {mem : Memory} {world : UserWorld}
    (run : Run UserWorld.step UserWorld.Permits (UserWorld.start mem) world) :
    ∃ ledger, world.Agrees ledger := by
  induction run with
  | start => exact ⟨Ledger.empty, .start mem⟩
  | step _ event permits next ih =>
    obtain ⟨ledger, agrees⟩ := ih
    exact agrees.step permits next

section Returns

variable {heap : UserHeap} {answer : Answer} {size : Nat}

theorem alignedSize_isSome (fits : size + blockHeaderSize + 4095 < 2 ^ 64) :
    (alignedSize size).isSome := by
  have total : checkedAdd size blockHeaderSize = some (size + blockHeaderSize) :=
    checkedAdd_eq_some.mpr ⟨by omega, rfl⟩
  have padded : checkedAdd (size + blockHeaderSize) 4095 = some (size + blockHeaderSize + 4095) :=
    checkedAdd_eq_some.mpr ⟨fits, rfl⟩
  simp only [alignedSize, total, padded, Option.map_some, Option.isSome_some]

/-- `malloc` returns unless the rounded size leaves the word. -/
theorem malloc_isSome (fits : size + blockHeaderSize + 4095 < 2 ^ 64) :
    (heap.malloc size answer).isSome := by
  unfold UserHeap.malloc
  split
  · rfl
  · split
    · obtain ⟨length, aligned⟩ := Option.isSome_iff_exists.mp (alignedSize_isSome fits)
      unfold UserHeap.mallocLarge
      rw [aligned]
      dsimp only
      split <;> rfl
    · rfl

theorem malloc_fits {result : Nat × UserHeap} (ran : heap.malloc size answer = some result) :
    size + blockHeaderSize + 4095 < 2 ^ 64 := by
  unfold UserHeap.malloc at ran
  split at ran
  · rename_i empty
    rw [empty]
    decide
  · split at ran
    · unfold UserHeap.mallocLarge at ran
      split at ran
      · cases ran
      · rename_i aligned
        exact (alignedSize_eq_some aligned).1
    · rename_i small
      simp only [smallThreshold, blockHeaderSize] at small ⊢
      omega

theorem call_isSome {call : Call} (small : call.requested < 2 ^ 47) :
    (heap.call answer call).isSome := by
  have fits : call.requested + blockHeaderSize + 4095 < 2 ^ 64 := by
    simp only [blockHeaderSize]
    omega
  obtain ⟨⟨ptr, after⟩, ran⟩ := Option.isSome_iff_exists.mp
    (@malloc_isSome heap answer call.requested fits)
  cases call with
  | malloc size => exact malloc_isSome fits
  | calloc nmemb size =>
    change heap.malloc (UserHeap.saturatingMul nmemb size) answer = some (ptr, after) at ran
    simp only [UserHeap.call, UserHeap.calloc, ran]
    split <;> rfl
  | free ptr => rfl
  | realloc old size =>
    change heap.malloc size answer = some (ptr, after) at ran
    simp only [UserHeap.call, UserHeap.realloc, ran]
    split
    · rfl
    · split
      · rfl
      · split
        · rfl
        · split
          · rfl
          · split <;> rfl

end Returns

section Answered

variable {heap after : UserHeap} {answer : Answer} {ptr : Nat}

/-- Memory from `calloc` is zero, and the number of bytes did not overflow. -/
theorem calloc_zero {nmemb size : Nat} (ran : heap.calloc nmemb size answer = some (ptr, after)) :
    UserHeap.saturatingMul nmemb size = nmemb * size ∧
      (ptr ≠ 0 → ∀ offset < nmemb * size, after.mem (ptr + offset) = 0) := by
  unfold UserHeap.calloc at ran
  dsimp only at ran
  split at ran
  · cases ran
  rename_i got middle served
  have fits := malloc_fits served
  have whole : UserHeap.saturatingMul nmemb size = nmemb * size := by
    unfold UserHeap.saturatingMul at fits ⊢
    omega
  refine ⟨whole, fun nonnull offset small => ?_⟩
  split at ran
  · cases ran
    dsimp only
    rw [memset_eq_fill, whole]
    exact Memory.patch_inside ⟨Nat.le_add_right _ _, Nat.add_lt_add_left small _⟩
  · rename_i null
    cases ran
    exact absurd nonnull null

theorem realloc_empty {old : Nat} (ran : heap.realloc old 0 answer = some (ptr, after)) :
    ptr = 0 := by
  unfold UserHeap.realloc at ran
  split at ran
  · cases ran
    rfl
  · rw [if_pos rfl] at ran
    cases ran
    rfl

end Answered

namespace UserWorld.Agrees

variable {world after : UserWorld} {ledger : Ledger} {answer : Answer} {ptr : Nat}

/-- A block that `realloc` returned is in use with its new size. -/
private theorem mem_after_realloc {books : Books} {small : Bool} {old size : Nat}
    (nonnull : ptr ≠ 0) (nonempty : size ≠ 0) :
    (⟨ptr, size⟩ : Block) ∈ (books.after small ptr (.realloc old size)).live := by
  rw [Books.after, if_neg nonempty, if_neg nonnull, Books.serve_of_ne nonnull]
  split
  · exact List.mem_cons_self
  · split
    · rename_i same
      rw [same]
      exact List.mem_cons_self
    · rename_i differs
      exact List.mem_filter.mpr ⟨List.mem_cons_self, decide_eq_true differs⟩

theorem answers_realloc (agrees : world.Agrees ledger) {old size : Nat}
    (permits : world.Permits (.call (.realloc old size) answer))
    (ran : world.call (.realloc old size) answer = some (ptr, after)) :
    world.Answers ptr after (.realloc old size) := by
  obtain ⟨allows, fresh⟩ := permits
  unfold UserWorld.call at ran
  split at ran
  · cases ran
  rename_i heap served
  cases ran
  change world.heap.realloc old size answer = some (ptr, heap) at served
  by_cases empty : size = 0
  · subst empty
    obtain rfl := realloc_empty served
    exact ⟨fun nonnull => absurd rfl nonnull, fun _ nonempty => absurd rfl nonempty⟩
  -- a block in use keeps its promise, and null is not one
  have preserves : ∀ block ∈ world.books.live, block.ptr = old →
      Preserves world.heap.mem block size (ptr, heap) := by
    rintro block live rfl
    rw [← agrees.books] at live
    rw [agrees.refines.mappings] at fresh
    have simulates := realloc_simulates agrees.refines agrees.sound live empty fresh
    rw [served] at simulates
    cases expected : ledger.realloc block.ptr size answer (world.heap.marked block.ptr) with
    | none =>
      rw [expected] at simulates
      cases simulates
    | some result =>
      rw [expected] at simulates
      cases simulates with
      | some both => exact both.2
  refine ⟨fun nonnull => ⟨mem_after_realloc nonnull empty, ?_⟩, fun null _ block live same => ?_⟩
  · rintro block live rfl
    exact (preserves block live rfl).contents nonnull
  · refine ⟨?_, (preserves block live same).failed null⟩
    have used := (agrees.world_sound.aligned block live).1
    rw [Books.after, if_neg (same ▸ Nat.ne_of_gt used), if_neg empty, if_pos null]
    exact live

theorem answers (agrees : world.Agrees ledger) {call : Call}
    (permits : world.Permits (.call call answer))
    (ran : world.call call answer = some (ptr, after)) : world.Answers ptr after call := by
  cases call with
  | realloc old size => exact agrees.answers_realloc permits ran
  | free old => trivial
  | malloc size =>
    unfold UserWorld.call at ran
    split at ran <;> cases ran
    intro nonnull
    rw [Books.after, Books.serve_of_ne nonnull]
    exact List.mem_cons_self
  | calloc nmemb size =>
    unfold UserWorld.call at ran
    split at ran
    · cases ran
    rename_i heap served
    cases ran
    obtain ⟨whole, zero⟩ := calloc_zero served
    refine fun nonnull => ⟨?_, zero nonnull⟩
    rw [Books.after, Books.serve_of_ne nonnull, whole]
    exact List.mem_cons_self

end UserWorld.Agrees

/-- In every run the blocks in use keep apart from each other and from all notes of the
allocator, and every call keeps its promise. -/
theorem user_heap_sound {mem : Memory} {world : UserWorld}
    (run : Run UserWorld.step UserWorld.Permits (UserWorld.start mem) world) :
    world.Sound ∧ ∀ call answer, world.Permits (.call call answer) →
      (call.requested < 2 ^ 47 → (world.call call answer).isSome) ∧
      ∀ ptr after, world.call call answer = some (ptr, after) →
        after.Sound ∧ world.Answers ptr after call := by
  obtain ⟨ledger, agrees⟩ := agrees_of_run run
  refine ⟨agrees.world_sound, fun call answer permits => ⟨fun small => ?_, ?_⟩⟩
  · obtain ⟨result, ran⟩ := Option.isSome_iff_exists.mp (@call_isSome world.heap answer call small)
    simp only [UserWorld.call, ran, Option.isSome_some]
  · intro ptr after ran
    obtain ⟨ledger', -, agrees'⟩ := agrees.serves permits ran
    exact ⟨agrees'.world_sound, agrees.answers permits ran⟩

/-- A block that grows into another class, freed twice by mistake, and a cleared one. -/
theorem user_heap_sound_moved : ∃ world,
    Run UserWorld.step UserWorld.Permits (UserWorld.start fun _ => 0xFF) world ∧
      world.books.live = [⟨262176, 12⟩, ⟨131104, 100⟩] ∧ world.books.freed = [65568, 65568] ∧
      world.heap.mem 131105 = 2 ∧ world.Sound := by
  have seen := Run.seen (fun world event => of_decide_eq_true)
    (show (follow UserWorld.step (fun world event => decide (world.Permits event))
      (UserWorld.start fun _ => 0xFF)
      [.call (.malloc 24) (.ok 65536), .write 65568 [1, 2, 3],
        .call (.realloc 65568 100) (.ok 131072), .call (.free 65568) (.error 12),
        .call (.calloc 3 4) (.ok 262144)]).any (fun world =>
        decide (world.books.live = [⟨262176, 12⟩, ⟨131104, 100⟩] ∧
          world.books.freed = [65568, 65568] ∧ world.heap.mem 131105 = 2)) = true by
      decide +kernel)
  obtain ⟨world, -, run, looks⟩ := seen
  obtain ⟨live, freed, byte⟩ := of_decide_eq_true looks
  exact ⟨world, run, live, freed, byte, (user_heap_sound run).1⟩

end RustPosix.Libc
