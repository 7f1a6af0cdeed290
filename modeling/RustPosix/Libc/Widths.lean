import RustPosix.Libc.UserHeapRun

/-! The allocator with every sum and difference of its sizes in 64 bits: one that leaves the
word stops the program. -/

namespace RustPosix.Libc

open Library Mm

namespace UserHeap

/-- Step 3 of the small path -/
def mallocArenaChecked (heap : UserHeap) (idx : Nat) (answer : Answer) : Option (Nat × UserHeap) :=
  if maxArenas ≤ heap.arenaRecords.length then some (0, heap)
  else
    let (arena, heap) := heap.mmap arenaSize answer
    if MapFailed arena then some (0, heap)
    else do
      let bumpOffset ← checkedAdd arenaHeaderSize (sizeClass idx)
      let stop ← checkedAdd arena arenaSize
      some (arena + arenaHeaderSize, { heap with
        mem := heap.mem.writeWords arena [arenaMagic, BitVec.ofNat 64 idx,
          BitVec.ofNat 64 bumpOffset, BitVec.ofNat 64 (heap.currentArenas idx)]
        currentArenas := Function.update heap.currentArenas idx arena
        arenaRecords := heap.arenaRecords ++ [⟨arena, stop, idx⟩] })

def mallocSmallChecked (heap : UserHeap) (size : Nat) (answer : Answer) : Option (Nat × UserHeap) :=
  let idx := classIdx size
  let bytes := sizeClass idx
  let node := heap.freeLists idx
  if node ≠ 0 then
    some (node, { heap with
      mem := heap.mem.write64 (node + 8) 0
      freeLists := Function.update heap.freeLists idx (heap.mem.read64 node).toNat })
  else
    let current := heap.currentArenas idx
    if current ≠ 0 then do
      let offset := (heap.mem.read64 (current + 16)).toNat
      let behind ← checkedAdd offset bytes
      if behind ≤ arenaSize then
        some (current + offset, { heap with
          mem := heap.mem.write64 (current + 16) (BitVec.ofNat 64 behind) })
      else heap.mallocArenaChecked idx answer
    else heap.mallocArenaChecked idx answer

def mallocChecked (heap : UserHeap) (size : Nat) (answer : Answer) : Option (Nat × UserHeap) :=
  if size = 0 then some (0, heap)
  else if smallThreshold < size then heap.mallocLarge size answer
  else heap.mallocSmallChecked size answer

def callocChecked (heap : UserHeap) (nmemb size : Nat) (answer : Answer) :
    Option (Nat × UserHeap) := do
  let total := saturatingMul nmemb size
  let (ptr, heap) ← heap.mallocChecked total answer
  if ptr ≠ 0 then some (ptr, { heap with mem := memset heap.mem ptr 0 total })
  else some (ptr, heap)

/-- `old_capacity`; the header is subtracted from the size that it holds. -/
def capacityOfChecked (heap : UserHeap) (ptr : Nat) : Option (Option Nat) :=
  match recordOf heap.arenaRecords ptr with
  | some record => some (some (sizeClass record.classIdx))
  | none =>
    let header := ptr - blockHeaderSize
    if heap.mem.read64 (header + 8) ≠ largeMagic then some none
    else
      let size := (heap.mem.read64 header).toNat
      if blockHeaderSize ≤ size then some (some (size - blockHeaderSize)) else none

def reallocChecked (heap : UserHeap) (ptr size : Nat) (answer : Answer) :
    Option (Nat × UserHeap) :=
  if ptr = 0 then heap.mallocChecked size answer
  else if size = 0 then some (0, heap.free ptr)
  else do
    match ← heap.capacityOfChecked ptr with
    | none => some (0, heap)
    | some oldCapacity =>
      if size ≤ oldCapacity then some (ptr, heap)
      else
        let (newPtr, heap) ← heap.mallocChecked size answer
        if newPtr ≠ 0 then
          some (newPtr, { heap with mem := memcpy heap.mem newPtr ptr oldCapacity }.free ptr)
        else some (newPtr, heap)

def callChecked (heap : UserHeap) (answer : Answer) : Call → Option (Nat × UserHeap)
  | .malloc size => heap.mallocChecked size answer
  | .calloc nmemb size => heap.callocChecked nmemb size answer
  | .realloc ptr size => heap.reallocChecked ptr size answer
  | .free ptr => some (0, heap.free ptr)

end UserHeap

section Agreement

variable {heap : UserHeap} {ledger : Ledger} {size : Nat} {answer : Answer}

/-- A mapping that `malloc` accepts ends below the end of the address space. -/
theorem mmap_below {length arena : Nat} {after : UserHeap} (fresh : Fresh heap.mappings length answer)
    (mapped : heap.mmap length answer = (arena, after)) (works : ¬ MapFailed arena) :
    arena + length < 2 ^ 64 := by
  cases answer with
  | error errno =>
    obtain ⟨positive, small⟩ : 0 < errno ∧ errno ≤ 4095 := fresh
    cases mapped
    exact absurd (Or.inr (by omega)) works
  | ok addr =>
    cases mapped
    exact fresh.2.1

theorem mallocArenaChecked_eq {idx : Nat} (valid : idx < sizeClasses.length)
    (fresh : Fresh heap.mappings arenaSize answer) :
    heap.mallocArenaChecked idx answer = some (heap.mallocArena idx answer) := by
  obtain ⟨_, bytes, _⟩ := sizeClass_bounds valid
  unfold UserHeap.mallocArenaChecked UserHeap.mallocArena
  by_cases full : maxArenas ≤ heap.arenaRecords.length
  · rw [if_pos full, if_pos full]
  · rw [if_neg full, if_neg full]
    cases mapped : heap.mmap arenaSize answer with
    | mk arena after =>
      by_cases failed : MapFailed arena
      · simp only [if_pos failed]
      · have header : checkedAdd arenaHeaderSize (sizeClass idx) = some (arenaHeaderSize + sizeClass idx) :=
          checkedAdd_eq_some.mpr ⟨by simp only [arenaHeaderSize, smallThreshold] at *; omega, rfl⟩
        have stop : checkedAdd arena arenaSize = some (arena + arenaSize) :=
          checkedAdd_eq_some.mpr ⟨mmap_below fresh mapped failed, rfl⟩
        simp only [if_neg failed, header, stop, Option.bind_eq_bind, Option.bind_some]

/-- The offset in an arena stays inside the arena. -/
theorem bump_small (refines : Refines heap ledger) (sound : ledger.Sound) {idx : Nat}
    (opened : heap.currentArenas idx ≠ 0) :
    (heap.mem.read64 (heap.currentArenas idx + 16)).toNat ≤ arenaSize := by
  rw [refines.current] at opened ⊢
  obtain ⟨record, member, start, -⟩ := sound.current idx opened
  have bump := (sound.arena record member).bump
  rw [← start, refines.bumps record member, BitVec.toNat_ofNat]
  exact Nat.le_trans (Nat.mod_le ..) bump

theorem mallocSmallChecked_eq (refines : Refines heap ledger) (sound : ledger.Sound)
    (small : size ≤ smallThreshold) (fresh : Fresh heap.mappings arenaSize answer) :
    heap.mallocSmallChecked size answer = some (heap.mallocSmall size answer) := by
  obtain ⟨valid, -⟩ := classIdx_fits small
  obtain ⟨_, bytes, _⟩ := sizeClass_bounds valid
  unfold UserHeap.mallocSmallChecked UserHeap.mallocSmall
  by_cases listed : heap.freeLists (classIdx size) ≠ 0
  · simp only [if_pos listed]
  · simp only [if_neg listed, mallocArenaChecked_eq valid fresh]
    by_cases opened : heap.currentArenas (classIdx size) ≠ 0
    · have bump := bump_small refines sound opened
      have sum : checkedAdd (heap.mem.read64 (heap.currentArenas (classIdx size) + 16)).toNat
          (sizeClass (classIdx size)) = some _ :=
        checkedAdd_eq_some.mpr ⟨by simp only [arenaSize, smallThreshold] at *; omega, rfl⟩
      simp only [if_pos opened, sum, Option.bind_eq_bind, Option.bind_some, and_iff_right opened]
      exact (apply_ite some _ _ _).symm
    · simp only [if_neg opened, if_neg fun both => opened (And.left both)]

theorem mallocChecked_eq (refines : Refines heap ledger) (sound : ledger.Sound)
    (fresh : Fresh heap.mappings (mappingSize size) answer) :
    heap.mallocChecked size answer = heap.malloc size answer := by
  unfold UserHeap.mallocChecked UserHeap.malloc
  by_cases large : smallThreshold < size
  · simp only [if_pos large]
  · rw [mappingSize, if_neg large] at fresh
    rw [if_neg large, if_neg large, mallocSmallChecked_eq refines sound (Nat.le_of_not_lt large) fresh]

theorem callocChecked_eq {nmemb : Nat} (refines : Refines heap ledger) (sound : ledger.Sound)
    (fresh : Fresh heap.mappings (mappingSize (UserHeap.saturatingMul nmemb size)) answer) :
    heap.callocChecked nmemb size answer = heap.calloc nmemb size answer := by
  unfold UserHeap.callocChecked UserHeap.calloc
  dsimp only
  rw [mallocChecked_eq refines sound fresh]
  cases heap.malloc (UserHeap.saturatingMul nmemb size) answer with
  | none => rfl
  | some result => rfl

/-- The header of a block in use holds more than its own size. -/
theorem capacityOfChecked_eq (refines : Refines heap ledger) (sound : ledger.Sound) {block : Block}
    (live : block ∈ ledger.books.live) :
    heap.capacityOfChecked block.ptr = some (heap.capacityOf block.ptr) := by
  obtain ⟨capacity, room, -⟩ := sound.live block live
  unfold UserHeap.capacityOfChecked UserHeap.capacityOf
  rw [refines.records]
  generalize place : block.ptr = ptr at room
  cases room with
  | small small => rw [sound.recordOf_small small]
  | @large mapping large =>
    rw [sound.recordOf_large large ⟨Nat.le_add_right _ _, Nat.add_lt_add_left large.behind _⟩]
    obtain ⟨size, magic⟩ := refines.headers block live mapping large place
    have below := (sound.pages mapping large.member).2.2
    have wide : blockHeaderSize ≤ (heap.mem.read64 mapping.start).toNat := by
      rw [size, BitVec.toNat_ofNat,
        Nat.mod_eq_of_lt (Nat.lt_of_le_of_lt (Nat.le_add_left _ _) below)]
      exact Nat.le_of_lt large.behind
    dsimp only
    rw [Nat.add_sub_cancel, if_neg (not_not.mpr magic), if_neg (not_not.mpr magic), if_pos wide]

theorem callChecked_eq (refines : Refines heap ledger) (sound : ledger.Sound) {call : Call}
    (allows : ledger.books.Allows call)
    (fresh : Fresh heap.mappings (mappingSize call.requested) answer) :
    heap.callChecked answer call = heap.call answer call := by
  cases call with
  | malloc size => exact mallocChecked_eq refines sound fresh
  | calloc nmemb size => exact callocChecked_eq refines sound fresh
  | free ptr => rfl
  | realloc ptr size =>
    have served : heap.mallocChecked size answer = heap.malloc size answer :=
      mallocChecked_eq refines sound fresh
    change heap.reallocChecked ptr size answer = heap.realloc ptr size answer
    unfold UserHeap.reallocChecked UserHeap.realloc
    by_cases null : ptr = 0
    · rw [if_pos null, if_pos null, served]
    · obtain ⟨block, live, rfl⟩ := allows.resolve_left null
      rw [if_neg null, if_neg null, capacityOfChecked_eq refines sound live, served]
      refine ite_congr rfl (fun _ => rfl) fun _ => ?_
      cases heap.capacityOf block.ptr with
      | none => rfl
      | some oldCapacity =>
        refine ite_congr rfl (fun _ => rfl) fun _ => ?_
        cases heap.malloc size answer with
        | none => rfl
        | some result => rfl

end Agreement

/-- The bytes asked for, the header and the padding of a page fit in a word. A block that has the
bytes already is not moved. -/
def Call.Fits (heap : UserHeap) : Call → Prop
  | malloc size => size + blockHeaderSize + 4095 < 2 ^ 64
  | calloc nmemb size => nmemb * size + blockHeaderSize + 4095 < 2 ^ 64
  | realloc ptr size => size + blockHeaderSize + 4095 < 2 ^ 64 ∨
    ptr ≠ 0 ∧ ∃ capacity ∈ heap.capacityOf ptr, size ≤ capacity
  | free _ => True

namespace UserWorld

def callChecked (world : UserWorld) (call : Call) (answer : Answer) : Option (Nat × UserWorld) :=
  match world.heap.callChecked answer call with
  | none => none
  | some (ptr, heap) =>
    some (ptr, ⟨heap, world.books.after (recordOf heap.arenaRecords call.target).isSome ptr call⟩)

/-- Null, or a block that has all the bytes asked for. -/
def Grants (ptr : Nat) (after : UserWorld) : Call → Prop
  | .malloc size => ptr ≠ 0 → ⟨ptr, size⟩ ∈ after.books.live
  | .calloc nmemb size => (2 ^ 64 ≤ nmemb * size → ptr = 0) ∧
    (ptr ≠ 0 → ⟨ptr, nmemb * size⟩ ∈ after.books.live ∧
      ∀ offset < nmemb * size, after.heap.mem (ptr + offset) = 0)
  | .realloc _ size => ptr ≠ 0 → ⟨ptr, size⟩ ∈ after.books.live
  | .free _ => True

theorem call_isSome_iff {world : UserWorld} {call : Call} {answer : Answer} :
    (world.call call answer).isSome ↔ (world.heap.call answer call).isSome := by
  unfold UserWorld.call
  split <;> rename_i ran <;> rw [ran] <;> rfl

end UserWorld

section Sizes

variable {heap : UserHeap} {answer : Answer}

theorem malloc_isSome_iff {size : Nat} :
    (heap.malloc size answer).isSome ↔ size + blockHeaderSize + 4095 < 2 ^ 64 := by
  refine ⟨fun returns => ?_, malloc_isSome⟩
  obtain ⟨result, ran⟩ := Option.isSome_iff_exists.mp returns
  exact malloc_fits ran

theorem calloc_isSome_iff {nmemb size : Nat} :
    (heap.calloc nmemb size answer).isSome ↔ nmemb * size + blockHeaderSize + 4095 < 2 ^ 64 := by
  have same : (heap.calloc nmemb size answer).isSome ↔
      (heap.malloc (UserHeap.saturatingMul nmemb size) answer).isSome := by
    unfold UserHeap.calloc
    dsimp only
    cases heap.malloc (UserHeap.saturatingMul nmemb size) answer with
    | none => rfl
    | some result =>
      dsimp only
      split <;> rfl
  rw [same, malloc_isSome_iff, UserHeap.saturatingMul, blockHeaderSize]
  omega

theorem realloc_isSome_iff {ptr size : Nat} (known : ptr ≠ 0 → (heap.capacityOf ptr).isSome) :
    (heap.realloc ptr size answer).isSome ↔ (Call.realloc ptr size).Fits heap := by
  unfold UserHeap.realloc Call.Fits
  by_cases null : ptr = 0
  · rw [if_pos null, malloc_isSome_iff]
    exact ⟨.inl, fun either => either.resolve_right fun moved => moved.1 null⟩
  · rw [if_neg null]
    by_cases empty : size = 0
    · rw [if_pos empty]
      exact ⟨fun _ => .inl (by rw [empty]; decide), fun _ => rfl⟩
    · obtain ⟨capacity, found⟩ := Option.isSome_iff_exists.mp (known null)
      rw [if_neg empty, found]
      dsimp only
      by_cases room : size ≤ capacity
      · rw [if_pos room]
        exact ⟨fun _ => .inr ⟨null, capacity, found, room⟩, fun _ => rfl⟩
      · have moves : ¬ (ptr ≠ 0 ∧ ∃ kept ∈ heap.capacityOf ptr, size ≤ kept) := by
          rintro ⟨-, kept, same, fits⟩
          exact room (Option.some.inj (found.symm.trans same) ▸ fits)
        rw [if_neg room, or_iff_left moves, ← @malloc_isSome_iff heap answer]
        cases heap.malloc size answer with
        | none => rfl
        | some result =>
          dsimp only
          split <;> simp

end Sizes

/-- Exactly the requests whose rounded size fits are answered, and as they should be. -/
theorem request_sizes_iff {mem : Memory} {world : UserWorld} {call : Call} {answer : Answer}
    (run : Run UserWorld.step UserWorld.Permits (UserWorld.start mem) world)
    (permits : world.Permits (.call call answer)) :
    (∃ ptr after, world.callChecked call answer = some (ptr, after) ∧ after.Sound ∧
        UserWorld.Grants ptr after call) ↔ call.Fits world.heap := by
  obtain ⟨ledger, agrees⟩ := agrees_of_run run
  have same : world.callChecked call answer = world.call call answer := by
    rw [UserWorld.callChecked, callChecked_eq agrees.refines agrees.sound
      (agrees.books ▸ permits.1) permits.2]
    rfl
  have returns : (world.call call answer).isSome ↔ call.Fits world.heap := by
    rw [UserWorld.call_isSome_iff]
    cases call with
    | malloc size => exact malloc_isSome_iff
    | calloc nmemb size => exact calloc_isSome_iff
    | free ptr => exact ⟨fun _ => trivial, fun _ => rfl⟩
    | realloc ptr size =>
      refine realloc_isSome_iff fun nonnull => ?_
      obtain ⟨block, live, rfl⟩ := permits.1.resolve_left nonnull
      rw [← agrees.books] at live
      obtain ⟨capacity, room, -⟩ := agrees.sound.live block live
      rw [capacityOf_eq agrees.refines agrees.sound live room]
      rfl
  rw [same, ← returns]
  constructor
  · rintro ⟨ptr, after, ran, -⟩
    rw [ran]
    rfl
  · intro returned
    obtain ⟨⟨ptr, after⟩, ran⟩ := Option.isSome_iff_exists.mp returned
    obtain ⟨ledger', -, agrees'⟩ := agrees.serves permits ran
    have answers := agrees.answers permits ran
    refine ⟨ptr, after, ran, agrees'.world_sound, ?_⟩
    cases call with
    | malloc size => exact answers
    | realloc old size => exact fun nonnull => (answers.1 nonnull).1
    | free old => trivial
    | calloc nmemb size =>
      refine ⟨fun large => ?_, answers⟩
      have fits : nmemb * size + blockHeaderSize + 4095 < 2 ^ 64 := returns.mp returned
      omega

theorem request_sizes_last_page :
    ∃ ptr after, (UserWorld.start fun _ => 0).callChecked (.malloc (2 ^ 64 - 4112)) (.error 12) =
        some (ptr, after) ∧ after.Sound ∧ UserWorld.Grants ptr after (.malloc (2 ^ 64 - 4112)) := by
  have permits : (UserWorld.start fun _ => 0).Permits (.call (.malloc (2 ^ 64 - 4112)) (.error 12)) :=
    ⟨trivial, by decide⟩
  have fits : (2 ^ 64 - 4112) + blockHeaderSize + 4095 < 2 ^ 64 := by decide
  exact (request_sizes_iff Run.start permits).mpr fits

/-- One byte more and the sum leaves the word; a product that is too large is not refused. -/
theorem request_size_overflows :
    (UserWorld.start fun _ => 0).Permits (.call (.malloc (2 ^ 64 - 4111)) (.error 12)) ∧
      (UserWorld.start fun _ => 0).callChecked (.malloc (2 ^ 64 - 4111)) (.error 12) = none ∧
      (UserWorld.start fun _ => 0).Permits (.call (.calloc (2 ^ 32) (2 ^ 32)) (.error 12)) ∧
      (UserWorld.start fun _ => 0).callChecked (.calloc (2 ^ 32) (2 ^ 32)) (.error 12) = none :=
  ⟨⟨trivial, by decide⟩, rfl, ⟨trivial, by decide⟩, rfl⟩

end RustPosix.Libc
