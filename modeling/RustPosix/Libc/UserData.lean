import RustPosix.Libc.UserHeapRun

/-! Two runs with the same calls: what the program writes into its blocks decides which
addresses it gets only through the guard against double frees. -/

namespace RustPosix.Libc

open Library Mm

/-- The same calls with the same answers, and any stores of either program in between. -/
inductive SameCalls : List UserEvent → List UserEvent → Prop where
  | nil : SameCalls [] []
  | call {events others : List UserEvent} (call : Call) (answer : Answer)
      (rest : SameCalls events others) :
      SameCalls (.call call answer :: events) (.call call answer :: others)
  | left {events others : List UserEvent} (addr : Nat) (bytes : List Byte)
      (rest : SameCalls events others) : SameCalls (.write addr bytes :: events) others
  | right {events others : List UserEvent} (addr : Nat) (bytes : List Byte)
      (rest : SameCalls events others) : SameCalls events (.write addr bytes :: others)

namespace UserWorld

/-- The addresses that the calls return, up to the end or a panic. -/
def addresses (world : UserWorld) : List UserEvent → Option (List Nat)
  | [] => some []
  | .write addr bytes :: rest =>
    addresses { world with heap := { world.heap with mem := world.heap.mem.store addr bytes } } rest
  | .call call answer :: rest =>
    match world.call call answer with
    | none => none
    | some (ptr, after) => (after.addresses rest).map (ptr :: ·)

/-- Every event of a run meets a condition in the state it is taken from. -/
def Along (holds : UserWorld → UserEvent → Prop) (world : UserWorld) : List UserEvent → Prop
  | [] => True
  | event :: rest => holds world event ∧
    match world.step event with
    | none => True
    | some after => Along holds after rest

instance Along.decidable (holds : UserWorld → UserEvent → Prop)
    [each : ∀ world event, Decidable (holds world event)] (world : UserWorld) :
    ∀ events, Decidable (Along holds world events)
  | [] => inferInstanceAs (Decidable True)
  | event :: rest =>
    match next : world.step event with
    | none => decidable_of_iff (holds world event) (by simp [Along, next])
    | some after =>
      have := Along.decidable holds after rest
      decidable_of_iff (holds world event ∧ Along holds after rest) (by simp [Along, next])

/-- The call gives its target back. -/
def GivesBack (world : UserWorld) : Call → Prop
  | .malloc _ => False
  | .calloc _ _ => False
  | .free _ => True
  | .realloc ptr size => size = 0 ∨ ∃ capacity ∈ world.heap.capacityOf ptr, capacity < size

/-- No small block is given back whose second word looks like the mark of a free block. -/
def Unmarked (world : UserWorld) : UserEvent → Prop
  | .write _ _ => True
  | .call call _ => world.GivesBack call → (∃ block ∈ world.books.live, block.ptr = call.target) →
    (recordOf world.heap.arenaRecords call.target).isSome →
      world.heap.mem.read64 (call.target + 8) ≠ freeMagic

/-- The programs of the comparison: legal ones that meet this condition. -/
def Careful (world : UserWorld) (event : UserEvent) : Prop :=
  world.Permits event ∧ world.Unmarked event

/-- A small block that is freed is what the next request of its class gets. -/
def Reused (world : UserWorld) : UserEvent → Prop
  | .call (.free ptr) answer => (∃ block ∈ world.books.live, block.ptr = ptr) →
    ∀ record ∈ recordOf world.heap.arenaRecords ptr,
      ∀ after ∈ world.step (.call (.free ptr) answer), ∀ size again, 0 < size →
        size ≤ smallThreshold → classIdx size = record.classIdx →
          (after.call (.malloc size) again).map Prod.fst = some ptr
  | _ => True

end UserWorld

namespace Ledger

variable {ledger : Ledger} {ptr : Nat}

/-- The guard is about blocks in arenas only. -/
theorem release_marked (outside : recordOf ledger.records ptr = none) (marked other : Bool) :
    ledger.release ptr marked = ledger.release ptr other := by
  unfold release
  rw [outside]

def GivesBack (ledger : Ledger) : Call → Prop
  | .malloc _ => False
  | .calloc _ _ => False
  | .free _ => True
  | .realloc ptr size => size = 0 ∨ ∃ capacity ∈ ledger.capacityOf ptr, capacity < size

/-- The guard is asked only when a block of an arena is given back. -/
theorem call_marked (sound : ledger.Sound) {call : Call} {answer : Answer} {marked other : Bool}
    (allows : ledger.books.Allows call)
    (fresh : Fresh ledger.mappings (mappingSize call.requested) answer)
    (same : ledger.GivesBack call → (recordOf ledger.records call.target).isSome →
      marked = other) : ledger.call answer marked call = ledger.call answer other call := by
  cases call with
  | malloc size => rfl
  | calloc nmemb size => rfl
  | free ptr =>
    cases found : recordOf ledger.records ptr with
    | none => exact congrArg (fun after => some (0, after)) (release_marked found marked other)
    | some record => rw [same trivial (Option.isSome_of_mem found)]
  | realloc old size =>
    rcases allows with rfl | ⟨block, live, rfl⟩
    · rfl
    obtain ⟨capacity, room, -⟩ := sound.live block live
    have known := sound.capacityOf room
    have nonnull : block.ptr ≠ 0 := Nat.ne_of_gt (sound.room_nonnull room).1
    cases found : recordOf ledger.records block.ptr with
    | none =>
      simp only [call, realloc, if_neg nonnull, release_marked found marked other, known]
      split
      · rfl
      split
      · rfl
      split
      · rfl
      rename_i newPtr after ran
      -- the block has no arena afterwards either
      have outside : recordOf after.records block.ptr = none := by
        obtain ⟨still, -, houses⟩ := sound.malloc fresh ran
        generalize place : block.ptr = ptr at room found
        cases room with
        | small small => cases found.symm.trans (sound.recordOf_small small)
        | large large =>
          have large' := houses.large _ large ⟨block, live, place⟩
          exact still.recordOf_large large'
            ⟨Nat.le_add_right _ _, Nat.add_lt_add_left large'.behind _⟩
      rw [release_marked outside marked other]
    | some record =>
      have small : (recordOf ledger.records block.ptr).isSome := Option.isSome_of_mem found
      by_cases gives : size = 0 ∨ capacity < size
      · rw [same (gives.imp_right fun grows => ⟨capacity, known, grows⟩) small]
      · obtain ⟨nonempty, fits⟩ := not_or.mp gives
        simp only [call, realloc, if_neg nonnull, if_neg nonempty, known, if_pos (Nat.not_lt.mp fits)]

end Ledger

namespace UserWorld.Agrees

variable {world world' : UserWorld} {ledger : Ledger} {answer : Answer}

private theorem givesBack (agrees : world.Agrees ledger) {call : Call} {block : Block}
    (live : block ∈ ledger.books.live) (place : block.ptr = call.target)
    (gives : ledger.GivesBack call) : world.GivesBack call := by
  cases call with
  | malloc size => exact gives
  | calloc nmemb size => exact gives
  | free ptr => exact gives
  | realloc old size =>
    obtain rfl : block.ptr = old := place
    obtain ⟨capacity, room, -⟩ := agrees.sound.live block live
    refine gives.imp_right fun ⟨known, found, grows⟩ => ⟨capacity, ?_, ?_⟩
    · exact capacityOf_eq agrees.refines agrees.sound live room
    · cases (agrees.sound.capacityOf room).symm.trans found
      exact grows

/-- The guard then tells the free blocks from the others. -/
theorem marked_eq (agrees : world.Agrees ledger) {call : Call}
    (allows : ledger.books.Allows call) (unmarked : world.Unmarked (.call call answer))
    (gives : ledger.GivesBack call) (small : (recordOf ledger.records call.target).isSome) :
    world.heap.marked call.target = decide (call.target ∈ ledger.books.freed) := by
  have held : call.target = 0 ∨ (∃ block ∈ ledger.books.live, block.ptr = call.target) ∨
      call.target ∈ ledger.books.freed := by
    cases call with
    | malloc size => exact gives.elim
    | calloc nmemb size => exact gives.elim
    | free ptr => exact allows
    | realloc old size => exact allows.imp_right Or.inl
  rcases held with null | ⟨block, live, place⟩ | freed
  · obtain ⟨record, found⟩ := Option.isSome_iff_exists.mp small
    obtain ⟨member, low, -⟩ := recordOf_some found
    have nonnull := (agrees.sound.arena record member).nonnull
    omega
  · have waits : call.target ∉ ledger.books.freed := place ▸ agrees.sound.live_not_freed live
    rw [decide_eq_false waits]
    have back := agrees.givesBack live place gives
    rw [agrees.books] at live
    rw [← agrees.refines.records] at small
    exact decide_eq_false (unmarked back ⟨block, live, place⟩ small)
  · rw [decide_eq_true freed]
    exact decide_eq_true (agrees.refines.marks _ freed)

end UserWorld.Agrees

/-- Two programs in step with one ledger get the same addresses. -/
theorem addresses_congr {events others : List UserEvent} (same : SameCalls events others)
    {world world' : UserWorld} {ledger : Ledger} (agrees : world.Agrees ledger)
    (agrees' : world'.Agrees ledger)
    (along : UserWorld.Along UserWorld.Careful world events)
    (along' : UserWorld.Along UserWorld.Careful world' others) :
    world.addresses events = world'.addresses others := by
  induction same generalizing world world' ledger with
  | nil => rfl
  | left addr bytes rest ih =>
    obtain ⟨⟨permits, -⟩, later⟩ := along
    exact ih (agrees.write permits) agrees' later along'
  | right addr bytes rest ih =>
    obtain ⟨⟨permits, -⟩, later⟩ := along'
    exact ih agrees (agrees'.write permits) along later
  | call call answer rest ih =>
    obtain ⟨⟨permits, unmarked⟩, later⟩ := along
    obtain ⟨⟨permits', unmarked'⟩, later'⟩ := along'
    have allows : ledger.books.Allows call := agrees.books ▸ permits.1
    have fresh : Fresh ledger.mappings (mappingSize call.requested) answer :=
      agrees.refines.mappings ▸ permits.2
    have first := agrees.rel permits
    have second := agrees'.rel permits'
    have alike := Ledger.call_marked agrees.sound allows fresh fun gives small =>
      (agrees.marked_eq allows unmarked gives small).trans
        (agrees'.marked_eq allows unmarked' gives small).symm
    rw [alike] at first
    unfold UserWorld.addresses
    rcases rel_cases second with ⟨fails, expected⟩ | ⟨⟨ptr, after'⟩, ⟨_, ledger'⟩, ran', expected,
      rfl, next'⟩
    · rw [expected] at first
      rcases rel_cases first with ⟨fails', -⟩ | ⟨_, _, -, impossible, -⟩
      · rw [fails, fails']
      · cases impossible
    · rw [expected] at first
      rcases rel_cases first with ⟨-, impossible⟩ | ⟨⟨_, after⟩, _, ran, found, rfl, next⟩
      · cases impossible
      cases found
      have step : world.step (.call call answer) = some after := by
        simp only [UserWorld.step, ran, Option.map_some]
      have step' : world'.step (.call call answer) = some after' := by
        simp only [UserWorld.step, ran', Option.map_some]
      rw [step] at later
      rw [step'] at later'
      rw [ran, ran']
      exact congrArg (Option.map (ptr :: ·)) (ih next next' later later')

theorem reused_of_unmarked {world : UserWorld} {ledger : Ledger} {event : UserEvent}
    (agrees : world.Agrees ledger) (unmarked : world.Unmarked event) : world.Reused event := by
  unfold UserWorld.Reused
  split
  · rename_i ptr answer
    rintro ⟨block, live, rfl⟩ record found after next size again positive small class_eq
    have nonnull : block.ptr ≠ 0 := Nat.ne_of_gt (agrees.world_sound.aligned block live).1
    have word : world.heap.mem.read64 (block.ptr + 8) ≠ freeMagic :=
      unmarked trivial ⟨block, live, rfl⟩ (Option.isSome_of_mem found)
    have table : recordOf world.heap.arenaRecords block.ptr = some record := found
    cases next
    have heads : (world.heap.free block.ptr).freeLists (classIdx size) = block.ptr := by
      unfold UserHeap.free
      rw [if_neg nonnull, table]
      dsimp only
      rw [if_neg word, class_eq]
      exact Function.update_self ..
    have served : ((world.heap.free block.ptr).malloc size again).map Prod.fst =
        some block.ptr := by
      unfold UserHeap.malloc UserHeap.mallocSmall
      rw [if_neg (Nat.ne_of_gt positive), if_neg (Nat.not_lt.mpr small)]
      dsimp only
      rw [heads, if_pos nonnull]
      rfl
    obtain ⟨⟨ptr, heap⟩, ran, rfl⟩ := Option.map_eq_some_iff.mp served
    simp only [UserWorld.call, UserHeap.call, ran, Option.map_some]
  · trivial

theorem along_reused {events : List UserEvent} {world : UserWorld} {ledger : Ledger}
    (agrees : world.Agrees ledger) (careful : UserWorld.Along UserWorld.Careful world events) :
    UserWorld.Along UserWorld.Reused world events := by
  induction events generalizing world ledger with
  | nil => trivial
  | cons event rest ih =>
    obtain ⟨⟨permits, unmarked⟩, later⟩ := careful
    refine ⟨reused_of_unmarked agrees unmarked, ?_⟩
    cases next : world.step event with
    | none => trivial
    | some after =>
      rw [next] at later
      obtain ⟨ledger', agrees'⟩ := agrees.step permits next
      exact ih agrees' later

/-- What the program writes into its blocks is invisible to the allocator as long as no small
block is given back with the mark of a free block in its second word. -/
theorem user_data_ignored {mem mem' : Memory} {events others : List UserEvent}
    (same : SameCalls events others)
    (careful : UserWorld.Along UserWorld.Careful (UserWorld.start mem) events)
    (careful' : UserWorld.Along UserWorld.Careful (UserWorld.start mem') others) :
    (UserWorld.start mem).addresses events = (UserWorld.start mem').addresses others ∧
      UserWorld.Along UserWorld.Reused (UserWorld.start mem) events :=
  ⟨addresses_congr same (.start mem) (.start mem') careful careful', along_reused (.start mem) careful⟩

instance (world : UserWorld) (call : Call) : Decidable (world.GivesBack call) :=
  match call with
  | .malloc _ => inferInstanceAs (Decidable False)
  | .calloc _ _ => inferInstanceAs (Decidable False)
  | .free _ => inferInstanceAs (Decidable True)
  | .realloc ptr size => inferInstanceAs
      (Decidable (size = 0 ∨ ∃ capacity ∈ world.heap.capacityOf ptr, capacity < size))

instance (world : UserWorld) (event : UserEvent) : Decidable (world.Unmarked event) :=
  match event with
  | .write _ _ => inferInstanceAs (Decidable True)
  | .call call _ => inferInstanceAs (Decidable (world.GivesBack call →
      (∃ block ∈ world.books.live, block.ptr = call.target) →
        (recordOf world.heap.arenaRecords call.target).isSome →
          world.heap.mem.read64 (call.target + 8) ≠ freeMagic))

instance (world : UserWorld) (event : UserEvent) : Decidable (world.Careful event) :=
  inferInstanceAs (Decidable (_ ∧ _))

/-- A program that writes to its block and one that does not. -/
theorem user_data_ignored_stores :
    (UserWorld.start fun _ => 0).addresses [.call (.malloc 16) (.ok 65536),
      .write 65568 [7, 7], .call (.free 65568) (.error 12), .call (.malloc 16) (.error 12)] =
    (UserWorld.start fun _ => 0).addresses [.call (.malloc 16) (.ok 65536),
      .call (.free 65568) (.error 12), .call (.malloc 16) (.error 12)] :=
  (user_data_ignored (.call _ _ (.left _ _ (.call _ _ (.call _ _ .nil)))) (by decide +kernel)
    (by decide +kernel)).1

/-- The word `POSIXFRE` in a block makes `free` take it for a free one: it is never handed out
again. -/
theorem free_mark_in_data :
    SameCalls
      [.call (.malloc 16) (.ok 65536), .call (.free 65568) (.error 12),
        .call (.malloc 16) (.error 12)]
      [.call (.malloc 16) (.ok 65536),
        .write 65576 [0x45, 0x52, 0x46, 0x58, 0x49, 0x53, 0x4F, 0x50],
        .call (.free 65568) (.error 12), .call (.malloc 16) (.error 12)] ∧
    UserWorld.Along UserWorld.Permits (UserWorld.start fun _ => 0)
      [.call (.malloc 16) (.ok 65536), .call (.free 65568) (.error 12),
        .call (.malloc 16) (.error 12)] ∧
    UserWorld.Along UserWorld.Permits (UserWorld.start fun _ => 0)
      [.call (.malloc 16) (.ok 65536),
        .write 65576 [0x45, 0x52, 0x46, 0x58, 0x49, 0x53, 0x4F, 0x50],
        .call (.free 65568) (.error 12), .call (.malloc 16) (.error 12)] ∧
    (UserWorld.start fun _ => 0).addresses
      [.call (.malloc 16) (.ok 65536), .call (.free 65568) (.error 12),
        .call (.malloc 16) (.error 12)] = some [65568, 0, 65568] ∧
    (UserWorld.start fun _ => 0).addresses
      [.call (.malloc 16) (.ok 65536),
        .write 65576 [0x45, 0x52, 0x46, 0x58, 0x49, 0x53, 0x4F, 0x50],
        .call (.free 65568) (.error 12), .call (.malloc 16) (.error 12)] =
      some [65568, 0, 65584] :=
  ⟨.call _ _ (.right _ _ (.call _ _ (.call _ _ .nil))), by decide +kernel, by decide +kernel,
    by decide +kernel, by decide +kernel⟩

end RustPosix.Libc
