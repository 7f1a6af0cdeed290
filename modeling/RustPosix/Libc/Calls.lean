import RustPosix.Libc.MallocRefines

/-! The calls of a program to its heap, on the memory and on the ledger. -/

namespace RustPosix.Libc

open Library Mm

inductive Call where
  | malloc (size : Nat)
  | calloc (nmemb size : Nat)
  | realloc (ptr size : Nat)
  | free (ptr : Nat)
  deriving DecidableEq, Repr

namespace Call

/-- The bytes asked for. -/
def requested : Call → Nat
  | malloc size => size
  | calloc nmemb size => UserHeap.saturatingMul nmemb size
  | realloc _ size => size
  | free _ => 0

/-- The block that is given back or exchanged. -/
def target : Call → Nat
  | malloc _ => 0
  | calloc _ _ => 0
  | realloc ptr _ => ptr
  | free ptr => ptr

end Call

def UserHeap.call (heap : UserHeap) (answer : Answer) : Call → Option (Nat × UserHeap)
  | .malloc size => heap.malloc size answer
  | .calloc nmemb size => heap.calloc nmemb size answer
  | .realloc ptr size => heap.realloc ptr size answer
  | .free ptr => some (0, heap.free ptr)

def Ledger.call (ledger : Ledger) (answer : Answer) (marked : Bool) : Call → Option (Nat × Ledger)
  | .malloc size => ledger.malloc size answer
  | .calloc nmemb size => ledger.malloc (UserHeap.saturatingMul nmemb size) answer
  | .realloc ptr size => ledger.realloc ptr size answer marked
  | .free ptr => some (0, ledger.release ptr marked)

namespace Books

/-- What may be given back or exchanged. -/
def Allows (books : Books) : Call → Prop
  | .malloc _ => True
  | .calloc _ _ => True
  | .realloc ptr _ => ptr = 0 ∨ ∃ block ∈ books.live, block.ptr = ptr
  | .free ptr => books.Frees ptr

instance (books : Books) (call : Call) : Decidable (books.Allows call) :=
  match call with
  | .malloc _ => inferInstanceAs (Decidable True)
  | .calloc _ _ => inferInstanceAs (Decidable True)
  | .realloc ptr _ => inferInstanceAs (Decidable (ptr = 0 ∨ ∃ block ∈ books.live, block.ptr = ptr))
  | .free ptr => inferInstanceAs (Decidable (books.Frees ptr))

/-- The books after a call that returned `ptr`; `small` tells whether its target is in an
arena. -/
def after (books : Books) (small : Bool) (ptr : Nat) : Call → Books
  | .malloc size => books.serve ptr size
  | .calloc nmemb size => books.serve ptr (UserHeap.saturatingMul nmemb size)
  | .realloc old size =>
    if old = 0 then books.serve ptr size
    else if size = 0 then books.release old small
    else if ptr = 0 then books
    else if ptr = old then books.resize old size
    else (books.serve ptr size).release old small
  | .free old => if old = 0 then books else books.release old small

end Books

namespace Ledger

variable {ledger : Ledger} {ptr : Nat} {marked : Bool}

theorem release_records : (ledger.release ptr marked).records = ledger.records := by
  unfold release
  split
  · rfl
  · split <;> rfl

theorem release_books (nonnull : ptr ≠ 0) : (ledger.release ptr marked).books =
    ledger.books.release ptr (recordOf ledger.records ptr).isSome := by
  unfold release
  rw [if_neg nonnull]
  cases recordOf ledger.records ptr <;> rfl

namespace Sound

/-- A block that is in use is not handed out. -/
theorem malloc_differs (sound : ledger.Sound) {size : Nat} {answer : Answer} {after : Ledger}
    (fresh : Fresh ledger.mappings (mappingSize size) answer)
    (ran : ledger.malloc size answer = some (ptr, after)) (nonnull : ptr ≠ 0) {block : Block}
    (live : block ∈ ledger.books.live) : ptr ≠ block.ptr := by
  obtain ⟨still, books, -⟩ := sound.malloc fresh ran
  have once := still.liveOnce
  rw [books, Books.serve_of_ne nonnull] at once
  exact fun same => (List.nodup_cons.mp once).1 (List.mem_map.mpr ⟨block, live, same.symm⟩)

theorem realloc (sound : ledger.Sound) {size newPtr : Nat} {answer : Answer} {after : Ledger}
    (allows : ledger.books.Allows (.realloc ptr size))
    (fresh : Fresh ledger.mappings (mappingSize size) answer)
    (ran : ledger.realloc ptr size answer marked = some (newPtr, after)) :
    after.Sound ∧ after.books =
      ledger.books.after (recordOf after.records ptr).isSome newPtr (.realloc ptr size) := by
  unfold Ledger.realloc at ran
  rw [Books.after]
  split at ran
  · rename_i null
    rw [if_pos null]
    obtain ⟨still, books, -⟩ := sound.malloc fresh ran
    exact ⟨still, books⟩
  rename_i nonnull
  obtain ⟨block, live, rfl⟩ := allows.resolve_left nonnull
  obtain ⟨capacity, room, fits⟩ := sound.live block live
  rw [if_neg nonnull]
  split at ran
  · rename_i empty
    cases ran
    rw [if_pos empty, release_records]
    exact ⟨sound.release (Or.inr (Or.inl ⟨block, live, rfl⟩)), release_books nonnull⟩
  rename_i nonempty
  rw [if_neg nonempty]
  rw [sound.capacityOf room] at ran
  dsimp only at ran
  split at ran
  · rename_i inPlace
    cases ran
    rw [if_neg nonnull, if_pos rfl]
    exact ⟨sound.resize live room inPlace, rfl⟩
  · split at ran
    · cases ran
    rename_i got middle served
    obtain ⟨still, books, -⟩ := sound.malloc fresh served
    split at ran
    · rename_i gotten
      cases ran
      rw [if_neg gotten, if_neg (sound.malloc_differs fresh served gotten live), release_records,
        release_books nonnull, books]
      have kept : block ∈ middle.books.live := by
        rw [books, Books.serve_of_ne gotten]
        exact List.mem_cons_of_mem _ live
      exact ⟨still.release (Or.inr (Or.inl ⟨block, kept, rfl⟩)), rfl⟩
    · rename_i failed
      cases ran
      obtain rfl : newPtr = 0 := not_not.mp failed
      rw [if_pos rfl]
      exact ⟨still, books⟩

theorem call (sound : ledger.Sound) {call : Call} {answer : Answer} {after : Ledger}
    (allows : ledger.books.Allows call)
    (fresh : Fresh ledger.mappings (mappingSize call.requested) answer)
    (guards : call.target ∈ ledger.books.freed → marked = true)
    (ran : ledger.call answer marked call = some (ptr, after)) :
    after.Sound ∧ after.books =
      ledger.books.after (recordOf after.records call.target).isSome ptr call := by
  cases call with
  | malloc size =>
    obtain ⟨still, books, -⟩ := sound.malloc fresh ran
    exact ⟨still, books⟩
  | calloc nmemb size =>
    obtain ⟨still, books, -⟩ := sound.malloc fresh ran
    exact ⟨still, books⟩
  | realloc old size => exact sound.realloc allows fresh ran
  | free old =>
    cases ran
    refine ⟨sound.release ?_, ?_⟩
    · rcases allows with null | live | freed
      · exact Or.inl null
      · exact Or.inr (Or.inl live)
      · exact Or.inr (Or.inr ⟨freed, guards freed⟩)
    · rw [Books.after]
      by_cases null : old = 0
      · rw [if_pos null, Ledger.release, if_pos null]
      · rw [if_neg null, release_records]
        exact release_books null

end Sound

end Ledger

section Simulation

variable {heap : UserHeap} {ledger : Ledger} {answer : Answer}

theorem rel_cases {α β : Type} {rel : α → β → Prop} {first : Option α} {second : Option β}
    (holds : Option.Rel rel first second) : first = none ∧ second = none ∨
      ∃ a b, first = some a ∧ second = some b ∧ rel a b := by
  cases holds with
  | none => exact Or.inl ⟨rfl, rfl⟩
  | some here => exact Or.inr ⟨_, _, rfl, rfl, here⟩

/-- The block that `malloc` returned, with its room. -/
theorem served_room (sound : ledger.Sound) {size ptr : Nat} {after : Ledger}
    (fresh : Fresh ledger.mappings (mappingSize size) answer)
    (ran : ledger.malloc size answer = some (ptr, after)) (nonnull : ptr ≠ 0) :
    (⟨ptr, size⟩ : Block) ∈ after.books.live ∧
      ∃ capacity, after.Room ptr capacity ∧ size ≤ capacity := by
  obtain ⟨still, books, -⟩ := sound.malloc fresh ran
  have live : (⟨ptr, size⟩ : Block) ∈ after.books.live := by
    rw [books, Books.serve_of_ne nonnull]
    exact List.mem_cons_self
  exact ⟨live, still.live _ live⟩

/-- Writing to the new block does not touch an old one. -/
theorem keeps_patch (sound : ledger.Sound) {size ptr count : Nat} {after : Ledger} {mem : Memory}
    {value : Nat → Byte} (fresh : Fresh ledger.mappings (mappingSize size) answer)
    (ran : ledger.malloc size answer = some (ptr, after)) (nonnull : ptr ≠ 0)
    (inside : count ≤ size) {freed : Nat} : ledger.Keeps mem (mem.patch ptr count value) freed := by
  intro block live _ capacity room
  obtain ⟨still, -, houses⟩ := sound.malloc fresh ran
  obtain ⟨-, wide, room', fits⟩ := served_room sound fresh ran nonnull
  have differ := sound.malloc_differs fresh ran nonnull live
  refine .patch ((still.room_apart room' (houses.room live room) differ).mono ?_)
  exact ⟨Nat.le_refl _, Nat.add_le_add_left (Nat.le_trans inside fits) _⟩

theorem refines_patch (sound : ledger.Sound) {size ptr count : Nat} {after : Ledger}
    {value : Nat → Byte} (fresh : Fresh ledger.mappings (mappingSize size) answer)
    (ran : ledger.malloc size answer = some (ptr, after)) (nonnull : ptr ≠ 0)
    (inside : count ≤ size) (refines : Refines heap after) :
    Refines { heap with mem := heap.mem.patch ptr count value } after := by
  obtain ⟨live, capacity, room, fits⟩ := served_room sound fresh ran nonnull
  refine refines.write (sound.malloc fresh ran).1 live room ⟨Nat.le_refl _, ?_⟩
  exact Nat.add_le_add_left (Nat.le_trans inside fits) _

theorem Ledger.Keeps.trans {mem middle after : Memory} {freed : Nat}
    (first : ledger.Keeps mem middle freed) (second : ledger.Keeps middle after freed) :
    ledger.Keeps mem after freed := fun block live differs capacity room =>
  (first block live differs capacity room).trans (second block live differs capacity room)

theorem calloc_simulates {nmemb size : Nat} (refines : Refines heap ledger) (sound : ledger.Sound)
    (fresh : Fresh ledger.mappings (mappingSize (UserHeap.saturatingMul nmemb size)) answer) :
    Option.Rel (Simulates ledger heap.mem 0) (heap.calloc nmemb size answer)
      (ledger.malloc (UserHeap.saturatingMul nmemb size) answer) := by
  unfold UserHeap.calloc
  dsimp only
  rcases rel_cases (malloc_simulates refines sound fresh) with
    ⟨fails, fails'⟩ | ⟨⟨ptr, after⟩, ⟨ptr', ledger'⟩, ran, ran', same, refines', keeps⟩
  · rw [fails, fails']
    exact .none
  · obtain rfl : ptr = ptr' := same
    rw [ran, ran']
    dsimp only
    by_cases nonnull : ptr ≠ 0
    · rw [if_pos nonnull, memset_eq_fill, Memory.fill]
      have cleared : ledger.Keeps after.mem
          (after.mem.patch ptr (UserHeap.saturatingMul nmemb size) fun _ => 0) 0 :=
        keeps_patch sound fresh ran' nonnull (Nat.le_refl _)
      exact .some ⟨rfl, refines_patch sound fresh ran' nonnull (Nat.le_refl _) refines',
        keeps.trans cleared⟩
    · rw [if_neg nonnull]
      exact .some ⟨rfl, refines', keeps⟩

/-- The heap finds the capacity that the ledger knows. -/
theorem capacityOf_eq (refines : Refines heap ledger) (sound : ledger.Sound) {block : Block}
    (live : block ∈ ledger.books.live) {capacity : Nat} (room : ledger.Room block.ptr capacity) :
    heap.capacityOf block.ptr = some capacity := by
  unfold UserHeap.capacityOf
  rw [refines.records]
  generalize place : block.ptr = ptr at room
  cases room with
  | small small => rw [sound.recordOf_small small]
  | @large mapping large =>
    rw [sound.recordOf_large large ⟨Nat.le_add_right _ _, Nat.add_lt_add_left large.behind _⟩]
    obtain ⟨size, magic⟩ := refines.headers block live mapping large place
    have below := (sound.pages mapping large.member).2.2
    dsimp only
    rw [Nat.add_sub_cancel, if_neg (not_not.mpr magic), size, BitVec.toNat_ofNat,
      Nat.mod_eq_of_lt (Nat.lt_of_le_of_lt (Nat.le_add_left _ _) below)]

/-- What `realloc` promises about the bytes of a block. -/
structure Preserves (mem : Memory) (block : Block) (size : Nat) (result : Nat × UserHeap) :
    Prop where
  contents : result.1 ≠ 0 → ∀ offset < min block.size size,
    result.2.mem (result.1 + offset) = mem (block.ptr + offset)
  failed : result.1 = 0 → Unchanged mem result.2.mem block.extent

/-- The block moves: its bytes are copied and it is given back. -/
theorem move_simulates (sound : ledger.Sound) {block : Block}
    {size capacity : Nat} (live : block ∈ ledger.books.live)
    (room : ledger.Room block.ptr capacity) (fits : block.size ≤ capacity) (grows : capacity < size)
    (fresh : Fresh ledger.mappings (mappingSize size) answer) {newPtr : Nat} {after : UserHeap}
    {ledger' : Ledger} (ran : ledger.malloc size answer = some (newPtr, ledger'))
    (served : Simulates ledger heap.mem 0 (newPtr, after) (newPtr, ledger'))
    (nonnull : newPtr ≠ 0) :
    Simulates ledger heap.mem block.ptr
      (newPtr, { after with mem := memcpy after.mem newPtr block.ptr capacity }.free block.ptr)
      (newPtr, ledger'.release block.ptr (heap.marked block.ptr)) ∧
    Preserves heap.mem block size
      (newPtr, { after with mem := memcpy after.mem newPtr block.ptr capacity }.free block.ptr) := by
  obtain ⟨still, books, houses⟩ := sound.malloc fresh ran
  obtain ⟨live', wide, room', fits'⟩ := served_room sound fresh ran nonnull
  have differ := sound.malloc_differs fresh ran nonnull live
  have apart := still.room_apart room' (houses.room live room) differ
  have copied : memcpy after.mem newPtr block.ptr capacity =
      after.mem.patch newPtr capacity fun offset => after.mem (block.ptr + offset) := by
    refine memcpy_eq_patch ?_
    simp only [Extent.Apart, Extent.stop] at apart
    omega
  rw [copied]
  generalize bytes : (fun offset => after.mem (block.ptr + offset)) = value
  have middle : Refines { after with mem := after.mem.patch newPtr capacity value } ledger' :=
    refines_patch sound fresh ran nonnull grows.le served.refines
  have keeps : ledger.Keeps heap.mem (after.mem.patch newPtr capacity value) 0 :=
    served.keeps.trans (keeps_patch sound fresh ran nonnull grows.le)
  have used : ∀ {other : Block}, other ∈ ledger.books.live → other.ptr ≠ 0 := by
    intro other member
    obtain ⟨_, room, _⟩ := sound.live _ member
    exact Nat.ne_of_gt (sound.room_nonnull room).1
  have kept : ∀ {other : Block}, other ∈ ledger.books.live → other ∈ ledger'.books.live := by
    intro other member
    rw [books, Books.serve_of_ne nonnull]
    exact List.mem_cons_of_mem _ member
  have marked : UserHeap.marked { after with mem := after.mem.patch newPtr capacity value }
      block.ptr = heap.marked block.ptr := by
    have word := (keeps block live (used live) capacity room).word (sound.room_wide room)
    simp only [UserHeap.marked, word]
  have released := free_simulates middle still (Or.inr (Or.inl ⟨block, kept live, rfl⟩))
  rw [marked] at released
  refine ⟨⟨rfl, released.refines, fun other member differs wide room => ?_⟩,
    fun _ offset small => ?_, fun null => absurd null nonnull⟩
  · exact (keeps other member (used member) wide room).trans
      (released.keeps other (kept member) differs wide (houses.room member room))
  · have inside : offset < capacity := Nat.lt_of_lt_of_le small (Nat.le_trans (Nat.min_le_left _ _)
      fits)
    have final := released.keeps _ live' differ wide room' (newPtr + offset) (Nat.le_add_right _ _)
      (Nat.add_lt_add_left (show offset < wide by omega) _)
    have first := served.keeps block live (used live) capacity room (block.ptr + offset)
      (Nat.le_add_right _ _) (Nat.add_lt_add_left inside _)
    have copy : after.mem.patch newPtr capacity value (newPtr + offset) =
        after.mem (block.ptr + offset) := by
      rw [Memory.patch_inside ⟨Nat.le_add_right _ _, Nat.add_lt_add_left inside _⟩, ← bytes,
        Nat.add_sub_cancel_left]
    exact final.trans (copy.trans first)

theorem resize_refines (refines : Refines heap ledger) {block : Block}
    (live : block ∈ ledger.books.live) (size : Nat) : Refines heap (ledger.resize block.ptr size) where
  mappings := refines.mappings
  records := refines.records
  current := refines.current
  bumps := refines.bumps
  lists := refines.lists
  marks := refines.marks
  headers := by
    intro other member
    rcases List.mem_cons.mp member with rfl | member
    · exact refines.headers block live
    · exact refines.headers other (List.mem_of_mem_filter member)

theorem realloc_simulates (refines : Refines heap ledger) (sound : ledger.Sound) {block : Block}
    {size : Nat} (live : block ∈ ledger.books.live) (nonempty : size ≠ 0)
    (fresh : Fresh ledger.mappings (mappingSize size) answer) :
    Option.Rel (fun result expected => Simulates ledger heap.mem block.ptr result expected ∧
        Preserves heap.mem block size result)
      (heap.realloc block.ptr size answer)
      (ledger.realloc block.ptr size answer (heap.marked block.ptr)) := by
  obtain ⟨capacity, room, fits⟩ := sound.live block live
  have nonnull : block.ptr ≠ 0 := Nat.ne_of_gt (sound.room_nonnull room).1
  unfold UserHeap.realloc Ledger.realloc
  rw [if_neg nonnull, if_neg nonnull, if_neg nonempty, if_neg nonempty,
    capacityOf_eq refines sound live room, sound.capacityOf room]
  dsimp only
  by_cases inPlace : size ≤ capacity
  · rw [if_pos inPlace, if_pos inPlace]
    exact .some ⟨⟨rfl, resize_refines refines live size, fun _ _ _ _ _ _ _ _ => rfl⟩,
      fun _ _ _ => rfl, fun null => absurd null nonnull⟩
  rw [if_neg inPlace, if_neg inPlace]
  rcases rel_cases (malloc_simulates refines sound fresh) with
    ⟨fails, fails'⟩ | ⟨⟨newPtr, after⟩, ⟨newPtr', ledger'⟩, ran, ran', served⟩
  · rw [fails, fails']
    exact .none
  · obtain rfl : newPtr = newPtr' := served.ptr
    rw [ran, ran']
    dsimp only
    by_cases got : newPtr ≠ 0
    · rw [if_pos got, if_pos got]
      exact .some (move_simulates sound live room fits (Nat.lt_of_not_le inPlace) fresh ran'
        served got)
    · rw [if_neg got, if_neg got]
      have old := served.keeps block live nonnull capacity room
      refine .some ⟨⟨rfl, served.refines, fun other member _ => ?_⟩, fun some => absurd some got,
        fun _ => old.mono ⟨Nat.le_refl _, Nat.add_le_add_left fits _⟩⟩
      obtain ⟨wide, room', -⟩ := sound.live other member
      exact served.keeps other member (Nat.ne_of_gt (sound.room_nonnull room').1)

/-- Every call that may be made does the same on both levels. -/
theorem call_simulates (refines : Refines heap ledger) (sound : ledger.Sound) {call : Call}
    (allows : ledger.books.Allows call)
    (fresh : Fresh ledger.mappings (mappingSize call.requested) answer) :
    Option.Rel (Simulates ledger heap.mem call.target) (heap.call answer call)
      (ledger.call answer (heap.marked call.target) call) := by
  cases call with
  | malloc size => exact malloc_simulates refines sound fresh
  | calloc nmemb size => exact calloc_simulates refines sound fresh
  | free ptr => exact .some (free_simulates refines sound allows)
  | realloc ptr size =>
    change Option.Rel _ (heap.realloc ptr size answer)
      (ledger.realloc ptr size answer (heap.marked ptr))
    by_cases null : ptr = 0
    · unfold UserHeap.realloc Ledger.realloc
      rw [if_pos null, if_pos null]
      subst null
      exact malloc_simulates refines sound fresh
    obtain ⟨block, live, rfl⟩ := allows.resolve_left null
    by_cases empty : size = 0
    · unfold UserHeap.realloc Ledger.realloc
      rw [if_neg null, if_neg null, if_pos empty, if_pos empty]
      exact .some (free_simulates refines sound (Or.inr (Or.inl ⟨block, live, rfl⟩)))
    · rcases rel_cases (realloc_simulates refines sound live empty fresh) with
        ⟨fails, fails'⟩ | ⟨result, expected, ran, ran', simulates, -⟩
      · rw [fails, fails']
        exact .none
      · rw [ran, ran']
        exact .some simulates

end Simulation

end RustPosix.Libc
