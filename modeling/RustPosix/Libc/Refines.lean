import RustPosix.Libc.LedgerSound
import RustPosix.Library.Chain

/-! How the memory of the process shows the ledger, and which bytes it depends on. -/

namespace RustPosix.Libc

open Library Mm

/-- A pointer of the allocator, null being the end of a list. -/
def link (ptr : Nat) : Option Nat := if ptr = 0 then none else some ptr

/-- The node behind a free block. -/
def nextFree (mem : Memory) (node : Nat) : Option Nat := link (mem.read64 node).toNat

/-- The same bytes in both memories. -/
def Unchanged (mem after : Memory) (extent : Extent) : Prop :=
  ∀ addr, extent.start ≤ addr → addr < extent.stop → after addr = mem addr

namespace Unchanged

variable {mem after later : Memory} {extent piece : Extent} {base count : Nat}
  {value : Nat → Byte}

theorem trans (first : Unchanged mem after extent) (second : Unchanged after later extent) :
    Unchanged mem later extent := fun addr low high =>
  (second addr low high).trans (first addr low high)

theorem mono (same : Unchanged mem after extent) (within : piece.Within extent) :
    Unchanged mem after piece := fun addr low high =>
  same addr (Nat.le_trans within.1 low) (Nat.lt_of_lt_of_le high within.2)

theorem patch (apart : Extent.Apart ⟨base, count⟩ extent) :
    Unchanged mem (mem.patch base count value) extent := by
  intro addr low high
  refine Memory.patch_outside fun inside => ?_
  rcases apart with before | behind <;> simp only [Extent.stop] at * <;> omega

theorem write64 {word : BitVec 64} (apart : Extent.Apart ⟨base, 8⟩ extent) :
    Unchanged mem (mem.write64 base word) extent := patch apart

theorem word {start size offset : Nat} (same : Unchanged mem after ⟨start, size⟩)
    (fits : offset + 8 ≤ size) : after.read64 (start + offset) = mem.read64 (start + offset) :=
  Memory.read64_congr fun _ small =>
    same _ (by simp only; omega) (by simp only [Extent.stop]; omega)

theorem firstWord {start size : Nat} (same : Unchanged mem after ⟨start, size⟩)
    (fits : 8 ≤ size) : after.read64 start = mem.read64 start :=
  Memory.read64_congr fun _ small =>
    same _ (by simp only; omega) (by simp only [Extent.stop]; omega)

end Unchanged

/-- The areas in which the allocator keeps its notes. -/
inductive Ledger.Notes (ledger : Ledger) : Extent → Prop where
  | header {record : ArenaRecord} (member : record ∈ ledger.records) :
      Notes ledger ⟨record.start, arenaHeaderSize⟩
  | node {ptr : Nat} (freed : ptr ∈ ledger.books.freed) : Notes ledger ⟨ptr, 16⟩
  | large {block : Block} {mapping : Extent} (live : block ∈ ledger.books.live)
      (large : ledger.Large mapping) (place : block.ptr = mapping.start + blockHeaderSize) :
      Notes ledger ⟨mapping.start, blockHeaderSize⟩

/-- The memory and the state of the allocator show this ledger. -/
structure Refines (heap : UserHeap) (ledger : Ledger) : Prop where
  mappings : heap.mappings = ledger.mappings
  records : heap.arenaRecords = ledger.records
  current : heap.currentArenas = ledger.current
  bumps : ∀ record ∈ ledger.records,
    heap.mem.read64 (record.start + 16) = BitVec.ofNat 64 (ledger.bump record.start)
  lists : ∀ idx, Chain (nextFree heap.mem) (link (heap.freeLists idx)) (ledger.free idx)
  marks : ∀ ptr ∈ ledger.books.freed, heap.mem.read64 (ptr + 8) = freeMagic
  headers : ∀ block ∈ ledger.books.live, ∀ mapping, ledger.Large mapping →
    block.ptr = mapping.start + blockHeaderSize →
      heap.mem.read64 mapping.start = BitVec.ofNat 64 mapping.size ∧
        heap.mem.read64 (mapping.start + 8) = largeMagic

namespace Ledger.Sound

variable {ledger : Ledger} {note : Extent} {ptr capacity : Nat}

/-- A free block, with room for a node. -/
theorem freed_room (sound : ledger.Sound) (freed : ptr ∈ ledger.books.freed) :
    ∃ capacity, ledger.Room ptr capacity ∧ 16 ≤ capacity := by
  obtain ⟨⟨record, small⟩, -⟩ := sound.freed ptr freed
  exact ⟨_, .small small, sound.room_wide (.small small)⟩

theorem notes_within (sound : ledger.Sound) (notes : ledger.Notes note) :
    ∃ mapping ∈ ledger.mappings, note.Within mapping := by
  cases notes with
  | header member =>
    exact ⟨_, (sound.arena _ member).mapped, Nat.le_refl _,
      Nat.add_le_add_left (show arenaHeaderSize ≤ arenaSize by decide) _⟩
  | node freed =>
    obtain ⟨capacity, room, wide⟩ := sound.freed_room freed
    obtain ⟨mapping, member, -, -, within⟩ := sound.room_mapping room
    exact ⟨mapping, member, within.1, Nat.le_trans (Nat.add_le_add_left wide _) within.2⟩
  | large _ large _ =>
    exact ⟨_, large.member, Territory.Arenas.large_header_within large⟩

/-- Blocks in use are apart from the notes. -/
theorem room_apart_notes (sound : ledger.Sound) (room : ledger.Room ptr capacity)
    (waits : ptr ∉ ledger.books.freed) (notes : ledger.Notes note) :
    Extent.Apart ⟨ptr, capacity⟩ note := by
  cases notes with
  | header member => exact sound.room_apart_header room member
  | @node free freed =>
    obtain ⟨capacity', room', wide⟩ := sound.freed_room freed
    have differ : ptr ≠ free := fun same => waits (same ▸ freed)
    have within : Extent.Within ⟨free, 16⟩ ⟨free, capacity'⟩ :=
      ⟨Nat.le_refl _, Nat.add_le_add_left wide _⟩
    exact ((sound.room_apart room room' differ).symm.mono within).symm
  | large _ large _ => exact sound.room_apart_large room large

theorem live_not_freed (sound : ledger.Sound) {block : Block} (live : block ∈ ledger.books.live) :
    block.ptr ∉ ledger.books.freed := fun freed => (sound.freed _ freed).2 block live rfl

/-- One place is not both in an arena and in a mapping of its own. -/
theorem small_not_large (sound : ledger.Sound) {record : ArenaRecord}
    (small : ledger.Small record ptr) {mapping : Extent} (large : ledger.Large mapping) :
    ptr ≠ mapping.start + blockHeaderSize := by
  rintro rfl
  have found := sound.recordOf_small small
  rw [sound.recordOf_large large ⟨Nat.le_add_right _ _, Nat.add_lt_add_left large.behind _⟩] at found
  cases found

end Ledger.Sound

namespace Refines

variable {heap : UserHeap} {ledger : Ledger} {mem : Memory}

/-- Arenas, mappings and memory can change as long as the free blocks and the headers of the
large blocks in use stay as they are. -/
theorem move (refines : Refines heap ledger) (sound : ledger.Sound) {after : UserHeap}
    {ground : Territory} (lists : after.freeLists = heap.freeLists)
    (mappings : after.mappings = ground.mappings) (records : after.arenaRecords = ground.records)
    (current : after.currentArenas = ground.current)
    (bumps : ∀ record ∈ ground.records,
      after.mem.read64 (record.start + 16) = BitVec.ofNat 64 (ground.bump record.start))
    (nodes : ∀ ptr ∈ ledger.books.freed, Unchanged heap.mem after.mem ⟨ptr, 16⟩)
    (larges : ∀ block ∈ ledger.books.live, ∀ mapping, ground.Large mapping →
      block.ptr = mapping.start + blockHeaderSize →
        ledger.Large mapping ∧ Unchanged heap.mem after.mem ⟨mapping.start, blockHeaderSize⟩) :
    Refines after { ledger with toTerritory := ground } where
  mappings := mappings
  records := records
  current := current
  bumps := bumps
  lists := by
    rw [lists]
    refine fun idx => (refines.lists idx).congr fun node listed => ?_
    have kept := (nodes node (sound.free idx node listed).1).firstWord (by decide)
    simp only [nextFree, kept]
  marks := fun ptr freed => ((nodes ptr freed).word (by decide)).trans (refines.marks ptr freed)
  headers := by
    intro block live mapping large place
    obtain ⟨large, kept⟩ := larges block live mapping large place
    obtain ⟨size, magic⟩ := refines.headers block live mapping large place
    exact ⟨(kept.firstWord (by decide)).trans size, (kept.word (by decide)).trans magic⟩

/-- The ledger can only be seen in the notes. -/
theorem frame (refines : Refines heap ledger) (sound : ledger.Sound)
    (same : ∀ note, ledger.Notes note → Unchanged heap.mem mem note) :
    Refines { heap with mem } ledger :=
  refines.move sound rfl refines.mappings refines.records refines.current
    (fun record member =>
      ((same _ (.header member)).word (by decide)).trans (refines.bumps record member))
    (fun _ freed => same _ (.node freed))
    fun _ live _ large place => ⟨large, same _ (.large live large place)⟩

/-- The owner of a block can write what it likes. -/
theorem write (refines : Refines heap ledger) (sound : ledger.Sound) {block : Block}
    (live : block ∈ ledger.books.live) {capacity base count : Nat} {value : Nat → Byte}
    (room : ledger.Room block.ptr capacity)
    (inside : Extent.Within ⟨base, count⟩ ⟨block.ptr, capacity⟩) :
    Refines { heap with mem := heap.mem.patch base count value } ledger :=
  refines.frame sound fun _ notes =>
    .patch ((sound.room_apart_notes room (sound.live_not_freed live) notes).mono inside)

/-- The next block of an arena. -/
theorem extend (refines : Refines heap ledger) (sound : ledger.Sound) {record : ArenaRecord}
    {bytes : Nat} (member : record ∈ ledger.records) :
    Refines { heap with
        mem := heap.mem.write64 (record.start + 16)
          (BitVec.ofNat 64 (ledger.bump record.start + bytes)) }
      { ledger with toTerritory := ledger.extend record.start bytes } := by
  have inside : Extent.Within ⟨record.start + 16, 8⟩ ⟨record.start, arenaHeaderSize⟩ :=
    ⟨Nat.le_add_right _ _, by simp only [Extent.stop, arenaHeaderSize]; omega⟩
  have within : Extent.Within ⟨record.start + 16, 8⟩ ⟨record.start, arenaSize⟩ :=
    ⟨Nat.le_add_right _ _, by simp only [Extent.stop, arenaSize]; omega⟩
  have mapped := (sound.arena record member).mapped
  refine refines.move sound rfl refines.mappings refines.records refines.current ?_ ?_ ?_
  · intro other member'
    by_cases same : other.start = record.start
    · rw [same, Territory.extend_self, Memory.read64_write64]
    · rw [Territory.extend_of_ne same, ← refines.bumps other member']
      have within' : Extent.Within ⟨other.start + 16, 8⟩ ⟨other.start, arenaSize⟩ :=
        ⟨Nat.le_add_right _ _, by simp only [Extent.stop, arenaSize]; omega⟩
      have apart := sound.apart_of_mappings mapped (sound.arena other member').mapped
        (Ne.symm same) within within'
      exact (Unchanged.write64 apart).firstWord (Nat.le_refl 8)
  · intro ptr freed
    obtain ⟨capacity, room, wide⟩ := sound.freed_room freed
    have node : Extent.Within ⟨ptr, 16⟩ ⟨ptr, capacity⟩ :=
      ⟨Nat.le_refl _, Nat.add_le_add_left wide _⟩
    exact .write64 (((sound.room_apart_header room member).mono node).symm.mono inside)
  · intro block live mapping large place
    have large : ledger.Large mapping := ⟨large.member, large.sized, large.alone⟩
    refine ⟨large, .write64 ?_⟩
    exact sound.apart_of_mappings mapped large.member (large.alone record member) within
      (Territory.Arenas.large_header_within large)

/-- A new mapping, and whatever is written to it. -/
theorem map (refines : Refines heap ledger) (sound : ledger.Sound) {addr length : Nat}
    (positive : 0 < length) (fresh : Fresh ledger.mappings length (.ok addr))
    (same : ∀ extent, Extent.Apart ⟨addr, length⟩ extent → Unchanged heap.mem mem extent) :
    Refines { heap with mem, mappings := ⟨addr, length⟩ :: heap.mappings }
      { ledger with mappings := ⟨addr, length⟩ :: ledger.mappings } := by
  obtain ⟨-, clear⟩ := sound.map positive fresh
  have notes : ∀ note, ledger.Notes note → Unchanged heap.mem mem note := fun note notes =>
    let ⟨mapping, member, within⟩ := sound.notes_within notes
    same note ((fresh.2.2 mapping member).symm.mono within).symm
  refine refines.move sound rfl ?_ refines.records refines.current ?_
    (fun ptr freed => notes _ (.node freed)) ?_
  · exact congrArg _ refines.mappings
  · exact fun record member =>
      ((notes _ (.header member)).word (by decide)).trans (refines.bumps record member)
  · intro block live mapping large place
    rcases List.mem_cons.mp large.member with rfl | member
    · have outside := clear.live block live
      have sized := large.behind
      simp only [place, Extent.stop] at outside sized
      omega
    · have large : ledger.Large mapping := ⟨member, large.sized, large.alone⟩
      exact ⟨large, notes _ (.large live large place)⟩

/-- A mapping with the header of an arena becomes one. -/
theorem openArena (refines : Refines heap ledger) (sound : ledger.Sound) {arena idx : Nat}
    (unused : ∀ record ∈ ledger.records, record.start ≠ arena)
    (word : heap.mem.read64 (arena + 16) = BitVec.ofNat 64 (arenaHeaderSize + sizeClass idx)) :
    Refines { heap with
        currentArenas := Function.update heap.currentArenas idx arena
        arenaRecords := heap.arenaRecords ++ [⟨arena, arena + arenaSize, idx⟩] }
      { ledger with toTerritory := ledger.openArena arena idx } := by
  refine refines.move sound rfl refines.mappings ?_ ?_ ?_ (fun _ _ _ _ _ => rfl) ?_
  · exact congrArg (· ++ _) refines.records
  · exact congrArg (Function.update · idx arena) refines.current
  · intro record member
    rcases List.mem_append.mp member with old | new
    · rw [Territory.openArena_of_ne (unused record old)]
      exact refines.bumps record old
    · rw [List.mem_singleton.mp new, Territory.openArena_self]
      exact word
  · intro block _ mapping large _
    have large : ledger.Large mapping := ⟨large.member, large.sized, fun record member =>
      large.alone record (List.mem_append_left _ member)⟩
    exact ⟨large, fun _ _ _ => rfl⟩

theorem grant (refines : Refines heap ledger) (ptr size : Nat)
    (header : ∀ mapping, ledger.Large mapping → ptr = mapping.start + blockHeaderSize →
      heap.mem.read64 mapping.start = BitVec.ofNat 64 mapping.size ∧
        heap.mem.read64 (mapping.start + 8) = largeMagic) :
    Refines heap (ledger.grant ptr size) where
  mappings := refines.mappings
  records := refines.records
  current := refines.current
  bumps := refines.bumps
  lists := refines.lists
  marks := fun free member => refines.marks free (List.mem_of_mem_filter member)
  headers := by
    intro block live
    rcases List.mem_cons.mp live with rfl | live
    · exact header
    · exact refines.headers block live

/-- A list that is not empty starts with the block its head names. -/
theorem free_eq_cons (refines : Refines heap ledger) {idx : Nat} (nonnull : heap.freeLists idx ≠ 0) :
    ∃ rest, ledger.free idx = heap.freeLists idx :: rest := by
  have chain := refines.lists idx
  rw [link, if_neg nonnull] at chain
  cases list : ledger.free idx with
  | nil =>
    rw [list] at chain
    cases chain
  | cons node rest =>
    rw [list] at chain
    exact ⟨rest, congrArg (· :: rest) (Option.some.inj chain.1).symm⟩

theorem free_eq_nil (refines : Refines heap ledger) {idx : Nat} (null : heap.freeLists idx = 0) :
    ledger.free idx = [] := by
  have chain := refines.lists idx
  rw [link, if_pos null] at chain
  cases list : ledger.free idx with
  | nil => rfl
  | cons node rest =>
    rw [list] at chain
    cases chain.1

theorem pop (refines : Refines heap ledger) {idx node : Nat} {rest : List Nat}
    (first : ledger.free idx = node :: rest) :
    Refines { heap with
        freeLists := Function.update heap.freeLists idx (heap.mem.read64 node).toNat }
      { ledger with free := Function.update ledger.free idx rest } where
  mappings := refines.mappings
  records := refines.records
  current := refines.current
  bumps := refines.bumps
  marks := refines.marks
  headers := refines.headers
  lists := by
    intro other
    have chain := refines.lists other
    by_cases same : other = idx
    · subst same
      simp only [Function.update_self]
      rw [first] at chain
      exact chain.2
    · simpa only [Function.update_of_ne same] using chain

/-- A block with the mark of a free one is given back. -/
theorem retire_small (refines : Refines heap ledger) {ptr : Nat}
    (mark : heap.mem.read64 (ptr + 8) = freeMagic) :
    Refines heap { ledger with books := ledger.books.release ptr true } where
  mappings := refines.mappings
  records := refines.records
  current := refines.current
  bumps := refines.bumps
  lists := refines.lists
  marks := by
    intro free member
    rcases List.mem_cons.mp member with rfl | member
    · exact mark
    · exact refines.marks free member
  headers := fun block live => refines.headers block (List.mem_of_mem_filter live)

theorem push (refines : Refines heap ledger) {idx ptr : Nat} (nonnull : ptr ≠ 0)
    (next : nextFree heap.mem ptr = link (heap.freeLists idx)) :
    Refines { heap with freeLists := Function.update heap.freeLists idx ptr }
      { ledger with free := Function.update ledger.free idx (ptr :: ledger.free idx) } where
  mappings := refines.mappings
  records := refines.records
  current := refines.current
  bumps := refines.bumps
  marks := refines.marks
  headers := refines.headers
  lists := by
    intro other
    have chain := refines.lists other
    by_cases same : other = idx
    · subst same
      simp only [Function.update_self]
      refine ⟨if_neg nonnull, ?_⟩
      rwa [next]
    · simpa only [Function.update_of_ne same] using chain

/-- A pointer of a list survives being written to memory. -/
theorem head_lt (refines : Refines heap ledger) (sound : ledger.Sound) (idx : Nat) :
    heap.freeLists idx < 2 ^ 64 := by
  by_cases null : heap.freeLists idx = 0
  · rw [null]
    decide
  · obtain ⟨rest, first⟩ := refines.free_eq_cons null
    obtain ⟨-, record, small, -⟩ := sound.free idx _ (first ▸ List.mem_cons_self)
    obtain ⟨mapping, member, -, high, -⟩ := sound.room_mapping (.small small)
    exact Nat.lt_trans high (sound.pages mapping member).2.2

/-- The header of a large block that is no longer in use, and its mapping. -/
theorem unmap (refines : Refines heap ledger) (sound : ledger.Sound) {mapping : Extent}
    (large : ledger.Large mapping)
    (unused : ∀ block ∈ ledger.books.live, block.ptr ≠ mapping.start + blockHeaderSize) :
    Refines ({ heap with mem := heap.mem.write64 (mapping.start + 8) 0 }.munmap mapping.start
        mapping.size)
      { ledger with
        mappings := ledger.mappings.filter
          (·.start + blockHeaderSize ≠ mapping.start + blockHeaderSize) } := by
  have sized := large.behind
  have inside : Extent.Within ⟨mapping.start + 8, 8⟩ ⟨mapping.start, blockHeaderSize⟩ :=
    ⟨Nat.le_add_right _ _, Nat.le_refl _⟩
  have within := inside.trans (Territory.Arenas.large_header_within large)
  refine refines.move sound rfl ?_ refines.records refines.current ?_ ?_ ?_
  · change heap.mappings.filter _ = ledger.mappings.filter _
    rw [refines.mappings]
    refine List.filter_congr fun other member => decide_eq_decide.mpr (not_congr ?_)
    refine ⟨fun same => by rw [same], fun same => ?_⟩
    exact sound.mapping_eq member large.member (Nat.add_right_cancel same)
  · intro record member
    rw [← refines.bumps record member]
    have within' : Extent.Within ⟨record.start + 16, 8⟩ ⟨record.start, arenaSize⟩ :=
      ⟨Nat.le_add_right _ _, by simp only [Extent.stop, arenaSize]; omega⟩
    have apart := sound.apart_of_mappings large.member (sound.arena record member).mapped
      (large.alone record member).symm within within'
    exact (Unchanged.write64 apart).firstWord (Nat.le_refl 8)
  · intro ptr freed
    obtain ⟨capacity, room, wide⟩ := sound.freed_room freed
    have node : Extent.Within ⟨ptr, 16⟩ ⟨ptr, capacity⟩ :=
      ⟨Nat.le_refl _, Nat.add_le_add_left wide _⟩
    exact .write64 (((sound.room_apart_large room large).mono node).symm.mono inside)
  · intro block live other large' place
    have large' : ledger.Large other :=
      ⟨List.mem_of_mem_filter large'.member, large'.sized, large'.alone⟩
    refine ⟨large', .write64 ?_⟩
    have differ : mapping.start ≠ other.start := fun same =>
      unused block live (place.trans (by rw [same]))
    exact sound.apart_of_mappings large.member large'.member differ within
      (Territory.Arenas.large_header_within large')

end Refines

end RustPosix.Libc
