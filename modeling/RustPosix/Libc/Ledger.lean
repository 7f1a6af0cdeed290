import RustPosix.Libc.Malloc

/-! The user heap without the memory it keeps its notes in: which blocks are handed out,
which wait in which list, and where the arenas end. -/

namespace RustPosix.Libc

open Library Mm

structure Block where
  ptr : Nat
  size : Nat
  deriving DecidableEq, Repr

def Block.extent (block : Block) : Extent := ⟨block.ptr, block.size⟩

/-- The blocks in use with the bytes asked for, and the small blocks that were freed and not
handed out again. -/
structure Books where
  live : List Block
  freed : List Nat

namespace Books

def grant (books : Books) (ptr size : Nat) : Books :=
  ⟨⟨ptr, size⟩ :: books.live, books.freed.filter (· ≠ ptr)⟩

/-- The answer to a request: null hands out nothing. -/
def serve (books : Books) (ptr size : Nat) : Books :=
  if ptr = 0 then books else books.grant ptr size

@[simp] theorem serve_null (books : Books) (size : Nat) : books.serve 0 size = books := rfl

theorem serve_of_ne {books : Books} {ptr size : Nat} (nonnull : ptr ≠ 0) :
    books.serve ptr size = books.grant ptr size := if_neg nonnull

def release (books : Books) (ptr : Nat) (small : Bool) : Books :=
  ⟨books.live.filter (·.ptr ≠ ptr), if small then ptr :: books.freed else books.freed⟩

def resize (books : Books) (ptr size : Nat) : Books :=
  ⟨⟨ptr, size⟩ :: books.live.filter (·.ptr ≠ ptr), books.freed⟩

end Books

/-- The mappings of the heap and its arenas, with `bump_offset` of the arena at an address. -/
structure Territory where
  mappings : List Extent
  records : List ArenaRecord
  current : Nat → Nat
  bump : Nat → Nat

namespace Territory

/-- The next block of an arena is taken. -/
def extend (ground : Territory) (start bytes : Nat) : Territory :=
  { ground with bump := Function.update ground.bump start (ground.bump start + bytes) }

/-- A mapping becomes an arena, with its first block taken. -/
def openArena (ground : Territory) (arena idx : Nat) : Territory :=
  { ground with
    records := ground.records ++ [⟨arena, arena + arenaSize, idx⟩]
    current := Function.update ground.current idx arena
    bump := Function.update ground.bump arena (arenaHeaderSize + sizeClass idx) }

end Territory

structure Ledger extends Territory where
  free : Nat → List Nat
  books : Books

namespace Ledger

def grant (ledger : Ledger) (ptr size : Nat) : Ledger :=
  { ledger with books := ledger.books.grant ptr size }

def mmap (ledger : Ledger) (length : Nat) : Answer → Nat × Ledger
  | .error errno => (2 ^ 64 - errno, ledger)
  | .ok addr => (addr, { ledger with mappings := ⟨addr, length⟩ :: ledger.mappings })

def mallocLarge (ledger : Ledger) (size : Nat) (answer : Answer) : Option (Nat × Ledger) :=
  match alignedSize size with
  | none => none
  | some length =>
    let (ptr, ledger) := ledger.mmap length answer
    if MapFailed ptr then some (0, ledger)
    else some (ptr + blockHeaderSize, ledger.grant (ptr + blockHeaderSize) size)

def mallocArena (ledger : Ledger) (idx size : Nat) (answer : Answer) : Nat × Ledger :=
  if maxArenas ≤ ledger.records.length then (0, ledger)
  else
    let (arena, ledger) := ledger.mmap arenaSize answer
    if MapFailed arena then (0, ledger)
    else (arena + arenaHeaderSize, { ledger with
      toTerritory := ledger.openArena arena idx }.grant (arena + arenaHeaderSize) size)

def mallocSmall (ledger : Ledger) (size : Nat) (answer : Answer) : Nat × Ledger :=
  let idx := classIdx size
  match ledger.free idx with
  | node :: rest =>
    (node, { ledger with free := Function.update ledger.free idx rest }.grant node size)
  | [] =>
    let current := ledger.current idx
    let offset := ledger.bump current
    if current ≠ 0 ∧ offset + sizeClass idx ≤ arenaSize then
      (current + offset, { ledger with
        toTerritory := ledger.extend current (sizeClass idx) }.grant (current + offset) size)
    else ledger.mallocArena idx size answer

def malloc (ledger : Ledger) (size : Nat) (answer : Answer) : Option (Nat × Ledger) :=
  if size = 0 then some (0, ledger)
  else if smallThreshold < size then ledger.mallocLarge size answer
  else some (ledger.mallocSmall size answer)

/-- `marked` tells whether the guard against double frees takes the block for a free one: it
is then never handed out again. -/
def release (ledger : Ledger) (ptr : Nat) (marked : Bool) : Ledger :=
  if ptr = 0 then ledger
  else
    match recordOf ledger.records ptr with
    | some record =>
      { ledger with
        free := if marked then ledger.free
          else Function.update ledger.free record.classIdx (ptr :: ledger.free record.classIdx)
        books := ledger.books.release ptr true }
    | none =>
      { ledger with
        mappings := ledger.mappings.filter (·.start + blockHeaderSize ≠ ptr)
        books := ledger.books.release ptr false }

def capacityOf (ledger : Ledger) (ptr : Nat) : Option Nat :=
  match recordOf ledger.records ptr with
  | some record => some (sizeClass record.classIdx)
  | none =>
    (ledger.mappings.find? (·.start + blockHeaderSize = ptr)).map (·.size - blockHeaderSize)

def resize (ledger : Ledger) (ptr size : Nat) : Ledger :=
  { ledger with books := ledger.books.resize ptr size }

def realloc (ledger : Ledger) (ptr size : Nat) (answer : Answer) (marked : Bool) :
    Option (Nat × Ledger) :=
  if ptr = 0 then ledger.malloc size answer
  else if size = 0 then some (0, ledger.release ptr marked)
  else
    match ledger.capacityOf ptr with
    | none => some (0, ledger)
    | some oldCapacity =>
      if size ≤ oldCapacity then some (ptr, ledger.resize ptr size)
      else
        match ledger.malloc size answer with
        | none => none
        | some (newPtr, ledger) =>
          if newPtr ≠ 0 then some (newPtr, ledger.release ptr marked) else some (newPtr, ledger)

end Ledger

end RustPosix.Libc
