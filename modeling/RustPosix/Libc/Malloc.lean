import RustPosix.Library.Extents
import RustPosix.Mm.VmSpace

/-! The user heap, `libs/libc/src/stdlib.rs`: arenas for eight size classes with their free
lists in the freed blocks, and a mapping of its own for every larger block. -/

namespace RustPosix.Libc

open Library Mm

def largeMagic : BitVec 64 := 0x504F5349584D454D
def arenaMagic : BitVec 64 := 0x504F53495841524E
def freeMagic : BitVec 64 := 0x504F534958465245

def arenaSize : Nat := 65536
def sizeClasses : List Nat := [16, 32, 64, 128, 256, 512, 1024, 2048]
def smallThreshold : Nat := 2048
def maxArenas : Nat := 512

/-- `size_of::<BlockHeader>()`: the words `size` and `magic`. -/
def blockHeaderSize : Nat := 16

/-- `size_of::<ArenaChunk>()`: the words `magic`, `class_idx`, `bump_offset`, `next_arena`. -/
def arenaHeaderSize : Nat := 32

/-- The loop over `SIZE_CLASSES` at the start of the small path. -/
def classIdx (size : Nat) : Nat := sizeClasses.findIdx fun bytes => ! decide (bytes < size)

def sizeClass (idx : Nat) : Nat := sizeClasses.getD idx 0

theorem sizeClass_bounds {idx : Nat} (valid : idx < sizeClasses.length) :
    16 ≤ sizeClass idx ∧ sizeClass idx ≤ smallThreshold ∧ sizeClass idx % 16 = 0 := by
  have each : ∀ idx < sizeClasses.length,
      16 ≤ sizeClass idx ∧ sizeClass idx ≤ smallThreshold ∧ sizeClass idx % 16 = 0 := by decide
  exact each idx valid

/-- A small request finds a class, and the class has room for it. -/
theorem classIdx_fits {size : Nat} (small : size ≤ smallThreshold) :
    classIdx size < sizeClasses.length ∧ size ≤ sizeClass (classIdx size) := by
  have found : classIdx size < sizeClasses.length :=
    List.findIdx_lt_length_of_exists ⟨smallThreshold, by decide, by simpa using small⟩
  refine ⟨found, ?_⟩
  have fits : (! decide (sizeClasses[classIdx size] < size)) = true :=
    List.findIdx_getElem (w := found)
  rw [sizeClass, List.getD_eq_getElem?_getD, List.getElem?_eq_getElem found]
  simpa using fits

structure ArenaRecord where
  start : Nat
  stop : Nat
  classIdx : Nat
  deriving DecidableEq, Repr

/-- `AllocatorState`, with the filled part of `arena_records` and null as zero, and the
memory of the process with its mappings. -/
structure UserHeap where
  mem : Memory
  mappings : List Extent
  freeLists : Nat → Nat
  currentArenas : Nat → Nat
  arenaRecords : List ArenaRecord

/-- The first record whose arena holds the address: the loop of `free` and of `realloc`. -/
def recordOf (records : List ArenaRecord) (ptr : Nat) : Option ArenaRecord :=
  records.find? fun record => record.start ≤ ptr ∧ ptr < record.stop

/-- What the kernel answers to `mmap`: an address or an error number. -/
abbrev Answer := Except Nat Nat

/-- `*dest.add(i) = *src.add(i)` for `i` from zero on -/
def memcpy (mem : Memory) (dest src : Nat) : Nat → Memory
  | 0 => mem
  | n + 1 =>
    let mem := memcpy mem dest src n
    mem.fill (dest + n) 1 (mem (src + n))

def memset (mem : Memory) (s : Nat) (c : Byte) : Nat → Memory
  | 0 => mem
  | n + 1 => (memset mem s c n).fill (s + n) 1 c

theorem memset_eq_fill (mem : Memory) (s : Nat) (c : Byte) (n : Nat) :
    memset mem s c n = mem.fill s n c := by
  induction n with
  | zero =>
    funext addr
    exact (Memory.patch_outside (by omega)).symm
  | succ n ih =>
    funext addr
    rw [memset, ih]
    by_cases last : addr = s + n
    · have stored : (mem.fill s n c).fill (s + n) 1 c addr = c := Memory.patch_inside (by omega)
      have filled : mem.fill s (n + 1) c addr = c := Memory.patch_inside (by omega)
      rw [stored, filled]
    · have kept : (mem.fill s n c).fill (s + n) 1 c addr = mem.fill s n c addr :=
        Memory.patch_outside (by omega)
      rw [kept]
      exact if_congr (by omega) rfl rfl

/-- Copying forwards between disjoint areas reads the bytes as they were before. -/
theorem memcpy_eq_patch {mem : Memory} {dest src n : Nat}
    (apart : dest + n ≤ src ∨ src + n ≤ dest) :
    memcpy mem dest src n = mem.patch dest n fun offset => mem (src + offset) := by
  induction n with
  | zero =>
    funext addr
    exact (Memory.patch_outside (by omega)).symm
  | succ n ih =>
    funext addr
    rw [memcpy, ih (by omega)]
    by_cases last : addr = dest + n
    · have unread : mem.patch dest n (fun offset => mem (src + offset)) (src + n) = mem (src + n) :=
        Memory.patch_outside (by omega)
      rw [Memory.fill, Memory.patch_inside (by omega), unread, Memory.patch_inside (by omega), last,
        Nat.add_sub_cancel_left]
    · rw [Memory.fill, Memory.patch_outside (by omega), Memory.patch, Memory.patch]
      exact if_congr (by omega) rfl rfl

/-- `*dest.add(i) = *src.add(i)` for the indices in order -/
def copyBytes (mem : Memory) (dest src : Nat) (indices : List Nat) : Memory :=
  indices.foldl (fun mem i => mem.fill (dest + i) 1 (mem (src + i))) mem

def memmove (mem : Memory) (dest src n : Nat) : Memory :=
  if dest ≤ src then copyBytes mem dest src (List.range n)
  else copyBytes mem dest src (List.range n).reverse

/-- An order in which no byte is read that was written before copies the old bytes. -/
theorem copyBytes_apply {mem : Memory} {dest src addr : Nat} {indices : List Nat}
    (unread : indices.Pairwise fun i j => dest + i ≠ src + j) :
    copyBytes mem dest src indices addr =
      if dest ≤ addr ∧ addr - dest ∈ indices then mem (src + (addr - dest)) else mem addr := by
  induction indices generalizing mem with
  | nil => simp [copyBytes]
  | cons i rest ih =>
    obtain ⟨first, unread⟩ := List.pairwise_cons.mp unread
    rw [copyBytes, List.foldl_cons, ← copyBytes, ih unread]
    by_cases later : dest ≤ addr ∧ addr - dest ∈ rest
    · have apart := first _ later.2
      rw [if_pos later, if_pos ⟨later.1, List.mem_cons_of_mem i later.2⟩]
      exact Memory.patch_outside (by omega)
    · rw [if_neg later, Memory.fill, Memory.patch]
      grind

/-- However the areas overlap, the destination gets the bytes the source had, and nothing
else changes. -/
theorem memmove_eq_patch (mem : Memory) (dest src n : Nat) :
    memmove mem dest src n = mem.patch dest n fun offset => mem (src + offset) := by
  funext addr
  have ordered := List.pairwise_lt_range (n := n)
  rw [memmove, Memory.patch]
  split
  · rw [copyBytes_apply (ordered.imp (by omega))]
    exact if_congr (by simp; omega) rfl rfl
  · rw [copyBytes_apply (List.pairwise_reverse.mpr (ordered.imp (by omega)))]
    exact if_congr (by simp; omega) rfl rfl

/-- `ptr.is_null() || (ptr as usize) >= (-(4095i64) as usize)` -/
def MapFailed (ptr : Nat) : Prop := ptr = 0 ∨ 2 ^ 64 - 4095 ≤ ptr

instance (ptr : Nat) : Decidable (MapFailed ptr) := inferInstanceAs (Decidable (_ ∨ _))

/-- A `FreeNode` at an address -/
def writeNode (mem : Memory) (node next : Nat) : Memory :=
  (mem.write64 (node + 8) freeMagic).write64 node (BitVec.ofNat 64 next)

/-- `aligned_size` of the large path. An addition that leaves the word panics. -/
def alignedSize (size : Nat) : Option Nat :=
  match checkedAdd size blockHeaderSize with
  | none => none
  | some totalSize => (checkedAdd totalSize 4095).map fun padded => padded / 4096 * 4096

theorem alignedSize_eq_some {size length : Nat} (fits : alignedSize size = some length) :
    size + blockHeaderSize + 4095 < 2 ^ 64 ∧
      length = (size + blockHeaderSize + 4095) / 4096 * 4096 := by
  unfold alignedSize at fits
  split at fits
  · cases fits
  · rename_i totalSize total
    obtain ⟨-, rfl⟩ := checkedAdd_eq_some.mp total
    obtain ⟨padded, sum, rfl⟩ := Option.map_eq_some_iff.mp fits
    obtain ⟨below, rfl⟩ := checkedAdd_eq_some.mp sum
    exact ⟨below, rfl⟩

/-- The length that `malloc` asks `mmap` for, if it does. -/
def mappingSize (size : Nat) : Nat :=
  if smallThreshold < size then (size + blockHeaderSize + 4095) / 4096 * 4096 else arenaSize

namespace UserHeap

/-- An anonymous mapping is zeroed memory; an error is returned as a negative number. -/
def mmap (heap : UserHeap) (length : Nat) : Answer → Nat × UserHeap
  | .error errno => (2 ^ 64 - errno, heap)
  | .ok addr =>
    (addr, { heap with
      mem := heap.mem.fill addr length 0
      mappings := ⟨addr, length⟩ :: heap.mappings })

def munmap (heap : UserHeap) (addr length : Nat) : UserHeap :=
  { heap with mappings := heap.mappings.filter (· ≠ ⟨addr, length⟩) }

/-- The path of `malloc` above `SMALL_THRESHOLD` -/
def mallocLarge (heap : UserHeap) (size : Nat) (answer : Answer) : Option (Nat × UserHeap) :=
  match alignedSize size with
  | none => none
  | some length =>
    let (ptr, heap) := heap.mmap length answer
    if MapFailed ptr then some (0, heap)
    else
      some (ptr + blockHeaderSize, { heap with
        mem := (heap.mem.write64 ptr (BitVec.ofNat 64 length)).write64 (ptr + 8) largeMagic })

/-- Step 3 of the small path -/
def mallocArena (heap : UserHeap) (idx : Nat) (answer : Answer) : Nat × UserHeap :=
  if maxArenas ≤ heap.arenaRecords.length then (0, heap)
  else
    let (arena, heap) := heap.mmap arenaSize answer
    if MapFailed arena then (0, heap)
    else
      (arena + arenaHeaderSize, { heap with
        mem := heap.mem.writeWords arena [arenaMagic, BitVec.ofNat 64 idx,
          BitVec.ofNat 64 (arenaHeaderSize + sizeClass idx),
          BitVec.ofNat 64 (heap.currentArenas idx)]
        currentArenas := Function.update heap.currentArenas idx arena
        arenaRecords := heap.arenaRecords ++ [⟨arena, arena + arenaSize, idx⟩] })

def mallocSmall (heap : UserHeap) (size : Nat) (answer : Answer) : Nat × UserHeap :=
  let idx := classIdx size
  let bytes := sizeClass idx
  let node := heap.freeLists idx
  if node ≠ 0 then
    (node, { heap with
      mem := heap.mem.write64 (node + 8) 0
      freeLists := Function.update heap.freeLists idx (heap.mem.read64 node).toNat })
  else
    let current := heap.currentArenas idx
    let offset := (heap.mem.read64 (current + 16)).toNat
    if current ≠ 0 ∧ offset + bytes ≤ arenaSize then
      (current + offset, { heap with
        mem := heap.mem.write64 (current + 16) (BitVec.ofNat 64 (offset + bytes)) })
    else heap.mallocArena idx answer

def malloc (heap : UserHeap) (size : Nat) (answer : Answer) : Option (Nat × UserHeap) :=
  if size = 0 then some (0, heap)
  else if smallThreshold < size then heap.mallocLarge size answer
  else some (heap.mallocSmall size answer)

def free (heap : UserHeap) (ptr : Nat) : UserHeap :=
  if ptr = 0 then heap
  else
    match recordOf heap.arenaRecords ptr with
    | some record =>
      -- the guard against double frees
      if heap.mem.read64 (ptr + 8) = freeMagic then heap
      else
        { heap with
          mem := writeNode heap.mem ptr (heap.freeLists record.classIdx)
          freeLists := Function.update heap.freeLists record.classIdx ptr }
    | none =>
      let header := ptr - blockHeaderSize
      if heap.mem.read64 (header + 8) = largeMagic then
        { heap with mem := heap.mem.write64 (header + 8) 0 }.munmap header
          (heap.mem.read64 header).toNat
      else heap

/-- `nmemb.saturating_mul(size)` -/
def saturatingMul (nmemb size : Nat) : Nat := min (nmemb * size) (2 ^ 64 - 1)

def calloc (heap : UserHeap) (nmemb size : Nat) (answer : Answer) : Option (Nat × UserHeap) :=
  let total := saturatingMul nmemb size
  match heap.malloc total answer with
  | none => none
  | some (ptr, heap) =>
    if ptr ≠ 0 then some (ptr, { heap with mem := memset heap.mem ptr 0 total })
    else some (ptr, heap)

/-- `old_capacity`, or nothing if the block has no valid header -/
def capacityOf (heap : UserHeap) (ptr : Nat) : Option Nat :=
  match recordOf heap.arenaRecords ptr with
  | some record => some (sizeClass record.classIdx)
  | none =>
    let header := ptr - blockHeaderSize
    if heap.mem.read64 (header + 8) ≠ largeMagic then none
    else some ((heap.mem.read64 header).toNat - blockHeaderSize)

def realloc (heap : UserHeap) (ptr size : Nat) (answer : Answer) : Option (Nat × UserHeap) :=
  if ptr = 0 then heap.malloc size answer
  else if size = 0 then some (0, heap.free ptr)
  else
    match heap.capacityOf ptr with
    | none => some (0, heap)
    | some oldCapacity =>
      if size ≤ oldCapacity then some (ptr, heap)
      else
        match heap.malloc size answer with
        | none => none
        | some (newPtr, heap) =>
          if newPtr ≠ 0 then
            some (newPtr, { heap with mem := memcpy heap.mem newPtr ptr oldCapacity }.free ptr)
          else some (newPtr, heap)

end UserHeap

end RustPosix.Libc
