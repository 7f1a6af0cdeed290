import RustPosix.Library.Extents
import RustPosix.Mm.VmSpace

/-! The kernel heap, `ostd/mm/heap.rs`: a first-fit allocator whose free list lives in the
free memory itself. -/

namespace RustPosix.Mm

open Library

/-- `core::alloc::Layout` -/
structure Layout where
  size : Nat
  align : Nat
  power : align.isPowerOfTwo

/-- Why a call does not return. -/
inductive Halt where
  /-- an addition left the machine word -/
  | panicked
  /-- the walk over the free list does not end -/
  | endless
  deriving DecidableEq, Repr

/-- `x & !(align - 1)` -/
def clearLow (x align : Nat) : Nat := x - (x &&& (align - 1))

/-- `(x + align - 1) & !(align - 1)`, which the code spells out at each place -/
def roundUp (x align : Nat) : Except Halt Nat :=
  match checkedAdd x align with
  | none => .error .panicked
  | some sum => .ok (clearLow (sum - 1) align)

/-- `size_of::<ListNode>()` -/
def nodeSize : Nat := 16

/-- `align_of::<ListNode>()` -/
def nodeAlign : Nat := 8

/-- What `find_region` does with a region. -/
inductive Verdict where
  | takes (allocStart : Nat)
  | passes
  /-- a checked addition ends the search -/
  | fails
  deriving DecidableEq, Repr

/-- The body of the loop of `find_region` -/
def judge (size align nodeAddr regionSize : Nat) : Except Halt Verdict :=
  match roundUp nodeAddr align with
  | .error halt => .error halt
  | .ok allocStart =>
    match checkedAdd allocStart size, checkedAdd nodeAddr regionSize with
    | some allocEnd, some regionEnd =>
      .ok (if allocEnd ≤ regionEnd then .takes allocStart else .passes)
    | _, _ => .ok .fails

/-- The memory, `LinkedListAllocator.head.next` and `HEAP_USED_BYTES`. -/
structure Heap where
  mem : Memory
  head : Option Nat
  used : Nat

namespace Heap

/-- `ListNode.size` of the node at an address -/
def sizeAt (mem : Memory) (node : Nat) : Nat := (mem.read64 node).toNat

/-- `ListNode.next` of the node at an address; a reference is never zero. -/
def nextAt (mem : Memory) (node : Nat) : Option Nat :=
  let word := (mem.read64 (node + 8)).toNat
  if word = 0 then none else some word

def setSize (mem : Memory) (node size : Nat) : Memory := mem.write64 node (BitVec.ofNat 64 size)

def setNext (mem : Memory) (node : Nat) (next : Option Nat) : Memory :=
  mem.write64 (node + 8) (BitVec.ofNat 64 (next.getD 0))

def addFreeRegion (heap : Heap) (addr size : Nat) : Except Halt Heap := do
  let alignedAddr ← roundUp addr nodeAlign
  let padding := alignedAddr - addr
  if size ≤ padding + nodeSize then return heap
  let usableSize := size - padding
  let mem := setNext (setSize heap.mem alignedAddr usableSize) alignedAddr heap.head
  return { heap with mem, head := some alignedAddr }

/-- `current.next` in `find_region`, where `none` is the head of the list -/
def nextOf (heap : Heap) : Option Nat → Option Nat
  | none => heap.head
  | some node => nextAt heap.mem node

/-- `current.next = next` -/
def linkTo (heap : Heap) (current next : Option Nat) : Heap :=
  match current with
  | none => { heap with head := next }
  | some node => { heap with mem := setNext heap.mem node next }

/-- The loop of `find_region`. A list without a cycle has fewer nodes than there are
aligned addresses, so a walk of that many passes does not end. -/
def findFrom (heap : Heap) (size align : Nat) : (passes : Nat) → (current : Option Nat) →
    Except Halt (Option (Nat × Nat × Heap))
  | 0, _ => .error .endless
  | passes + 1, current =>
    match heap.nextOf current with
    | none => .ok none
    | some node =>
      match judge size align node (sizeAt heap.mem node) with
      | .error halt => .error halt
      | .ok .fails => .ok none
      | .ok (.takes allocStart) =>
        let next := nextAt heap.mem node
        let taken := { heap with mem := setNext heap.mem node none }
        .ok (some (node, allocStart, taken.linkTo current next))
      | .ok .passes => findFrom heap size align passes (some node)

/-- `find_region`: the region, where the block starts in it, and the heap without the region -/
def findRegion (heap : Heap) (size align : Nat) : Except Halt (Option (Nat × Nat × Heap)) :=
  heap.findFrom size align (2 ^ 61) none

/-- `layout.align().max(align_of::<ListNode>())` -/
def blockAlign (layout : Layout) : Nat := max layout.align nodeAlign

/-- `min_size`: the size rounded up to the alignment, at least a header -/
def minSize (layout : Layout) : Except Halt Nat := do
  let size ← roundUp layout.size (blockAlign layout)
  return max size nodeSize

/-- The block of `if excess_size >= size_of::<ListNode>()` in `alloc` -/
def giveBack (heap : Heap) (allocEnd excessSize : Nat) : Except Halt Heap :=
  if excessSize ≥ nodeSize then heap.addFreeRegion allocEnd excessSize else .ok heap

/-- `GlobalAlloc::alloc`; `none` is the null pointer. -/
def alloc (heap : Heap) (layout : Layout) : Except Halt (Option Nat × Heap) := do
  let size ← minSize layout
  match ← heap.findRegion size (blockAlign layout) with
  | none => return (none, heap)
  | some (region, allocStart, rest) =>
    let allocEnd := allocStart + size
    let regionEnd := region + sizeAt rest.mem region
    let split ← rest.giveBack allocEnd (regionEnd - allocEnd)
    return (some allocStart, { split with used := (split.used + size) % 2 ^ 64 })

/-- `GlobalAlloc::dealloc` -/
def dealloc (heap : Heap) (ptr : Nat) (layout : Layout) : Except Halt Heap := do
  let size ← minSize layout
  let freed ← heap.addFreeRegion ptr size
  return { freed with used := (freed.used + (2 ^ 64 - size)) % 2 ^ 64 }

/-- `LinkedListAllocator::init` on a fresh allocator -/
def init (mem : Memory) (heapStart heapSize : Nat) : Except Halt Heap :=
  addFreeRegion ⟨mem, none, 0⟩ heapStart heapSize

end Heap

end RustPosix.Mm
