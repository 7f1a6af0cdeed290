import RustPosix.Library.Action
import RustPosix.Library.Memory
import RustPosix.Mm.Pmm

/-! Four-level paging of `ostd/arch/x86_64/paging.rs` over physical memory. The
direct map makes every physical byte addressable, so tables and data are both
read and written by physical address. -/

namespace RustPosix.Mm

open Library

/-- Physical memory and the allocator of its frames. -/
structure Machine where
  mem : Memory
  pmm : PhysicalMemoryManager

/-- An error text returned to the caller, or a panic of the kernel. -/
inductive Fault where
  | error (message : String)
  | panicked
  deriving DecidableEq, Repr

/-- Architecture-neutral protection of a page (`ostd/mm/flags.rs`). -/
structure PageFlags where
  present : Bool
  writable : Bool
  user : Bool
  noExec : Bool
  deriving DecidableEq, Repr

def protNone : BitVec 32 := 0
def protRead : BitVec 32 := 1
def protWrite : BitVec 32 := 2
def protExec : BitVec 32 := 4

def PageFlags.userData : PageFlags := ⟨true, true, true, true⟩

def PageFlags.fromProt (prot : BitVec 32) : PageFlags where
  present := true
  writable := prot &&& protWrite != 0
  user := true
  noExec := prot &&& protExec == 0

def pagePresent : BitVec 64 := 1 <<< 0
def pageWritable : BitVec 64 := 1 <<< 1
def pageUser : BitVec 64 := 1 <<< 2
def pagePs : BitVec 64 := 1 <<< 7
def pageNx : BitVec 64 := 1 <<< 63

/-- Bits 12 to 51 of an entry. -/
def ptAddrMask : BitVec 64 := 0x000FFFFFFFFFF000

def ptIndexMask : Nat := 0x1FF

/-- The PML4, PDPT, PD and PT index of an address; the bits above 47 play no part. -/
def ptIndices (virtAddr : Nat) : Nat × Nat × Nat × Nat :=
  ((virtAddr >>> 39) &&& ptIndexMask, (virtAddr >>> 30) &&& ptIndexMask,
    (virtAddr >>> 21) &&& ptIndexMask, (virtAddr >>> 12) &&& ptIndexMask)

def ptePhys (entry : BitVec 64) : Nat := (entry &&& ptAddrMask).toNat

def pageFlagsToArch (flags : PageFlags) : BitVec 64 :=
  (if flags.present then pagePresent else 0) ||| (if flags.writable then pageWritable else 0) |||
    (if flags.user then pageUser else 0) ||| (if flags.noExec then pageNx else 0)

def isPresent (entry : BitVec 64) : Bool := entry &&& pagePresent != 0

/-- `(*table).entries[idx]` -/
def entryAt (mem : Memory) (table idx : Nat) : BitVec 64 := mem.read64 (table + 8 * idx)

def setEntry (mem : Memory) (table idx : Nat) (entry : BitVec 64) : Memory :=
  mem.write64 (table + 8 * idx) entry

def zeroPhysFrame (mem : Memory) (phys : Nat) : Memory := mem.fill phys pageSize 0

/-- The entry of a page table created on demand. -/
def tableEntry (frame : Nat) (flags : BitVec 64) : BitVec 64 :=
  BitVec.ofNat 64 frame ||| pagePresent ||| pageWritable ||| (flags &&& pageUser)

def getOrCreateTable (table idx : Nat) (flags : BitVec 64) : Action Machine Fault Nat :=
  fun machine =>
    if isPresent (entryAt machine.mem table idx) then
      (.ok (ptePhys (entryAt machine.mem table idx)), machine)
    else
      match machine.pmm.allocFrame with
      | (none, pmm) =>
        (.error (.error "Out of physical frames for page table"), { machine with pmm })
      | (some frame, pmm) =>
        let mem := setEntry (zeroPhysFrame machine.mem frame) table idx (tableEntry frame flags)
        (.ok (ptePhys (entryAt mem table idx)), ⟨mem, pmm⟩)

def getTable (mem : Memory) (table idx : Nat) : Option Nat :=
  if isPresent (entryAt mem table idx) then some (ptePhys (entryAt mem table idx)) else none

/-- The entry a leaf receives. -/
def leafEntry (physAddr : Nat) (flags : PageFlags) : BitVec 64 :=
  BitVec.ofNat 64 physAddr ||| (pageFlagsToArch flags ||| pagePresent)

def mapPage (rootPhys virtAddr physAddr : Nat) (flags : PageFlags) :
    Action Machine Fault PUnit := do
  let (pml4Idx, pdptIdx, pdIdx, ptIdx) := ptIndices virtAddr
  let archFlags := pageFlagsToArch flags ||| pagePresent
  let pdpt ← getOrCreateTable rootPhys pml4Idx archFlags
  let pd ← getOrCreateTable pdpt pdptIdx archFlags
  let pt ← getOrCreateTable pd pdIdx archFlags
  Action.modify fun machine =>
    { machine with mem := setEntry machine.mem pt ptIdx (leafEntry physAddr flags) }

/-- The page table holding the leaf of an address, and the index of the leaf.
The walk is the same in `unmap_page`, `set_page_flags` and `translate`. -/
def leafTable (mem : Memory) (rootPhys virtAddr : Nat) : Option (Nat × Nat) :=
  let (pml4Idx, pdptIdx, pdIdx, ptIdx) := ptIndices virtAddr
  (getTable mem rootPhys pml4Idx).bind fun pdpt =>
    (getTable mem pdpt pdptIdx).bind fun pd =>
      (getTable mem pd pdIdx).map fun pt => (pt, ptIdx)

/-- The unmapped frame is returned to the caller, which frees it. -/
def unmapPage (mem : Memory) (rootPhys virtAddr : Nat) : Option Nat × Memory :=
  match leafTable mem rootPhys virtAddr with
  | none => (none, mem)
  | some (pt, ptIdx) =>
    let entry := entryAt mem pt ptIdx
    if isPresent entry then (some (ptePhys entry), setEntry mem pt ptIdx 0) else (none, mem)

def setPageFlags (mem : Memory) (rootPhys virtAddr : Nat) (flags : PageFlags) : Memory :=
  match leafTable mem rootPhys virtAddr with
  | none => mem
  | some (pt, ptIdx) =>
    let entry := entryAt mem pt ptIdx
    if isPresent entry then setEntry mem pt ptIdx (leafEntry (ptePhys entry) flags) else mem

def translate (mem : Memory) (rootPhys virtAddr : Nat) : Option Nat :=
  match leafTable mem rootPhys virtAddr with
  | none => none
  | some (pt, ptIdx) =>
    let entry := entryAt mem pt ptIdx
    if isPresent entry then some (ptePhys entry + (virtAddr &&& 0xFFF)) else none

/-- Why an access to user memory was rejected, as far as the page walk goes. -/
inductive UserAccessError where
  | notMapped
  | notWritable
  deriving DecidableEq, Repr

/-- The walk of `validate_user_page` from `level` down. -/
def validateFrom (mem : Memory) (vaddr : Nat) (needWrite : Bool) (tablePhys : Nat) :
    Nat → Except UserAccessError Unit
  | 0 => .ok ()
  | level + 1 =>
    let entry := entryAt mem tablePhys ((vaddr >>> (12 + level * 9)) &&& ptIndexMask)
    if entry &&& pagePresent = 0 ∨ entry &&& pageUser = 0 then .error .notMapped
    else if needWrite ∧ entry &&& pageWritable = 0 then .error .notWritable
    else if level = 0 ∨ (level ≤ 2 ∧ entry &&& pagePs ≠ 0) then .ok ()
    else validateFrom mem vaddr needWrite (ptePhys entry) level

def validateUserPage (mem : Memory) (rootPhys vaddr : Nat) (needWrite : Bool) :
    Except UserAccessError Unit :=
  validateFrom mem vaddr needWrite rootPhys 4

/-- Share the upper half of the active root table. -/
def copyKernelMappings (mem : Memory) (destRoot srcRoot : Nat) : Memory :=
  (List.range' 256 256).foldl (fun mem idx => setEntry mem destRoot idx (entryAt mem srcRoot idx)) mem

/-- Free everything below a table and then the table itself. A table has
`level` levels below it; with none it is a data page. -/
def freeLevel (mem : Memory) : (level slots : Nat) → Nat → PhysicalMemoryManager →
    PhysicalMemoryManager
  | 0, _, phys, pmm => pmm.freeFrame phys
  | level + 1, slots, phys, pmm =>
    ((List.range slots).foldl (fun pmm idx =>
      match getTable mem phys idx with
      | some next => freeLevel mem level 512 next pmm
      | none => pmm) pmm).freeFrame phys

/-- The four nested loops, over the lower half of the root only. -/
def freePageTableHierarchy (rootPhys : Nat) (machine : Machine) : Machine :=
  { machine with pmm := freeLevel machine.mem 4 256 rootPhys machine.pmm }

end RustPosix.Mm
