import RustPosix.Mm.Paging
import RustPosix.Mm.Vma

/-! Address spaces of `ostd/mm/vmm.rs`: a root table and the list of areas. -/

namespace RustPosix.Mm

open Library

/-- Sums and products of `usize`, as far as they fit. -/
def checkedAdd (a b : Nat) : Option Nat := if a + b < 2 ^ 64 then some (a + b) else none

theorem checkedAdd_eq_some {a b sum : Nat} :
    checkedAdd a b = some sum ↔ a + b < 2 ^ 64 ∧ a + b = sum := by
  unfold checkedAdd
  by_cases fits : a + b < 2 ^ 64
  · rw [if_pos fits, Option.some.injEq, and_iff_right fits]
  · rw [if_neg fits]
    exact ⟨nofun, fun holds => absurd holds.1 fits⟩

theorem checkedAdd_eq_none {a b : Nat} : checkedAdd a b = none ↔ 2 ^ 64 ≤ a + b := by
  unfold checkedAdd
  split <;> simp_all

def checkedMul (a b : Nat) : Option Nat := if a * b < 2 ^ 64 then some (a * b) else none

/-- `addr & !0xFFF` -/
def alignDown (addr : Nat) : Nat := addr / pageSize * pageSize

/-- `(addr + PAGE_SIZE - 1) & !0xFFF`; the sum panics when it does not fit. -/
def alignUp (addr : Nat) : Option Nat :=
  (checkedAdd addr pageSize).map fun sum => alignDown (sum - 1)

/-- A `VmSpace` together with the memory and the allocator it works on. -/
structure VmState where
  machine : Machine
  root : Nat
  vmas : List Vma

namespace VmSpace

def new (activeRoot : Nat) (machine : Machine) : Option VmState × Machine :=
  match machine.pmm.allocFrame with
  | (none, pmm) => (none, { machine with pmm })
  | (some root, pmm) =>
    let machine := ⟨copyKernelMappings (zeroPhysFrame machine.mem root) root activeRoot, pmm⟩
    (some ⟨machine, root, []⟩, machine)

/-- Unmap a page and free its frame. -/
def unmapPage (root virtAddr : Nat) (machine : Machine) : Machine :=
  match Mm.unmapPage machine.mem root virtAddr with
  | (some phys, mem) => ⟨mem, machine.pmm.freeFrame phys⟩
  | (none, mem) => { machine with mem }

/-- The page `i` of a range, when its address fits. -/
def pageAddr (alignedStart i : Nat) : Option Nat :=
  (checkedMul i pageSize).bind (checkedAdd alignedStart)

def unmapRange (root startVirt count : Nat) (machine : Machine) : Machine :=
  (List.range count).foldl (fun machine i =>
    match pageAddr (alignDown startVirt) i with
    | some pageVaddr => unmapPage root pageVaddr machine
    | none => machine) machine

/-- The loop of `alloc_and_map_range` with `remaining` pages left and `i` mapped. -/
def mapPages (root alignedStart : Nat) (flags : PageFlags) :
    (remaining i : Nat) → Action Machine Fault PUnit
  | 0, _ => pure ⟨⟩
  | remaining + 1, i => fun machine =>
    match pageAddr alignedStart i with
    | none =>
      (.error (.error "Virtual address overflow"), unmapRange root alignedStart i machine)
    | some virt =>
      match machine.pmm.allocFrame with
      | (none, pmm) =>
        (.error (.error "Out of physical frames"),
          unmapRange root alignedStart i { machine with pmm })
      | (some phys, pmm) =>
        match mapPage root virt phys flags ⟨zeroPhysFrame machine.mem phys, pmm⟩ with
        | (.error fault, machine) =>
          (.error fault,
            unmapRange root alignedStart i { machine with pmm := machine.pmm.freeFrame phys })
        | (.ok _, machine) => mapPages root alignedStart flags remaining (i + 1) machine

/-- The protection that a range registers for its pages. -/
def protOf (flags : PageFlags) : BitVec 32 :=
  protRead ||| (if flags.writable then protWrite else 0) ||| (if flags.noExec then 0 else protExec)

def onMachine {Value : Type} (act : Nat → Action Machine Fault Value) : Action VmState Fault Value :=
  fun state =>
    let (result, machine) := act state.root state.machine
    (result, { state with machine })

def insertVma (start stop : Nat) (prot flags : BitVec 32) (state : VmState) : VmState :=
  { state with vmas := Mm.insertVma state.vmas start stop prot flags }

def allocAndMapRange (startVirt size : Nat) (flags : PageFlags) : Action VmState Fault PUnit :=
  fun state =>
    match (checkedAdd startVirt size).bind alignUp with
    | none => (.error .panicked, state)
    | some alignedEnd =>
      let alignedStart := alignDown startVirt
      let pageCount := (alignedEnd - alignedStart) / pageSize
      if pageCount > state.machine.pmm.freeFrames then
        (.error (.error "Out of physical frames"), state)
      else
        (do
          onMachine fun root => mapPages root alignedStart flags pageCount 0
          Action.modify (insertVma alignedStart alignedEnd (protOf flags) 0)) state

/-- The loop of `write_bytes_to_space`. A pass writes at least one byte, so the
number of bytes bounds the passes. -/
def writeChunks (root : Nat) : (passes virt : Nat) → List Byte → Action Machine Fault PUnit
  | 0, _, _ => pure ⟨⟩
  | passes + 1, virt, data => fun machine =>
    if data = [] then (.ok ⟨⟩, machine)
    else if virt ≥ 2 ^ 64 then (.error .panicked, machine)
    else
      let toWrite := min data.length (pageSize - virt % pageSize)
      match translate machine.mem root virt with
      | none => (.error (.error "Unmapped virtual address during write"), machine)
      | some phys =>
        writeChunks root passes (virt + toWrite) (data.drop toWrite)
          { machine with mem := machine.mem.store phys (data.take toWrite) }

def writeBytesToSpace (targetVirt : Nat) (data : List Byte) : Action VmState Fault PUnit :=
  onMachine fun root => writeChunks root data.length targetVirt data

def removeVmaRange (start stop : Nat) : Action VmState Fault PUnit := fun state =>
  if start ≥ stop then (.ok ⟨⟩, state)
  else
    match alignUp stop with
    | none => (.error .panicked, state)
    | some alignedEnd =>
      let alignedStart := alignDown start
      let pageCount := (alignedEnd - alignedStart) / pageSize
      (.ok ⟨⟩, { state with
        machine := unmapRange state.root alignedStart pageCount state.machine
        vmas := removeVmas state.vmas start stop })

/-- The loop of `mprotect_range` over the pages from `alignedStart` on. -/
def protectPages (root alignedStart count : Nat) (flags : PageFlags) (mem : Memory) : Memory :=
  (List.range count).foldl
    (fun mem i => setPageFlags mem root (alignedStart + i * pageSize) flags) mem

def mprotectRange (start stop : Nat) (newProt : BitVec 32) : Action VmState Fault PUnit :=
  fun state =>
    if start ≥ stop ∨ containsRange state.vmas start stop = false then
      (.error (.error "Unmapped gap in range"), state)
    else
      match alignUp stop with
      | none => (.error .panicked, state)
      | some alignedEnd =>
        let alignedStart := alignDown start
        let pageCount := (alignedEnd - alignedStart) / pageSize
        (.ok ⟨⟩, { state with
          machine := { state.machine with
            mem := protectPages state.root alignedStart pageCount (PageFlags.fromProt newProt)
              state.machine.mem }
          vmas := protectVmas state.vmas start stop newProt })

/-- `Drop for VmSpace` -/
def drop (state : VmState) : Machine := freePageTableHierarchy state.root state.machine

end VmSpace

end RustPosix.Mm
