import RustPosix.Library.Spans

/-! The virtual memory areas of `VmSpace` in `ostd/mm/vmm.rs`: an ascending list
of disjoint ranges, each with one protection and one set of mapping flags. -/

namespace RustPosix.Mm

open Library

structure VmaAttr where
  prot : BitVec 32
  flags : BitVec 32
  deriving DecidableEq, Repr

/-- `stop` is the source's field `end`, the exclusive upper bound. -/
abbrev Vma := Span VmaAttr

/-- The variables of the first loop of `insert_vma`. -/
structure InsertLoop where
  newVmas : List Vma
  inserted : Bool
  curStart : Nat
  curEnd : Nat

namespace InsertLoop

def push (loop : InsertLoop) (vma : Vma) : InsertLoop :=
  { loop with newVmas := loop.newVmas ++ [vma] }

/-- `if !inserted { new_vmas.push(..); inserted = true; }` -/
def place (loop : InsertLoop) (attr : VmaAttr) : InsertLoop :=
  if loop.inserted then loop
  else { loop.push ⟨loop.curStart, loop.curEnd, attr⟩ with inserted := true }

/-- The loop body for one existing area. -/
def step (attr : VmaAttr) (loop : InsertLoop) (vma : Vma) : InsertLoop :=
  if vma.stop ≤ loop.curStart then loop.push vma
  else if vma.start ≥ loop.curEnd then (loop.place attr).push vma
  else if vma.attr = attr then
    { loop with
      curStart := min loop.curStart vma.start
      curEnd := max loop.curEnd vma.stop }
  else
    let split :=
      if vma.start < loop.curStart then loop.push ⟨vma.start, loop.curStart, vma.attr⟩ else loop
    let placed := split.place attr
    if vma.stop > loop.curEnd then placed.push ⟨loop.curEnd, vma.stop, vma.attr⟩ else placed

end InsertLoop

/-- The second loop of `insert_vma`: glue an area to its predecessor. -/
def mergeStep (merged : List Vma) (vma : Vma) : List Vma :=
  match merged.getLast? with
  | some last =>
    if last.stop = vma.start ∧ last.attr = vma.attr then
      merged.dropLast ++ [{ last with stop := vma.stop }]
    else merged ++ [vma]
  | none => merged ++ [vma]

def insertVma (vmas : List Vma) (start stop : Nat) (prot flags : BitVec 32) : List Vma :=
  if start ≥ stop then vmas
  else
    let attr : VmaAttr := ⟨prot, flags⟩
    let loop := vmas.foldl (InsertLoop.step attr) ⟨[], false, start, stop⟩
    (loop.place attr).newVmas.foldl mergeStep []

def findVma (vmas : List Vma) (addr : Nat) : Option Vma :=
  vmas.find? fun v => decide (v.start ≤ addr) && decide (addr < v.stop)

/-- Coverage of `[start, end)` by one pass over the areas. -/
def containsRange (vmas : List Vma) (start stop : Nat) : Bool :=
  if start ≥ stop then false
  else go vmas start
where
  go : List Vma → Nat → Bool
    | [], _ => false
    | vma :: rest, curr =>
      if vma.start ≤ curr ∧ vma.stop > curr then
        if vma.stop ≥ stop then true else go rest vma.stop
      else go rest curr

/-- The part of `remove_vma_range` that rewrites the list. -/
def removeVmas (vmas : List Vma) (start stop : Nat) : List Vma :=
  vmas.flatMap fun vma =>
    if vma.stop ≤ start ∨ vma.start ≥ stop then [vma]
    else
      (if vma.start < start then [⟨vma.start, start, vma.attr⟩] else []) ++
      (if vma.stop > stop then [⟨stop, vma.stop, vma.attr⟩] else [])

/-- The segments of `mprotect_range`, each with the flags of the area it lies in. -/
def protectSegments (vmas : List Vma) (start stop : Nat) : List (Nat × Nat × BitVec 32) :=
  vmas.filterMap fun vma =>
    let segStart := max vma.start start
    let segEnd := min vma.stop stop
    if segStart < segEnd then some (segStart, segEnd, vma.attr.flags) else none

/-- The part of `mprotect_range` that rewrites the list. -/
def protectVmas (vmas : List Vma) (start stop : Nat) (newProt : BitVec 32) : List Vma :=
  (protectSegments vmas start stop).foldl
    (fun vmas segment => insertVma vmas segment.1 segment.2.1 newProt segment.2.2) vmas

end RustPosix.Mm
