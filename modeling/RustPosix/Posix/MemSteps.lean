import RustPosix.Mm.SpaceSteps
import RustPosix.Mm.VmaSteps
import RustPosix.Posix.Mem

/-! What each memory call does to the pages, the areas and the frames of its caller. -/

namespace RustPosix.Posix

open Library Mm

/-- The paths to the tables of a range of pages. -/
def rangeTables (base count : Nat) : Finset (List Nat) :=
  (Finset.range count).biUnion fun i => tablesOf (base + i * pageSize)

/-- The frames that mapping a range takes: one for each page and one for each missing table. -/
def framesNeeded (mem : Memory) (root base count : Nat) : Nat :=
  (missing mem root (rangeTables base count)).card + count

section MmapPages

variable {root base : Nat} {prot : BitVec 32} {before : Machine}

theorem rangeTables_covers {count : Nat} (user : base + count * pageSize ≤ userSpaceEnd) :
    CoversTables base count (rangeTables base count) := by
  refine ⟨fun path member => ?_, fun i inside path member => ?_⟩
  · obtain ⟨i, inside, listed⟩ := Finset.mem_biUnion.mp member
    have small : base + i * pageSize < userSpaceEnd := by
      have := Finset.mem_range.mp inside
      simp only [pageSize] at *
      omega
    have third := tablePath_valid small
    have second := UserPath.closed [_, _] _ third
    have first := UserPath.closed [_] _ second
    simp only [tablesOf, Finset.mem_insert, Finset.mem_singleton] at listed
    rcases listed with rfl | rfl | rfl
    · exact ⟨first, by simp⟩
    · exact ⟨second, by simp⟩
    · exact ⟨third, by simp [tablePath]⟩
  · exact Finset.mem_biUnion.mpr ⟨i, Finset.mem_range.mpr inside, member⟩

/-- A range can only be filled with as many frames as it needs. -/
theorem framesNeeded_le {count : Nat} {flags : PageFlags} {after : Machine}
    (filled : Filled root base count flags before after)
    (user : base + count * pageSize ≤ userSpaceEnd) :
    framesNeeded before.mem root base count ≤ before.pmm.freeFrames := by
  have none : missing after.mem root (rangeTables base count) = ∅ := by
    refine Finset.filter_eq_empty_iff.mpr fun path member absent => ?_
    obtain ⟨i, inside, listed⟩ := Finset.mem_biUnion.mp member
    have small := Finset.mem_range.mp inside
    have here : InPages base count (base + i * pageSize) := by
      simp only [InPages, pageSize] at *
      omega
    obtain ⟨phys, _, leaf⟩ := filled.leaf _ (Nat.lt_of_lt_of_le here.2 user) here
    obtain ⟨pt, found, _⟩ := Option.bind_eq_some_iff.mp ((leafAt_eq ..).symm.trans leaf)
    obtain ⟨rest, whole⟩ : path <+: tablePath (base + i * pageSize) := by
      simp only [tablesOf, Finset.mem_insert, Finset.mem_singleton] at listed
      rcases listed with rfl | rfl | rfl
      · exact ⟨_, rfl⟩
      · exact ⟨_, rfl⟩
      · exact List.prefix_rfl
    rw [← whole, view, walk_append, ← view, absent] at found
    cases found
  have frames := filled.frames _ (rangeTables_covers user)
  rw [none, Finset.card_empty] at frames
  rw [framesNeeded]
  omega

theorem framesNeeded_mono {mem : Memory} {smaller larger : Nat} (le : smaller ≤ larger) :
    framesNeeded mem root base smaller ≤ framesNeeded mem root base larger := by
  have tables : rangeTables base smaller ⊆ rangeTables base larger :=
    Finset.biUnion_subset_biUnion_of_subset_left _ (Finset.range_subset_range.mpr le)
  exact Nat.add_le_add (Finset.card_le_card (Finset.filter_subset_filter _ tables)) le

/-- The loop maps all pages, or takes back those it mapped because frames are short for the
next one. -/
theorem mmapPages_spec (aligned : base % pageSize = 0) (remaining : Nat) :
    ∀ count machine, base + (count + remaining) * pageSize ≤ userSpaceEnd →
      Filled root base count (PageFlags.fromProt prot) before machine →
      Yields (mmapPages (kernelOps root) base prot remaining count machine)
        (fun _ after => Filled root base (count + remaining) (PageFlags.fromProt prot) before after)
        (fun _ after => ∃ reached < count + remaining, RolledBack root base reached before after ∧
          framesNeeded before.mem root base reached ≤ before.pmm.freeFrames ∧
          before.pmm.freeFrames < framesNeeded before.mem root base (reached + 1)) := by
  induction remaining with
  | zero =>
    intro count machine _ filled
    exact filled
  | succ remaining ih =>
    intro count machine user filled
    have tree := filled.change.tree
    have step : base + count * pageSize < userSpaceEnd := by
      simp only [pageSize] at *
      omega
    have covers : CoversTables base (count + 1) (rangeTables base (count + 1)) := by
      refine rangeTables_covers (Nat.le_trans (Nat.add_le_add_left ?_ _) user)
      exact Nat.mul_le_mul_right _ (Nat.add_le_add_left (Nat.le_add_left 1 remaining) count)
    have enough := framesNeeded_le filled (Nat.le_of_lt step)
    have frames := filled.frames _ (covers.mono (Nat.le_succ count))
    have place := pageAddr_eq step
    rw [VmSpace.pageAddr] at place
    rw [mmapPages, place]
    dsimp only
    cases taken : machine.pmm.allocFrame with
    | mk found pmm =>
      cases found with
      | none =>
        obtain ⟨rfl, full⟩ := PhysicalMemoryManager.allocFrame_none taken
        have result : (kernelOps root).allocFrame machine = (none, machine) := by
          simp only [kernelOps, taken]
        rw [result]
        refine ⟨count, by omega, filled.rollback aligned (Nat.le_of_lt step)
          ⟨SamePages.refl tree, fun _ _ => rfl⟩, enough, ?_⟩
        rw [tree.boot.freeFrames_exhausted full] at frames
        rw [framesNeeded]
        omega
      | some phys =>
        obtain ⟨frame, rfl, positive, clear, rfl⟩ :=
          PhysicalMemoryManager.allocFrame_some tree.boot.cursor.1 taken
        have mapped := mapPage_zeroLast tree positive clear step (PageFlags.fromProt prot)
        have result : (kernelOps root).allocFrame machine = (some (frame * pageSize),
            { machine with pmm := machine.pmm.takeFrame frame }) := by
          simp only [kernelOps, taken]
        rw [result]
        dsimp only [kernelOps]
        split
        · rename_i failed
          obtain ⟨quiet, short⟩ := mapped.of_error failed
          refine ⟨count, by omega, filled.rollback aligned (Nat.le_of_lt step) quiet, enough, ?_⟩
          have behind := short ⟨_, covers.valid, covers.listed count (Nat.lt_succ_self count)⟩
          dsimp only at behind
          rw [framesNeeded]
          omega
        · rename_i done
          have sum : count + 1 + remaining = count + (remaining + 1) := by omega
          have next := ih (count + 1) _ (sum ▸ user) (filled.next aligned step (mapped.of_ok done))
          rwa [sum] at next

end MmapPages

/-- Where `sys_mmap` gets to map pages, with the checks before that passed. -/
def Task.mmapRange (addr length : Nat) (task : Task) : Option Nat :=
  if length = 0 ∨ length > userSpaceEnd ∨ pagesFor length > task.space.machine.pmm.freeFrames then
    none
  else (mmapTarget addr (pagesFor length * pageSize) userSpaceEnd task.mmapNextVaddr).map Prod.fst

/-- All pages have been mapped and the area recorded. -/
structure Mapped (base count : Nat) (prot flags : BitVec 32) (before after : Task) : Prop where
  root : after.space.root = before.space.root
  filled : Filled before.space.root base count (PageFlags.fromProt prot) before.space.machine
    after.space.machine
  vmas : after.space.vmas = insertVma before.space.vmas base (base + count * pageSize) prot flags
  next : after.mmapNextVaddr % pageSize = 0

/-- Frames have run out, and the pages mapped so far have been unmapped. -/
structure TakenBack (base count : Nat) (before after : Task) : Prop where
  root : after.space.root = before.space.root
  vmas : after.space.vmas = before.space.vmas
  next : after.mmapNextVaddr = before.mmapNextVaddr
  pages : ∃ reached, reached ≤ count ∧
    RolledBack before.space.root base reached before.space.machine after.space.machine
  short : before.space.machine.pmm.freeFrames <
    framesNeeded before.space.machine.mem before.space.root base count

/-- The ways `sys_mmap` ends. -/
inductive MmapResult (addr length : Nat) (prot flags : BitVec 32) (before : Task) : Task → Prop
  | refused : before.mmapRange addr length = none → MmapResult addr length prot flags before before
  | mapped {base after} : before.mmapRange addr length = some base →
    Mapped base (pagesFor length) prot flags before after →
    MmapResult addr length prot flags before after
  | takenBack {base after} : before.mmapRange addr length = some base →
    TakenBack base (pagesFor length) before after → MmapResult addr length prot flags before after

section Mmap

variable {addr length base : Nat} {prot flags : BitVec 32} {task : Task}

theorem boundedSum_some {first second limit stop : Nat}
    (found : (checkedAdd first second).filter (fun stop => stop ≤ limit) = some stop) :
    stop = first + second ∧ first + second ≤ limit := by
  obtain ⟨sum, small⟩ := Option.filter_eq_some_iff.mp found
  rw [checkedAdd] at sum
  split at sum
  · obtain rfl := Option.some.inj sum
    exact ⟨rfl, of_decide_eq_true small⟩
  · cases sum

theorem mmapTarget_some {byteLen limit next vaddr after : Nat}
    (found : mmapTarget addr byteLen limit next = some (vaddr, after)) :
    vaddr + byteLen ≤ limit ∧ ((vaddr = next ∧ after = next + byteLen) ∨
      (vaddr = alignDown addr ∧ after = next)) := by
  rw [mmapTarget] at found
  dsimp only at found
  split at found
  · obtain ⟨stop, sum, same⟩ := Option.map_eq_some_iff.mp found
    obtain ⟨rfl, rfl⟩ := Prod.mk.inj same
    obtain ⟨rfl, small⟩ := boundedSum_some sum
    exact ⟨small, .inl ⟨rfl, rfl⟩⟩
  · obtain ⟨stop, sum, same⟩ := Option.map_eq_some_iff.mp found
    obtain ⟨rfl, rfl⟩ := Prod.mk.inj same
    exact ⟨(boundedSum_some sum).2, .inr ⟨rfl, rfl⟩⟩

/-- A range that gets mapped is one of whole pages of user space. -/
theorem mmapRange_bounds (aligned : task.mmapNextVaddr % pageSize = 0)
    (range : task.mmapRange addr length = some base) :
    base % pageSize = 0 ∧ 0 < pagesFor length ∧
      base + pagesFor length * pageSize ≤ userSpaceEnd := by
  rw [Task.mmapRange] at range
  split at range
  · exact nomatch range
  · rename_i checks
    obtain ⟨⟨vaddr, next⟩, target, rfl⟩ := Option.map_eq_some_iff.mp range
    obtain ⟨small, place⟩ := mmapTarget_some target
    refine ⟨?_, ?_, small⟩
    · rcases place with ⟨rfl, _⟩ | ⟨rfl, _⟩
      · exact aligned
      · exact alignDown_aligned addr
    · simp only [pagesFor, pageSize]
      omega

theorem pagesFor_bytes (small : length ≤ userSpaceEnd) :
    checkedMul (pagesFor length) pageSize = some (pagesFor length * pageSize) := by
  rw [checkedMul, if_pos]
  simp only [userSpaceEnd, pagesFor, pageSize] at *
  omega

/-- The checks of `mmap_allocate` have turned the request down. -/
theorem mmapAllocate_refused {State Frame : Type} (ops : MmapOps State Frame) (prot : BitVec 32)
    (range : task.mmapRange addr length = none) (state : State) :
    ∃ errno, mmapAllocate ops addr length prot userSpaceEnd task.space.machine.pmm.freeFrames
      task.mmapNextVaddr state = (.error errno, task.mmapNextVaddr, state) := by
  rw [mmapAllocate]
  by_cases empty : length = 0
  · exact ⟨_, if_pos empty⟩
  · rw [if_neg empty]
    by_cases long : length > userSpaceEnd
    · exact ⟨_, if_pos long⟩
    · rw [if_neg long, pagesFor_bytes (Nat.le_of_not_gt long)]
      dsimp only
      by_cases many : pagesFor length > task.space.machine.pmm.freeFrames
      · exact ⟨_, if_pos many⟩
      · rw [Task.mmapRange, if_neg (by omega), Option.map_eq_none_iff] at range
        rw [if_neg many, range]
        exact ⟨_, rfl⟩

/-- Past its checks, `mmap_allocate` is its loop. -/
theorem mmapAllocate_loop {State Frame : Type} (ops : MmapOps State Frame) (prot : BitVec 32)
    (range : task.mmapRange addr length = some base) (state : State) :
    ∃ next, mmapTarget addr (pagesFor length * pageSize) userSpaceEnd task.mmapNextVaddr =
        some (base, next) ∧
      mmapAllocate ops addr length prot userSpaceEnd task.space.machine.pmm.freeFrames
        task.mmapNextVaddr state =
        match mmapPages ops base prot (pagesFor length) 0 state with
        | (.ok _, state) => (.ok base, next, state)
        | (.error errno, state) => (.error errno, task.mmapNextVaddr, state) := by
  rw [Task.mmapRange] at range
  split at range
  · exact nomatch range
  · rename_i checks
    obtain ⟨⟨vaddr, next⟩, target, rfl⟩ := Option.map_eq_some_iff.mp range
    refine ⟨next, target, ?_⟩
    rw [mmapAllocate, if_neg (by omega), if_neg (by omega), pagesFor_bytes (by omega)]
    dsimp only
    rewrite [if_neg (by omega), target]
    change (match mmapPages ops vaddr prot (pagesFor length) 0 state with
      | (.ok _, state) => (Except.ok vaddr, next, state)
      | (.error errno, state) => (Except.error errno, task.mmapNextVaddr, state)) = _
    cases mmapPages ops vaddr prot (pagesFor length) 0 state with
    | mk result state =>
      cases result with
      | ok done => rfl
      | error errno => rfl

/-- Everything `sys_mmap` can do to its caller. -/
theorem mmap_result (tree : PageTree task.space.machine task.space.root)
    (aligned : task.mmapNextVaddr % pageSize = 0) (addr length : Nat) (prot flags : BitVec 32) :
    MmapResult addr length prot flags task (task.mmap addr length prot flags).2 := by
  cases range : task.mmapRange addr length with
  | none =>
    obtain ⟨errno, refused⟩ := mmapAllocate_refused (kernelOps task.space.root) prot range
      task.space.machine
    rw [Task.mmap, refused]
    exact .refused range
  | some base =>
    obtain ⟨baseAligned, _, user⟩ := mmapRange_bounds aligned range
    obtain ⟨next, target, loop⟩ := mmapAllocate_loop (kernelOps task.space.root) prot range
      task.space.machine
    obtain ⟨_, place⟩ := mmapTarget_some target
    have bound : base + (0 + pagesFor length) * pageSize ≤ userSpaceEnd := by
      rw [Nat.zero_add]
      exact user
    have filled : Filled task.space.root base 0 (PageFlags.fromProt prot) task.space.machine
        task.space.machine := Filled.none tree
    have pages := mmapPages_spec baseAligned (pagesFor length) 0 _ bound filled
    rw [Nat.zero_add] at pages
    have stop : (checkedMul (pagesFor length) pageSize).bind (checkedAdd base) =
        some (base + pagesFor length * pageSize) := by
      simp only [userSpaceEnd] at user
      rw [checkedMul, if_pos (by omega), Option.bind_some, checkedAdd, if_pos (by omega)]
    rw [Task.mmap, loop]
    generalize mmapPages (kernelOps task.space.root) base prot (pagesFor length) 0
      task.space.machine = result at pages ⊢
    rcases result with ⟨errno | _, machine⟩
    · obtain ⟨reached, below, back, _, short⟩ := pages
      exact .takenBack range ⟨rfl, rfl, rfl, ⟨reached, Nat.le_of_lt below, back⟩,
        Nat.lt_of_lt_of_le short (framesNeeded_mono below)⟩
    · dsimp only
      rw [stop]
      refine .mapped range ⟨rfl, pages, rfl, ?_⟩
      rcases place with ⟨_, rfl⟩ | ⟨_, rfl⟩
      · rw [Nat.add_mul_mod_self_right]
        exact aligned
      · exact aligned

end Mmap

/-- A range of pages and the areas in it are gone. -/
structure Gone (base count : Nat) (before after : Task) : Prop where
  root : after.space.root = before.space.root
  next : after.mmapNextVaddr = before.mmapNextVaddr
  cleared : Cleared before.space.root base count before.space.machine after.space.machine
  vmas : after.space.vmas = removeVmas before.space.vmas base (base + count * pageSize)

/-- A range of pages and the areas in it have another protection. -/
structure Protected (base count : Nat) (prot : BitVec 32) (before after : Task) : Prop where
  root : after.space.root = before.space.root
  next : after.mmapNextVaddr = before.mmapNextVaddr
  pages : Reprotected before.space.root base count (PageFlags.fromProt prot) before.space.machine
    after.space.machine
  vmas : after.space.vmas = protectVmas before.space.vmas base (base + count * pageSize) prot

section Ranges

variable {base count : Nat} {task : Task}

theorem userRangeEnd_some {addr length stop : Nat} (found : userRangeEnd addr length = some stop)
    (nonempty : length ≠ 0) :
    stop = addr + pagesFor length * pageSize ∧ 0 < pagesFor length ∧
      addr + pagesFor length * pageSize ≤ userSpaceEnd := by
  rw [userRangeEnd] at found
  split at found
  · exact nomatch found
  · rename_i small
    rw [pagesFor_bytes (Nat.le_of_not_gt small), Option.bind_some] at found
    obtain ⟨rfl, bound⟩ := boundedSum_some found
    refine ⟨rfl, ?_, bound⟩
    simp only [pagesFor, pageSize]
    omega

theorem alignUp_of_aligned {stop : Nat} (aligned : stop % pageSize = 0)
    (user : stop ≤ userSpaceEnd) : alignUp stop = some stop := by
  rw [alignUp, checkedAdd, if_pos]
  · simp only [Option.map_some, alignDown, pageSize, Option.some.injEq] at *
    omega
  · simp only [pageSize, userSpaceEnd] at *
    omega

theorem stop_aligned (aligned : base % pageSize = 0) :
    (base + count * pageSize) % pageSize = 0 := by
  rw [Nat.add_mul_mod_self_right]
  exact aligned

theorem range_count (base count : Nat) : (base + count * pageSize - base) / pageSize = count := by
  rw [Nat.add_sub_cancel_left, Nat.mul_div_cancel _ (by decide)]

theorem range_nonempty (positive : 0 < count) : ¬ base ≥ base + count * pageSize := by
  simp only [pageSize]
  omega

/-- On whole pages of user space the call is its two loops. -/
theorem munmap_eq (aligned : base % pageSize = 0) (positive : 0 < count)
    (user : base + count * pageSize ≤ userSpaceEnd) :
    task.munmap base (base + count * pageSize) = { task with space := { task.space with
      machine := VmSpace.unmapRange task.space.root base count task.space.machine
      vmas := removeVmas task.space.vmas base (base + count * pageSize) } } := by
  rw [Task.munmap, VmSpace.removeVmaRange, if_neg (range_nonempty positive),
    alignUp_of_aligned (stop_aligned aligned) user]
  dsimp only
  rw [alignDown_of_aligned aligned, range_count]

theorem munmap_result (tree : PageTree task.space.machine task.space.root)
    (aligned : base % pageSize = 0) (positive : 0 < count)
    (user : base + count * pageSize ≤ userSpaceEnd) :
    Gone base count task (task.munmap base (base + count * pageSize)) := by
  rw [munmap_eq aligned positive user]
  exact ⟨rfl, rfl, unmapRange_spec tree aligned count user, rfl⟩

theorem mprotect_eq (aligned : base % pageSize = 0) (positive : 0 < count)
    (user : base + count * pageSize ≤ userSpaceEnd) (prot : BitVec 32) :
    (task.mprotect base (base + count * pageSize) prot).2 =
      if containsRange task.space.vmas base (base + count * pageSize) = false then task
      else { task with space := { task.space with
        machine := { task.space.machine with
          mem := VmSpace.protectPages task.space.root base count (PageFlags.fromProt prot)
            task.space.machine.mem }
        vmas := protectVmas task.space.vmas base (base + count * pageSize) prot } } := by
  rw [Task.mprotect]
  split
  · rfl
  · rename_i covered
    rw [VmSpace.mprotectRange, if_neg (not_or.mpr ⟨range_nonempty positive, covered⟩),
      alignUp_of_aligned (stop_aligned aligned) user]
    dsimp only
    rw [alignDown_of_aligned aligned, range_count]

theorem mprotect_result (tree : PageTree task.space.machine task.space.root)
    (aligned : base % pageSize = 0) (positive : 0 < count)
    (user : base + count * pageSize ≤ userSpaceEnd) (prot : BitVec 32) :
    (task.mprotect base (base + count * pageSize) prot).2 = task ∨
      containsRange task.space.vmas base (base + count * pageSize) = true ∧
        Protected base count prot task (task.mprotect base (base + count * pageSize) prot).2 := by
  rw [mprotect_eq aligned positive user]
  split
  · exact .inl rfl
  · rename_i covered
    exact .inr ⟨Bool.eq_true_of_not_eq_false covered, rfl, rfl,
      protectPages_spec tree aligned _ count user, rfl⟩

end Ranges

end RustPosix.Posix
