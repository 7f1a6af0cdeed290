import RustPosix.Posix.FrameBalance

/-! What a failed `sys_mmap` leaves behind. -/

namespace RustPosix.Posix

open Library Mm Process

/-- The user sees the same: where addresses lead, what is there, and what the areas allow. -/
structure SameView (before after : Task) : Prop where
  translation : ∀ addr < userSpaceEnd,
    translate after.space.machine.mem after.space.root addr =
      translate before.space.machine.mem before.space.root addr
  contents : ∀ addr < userSpaceEnd, byteAt after.space.machine after.space.root addr =
    byteAt before.space.machine before.space.root addr
  areas : ∀ addr, (findVma after.space.vmas addr).map Span.attr =
    (findVma before.space.vmas addr).map Span.attr

theorem SameView.refl (task : Task) : SameView task task :=
  ⟨fun _ _ => rfl, fun _ _ => rfl, fun _ => rfl⟩

/-- The first `reached` pages of the range were not mapped. -/
def FreeRange (task : Task) (base reached : Nat) : Prop :=
  ∀ i < reached, translate task.space.machine.mem task.space.root (base + i * pageSize) = none

/-- The loop has stopped at the first page for which frames are short. -/
structure StoppedAt (base count reached : Nat) (before after : Task) : Prop where
  root : after.space.root = before.space.root
  vmas : after.space.vmas = before.space.vmas
  below : reached < count
  pages : RolledBack before.space.root base reached before.space.machine after.space.machine
  enough : framesNeeded before.space.machine.mem before.space.root base reached ≤
    before.space.machine.pmm.freeFrames
  short : before.space.machine.pmm.freeFrames <
    framesNeeded before.space.machine.mem before.space.root base (reached + 1)

section Failure

variable {addr length base count reached : Nat} {prot flags : BitVec 32} {task after : Task}

/-- A negative result past the checks comes from the loop. -/
theorem mmap_stopped (tree : PageTree task.space.machine task.space.root)
    (aligned : task.mmapNextVaddr % pageSize = 0) (range : task.mmapRange addr length = some base)
    (negative : (task.mmap addr length prot flags).1 < 0) :
    ∃ reached, StoppedAt base (pagesFor length) reached task
      (task.mmap addr length prot flags).2 := by
  obtain ⟨baseAligned, _, user⟩ := mmapRange_bounds aligned range
  obtain ⟨next, _, loop⟩ := mmapAllocate_loop (kernelOps task.space.root) prot range
      task.space.machine
  have pages := mmapPages_spec baseAligned (pagesFor length) 0 _ (by rwa [Nat.zero_add])
    (Filled.none tree : Filled task.space.root base 0 (PageFlags.fromProt prot) _ _)
  rw [Nat.zero_add] at pages
  rw [Task.mmap, loop] at negative ⊢
  generalize mmapPages (kernelOps task.space.root) base prot (pagesFor length) 0
    task.space.machine = result at pages negative ⊢
  rcases result with ⟨errno | _, machine⟩
  · obtain ⟨reached, below, back, enough, short⟩ := pages
    exact ⟨reached, rfl, rfl, below, back, enough, short⟩
  · exact absurd (Int.natCast_nonneg base) (Int.not_le.mpr negative)

/-- The pages up to the one that failed are exactly those for which there were frames. -/
theorem StoppedAt.below_iff (stopped : StoppedAt base count reached task after) (i : Nat) :
    i < reached ↔ i < count ∧ framesNeeded task.space.machine.mem task.space.root base (i + 1) ≤
      task.space.machine.pmm.freeFrames := by
  constructor
  · intro early
    exact ⟨early.trans stopped.below, (framesNeeded_mono early).trans stopped.enough⟩
  · rintro ⟨_, enough⟩
    by_contra late
    apply Nat.not_le.mpr stopped.short
    exact (framesNeeded_mono (Nat.succ_le_succ (Nat.le_of_not_lt late))).trans enough

theorem leaf_none_iff {mem : Memory} {root virtAddr : Nat} :
    translate mem root virtAddr = none ↔ leafAt mem root virtAddr = none := by
  rw [translate_eq, Option.map_eq_none_iff]

/-- Rolling back is unnoticed exactly if nothing was mapped where pages had been placed. -/
theorem StoppedAt.sameView_iff (stopped : StoppedAt base count reached task after)
    (aligned : base % pageSize = 0) (user : base + count * pageSize ≤ userSpaceEnd) :
    SameView task after ↔ FreeRange task base reached := by
  have place {i : Nat} (early : i < reached) :
      InPages base reached (base + i * pageSize) ∧ base + i * pageSize < userSpaceEnd := by
    have below := stopped.below
    simp only [InPages, pageSize] at *
    omega
  constructor
  · intro same i early
    obtain ⟨inside, small⟩ := place early
    rw [← same.translation _ small, leaf_none_iff, stopped.root, stopped.pages.leaves _ small,
      if_pos inside]
  · intro unmapped
    -- An address of the range lies in one of its pages.
    have gone {addr : Nat} (small : addr < userSpaceEnd) (inside : InPages base reached addr) :
        leafAt task.space.machine.mem task.space.root addr = none := by
      have page : addr / pageSize = (base + (addr - base) / pageSize * pageSize) / pageSize := by
        simp only [InPages, pageSize] at *
        omega
      have early : (addr - base) / pageSize < reached := by
        simp only [InPages, pageSize] at *
        omega
      rw [same_page (place early).2 small page]
      exact leaf_none_iff.mp (unmapped _ early)
    refine ⟨fun addr small => ?_, fun addr small => ?_, fun addr => ?_⟩
    · rw [translate_eq, translate_eq, stopped.root, stopped.pages.leaves addr small]
      split
      · rename_i inside
        rw [gone small inside]
      · rfl
    · rw [stopped.root, stopped.pages.bytes addr small]
      split
      · rename_i inside
        rw [byteAt_eq, gone small inside]
        rfl
      · rfl
    · rw [stopped.vmas]

end Failure

/-- A failed `sys_mmap` changes nothing exactly if none of the pages for which there were
enough frames was mapped before. -/
theorem failed_mmap_changes_nothing_iff {addr length : Nat} {prot flags : BitVec 32} {result : Int}
    {task after : Task} (tree : PageTree task.space.machine task.space.root)
    (aligned : task.mmapNextVaddr % pageSize = 0)
    (called : sysMmap addr length prot flags (.task task) = (result, .task after))
    (negative : result < 0) :
    SameView task after ↔
      ∀ base, task.mmapRange addr length = some base → ∀ i < pagesFor length,
        framesNeeded task.space.machine.mem task.space.root base (i + 1) ≤
            task.space.machine.pmm.freeFrames →
          translate task.space.machine.mem task.space.root (base + i * pageSize) = none := by
  cases called
  cases range : task.mmapRange addr length with
  | none =>
    obtain ⟨errno, refused⟩ := mmapAllocate_refused (kernelOps task.space.root) prot range
      task.space.machine
    rw [Task.mmap, refused]
    exact iff_of_true (.refl task) (by rintro _ ⟨⟩)
  | some base =>
    obtain ⟨baseAligned, _, user⟩ := mmapRange_bounds aligned range
    obtain ⟨reached, stopped⟩ := mmap_stopped tree aligned range negative
    rw [stopped.sameView_iff baseAligned user]
    constructor
    · rintro unmapped _ ⟨⟩ i inside enough
      exact unmapped i ((stopped.below_iff i).mpr ⟨inside, enough⟩)
    · intro unmapped i early
      obtain ⟨inside, enough⟩ := (stopped.below_iff i).mp early
      exact unmapped base rfl i inside enough

/-- A fresh address space over a number of frames. -/
def smallTask (frames : Nat) : Task := ⟨sharedSpace frames, defaultMmapBase⟩

/-- Two pages in different tables with frames for the first one only, into nothing. -/
theorem failed_mmap_changes_nothing_iff_fresh :
    (sysMmap 0x5FF000 8192 3 0x22 (.task (smallTask 8))).1 = -12 ∧
      SameView (smallTask 8) ((smallTask 8).mmap 0x5FF000 8192 3 0x22).2 := by
  have returned : (sysMmap 0x5FF000 8192 3 0x22 (.task (smallTask 8))).1 = -12 := by decide +kernel
  have boot : (bootPmm 8).Boot := ⟨by decide, by decide, by decide⟩
  have fresh := (sharedSpace_fresh rfl boot (by decide)).1
  refine ⟨returned, (failed_mmap_changes_nothing_iff fresh.tree (by decide) rfl
    (returned ▸ by decide)).mpr ?_⟩
  intro base range i inside _
  obtain ⟨_, _, user⟩ := mmapRange_bounds (by decide) range
  apply leaf_none_iff.mpr
  apply fresh.empty
  have last : base + i * pageSize < base + pagesFor 8192 * pageSize :=
    Nat.add_lt_add_left (Nat.mul_lt_mul_of_pos_right inside (by decide)) _
  exact last.trans_le user

/-- The first page is mapped already: the call that fails at the second one unmaps it. -/
theorem failed_mmap_unmaps_page :
    let mapped := ((smallTask 10).mmap 0x5FF000 4096 3 0x22).2
    let failed := mapped.mmap 0x5FF000 8192 3 0x22
    ((smallTask 10).mmap 0x5FF000 4096 3 0x22).1 = 0x5FF000 ∧
      translate mapped.space.machine.mem mapped.space.root 0x5FF000 = some 0x4000 ∧
      failed.1 = -12 ∧
      translate failed.2.space.machine.mem failed.2.space.root 0x5FF000 = none := by
  decide +kernel

end RustPosix.Posix
