import RustPosix.Mm.Pmm

namespace RustPosix.Mm

open Library

namespace PhysicalMemoryManager

/-- The managed frames whose bit is clear. -/
def clearFrames (pmm : PhysicalMemoryManager) : Finset Nat :=
  (Finset.range pmm.totalFrames).filter fun f => pmm.testBit f = false

@[simp] theorem mem_clearFrames {pmm : PhysicalMemoryManager} :
    f ∈ pmm.clearFrames ↔ pmm.testBit f = false := by
  simp only [clearFrames, Finset.mem_filter, Finset.mem_range]
  exact ⟨And.right, fun clear => ⟨lt_of_clear clear, clear⟩⟩

theorem clearFrames_takeFrame {pmm : PhysicalMemoryManager} (clear : pmm.testBit f = false) :
    (pmm.takeFrame f).clearFrames = pmm.clearFrames.erase f := by
  ext g
  rw [mem_clearFrames, testBit_takeFrame clear, Finset.mem_erase, mem_clearFrames]
  by_cases same : f = g
  · simp [same]
  · simp [same, Ne.symm same]

theorem clearFrames_takeRun (pmm : PhysicalMemoryManager) (first count : Nat) :
    (pmm.takeRun first count).clearFrames =
      pmm.clearFrames \ Finset.Ico first (first + count) := by
  ext g
  have read : (pmm.takeRun first count).testBit g = (pmm.setRun first count).testBit g := rfl
  rw [mem_clearFrames, read, testBit_setRun, Finset.mem_sdiff, mem_clearFrames, Finset.mem_Ico]
  by_cases taken : first ≤ g ∧ g < first + count <;> simp [taken]

theorem clearFrames_freeFrame {pmm : PhysicalMemoryManager}
    (inside : addr / pageSize < pmm.totalFrames) :
    (pmm.freeFrame addr).clearFrames = insert (addr / pageSize) pmm.clearFrames := by
  ext g
  rw [mem_clearFrames, testBit_freeFrame pmm addr g inside, Finset.mem_insert, mem_clearFrames]
  by_cases same : addr / pageSize = g
  · simp [same]
  · simp [same, Ne.symm same]

/-- Taking and giving back a frame keep the cursor in range and the count exact. -/
theorem takeFrame_counts {pmm : PhysicalMemoryManager} (clear : pmm.testBit f = false)
    (counted : pmm.freeFrames = pmm.clearFrames.card) :
    (1 ≤ (pmm.takeFrame f).lastFrame ∧
        (pmm.takeFrame f).lastFrame ≤ (pmm.takeFrame f).totalFrames) ∧
      (pmm.takeFrame f).freeFrames = (pmm.takeFrame f).clearFrames.card := by
  refine ⟨⟨by simp [takeFrame], ?_⟩, ?_⟩
  · simpa [takeFrame] using Nat.succ_le_of_lt (lt_of_clear clear)
  · rw [clearFrames_takeFrame clear, Finset.card_erase_of_mem (mem_clearFrames.mpr clear), ← counted]
    rfl

theorem freeFrame_counts {pmm : PhysicalMemoryManager} (frame : addr / pageSize = f)
    (positive : 1 ≤ f) (inside : f < pmm.totalFrames) (used : pmm.testBit f = true)
    (cursor : 1 ≤ pmm.lastFrame ∧ pmm.lastFrame ≤ pmm.totalFrames)
    (counted : pmm.freeFrames = pmm.clearFrames.card) :
    (1 ≤ (pmm.freeFrame addr).lastFrame ∧
        (pmm.freeFrame addr).lastFrame ≤ (pmm.freeFrame addr).totalFrames) ∧
      (pmm.freeFrame addr).freeFrames = (pmm.freeFrame addr).clearFrames.card := by
  constructor
  · simp only [freeFrame_eq frame inside used, setBit_totalFrames]
    split <;> omega
  · have absent : f ∉ pmm.clearFrames := by simp [used]
    rw [clearFrames_freeFrame (frame ▸ inside), frame, Finset.card_insert_of_notMem absent,
      ← counted, freeFrame_eq frame inside used]

end PhysicalMemoryManager

open PhysicalMemoryManager

/-- A pmm together with the frames handed out and not yet given back. -/
structure FrameHistory where
  pmm : PhysicalMemoryManager
  live : List Nat

inductive FrameOp where
  | alloc
  | allocContiguous (count : Nat)
  | free (physAddr : Nat)

/-- One request. A free is only a step when its frame is currently handed out. -/
def FrameHistory.step (history : FrameHistory) : FrameOp → Option FrameHistory
  | .alloc =>
    match history.pmm.allocFrame with
    | (some addr, pmm) => some ⟨pmm, addr / pageSize :: history.live⟩
    | (none, pmm) => some ⟨pmm, history.live⟩
  | .allocContiguous count =>
    match history.pmm.allocContiguousFrames count with
    | (some addr, pmm) => some ⟨pmm, List.range' (addr / pageSize) count ++ history.live⟩
    | (none, pmm) => some ⟨pmm, history.live⟩
  | .free physAddr =>
    if physAddr / pageSize ∈ history.live then
      some ⟨history.pmm.freeFrame physAddr, history.live.erase (physAddr / pageSize)⟩
    else none

/-- The states the allocator may be started in. -/
structure PhysicalMemoryManager.Boot (pmm : PhysicalMemoryManager) : Prop where
  frameZero : pmm.testBit 0 = true
  cursor : 1 ≤ pmm.lastFrame ∧ pmm.lastFrame ≤ pmm.totalFrames
  counted : pmm.freeFrames = pmm.clearFrames.card

theorem PhysicalMemoryManager.Boot.takeFrame {pmm : PhysicalMemoryManager} (boot : pmm.Boot)
    (clear : pmm.testBit f = false) : (pmm.takeFrame f).Boot where
  frameZero := by
    rw [testBit_takeFrame clear]
    split
    · rfl
    · exact boot.frameZero
  cursor := (takeFrame_counts clear boot.counted).1
  counted := (takeFrame_counts clear boot.counted).2

theorem PhysicalMemoryManager.Boot.freeFrame {pmm : PhysicalMemoryManager} (boot : pmm.Boot)
    (positive : 1 ≤ addr / pageSize) (inside : addr / pageSize < pmm.totalFrames)
    (used : pmm.testBit (addr / pageSize) = true) : (pmm.freeFrame addr).Boot where
  frameZero := by
    rw [testBit_freeFrame pmm addr 0 inside, if_neg (by omega)]
    exact boot.frameZero
  cursor := (freeFrame_counts rfl positive inside used boot.cursor boot.counted).1
  counted := (freeFrame_counts rfl positive inside used boot.cursor boot.counted).2

theorem PhysicalMemoryManager.Boot.freeFrames_takeFrame {pmm : PhysicalMemoryManager}
    (boot : pmm.Boot) (clear : pmm.testBit f = false) :
    (pmm.takeFrame f).freeFrames + 1 = pmm.freeFrames := by
  have member : f ∈ pmm.clearFrames := mem_clearFrames.mpr clear
  have positive := Finset.card_pos.mpr ⟨f, member⟩
  rw [(takeFrame_counts clear boot.counted).2, clearFrames_takeFrame clear,
    Finset.card_erase_of_mem member, boot.counted]
  omega

theorem PhysicalMemoryManager.Boot.freeFrames_exhausted {pmm : PhysicalMemoryManager}
    (boot : pmm.Boot) (full : ∀ f, 1 ≤ f → pmm.testBit f = true) : pmm.freeFrames = 0 := by
  rw [boot.counted, Finset.card_eq_zero, Finset.eq_empty_iff_forall_notMem]
  intro f member
  rw [mem_clearFrames] at member
  by_cases zero : f = 0
  · rw [zero, boot.frameZero] at member
    exact nomatch member
  · rw [full f (by omega)] at member
    exact nomatch member

/-- Used frames are exactly those used at the start and those handed out since. -/
structure FrameInvariant (initial : PhysicalMemoryManager) (history : FrameHistory) : Prop where
  total : history.pmm.totalFrames = initial.totalFrames
  cursor : 1 ≤ history.pmm.lastFrame ∧ history.pmm.lastFrame ≤ history.pmm.totalFrames
  counted : history.pmm.freeFrames = history.pmm.clearFrames.card
  distinct : history.live.Nodup
  fresh : ∀ f ∈ history.live, initial.testBit f = false
  used : ∀ f, history.pmm.testBit f = true ↔ initial.testBit f = true ∨ f ∈ history.live

namespace FrameInvariant

variable {initial : PhysicalMemoryManager} {history : FrameHistory}

theorem start (boot : initial.Boot) : FrameInvariant initial ⟨initial, []⟩ where
  total := rfl
  cursor := boot.cursor
  counted := boot.counted
  distinct := List.nodup_nil
  fresh := by simp
  used := by simp

theorem clear_iff (valid : FrameInvariant initial history) (f : Nat) :
    history.pmm.testBit f = false ↔ initial.testBit f = false ∧ f ∉ history.live := by
  have used := valid.used f
  cases now : history.pmm.testBit f <;> cases before : initial.testBit f <;> simp_all

theorem takeFrame (valid : FrameInvariant initial history)
    (clear : history.pmm.testBit f = false) :
    FrameInvariant initial ⟨history.pmm.takeFrame f, f :: history.live⟩ := by
  obtain ⟨unused, absent⟩ := (valid.clear_iff f).mp clear
  have counts := takeFrame_counts clear valid.counted
  refine ⟨by simpa using valid.total, counts.1, counts.2, ?_, ?_, ?_⟩
  · exact List.nodup_cons.mpr ⟨absent, valid.distinct⟩
  · intro g member
    rcases List.mem_cons.mp member with same | old
    · subst g; exact unused
    · exact valid.fresh g old
  · intro g
    rw [testBit_takeFrame clear, List.mem_cons]
    by_cases same : f = g
    · simp [same]
    · simp [same, Ne.symm same, valid.used g]

theorem takeRun (valid : FrameInvariant initial history)
    (clear : history.pmm.ClearRun first count) :
    FrameInvariant initial
      ⟨history.pmm.takeRun first count, List.range' first count ++ history.live⟩ := by
  have member (g : Nat) : g ∈ List.range' first count ↔ first ≤ g ∧ g < first + count :=
    List.mem_range'_1
  refine ⟨by simpa [PhysicalMemoryManager.takeRun] using valid.total,
    by simpa [PhysicalMemoryManager.takeRun] using valid.cursor, ?_, ?_, ?_, ?_⟩
  · have subset : Finset.Ico first (first + count) ⊆ history.pmm.clearFrames := by
      intro g present
      obtain ⟨lower, upper⟩ := Finset.mem_Ico.mp present
      exact mem_clearFrames.mpr (clear g lower upper)
    rw [clearFrames_takeRun, Finset.card_sdiff_of_subset subset, Nat.card_Ico,
      Nat.add_sub_cancel_left, ← valid.counted]
    rfl
  · refine List.nodup_append.mpr ⟨List.nodup_range', valid.distinct, ?_⟩
    intro g new h old same
    subst h
    obtain ⟨lower, upper⟩ := (member g).mp new
    exact ((valid.clear_iff g).mp (clear g lower upper)).2 old
  · intro g present
    rcases List.mem_append.mp present with new | old
    · obtain ⟨lower, upper⟩ := (member g).mp new
      exact ((valid.clear_iff g).mp (clear g lower upper)).1
    · exact valid.fresh g old
  · intro g
    have read : (history.pmm.takeRun first count).testBit g =
      (history.pmm.setRun first count).testBit g := rfl
    rw [read, testBit_setRun, List.mem_append, member]
    by_cases new : first ≤ g ∧ g < first + count
    · simp [new]
    · simp [new, valid.used g]

theorem freeFrame (valid : FrameInvariant initial history) (boot : initial.Boot)
    (handed : addr / pageSize ∈ history.live) :
    FrameInvariant initial
      ⟨history.pmm.freeFrame addr, history.live.erase (addr / pageSize)⟩ := by
  generalize frame : addr / pageSize = f at handed
  have unused := valid.fresh f handed
  have bit : history.pmm.testBit f = true := (valid.used f).mpr (.inr handed)
  have inside : f < history.pmm.totalFrames := valid.total ▸ lt_of_clear unused
  have positive : f ≠ 0 := by
    rintro rfl
    simp [boot.frameZero] at unused
  have read (g : Nat) : (history.pmm.freeFrame addr).testBit g =
      if f = g then false else history.pmm.testBit g :=
    frame ▸ testBit_freeFrame history.pmm addr g (frame ▸ inside)
  have freed := freeFrame_counts frame (by omega) inside bit valid.cursor valid.counted
  refine ⟨(freeFrame_totalFrames ..).trans valid.total, freed.1, freed.2, valid.distinct.erase f,
    ?_, ?_⟩
  · intro g member
    exact valid.fresh g (List.mem_of_mem_erase member)
  · intro g
    rw [read, valid.distinct.mem_erase_iff]
    by_cases same : f = g
    · subst g; simp [unused]
    · simp [same, Ne.symm same, valid.used g]

theorem alloc (valid : FrameInvariant initial history)
    (taken : history.pmm.allocFrame = (some addr, pmm)) :
    FrameInvariant initial ⟨pmm, addr / pageSize :: history.live⟩ := by
  obtain ⟨f, rfl, _, clear, rfl⟩ := allocFrame_some valid.cursor.1 taken
  simpa [pageSize] using valid.takeFrame clear

theorem step (valid : FrameInvariant initial history) (boot : initial.Boot)
    (next : history.step op = some after) : FrameInvariant initial after := by
  cases op with
  | alloc =>
    simp only [FrameHistory.step] at next
    split at next
    · rename_i taken
      obtain rfl := Option.some.inj next
      exact valid.alloc taken
    · rename_i failed
      obtain ⟨rfl, _⟩ := allocFrame_none failed
      obtain rfl := Option.some.inj next
      exact valid
  | allocContiguous count =>
    simp only [FrameHistory.step] at next
    match count with
    | 0 =>
      obtain rfl := Option.some.inj next
      exact valid
    | 1 =>
      split at next
      · rename_i taken
        obtain rfl := Option.some.inj next
        simpa using valid.alloc taken
      · rename_i failed
        obtain ⟨rfl, _⟩ := allocFrame_none failed
        obtain rfl := Option.some.inj next
        exact valid
    | count + 2 =>
      split at next
      · rename_i taken
        obtain ⟨first, rfl, _, _, clear, rfl⟩ := allocContiguousFrames_some (by omega) taken
        obtain rfl := Option.some.inj next
        simpa [pageSize] using valid.takeRun clear
      · rename_i failed
        obtain ⟨rfl, _⟩ := allocContiguousFrames_none (by omega) failed
        obtain rfl := Option.some.inj next
        exact valid
  | free physAddr =>
    simp only [FrameHistory.step] at next
    split at next
    · rename_i handed
      obtain rfl := Option.some.inj next
      exact valid.freeFrame boot handed
    · cases next

end FrameInvariant

namespace PhysicalMemoryManager

theorem allocFrame_eq_none_iff {pmm : PhysicalMemoryManager} (cursor : 1 ≤ pmm.lastFrame) :
    pmm.allocFrame.1 = none ↔ ∀ f, 1 ≤ f → f < pmm.totalFrames → pmm.testBit f = true := by
  cases result : pmm.allocFrame with
  | mk found after =>
    cases found with
    | none => simpa using fun f positive _ => (allocFrame_none result).2 f positive
    | some addr =>
      obtain ⟨f, _, positive, clear, _⟩ := allocFrame_some cursor result
      refine ⟨fun missing => by simp at missing, fun full => ?_⟩
      have set := full f positive (lt_of_clear clear)
      simp [clear] at set

/-- A granted request of any positive size: the run was clear and is now set. -/
theorem allocContiguousFrames_grants {pmm after : PhysicalMemoryManager}
    (cursor : 1 ≤ pmm.lastFrame) (positive : 1 ≤ count)
    (taken : pmm.allocContiguousFrames count = (some addr, after)) :
    ∃ first, addr = first * pageSize ∧ 1 ≤ first ∧ first + count ≤ pmm.totalFrames ∧
      pmm.ClearRun first count ∧ ∀ f, first ≤ f → f < first + count → after.testBit f = true := by
  by_cases single : count = 1
  · subst count
    obtain ⟨f, same, lower, clear, rfl⟩ := allocFrame_some cursor taken
    refine ⟨f, same, lower, lt_of_clear clear, ?_, ?_⟩
    · intro g above below
      obtain rfl : f = g := by omega
      exact clear
    · intro g above below
      obtain rfl : f = g := by omega
      simp [testBit_takeFrame clear]
  · obtain ⟨first, same, lower, upper, clear, rfl⟩ :=
      allocContiguousFrames_some (by omega) taken
    refine ⟨first, same, lower, upper, clear, fun f above below => ?_⟩
    have written := testBit_setRun pmm first count f
    rw [if_pos ⟨above, below⟩] at written
    exact written

theorem allocContiguousFrames_isSome_iff {pmm : PhysicalMemoryManager}
    (cursor : 1 ≤ pmm.lastFrame) (positive : 1 ≤ count) :
    (pmm.allocContiguousFrames count).1.isSome ↔
      ∃ first, 1 ≤ first ∧ first + count ≤ pmm.totalFrames ∧ pmm.ClearRun first count := by
  cases result : pmm.allocContiguousFrames count with
  | mk found after =>
    cases found with
    | some addr =>
      obtain ⟨first, _, lower, upper, clear, _⟩ :=
        allocContiguousFrames_grants cursor positive result
      simpa using ⟨first, lower, upper, clear⟩
    | none =>
      refine ⟨fun granted => by simp at granted, fun ⟨first, lower, upper, clear⟩ => ?_⟩
      by_cases single : count = 1
      · subst count
        have set := (allocFrame_none result).2 first lower
        simp [clear first (Nat.le_refl _) (by omega)] at set
      · exact absurd clear ((allocContiguousFrames_none (by omega) result).2 first lower upper)

end PhysicalMemoryManager

/-- What the allocator promises in a state reached from `initial`. -/
structure AllocatorSound (initial : PhysicalMemoryManager) (history : FrameHistory) : Prop where
  counted : history.pmm.freeFrames = history.pmm.clearFrames.card
  disjoint : history.live.Nodup
  neverReserved : ∀ f ∈ history.live, f ≠ 0 ∧ initial.testBit f = false
  grantsFresh : ∀ addr pmm, history.pmm.allocFrame = (some addr, pmm) →
    ∃ f, addr = f * pageSize ∧ f ≠ 0 ∧ initial.testBit f = false ∧ f ∉ history.live
  exhausted : history.pmm.allocFrame.1 = none ↔
    ∀ f, 1 ≤ f → f < history.pmm.totalFrames → history.pmm.testBit f = true
  runExists : ∀ count, 1 ≤ count → ((history.pmm.allocContiguousFrames count).1.isSome ↔
    ∃ first, 1 ≤ first ∧ first + count ≤ history.pmm.totalFrames ∧
      history.pmm.ClearRun first count)
  runGranted : ∀ count addr pmm, 1 ≤ count →
    history.pmm.allocContiguousFrames count = (some addr, pmm) →
    ∃ first, addr = first * pageSize ∧ ∀ f, first ≤ f → f < first + count →
      f ≠ 0 ∧ initial.testBit f = false ∧ f ∉ history.live ∧
      history.pmm.testBit f = false ∧ pmm.testBit f = true

/-- Every state reached by any sequence of requests is sound. -/
theorem allocator_sound (initial : PhysicalMemoryManager) (boot : initial.Boot)
    (history : FrameHistory)
    (run : Run FrameHistory.step (fun _ _ => True) ⟨initial, []⟩ history) :
    AllocatorSound initial history := by
  have valid : FrameInvariant initial history :=
    run.invariant (.start boot) (fun _ _ _ valid _ next => valid.step boot next)
  have reserved (f : Nat) (unused : initial.testBit f = false) : f ≠ 0 := by
    rintro rfl
    simp [boot.frameZero] at unused
  refine ⟨valid.counted, valid.distinct, ?_, ?_, allocFrame_eq_none_iff valid.cursor.1,
    fun _ positive => allocContiguousFrames_isSome_iff valid.cursor.1 positive, ?_⟩
  · intro f member
    have unused := valid.fresh f member
    exact ⟨reserved f unused, unused⟩
  · intro addr pmm taken
    obtain ⟨f, same, _, clear, _⟩ := allocFrame_some valid.cursor.1 taken
    obtain ⟨unused, absent⟩ := (valid.clear_iff f).mp clear
    exact ⟨f, same, reserved f unused, unused, absent⟩
  · intro count addr pmm positive taken
    obtain ⟨first, same, _, _, clear, set⟩ :=
      allocContiguousFrames_grants valid.cursor.1 positive taken
    refine ⟨first, same, fun f above below => ?_⟩
    obtain ⟨unused, absent⟩ := (valid.clear_iff f).mp (clear f above below)
    exact ⟨reserved f unused, unused, absent, clear f above below, set f above below⟩

/-- Eight frames, the first two in use. -/
def smallPmm : PhysicalMemoryManager where
  bitmap := fun _ => 0b00000011#8
  totalFrames := 8
  freeFrames := 6
  lastFrame := 1

/-- The allocator is sound after it handed out one frame and then a run of three. -/
theorem allocator_sound_small :
    ∃ history, FrameHistory.step ⟨smallPmm, []⟩ .alloc = some history ∧
      ∃ last, history.step (.allocContiguous 3) = some last ∧ last.live = [3, 4, 5, 2] ∧
        AllocatorSound smallPmm last := by
  refine ⟨_, rfl, _, rfl, by decide, ?_⟩
  refine allocator_sound smallPmm ⟨by decide, by decide, by decide⟩ _ ?_
  exact (Run.start.step .alloc trivial rfl).step (.allocContiguous 3) trivial rfl

end RustPosix.Mm
