import RustPosix.Library.Run

/-! The bitmap frame allocator of `ostd/mm/pmm.rs`: next-fit single frames with
a moving cursor, first-fit runs, and frees that pull the cursor back. -/

namespace RustPosix.Mm

/-- Architectural page size in bytes. -/
def pageSize : Nat := 4096

theorem mul_pageSize_div (frame : Nat) : frame * pageSize / pageSize = frame :=
  Nat.mul_div_cancel _ (by decide)

/-- The buffer behind `bitmap` is kept as its bytes; one bit stands for one
frame and a set bit for a used frame. -/
structure PhysicalMemoryManager where
  bitmap : Nat → BitVec 8
  totalFrames : Nat
  freeFrames : Nat
  lastFrame : Nat

namespace PhysicalMemoryManager

def setBit (pmm : PhysicalMemoryManager) (frameIdx : Nat) (used : Bool) :
    PhysicalMemoryManager :=
  if frameIdx ≥ pmm.totalFrames then pmm
  else
    let byteIdx := frameIdx / 8
    let bitIdx := frameIdx % 8
    let byte := pmm.bitmap byteIdx
    let written := if used then byte ||| (1#8 <<< bitIdx) else byte &&& ~~~(1#8 <<< bitIdx)
    { pmm with bitmap := fun idx => if idx = byteIdx then written else pmm.bitmap idx }

/-- Out-of-range frames read as used. -/
def testBit (pmm : PhysicalMemoryManager) (frameIdx : Nat) : Bool :=
  if frameIdx ≥ pmm.totalFrames then true
  else (pmm.bitmap (frameIdx / 8) &&& (1#8 <<< (frameIdx % 8))) != 0#8

/-- The body shared by the two loops of `alloc_frame` once a clear bit is found. -/
def takeFrame (pmm : PhysicalMemoryManager) (frame : Nat) : PhysicalMemoryManager :=
  { pmm.setBit frame true with
    freeFrames := pmm.freeFrames - 1
    lastFrame := frame + 1 }

def allocFrame (pmm : PhysicalMemoryManager) : Option Nat × PhysicalMemoryManager :=
  let start := pmm.lastFrame
  match (List.range' start (pmm.totalFrames - start)).find? (fun f => !pmm.testBit f) with
  | some f => (some (f * pageSize), pmm.takeFrame f)
  | none =>
    match (List.range' 1 (start - 1)).find? (fun f => !pmm.testBit f) with
    | some f => (some (f * pageSize), pmm.takeFrame f)
    | none => (none, pmm)

/-- `for idx in run_start..(run_start + count) { self.set_bit(idx, true) }`. -/
def setRun (pmm : PhysicalMemoryManager) (runStart count : Nat) : PhysicalMemoryManager :=
  (List.range' runStart count).foldl (fun pmm idx => pmm.setBit idx true) pmm

/-- What the scanner does to the pmm once its run is complete. -/
def takeRun (pmm : PhysicalMemoryManager) (first count : Nat) : PhysicalMemoryManager :=
  { pmm.setRun first count with freeFrames := pmm.freeFrames - count }

/-- The run scanner over the frames still ahead, with its two accumulators. -/
def scanRuns (pmm : PhysicalMemoryManager) (count : Nat) :
    List Nat → (runStart runLen : Nat) → Option Nat × PhysicalMemoryManager
  | [], _, _ => (none, pmm)
  | f :: rest, runStart, runLen =>
    if !pmm.testBit f then
      let runStart := if runLen = 0 then f else runStart
      let runLen := runLen + 1
      if runLen = count then
        (some (runStart * pageSize), pmm.takeRun runStart count)
      else scanRuns pmm count rest runStart runLen
    else scanRuns pmm count rest runStart 0

def allocContiguousFrames (pmm : PhysicalMemoryManager) (count : Nat) :
    Option Nat × PhysicalMemoryManager :=
  if count = 0 then (none, pmm)
  else if count = 1 then pmm.allocFrame
  else pmm.scanRuns count (List.range' 1 (pmm.totalFrames - 1)) 1 0

def freeFrame (pmm : PhysicalMemoryManager) (physAddr : Nat) : PhysicalMemoryManager :=
  let frameIdx := physAddr / pageSize
  if frameIdx < pmm.totalFrames ∧ pmm.testBit frameIdx then
    { pmm.setBit frameIdx false with
      freeFrames := pmm.freeFrames + 1
      lastFrame := if frameIdx < pmm.lastFrame then frameIdx else pmm.lastFrame }
  else pmm

@[simp] theorem setBit_totalFrames (pmm : PhysicalMemoryManager) (f : Nat) (used : Bool) :
    (pmm.setBit f used).totalFrames = pmm.totalFrames := by
  unfold setBit; split <;> rfl

@[simp] theorem setBit_lastFrame (pmm : PhysicalMemoryManager) (f : Nat) (used : Bool) :
    (pmm.setBit f used).lastFrame = pmm.lastFrame := by
  unfold setBit; split <;> rfl

theorem testBit_of_ge {pmm : PhysicalMemoryManager} (outside : pmm.totalFrames ≤ f) :
    pmm.testBit f = true := by
  simp [testBit, outside]

theorem lt_of_clear {pmm : PhysicalMemoryManager} (clear : pmm.testBit f = false) :
    f < pmm.totalFrames := by
  apply Nat.lt_of_not_le
  intro outside
  simp [testBit_of_ge outside] at clear

private theorem oneBit (bit i : Nat) (small : bit < 8) :
    (1#8 <<< bit).getLsbD i = decide (i = bit) := by
  by_cases here : i = bit
  · subst i; simp [small]
  · by_cases below : i < bit
    · simp [below, here]
    · have shifted : i - bit ≠ 0 := by omega
      simp [shifted, here]

/-- The masked comparison of `test_bit` reads exactly one bit of the byte. -/
private theorem masked_ne_zero (byte : BitVec 8) (bit : Nat) (small : bit < 8) :
    ((byte &&& (1#8 <<< bit)) != 0#8) = byte.getLsbD bit := by
  have same : byte &&& (1#8 <<< bit) = 0#8 ↔ byte.getLsbD bit = false := by
    constructor
    · intro zero
      have read := congrArg (fun word => word.getLsbD bit) zero
      simpa [oneBit bit bit small] using read
    · intro clear
      apply BitVec.eq_of_getLsbD_eq
      intro i _
      rw [BitVec.getLsbD_and, oneBit bit i small]
      by_cases here : i = bit
      · subst i; simp [clear]
      · simp [here]
  rw [Bool.eq_iff_iff, bne_iff_ne, ne_eq, same]
  simp

theorem testBit_eq {pmm : PhysicalMemoryManager} (inside : f < pmm.totalFrames) :
    pmm.testBit f = (pmm.bitmap (f / 8)).getLsbD (f % 8) := by
  rw [testBit, if_neg (by omega), masked_ne_zero _ _ (Nat.mod_lt _ (by decide))]

private theorem written_bit (byte : BitVec 8) (bit i : Nat) (used : Bool) (small : bit < 8)
    (inside : i < 8) :
    (if used then byte ||| (1#8 <<< bit) else byte &&& ~~~(1#8 <<< bit)).getLsbD i =
      if bit = i then used else byte.getLsbD i := by
  have bits := oneBit bit i small
  cases used with
  | false =>
    simp only [Bool.false_eq_true, ↓reduceIte, BitVec.getLsbD_and, BitVec.getLsbD_not, bits]
    by_cases here : bit = i
    · simp [here]
    · simp [here, Ne.symm here, inside]
  | true =>
    simp only [↓reduceIte, BitVec.getLsbD_or, bits]
    by_cases here : bit = i
    · simp [here]
    · simp [here, Ne.symm here]

theorem testBit_setBit (pmm : PhysicalMemoryManager) (f g : Nat) (used : Bool) :
    (pmm.setBit f used).testBit g =
      if f = g ∧ f < pmm.totalFrames then used else pmm.testBit g := by
  by_cases inside : g < pmm.totalFrames
  · rw [testBit_eq (by simpa using inside), testBit_eq inside]
    by_cases written : f < pmm.totalFrames
    · unfold setBit
      rw [if_neg (by omega)]
      by_cases sameByte : g / 8 = f / 8
      · have read := written_bit (pmm.bitmap (f / 8)) (f % 8) (g % 8) used
          (Nat.mod_lt _ (by decide)) (Nat.mod_lt _ (by decide))
        have sameFrame : f % 8 = g % 8 ↔ f = g := by omega
        simpa [sameByte, sameFrame, written] using read
      · have differ : f ≠ g := by rintro rfl; exact sameByte rfl
        simp [sameByte, differ]
    · simp [setBit, written, Nat.le_of_not_lt written]
  · have outside := Nat.le_of_not_lt inside
    have differ : ¬ (f = g ∧ f < pmm.totalFrames) := by omega
    rw [testBit_of_ge (by simpa using outside), testBit_of_ge outside, if_neg differ]

@[simp] theorem takeFrame_totalFrames (pmm : PhysicalMemoryManager) (f : Nat) :
    (pmm.takeFrame f).totalFrames = pmm.totalFrames := by
  simp [takeFrame]

theorem testBit_takeFrame {pmm : PhysicalMemoryManager} (clear : pmm.testBit f = false) (g : Nat) :
    (pmm.takeFrame f).testBit g = if f = g then true else pmm.testBit g := by
  have read := testBit_setBit pmm f g true
  simp only [lt_of_clear clear, and_true] at read
  exact read

@[simp] theorem setRun_totalFrames (pmm : PhysicalMemoryManager) (runStart count : Nat) :
    (pmm.setRun runStart count).totalFrames = pmm.totalFrames := by
  unfold setRun
  induction count generalizing runStart pmm with
  | zero => rfl
  | succ count ih => simp [List.range'_succ, ih]

@[simp] theorem setRun_lastFrame (pmm : PhysicalMemoryManager) (runStart count : Nat) :
    (pmm.setRun runStart count).lastFrame = pmm.lastFrame := by
  unfold setRun
  induction count generalizing runStart pmm with
  | zero => rfl
  | succ count ih => simp [List.range'_succ, ih]

theorem testBit_setRun (pmm : PhysicalMemoryManager) (runStart count g : Nat) :
    (pmm.setRun runStart count).testBit g =
      if runStart ≤ g ∧ g < runStart + count then true else pmm.testBit g := by
  unfold setRun
  induction count generalizing runStart pmm with
  | zero => simp [show ¬ (runStart ≤ g ∧ g < runStart) by omega]
  | succ count ih =>
    rw [List.range'_succ, List.foldl_cons, ih, testBit_setBit]
    by_cases later : runStart + 1 ≤ g ∧ g < runStart + 1 + count
    · rw [if_pos later, if_pos (by omega)]
    · rw [if_neg later]
      by_cases first : runStart = g
      · subst g
        by_cases inside : runStart < pmm.totalFrames
        · simp [inside]
        · simp [inside, testBit_of_ge (Nat.le_of_not_lt inside)]
      · rw [if_neg (by omega), if_neg (by omega)]

/-- A free only does something to a frame that is in use. -/
theorem freeFrame_eq {pmm : PhysicalMemoryManager} (frame : addr / pageSize = f)
    (inside : f < pmm.totalFrames) (used : pmm.testBit f = true) :
    pmm.freeFrame addr = { pmm.setBit f false with
      freeFrames := pmm.freeFrames + 1
      lastFrame := if f < pmm.lastFrame then f else pmm.lastFrame } := by
  simp [freeFrame, frame, inside, used]

@[simp] theorem freeFrame_totalFrames (pmm : PhysicalMemoryManager) (addr : Nat) :
    (pmm.freeFrame addr).totalFrames = pmm.totalFrames := by
  simp only [freeFrame]
  split <;> simp

theorem testBit_freeFrame (pmm : PhysicalMemoryManager) (addr g : Nat)
    (inside : addr / pageSize < pmm.totalFrames) :
    (pmm.freeFrame addr).testBit g = if addr / pageSize = g then false else pmm.testBit g := by
  cases used : pmm.testBit (addr / pageSize) with
  | false =>
    have unchanged : pmm.freeFrame addr = pmm := by simp [freeFrame, used]
    rw [unchanged]
    split
    · rename_i same; rw [← same, used]
    · rfl
  | true =>
    rw [freeFrame_eq rfl inside used]
    have written := testBit_setBit pmm (addr / pageSize) g false
    simp only [inside, and_true] at written
    exact written

/-- What a successful `alloc_frame` did: it took one clear frame. -/
theorem allocFrame_some {pmm after : PhysicalMemoryManager} (cursor : 1 ≤ pmm.lastFrame)
    (taken : pmm.allocFrame = (some addr, after)) :
    ∃ f, addr = f * pageSize ∧ 1 ≤ f ∧ pmm.testBit f = false ∧ after = pmm.takeFrame f := by
  simp only [allocFrame] at taken
  split at taken
  · rename_i f found
    obtain ⟨rfl, rfl⟩ : f * pageSize = addr ∧ pmm.takeFrame f = after := by simpa using taken
    have member := List.mem_range'_1.mp (List.mem_of_find?_eq_some found)
    exact ⟨f, rfl, by omega, by simpa using List.find?_some found, rfl⟩
  · split at taken
    · rename_i f found
      obtain ⟨rfl, rfl⟩ : f * pageSize = addr ∧ pmm.takeFrame f = after := by simpa using taken
      have member := List.mem_range'_1.mp (List.mem_of_find?_eq_some found)
      exact ⟨f, rfl, by omega, by simpa using List.find?_some found, rfl⟩
    · simp at taken

/-- What a failing `alloc_frame` saw: no clear frame on either side of the cursor. -/
theorem allocFrame_none {pmm after : PhysicalMemoryManager}
    (failed : pmm.allocFrame = (none, after)) :
    after = pmm ∧ ∀ f, 1 ≤ f → pmm.testBit f = true := by
  simp only [allocFrame] at failed
  split at failed
  · simp at failed
  · rename_i upper
    split at failed
    · simp at failed
    · rename_i lower
      refine ⟨by simpa using failed.symm, fun f positive => ?_⟩
      by_cases inside : f < pmm.totalFrames
      · by_cases ahead : pmm.lastFrame ≤ f
        · have member : f ∈ List.range' pmm.lastFrame (pmm.totalFrames - pmm.lastFrame) :=
            List.mem_range'_1.mpr (by omega)
          simpa using List.find?_eq_none.mp upper f member
        · have member : f ∈ List.range' 1 (pmm.lastFrame - 1) :=
            List.mem_range'_1.mpr (by omega)
          simpa using List.find?_eq_none.mp lower f member
      · exact testBit_of_ge (Nat.le_of_not_lt inside)

/-- A run of `count` clear frames from `first` on. -/
def ClearRun (pmm : PhysicalMemoryManager) (first count : Nat) : Prop :=
  ∀ f, first ≤ f → f < first + count → pmm.testBit f = false

/-- The scanner stands at frame `f` with `runLen` clear frames right behind it.
It finds a run starting no earlier than those frames, or there is none. -/
private theorem scanRuns_spec (pmm : PhysicalMemoryManager) (count ahead : Nat) :
    ∀ f runStart runLen, runLen < count → (runLen ≠ 0 → runStart + runLen = f) →
      runLen ≤ f → (∀ i, f - runLen ≤ i → i < f → pmm.testBit i = false) →
      match pmm.scanRuns count (List.range' f ahead) runStart runLen with
      | (some addr, after) => ∃ first, addr = first * pageSize ∧ f - runLen ≤ first ∧
          first + count ≤ f + ahead ∧ pmm.ClearRun first count ∧ after = pmm.takeRun first count
      | (none, after) => after = pmm ∧
          ∀ first, f - runLen ≤ first → first + count ≤ f + ahead → ¬ pmm.ClearRun first count := by
  induction ahead with
  | zero =>
    intro f runStart runLen short _ _ _
    refine ⟨rfl, fun first lower upper => ?_⟩
    omega
  | succ ahead ih =>
    intro f runStart runLen short adjacent behind clear
    rw [List.range'_succ, scanRuns]
    by_cases bit : pmm.testBit f = false
    · have clear' : ∀ i, f + 1 - (runLen + 1) ≤ i → i < f + 1 → pmm.testBit i = false := by
        intro i lower upper
        by_cases here : i = f
        · subst i; exact bit
        · exact clear i (by omega) (by omega)
      have start : (if runLen = 0 then f else runStart) + (runLen + 1) = f + 1 := by
        split
        · omega
        · have := adjacent (by assumption); omega
      simp only [bit, Bool.not_false, ↓reduceIte]
      by_cases complete : runLen + 1 = count
      · rw [if_pos complete]
        refine ⟨_, rfl, by omega, by omega, ?_, rfl⟩
        intro i lower upper
        exact clear' i (by omega) (by omega)
      · rw [if_neg complete]
        have rest := ih (f + 1) (if runLen = 0 then f else runStart) (runLen + 1)
          (by omega) (fun _ => start) (by omega) clear'
        have bounds : f + 1 - (runLen + 1) = f - runLen ∧ f + 1 + ahead = f + (ahead + 1) := by omega
        simpa only [bounds.1, bounds.2] using rest
    · have used : pmm.testBit f = true := by simpa using bit
      simp only [used, Bool.not_true, Bool.false_eq_true, ↓reduceIte]
      have rest := ih (f + 1) runStart 0 (by omega) (by simp) (by omega) (by omega)
      have sum : f + 1 + ahead = f + (ahead + 1) := by omega
      rw [sum] at rest
      split at rest
      · obtain ⟨first, same, lower, upper, run, result⟩ := rest
        exact ⟨first, same, by omega, upper, run, result⟩
      · obtain ⟨same, absent⟩ := rest
        refine ⟨same, fun first lower upper run => ?_⟩
        by_cases later : f + 1 ≤ first
        · exact absent first (by omega) upper run
        · have covered := run f (by omega) (by omega)
          simp [used] at covered

/-- What a successful request for two or more frames did. -/
theorem allocContiguousFrames_some {pmm after : PhysicalMemoryManager} (several : 2 ≤ count)
    (taken : pmm.allocContiguousFrames count = (some addr, after)) :
    ∃ first, addr = first * pageSize ∧ 1 ≤ first ∧ first + count ≤ pmm.totalFrames ∧
      pmm.ClearRun first count ∧ after = pmm.takeRun first count := by
  rw [allocContiguousFrames, if_neg (by omega), if_neg (by omega)] at taken
  have found := scanRuns_spec pmm count (pmm.totalFrames - 1) 1 1 0 (by omega) (by simp)
    (by omega) (by omega)
  rw [taken] at found
  obtain ⟨first, same, lower, upper, run, result⟩ := found
  have inside := lt_of_clear (run first (Nat.le_refl _) (by omega))
  exact ⟨first, same, by omega, by omega, run, result⟩

theorem allocContiguousFrames_none {pmm after : PhysicalMemoryManager} (several : 2 ≤ count)
    (failed : pmm.allocContiguousFrames count = (none, after)) :
    after = pmm ∧ ∀ first, 1 ≤ first → first + count ≤ pmm.totalFrames →
      ¬ pmm.ClearRun first count := by
  rw [allocContiguousFrames, if_neg (by omega), if_neg (by omega)] at failed
  have absent := scanRuns_spec pmm count (pmm.totalFrames - 1) 1 1 0 (by omega) (by simp)
    (by omega) (by omega)
  rw [failed] at absent
  exact ⟨absent.1, fun first lower upper => absent.2 first (by omega) (by omega)⟩

@[simp] theorem allocContiguousFrames_zero (pmm : PhysicalMemoryManager) :
    pmm.allocContiguousFrames 0 = (none, pmm) := rfl

@[simp] theorem allocContiguousFrames_one (pmm : PhysicalMemoryManager) :
    pmm.allocContiguousFrames 1 = pmm.allocFrame := rfl

end PhysicalMemoryManager

end RustPosix.Mm
