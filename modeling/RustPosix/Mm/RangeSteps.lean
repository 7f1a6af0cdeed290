import RustPosix.Mm.PageSteps

/-! The loops over consecutive pages: unmapping, mapping with rollback, storing
and changing protection. -/

namespace RustPosix.Mm

open Library

/-- `addr` lies in one of `count` pages from `base` on. -/
def InPages (base count addr : Nat) : Prop := base ≤ addr ∧ addr < base + count * pageSize

instance : Decidable (InPages base count addr) := inferInstanceAs (Decidable (_ ∧ _))

section Pages

variable {base count addr : Nat}

theorem not_inPages_zero : ¬ InPages base 0 addr := by
  simp only [InPages]; omega

theorem inPages_succ (aligned : base % pageSize = 0) :
    InPages base (count + 1) addr ↔
      InPages base count addr ∨ addr / pageSize = (base + count * pageSize) / pageSize := by
  simp only [InPages, pageSize] at *
  omega

theorem not_inPages_next (aligned : base % pageSize = 0)
    (here : addr / pageSize = (base + count * pageSize) / pageSize) : ¬ InPages base count addr := by
  simp only [InPages, pageSize] at *
  omega

theorem alignDown_of_aligned (aligned : base % pageSize = 0) : alignDown base = base := by
  simp only [alignDown, pageSize] at *
  omega

theorem pageAddr_eq (inside : base + count * pageSize < userSpaceEnd) :
    VmSpace.pageAddr base count = some (base + count * pageSize) := by
  simp only [userSpaceEnd] at inside
  rw [VmSpace.pageAddr, checkedMul, if_pos (by omega), Option.bind_some, checkedAdd,
    if_pos (by omega)]

end Pages

/-- The pages of a range are gone. -/
structure Cleared (root base count : Nat) (before after : Machine) : Prop where
  change : Change root before after
  balanced : Balanced root before after
  leaves : ∀ other < userSpaceEnd, leafAt after.mem root other =
    if InPages base count other then none else leafAt before.mem root other
  bytes : ∀ other < userSpaceEnd, byteAt after root other =
    if InPages base count other then none else byteAt before root other

theorem unmapRange_spec {root base : Nat} {before : Machine} (tree : PageTree before root)
    (aligned : base % pageSize = 0) (count : Nat)
    (user : base + count * pageSize ≤ userSpaceEnd) :
    Cleared root base count before (VmSpace.unmapRange root base count before) := by
  rw [VmSpace.unmapRange, alignDown_of_aligned aligned]
  induction count with
  | zero =>
    exact ⟨Change.refl tree, fun _ held => held, fun _ _ => by simp [not_inPages_zero],
      fun _ _ => by simp [not_inPages_zero]⟩
  | succ count ih =>
    have step : base + count * pageSize < userSpaceEnd := by
      simp only [pageSize] at *
      omega
    have cleared := ih (Nat.le_of_lt step)
    rw [List.range_succ, List.foldl_append, List.foldl_cons, List.foldl_nil, pageAddr_eq step]
    have unmapped := unmapPage_spec cleared.change.tree step
    refine ⟨cleared.change.trans unmapped.change, cleared.balanced.trans unmapped.balanced, ?_, ?_⟩
    · intro other otherUser
      rw [unmapped.leaves other otherUser, cleared.leaves other otherUser]
      simp only [inPages_succ aligned]
      by_cases here : other / pageSize = (base + count * pageSize) / pageSize <;> simp [here]
    · intro other otherUser
      rw [unmapped.bytes other otherUser, cleared.bytes other otherUser]
      simp only [inPages_succ aligned]
      by_cases here : other / pageSize = (base + count * pageSize) / pageSize <;> simp [here]

/-- No page of the range is mapped. -/
def Unused (mem : Memory) (root base count : Nat) : Prop :=
  ∀ addr < userSpaceEnd, InPages base count addr → leafAt mem root addr = none

/-- The paths hold those to the tables of all pages of a range. -/
structure CoversTables (base count : Nat) (paths : Finset (List Nat)) : Prop where
  valid : TablePaths paths
  listed : ∀ i < count, tablesOf (base + i * pageSize) ⊆ paths

/-- The first pages of a range show fresh zeroed frames. -/
structure Filled (root base count : Nat) (flags : PageFlags) (before after : Machine) : Prop where
  change : Change root before after
  account : Unused before.mem root base count → Balanced root before after
  leaf : ∀ other < userSpaceEnd, InPages base count other →
    ∃ phys, FrameAddr phys ∧ leafAt after.mem root other = some (leafEntry phys flags)
  others : ∀ other < userSpaceEnd, ¬ InPages base count other →
    leafAt after.mem root other = leafAt before.mem root other
  bytes : ∀ other < userSpaceEnd, byteAt after root other =
    if InPages base count other then some 0 else byteAt before root other
  frames : ∀ paths, CoversTables base count paths →
    before.pmm.freeFrames + (missing after.mem root paths).card =
      after.pmm.freeFrames + (missing before.mem root paths).card + count

/-- A failed attempt to fill a range: some of its first pages were mapped and
have been unmapped again, whatever they were before. -/
structure RolledBack (root base count : Nat) (before after : Machine) : Prop where
  change : Change root before after
  account : Unused before.mem root base count → Balanced root before after
  leaves : ∀ other < userSpaceEnd, leafAt after.mem root other =
    if InPages base count other then none else leafAt before.mem root other
  bytes : ∀ other < userSpaceEnd, byteAt after root other =
    if InPages base count other then none else byteAt before root other

section Filling

variable {root base count : Nat} {flags : PageFlags} {before middle after : Machine}

theorem Filled.none (tree : PageTree before root) : Filled root base 0 flags before before :=
  ⟨Change.refl tree, fun _ _ held => held, fun _ _ inside => absurd inside not_inPages_zero,
    fun _ _ _ => rfl, fun _ _ => by simp [not_inPages_zero], fun _ _ => rfl⟩

theorem Unused.mono {mem : Memory} {larger : Nat} (unused : Unused mem root base larger)
    (smaller : count ≤ larger) : Unused mem root base count := by
  intro addr user inside
  refine unused addr user ⟨inside.1, Nat.lt_of_lt_of_le inside.2 ?_⟩
  exact Nat.add_le_add_left (Nat.mul_le_mul_right _ smaller) _

theorem CoversTables.mono {larger : Nat} {paths : Finset (List Nat)}
    (covers : CoversTables base larger paths) (smaller : count ≤ larger) :
    CoversTables base count paths :=
  ⟨covers.valid, fun i inside => covers.listed i (Nat.lt_of_lt_of_le inside smaller)⟩

theorem Filled.next (aligned : base % pageSize = 0) (step : base + count * pageSize < userSpaceEnd)
    (filled : Filled root base count flags before middle)
    (fresh : FreshPage root (base + count * pageSize) flags middle after) :
    Filled root base (count + 1) flags before after := by
  refine ⟨filled.change.trans fresh.change, ?_, ?_, ?_, ?_, ?_⟩
  · intro unused
    refine (filled.account (unused.mono (Nat.le_succ count))).trans (fresh.account ?_)
    have here : (base + count * pageSize) / pageSize = (base + count * pageSize) / pageSize := rfl
    rw [filled.others _ step (not_inPages_next aligned here)]
    exact unused _ step ((inPages_succ aligned).mpr (.inr here))
  · intro other otherUser inside
    by_cases here : other / pageSize = (base + count * pageSize) / pageSize
    · exact fresh.leaf other otherUser here
    · rw [fresh.others other otherUser here]
      exact filled.leaf other otherUser (((inPages_succ aligned).mp inside).resolve_right here)
  · intro other otherUser outside
    rw [inPages_succ aligned, not_or] at outside
    rw [fresh.others other otherUser outside.2, filled.others other otherUser outside.1]
  · intro other otherUser
    rw [fresh.bytes other otherUser, filled.bytes other otherUser]
    simp only [inPages_succ aligned]
    by_cases here : other / pageSize = (base + count * pageSize) / pageSize <;> simp [here]
  · intro paths covers
    have earlier := filled.frames paths (covers.mono (Nat.le_succ count))
    have last := fresh.frames ⟨paths, covers.valid, covers.listed count (Nat.lt_succ_self count)⟩
    dsimp only at last
    omega

/-- A failure right after `count` pages is rolled back. -/
theorem Filled.rollback (aligned : base % pageSize = 0)
    (user : base + count * pageSize ≤ userSpaceEnd)
    (filled : Filled root base count flags before middle) (quiet : Quiet root middle after) :
    RolledBack root base count before (VmSpace.unmapRange root base count after) := by
  have cleared := unmapRange_spec quiet.change.tree aligned count user
  refine ⟨(filled.change.trans quiet.change).trans cleared.change, ?_, ?_, ?_⟩
  · exact fun unused => ((filled.account unused).trans quiet.balanced).trans cleared.balanced
  · intro other otherUser
    rw [cleared.leaves other otherUser]
    split
    · rfl
    · rename_i outside
      rw [quiet.leaves other otherUser, filled.others other otherUser outside]
  · intro other otherUser
    rw [cleared.bytes other otherUser]
    split
    · rfl
    · rename_i outside
      rw [quiet.bytes other otherUser, filled.bytes other otherUser, if_neg outside]

theorem mapPages_spec (aligned : base % pageSize = 0) (remaining : Nat) :
    ∀ count machine, base + (count + remaining) * pageSize ≤ userSpaceEnd →
      Filled root base count flags before machine →
      Yields (VmSpace.mapPages root base flags remaining count machine)
        (fun _ after => Filled root base (count + remaining) flags before after)
        (fun _ after => ∃ reached, reached ≤ count + remaining ∧
          RolledBack root base reached before after) := by
  induction remaining with
  | zero =>
    intro count machine _ filled
    exact filled
  | succ remaining ih =>
    intro count machine user filled
    have tree := filled.change.tree
    have step : base + count * pageSize < userSpaceEnd := by
      simp only [pageSize] at *
      omega
    rw [VmSpace.mapPages, pageAddr_eq step]
    dsimp only
    cases taken : machine.pmm.allocFrame with
    | mk found pmm =>
      cases found with
      | none =>
        obtain ⟨rfl, _⟩ := PhysicalMemoryManager.allocFrame_none taken
        exact ⟨count, by omega, filled.rollback aligned (Nat.le_of_lt step)
          ⟨SamePages.refl tree, fun _ _ => rfl⟩⟩
      | some phys =>
        obtain ⟨frame, rfl, positive, clear, rfl⟩ :=
          PhysicalMemoryManager.allocFrame_some tree.boot.cursor.1 taken
        have mapped := mapPage_zeroFirst tree positive clear step flags
        dsimp only
        split
        · rename_i failed
          exact ⟨count, by omega, filled.rollback aligned (Nat.le_of_lt step)
            (mapped.of_error failed).1⟩
        · rename_i done
          have sum : count + 1 + remaining = count + (remaining + 1) := by omega
          have next := ih (count + 1) _ (sum ▸ user) (filled.next aligned step (mapped.of_ok done))
          rwa [sum] at next

end Filling

section Storing

variable {root virt : Nat} {before middle after : Machine}

theorem Stored.nil (tree : PageTree before root) : Stored root virt [] before before := by
  refine ⟨SamePages.refl tree, fun other _ => (if_neg ?_).symm⟩
  rw [List.length_nil]
  omega

theorem Stored.append {first second : List Byte} (early : Stored root virt first before middle)
    (late : Stored root (virt + first.length) second middle after) :
    Stored root virt (first ++ second) before after := by
  refine ⟨early.toSamePages.trans late.toSamePages, fun other user => ?_⟩
  rw [late.bytes other user, early.bytes other user, List.length_append]
  by_cases inFirst : virt ≤ other ∧ other < virt + first.length
  · rw [if_neg (by omega), if_pos inFirst, if_pos (by omega), List.getElem?_append_left (by omega)]
  · by_cases inSecond : virt + first.length ≤ other ∧ other < virt + first.length + second.length
    · rw [if_pos inSecond, if_pos (by omega), List.getElem?_append_right (by omega)]
      congr 1
      omega
    · rw [if_neg inSecond, if_neg inFirst, if_neg (by omega)]

/-- The loop of `write_bytes_to_space` stores all bytes, or the first of them. -/
theorem writeChunks_spec (passes : Nat) : ∀ virt data machine, PageTree machine root →
    virt + data.length ≤ userSpaceEnd → data.length ≤ passes →
    Yields (VmSpace.writeChunks root passes virt data machine)
      (fun _ after => Stored root virt data machine after)
      (fun _ after => ∃ written, Stored root virt (data.take written) machine after) := by
  induction passes with
  | zero =>
    intro virt data machine tree _ enough
    obtain rfl := List.eq_nil_of_length_eq_zero (Nat.le_zero.mp enough)
    exact Stored.nil tree
  | succ passes ih =>
    intro virt data machine tree user enough
    rw [VmSpace.writeChunks]
    dsimp only
    by_cases empty : data = []
    · subst empty
      exact Stored.nil tree
    · have positive : 0 < data.length := List.length_pos_iff.mpr empty
      have small : virt < userSpaceEnd := by omega
      have fits : ¬ virt ≥ 2 ^ 64 := by
        simp only [userSpaceEnd] at small
        omega
      rw [if_neg empty, if_neg fits]
      generalize amount : min data.length (pageSize - virt % pageSize) = toWrite
      have bounds : 0 < toWrite ∧ toWrite ≤ data.length ∧
          virt % pageSize + toWrite ≤ pageSize := by
        simp only [pageSize] at *
        omega
      cases present : leafAt machine.mem root virt with
      | none =>
        rw [translate_eq, present]
        exact ⟨0, Stored.nil tree⟩
      | some entry =>
        rw [translate_eq, present]
        have taken : (data.take toWrite).length = toWrite := by
          rw [List.length_take]; omega
        have next : virt + (data.take toWrite).length = virt + toWrite := by rw [taken]
        have dropped : (data.drop toWrite).length = data.length - toWrite := List.length_drop
        have stored : Stored root virt (data.take toWrite) machine { machine with
            mem := machine.mem.store (ptePhys entry + virt % pageSize) (data.take toWrite) } :=
          store_spec tree small present (by rw [taken]; exact bounds.2.2)
        refine (ih (virt + toWrite) (data.drop toWrite) _ stored.change.tree (by omega)
          (by omega)).mono ?_ ?_
        · intro _ after rest
          rw [← next] at rest
          have whole := stored.append rest
          rwa [List.take_append_drop] at whole
        · rintro _ after ⟨written, rest⟩
          rw [← next] at rest
          have part := stored.append rest
          rw [← List.take_add] at part
          exact ⟨_, part⟩

end Storing

/-- The pages of a range have new flags. -/
structure Reprotected (root base count : Nat) (flags : PageFlags) (before after : Machine) :
    Prop where
  change : Change root before after
  balanced : Balanced root before after
  leaves : ∀ other < userSpaceEnd, leafAt after.mem root other =
    if InPages base count other then
      (leafAt before.mem root other).map fun entry => leafEntry (ptePhys entry) flags
    else leafAt before.mem root other
  bytes : ∀ other < userSpaceEnd, byteAt after root other = byteAt before root other

theorem protectPages_spec {root base : Nat} {before : Machine} (tree : PageTree before root)
    (aligned : base % pageSize = 0) (flags : PageFlags) (count : Nat)
    (user : base + count * pageSize ≤ userSpaceEnd) :
    Reprotected root base count flags before { before with
      mem := VmSpace.protectPages root base count flags before.mem } := by
  rw [VmSpace.protectPages]
  induction count with
  | zero =>
    exact ⟨Change.refl tree, fun _ held => held, fun _ _ => by simp [not_inPages_zero],
      fun _ _ => rfl⟩
  | succ count ih =>
    have step : base + count * pageSize < userSpaceEnd := by
      simp only [pageSize] at *
      omega
    have done := ih (Nat.le_of_lt step)
    have page := setPageFlags_spec done.change.tree step flags
    rw [List.range_succ, List.foldl_append, List.foldl_cons, List.foldl_nil]
    refine ⟨done.change.trans page.change, done.balanced.trans page.balanced, ?_, ?_⟩
    · intro other otherUser
      have last := page.leaves other otherUser
      have earlier := done.leaves other otherUser
      dsimp only at last earlier ⊢
      rw [last, earlier]
      simp only [inPages_succ aligned]
      by_cases here : other / pageSize = (base + count * pageSize) / pageSize
      · simp [here, not_inPages_next aligned here]
      · simp [here]
    · exact fun other otherUser => (page.bytes other otherUser).trans (done.bytes other otherUser)

end RustPosix.Mm
