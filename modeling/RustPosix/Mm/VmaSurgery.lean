import RustPosix.Mm.PageTree
import RustPosix.Mm.VmSpace
import RustPosix.Mm.VmaSteps

/-! `remove_vma_range`, `mprotect_range` and `contains_range` as operations on the partial
function that `find_vma` is. -/

namespace RustPosix.Mm

open Library

section Find

variable {vmas : List Vma} {vma : Vma} {addr start stop : Nat}

/-- In an ordered list an address is in at most one area. -/
theorem findVma_eq_some_iff (ordered : Ordered vmas) :
    findVma vmas addr = some vma ↔ vma ∈ vmas ∧ vma.start ≤ addr ∧ addr < vma.stop := by
  constructor
  · intro found
    have covered := List.find?_some found
    simp only [Bool.and_eq_true, decide_eq_true_eq] at covered
    exact ⟨List.mem_of_find?_eq_some found, covered⟩
  · rintro ⟨member, lower, upper⟩
    obtain ⟨before, behind, rfl⟩ := List.append_of_mem member
    refine List.find?_eq_some_iff_append.mpr ⟨by simp [lower, upper], before, behind, rfl, ?_⟩
    intro earlier listed
    have apart := ordered.across listed (List.mem_cons_self ..)
    simp
    omega

/-- What removing a range leaves of an area on the side of an address. -/
def trimVma (start stop addr : Nat) (vma : Vma) : Vma :=
  if addr < start then { vma with stop := min vma.stop start }
  else { vma with start := max vma.start stop }

theorem mem_cutVma_iff (range : start < stop) (outside : ¬ (start ≤ addr ∧ addr < stop))
    (piece : Vma) : (piece ∈ cutVma start stop vma ∧ piece.start ≤ addr ∧ addr < piece.stop) ↔
      (vma.start ≤ addr ∧ addr < vma.stop) ∧ piece = trimVma start stop addr vma := by
  obtain ⟨low, high, attr⟩ := vma
  rw [cutVma, trimVma]
  dsimp only
  by_cases apart : high ≤ start ∨ low ≥ stop
  · rw [if_pos apart, List.mem_singleton]
    constructor
    · rintro ⟨rfl, covered⟩
      refine ⟨covered, ?_⟩
      dsimp only at covered
      split
      · rw [Nat.min_eq_left (by omega)]
      · rw [Nat.max_eq_left (by omega)]
    · rintro ⟨covered, rfl⟩
      split
      · rw [Nat.min_eq_left (by omega)]
        exact ⟨rfl, covered⟩
      · rw [Nat.max_eq_left (by omega)]
        exact ⟨rfl, covered⟩
  · rw [if_neg apart, List.mem_append]
    constructor
    · rintro ⟨left | right, covered⟩
      · split at left
        · obtain rfl := List.mem_singleton.mp left
          dsimp only at covered
          rw [if_pos (by omega), Nat.min_eq_right (by omega)]
          exact ⟨by omega, rfl⟩
        · exact absurd left List.not_mem_nil
      · split at right
        · obtain rfl := List.mem_singleton.mp right
          dsimp only at covered
          rw [if_neg (by omega), Nat.max_eq_right (by omega)]
          exact ⟨by omega, rfl⟩
        · exact absurd right List.not_mem_nil
    · rintro ⟨covered, rfl⟩
      by_cases before : addr < start
      · rw [if_pos before, if_pos (by omega), Nat.min_eq_right (by omega)]
        exact ⟨.inl (List.mem_singleton.mpr rfl), by dsimp only; omega⟩
      · rw [if_neg before, Nat.max_eq_right (by omega)]
        refine ⟨.inr ?_, by dsimp only; omega⟩
        rw [if_pos (by omega)]
        exact List.mem_singleton.mpr rfl

theorem findVma_removeVmas (ordered : Ordered vmas) (range : start < stop) :
    findVma (removeVmas vmas start stop) addr =
      if start ≤ addr ∧ addr < stop then none
      else (findVma vmas addr).map (trimVma start stop addr) := by
  obtain ⟨cut, read⟩ := removeVmas_spec ordered range
  by_cases inside : start ≤ addr ∧ addr < stop
  · rw [if_pos inside]
    have gone := read addr
    rw [if_pos inside, ← findVma_attr] at gone
    exact Option.map_eq_none_iff.mp gone
  · rw [if_neg inside]
    refine Option.ext fun piece => ?_
    rw [findVma_eq_some_iff cut, Option.map_eq_some_iff]
    constructor
    · rintro ⟨member, covered⟩
      obtain ⟨vma, listed, left⟩ := List.mem_flatMap.mp member
      obtain ⟨whole, rfl⟩ := (mem_cutVma_iff range inside piece).mp ⟨left, covered⟩
      exact ⟨vma, (findVma_eq_some_iff ordered).mpr ⟨listed, whole⟩, rfl⟩
    · rintro ⟨vma, found, rfl⟩
      obtain ⟨listed, whole⟩ := (findVma_eq_some_iff ordered).mp found
      obtain ⟨left, covered⟩ := (mem_cutVma_iff range inside _).mpr ⟨whole, rfl⟩
      exact ⟨List.mem_flatMap.mpr ⟨vma, listed, left⟩, covered⟩

/-- The pass over the areas, from the first address that is not known to be covered. -/
theorem containsRange_go_iff : ∀ {vmas : List Vma} {curr : Nat}, Ordered vmas → curr < stop →
    (containsRange.go stop vmas curr = true ↔
      ∀ addr, curr ≤ addr → addr < stop → ∃ vma ∈ vmas, vma.start ≤ addr ∧ addr < vma.stop)
  | [], curr, _, more => by
    refine ⟨nofun, fun covered => ?_⟩
    obtain ⟨_, listed, _⟩ := covered curr (Nat.le_refl _) more
    exact absurd listed List.not_mem_nil
  | vma :: rest, curr, ordered, more => by
    have split : Ordered ([vma] ++ rest) := ordered
    have later : ∀ other ∈ rest, vma.stop ≤ other.start :=
      fun other listed => split.across (List.mem_singleton.mpr rfl) listed
    have valid := ordered.nonempty vma (List.mem_cons_self ..)
    rw [containsRange.go]
    by_cases here : vma.start ≤ curr ∧ vma.stop > curr
    · rw [if_pos here]
      by_cases last : vma.stop ≥ stop
      · rw [if_pos last]
        refine ⟨fun _ addr lower upper => ⟨vma, List.mem_cons_self .., ?_⟩, fun _ => rfl⟩
        omega
      · rw [if_neg last, containsRange_go_iff split.of_append_right (by omega)]
        constructor
        · intro covered addr lower upper
          by_cases inside : addr < vma.stop
          · exact ⟨vma, List.mem_cons_self .., by omega, inside⟩
          · obtain ⟨other, listed, bounds⟩ := covered addr (by omega) upper
            exact ⟨other, List.mem_cons_of_mem _ listed, bounds⟩
        · intro covered addr lower upper
          obtain ⟨other, listed, bounds⟩ := covered addr (by omega) upper
          rcases List.mem_cons.mp listed with rfl | listed
          · omega
          · exact ⟨other, listed, bounds⟩
    · rw [if_neg here, containsRange_go_iff split.of_append_right more]
      constructor
      · intro covered addr lower upper
        obtain ⟨other, listed, bounds⟩ := covered addr lower upper
        exact ⟨other, List.mem_cons_of_mem _ listed, bounds⟩
      · intro covered addr lower upper
        -- An area that starts behind `curr` leaves `curr` itself to nobody.
        obtain ⟨first, listed, bounds⟩ := covered curr (Nat.le_refl _) more
        have reached : vma.stop ≤ curr := by
          rcases List.mem_cons.mp listed with rfl | listed
          · omega
          · have apart := later first listed
            omega
        obtain ⟨other, listed, bounds⟩ := covered addr lower upper
        rcases List.mem_cons.mp listed with rfl | listed
        · omega
        · exact ⟨other, listed, bounds⟩

theorem containsRange_iff (ordered : Ordered vmas) (range : start < stop) :
    containsRange vmas start stop = true ↔
      ∀ addr, start ≤ addr → addr < stop → ∃ vma ∈ vmas, vma.start ≤ addr ∧ addr < vma.stop := by
  rw [containsRange, if_neg (by omega)]
  exact containsRange_go_iff ordered range

end Find

theorem alignUp_user {addr : Nat} (user : addr ≤ userSpaceEnd) : ∃ aligned, alignUp addr = some aligned := by
  rw [alignUp, checkedAdd, if_pos]
  · exact ⟨_, rfl⟩
  · simp only [userSpaceEnd, pageSize] at *
    omega

/-- Removal, change of protection and coverage, for every ordered list of areas and every
range of user space. Of an area that is trimmed or split, an address outside of the range
finds the piece on its side. -/
theorem vma_ranges_exact {state : VmState} {start stop : Nat} (newProt : BitVec 32)
    (ordered : Ordered state.vmas) (range : start < stop) (user : stop ≤ userSpaceEnd) :
    Yields (VmSpace.removeVmaRange start stop state)
      (fun _ after => Ordered after.vmas ∧ ∀ addr, findVma after.vmas addr =
        if start ≤ addr ∧ addr < stop then none
        else (findVma state.vmas addr).map (trimVma start stop addr))
      (fun _ _ => False) ∧
    Yields (VmSpace.mprotectRange start stop newProt state)
      (fun _ after => Ordered after.vmas ∧ ∀ addr, (findVma after.vmas addr).map Span.attr =
        if start ≤ addr ∧ addr < stop then
          (findVma state.vmas addr).map fun vma => ⟨newProt, vma.attr.flags⟩
        else (findVma state.vmas addr).map Span.attr)
      (fun fault after => fault ≠ .panicked ∧ after.vmas = state.vmas) ∧
    (containsRange state.vmas start stop = true ↔
      ∀ addr, start ≤ addr → addr < stop → ∃ vma ∈ state.vmas, vma.start ≤ addr ∧ addr < vma.stop) := by
  obtain ⟨aligned, rounded⟩ := alignUp_user user
  refine ⟨?_, ?_, containsRange_iff ordered range⟩
  · rw [VmSpace.removeVmaRange, if_neg (by omega), rounded]
    exact ⟨(removeVmas_spec ordered range).1, fun _ => findVma_removeVmas ordered range⟩
  · rw [VmSpace.mprotectRange]
    by_cases gap : start ≥ stop ∨ containsRange state.vmas start stop = false
    · rw [if_pos gap]
      exact ⟨nofun, rfl⟩
    · rw [if_neg gap, rounded]
      obtain ⟨kept, read⟩ := protectVmas_spec ordered start stop newProt
      refine ⟨kept, fun addr => ?_⟩
      have here := read addr
      rw [← findVma_attr, ← findVma_attr, Option.map_map] at here
      exact here

/-- The middle of one area and the start of the next are removed and protected. -/
theorem vma_ranges_exact_straddled :
    Yields (VmSpace.removeVmaRange 0x2000 0x4000 ⟨⟨fun _ => 0, ⟨fun _ => 0, 0, 0, 0⟩⟩, 0, straddledVmas⟩)
      (fun _ after => findVma after.vmas 0x1000 = some ⟨0x1000, 0x2000, ⟨5, 2⟩⟩ ∧
        findVma after.vmas 0x3000 = none ∧
        findVma after.vmas 0x4000 = some ⟨0x4000, 0x5000, ⟨3, 2⟩⟩)
      fun _ _ => False := by
  refine (vma_ranges_exact 1 straddledVmas_ordered (by decide) (by decide)).1.mono ?_ fun _ _ => id
  rintro _ after ⟨_, read⟩
  exact ⟨(read _).trans (by decide), (read _).trans (by decide), (read _).trans (by decide)⟩

end RustPosix.Mm
