import Mathlib

/-! Strictly sorted lists that change behind a position: what stands before it stays. -/

namespace RustPosix.Library

universe u

variable {α : Type u} {r : α → α → Prop} [Std.Irrefl r] [Std.Antisymm r] {front back list : List α}

/-- A sorted list begins with `front` if it has the elements of `front`, and all its other
elements come after them. -/
theorem exists_eq_append_of_sorted (sorted : list.Pairwise r) (frontSorted : front.Pairwise r)
    (among : ∀ element ∈ front, element ∈ list)
    (behind : ∀ element ∈ list, element ∉ front → ∀ earlier ∈ front, r earlier element) :
    ∃ back, list = front ++ back := by
  classical
  refine ⟨list.filter (· ∉ front), sorted.eq_of_mem_iff ?_ ?_⟩
  · refine List.pairwise_append.mpr ⟨frontSorted, sorted.filter _, ?_⟩
    intro earlier inFront element inBack
    obtain ⟨inList, outside⟩ := List.mem_filter.mp inBack
    exact behind element inList (of_decide_eq_true outside) earlier inFront
  · intro element
    rw [List.mem_append, List.mem_filter, decide_eq_true_eq]
    constructor
    · intro inList
      by_cases inFront : element ∈ front
      · exact Or.inl inFront
      · exact Or.inr ⟨inList, inFront⟩
    · rintro (inFront | ⟨inList, _⟩)
      · exact among element inFront
      · exact inList

/-- If only elements behind the front come and go, the front stays. -/
theorem exists_eq_append_of_touched (sorted : (front ++ back).Pairwise r)
    (sorted' : list.Pairwise r) {touched : α → Prop}
    (behind : ∀ element, touched element → ∀ earlier ∈ front, r earlier element)
    (same : ∀ element, ¬ touched element → (element ∈ list ↔ element ∈ front ++ back)) :
    ∃ back, list = front ++ back := by
  obtain ⟨frontSorted, _, across⟩ := List.pairwise_append.mp sorted
  apply exists_eq_append_of_sorted sorted' frontSorted
  · intro element inFront
    have untouched : ¬ touched element := fun touches =>
      Std.Irrefl.irrefl element (behind element touches element inFront)
    exact (same element untouched).mpr (List.mem_append_left back inFront)
  · intro element inList outside earlier inFront
    by_cases touches : touched element
    · exact behind element touches earlier inFront
    · rcases List.mem_append.mp ((same element touches).mp inList) with inside | inBack
      · exact (outside inside).elim
      · exact across earlier inFront element inBack

end RustPosix.Library
