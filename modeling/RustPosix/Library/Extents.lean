import Mathlib

/-! Pieces of an address space, and the room that disjoint ones take. -/

namespace RustPosix.Library

/-- The addresses from `start` on, `size` of them. -/
structure Extent where
  start : Nat
  size : Nat
  deriving DecidableEq, Repr

namespace Extent

def stop (extent : Extent) : Nat := extent.start + extent.size

/-- No address in common. -/
def Apart (extent other : Extent) : Prop := extent.stop ≤ other.start ∨ other.stop ≤ extent.start

def Within (extent other : Extent) : Prop :=
  other.start ≤ extent.start ∧ extent.stop ≤ other.stop

theorem Apart.symm {extent other : Extent} (apart : extent.Apart other) : other.Apart extent :=
  Or.symm apart

instance : Std.Symm Apart := ⟨fun _ _ => Apart.symm⟩

theorem Within.trans {a b c : Extent} (first : a.Within b) (second : b.Within c) : a.Within c :=
  ⟨Nat.le_trans second.1 first.1, Nat.le_trans first.2 second.2⟩

theorem Apart.mono {a b c : Extent} (apart : b.Apart c) (within : a.Within b) : a.Apart c := by
  rcases apart with before | behind
  · exact Or.inl (Nat.le_trans within.2 before)
  · exact Or.inr (Nat.le_trans behind within.1)

end Extent

def totalSize (extents : List Extent) : Nat := (extents.map Extent.size).sum

@[simp] theorem totalSize_nil : totalSize [] = 0 := rfl

@[simp] theorem totalSize_cons (extent : Extent) (rest : List Extent) :
    totalSize (extent :: rest) = extent.size + totalSize rest := rfl

@[simp] theorem totalSize_append (extents others : List Extent) :
    totalSize (extents ++ others) = totalSize extents + totalSize others := by
  simp [totalSize]

private def cover (extents : List Extent) : Finset Nat :=
  extents.foldr (fun extent rest => Finset.Ico extent.start extent.stop ∪ rest) ∅

private theorem mem_cover {extents : List Extent} {addr : Nat} :
    addr ∈ cover extents ↔ ∃ extent ∈ extents, extent.start ≤ addr ∧ addr < extent.stop := by
  induction extents with
  | nil => simp [cover]
  | cons extent rest ih =>
    have step : cover (extent :: rest) = Finset.Ico extent.start extent.stop ∪ cover rest := rfl
    simp [step, ih]

private theorem card_cover {extents : List Extent} (apart : extents.Pairwise Extent.Apart) :
    (cover extents).card = totalSize extents := by
  induction extents with
  | nil => rfl
  | cons extent rest ih =>
    obtain ⟨first, others⟩ := List.pairwise_cons.mp apart
    have step : cover (extent :: rest) = Finset.Ico extent.start extent.stop ∪ cover rest := rfl
    have disjoint : Disjoint (Finset.Ico extent.start extent.stop) (cover rest) := by
      rw [Finset.disjoint_left]
      intro addr inside other
      obtain ⟨low, high⟩ := Finset.mem_Ico.mp inside
      obtain ⟨other, member, low', high'⟩ := mem_cover.mp other
      rcases first other member with before | behind <;> omega
    rw [step, Finset.card_union_of_disjoint disjoint, ih others, Nat.card_Ico, totalSize_cons,
      Extent.stop, Nat.add_sub_cancel_left]

/-- Disjoint pieces of an extent fit in it together. -/
theorem totalSize_le {extents : List Extent} (whole : Extent)
    (apart : extents.Pairwise Extent.Apart) (within : ∀ extent ∈ extents, extent.Within whole) :
    totalSize extents ≤ whole.size := by
  have inside : cover extents ⊆ Finset.Ico whole.start whole.stop := by
    intro addr member
    obtain ⟨extent, member, low, high⟩ := mem_cover.mp member
    have bounds := within extent member
    exact Finset.mem_Ico.mpr ⟨Nat.le_trans bounds.1 low, Nat.lt_of_lt_of_le high bounds.2⟩
  calc totalSize extents = (cover extents).card := (card_cover apart).symm
    _ ≤ (Finset.Ico whole.start whole.stop).card := Finset.card_le_card inside
    _ = whole.size := by rw [Nat.card_Ico, Extent.stop, Nat.add_sub_cancel_left]

theorem length_mul_le_totalSize {extents : List Extent} {least : Nat}
    (each : ∀ extent ∈ extents, least ≤ extent.size) :
    least * extents.length ≤ totalSize extents := by
  induction extents with
  | nil => exact Nat.le_refl 0
  | cons extent rest ih =>
    have first := each extent List.mem_cons_self
    have others := ih fun extent member => each extent (List.mem_cons_of_mem _ member)
    rw [List.length_cons, Nat.mul_succ, totalSize_cons]
    omega

/-- Disjoint pieces of an extent can stand in its place. -/
theorem pairwise_carve {whole : Extent} {pieces rest : List Extent}
    (apart : (whole :: rest).Pairwise Extent.Apart)
    (within : ∀ piece ∈ pieces, piece.Within whole) (each : pieces.Pairwise Extent.Apart) :
    (pieces ++ rest).Pairwise Extent.Apart := by
  obtain ⟨first, others⟩ := List.pairwise_cons.mp apart
  refine List.pairwise_append.mpr ⟨each, others, ?_⟩
  intro piece member other behind
  exact (first other behind).mono (within piece member)

end RustPosix.Library
