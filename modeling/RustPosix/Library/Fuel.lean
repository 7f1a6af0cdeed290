import Mathlib

/-! Functions that are given fuel, and the result that they come to with enough of it. -/

namespace RustPosix.Library

universe u

/-- With enough fuel the result does not change any more. -/
def Settles {α : Type u} (run : Nat → α) (result : α) : Prop :=
  ∃ enough, ∀ fuel, enough ≤ fuel → run fuel = result

namespace Settles

variable {α β ε : Type u} {run : Nat → α} {result other : α}

theorem const : Settles (fun _ => result) result := ⟨0, fun _ _ => rfl⟩

theorem unique (settles : Settles run result) (settles' : Settles run other) : result = other := by
  obtain ⟨enough, same⟩ := settles
  obtain ⟨enough', same'⟩ := settles'
  exact (same _ (Nat.le_max_left enough enough')).symm.trans (same' _ (Nat.le_max_right ..))

theorem map {γ : Type u} (settles : Settles run result) (change : α → γ) :
    Settles (fun fuel => change (run fuel)) (change result) := by
  obtain ⟨enough, same⟩ := settles
  exact ⟨enough, fun fuel more => congrArg change (same fuel more)⟩

/-- A function that needs one more unit than another. -/
theorem of_succ (settles : Settles (fun fuel => run (fuel + 1)) result) : Settles run result := by
  obtain ⟨enough, same⟩ := settles
  refine ⟨enough + 1, fun fuel more => ?_⟩
  obtain ⟨fuel, rfl⟩ := Nat.exists_eq_add_of_le' (Nat.le_trans (Nat.le_add_left 1 enough) more)
  exact same fuel (Nat.le_of_succ_le_succ more)

theorem bind {first : Nat → Except ε α} {next : Nat → α → Except ε β} {last : Except ε β}
    (settles : Settles first (.ok result)) (rest : Settles (fun fuel => next fuel result) last) :
    Settles (fun fuel => first fuel >>= next fuel) last := by
  obtain ⟨enough, same⟩ := settles
  obtain ⟨enough', same'⟩ := rest
  refine ⟨max enough enough', fun fuel more => ?_⟩
  dsimp only
  rw [same fuel (Nat.le_trans (Nat.le_max_left ..) more)]
  exact same' fuel (Nat.le_trans (Nat.le_max_right ..) more)

theorem bind_error {first : Nat → Except ε α} {next : Nat → α → Except ε β} {problem : ε}
    (settles : Settles first (.error problem)) :
    Settles (fun fuel => first fuel >>= next fuel) (.error problem) := by
  obtain ⟨enough, same⟩ := settles
  refine ⟨enough, fun fuel more => ?_⟩
  dsimp only
  rw [same fuel more]
  rfl

end Settles

end RustPosix.Library
