import Mathlib

/-! Circular buffers: reading and writing cell by cell around a ring of any size. -/

namespace RustPosix.Library.Ring

universe u

variable {α : Type u} {size : Nat} [NeZero size]

/-- The items from a cell on, and the cell behind them. -/
def readFrom (data : Fin size → α) : Nat → Fin size → List α × Fin size
  | 0, pos => ([], pos)
  | count + 1, pos =>
    let (items, stop) := readFrom data count (pos + 1)
    (data pos :: items, stop)

/-- The cell behind the items written from a cell on, and the new contents. -/
def writeFrom : List α → Fin size → (Fin size → α) → Fin size × (Fin size → α)
  | [], pos, data => (pos, data)
  | item :: rest, pos, data => writeFrom rest (pos + 1) (Function.update data pos item)

/-- The cell a number of steps further. -/
def advance (pos : Fin size) (steps : Nat) : Fin size :=
  ⟨(pos + steps) % size, Nat.mod_lt _ (Nat.pos_of_ne_zero (NeZero.ne size))⟩

section Advance

variable (pos : Fin size)

@[simp] theorem advance_zero : advance pos 0 = pos := by
  apply Fin.ext
  exact Nat.mod_eq_of_lt pos.isLt

theorem advance_next (steps : Nat) : advance (pos + 1) steps = advance pos (steps + 1) := by
  apply Fin.ext
  simp only [advance, Fin.val_add, Fin.val_one', Nat.add_mod_mod, Nat.mod_add_mod]
  congr 1
  omega

theorem advance_advance (first second : Nat) :
    advance (advance pos first) second = advance pos (first + second) := by
  apply Fin.ext
  simp only [advance, Nat.mod_add_mod, Nat.add_assoc]

/-- Fewer steps than cells do not meet. -/
theorem advance_injective {first second : Nat} (firstSmall : first < size)
    (secondSmall : second < size) (same : advance pos first = advance pos second) :
    first = second := by
  have values : (pos + first) % size = (pos + second) % size := congrArg Fin.val same
  have remainders : first % size = second % size := Nat.ModEq.add_left_cancel' pos values
  rwa [Nat.mod_eq_of_lt firstSmall, Nat.mod_eq_of_lt secondSmall] at remainders

end Advance

section Reading

variable {data other : Fin size → α}

theorem readFrom_stop (count : Nat) (pos : Fin size) :
    (readFrom data count pos).2 = advance pos count := by
  induction count generalizing pos with
  | zero => exact (advance_zero pos).symm
  | succ count ih => exact (ih (pos + 1)).trans (advance_next pos count)

theorem readFrom_length (count : Nat) (pos : Fin size) :
    (readFrom data count pos).1.length = count := by
  induction count generalizing pos with
  | zero => rfl
  | succ count ih => exact congrArg (· + 1) (ih (pos + 1))

/-- Reading on from where a read stopped. -/
theorem readFrom_add (first second : Nat) (pos : Fin size) :
    (readFrom data (first + second) pos).1 =
      (readFrom data first pos).1 ++ (readFrom data second (advance pos first)).1 := by
  induction first generalizing pos with
  | zero => simp [readFrom]
  | succ first ih =>
    have next := ih (pos + 1)
    rw [advance_next] at next
    rw [Nat.succ_add]
    exact congrArg (data pos :: ·) next

theorem readFrom_congr {count : Nat} {pos : Fin size}
    (same : ∀ steps < count, data (advance pos steps) = other (advance pos steps)) :
    (readFrom data count pos).1 = (readFrom other count pos).1 := by
  induction count generalizing pos with
  | zero => rfl
  | succ count ih =>
    have first := same 0 (Nat.zero_lt_succ count)
    rw [advance_zero] at first
    have rest : (readFrom data count (pos + 1)).1 = (readFrom other count (pos + 1)).1 := by
      apply ih
      intro steps inside
      rw [advance_next]
      exact same (steps + 1) (Nat.succ_lt_succ inside)
    exact congrArg₂ List.cons first rest

end Reading

section Writing

variable {data : Fin size → α}

theorem writeFrom_stop (items : List α) (pos : Fin size) :
    (writeFrom items pos data).1 = advance pos items.length := by
  induction items generalizing pos data with
  | nil => exact (advance_zero pos).symm
  | cons item rest ih => exact (ih (pos + 1)).trans (advance_next pos rest.length)

/-- A write changes no cell it does not come to. -/
theorem writeFrom_other {items : List α} {pos cell : Fin size}
    (apart : ∀ steps < items.length, advance pos steps ≠ cell) :
    (writeFrom items pos data).2 cell = data cell := by
  induction items generalizing pos data with
  | nil => rfl
  | cons item rest ih =>
    have first := apart 0 (Nat.zero_lt_succ _)
    rw [advance_zero] at first
    have kept : (writeFrom rest (pos + 1) (Function.update data pos item)).2 cell =
        Function.update data pos item cell := by
      apply ih
      intro steps inside
      rw [advance_next]
      exact apart (steps + 1) (Nat.succ_lt_succ inside)
    exact kept.trans (Function.update_of_ne (Ne.symm first) ..)

/-- A write that fits into the ring is read back. -/
theorem readFrom_writeFrom {items : List α} (fits : items.length ≤ size) (pos : Fin size) :
    (readFrom (writeFrom items pos data).2 items.length pos).1 = items := by
  induction items generalizing pos data with
  | nil => rfl
  | cons item rest ih =>
    have small : rest.length + 1 ≤ size := fits
    have first : (writeFrom rest (pos + 1) (Function.update data pos item)).2 pos = item := by
      rw [writeFrom_other]
      · exact Function.update_self ..
      · intro steps inside same
        rw [advance_next] at same
        have zero := advance_injective pos (by omega) (by omega) (same.trans (advance_zero pos).symm)
        exact Nat.succ_ne_zero steps zero
    exact congrArg₂ List.cons first (ih (Nat.le_of_succ_le small) (pos + 1))

end Writing

end RustPosix.Library.Ring
