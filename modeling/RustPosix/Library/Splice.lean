import Mathlib

/-! Fields of a block: reading the elements between two positions, and writing a block
over the elements from a position on. -/

namespace RustPosix.Library

universe u

variable {α : Type u} {block field : List α} {lo hi start : Nat}

/-- The elements of a block from `lo` up to `hi`. -/
def slice (block : List α) (lo hi : Nat) : List α := (block.take hi).drop lo

/-- A block with `field` written over its elements from `start` on. -/
def splice (block : List α) (start : Nat) (field : List α) : List α :=
  block.take start ++ field ++ block.drop (start + field.length)

theorem length_splice (fits : start + field.length ≤ block.length) :
    (splice block start field).length = block.length := by
  unfold splice
  simp only [List.length_append, List.length_take, List.length_drop]
  omega

theorem getElem?_splice {position : Nat} (fits : start + field.length ≤ block.length) :
    (splice block start field)[position]? =
      if start ≤ position ∧ position < start + field.length then field[position - start]?
      else block[position]? := by
  have front : (block.take start).length = start := by
    rw [List.length_take]
    omega
  unfold splice
  rw [List.append_assoc]
  by_cases before : position < start
  · rw [List.getElem?_append_left (by omega), List.getElem?_take_of_lt before, if_neg (by omega)]
  · rw [List.getElem?_append_right (by omega), front]
    by_cases inside : position < start + field.length
    · rw [List.getElem?_append_left (by omega), if_pos (by omega)]
    · rw [List.getElem?_append_right (by omega), List.getElem?_drop, if_neg (by omega)]
      congr 1
      omega

end RustPosix.Library
