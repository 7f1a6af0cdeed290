import Mathlib

/-! Work that a counter numbers when it begins and that is finished in any
order, and logs that keep only their last entries. -/

namespace RustPosix.Library

variable {α : Type*}

/-- The work asked for is numbered from 1 in order, and each item of it is either
finished or begun, once. -/
structure Numbered (asked finished begun : List (Nat × α)) (next : Nat) : Prop where
  numbers : asked.map Prod.fst = List.range' 1 asked.length
  next : next = asked.length + 1
  once : (finished ++ begun).Perm asked

namespace Numbered

variable {asked finished begun rest : List (Nat × α)} {next : Nat}

theorem begins (numbered : Numbered asked finished begun next) (work : α) :
    Numbered (asked ++ [(next, work)]) finished ((next, work) :: begun) (next + 1) where
  numbers := by
    simp [numbered.numbers, numbered.next, List.range'_concat, Nat.add_comm]
  next := by simp [numbered.next]
  once := List.perm_middle.trans
    ((numbered.once.cons _).trans (List.perm_append_singleton _ _).symm)

theorem finishes {item : Nat × α} (numbered : Numbered asked finished (item :: begun) next) :
    Numbered asked (finished ++ [item]) begun next :=
  ⟨numbered.numbers, numbered.next, by simpa using numbered.once⟩

theorem congr (numbered : Numbered asked finished begun next) (same : begun.Perm rest) :
    Numbered asked finished rest next :=
  ⟨numbered.numbers, numbered.next, (same.symm.append_left finished).trans numbered.once⟩

end Numbered

/-- Dropping the oldest entry when the log is full keeps the last ones. -/
theorem rtake_push {spare : Nat} {log kept : List α} (entry : α)
    (last : kept = log.rtake (spare + 1)) :
    (if kept.length ≥ spare + 1 then kept.tail else kept) ++ [entry] =
      (log ++ [entry]).rtake (spare + 1) := by
  rw [List.rtake_concat_succ, last, List.rtake, List.rtake, List.length_drop]
  split
  · rw [List.tail_drop]
    congr 2
    omega
  · congr 2
    omega

end RustPosix.Library
