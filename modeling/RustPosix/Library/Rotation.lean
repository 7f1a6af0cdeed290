import Mathlib

/-! Items that take turns: one has the turn, the others wait in a queue. A journal keeps
when each item was last put into the queue and whose turns there have been, and the queue
is shown to be in that order and the turns to be fair. -/

namespace RustPosix.Library

universe u

structure Rotation (Item : Type u) where
  current : Item
  queue : List Item

/-- What has happened so far: `since` is the time at which an item last left its turn or
joined, and every turn is kept with the queue that it began with. -/
structure Journal (Item : Type u) where
  clock : Nat
  since : Item → Nat
  joined : List Item
  turns : List (Item × List Item)

variable {Item : Type u}

namespace Rotation

/-- An item that had its turn when `queued` was the queue: those ahead of it have had their
turn since or are still in front of it. -/
def Awaited (rotation : Rotation Item) (item : Item) (queued passed : List Item) : Prop :=
  ∃ ahead, queued <+: ahead ∧ ahead.Nodup ∧
    ((passed = [] ∧ rotation.current = item ∧ rotation.queue = ahead) ∨
      ∃ front behind, rotation.queue = front ++ item :: behind ∧ passed ++ front = ahead)

variable {current next item : Item} {queue rest : List Item}

theorem Awaited.join {queued passed : List Item}
    (awaited : Awaited ⟨current, queue⟩ item queued passed) {added : Item}
    (fresh : added ∉ queue) : Awaited ⟨current, queue ++ [added]⟩ item queued passed := by
  obtain ⟨ahead, early, unique, ⟨none, same, rfl⟩ | ⟨front, behind, rfl, joined⟩⟩ := awaited
  · refine ⟨queue ++ [added], early.trans (List.prefix_append ..), ?_, .inl ⟨none, same, rfl⟩⟩
    exact unique.append (List.nodup_singleton added) (List.disjoint_singleton.mpr fresh)
  · exact ⟨ahead, early, unique, .inr ⟨front, behind ++ [added], by simp, joined⟩⟩

/-- Another item gets its turn. -/
theorem Awaited.pass {queued passed : List Item}
    (awaited : Awaited ⟨current, next :: rest⟩ item queued passed) (other : item ≠ next) :
    Awaited ⟨next, rest ++ [current]⟩ item queued (passed ++ [next]) := by
  obtain ⟨ahead, early, unique, ⟨rfl, rfl, rfl⟩ | ⟨front, behind, split, rfl⟩⟩ := awaited
  · exact ⟨next :: rest, early, unique, .inr ⟨rest, [], rfl, rfl⟩⟩
  · cases front with
    | nil => exact absurd (List.cons.inj split).1.symm other
    | cons head front =>
      obtain ⟨rfl, rfl⟩ := List.cons.inj split
      exact ⟨_, early, unique, .inr ⟨front, behind ++ [current], by simp, by simp⟩⟩

end Rotation

/-- An append at the end of a list that is split at an element. -/
private theorem split_concat {first : Item × List Item} {turns before later : List (Item × List Item)}
    {last : Item × List Item} (split : turns ++ [last] = before ++ first :: later) :
    (later = [] ∧ last = first) ∨ ∃ earlier, later = earlier ++ [last] ∧
      turns = before ++ first :: earlier := by
  rcases List.eq_nil_or_concat later with rfl | ⟨earlier, final, rfl⟩
  · exact .inl ⟨rfl, (List.append_inj' split rfl).2 |> List.cons.inj |>.1⟩
  · rw [List.concat_eq_append, ← List.cons_append, ← List.append_assoc] at split
    obtain ⟨rfl, same⟩ := List.append_inj' split rfl
    obtain rfl := (List.cons.inj same).1
    exact .inr ⟨earlier, List.concat_eq_append .., rfl⟩

variable [DecidableEq Item]

namespace Journal

/-- The journal of a queue that is found in its order. -/
def start (queue : List Item) : Journal Item where
  clock := queue.length
  since := queue.idxOf
  joined := []
  turns := []

def join (journal : Journal Item) (item : Item) : Journal Item :=
  { journal with
    clock := journal.clock + 1
    since := Function.update journal.since item journal.clock
    joined := journal.joined ++ [item] }

/-- The turn goes from one item to another. -/
def pass (journal : Journal Item) (left next : Item) (queue : List Item) : Journal Item :=
  { journal with
    clock := journal.clock + 1
    since := Function.update journal.since left journal.clock
    turns := journal.turns ++ [(next, queue)] }

/-- Between two turns of an item, everything queued at the first has exactly one turn. -/
def Fair (journal : Journal Item) : Prop :=
  ∀ before between after item queued atReturn,
    journal.turns = before ++ (item, queued) :: (between ++ (item, atReturn) :: after) →
    item ∉ between.map Prod.fst → ∀ other ∈ queued, (between.map Prod.fst).count other = 1

end Journal

namespace Rotation

/-- The journal is that of the rotation. -/
structure Recorded (rotation : Rotation Item) (journal : Journal Item) : Prop where
  distinct : (rotation.current :: rotation.queue).Nodup
  inOrder : rotation.queue.Pairwise fun first second => journal.since first < journal.since second
  past : ∀ item ∈ rotation.queue, journal.since item < journal.clock
  awaited : ∀ before item queued later, journal.turns = before ++ (item, queued) :: later →
    item ∉ later.map Prod.fst → rotation.Awaited item queued (later.map Prod.fst)
  fair : journal.Fair

theorem recorded_start {current : Item} {queue : List Item} (distinct : (current :: queue).Nodup) :
    Recorded ⟨current, queue⟩ (.start queue) where
  distinct := distinct
  inOrder := by
    refine List.pairwise_iff_getElem.mpr fun i j inside within less => ?_
    have unique := distinct.of_cons
    simp only [Journal.start]
    rw [unique.idxOf_getElem, unique.idxOf_getElem]
    exact less
  past item here := List.idxOf_lt_length_iff.mpr here
  awaited before item queued later split := by simp [Journal.start] at split
  fair before between after item queued atReturn split := by simp [Journal.start] at split

/-- The queue grows at its end by an item that gets the present time. -/
private theorem grows {queue : List Item} {since : Item → Nat} {clock : Nat} {item : Item}
    (inOrder : queue.Pairwise fun first second => since first < since second)
    (past : ∀ other ∈ queue, since other < clock) (fresh : item ∉ queue) :
    ((queue ++ [item]).Pairwise fun first second =>
      Function.update since item clock first < Function.update since item clock second) ∧
    ∀ other ∈ queue ++ [item], Function.update since item clock other < clock + 1 := by
  have old {other : Item} (here : other ∈ queue) :
      Function.update since item clock other = since other :=
    Function.update_of_ne (fun same : other = item => fresh (same ▸ here)) ..
  constructor
  · refine List.pairwise_append.mpr ⟨?_, List.pairwise_singleton .., ?_⟩
    · refine inOrder.imp_of_mem fun first second less => ?_
      rw [old first, old second]
      exact less
    · intro first here second last
      rw [List.mem_singleton.mp last, old here, Function.update_self]
      exact past first here
  · intro other here
    rcases List.mem_append.mp here with here | last
    · rw [old here]
      exact Nat.lt_succ_of_lt (past other here)
    · rw [List.mem_singleton.mp last, Function.update_self]
      exact Nat.lt_succ_self clock

variable {current next item : Item} {queue rest : List Item} {journal : Journal Item}

/-- When the item's turn comes again, those that were queued have each had one. -/
theorem Awaited.returns {queued passed : List Item}
    (awaited : Awaited ⟨current, item :: rest⟩ item queued passed)
    (distinct : (current :: item :: rest).Nodup) {other : Item} (here : other ∈ queued) :
    passed.count other = 1 := by
  obtain ⟨ahead, early, unique, ⟨_, same, _⟩ | ⟨front, behind, split, rfl⟩⟩ := awaited
  · exact absurd distinct (by simp [show current = item from same])
  · cases front with
    | nil =>
      rw [List.append_nil] at early unique
      exact List.count_eq_one_of_mem unique (early.subset here)
    | cons head front =>
      obtain ⟨rfl, rfl⟩ := List.cons.inj split
      simp at distinct

theorem Recorded.join (recorded : Recorded ⟨current, queue⟩ journal)
    (fresh : item ∉ current :: queue) : Recorded ⟨current, queue ++ [item]⟩ (journal.join item) := by
  have unqueued : item ∉ queue := fun here => fresh (List.mem_cons_of_mem _ here)
  obtain ⟨inOrder, past⟩ := grows recorded.inOrder recorded.past unqueued
  exact
    { distinct := by
        rw [← List.cons_append]
        exact recorded.distinct.append (List.nodup_singleton item)
          (List.disjoint_singleton.mpr fresh)
      inOrder
      past
      awaited := fun before other queued later split last =>
        (recorded.awaited before other queued later split last).join unqueued
      fair := recorded.fair }

theorem Recorded.pass (recorded : Recorded ⟨current, next :: rest⟩ journal) :
    Recorded ⟨next, rest ++ [current]⟩ (journal.pass current next (rest ++ [current])) := by
  obtain ⟨outside, unique⟩ := List.nodup_cons.mp recorded.distinct
  have unqueued : current ∉ rest := fun here => outside (List.mem_cons_of_mem _ here)
  obtain ⟨inOrder, past⟩ := grows recorded.inOrder.of_cons
    (fun other here => recorded.past other (List.mem_cons_of_mem _ here)) unqueued
  refine { distinct := ?_, inOrder, past, awaited := ?_, fair := ?_ }
  · exact (List.perm_append_singleton current (next :: rest)).nodup_iff.mpr recorded.distinct
  · intro before item queued later split last
    rcases split_concat split with ⟨rfl, same⟩ | ⟨earlier, rfl, split'⟩
    · obtain ⟨rfl, rfl⟩ := Prod.mk.inj same
      exact ⟨_, List.prefix_rfl,
        ((List.perm_append_singleton current (next :: rest)).nodup_iff.mpr recorded.distinct).of_cons,
        .inl ⟨rfl, rfl, rfl⟩⟩
    · rw [List.map_append, List.mem_append, not_or] at last
      rw [List.map_append]
      exact (recorded.awaited before item queued earlier split' last.1).pass
        (by simpa using last.2)
  · intro before between after item queued atReturn split none other here
    rw [← List.cons_append, ← List.append_assoc] at split
    rcases split_concat split with ⟨rfl, same⟩ | ⟨earlier, rfl, split'⟩
    · obtain ⟨rfl, rfl⟩ := Prod.mk.inj same
      have split' : journal.turns = before ++ (next, queued) :: between :=
        List.append_cancel_right split
      exact (recorded.awaited before _ queued between split' none).returns recorded.distinct here
    · rw [List.append_assoc, List.cons_append] at split'
      exact recorded.fair before between earlier item queued atReturn split' none other here

end Rotation

end RustPosix.Library
