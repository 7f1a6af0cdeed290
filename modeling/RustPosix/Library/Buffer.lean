import RustPosix.Library.Splice

/-! Buffers whose accesses are checked: an index or a range outside of the buffer gives none.
Loops that shift elements inside one buffer are described by cutting the buffer where they
start and end. -/

namespace RustPosix.Library.Buffer

variable {α : Type}

def put (buffer : List α) (index : Nat) (value : α) : Option (List α) :=
  if index < buffer.length then some (buffer.set index value) else none

/-- The elements from `lo` up to `hi`. -/
def range (buffer : List α) (lo hi : Nat) : Option (List α) :=
  if lo ≤ hi ∧ hi ≤ buffer.length then some (slice buffer lo hi) else none

/-- Copy a block over the elements from `start` on. -/
def overwrite (buffer : List α) (start : Nat) (block : List α) : Option (List α) :=
  if start + block.length ≤ buffer.length then some (splice buffer start block) else none

/-- Copy, for each index in turn, the element at `source` to `target`. -/
def moveEach (source target : Nat → Nat) : List Nat → List α → Option (List α)
  | [], buffer => some buffer
  | i :: rest, buffer => do
    let value ← buffer[source i]?
    let buffer ← put buffer (target i) value
    moveEach source target rest buffer

/-- Store the values one after the other from `start` on. -/
def putAll : Nat → List α → List α → Option (List α)
  | _, [], buffer => some buffer
  | start, value :: rest, buffer => do
    let buffer ← put buffer start value
    putAll (start + 1) rest buffer

/-- Go back from a position while the element before it has a property. -/
def backWhile (holds : α → Bool) (buffer : List α) : Nat → Option Nat
  | 0 => some 0
  | position + 1 => do
    let value ← buffer[position]?
    if holds value then backWhile holds buffer position else pure (position + 1)

/-- Go on from a position, up to `stop`, while the element there has a property. -/
def forwardWhile (holds : α → Bool) (buffer : List α) (stop position : Nat) : Option Nat :=
  if position < stop then do
    let value ← buffer[position]?
    if holds value then forwardWhile holds buffer stop (position + 1) else pure position
  else some position
termination_by stop - position

section Access

variable {front gap rest block tail : List α} {value : α}

@[simp] theorem getElem?_here : (front ++ value :: rest)[front.length]? = some value := by
  rw [List.getElem?_append_right (Nat.le_refl _), Nat.sub_self, List.getElem?_cons_zero]

@[simp] theorem put_here {old : α} :
    put (front ++ old :: rest) front.length value = some (front ++ value :: rest) := by
  rw [put, if_pos (by simp), List.set_append_right _ _ (Nat.le_refl _), Nat.sub_self,
    List.set_cons_zero]

theorem put_at {index : Nat} {old : α} (here : index = front.length) :
    put (front ++ old :: rest) index value = some (front ++ value :: rest) := by
  subst here
  exact put_here

theorem getElem?_at {index : Nat} (here : index = front.length) :
    (front ++ value :: rest)[index]? = some value := by
  subst here
  exact getElem?_here

/-- The range between two cuts. -/
theorem range_between {lo hi : Nat} (low : lo = front.length) (high : hi = lo + block.length) :
    range (front ++ block ++ rest) lo hi = some block := by
  subst low high
  rw [range, if_pos (by simp), slice, List.take_left' (by simp), List.drop_left' rfl]

theorem overwrite_between {start : Nat} (low : start = front.length)
    (same : gap.length = block.length) :
    overwrite (front ++ gap ++ rest) start block = some (front ++ block ++ rest) := by
  subst low
  rw [overwrite, if_pos (by simp; omega), splice, ← same, List.drop_left' (by simp),
    List.append_assoc front gap, List.take_left' rfl]

theorem putAll_between {start : Nat} : ∀ {front gap : List α}, start = front.length →
    gap.length = block.length →
    putAll start block (front ++ gap ++ rest) = some (front ++ block ++ rest) := by
  induction block generalizing start with
  | nil =>
    intro front gap _ empty
    rw [List.eq_nil_of_length_eq_zero empty]
    rfl
  | cons value block ih =>
    intro front gap low same
    obtain ⟨old, gap, rfl⟩ := List.exists_cons_of_length_eq_add_one same
    rw [putAll, List.append_assoc, List.cons_append, put_at low, Option.bind_eq_bind,
      Option.bind_some]
    have next := @ih (start + 1) (front ++ [value]) gap (by simp [low])
      (Nat.succ.inj same)
    simpa using next

end Access

section Moves

variable {source target : Nat → Nat} {rest : List α}

/-- Elements moved down by the length of a gap close it and leave as many others behind. -/
theorem moveEach_down (tail : List α) : ∀ {base : Nat} {front gap : List α},
    (∀ j < tail.length, source (base + j) = front.length + gap.length + j) →
    (∀ j < tail.length, target (base + j) = front.length + j) →
    ∃ spare, spare.length = gap.length ∧
      moveEach source target (List.range' base tail.length) (front ++ gap ++ tail ++ rest) =
        some (front ++ tail ++ spare ++ rest) := by
  induction tail with
  | nil =>
    intro base front gap _ _
    exact ⟨gap, rfl, by simp [moveEach]⟩
  | cons value tail ih =>
    intro base front gap sources targets
    have read : (front ++ gap ++ value :: tail ++ rest)[source base]? = some value := by
      rw [List.append_assoc, List.cons_append]
      exact getElem?_at (by simpa using sources 0 (by simp))
    -- The first element goes to the front of the gap, and the gap moves on by one.
    obtain ⟨next, moved, wrote⟩ : ∃ next, next.length = gap.length ∧
        put (front ++ gap ++ value :: tail ++ rest) (target base) value =
          some (front ++ [value] ++ next ++ tail ++ rest) := by
      have low : target base = front.length := by simpa using targets 0 (by simp)
      cases gap with
      | nil =>
        refine ⟨[], rfl, ?_⟩
        have stored := @put_at _ front (tail ++ rest) value _ value low
        simpa using stored
      | cons old gap =>
        refine ⟨gap ++ [value], by simp, ?_⟩
        have stored := @put_at _ front (gap ++ value :: tail ++ rest) value _ old low
        simpa using stored
    obtain ⟨spare, sized, ran⟩ := @ih (base + 1) (front ++ [value]) next
      (fun j small => by
        have at' := sources (j + 1) (by simp; omega)
        rw [Nat.add_right_comm base 1 j, Nat.add_assoc base j 1, at']
        simp [moved]
        omega)
      (fun j small => by
        have at' := targets (j + 1) (by simp; omega)
        rw [Nat.add_right_comm base 1 j, Nat.add_assoc base j 1, at']
        simp
        omega)
    refine ⟨spare, sized.trans moved, ?_⟩
    rw [List.length_cons, List.range'_succ, moveEach, read]
    simp only [Option.bind_eq_bind, Option.bind_some, wrote]
    rw [ran]
    simp

/-- Elements moved up by the length of a gap, the last of them first, leave the gap in front. -/
theorem moveEach_up (tail : List α) : ∀ {base : Nat} {front gap rest : List α},
    (∀ j < tail.length, source (base + j) = front.length + j) →
    (∀ j < tail.length, target (base + j) = front.length + gap.length + j) →
    ∃ spare, spare.length = gap.length ∧
      moveEach source target (List.range' base tail.length).reverse (front ++ tail ++ gap ++ rest) =
        some (front ++ spare ++ tail ++ rest) := by
  induction tail using List.reverseRecOn with
  | nil =>
    intro base front gap rest _ _
    exact ⟨gap, rfl, by simp [moveEach]⟩
  | append_singleton tail value ih =>
    intro base front gap rest sources targets
    have last : source (base + tail.length) = (front ++ tail).length := by
      simpa using sources tail.length (by simp)
    have read : (front ++ (tail ++ [value]) ++ gap ++ rest)[source (base + tail.length)]? =
        some value := by
      have found := @getElem?_at _ (front ++ tail) (gap ++ rest) value _ last
      simpa using found
    -- The last element goes to the end of the gap, and the gap moves back by one.
    obtain ⟨next, moved, wrote⟩ : ∃ next, next.length = gap.length ∧
        put (front ++ (tail ++ [value]) ++ gap ++ rest) (target (base + tail.length)) value =
          some (front ++ tail ++ next ++ (value :: rest)) := by
      have high : target (base + tail.length) = front.length + gap.length + tail.length :=
        targets tail.length (by simp)
      rcases List.eq_nil_or_concat gap with rfl | ⟨init, old, rfl⟩
      · refine ⟨[], rfl, ?_⟩
        have here : target (base + tail.length) = (front ++ tail).length := by rw [high]; simp
        have stored := @put_at _ (front ++ tail) rest value _ value here
        simpa using stored
      · refine ⟨value :: init, by simp, ?_⟩
        have here : target (base + tail.length) = (front ++ tail ++ value :: init).length := by
          rw [high]
          simp
          omega
        have stored := @put_at _ (front ++ tail ++ value :: init) rest value _ old here
        simpa using stored
    obtain ⟨spare, sized, ran⟩ := @ih base front next (value :: rest)
      (fun j small => sources j (by simp; omega))
      (fun j small => by rw [targets j (by simp; omega), moved])
    refine ⟨spare, sized.trans moved, ?_⟩
    rw [List.length_append, List.length_singleton, List.range'_concat, List.reverse_concat,
      Nat.one_mul, moveEach, read]
    simp only [Option.bind_eq_bind, Option.bind_some, wrote]
    rw [ran]
    simp

end Moves

section Scans

variable {holds : α → Bool} {rest : List α}

theorem backWhile_front (front : List α) :
    backWhile holds (front ++ rest) front.length = some (front.rdropWhile holds).length := by
  induction front using List.reverseRecOn generalizing rest with
  | nil => rfl
  | append_singleton front value ih =>
    rw [List.append_assoc, List.singleton_append, List.length_append, List.length_singleton,
      backWhile, getElem?_here, Option.bind_eq_bind, Option.bind_some]
    by_cases held : holds value
    · rw [if_pos held, List.rdropWhile_concat_pos _ _ _ held]
      exact ih
    · rw [if_neg held, List.rdropWhile_concat_neg _ _ _ held]
      simp

theorem forwardWhile_between (middle : List α) : ∀ {front : List α} {stop position : Nat},
    position = front.length → stop = position + middle.length →
    forwardWhile holds (front ++ middle ++ rest) stop position =
      some (position + (middle.takeWhile holds).length) := by
  induction middle with
  | nil =>
    intro front stop position _ last
    rw [forwardWhile, if_neg (by simp at last; omega)]
    rfl
  | cons value middle ih =>
    intro front stop position here last
    rw [List.length_cons] at last
    have read : (front ++ value :: middle ++ rest)[position]? = some value := by
      rw [List.append_assoc, List.cons_append]
      exact getElem?_at here
    rw [forwardWhile, if_pos (by omega), read, Option.bind_eq_bind, Option.bind_some]
    by_cases held : holds value
    · rw [if_pos held, List.takeWhile_cons_of_pos held]
      have next := @ih (front ++ [value]) stop (position + 1) (by simp [here]) (by omega)
      rw [List.append_assoc, List.append_assoc, List.singleton_append] at next
      rw [List.append_assoc, List.cons_append, next, List.length_cons]
      congr 1
      omega
    · rw [if_neg held, List.takeWhile_cons_of_neg held]
      rfl

end Scans

end RustPosix.Library.Buffer
