import Mathlib

/-! Trees of tables reached by paths of indices, and the change of one slot. -/

namespace RustPosix.Library

universe u v

variable {Node : Type u} {Index : Type v}

/-- The node a path of indices leads to. -/
def walk (child : Node → Index → Option Node) : Node → List Index → Option Node
  | node, [] => some node
  | node, index :: rest => (child node index).bind fun next => walk child next rest

variable {child after : Node → Index → Option Node} {root node table : Node}
  {path query : List Index} {index : Index} {valid : List Index → Prop}

@[simp] theorem walk_nil : walk child node [] = some node := rfl

theorem walk_append (first second : List Index) :
    walk child node (first ++ second) =
      (walk child node first).bind fun next => walk child next second := by
  induction first generalizing node with
  | nil => rfl
  | cons index rest ih =>
    rw [List.cons_append, walk, walk, Option.bind_assoc]
    congr 1
    funext next
    exact ih

theorem walk_concat (path : List Index) (index : Index) :
    walk child node (path ++ [index]) =
      (walk child node path).bind fun next => child next index := by
  rw [walk_append]
  congr 1
  funext next
  rw [walk]
  cases child next index <;> rfl

/-- Every prefix of a valid path is valid. -/
def Closed (valid : List Index → Prop) : Prop :=
  ∀ path index, valid (path ++ [index]) → valid path

/-- A walk reads only the slots it passes. -/
theorem walk_congr (closed : Closed valid)
    (same : ∀ path node slot, valid (path ++ [slot]) → walk child root path = some node →
      after node slot = child node slot) (queryValid : valid query) :
    walk after root query = walk child root query := by
  induction query using List.reverseRecOn with
  | nil => rfl
  | append_singleton query slot ih =>
    rw [walk_concat, walk_concat, ih (closed query slot queryValid)]
    cases found : walk child root query with
    | none => rfl
    | some node => exact same query node slot queryValid found

/-- No node is reached by two valid paths. -/
def Separate (child : Node → Index → Option Node) (root : Node) (valid : List Index → Prop) :
    Prop :=
  ∀ first second node, valid first → valid second → walk child root first = some node →
    walk child root second = some node → first = second

/-- `after` is `child` with the slot `index` of `table` changed, as far as the
tables reached from the root go. -/
def SlotChange (child after : Node → Index → Option Node) (root : Node)
    (valid : List Index → Prop) (table : Node) (index : Index) : Prop :=
  ∀ path node slot, valid (path ++ [slot]) → walk child root path = some node →
    ¬ (node = table ∧ slot = index) → after node slot = child node slot

theorem walk_elsewhere (closed : Closed valid) (separate : Separate child root valid)
    (change : SlotChange child after root valid table index)
    (reached : walk child root path = some table) (pathValid : valid path) (queryValid : valid query)
    (elsewhere : ¬ path ++ [index] <+: query) :
    walk after root query = walk child root query := by
  induction query using List.reverseRecOn with
  | nil => rfl
  | append_singleton query slot ih =>
    have shorter := ih (closed query slot queryValid) fun below =>
      elsewhere (below.trans (List.prefix_append _ _))
    rw [walk_concat, walk_concat, shorter]
    cases found : walk child root query with
    | none => rfl
    | some node =>
      refine change query node slot queryValid found ?_
      rintro ⟨rfl, rfl⟩
      have same := separate query path node (closed query slot queryValid) pathValid found reached
      exact elsewhere (same ▸ List.prefix_refl _)

variable [DecidableEq Index]

/-- When nothing hangs below the changed slot, before or after, the change of
one slot is the change of one path. -/
theorem walk_slotChange (closed : Closed valid) (separate : Separate child root valid)
    (change : SlotChange child after root valid table index)
    (reached : walk child root path = some table) (slotValid : valid (path ++ [index]))
    (bareBefore : ∀ node slot rest, valid (path ++ [index] ++ slot :: rest) →
      child table index = some node → child node slot = none)
    (bareAfter : ∀ node slot rest, valid (path ++ [index] ++ slot :: rest) →
      after table index = some node → after node slot = none)
    (queryValid : valid query) :
    walk after root query =
      if query = path ++ [index] then after table index else walk child root query := by
  have pathValid := closed path index slotValid
  have kept : walk after root path = some table := by
    rw [walk_elsewhere closed separate change reached pathValid pathValid, reached]
    intro below
    have longer := below.length_le
    rw [List.length_append, List.length_singleton] at longer
    omega
  by_cases below : path ++ [index] <+: query
  · obtain ⟨rest, rfl⟩ := below
    cases rest with
    | nil => rw [List.append_nil, if_pos rfl, walk_concat, kept]; rfl
    | cons slot rest =>
      rw [if_neg (by simp), walk_append, walk_concat, kept, walk_append, walk_concat, reached]
      have gone {step : Node → Index → Option Node}
          (bare : ∀ node, step table index = some node → step node slot = none) :
          ((some table).bind fun next => step next index).bind
            (fun next => walk step next (slot :: rest)) = none := by
        cases found : step table index with
        | none => simp [found]
        | some node => simp [found, walk, bare node found]
      rw [gone fun node => bareBefore node slot rest queryValid,
        gone fun node => bareAfter node slot rest queryValid]
  · rw [walk_elsewhere closed separate change reached pathValid queryValid below, if_neg]
    rintro rfl
    exact below (List.prefix_refl _)

/-- Separation survives when the slot receives nothing or a node not in the tree. -/
theorem Separate.slotChange (separate : Separate child root valid)
    (update : ∀ query, valid query → walk after root query =
      if query = path ++ [index] then after table index else walk child root query)
    (fresh : ∀ node, after table index = some node →
      ∀ query, valid query → query ≠ path ++ [index] → walk child root query ≠ some node) :
    Separate after root valid := by
  intro first second node firstValid secondValid firstFound secondFound
  rw [update first firstValid] at firstFound
  rw [update second secondValid] at secondFound
  by_cases firstHere : first = path ++ [index]
  · by_cases secondHere : second = path ++ [index]
    · rw [firstHere, secondHere]
    · rw [if_pos firstHere] at firstFound
      rw [if_neg secondHere] at secondFound
      exact absurd secondFound (fresh node firstFound second secondValid secondHere)
  · by_cases secondHere : second = path ++ [index]
    · rw [if_neg firstHere] at firstFound
      rw [if_pos secondHere] at secondFound
      exact absurd firstFound (fresh node secondFound first firstValid firstHere)
    · rw [if_neg firstHere] at firstFound
      rw [if_neg secondHere] at secondFound
      exact separate first second node firstValid secondValid firstFound secondFound

end RustPosix.Library
