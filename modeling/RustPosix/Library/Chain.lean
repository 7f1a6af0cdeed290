import Mathlib

/-! Lists threaded through their own nodes: each node names the next one. -/

namespace RustPosix.Library

universe u

variable {α : Type u}

/-- Following `next` from `first` on meets these nodes and then ends. -/
def Chain (next : α → Option α) : Option α → List α → Prop
  | first, [] => first = none
  | first, node :: rest => first = some node ∧ Chain next (next node) rest

namespace Chain

variable {next after : α → Option α} {first : Option α} {nodes other before rest : List α}
  {node : α}

/-- A chain depends on what its own nodes name. -/
theorem congr (chain : Chain next first nodes) (same : ∀ node ∈ nodes, after node = next node) :
    Chain after first nodes := by
  induction nodes generalizing first with
  | nil => exact chain
  | cons node rest ih =>
    obtain ⟨here, there⟩ := chain
    refine ⟨here, ?_⟩
    rw [same node List.mem_cons_self]
    exact ih there fun node member => same node (List.mem_cons_of_mem _ member)

theorem unique (chain : Chain next first nodes) (also : Chain next first other) :
    nodes = other := by
  induction nodes generalizing first other with
  | nil =>
    cases other with
    | nil => rfl
    | cons node rest => cases chain.symm.trans also.1
  | cons node rest ih =>
    cases other with
    | nil => cases chain.1.symm.trans also
    | cons node' rest' =>
      obtain rfl := Option.some.inj (chain.1.symm.trans also.1)
      rw [ih chain.2 also.2]

/-- What follows a node is a chain as well. -/
theorem from_node (chain : Chain next first (before ++ node :: rest)) :
    Chain next (next node) rest := by
  induction before generalizing first with
  | nil => exact chain.2
  | cons _ before ih => exact ih chain.2

/-- A chain that ends meets no node twice. -/
theorem nodup (chain : Chain next first nodes) : nodes.Nodup := by
  induction nodes generalizing first with
  | nil => exact List.nodup_nil
  | cons node rest ih =>
    refine List.nodup_cons.mpr ⟨fun member => ?_, ih chain.2⟩
    -- the chain from the second meeting would be the chain from the first
    obtain ⟨between, later, split⟩ := List.append_of_mem member
    have back : Chain next (next node) later := by
      have tail := chain.2
      rw [split] at tail
      exact tail.from_node
    have same := congrArg List.length (chain.2.unique back)
    rw [split, List.length_append, List.length_cons] at same
    omega

/-- Taking out the first node. -/
theorem unlink_first (chain : Chain next first (node :: rest))
    (same : ∀ other ∈ rest, after other = next other) : Chain after (next node) rest :=
  chain.2.congr same

/-- Taking out a later node: the node before it names the one behind it. -/
theorem unlink {previous : α} (chain : Chain next first (before ++ previous :: node :: rest))
    (skips : after previous = next node)
    (same : ∀ other ∈ before ++ rest, after other = next other) :
    Chain after first (before ++ previous :: rest) := by
  induction before generalizing first with
  | nil =>
    refine ⟨chain.1, ?_⟩
    rw [skips]
    exact chain.2.unlink_first same
  | cons head before ih =>
    refine ⟨chain.1, ?_⟩
    rw [same head List.mem_cons_self]
    exact ih chain.2 fun other member => same other (List.mem_cons_of_mem _ member)

end Chain

end RustPosix.Library
