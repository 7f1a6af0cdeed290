import Mathlib

/-! Walks along labelled edges, for graphs whose edges can fail to exist, and what
changing an edge does to the walks from a root. -/

namespace RustPosix.Library

universe u v w

variable {Node : Type u} {Label : Type v} {ε : Type w}

/-- Follow a path of labels; the first edge that fails decides the error. -/
def descend (edges : Node → Label → Except ε Node) : Node → List Label → Except ε Node
  | node, [] => .ok node
  | node, label :: path =>
    match edges node label with
    | .ok next => descend edges next path
    | .error problem => .error problem

variable {edges : Node → Label → Except ε Node} {node next root : Node} {label : Label}
  {path rest : List Label} {problem : ε}

@[simp] theorem descend_nil : descend edges node [] = .ok node := rfl

theorem descend_cons (found : edges node label = .ok next) :
    descend edges node (label :: path) = descend edges next path := by
  simp only [descend, found]

theorem descend_cons_error (missing : edges node label = .error problem) :
    descend edges node (label :: path) = .error problem := by
  simp only [descend, missing]

theorem descend_cons_ok {last : Node} (reached : descend edges node (label :: path) = .ok last) :
    ∃ next, edges node label = .ok next ∧ descend edges next path = .ok last := by
  cases found : edges node label with
  | ok next => exact ⟨next, rfl, (descend_cons found).symm.trans reached⟩
  | error problem => cases (descend_cons_error found).symm.trans reached

theorem descend_append (reached : descend edges node path = .ok next) :
    descend edges node (path ++ rest) = descend edges next rest := by
  induction path generalizing node with
  | nil =>
    cases reached
    rfl
  | cons label path ih =>
    obtain ⟨middle, found, reached⟩ := descend_cons_ok reached
    rw [List.cons_append, descend_cons found]
    exact ih reached

theorem descend_append_error (missing : descend edges node path = .error problem) :
    descend edges node (path ++ rest) = .error problem := by
  induction path generalizing node with
  | nil => cases missing
  | cons label path ih =>
    cases found : edges node label with
    | ok middle =>
      rw [descend_cons found] at missing
      rw [List.cons_append, descend_cons found]
      exact ih missing
    | error other =>
      rw [descend_cons_error found] at missing
      cases missing
      rw [List.cons_append, descend_cons_error found]

/-- A walk that arrives passes through every node on its way. -/
theorem descend_append_ok (reached : descend edges node (path ++ rest) = .ok next) :
    ∃ middle, descend edges node path = .ok middle ∧ descend edges middle rest = .ok next := by
  cases arrives : descend edges node path with
  | ok middle =>
    rw [descend_append arrives] at reached
    exact ⟨middle, rfl, reached⟩
  | error problem =>
    rw [descend_append_error arrives] at reached
    cases reached

theorem descend_snoc (reached : descend edges node path = .ok next) :
    descend edges node (path ++ [label]) = edges next label := by
  rw [descend_append reached]
  cases found : edges next label with
  | ok last => rw [descend_cons found, descend_nil]
  | error problem => rw [descend_cons_error found]

/-- What every failing edge reports, a failing walk reports. -/
theorem descend_error (reports : ε → Prop)
    (edge : ∀ {node label problem}, edges node label = .error problem → reports problem)
    (failed : descend edges node path = .error problem) : reports problem := by
  induction path generalizing node with
  | nil => cases failed
  | cons label path ih =>
    cases found : edges node label with
    | ok next => exact ih ((descend_cons found).symm.trans failed)
    | error other =>
      cases (descend_cons_error found).symm.trans failed
      exact edge found

/-- Two graphs that agree on every edge a walk meets agree on the walk. -/
theorem descend_congr {edges' : Node → Label → Except ε Node}
    (same : ∀ front label back middle, path = front ++ label :: back →
      descend edges node front = .ok middle → edges' middle label = edges middle label) :
    descend edges' node path = descend edges node path := by
  induction path generalizing node with
  | nil => rfl
  | cons first path ih =>
    have here : edges' node first = edges node first := same [] first path node rfl rfl
    cases found : edges node first with
    | error problem => rw [descend_cons_error found, descend_cons_error (here.trans found)]
    | ok middle =>
      rw [descend_cons found, descend_cons (here.trans found)]
      apply ih
      intro front label back last split arrives
      refine same (first :: front) label back last (by rw [split, List.cons_append]) ?_
      rw [descend_cons found]
      exact arrives

/-- Only `inner` nodes have edges, and no two paths from the root lead to one of them. -/
structure OnePath (edges : Node → Label → Except ε Node) (inner : Node → Prop) (root : Node) :
    Prop where
  inner_of_edge : ∀ {node label next}, edges node label = .ok next → inner node
  unique : ∀ {node path other}, inner node → descend edges root path = .ok node →
    descend edges root other = .ok node → path = other

namespace OnePath

variable {inner : Node → Prop} (tree : OnePath edges inner root)

include tree

/-- A walk that continues is at an inner node. -/
theorem inner_of_walk {last : Node} (reached : descend edges node (label :: path) = .ok last) :
    inner node := by
  obtain ⟨middle, found, _⟩ := descend_cons_ok reached
  exact tree.inner_of_edge found

/-- No walk from a node that the root reaches comes back to it. -/
theorem acyclic (reached : descend edges root path = .ok node) (deep : inner node)
    (back : descend edges node rest = .ok node) : rest = [] := by
  have longer : descend edges root (path ++ rest) = .ok node := by rw [descend_append reached, back]
  exact List.append_right_eq_self.mp (tree.unique deep longer reached)

end OnePath

/-- Each inner node is named by at most one edge out of a reached node, and the root by none. -/
structure SingleEdges (edges : Node → Label → Except ε Node) (inner : Node → Prop)
    (root : Node) : Prop where
  root_apart : ∀ {path node label}, descend edges root path = .ok node →
    edges node label ≠ .ok root
  single : ∀ {path other node node' label label' next}, inner next →
    descend edges root path = .ok node → descend edges root other = .ok node' →
    edges node label = .ok next → edges node' label' = .ok next → node = node' ∧ label = label'

/-- With single edges a path is determined by where it leads, from its last label back. -/
theorem SingleEdges.onePath {inner : Node → Prop} (graph : SingleEdges edges inner root)
    (inner_of_edge : ∀ {node label next}, edges node label = .ok next → inner node) :
    OnePath edges inner root := by
  refine ⟨inner_of_edge, ?_⟩
  intro node path other deep reached reached'
  have edge : ∀ {front label last}, descend edges root (front ++ [label]) = .ok last →
      ∃ middle, descend edges root front = .ok middle ∧ edges middle label = .ok last := by
    intro front label last arrives
    obtain ⟨middle, before, step⟩ := descend_append_ok arrives
    exact ⟨middle, before, by rw [descend_snoc before] at arrives; exact arrives⟩
  induction path using List.reverseRecOn generalizing node other with
  | nil =>
    cases reached
    cases other using List.reverseRecOn with
    | nil => rfl
    | append_singleton front label =>
      obtain ⟨middle, before, step⟩ := edge reached'
      exact (graph.root_apart before step).elim
  | append_singleton front label ih =>
    obtain ⟨middle, before, step⟩ := edge reached
    cases other using List.reverseRecOn with
    | nil =>
      cases reached'
      exact (graph.root_apart before step).elim
    | append_singleton front' label' =>
      obtain ⟨middle', before', step'⟩ := edge reached'
      obtain ⟨rfl, rfl⟩ := graph.single deep before before' step step'
      rw [ih (inner_of_edge step) before before']

theorem OnePath.singleEdges {inner : Node → Prop} (tree : OnePath edges inner root)
    (deep : inner root) : SingleEdges edges inner root := by
  constructor
  · intro path node label reached back
    have atRoot : descend edges root (path ++ [label]) = .ok root := by rw [descend_snoc reached, back]
    exact List.concat_ne_nil label path (tree.unique deep atRoot descend_nil)
  · intro path other node node' label label' next inside reached reached' step step'
    have here : descend edges root (path ++ [label]) = .ok next := by rw [descend_snoc reached, step]
    have here' : descend edges root (other ++ [label']) = .ok next := by
      rw [descend_snoc reached', step']
    obtain ⟨rfl, same⟩ := List.append_inj' (tree.unique inside here here') rfl
    exact ⟨Except.ok.inj (reached.symm.trans reached'), (List.cons.inj same).1⟩

section Changes

variable {inner : Node → Prop} {edges' : Node → Label → Except ε Node} {front : List Label}

private theorem snoc_not_below (front : List Label) (label : Label) :
    ¬ front ++ [label] <+: front := by
  intro below
  have longer := below.length_le
  simp only [List.length_append, List.length_singleton] at longer
  omega

/-- A path that is not below a node's edge does not take this edge. -/
theorem OnePath.avoids {last : Node} {back : List Label} {other : Label}
    (tree : OnePath edges inner root) (deep : inner node)
    (reached : descend edges root front = .ok node) (outside : ¬ front ++ [label] <+: path)
    (split : path = rest ++ other :: back) (arrives : descend edges root rest = .ok last) :
    ¬ (last = node ∧ other = label) := by
  rintro ⟨rfl, rfl⟩
  cases tree.unique deep arrives reached
  apply outside
  rw [split]
  exact ⟨back, by simp only [List.append_assoc, List.singleton_append]⟩

/-- Changing one edge out of the reached nodes leaves alone every path not below it. -/
theorem OnePath.descend_of_not_below (tree : OnePath edges inner root) (deep : inner node)
    (reached : descend edges root front = .ok node)
    (frame : ∀ {path other label'}, descend edges root path = .ok other →
      ¬ (other = node ∧ label' = label) → edges' other label' = edges other label')
    (outside : ¬ front ++ [label] <+: path) : descend edges' root path = descend edges root path := by
  apply descend_congr
  intro rest other back last split arrives
  exact frame arrives (tree.avoids deep reached outside split arrives)

/-- Removing an edge leaves nothing below it. -/
theorem OnePath.descend_of_below_removed (tree : OnePath edges inner root) (deep : inner node)
    (reached : descend edges root front = .ok node)
    (frame : ∀ {path other label'}, descend edges root path = .ok other →
      ¬ (other = node ∧ label' = label) → edges' other label' = edges other label')
    (removed : edges' node label = .error problem) :
    descend edges' root (front ++ label :: rest) = .error problem := by
  have there : descend edges' root front = .ok node := by
    rw [tree.descend_of_not_below deep reached frame (snoc_not_below front label), reached]
  rw [descend_append there, descend_cons_error removed]

/-- Removing an edge keeps paths unique. -/
theorem OnePath.remove (tree : OnePath edges inner root) (deep : inner node)
    (reached : descend edges root front = .ok node)
    (frame : ∀ {path other label'}, descend edges root path = .ok other →
      ¬ (other = node ∧ label' = label) → edges' other label' = edges other label')
    (removed : edges' node label = .error problem)
    (inner_of_edge : ∀ {node label next}, edges' node label = .ok next → inner node) :
    OnePath edges' inner root := by
  have kept : ∀ {path last}, descend edges' root path = .ok last →
      descend edges root path = .ok last := by
    intro path last arrives
    by_cases below : front ++ [label] <+: path
    · obtain ⟨rest, rfl⟩ := below
      rw [List.append_assoc, List.singleton_append,
        tree.descend_of_below_removed deep reached frame removed] at arrives
      cases arrives
    · rw [← tree.descend_of_not_below deep reached frame below]
      exact arrives
  refine ⟨inner_of_edge, ?_⟩
  intro last path other deep' arrives arrives'
  exact tree.unique deep' (kept arrives) (kept arrives')

/-- An edge to a node that nothing led to and that leads nowhere. -/
structure Plants (edges edges' : Node → Label → Except ε Node) (root node : Node)
    (label : Label) (next : Node) : Prop where
  planted : edges' node label = .ok next
  frame : ∀ {path other label'}, descend edges root path = .ok other →
    ¬ (other = node ∧ label' = label) → edges' other label' = edges other label'
  fresh : ∀ path, descend edges root path ≠ .ok next
  barren : ∀ label last, edges' next label ≠ .ok last

namespace Plants

variable (plants : Plants edges edges' root node label next) (tree : OnePath edges inner root)
  (deep : inner node) (reached : descend edges root front = .ok node)

include plants tree deep reached

theorem elsewhere (outside : ¬ front ++ [label] <+: path) :
    descend edges' root path = descend edges root path :=
  tree.descend_of_not_below deep reached plants.frame outside

theorem at_edge : descend edges' root (front ++ [label]) = .ok next := by
  have there := plants.elsewhere tree deep reached (snoc_not_below front label)
  rw [descend_snoc (there.trans reached), plants.planted]

/-- Nothing is below the new node. -/
theorem below {first : Label} {last : Node} :
    descend edges' root (front ++ label :: first :: rest) ≠ .ok last := by
  intro arrives
  have split : front ++ label :: first :: rest = front ++ [label] ++ first :: rest := by
    rw [List.append_assoc, List.singleton_append]
  rw [split, descend_append (plants.at_edge tree deep reached)] at arrives
  obtain ⟨middle, found, _⟩ := descend_cons_ok arrives
  exact plants.barren first middle found

/-- Paths stay unique; the new node may be an inner one. -/
theorem onePath {inner' : Node → Prop} (only : ∀ {other}, inner' other → other = next ∨ inner other)
    (inner_of_edge : ∀ {node label next}, edges' node label = .ok next → inner' node) :
    OnePath edges' inner' root := by
  have arrivals : ∀ {path last}, descend edges' root path = .ok last →
      (path = front ++ [label] ∧ last = next) ∨
        (last ≠ next ∧ descend edges root path = .ok last) := by
    intro path last arrives
    by_cases below : front ++ [label] <+: path
    · obtain ⟨rest, rfl⟩ := below
      cases rest with
      | nil =>
        rw [List.append_nil] at arrives ⊢
        rw [plants.at_edge tree deep reached] at arrives
        cases arrives
        exact Or.inl ⟨rfl, rfl⟩
      | cons first rest =>
        rw [List.append_assoc, List.singleton_append] at arrives
        exact (plants.below tree deep reached arrives).elim
    · rw [plants.elsewhere tree deep reached below] at arrives
      refine Or.inr ⟨?_, arrives⟩
      rintro rfl
      exact plants.fresh path arrives
  refine ⟨inner_of_edge, ?_⟩
  intro last path other deep' arrives arrives'
  rcases arrivals arrives with ⟨rfl, rfl⟩ | ⟨apart, before⟩
  · rcases arrivals arrives' with ⟨rfl, _⟩ | ⟨apart, _⟩
    · rfl
    · exact (apart rfl).elim
  · rcases arrivals arrives' with ⟨_, same⟩ | ⟨_, before'⟩
    · exact (apart same).elim
    · exact tree.unique ((only deep').resolve_left apart) before before'

end Plants

/-- The edge `label` of `source` to `moved` becomes the edge `label'` of `target`, which
led nowhere or to a node without edges. -/
structure Moves (edges edges' : Node → Label → Except ε Node) (source : Node) (label : Label)
    (target : Node) (label' : Label) (moved : Node) (gone : ε) : Prop where
  taken : edges source label = .ok moved
  apart : ¬ (source = target ∧ label = label')
  cleared : edges' source label = .error gone
  placed : edges' target label' = .ok moved
  frame : ∀ other label'', ¬ (other = source ∧ label'' = label) →
    ¬ (other = target ∧ label'' = label') → edges' other label'' = edges other label''
  barren : ∀ old label'' next, edges target label' = .ok old → edges old label'' ≠ .ok next

namespace Moves

variable {source target moved : Node} {label' : Label} {gone : ε} {front' : List Label}
  (moves : Moves edges edges' source label target label' moved gone)
  (tree : OnePath edges inner root)
  (atSource : descend edges root front = .ok source) (deep : inner source)
  (atTarget : descend edges root front' = .ok target) (deep' : inner target)

include moves tree atSource deep atTarget deep'

/-- A path below neither edge leads where it led before. -/
theorem elsewhere (outside : ¬ front ++ [label] <+: path)
    (outside' : ¬ front' ++ [label'] <+: path) :
    descend edges' root path = descend edges root path := by
  apply descend_congr
  intro rest other back last split arrives
  exact moves.frame last other (tree.avoids deep atSource outside split arrives)
    (tree.avoids deep' atTarget outside' split arrives)

/-- Nothing is left at or below the old edge: the way there does not pass the new one,
which led to nothing that has edges. -/
theorem old_gone : descend edges' root (front ++ label :: rest) = .error gone := by
  have there : descend edges' root front = .ok source := by
    rw [moves.elsewhere tree atSource deep atTarget deep' (snoc_not_below front label) ?_, atSource]
    rintro ⟨back, split⟩
    have passes : descend edges root (front' ++ label' :: (back ++ [label])) = .ok moved := by
      rw [← moves.taken, ← descend_snoc atSource, ← split]
      simp only [List.append_assoc, List.cons_append, List.nil_append]
    rw [descend_append atTarget] at passes
    obtain ⟨replaced, old, passes⟩ := descend_cons_ok passes
    cases back with
    | nil =>
      obtain ⟨next, found, _⟩ := descend_cons_ok passes
      exact moves.barren replaced label next old found
    | cons first back =>
      obtain ⟨next, found, _⟩ := descend_cons_ok passes
      exact moves.barren replaced first next old found
  rw [descend_append there, descend_cons_error moves.cleared]

/-- The way to the new edge is unchanged when it does not lead through what moves. -/
private theorem target_kept (outside : inner moved → ¬ front ++ [label] <+: front') :
    descend edges' root front' = .ok target := by
  rw [moves.elsewhere tree atSource deep atTarget deep' ?_ (snoc_not_below front' label'), atTarget]
  rintro ⟨back, split⟩
  refine outside ?_ ⟨back, split⟩
  rw [← split, List.append_assoc, List.singleton_append, descend_append atSource,
    descend_cons moves.taken] at atTarget
  cases back with
  | nil =>
    cases atTarget
    exact deep'
  | cons first back => exact tree.inner_of_walk atTarget

/-- Below the new edge stands what stood below the old one: from there no walk comes back
to the source, and none reaches the target. -/
theorem new_below (outside : inner moved → ¬ front ++ [label] <+: front') :
    descend edges' root (front' ++ label' :: rest) = descend edges root (front ++ label :: rest) := by
  rw [descend_append (moves.target_kept tree atSource deep atTarget deep' outside),
    descend_cons moves.placed, descend_append atSource, descend_cons moves.taken]
  apply descend_congr
  intro front'' other back last split arrives
  have whole : descend edges root (front ++ label :: front'') = .ok last := by
    rw [descend_append atSource, descend_cons moves.taken, arrives]
  apply moves.frame
  · rintro ⟨rfl, rfl⟩
    have same := congrArg List.length (tree.unique deep whole atSource)
    simp only [List.length_append, List.length_cons] at same
    omega
  · rintro ⟨rfl, rfl⟩
    have same := tree.unique deep' whole atTarget
    refine outside ?_ ⟨front'', by rw [← same, List.append_assoc, List.singleton_append]⟩
    cases front'' with
    | nil =>
      cases arrives
      exact deep'
    | cons first front'' => exact tree.inner_of_walk arrives

/-- Where a path leads after the move is where some path led before, and different paths
come from different ones. -/
theorem onePath (outside : inner moved → ¬ front ++ [label] <+: front') :
    OnePath edges' inner root := by
  have arrivals : ∀ {path last}, descend edges' root path = .ok last →
      (∃ rest, path = front' ++ label' :: rest ∧
        descend edges root (front ++ label :: rest) = .ok last) ∨
      (¬ front ++ [label] <+: path ∧ descend edges root path = .ok last) := by
    intro path last arrives
    by_cases below : front' ++ [label'] <+: path
    · obtain ⟨rest, rfl⟩ := below
      rw [List.append_assoc, List.singleton_append] at arrives ⊢
      rw [moves.new_below tree atSource deep atTarget deep' outside] at arrives
      exact Or.inl ⟨rest, rfl, arrives⟩
    · by_cases below' : front ++ [label] <+: path
      · obtain ⟨rest, rfl⟩ := below'
        rw [List.append_assoc, List.singleton_append,
          moves.old_gone tree atSource deep atTarget deep'] at arrives
        cases arrives
      · rw [moves.elsewhere tree atSource deep atTarget deep' below' below] at arrives
        exact Or.inr ⟨below', arrives⟩
  have below : ∀ rest, front ++ [label] <+: front ++ label :: rest := by
    intro rest
    exact ⟨rest, by rw [List.append_assoc, List.singleton_append]⟩
  constructor
  · intro other label'' next found
    by_cases atNew : other = target ∧ label'' = label'
    · exact atNew.1 ▸ deep'
    · by_cases atOld : other = source ∧ label'' = label
      · exact atOld.1 ▸ deep
      · exact tree.inner_of_edge ((moves.frame other label'' atOld atNew).symm.trans found)
  · intro last path other inside arrives arrives'
    rcases arrivals arrives with ⟨rest, rfl, before⟩ | ⟨apart, before⟩
    · rcases arrivals arrives' with ⟨rest', rfl, before'⟩ | ⟨apart', before'⟩
      · have same := List.append_cancel_left (tree.unique inside before before')
        rw [(List.cons.inj same).2]
      · exact (apart' (tree.unique inside before before' ▸ below rest)).elim
    · rcases arrivals arrives' with ⟨rest', rfl, before'⟩ | ⟨apart', before'⟩
      · exact (apart (tree.unique inside before' before ▸ below rest')).elim
      · exact tree.unique inside before before'

end Moves

end Changes

end RustPosix.Library
