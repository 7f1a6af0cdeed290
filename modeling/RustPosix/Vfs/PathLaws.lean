import RustPosix.Vfs.Path

/-! `normalize_path` is canonical and composes, and the two resolvers agree. -/

namespace RustPosix.Vfs

open Library

/-- The loop of `normalize_path`, from the components that it has so far. -/
def walk (kept : List Name) (path : Name) : List Name :=
  (path.splitOn slash).foldl pushComponent kept

/-- The last lines of `normalize_path`. -/
def render (kept : List Name) : Name :=
  if kept = [] then [slash] else kept.flatMap (slash :: ·)

/-- A component that stays in a normalized path. -/
structure Ordinary (part : Name) : Prop where
  plain : Plain part
  notDot : part ≠ [dot]
  notDotDot : part ≠ [dot, dot]

section Walk

variable {kept parts : List Name} {cwd path front back : Name}

theorem normalizePath_eq_render : normalizePath cwd path = render (normalComponents cwd path) := rfl

theorem walk_nil : walk kept [] = kept := by
  rw [walk, List.splitOn_nil, List.foldl_cons, List.foldl_nil]
  exact if_pos (.inl rfl)

theorem walk_append : walk kept (front ++ slash :: back) = walk (walk kept front) back := by
  rw [walk, List.splitOn_append_cons_self, List.foldl_append]
  rfl

theorem walk_slash : walk kept (slash :: path) = walk kept path := by
  rw [← List.nil_append (slash :: path), walk_append, walk_nil]

/-- A relative path goes on from where the directory ends. -/
theorem normalComponents_eq : normalComponents cwd path =
    if path.head? = some slash then walk [] path else walk (walk [] cwd) path := by
  change walk [] (fullPath cwd path) = _
  unfold fullPath
  by_cases absolute : path.head? = some slash
  · rw [if_pos absolute, if_pos absolute]
  · rw [if_neg absolute, if_neg absolute]
    by_cases atRoot : cwd = [slash]
    · rw [if_pos atRoot, atRoot, walk_slash, walk_slash, walk_nil]
    · rw [if_neg atRoot, walk_append]

theorem ordinary_pushComponent {part : Name} (ordinary : ∀ name ∈ kept, Ordinary name)
    (free : slash ∉ part) : ∀ name ∈ pushComponent kept part, Ordinary name := by
  intro name member
  unfold pushComponent at member
  by_cases skipped : part = [] ∨ part = [dot]
  · rw [if_pos skipped] at member
    exact ordinary name member
  · rw [if_neg skipped] at member
    by_cases up : part = [dot, dot]
    · rw [if_pos up] at member
      exact ordinary name (List.mem_of_mem_dropLast member)
    · rw [if_neg up] at member
      rcases List.mem_append.mp member with old | new
      · exact ordinary name old
      · rw [List.mem_singleton.mp new]
        exact ⟨⟨fun empty => skipped (.inl empty), free⟩, fun here => skipped (.inr here), up⟩

/-- Whatever is walked along, only ordinary components are kept. -/
theorem ordinary_walk (ordinary : ∀ name ∈ kept, Ordinary name) :
    ∀ name ∈ walk kept path, Ordinary name := by
  have free : ∀ part ∈ path.splitOn slash, slash ∉ part := fun part => slash_not_mem_of_mem_splitOn
  unfold walk
  generalize path.splitOn slash = parts at free
  induction parts generalizing kept with
  | nil => exact ordinary
  | cons part parts ih =>
    refine ih (ordinary_pushComponent ordinary (free part List.mem_cons_self)) ?_
    exact fun later member => free later (List.mem_cons_of_mem part member)

theorem ordinary_normalComponents : ∀ name ∈ normalComponents cwd path, Ordinary name :=
  ordinary_walk fun _ none => nomatch none

theorem splitOn_flatMap (ordinary : ∀ name ∈ parts, Ordinary name) :
    (parts.flatMap (slash :: ·)).splitOn slash = [] :: parts := by
  induction parts using List.reverseRecOn with
  | nil => rfl
  | append_singleton parts last ih =>
    have free := (ordinary last (List.mem_append_right _ List.mem_cons_self)).plain.2
    rw [List.flatMap_append, List.flatMap_singleton, List.splitOn_append_cons_self,
      ih fun name member => ordinary name (List.mem_append_left _ member),
      List.splitOn_eq_singleton free]
    rfl

/-- Ordinary components are kept as they are. -/
theorem walk_render (ordinary : ∀ name ∈ parts, Ordinary name) : walk [] (render parts) = parts := by
  have push : ∀ kept : List Name, parts.foldl pushComponent kept = kept ++ parts := by
    induction parts with
    | nil => exact fun kept => (List.append_nil kept).symm
    | cons part parts ih =>
      intro kept
      have first := ordinary part List.mem_cons_self
      have pushed : pushComponent kept part = kept ++ [part] := by
        unfold pushComponent
        rw [if_neg (not_or.mpr ⟨first.plain.1, first.notDot⟩), if_neg first.notDotDot]
      rw [List.foldl_cons, pushed, ih fun name member => ordinary name (List.mem_cons_of_mem part member),
        List.append_assoc]
      rfl
  unfold render
  by_cases none : parts = []
  · rw [if_pos none, walk_slash, walk_nil, none]
  · rw [if_neg none, walk, splitOn_flatMap ordinary, List.foldl_cons]
    exact push []

theorem walk_normalizePath : walk [] (normalizePath cwd path) = normalComponents cwd path :=
  walk_render ordinary_normalComponents

end Walk

/-- An absolute path without anything to resolve in it. -/
structure Canonical (path : Name) : Prop where
  absolute : path.head? = some slash
  components : path ≠ [slash] →
    ∀ part ∈ (path.splitOn slash).tail, part ≠ [] ∧ part ≠ [dot] ∧ part ≠ [dot, dot]
  trailing : path ≠ [slash] → path.getLast? ≠ some slash

theorem canonical_render {parts : List Name} (ordinary : ∀ name ∈ parts, Ordinary name) :
    Canonical (render parts) := by
  unfold render
  by_cases none : parts = []
  · rw [if_pos none]
    exact ⟨rfl, fun other => absurd rfl other, fun other => absurd rfl other⟩
  · rw [if_neg none]
    refine ⟨?_, fun _ part member => ?_, fun _ => ?_⟩
    · cases parts with
      | nil => exact absurd rfl none
      | cons first rest => rfl
    · rw [splitOn_flatMap ordinary, List.tail_cons] at member
      exact ⟨(ordinary part member).plain.1, (ordinary part member).notDot,
        (ordinary part member).notDotDot⟩
    · rw [← List.dropLast_append_getLast none, List.flatMap_append, List.flatMap_singleton]
      have plain := (ordinary _ (List.getLast_mem none)).plain
      generalize parts.getLast none = last at plain ⊢
      rw [← List.singleton_append, ← List.append_assoc, List.getLast?_append_of_ne_nil _ plain.1]
      exact fun found => plain.2 (List.mem_of_getLast? found)

theorem RamFs.resolvePath_of_parent_error {fs : RamFs} {root : InodeId} {cwd path : Name}
    {problem : Int} (failed : fs.resolveParentAndBasename root cwd path = .error problem)
    (other : problem ≠ einval) : fs.resolvePath root cwd path = .error problem := by
  unfold resolveParentAndBasename at failed
  simp only [components_normalizePath] at failed
  by_cases atRoot : normalizePath cwd path = [slash]
  · rw [if_pos atRoot, Except.error.injEq] at failed
    exact absurd failed.symm other
  · rw [if_neg atRoot] at failed
    cases last : (normalComponents cwd path).getLast? with
    | none =>
      rw [last] at failed
      exact absurd (Except.error.inj failed).symm other
    | some basename =>
      rw [last] at failed
      cases reached : descend fs.lookup root (normalComponents cwd path).dropLast with
      | ok parent =>
        rw [reached] at failed
        exact nomatch failed
      | error lost =>
        rw [reached] at failed
        obtain rfl := Except.error.inj failed
        rw [resolvePath_eq, ← List.dropLast_append_getLast? basename last]
        exact descend_append_error reached

/-- For every directory and all strings, normalized or not. -/
theorem normalizePath_laws (fs : RamFs) (root : InodeId) (cwd a b : Name) :
    Canonical (normalizePath cwd a) ∧
      (∀ base, normalizePath base (normalizePath cwd a) = normalizePath cwd a) ∧
      (a ≠ [] → b.head? ≠ some slash →
        normalizePath (normalizePath cwd a) b = normalizePath cwd (a ++ slash :: b)) ∧
      (∀ parent basename, fs.resolveParentAndBasename root cwd a = .ok (parent, basename) →
        fs.resolvePath root cwd a = fs.lookup parent basename) ∧
      (∀ problem, fs.resolveParentAndBasename root cwd a = .error problem → problem ≠ einval →
        fs.resolvePath root cwd a = .error problem) := by
  have canonical : Canonical (normalizePath cwd a) := canonical_render ordinary_normalComponents
  refine ⟨canonical, fun base => ?_, fun nonempty relative => ?_, fun parent basename resolved => ?_,
    fun problem failed other => ?_⟩
  · rw [@normalizePath_eq_render base, normalComponents_eq, if_pos canonical.absolute,
      walk_normalizePath, ← normalizePath_eq_render]
  · have start : (a ++ slash :: b).head? = a.head? := List.head?_append_of_ne_nil a nonempty
    have further : normalComponents cwd (a ++ slash :: b) = walk (normalComponents cwd a) b := by
      rw [normalComponents_eq, normalComponents_eq, start]
      split <;> exact walk_append
    rw [@normalizePath_eq_render _ b, normalComponents_eq, if_neg relative, walk_normalizePath,
      ← further, ← normalizePath_eq_render]
  · obtain ⟨front, split, reached⟩ := RamFs.resolveParentAndBasename_ok resolved
    rw [RamFs.resolvePath_eq, split, descend_snoc reached]
  · exact RamFs.resolvePath_of_parent_error failed other

/-- From `/a`, first `b/..` and then `../c`. -/
theorem normalizePath_laws_up :
    normalizePath (normalizePath [slash, 97] [98, slash, dot, dot]) [dot, dot, slash, 99] =
      normalizePath [slash, 97] [98, slash, dot, dot, slash, dot, dot, slash, 99] :=
  (normalizePath_laws ⟨fun _ => none, 0⟩ 0 [slash, 97] [98, slash, dot, dot]
    [dot, dot, slash, 99]).2.2.1 (by decide) (by decide)

end RustPosix.Vfs
