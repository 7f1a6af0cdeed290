import RustPosix.Vfs.RamFsSteps

/-! Path names and how `services/vfs/mod.rs` resolves them from the root. -/

namespace RustPosix.Vfs

open Library

def slash : Byte := 0x2F

def dot : Byte := 0x2E

/-- `core::str::from_utf8` accepts a string of bytes: shortest forms only, no surrogates,
nothing above U+10FFFF. -/
def validUtf8 : List Byte → Bool
  | [] => true
  | first :: rest =>
    let tail := fun byte : Byte => 0x80 ≤ byte && byte ≤ 0xBF
    if first ≤ 0x7F then validUtf8 rest
    else if 0xC2 ≤ first ∧ first ≤ 0xDF then
      match rest with
      | second :: rest => tail second && validUtf8 rest
      | _ => false
    else if 0xE0 ≤ first ∧ first ≤ 0xEF then
      match rest with
      | second :: third :: rest =>
        tail second && (first ≠ 0xE0 || 0xA0 ≤ second) && (first ≠ 0xED || second ≤ 0x9F) &&
          tail third && validUtf8 rest
      | _ => false
    else if 0xF0 ≤ first ∧ first ≤ 0xF4 then
      match rest with
      | second :: third :: fourth :: rest =>
        tail second && (first ≠ 0xF0 || 0x90 ≤ second) && (first ≠ 0xF4 || second ≤ 0x8F) &&
          tail third && tail fourth && validUtf8 rest
      | _ => false
    else false

/-- The body of the loop of `normalize_path` -/
def pushComponent (components : List Name) (part : Name) : List Name :=
  if part = [] ∨ part = [dot] then components
  else if part = [dot, dot] then components.dropLast
  else components ++ [part]

/-- A path relative to `cwd`, written from the root. -/
def fullPath (cwd path : Name) : Name :=
  if path.head? = some slash then path
  else if cwd = [slash] then slash :: path
  else cwd ++ slash :: path

def normalizePath (cwd path : Name) : Name :=
  let components := ((fullPath cwd path).splitOn slash).foldl pushComponent []
  if components = [] then [slash] else components.flatMap (slash :: ·)

/-- The parts of a path that are looked up one after the other. -/
def components (norm : Name) : List Name := (norm.splitOn slash).filter (· ≠ [])

namespace RamFs

def resolvePath (fs : RamFs) (root : InodeId) (cwd path : Name) : Except Int InodeId :=
  let norm := normalizePath cwd path
  if norm = [slash] then .ok root
  else descend fs.lookup root (components norm)

def resolveParentAndBasename (fs : RamFs) (root : InodeId) (cwd path : Name) :
    Except Int (InodeId × Name) :=
  let norm := normalizePath cwd path
  if norm = [slash] then .error einval
  else
    match (components norm).getLast? with
    | none => .error einval
    | some basename =>
      match descend fs.lookup root (components norm).dropLast with
      | .ok parent => .ok (parent, basename)
      | .error problem => .error problem

end RamFs

example : normalizePath [slash, 97] [dot, dot, slash, 98, slash, slash, 99] =
    [slash, 98, slash, 99] := by
  decide

/-- A part of a path that can be a name: not empty and without a slash. -/
def Plain (part : Name) : Prop := part ≠ [] ∧ slash ∉ part

theorem slash_not_mem_of_mem_splitOn {part path : Name}
    (member : part ∈ path.splitOn slash) : slash ∉ part := by
  induction path generalizing part with
  | nil =>
    rw [List.splitOn_nil, List.mem_singleton] at member
    exact member ▸ List.not_mem_nil
  | cons first path ih =>
    rw [List.splitOn_cons_eq_if_modifyHead] at member
    split at member
    · rcases List.mem_cons.mp member with rfl | later
      · exact List.not_mem_nil
      · exact ih later
    · rename_i other
      cases parts : path.splitOn slash with
      | nil => exact absurd parts (List.splitOn_ne_nil _ _)
      | cons head tail =>
        rw [parts, List.modifyHead_cons] at member
        rcases List.mem_cons.mp member with rfl | later
        · intro inside
          rcases List.mem_cons.mp inside with same | inside
          · exact other (by rw [← same, beq_self_eq_true])
          · exact ih (parts ▸ List.mem_cons_self) inside
        · exact ih (parts ▸ List.mem_cons_of_mem head later)

/-- What `normalize_path` keeps of a path. -/
def normalComponents (cwd path : Name) : List Name :=
  ((fullPath cwd path).splitOn slash).foldl pushComponent []

private theorem plain_pushComponent {kept : List Name} {part : Name}
    (plain : ∀ name ∈ kept, Plain name) (free : slash ∉ part) :
    ∀ name ∈ pushComponent kept part, Plain name := by
  intro name member
  unfold pushComponent at member
  split at member
  · exact plain name member
  · rename_i visible
    split at member
    · exact plain name (List.mem_of_mem_dropLast member)
    · rcases List.mem_append.mp member with old | new
      · exact plain name old
      · cases List.mem_singleton.mp new
        exact ⟨fun empty => visible (Or.inl empty), free⟩

theorem plain_normalComponents {cwd path name : Name}
    (member : name ∈ normalComponents cwd path) : Plain name := by
  have all : ∀ (parts kept : List Name), (∀ part ∈ parts, slash ∉ part) →
      (∀ name ∈ kept, Plain name) → ∀ name ∈ parts.foldl pushComponent kept, Plain name := by
    intro parts
    induction parts with
    | nil => exact fun kept _ plain => plain
    | cons part parts ih =>
      intro kept free plain
      apply ih (pushComponent kept part) fun part later => free part (List.mem_cons_of_mem _ later)
      exact plain_pushComponent plain (free part List.mem_cons_self)
  exact all _ [] (fun part => slash_not_mem_of_mem_splitOn) (fun name none => nomatch none)
    name member

theorem components_append (front back : Name) :
    components (front ++ slash :: back) = components front ++ components back := by
  unfold components
  rw [List.splitOn_append_cons_self, List.filter_append]

private theorem components_plain {part : Name} (plain : Plain part) : components part = [part] := by
  unfold components
  rw [List.splitOn_eq_singleton plain.2]
  simp only [ne_eq, plain.1, not_false_eq_true, decide_true, List.filter_cons_of_pos,
    List.filter_nil]

/-- Written out with a slash before each of them, plain names are found again. -/
theorem components_flatMap {parts : List Name} (plain : ∀ part ∈ parts, Plain part) :
    components (parts.flatMap (slash :: ·)) = parts := by
  induction parts using List.reverseRecOn with
  | nil => rfl
  | append_singleton parts last ih =>
    rw [List.flatMap_append, List.flatMap_singleton, components_append,
      ih fun part member => plain part (List.mem_append_left _ member),
      components_plain (plain last (List.mem_append_right _ List.mem_cons_self))]

theorem components_normalizePath (cwd path : Name) :
    components (normalizePath cwd path) = normalComponents cwd path := by
  change components (if normalComponents cwd path = [] then [slash]
    else (normalComponents cwd path).flatMap (slash :: ·)) = _
  split
  · rename_i none
    rw [none]
    rfl
  · exact components_flatMap fun part => plain_normalComponents

theorem normalizePath_eq_slash_iff (cwd path : Name) :
    normalizePath cwd path = [slash] ↔ normalComponents cwd path = [] := by
  constructor
  · intro atRoot
    rw [← components_normalizePath, atRoot]
    rfl
  · intro none
    exact if_pos none

theorem normalizePath_of_ne_nil {cwd path : Name} (some : normalComponents cwd path ≠ []) :
    normalizePath cwd path = (normalComponents cwd path).flatMap (slash :: ·) :=
  if_neg some

/-- Paths below a normalized one start with it and a slash. -/
theorem flatMap_starts {front back : List Name} (nonempty : back ≠ []) :
    front.flatMap (slash :: ·) ++ [slash] <+: (front ++ back).flatMap (slash :: ·) := by
  cases back with
  | nil => exact (nonempty rfl).elim
  | cons first back =>
    refine ⟨first ++ back.flatMap (slash :: ·), ?_⟩
    rw [List.flatMap_append, List.flatMap_cons, List.append_assoc]
    rfl

namespace RamFs

variable {fs : RamFs} {root : InodeId} {cwd path : Name}

/-- Resolving a path is one walk along its components, the root being their end if there
is none. -/
theorem resolvePath_eq : fs.resolvePath root cwd path =
    descend fs.lookup root (normalComponents cwd path) := by
  unfold resolvePath
  simp only [normalizePath_eq_slash_iff, components_normalizePath]
  split
  · rename_i none
    rw [none]
    rfl
  · rfl

theorem resolveParentAndBasename_of_split {front : List Name} {parent : InodeId} {name : Name}
    (split : normalComponents cwd path = front ++ [name])
    (reached : descend fs.lookup root front = .ok parent) :
    fs.resolveParentAndBasename root cwd path = .ok (parent, name) := by
  have nonempty : ¬ normalComponents cwd path = [] := by
    rw [split]
    exact List.concat_ne_nil name front
  unfold resolveParentAndBasename
  simp only [components_normalizePath, normalizePath_eq_slash_iff]
  rw [if_neg nonempty, split, List.getLast?_concat, List.dropLast_concat, reached]

theorem resolveParentAndBasename_ok {parent : InodeId} {basename : Name}
    (resolved : fs.resolveParentAndBasename root cwd path = .ok (parent, basename)) :
    ∃ front, normalComponents cwd path = front ++ [basename] ∧
      descend fs.lookup root front = .ok parent := by
  unfold resolveParentAndBasename at resolved
  simp only [components_normalizePath] at resolved
  split at resolved
  · cases resolved
  split at resolved
  · cases resolved
  rename_i last isLast
  split at resolved
  · rename_i reached
    cases resolved
    exact ⟨_, (List.dropLast_append_getLast? _ isLast).symm, reached⟩
  · cases resolved

theorem resolvePath_error {problem : Int}
    (failed : fs.resolvePath root cwd path = .error problem) : 0 < problem :=
  descend_error (0 < ·) lookup_error (resolvePath_eq.symm.trans failed)

theorem resolveParentAndBasename_error {problem : Int}
    (failed : fs.resolveParentAndBasename root cwd path = .error problem) : 0 < problem := by
  unfold resolveParentAndBasename at failed
  simp only at failed
  split at failed
  · cases failed
    decide
  split at failed
  · cases failed
    decide
  split at failed
  · cases failed
  · rename_i lost
    cases failed
    exact descend_error (0 < ·) lookup_error lost

end RamFs

end RustPosix.Vfs
