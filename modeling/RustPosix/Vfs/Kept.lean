import RustPosix.Vfs.Contents
import RustPosix.Vfs.Standing

/-! What a path holds for a user, and what of it the operations on the tree keep. -/

namespace RustPosix.Vfs

open Library

/-- What a user finds: the kind of an inode and the bytes of a regular file; a special inode is
nothing but itself. -/
inductive Contents where
  | directory
  | file (data : List Byte)
  | special (id : InodeId)
  deriving DecidableEq

namespace RamFs

def contentsOf (fs : RamFs) (id : InodeId) : Contents :=
  match fs.nodes id with
  | some (.dir _) => .directory
  | some (.file regular) => .file regular.data
  | _ => .special id

def contents (fs : RamFs) (root : InodeId) (path : List Name) : Option Contents :=
  match descend fs.lookup root path with
  | .ok id => some (fs.contentsOf id)
  | .error _ => none

variable {fs after : RamFs} {root id other : InodeId} {path front : List Name} {name : Name}
  {held : Contents}

theorem contents_of_ok (reached : descend fs.lookup root path = .ok id) :
    fs.contents root path = some (fs.contentsOf id) := by
  unfold contents
  rw [reached]

theorem contentsOf_eq_directory : fs.contentsOf id = .directory ↔ fs.isDirectory id = true := by
  unfold contentsOf isDirectory dirAt
  cases fs.nodes id with
  | none => simp
  | some inode => cases inode <;> simp

theorem contentsOf_eq_file {data : List Byte} : fs.contentsOf id = .file data ↔
    ∃ regular, fs.fileAt id = some regular ∧ regular.data = data := by
  unfold contentsOf fileAt
  cases fs.nodes id with
  | none => simp
  | some inode => cases inode <;> simp

/-- Only the entries of a directory change. -/
theorem contentsOf_modify {change : RamFsDir → RamFsDir} :
    (fs.modify id change).contentsOf other = fs.contentsOf other := by
  unfold modify
  split
  · rename_i dir there
    by_cases same : other = id
    · subst same
      rw [contentsOf_eq_directory.mpr (isDirectory_of_dirAt there), contentsOf_eq_directory]
      unfold isDirectory
      rw [dirAt_set, if_pos rfl]
      rfl
    · unfold contentsOf set
      simp only [Function.update_of_ne same]
  · rfl

theorem contentsOf_alloc {inode : Inode} (old : other ≠ fs.created) :
    (fs.alloc inode).2.contentsOf other = fs.contentsOf other := by
  unfold contentsOf alloc
  simp only [Function.update_of_ne old]

theorem contentsOf_truncate : (fs.truncate id).contentsOf other =
    if other = id ∧ (fs.fileAt id).isSome then .file [] else fs.contentsOf other := by
  unfold truncate
  split
  · rename_i regular there
    rw [there]
    by_cases same : other = id
    · subst same
      rw [if_pos ⟨rfl, rfl⟩, contentsOf_eq_file]
      exact ⟨_, fileAt_set_self, rfl⟩
    · rw [if_neg fun both => same both.1]
      unfold contentsOf set
      simp only [Function.update_of_ne same]
  · rename_i absent
    rw [absent, if_neg (fun both => nomatch both.2)]

/-- Truncating a file changes no directory. -/
theorem dirAt_truncate : (fs.truncate id).dirAt other = fs.dirAt other := by
  unfold truncate
  split
  · rename_i regular there
    rw [dirAt_set]
    split
    · rename_i same
      rw [same]
      unfold dirAt
      rw [fileAt_eq_some.mp there]
    · rfl
  · rfl

theorem lookup_truncate : (fs.truncate id).lookup other name = fs.lookup other name :=
  lookup_congr dirAt_truncate

end RamFs

end RustPosix.Vfs
