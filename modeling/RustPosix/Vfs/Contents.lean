import RustPosix.Vfs.FileHandle
import RustPosix.Vfs.RamFsSteps

/-! What the operations on the filesystem do to the contents of its regular files. -/

namespace RustPosix.Vfs

open Library

namespace RamFs

variable {fs : RamFs} {file id : InodeId} {regular : RamFsFile}

theorem fileAt_eq_some : fs.fileAt file = some regular ↔ fs.nodes file = some (.file regular) := by
  unfold fileAt
  split
  · rename_i found there
    rw [there]
    simp
  · rename_i other
    refine ⟨nofun, fun there => (other regular there).elim⟩

theorem fileAt_set_self : (fs.set file (.file regular)).fileAt file = some regular := by
  rw [fileAt_eq_some]
  exact Function.update_self ..

theorem fileAt_set_of_ne {inode : Inode} (other : file ≠ id) :
    (fs.set id inode).fileAt file = fs.fileAt file := by
  unfold fileAt set
  simp only [Function.update_of_ne other]

theorem fileAt_truncate (there : fs.fileAt file = some regular) :
    (fs.truncate id).fileAt file =
      some (if file = id then { regular with data := [] } else regular) := by
  unfold truncate
  by_cases same : file = id
  · subst same
    rw [there, if_pos rfl]
    exact fileAt_set_self
  · rw [if_neg same]
    split
    · rw [fileAt_set_of_ne same, there]
    · exact there

end RamFs

namespace RamFsFile

variable {file : RamFsFile} {offset count : Nat}

theorem le_length_grow {len : Nat} : len ≤ (file.grow len).length := by
  unfold grow
  split
  · rw [List.length_append, List.length_replicate]
    omega
  · omega

end RamFsFile

namespace FileHandle

variable {fs after : RamFs} {handle moved : FileHandle} {file : InodeId} {regular : RamFsFile}
  {buf : List Byte} {device : Except Int Nat} {result : Except Int Nat}

theorem read_regular {count : Nat} {device : Except Int (List Byte)}
    (there : fs.fileAt handle.inode = some regular) :
    handle.read fs count device = (.ok (regular.read handle.offset count),
      { handle with offset := handle.offset + (regular.read handle.offset count).length }) := by
  unfold read RamFs.readInode
  rw [RamFs.fileAt_eq_some.mp there]

theorem size_regular (there : fs.fileAt handle.inode = some regular) :
    handle.size fs = regular.data.length := by
  unfold size
  rw [there]

/-- The offset at which a write through the handle starts. -/
def writeOffset (fs : RamFs) (handle : FileHandle) : Nat :=
  if handle.flags &&& oAppend ≠ 0 then handle.size fs else handle.offset

theorem write_regular (there : fs.fileAt handle.inode = some regular) :
    handle.write fs buf device = (.ok buf.length,
      { handle with offset := handle.writeOffset fs + buf.length },
      fs.set handle.inode (.file (regular.write (handle.writeOffset fs) buf))) := by
  unfold write positioned writeOffset
  by_cases append : handle.flags &&& oAppend ≠ 0
  · simp only [if_pos append, RamFs.fileAt_eq_some.mp there]
  · simp only [if_neg append, RamFs.fileAt_eq_some.mp there]

theorem read_handle {fs : RamFs} {count : Nat} {device result : Except Int (List Byte)}
    (done : handle.read fs count device = (result, moved)) :
    moved.inode = handle.inode ∧ moved.flags = handle.flags := by
  unfold read at done
  split at done <;> cases done <;> exact ⟨rfl, rfl⟩

end FileHandle

end RustPosix.Vfs
