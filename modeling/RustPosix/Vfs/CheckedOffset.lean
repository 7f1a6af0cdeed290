import RustPosix.Vfs.OpenFiles

/-! The methods of `FileHandle` and `RamFsFile` with the widths of their integers: a sum that
leaves its type halts the kernel, and so does a vector that cannot grow. -/

namespace RustPosix.Vfs

open Library

/-- Why a call does not return. -/
inductive Halt where
  | overflow
  | memory
  deriving DecidableEq, Repr

def addUsize (a b : Nat) : Except Halt Nat :=
  if a + b < 2 ^ 64 then .ok (a + b) else .error .overflow

def addI64 (a b : Int) : Except Halt Int :=
  if -2 ^ 63 ≤ a + b ∧ a + b < 2 ^ 63 then .ok (a + b) else .error .overflow

/-- `as i64` -/
def asI64 (n : Nat) : Int := (BitVec.ofNat 64 n).toInt

/-- `Vec::resize(len, 0)`. A vector has at most `isize::MAX` bytes, and `heap` says which sizes
the allocator can give. -/
def resize (heap : Nat → Bool) (data : List Byte) (len : Nat) : Except Halt (List Byte) :=
  if len ≤ data.length then .ok (data.take len)
  else if len < 2 ^ 63 ∧ heap len then .ok (data ++ List.replicate (len - data.length) 0)
  else .error .memory

namespace RamFsFile

/-- `RamFsFile::write` -/
def writeChecked (heap : Nat → Bool) (file : RamFsFile) (offset : Nat) (buf : List Byte) :
    Except Halt RamFsFile := do
  let needed ← addUsize offset buf.length
  let data ← if needed > file.data.length then do
      let len ← addUsize offset buf.length
      resize heap file.data len
    else pure file.data
  let _stop ← addUsize offset buf.length
  pure { file with data := splice data offset buf }

end RamFsFile

namespace FileHandle

/-- `FileHandle::read` -/
def readChecked (fs : RamFs) (handle : FileHandle) (count : Nat)
    (device : Except Int (List Byte)) : Except Halt (Except Int (List Byte) × FileHandle) :=
  match fs.readInode handle.inode handle.offset count device with
  | .error problem => pure (.error problem, handle)
  | .ok bytes => do
    let offset ← addUsize handle.offset bytes.length
    pure (.ok bytes, { handle with offset })

/-- `FileHandle::write` -/
def writeChecked (heap : Nat → Bool) (fs : RamFs) (handle : FileHandle) (buf : List Byte)
    (device : Except Int Nat) : Except Halt (Except Int Nat × FileHandle × RamFs) :=
  let handle := handle.positioned fs
  match fs.nodes handle.inode with
  | some (.file file) => do
    let written ← file.writeChecked heap handle.offset buf
    let offset ← addUsize handle.offset buf.length
    pure (.ok buf.length, { handle with offset }, fs.set handle.inode (.file written))
  | some (.dir _) => pure (.error eisdir, handle, fs)
  | _ =>
    match device with
    | .error problem => pure (.error problem, handle, fs)
    | .ok count => do
      let offset ← addUsize handle.offset count
      pure (.ok count, { handle with offset }, fs)

/-- `FileHandle::lseek` -/
def lseekChecked (fs : RamFs) (handle : FileHandle) (offset : Int) (whence : BitVec 32) :
    Except Halt (Except Int Int × FileHandle) := do
  let current := asI64 handle.offset
  let target ←
    if whence = seekSet then pure (some offset)
    else if whence = seekCur then (addI64 current offset).map some
    else if whence = seekEnd then (addI64 (asI64 (handle.size fs)) offset).map some
    else pure none
  match target with
  | none => pure (.error einval, handle)
  | some newOffset =>
    if newOffset < 0 then pure (.error einval, handle)
    else pure (.ok newOffset, { handle with offset := newOffset.toNat })

/-- The exact position that `lseek` is asked for. -/
def target (fs : RamFs) (handle : FileHandle) (offset : Int) (whence : BitVec 32) : Option Int :=
  if whence = seekSet then some offset
  else if whence = seekCur then some (handle.offset + offset)
  else if whence = seekEnd then some (handle.size fs + offset)
  else none

end FileHandle

section Arithmetic

variable {a b n : Nat} {offset : Int}

theorem addUsize_ok (fits : a + b < 2 ^ 64) : addUsize a b = .ok (a + b) := if_pos fits

theorem asI64_small (small : n < 2 ^ 63) : asI64 n = n := by
  have exact : (BitVec.ofNat 64 n).toNat = n := Nat.mod_eq_of_lt (by omega)
  rw [asI64, BitVec.toInt_eq_toNat_of_lt (by omega), exact]

/-- A sum of a length or a position with an `i64` can only be too large. -/
theorem addI64_of_small (small : n < 2 ^ 63) (low : -2 ^ 63 ≤ offset) :
    addI64 (asI64 n) offset =
      if (n + offset : Int) < 2 ^ 63 then .ok (n + offset) else .error .overflow := by
  rw [asI64_small small, addI64]
  have above : -2 ^ 63 ≤ (n + offset : Int) := by omega
  simp only [above, true_and]

end Arithmetic

section Methods

variable {heap : Nat → Bool} {fs : RamFs} {handle : FileHandle} {file : RamFsFile} {offset : Nat}
  {buf : List Byte}

/-- A write that returns does what the unchecked one does, and the file stays a vector. -/
theorem RamFsFile.writeChecked_spec (bounded : file.data.length < 2 ^ 63)
    (fits : offset + buf.length < 2 ^ 64) :
    file.writeChecked heap offset buf = .error .memory ∨
      file.writeChecked heap offset buf = .ok (file.write offset buf) ∧
        offset + buf.length < 2 ^ 63 := by
  rw [writeChecked, addUsize_ok fits]
  by_cases longer : offset + buf.length > file.data.length
  · by_cases room : offset + buf.length < 2 ^ 63 ∧ heap (offset + buf.length)
    · right
      refine ⟨?_, room.1⟩
      simp only [bind, Except.bind, if_pos longer, resize, if_neg (Nat.not_le.mpr longer), if_pos room]
      rw [write, grow, if_pos longer]
      rfl
    · left
      simp only [bind, Except.bind, if_pos longer, resize, if_neg (Nat.not_le.mpr longer), if_neg room]
  · right
    refine ⟨?_, by omega⟩
    simp only [bind, Except.bind, if_neg longer]
    rw [write, grow, if_neg longer]
    rfl

theorem RamFsFile.length_write :
    (file.write offset buf).data.length = max file.data.length (offset + buf.length) := by
  have long := @le_length_grow file (offset + buf.length)
  rw [write, length_splice long, ByteFile.length_grow]

theorem RamFsFile.length_read_le {count : Nat} :
    offset + (file.read offset count).length ≤ max offset file.data.length := by
  unfold read
  by_cases behind : offset ≥ file.data.length
  · rw [if_pos behind]
    exact Nat.le_max_left ..
  · rw [if_neg behind]
    simp only [slice, List.length_drop, List.length_take]
    omega

/-- Behind a read the position is where it was or inside the file. -/
theorem FileHandle.readChecked_spec {count : Nat} {device : Except Int (List Byte)}
    (there : fs.fileAt handle.inode = some file) (bounded : file.data.length < 2 ^ 63)
    (small : handle.offset < 2 ^ 63) :
    handle.readChecked fs count device = .ok (handle.read fs count device) ∧
      (handle.read fs count device).2.offset < 2 ^ 63 := by
  have behind := @RamFsFile.length_read_le file handle.offset count
  rw [read_regular there, readChecked, RamFs.readInode, RamFs.fileAt_eq_some.mp there]
  refine ⟨?_, show handle.offset + _ < _ by omega⟩
  simp only [addUsize_ok (show handle.offset + (file.read handle.offset count).length < 2 ^ 64 by omega)]
  rfl

/-- A write that returns leaves the position inside the file. -/
theorem FileHandle.writeChecked_spec {device : Except Int Nat}
    (there : fs.fileAt handle.inode = some file) (bounded : file.data.length < 2 ^ 63)
    (small : handle.offset < 2 ^ 63) (short : buf.length ≤ 2 ^ 20) :
    handle.writeChecked heap fs buf device = .error .memory ∨
      handle.writeChecked heap fs buf device = .ok (handle.write fs buf device) ∧
        handle.writeOffset fs + buf.length < 2 ^ 63 := by
  have position : handle.writeOffset fs < 2 ^ 63 := by
    rw [writeOffset, size_regular there]
    split <;> assumption
  have start : handle.positioned fs = { handle with offset := handle.writeOffset fs } := by
    rw [positioned, writeOffset]
    split <;> rfl
  have fits : handle.writeOffset fs + buf.length < 2 ^ 64 := by omega
  rw [write_regular there]
  unfold writeChecked
  rw [start]
  simp only [RamFs.fileAt_eq_some.mp there]
  rcases @RamFsFile.writeChecked_spec heap file _ buf bounded fits with stopped | ⟨written, room⟩
  · left
    rw [stopped]
    rfl
  · right
    rw [written, addUsize_ok fits]
    exact ⟨rfl, room⟩

/-- What `lseek` does, by the exact position. -/
theorem FileHandle.lseekChecked_spec {offset : BitVec 64} {whence : BitVec 32}
    (there : fs.fileAt handle.inode = some file) (bounded : file.data.length < 2 ^ 63)
    (small : handle.offset < 2 ^ 63) :
    handle.lseekChecked fs offset.toInt whence =
      match handle.target fs offset.toInt whence with
      | none => .ok (.error einval, handle)
      | some position =>
        if position < 2 ^ 63 then
          if position < 0 then .ok (.error einval, handle)
          else .ok (.ok position, { handle with offset := position.toNat })
        else .error .overflow := by
  have low : -2 ^ 63 ≤ offset.toInt := by
    have bound := offset.le_toInt
    exact bound
  have high : offset.toInt < 2 ^ 63 := offset.toInt_lt
  have size : handle.size fs < 2 ^ 63 := by rw [size_regular there]; exact bounded
  rw [lseekChecked, target]
  by_cases set : whence = seekSet
  · simp only [if_pos set, if_pos high]
    rfl
  · by_cases current : whence = seekCur
    · simp only [if_neg set, if_pos current, addI64_of_small small low]
      split <;> rfl
    · by_cases fromEnd : whence = seekEnd
      · simp only [if_neg set, if_neg current, if_pos fromEnd, addI64_of_small size low]
        split <;> rfl
      · simp only [if_neg set, if_neg current, if_neg fromEnd]
        rfl

end Methods

end RustPosix.Vfs
