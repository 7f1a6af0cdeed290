import RustPosix.Library.Splice
import RustPosix.Vfs.Permission

/-! Open files, `FileHandle` of `services/vfs/mod.rs`, and reading and writing the regular
files of the filesystem. -/

namespace RustPosix.Vfs

open Library

def oAppend : BitVec 32 := 0x0400

def seekSet : BitVec 32 := 0
def seekCur : BitVec 32 := 1
def seekEnd : BitVec 32 := 2

namespace RamFsFile

def read (file : RamFsFile) (offset count : Nat) : List Byte :=
  if offset ≥ file.data.length then []
  else slice file.data offset (offset + min count (file.data.length - offset))

/-- `data.resize(len, 0)` if the file is shorter -/
def grow (file : RamFsFile) (len : Nat) : List Byte :=
  if len > file.data.length then file.data ++ List.replicate (len - file.data.length) 0
  else file.data

def write (file : RamFsFile) (offset : Nat) (buf : List Byte) : RamFsFile :=
  { file with data := splice (file.grow (offset + buf.length)) offset buf }

end RamFsFile

/-- `read_with_flags` of the trait `Inode`. A special inode answers what it likes. -/
def RamFs.readInode (fs : RamFs) (id : InodeId) (offset count : Nat)
    (device : Except Int (List Byte)) : Except Int (List Byte) :=
  match fs.nodes id with
  | some (.file file) => .ok (file.read offset count)
  | some (.dir _) => .error eisdir
  | _ => device

structure FileHandle where
  inode : InodeId
  offset : Nat
  flags : BitVec 32
  deriving DecidableEq, Repr

namespace FileHandle

/-- `st_size`; what a special inode reports does not matter to the filesystem. -/
def size (fs : RamFs) (handle : FileHandle) : Nat :=
  match fs.fileAt handle.inode with
  | some file => file.data.length
  | none => 0

/-- `FileHandle::read` -/
def read (fs : RamFs) (handle : FileHandle) (count : Nat) (device : Except Int (List Byte)) :
    Except Int (List Byte) × FileHandle :=
  match fs.readInode handle.inode handle.offset count device with
  | .error problem => (.error problem, handle)
  | .ok bytes => (.ok bytes, { handle with offset := handle.offset + bytes.length })

/-- The handle that `FileHandle::write` writes at. -/
def positioned (fs : RamFs) (handle : FileHandle) : FileHandle :=
  if handle.flags &&& oAppend ≠ 0 then { handle with offset := handle.size fs } else handle

/-- `FileHandle::write` -/
def write (fs : RamFs) (handle : FileHandle) (buf : List Byte) (device : Except Int Nat) :
    Except Int Nat × FileHandle × RamFs :=
  let handle := handle.positioned fs
  match fs.nodes handle.inode with
  | some (.file file) =>
    (.ok buf.length, { handle with offset := handle.offset + buf.length },
      fs.set handle.inode (.file (file.write handle.offset buf)))
  | some (.dir _) => (.error eisdir, handle, fs)
  | _ =>
    match device with
    | .error problem => (.error problem, handle, fs)
    | .ok count => (.ok count, { handle with offset := handle.offset + count }, fs)

/-- A sum of two `i64` -/
def addSigned (a b : Int) : Option Int :=
  if -2 ^ 63 ≤ a + b ∧ a + b < 2 ^ 63 then some (a + b) else none

/-- `FileHandle::lseek`; a sum that leaves the machine word panics. -/
def lseek (fs : RamFs) (handle : FileHandle) (offset : Int) (whence : BitVec 32) :
    Option (Except Int Int × FileHandle) :=
  let target :=
    if whence = seekSet then some (some offset)
    else if whence = seekCur then (addSigned handle.offset offset).map some
    else if whence = seekEnd then (addSigned (handle.size fs) offset).map some
    else some none
  match target with
  | none => none
  | some none => some (.error einval, handle)
  | some (some newOffset) =>
    if newOffset < 0 then some (.error einval, handle)
    else some (.ok newOffset, { handle with offset := newOffset.toNat })

end FileHandle

end RustPosix.Vfs
