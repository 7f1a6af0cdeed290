import RustPosix.Library.Descend
import RustPosix.Library.Memory

/-! The in-memory filesystem of `services/vfs/ramfs.rs`: directories and files in a heap
of inodes, an `Arc` being the index of an inode in the heap. -/

namespace RustPosix.Vfs

open Library

def enoent : Int := 2
def eacces : Int := 13
def ebusy : Int := 16
def eexist : Int := 17
def exdev : Int := 18
def enotdir : Int := 20
def eisdir : Int := 21
def einval : Int := 22
def erofs : Int := 30
def enotempty : Int := 39

/-- A `String`, as the bytes of its UTF-8 form. -/
abbrev Name := List Byte

abbrev InodeId := Nat

/-- `BTreeMap<String, Arc<_>>` -/
abbrev NameMap := AList fun _ : Name => InodeId

/-- The permission bits and the owner of an inode. -/
structure Attributes where
  mode : BitVec 16
  uid : BitVec 32
  gid : BitVec 32
  deriving DecidableEq, Repr

structure RamFsDir where
  entries : NameMap
  subdirs : NameMap
  entryCount : Nat
  attributes : Attributes
  deriving DecidableEq

structure RamFsFile where
  data : List Byte
  attributes : Attributes
  deriving DecidableEq

/-- The implementations of the trait `Inode` that a directory can hold; the devices and the
files of `procfs` are special. -/
inductive Inode where
  | dir (dir : RamFsDir)
  | file (file : RamFsFile)
  | special (attributes : Attributes)
  deriving DecidableEq

/-- The inodes created so far, under the numbers below `created`. -/
structure RamFs where
  nodes : InodeId → Option Inode
  created : InodeId

namespace RamFsDir

def newWithCreds (attributes : Attributes) : RamFsDir := ⟨∅, ∅, 0, attributes⟩

def new : RamFsDir := newWithCreds ⟨0o755, 0, 0⟩

def addChild (name : Name) (inode : InodeId) (dir : RamFsDir) : RamFsDir :=
  { dir with
    entries := dir.entries.insert name inode
    entryCount := if (dir.entries.lookup name).isNone then dir.entryCount + 1
      else dir.entryCount }

/-- The part of `get_or_create_subdir` that enters a new directory. -/
def addSubdir (name : Name) (newDir : InodeId) (dir : RamFsDir) : RamFsDir :=
  { dir.addChild name newDir with subdirs := dir.subdirs.insert name newDir }

/-- The part of `create_file` that enters a new file. -/
def createFile (name : Name) (file : InodeId) (dir : RamFsDir) : RamFsDir :=
  { dir with
    entries := dir.entries.insert name file
    entryCount := dir.entryCount + 1 }

/-- The part of `create_dir` that enters a new directory. -/
def createDir (name : Name) (newDir : InodeId) (dir : RamFsDir) : RamFsDir :=
  { dir with
    subdirs := dir.subdirs.insert name newDir
    entries := dir.entries.insert name newDir
    entryCount := dir.entryCount + 1 }

/-- What `unlink` and the source side of `rename` do with a name that is there. -/
def remove (name : Name) (dir : RamFsDir) : RamFsDir :=
  { dir with
    entries := dir.entries.erase name
    subdirs := dir.subdirs.erase name
    entryCount := dir.entryCount - 1 }

def linkEntry (name : Name) (inode : InodeId) (dir : RamFsDir) : RamFsDir :=
  if (dir.entries.lookup name).isNone then
    { dir with
      entries := dir.entries.insert name inode
      entryCount := dir.entryCount + 1 }
  else
    { dir with
      entries := dir.entries.insert name inode
      subdirs := dir.subdirs.erase name }

end RamFsDir

/-- Insert a name if there is something to insert under it. -/
def NameMap.insertSome (map : NameMap) (name : Name) : Option InodeId → NameMap
  | some inode => map.insert name inode
  | none => map

namespace RamFsDir

/-- The target side of `rename` across directories. -/
def receive (newName : Name) (inode : InodeId) (subdir : Option InodeId) (dir : RamFsDir) :
    RamFsDir :=
  let replaced := (dir.entries.lookup newName).isSome
  { dir with
    entries := (dir.entries.erase newName).insert newName inode
    subdirs := NameMap.insertSome (dir.subdirs.erase newName) newName subdir
    entryCount := if replaced then dir.entryCount else dir.entryCount + 1 }

/-- What `rename` does within one directory once its checks have passed. -/
def renameWithin (oldName newName : Name) (inode : InodeId) (dir : RamFsDir) : RamFsDir :=
  let entries := dir.entries.erase oldName
  let subdirs := dir.subdirs.erase oldName
  let replaced := (entries.lookup newName).isSome
  { dir with
    entries := (entries.erase newName).insert newName inode
    subdirs := NameMap.insertSome (subdirs.erase newName) newName (dir.subdirs.lookup oldName)
    entryCount := if replaced then dir.entryCount - 1 else dir.entryCount }

end RamFsDir

namespace RamFs

def dirAt (fs : RamFs) (id : InodeId) : Option RamFsDir :=
  match fs.nodes id with
  | some (.dir dir) => some dir
  | _ => none

def fileAt (fs : RamFs) (id : InodeId) : Option RamFsFile :=
  match fs.nodes id with
  | some (.file file) => some file
  | _ => none

def isDirectory (fs : RamFs) (id : InodeId) : Bool := (fs.dirAt id).isSome

def set (fs : RamFs) (id : InodeId) (inode : Inode) : RamFs :=
  { fs with nodes := Function.update fs.nodes id (some inode) }

/-- `Arc::new` of an inode -/
def alloc (fs : RamFs) (inode : Inode) : InodeId × RamFs :=
  (fs.created, ⟨Function.update fs.nodes fs.created (some inode), fs.created + 1⟩)

/-- Change a directory under the locks of its maps. -/
def modify (fs : RamFs) (id : InodeId) (change : RamFsDir → RamFsDir) : RamFs :=
  match fs.dirAt id with
  | some dir => fs.set id (.dir (change dir))
  | none => fs

/-- `truncate` of an inode; only a file of the filesystem has contents to drop. -/
def truncate (fs : RamFs) (id : InodeId) : RamFs :=
  match fs.fileAt id with
  | some file => fs.set id (.file { file with data := [] })
  | none => fs

def addChild (fs : RamFs) (dir : InodeId) (name : Name) (inode : InodeId) : RamFs :=
  fs.modify dir (.addChild name inode)

def getOrCreateSubdir (fs : RamFs) (dir : InodeId) (name : Name) : InodeId × RamFs :=
  match (fs.dirAt dir).bind (·.subdirs.lookup name) with
  | some subdir => (subdir, fs)
  | none =>
    let (newDir, fs) := fs.alloc (.dir .new)
    (newDir, fs.modify dir (.addSubdir name newDir))

/-- `lookup` of the trait `Inode`; only directories have entries. -/
def lookup (fs : RamFs) (id : InodeId) (name : Name) : Except Int InodeId :=
  match fs.dirAt id with
  | none => .error enotdir
  | some dir =>
    match dir.entries.lookup name with
    | some inode => .ok inode
    | none => .error enoent

def createFile (fs : RamFs) (id : InodeId) (name : Name) (attributes : Attributes) :
    Except Int (InodeId × RamFs) :=
  match fs.dirAt id with
  | none => .error enotdir
  | some dir =>
    match dir.entries.lookup name with
    | some existing => .ok (existing, fs)
    | none =>
      let (file, fs) := fs.alloc (.file ⟨[], attributes⟩)
      .ok (file, fs.modify id (.createFile name file))

def createDir (fs : RamFs) (id : InodeId) (name : Name) (attributes : Attributes) :
    Except Int (InodeId × RamFs) :=
  match fs.dirAt id with
  | none => .error enotdir
  | some dir =>
    if (dir.entries.lookup name).isSome then .error eexist
    else
      let (newDir, fs) := fs.alloc (.dir (.newWithCreds attributes))
      .ok (newDir, fs.modify id (.createDir name newDir))

def unlink (fs : RamFs) (id : InodeId) (name : Name) : Except Int RamFs :=
  match fs.dirAt id with
  | none => .error enotdir
  | some dir =>
    if (dir.entries.lookup name).isSome then .ok (fs.modify id (.remove name))
    else .error enoent

def linkEntry (fs : RamFs) (id : InodeId) (name : Name) (inode : InodeId) : Except Int RamFs :=
  match fs.dirAt id with
  | none => .error enotdir
  | some _ => .ok (fs.modify id (.linkEntry name inode))

/-- The checks of `rename` on an entry it would replace; `busy` are the directories whose
locks are held. -/
def checkTarget (fs : RamFs) (busy : List InodeId) (source : InodeId) :
    Option InodeId → Except Int Unit
  | none => .ok ()
  | some target =>
    if fs.isDirectory source ∧ ¬ fs.isDirectory target then .error enotdir
    else if ¬ fs.isDirectory source ∧ fs.isDirectory target then .error eisdir
    else
      match fs.dirAt target with
      | some targetDir =>
        if target ∈ busy ∨ targetDir.entryCount > 0 then .error enotempty else .ok ()
      | none => .ok ()

def rename (fs : RamFs) (id : InodeId) (oldName : Name) (newParent : InodeId) (newName : Name) :
    Except Int RamFs :=
  match fs.dirAt id with
  | none => .error erofs
  | some dir =>
    match fs.dirAt newParent with
    | none => .error exdev
    | some newDir =>
      match dir.entries.lookup oldName with
      | none => .error enoent
      | some source =>
        if id = newParent then
          if oldName = newName then .ok fs
          else
            match fs.checkTarget [id] source (dir.entries.lookup newName) with
            | .error problem => .error problem
            | .ok () => .ok (fs.modify id (.renameWithin oldName newName source))
        else
          match fs.checkTarget [id, newParent] source (newDir.entries.lookup newName) with
          | .error problem => .error problem
          | .ok () =>
            let subdir := dir.subdirs.lookup oldName
            .ok ((fs.modify id (.remove oldName)).modify newParent
              (.receive newName source subdir))

end RamFs

end RustPosix.Vfs
