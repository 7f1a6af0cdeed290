import RustPosix.Vfs.Path
import RustPosix.Vfs.Permission

/-! The calls of `services/posix/fs.rs` that create, remove and move files, over the root
directory and paths that have been copied from user memory. -/

namespace RustPosix.Posix

open Library Vfs

/-- `sys_open` up to the inode that the new descriptor will name. -/
def openInode (fs : RamFs) (root : InodeId) (creds : VfsCreds) (cwd path : Name)
    (flags mode : BitVec 32) : Except Int InodeId × RamFs :=
  match fs.resolvePath root cwd path with
  | .ok inode =>
    if flags &&& oCreat ≠ 0 ∧ flags &&& oExcl ≠ 0 then (.error eexist, fs)
    else
      match (fs.nodes inode).map fun node => checkInodePermission node.stat creds flags with
      | some (.error problem) => (.error problem, fs)
      | _ =>
        if flags &&& oTrunc ≠ 0 ∧ asksToWrite flags then (.ok inode, fs.truncate inode)
        else (.ok inode, fs)
  | .error problem =>
    if problem = enoent ∧ flags &&& oCreat ≠ 0 then
      match fs.resolveParentAndBasename root cwd path with
      | .error problem => (.error problem, fs)
      | .ok (parent, basename) =>
        match fs.createFile parent basename (creds.attributes mode) with
        | .error problem => (.error problem, fs)
        | .ok (inode, fs) => (.ok inode, fs)
    else (.error problem, fs)

/-- The result of a call that returns 0 or an error. -/
def outcome (fs : RamFs) : Except Int RamFs → Int × RamFs
  | .ok after => (0, after)
  | .error problem => (-problem, fs)

def sysMkdir (fs : RamFs) (root : InodeId) (creds : VfsCreds) (cwd path : Name)
    (mode : BitVec 32) : Int × RamFs :=
  match fs.resolveParentAndBasename root cwd path with
  | .error problem => (-problem, fs)
  | .ok (parent, basename) =>
    outcome fs ((fs.createDir parent basename (creds.attributes mode)).map Prod.snd)

def sysUnlink (fs : RamFs) (root : InodeId) (cwd path : Name) : Int × RamFs :=
  match fs.resolveParentAndBasename root cwd path with
  | .error problem => (-problem, fs)
  | .ok (parent, basename) => outcome fs (fs.unlink parent basename)

def sysRename (fs : RamFs) (root : InodeId) (cwd oldpath newpath : Name) : Int × RamFs :=
  let normOld := normalizePath cwd oldpath
  let normNew := normalizePath cwd newpath
  if normOld = [slash] ∨ normNew = [slash] then (-ebusy, fs)
  else
    match fs.resolveParentAndBasename root cwd oldpath with
    | .error problem => (-problem, fs)
    | .ok (oldParent, oldBasename) =>
      match fs.lookup oldParent oldBasename with
      | .error problem => (-problem, fs)
      | .ok source =>
        if normOld = normNew then (0, fs)
        else if fs.isDirectory source ∧ normOld ++ [slash] <+: normNew then (-einval, fs)
        else
          match fs.resolveParentAndBasename root cwd newpath with
          | .error problem => (-problem, fs)
          | .ok (newParent, newBasename) =>
            outcome fs (fs.rename oldParent oldBasename newParent newBasename)

end RustPosix.Posix
