import RustPosix.Posix.FileCalls
import RustPosix.Posix.Rename
import RustPosix.Posix.Unlink
import RustPosix.Vfs.Kept

/-! The calls that programs move files with: when they succeed, and what they keep. -/

namespace RustPosix.Posix

open Library Vfs

/-- `O_WRONLY | O_CREAT | O_TRUNC` -/
def createFlags : BitVec 32 := oWronly ||| oCreat ||| oTrunc

/-- The permission check lets the caller open the inode. -/
def Permits (fs : RamFs) (creds : VfsCreds) (id : InodeId) (flags : BitVec 32) : Prop :=
  ∀ node, fs.nodes id = some node → checkInodePermission node.stat creds flags = .ok ()

section Opening

variable {fs after : RamFs} {root id : InodeId} {creds : VfsCreds} {cwd path : Name}
  {mode : BitVec 32} {problem : Int}

private theorem denied_of_not_permits {flags : BitVec 32} (refused : ¬ Permits fs creds id flags) :
    ∃ problem, (fs.nodes id).map (fun node => checkInodePermission node.stat creds flags) =
      some (.error problem) := by
  unfold Permits at refused
  push Not at refused
  obtain ⟨node, there, denied⟩ := refused
  rw [there, Option.map_some]
  cases checked : checkInodePermission node.stat creds flags with
  | ok _ => exact (denied checked).elim
  | error problem => exact ⟨problem, rfl⟩

private theorem not_denied_of_permits {flags : BitVec 32} (permits : Permits fs creds id flags) :
    (fs.nodes id).map (fun node => checkInodePermission node.stat creds flags) ≠
      some (.error problem) := by
  intro denied
  obtain ⟨node, there, checked⟩ := Option.map_eq_some_iff.mp denied
  rw [permits node there] at checked
  cases checked

/-- Flags that ask for reading only, and create nothing. -/
def ReadsOnly (flags : BitVec 32) : Prop := flags &&& oCreat = 0 ∧ asksToWrite flags = false

instance (flags : BitVec 32) : Decidable (ReadsOnly flags) := inferInstanceAs (Decidable (_ ∧ _))

section Reading

variable {flags : BitVec 32} (reads : ReadsOnly flags)

include reads

/-- Opening for reading changes nothing. -/
theorem openInode_read : openInode fs root creds cwd path flags mode =
    ((openInode fs root creds cwd path flags mode).1, fs) := by
  unfold openInode
  split
  · rw [if_neg fun both => both.1 reads.1]
    split
    · rfl
    · rw [if_neg fun both => Bool.noConfusion (reads.2.symm.trans both.2)]
  · rw [if_neg fun both => both.2 reads.1]

theorem openInode_read_ok (reached : descend fs.lookup root (normalComponents cwd path) = .ok id)
    (permits : Permits fs creds id flags) :
    openInode fs root creds cwd path flags mode = (.ok id, fs) := by
  unfold openInode
  rw [RamFs.resolvePath_eq, reached]
  dsimp only
  rw [if_neg fun both => both.1 reads.1]
  split
  · rename_i denied
    exact (not_denied_of_permits permits denied).elim
  · rw [if_neg fun both => Bool.noConfusion (reads.2.symm.trans both.2)]

theorem openInode_read_reached
    (opened : openInode fs root creds cwd path flags mode = (.ok id, after)) :
    descend fs.lookup root (normalComponents cwd path) = .ok id ∧ Permits fs creds id flags := by
  cases reached : descend fs.lookup root (normalComponents cwd path) with
  | error problem =>
    unfold openInode at opened
    rw [RamFs.resolvePath_eq, reached] at opened
    dsimp only at opened
    rw [if_neg fun both => both.2 reads.1] at opened
    cases opened
  | ok found =>
    by_cases permits : Permits fs creds found flags
    · rw [openInode_read_ok reads reached permits] at opened
      cases opened
      exact ⟨rfl, permits⟩
    · obtain ⟨problem, denied⟩ := denied_of_not_permits permits
      unfold openInode at opened
      rw [RamFs.resolvePath_eq, reached] at opened
      dsimp only at opened
      rw [if_neg fun both => both.1 reads.1, denied] at opened
      cases opened

end Reading

theorem readsOnly_oRdonly : ReadsOnly oRdonly := by decide

/-- What opening for writing does: an inode that is there is truncated, or else a file is created
in a directory that is there. -/
inductive OpensForWriting (fs : RamFs) (root : InodeId) (creds : VfsCreds) (path : List Name)
    (attributes : Attributes) : InodeId → RamFs → Prop where
  | found {id : InodeId} (reached : descend fs.lookup root path = .ok id)
      (permits : Permits fs creds id createFlags) :
      OpensForWriting fs root creds path attributes id (fs.truncate id)
  | created {front : List Name} {name : Name} {parent : InodeId} {dir : RamFsDir}
      (split : path = front ++ [name]) (reached : descend fs.lookup root front = .ok parent)
      (there : fs.dirAt parent = some dir) (absent : dir.entries.lookup name = none) :
      OpensForWriting fs root creds path attributes fs.created
        ((fs.alloc (.file ⟨[], attributes⟩)).2.modify parent (.createFile name fs.created))

/-- The file can be opened for writing, or created. -/
def Writable (fs : RamFs) (root : InodeId) (creds : VfsCreds) (path : List Name) : Prop :=
  (∃ id, descend fs.lookup root path = .ok id ∧ Permits fs creds id createFlags) ∨
    ((∀ id, descend fs.lookup root path ≠ .ok id) ∧ ∃ front name parent, path = front ++ [name] ∧
      descend fs.lookup root front = .ok parent ∧ fs.isDirectory parent = true)

theorem opensForWriting_of_ok
    (opened : openInode fs root creds cwd path createFlags mode = (.ok id, after)) :
    OpensForWriting fs root creds (normalComponents cwd path) (creds.attributes mode) id after := by
  unfold openInode at opened
  rw [RamFs.resolvePath_eq] at opened
  cases reached : descend fs.lookup root (normalComponents cwd path) with
  | ok found =>
    rw [reached] at opened
    dsimp only at opened
    rw [if_neg (by decide)] at opened
    by_cases permits : Permits fs creds found createFlags
    · split at opened
      · cases opened
      · rw [if_pos (by decide)] at opened
        cases opened
        exact .found reached permits
    · obtain ⟨problem, denied⟩ := denied_of_not_permits permits
      rw [denied] at opened
      cases opened
  | error problem =>
    rw [reached] at opened
    dsimp only at opened
    split at opened
    · split at opened
      · cases opened
      · rename_i parent basename resolved
        obtain ⟨front, split, reachedFront⟩ := RamFs.resolveParentAndBasename_ok resolved
        split at opened
        · cases opened
        · rename_i made
          cases opened
          obtain ⟨dir, there, ⟨existing, rfl⟩ | ⟨absent, rfl, rfl⟩⟩ := RamFs.createFile_ok made
          · rw [split, descend_snoc reachedFront, RamFs.lookup_of_dirAt there, existing] at reached
            cases reached
          · exact .created split reachedFront there absent
    · cases opened

/-- A failing `open` changes nothing. -/
theorem openInode_of_error {flags : BitVec 32}
    (failed : openInode fs root creds cwd path flags mode = (.error problem, after)) :
    after = fs := by
  unfold openInode at failed
  split at failed
  · split at failed
    · cases failed
      rfl
    · split at failed
      · cases failed
        rfl
      · split at failed <;> cases failed
  · split at failed
    · split at failed
      · cases failed
        rfl
      · split at failed
        · cases failed
          rfl
        · cases failed
    · cases failed
      rfl

/-- What is writable can be opened. -/
theorem Writable.openInode_ok (writable : Writable fs root creds (normalComponents cwd path)) :
    ∃ id after, openInode fs root creds cwd path createFlags mode = (.ok id, after) := by
  unfold openInode
  rw [RamFs.resolvePath_eq]
  rcases writable with ⟨id, reached, permits⟩ | ⟨missing, front, name, parent, split, reached, isDir⟩
  · rw [reached]
    dsimp only
    rw [if_neg (by decide)]
    split
    · rename_i denied
      exact (not_denied_of_permits permits denied).elim
    · rw [if_pos (by decide)]
      exact ⟨id, _, rfl⟩
  · obtain ⟨dir, there⟩ := Option.isSome_iff_exists.mp isDir
    have absent : dir.entries.lookup name = none := by
      cases found : dir.entries.lookup name with
      | none => rfl
      | some child =>
        refine (missing child ?_).elim
        rw [split, descend_snoc reached, RamFs.lookup_of_dirAt there, found]
        rfl
    have lost : descend fs.lookup root (normalComponents cwd path) = .error enoent := by
      rw [split, descend_snoc reached, RamFs.lookup_of_dirAt there, absent]
      rfl
    rw [lost]
    dsimp only
    rw [if_pos ⟨rfl, by decide⟩, RamFs.resolveParentAndBasename_of_split split reached]
    dsimp only
    unfold RamFs.createFile
    rw [there]
    dsimp only
    rw [absent]
    exact ⟨_, _, rfl⟩

end Opening

section Opened

variable {fs : RamFs} {root id : InodeId} {path other front : List Name} {name : Name}
  {parent : InodeId} {dir : RamFsDir} {attributes : Attributes}

theorem descend_truncate : descend (fs.truncate id).lookup root path =
    descend fs.lookup root path := by
  have edges : (fs.truncate id).lookup = fs.lookup := by
    funext node name
    exact RamFs.lookup_truncate
  rw [edges]

end Opened

end RustPosix.Posix
