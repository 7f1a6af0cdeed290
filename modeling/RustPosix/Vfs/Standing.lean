import RustPosix.Vfs.Tree

/-! Filesystems that are sound and a tree, and the operations that keep them so. -/

namespace RustPosix.Vfs

open Library

/-- A sound filesystem whose directories form a tree below its root. -/
structure Standing (fs : RamFs) (root : InodeId) : Prop where
  sound : fs.Sound
  isRoot : fs.isDirectory root = true
  tree : fs.Tree root

namespace Standing

variable {fs after : RamFs} {root : InodeId}

/-- Only directories matter. -/
theorem congr (standing : Standing fs root) (created : after.created = fs.created)
    (same : ∀ id, after.dirAt id = fs.dirAt id) : Standing after root := by
  have edges : after.lookup = fs.lookup := by
    funext id name
    exact RamFs.lookup_congr (same id)
  have inner : ∀ id, after.isDirectory id = fs.isDirectory id := by
    intro id
    unfold RamFs.isDirectory
    rw [same]
  refine ⟨⟨?_, ?_, ?_⟩, ?_, ?_⟩
  · intro id dir there
    exact standing.sound.counted id dir (same id ▸ there)
  · intro id dir there
    exact created ▸ standing.sound.bounded (same id ▸ there)
  · intro id dir there name child found
    exact created ▸ standing.sound.closed id dir (same id ▸ there) found
  · rw [inner, standing.isRoot]
  · simp only [RamFs.Tree, inner, edges]
    exact standing.tree

theorem truncate {id : InodeId} (standing : Standing fs root) :
    Standing (fs.truncate id) root := by
  unfold RamFs.truncate
  split
  · rename_i file there
    refine standing.congr rfl fun other => ?_
    rw [RamFs.dirAt_set]
    split
    · rename_i same
      rw [same]
      unfold RamFs.fileAt at there
      unfold RamFs.dirAt
      split at there
      · rename_i isFile
        rw [isFile]
      · cases there
    · rfl
  · exact standing

theorem unlink {front : List Name} {id : InodeId} {name : Name} (standing : Standing fs root)
    (atId : descend fs.lookup root front = .ok id) (removed : fs.unlink id name = .ok after) :
    Standing after root := by
  refine ⟨standing.sound.unlink removed, ?_, standing.tree.unlink atId removed⟩
  obtain ⟨dir, inode, there, _, rfl⟩ := RamFs.unlink_ok removed
  rw [RamFs.isDirectory_modify, standing.isRoot]

theorem isDirectory_enter {inode : Inode} {id : InodeId} {change : RamFsDir → RamFsDir}
    (standing : Standing fs root) :
    ((fs.alloc inode).2.modify id change).isDirectory root = true := by
  have old := standing.isRoot
  obtain ⟨dir, there⟩ := Option.isSome_iff_exists.mp old
  rw [RamFs.isDirectory_modify]
  unfold RamFs.isDirectory
  rw [RamFs.dirAt_alloc, if_neg (Nat.ne_of_lt (standing.sound.bounded there)), there]
  rfl

theorem createFile {front : List Name} {id inode : InodeId} {name : Name}
    {attributes : Attributes} (standing : Standing fs root)
    (atId : descend fs.lookup root front = .ok id)
    (made : fs.createFile id name attributes = .ok (inode, after)) : Standing after root := by
  have sound := standing.sound.createFile made
  obtain ⟨dir, there, ⟨_, rfl⟩ | ⟨absent, rfl, rfl⟩⟩ := RamFs.createFile_ok made
  · exact standing
  · have bare : ∀ new, Inode.file ⟨[], attributes⟩ = .dir new → new.entries = ∅ := nofun
    have plants := standing.sound.plants standing.isRoot there bare
      fun other => dir.lookup_createFile name other _
    exact ⟨sound, standing.isDirectory_enter,
      standing.tree.enter plants atId (RamFs.isDirectory_of_dirAt there)⟩

theorem createDir {front : List Name} {id inode : InodeId} {name : Name}
    {attributes : Attributes} (standing : Standing fs root)
    (atId : descend fs.lookup root front = .ok id)
    (made : fs.createDir id name attributes = .ok (inode, after)) : Standing after root := by
  have sound := standing.sound.createDir made
  obtain ⟨dir, there, absent, rfl, rfl⟩ := RamFs.createDir_ok made
  have bare : ∀ new, Inode.dir (.newWithCreds attributes) = .dir new → new.entries = ∅ := by
    intro new isNew
    cases isNew
    rfl
  have plants := standing.sound.plants standing.isRoot there bare
    fun other => dir.lookup_createDir name other _
  exact ⟨sound, standing.isDirectory_enter,
    standing.tree.enter plants atId (RamFs.isDirectory_of_dirAt there)⟩

end Standing

namespace RamFs

/-- A root directory as `RamFsDir::new` makes it. -/
def newRoot : RamFs := (empty.alloc (.dir .new)).2

theorem dirAt_newRoot {id : InodeId} {dir : RamFsDir} (there : newRoot.dirAt id = some dir) :
    id = 0 ∧ dir = .new := by
  unfold newRoot at there
  rw [dirAt_alloc] at there
  split at there
  · rename_i same
    cases there
    exact ⟨same, rfl⟩
  · cases there

theorem lookup_newRoot {id child : InodeId} {name : Name} :
    newRoot.lookup id name ≠ .ok child := by
  intro found
  obtain ⟨dir, there, entry⟩ := lookup_ok found
  cases (dirAt_newRoot there).2
  cases entry

theorem descend_newRoot {id child : InodeId} {path : List Name}
    (reached : descend newRoot.lookup id path = .ok child) : path = [] ∧ child = id := by
  cases path with
  | nil =>
    cases reached
    exact ⟨rfl, rfl⟩
  | cons name path =>
    obtain ⟨_, found, _⟩ := descend_cons_ok reached
    exact (lookup_newRoot found).elim

theorem standing_newRoot : Standing newRoot 0 := by
  refine ⟨sound_empty.alloc ?_, rfl, ?_, ?_⟩
  · intro dir new
    cases new
    exact ⟨_, rfl⟩
  · exact fun found => (lookup_newRoot found).elim
  · intro node path other _ reached reached'
    rw [(descend_newRoot reached).1, (descend_newRoot reached').1]

end RamFs

end RustPosix.Vfs
