import RustPosix.Posix.Fs
import RustPosix.Vfs.Standing

/-! What the calls that change the tree have done when they return 0, and that they
keep it a tree. -/

namespace RustPosix.Posix

open Library Vfs

variable {fs after : RamFs} {root : InodeId} {cwd path : Name} {creds : VfsCreds}

theorem outcome_zero {result : Except Int RamFs}
    (positive : ∀ {problem}, result = .error problem → 0 < problem)
    (zero : outcome fs result = (0, after)) : result = .ok after := by
  cases result with
  | ok last =>
    cases zero
    rfl
  | error problem =>
    have same : -problem = 0 := congrArg Prod.fst zero
    exact absurd (positive rfl) (by omega)

theorem sysUnlink_zero (zero : sysUnlink fs root cwd path = (0, after)) :
    ∃ front name parent, normalComponents cwd path = front ++ [name] ∧
      descend fs.lookup root front = .ok parent ∧ fs.unlink parent name = .ok after := by
  unfold sysUnlink at zero
  split at zero
  · rename_i problem failed
    have same : -problem = 0 := congrArg Prod.fst zero
    exact absurd (RamFs.resolveParentAndBasename_error failed) (by omega)
  · rename_i parent name resolved
    obtain ⟨front, split, reached⟩ := RamFs.resolveParentAndBasename_ok resolved
    exact ⟨front, name, parent, split, reached, outcome_zero RamFs.unlink_error zero⟩

/-- A rename that returns 0 on two different paths has passed the check for cycles and
renamed in the directories that the paths lead to. -/
theorem sysRename_zero {oldpath newpath : Name}
    (zero : sysRename fs root cwd oldpath newpath = (0, after))
    (differ : normalizePath cwd oldpath ≠ normalizePath cwd newpath) :
    ∃ front name parent front' name' parent',
      normalComponents cwd oldpath = front ++ [name] ∧ descend fs.lookup root front = .ok parent ∧
      normalComponents cwd newpath = front' ++ [name'] ∧
      descend fs.lookup root front' = .ok parent' ∧
      (∀ source, fs.lookup parent name = .ok source → fs.isDirectory source = true →
        ¬ normalizePath cwd oldpath ++ [slash] <+: normalizePath cwd newpath) ∧
      fs.rename parent name parent' name' = .ok after := by
  have refused : ∀ {problem : Int}, 0 < problem → (-problem, fs) ≠ (0, after) := by
    intro problem positive same
    have negated : -problem = 0 := congrArg Prod.fst same
    omega
  unfold sysRename at zero
  simp only at zero
  split at zero
  · exact (refused (by decide) zero).elim
  split at zero
  · rename_i failed
    exact (refused (RamFs.resolveParentAndBasename_error failed) zero).elim
  rename_i parent name resolved
  split at zero
  · rename_i failed
    exact (refused (RamFs.lookup_error failed) zero).elim
  rename_i source found
  split at zero
  · exact (refused (by decide) zero).elim
  rename_i noCycle
  split at zero
  · rename_i failed
    exact (refused (RamFs.resolveParentAndBasename_error failed) zero).elim
  rename_i parent' name' resolved'
  obtain ⟨front, split, reached⟩ := RamFs.resolveParentAndBasename_ok resolved
  obtain ⟨front', split', reached'⟩ := RamFs.resolveParentAndBasename_ok resolved'
  refine ⟨front, name, parent, front', name', parent', split, reached, split', reached', ?_,
    outcome_zero RamFs.rename_error zero⟩
  intro source' found' isDir below
  cases found.symm.trans found'
  exact noCycle ⟨isDir, below⟩

/-- The errors of `sys_open` are positive numbers. -/
theorem openInode_error {fs after : RamFs} {root : InodeId} {creds : VfsCreds} {cwd path : Name}
    {flags mode : BitVec 32} {problem : Int}
    (failed : openInode fs root creds cwd path flags mode = (.error problem, after)) :
    0 < problem := by
  unfold openInode at failed
  split at failed
  · split at failed
    · cases failed
      decide
    split at failed
    · rename_i denied
      cases failed
      obtain ⟨node, _, refused⟩ := Option.map_eq_some_iff.mp denied
      unfold checkInodePermission at refused
      split at refused
      · cases refused
      · dsimp only at refused
        split at refused <;> cases refused
        decide
    · split at failed <;> cases failed
  · rename_i lost
    split at failed
    · split at failed
      · rename_i unresolved
        cases failed
        exact RamFs.resolveParentAndBasename_error unresolved
      · split at failed
        · rename_i uncreated
          cases failed
          exact RamFs.createFile_error uncreated
        · cases failed
    · cases failed
      exact RamFs.resolvePath_error lost

/-- A call of a process that can change the tree. -/
inductive FsCall where
  | create (creds : VfsCreds) (cwd path : Name) (flags mode : BitVec 32)
  | mkdir (creds : VfsCreds) (cwd path : Name) (mode : BitVec 32)
  | unlink (cwd path : Name)
  | rename (cwd oldpath newpath : Name)

def afterCall (root : InodeId) (fs : RamFs) : FsCall → RamFs
  | .create creds cwd path flags mode => (openInode fs root creds cwd path flags mode).2
  | .mkdir creds cwd path mode => (sysMkdir fs root creds cwd path mode).2
  | .unlink cwd path => (sysUnlink fs root cwd path).2
  | .rename cwd oldpath newpath => (sysRename fs root cwd oldpath newpath).2

/-- A directory `a` in the root, with a file `f` in it. -/
def nestedFile : RamFs :=
  (RamFs.newRoot.apply (.createDir 0 [97] ⟨0o755, 0, 0⟩)).apply (.createFile 1 [102] ⟨0o644, 0, 0⟩)

theorem reached_nestedFile : nestedFile.Reached :=
  .step (.step (.step .start (.newDir ⟨0o755, 0, 0⟩) rfl rfl)
    (.createDir 0 [97] ⟨0o755, 0, 0⟩) rfl rfl) (.createFile 1 [102] ⟨0o644, 0, 0⟩) rfl rfl

theorem standing_nestedFile : Standing nestedFile 0 := by
  have atRoot : descend RamFs.newRoot.lookup 0 [] = .ok 0 := rfl
  have inside : descend (RamFs.newRoot.apply (.createDir 0 [97] ⟨0o755, 0, 0⟩)).lookup 0 [[97]] =
      .ok 1 := rfl
  exact (RamFs.standing_newRoot.createDir atRoot rfl).createFile inside rfl

end RustPosix.Posix
