import RustPosix.Posix.FsSteps

/-! `sys_unlink` removes whatever entry its path names: the rest of the tree keeps its paths
exactly if this was no directory with entries. -/

namespace RustPosix.Posix

open Library Vfs

/-- Whatever a path leads to is removed, unless it is the root. -/
theorem sysUnlink_of_found {fs : RamFs} {root removed : InodeId} {cwd path : Name}
    (notRoot : normalComponents cwd path ≠ [])
    (found : descend fs.lookup root (normalComponents cwd path) = .ok removed) :
    ∃ after, sysUnlink fs root cwd path = (0, after) := by
  have split := (List.dropLast_append_getLast notRoot).symm
  rw [split] at found
  obtain ⟨parent, reached, _⟩ := descend_append_ok found
  rw [descend_snoc reached] at found
  obtain ⟨dir, there, entry⟩ := RamFs.lookup_ok found
  unfold sysUnlink
  rw [RamFs.resolveParentAndBasename_of_split split reached]
  unfold RamFs.unlink
  simp only [there, entry, Option.isSome_some, if_true]
  exact ⟨_, rfl⟩

/-- In a tree, a call that returns 0 has removed a non-directory or an empty directory, and
left every other path alone, if and only if the path does not lead to a directory that
has entries; the root is refused. -/
theorem unlink_keeps_other_paths_iff {fs : RamFs} {root : InodeId}
    (single : fs.SingleEntries root) (cwd path : Name) :
    (∀ after, sysUnlink fs root cwd path = (0, after) →
      ∃ removed, descend fs.lookup root (components (normalizePath cwd path)) = .ok removed ∧
        (fs.isDirectory removed = false ∨ ∀ name, fs.lookup removed name = .error enoent) ∧
        ∀ other inode, other ≠ components (normalizePath cwd path) →
          descend fs.lookup root other = .ok inode → descend after.lookup root other = .ok inode) ↔
    (normalizePath cwd path = [slash] ∨
      ∀ removed, descend fs.lookup root (components (normalizePath cwd path)) = .ok removed →
        ∀ name child, fs.lookup removed name ≠ .ok child) := by
  rw [components_normalizePath, normalizePath_eq_slash_iff]
  constructor
  · intro contract
    by_cases atRoot : normalComponents cwd path = []
    · exact Or.inl atRoot
    refine Or.inr ?_
    intro removed found name child entry
    obtain ⟨after, zero⟩ := sysUnlink_of_found atRoot found
    obtain ⟨_, _, _, kept⟩ := contract after zero
    -- the entry below the removed directory was found before and is not found after
    have lost := kept (normalComponents cwd path ++ [name]) child (by simp)
      ((descend_snoc found).trans entry)
    obtain ⟨front, last, parent, split, reached, unlinked⟩ := sysUnlink_zero zero
    rw [split, List.append_assoc, List.singleton_append,
      single.tree.descend_unlink_below reached unlinked] at lost
    cases lost
  · intro free after zero
    obtain ⟨front, last, parent, split, reached, unlinked⟩ := sysUnlink_zero zero
    obtain ⟨dir, removed, there, entry, _⟩ := RamFs.unlink_ok unlinked
    have found : descend fs.lookup root (normalComponents cwd path) = .ok removed := by
      rw [split, descend_snoc reached, RamFs.lookup_of_dirAt there, entry]
      rfl
    have bare : ∀ name child, fs.lookup removed name ≠ .ok child := by
      refine (free.resolve_left ?_) removed found
      rw [split]
      exact List.concat_ne_nil last front
    refine ⟨removed, found, ?_, ?_⟩
    · cases isDir : fs.isDirectory removed with
      | false => exact Or.inl rfl
      | true => exact Or.inr (RamFs.lookup_of_bare isDir bare)
    · intro other inode differs before
      by_cases below : front ++ [last] <+: other
      · obtain ⟨rest, rfl⟩ := below
        rw [← split] at differs before
        rw [descend_append found] at before
        cases rest with
        | nil => exact (differs (List.append_nil _)).elim
        | cons first rest =>
          obtain ⟨next, step, _⟩ := descend_cons_ok before
          exact (bare first next step).elim
      · rw [single.tree.descend_unlink reached unlinked below, before]

/-- A file in the directory `a` can be removed. -/
theorem unlink_keeps_other_paths_iff_file : ∃ after,
    sysUnlink nestedFile 0 [slash] [slash, 97, slash, 102] = (0, after) ∧
      descend after.lookup 0 [[97]] = .ok 1 := by
  refine ⟨_, rfl, ?_⟩
  obtain ⟨_, _, _, kept⟩ := (unlink_keeps_other_paths_iff
    (standing_nestedFile.tree.singleEdges rfl) [slash] [slash, 97, slash, 102]).mpr
    (Or.inr (by
      intro removed found
      cases found
      exact fun name child => nofun)) _ rfl
  exact kept [[97]] 1 (by decide) rfl

/-- Removing the directory `a` takes the file in it out of the tree. -/
theorem unlink_orphans_file : nestedFile.Reached ∧ nestedFile.SingleEntries 0 ∧
    descend nestedFile.lookup 0 [[97], [102]] = .ok 2 ∧
    ∃ after, sysUnlink nestedFile 0 [slash] [slash, 97] = (0, after) ∧
      descend after.lookup 0 [[97], [102]] = .error enoent :=
  ⟨reached_nestedFile, standing_nestedFile.tree.singleEdges rfl, rfl, _, rfl, rfl⟩

end RustPosix.Posix
