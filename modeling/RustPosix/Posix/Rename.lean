import RustPosix.Posix.FsSteps

/-! `sys_rename` moves one subtree and nothing else, and no sequence of calls makes the
directories anything but a tree. -/

namespace RustPosix.Posix

open Library Vfs

/-- What stood at `old` and below stands at `new` and below, where nothing stood that has
entries; every other path leads where it led. -/
structure MovesSubtree (fs after : RamFs) (root : InodeId) (old new : List Name) : Prop where
  below_new : ∀ suffix, descend after.lookup root (new ++ suffix) =
    descend fs.lookup root (old ++ suffix)
  old_absent : ∀ suffix, descend after.lookup root (old ++ suffix) = .error enoent
  elsewhere : ∀ path, ¬ old <+: path → ¬ new <+: path →
    descend after.lookup root path = descend fs.lookup root path
  replaced : ∀ source target, descend fs.lookup root old = .ok source →
    descend fs.lookup root new = .ok target →
    (fs.isDirectory source = false ∧ fs.isDirectory target = false) ∨
      (fs.isDirectory source = true ∧ fs.isDirectory target = true ∧
        ∀ name, fs.lookup target name = .error enoent)

variable {fs after : RamFs} {root : InodeId}

/-- A rename that returns 0 on two different paths moves a subtree of a tree. -/
theorem sysRename_moves {cwd oldpath newpath : Name} (standing : Standing fs root)
    (zero : sysRename fs root cwd oldpath newpath = (0, after))
    (differ : normalizePath cwd oldpath ≠ normalizePath cwd newpath) :
    MovesSubtree fs after root (normalComponents cwd oldpath) (normalComponents cwd newpath) ∧
      Standing after root := by
  obtain ⟨front, name, parent, front', name', parent', split, reached, split', reached',
    noCycle, renamed⟩ := sysRename_zero zero differ
  obtain ⟨dir, newDir, _, there, there', _, _⟩ := RamFs.rename_ok renamed
  have deep := RamFs.isDirectory_of_dirAt there
  have deep' := RamFs.isDirectory_of_dirAt there'
  have apart : ¬ (parent = parent' ∧ name = name') := by
    rintro ⟨rfl, rfl⟩
    cases standing.tree.unique deep reached reached'
    apply differ
    rw [normalizePath_of_ne_nil (by simp [split]), normalizePath_of_ne_nil (by simp [split']),
      split, split']
  obtain ⟨source, moves, kinds, target_ok⟩ := standing.sound.rename_moves renamed apart
  -- the test on the names sees every path through what moves
  have outside : fs.isDirectory source = true → ¬ front ++ [name] <+: front' := by
    rintro isDir ⟨back, within⟩
    apply noCycle source moves.taken isDir
    rw [normalizePath_of_ne_nil (by simp [split]), normalizePath_of_ne_nil (by simp [split']),
      split, split', ← within, List.append_assoc]
    exact flatMap_starts (by simp)
  rw [split, split']
  refine ⟨⟨?_, ?_, ?_, ?_⟩, standing.sound.rename renamed, ?_, ?_⟩
  · intro suffix
    simp only [List.append_assoc, List.singleton_append]
    exact moves.new_below standing.tree reached deep reached' deep' outside
  · intro suffix
    simp only [List.append_assoc, List.singleton_append]
    exact moves.old_gone standing.tree reached deep reached' deep'
  · intro path notOld notNew
    exact moves.elsewhere standing.tree reached deep reached' deep' notOld notNew
  · intro source' target atOld atNew
    rw [descend_snoc reached, moves.taken] at atOld
    cases atOld
    rw [descend_snoc reached'] at atNew
    obtain ⟨same, barren⟩ := target_ok target atNew
    cases isDir : fs.isDirectory source with
    | false => exact Or.inl ⟨rfl, same ▸ isDir⟩
    | true =>
      exact Or.inr ⟨rfl, same ▸ isDir, RamFs.lookup_of_bare (same ▸ isDir) barren⟩
  · rw [kinds, standing.isRoot]
  · simp only [RamFs.Tree, kinds]
    exact moves.onePath standing.tree reached deep reached' deep' outside

/-- The filesystem changes only if the call returns 0 on two different paths. -/
theorem sysRename_cases {fs after : RamFs} {root : InodeId} {cwd oldpath newpath : Name}
    {result : Int} (renamed : sysRename fs root cwd oldpath newpath = (result, after)) :
    after = fs ∨ (result = 0 ∧ normalizePath cwd oldpath ≠ normalizePath cwd newpath) := by
  unfold sysRename at renamed
  simp only at renamed
  split at renamed
  · cases renamed
    exact Or.inl rfl
  split at renamed
  · cases renamed
    exact Or.inl rfl
  split at renamed
  · cases renamed
    exact Or.inl rfl
  split at renamed
  · cases renamed
    exact Or.inl rfl
  rename_i differ
  split at renamed
  · cases renamed
    exact Or.inl rfl
  split at renamed
  · cases renamed
    exact Or.inl rfl
  unfold outcome at renamed
  split at renamed
  · cases renamed
    exact Or.inr ⟨rfl, differ⟩
  · cases renamed
    exact Or.inl rfl

section Calls

variable {creds : VfsCreds} {cwd path : Name} {mode : BitVec 32} (standing : Standing fs root)

include standing

theorem standing_sysRename {oldpath newpath : Name} :
    Standing (sysRename fs root cwd oldpath newpath).2 root := by
  cases renamed : sysRename fs root cwd oldpath newpath with
  | mk result after =>
    rcases sysRename_cases renamed with rfl | ⟨rfl, differ⟩
    · exact standing
    · exact (sysRename_moves standing renamed differ).2

theorem standing_openInode {flags : BitVec 32} :
    Standing (openInode fs root creds cwd path flags mode).2 root := by
  unfold openInode
  split
  · split
    · exact standing
    · split
      · exact standing
      · split
        · exact standing.truncate
        · exact standing
  · split
    · split
      · exact standing
      · rename_i parent basename resolved
        obtain ⟨front, _, reached⟩ := RamFs.resolveParentAndBasename_ok resolved
        split
        · exact standing
        · rename_i made
          exact standing.createFile reached made
    · exact standing

theorem standing_sysMkdir : Standing (sysMkdir fs root creds cwd path mode).2 root := by
  unfold sysMkdir
  split
  · exact standing
  · rename_i parent basename resolved
    obtain ⟨front, _, reached⟩ := RamFs.resolveParentAndBasename_ok resolved
    cases made : fs.createDir parent basename (creds.attributes mode) with
    | error problem => exact standing
    | ok pair => exact standing.createDir reached made

theorem standing_sysUnlink : Standing (sysUnlink fs root cwd path).2 root := by
  unfold sysUnlink
  split
  · exact standing
  · rename_i parent basename resolved
    obtain ⟨front, _, reached⟩ := RamFs.resolveParentAndBasename_ok resolved
    cases removed : fs.unlink parent basename with
    | error problem => exact standing
    | ok after => exact standing.unlink reached removed

/-- One call, whatever it returns. -/
theorem standing_afterCall (call : FsCall) :
    Standing (afterCall root fs call) root := by
  cases call with
  | create creds cwd path flags mode => exact standing_openInode standing
  | mkdir creds cwd path mode => exact standing_sysMkdir standing
  | unlink cwd path => exact standing_sysUnlink standing
  | rename cwd oldpath newpath => exact standing_sysRename standing

theorem standing_afterCalls (calls : List FsCall) :
    Standing (calls.foldl (afterCall root) fs) root := by
  induction calls generalizing fs with
  | nil => exact standing
  | cons call calls ih => exact ih (standing_afterCall standing call)

end Calls

/-- In every tree that can be built and in which no directory is an entry twice, a rename
that returns 0 on two different paths moves what is at the old path to the new one; one
that returns an error changes nothing. After any calls each directory is at one path and no
directory is below itself. -/
theorem rename_moves_subtree {fs : RamFs} {root : InodeId} (reached : fs.Reached)
    (isRoot : fs.isDirectory root = true) (single : fs.SingleEntries root) :
    (∀ cwd oldpath newpath result after,
      sysRename fs root cwd oldpath newpath = (result, after) →
      (result = 0 → normalizePath cwd oldpath ≠ normalizePath cwd newpath →
        MovesSubtree fs after root (components (normalizePath cwd oldpath))
          (components (normalizePath cwd newpath))) ∧
      (result ≠ 0 → ∀ path, descend after.lookup root path = descend fs.lookup root path)) ∧
    ∀ calls : List FsCall, let last := calls.foldl (afterCall root) fs
      ∀ dir path, last.isDirectory dir = true → descend last.lookup root path = .ok dir →
        (∀ other, descend last.lookup root other = .ok dir → other = path) ∧
        ∀ rest, descend last.lookup dir rest = .ok dir → rest = [] := by
  have standing : Standing fs root := ⟨reached.sound, isRoot, single.tree⟩
  constructor
  · intro cwd oldpath newpath result after renamed
    constructor
    · rintro rfl differ
      rw [components_normalizePath, components_normalizePath]
      exact (sysRename_moves standing renamed differ).1
    · intro nonzero path
      rcases sysRename_cases renamed with rfl | ⟨zero, _⟩
      · rfl
      · exact (nonzero zero).elim
  · intro calls last dir path isDir atDir
    have tree := (standing_afterCalls standing calls).tree
    exact ⟨fun other again => tree.unique isDir again atDir,
      fun rest back => tree.acyclic atDir isDir back⟩

/-- A directory with a file in it, renamed. -/
theorem rename_moves_subtree_nested : ∃ after,
    sysRename nestedFile 0 [slash] [slash, 97] [slash, 98] = (0, after) ∧
      MovesSubtree nestedFile after 0 [[97]] [[98]] :=
  ⟨_, rfl, ((rename_moves_subtree reached_nestedFile rfl
    (standing_nestedFile.tree.singleEdges rfl)).1 [slash] [slash, 97] [slash, 98] 0 _ rfl).1 rfl
    (by decide)⟩

end RustPosix.Posix
