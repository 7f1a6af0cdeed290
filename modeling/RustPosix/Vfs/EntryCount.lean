import RustPosix.Vfs.RamFsSteps

/-! The count that `rename` reads without a lock is the number of names of the directory,
whatever was done before. -/

namespace RustPosix.Vfs

open Library

namespace RamFs

namespace Sound

variable {fs : RamFs} {id : InodeId} {name : Name}

private theorem present {dir : RamFsDir} {inode : InodeId}
    (found : dir.entries.lookup name = some inode) : name ∈ dir.entries :=
  AList.lookup_isSome.mp (Option.isSome_of_eq_some found)

private theorem below_of_entered {dir : RamFsDir} {inode child : InodeId} {entered : Prop}
    [Decidable entered] (sound : fs.Sound) (there : fs.dirAt id = some dir)
    (known : inode < fs.created)
    (found : (if entered then some inode else dir.entries.lookup name) = some child) :
    child < fs.created := by
  split at found
  · cases found
    exact known
  · exact sound.closed id dir there found

/-- Changes that enter one existing inode, or none. -/
theorem enter {change : RamFsDir → RamFsDir} {inode : InodeId} (sound : fs.Sound)
    (known : inode < fs.created)
    (counted : ∀ dir, fs.dirAt id = some dir → (change dir).Counted)
    (entered : ∀ dir other, (change dir).entries.lookup other =
      if other = name then some inode else dir.entries.lookup other) :
    (fs.modify id change).Sound := by
  refine sound.modify counted ?_
  intro dir there other child found
  rw [entered] at found
  exact sound.below_of_entered there known found

theorem addChild {inode : InodeId} (sound : fs.Sound) (known : inode < fs.created) :
    (fs.addChild id name inode).Sound :=
  sound.enter known (fun dir there => (sound.counted id dir there).addChild)
    fun dir other => dir.lookup_addChild name other inode

theorem getOrCreateSubdir (sound : fs.Sound) : (fs.getOrCreateSubdir id name).2.Sound := by
  unfold RamFs.getOrCreateSubdir
  split
  · exact sound
  · have fresh : (fs.alloc (.dir .new)).2.Sound := by
      apply sound.alloc
      intro dir new
      cases new
      exact ⟨_, rfl⟩
    exact fresh.enter (Nat.lt_succ_self _)
      (fun dir there => (fresh.counted id dir there).addSubdir)
      fun dir other => dir.lookup_addSubdir name other _

/-- A new inode does not change the directory it is entered into. -/
private theorem dirAt_alloc_old {inode : Inode} {dir : RamFsDir} (sound : fs.Sound)
    (there : fs.dirAt id = some dir) : (fs.alloc inode).2.dirAt id = some dir := by
  rw [dirAt_alloc, if_neg (Nat.ne_of_lt (sound.bounded there)), there]

theorem createFile {attributes : Attributes} {inode : InodeId} {after : RamFs}
    (sound : fs.Sound) (made : fs.createFile id name attributes = .ok (inode, after)) :
    after.Sound := by
  obtain ⟨dir, there, ⟨_, rfl⟩ | ⟨absent, rfl, rfl⟩⟩ := createFile_ok made
  · exact sound
  have fresh : (fs.alloc (.file ⟨[], attributes⟩)).2.Sound := sound.alloc nofun
  refine fresh.enter (Nat.lt_succ_self _) ?_ fun dir other => dir.lookup_createFile name other _
  intro dir' there'
  cases Option.some.inj ((sound.dirAt_alloc_old there).symm.trans there')
  exact (sound.counted id dir there).createFile (AList.lookup_eq_none.mp absent)

theorem createDir {attributes : Attributes} {inode : InodeId} {after : RamFs}
    (sound : fs.Sound) (made : fs.createDir id name attributes = .ok (inode, after)) :
    after.Sound := by
  obtain ⟨dir, there, absent, rfl, rfl⟩ := createDir_ok made
  have fresh : (fs.alloc (.dir (.newWithCreds attributes))).2.Sound := by
    apply sound.alloc
    intro dir new
    cases new
    exact ⟨attributes, rfl⟩
  refine fresh.enter (Nat.lt_succ_self _) ?_ fun dir other => dir.lookup_createDir name other _
  intro dir' there'
  cases Option.some.inj ((sound.dirAt_alloc_old there).symm.trans there')
  exact (sound.counted id dir there).createDir (AList.lookup_eq_none.mp absent)

theorem remove {dir : RamFsDir} {inode : InodeId} (sound : fs.Sound)
    (there : fs.dirAt id = some dir) (found : dir.entries.lookup name = some inode) :
    (fs.modify id (.remove name)).Sound := by
  refine sound.modify ?_ ?_
  · intro dir' there'
    cases there.symm.trans there'
    exact (sound.counted id dir there).remove (present found)
  · intro dir' there' other child kept
    rw [RamFsDir.lookup_remove] at kept
    split at kept
    · cases kept
    · exact sound.closed id dir' there' kept

theorem unlink {after : RamFs} (sound : fs.Sound) (removed : fs.unlink id name = .ok after) :
    after.Sound := by
  obtain ⟨dir, inode, there, found, rfl⟩ := unlink_ok removed
  exact sound.remove there found

theorem linkEntry {inode : InodeId} {after : RamFs} (sound : fs.Sound)
    (known : inode < fs.created) (linked : fs.linkEntry id name inode = .ok after) :
    after.Sound := by
  unfold RamFs.linkEntry at linked
  split at linked
  · cases linked
  · cases linked
    exact sound.enter known (fun dir there => (sound.counted id dir there).linkEntry)
      fun dir other => dir.lookup_linkEntry name other inode

theorem rename {oldName newName : Name} {newParent : InodeId} {after : RamFs}
    (sound : fs.Sound) (renamed : fs.rename id oldName newParent newName = .ok after) :
    after.Sound := by
  obtain ⟨dir, newDir, source, there, there', found, ⟨_, _, rfl⟩ | ⟨_, _, _, rfl⟩ |
    ⟨_, _, rfl⟩⟩ := rename_ok renamed
  · exact sound
  · refine sound.modify ?_ ?_
    · intro dir' same
      cases there.symm.trans same
      exact (sound.counted id dir there).renameWithin (present found)
    · intro dir' same other child kept
      rw [RamFsDir.lookup_renameWithin] at kept
      split at kept
      · cases kept
        exact sound.closed id dir there found
      · split at kept
        · cases kept
        · exact sound.closed id dir' same kept
  · have removed : (fs.modify id (.remove oldName)).Sound := sound.remove there found
    refine removed.enter ?_ (fun dir same => (removed.counted newParent dir same).receive)
      fun dir other => dir.lookup_receive newName other source _
    rw [created_modify]
    exact sound.closed id dir there found

/-- One operation, on any directory and whether it succeeds or fails. -/
theorem apply {op : DirOp} (sound : fs.Sound) (given : fs.given op = true) :
    (fs.apply op).Sound := by
  have afterwards : ∀ {result : Except Int RamFs},
      (∀ after, result = .ok after → after.Sound) → (fs.afterwards result).Sound := by
    intro result succeeds
    cases result with
    | ok after => exact succeeds after rfl
    | error problem => exact sound
  have second : ∀ {result : Except Int (InodeId × RamFs)} {after : RamFs},
      result.map Prod.snd = .ok after → ∃ inode, result = .ok (inode, after) := by
    intro result after same
    cases result with
    | ok pair =>
      cases same
      exact ⟨pair.1, rfl⟩
    | error problem => cases same
  cases op with
  | newDir attributes =>
    apply sound.alloc
    intro dir new
    cases new
    exact ⟨attributes, rfl⟩
  | newFile file => exact sound.alloc nofun
  | newSpecial attributes => exact sound.alloc nofun
  | addChild dir name inode => exact sound.addChild (of_decide_eq_true given)
  | getOrCreateSubdir dir name => exact sound.getOrCreateSubdir
  | createFile dir name attributes =>
    refine afterwards fun after made => ?_
    obtain ⟨inode, made⟩ := second made
    exact sound.createFile made
  | createDir dir name attributes =>
    refine afterwards fun after made => ?_
    obtain ⟨inode, made⟩ := second made
    exact sound.createDir made
  | unlink dir name => exact afterwards fun after removed => sound.unlink removed
  | linkEntry dir name inode =>
    exact afterwards fun after linked => sound.linkEntry (of_decide_eq_true given) linked
  | rename dir oldName newParent newName =>
    exact afterwards fun after renamed => sound.rename renamed

end Sound

theorem sound_empty : empty.Sound := by
  refine ⟨?_, ?_, ?_⟩
  · intro id dir there
    cases there
  · intro id dir there
    cases there
  · intro id dir there
    cases there

theorem Reached.sound {fs : RamFs} (reached : fs.Reached) : fs.Sound := by
  refine Run.invariant reached sound_empty ?_
  intro before op after sound given next
  cases next
  exact sound.apply given

/-- In every filesystem that can be built, each directory's count is its number of names,
so an entry that `rename` replaces is no directory with entries. -/
theorem entry_count_exact {fs : RamFs} (reached : fs.Reached) :
    (∀ id dir, fs.dirAt id = some dir → dir.entryCount = dir.entries.keys.length) ∧
      ∀ id oldName newParent newName after target targetDir,
        fs.rename id oldName newParent newName = .ok after →
        ¬ (id = newParent ∧ oldName = newName) → fs.lookup newParent newName = .ok target →
        fs.dirAt target = some targetDir → targetDir.entries.keys = [] := by
  have sound := Reached.sound reached
  refine ⟨sound.counted, ?_⟩
  intro id oldName newParent newName after target targetDir renamed apart found there
  apply List.eq_nil_of_length_eq_zero
  rw [← sound.counted target targetDir there]
  obtain ⟨newDir', atNew', entry⟩ := lookup_ok found
  obtain ⟨dir, newDir, source, atOld, atNew, _, ⟨same, noop, _⟩ | ⟨same, _, passes, _⟩ |
    ⟨_, passes, _⟩⟩ := rename_ok renamed
  · exact (apart ⟨same, noop⟩).elim
  · subst same
    cases Option.some.inj (atOld.symm.trans atNew')
    rw [entry] at passes
    exact (checkTarget_ok passes).2 targetDir there
  · cases Option.some.inj (atNew.symm.trans atNew')
    rw [entry] at passes
    exact (checkTarget_ok passes).2 targetDir there

/-- A directory that lost its only file to a rename counts no entry. -/
theorem entry_count_exact_emptied : ∃ fs : RamFs, fs.Reached ∧
    (fs.dirAt 1).map (·.entryCount) = some 0 ∧
    ∀ id dir, fs.dirAt id = some dir → dir.entryCount = dir.entries.keys.length := by
  have seen : ((Library.follow (fun fs op => some (fs.apply op)) given empty
      [.newDir ⟨0o755, 0, 0⟩, .createDir 0 [97] ⟨0o755, 0, 0⟩, .createFile 1 [98] ⟨0o644, 0, 0⟩,
        .rename 1 [98] 0 [99]]).any
      fun fs => decide ((fs.dirAt 1).map (·.entryCount) = some 0)) = true := by
    decide +kernel
  obtain ⟨fs, _, reached, look⟩ := Run.seen (fun _ _ passes => passes) seen
  exact ⟨fs, reached, of_decide_eq_true look, (entry_count_exact reached).1⟩

end RamFs

end RustPosix.Vfs
