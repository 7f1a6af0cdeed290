import RustPosix.Vfs.EntryCount

/-! The directories as a graph whose edges are `lookup`: what each operation does to the
edges, and that it keeps every directory at one path. -/

namespace RustPosix.Vfs

open Library

namespace RamFs

/-- Every directory is at no more than one path from the root. -/
abbrev Tree (fs : RamFs) (root : InodeId) : Prop :=
  OnePath fs.lookup (fun id => fs.isDirectory id = true) root

/-- No directory is an entry twice in the directories that the root leads to, and the
root is none. -/
abbrev SingleEntries (fs : RamFs) (root : InodeId) : Prop :=
  SingleEdges fs.lookup (fun id => fs.isDirectory id = true) root

section Edges

variable {fs : RamFs} {id other : InodeId} {dir : RamFsDir} {name : Name}

theorem lookup_of_dirAt (there : fs.dirAt id = some dir) :
    fs.lookup id name = (dir.entries.lookup name).elim (.error enoent) .ok := by
  unfold lookup
  rw [there]
  cases found : dir.entries.lookup name with
  | none => simp only [found, Option.elim]
  | some inode => simp only [found, Option.elim]

theorem lookup_congr {fs' : RamFs} (same : fs'.dirAt id = fs.dirAt id) :
    fs'.lookup id name = fs.lookup id name := by
  unfold lookup
  rw [same]

theorem isDirectory_of_dirAt (there : fs.dirAt id = some dir) : fs.isDirectory id = true := by
  unfold isDirectory
  rw [there]
  rfl

theorem isDirectory_of_lookup {child : InodeId} (found : fs.lookup id name = .ok child) :
    fs.isDirectory id = true := by
  obtain ⟨dir, there, _⟩ := lookup_ok found
  exact isDirectory_of_dirAt there

theorem isDirectory_modify {change : RamFsDir → RamFsDir} :
    (fs.modify id change).isDirectory other = fs.isDirectory other := by
  unfold isDirectory
  cases there : fs.dirAt id with
  | none =>
    unfold modify
    rw [there]
  | some dir =>
    rw [dirAt_modify there]
    split
    · rename_i same
      rw [same, there]
      rfl
    · rfl

/-- A directory in which nothing is found misses every name. -/
theorem lookup_of_bare (isDir : fs.isDirectory id = true)
    (bare : ∀ name child, fs.lookup id name ≠ .ok child) (name : Name) :
    fs.lookup id name = .error enoent := by
  obtain ⟨dir, there⟩ := Option.isSome_iff_exists.mp isDir
  cases found : dir.entries.lookup name with
  | none => rw [lookup_of_dirAt there, found, Option.elim]
  | some child => exact (bare name child (by rw [lookup_of_dirAt there, found, Option.elim])).elim

theorem SingleEntries.tree {root : InodeId} (single : fs.SingleEntries root) : fs.Tree root :=
  SingleEdges.onePath single isDirectory_of_lookup

/-- Nothing is found in what the count says to be empty. -/
theorem Sound.barren {target child : InodeId} (sound : fs.Sound)
    (empty : ∀ dir, fs.dirAt target = some dir → dir.entryCount = 0) :
    fs.lookup target name ≠ .ok child := by
  intro found
  obtain ⟨dir, there, entry⟩ := lookup_ok found
  have counted := sound.counted target dir there
  rw [RamFsDir.Counted, empty dir there] at counted
  have none : dir.entries.keys = [] := List.eq_nil_of_length_eq_zero counted.symm
  have present := AList.mem_keys.mp (AList.lookup_isSome.mp (Option.isSome_of_eq_some entry))
  rw [none] at present
  exact List.not_mem_nil present

end Edges

section Rename

variable {fs after : RamFs} {id newParent : InodeId} {oldName newName : Name}

/-- The edges after renaming within a directory. -/
private theorem lookup_renameWithin {dir : RamFsDir} {source other : InodeId} {name : Name}
    (there : fs.dirAt id = some dir) :
    (fs.modify id (.renameWithin oldName newName source)).lookup other name =
      if other = id ∧ name = newName then .ok source
      else if other = id ∧ name = oldName then .error enoent
      else fs.lookup other name := by
  by_cases same : other = id
  · subst same
    rw [lookup_of_dirAt (dirAt_modify there |>.trans (if_pos rfl)),
      RamFsDir.lookup_renameWithin, lookup_of_dirAt there]
    simp only [true_and]
    split
    · rfl
    · split <;> rfl
  · rw [if_neg fun both => same both.1, if_neg fun both => same both.1]
    exact lookup_congr (dirAt_modify there |>.trans (if_neg same))

/-- The edge after one has been removed. -/
theorem lookup_remove {dir : RamFsDir} {other : InodeId} {name name' : Name}
    (there : fs.dirAt id = some dir) :
    (fs.modify id (.remove name)).lookup other name' =
      if other = id ∧ name' = name then .error enoent else fs.lookup other name' := by
  by_cases same : other = id
  · subst same
    rw [lookup_of_dirAt (dirAt_modify there |>.trans (if_pos rfl)),
      RamFsDir.lookup_remove, lookup_of_dirAt there]
    simp only [true_and]
    split <;> rfl
  · rw [if_neg fun both => same both.1]
    exact lookup_congr (dirAt_modify there |>.trans (if_neg same))

/-- The edges after a change that enters one inode. -/
theorem lookup_enter {dir : RamFsDir} {inode other : InodeId} {name name' : Name}
    {change : RamFsDir → RamFsDir} (there : fs.dirAt id = some dir)
    (entered : ∀ other, (change dir).entries.lookup other =
      if other = name then some inode else dir.entries.lookup other) :
    (fs.modify id change).lookup other name' =
      if other = id ∧ name' = name then .ok inode else fs.lookup other name' := by
  by_cases same : other = id
  · subst same
    rw [lookup_of_dirAt (dirAt_modify there |>.trans (if_pos rfl)), entered,
      lookup_of_dirAt there]
    simp only [true_and]
    split <;> rfl
  · rw [if_neg fun both => same both.1]
    exact lookup_congr (dirAt_modify there |>.trans (if_neg same))

/-- A rename that is no no-op moves one edge, and what it replaces has no entries. -/
theorem Sound.rename_moves (sound : fs.Sound)
    (renamed : fs.rename id oldName newParent newName = .ok after)
    (apart : ¬ (id = newParent ∧ oldName = newName)) :
    ∃ source, Moves fs.lookup after.lookup id oldName newParent newName source enoent ∧
      (∀ other, after.isDirectory other = fs.isDirectory other) ∧
      ∀ target, fs.lookup newParent newName = .ok target →
        fs.isDirectory source = fs.isDirectory target ∧
          ∀ name child, fs.lookup target name ≠ .ok child := by
  obtain ⟨dir, newDir, source, there, there', found, cases⟩ := rename_ok renamed
  have taken : fs.lookup id oldName = .ok source := by
    rw [lookup_of_dirAt there, found]
    rfl
  have target_ok : ∀ busy target, fs.lookup newParent newName = .ok target →
      fs.checkTarget busy source (newDir.entries.lookup newName) = .ok () →
      fs.isDirectory source = fs.isDirectory target ∧
        ∀ name child, fs.lookup target name ≠ .ok child := by
    intro busy target atNew passes
    obtain ⟨newDir', again, entry⟩ := lookup_ok atNew
    cases Option.some.inj (there'.symm.trans again)
    rw [entry] at passes
    exact ⟨(checkTarget_ok passes).1, fun name child => sound.barren (checkTarget_ok passes).2⟩
  rcases cases with ⟨same, noop, _⟩ | ⟨same, differ, passes, rfl⟩ | ⟨differ, passes, rfl⟩
  · exact (apart ⟨same, noop⟩).elim
  · subst same
    cases Option.some.inj (there.symm.trans there')
    have checked := fun target atNew => target_ok [id] target atNew passes
    refine ⟨source, ⟨taken, apart, ?_, ?_, ?_, ?_⟩, fun _ => isDirectory_modify, checked⟩
    · rw [lookup_renameWithin there, if_neg fun both => differ both.2, if_pos ⟨rfl, rfl⟩]
    · rw [lookup_renameWithin there, if_pos ⟨rfl, rfl⟩]
    · intro other name notOld notNew
      rw [lookup_renameWithin there, if_neg notNew, if_neg notOld]
    · exact fun old name next atNew => (checked old atNew).2 name next
  · have atNew : (fs.modify id (.remove oldName)).dirAt newParent = some newDir := by
      rw [dirAt_modify there, if_neg fun same => differ same.symm, there']
    have edges : ∀ {other name}, ((fs.modify id (.remove oldName)).modify newParent
        (.receive newName source (dir.subdirs.lookup oldName))).lookup other name =
          if other = newParent ∧ name = newName then .ok source
          else if other = id ∧ name = oldName then .error enoent else fs.lookup other name := by
      intro other name
      rw [lookup_enter atNew fun other => newDir.lookup_receive newName other source _,
        lookup_remove there]
    have checked := fun target atNew => target_ok [id, newParent] target atNew passes
    refine ⟨source, ⟨taken, apart, ?_, ?_, ?_, ?_⟩,
      fun _ => isDirectory_modify.trans isDirectory_modify, checked⟩
    · rw [edges, if_neg fun both => differ both.1, if_pos ⟨rfl, rfl⟩]
    · rw [edges, if_pos ⟨rfl, rfl⟩]
    · intro other name notOld notNew
      rw [edges, if_neg notNew, if_neg notOld]
    · exact fun old name next atNew => (checked old atNew).2 name next

end Rename

section Tree

variable {fs after : RamFs} {id root : InodeId} {name : Name} {front : List Name}

/-- Removing an entry takes one edge away. -/
theorem lookup_unlink (removed : fs.unlink id name = .ok after) {other : InodeId} {name' : Name} :
    after.lookup other name' =
      if other = id ∧ name' = name then .error enoent else fs.lookup other name' := by
  obtain ⟨dir, inode, there, _, rfl⟩ := unlink_ok removed
  exact lookup_remove there

theorem isDirectory_of_unlink (removed : fs.unlink id name = .ok after) :
    fs.isDirectory id = true := by
  obtain ⟨dir, inode, there, _, _⟩ := unlink_ok removed
  exact isDirectory_of_dirAt there

/-- Only paths at or below a removed entry change. -/
theorem Tree.descend_unlink {path : List Name} (tree : fs.Tree root)
    (atId : descend fs.lookup root front = .ok id) (removed : fs.unlink id name = .ok after)
    (outside : ¬ front ++ [name] <+: path) :
    descend after.lookup root path = descend fs.lookup root path := by
  refine tree.descend_of_not_below (isDirectory_of_unlink removed) atId ?_ outside
  intro path other name' _ elsewhere
  rw [lookup_unlink removed, if_neg elsewhere]

/-- Nothing is left at or below a removed entry. -/
theorem Tree.descend_unlink_below {rest : List Name} (tree : fs.Tree root)
    (atId : descend fs.lookup root front = .ok id) (removed : fs.unlink id name = .ok after) :
    descend after.lookup root (front ++ name :: rest) = .error enoent := by
  apply tree.descend_of_below_removed (isDirectory_of_unlink removed) atId
  · intro path other name' _ elsewhere
    rw [lookup_unlink removed, if_neg elsewhere]
  · rw [lookup_unlink removed, if_pos ⟨rfl, rfl⟩]

/-- Removing an entry keeps a tree, whatever was below it. -/
theorem Tree.unlink (tree : fs.Tree root) (atId : descend fs.lookup root front = .ok id)
    (removed : fs.unlink id name = .ok after) : after.Tree root := by
  have same : ∀ other, after.isDirectory other = fs.isDirectory other := by
    obtain ⟨dir, inode, there, _, rfl⟩ := unlink_ok removed
    exact fun _ => isDirectory_modify
  simp only [Tree, same]
  apply tree.remove (isDirectory_of_unlink removed) atId
  · intro path other name' _ elsewhere
    rw [lookup_unlink removed, if_neg elsewhere]
  · rw [lookup_unlink removed, if_pos ⟨rfl, rfl⟩]
  · intro node label next found
    rw [← same]
    exact isDirectory_of_lookup found

theorem Sound.below_of_walk {path : List Name} {other : InodeId} (sound : fs.Sound)
    (isRoot : fs.isDirectory root = true) (reached : descend fs.lookup root path = .ok other) :
    other < fs.created := by
  cases path using List.reverseRecOn with
  | nil =>
    cases reached
    obtain ⟨rootDir, atRoot⟩ := Option.isSome_iff_exists.mp isRoot
    exact sound.bounded atRoot
  | append_singleton path label =>
    obtain ⟨middle, before, step⟩ := descend_append_ok reached
    rw [descend_snoc before] at reached
    obtain ⟨dir, there, entry⟩ := lookup_ok reached
    exact sound.closed middle dir there entry

/-- Entering a new inode without entries plants an edge. -/
theorem Sound.plants {inode : Inode} {dir : RamFsDir} {change : RamFsDir → RamFsDir}
    (sound : fs.Sound) (isRoot : fs.isDirectory root = true) (there : fs.dirAt id = some dir)
    (bare : ∀ new, inode = .dir new → new.entries = ∅)
    (entered : ∀ other, (change dir).entries.lookup other =
      if other = name then some fs.created else dir.entries.lookup other) :
    Plants fs.lookup ((fs.alloc inode).2.modify id change).lookup root id name fs.created := by
  have below : ∀ {path other}, descend fs.lookup root path = .ok other → other < fs.created :=
    sound.below_of_walk isRoot
  have there' : (fs.alloc inode).2.dirAt id = some dir := by
    rw [dirAt_alloc, if_neg (Nat.ne_of_lt (sound.bounded there)), there]
  refine ⟨?_, ?_, fun path reached => Nat.lt_irrefl _ (below reached), ?_⟩
  · rw [lookup_enter there' entered, if_pos ⟨rfl, rfl⟩]
  · intro path other name' reached elsewhere
    rw [lookup_enter there' entered, if_neg elsewhere]
    exact lookup_congr ((dirAt_alloc inode).trans (if_neg (Nat.ne_of_lt (below reached))))
  · intro name' last found
    have apart : ¬ (fs.created = id ∧ name' = name) :=
      fun both => Nat.ne_of_gt (sound.bounded there) both.1
    rw [lookup_enter there' entered, if_neg apart] at found
    obtain ⟨new, isNew, entry⟩ := lookup_ok found
    rw [dirAt_alloc, if_pos rfl] at isNew
    cases inode with
    | dir made =>
      cases isNew
      rw [bare new rfl] at entry
      cases entry
    | file _ => cases isNew
    | special _ => cases isNew

/-- Entering a new inode without entries keeps a tree. -/
theorem Tree.enter {inode : Inode} {change : RamFsDir → RamFsDir} (tree : fs.Tree root)
    (plants : Plants fs.lookup ((fs.alloc inode).2.modify id change).lookup root id name fs.created)
    (atId : descend fs.lookup root front = .ok id) (isDir : fs.isDirectory id = true) :
    ((fs.alloc inode).2.modify id change).Tree root := by
  refine plants.onePath tree isDir atId ?_ isDirectory_of_lookup
  intro other inside
  rw [isDirectory_modify] at inside
  by_cases same : other = fs.created
  · exact Or.inl same
  · refine Or.inr ?_
    unfold isDirectory at inside ⊢
    rwa [dirAt_alloc, if_neg same] at inside

end Tree

end RamFs

end RustPosix.Vfs
