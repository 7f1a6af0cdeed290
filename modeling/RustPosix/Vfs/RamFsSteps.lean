import RustPosix.Library.Run
import RustPosix.Vfs.RamFs

/-! What the operations of a directory do to the heap of inodes, and what holds in every
filesystem they can build. -/

namespace RustPosix.Vfs

open Library

section Keys

variable {α : Type} [DecidableEq α] {β : α → Type} {key : α} {value : β key} {map : AList β}

private theorem length_insert_absent (absent : key ∉ map) :
    (map.insert key value).keys.length = map.keys.length + 1 := by
  rw [AList.keys_insert, List.length_cons, List.erase_of_not_mem (by rwa [← AList.mem_keys])]

private theorem length_erase (present : key ∈ map) :
    (map.erase key).keys.length = map.keys.length - 1 := by
  rw [AList.keys_erase, List.length_erase_of_mem (AList.mem_keys.mp present)]

private theorem length_insert_present (present : key ∈ map) :
    (map.insert key value).keys.length = map.keys.length := by
  have nonempty := List.length_pos_of_mem (AList.mem_keys.mp present)
  rw [AList.keys_insert, List.length_cons, List.length_erase_of_mem (AList.mem_keys.mp present)]
  omega

private theorem length_erase_insert :
    ((map.erase key).insert key value).keys.length = (map.erase key).keys.length + 1 :=
  length_insert_absent fun present => (AList.mem_erase.mp present).1 rfl

private theorem length_erase_absent (absent : ¬ (map.lookup key).isSome = true) :
    (map.erase key).keys.length = map.keys.length := by
  rw [AList.keys_erase, List.erase_of_not_mem]
  exact fun present => absent (AList.lookup_isSome.mpr (AList.mem_keys.mpr present))

omit [DecidableEq α] in
private theorem length_pos (present : key ∈ map) : 0 < map.keys.length :=
  List.length_pos_of_mem (AList.mem_keys.mp present)

end Keys

namespace RamFsDir

section Lookup

variable (dir : RamFsDir) (name other : Name) (inode : InodeId)

private theorem lookup_insert_eq (map : NameMap) :
    (map.insert name inode).lookup other = if other = name then some inode else map.lookup other := by
  by_cases same : other = name
  · rw [if_pos same, same, AList.lookup_insert]
  · rw [if_neg same, AList.lookup_insert_ne same]

private theorem lookup_erase_eq (map : NameMap) :
    (map.erase name).lookup other = if other = name then none else map.lookup other := by
  by_cases same : other = name
  · rw [if_pos same, same, AList.lookup_erase]
  · rw [if_neg same, AList.lookup_erase_ne same]

@[simp] theorem lookup_addChild : (dir.addChild name inode).entries.lookup other =
    if other = name then some inode else dir.entries.lookup other :=
  lookup_insert_eq ..

@[simp] theorem lookup_addSubdir : (dir.addSubdir name inode).entries.lookup other =
    if other = name then some inode else dir.entries.lookup other :=
  lookup_insert_eq ..

@[simp] theorem lookup_createFile : (dir.createFile name inode).entries.lookup other =
    if other = name then some inode else dir.entries.lookup other :=
  lookup_insert_eq ..

@[simp] theorem lookup_createDir : (dir.createDir name inode).entries.lookup other =
    if other = name then some inode else dir.entries.lookup other :=
  lookup_insert_eq ..

@[simp] theorem lookup_linkEntry : (dir.linkEntry name inode).entries.lookup other =
    if other = name then some inode else dir.entries.lookup other := by
  unfold linkEntry
  split
  · exact lookup_insert_eq ..
  · exact lookup_insert_eq ..

@[simp] theorem lookup_remove : (dir.remove name).entries.lookup other =
    if other = name then none else dir.entries.lookup other :=
  lookup_erase_eq ..

@[simp] theorem lookup_receive (subdir : Option InodeId) :
    (dir.receive name inode subdir).entries.lookup other =
      if other = name then some inode else dir.entries.lookup other := by
  unfold receive
  simp only
  rw [lookup_insert_eq, lookup_erase_eq]
  split <;> rfl

@[simp] theorem lookup_renameWithin (oldName newName : Name) :
    (dir.renameWithin oldName newName inode).entries.lookup other =
      if other = newName then some inode
      else if other = oldName then none else dir.entries.lookup other := by
  unfold renameWithin
  simp only
  rw [lookup_insert_eq, lookup_erase_eq, lookup_erase_eq]
  split <;> rfl

end Lookup

/-- The cached count is the number of names. -/
def Counted (dir : RamFsDir) : Prop := dir.entryCount = dir.entries.keys.length

variable {dir : RamFsDir} {name : Name} {inode : InodeId}

private theorem absent_of_isNone (absent : (dir.entries.lookup name).isNone = true) :
    name ∉ dir.entries :=
  AList.lookup_eq_none.mp (Option.isNone_iff_eq_none.mp absent)

private theorem present_of_not_isNone (present : ¬ (dir.entries.lookup name).isNone = true) :
    name ∈ dir.entries := by
  apply AList.lookup_isSome.mp
  cases found : dir.entries.lookup name with
  | none => rw [found] at present; exact (present rfl).elim
  | some other => rfl

theorem Counted.addChild (counted : dir.Counted) : (dir.addChild name inode).Counted := by
  unfold Counted RamFsDir.addChild at *
  split
  · rename_i absent
    rw [length_insert_absent (absent_of_isNone absent), counted]
  · rename_i present
    rw [length_insert_present (present_of_not_isNone present), counted]

theorem Counted.addSubdir (counted : dir.Counted) : (dir.addSubdir name inode).Counted :=
  counted.addChild

theorem Counted.createFile (counted : dir.Counted) (absent : name ∉ dir.entries) :
    (dir.createFile name inode).Counted := by
  unfold Counted RamFsDir.createFile at *
  rw [length_insert_absent absent, counted]

theorem Counted.createDir (counted : dir.Counted) (absent : name ∉ dir.entries) :
    (dir.createDir name inode).Counted := by
  unfold Counted RamFsDir.createDir at *
  rw [length_insert_absent absent, counted]

theorem Counted.remove (counted : dir.Counted) (present : name ∈ dir.entries) :
    (dir.remove name).Counted := by
  unfold Counted RamFsDir.remove at *
  rw [length_erase present, counted]

theorem Counted.linkEntry (counted : dir.Counted) : (dir.linkEntry name inode).Counted := by
  unfold Counted RamFsDir.linkEntry at *
  split
  · rename_i absent
    rw [length_insert_absent (absent_of_isNone absent), counted]
  · rename_i present
    rw [length_insert_present (present_of_not_isNone present), counted]

theorem Counted.receive {subdir : Option InodeId} (counted : dir.Counted) :
    (dir.receive name inode subdir).Counted := by
  unfold Counted RamFsDir.receive at *
  simp only
  rw [length_erase_insert]
  split
  · rename_i present
    have nonempty := length_pos (AList.lookup_isSome.mp present)
    rw [length_erase (AList.lookup_isSome.mp present)]
    omega
  · rename_i absent
    rw [length_erase_absent absent, counted]

theorem Counted.renameWithin {oldName newName : Name} (counted : dir.Counted)
    (present : oldName ∈ dir.entries) :
    (dir.renameWithin oldName newName inode).Counted := by
  have nonempty := length_pos present
  have erased := length_erase present
  unfold Counted RamFsDir.renameWithin at *
  simp only
  rw [length_erase_insert]
  split
  · rename_i replaced
    have nonempty' := length_pos (AList.lookup_isSome.mp replaced)
    rw [length_erase (AList.lookup_isSome.mp replaced)]
    omega
  · rename_i absent
    rw [length_erase_absent absent]
    omega

end RamFsDir

namespace RamFs

variable {fs : RamFs} {id other : InodeId} {dir : RamFsDir} {name : Name}

theorem dirAt_set (inode : Inode) : (fs.set id inode).dirAt other =
    if other = id then (match inode with | .dir dir => some dir | _ => none)
    else fs.dirAt other := by
  unfold dirAt set
  by_cases same : other = id
  · subst same
    simp only [Function.update_self, if_true]
    cases inode <;> rfl
  · simp only [Function.update_of_ne same, if_neg same]

theorem dirAt_alloc (inode : Inode) : (fs.alloc inode).2.dirAt other =
    if other = fs.created then (match inode with | .dir dir => some dir | _ => none)
    else fs.dirAt other :=
  dirAt_set inode

theorem dirAt_modify {change : RamFsDir → RamFsDir} (there : fs.dirAt id = some dir) :
    (fs.modify id change).dirAt other =
      if other = id then some (change dir) else fs.dirAt other := by
  unfold modify
  rw [there]
  exact dirAt_set (.dir (change dir))

/-- Every directory of the heap has the property. -/
def Everywhere (fs : RamFs) (holds : RamFsDir → Prop) : Prop :=
  ∀ id dir, fs.dirAt id = some dir → holds dir

variable {holds : RamFsDir → Prop}

theorem Everywhere.modify {change : RamFsDir → RamFsDir} (everywhere : fs.Everywhere holds)
    (keeps : ∀ dir, fs.dirAt id = some dir → holds (change dir)) :
    (fs.modify id change).Everywhere holds := by
  intro other dir there
  cases found : fs.dirAt id with
  | none =>
    unfold RamFs.modify at there
    rw [found] at there
    exact everywhere other dir there
  | some old =>
    rw [dirAt_modify found] at there
    split at there
    · cases there
      exact keeps old found
    · exact everywhere other dir there

theorem Everywhere.alloc {inode : Inode} (everywhere : fs.Everywhere holds)
    (fresh : ∀ dir, inode = .dir dir → holds dir) : (fs.alloc inode).2.Everywhere holds := by
  intro other dir there
  rw [dirAt_alloc] at there
  split at there
  · cases inode with
    | dir new =>
      cases there
      exact fresh dir rfl
    | file _ => cases there
    | special _ => cases there
  · exact everywhere other dir there

theorem lookup_ok {child : InodeId} (found : fs.lookup id name = .ok child) :
    ∃ dir, fs.dirAt id = some dir ∧ dir.entries.lookup name = some child := by
  unfold lookup at found
  split at found
  · cases found
  · rename_i dir there
    split at found
    · rename_i inode entry
      cases found
      exact ⟨dir, there, entry⟩
    · cases found

section Errors

variable {problem : Int}

theorem lookup_error (failed : fs.lookup id name = .error problem) : 0 < problem := by
  unfold lookup at failed
  split at failed
  · cases failed
    decide
  · split at failed
    · cases failed
    · cases failed
      decide

theorem unlink_error (failed : fs.unlink id name = .error problem) : 0 < problem := by
  unfold unlink at failed
  split at failed
  · cases failed
    decide
  · split at failed
    · cases failed
    · cases failed
      decide

theorem checkTarget_error {busy : List InodeId} {source : InodeId} {target : Option InodeId}
    (failed : fs.checkTarget busy source target = .error problem) : 0 < problem := by
  unfold checkTarget at failed
  split at failed
  · cases failed
  split at failed
  · cases failed
    decide
  split at failed
  · cases failed
    decide
  split at failed
  · split at failed
    · cases failed
      decide
    · cases failed
  · cases failed

theorem rename_error {newParent : InodeId} {newName : Name}
    (failed : fs.rename id name newParent newName = .error problem) : 0 < problem := by
  unfold rename at failed
  split at failed
  · cases failed
    decide
  split at failed
  · cases failed
    decide
  split at failed
  · cases failed
    decide
  split at failed
  · split at failed
    · cases failed
    · split at failed
      · rename_i refused
        cases failed
        exact checkTarget_error refused
      · cases failed
  · split at failed
    · rename_i refused
      cases failed
      exact checkTarget_error refused
    · cases failed

theorem createFile_error {attributes : Attributes}
    (failed : fs.createFile id name attributes = .error problem) : 0 < problem := by
  unfold createFile at failed
  split at failed
  · cases failed
    decide
  · split at failed <;> cases failed

end Errors

theorem createFile_ok {attributes : Attributes} {inode : InodeId} {after : RamFs}
    (made : fs.createFile id name attributes = .ok (inode, after)) :
    ∃ dir, fs.dirAt id = some dir ∧
      ((dir.entries.lookup name = some inode ∧ after = fs) ∨
        (dir.entries.lookup name = none ∧ inode = fs.created ∧
          after = (fs.alloc (.file ⟨[], attributes⟩)).2.modify id
            (.createFile name fs.created))) := by
  unfold createFile at made
  split at made
  · cases made
  · rename_i dir there
    refine ⟨dir, there, ?_⟩
    split at made
    · rename_i existing found
      cases made
      exact Or.inl ⟨found, rfl⟩
    · rename_i absent
      cases made
      exact Or.inr ⟨absent, rfl, rfl⟩

theorem createDir_ok {attributes : Attributes} {inode : InodeId} {after : RamFs}
    (made : fs.createDir id name attributes = .ok (inode, after)) :
    ∃ dir, fs.dirAt id = some dir ∧ dir.entries.lookup name = none ∧ inode = fs.created ∧
      after = (fs.alloc (.dir (.newWithCreds attributes))).2.modify id
        (.createDir name fs.created) := by
  unfold createDir at made
  split at made
  · cases made
  · rename_i dir there
    split at made
    · cases made
    · rename_i absent
      cases made
      exact ⟨dir, there, Option.not_isSome_iff_eq_none.mp absent, rfl, rfl⟩

theorem unlink_ok {after : RamFs} (removed : fs.unlink id name = .ok after) :
    ∃ dir inode, fs.dirAt id = some dir ∧ dir.entries.lookup name = some inode ∧
      after = fs.modify id (.remove name) := by
  unfold unlink at removed
  split at removed
  · cases removed
  · rename_i dir there
    split at removed
    · rename_i present
      obtain ⟨inode, found⟩ := Option.isSome_iff_exists.mp present
      cases removed
      exact ⟨dir, inode, there, found, rfl⟩
    · cases removed

theorem rename_ok {oldName newName : Name} {newParent : InodeId} {after : RamFs}
    (renamed : fs.rename id oldName newParent newName = .ok after) :
    ∃ dir newDir source, fs.dirAt id = some dir ∧ fs.dirAt newParent = some newDir ∧
      dir.entries.lookup oldName = some source ∧
      ((id = newParent ∧ oldName = newName ∧ after = fs) ∨
        (id = newParent ∧ oldName ≠ newName ∧
          fs.checkTarget [id] source (dir.entries.lookup newName) = .ok () ∧
          after = fs.modify id (.renameWithin oldName newName source)) ∨
        (id ≠ newParent ∧
          fs.checkTarget [id, newParent] source (newDir.entries.lookup newName) = .ok () ∧
          after = (fs.modify id (.remove oldName)).modify newParent
            (.receive newName source (dir.subdirs.lookup oldName)))) := by
  unfold rename at renamed
  split at renamed
  · cases renamed
  rename_i dir there
  split at renamed
  · cases renamed
  rename_i newDir there'
  split at renamed
  · cases renamed
  rename_i source found
  refine ⟨dir, newDir, source, there, there', found, ?_⟩
  split at renamed
  · rename_i same
    split at renamed
    · rename_i noop
      cases renamed
      exact Or.inl ⟨same, noop, rfl⟩
    · rename_i apart
      split at renamed
      · cases renamed
      · rename_i passes
        cases renamed
        exact Or.inr (Or.inl ⟨same, apart, passes, rfl⟩)
  · rename_i apart
    split at renamed
    · cases renamed
    · rename_i passes
      cases renamed
      exact Or.inr (Or.inr ⟨apart, passes, rfl⟩)

/-- An entry that `rename` replaces is a directory without entries by its count, or
neither side is a directory. -/
theorem checkTarget_ok {busy : List InodeId} {source target : InodeId}
    (passes : fs.checkTarget busy source (some target) = .ok ()) :
    fs.isDirectory source = fs.isDirectory target ∧
      ∀ dir, fs.dirAt target = some dir → dir.entryCount = 0 := by
  simp only [checkTarget] at passes
  split at passes
  · cases passes
  rename_i notFile
  split at passes
  · cases passes
  rename_i notDirectory
  constructor
  · cases isSource : fs.isDirectory source with
    | true =>
      cases isTarget : fs.isDirectory target with
      | true => rfl
      | false => exact (notFile ⟨isSource, by simp [isTarget]⟩).elim
    | false =>
      cases isTarget : fs.isDirectory target with
      | true => exact (notDirectory ⟨by simp [isSource], isTarget⟩).elim
      | false => rfl
  · intro dir there
    rw [there] at passes
    simp only at passes
    split at passes
    · cases passes
    · rename_i free
      omega

end RamFs

/-- The operations that build a filesystem: making inodes, and those of a directory. -/
inductive DirOp where
  | newDir (attributes : Attributes)
  | newFile (file : RamFsFile)
  | newSpecial (attributes : Attributes)
  | addChild (dir : InodeId) (name : Name) (inode : InodeId)
  | getOrCreateSubdir (dir : InodeId) (name : Name)
  | createFile (dir : InodeId) (name : Name) (attributes : Attributes)
  | createDir (dir : InodeId) (name : Name) (attributes : Attributes)
  | unlink (dir : InodeId) (name : Name)
  | linkEntry (dir : InodeId) (name : Name) (inode : InodeId)
  | rename (dir : InodeId) (oldName : Name) (newParent : InodeId) (newName : Name)

namespace RamFs

/-- The state an operation leaves; one that fails changes nothing. -/
def afterwards (fs : RamFs) : Except Int RamFs → RamFs
  | .ok after => after
  | .error _ => fs

def apply (fs : RamFs) : DirOp → RamFs
  | .newDir attributes => (fs.alloc (.dir (.newWithCreds attributes))).2
  | .newFile file => (fs.alloc (.file file)).2
  | .newSpecial attributes => (fs.alloc (.special attributes)).2
  | .addChild dir name inode => fs.addChild dir name inode
  | .getOrCreateSubdir dir name => (fs.getOrCreateSubdir dir name).2
  | .createFile dir name attributes =>
    fs.afterwards ((fs.createFile dir name attributes).map Prod.snd)
  | .createDir dir name attributes =>
    fs.afterwards ((fs.createDir dir name attributes).map Prod.snd)
  | .unlink dir name => fs.afterwards (fs.unlink dir name)
  | .linkEntry dir name inode => fs.afterwards (fs.linkEntry dir name inode)
  | .rename dir oldName newParent newName =>
    fs.afterwards (fs.rename dir oldName newParent newName)

/-- The inode an operation is given exists. -/
def given (fs : RamFs) : DirOp → Bool
  | .addChild _ _ inode => inode < fs.created
  | .linkEntry _ _ inode => inode < fs.created
  | _ => true

def empty : RamFs := ⟨fun _ => none, 0⟩

/-- What can be built from nothing by these operations. -/
abbrev Reached (fs : RamFs) : Prop :=
  Run (fun fs op => some (fs.apply op)) (fun fs op => fs.given op = true) empty fs

/-- What holds of every filesystem that can be built: the counts are exact, and only
numbers below `created` are in use. -/
structure Sound (fs : RamFs) : Prop where
  counted : fs.Everywhere RamFsDir.Counted
  bounded : ∀ {id dir}, fs.dirAt id = some dir → id < fs.created
  closed : fs.Everywhere fun dir =>
    ∀ {name child}, dir.entries.lookup name = some child → child < fs.created

namespace Sound

variable {fs : RamFs} {id : InodeId}

theorem alloc (sound : fs.Sound) {inode : Inode}
    (fresh : ∀ dir, inode = .dir dir → ∃ attributes, dir = .newWithCreds attributes) :
    (fs.alloc inode).2.Sound := by
  refine ⟨sound.counted.alloc ?_, ?_, ?_⟩
  · intro dir new
    obtain ⟨attributes, rfl⟩ := fresh dir new
    rfl
  · intro id dir there
    rw [dirAt_alloc] at there
    split at there
    · rename_i same
      exact same ▸ Nat.lt_succ_self _
    · exact Nat.lt_succ_of_lt (sound.bounded there)
  · have later : fs.Everywhere fun dir =>
        ∀ {name child}, dir.entries.lookup name = some child → child < fs.created + 1 := by
      intro id dir there name child found
      exact Nat.lt_succ_of_lt (sound.closed id dir there found)
    apply later.alloc
    intro dir new name child found
    obtain ⟨attributes, rfl⟩ := fresh dir new
    cases found

theorem created_modify {change : RamFsDir → RamFsDir} :
    (fs.modify id change).created = fs.created := by
  unfold RamFs.modify
  split <;> rfl

theorem modify {change : RamFsDir → RamFsDir} (sound : fs.Sound)
    (counted : ∀ dir, fs.dirAt id = some dir → (change dir).Counted)
    (closed : ∀ dir, fs.dirAt id = some dir → ∀ {name child},
      (change dir).entries.lookup name = some child → child < fs.created) :
    (fs.modify id change).Sound := by
  refine ⟨sound.counted.modify counted, ?_, ?_⟩
  · intro other dir there
    rw [created_modify]
    cases found : fs.dirAt id with
    | none =>
      unfold RamFs.modify at there
      rw [found] at there
      exact sound.bounded there
    | some old =>
      rw [dirAt_modify found] at there
      split at there
      · rename_i same
        exact same ▸ sound.bounded found
      · exact sound.bounded there
  · rw [created_modify]
    exact sound.closed.modify closed

end Sound

end RamFs

end RustPosix.Vfs
