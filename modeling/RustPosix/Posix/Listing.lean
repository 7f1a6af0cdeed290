import RustPosix.Vfs.EntryCount
import RustPosix.Vfs.Readdir

/-! Listing an open directory with `sys_getdents64` while other processes change it. -/

namespace RustPosix.Posix

open Library Vfs

/-- A directory that is being listed: the handle, the records returned so far, whether a call has
returned 0, and the filesystem at all earlier times. -/
structure Listing where
  fs : RamFs
  handle : FileHandle
  returned : List Dirent64
  finished : Bool
  past : List RamFs

/-- A call of `sys_getdents64` with a buffer of `count` bytes, or a change by any process. -/
inductive ListingEvent where
  | getdents (count : Nat)
  | change (op : DirOp)

namespace Listing

def getdents (listing : Listing) (count : Nat) : Listing :=
  match listing.handle.getdents listing.fs count with
  | (.error _, handle) => { listing with handle, past := listing.fs :: listing.past }
  | (.ok records, handle) => { listing with
      handle
      returned := listing.returned ++ records
      finished := records.isEmpty
      past := listing.fs :: listing.past }

/-- The sequence ends with the first call that returns 0. -/
def step (listing : Listing) (event : ListingEvent) : Option Listing :=
  if listing.finished then none
  else
    match event with
    | .getdents count => some (listing.getdents count)
    | .change op => some { listing with
        fs := listing.fs.apply op
        past := listing.fs :: listing.past }

/-- Every entry that has been there all the time was returned in exactly one record, whose name
leads to it. -/
def Complete (listing : Listing) : Prop :=
  ∀ name inode, (∀ fs ∈ listing.fs :: listing.past,
      fs.lookup listing.handle.inode name = .ok inode) →
    ∃ record, listing.returned.filter (fun record => record.cstr = name) = [record] ∧
      listing.fs.lookup listing.handle.inode record.cstr = .ok inode

end Listing

/-- The names that an operation adds to a directory or takes from it. -/
def Touches (dir : InodeId) (entries : NameMap) : DirOp → Name → Prop
  | .addChild target name _, touched | .getOrCreateSubdir target name, touched
  | .createFile target name _, touched | .createDir target name _, touched
  | .linkEntry target name _, touched =>
    target = dir ∧ touched = name ∧ entries.lookup name = none
  | .unlink target name, touched => target = dir ∧ touched = name ∧ entries.lookup name ≠ none
  | .rename source oldName target newName, touched =>
    source = dir ∧ touched = oldName ∧ entries.lookup oldName ≠ none ∨
      target = dir ∧ touched = newName ∧ entries.lookup newName = none
  | _, _ => False

section Touched

variable {fs : RamFs} {id target : InodeId} {dir : RamFsDir} {touched : Name → Prop}

/-- The directory is there in the other filesystem, with the same names but for those touched. -/
def KeepsNames (after : RamFs) (id : InodeId) (dir : RamFsDir) (touched : Name → Prop) : Prop :=
  ∃ changed, after.dirAt id = some changed ∧ ∀ name, ¬ touched name →
    (changed.entries.lookup name).isSome = (dir.entries.lookup name).isSome

theorem KeepsNames.same (there : fs.dirAt id = some dir) : KeepsNames fs id dir touched :=
  ⟨dir, there, fun _ _ => rfl⟩

theorem KeepsNames.alloc (sound : fs.Sound) (there : fs.dirAt id = some dir) {inode : Inode} :
    (fs.alloc inode).2.dirAt id = some dir := by
  rw [RamFs.dirAt_alloc, if_neg (Nat.ne_of_lt (sound.bounded there)), there]

/-- A change of one directory that adds or removes touched names only. -/
theorem KeepsNames.modify {after : RamFs} {change : RamFsDir → RamFsDir}
    (keeps : KeepsNames after id dir touched)
    (changes : target = id → ∀ current name, ¬ touched name →
      (current.entries.lookup name).isSome = (dir.entries.lookup name).isSome →
      ((change current).entries.lookup name).isSome = (dir.entries.lookup name).isSome) :
    KeepsNames (after.modify target change) id dir touched := by
  obtain ⟨current, there, same⟩ := keeps
  by_cases here : target = id
  · subst here
    refine ⟨change current, ?_, fun name untouched =>
      changes rfl current name untouched (same name untouched)⟩
    rw [RamFs.dirAt_modify there, if_pos rfl]
  · refine ⟨current, ?_, same⟩
    unfold RamFs.modify
    split
    · rw [RamFs.dirAt_set, if_neg (Ne.symm here), there]
    · exact there

/-- Entering a name adds it if it was absent. -/
theorem KeepsNames.enter {after : RamFs} {change : RamFsDir → RamFsDir} {name : Name}
    {inode : InodeId} (keeps : KeepsNames after id dir touched)
    (enters : ∀ current other, (change current).entries.lookup other =
      if other = name then some inode else current.entries.lookup other)
    (new : target = id → dir.entries.lookup name = none → touched name) :
    KeepsNames (after.modify target change) id dir touched := by
  refine keeps.modify fun here current other untouched same => ?_
  rw [enters]
  split
  · rename_i isName
    rw [isName] at untouched ⊢
    cases found : dir.entries.lookup name with
    | none => exact (untouched (new here found)).elim
    | some old => rfl
  · exact same

/-- Removing a name takes it away if it was present. -/
theorem KeepsNames.remove {after : RamFs} {name : Name} (keeps : KeepsNames after id dir touched)
    (gone : target = id → dir.entries.lookup name ≠ none → touched name) :
    KeepsNames (after.modify target (.remove name)) id dir touched := by
  refine keeps.modify fun here current other untouched same => ?_
  rw [RamFsDir.lookup_remove]
  split
  · rename_i isName
    rw [isName] at untouched ⊢
    cases found : dir.entries.lookup name with
    | none => rfl
    | some old => exact (untouched (gone here (found ▸ nofun))).elim
  · exact same

theorem KeepsNames.afterwards {result : Except Int RamFs}
    (unchanged : KeepsNames fs id dir touched)
    (done : ∀ after, result = .ok after → KeepsNames after id dir touched) :
    KeepsNames (fs.afterwards result) id dir touched := by
  cases result with
  | ok after => exact done after rfl
  | error problem => exact unchanged

private theorem map_snd_ok {result : Except Int (InodeId × RamFs)} {after : RamFs}
    (done : result.map Prod.snd = .ok after) : ∃ inode, result = .ok (inode, after) := by
  cases result with
  | error problem => cases done
  | ok pair =>
    cases done
    exact ⟨pair.1, rfl⟩

theorem KeepsNames.rename {source : InodeId} {oldName newName : Name} {after : RamFs}
    (unchanged : KeepsNames fs id dir touched)
    (gone : source = id → dir.entries.lookup oldName ≠ none → touched oldName)
    (new : target = id → dir.entries.lookup newName = none → touched newName)
    (renamed : fs.rename source oldName target newName = .ok after) :
    KeepsNames after id dir touched := by
  obtain ⟨_, _, inode, _, _, _, ⟨_, _, rfl⟩ | ⟨rfl, _, _, rfl⟩ | ⟨_, _, rfl⟩⟩ :=
    RamFs.rename_ok renamed
  · exact unchanged
  · refine unchanged.modify fun here current other untouched same => ?_
    rw [RamFsDir.lookup_renameWithin]
    split
    · rename_i isNew
      rw [isNew] at untouched ⊢
      cases found : dir.entries.lookup newName with
      | none => exact (untouched (new here found)).elim
      | some old => rfl
    · split
      · rename_i isOld
        rw [isOld] at untouched ⊢
        cases found : dir.entries.lookup oldName with
        | none => rfl
        | some old => exact (untouched (gone here (found ▸ nofun))).elim
      · exact same
  · exact (unchanged.remove gone).enter (fun _ _ => RamFsDir.lookup_receive ..) new

/-- An operation adds to a directory and takes from it only the names that it touches. -/
theorem keepsNames_apply (sound : fs.Sound) (there : fs.dirAt id = some dir) (op : DirOp) :
    KeepsNames (fs.apply op) id dir (Touches id dir.entries op) := by
  have unchanged : KeepsNames fs id dir (Touches id dir.entries op) := .same there
  have allocated {inode : Inode} :
      KeepsNames (fs.alloc inode).2 id dir (Touches id dir.entries op) :=
    .same (KeepsNames.alloc sound there)
  cases op with
  | newDir attributes => exact allocated
  | newFile file => exact allocated
  | newSpecial attributes => exact allocated
  | addChild target name inode =>
    exact unchanged.enter (fun _ _ => RamFsDir.lookup_addChild ..) fun here absent =>
      ⟨here, rfl, absent⟩
  | getOrCreateSubdir target name =>
    unfold RamFs.apply RamFs.getOrCreateSubdir
    dsimp only
    split
    · exact unchanged
    · exact allocated.enter (fun _ _ => RamFsDir.lookup_addSubdir ..) fun here absent =>
        ⟨here, rfl, absent⟩
  | createFile target name attributes =>
    refine unchanged.afterwards fun after done => ?_
    obtain ⟨inode, made⟩ := map_snd_ok done
    obtain ⟨_, _, ⟨_, rfl⟩ | ⟨_, _, rfl⟩⟩ := RamFs.createFile_ok made
    · exact unchanged
    · exact allocated.enter (fun _ _ => RamFsDir.lookup_createFile ..) fun here absent =>
        ⟨here, rfl, absent⟩
  | createDir target name attributes =>
    refine unchanged.afterwards fun after done => ?_
    obtain ⟨inode, made⟩ := map_snd_ok done
    obtain ⟨_, _, _, _, rfl⟩ := RamFs.createDir_ok made
    exact allocated.enter (fun _ _ => RamFsDir.lookup_createDir ..) fun here absent =>
      ⟨here, rfl, absent⟩
  | unlink target name =>
    refine unchanged.afterwards fun after removed => ?_
    obtain ⟨_, _, _, _, rfl⟩ := RamFs.unlink_ok removed
    exact unchanged.remove fun here present => ⟨here, rfl, present⟩
  | linkEntry target name inode =>
    unfold RamFs.apply RamFs.linkEntry
    dsimp only
    split
    · exact unchanged
    · exact unchanged.enter (fun _ _ => RamFsDir.lookup_linkEntry ..) fun here absent =>
        ⟨here, rfl, absent⟩
  | rename source oldName target newName =>
    refine unchanged.afterwards fun after renamed => ?_
    exact unchanged.rename (fun here present => Or.inl ⟨here, rfl, present⟩)
      (fun here absent => Or.inr ⟨here, rfl, absent⟩) renamed

end Touched

namespace Listing

/-- All names fit into the records; and names come and go only behind those that have been
listed. -/
def Permits (listing : Listing) : ListingEvent → Prop
  | .getdents count => direntSize ≤ count ∧ ∀ dir,
      listing.fs.dirAt listing.handle.inode = some dir → ∀ name ∈ dir.names, Listable name
  | .change op => listing.fs.given op = true ∧ ∀ dir,
      listing.fs.dirAt listing.handle.inode = some dir →
      ∀ name, Touches listing.handle.inode dir.entries op name →
      ∀ earlier ∈ dir.names.take listing.handle.offset, NameLt earlier name

/-- The records returned so far are those of the first names, as many as the offset says. -/
structure Progress (listing : Listing) : Prop where
  sound : listing.fs.Sound
  listed : ∃ dir front back, listing.fs.dirAt listing.handle.inode = some dir ∧
    dir.names = front ++ back ∧ front.length = listing.handle.offset ∧
    listing.returned.map Dirent64.cstr = front ∧ (listing.finished = true → back = [])

variable {listing : Listing}

theorem Progress.change (progress : listing.Progress) (running : ¬ listing.finished = true)
    {op : DirOp} (permitted : listing.Permits (.change op)) :
    Progress { listing with fs := listing.fs.apply op, past := listing.fs :: listing.past } := by
  obtain ⟨given, behind⟩ := permitted
  obtain ⟨dir, front, back, there, names, length, returned, _⟩ := progress.listed
  obtain ⟨changed, there', same⟩ := keepsNames_apply progress.sound there op
  have atFront : dir.names.take listing.handle.offset = front := by
    rw [names, ← length, List.take_left]
  obtain ⟨back', names'⟩ := exists_eq_append_of_touched
    (names ▸ dir.names_sorted) changed.names_sorted
    (fun name touches => atFront ▸ behind dir there name touches)
    (fun name untouched => by
      rw [← names, RamFsDir.mem_names, RamFsDir.mem_names, same name untouched])
  exact ⟨progress.sound.apply given, changed, front, back', there', names', length, returned,
    fun done => (running done).elim⟩

/-- What `sys_getdents64` returns when the names before the offset are `front`. -/
theorem getdents_records {dir : RamFsDir} {front back : List Name} {count : Nat}
    (there : listing.fs.dirAt listing.handle.inode = some dir) (names : dir.names = front ++ back)
    (length : front.length = listing.handle.offset) :
    listing.handle.getdents listing.fs count =
      (.ok ((back.take (count / direntSize)).map createDirent),
        { listing.handle with
          offset := listing.handle.offset + (back.take (count / direntSize)).length }) := by
  have skipped : (dir.names.map createDirent).drop listing.handle.offset =
      back.map createDirent := by
    rw [names, List.map_append, List.drop_left' ((List.length_map _).trans length)]
  unfold FileHandle.getdents RamFs.readdir
  rw [there]
  dsimp only
  rw [skipped, ← List.map_take, List.length_map]

theorem Progress.getdents (progress : listing.Progress) {count : Nat}
    (permitted : listing.Permits (.getdents count)) : (listing.getdents count).Progress := by
  obtain ⟨room, listable⟩ := permitted
  obtain ⟨dir, front, back, there, names, length, returned, _⟩ := progress.listed
  have shown : ((back.take (count / direntSize)).map createDirent).map Dirent64.cstr =
      back.take (count / direntSize) := by
    rw [List.map_map]
    refine (List.map_congr_left fun name member => ?_).trans (List.map_id _)
    exact cstr_createDirent (listable dir there name
      (names ▸ List.mem_append_right front (List.mem_of_mem_take member)))
  have some : 0 < count / direntSize := Nat.div_pos room (by decide)
  unfold Listing.getdents
  rw [getdents_records there names length]
  refine ⟨progress.sound, dir, front ++ back.take (count / direntSize),
    back.drop (count / direntSize), there, ?_, ?_, ?_, fun done => ?_⟩
  · rw [List.append_assoc, List.take_append_drop, names]
  · rw [List.length_append, length]
  · rw [List.map_append, returned, shown]
  · -- nothing was returned although there was room for a record
    have none := List.map_eq_nil_iff.mp (List.isEmpty_iff.mp done)
    rcases List.take_eq_nil_iff.mp none with zero | empty
    · omega
    · rw [empty, List.drop_nil]

theorem Progress.step (progress : listing.Progress) {event : ListingEvent} {after : Listing}
    (permitted : listing.Permits event) (next : listing.step event = some after) :
    after.Progress := by
  unfold Listing.step at next
  split at next
  · cases next
  rename_i running
  cases event with
  | getdents count =>
    cases next
    exact progress.getdents permitted
  | change op =>
    cases next
    exact progress.change running permitted

/-- A list whose images are distinct has one element with a given image. -/
private theorem filter_eq_singleton {records : List Dirent64} {name : Name}
    (distinct : (records.map Dirent64.cstr).Nodup) (member : name ∈ records.map Dirent64.cstr) :
    ∃ record, records.filter (fun record => record.cstr = name) = [record] ∧
      record.cstr = name := by
  induction records with
  | nil => cases member
  | cons first rest ih =>
    obtain ⟨absent, distinct⟩ := List.nodup_cons.mp distinct
    by_cases same : first.cstr = name
    · refine ⟨first, ?_, same⟩
      have none : rest.filter (fun record => record.cstr = name) = [] := by
        apply List.filter_eq_nil_iff.mpr
        intro other later equal
        have both : other.cstr = first.cstr := (of_decide_eq_true equal).trans same.symm
        exact absent (both ▸ List.mem_map_of_mem later)
      rw [List.filter_cons, if_pos (decide_eq_true same), none]
    · rw [List.filter_cons, if_neg (by simpa using same)]
      rcases List.mem_cons.mp member with here | later
      · exact (same here.symm).elim
      · exact ih distinct later

theorem Progress.complete (progress : listing.Progress) (finished : listing.finished = true) :
    listing.Complete := by
  obtain ⟨dir, front, back, there, names, _, returned, rest⟩ := progress.listed
  intro name inode always
  have present := always listing.fs List.mem_cons_self
  obtain ⟨dir', there', found⟩ := RamFs.lookup_ok present
  cases there.symm.trans there'
  have all : listing.returned.map Dirent64.cstr = dir.names := by
    rw [returned, names, rest finished, List.append_nil]
  have member : name ∈ listing.returned.map Dirent64.cstr := by
    rw [all, RamFsDir.mem_names, found]
    rfl
  have distinct : (listing.returned.map Dirent64.cstr).Nodup := by
    rw [all]
    exact dir.names_sorted.nodup
  obtain ⟨record, only, named⟩ := filter_eq_singleton distinct member
  exact ⟨record, only, named ▸ present⟩

/-- A handle on a directory, at the start. -/
structure Begins (listing : Listing) : Prop where
  reached : listing.fs.Reached
  isDir : (listing.fs.dirAt listing.handle.inode).isSome = true
  offset : listing.handle.offset = 0
  returned : listing.returned = []
  finished : listing.finished = false

theorem Begins.progress (begins : listing.Begins) : listing.Progress := by
  obtain ⟨dir, there⟩ := Option.isSome_iff_exists.mp begins.isDir
  refine ⟨begins.reached.sound, dir, [], dir.names, there, rfl, begins.offset.symm, ?_, ?_⟩
  · rw [begins.returned]
    rfl
  · rw [begins.finished]
    nofun

/-- In every sequence of calls in which all names fit into the records, and names come and go
only behind those already listed, the listing is complete. -/
theorem listing_is_complete {start last : Listing} (begins : start.Begins)
    (run : Run step Permits start last) (finished : last.finished = true) : last.Complete := by
  have progress : last.Progress := run.invariant begins.progress
    fun _ _ _ progress permitted next => progress.step permitted next
  exact progress.complete finished

/-- Files `a`, `b` and `c` in a directory. -/
def threeFiles : List DirOp :=
  [.newDir ⟨0o755, 0, 0⟩, .createFile 0 [97] ⟨0o644, 0, 0⟩, .createFile 0 [98] ⟨0o644, 0, 0⟩,
    .createFile 0 [99] ⟨0o644, 0, 0⟩]

/-- A directory that has just been opened. -/
def opened : Listing := ⟨threeFiles.foldl RamFs.apply .empty, ⟨0, 0, 0⟩, [], false, []⟩

theorem opened_begins : opened.Begins where
  reached := by
    have path : follow (fun fs op => some (fs.apply op)) (fun fs op => fs.given op) .empty
        threeFiles = some opened.fs := rfl
    exact Run.start.follow (fun _ _ passes => passes) path
  isDir := by decide
  offset := rfl
  returned := rfl
  finished := rfl

/-- Sufficient for a call, and for removing a name, to be permitted. -/
private def allowed (listing : Listing) : ListingEvent → Bool
  | .getdents count => direntSize ≤ count && (listing.fs.dirAt listing.handle.inode).all fun dir =>
      dir.names.all fun name => name.length ≤ 255 && !name.contains 0
  | .change (.unlink _ name) => (listing.fs.dirAt listing.handle.inode).all fun dir =>
      (dir.names.take listing.handle.offset).all fun earlier => nameLt earlier name
  | _ => false

private theorem permits_of_allowed (listing : Listing) (event : ListingEvent)
    (passes : allowed listing event = true) : listing.Permits event := by
  cases event with
  | getdents count =>
    obtain ⟨room, names⟩ := Bool.and_eq_true_iff.mp passes
    refine ⟨of_decide_eq_true room, fun dir there name member => ?_⟩
    rw [there, Option.all_some] at names
    have fits := List.all_eq_true.mp names name member
    simpa [Listable] using fits
  | change op =>
    cases op with
    | unlink target name =>
      refine ⟨rfl, fun dir there touched touches earlier member => ?_⟩
      change (listing.fs.dirAt listing.handle.inode).all _ = true at passes
      rw [there, Option.all_some] at passes
      obtain ⟨_, rfl, _⟩ := touches
      exact List.all_eq_true.mp passes earlier member
    | _ => cases passes

/-- `b` goes away after `a` has been listed. -/
theorem listing_is_complete_shrinking : ∃ last, Run step Permits opened last ∧
    last.finished = true ∧ last.returned.map Dirent64.cstr = [[97], [99]] ∧ last.Complete := by
  have seen : (follow step allowed opened [.getdents 280, .change (.unlink 0 [98]), .getdents 600,
      .getdents 280]).any (fun last => last.finished &&
        decide (last.returned.map Dirent64.cstr = [[97], [99]])) = true := by
    decide +kernel
  obtain ⟨last, _, run, looks⟩ := Run.seen permits_of_allowed seen
  obtain ⟨finished, records⟩ := Bool.and_eq_true_iff.mp looks
  exact ⟨last, run, finished, of_decide_eq_true records,
    listing_is_complete opened_begins run finished⟩

/-- `a` is listed and removed, as `rm -r` does, and `b` is never listed. -/
theorem listing_skips_entry : ∃ last, Run step (fun _ _ => True) opened last ∧
    last.finished = true ∧ last.returned.map Dirent64.cstr = [[97], [99]] ∧ ¬ last.Complete := by
  have seen : (follow step (fun _ _ => true) opened [.getdents 280, .change (.unlink 0 [97]),
      .getdents 280, .getdents 280]).any (fun last => last.finished &&
        (decide (last.returned.map Dirent64.cstr = [[97], [99]]) &&
        (decide (last.handle.inode = 0) && (last.fs :: last.past).all fun fs =>
          decide ((fs.dirAt 0).bind (fun dir => dir.entries.lookup [98]) = some 2)))) = true := by
    decide +kernel
  obtain ⟨last, _, run, looks⟩ := Run.seen (fun _ _ _ => trivial) seen
  simp only [Bool.and_eq_true, decide_eq_true_eq] at looks
  obtain ⟨finished, records, inode, always⟩ := looks
  refine ⟨last, run, finished, records, fun complete => ?_⟩
  obtain ⟨record, only, _⟩ := complete [98] 2 fun fs member => by
    obtain ⟨dir, there, found⟩ := Option.bind_eq_some_iff.mp
      (of_decide_eq_true (List.all_eq_true.mp always fs member))
    unfold RamFs.lookup
    rw [inode, there]
    dsimp only
    rw [found]
  have member : record ∈ last.returned ∧ record.cstr = [98] := by
    have inside := List.mem_singleton_self record
    rw [← only, List.mem_filter, decide_eq_true_eq] at inside
    exact inside
  have named := List.mem_map_of_mem (f := Dirent64.cstr) member.1
  rw [member.2, records] at named
  revert named
  decide

end Listing

end RustPosix.Posix
