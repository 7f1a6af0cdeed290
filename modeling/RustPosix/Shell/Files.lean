import RustPosix.Userland.Copy
import RustPosix.Vfs.Readdir

/-! Walking and removing trees in `userland/shell/src/builtins.rs`. A descriptor that a function
opens is the handle that it stands for; what is printed is left out. -/

namespace RustPosix.Shell

open Library Vfs Posix Userland

def oDirectory : BitVec 32 := 0x10000

/-- The directory and the name, with a slash between them if there is none. -/
def appendName (dir name : Name) : Name :=
  if 0 < dir.length ∧ dir.getLast? ≠ some Vfs.slash then dir ++ Vfs.slash :: name else dir ++ name

/-- `join_path`: the empty string if the buffer is too small. -/
def joinPath (dir name : Name) : Name :=
  if (appendName dir name).length < 255 then appendName dir name else []

/-- The loop of `walk_dir` over the records of one buffer, where `visit` is the callback. -/
def walkEntries (visit : Name → RamFs → Option RamFs) : List Dirent64 → RamFs → Option RamFs
  | [], fs => some fs
  | dirent :: rest, fs =>
    if dirent.cstr ≠ [Vfs.dot] ∧ dirent.cstr ≠ [Vfs.dot, Vfs.dot] then
      (visit dirent.cstr fs).bind (walkEntries visit rest)
    else walkEntries visit rest fs

/-- The loop of `walk_dir` over the buffers of 4096 bytes. -/
def walkBuffers (visit : Name → RamFs → Option RamFs) : Nat → FileHandle → RamFs → Option RamFs
  | 0, _, _ => none
  | fuel + 1, handle, fs =>
    match handle.getdents fs 4096 with
    | (.error _, _) => some fs
    | (.ok [], _) => some fs
    | (.ok (dirent :: rest), handle) =>
      (walkEntries visit (dirent :: rest) fs).bind (walkBuffers visit fuel handle)

/-- `walk_dir` -/
def walkDir (caller : Caller) (fuel : Nat) (dir : Name) (visit : Name → RamFs → Option RamFs)
    (fs : RamFs) : Option RamFs :=
  match caller.open dir (oRdonly ||| oDirectory) 0 fs with
  | (.error _, fs) => some fs
  | (.ok handle, fs) => walkBuffers visit fuel handle fs

/-- `remove_path`; `force` is only about what is printed. -/
def removePath (caller : Caller) (recursive : Bool) : Nat → Name → RamFs → Option RamFs
  | 0, _, _ => none
  | fuel + 1, path, fs =>
    let walked :=
      if recursive then walkDir caller fuel path
        (fun name fs => removePath caller true fuel (joinPath path name) fs) fs
      else some fs
    walked.map fun fs => (sysUnlink fs caller.root caller.cwd path).2

/-- The names that fit into one buffer, from a position on. -/
def batch (dir : RamFsDir) (offset : Nat) : List Name := (dir.names.drop offset).take 14

section Buffers

variable {visit : Name → RamFs → Option RamFs} {handle : FileHandle} {fs : RamFs} {dir : RamFsDir}

private theorem getdents_dir (there : fs.dirAt handle.inode = some dir) :
    handle.getdents fs 4096 = (.ok ((batch dir handle.offset).map createDirent),
      { handle with offset := handle.offset + (batch dir handle.offset).length }) := by
  have slots : 4096 / direntSize = 14 := rfl
  unfold FileHandle.getdents RamFs.readdir batch
  rw [there]
  dsimp only
  rw [slots, ← List.map_drop, ← List.map_take, List.length_map]

/-- There is nothing to walk in what is no directory. -/
theorem walkBuffers_not_dir (there : fs.dirAt handle.inode = none) (fuel : Nat) :
    walkBuffers visit (fuel + 1) handle fs = some fs := by
  rw [walkBuffers]
  unfold FileHandle.getdents RamFs.readdir
  rw [there]

theorem walkBuffers_end (there : fs.dirAt handle.inode = some dir)
    (last : batch dir handle.offset = []) (fuel : Nat) :
    walkBuffers visit (fuel + 1) handle fs = some fs := by
  rw [walkBuffers, getdents_dir there, last]
  rfl

theorem walkBuffers_batch (there : fs.dirAt handle.inode = some dir)
    (more : batch dir handle.offset ≠ []) (fuel : Nat) :
    walkBuffers visit (fuel + 1) handle fs =
      (walkEntries visit ((batch dir handle.offset).map createDirent) fs).bind
        (walkBuffers visit fuel
          { handle with offset := handle.offset + (batch dir handle.offset).length }) := by
  rw [walkBuffers, getdents_dir there]
  cases names : batch dir handle.offset with
  | nil => exact (more names).elim
  | cons name names => rfl

theorem batch_ne_nil {offset : Nat} (more : batch dir offset ≠ []) :
    0 < (batch dir offset).length ∧ offset < dir.names.length := by
  have positive := List.length_pos_iff.mpr more
  refine ⟨positive, ?_⟩
  unfold batch at positive
  rw [List.length_take, List.length_drop] at positive
  omega

end Buffers

section Returning

variable {visit : Nat → Name → RamFs → Option RamFs} {Good : RamFs → Prop} {Fit : Name → Prop}
  {limit : Nat}

/-- With enough fuel the visit of a fitting name returns and leaves a good filesystem. -/
def Visits (visit : Nat → Name → RamFs → Option RamFs) (Good : RamFs → Prop) (Fit : Name → Prop) :
    Prop :=
  ∀ fs name, Good fs → Fit name →
    ∃ after enough, (∀ fuel, enough ≤ fuel → visit fuel name fs = some after) ∧ Good after

/-- In good filesystems a directory has fitting names only, and no more than `limit`. -/
structure Walkable (Good : RamFs → Prop) (Fit : Name → Prop) (limit : Nat) (inode : InodeId) :
    Prop where
  ordinary : ∀ name, Fit name → Listable name ∧ name ≠ [Vfs.dot] ∧ name ≠ [Vfs.dot, Vfs.dot]
  listed : ∀ fs dir name, Good fs → fs.dirAt inode = some dir → name ∈ dir.names → Fit name
  few : ∀ fs dir, Good fs → fs.dirAt inode = some dir → dir.names.length ≤ limit

theorem walkEntries_returns {inode : InodeId} (visits : Visits visit Good Fit)
    (walkable : Walkable Good Fit limit inode) (names : List Name)
    (fit : ∀ name ∈ names, Fit name) {fs : RamFs} (good : Good fs) : ∃ after enough,
      (∀ fuel, enough ≤ fuel →
        walkEntries (visit fuel) (names.map createDirent) fs = some after) ∧ Good after := by
  induction names generalizing fs with
  | nil => exact ⟨fs, 0, fun _ _ => rfl, good⟩
  | cons name names ih =>
    have here := fit name List.mem_cons_self
    obtain ⟨listable, notDot, notDots⟩ := walkable.ordinary name here
    obtain ⟨middle, enough, returns, good⟩ := visits fs name good here
    obtain ⟨after, enough', returns', good⟩ :=
      ih (fun other member => fit other (List.mem_cons_of_mem name member)) good
    refine ⟨after, max enough enough', fun fuel more => ?_, good⟩
    rw [List.map_cons, walkEntries, cstr_createDirent listable, if_pos ⟨notDot, notDots⟩,
      returns fuel (Nat.le_trans (Nat.le_max_left ..) more)]
    exact returns' fuel (Nat.le_trans (Nat.le_max_right ..) more)

/-- The loop over the buffers ends: its position grows, and there are never more than `limit`
names. -/
theorem walkBuffers_returns {handle : FileHandle} {fs : RamFs} (visits : Visits visit Good Fit)
    (walkable : Walkable Good Fit limit handle.inode) (good : Good fs) : ∃ after enough,
      (∀ fuel more, enough ≤ fuel → enough ≤ more →
        walkBuffers (visit fuel) more handle fs = some after) ∧ Good after := by
  induction left : limit - handle.offset using Nat.strong_induction_on generalizing handle fs with
  | _ left ih =>
    subst left
    cases there : fs.dirAt handle.inode with
    | none =>
      refine ⟨fs, 1, fun fuel more _ enough => ?_, good⟩
      obtain ⟨more, rfl⟩ := Nat.exists_eq_add_of_le' enough
      exact walkBuffers_not_dir there more
    | some dir =>
      by_cases last : batch dir handle.offset = []
      · refine ⟨fs, 1, fun fuel more _ enough => ?_, good⟩
        obtain ⟨more, rfl⟩ := Nat.exists_eq_add_of_le' enough
        exact walkBuffers_end there last more
      obtain ⟨positive, inside⟩ := batch_ne_nil last
      have known := walkable.few fs dir good there
      have fit : ∀ name ∈ batch dir handle.offset, Fit name := fun name member =>
        walkable.listed fs dir name good there (List.mem_of_mem_drop (List.mem_of_mem_take member))
      obtain ⟨middle, enough, returns, good⟩ := walkEntries_returns visits walkable _ fit good
      let next : FileHandle :=
        { handle with offset := handle.offset + (batch dir handle.offset).length }
      obtain ⟨after, enough', returns', good⟩ := @ih (limit - next.offset)
        (by simp only [next]; omega) next middle walkable good rfl
      refine ⟨after, max enough enough' + 1, fun fuel more fuelled lasting => ?_, good⟩
      obtain ⟨more, rfl⟩ := Nat.exists_eq_add_of_le' (Nat.le_trans (Nat.le_add_left 1 _) lasting)
      rw [walkBuffers_batch there last, returns fuel (by omega)]
      exact returns' fuel more (by omega) (by omega)

theorem walkDir_returns {caller : Caller} {path : Name} {fs : RamFs}
    (visits : Visits visit Good Fit)
    (walkable : ∀ inode, descend fs.lookup caller.root (normalComponents caller.cwd path) =
      .ok inode → Walkable Good Fit limit inode) (good : Good fs) : ∃ after enough,
      (∀ fuel, enough ≤ fuel → walkDir caller fuel path (visit fuel) fs = some after) ∧
        Good after := by
  have reads : ReadsOnly (oRdonly ||| oDirectory) := by decide
  unfold walkDir Caller.open
  rw [openInode_read reads]
  cases opening : (openInode fs caller.root caller.creds caller.cwd path (oRdonly ||| oDirectory)
    0).1 with
  | error problem => exact ⟨fs, 0, fun _ _ => rfl, good⟩
  | ok inode =>
    obtain ⟨reached, _⟩ := openInode_read_reached reads (Prod.ext opening rfl)
    obtain ⟨after, enough, returns, good⟩ := @walkBuffers_returns visit Good Fit limit
      ⟨inode, 0, oRdonly ||| oDirectory⟩ fs visits (walkable inode reached) good
    exact ⟨after, enough, fun fuel more => returns fuel fuel more more, good⟩

end Returning

end RustPosix.Shell
