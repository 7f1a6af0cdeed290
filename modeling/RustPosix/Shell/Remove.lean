import RustPosix.Shell.Files

/-! `rm -r` stays below its argument and ends, as long as the paths fit into its buffer. -/

namespace RustPosix.Vfs

open Library

/-- A name that `normalize_path` leaves as it is and that fits into a C string. -/
structure Proper (name : Name) : Prop where
  nonempty : name ≠ []
  undivided : Vfs.slash ∉ name
  ends : 0 ∉ name
  notDot : name ≠ [Vfs.dot]
  notDots : name ≠ [Vfs.dot, Vfs.dot]

private theorem foldl_pushComponent_name {name : Name} (proper : Proper name) (base : Name) :
    ((base ++ Vfs.slash :: name).splitOn Vfs.slash).foldl pushComponent [] =
      (base.splitOn Vfs.slash).foldl pushComponent [] ++ [name] := by
  rw [List.splitOn_append_cons_self, List.splitOn_eq_singleton proper.undivided,
    List.foldl_append, List.foldl_cons, List.foldl_nil, pushComponent,
    if_neg (not_or.mpr ⟨proper.nonempty, proper.notDot⟩), if_neg proper.notDots]

private theorem foldl_pushComponent_slash (base : Name) :
    ((base ++ [Vfs.slash]).splitOn Vfs.slash).foldl pushComponent [] =
      (base.splitOn Vfs.slash).foldl pushComponent [] := by
  rw [List.splitOn_append_cons_self, List.splitOn_nil, List.foldl_append, List.foldl_cons,
    List.foldl_nil, pushComponent, if_pos (Or.inl rfl)]

/-- Writing a slash and a name behind a path leads one step down. -/
theorem normalComponents_slash {cwd path name : Name} (proper : Proper name) (nonempty : path ≠ []) :
    normalComponents cwd (path ++ Vfs.slash :: name) = normalComponents cwd path ++ [name] := by
  have full : fullPath cwd (path ++ Vfs.slash :: name) = fullPath cwd path ++ Vfs.slash :: name := by
    unfold fullPath
    rw [List.head?_append_of_ne_nil _ nonempty]
    split
    · rfl
    · split
      · rfl
      · rw [List.append_assoc]
        rfl
  unfold normalComponents
  rw [full, foldl_pushComponent_name proper]

/-- The empty path and a path with a slash at its end are directories already. -/
theorem normalComponents_name {cwd path name : Name} (proper : Proper name)
    (ended : path = [] ∨ path.getLast? = some Vfs.slash) :
    normalComponents cwd (path ++ name) = normalComponents cwd path ++ [name] := by
  have base : ∃ base, fullPath cwd (path ++ name) = base ++ Vfs.slash :: name ∧
      fullPath cwd path = base ++ [Vfs.slash] := by
    rcases ended with rfl | last
    · have relative : name.head? ≠ some Vfs.slash := by
        intro first
        exact proper.undivided (List.mem_of_mem_head? first)
      have named : fullPath cwd name =
          if cwd = [Vfs.slash] then Vfs.slash :: name else cwd ++ Vfs.slash :: name := if_neg relative
      have empty : fullPath cwd [] = if cwd = [Vfs.slash] then [Vfs.slash] else cwd ++ [Vfs.slash] := rfl
      rw [List.nil_append, named, empty]
      split
      · exact ⟨[], rfl, rfl⟩
      · exact ⟨cwd, rfl, rfl⟩
    · have split := (List.dropLast_append_getLast? Vfs.slash last).symm
      have nonempty : path ≠ [] := by
        rintro rfl
        cases last
      unfold fullPath
      rw [List.head?_append_of_ne_nil _ nonempty]
      split
      · refine ⟨path.dropLast, ?_, split⟩
        rw [split, List.append_assoc, List.dropLast_concat]
        rfl
      · split
        · refine ⟨Vfs.slash :: path.dropLast, ?_, congrArg (Vfs.slash :: ·) split⟩
          rw [split, List.append_assoc, List.dropLast_concat]
          rfl
        · refine ⟨cwd ++ Vfs.slash :: path.dropLast, ?_, ?_⟩
          · rw [split, List.append_assoc, List.append_assoc, List.dropLast_concat]
            rfl
          · rw [List.append_assoc]
            exact congrArg (cwd ++ Vfs.slash :: ·) split
  obtain ⟨base, longer, whole⟩ := base
  unfold normalComponents
  rw [longer, whole, foldl_pushComponent_name proper, foldl_pushComponent_slash]

end RustPosix.Vfs

namespace RustPosix.Shell

open Library Vfs Posix Userland

theorem normalComponents_appendName {cwd path name : Name} (proper : Proper name) :
    normalComponents cwd (appendName path name) = normalComponents cwd path ++ [name] := by
  unfold appendName
  split
  · rename_i inner
    exact normalComponents_slash proper (List.length_pos_iff.mp inner.1)
  · rename_i ended
    refine normalComponents_name proper ?_
    by_cases empty : path = []
    · exact Or.inl empty
    · exact Or.inr (not_not.mp fun other => ended ⟨List.length_pos_iff.mpr empty, other⟩)

theorem length_appendName {path name : Name} (nonempty : name ≠ []) :
    path.length < (appendName path name).length := by
  have positive := List.length_pos_iff.mpr nonempty
  unfold appendName
  split <;> simp only [List.length_append, List.length_cons] <;> omega

/-- A path with names behind it, as the recursion writes it. -/
def written : Name → List Name → Name
  | path, [] => path
  | path, name :: rest => written (appendName path name) rest

/-- Everything below `path` has a proper name, and its path is short enough for the buffer. -/
def Short (fs : RamFs) (caller : Caller) (path : Name) : Prop :=
  ∀ rest id, descend fs.lookup caller.root (normalComponents caller.cwd path ++ rest) = .ok id →
    (∀ name ∈ rest, Proper name) ∧ (rest ≠ [] → (written path rest).length < 255)

/-- Only entries at `top` and below have been removed. -/
structure Pruned (fs after : RamFs) (root : InodeId) (top : List Name) : Prop where
  standing : Standing after root
  outside : ∀ path, ¬ top <+: path → descend after.lookup root path = descend fs.lookup root path
  edges : ∀ id name child, after.lookup id name = .ok child → fs.lookup id name = .ok child
  held : ∀ id, after.contentsOf id = fs.contentsOf id

namespace Pruned

variable {fs middle after : RamFs} {root : InodeId} {top : List Name}

theorem refl (standing : Standing fs root) : Pruned fs fs root top :=
  ⟨standing, fun _ _ => rfl, fun _ _ _ found => found, fun _ => rfl⟩

theorem trans (first : Pruned fs middle root top) (second : Pruned middle after root top) :
    Pruned fs after root top where
  standing := second.standing
  outside path away := (second.outside path away).trans (first.outside path away)
  edges id name child found := first.edges id name child (second.edges id name child found)
  held id := (second.held id).trans (first.held id)

/-- What is removed below a name is removed below the directory. -/
theorem weaken {name : Name} (pruned : Pruned fs after root (top ++ [name])) :
    Pruned fs after root top where
  standing := pruned.standing
  outside path away := pruned.outside path fun below =>
    away ((List.prefix_append top [name]).trans below)
  edges := pruned.edges
  held := pruned.held

/-- What can still be reached could be reached before. -/
theorem reached (pruned : Pruned fs after root top) {path : List Name} {start id : InodeId}
    (arrives : descend after.lookup start path = .ok id) :
    descend fs.lookup start path = .ok id := by
  induction path generalizing start with
  | nil => exact arrives
  | cons name path ih =>
    obtain ⟨next, found, arrives⟩ := descend_cons_ok arrives
    rw [descend_cons (pruned.edges start name next found)]
    exact ih arrives

theorem unlink {cwd path : Name} (standing : Standing fs root) :
    Pruned fs (sysUnlink fs root cwd path).2 root (normalComponents cwd path) := by
  unfold sysUnlink
  split
  · exact refl standing
  · rename_i parent name resolved
    obtain ⟨front, split, reached⟩ := RamFs.resolveParentAndBasename_ok resolved
    rw [split]
    cases removed : fs.unlink parent name with
    | error problem => exact refl standing
    | ok after =>
      refine ⟨standing.unlink reached removed, ?_, ?_, ?_⟩
      · exact fun path away => standing.tree.descend_unlink reached removed away
      · intro id other child found
        have edge := @RamFs.lookup_unlink fs after parent name removed id other
        change after.lookup id other = .ok child at found
        rw [edge] at found
        split at found
        · cases found
        · exact found
      · intro id
        obtain ⟨_, _, _, _, rfl⟩ := RamFs.unlink_ok removed
        exact RamFs.contentsOf_modify

end Pruned

theorem Short.pruned {fs after : RamFs} {caller : Caller} {path : Name} {top : List Name}
    (short : Short fs caller path) (pruned : Pruned fs after caller.root top) :
    Short after caller path := fun rest id arrives => short rest id (pruned.reached arrives)

/-- The child of a short path has a short path again. -/
theorem Short.child {fs : RamFs} {caller : Caller} {path name : Name} (short : Short fs caller path)
    (proper : Proper name) : Short fs caller (appendName path name) := by
  intro rest id arrives
  rw [normalComponents_appendName proper, List.append_assoc, List.singleton_append] at arrives
  obtain ⟨names, length⟩ := short (name :: rest) id arrives
  exact ⟨fun other member => names other (List.mem_cons_of_mem name member),
    fun _ => length (List.cons_ne_nil name rest)⟩

/-- A directory from which entries are removed has no more names than before. -/
theorem Pruned.length_names {fs after : RamFs} {root id : InodeId} {top : List Name}
    {dir dir' : RamFsDir} (pruned : Pruned fs after root top) (there : fs.dirAt id = some dir)
    (there' : after.dirAt id = some dir') : dir'.names.length ≤ dir.names.length := by
  refine (List.subperm_of_subset dir'.names_nodup fun name member => ?_).length_le
  obtain ⟨child, found⟩ := Option.isSome_iff_exists.mp (RamFsDir.mem_names.mp member)
  have before : fs.lookup id name = .ok child := by
    apply pruned.edges
    rw [RamFs.lookup_of_dirAt there', found]
    rfl
  obtain ⟨dir₀, again, entry⟩ := RamFs.lookup_ok before
  cases there.symm.trans again
  rw [RamFsDir.mem_names, entry]
  rfl

/-- With enough fuel `remove_path` returns, and has removed only what is at its path and below. -/
def Removes (caller : Caller) (path : Name) (fs : RamFs) : Prop :=
  ∃ after enough, (∀ fuel, enough ≤ fuel → removePath caller true fuel path fs = some after) ∧
    Pruned fs after caller.root (normalComponents caller.cwd path)

section Walk

variable {caller : Caller} {path : Name}

/-- What a walk that removes has left of `fs`: the directory that it walks is still there. -/
structure Emptying (caller : Caller) (path : Name) (fs after : RamFs) : Prop where
  pruned : Pruned fs after caller.root (normalComponents caller.cwd path)
  short : Short after caller path
  stays : descend after.lookup caller.root (normalComponents caller.cwd path) =
    descend fs.lookup caller.root (normalComponents caller.cwd path)

/-- A name that can be written behind the path. -/
def Appendable (path name : Name) : Prop := Proper name ∧ (appendName path name).length < 255

theorem Appendable.listable {name : Name} (fits : Appendable path name) : Listable name := by
  refine ⟨?_, fits.1.ends⟩
  have shorter : name.length ≤ (appendName path name).length := by
    unfold appendName
    split <;> simp only [List.length_append, List.length_cons] <;> omega
  exact Nat.le_of_lt (Nat.lt_of_le_of_lt shorter fits.2)

theorem Emptying.walkable {fs : RamFs} {inode : InodeId}
    (reached : descend fs.lookup caller.root (normalComponents caller.cwd path) = .ok inode) :
    Walkable (Emptying caller path fs) (Appendable path)
      ((fs.dirAt inode).elim 0 fun dir => dir.names.length) inode where
  ordinary name fits := ⟨fits.listable, fits.1.notDot, fits.1.notDots⟩
  listed after dir name emptying there member := by
    obtain ⟨child, found⟩ := Option.isSome_iff_exists.mp (RamFsDir.mem_names.mp member)
    have entry : after.lookup inode name = .ok child := by
      rw [RamFs.lookup_of_dirAt there, found]
      rfl
    obtain ⟨proper, fits⟩ := emptying.short [name] child
      ((descend_snoc (emptying.stays.trans reached)).trans entry)
    exact ⟨proper name List.mem_cons_self, fits (List.cons_ne_nil name [])⟩
  few after dir emptying there := by
    cases before : fs.dirAt inode with
    | some dir₀ => exact emptying.pruned.length_names before there
    | none =>
      have bare : dir.names = [] := by
        rw [List.eq_nil_iff_forall_not_mem]
        intro name member
        obtain ⟨child, found⟩ := Option.isSome_iff_exists.mp (RamFsDir.mem_names.mp member)
        have entry : after.lookup inode name = .ok child := by
          rw [RamFs.lookup_of_dirAt there, found]
          rfl
        obtain ⟨dir₀, there₀, _⟩ := RamFs.lookup_ok (emptying.pruned.edges inode name child entry)
        rw [before] at there₀
        cases there₀
      rw [bare]
      exact Nat.le_refl 0

/-- Walking a directory removes below it. -/
theorem walkDir_prunes {fs : RamFs}
    (removes : ∀ fs name, Standing fs caller.root → Short fs caller (appendName path name) →
      Appendable path name → Removes caller (appendName path name) fs)
    (standing : Standing fs caller.root) (short : Short fs caller path) : ∃ after enough,
      (∀ fuel, enough ≤ fuel → walkDir caller fuel path
        (fun name fs => removePath caller true fuel (joinPath path name) fs) fs = some after) ∧
      Pruned fs after caller.root (normalComponents caller.cwd path) := by
  have visits : Visits (fun fuel name fs => removePath caller true fuel (joinPath path name) fs)
      (Emptying caller path fs) (Appendable path) := by
    intro middle name emptying fits
    obtain ⟨after, enough, returns, pruned⟩ := removes middle name emptying.pruned.standing
      (emptying.short.child fits.1) fits
    rw [normalComponents_appendName fits.1] at pruned
    have outside : ¬ normalComponents caller.cwd path ++ [name] <+:
        normalComponents caller.cwd path := by
      intro below
      have longer := below.length_le
      rw [List.length_append, List.length_singleton] at longer
      omega
    refine ⟨after, enough, fun fuel more => ?_, emptying.pruned.trans pruned.weaken,
      emptying.short.pruned pruned, (pruned.outside _ outside).trans emptying.stays⟩
    dsimp only
    rw [joinPath, if_pos fits.2]
    exact returns fuel more
  have start : Emptying caller path fs fs := ⟨.refl standing, short, rfl⟩
  cases reached : descend fs.lookup caller.root (normalComponents caller.cwd path) with
  | ok inode =>
    obtain ⟨after, enough, returns, emptied⟩ := walkDir_returns visits (fun inode' reached' => by
      cases reached.symm.trans reached'
      exact Emptying.walkable reached) start
    exact ⟨after, enough, returns, emptied.pruned⟩
  | error problem =>
    obtain ⟨after, enough, returns, emptied⟩ := @walkDir_returns _ _ (Appendable path) 0 caller path
      fs visits (fun inode reached' => by cases reached.symm.trans reached') start
    exact ⟨after, enough, returns, emptied.pruned⟩

end Walk

/-- `remove_path` removes nothing outside its argument and returns. -/
theorem removes_of_short (caller : Caller) (path : Name) (fs : RamFs)
    (standing : Standing fs caller.root) (short : Short fs caller path) :
    Removes caller path fs := by
  induction left : 255 - path.length using Nat.strong_induction_on generalizing path fs with
  | _ left ih =>
    subst left
    have removes : ∀ fs name, Standing fs caller.root → Short fs caller (appendName path name) →
        Appendable path name → Removes caller (appendName path name) fs := by
      intro fs name standing short fits
      have longer := @length_appendName path name fits.1.nonempty
      have bounded := fits.2
      exact ih _ (by omega) _ fs standing short rfl
    obtain ⟨walked, enough, returns, pruned⟩ := walkDir_prunes removes standing short
    refine ⟨(sysUnlink walked caller.root caller.cwd path).2, enough + 1, fun fuel more => ?_,
      pruned.trans (.unlink pruned.standing)⟩
    obtain ⟨fuel, rfl⟩ := Nat.exists_eq_add_of_le' (Nat.le_trans (Nat.le_add_left 1 _) more)
    rw [removePath, if_pos rfl, returns fuel (by omega)]
    rfl

/-- The root process in a directory. -/
def rootIn (cwd : Name) : Caller := ⟨0, ⟨0, 0, 0, 0, 0o022⟩, cwd⟩

/-- The directory `a` holds the file `f` and nothing else. -/
theorem below_nestedFile {rest : List Name} {id : InodeId}
    (arrives : descend nestedFile.lookup 0 ([97] :: rest) = .ok id) :
    (rest = [] ∧ id = 1) ∨ (rest = [[102]] ∧ id = 2) := by
  have atDir : nestedFile.lookup 0 [97] = .ok 1 := rfl
  rw [descend_cons atDir] at arrives
  cases rest with
  | nil =>
    cases arrives
    exact Or.inl ⟨rfl, rfl⟩
  | cons name rest =>
    obtain ⟨child, found, arrives⟩ := descend_cons_ok arrives
    have entry : nestedFile.lookup 1 name = if name = [102] then .ok 2 else .error enoent := by
      have there : nestedFile.dirAt 1 = some (RamFsDir.createFile [102] 2
        (.newWithCreds ⟨0o755, 0, 0⟩)) := rfl
      rw [RamFs.lookup_of_dirAt there, RamFsDir.lookup_createFile]
      split <;> rfl
    rw [entry] at found
    split at found
    · rename_i same
      subst same
      cases found
      cases rest with
      | nil =>
        cases arrives
        exact Or.inr ⟨rfl, rfl⟩
      | cons name rest =>
        obtain ⟨_, below, _⟩ := descend_cons_ok arrives
        cases below
    · cases found

theorem short_nestedFile : Short nestedFile (rootIn [Vfs.slash]) [Vfs.slash, 97] := by
  intro rest id arrives
  rcases below_nestedFile arrives with ⟨rfl, _⟩ | ⟨rfl, _⟩
  · exact ⟨nofun, fun nonempty => (nonempty rfl).elim⟩
  · refine ⟨fun name member => ?_, fun _ => by decide⟩
    cases List.mem_singleton.mp member
    exact ⟨by decide, by decide, by decide, by decide, by decide⟩

/-- A directory `c` with a file `f`, and a directory `d` with a file whose name has 252 bytes. -/
def longNamed : RamFs :=
  (((RamFs.newRoot.apply (.createDir 0 [99] ⟨0o755, 0, 0⟩)).apply
    (.createDir 0 [100] ⟨0o755, 0, 0⟩)).apply (.createFile 1 [102] ⟨0o644, 0, 0⟩)).apply
    (.createFile 2 (List.replicate 252 120) ⟨0o644, 0, 0⟩)

end RustPosix.Shell
