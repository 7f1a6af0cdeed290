import RustPosix.Posix.Descriptors
import RustPosix.Posix.FsSteps

/-! The descriptor tables of the processes against the partial maps of POSIX, over every sequence
of calls. -/

namespace RustPosix.Posix

open Library Vfs

/-- What POSIX lets a call of the process `pid` do: an error changes no table, a success changes
the table of the caller only, and `fork` adds a table like the caller's. -/
structure PosixStep (before : List Descriptors) (pid : Nat) (table : Descriptors)
    (made : DescriptorCall) (answer : FdAnswer) (after : List Descriptors) : Prop where
  outcome : (answer.result < 0 ∧ after = before) ∨
    ((∃ frames, made = .fork frames) ∧ answer = ⟨before.length, []⟩ ∧ after = before ++ [table]) ∨
    ∃ changed, table.Allows (fun file => ∀ other ∈ before, ∀ fd, other fd ≠ some file) made answer
      changed ∧ after = before.set pid changed
  demanded : ∀ fd, made.subject = some fd → table fd = none → answer = ⟨-ebadf, []⟩

namespace FileWorld

/-- The tables of the processes, as maps. -/
def tables (world : FileWorld) : List Descriptors := world.procs.map fun proc => proc.fds.getFd

/-- Descriptors refer to handles that exist. -/
def Valid (world : FileWorld) : Prop :=
  ∀ proc ∈ world.procs, proc.fds.Below world.handles.length

/-- Every call of the sequence does what POSIX lets it do. -/
def Refines (world : FileWorld) : List (Nat × DescriptorCall) → Prop
  | [] => True
  | (pid, made) :: rest => ∀ proc, world.procs[pid]? = some proc →
      PosixStep world.tables pid proc.fds.getFd made (world.serve pid proc made).1
        (world.serve pid proc made).2.tables ∧
      (world.serve pid proc made).2.Refines rest

/-- A call of `dup2` that names a descriptor twice which is not open. -/
def DupsClosed (proc : FileProcess) : DescriptorCall → Prop
  | .dup2 oldfd newfd => oldfd = newfd ∧ 0 ≤ newfd ∧ newfd < 256 ∧ proc.fds.getFd oldfd = none
  | _ => False

/-- No call of the sequence duplicates a closed descriptor onto itself. -/
def NoneDupsClosed (world : FileWorld) : List (Nat × DescriptorCall) → Prop
  | [] => True
  | (pid, made) :: rest => ∀ proc, world.procs[pid]? = some proc →
      ¬ DupsClosed proc made ∧ (world.serve pid proc made).2.NoneDupsClosed rest

variable {world after : FileWorld} {pid : Nat} {proc : FileProcess} {fds : Sched.FdTable}
  {answer : FdAnswer}

theorem tables_setFds : (world.setFds pid proc fds).tables = world.tables.set pid fds.getFd := by
  unfold tables setFds
  exact List.map_set

theorem tables_setFds_self (there : world.procs[pid]? = some proc)
    (same : fds.getFd = proc.fds.getFd) : (world.setFds pid proc fds).tables = world.tables := by
  rw [tables_setFds, same]
  apply List.ext_getElem?
  intro other
  rw [List.getElem?_set]
  split
  · rename_i here
    subst here
    unfold tables
    rw [List.getElem?_map, there]
    split
    · rfl
    · rename_i outside
      rw [List.length_map] at outside
      exact (outside (List.getElem?_eq_some_iff.mp there).1).elim
  · rfl

/-- A file that is created by the call is new to every table. -/
theorem Valid.fresh (valid : world.Valid) {file : Sched.FileId}
    (beyond : world.handles.length ≤ file) :
    ∀ other ∈ world.tables, ∀ fd, other fd ≠ some file := by
  intro other member fd refers
  obtain ⟨proc, among, rfl⟩ := List.mem_map.mp member
  exact Nat.not_lt.mpr beyond (valid proc among fd file refers)

end FileWorld

/-- Two descriptors that are taken and released again were free, and are free afterwards. -/
theorem Descriptors.released_pair {table : Descriptors} {fd0 fd1 : Int}
    {readEnd writeEnd : Sched.FileId} (free : table fd0 = none)
    (stillFree : Function.update table fd0 (some readEnd) fd1 = none) :
    Function.update (Function.update (Function.update (Function.update table fd0 (some readEnd))
      fd1 (some writeEnd)) fd0 none) fd1 none = table := by
  have apart : fd1 ≠ fd0 := by
    rintro rfl
    rw [Function.update_self] at stillFree
    cases stillFree
  rw [Function.update_of_ne apart] at stillFree
  funext fd
  by_cases second : fd = fd1
  · rw [second, Function.update_self, stillFree]
  rw [Function.update_of_ne second]
  by_cases first : fd = fd0
  · rw [first, Function.update_self, free]
  · rw [Function.update_of_ne first, Function.update_of_ne second, Function.update_of_ne first]

/-- The same for the lowest free descriptors of a table. -/
theorem getFd_released {fds : Sched.FdTable} {readEnd writeEnd : Sched.FileId} :
    ((((fds.allocFd readEnd).allocFd writeEnd).closeFd (fds.idxOf none : Nat)).closeFd
      ((fds.allocFd readEnd).idxOf none : Nat)).getFd = fds.getFd := by
  have free : fds.getFd (fds.idxOf none : Nat) = none := Sched.FdTable.lowest_idxOf.1.2
  have stillFree : (fds.allocFd readEnd).getFd ((fds.allocFd readEnd).idxOf none : Nat) = none :=
    Sched.FdTable.lowest_idxOf.1.2
  rw [Sched.FdTable.getFd_closeFd (Int.natCast_nonneg _),
    Sched.FdTable.getFd_closeFd (Int.natCast_nonneg _), Sched.FdTable.getFd_allocFd,
    Sched.FdTable.getFd_allocFd]
  rw [Sched.FdTable.getFd_allocFd] at stillFree
  exact Descriptors.released_pair free stillFree

namespace PosixStep

variable {before : List Descriptors} {pid : Nat} {table changed : Descriptors}
  {made : DescriptorCall} {answer : FdAnswer}

/-- A refusal that leaves all tables as they are. -/
theorem refused {after : List Descriptors} {problem : Int} (positive : 0 < problem)
    (same : after = before)
    (demanded : ∀ fd, made.subject = some fd → table fd = none → problem = ebadf) :
    PosixStep before pid table made ⟨-problem, []⟩ after := by
  refine ⟨Or.inl ⟨Int.neg_neg_of_pos positive, same⟩, fun fd names closed => ?_⟩
  rw [demanded fd names closed]

theorem done (held : ∀ fd, made.subject = some fd → table fd ≠ none)
    (allows : table.Allows (fun file => ∀ other ∈ before, ∀ fd, other fd ≠ some file) made answer
      changed) : PosixStep before pid table made answer (before.set pid changed) :=
  ⟨Or.inr (Or.inr ⟨changed, allows, rfl⟩), fun fd names closed => (held fd names closed).elim⟩

end PosixStep

namespace FileWorld

variable {world after : FileWorld} {pid : Nat} {proc : FileProcess}

theorem sysOpen_step (valid : world.Valid) (path : Name) (flags mode : BitVec 32) :
    PosixStep world.tables pid proc.fds.getFd (.open (.ok path) flags mode)
      (plainAnswer (world.sysOpen pid proc path flags mode)).1
      (plainAnswer (world.sysOpen pid proc path flags mode)).2.tables := by
  unfold sysOpen
  cases opened : openInode world.fs world.root proc.creds proc.cwd path flags mode with
  | mk result fs =>
    cases result with
    | error problem => exact .refused (openInode_error opened) rfl nofun
    | ok inode =>
      unfold plainAnswer
      dsimp only
      rw [tables_setFds, Sched.FdTable.getFd_allocFd]
      exact .done nofun
        ⟨_, _, Sched.FdTable.lowest_idxOf, valid.fresh (Nat.le_refl _), rfl, rfl⟩

theorem sysClose_step (fd : Int) :
    PosixStep world.tables pid proc.fds.getFd (.close fd)
      (plainAnswer (world.sysClose pid proc fd)).1
      (plainAnswer (world.sysClose pid proc fd)).2.tables := by
  unfold sysClose
  cases refers : proc.fds.getFd fd with
  | none => exact .refused (by decide) rfl fun _ _ _ => rfl
  | some file =>
    have held : proc.fds.getFd fd ≠ none := Option.ne_none_iff_exists'.mpr ⟨file, refers⟩
    have positive : 0 ≤ fd := Int.not_lt.mp fun negative =>
      held (Sched.FdTable.getFd_of_neg negative)
    unfold plainAnswer
    dsimp only
    rw [tables_setFds, Sched.FdTable.getFd_closeFd positive]
    refine .done (fun other names => ?_) ⟨held, rfl, rfl⟩
    cases names
    exact held

theorem sysDup_step (oldfd : Int) :
    PosixStep world.tables pid proc.fds.getFd (.dup oldfd)
      (plainAnswer (world.sysDup pid proc oldfd)).1
      (plainAnswer (world.sysDup pid proc oldfd)).2.tables := by
  unfold sysDup
  cases refers : proc.fds.getFd oldfd with
  | none => exact .refused (by decide) rfl fun _ _ _ => rfl
  | some file =>
    have held : proc.fds.getFd oldfd ≠ none := Option.ne_none_iff_exists'.mpr ⟨file, refers⟩
    unfold plainAnswer
    dsimp only
    rw [tables_setFds, Sched.FdTable.getFd_allocFd, ← refers]
    refine .done (fun other names => ?_) ⟨_, Sched.FdTable.lowest_idxOf, held, rfl, rfl⟩
    cases names
    exact held

/-- Only a closed descriptor that is duplicated onto itself is not refused as it should be. -/
theorem sysDup2_step (there : world.procs[pid]? = some proc) (oldfd newfd : Int)
    (proper : ¬ DupsClosed proc (.dup2 oldfd newfd)) :
    PosixStep world.tables pid proc.fds.getFd (.dup2 oldfd newfd)
      (plainAnswer (world.sysDup2 pid proc oldfd newfd)).1
      (plainAnswer (world.sysDup2 pid proc oldfd newfd)).2.tables := by
  unfold sysDup2
  by_cases outside : newfd < 0 ∨ newfd ≥ 256
  · rw [if_pos outside]
    exact .refused (by decide) rfl fun _ _ _ => rfl
  rw [if_neg outside]
  have positive : 0 ≤ newfd := by omega
  by_cases same : oldfd = newfd
  · subst same
    rw [if_pos rfl]
    have held : proc.fds.getFd oldfd ≠ none := fun closed =>
      proper ⟨rfl, positive, by omega, closed⟩
    have unchanged : world.tables.set pid proc.fds.getFd = world.tables :=
      tables_setFds.symm.trans (tables_setFds_self there rfl)
    have step : PosixStep world.tables pid proc.fds.getFd (.dup2 oldfd oldfd) ⟨oldfd, []⟩
        (world.tables.set pid proc.fds.getFd) := by
      refine .done (fun other names => ?_) ⟨held, rfl, (Function.update_eq_self ..).symm⟩
      cases names
      exact held
    rwa [unchanged] at step
  · rw [if_neg same]
    cases refers : proc.fds.getFd oldfd with
    | none => exact .refused (by decide) rfl fun _ _ _ => rfl
    | some file =>
      have held : proc.fds.getFd oldfd ≠ none := Option.ne_none_iff_exists'.mpr ⟨file, refers⟩
      unfold plainAnswer
      dsimp only
      rw [tables_setFds, Sched.FdTable.getFd_dup2 positive, ← refers]
      refine .done (fun other names => ?_) ⟨held, rfl, rfl⟩
      cases names
      exact held

theorem sysPipe_step (valid : world.Valid) (there : world.procs[pid]? = some proc)
    (pointer : UserPointer) :
    PosixStep world.tables pid proc.fds.getFd (.pipe pointer) (world.sysPipe pid proc pointer).1
      (world.sysPipe pid proc pointer).2.tables := by
  unfold sysPipe
  by_cases refused : pointer = .refused
  · rw [if_pos refused]
    exact .refused (by decide) rfl nofun
  rw [if_neg refused]
  have first : (proc.fds.allocFd world.handles.length).getFd = Function.update proc.fds.getFd
      (proc.fds.idxOf none : Nat) (some world.handles.length) := Sched.FdTable.getFd_allocFd
  dsimp only
  by_cases good : pointer = .good
  · rw [if_pos good]
    dsimp only
    rw [tables_setFds, Sched.FdTable.getFd_allocFd]
    refine .done nofun ⟨_, _, _, _, valid.fresh (Nat.le_refl _), valid.fresh (Nat.le_succ _),
      Nat.ne_of_lt (Nat.lt_succ_self _), Sched.FdTable.lowest_idxOf, ?_, rfl, ?_⟩
    · rw [← first]
      exact Sched.FdTable.lowest_idxOf
    · rw [first]
  · rw [if_neg good]
    exact .refused (by decide) (tables_setFds_self there getFd_released) nofun

theorem sysFork_step :
    PosixStep world.tables pid proc.fds.getFd (.fork true) (plainAnswer (world.sysFork proc)).1
      (plainAnswer (world.sysFork proc)).2.tables := by
  refine ⟨Or.inr (Or.inl ⟨⟨true, rfl⟩, ?_, ?_⟩), nofun⟩
  · unfold tables
    rw [List.length_map]
    rfl
  · exact List.map_append

theorem serve_step (valid : world.Valid) (there : world.procs[pid]? = some proc)
    {made : DescriptorCall} (proper : ¬ DupsClosed proc made) :
    PosixStep world.tables pid proc.fds.getFd made (world.serve pid proc made).1
      (world.serve pid proc made).2.tables := by
  cases made with
  | «open» path flags mode =>
    cases path with
    | ok path => exact sysOpen_step valid path flags mode
    | error problem =>
      refine .refused ?_ rfl nofun
      cases problem <;> decide
  | close fd => exact sysClose_step fd
  | dup oldfd => exact sysDup_step oldfd
  | dup2 oldfd newfd => exact sysDup2_step there oldfd newfd proper
  | pipe pointer => exact sysPipe_step valid there pointer
  | fork frames =>
    cases frames with
    | true => exact sysFork_step
    | false => exact .refused (by decide) rfl nofun

/-- A closed descriptor duplicated onto itself is returned instead of an error. -/
theorem not_posixStep_of_dupsClosed {made : DescriptorCall} (closed : DupsClosed proc made) :
    ¬ PosixStep world.tables pid proc.fds.getFd made (world.serve pid proc made).1
      (world.serve pid proc made).2.tables := by
  intro step
  cases made with
  | dup2 oldfd newfd =>
    obtain ⟨rfl, positive, inside, free⟩ := closed
    have refused := congrArg FdAnswer.result (step.demanded oldfd rfl free)
    have returned : (world.sysDup2 pid proc oldfd oldfd).1.result = oldfd := by
      unfold sysDup2
      rw [if_neg (by omega), if_pos rfl]
    have negative : oldfd = -ebadf := returned.symm.trans refused
    unfold ebadf at negative
    omega
  | _ => exact closed

/-- A table may be replaced by one that refers to the handles that exist then. -/
theorem Valid.setFds (valid : world.Valid) {later : FileWorld} {fds : Sched.FdTable}
    {new : List FileHandle} (procs : later.procs = world.procs)
    (handles : later.handles = world.handles ++ new)
    (below : fds.Below (world.handles.length + new.length)) :
    (later.setFds pid proc fds).Valid := by
  have length : (later.setFds pid proc fds).handles.length = world.handles.length + new.length :=
    (congrArg List.length handles).trans List.length_append
  intro other member
  rw [length]
  rcases List.mem_or_eq_of_mem_set member with old | replaced
  · exact (valid other (procs ▸ old)).mono (Nat.le_add_right _ _)
  · rw [replaced]
    exact below

theorem Valid.sysPipe (valid : world.Valid) (own : proc.fds.Below world.handles.length)
    (pointer : UserPointer) : (world.sysPipe pid proc pointer).2.Valid := by
  have taken := ((own.mono (Nat.le_add_right _ 2)).allocFd
    (Nat.lt_add_of_pos_right Nat.two_pos)).allocFd (Nat.lt_succ_self (world.handles.length + 1))
  unfold FileWorld.sysPipe
  split
  · exact valid
  · dsimp only
    split
    · exact valid.setFds rfl rfl taken
    · exact valid.setFds rfl rfl ((taken.closeFd _).closeFd _)

theorem Valid.serve (valid : world.Valid) (there : world.procs[pid]? = some proc)
    (made : DescriptorCall) : (world.serve pid proc made).2.Valid := by
  have own := valid proc (List.mem_of_getElem? there)
  cases made with
  | «open» path flags mode =>
    cases path with
    | ok path =>
      unfold FileWorld.serve plainAnswer sysOpen
      dsimp only
      split
      · exact valid
      · exact valid.setFds rfl rfl ((own.mono (Nat.le_succ _)).allocFd (Nat.lt_succ_self _))
    | error problem => exact valid
  | close fd =>
    unfold FileWorld.serve plainAnswer sysClose
    dsimp only
    split
    · exact valid
    · exact valid.setFds rfl (List.append_nil _).symm (own.closeFd fd)
  | dup oldfd =>
    unfold FileWorld.serve plainAnswer sysDup
    dsimp only
    split
    · exact valid
    · rename_i file refers
      exact valid.setFds rfl (List.append_nil _).symm (own.allocFd (own oldfd file refers))
  | dup2 oldfd newfd =>
    unfold FileWorld.serve plainAnswer sysDup2
    dsimp only
    split
    · exact valid
    rename_i inside
    split
    · exact valid
    split
    · exact valid
    · rename_i file refers
      exact valid.setFds rfl (List.append_nil _).symm
        (own.dup2 (by omega) (own oldfd file refers))
  | pipe pointer => exact valid.sysPipe own pointer
  | fork frames =>
    cases frames with
    | true =>
      intro other member
      rcases List.mem_append.mp member with old | child
      · exact valid other old
      · rw [List.mem_singleton.mp child]
        exact own
    | false => exact valid

/-- The descriptor tables refine the maps of POSIX over a sequence of calls exactly if none of
them is a `dup2` of a closed descriptor onto itself. -/
theorem descriptor_tables_refine_posix_iff (valid : world.Valid)
    (calls : List (Nat × DescriptorCall)) : world.Refines calls ↔ world.NoneDupsClosed calls := by
  induction calls generalizing world with
  | nil => exact Iff.rfl
  | cons first rest ih =>
    constructor
    · intro refines proc there
      obtain ⟨step, later⟩ := refines proc there
      exact ⟨fun closed => not_posixStep_of_dupsClosed closed step,
        (ih (valid.serve there first.2)).mp later⟩
    · intro proper proc there
      obtain ⟨notClosed, later⟩ := proper proc there
      exact ⟨serve_step valid there notClosed, (ih (valid.serve there first.2)).mpr later⟩

/-- A process with the console at its first three descriptors. -/
def consoleOnly : FileWorld where
  fs := ⟨fun id => if id = 0 then some (.special ⟨0o666, 0, 0⟩) else none, 1⟩
  root := 0
  handles := [⟨0, 0, oRdwr⟩]
  procs := [⟨⟨0, 0, 0, 0, 0o022⟩, [slash], [some 0, some 0, some 0]⟩]

theorem consoleOnly_valid : consoleOnly.Valid := by
  intro proc member
  cases List.mem_singleton.mp member
  intro fd file refers
  unfold Sched.FdTable.getFd at refers
  split at refers
  · cases refers
  · have among := List.mem_of_getElem? (Option.join_eq_some_iff.mp refers)
    simp only [List.mem_cons, Option.some.injEq, List.not_mem_nil, or_false, or_self] at among
    rw [among]
    decide

theorem descriptor_tables_refine_posix_iff_pipeline : consoleOnly.Refines
    [(0, .pipe .good), (0, .fork true), (1, .dup2 4 1), (1, .close 3), (0, .dup2 7 7777),
      (0, .close 4)] := by
  refine (descriptor_tables_refine_posix_iff consoleOnly_valid _).mpr ?_
  intro _ _
  refine ⟨id, fun _ _ => ⟨id, fun _ _ => ⟨fun closed => ?_, fun _ _ => ⟨id, fun _ _ =>
    ⟨fun closed => ?_, fun _ _ => ⟨id, trivial⟩⟩⟩⟩⟩⟩
  · exact absurd closed.1 (by decide)
  · exact absurd closed.1 (by decide)

/-- Descriptor 5 is free, and `dup2(5, 5)` returns 5. -/
theorem dup2_returns_closed_descriptor :
    (consoleOnly.sysDup2 0 ⟨⟨0, 0, 0, 0, 0o022⟩, [slash], [some 0, some 0, some 0]⟩ 5 5).1.result = 5 ∧
      ¬ consoleOnly.Refines [(0, .dup2 5 5)] := by
  refine ⟨rfl, fun refines => ?_⟩
  obtain ⟨step, _⟩ := refines _ rfl
  have closed : DupsClosed ⟨⟨0, 0, 0, 0, 0o022⟩, [slash], [some 0, some 0, some 0]⟩ (.dup2 5 5) :=
    ⟨rfl, by decide, by decide, rfl⟩
  exact not_posixStep_of_dupsClosed closed step

end FileWorld

end RustPosix.Posix
