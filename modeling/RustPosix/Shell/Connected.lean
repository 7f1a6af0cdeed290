import RustPosix.Shell.Pipeline

/-! Which open files the stages of a pipeline find at their standard descriptors. -/

namespace RustPosix.Posix.FileWorld

/-- The open file that a descriptor of a process refers to. -/
def refers (world : FileWorld) (pid : Nat) (fd : Int) : Option Sched.FileId :=
  (world.procs[pid]?).bind fun proc => proc.fds.getFd fd

/-- Some descriptor refers to the file. -/
def IsOpen (world : FileWorld) (file : Sched.FileId) : Prop :=
  ∃ pid fd, world.refers pid fd = some file

/-- No descriptor but `fd` of the process `pid` refers to the file. -/
def OnlyAt (world : FileWorld) (file : Sched.FileId) (pid : Nat) (fd : Int) : Prop :=
  ∀ other slot, world.refers other slot = some file → other = pid ∧ slot = fd

variable {world : FileWorld} {pid other : Nat} {proc : FileProcess} {fds : Sched.FdTable}
  {fd slot oldfd newfd : Int} {file : Sched.FileId}

theorem refers_of_proc (there : world.procs[pid]? = some proc) :
    world.refers pid fd = proc.fds.getFd fd := by
  unfold refers
  rw [there]
  rfl

theorem isOpen_iff : world.IsOpen file ↔ ∃ proc ∈ world.procs, some file ∈ proc.fds := by
  constructor
  · rintro ⟨pid, fd, held⟩
    obtain ⟨proc, there, held⟩ := Option.bind_eq_some_iff.mp held
    refine ⟨proc, List.mem_of_getElem? there, ?_⟩
    unfold Sched.FdTable.getFd at held
    split at held
    · cases held
    · exact List.mem_of_getElem? (Option.join_eq_some_iff.mp held)
  · rintro ⟨proc, member, held⟩
    obtain ⟨pid, there⟩ := List.mem_iff_getElem?.mp member
    obtain ⟨slot, held⟩ := List.mem_iff_getElem?.mp held
    refine ⟨pid, slot, ?_⟩
    rw [refers_of_proc there, Sched.FdTable.getFd_natCast, held]
    rfl

instance : Decidable (world.IsOpen file) := decidable_of_iff _ isOpen_iff.symm

theorem Valid.refers_lt (valid : world.Valid) (held : world.refers pid fd = some file) :
    file < world.handles.length := by
  obtain ⟨proc, there, held⟩ := Option.bind_eq_some_iff.mp held
  exact valid proc (List.mem_of_getElem? there) fd file held

/-- A table is replaced; the descriptors of the other processes stay. -/
theorem refers_setFds (there : world.procs[pid]? = some proc) {later : FileWorld}
    (procs : later.procs = world.procs) :
    (later.setFds pid proc fds).refers other slot =
      if other = pid then fds.getFd slot else world.refers other slot := by
  unfold refers setFds
  dsimp only
  rw [procs, List.getElem?_set]
  have inside : pid < world.procs.length := (List.getElem?_eq_some_iff.mp there).1
  by_cases same : other = pid
  · rw [if_pos same.symm, if_pos inside, if_pos same]
    rfl
  · rw [if_neg (Ne.symm same), if_neg same]

/-- A table that gets one descriptor more. -/
private theorem refers_update (there : world.procs[pid]? = some proc) {later : FileWorld}
    (procs : later.procs = world.procs) {taken : Option Sched.FileId}
    (changed : fds.getFd = Function.update proc.fds.getFd fd taken) :
    (later.setFds pid proc fds).refers other slot =
      if other = pid ∧ slot = fd then taken else world.refers other slot := by
  rw [refers_setFds there procs, changed]
  by_cases same : other = pid
  · subst same
    rw [if_pos rfl, refers_of_proc there]
    by_cases here : slot = fd
    · rw [if_pos ⟨rfl, here⟩, here, Function.update_self]
    · rw [if_neg (fun both => here both.2), Function.update_of_ne here]
  · rw [if_neg same, if_neg (fun both => same both.1)]

theorem call_of_proc (there : world.procs[pid]? = some proc) (made : DescriptorCall) :
    world.call pid made = world.serve pid proc made := by
  unfold call
  rw [there]

theorem call_of_none (missing : world.procs[pid]? = none) (made : DescriptorCall) :
    world.call pid made = (⟨0, []⟩, world) := by
  unfold call
  rw [missing]

/-- A call that changes nothing, or the table of its process as it says. -/
private theorem refers_close_of_proc (there : world.procs[pid]? = some proc) :
    (world.sysClose pid proc fd).2.refers other slot =
      if other = pid ∧ slot = fd then none else world.refers other slot := by
  unfold sysClose
  cases held : proc.fds.getFd fd with
  | none =>
    dsimp only
    split
    · rename_i here
      rw [here.1, here.2, refers_of_proc there, held]
    · rfl
  | some file =>
    have positive : 0 ≤ fd := Int.not_lt.mp fun negative => by
      rw [Sched.FdTable.getFd_of_neg negative] at held
      cases held
    exact refers_update there rfl (Sched.FdTable.getFd_closeFd positive)

theorem refers_close : (world.did pid (.close fd)).refers other slot =
    if other = pid ∧ slot = fd then none else world.refers other slot := by
  unfold did
  cases there : world.procs[pid]? with
  | none =>
    rw [call_of_none there]
    split
    · rename_i here
      rw [here.1, refers, there]
      rfl
    · rfl
  | some proc =>
    rw [call_of_proc there]
    exact refers_close_of_proc there

private theorem refers_dup_of_proc (there : world.procs[pid]? = some proc)
    (held : (world.sysDup pid proc oldfd).2.refers other slot = some file) :
    world.refers other slot = some file ∨ world.refers pid oldfd = some file := by
  unfold sysDup at held
  cases source : proc.fds.getFd oldfd with
  | none =>
    rw [source] at held
    exact Or.inl held
  | some found =>
    rw [source] at held
    dsimp only at held
    rw [refers_update there rfl Sched.FdTable.getFd_allocFd] at held
    split at held
    · exact Or.inr (by rw [refers_of_proc there, source, held])
    · exact Or.inl held

private theorem refers_dup2_of_proc (there : world.procs[pid]? = some proc)
    (held : (world.sysDup2 pid proc oldfd newfd).2.refers other slot = some file) :
    world.refers other slot = some file ∨ world.refers pid oldfd = some file := by
  unfold sysDup2 at held
  by_cases outside : newfd < 0 ∨ newfd ≥ 256
  · rw [if_pos outside] at held
    exact Or.inl held
  rw [if_neg outside] at held
  by_cases same : oldfd = newfd
  · rw [if_pos same] at held
    exact Or.inl held
  rw [if_neg same] at held
  cases source : proc.fds.getFd oldfd with
  | none =>
    rw [source] at held
    exact Or.inl held
  | some found =>
    rw [source] at held
    dsimp only at held
    have positive : 0 ≤ newfd := by omega
    rw [refers_update there rfl (Sched.FdTable.getFd_dup2 positive)] at held
    split at held
    · exact Or.inr (by rw [refers_of_proc there, source, held])
    · exact Or.inl held

/-- After `dup` and `dup2` a descriptor refers to what it did before, or to the file of the
descriptor that is duplicated. -/
theorem refers_dup (held : (world.did pid (.dup oldfd)).refers other slot = some file) :
    world.refers other slot = some file ∨ world.refers pid oldfd = some file := by
  unfold did at held
  cases there : world.procs[pid]? with
  | none =>
    rw [call_of_none there] at held
    exact Or.inl held
  | some proc =>
    rw [call_of_proc there] at held
    exact refers_dup_of_proc there held

theorem refers_dup2 (held : (world.did pid (.dup2 oldfd newfd)).refers other slot = some file) :
    world.refers other slot = some file ∨ world.refers pid oldfd = some file := by
  unfold did at held
  cases there : world.procs[pid]? with
  | none =>
    rw [call_of_none there] at held
    exact Or.inl held
  | some proc =>
    rw [call_of_proc there] at held
    exact refers_dup2_of_proc there held

/-- What a pipe takes: two descriptors that were free, for two files that are new. -/
structure Pipes (world : FileWorld) (pid : Nat) (fd0 fd1 : Int) (after : FileWorld) : Prop where
  free0 : world.refers pid fd0 = none
  free1 : world.refers pid fd1 = none
  apart : fd0 ≠ fd1
  refers : ∀ other slot, after.refers other slot =
    if other = pid ∧ slot = fd1 then some (world.handles.length + 1)
    else if other = pid ∧ slot = fd0 then some world.handles.length
    else world.refers other slot
  handles : after.handles.length = world.handles.length + 2

theorem call_pipe (there : world.procs[pid]? = some proc) : ∃ fd0 fd1 after,
    world.call pid (.pipe .good) = (⟨0, [fd0, fd1]⟩, after) ∧ world.Pipes pid fd0 fd1 after ∧
      ∃ proc, after.procs[pid]? = some proc := by
  rw [call_of_proc there]
  have first : (proc.fds.allocFd world.handles.length).getFd = Function.update proc.fds.getFd
      (proc.fds.idxOf none : Nat) (some world.handles.length) := Sched.FdTable.getFd_allocFd
  have free : proc.fds.getFd (proc.fds.idxOf none : Nat) = none :=
    Sched.FdTable.lowest_idxOf.1.2
  have stillFree : (proc.fds.allocFd world.handles.length).getFd
      ((proc.fds.allocFd world.handles.length).idxOf none : Nat) = none :=
    Sched.FdTable.lowest_idxOf.1.2
  rw [first] at stillFree
  have apart : ((proc.fds.idxOf none : Nat) : Int) ≠
      ((proc.fds.allocFd world.handles.length).idxOf none : Nat) := by
    intro same
    rw [← same, Function.update_self] at stillFree
    cases stillFree
  rw [Function.update_of_ne apart.symm] at stillFree
  refine ⟨_, _, _, rfl, ?_, ?_⟩
  · refine ⟨?_, ?_, apart, fun other slot => ?_, ?_⟩
    · rw [refers_of_proc there, free]
    · rw [refers_of_proc there, stillFree]
    · refine (refers_setFds there rfl).trans ?_
      rw [Sched.FdTable.getFd_allocFd, first]
      by_cases same : other = pid
      · subst same
        simp only [if_true, true_and, Function.update_apply, refers_of_proc there]
      · simp only [same, if_false, false_and]
    · exact List.length_append
  · exact ⟨_, List.getElem?_set_self (List.getElem?_eq_some_iff.mp there).1⟩

namespace Pipes

variable {after : FileWorld} {fd0 fd1 : Int}

/-- The descriptors of an earlier file stay. -/
theorem refers_iff (pipes : world.Pipes pid fd0 fd1 after) (old : file < world.handles.length) :
    after.refers other slot = some file ↔ world.refers other slot = some file := by
  rw [pipes.refers]
  split
  · rename_i here
    rw [here.1, here.2, pipes.free1]
    exact iff_of_false (fun same => Nat.not_succ_lt_self (Option.some.inj same ▸ old)) nofun
  split
  · rename_i here
    rw [here.1, here.2, pipes.free0]
    exact iff_of_false (fun same => Nat.lt_irrefl _ (Option.some.inj same ▸ old)) nofun
  · exact Iff.rfl

theorem refers_readEnd (pipes : world.Pipes pid fd0 fd1 after) :
    after.refers pid fd0 = some world.handles.length := by
  rw [pipes.refers, if_neg (fun here => pipes.apart here.2), if_pos ⟨rfl, rfl⟩]

/-- Nobody else has the read end of the new pipe. -/
theorem onlyAt_readEnd (pipes : world.Pipes pid fd0 fd1 after) (valid : world.Valid) :
    after.OnlyAt world.handles.length pid fd0 := by
  intro other slot held
  rw [pipes.refers] at held
  split at held
  · exact absurd (Option.some.inj held) (Nat.succ_ne_self _)
  split at held
  · assumption
  · exact absurd (valid.refers_lt held) (Nat.lt_irrefl _)

end Pipes

namespace OnlyAt

theorem dup (only : world.OnlyAt file pid fd) (differs : oldfd ≠ fd) :
    (world.did pid (.dup oldfd)).OnlyAt file pid fd := by
  intro other slot held
  rcases refers_dup held with before | source
  · exact only other slot before
  · exact absurd (only pid oldfd source).2 differs

theorem dup2 (only : world.OnlyAt file pid fd) (differs : oldfd ≠ fd) :
    (world.did pid (.dup2 oldfd newfd)).OnlyAt file pid fd := by
  intro other slot held
  rcases refers_dup2 held with before | source
  · exact only other slot before
  · exact absurd (only pid oldfd source).2 differs

/-- The file goes with its last descriptor. -/
theorem close (only : world.OnlyAt file pid fd) : ¬ (world.did pid (.close fd)).IsOpen file := by
  rintro ⟨other, slot, held⟩
  rw [refers_close] at held
  split at held
  · cases held
  · rename_i elsewhere
    exact elsewhere (only other slot held)

end OnlyAt

theorem not_isOpen_close (gone : ¬ world.IsOpen file) :
    ¬ (world.did pid (.close fd)).IsOpen file := by
  rintro ⟨other, slot, held⟩
  rw [refers_close] at held
  split at held
  · cases held
  · exact gone ⟨other, slot, held⟩

end RustPosix.Posix.FileWorld

namespace RustPosix.Shell

open Library Vfs Posix

variable {pid : Nat} {command : List (List Byte) → FileWorld → FileWorld} {world : FileWorld}
  {proc : FileProcess} {line : List Byte}

/-- The calls of `pipe` succeed, and leave the descriptors of earlier files. -/
theorem createPipes_eq (there : world.procs[pid]? = some proc) (count : Nat) :
    ∃ pipes ready, createPipes pid count world = (some pipes, ready) ∧ pipes.length = count ∧
      ∀ file < world.handles.length, ∀ other slot,
        ready.refers other slot = some file ↔ world.refers other slot = some file := by
  induction count generalizing world proc with
  | zero => exact ⟨[], world, rfl, rfl, fun _ _ _ _ => Iff.rfl⟩
  | succ count ih =>
    obtain ⟨fd0, fd1, after, called, taken, proc', there'⟩ := FileWorld.call_pipe there
    obtain ⟨pipes, ready, created, length, same⟩ := ih there'
    refine ⟨(fd0, fd1) :: pipes, ready, ?_, congrArg (· + 1) length, ?_⟩
    · rw [createPipes, called]
      dsimp only
      rw [if_neg (Int.lt_irrefl 0), created]
      rfl
    · intro file old other slot
      rw [same file (by rw [taken.handles]; omega), taken.refers_iff old]

/-- The first pipe has the lowest free descriptors, and its read end no other. -/
theorem createPipes_succ (valid : world.Valid) (there : world.procs[pid]? = some proc)
    (count : Nat) : ∃ fd0 fd1 pipes ready,
      createPipes pid (count + 1) world = (some ((fd0, fd1) :: pipes), ready) ∧
      pipes.length = count ∧ world.refers pid fd0 = none ∧ fd0 ≠ fd1 ∧
      ready.refers pid fd0 = some world.handles.length ∧
      ready.OnlyAt world.handles.length pid fd0 := by
  obtain ⟨fd0, fd1, after, called, taken, proc', there'⟩ := FileWorld.call_pipe there
  obtain ⟨pipes, ready, created, length, same⟩ := createPipes_eq there' count
  have old : world.handles.length < after.handles.length := by
    rw [taken.handles]
    omega
  refine ⟨fd0, fd1, pipes, ready, ?_, length, taken.free0, taken.apart, ?_, ?_⟩
  · rw [createPipes, called]
    dsimp only
    rw [if_neg (Int.lt_irrefl 0), created]
    rfl
  · exact (same _ old pid fd0).mpr taken.refers_readEnd
  · intro other slot held
    exact taken.onlyAt_readEnd valid other slot ((same _ old other slot).mp held)

theorem not_isOpen_closePipes {file : Sched.FileId} (gone : ¬ world.IsOpen file)
    (pipes : List (Int × Int)) : ¬ (closePipes pid pipes world).IsOpen file := by
  induction pipes generalizing world with
  | nil => exact gone
  | cons ends pipes ih =>
    exact ih (FileWorld.not_isOpen_close (FileWorld.not_isOpen_close gone))

/-- The first stage starts when the read end of its pipe has been closed. -/
theorem not_isOpen_connectStage {file : Sched.FileId} {fd0 fd1 : Int} {pipes : List (Int × Int)}
    (only : world.OnlyAt file pid fd0) (apart : fd0 ≠ fd1) :
    ¬ (connectStage pid ((fd0, fd1) :: pipes) 0 {} world).IsOpen file := by
  have joined : (world.did pid (.dup2 fd1 stdoutFileno)).OnlyAt file pid fd0 :=
    only.dup2 apart.symm
  exact not_isOpen_closePipes (FileWorld.not_isOpen_close joined.close) pipes

/-- Each stage that is executed finds the pipes where it should: the write end of the next one at
descriptor 1, with its read end open, and the read end of the last one at descriptor 0. The ends
of a pipe are the files that its descriptors referred to when all pipes had been created. -/
def Connects (pid : Nat) (command : List (List Byte) → FileWorld → FileWorld) (world : FileWorld)
    (line : List Byte) : Prop :=
  ∀ pipes ready, createPipes pid ((stagesOf line).length - 1) world = (some pipes, ready) →
    ∀ i argv started,
      .execute i argv started ∈ (executePipelineLine pid command line world).1 →
      (∀ ends, pipes[i]? = some ends →
        started.refers pid stdoutFileno = ready.refers pid ends.2 ∧
        ∃ file, ready.refers pid ends.1 = some file ∧ started.IsOpen file) ∧
      ∀ ends, 0 < i → pipes[i - 1]? = some ends →
        started.refers pid stdinFileno = ready.refers pid ends.1

/-- A line of stages that each have a command and no redirection. -/
def Plain (line : List Byte) : Prop :=
  stagesOf line ≠ [] ∧ ∀ str ∈ stagesOf line, (parseStage str).argv ≠ [] ∧
    (parseStage str).redir = {}

instance : Decidable (Plain line) := inferInstanceAs (Decidable (_ ∧ _))

/-- The command of the first stage of several starts as `connectStage` leaves it. -/
theorem execute_first {first second : List Byte} {rest : List (List Byte)}
    {pipes : List (Int × Int)} {ready : FileWorld} (stages : stagesOf line = first :: second :: rest)
    (plain : Plain line)
    (created : createPipes pid (rest.length + 1) world = (some pipes, ready)) :
    .execute 0 (parseStage first).argv (connectStage pid pipes 0 {}
      ((ready.did pid (.dup stdinFileno)).did pid (.dup stdoutFileno))) ∈
      (executePipelineLine pid command line world).1 := by
  obtain ⟨_, each⟩ := plain
  obtain ⟨nonempty, undirected⟩ := each first (stages ▸ List.mem_cons_self)
  unfold executePipelineLine
  rw [stages]
  have counted : (first :: second :: rest).length - 1 = rest.length + 1 := rfl
  dsimp only
  rw [counted, created]
  dsimp only
  rw [executeStages, if_neg nonempty, undirected]
  exact List.mem_cons_self

/-- The stages of a pipeline are connected exactly if there is only one of them: the first of
several writes to a pipe whose read end the shell has closed just before. -/
theorem pipeline_connects_iff (valid : world.Valid) (there : world.procs[pid]? = some proc)
    (standard : ∀ fd, 0 ≤ fd → fd ≤ 2 → world.refers pid fd ≠ none) (plain : Plain line) :
    Connects pid command world line ↔ (stagesOf line).length = 1 := by
  match stages : stagesOf line with
  | [] => exact absurd stages plain.1
  | [str] =>
    refine iff_of_true ?_ rfl
    intro pipes ready created i argv started executed
    rw [stages] at created
    cases created
    exact ⟨fun _ => nofun, fun _ _ => nofun⟩
  | first :: second :: rest =>
    refine iff_of_false ?_ (by simp only [List.length_cons]; omega)
    intro connects
    obtain ⟨fd0, fd1, pipes, ready, created, _, free, apart, readEnd, only⟩ :=
      createPipes_succ valid there rest.length
    have differs : ∀ fd, 0 ≤ fd → fd ≤ 2 → fd ≠ fd0 := by
      rintro fd low high rfl
      exact standard fd low high free
    have prepared := (only.dup (differs stdinFileno (by decide) (by decide))).dup
      (differs stdoutFileno (by decide) (by decide))
    obtain ⟨outward, _⟩ := connects _ ready (by rw [stages]; exact created) 0 _ _
      (execute_first stages plain created)
    obtain ⟨_, file, end_, isOpen⟩ := outward (fd0, fd1) rfl
    rw [readEnd] at end_
    cases end_
    exact not_isOpen_connectStage prepared apart isOpen

/-- `a|b` -/
def twoStages : List Byte := [0x61, pipeChar, 0x62]

/-- `a b|` has one stage, `a|b` two. -/
theorem pipeline_connects_iff_stages :
    Connects 0 (fun _ world => world) FileWorld.consoleOnly [0x61, 0x20, 0x62, pipeChar] ∧
      ¬ Connects 0 (fun _ world => world) FileWorld.consoleOnly twoStages := by
  have standard : ∀ fd, 0 ≤ fd → fd ≤ 2 → FileWorld.consoleOnly.refers 0 fd ≠ none := by
    intro fd low high
    interval_cases fd <;> decide
  constructor
  · exact (pipeline_connects_iff FileWorld.consoleOnly_valid rfl standard (by decide)).mpr rfl
  · intro connects
    have single := (pipeline_connects_iff FileWorld.consoleOnly_valid rfl standard
      (by decide)).mp connects
    exact absurd single (by decide)

/-- In `a|b` the command `a` starts with the write end of the pipe at descriptor 1 when nobody has
its read end any more, and `b` starts with the console at descriptor 0. -/
theorem first_stage_without_reader : ∃ ready world later,
    createPipes 0 1 FileWorld.consoleOnly = (some [(3, 4)], ready) ∧
    ready.refers 0 3 = some 1 ∧ ready.refers 0 4 = some 2 ∧
    (executePipelineLine 0 (fun _ world => world) twoStages FileWorld.consoleOnly).1 =
      [.execute 0 [[0x61]] world, .execute 1 [[0x62]] later] ∧
    world.refers 0 1 = some 2 ∧ ¬ world.IsOpen 1 ∧ later.refers 0 0 = some 0 ∧
    ¬ Connects 0 (fun _ world => world) FileWorld.consoleOnly twoStages := by
  refine ⟨_, _, _, rfl, rfl, rfl, rfl, rfl, by decide, rfl, fun connects => ?_⟩
  obtain ⟨outward, _⟩ := connects _ _ rfl 0 _ _ List.mem_cons_self
  obtain ⟨_, file, held, isOpen⟩ := outward (3, 4) rfl
  cases held
  exact absurd isOpen (by decide)

end RustPosix.Shell
