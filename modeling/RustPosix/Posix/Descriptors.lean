import RustPosix.Posix.FileCalls
import RustPosix.Posix.Signals

/-! The calls of `services/posix/fs.rs` that change descriptor tables, made by several processes
with arbitrary arguments. -/

namespace RustPosix.Posix

open Library Vfs

def enomem : Int := 12
def enametoolong : Int := 36

/-- Why `copy_user_path` cannot take a path. -/
inductive PathProblem where
  | fault
  | tooLong
  | notUtf8

def PathProblem.code : PathProblem → Int
  | .fault => efault
  | .tooLong => enametoolong
  | .notUtf8 => einval

/-- The pointer given to `sys_pipe`: refused at once, lost between its check and the write, or
good. -/
inductive UserPointer where
  | refused
  | lost
  | good
  deriving DecidableEq

inductive DescriptorCall where
  | open (path : Except PathProblem Name) (flags mode : BitVec 32)
  | close (fd : Int)
  | dup (oldfd : Int)
  | dup2 (oldfd newfd : Int)
  | pipe (pointer : UserPointer)
  | fork (frames : Bool)

/-- The descriptor that the call needs to be open. -/
def DescriptorCall.subject : DescriptorCall → Option Int
  | .close fd | .dup fd | .dup2 fd _ => some fd
  | _ => none

/-- What a call returns, and the descriptors that it writes to the caller. -/
structure FdAnswer where
  result : Int
  fds : List Int
  deriving DecidableEq

namespace FileWorld

/-- The inode of an end of a pipe is none of the filesystem; its `stat` is all that is read. -/
def pipeInode : Inode := .special ⟨0o600, 0, 0⟩

/-- `sys_pipe` -/
def sysPipe (world : FileWorld) (pid : Nat) (proc : FileProcess) (pointer : UserPointer) :
    FdAnswer × FileWorld :=
  if pointer = .refused then (⟨-efault, []⟩, world)
  else
    let (readEnd, fs) := world.fs.alloc pipeInode
    let (writeEnd, fs) := fs.alloc pipeInode
    let opened : FileWorld :=
      { world with fs, handles := world.handles ++ [⟨readEnd, 0, 0⟩, ⟨writeEnd, 0, oWronly⟩] }
    let fd0 := proc.fds.idxOf none
    let first := proc.fds.allocFd world.handles.length
    let fd1 := first.idxOf none
    let second := first.allocFd (world.handles.length + 1)
    if pointer = .good then (⟨0, [fd0, fd1]⟩, opened.setFds pid proc second)
    else (⟨-efault, []⟩, opened.setFds pid proc ((second.closeFd fd0).closeFd fd1))

/-- The answer of a call that writes no descriptors. -/
def plainAnswer : Answer × FileWorld → FdAnswer × FileWorld
  | (answer, after) => (⟨answer.result, []⟩, after)

def serve (world : FileWorld) (pid : Nat) (proc : FileProcess) :
    DescriptorCall → FdAnswer × FileWorld
  | .open (.ok path) flags mode => plainAnswer (world.sysOpen pid proc path flags mode)
  | .open (.error problem) _ _ => (⟨-problem.code, []⟩, world)
  | .close fd => plainAnswer (world.sysClose pid proc fd)
  | .dup oldfd => plainAnswer (world.sysDup pid proc oldfd)
  | .dup2 oldfd newfd => plainAnswer (world.sysDup2 pid proc oldfd newfd)
  | .pipe pointer => world.sysPipe pid proc pointer
  | .fork true => plainAnswer (world.sysFork proc)
  | .fork false => (⟨-enomem, []⟩, world)

end FileWorld

/-- What POSIX has of a descriptor table: which open file description a descriptor refers to. -/
abbrev Descriptors := Int → Option Sched.FileId

namespace Descriptors

/-- The lowest-numbered free descriptor. -/
def Lowest (table : Descriptors) (fd : Int) : Prop := IsLeast { fd | 0 ≤ fd ∧ table fd = none } fd

/-- What POSIX lets a call of a process other than `fork` do to its table: `fresh` tells the
descriptions that did not exist before. -/
def Allows (fresh : Sched.FileId → Prop) (table : Descriptors) :
    DescriptorCall → FdAnswer → Descriptors → Prop
  | .open .., answer, after => ∃ fd file, table.Lowest fd ∧ fresh file ∧ answer = ⟨fd, []⟩ ∧
      after = Function.update table fd (some file)
  | .close fd, answer, after => table fd ≠ none ∧ answer = ⟨0, []⟩ ∧
      after = Function.update table fd none
  | .dup oldfd, answer, after => ∃ fd, table.Lowest fd ∧ table oldfd ≠ none ∧ answer = ⟨fd, []⟩ ∧
      after = Function.update table fd (table oldfd)
  | .dup2 oldfd newfd, answer, after => table oldfd ≠ none ∧ answer = ⟨newfd, []⟩ ∧
      after = Function.update table newfd (table oldfd)
  | .pipe _, answer, after => ∃ fd0 fd1 readEnd writeEnd, fresh readEnd ∧ fresh writeEnd ∧
      readEnd ≠ writeEnd ∧ table.Lowest fd0 ∧
      Lowest (Function.update table fd0 (some readEnd)) fd1 ∧ answer = ⟨0, [fd0, fd1]⟩ ∧
      after = Function.update (Function.update table fd0 (some readEnd)) fd1 (some writeEnd)
  | .fork _, _, _ => False

end Descriptors

end RustPosix.Posix

namespace RustPosix.Sched.FdTable

variable {fds after : FdTable} {file : FileId} {slot : Nat} {fd : Int} {taken : Option FileId}

theorem getFd_natCast : fds.getFd slot = (fds[slot]?).join := by
  unfold getFd
  rw [if_neg (Int.not_lt.mpr (Int.natCast_nonneg slot)), Int.toNat_natCast]

theorem getFd_of_neg (negative : fd < 0) : fds.getFd fd = none := if_pos negative

/-- A table that differs in one slot refers as before elsewhere. -/
private theorem getFd_eq_update (same : ∀ other, (after[other]?).join =
    if other = slot then taken else (fds[other]?).join) :
    after.getFd = Function.update fds.getFd slot taken := by
  funext fd
  rcases Int.lt_or_le fd 0 with negative | positive
  · rw [Function.update_of_ne (by omega), getFd_of_neg negative, getFd_of_neg negative]
  · lift fd to Nat using positive
    rw [getFd_natCast, same fd]
    by_cases here : fd = slot
    · subst here
      rw [if_pos rfl, Function.update_self]
    · rw [if_neg here, Function.update_of_ne (by omega), getFd_natCast]

theorem getFd_allocFd :
    (allocFd file fds).getFd = Function.update fds.getFd (fds.idxOf none : Nat) (some file) := by
  apply getFd_eq_update
  intro other
  induction fds generalizing other with
  | nil => cases other <;> rfl
  | cons head rest ih =>
    cases head with
    | none => cases other <;> rfl
    | some held =>
      have behind : List.idxOf none (some held :: rest) = rest.idxOf none + 1 :=
        List.idxOf_cons_ne rest (Option.some_ne_none held)
      rw [behind]
      cases other with
      | zero => rfl
      | succ other =>
        simp only [allocFd, List.getElem?_cons_succ, Nat.succ_inj]
        exact ih other

/-- The slot that `alloc_fd` takes is the lowest free one. -/
theorem lowest_idxOf : Posix.Descriptors.Lowest fds.getFd (fds.idxOf none : Nat) := by
  refine ⟨⟨Int.natCast_nonneg _, ?_⟩, ?_⟩
  · rw [getFd_natCast]
    by_cases inside : fds.idxOf none < fds.length
    · rw [List.getElem?_eq_getElem inside, List.getElem_idxOf inside]
      rfl
    · rw [List.getElem?_eq_none (Nat.not_lt.mp inside)]
      rfl
  · rintro other ⟨positive, free⟩
    lift other to Nat using positive
    rw [getFd_natCast] at free
    apply Int.ofNat_le.mpr
    by_contra before
    have inside : other < fds.length :=
      Nat.lt_of_lt_of_le (Nat.not_le.mp before) List.idxOf_le_length
    rw [List.getElem?_eq_getElem inside] at free
    have taken := List.not_of_lt_findIdx (Nat.not_le.mp before)
    rw [Option.join_some] at free
    rw [free] at taken
    cases taken

theorem getFd_closeFd (positive : 0 ≤ fd) :
    (fds.closeFd fd).getFd = Function.update fds.getFd fd none := by
  lift fd to Nat using positive
  apply getFd_eq_update
  intro other
  unfold closeFd
  rw [if_neg (by omega), Int.toNat_natCast, List.getElem?_set]
  by_cases here : fd = other
  · subst here
    rw [if_pos rfl, if_pos rfl]
    split <;> rfl
  · rw [if_neg here, if_neg (Ne.symm here)]

theorem getFd_dup2 (positive : 0 ≤ fd) :
    (fds.dup2 file fd).getFd = Function.update fds.getFd fd (some file) := by
  have closed := @getFd_closeFd fds fd positive
  lift fd to Nat using positive
  have extended : ∀ other : Nat, (((fds.closeFd fd).extend fd)[other]?).join =
      ((fds.closeFd fd)[other]?).join := by
    intro other
    unfold extend
    rw [List.getElem?_append]
    split
    · rfl
    · rename_i beyond
      rw [List.getElem?_eq_none (Nat.not_lt.mp beyond), List.getElem?_replicate]
      split <;> rfl
  have long : fd < ((fds.closeFd fd).extend fd).length := by
    unfold extend
    rw [List.length_append, List.length_replicate]
    omega
  have written : (fds.dup2 file fd).getFd =
      Function.update (fds.closeFd fd).getFd fd (some file) := by
    apply getFd_eq_update
    intro other
    unfold dup2
    rw [Int.toNat_natCast, List.getElem?_set]
    by_cases here : fd = other
    · subst here
      rw [if_pos rfl, if_pos rfl, if_pos long]
      rfl
    · rw [if_neg here, if_neg (Ne.symm here), extended]
  rw [written, closed, Function.update_idem]

/-- The table refers to files below `bound` only. -/
def Below (fds : FdTable) (bound : FileId) : Prop :=
  ∀ fd file, fds.getFd fd = some file → file < bound

variable {bound : FileId}

theorem Below.mono {larger : FileId} (below : fds.Below bound) (le : bound ≤ larger) :
    fds.Below larger := fun fd other refers => Nat.lt_of_lt_of_le (below fd other refers) le

private theorem Below.update (below : fds.Below bound)
    (changed : after.getFd = Function.update fds.getFd fd taken)
    (exists_ : ∀ file, taken = some file → file < bound) : after.Below bound := by
  intro other file refers
  rw [changed] at refers
  by_cases here : other = fd
  · rw [here, Function.update_self] at refers
    exact exists_ file refers
  · rw [Function.update_of_ne here] at refers
    exact below other file refers

theorem Below.allocFd (below : fds.Below bound) (exists_ : file < bound) :
    (fds.allocFd file).Below bound :=
  below.update getFd_allocFd fun _ same => Option.some.inj same ▸ exists_

theorem Below.closeFd (below : fds.Below bound) (fd : Int) : (fds.closeFd fd).Below bound := by
  rcases Int.lt_or_le fd 0 with negative | positive
  · unfold FdTable.closeFd
    rwa [if_pos negative]
  · exact below.update (getFd_closeFd positive) nofun

theorem Below.dup2 (below : fds.Below bound) (positive : 0 ≤ fd) (exists_ : file < bound) :
    (fds.dup2 file fd).Below bound :=
  below.update (getFd_dup2 positive) fun _ same => Option.some.inj same ▸ exists_

end RustPosix.Sched.FdTable
