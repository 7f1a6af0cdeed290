import RustPosix.Posix.Fs
import RustPosix.Sched.Kernel
import RustPosix.Vfs.FileHandle

/-! The calls on files of `services/posix/fs.rs`, made by several processes that share open
files across `dup` and `fork`. Buffers have been copied from and to user memory. -/

namespace RustPosix.Sched

/-- `Process::fds` -/
abbrev FdTable := List (Option FileId)

namespace FdTable

/-- The lowest free slot takes the file. -/
def allocFd (file : FileId) : FdTable → FdTable
  | [] => [some file]
  | none :: rest => some file :: rest
  | some other :: rest => some other :: allocFd file rest

def getFd (fds : FdTable) (fd : Int) : Option FileId :=
  if fd < 0 then none else (fds[fd.toNat]?).join

/-- The slot is free afterwards, whether or not it was before. -/
def closeFd (fds : FdTable) (fd : Int) : FdTable :=
  if fd < 0 then fds else fds.set fd.toNat none

/-- Free slots are pushed until there is the slot `fd`. -/
def extend (fds : FdTable) (fd : Nat) : FdTable :=
  fds ++ List.replicate (fd + 1 - fds.length) none

/-- The part of `sys_dup2` that changes the table. -/
def dup2 (fds : FdTable) (file : FileId) (newfd : Int) : FdTable :=
  ((fds.closeFd newfd).extend newfd.toNat).set newfd.toNat (some file)

end FdTable

end RustPosix.Sched

namespace RustPosix.Posix

open Library Vfs

def oRdonly : BitVec 32 := 0

def ebadf : Int := 9

/-- `MAX_RW_COUNT` -/
def maxRwCount : Nat := 2 ^ 20

/-- What of a process the calls on files read and change. -/
structure FileProcess where
  creds : VfsCreds
  cwd : Name
  fds : Sched.FdTable

/-- The filesystem, all open files, and the processes by their position. -/
structure FileWorld where
  fs : RamFs
  root : InodeId
  handles : List FileHandle
  procs : List FileProcess

/-- What a call returns, and what it copies to the caller. -/
structure Answer where
  result : Int
  bytes : List Byte

namespace FileWorld

def setFds (world : FileWorld) (pid : Nat) (proc : FileProcess) (fds : Sched.FdTable) : FileWorld :=
  { world with procs := world.procs.set pid { proc with fds } }

/-- `sys_open` -/
def sysOpen (world : FileWorld) (pid : Nat) (proc : FileProcess) (path : Name)
    (flags mode : BitVec 32) : Answer × FileWorld :=
  match openInode world.fs world.root proc.creds proc.cwd path flags mode with
  | (.error problem, fs) => (⟨-problem, []⟩, { world with fs })
  | (.ok inode, fs) =>
    let opened : FileWorld := { world with fs, handles := world.handles ++ [⟨inode, 0, flags⟩] }
    (⟨proc.fds.idxOf none, []⟩, opened.setFds pid proc (proc.fds.allocFd world.handles.length))

/-- `sys_dup` -/
def sysDup (world : FileWorld) (pid : Nat) (proc : FileProcess) (oldfd : Int) :
    Answer × FileWorld :=
  match proc.fds.getFd oldfd with
  | none => (⟨-ebadf, []⟩, world)
  | some id => (⟨proc.fds.idxOf none, []⟩, world.setFds pid proc (proc.fds.allocFd id))

/-- `sys_dup2` -/
def sysDup2 (world : FileWorld) (pid : Nat) (proc : FileProcess) (oldfd newfd : Int) :
    Answer × FileWorld :=
  if newfd < 0 ∨ newfd ≥ 256 then (⟨-ebadf, []⟩, world)
  else if oldfd = newfd then (⟨newfd, []⟩, world)
  else
    match proc.fds.getFd oldfd with
    | none => (⟨-ebadf, []⟩, world)
    | some id => (⟨newfd, []⟩, world.setFds pid proc (proc.fds.dup2 id newfd))

/-- `sys_close` -/
def sysClose (world : FileWorld) (pid : Nat) (proc : FileProcess) (fd : Int) :
    Answer × FileWorld :=
  match proc.fds.getFd fd with
  | none => (⟨-ebadf, []⟩, world)
  | some _ => (⟨0, []⟩, world.setFds pid proc (proc.fds.closeFd fd))

/-- `sys_fork`: the child gets the credentials, the directory and the descriptors. -/
def sysFork (world : FileWorld) (proc : FileProcess) : Answer × FileWorld :=
  (⟨world.procs.length, []⟩, { world with procs := world.procs ++ [proc] })

end FileWorld

end RustPosix.Posix
