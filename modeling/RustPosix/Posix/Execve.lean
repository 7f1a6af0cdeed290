import RustPosix.Posix.Credentials
import RustPosix.Posix.Mem
import RustPosix.Posix.Sysret
import RustPosix.Process.TrapFrame

/-! `sys_execve` of `services/posix/process.rs` and `Process::apply_exec` of
`services/process/mod.rs`. What the file system and the user's pointers decide is given as
the request. -/

namespace RustPosix.Posix

open Library Mm Ipc Process

def sIsuid : BitVec 32 := 0o4000
def sIsgid : BitVec 32 := 0o2000

/-- The parts of a control block that `apply_exec` writes, and the descriptors. -/
structure Image (Fds : Type) where
  creds : Credentials
  /-- The root table and the areas of the address space. -/
  root : Nat
  vmas : List Vma
  entryPoint : Nat
  userStackTop : Nat
  mmapNextVaddr : Nat
  savedKernelRsp : Nat
  hasStarted : Bool
  /-- Where the kernel stack begins. -/
  kernelStack : Nat
  fds : Fds

/-- The process that calls, the physical memory, the kernel stacks and the signals. -/
structure ExecWorld (Fds : Type) where
  process : Image Fds
  machine : Machine
  /-- The bytes of the kernel stacks. -/
  kernelMemory : Memory
  signals : SignalManager

/-- The file that is executed, with what its inode says. -/
structure Executable where
  bytes : List Byte
  mode : BitVec 32
  uid : Id
  gid : Id

/-- What has been copied and looked up before the image is loaded. -/
structure ExecRequest where
  file : Executable
  argv : List (List Byte)
  envp : List (List Byte)

section Execve

variable {Fds : Type}

/-- The credentials after `exec`: the bits of the file decide the effective ones, which are
also saved. -/
def Credentials.exec (creds : Credentials) (file : Executable) : Credentials :=
  let euid := if file.mode &&& sIsuid ≠ 0 then file.uid else creds.user.effective
  let egid := if file.mode &&& sIsgid ≠ 0 then file.gid else creds.group.effective
  { user := { creds.user with effective := euid, saved := euid }
    group := { creds.group with effective := egid, saved := egid } }

def applyExec (loaded : LoadedElf) (newVm : VmState) (file : Executable) (world : ExecWorld Fds) :
    ExecWorld Fds :=
  let process := world.process
  -- The old address space is dropped once the new one is active.
  let machine := VmSpace.drop ⟨newVm.machine, process.root, process.vmas⟩
  let (initialRsp, kernelMemory) :=
    initUserKernelStack process.kernelStack loaded.entryPoint loaded.userStackTop world.kernelMemory
  { world with
    machine
    kernelMemory
    process :=
      { process with
        creds := process.creds.exec file
        root := newVm.root
        vmas := newVm.vmas
        entryPoint := loaded.entryPoint
        userStackTop := loaded.userStackTop
        mmapNextVaddr := defaultMmapBase
        savedKernelRsp := initialRsp
        hasStarted := true } }

/-- The result, or none if the kernel panics. A request that fails has an error number. -/
def sysExecve (request : Except Int ExecRequest) (world : ExecWorld Fds) :
    Option Int × ExecWorld Fds :=
  match request with
  | .error errno => (some (-errno), world)
  | .ok request =>
    match VmSpace.new world.process.root world.machine with
    | (none, machine) => (some (-Mm.enomem), { world with machine })
    | (some newVm, _) =>
      match loadElf request.file.bytes request.argv request.envp newVm with
      | (.ok loaded, newVm) => (some 0, applyExec loaded newVm request.file world)
      | (.error .panicked, newVm) => (none, { world with machine := newVm.machine })
      -- Whatever has been built so far is dropped.
      | (.error (.error _), newVm) =>
        (some (-enoexec), { world with machine := VmSpace.drop newVm })

/-- A call whose file can be loaded succeeds. -/
theorem sysExecve_loads {request : ExecRequest} {world : ExecWorld Fds} {newVm built : VmState}
    {machine : Machine} {loaded : LoadedElf}
    (created : VmSpace.new world.process.root world.machine = (some newVm, machine))
    (load : loadElf request.file.bytes request.argv request.envp newVm = (.ok loaded, built)) :
    sysExecve (.ok request) world = (some 0, applyExec loaded built request.file world) := by
  simp only [sysExecve, created, load]

/-- A call that succeeds has loaded the file into a new address space. -/
theorem sysExecve_applied {request : ExecRequest} {world after : ExecWorld Fds}
    (executed : sysExecve (.ok request) world = (some 0, after)) :
    ∃ newVm loaded machine,
      VmSpace.new world.process.root world.machine = (some newVm, machine) ∧
      (loadElf request.file.bytes request.argv request.envp newVm).1 = .ok loaded ∧
      after = applyExec loaded (loadElf request.file.bytes request.argv request.envp newVm).2
        request.file world := by
  unfold sysExecve at executed
  dsimp only at executed
  split at executed
  · cases executed
  · rename_i newVm machine created
    refine ⟨newVm, ?_⟩
    split at executed
    · rename_i loaded built load
      rw [load]
      exact ⟨loaded, machine, created, rfl, (Prod.mk.inj executed).2.symm⟩
    · cases executed
    · cases executed

end Execve

end RustPosix.Posix
