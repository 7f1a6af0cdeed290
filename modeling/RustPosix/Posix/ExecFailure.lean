import RustPosix.Mm.SpaceDrop
import RustPosix.Posix.ExecFrame
import RustPosix.Process.ElfBalanced

/-! What a failed `sys_execve` leaves behind. All cleanup is in the drop of the new address
space, so a page that the load has mapped over is not found again. -/

namespace RustPosix.Posix

open Library Mm Process

variable {Fds : Type} {world after : ExecWorld Fds}

/-- The process, its signals and its kernel stack are as before, and so are the frames in
use, with their contents. -/
structure NoTrace (before after : ExecWorld Fds) : Prop where
  process : after.process = before.process
  signals : after.signals = before.signals
  kernelStack : after.kernelMemory = before.kernelMemory
  contents : ∀ addr, before.machine.pmm.testBit (addr / pageSize) = true →
    after.machine.mem addr = before.machine.mem addr
  frames : ∀ frame, after.machine.pmm.testBit frame = before.machine.pmm.testBit frame

theorem NoTrace.refl (world : ExecWorld Fds) : NoTrace world world :=
  ⟨rfl, rfl, rfl, fun _ _ => rfl, fun _ => rfl⟩

/-- A new address space in which no frame got lost is dropped without a trace. -/
theorem noTrace_of_drop {fresh built : VmState} (space : FreshSpace world.machine fresh)
    (lossless : Lossless fresh built) :
    NoTrace world { world with machine := VmSpace.drop built } := by
  refine ⟨rfl, rfl, rfl, fun addr used => ?_, fun frame => ?_⟩
  · have kept {machine : Machine} (clear : machine.mem addr ≠ world.machine.mem addr →
        world.machine.pmm.testBit (addr / pageSize) = false) :
        machine.mem addr = world.machine.mem addr := by
      by_contra changed
      exact Bool.false_ne_true ((clear changed).symm.trans used)
    have first : fresh.machine.mem addr = world.machine.mem addr := by
      refine kept fun changed => ?_
      rw [space.bytes addr changed]
      exact space.rootClear
    refine kept fun changed => space.clear_of_reach (lossless.change.bytes addr ?_)
    rw [first]
    exact changed
  · have same : (VmSpace.drop built).pmm.testBit frame = false ↔
        world.machine.pmm.testBit frame = false := by
      rw [drop_spec lossless.tree, lossless.charged_iff, space.charged_iff]
    exact Bool.eq_iff_iff.mpr (by simpa [Bool.not_eq_false] using not_congr same)

/-- A call that fails has dropped what it had built, if it had built anything. -/
theorem sysExecve_failed {request : Except Int ExecRequest} {result : Int}
    (executed : sysExecve request world = (some result, after)) (negative : result < 0) :
    after = world ∨ ∃ loaded newVm machine, request = .ok loaded ∧
      VmSpace.new world.process.root world.machine = (some newVm, machine) ∧
      after = { world with
        machine := VmSpace.drop (loadElf loaded.file.bytes loaded.argv loaded.envp newVm).2 } := by
  unfold sysExecve at executed
  split at executed
  · exact .inl (Prod.mk.inj executed).2.symm
  · rename_i request
    split at executed
    · rename_i machine created
      refine .inl ?_
      rw [VmSpace.new] at created
      split at created
      · rename_i pmm taken
        obtain ⟨rfl, _⟩ := PhysicalMemoryManager.allocFrame_none taken
        obtain rfl := (Prod.mk.inj created).2
        exact (Prod.mk.inj executed).2.symm
      · cases created
    · rename_i newVm machine created
      refine .inr ⟨request, newVm, machine, rfl, created, ?_⟩
      split at executed
      · obtain rfl := Option.some.inj (Prod.mk.inj executed).1
        exact absurd negative (by decide)
      · cases (Prod.mk.inj executed).1
      · rename_i load
        rw [load]
        exact (Prod.mk.inj executed).2.symm

/-- A call whose file is refused has dropped what was built for it. -/
theorem sysExecve_refuses {request : ExecRequest} {newVm : VmState} {machine : Machine}
    {message : String}
    (created : VmSpace.new world.process.root world.machine = (some newVm, machine))
    (refused : (loadElf request.file.bytes request.argv request.envp newVm).1 =
      .error (.error message)) :
    sysExecve (.ok request) world = (some (-(enoexec : Int)), { world with
      machine := VmSpace.drop (loadElf request.file.bytes request.argv request.envp newVm).2 }) := by
  obtain ⟨built, load⟩ := Action.exists_state refused
  simp only [sysExecve, created, load]

/-- A process that executes a file with 16 frames in all. -/
def smallWorld : ExecWorld Unit := { execWorld with machine := ⟨bootMemory, bootPmm 16⟩ }

def cutOffRequest (loads : List Elf64Phdr) : ExecRequest :=
  ⟨⟨encodeElf (loads ++ [⟨ptLoad, 6, 0, 0x600000, 0x10000, 0x10000⟩]) [], 0, 0, 0⟩, [], []⟩

end RustPosix.Posix
