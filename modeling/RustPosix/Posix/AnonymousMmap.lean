import RustPosix.Mm.MmapSpec
import RustPosix.Posix.FrameBalance
import RustPosix.Process.ElfImage

/-! The bump pointer of `sys_mmap` and the areas of the process: the pointer is the only thing
that is looked at when a range is chosen. -/

namespace RustPosix.Posix

open Library Mm Process

/-- No area lies between the bump pointer and the stack. -/
structure Vacant (vmas : List Vma) (mmapNextVaddr : Nat) : Prop where
  ordered : Ordered vmas
  gap : ∀ addr, lookup vmas addr ≠ none → addr < mmapNextVaddr ∨ stackBottom ≤ addr

namespace Vacant

variable {vmas : List Vma} {mmapNextVaddr start stop : Nat}

/-- A new area outside the gap, which may have become smaller. -/
theorem insert (vacant : Vacant vmas mmapNextVaddr) {next : Nat} (grown : mmapNextVaddr ≤ next)
    (outside : ∀ addr, start ≤ addr → addr < stop → addr < next ∨ stackBottom ≤ addr)
    (prot flags : BitVec 32) : Vacant (insertVma vmas start stop prot flags) next := by
  obtain ⟨ordered, covers⟩ := insertVma_covers vacant.ordered start stop prot flags
  refine ⟨ordered, fun addr found => ?_⟩
  rcases covers addr found with inside | before
  · exact outside addr inside.1 inside.2
  · rcases vacant.gap addr before with below | above
    · exact .inl (Nat.lt_of_lt_of_le below grown)
    · exact .inr above

theorem remove (vacant : Vacant vmas mmapNextVaddr) (range : start < stop) :
    Vacant (removeVmas vmas start stop) mmapNextVaddr := by
  obtain ⟨ordered, read⟩ := removeVmas_spec vacant.ordered range
  refine ⟨ordered, fun addr found => vacant.gap addr ?_⟩
  rw [read addr] at found
  split at found
  · exact absurd rfl found
  · exact found

theorem protect (vacant : Vacant vmas mmapNextVaddr) (newProt : BitVec 32) :
    Vacant (protectVmas vmas start stop newProt) mmapNextVaddr := by
  obtain ⟨ordered, read⟩ := protectVmas_spec vacant.ordered start stop newProt
  refine ⟨ordered, fun addr found => vacant.gap addr fun missing => found ?_⟩
  rw [read addr, missing]
  split
  · rfl
  · rfl

/-- A range in the gap meets no area. -/
theorem disjoint (vacant : Vacant vmas mmapNextVaddr) (range : start < stop)
    (lower : mmapNextVaddr ≤ start) (upper : stop ≤ stackBottom) {vma : Vma} (member : vma ∈ vmas) :
    vma.stop ≤ start ∨ stop ≤ vma.start := by
  by_contra meets
  have valid := vacant.ordered.nonempty vma member
  have found := vacant.ordered.lookup_mem member (Nat.le_max_left vma.start start) (by omega)
  rcases vacant.gap _ (found ▸ Option.some_ne_none _) with below | above
  · omega
  · omega

end Vacant

/-- The loader maps nothing between the first anonymous page and the stack. -/
def ClearOfMmap (elfBytes : List Byte) : Prop :=
  ∀ phdr ∈ ptLoads elfBytes, ∀ addr, Covers phdr addr → addr < defaultMmapBase ∨ stackBottom ≤ addr

section Loading

theorem allocAndMapRange_vmas (start size : Nat) (flags : PageFlags) :
    Ensures (fun before after => after.vmas = before.vmas ∨ after.vmas =
        insertVma before.vmas (alignDown start) (rangeEnd start size) (VmSpace.protOf flags) 0)
      (VmSpace.allocAndMapRange start size flags) fun _ => True := by
  intro state
  rw [VmSpace.allocAndMapRange]
  split
  · exact .inl rfl
  · rename_i alignedEnd found
    have last : alignedEnd = rangeEnd start size := by
      obtain ⟨sum, added, aligned⟩ := Option.bind_eq_some_iff.mp found
      rw [checkedAdd] at added
      split at added
      · cases added
        obtain ⟨wide, widened, rfl⟩ := Option.map_eq_some_iff.mp aligned
        rw [checkedAdd] at widened
        split at widened
        · cases widened
          rfl
        · cases widened
      · cases added
    subst last
    dsimp only
    split
    · exact .inl rfl
    · rw [Action.bind_apply, VmSpace.onMachine]
      cases VmSpace.mapPages state.root (alignDown start) flags
          ((rangeEnd start size - alignDown start) / pageSize) 0 state.machine with
      | mk result machine =>
        cases result with
        | error fault => exact .inl rfl
        | ok done => exact ⟨.inr rfl, trivial⟩

theorem writeBytesToSpace_vmas (virt : Nat) (data : List Byte) :
    Ensures (fun before after => after.vmas = before.vmas) (VmSpace.writeBytesToSpace virt data)
      fun _ => True := by
  intro state
  rw [VmSpace.writeBytesToSpace, VmSpace.onMachine]
  cases VmSpace.writeChunks state.root data.length virt data state.machine with
  | mk result machine =>
    cases result with
    | error fault => rfl
    | ok done => exact ⟨rfl, trivial⟩

/-- The gap between the first anonymous page and the stack stays. -/
def KeepsGap (before after : VmState) : Prop :=
  Vacant before.vmas defaultMmapBase → Vacant after.vmas defaultMmapBase

theorem keepsGap_refl (space : VmState) : KeepsGap space space := id

theorem keepsGap_trans (first second third : VmState) (early : KeepsGap first second)
    (late : KeepsGap second third) : KeepsGap first third := late ∘ early

theorem writeBytesToSpace_keepsGap (virt : Nat) (data : List Byte) :
    Ensures KeepsGap (VmSpace.writeBytesToSpace virt data) fun _ => True := by
  intro state
  refine (writeBytesToSpace_vmas virt data state).mono (fun _ _ same => ⟨?_, trivial⟩)
    fun _ _ same => ?_
  · exact fun vacant => same.1 ▸ vacant
  · exact fun vacant => same ▸ vacant

theorem allocAndMapRange_keepsGap {start size : Nat} (flags : PageFlags)
    (outside : ∀ addr, alignDown start ≤ addr → addr < rangeEnd start size →
      addr < defaultMmapBase ∨ stackBottom ≤ addr) :
    Ensures KeepsGap (VmSpace.allocAndMapRange start size flags) fun _ => True := by
  have keeps {before after : VmState} (vmas : after.vmas = before.vmas ∨ after.vmas =
      insertVma before.vmas (alignDown start) (rangeEnd start size) (VmSpace.protOf flags) 0) :
      KeepsGap before after := by
    intro vacant
    rcases vmas with same | inserted
    · exact same ▸ vacant
    · exact inserted ▸ vacant.insert (Nat.le_refl _) outside _ _
  intro state
  exact (allocAndMapRange_vmas start size flags state).mono
    (fun _ _ vmas => ⟨keeps vmas.1, trivial⟩) fun _ _ vmas => keeps vmas

theorem loadSegment_keepsGap {elfBytes : List Byte} {phdr : Elf64Phdr}
    (outside : ∀ addr, Covers phdr addr → addr < defaultMmapBase ∨ stackBottom ≤ addr)
    (phoff phdrVaddr : Nat) :
    Ensures KeepsGap (loadSegment elfBytes phoff phdrVaddr phdr) fun _ => True := by
  have mapped := allocAndMapRange_keepsGap (segmentFlags phdr) fun addr lower upper =>
    outside addr ⟨lower, by rwa [rangePages_end]⟩
  exact loadSegment_ensures keepsGap_refl keepsGap_trans mapped (writeBytesToSpace_keepsGap _ _)

/-- A loaded image that stays clear leaves the gap. -/
theorem loadElf_keepsGap {elfBytes : List Byte} (image : ClearOfMmap elfBytes)
    (argv envp : List (List Byte)) :
    Ensures KeepsGap (loadElf elfBytes argv envp) fun _ => True := by
  apply loadElf_ensures keepsGap_refl keepsGap_trans
  · exact fun phdr member => loadSegment_keepsGap (image phdr member)
  · apply allocAndMapRange_keepsGap
    exact fun addr lower _ => .inr lower
  · exact fun virt data _ _ => writeBytesToSpace_keepsGap virt data

end Loading

/-- The memory calls of a process, and whatever happens to memory elsewhere in between. -/
inductive MapCall where
  | mmap (addr length : Nat) (prot flags : BitVec 32)
  | munmap (addr length : Nat)
  | mprotect (addr length : Nat) (prot : BitVec 32)
  | elsewhere (machine : Machine)

/-- The task of a caller that has one. -/
def MemoryCaller.owner : MemoryCaller → Option Task
  | .task own => some own
  | _ => none

namespace Task

def step (task : Task) : MapCall → Option Task
  | .mmap addr length prot flags => (sysMmap addr length prot flags (.task task)).2.owner
  | .munmap addr length => (sysMunmap addr length (.task task)).2.owner
  | .mprotect addr length prot => (sysMprotect addr length prot (.task task)).2.owner
  | .elsewhere machine => some { task with space.machine := machine }

/-- Past its checks, a mapping at a given address stays out of the gap, and one from the bump
pointer on ends below the stack. -/
def StaysClear (task : Task) : MapCall → Prop
  | .mmap addr length _ _ => ∀ base, task.mmapRange addr length = some base →
      if addr = 0 then base + pagesFor length * pageSize ≤ stackBottom
      else base + pagesFor length * pageSize ≤ task.mmapNextVaddr ∨ stackBottom ≤ base
  | _ => True

end Task

/-- A mapping as the areas and the bump pointer show it. -/
structure Recorded (addr base count : Nat) (prot flags : BitVec 32) (before after : Task) :
    Prop where
  target : base = mmapBase addr before.mmapNextVaddr
  vmas : after.space.vmas = insertVma before.space.vmas base (base + count * pageSize) prot flags
  next : after.mmapNextVaddr =
    if addr = 0 then before.mmapNextVaddr + count * pageSize else before.mmapNextVaddr

section Calls

theorem mmapPages_enomem {State Frame : Type} (ops : MmapOps State Frame) (vaddr : Nat)
    (prot : BitVec 32) (remaining : Nat) : ∀ pagesMapped state,
    Yields (mmapPages ops vaddr prot remaining pagesMapped state) (fun _ _ => True)
      (fun errno _ => errno = enomem) := by
  induction remaining with
  | zero => exact fun _ _ => trivial
  | succ remaining ih =>
    intro pagesMapped state
    rw [mmapPages]
    split
    · rfl
    · split
      · rfl
      · split
        · rfl
        · exact ih _ _

theorem mmapAllocate_errno {State Frame : Type} (ops : MmapOps State Frame) (addr length : Nat)
    (prot : BitVec 32) (userSpaceEnd freeFrames mmapNextVaddr : Nat) (state : State) :
    Yields (mmapAllocate ops addr length prot userSpaceEnd freeFrames mmapNextVaddr state)
      (fun _ _ => True) (fun errno _ => 0 < errno) := by
  have positive : 0 < enomem := by decide
  rw [mmapAllocate]
  split
  · exact Int.lt_trans positive (by decide)
  · split
    · exact positive
    · split
      · exact positive
      · split
        · exact positive
        · split
          · exact positive
          · rename_i base next _
            have loop := mmapPages_enomem ops base prot (pagesFor length) 0 state
            split
            · exact trivial
            · rename_i failed
              exact loop.of_error failed ▸ positive

/-- What `sys_mmap` records, whatever the state of memory is. -/
theorem mmap_recorded (addr length : Nat) (prot flags : BitVec 32) (task : Task) :
    (∃ base, task.mmapRange addr length = some base ∧
      (task.mmap addr length prot flags).1 = base ∧
      Recorded addr base (pagesFor length) prot flags task (task.mmap addr length prot flags).2) ∨
    ((task.mmap addr length prot flags).1 < 0 ∧
      (task.mmap addr length prot flags).2.space.vmas = task.space.vmas ∧
      (task.mmap addr length prot flags).2.mmapNextVaddr = task.mmapNextVaddr) := by
  have errno := mmapAllocate_errno (kernelOps task.space.root) addr length prot userSpaceEnd
    task.space.machine.pmm.freeFrames task.mmapNextVaddr task.space.machine
  cases range : task.mmapRange addr length with
  | none =>
    obtain ⟨code, refused⟩ := mmapAllocate_refused (kernelOps task.space.root) prot range
      task.space.machine
    have positive := errno.of_error refused
    rw [Task.mmap, refused]
    exact .inr ⟨Int.neg_neg_of_pos positive, rfl, rfl⟩
  | some base =>
    obtain ⟨next, target, loop⟩ := mmapAllocate_loop (kernelOps task.space.root) prot range
      task.space.machine
    obtain ⟨place, word, _, moved⟩ := mmapTarget_base target
    have stop : (checkedMul (pagesFor length) pageSize).bind (checkedAdd base) =
        some (base + pagesFor length * pageSize) := by
      rw [checkedMul, if_pos (by omega), Option.bind_some, checkedAdd, if_pos word]
    rw [loop] at errno
    rw [Task.mmap, loop]
    revert errno
    cases mmapPages (kernelOps task.space.root) base prot (pagesFor length) 0
        task.space.machine with
    | mk result machine =>
      intro errno
      cases result with
      | ok done =>
        refine .inl ⟨base, rfl, rfl, place, ?_, moved⟩
        dsimp only
        rw [stop]
        rfl
      | error code => exact .inr ⟨Int.neg_neg_of_pos errno, rfl, rfl⟩

end Calls

section Steps

variable {task after : Task}

theorem Vacant.mmap (vacant : Vacant task.space.vmas task.mmapNextVaddr) {addr length : Nat}
    {prot flags : BitVec 32} (clear : task.StaysClear (.mmap addr length prot flags)) :
    Vacant (task.mmap addr length prot flags).2.space.vmas
      (task.mmap addr length prot flags).2.mmapNextVaddr := by
  rcases mmap_recorded addr length prot flags task with
    ⟨base, range, _, recorded⟩ | ⟨_, vmas, next⟩
  · have outside := clear base range
    have place := recorded.target
    rw [recorded.vmas, recorded.next]
    rw [mmapBase] at place
    by_cases anonymous : addr = 0
    · rw [if_pos anonymous] at place ⊢
      subst place
      exact vacant.insert (Nat.le_add_right _ _) (fun _ _ upper => .inl upper) _ _
    · rw [if_neg anonymous] at outside ⊢
      apply vacant.insert (Nat.le_refl _)
      intro page lower upper
      rcases outside with below | above
      · exact .inl (Nat.lt_of_lt_of_le upper below)
      · exact .inr (Nat.le_trans above lower)
  · rw [vmas, next]
    exact vacant

theorem Vacant.munmap (vacant : Vacant task.space.vmas task.mmapNextVaddr) (addr stop : Nat) :
    Vacant (task.munmap addr stop).space.vmas (task.munmap addr stop).mmapNextVaddr := by
  rw [Task.munmap, VmSpace.removeVmaRange]
  split
  · exact vacant
  · rename_i range
    split
    · exact vacant
    · exact vacant.remove (Nat.lt_of_not_le range)

theorem Vacant.mprotect (vacant : Vacant task.space.vmas task.mmapNextVaddr) (addr stop : Nat)
    (prot : BitVec 32) : Vacant (task.mprotect addr stop prot).2.space.vmas
      (task.mprotect addr stop prot).2.mmapNextVaddr := by
  rw [Task.mprotect, VmSpace.mprotectRange]
  split
  · exact vacant
  · split
    · rename_i failed
      split at failed
      · cases failed
        exact vacant
      · split at failed
        · cases failed
          exact vacant
        · cases failed
    · rename_i passed
      split at passed
      · cases passed
      · split at passed
        · cases passed
        · cases passed
          exact vacant.protect prot

theorem Vacant.step (vacant : Vacant task.space.vmas task.mmapNextVaddr) {call : MapCall}
    (clear : task.StaysClear call) (next : task.step call = some after) :
    Vacant after.space.vmas after.mmapNextVaddr := by
  cases call with
  | mmap addr length prot flags =>
    cases next
    exact vacant.mmap clear
  | munmap addr length =>
    rw [Task.step, sysMunmap] at next
    split at next
    · cases next
      exact vacant
    · split at next
      · cases next
        exact vacant
      · cases next
        exact vacant.munmap addr _
  | mprotect addr length prot =>
    rw [Task.step, sysMprotect] at next
    split at next
    · cases next
      exact vacant
    · split at next
      · cases next
        exact vacant
      · cases next
        exact vacant.mprotect addr _ prot
  | elsewhere machine =>
    cases next
    exact vacant

/-- The state `execve` leaves behind for the first call. -/
def execTask (space : VmState) (elfBytes : List Byte) (argv envp : List (List Byte)) : Task :=
  ⟨(loadElf elfBytes argv envp space).2, defaultMmapBase⟩

theorem execTask_vacant {activeRoot : Nat} {before created : Machine} {space : VmState}
    (fresh : VmSpace.new activeRoot before = (some space, created)) {elfBytes : List Byte}
    (image : ClearOfMmap elfBytes) (argv envp : List (List Byte)) :
    Vacant (execTask space elfBytes argv envp).space.vmas defaultMmapBase := by
  have empty : space.vmas = [] := by
    rw [VmSpace.new] at fresh
    split at fresh
    · cases fresh
    · obtain ⟨made, _⟩ := Prod.mk.inj fresh
      rw [← Option.some.inj made]
  have vacant : Vacant space.vmas defaultMmapBase := by
    rw [empty]
    exact ⟨Ordered.nil, fun _ found => absurd rfl found⟩
  exact (loadElf_keepsGap image argv envp).state space vacant

theorem Vacant.run {start : Task} (initial : Vacant start.space.vmas start.mmapNextVaddr)
    (run : Run Task.step Task.StaysClear start task) :
    Vacant task.space.vmas task.mmapNextVaddr := by
  induction run with
  | start => exact initial
  | step _ call meets next ih => exact ih.step meets next

end Steps

/-- While every mapping stays clear of the gap, one from the bump pointer on meets no area. -/
theorem anonymous_mmap_is_disjoint {activeRoot : Nat} {before created : Machine} {space : VmState}
    (fresh : VmSpace.new activeRoot before = (some space, created)) {elfBytes : List Byte}
    (image : ClearOfMmap elfBytes) {argv envp : List (List Byte)} {task after : Task}
    (run : Run Task.step Task.StaysClear (execTask space elfBytes argv envp) task)
    {length : Nat} {prot flags : BitVec 32} (clear : task.StaysClear (.mmap 0 length prot flags))
    {result : Int} (called : sysMmap 0 length prot flags (.task task) = (result, .task after))
    (success : 0 ≤ result) :
    ∃ base : Nat, result = base ∧ ∀ vma ∈ task.space.vmas,
      vma.stop ≤ base ∨ base + pagesFor length * pageSize ≤ vma.start := by
  have vacant := (execTask_vacant fresh image argv envp).run run
  obtain ⟨rfl, _⟩ := Prod.mk.inj called
  rcases mmap_recorded 0 length prot flags task with ⟨base, range, returned, recorded⟩ | ⟨failed, _⟩
  · have upper := clear base range
    rw [if_pos rfl] at upper
    have place := recorded.target
    rw [mmapBase, if_pos rfl] at place
    refine ⟨base, returned, fun vma member => ?_⟩
    have positive : 0 < pagesFor length * pageSize := by
      have nonzero : length ≠ 0 := fun zero => by simp [Task.mmapRange, zero] at range
      simp only [pagesFor, pageSize]
      omega
    exact vacant.disjoint (by omega) (Nat.le_of_eq place.symm) upper member
  · exact absurd success (Int.not_le.mpr failed)

/-- A process that has just been given its image. -/
def loadedTask : Task := execTask (sharedSpace 64) tidyElf [] []

private theorem tidyElf_clear : ClearOfMmap tidyElf := by
  have loads : ptLoads tidyElf =
      [⟨ptLoad, 5, 176, 0x400000, 3, 5⟩, ⟨ptLoad, 6, 179, 0x401000, 1, 4⟩] := by decide +kernel
  have below : ∀ phdr ∈ ptLoads tidyElf,
      alignDown phdr.vaddr + rangePages phdr.vaddr phdr.memsz * pageSize ≤ defaultMmapBase := by
    rw [loads]
    decide
  intro phdr member addr covered
  exact .inl (Nat.lt_of_lt_of_le covered.2 (below phdr member))

theorem anonymous_mmap_is_disjoint_loaded :
    (sysMmap 0 8192 3 0x22 (.task loadedTask)).1 = 0x60000000 ∧
      ∃ base : Nat, (0x60000000 : Int) = base ∧ ∀ vma ∈ loadedTask.space.vmas,
        vma.stop ≤ base ∨ base + pagesFor 8192 * pageSize ≤ vma.start := by
  obtain ⟨returned, range⟩ : (sysMmap 0 8192 3 0x22 (.task loadedTask)).1 = 0x60000000 ∧
      loadedTask.mmapRange 0 8192 = some defaultMmapBase := by decide +kernel
  have clear : loadedTask.StaysClear (.mmap 0 8192 3 0x22) := by
    intro base found
    obtain rfl := Option.some.inj (range.symm.trans found)
    decide
  have called : sysMmap 0 8192 3 0x22 (.task loadedTask) =
      (0x60000000, .task (loadedTask.mmap 0 8192 3 0x22).2) := by
    apply Prod.ext returned
    rw [sysMmap]
  exact ⟨returned, anonymous_mmap_is_disjoint (new_sharedSpace rfl) tidyElf_clear .start clear
    called (by decide)⟩

/-- A page mapped where the bump pointer stands is handed out again. -/
theorem anonymous_mmap_lands_on_fixed :
    VmSpace.new 0x1000 ⟨bootMemory, bootPmm 64⟩ =
        (some (sharedSpace 64), (sharedSpace 64).machine) ∧
      (loadElf tidyElf [] [] (sharedSpace 64)).1 = .ok ⟨0, 0x7FFFFFFEFF80⟩ ∧
      ∃ fixed, loadedTask.step (.mmap 0x60000000 4096 3 0x22) = some fixed ∧
        (sysMmap 0 4096 3 0x22 (.task fixed)).1 = 0x60000000 ∧
        ∃ vma ∈ fixed.space.vmas,
          ¬ (vma.stop ≤ 0x60000000 ∨ 0x60000000 + pagesFor 4096 * pageSize ≤ vma.start) := by
  obtain ⟨ok, again, member⟩ :
      (loadElf tidyElf [] [] (sharedSpace 64)).1 = .ok ⟨0, 0x7FFFFFFEFF80⟩ ∧
      (sysMmap 0 4096 3 0x22 (.task (loadedTask.mmap 0x60000000 4096 3 0x22).2)).1 = 0x60000000 ∧
      (⟨0x60000000, 0x60001000, ⟨3, 0x22⟩⟩ : Vma) ∈
        (loadedTask.mmap 0x60000000 4096 3 0x22).2.space.vmas := by decide +kernel
  exact ⟨new_sharedSpace rfl, ok, _, rfl, again, _, member, by decide⟩

end RustPosix.Posix
