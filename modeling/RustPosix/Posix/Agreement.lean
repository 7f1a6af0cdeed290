import RustPosix.Posix.FrameBalance
import RustPosix.Process.ElfAgrees

/-! The areas of a process and its page table over runs of its memory calls. -/

namespace RustPosix.Posix

open Library Mm Process

/-- What the areas and the page table of an address space say about the same pages. -/
structure Agreement (space : VmState) : Prop where
  present : ∀ addr < userSpaceEnd, leafAt space.machine.mem space.root addr ≠ none ↔
    ∃ vma ∈ space.vmas, vma.start ≤ addr ∧ addr < vma.stop
  bits : ∀ addr < userSpaceEnd, ∀ vma ∈ space.vmas, vma.start ≤ addr → addr < vma.stop →
    ∀ entry, leafAt space.machine.mem space.root addr = some entry →
      (entry &&& pageWritable != 0) = (vma.attr.prot &&& protWrite != 0) ∧
        (entry &&& pageNx != 0) = (vma.attr.prot &&& protExec == 0)
  rejected : ∀ addr < userSpaceEnd, ∀ vma ∈ space.vmas, vma.start ≤ addr → addr < vma.stop →
    vma.attr.prot = protNone → ∀ needWrite,
      ∃ fault, validateUserPage space.machine.mem space.root addr needWrite = .error fault

theorem agreement_of_agrees {space : VmState} (agrees : Agrees space) : Agreement space := by
  have shows : ∀ addr < userSpaceEnd, ∀ vma ∈ space.vmas, vma.start ≤ addr → addr < vma.stop →
      Shows (leafAt space.machine.mem space.root addr) (some vma.attr) := by
    intro addr user vma member lower upper
    rw [← agrees.ordered.lookup_mem member lower upper]
    exact agrees.pages addr user
  refine ⟨fun addr user => ⟨fun present => ?_, ?_⟩, ?_, ?_⟩
  · refine Classical.byContradiction fun uncovered => present ?_
    have absent : lookup space.vmas addr = none :=
      lookup_eq_none_iff.mpr fun vma member inside => uncovered ⟨vma, member, inside⟩
    have page := agrees.pages addr user
    rw [absent] at page
    exact page
  · rintro ⟨vma, member, lower, upper⟩
    obtain ⟨_, phys, _, leaf⟩ := shows addr user vma member lower upper
    rw [leaf]
    exact Option.some_ne_none _
  · intro addr user vma member lower upper entry found
    obtain ⟨_, phys, frame, leaf⟩ := shows addr user vma member lower upper
    obtain rfl := Option.some.inj (found.symm.trans leaf)
    exact frame.leafEntry_bits _
  · intro addr user vma member lower upper none
    exact absurd none (shows addr user vma member lower upper).1

/-- The call keeps the two descriptions together: a mapping for which there are frames
asks for some access and finds no area straddling its end, one for which there are not
targets pages that are not mapped, and `PROT_NONE` is refused. -/
def KeepsAgreement (world : World) : MemCall → Prop
  | .mmap addr length prot flags => ∀ base, world.task.mmapRange addr length = some base →
    (framesNeeded world.machine.mem world.root base (pagesFor length) ≤
        world.machine.pmm.freeFrames →
      prot ≠ protNone ∧ ¬ Straddled world.task.space.vmas base (base + pagesFor length * pageSize)
        ⟨prot, flags⟩) ∧
    (world.machine.pmm.freeFrames <
        framesNeeded world.machine.mem world.root base (pagesFor length) →
      Unused world.machine.mem world.root base (pagesFor length))
  | .mprotect addr length prot => prot = protNone →
    containsRange world.task.space.vmas addr (addr + pagesFor length * pageSize) = false
  | .allocAndMapRange .. => False
  | _ => True

/-- The invariant of the runs. -/
structure Coherent (world : World) : Prop where
  sound : Sound world
  agrees : Agrees world.task.space

section Steps

variable {world after : World}

theorem TaskStep.agrees {label : MemCall} {task last : Task} {held : List Nat}
    (step : TaskStep task label last) (next : task.mmapNextVaddr % pageSize = 0)
    (keeps : KeepsAgreement ⟨task, held⟩ label) (agrees : Agrees task.space) :
    Agrees last.space := by
  cases step with
  | idle => exact agrees
  | mapped range done =>
    obtain ⟨_, _, user⟩ := mmapRange_bounds next range
    obtain ⟨access, clean⟩ := (keeps _ range).1 (framesNeeded_le done.filled user)
    exact agrees.filled done.root done.filled done.vmas user access fun _ => clean
  | takenBack range done =>
    have unused := (keeps _ range).2 done.short
    obtain ⟨reached, few, back⟩ := done.pages
    refine agrees.same done.vmas fun addr user => ?_
    rw [done.root, back.leaves addr user]
    split
    · exact (unused.mono few addr user (by assumption)).symm
    · rfl
  | gone _ positive _ done =>
    refine agrees.cleared done.root done.cleared done.vmas ?_
    simp only [pageSize]
    omega
  | reprotected _ covered _ done =>
    refine agrees.reprotected done.root done.pages done.vmas fun none => ?_
    rw [keeps none] at covered
    cases covered
  | granted => exact keeps.elim
  | refused => exact keeps.elim

theorem StepResult.agrees {label : MemCall} (result : StepResult world label after)
    (sound : Sound world) (keeps : KeepsAgreement world label)
    (agrees : Agrees world.task.space) : Agrees after.task.space := by
  cases result with
  | own done => exact done.agrees sound.next keeps agrees
  | took => exact agrees.same rfl fun _ _ => rfl
  | gave => exact agrees.same rfl fun _ _ => rfl

end Steps

/-- From a freshly loaded page-aligned image on, through any memory calls that keep the
two descriptions together and any taking and freeing of frames by others, the areas and
the page table agree. -/
theorem vmas_agree_with_pages {elfBytes : List Byte} {argv envp : List (List Byte)}
    {activeRoot next : Nat} {before created : Machine} {space : VmState} {loaded : LoadedElf}
    {held : List Nat} {world : World} (boot : before.pmm.Boot)
    (bounded : before.pmm.totalFrames ≤ 2 ^ 40) (others : HeldByOthers before.pmm held)
    (aligned : next % pageSize = 0)
    (fresh : VmSpace.new activeRoot before = (some space, created))
    (image : PageAligned elfBytes) (ok : (loadElf elfBytes argv envp space).1 = .ok loaded)
    (run : Run World.step KeepsAgreement ⟨⟨(loadElf elfBytes argv envp space).2, next⟩, held⟩ world) :
    Agreement world.task.space := by
  have start := (Balance.start boot bounded others aligned fresh).sound
  have settled : Settled space (loadElf elfBytes argv envp space).2 :=
    (loadElf_settled (new_spec boot bounded fresh).2 image argv envp).of_ok (Prod.ext ok rfl)
  have sound : Sound ⟨⟨(loadElf elfBytes argv envp space).2, next⟩, held⟩ := by
    refine ⟨settled.change.tree, aligned, ?_⟩
    change Foreign (loadElf elfBytes argv envp space).2.machine
      (loadElf elfBytes argv envp space).2.root held
    rw [settled.change.root]
    exact start.foreign.change settled.change.change
  have kept : Coherent world := by
    refine run.invariant ⟨sound, settled.agrees⟩ fun world label last coherent keeps next => ?_
    have result := step_cases coherent.sound (by cases label <;> trivial) next
    exact ⟨result.sound coherent.sound, result.agrees coherent.sound keeps coherent.agrees⟩
  exact agreement_of_agrees kept.agrees

/-- A process that has been given the image, over 64 frames. -/
def loadedWorld : World := ⟨⟨(loadElf tidyElf [] [] (sharedSpace 64)).2, defaultMmapBase⟩, []⟩

/-- Two pages mapped for it by the bump pointer. -/
def grownWorld : World := { loadedWorld with task := (loadedWorld.task.mmap 0 8192 1 0x22).2 }

theorem tidyElf_pageAligned : PageAligned tidyElf := by
  refine ⟨tidyElf_fits, tidyElf_apart, ?_⟩
  decide +kernel

private theorem loadedWorld_keeps : KeepsAgreement loadedWorld (.mmap 0 8192 1 0x22) := by
  obtain ⟨range, clean, needed, free⟩ : loadedWorld.task.mmapRange 0 8192 = some defaultMmapBase ∧
      ¬ Straddled loadedWorld.task.space.vmas defaultMmapBase
        (defaultMmapBase + pagesFor 8192 * pageSize) ⟨1, 0x22⟩ ∧
      framesNeeded loadedWorld.machine.mem loadedWorld.root defaultMmapBase (pagesFor 8192) = 4 ∧
      loadedWorld.machine.pmm.freeFrames = 20 := by decide +kernel
  intro base found
  obtain rfl := Option.some.inj (range.symm.trans found)
  refine ⟨fun _ => ⟨by decide, clean⟩, fun short => ?_⟩
  rw [needed, free] at short
  exact absurd short (by decide)

theorem vmas_agree_with_pages_mmap :
    grownWorld.task.space.vmas = [⟨0x400000, 0x401000, ⟨5, 0⟩⟩, ⟨0x401000, 0x402000, ⟨3, 0⟩⟩,
        ⟨0x60000000, 0x60002000, ⟨1, 0x22⟩⟩, ⟨0x7FFFFFFD0000, 0x7FFFFFFF0000, ⟨3, 0⟩⟩] ∧
      Agreement grownWorld.task.space := by
  have boot : (bootPmm 64).Boot := ⟨by decide, by decide, by decide⟩
  obtain ⟨ok, vmas⟩ : (loadElf tidyElf [] [] (sharedSpace 64)).1 = .ok ⟨0, 0x7FFFFFFEFF80⟩ ∧
      grownWorld.task.space.vmas = [⟨0x400000, 0x401000, ⟨5, 0⟩⟩, ⟨0x401000, 0x402000, ⟨3, 0⟩⟩,
        ⟨0x60000000, 0x60002000, ⟨1, 0x22⟩⟩, ⟨0x7FFFFFFD0000, 0x7FFFFFFF0000, ⟨3, 0⟩⟩] := by
    decide +kernel
  exact ⟨vmas, vmas_agree_with_pages boot (by decide) ⟨List.nodup_nil, by simp⟩
    (by decide) (new_sharedSpace rfl) tidyElf_pageAligned ok
    (Run.start.step (.mmap 0 8192 1 0x22) loadedWorld_keeps rfl)⟩

/-- One page mapped for it with no access. -/
def sealedWorld : World :=
  { loadedWorld with task := (loadedWorld.task.mmap 0 4096 protNone 0x22).2 }

/-- The page of an area with `PROT_NONE` can be read. -/
theorem mmap_none_is_readable :
    VmSpace.new 0x1000 ⟨bootMemory, bootPmm 64⟩ =
        (some (sharedSpace 64), (sharedSpace 64).machine) ∧
      PageAligned tidyElf ∧
      (loadElf tidyElf [] [] (sharedSpace 64)).1 = .ok ⟨0, 0x7FFFFFFEFF80⟩ ∧
      loadedWorld.step (.mmap 0 4096 protNone 0x22) = some sealedWorld ∧
      (⟨0x60000000, 0x60001000, ⟨protNone, 0x22⟩⟩ : Vma) ∈ sealedWorld.task.space.vmas ∧
      validateUserPage sealedWorld.machine.mem sealedWorld.root 0x60000000 false = .ok () ∧
      ¬ Agreement sealedWorld.task.space := by
  obtain ⟨ok, member, readable⟩ :
      (loadElf tidyElf [] [] (sharedSpace 64)).1 = .ok ⟨0, 0x7FFFFFFEFF80⟩ ∧
      (⟨0x60000000, 0x60001000, ⟨protNone, 0x22⟩⟩ : Vma) ∈ sealedWorld.task.space.vmas ∧
      validateUserPage sealedWorld.machine.mem sealedWorld.root 0x60000000 false = .ok () := by
    decide +kernel
  refine ⟨new_sharedSpace rfl, tidyElf_pageAligned, ok, rfl, member, readable, fun agreement => ?_⟩
  generalize sealedWorld = world at member readable agreement
  obtain ⟨fault, rejected⟩ := agreement.rejected 0x60000000 (by decide) _ member (Nat.le_refl _)
    (by dsimp only; omega) rfl false
  exact nomatch readable.symm.trans rejected

end RustPosix.Posix
