import RustPosix.Mm.SpaceDrop
import RustPosix.Posix.MemRun
import RustPosix.Process.ElfConfined

/-! Where the frames of an address space are, over its whole life. -/

namespace RustPosix.Posix

open Library Mm Process

/-- The call maps pages of user space only, and none that is mapped already. -/
def TargetsUnused (world : World) : MemCall → Prop
  | .mmap addr length _ _ => ∀ base, world.task.mmapRange addr length = some base →
    Unused world.machine.mem world.root base (pagesFor length)
  | .allocAndMapRange start size _ => start + size ≤ userSpaceEnd ∧
    Unused world.machine.mem world.root (alignDown start) (rangePages start size)
  | _ => True

/-- Every frame that was free, or was held by others, before the address space was
created is in one place: free, held by others, or at one path of the tree, which is a
table or the one page that shows it. Dropping the address space frees what is its own. -/
structure Conserved (initial : PhysicalMemoryManager) (heldBefore : List Nat) (world : World) :
    Prop where
  placed : ∀ frame, initial.testBit frame = false ∨ frame ∈ heldBefore →
    world.machine.pmm.testBit frame = false ∨ frame ∈ world.held ∨
      ∃! path, UserPath path ∧ view world.machine.mem world.root path = some (frame * pageSize)
  dropped : ∀ frame, (VmSpace.drop world.task.space).pmm.testBit frame = false ↔
    (initial.testBit frame = false ∨ frame ∈ heldBefore) ∧ frame ∉ world.held

/-- The frames that are free, in the tree or held by others are the same throughout. -/
structure Balance (initial : PhysicalMemoryManager) (heldBefore : List Nat) (world : World) :
    Prop where
  sound : Sound world
  frames : ∀ frame, (Charged world.machine world.root frame ∨ frame ∈ world.held) ↔
    initial.testBit frame = false ∨ frame ∈ heldBefore

section Balance

variable {initial : PhysicalMemoryManager} {heldBefore : List Nat} {world after : World}

theorem TaskStep.balanced {label : MemCall} {task last : Task} {held : List Nat}
    (step : TaskStep task label last) (unused : TargetsUnused ⟨task, held⟩ label) :
    Balanced task.space.root task.space.machine last.space.machine := by
  cases step with
  | idle => exact fun _ charged => charged
  | mapped range done => exact done.filled.account (unused _ range)
  | takenBack range done =>
    obtain ⟨reached, few, back⟩ := done.pages
    exact back.account ((unused _ range).mono few)
  | gone _ _ _ done => exact done.cleared.balanced
  | reprotected _ _ _ done => exact done.pages.balanced
  | granted done => exact done.filled.account unused.2
  | refused done =>
    obtain ⟨reached, few, back⟩ := done.machine
    exact back.account (unused.2.mono few)

theorem Balance.step {label : MemCall} (balance : Balance initial heldBefore world)
    (unused : TargetsUnused world label) (result : StepResult world label after) :
    Balance initial heldBefore after := by
  have sound := balance.sound
  refine ⟨result.sound sound, fun frame => (Iff.trans ?_ (balance.frames frame))⟩
  cases result with
  | @own _ task done =>
    obtain ⟨change, _⟩ := done.change sound.tree sound.next
    refine or_congr ?_ Iff.rfl
    change Charged task.space.machine task.space.root frame ↔ _
    rw [change.root]
    exact ⟨change.change.charged frame, done.balanced unused frame⟩
  | @took taken positive clear =>
    change ((world.machine.pmm.takeFrame taken).testBit frame = false ∨
      Owned world.machine world.root frame) ∨ frame ∈ taken :: world.held ↔ _
    rw [PhysicalMemoryManager.testBit_takeFrame clear, List.mem_cons, Charged]
    by_cases same : taken = frame
    · subst same
      simp [clear]
    · simp [same, Ne.symm same]
  | @gave freed member =>
    have inside := (sound.foreign.managed freed member).2
    change ((world.machine.pmm.freeFrame (freed * pageSize)).testBit frame = false ∨
      Owned world.machine world.root frame) ∨ frame ∈ world.held.erase freed ↔ _
    rw [testBit_freeFrame_iff, mul_pageSize_div, sound.foreign.distinct.mem_erase_iff, Charged]
    by_cases same : freed = frame
    · subst same
      simp [inside, member]
    · simp [same, Ne.symm same]

theorem Balance.conserved (balance : Balance initial heldBefore world) :
    Conserved initial heldBefore world := by
  have sound := balance.sound
  refine ⟨fun frame known => ?_, fun frame => ?_⟩
  · rcases (balance.frames frame).mpr known with (clear | ⟨path, valid, found⟩) | held
    · exact .inl clear
    · exact .inr (.inr ⟨path, ⟨valid, found⟩, fun other both =>
        sound.tree.unique both.1 valid both.2 found⟩)
    · exact .inr (.inl held)
  · rw [drop_spec sound.tree, ← balance.frames frame]
    constructor
    · exact fun charged => ⟨.inl charged, fun held => sound.foreign.apart frame held charged⟩
    · exact fun both => both.1.resolve_right both.2

end Balance

/-- What others hold before an address space is created. -/
structure HeldByOthers (pmm : PhysicalMemoryManager) (held : List Nat) : Prop where
  distinct : held.Nodup
  used : ∀ frame ∈ held, 1 ≤ frame ∧ frame < pmm.totalFrames ∧ pmm.testBit frame = true

/-- A new address space has taken one free frame. -/
theorem Balance.start {activeRoot next : Nat} {before after : Machine} {space : VmState}
    {held : List Nat} (boot : before.pmm.Boot) (bounded : before.pmm.totalFrames ≤ 2 ^ 40)
    (others : HeldByOthers before.pmm held) (aligned : next % pageSize = 0)
    (created : VmSpace.new activeRoot before = (some space, after)) :
    Balance before.pmm held ⟨⟨space, next⟩, held⟩ := by
  obtain ⟨_, fresh⟩ := new_spec boot bounded created
  have charged := fresh.charged_iff
  refine ⟨⟨fresh.tree, aligned, others.distinct, ?_, ?_⟩, fun frame => or_congr (charged frame) Iff.rfl⟩
  · intro frame member
    obtain ⟨positive, inside, _⟩ := others.used frame member
    refine ⟨positive, ?_⟩
    change frame < space.machine.pmm.totalFrames
    rw [fresh.pmm, PhysicalMemoryManager.takeFrame_totalFrames]
    exact inside
  · intro frame member held
    have used := (others.used frame member).2.2
    rw [(charged frame).mp held] at used
    exact nomatch used

/-- From its creation on, through any calls that target pages not mapped yet and any
taking and freeing of frames by others, the frames of an address space are accounted for. -/
theorem frames_conserved {activeRoot next : Nat} {before after : Machine} {space : VmState}
    {held : List Nat} {world : World} (boot : before.pmm.Boot)
    (bounded : before.pmm.totalFrames ≤ 2 ^ 40) (others : HeldByOthers before.pmm held)
    (aligned : next % pageSize = 0)
    (created : VmSpace.new activeRoot before = (some space, after))
    (run : Run World.step TargetsUnused ⟨⟨space, next⟩, held⟩ world) :
    Conserved before.pmm held world := by
  refine Balance.conserved (run.invariant (Balance.start boot bounded others aligned created) ?_)
  intro world label last balance unused next
  refine balance.step unused (step_cases balance.sound ?_ next)
  cases label with
  | allocAndMapRange => exact unused.1
  | _ => trivial

/-- A fresh address space over sixteen frames. -/
def freshWorld : World := ⟨⟨sharedSpace 16, defaultMmapBase⟩, []⟩

/-- The world after one page has been mapped at `0x400000`. -/
def mappedWorld : World :=
  { freshWorld with task := (freshWorld.task.mmap 0x400000 1 3 0x22).2 }

theorem frames_conserved_mmap :
    mappedWorld.task.space.vmas = [⟨0x400000, 0x401000, ⟨3, 0x22⟩⟩] ∧
      Conserved (bootPmm 16) [] mappedWorld := by
  have boot : (bootPmm 16).Boot := ⟨by decide, by decide, by decide⟩
  have fresh := (sharedSpace_fresh rfl boot (by decide)).1
  refine ⟨by decide +kernel, frames_conserved boot (by decide) ⟨List.nodup_nil, by simp⟩ (by decide)
    (new_sharedSpace rfl) (Run.start.step (.mmap 0x400000 1 3 0x22) ?_ rfl)⟩
  exact fun _ _ addr user _ => fresh.empty addr user

/-- No run of the memory calls of a task, whether they succeed or fail, shows in the half of
the page tables that it shares with the kernel. -/
theorem memory_calls_are_confined {start world : World} (sound : Sound start)
    (kernel : KernelHalf start.machine start.root)
    (run : Run World.step (fun _ label => label.InUserSpace ∧ label ≠ .otherTakes ∧
      ∀ frame, label ≠ .otherFrees frame) start world) :
    Confined start.task.space world.task.space := by
  suffices kept : Sound world ∧ SpaceChange start.task.space world.task.space from
    confined_of_spaceChange kept.2 sound.tree kernel
  induction run with
  | start => exact ⟨sound, SpaceChange.refl sound.tree⟩
  | step _ label own next kept =>
    have result := step_cases kept.1 own.1 next
    refine ⟨result.sound kept.1, ?_⟩
    cases result with
    | own done => exact kept.2.trans (done.change kept.1.tree kept.1.next).1
    | took => exact absurd rfl own.2.1
    | gave => exact absurd rfl (own.2.2 _)

theorem memory_calls_are_confined_mmap :
    Confined freshWorld.task.space mappedWorld.task.space := by
  have boot : (bootPmm 16).Boot := ⟨by decide, by decide, by decide⟩
  have fresh := sharedSpace_fresh rfl boot (by decide)
  have sound : Sound freshWorld := ⟨fresh.1.tree, by decide, List.nodup_nil, by simp [freshWorld],
    by simp [freshWorld]⟩
  exact memory_calls_are_confined sound fresh.2
    (Run.start.step (.mmap 0x400000 1 3 0x22) (by simp [MemCall.InUserSpace]) rfl)

/-- Mapping the page again takes a second frame, and the first, frame 4, is lost: it was
free before and stays in use when the address space is dropped. -/
theorem mmap_again_leaks :
    VmSpace.new 0x1000 ⟨bootMemory, bootPmm 16⟩ =
        (some freshWorld.task.space, freshWorld.machine) ∧
      (bootPmm 16).testBit 4 = false ∧
      freshWorld.step (.mmap 0x400000 1 3 0x22) = some mappedWorld ∧
      ∃ world, mappedWorld.step (.mmap 0x400000 1 3 0x22) = some world ∧
        world.held = [] ∧ (VmSpace.drop world.task.space).pmm.testBit 4 = true := by
  refine ⟨new_sharedSpace rfl, by decide, rfl,
    { mappedWorld with task := (mappedWorld.task.mmap 0x400000 1 3 0x22).2 }, rfl, rfl, ?_⟩
  decide +kernel

end RustPosix.Posix
