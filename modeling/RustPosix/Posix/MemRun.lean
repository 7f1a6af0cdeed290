import RustPosix.Mm.SpaceNew
import RustPosix.Posix.MemSteps

/-! Runs of one address space: its memory calls, the mappings of the loader, and
other parts of the kernel taking and freeing frames in between. -/

namespace RustPosix.Posix

open Library Mm

inductive MemCall where
  | mmap (addr length : Nat) (prot flags : BitVec 32)
  | munmap (addr length : Nat)
  | mprotect (addr length : Nat) (prot : BitVec 32)
  | allocAndMapRange (startVirt size : Nat) (flags : PageFlags)
  | otherTakes
  | otherFrees (frame : Nat)

/-- A task and the frames that others hold. -/
structure World where
  task : Task
  held : List Nat

namespace World

def machine (world : World) : Machine := world.task.space.machine

def root (world : World) : Nat := world.task.space.root

def setPmm (world : World) (pmm : PhysicalMemoryManager) : World :=
  { world with task.space.machine.pmm := pmm }

/-- A call of the task. -/
def afterCall (world : World) (call : MemoryCaller → Int × MemoryCaller) : Option World :=
  match (call (.task world.task)).2 with
  | .task task => some { world with task }
  | _ => none

/-- Others only free frames that they hold. -/
def step (world : World) : MemCall → Option World
  | .mmap addr length prot flags => world.afterCall (sysMmap addr length prot flags)
  | .munmap addr length => world.afterCall (sysMunmap addr length)
  | .mprotect addr length prot => world.afterCall (sysMprotect addr length prot)
  | .allocAndMapRange startVirt size flags =>
    some { world with
      task.space := (VmSpace.allocAndMapRange startVirt size flags world.task.space).2 }
  | .otherTakes =>
    match world.machine.pmm.allocFrame with
    | (none, pmm) => some (world.setPmm pmm)
    | (some addr, pmm) => some { world.setPmm pmm with held := addr / pageSize :: world.held }
  | .otherFrees frame =>
    if frame ∈ world.held then
      some { world.setPmm (world.machine.pmm.freeFrame (frame * pageSize)) with
        held := world.held.erase frame }
    else none

end World

/-- What the frames of others are: in use, and no part of the address space. -/
structure Foreign (machine : Machine) (root : Nat) (held : List Nat) : Prop where
  distinct : held.Nodup
  managed : ∀ frame ∈ held, 1 ≤ frame ∧ frame < machine.pmm.totalFrames
  apart : ∀ frame ∈ held, ¬ Charged machine root frame

/-- The invariant that every step relies on. -/
structure Sound (world : World) : Prop where
  tree : PageTree world.machine world.root
  next : world.task.mmapNextVaddr % pageSize = 0
  foreign : Foreign world.machine world.root world.held

/-- Everything a call can do to the task. -/
inductive TaskStep (before : Task) : MemCall → Task → Prop
  | idle (label : MemCall) : TaskStep before label before
  | mapped {addr length base : Nat} {prot flags : BitVec 32} {after : Task}
    (range : before.mmapRange addr length = some base)
    (done : Mapped base (pagesFor length) prot flags before after) :
    TaskStep before (.mmap addr length prot flags) after
  | takenBack {addr length base : Nat} {prot flags : BitVec 32} {after : Task}
    (range : before.mmapRange addr length = some base)
    (done : TakenBack base (pagesFor length) before after) :
    TaskStep before (.mmap addr length prot flags) after
  | gone {addr length : Nat} {after : Task} (aligned : addr % pageSize = 0)
    (positive : 0 < pagesFor length) (user : addr + pagesFor length * pageSize ≤ userSpaceEnd)
    (done : Gone addr (pagesFor length) before after) :
    TaskStep before (.munmap addr length) after
  | reprotected {addr length : Nat} {prot : BitVec 32} {after : Task}
    (aligned : addr % pageSize = 0)
    (covered : containsRange before.space.vmas addr (addr + pagesFor length * pageSize) = true)
    (user : addr + pagesFor length * pageSize ≤ userSpaceEnd)
    (done : Protected addr (pagesFor length) prot before after) :
    TaskStep before (.mprotect addr length prot) after
  | granted {start size : Nat} {flags : PageFlags} {space : VmState}
    (done : Granted start size flags before.space space) :
    TaskStep before (.allocAndMapRange start size flags) { before with space }
  | refused {start size : Nat} {flags : PageFlags} {space : VmState}
    (done : Refused start size before.space space) :
    TaskStep before (.allocAndMapRange start size flags) { before with space }

/-- Everything a step can do. -/
inductive StepResult (world : World) : MemCall → World → Prop
  | own {label : MemCall} {task : Task} (done : TaskStep world.task label task) :
    StepResult world label { world with task }
  | took {frame : Nat} (positive : 1 ≤ frame) (clear : world.machine.pmm.testBit frame = false) :
    StepResult world .otherTakes
      { world.setPmm (world.machine.pmm.takeFrame frame) with held := frame :: world.held }
  | gave {frame : Nat} (member : frame ∈ world.held) :
    StepResult world (.otherFrees frame)
      { world.setPmm (world.machine.pmm.freeFrame (frame * pageSize)) with
        held := world.held.erase frame }

section Steps

variable {world after : World}

theorem mmap_cases (sound : Sound world) {addr length : Nat} {prot flags : BitVec 32}
    (next : world.step (.mmap addr length prot flags) = some after) :
    StepResult world (.mmap addr length prot flags) after := by
  have result := mmap_result sound.tree sound.next addr length prot flags
  change some { world with task := (world.task.mmap addr length prot flags).2 } = some after at next
  obtain rfl := Option.some.inj next
  generalize (world.task.mmap addr length prot flags).2 = task at result
  cases result with
  | refused range => exact .own (.idle _)
  | mapped range done => exact .own (.mapped range done)
  | takenBack range done => exact .own (.takenBack range done)

/-- A call with a range of pages is refused with no effect, or takes effect on a range of
user space. -/
theorem munmap_cases (sound : Sound world) {addr length : Nat}
    (next : world.step (.munmap addr length) = some after) :
    StepResult world (.munmap addr length) after := by
  rw [World.step, World.afterCall, sysMunmap] at next
  by_cases bad : addr % pageSize ≠ 0 ∨ length = 0
  · rw [if_pos bad] at next
    obtain rfl := Option.some.inj next
    exact .own (.idle _)
  · rw [if_neg bad] at next
    cases range : userRangeEnd addr length with
    | none =>
      rw [range] at next
      obtain rfl := Option.some.inj next
      exact .own (.idle _)
    | some stop =>
      rw [range] at next
      obtain rfl := Option.some.inj next
      obtain ⟨rfl, positive, user⟩ := userRangeEnd_some range (by omega)
      have aligned : addr % pageSize = 0 := by omega
      exact .own (.gone aligned positive user (munmap_result sound.tree aligned positive user))

theorem mprotect_cases (sound : Sound world) {addr length : Nat} {prot : BitVec 32}
    (next : world.step (.mprotect addr length prot) = some after) :
    StepResult world (.mprotect addr length prot) after := by
  rw [World.step, World.afterCall, sysMprotect] at next
  by_cases bad : addr % pageSize ≠ 0 ∨ length = 0
  · rw [if_pos bad] at next
    obtain rfl := Option.some.inj next
    exact .own (.idle _)
  · rw [if_neg bad] at next
    cases range : userRangeEnd addr length with
    | none =>
      rw [range] at next
      obtain rfl := Option.some.inj next
      exact .own (.idle _)
    | some stop =>
      rw [range] at next
      obtain rfl := Option.some.inj next
      obtain ⟨rfl, positive, user⟩ := userRangeEnd_some range (by omega)
      have aligned : addr % pageSize = 0 := by omega
      rcases mprotect_result sound.tree aligned positive user prot with same | ⟨covered, done⟩
      · rw [same]
        exact .own (.idle _)
      · exact .own (.reprotected aligned covered user done)

theorem allocAndMapRange_cases (sound : Sound world) {start size : Nat} {flags : PageFlags}
    (user : start + size ≤ userSpaceEnd)
    (next : world.step (.allocAndMapRange start size flags) = some after) :
    StepResult world (.allocAndMapRange start size flags) after := by
  have result := allocAndMapRange_spec sound.tree user flags
  obtain rfl := Option.some.inj next
  match VmSpace.allocAndMapRange start size flags world.task.space, result with
  | (.ok _, _), done => exact .own (.granted done)
  | (.error _, _), done => exact .own (.refused done)

theorem otherTakes_cases (sound : Sound world) (next : world.step .otherTakes = some after) :
    StepResult world .otherTakes after := by
  rw [World.step] at next
  cases taken : world.machine.pmm.allocFrame with
  | mk found pmm =>
    rw [taken] at next
    cases found with
    | none =>
      obtain ⟨rfl, _⟩ := PhysicalMemoryManager.allocFrame_none taken
      obtain rfl := Option.some.inj next
      exact .own (.idle _)
    | some addr =>
      obtain ⟨frame, rfl, positive, clear, rfl⟩ :=
        PhysicalMemoryManager.allocFrame_some sound.tree.boot.cursor.1 taken
      obtain rfl := Option.some.inj next
      dsimp only
      rw [mul_pageSize_div]
      exact .took positive clear

theorem otherFrees_cases {frame : Nat} (next : world.step (.otherFrees frame) = some after) :
    StepResult world (.otherFrees frame) after := by
  rw [World.step] at next
  split at next
  · obtain rfl := Option.some.inj next
    exact .gave (by assumption)
  · exact nomatch next

/-- The ranges of the loader lie in user space. -/
def MemCall.InUserSpace : MemCall → Prop
  | .allocAndMapRange start size _ => start + size ≤ userSpaceEnd
  | _ => True

theorem step_cases (sound : Sound world) {label : MemCall} (user : label.InUserSpace)
    (next : world.step label = some after) : StepResult world label after := by
  cases label with
  | mmap => exact mmap_cases sound next
  | munmap => exact munmap_cases sound next
  | mprotect => exact mprotect_cases sound next
  | allocAndMapRange => exact allocAndMapRange_cases sound user next
  | otherTakes => exact otherTakes_cases sound next
  | otherFrees => exact otherFrees_cases next

/-- A call keeps the address space what it is and the bump pointer at a page. -/
theorem TaskStep.change {label : MemCall} {task last : Task} (step : TaskStep task label last)
    (tree : PageTree task.space.machine task.space.root)
    (next : task.mmapNextVaddr % pageSize = 0) :
    SpaceChange task.space last.space ∧ last.mmapNextVaddr % pageSize = 0 := by
  cases step with
  | idle => exact ⟨SpaceChange.refl tree, next⟩
  | mapped range done => exact ⟨⟨done.root, done.filled.change⟩, done.next⟩
  | takenBack range done =>
    obtain ⟨_, _, back⟩ := done.pages
    exact ⟨⟨done.root, back.change⟩, done.next ▸ next⟩
  | gone _ _ _ done => exact ⟨⟨done.root, done.cleared.change⟩, done.next ▸ next⟩
  | reprotected _ _ _ done => exact ⟨⟨done.root, done.pages.change⟩, done.next ▸ next⟩
  | granted done => exact ⟨done.spaceChange, next⟩
  | refused done => exact ⟨done.spaceChange, next⟩

theorem Foreign.change {before last : Machine} {root : Nat} {held : List Nat}
    (foreign : Foreign before root held) (change : Change root before last) :
    Foreign last root held :=
  ⟨foreign.distinct, fun frame member => change.total ▸ foreign.managed frame member,
    fun frame member charged => foreign.apart frame member (change.charged frame charged)⟩

theorem Foreign.spare {machine : Machine} {root frame : Nat} {held : List Nat}
    (foreign : Foreign machine root held) (member : frame ∈ held) :
    PageTree.Spare machine root (frame * pageSize) := by
  obtain ⟨positive, inside⟩ := foreign.managed frame member
  have apart := foreign.apart frame member
  have index := mul_pageSize_div frame
  refine ⟨⟨Nat.mul_mod_left .., index.symm ▸ positive, index.symm ▸ inside, ?_⟩, ?_⟩
  · rw [index]
    exact Bool.eq_true_of_not_eq_false fun clear => apart (.inl clear)
  · exact fun path valid found => apart (.inr ⟨path, valid, found⟩)

/-- Others take a frame that was free. -/
theorem Sound.took (sound : Sound world) {frame : Nat} (positive : 1 ≤ frame)
    (clear : world.machine.pmm.testBit frame = false) :
    Sound { world.setPmm (world.machine.pmm.takeFrame frame) with held := frame :: world.held } := by
  obtain ⟨tree, spare⟩ := sound.tree.spare_takeFrame positive clear
  have foreign := sound.foreign
  have fresh : frame ∉ world.held := fun member => foreign.apart frame member (.inl clear)
  refine ⟨tree, sound.next, List.nodup_cons.mpr ⟨fresh, foreign.distinct⟩, ?_, ?_⟩
  · intro other member
    change 1 ≤ other ∧ other < (world.machine.pmm.takeFrame frame).totalFrames
    rw [PhysicalMemoryManager.takeFrame_totalFrames]
    rcases List.mem_cons.mp member with rfl | old
    · exact ⟨positive, PhysicalMemoryManager.lt_of_clear clear⟩
    · exact foreign.managed other old
  · rintro other member (free | ⟨path, valid, found⟩)
    · change (world.machine.pmm.takeFrame frame).testBit other = false at free
      rw [PhysicalMemoryManager.testBit_takeFrame clear] at free
      split at free
      · exact nomatch free
      · rename_i differs
        exact foreign.apart other ((List.mem_cons.mp member).resolve_left (Ne.symm differs))
          (.inl free)
    · rcases List.mem_cons.mp member with rfl | old
      · exact spare.absent path valid found
      · exact foreign.apart other old (.inr ⟨path, valid, found⟩)

/-- Others give a frame of theirs back. -/
theorem Sound.gave (sound : Sound world) {frame : Nat} (member : frame ∈ world.held) :
    Sound { world.setPmm (world.machine.pmm.freeFrame (frame * pageSize)) with
      held := world.held.erase frame } := by
  have foreign := sound.foreign
  have spare := foreign.spare member
  refine ⟨sound.tree.free_spare spare, sound.next, foreign.distinct.erase frame, ?_, ?_⟩
  · intro other kept
    change 1 ≤ other ∧ other < (world.machine.pmm.freeFrame (frame * pageSize)).totalFrames
    rw [PhysicalMemoryManager.freeFrame_totalFrames]
    exact foreign.managed other (List.mem_of_mem_erase kept)
  · rintro other kept (free | owned)
    · change (world.machine.pmm.freeFrame (frame * pageSize)).testBit other = false at free
      rw [PhysicalMemoryManager.testBit_freeFrame _ _ _ spare.taken.inside, mul_pageSize_div] at free
      obtain ⟨differs, old⟩ := (foreign.distinct.mem_erase_iff).mp kept
      rw [if_neg (Ne.symm differs)] at free
      exact foreign.apart other old (.inl free)
    · exact foreign.apart other (List.mem_of_mem_erase kept) (.inr owned)

theorem StepResult.sound {label : MemCall} (result : StepResult world label after)
    (sound : Sound world) : Sound after := by
  cases result with
  | @own _ task done =>
    obtain ⟨change, next⟩ := done.change sound.tree sound.next
    refine ⟨change.tree, next, ?_⟩
    change Foreign task.space.machine task.space.root world.held
    rw [change.root]
    exact sound.foreign.change change.change
  | took positive clear => exact sound.took positive clear
  | gave member => exact sound.gave member

end Steps

end RustPosix.Posix
