import RustPosix.Process.ElfConfined

/-! The frames that a load takes: as long as no page is mapped twice, every frame that was free
before is still free or is reached from the tables that have been built, wherever the load
stops. -/

namespace RustPosix.Process

open Library Mm

/-- The address lies in a page of the segment. -/
def InSegment (phdr : Elf64Phdr) (addr : Nat) : Prop :=
  InPages (alignDown phdr.vaddr) (rangePages phdr.vaddr phdr.memsz) addr

def InStack (addr : Nat) : Prop :=
  InPages (alignDown stackBottom) (rangePages stackBottom userStackSize) addr

/-- The segments that the loader comes to are in user space, and no page belongs to two of
them or to one of them and the stack. -/
structure PagesApart (elfBytes : List Byte) : Prop where
  user : ∀ phdr ∈ ptLoads elfBytes, InUserHalf phdr
  apart : (ptLoads elfBytes).Pairwise fun first second =>
    ∀ addr, InSegment first addr → ¬ InSegment second addr
  stack : ∀ phdr ∈ ptLoads elfBytes, ∀ addr, InSegment phdr addr → ¬ InStack addr

/-- A step that loses no frame. -/
structure Lossless (before after : VmState) : Prop extends SpaceChange before after where
  balanced : Balanced before.root before.machine after.machine

namespace Lossless

variable {first second third before after : VmState}

theorem refl {state : VmState} (tree : PageTree state.machine state.root) : Lossless state state :=
  ⟨SpaceChange.refl tree, fun _ => id⟩

theorem trans (early : Lossless first second) (late : Lossless second third) :
    Lossless first third :=
  ⟨early.toSpaceChange.trans late.toSpaceChange,
    early.balanced.trans (early.root ▸ late.balanced)⟩

theorem of_wrote {virt : Nat} {data : List Byte} (wrote : Wrote virt data before after) :
    Lossless before after :=
  ⟨⟨wrote.root, wrote.stored.change⟩, wrote.stored.balanced⟩

theorem charged_iff (lossless : Lossless before after) (frame : Nat) :
    Charged after.machine after.root frame ↔ Charged before.machine before.root frame := by
  rw [lossless.root]
  exact ⟨lossless.change.charged frame, lossless.balanced frame⟩

end Lossless

/-- How far a load has come: the pages that are mapped belong to the segments so far. -/
structure Loading (start : VmState) (done : List Elf64Phdr) (state : VmState) : Prop where
  lossless : Lossless start state
  mapped : ∀ addr < userSpaceEnd, leafAt state.machine.mem state.root addr ≠ none →
    ∃ phdr ∈ done, InSegment phdr addr

section Steps

variable {start state : VmState} {done : List Elf64Phdr} {elfBytes : List Byte}

theorem Loading.unused (loading : Loading start done state) {base count : Nat}
    (apart : ∀ phdr ∈ done, ∀ addr, InSegment phdr addr → ¬ InPages base count addr) :
    Unused state.machine.mem state.root base count := by
  intro addr user inside
  by_contra present
  obtain ⟨phdr, listed, covered⟩ := loading.mapped addr user present
  exact apart phdr listed addr covered inside

/-- A range on pages that are not mapped yet. -/
theorem allocAndMapRange_lossless {base size : Nat} (flags : PageFlags)
    (tree : PageTree state.machine state.root) (user : base + size ≤ userSpaceEnd)
    (unused : Unused state.machine.mem state.root (alignDown base) (rangePages base size)) :
    Yields (VmSpace.allocAndMapRange base size flags state)
      (fun _ after => Lossless state after ∧ Granted base size flags state after)
      fun _ after => Lossless state after := by
  refine (allocAndMapRange_spec tree user flags).mono ?_ ?_
  · exact fun _ after granted =>
      ⟨⟨granted.spaceChange, granted.filled.account unused⟩, granted⟩
  · intro _ after refused
    obtain ⟨reached, few, back⟩ := refused.machine
    exact ⟨refused.spaceChange, back.account (unused.mono few)⟩

theorem writeBytesToSpace_lossless {virt : Nat} {data : List Byte}
    (tree : PageTree state.machine state.root) (user : virt + data.length ≤ userSpaceEnd) :
    Yields (VmSpace.writeBytesToSpace virt data state)
      (fun _ after => Lossless state after ∧ Wrote virt data state after)
      fun _ after => Lossless state after :=
  (writeBytesToSpace_spec tree user).mono (fun _ _ wrote => ⟨.of_wrote wrote, wrote⟩)
    fun _ _ ⟨_, wrote⟩ => .of_wrote wrote

theorem Loading.granted {after : VmState} {phdr : Elf64Phdr} (loading : Loading start done state)
    (lossless : Lossless state after)
    (granted : Granted phdr.vaddr phdr.memsz (segmentFlags phdr) state after) :
    Loading start (done ++ [phdr]) after := by
  refine ⟨loading.lossless.trans lossless, fun addr user present => ?_⟩
  by_cases inside : InSegment phdr addr
  · exact ⟨phdr, by simp, inside⟩
  · rw [granted.root, granted.filled.others addr user inside] at present
    obtain ⟨other, listed, covered⟩ := loading.mapped addr user present
    exact ⟨other, List.mem_append_left _ listed, covered⟩

theorem Loading.wrote {after : VmState} {virt : Nat} {data : List Byte}
    (loading : Loading start done state) (wrote : Wrote virt data state after) :
    Loading start done after := by
  refine ⟨loading.lossless.trans (.of_wrote wrote), fun addr user present => ?_⟩
  rw [wrote.root, wrote.stored.leaves addr user] at present
  exact loading.mapped addr user present

theorem Loading.segment (loading : Loading start done state) {phdr : Elf64Phdr}
    (user : InUserHalf phdr)
    (apart : ∀ other ∈ done, ∀ addr, InSegment other addr → ¬ InSegment phdr addr)
    (phoff phdrVaddr : Nat) :
    Yields (loadSegment elfBytes phoff phdrVaddr phdr state)
      (fun _ after => Loading start (done ++ [phdr]) after)
      fun _ after => Lossless start after := by
  have data : phdr.vaddr + (segmentData elfBytes phdr).length ≤ userSpaceEnd := by
    have taken : (segmentData elfBytes phdr).length ≤ phdr.filesz := List.length_take_le ..
    exact Nat.le_trans (Nat.add_le_add_left taken _) user.2
  have map := (allocAndMapRange_lossless (segmentFlags phdr) loading.lossless.tree user.1
    (loading.unused apart)).mono
      (fun _ _ granted => loading.granted granted.1 granted.2)
      fun _ _ kept => loading.lossless.trans kept
  refine loadSegment_of_steps loading.lossless map (fun middle loaded => ?_)
    (fun _ _ loaded => loaded) fun _ loaded => loaded.lossless
  exact (writeBytesToSpace_lossless loaded.lossless.tree data).mono
    (fun _ _ wrote => loaded.wrote wrote.2) fun _ _ kept => loaded.lossless.trans kept

/-- The loop over the program headers, `done` being the segments it has gone through. -/
theorem Loading.segments (pages : PagesApart elfBytes) (header : Elf64Header)
    (indices : List Nat) : ∀ done state phdrVaddr,
      done ++ reachedLoads elfBytes header indices = ptLoads elfBytes → Loading start done state →
      Yields (loadSegments elfBytes header indices phdrVaddr state)
        (fun _ after => ∃ done, done <+: ptLoads elfBytes ∧ Loading start done after)
        fun _ after => Lossless start after := by
  induction indices with
  | nil => exact fun done state _ all loading => ⟨done, ⟨_, all⟩, loading⟩
  | cons i rest ih =>
    intro done state phdrVaddr all loading
    rw [loadSegments]
    cases sum : checkedAdd header.phoff (i * header.phentsize) with
    | none => exact loading.lossless
    | some offset =>
      dsimp only
      cases found : readPhdr elfBytes offset with
      | none => exact loading.lossless
      | some phdr =>
        have here : phdrAt elfBytes header i = some phdr := by rw [phdrAt, sum]; exact found
        rw [reachedLoads, here] at all
        dsimp only at all ⊢
        by_cases load : phdr.type = ptLoad
        · rw [if_neg (not_not_intro load)] at all
          rw [if_pos load]
          by_cases stops : Stops elfBytes phdr
          · obtain ⟨fault, failed⟩ := loadSegment_stops stops header.phoff phdrVaddr state
            rw [Action.bind_apply, failed]
            exact loading.lossless
          · rw [if_neg stops] at all
            have next : (done ++ [phdr]) ++ reachedLoads elfBytes header rest =
                ptLoads elfBytes := by rw [List.append_assoc]; exact all
            have apart := pages.apart
            rw [← all] at apart
            refine Yields.bind (loading.segment (pages.user phdr (all ▸ by simp)) ?_ _ _)
              (fun located after loaded => ih _ after located next loaded) fun _ _ => id
            exact fun other listed => (List.pairwise_append.mp apart).2.2 other listed phdr (by simp)
        · rw [if_pos load] at all
          rw [if_neg load]
          exact ih done state phdrVaddr all loading

end Steps

/-- Building the stack's contents only stores. -/
theorem setupUserStack_lossless (entryPoint phdrVaddr phentsize phnum : Nat)
    (argv envp : List (List Byte)) :
    Ensures (fun before after => PageTree before.machine before.root → Lossless before after)
      (setupUserStack entryPoint phdrVaddr phentsize phnum argv envp) fun _ => True := by
  refine setupUserStack_ensures (fun state => Lossless.refl)
    (fun _ _ _ early late tree => (early tree).trans (late (early tree).tree))
    (fun virt data _ upper => ?_) entryPoint phdrVaddr phentsize phnum argv envp
  refine Ensures.of_invariant fun state tree => ?_
  exact (writeBytesToSpace_lossless tree (Nat.le_trans upper (by decide))).mono
    (fun _ _ both => both.1) fun _ _ => id

/-- A load whose pages are apart loses no frame, whether it returns or fails. -/
theorem loadElf_lossless {elfBytes : List Byte} (pages : PagesApart elfBytes) {start : VmState}
    (tree : PageTree start.machine start.root)
    (empty : ∀ addr < userSpaceEnd, leafAt start.machine.mem start.root addr = none)
    (argv envp : List (List Byte)) :
    Lossless start (loadElf elfBytes argv envp start).2 := by
  have begun : Loading start [] start :=
    ⟨.refl tree, fun addr user present => absurd (empty addr user) present⟩
  suffices outcome : Yields (loadElf elfBytes argv envp start) (fun _ => Lossless start)
      fun _ => Lossless start from outcome.either
  rw [loadElf]
  cases checked : checkHeader elfBytes with
  | error fault => exact .refl tree
  | ok header =>
    have loads : [] ++ reachedLoads elfBytes header (List.range header.phnum) =
        ptLoads elfBytes := by rw [ptLoads, checked]; rfl
    refine Yields.bind (Loading.segments pages header _ [] start 0 loads begun) ?_ fun _ _ => id
    rintro phdrVaddr loaded ⟨done, before, loading⟩
    have free : Unused loaded.machine.mem loaded.root (alignDown stackBottom)
        (rangePages stackBottom userStackSize) :=
      loading.unused fun phdr listed => pages.stack phdr (before.subset listed)
    refine Yields.bind (allocAndMapRange_lossless _ loading.lossless.tree (by decide) free) ?_
      fun _ _ kept => loading.lossless.trans kept
    rintro _ ready ⟨lossless, _⟩
    have prepared := loading.lossless.trans lossless
    have arguments := setupUserStack_lossless header.entry phdrVaddr header.phentsize
      header.phnum argv envp ready
    exact Yields.bind arguments (fun _ _ both => prepared.trans (both.1 prepared.tree))
      fun _ _ kept => prepared.trans (kept prepared.tree)

end RustPosix.Process
