import RustPosix.Mm.SpaceAgrees
import RustPosix.Process.ElfImage

/-! A page-aligned image is loaded into areas that its page table shows. -/

namespace RustPosix.Process

open Library Mm

/-- Segments that lie on pages of their own. -/
structure PageAligned (elfBytes : List Byte) : Prop where
  fits : ∀ phdr ∈ segments elfBytes, Fits elfBytes phdr
  apart : (segments elfBytes).Pairwise Apart
  aligned : ∀ phdr ∈ segments elfBytes, phdr.vaddr % pageSize = 0

/-- The address space agrees, and has areas only where one of the segments is mapped. -/
structure Laid (start : VmState) (phdrs : List Elf64Phdr) (space : VmState) : Prop where
  change : SpaceChange start space
  agrees : Agrees space
  covered : ∀ addr, lookup space.vmas addr ≠ none → ∃ phdr ∈ phdrs, Covers phdr addr

section Laid

variable {elfBytes : List Byte} {phdrs : List Elf64Phdr} {phdr : Elf64Phdr} {addr : Nat}

/-- An aligned segment maps a page exactly if it holds the first byte of the page. -/
theorem inside_of_covers (aligned : phdr.vaddr % pageSize = 0) (covers : Covers phdr addr) :
    phdr.vaddr ≤ alignDown addr ∧ alignDown addr < phdr.vaddr + phdr.memsz := by
  obtain ⟨lower, upper⟩ := covers
  rw [rangePages_end] at upper
  simp only [rangeEnd, alignDown, pageSize] at *
  omega

/-- One more segment, apart from those before it. -/
theorem Laid.segment {start before middle after : VmState} (laid : Laid start phdrs before)
    (fits : Fits elfBytes phdr) (aligned : ∀ other ∈ phdrs ++ [phdr], other.vaddr % pageSize = 0)
    (apart : ∀ other ∈ phdrs, Apart other phdr)
    (granted : Granted phdr.vaddr phdr.memsz (segmentFlags phdr) before middle)
    (wrote : Wrote phdr.vaddr (segmentData elfBytes phdr) middle after) :
    Laid start (phdrs ++ [phdr]) after := by
  have below : phdr.vaddr + phdr.memsz ≤ userSpaceEnd := Nat.le_trans fits.below (by decide)
  have vacant : ∀ addr, Covers phdr addr → lookup before.vmas addr = none := by
    intro addr covers
    refine Classical.byContradiction fun present => ?_
    obtain ⟨other, member, earlier⟩ := laid.covered addr present
    have first := inside_of_covers (aligned other (by simp [member])) earlier
    exact apart other member _ first.1 first.2 (inside_of_covers (aligned phdr (by simp)) covers)
  obtain ⟨agrees, outside⟩ := laid.agrees.granted granted below rfl rfl vacant
  have change : SpaceChange before after :=
    granted.spaceChange.trans ⟨wrote.root, wrote.stored.change⟩
  refine ⟨laid.change.trans change, agrees.wrote wrote, fun addr present => ?_⟩
  by_cases covers : Covers phdr addr
  · exact ⟨phdr, by simp, covers⟩
  · rw [wrote.vmas, outside addr covers] at present
    obtain ⟨other, member, earlier⟩ := laid.covered addr present
    exact ⟨other, by simp [member], earlier⟩

end Laid

/-- An address space that agrees, as the invariant of storing to the stack. -/
structure Settled (start space : VmState) : Prop where
  change : SpaceChange start space
  agrees : Agrees space

theorem Settled.setupUserStack {start before : VmState} (settled : Settled start before)
    (entryPoint phdrVaddr phentsize phnum : Nat) (argv envp : List (List Byte)) :
    Yields (setupUserStack entryPoint phdrVaddr phentsize phnum argv envp before)
      (fun _ after => Settled start after) fun _ _ => True := by
  have write : ∀ virt data, stackBottom ≤ virt → virt + data.length ≤ userStackTop →
      Ensures (fun before after => Settled start before → Settled start after)
        (VmSpace.writeBytesToSpace virt data) fun _ => True := by
    intro virt data _ upper
    have keep : ∀ (data : List Byte) (before after : VmState), Settled start before →
        Wrote virt data before after → Settled start after := fun data before after held wrote =>
      ⟨held.change.trans ⟨wrote.root, wrote.stored.change⟩, held.agrees.wrote wrote⟩
    exact Ensures.of_invariant fun state held =>
      (writeBytesToSpace_spec held.change.tree (Nat.le_trans upper (by decide))).mono
        (fun _ after wrote => keep _ _ _ held wrote)
        fun _ after ⟨_, wrote⟩ => keep _ _ _ held wrote
  exact (setupUserStack_ensures (fun _ held => held)
    (fun _ _ _ early late held => late (early held)) write _ _ _ _ argv envp before).mono
    (fun _ _ kept => kept.1 settled) fun _ _ _ => trivial

/-- A page-aligned image that loads leaves areas and pages that agree. -/
theorem loadElf_settled {elfBytes : List Byte} {machine : Machine} {state : VmState}
    (fresh : FreshSpace machine state) (image : PageAligned elfBytes)
    (argv envp : List (List Byte)) :
    Yields (loadElf elfBytes argv envp state) (fun _ after => Settled state after) fun _ _ => True := by
  refine loadElf_yields (Laid state) (Settled state) (Settled state)
    ⟨SpaceChange.refl fresh.tree, fresh.agrees, fun addr present => ?_⟩ ?_ ?_
    fun _ _ _ _ before settled => settled.setupUserStack _ _ _ _ argv envp
  · rw [fresh.vmas] at present
    exact absurd rfl present
  · intro done phdr now phoff phdrVaddr listed laid
    have member : phdr ∈ segments elfBytes := listed.subset (by simp)
    have pairs := (List.pairwise_append.mp (image.apart.sublist listed.sublist)).2.2
    exact (loadSegment_yields laid.change.tree (image.fits phdr member) phoff phdrVaddr).mono
      (fun _ _ ⟨_, granted, wrote⟩ => laid.segment (image.fits phdr member)
        (fun other inside => image.aligned other (listed.subset inside))
        (fun other inside => pairs other inside phdr (by simp)) granted wrote)
      fun _ _ _ => trivial
  · intro loaded laid
    refine (allocAndMapRange_spec laid.change.tree (by decide) PageFlags.userData).mono
      (fun _ after granted => ⟨laid.change.trans granted.spaceChange,
        (laid.agrees.granted granted (by decide) rfl rfl fun addr inside => ?_).1⟩)
      fun _ _ _ => trivial
    refine Classical.byContradiction fun present => ?_
    obtain ⟨phdr, member, covers⟩ := laid.covered addr present
    have below := (image.fits phdr member).below
    have first := inside_of_covers (image.aligned phdr member) covers
    have above := inside.1
    simp only [alignDown, stackBottom, userStackTop, userStackSize, pageSize] at *
    omega

end RustPosix.Process
