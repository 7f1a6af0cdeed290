import RustPosix.Mm.SpaceNew
import RustPosix.Mm.VmaSteps

/-! The two descriptions of an address space, its areas and its page table, read
address by address. -/

namespace RustPosix.Mm

open Library

/-- What the page table shows where the areas say `attr`. -/
def Shows (leaf : Option (BitVec 64)) : Option VmaAttr → Prop
  | none => leaf = none
  | some attr => attr.prot ≠ protNone ∧
    ∃ phys, FrameAddr phys ∧ leaf = some (leafEntry phys (PageFlags.fromProt attr.prot))

/-- The page table shows what the areas say, and no area says `PROT_NONE`. -/
structure Agrees (space : VmState) : Prop where
  ordered : Ordered space.vmas
  bounded : ∀ addr, userSpaceEnd ≤ addr → lookup space.vmas addr = none
  pages : ∀ addr < userSpaceEnd,
    Shows (leafAt space.machine.mem space.root addr) (lookup space.vmas addr)

section Agrees

variable {before after : VmState} {base count : Nat}

theorem FreshSpace.agrees {machine : Machine} (fresh : FreshSpace machine before) :
    Agrees before := by
  refine ⟨fresh.vmas ▸ Ordered.nil, fun _ _ => by rw [fresh.vmas]; rfl, fun addr user => ?_⟩
  rw [fresh.vmas]
  exact fresh.empty addr user

theorem Agrees.same (agrees : Agrees before) (vmas : after.vmas = before.vmas)
    (leaves : ∀ addr < userSpaceEnd, leafAt after.machine.mem after.root addr =
      leafAt before.machine.mem before.root addr) : Agrees after := by
  refine ⟨vmas ▸ agrees.ordered, vmas ▸ agrees.bounded, fun addr user => ?_⟩
  rw [leaves addr user, vmas]
  exact agrees.pages addr user

/-- Storing bytes changes neither description. -/
theorem Agrees.wrote {virt : Nat} {data : List Byte}
    (agrees : Agrees before) (wrote : Wrote virt data before after) : Agrees after := by
  refine agrees.same wrote.vmas fun addr user => ?_
  rw [wrote.root]
  exact wrote.stored.leaves addr user

/-- Recording a range of pages, which may be none. -/
theorem insertVma_pages {vmas : List Vma} {prot flags : BitVec 32} (ordered : Ordered vmas)
    (clean : 0 < count → ¬ Straddled vmas base (base + count * pageSize) ⟨prot, flags⟩) :
    Ordered (insertVma vmas base (base + count * pageSize) prot flags) ∧
      ∀ addr, lookup (insertVma vmas base (base + count * pageSize) prot flags) addr =
        if InPages base count addr then some ⟨prot, flags⟩ else lookup vmas addr := by
  by_cases some : 0 < count
  · have range : base < base + count * pageSize := by
      simp only [pageSize]
      omega
    exact insertVma_spec ordered range (clean some)
  · obtain rfl : count = 0 := by omega
    rw [insertVma, if_pos (by omega)]
    exact ⟨ordered, fun addr => (if_neg not_inPages_zero).symm⟩

/-- Pages mapped and recorded with one protection. -/
theorem Agrees.filled {prot flags : BitVec 32} (agrees : Agrees before)
    (root : after.root = before.root)
    (filled : Filled before.root base count (PageFlags.fromProt prot) before.machine after.machine)
    (vmas : after.vmas = insertVma before.vmas base (base + count * pageSize) prot flags)
    (user : base + count * pageSize ≤ userSpaceEnd) (access : prot ≠ protNone)
    (clean : 0 < count → ¬ Straddled before.vmas base (base + count * pageSize) ⟨prot, flags⟩) :
    Agrees after := by
  obtain ⟨ordered, read⟩ := insertVma_pages agrees.ordered clean
  refine ⟨vmas ▸ ordered, fun addr outside => ?_, fun addr inside => ?_⟩
  · rw [vmas, read, if_neg fun here => ?_]
    · exact agrees.bounded addr outside
    · have := here.2
      omega
  · rw [vmas, read, root]
    by_cases here : InPages base count addr
    · rw [if_pos here]
      exact ⟨access, filled.leaf addr inside here⟩
    · rw [if_neg here, filled.others addr inside here]
      exact agrees.pages addr inside

/-- Pages unmapped and areas removed. -/
theorem Agrees.cleared (agrees : Agrees before) (root : after.root = before.root)
    (cleared : Cleared before.root base count before.machine after.machine)
    (vmas : after.vmas = removeVmas before.vmas base (base + count * pageSize))
    (range : base < base + count * pageSize) : Agrees after := by
  obtain ⟨ordered, read⟩ := removeVmas_spec agrees.ordered range
  refine ⟨vmas ▸ ordered, fun addr outside => ?_, fun addr inside => ?_⟩
  · rw [vmas, read, agrees.bounded addr outside]
    split <;> rfl
  · rw [vmas, read, root, cleared.leaves addr inside]
    by_cases here : InPages base count addr
    · rw [if_pos here, if_pos ⟨here.1, here.2⟩]
      rfl
    · rw [if_neg here, if_neg fun inside => here ⟨inside.1, inside.2⟩]
      exact agrees.pages addr inside

/-- Pages and areas with a new protection. -/
theorem Agrees.reprotected {prot : BitVec 32} (agrees : Agrees before)
    (root : after.root = before.root)
    (pages : Reprotected before.root base count (PageFlags.fromProt prot) before.machine
      after.machine)
    (vmas : after.vmas = protectVmas before.vmas base (base + count * pageSize) prot)
    (some : prot ≠ protNone) : Agrees after := by
  obtain ⟨ordered, read⟩ := protectVmas_spec agrees.ordered base (base + count * pageSize) prot
  refine ⟨vmas ▸ ordered, fun addr outside => ?_, fun addr inside => ?_⟩
  · rw [vmas, read, agrees.bounded addr outside]
    split <;> rfl
  · have old := agrees.pages addr inside
    rw [vmas, read, root, pages.leaves addr inside]
    by_cases here : InPages base count addr
    · rw [if_pos here, if_pos ⟨here.1, here.2⟩]
      cases attr : lookup before.vmas addr with
      | none =>
        rw [attr] at old
        rw [old]
        rfl
      | some attr =>
        rw [attr] at old
        obtain ⟨_, phys, frame, leaf⟩ := old
        refine ⟨some, phys, frame, ?_⟩
        rw [leaf, Option.map_some, frame.ptePhys_leafEntry]
    · rw [if_neg here, if_neg fun inside => here ⟨inside.1, inside.2⟩]
      exact old

theorem fromProt_protOf {flags : PageFlags} (present : flags.present = true)
    (user : flags.user = true) : PageFlags.fromProt (VmSpace.protOf flags) = flags := by
  obtain ⟨_, writable, _, noExec⟩ := flags
  subst present user
  revert writable noExec
  decide

theorem protOf_ne_protNone (flags : PageFlags) : VmSpace.protOf flags ≠ protNone := by
  obtain ⟨present, writable, user, noExec⟩ := flags
  revert present writable user noExec
  decide

/-- A range granted where no area is. -/
theorem Agrees.granted {start size : Nat} {flags : PageFlags} (agrees : Agrees before)
    (granted : Granted start size flags before after) (bound : start + size ≤ userSpaceEnd)
    (present : flags.present = true) (user : flags.user = true)
    (vacant : ∀ addr, InPages (alignDown start) (rangePages start size) addr →
      lookup before.vmas addr = none) :
    Agrees after ∧ ∀ addr, ¬ InPages (alignDown start) (rangePages start size) addr →
      lookup after.vmas addr = lookup before.vmas addr := by
  have stop := rangePages_end start size
  have vmas : after.vmas = insertVma before.vmas (alignDown start)
      (alignDown start + rangePages start size * pageSize) (VmSpace.protOf flags) 0 := by
    rw [stop]
    exact granted.vmas
  have clean : 0 < rangePages start size → ¬ Straddled before.vmas (alignDown start)
      (alignDown start + rangePages start size * pageSize) ⟨VmSpace.protOf flags, 0⟩ := by
    rintro some ⟨vma, member, _, lower, upper, _⟩
    have last : alignDown start ≤ alignDown start + rangePages start size * pageSize - 1 := by
      simp only [pageSize]
      omega
    have absent := vacant (alignDown start + rangePages start size * pageSize - 1)
      ⟨last, by omega⟩
    exact lookup_eq_none_iff.mp absent vma member ⟨by omega, by omega⟩
  refine ⟨agrees.filled granted.root ?_ vmas ?_ (protOf_ne_protNone flags) clean, ?_⟩
  · rw [fromProt_protOf present user]
    exact granted.filled
  · rw [stop]
    exact rangeEnd_le bound
  · intro addr outside
    rw [vmas, (insertVma_pages agrees.ordered clean).2, if_neg outside]

end Agrees

end RustPosix.Mm
