import RustPosix.Process.ElfConfined

/-! The memory image that a load leaves: segments painted over one another, page by page. -/

namespace RustPosix.Process

open Library Mm

/-- The segment is mapped to the page of the address. -/
def Covers (phdr : Elf64Phdr) (addr : Nat) : Prop :=
  InPages (alignDown phdr.vaddr) (rangePages phdr.vaddr phdr.memsz) addr

instance : Decidable (Covers phdr addr) := inferInstanceAs (Decidable (InPages ..))

/-- What the file says about the byte `i` of a segment. -/
def fileByte (elfBytes : List Byte) (phdr : Elf64Phdr) (i : Nat) : Byte :=
  if i < phdr.filesz then elfBytes.getD (phdr.offset + i) 0 else 0

/-- Loading a segment replaces all bytes of its pages. -/
def paint (elfBytes : List Byte) (phdr : Elf64Phdr) (memory : Nat → Option Byte) (addr : Nat) :
    Option Byte :=
  if Covers phdr addr then
    some (if phdr.vaddr ≤ addr then fileByte elfBytes phdr (addr - phdr.vaddr) else 0)
  else memory addr

/-- Loading segments one after the other. -/
def image (elfBytes : List Byte) (phdrs : List Elf64Phdr) (memory : Nat → Option Byte) :
    Nat → Option Byte :=
  phdrs.foldl (fun memory phdr => paint elfBytes phdr memory) memory

/-- A segment below the stack whose data lies in the file and fits into its memory. -/
structure Fits (elfBytes : List Byte) (phdr : Elf64Phdr) : Prop where
  data : phdr.offset + phdr.filesz ≤ elfBytes.length
  small : phdr.filesz ≤ phdr.memsz
  below : phdr.vaddr + phdr.memsz ≤ stackBottom

/-- The byte ranges of two segments are disjoint. -/
def Apart (first second : Elf64Phdr) : Prop :=
  ∀ addr, first.vaddr ≤ addr → addr < first.vaddr + first.memsz →
    ¬ (second.vaddr ≤ addr ∧ addr < second.vaddr + second.memsz)

/-- The later segment is mapped over no byte of the earlier one that is not zero. -/
def Spares (elfBytes : List Byte) (earlier later : Elf64Phdr) : Prop :=
  ∀ i < earlier.filesz, Covers later (earlier.vaddr + i) →
    elfBytes.getD (earlier.offset + i) 0 = 0

instance : Decidable (Spares elfBytes earlier later) :=
  inferInstanceAs (Decidable (∀ i < earlier.filesz, _ → _))

section Image

variable {elfBytes : List Byte} {phdr : Elf64Phdr} {phdrs : List Elf64Phdr} {addr : Nat}

/-- Every byte of a segment lies in a page the segment is mapped to. -/
theorem covers_of_inside (lower : phdr.vaddr ≤ addr) (upper : addr < phdr.vaddr + phdr.memsz) :
    Covers phdr addr := by
  have stop := rangePages_end phdr.vaddr phdr.memsz
  refine ⟨?_, ?_⟩
  · simp only [alignDown, pageSize]
    omega
  · rw [stop]
    simp only [rangeEnd, alignDown, pageSize]
    omega

theorem image_uncovered (memory : Nat → Option Byte) (free : ∀ phdr ∈ phdrs, ¬ Covers phdr addr) :
    image elfBytes phdrs memory addr = memory addr := by
  induction phdrs generalizing memory with
  | nil => rfl
  | cons phdr rest ih =>
    rw [image, List.foldl_cons, ← image, ih _ fun next member => free next (by simp [member]), paint,
      if_neg (free phdr (by simp))]

/-- A page painted again is zero outside the file data of the segments painted over it. -/
theorem image_covered (memory : Nat → Option Byte)
    (outside : ∀ phdr ∈ phdrs, ¬ (phdr.vaddr ≤ addr ∧ addr < phdr.vaddr + phdr.filesz))
    (covered : ∃ phdr ∈ phdrs, Covers phdr addr) :
    image elfBytes phdrs memory addr = some 0 := by
  induction phdrs generalizing memory with
  | nil =>
    obtain ⟨_, member, _⟩ := covered
    exact absurd member List.not_mem_nil
  | cons phdr rest ih =>
    rw [image, List.foldl_cons, ← image]
    by_cases later : ∃ next ∈ rest, Covers next addr
    · exact ih _ (fun next member => outside next (by simp [member])) later
    · have here : Covers phdr addr := by
        obtain ⟨next, member, covers⟩ := covered
        rcases List.mem_cons.mp member with rfl | deeper
        · exact covers
        · exact absurd ⟨next, deeper, covers⟩ later
      rw [image_uncovered _ fun next member covers => later ⟨next, member, covers⟩, paint,
        if_pos here]
      split
      · rename_i lower
        have beyond := outside phdr (by simp)
        rw [fileByte, if_neg (by omega)]
      · rfl

/-- Disjoint segments all show the file exactly when each spares those before it. -/
theorem image_exact_iff (memory : Nat → Option Byte)
    (fits : ∀ phdr ∈ phdrs, Fits elfBytes phdr) (apart : phdrs.Pairwise Apart) :
    (∀ phdr ∈ phdrs, ∀ i < phdr.memsz,
      image elfBytes phdrs memory (phdr.vaddr + i) = some (fileByte elfBytes phdr i)) ↔
      phdrs.Pairwise (Spares elfBytes) := by
  induction phdrs generalizing memory with
  | nil => simp
  | cons phdr rest ih =>
    obtain ⟨first, others⟩ := List.pairwise_cons.mp apart
    have tail := ih (paint elfBytes phdr memory) (fun next member => fits next (by simp [member]))
      others
    have head : (∀ i < phdr.memsz, image elfBytes rest (paint elfBytes phdr memory)
        (phdr.vaddr + i) = some (fileByte elfBytes phdr i)) ↔
        ∀ later ∈ rest, Spares elfBytes phdr later := by
      have outside : ∀ i < phdr.memsz, ∀ later ∈ rest,
          ¬ (later.vaddr ≤ phdr.vaddr + i ∧ phdr.vaddr + i < later.vaddr + later.filesz) := by
        intro i inside later member both
        have small := (fits later (by simp [member])).small
        exact first later member (phdr.vaddr + i) (by omega) (by omega) ⟨both.1, by omega⟩
      constructor
      · intro shows later member i inFile covers
        have inside : i < phdr.memsz := Nat.lt_of_lt_of_le inFile (fits phdr (by simp)).small
        have byte := shows i inside
        rw [image_covered _ (outside i inside) ⟨later, member, covers⟩, fileByte, if_pos inFile]
          at byte
        exact (Option.some.inj byte).symm
      · intro spares i inside
        by_cases covered : ∃ later ∈ rest, Covers later (phdr.vaddr + i)
        · obtain ⟨later, member, covers⟩ := covered
          rw [image_covered _ (outside i inside) ⟨later, member, covers⟩, fileByte]
          split
          · rename_i inFile
            rw [spares later member i inFile covers]
          · rfl
        · rw [image_uncovered _ fun later member covers => covered ⟨later, member, covers⟩, paint,
            if_pos (covers_of_inside (by omega) (by omega)), if_pos (by omega),
            Nat.add_sub_cancel_left]
    rw [List.pairwise_cons, ← head, ← tail, List.forall_mem_cons]
    rfl

end Image

/-- Segments have been painted over the memory of an address space. -/
structure Painted (elfBytes : List Byte) (phdrs : List Elf64Phdr) (before after : VmState) :
    Prop where
  change : SpaceChange before after
  bytes : ∀ addr < userSpaceEnd, byteAt after.machine after.root addr =
    image elfBytes phdrs (byteAt before.machine before.root) addr

section Loading

variable {elfBytes : List Byte} {phdr : Elf64Phdr} {state : VmState}

theorem segmentData_getElem? (fits : Fits elfBytes phdr) {i : Nat} (inside : i < phdr.filesz) :
    (segmentData elfBytes phdr)[i]? = some (fileByte elfBytes phdr i) := by
  have data := fits.data
  rw [segmentData, List.getElem?_take_of_lt inside, List.getElem?_drop, fileByte, if_pos inside,
    List.getD_eq_getElem?_getD, List.getElem?_eq_getElem (by omega), Option.getD_some]

theorem segmentData_length (fits : Fits elfBytes phdr) :
    (segmentData elfBytes phdr).length = phdr.filesz := by
  have data := fits.data
  rw [segmentData, List.length_take, List.length_drop]
  omega

/-- A segment that is mapped and then receives its data is painted. -/
theorem painted_of_stored {middle after : VmState} (fits : Fits elfBytes phdr)
    (granted : Granted phdr.vaddr phdr.memsz (segmentFlags phdr) state middle)
    (wrote : Wrote phdr.vaddr (segmentData elfBytes phdr) middle after) :
    Painted elfBytes [phdr] state after := by
  refine ⟨granted.spaceChange.trans ⟨wrote.root, wrote.stored.change⟩, fun addr user => ?_⟩
  rw [wrote.root, wrote.stored.bytes addr user, granted.root, granted.filled.bytes addr user,
    segmentData_length fits]
  change _ = if Covers phdr addr then _ else _
  by_cases inside : phdr.vaddr ≤ addr ∧ addr < phdr.vaddr + phdr.filesz
  · have small := fits.small
    rw [if_pos inside, if_pos (covers_of_inside inside.1 (by omega)), if_pos inside.1,
      segmentData_getElem? fits (by omega)]
  · rw [if_neg inside]
    refine if_congr Iff.rfl ?_ rfl
    split
    · rw [fileByte, if_neg (by omega)]
    · rfl

/-- A segment that loads has its pages mapped and its data stored. -/
theorem loadSegment_yields (tree : PageTree state.machine state.root) (fits : Fits elfBytes phdr)
    (phoff phdrVaddr : Nat) :
    Yields (loadSegment elfBytes phoff phdrVaddr phdr state)
      (fun _ after => ∃ middle, Granted phdr.vaddr phdr.memsz (segmentFlags phdr) state middle ∧
        Wrote phdr.vaddr (segmentData elfBytes phdr) middle after) fun _ _ => True := by
  have below : phdr.vaddr + phdr.memsz ≤ userSpaceEnd := Nat.le_trans fits.below (by decide)
  have dataBelow : phdr.vaddr + (segmentData elfBytes phdr).length ≤ userSpaceEnd := by
    rw [segmentData_length fits]
    exact Nat.le_trans (Nat.add_le_add_left fits.small _) below
  have map := (allocAndMapRange_spec tree below (segmentFlags phdr)).mono
    (fun _ _ granted => granted) fun _ _ _ => trivial
  refine loadSegment_of_steps trivial map (fun middle granted => ?_) (fun none middle granted => ?_)
    fun _ _ => trivial
  · exact (writeBytesToSpace_spec granted.spaceChange.tree dataBelow).mono
      (fun _ _ wrote => ⟨middle, granted, wrote⟩) fun _ _ _ => trivial
  · have empty : segmentData elfBytes phdr = [] := by
      rw [← List.length_eq_zero_iff, segmentData_length fits, none]
    rw [empty]
    exact ⟨middle, granted, Wrote.nil phdr.vaddr granted.spaceChange.tree⟩

theorem Painted.append {middle after : VmState} {first second : List Elf64Phdr}
    (early : Painted elfBytes first state middle) (late : Painted elfBytes second middle after) :
    Painted elfBytes (first ++ second) state after := by
  refine ⟨early.change.trans late.change, fun addr user => ?_⟩
  have congr : ∀ (phdrs : List Elf64Phdr) (one two : Nat → Option Byte), one addr = two addr →
      image elfBytes phdrs one addr = image elfBytes phdrs two addr := by
    intro phdrs
    induction phdrs with
    | nil => exact fun _ _ same => same
    | cons phdr rest ih =>
      intro one two same
      exact ih _ _ (by simp only [paint, same])
  rw [late.bytes addr user, image, image, List.foldl_append]
  exact congr second _ _ (early.bytes addr user)

end Loading

/-- A step that does not show below the stack. -/
structure Unseen (before after : VmState) : Prop where
  change : SpaceChange before after
  bytes : ∀ addr < stackBottom,
    byteAt after.machine after.root addr = byteAt before.machine before.root addr

namespace Unseen

theorem refl {state : VmState} (tree : PageTree state.machine state.root) : Unseen state state :=
  ⟨SpaceChange.refl tree, fun _ _ => rfl⟩

theorem trans {first second third : VmState} (early : Unseen first second)
    (late : Unseen second third) : Unseen first third :=
  ⟨early.change.trans late.change, fun addr below =>
    (late.bytes addr below).trans (early.bytes addr below)⟩

theorem user {addr : Nat} (below : addr < stackBottom) : addr < userSpaceEnd :=
  Nat.lt_trans below (by decide)

/-- The pages of the stack lie above its bottom. -/
theorem stackPages {addr reached : Nat} (below : addr < stackBottom) :
    ¬ InPages (alignDown stackBottom) reached addr := by
  rw [alignDown_of_aligned (by decide)]
  exact fun inside => Nat.not_lt_of_le inside.1 below

theorem allocStack : Ensures (fun before after => PageTree before.machine before.root →
    Unseen before after) (VmSpace.allocAndMapRange stackBottom userStackSize PageFlags.userData)
    fun _ => True := by
  refine Ensures.of_invariant fun state tree =>
    (allocAndMapRange_spec tree (by decide) PageFlags.userData).mono (fun _ after granted => ?_)
      fun _ after refused => ?_
  · refine ⟨granted.spaceChange, fun addr below => ?_⟩
    rw [granted.root, granted.filled.bytes addr (user below), if_neg (stackPages below)]
  · obtain ⟨reached, _, back⟩ := refused.machine
    refine ⟨refused.spaceChange, fun addr below => ?_⟩
    rw [refused.root, back.bytes addr (user below), if_neg (stackPages below)]

theorem of_wrote {virt : Nat} {data : List Byte} {before after : VmState} (above : stackBottom ≤ virt)
    (wrote : Wrote virt data before after) : Unseen before after := by
  refine ⟨⟨wrote.root, wrote.stored.change⟩, fun addr below => ?_⟩
  rw [wrote.root, wrote.stored.bytes addr (user below), if_neg (by omega)]

theorem writeStack (virt : Nat) (data : List Byte) (above : stackBottom ≤ virt)
    (upper : virt + data.length ≤ userStackTop) :
    Ensures (fun before after => PageTree before.machine before.root → Unseen before after)
      (VmSpace.writeBytesToSpace virt data) fun _ => True :=
  Ensures.of_invariant fun _ tree =>
    (writeBytesToSpace_spec tree (Nat.le_trans upper (by decide))).mono
      (fun _ _ wrote => of_wrote above wrote) fun _ _ ⟨_, wrote⟩ => of_wrote above wrote

/-- Building the initial stack does not show below it. -/
theorem setupUserStack (entryPoint phdrVaddr phentsize phnum : Nat) (argv envp : List (List Byte)) :
    Ensures (fun before after => PageTree before.machine before.root → Unseen before after)
      (Process.setupUserStack entryPoint phdrVaddr phentsize phnum argv envp) fun _ => True :=
  setupUserStack_ensures (fun _ => refl)
    (fun _ _ _ early late tree => (early tree).trans (late (early tree).change.tree)) writeStack
    entryPoint phdrVaddr phentsize phnum argv envp

end Unseen

/-- The segments have been painted, and nothing else shows below the stack. -/
def PaintedBelow (elfBytes : List Byte) (before after : VmState) : Prop :=
  ∃ loaded, Painted elfBytes (segments elfBytes) before loaded ∧ Unseen loaded after

/-- A load that returns leaves the painted segments below the stack. -/
theorem loadElf_bytes {elfBytes : List Byte} {state : VmState}
    (tree : PageTree state.machine state.root)
    (fits : ∀ phdr ∈ segments elfBytes, Fits elfBytes phdr) (argv envp : List (List Byte)) :
    Yields (loadElf elfBytes argv envp state)
      (fun _ after => ∀ addr < stackBottom, byteAt after.machine after.root addr =
        image elfBytes (segments elfBytes) (byteAt state.machine state.root) addr)
      fun _ _ => True := by
  refine (loadElf_yields (fun done now => Painted elfBytes done state now)
    (PaintedBelow elfBytes state) (PaintedBelow elfBytes state)
    ⟨SpaceChange.refl tree, fun _ _ => rfl⟩ ?_ ?_ ?_).mono
    (fun _ after ⟨loaded, painted, unseen⟩ addr below => ?_) fun _ _ _ => trivial
  · intro done phdr now phoff phdrVaddr listed painted
    have member : phdr ∈ segments elfBytes := listed.subset (by simp)
    exact (loadSegment_yields painted.change.tree (fits phdr member) phoff phdrVaddr).mono
      (fun _ _ ⟨_, granted, wrote⟩ =>
        painted.append (painted_of_stored (fits phdr member) granted wrote)) fun _ _ _ => trivial
  · intro loaded painted
    exact (Unseen.allocStack loaded).mono
      (fun _ _ stack => ⟨loaded, painted, stack.1 painted.change.tree⟩) fun _ _ _ => trivial
  · rintro _ _ _ _ before ⟨loaded, painted, unseen⟩
    exact (Unseen.setupUserStack _ _ _ _ argv envp before).mono
      (fun _ _ filled => ⟨loaded, painted, unseen.trans (filled.1 unseen.change.tree)⟩)
      fun _ _ _ => trivial
  · rw [unseen.bytes addr below, painted.bytes addr (Unseen.user below)]

theorem loadElf_bytes_of_ok {elfBytes : List Byte} {argv envp : List (List Byte)} {state : VmState}
    {loaded : LoadedElf} (tree : PageTree state.machine state.root)
    (fits : ∀ phdr ∈ segments elfBytes, Fits elfBytes phdr)
    (ok : (loadElf elfBytes argv envp state).1 = .ok loaded) {addr : Nat}
    (below : addr < stackBottom) :
    byteAt (loadElf elfBytes argv envp state).2.machine (loadElf elfBytes argv envp state).2.root
      addr = image elfBytes (segments elfBytes) (byteAt state.machine state.root) addr :=
  (loadElf_bytes tree fits argv envp).of_ok (Prod.ext ok rfl) addr below

/-- The loaded memory shows the file exactly when no segment is mapped over a byte of
an earlier one that is not zero. -/
theorem loadElf_image_exact_iff {elfBytes : List Byte} {argv envp : List (List Byte)}
    {state : VmState} {loaded : LoadedElf} (tree : PageTree state.machine state.root)
    (fits : ∀ phdr ∈ segments elfBytes, Fits elfBytes phdr)
    (apart : (segments elfBytes).Pairwise Apart)
    (ok : (loadElf elfBytes argv envp state).1 = .ok loaded) :
    (∀ phdr ∈ segments elfBytes, ∀ i < phdr.memsz,
      byteAt (loadElf elfBytes argv envp state).2.machine (loadElf elfBytes argv envp state).2.root
        (phdr.vaddr + i) = some (fileByte elfBytes phdr i)) ↔
      (segments elfBytes).Pairwise (Spares elfBytes) := by
  rw [← image_exact_iff (byteAt state.machine state.root) fits apart]
  refine forall_congr' fun phdr => forall_congr' fun member => forall_congr' fun i =>
    forall_congr' fun inside => ?_
  have below := (fits phdr member).below
  rw [loadElf_bytes_of_ok tree fits ok (by omega)]

/-- Two segments on pages of their own. -/
def tidyElf : List Byte :=
  encodeElf [⟨ptLoad, 5, 176, 0x400000, 3, 5⟩, ⟨ptLoad, 6, 179, 0x401000, 1, 4⟩] [1, 2, 3, 4]

/-- Two disjoint segments that meet in a page. -/
def meetingElf : List Byte :=
  encodeElf [⟨ptLoad, 5, 176, 0x400000, 3, 5⟩, ⟨ptLoad, 6, 179, 0x400800, 1, 4⟩] [1, 2, 3, 4]

private theorem tidyElf_segments : segments tidyElf =
    [⟨ptLoad, 5, 176, 0x400000, 3, 5⟩, ⟨ptLoad, 6, 179, 0x401000, 1, 4⟩] := by decide +kernel

private theorem meetingElf_segments : segments meetingElf =
    [⟨ptLoad, 5, 176, 0x400000, 3, 5⟩, ⟨ptLoad, 6, 179, 0x400800, 1, 4⟩] := by decide +kernel

private theorem sharedSpace_tree : PageTree (sharedSpace 64).machine (sharedSpace 64).root := by
  have boot : (bootPmm 64).Boot := ⟨by decide, by decide, by decide⟩
  exact (sharedSpace_fresh rfl boot (by decide)).1.tree

theorem tidyElf_fits : ∀ phdr ∈ segments tidyElf, Fits tidyElf phdr := by
  rw [tidyElf_segments]
  simp only [List.mem_cons, List.not_mem_nil, or_false, forall_eq_or_imp, forall_eq]
  exact ⟨⟨by decide +kernel, by decide, by decide⟩, ⟨by decide +kernel, by decide, by decide⟩⟩

theorem tidyElf_apart : (segments tidyElf).Pairwise Apart := by
  rw [tidyElf_segments]
  refine List.pairwise_pair.mpr fun addr lower upper => ?_
  dsimp only at *
  omega

theorem tidyElf_loads : (loadElf tidyElf [] [] (sharedSpace 64)).1 = .ok ⟨0, 0x7FFFFFFEFF80⟩ := by
  decide +kernel

theorem loadElf_image_exact_iff_tidy :
    (loadElf tidyElf [] [] (sharedSpace 64)).1 = .ok ⟨0, 0x7FFFFFFEFF80⟩ ∧
      ∀ phdr ∈ segments tidyElf, ∀ i < phdr.memsz,
        byteAt (loadElf tidyElf [] [] (sharedSpace 64)).2.machine
          (loadElf tidyElf [] [] (sharedSpace 64)).2.root (phdr.vaddr + i) =
            some (fileByte tidyElf phdr i) :=
  ⟨tidyElf_loads, (loadElf_image_exact_iff sharedSpace_tree tidyElf_fits tidyElf_apart
    tidyElf_loads).mpr (by decide +kernel)⟩

/-- The second segment wipes the bytes of the first out of the page they share. -/
theorem loadElf_wipes_page :
    PageTree (sharedSpace 64).machine (sharedSpace 64).root ∧
      (∀ phdr ∈ segments meetingElf, Fits meetingElf phdr) ∧
      (segments meetingElf).Pairwise Apart ∧
      (loadElf meetingElf [] [] (sharedSpace 64)).1 = .ok ⟨0, 0x7FFFFFFEFF80⟩ ∧
      ∃ phdr ∈ segments meetingElf, phdr.vaddr = 0x400000 ∧ 0 < phdr.filesz ∧
        fileByte meetingElf phdr 0 = 1 ∧
        byteAt (loadElf meetingElf [] [] (sharedSpace 64)).2.machine
          (loadElf meetingElf [] [] (sharedSpace 64)).2.root 0x400000 = some 0 := by
  have fits : ∀ phdr ∈ segments meetingElf, Fits meetingElf phdr := by
    rw [meetingElf_segments]
    simp only [List.mem_cons, List.not_mem_nil, or_false, forall_eq_or_imp, forall_eq]
    exact ⟨⟨by decide +kernel, by decide, by decide⟩, ⟨by decide +kernel, by decide, by decide⟩⟩
  have apart : (segments meetingElf).Pairwise Apart := by
    rw [meetingElf_segments]
    refine List.pairwise_pair.mpr fun addr lower upper => ?_
    dsimp only at *
    omega
  have ok : (loadElf meetingElf [] [] (sharedSpace 64)).1 = .ok ⟨0, 0x7FFFFFFEFF80⟩ := by
    decide +kernel
  refine ⟨sharedSpace_tree, fits, apart, ok, ⟨ptLoad, 5, 176, 0x400000, 3, 5⟩, ?_, rfl, by decide,
    by decide +kernel, ?_⟩
  · rw [meetingElf_segments]
    exact List.mem_cons_self ..
  · rw [loadElf_bytes_of_ok sharedSpace_tree fits ok (by decide), meetingElf_segments]
    decide +kernel

end RustPosix.Process
