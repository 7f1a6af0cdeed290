import RustPosix.Process.ElfImage

/-! The sums of header fields that `load_elf` forms without a check. The kernel is built with
overflow checks, so each of them returns, fails or panics. -/

namespace RustPosix.Process

open Library Mm

/-- The call returns or fails, but it does not take the kernel down. -/
abbrev Returns {State Value : Type} (result : Except Fault Value × State) : Prop :=
  Yields result (fun _ _ => True) fun fault _ => fault ≠ .panicked

/-- The loader goes on behind the header with the given index, if it gets the memory. -/
def Passes (elfBytes : List Byte) (header : Elf64Header) (i : Nat) : Prop :=
  ∃ phdr, phdrAt elfBytes header i = some phdr ∧
    (phdr.type = ptLoad → phdr.offset + phdr.filesz ≤ elfBytes.length)

/-- A sum of the loader for the header with the given index does not fit. -/
def Overflows (elfBytes : List Byte) (header : Elf64Header) (i : Nat) : Prop :=
  2 ^ 64 ≤ header.phoff + i * header.phentsize ∨
    ∃ phdr, phdrAt elfBytes header i = some phdr ∧ phdr.type = ptLoad ∧
      (2 ^ 64 ≤ phdr.offset + phdr.filesz ∨
        (phdr.offset + phdr.filesz ≤ elfBytes.length ∧
          2 ^ 64 ≤ phdr.vaddr + phdr.memsz + pageSize))

/-- The bytes of a segment end below the top of the address space. -/
def EndsInside (elfBytes : List Byte) (header : Elf64Header) (i : Nat) : Prop :=
  ∀ phdr, phdrAt elfBytes header i = some phdr → phdr.type = ptLoad →
    phdr.offset + phdr.filesz ≤ elfBytes.length → phdr.vaddr + phdr.filesz ≤ 2 ^ 64

/-- Every sum for a header that the loader can come to fits. -/
def SumsFit (elfBytes : List Byte) (header : Elf64Header) : Prop :=
  ∀ i < header.phnum, (∀ j < i, Passes elfBytes header j) →
    ¬ Overflows elfBytes header i ∧ EndsInside elfBytes header i

theorem Returns.bind {State Value Result : Type} {act : Action State Fault Value}
    {next : Value → Action State Fault Result} {state : State} (first : Returns (act state))
    (second : ∀ value after, Returns (next value after)) : Returns ((act >>= next) state) :=
  Yields.bind first (fun value after _ => second value after) fun _ _ => id

section Memory

variable {root : Nat} {flags : PageFlags}

theorem getOrCreateTable_returns (table idx : Nat) (bits : BitVec 64) (machine : Machine) :
    Returns (getOrCreateTable table idx bits machine) := by
  unfold getOrCreateTable
  split
  · trivial
  · split
    · rintro ⟨⟩
    · trivial

theorem mapPage_returns (virt phys : Nat) (machine : Machine) :
    Returns (mapPage root virt phys flags machine) := by
  unfold mapPage
  refine Returns.bind (getOrCreateTable_returns ..) fun pdpt _ => ?_
  refine Returns.bind (getOrCreateTable_returns ..) fun pd _ => ?_
  exact Returns.bind (getOrCreateTable_returns ..) fun pt _ => trivial

theorem mapPages_returns (alignedStart remaining : Nat) : ∀ i machine,
    Returns (VmSpace.mapPages root alignedStart flags remaining i machine) := by
  induction remaining with
  | zero => exact fun _ _ => trivial
  | succ remaining ih =>
    intro i machine
    rw [VmSpace.mapPages]
    split
    · rintro ⟨⟩
    · rename_i virt _
      dsimp only
      split
      · rintro ⟨⟩
      · rename_i phys pmm _
        have mapped := @mapPage_returns root flags virt phys ⟨zeroPhysFrame machine.mem phys, pmm⟩
        generalize mapPage root virt phys flags _ = result at mapped
        rcases result with ⟨fault | _, after⟩
        · exact mapped
        · exact ih (i + 1) after

theorem onMachine_returns {Value : Type} {act : Nat → Action Machine Fault Value} {state : VmState}
    (given : Returns (act state.root state.machine)) : Returns (VmSpace.onMachine act state) :=
  (onMachine_yields given).mono (fun _ _ _ => trivial) fun _ _ failed => failed.2

theorem allocAndMapRange_returns {start size : Nat} (fits : start + size + pageSize < 2 ^ 64)
    (state : VmState) : Returns (VmSpace.allocAndMapRange start size flags state) := by
  have below : start + size < 2 ^ 64 := by omega
  rw [VmSpace.allocAndMapRange, checkedAdd, if_pos below, Option.bind_some, alignUp, checkedAdd,
    if_pos fits, Option.map_some]
  dsimp only
  split
  · rintro ⟨⟩
  · exact Returns.bind (onMachine_returns (mapPages_returns ..)) fun _ _ => trivial

theorem writeChunks_returns (passes : Nat) : ∀ virt data machine, virt + data.length ≤ 2 ^ 64 →
    Returns (VmSpace.writeChunks root passes virt data machine) := by
  induction passes with
  | zero => exact fun _ _ _ _ => trivial
  | succ passes ih =>
    intro virt data machine fits
    rw [VmSpace.writeChunks]
    split
    · trivial
    · rename_i more
      have bytes := List.length_pos_iff.mpr more
      dsimp only
      rw [if_neg (by omega)]
      split
      · rintro ⟨⟩
      · refine ih _ _ _ ?_
        rw [List.length_drop]
        omega

theorem writeBytesToSpace_returns {virt : Nat} {data : List Byte}
    (fits : virt + data.length ≤ 2 ^ 64) (state : VmState) :
    Returns (VmSpace.writeBytesToSpace virt data state) :=
  onMachine_returns (writeChunks_returns data.length virt data state.machine fits)

end Memory

section Stack

theorem pushStrings_returns (tooBig : String) (strings : List (List Byte)) : ∀ sp state,
    sp ≤ userStackTop → Yields (pushStrings tooBig strings sp state)
      (fun result _ => result.2 ≤ userStackTop) fun fault _ => fault ≠ .panicked := by
  have top : userStackTop ≤ 2 ^ 64 := by decide
  induction strings with
  | nil => exact fun _ _ upper => upper
  | cons bytes rest ih =>
    intro sp state upper
    rw [pushStrings]
    split
    · rintro ⟨⟩
    · refine Yields.bind (writeBytesToSpace_returns (by omega) state) (fun _ after _ => ?_)
        fun _ _ => id
      refine Yields.bind (writeBytesToSpace_returns ?_ after) (fun _ after _ => ?_) fun _ _ => id
      · rw [List.length_singleton]
        omega
      exact Yields.bind (ih _ after (by omega)) (fun _ _ bound => bound) fun _ _ => id

theorem pushWords_returns (words : List Nat) : ∀ sp state, sp ≤ userStackTop →
    Yields (pushWords words sp state) (fun result _ => result ≤ userStackTop)
      fun fault _ => fault ≠ .panicked := by
  have top : userStackTop ≤ 2 ^ 64 := by decide
  induction words with
  | nil => exact fun _ _ upper => upper
  | cons word rest ih =>
    intro sp state upper
    rw [pushWords]
    have bytes : (leBytes 8 word).length = 8 := by simp [leBytes]
    have room : (8 : Nat) ≤ userStackTop := by decide
    refine Yields.bind (writeBytesToSpace_returns (by omega) state) (fun _ after _ => ?_)
      fun _ _ => id
    exact ih _ after (by omega)

theorem setupUserStack_returns (entryPoint phdrVaddr phentsize phnum : Nat)
    (argv envp : List (List Byte)) (state : VmState) :
    Returns (setupUserStack entryPoint phdrVaddr phentsize phnum argv envp state) := by
  rw [setupUserStack]
  refine Yields.bind (pushStrings_returns _ envp _ state (Nat.le_refl _))
    (fun first after upper => ?_) fun _ _ => id
  obtain ⟨envpPtrs, first⟩ := first
  refine Yields.bind (pushStrings_returns _ argv _ after upper) (fun second after upper => ?_)
    fun _ _ => id
  obtain ⟨argvPtrs, second⟩ := second
  dsimp only at upper ⊢
  split
  · rintro ⟨⟩
  · split
    · rintro ⟨⟩
    · refine Yields.bind (pushWords_returns _ _ after (by omega)) (fun _ after upper => ?_)
        fun _ _ => id
      refine Yields.bind (pushWords_returns _ _ after upper) (fun _ after upper => ?_) fun _ _ => id
      refine Yields.bind (pushWords_returns _ _ after upper) (fun _ after upper => ?_) fun _ _ => id
      refine Yields.bind (pushWords_returns _ _ after upper) (fun _ after upper => ?_) fun _ _ => id
      split
      · rintro ⟨⟩
      · trivial

end Stack

section Headers

variable {elfBytes : List Byte} {header : Elf64Header}

theorem loadSegment_returns {phdr : Elf64Phdr} (sum : phdr.offset + phdr.filesz < 2 ^ 64)
    (inside : phdr.offset + phdr.filesz ≤ elfBytes.length →
      phdr.vaddr + phdr.memsz + pageSize < 2 ^ 64 ∧ phdr.vaddr + phdr.filesz ≤ 2 ^ 64)
    (phoff phdrVaddr : Nat) (state : VmState) :
    Yields (loadSegment elfBytes phoff phdrVaddr phdr state)
      (fun _ _ => phdr.offset + phdr.filesz ≤ elfBytes.length)
      fun fault _ => fault ≠ .panicked := by
  rw [loadSegment, checkedAdd, if_pos sum]
  dsimp only
  split
  · rintro ⟨⟩
  · rename_i within
    have within : phdr.offset + phdr.filesz ≤ elfBytes.length := by omega
    obtain ⟨range, data⟩ := inside within
    have located : (locatePhdrs phoff phdrVaddr phdr).isSome := by
      unfold locatePhdrs
      split
      · rw [checkedAdd, if_pos (by omega)]
        rfl
      · rfl
    obtain ⟨address, found⟩ := Option.isSome_iff_exists.mp located
    rw [found]
    refine Yields.bind (allocAndMapRange_returns range state) (fun _ after _ => ?_) fun _ _ => id
    split
    · refine Yields.bind (writeBytesToSpace_returns ?_ after) (fun _ _ _ => within) fun _ _ => id
      rw [segmentData, List.length_take]
      omega
    · exact within

/-- The loop from the header with index `i` on. -/
theorem loadSegments_returns (fit : SumsFit elfBytes header) (count : Nat) : ∀ i phdrVaddr state,
    i + count = header.phnum → (∀ j < i, Passes elfBytes header j) →
    Returns (loadSegments elfBytes header (List.range' i count) phdrVaddr state) := by
  induction count with
  | zero => exact fun _ _ _ _ _ => trivial
  | succ count ih =>
    intro i phdrVaddr state total passed
    obtain ⟨sums, ends⟩ := fit i (by omega) passed
    have onward (passes : Passes elfBytes header i) : ∀ j < i + 1, Passes elfBytes header j := by
      intro j below
      rcases Nat.lt_succ_iff_lt_or_eq.mp below with earlier | rfl
      · exact passed j earlier
      · exact passes
    rw [List.range'_succ, loadSegments]
    have offset : header.phoff + i * header.phentsize < 2 ^ 64 := by
      by_contra large
      exact sums (.inl (by omega))
    rw [checkedAdd, if_pos offset]
    dsimp only
    cases found : readPhdr elfBytes (header.phoff + i * header.phentsize) with
    | none => rintro ⟨⟩
    | some phdr =>
      have here : phdrAt elfBytes header i = some phdr := by
        rw [phdrAt, checkedAdd, if_pos offset]
        exact found
      dsimp only
      split
      · rename_i load
        have bound : phdr.offset + phdr.filesz < 2 ^ 64 := by
          by_contra large
          exact sums (.inr ⟨phdr, here, load, .inl (by omega)⟩)
        have inside (within : phdr.offset + phdr.filesz ≤ elfBytes.length) :
            phdr.vaddr + phdr.memsz + pageSize < 2 ^ 64 := by
          by_contra large
          exact sums (.inr ⟨phdr, here, load, .inr ⟨within, by omega⟩⟩)
        refine Yields.bind (loadSegment_returns bound
          (fun within => ⟨inside within, ends phdr here load within⟩) header.phoff phdrVaddr state)
          (fun located after within => ?_) fun _ _ => id
        exact ih (i + 1) located after (by omega) (onward ⟨phdr, here, fun _ => within⟩)
      · rename_i other
        exact ih (i + 1) phdrVaddr state (by omega)
          (onward ⟨phdr, here, fun load => absurd load other⟩)

theorem checkHeader_returns {fault : Fault} (failed : checkHeader elfBytes = .error fault) :
    fault ≠ .panicked := by
  unfold checkHeader at failed
  repeat' split at failed
  all_goals cases failed
  all_goals exact nofun

theorem loadElf_returns (fit : ∀ header, checkHeader elfBytes = .ok header → SumsFit elfBytes header)
    (argv envp : List (List Byte)) (state : VmState) :
    Returns (loadElf elfBytes argv envp state) := by
  rw [loadElf]
  cases checked : checkHeader elfBytes with
  | error fault => exact checkHeader_returns checked
  | ok header =>
    dsimp only
    rw [List.range_eq_range']
    refine Returns.bind (loadSegments_returns (fit header checked) header.phnum 0 0 state
      (Nat.zero_add _) (fun j below => absurd below (Nat.not_lt_zero j))) fun _ after => ?_
    refine Returns.bind (allocAndMapRange_returns (by decide) after) fun _ after => ?_
    exact Returns.bind (setupUserStack_returns ..) fun _ _ => trivial

theorem loadSegments_append (indices others : List Nat) : ∀ phdrVaddr,
    loadSegments elfBytes header (indices ++ others) phdrVaddr =
      loadSegments elfBytes header indices phdrVaddr >>= loadSegments elfBytes header others := by
  induction indices with
  | nil => exact fun _ => rfl
  | cons i rest ih =>
    intro phdrVaddr
    rw [List.cons_append, loadSegments, loadSegments]
    split
    · rfl
    · split
      · rfl
      · split
        · funext state
          rename_i phdr _ _
          simp only [Action.bind_apply, ih]
          generalize loadSegment elfBytes header.phoff phdrVaddr phdr state = result
          rcases result with ⟨_ | located, after⟩
          · rfl
          · rfl
        · exact ih phdrVaddr

/-- A segment whose sums do not fit. -/
theorem loadSegment_panics {phdr : Elf64Phdr} (large : 2 ^ 64 ≤ phdr.offset + phdr.filesz ∨
      (phdr.offset + phdr.filesz ≤ elfBytes.length ∧
        2 ^ 64 ≤ phdr.vaddr + phdr.memsz + pageSize)) (phoff phdrVaddr : Nat) (state : VmState) :
    loadSegment elfBytes phoff phdrVaddr phdr state = (.error .panicked, state) := by
  rw [loadSegment]
  by_cases sum : phdr.offset + phdr.filesz < 2 ^ 64
  · obtain ⟨within, huge⟩ := large.resolve_left (by omega)
    have panics : (checkedAdd phdr.vaddr phdr.memsz).bind alignUp = none := by
      rw [checkedAdd]
      split
      · rw [Option.bind_some, alignUp, checkedAdd, if_neg (by omega)]
        rfl
      · rfl
    rw [checkedAdd, if_pos sum]
    dsimp only
    rw [if_neg (by omega), Action.bind_apply, VmSpace.allocAndMapRange, panics]
  · rw [checkedAdd, if_neg sum]
    rfl

theorem loadElf_panics {i : Nat} (checked : checkHeader elfBytes = .ok header)
    (listed : i < header.phnum) (overflows : Overflows elfBytes header i) {state after : VmState}
    {located : Nat} (reached : loadSegments elfBytes header (List.range i) 0 state =
      (.ok located, after)) (argv envp : List (List Byte)) :
    (loadElf elfBytes argv envp state).1 = .error .panicked := by
  have indices : List.range header.phnum =
      List.range i ++ i :: List.range' (i + 1) (header.phnum - (i + 1)) := by
    have count : header.phnum = i + (header.phnum - (i + 1) + 1) := by omega
    rw [← List.range'_succ, List.range_eq_range', List.range_eq_range']
    nth_rewrite 1 [count]
    rw [← List.range'_append_1, Nat.zero_add]
  have stops : loadSegments elfBytes header
      (i :: List.range' (i + 1) (header.phnum - (i + 1))) located after =
        (.error .panicked, after) := by
    rw [loadSegments]
    by_cases offset : header.phoff + i * header.phentsize < 2 ^ 64
    · obtain ⟨phdr, here, load, large⟩ := overflows.resolve_left (by omega)
      rw [phdrAt, checkedAdd, if_pos offset] at here
      rw [checkedAdd, if_pos offset]
      dsimp only
      rw [show readPhdr elfBytes _ = some phdr from here]
      dsimp only
      rw [if_pos load, Action.bind_apply, loadSegment_panics large]
    · rw [checkedAdd, if_neg offset]
      rfl
  rw [loadElf, checked]
  dsimp only
  rw [indices, loadSegments_append, Action.bind_apply, Action.bind_apply, reached]
  dsimp only
  rw [stops]

end Headers

theorem tidyElf_sumsFit (header : Elf64Header) (checked : checkHeader tidyElf = .ok header) :
    SumsFit tidyElf header := by
  have fields : (checkHeader tidyElf).toOption.all (fun header =>
      decide (header.phoff = 64 ∧ header.phentsize = 56 ∧ header.phnum = 2)) = true := by
    decide +kernel
  rw [checked] at fields
  obtain ⟨phoff, phentsize, phnum⟩ := of_decide_eq_true fields
  intro i listed _
  rw [phnum] at listed
  have small {phdr : Elf64Phdr} (found : phdrAt tidyElf header i = some phdr) :
      phdr.offset + phdr.filesz < 2 ^ 64 ∧ phdr.vaddr + phdr.memsz + pageSize < 2 ^ 64 ∧
        phdr.vaddr + phdr.filesz ≤ 2 ^ 64 := by
    rw [phdrAt, phoff, phentsize] at found
    have headers : ∀ j < 2, ((checkedAdd 64 (j * 56)).bind (readPhdr tidyElf)).all (fun phdr =>
        decide (phdr.offset + phdr.filesz < 2 ^ 64 ∧ phdr.vaddr + phdr.memsz + pageSize < 2 ^ 64 ∧
          phdr.vaddr + phdr.filesz ≤ 2 ^ 64)) = true := by
      decide +kernel
    have here := headers i listed
    rw [found] at here
    exact of_decide_eq_true here
  refine ⟨?_, fun phdr found _ _ => (small found).2.2⟩
  rintro (offset | ⟨phdr, found, _, sum | ⟨_, range⟩⟩)
  · rw [phoff, phentsize] at offset
    omega
  · exact absurd (small found).1 (by omega)
  · exact absurd (small found).2.1 (by omega)

/-- A segment of 2 ^ 64 - 1 bytes at offset 1 of the file. -/
def wrappingElf : List Byte := encodeElf [⟨ptLoad, 6, 1, 0x400000, 0xFFFFFFFFFFFFFFFF, 0⟩] []

end RustPosix.Process
