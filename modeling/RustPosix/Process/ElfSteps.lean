import RustPosix.Mm.SpaceSteps
import RustPosix.Process.Elf

/-! The loader as a sequence of mappings and stores: a relation kept by each of
them is kept by `load_elf`, whether it returns or fails. -/

namespace RustPosix.Process

open Library Mm

/-- The program header with the given index, if the file holds it. -/
def phdrAt (elfBytes : List Byte) (header : Elf64Header) (i : Nat) : Option Elf64Phdr :=
  (checkedAdd header.phoff (i * header.phentsize)).bind (readPhdr elfBytes)

/-- The loader gives up at this segment before it changes anything. -/
def Stops (elfBytes : List Byte) (phdr : Elf64Phdr) : Prop :=
  elfBytes.length < phdr.offset + phdr.filesz ∨ 2 ^ 64 ≤ phdr.offset + phdr.filesz ∨
    2 ^ 64 ≤ phdr.vaddr + phdr.memsz + pageSize

instance : Decidable (Stops elfBytes phdr) := inferInstanceAs (Decidable (_ ∨ _ ∨ _))

/-- The `PT_LOAD` headers that the loader comes to, in its order, with as much
memory as it may need. -/
def reachedLoads (elfBytes : List Byte) (header : Elf64Header) : List Nat → List Elf64Phdr
  | [] => []
  | i :: rest =>
    match phdrAt elfBytes header i with
    | none => []
    | some phdr =>
      if phdr.type ≠ ptLoad then reachedLoads elfBytes header rest
      else if Stops elfBytes phdr then []
      else phdr :: reachedLoads elfBytes header rest

/-- The `PT_LOAD` headers of a file that the loader comes to. -/
def ptLoads (elfBytes : List Byte) : List Elf64Phdr :=
  match checkHeader elfBytes with
  | .ok header => reachedLoads elfBytes header (List.range header.phnum)
  | .error _ => []

/-- The `PT_LOAD` headers of a file among those with the given indices. -/
def loadHeaders (elfBytes : List Byte) (header : Elf64Header) (indices : List Nat) :
    List Elf64Phdr :=
  (indices.filterMap (phdrAt elfBytes header)).filter fun phdr => phdr.type = ptLoad

/-- All `PT_LOAD` headers of a file. -/
def segments (elfBytes : List Byte) : List Elf64Phdr :=
  match checkHeader elfBytes with
  | .ok header => loadHeaders elfBytes header (List.range header.phnum)
  | .error _ => []

/-- A segment the loader gives up at leaves everything as it was. -/
theorem loadSegment_stops {elfBytes : List Byte} {phdr : Elf64Phdr} (stops : Stops elfBytes phdr)
    (phoff phdrVaddr : Nat) (state : VmState) :
    ∃ fault, loadSegment elfBytes phoff phdrVaddr phdr state = (.error fault, state) := by
  rw [loadSegment]
  by_cases overflow : 2 ^ 64 ≤ phdr.offset + phdr.filesz
  · rw [checkedAdd, if_neg (by omega)]
    exact ⟨.panicked, rfl⟩
  · rw [checkedAdd, if_pos (by omega)]
    dsimp only
    by_cases outside : phdr.offset + phdr.filesz > elfBytes.length
    · rw [if_pos outside]
      exact ⟨_, rfl⟩
    · have huge : 2 ^ 64 ≤ phdr.vaddr + phdr.memsz + pageSize :=
        (stops.resolve_left (by omega)).resolve_left overflow
      have panics : (checkedAdd phdr.vaddr phdr.memsz).bind alignUp = none := by
        rw [checkedAdd]
        split
        · rw [Option.bind_some, alignUp, checkedAdd, if_neg (by omega)]
          rfl
        · rfl
      rw [if_neg outside, Action.bind_apply, VmSpace.allocAndMapRange, panics]
      exact ⟨.panicked, rfl⟩

/-- A segment is mapped and then filled, and every way to stop leaves one of the states of `fails`. -/
theorem loadSegment_of_steps {elfBytes : List Byte} {phoff phdrVaddr : Nat} {phdr : Elf64Phdr}
    {state : VmState} {mapped filled fails : VmState → Prop} (unchanged : fails state)
    (map : Yields (VmSpace.allocAndMapRange phdr.vaddr phdr.memsz (segmentFlags phdr) state)
      (fun _ after => mapped after) fun _ after => fails after)
    (write : ∀ middle, mapped middle →
      Yields (VmSpace.writeBytesToSpace phdr.vaddr (segmentData elfBytes phdr) middle)
        (fun _ after => filled after) fun _ after => fails after)
    (empty : phdr.filesz = 0 → ∀ middle, mapped middle → filled middle)
    (lost : ∀ after, filled after → fails after) :
    Yields (loadSegment elfBytes phoff phdrVaddr phdr state) (fun _ after => filled after)
      fun _ after => fails after := by
  rw [loadSegment]
  cases checkedAdd phdr.offset phdr.filesz with
  | none => exact unchanged
  | some stop =>
    dsimp only
    by_cases outside : stop > elfBytes.length
    · rw [if_pos outside]
      exact unchanged
    · rw [if_neg outside]
      refine Yields.bind map (fun _ middle held => ?_) fun _ _ stopped => stopped
      by_cases data : phdr.filesz > 0
      · rw [if_pos data]
        refine Yields.bind (write middle held) (fun _ after done => ?_) fun _ _ stopped => stopped
        cases locatePhdrs phoff phdrVaddr phdr with
        | none => exact lost after done
        | some located => exact done
      · rw [if_neg data]
        have done := empty (Nat.eq_zero_of_not_pos data) middle held
        cases locatePhdrs phoff phdrVaddr phdr with
        | none => exact lost middle done
        | some located => exact done

section Keeping

variable {relation : VmState → VmState → Prop} (reflexive : ∀ state, relation state state)
  (transitive : ∀ first second third, relation first second → relation second third →
    relation first third)

include reflexive transitive in
theorem loadSegment_ensures {elfBytes : List Byte} {phoff phdrVaddr : Nat} {phdr : Elf64Phdr}
    (map : Ensures relation
      (VmSpace.allocAndMapRange phdr.vaddr phdr.memsz (segmentFlags phdr)) fun _ => True)
    (write : Ensures relation
      (VmSpace.writeBytesToSpace phdr.vaddr (segmentData elfBytes phdr)) fun _ => True) :
    Ensures relation (loadSegment elfBytes phoff phdrVaddr phdr) fun _ => True := by
  intro state
  have settled := @loadSegment_of_steps elfBytes phoff phdrVaddr phdr state (relation state)
    (relation state) (relation state) (reflexive state)
    ((map state).mono (fun _ _ both => both.1) fun _ _ held => held)
    (fun middle held => (write middle).mono
      (fun _ after both => transitive state middle after held both.1)
      fun _ after kept => transitive state middle after held kept)
    (fun _ _ held => held) fun _ held => held
  exact settled.mono (fun _ _ held => ⟨held, trivial⟩) fun _ _ held => held

section Stack

variable (write : ∀ virt data, stackBottom ≤ virt → virt + data.length ≤ userStackTop →
  Ensures relation (VmSpace.writeBytesToSpace virt data) fun _ => True)

include reflexive transitive write

theorem pushStrings_ensures (tooBig : String) (strings : List (List Byte)) : ∀ sp,
    stackBottom ≤ sp → sp ≤ userStackTop → Ensures relation (pushStrings tooBig strings sp)
      fun result => stackBottom ≤ result.2 ∧ result.2 ≤ sp := by
  induction strings with
  | nil =>
    intro sp lower _
    exact Ensures.pure reflexive ⟨lower, Nat.le_refl _⟩
  | cons bytes rest ih =>
    intro sp lower upper
    rw [pushStrings]
    split
    · exact Ensures.fail reflexive _
    · refine Ensures.bind transitive (write _ bytes (by omega) (by omega)) fun _ _ => ?_
      refine Ensures.bind transitive
        (write _ [0] (by omega) (by simp only [List.length_singleton]; omega)) fun _ _ => ?_
      refine Ensures.bind transitive (ih (sp - (bytes.length + 1)) (by omega) (by omega)) ?_
      rintro ⟨pointers, last⟩ bounds
      exact Ensures.pure reflexive ⟨bounds.1, by omega⟩

theorem pushWords_ensures (words : List Nat) : ∀ sp, stackBottom + 8 * words.length ≤ sp →
    sp ≤ userStackTop → Ensures relation (pushWords words sp)
      fun result => result + 8 * words.length = sp := by
  induction words with
  | nil =>
    intro sp _ _
    exact Ensures.pure reflexive rfl
  | cons word rest ih =>
    intro sp lower upper
    rw [List.length_cons] at lower
    rw [pushWords]
    refine Ensures.bind transitive (write _ (leBytes 8 word) (by omega) ?_) fun _ _ => ?_
    · simp only [leBytes, List.length_map, List.length_range]
      omega
    · refine (ih (sp - 8) (by omega) (by omega)).mono fun last moved => ?_
      rw [List.length_cons]
      omega

theorem setupUserStack_ensures (entryPoint phdrVaddr phentsize phnum : Nat)
    (argv envp : List (List Byte)) :
    Ensures relation (setupUserStack entryPoint phdrVaddr phentsize phnum argv envp)
      fun _ => True := by
  have bottom : stackBottom ≤ userStackTop := Nat.sub_le ..
  have strings := pushStrings_ensures reflexive transitive write
  have words := pushWords_ensures reflexive transitive write
  rw [setupUserStack]
  refine Ensures.bind transitive (strings _ envp userStackTop bottom (Nat.le_refl _)) ?_
  rintro ⟨envpPtrs, first⟩ ⟨firstLower, firstUpper⟩
  refine Ensures.bind transitive (strings _ argv first firstLower firstUpper) ?_
  rintro ⟨argvPtrs, second⟩ ⟨secondLower, secondUpper⟩
  dsimp only at *
  split
  · exact Ensures.fail reflexive _
  · split
    · exact Ensures.fail reflexive _
    · rename_i enough room
      simp only [auxVector, List.length_cons, List.length_nil, List.reverse_cons, List.reverse_nil,
        List.nil_append, List.cons_append, List.flatMap_cons, List.flatMap_nil] at *
      refine Ensures.bind transitive (words _ _ ?_ ?_) fun auxSp auxDone => ?_
      · simp only [List.length_cons, List.length_nil]
        omega
      · omega
      refine Ensures.bind transitive (words _ _ ?_ ?_) fun envSp envDone => ?_
      · simp only [List.length_cons, List.length_nil, List.length_reverse] at *
        omega
      · omega
      refine Ensures.bind transitive (words _ _ ?_ ?_) fun argSp argDone => ?_
      · simp only [List.length_cons, List.length_nil, List.length_reverse] at *
        omega
      · omega
      refine Ensures.bind transitive (words _ _ ?_ ?_) fun endSp endDone => ?_
      · simp only [List.length_cons, List.length_nil, List.length_reverse] at *
        omega
      · omega
      exact Ensures.ite (fun _ => Ensures.fail reflexive _) fun _ => Ensures.pure reflexive trivial

end Stack

section Segments

variable (elfBytes : List Byte) (header : Elf64Header) (loads : List Elf64Phdr)
  (segment : ∀ phdr ∈ loads, ∀ phdrVaddr,
    Ensures relation (loadSegment elfBytes header.phoff phdrVaddr phdr) fun _ => True)

include reflexive transitive segment

theorem loadSegments_ensures (indices : List Nat) :
    (∀ phdr ∈ reachedLoads elfBytes header indices, phdr ∈ loads) → ∀ phdrVaddr,
    Ensures relation (loadSegments elfBytes header indices phdrVaddr) fun _ => True := by
  induction indices with
  | nil => exact fun _ _ => Ensures.pure reflexive trivial
  | cons i rest ih =>
    intro covered phdrVaddr
    rw [loadSegments]
    split
    · exact Ensures.fail reflexive _
    · rename_i offset sum
      split
      · exact Ensures.fail reflexive _
      · rename_i phdr found
        have here : phdrAt elfBytes header i = some phdr := by rw [phdrAt, sum]; exact found
        rw [reachedLoads, here] at covered
        dsimp only at covered
        refine Ensures.ite (fun load => ?_) fun other => ?_
        · rw [if_neg (not_not_intro load)] at covered
          by_cases stops : Stops elfBytes phdr
          · intro state
            obtain ⟨fault, failed⟩ := loadSegment_stops stops header.phoff phdrVaddr state
            rw [Action.bind_apply, failed]
            exact reflexive state
          · rw [if_neg stops] at covered
            refine Ensures.bind transitive (segment phdr (covered phdr (List.mem_cons_self ..)) _)
              fun located _ => ih (fun next member => ?_) located
            exact covered next (List.mem_cons_of_mem _ member)
        · rw [if_pos other] at covered
          exact ih covered phdrVaddr

end Segments

include reflexive transitive in
/-- A relation that the three kinds of step keep is kept by `load_elf`. -/
theorem loadElf_ensures (elfBytes : List Byte) (argv envp : List (List Byte))
    (segment : ∀ phdr ∈ ptLoads elfBytes, ∀ phoff phdrVaddr,
      Ensures relation (loadSegment elfBytes phoff phdrVaddr phdr) fun _ => True)
    (stack : Ensures relation
      (VmSpace.allocAndMapRange stackBottom userStackSize PageFlags.userData) fun _ => True)
    (write : ∀ virt data, stackBottom ≤ virt → virt + data.length ≤ userStackTop →
      Ensures relation (VmSpace.writeBytesToSpace virt data) fun _ => True) :
    Ensures relation (loadElf elfBytes argv envp) fun _ => True := by
  rw [loadElf]
  split
  · exact Ensures.fail reflexive _
  · rename_i header checked
    have loads : ptLoads elfBytes = reachedLoads elfBytes header (List.range header.phnum) := by
      rw [ptLoads, checked]
    have segments := loadSegments_ensures reflexive transitive elfBytes header (ptLoads elfBytes)
      (fun phdr member => segment phdr member header.phoff) (List.range header.phnum)
      (fun phdr member => loads ▸ member) 0
    refine Ensures.bind transitive segments fun phdrVaddr _ => ?_
    refine Ensures.bind transitive stack fun _ _ => ?_
    refine Ensures.bind transitive
      (setupUserStack_ensures reflexive transitive write _ _ _ _ argv envp) fun _ _ => ?_
    exact Ensures.pure reflexive trivial

end Keeping

section Order

variable {elfBytes : List Byte}

/-- What each segment adds to, with those before it loaded, the loop builds up. -/
theorem loadSegments_yields {header : Elf64Header} {loads : List Elf64Phdr}
    {holds : List Elf64Phdr → VmState → Prop}
    (segment : ∀ done phdr state phdrVaddr, done ++ [phdr] <+: loads → holds done state →
      Yields (loadSegment elfBytes header.phoff phdrVaddr phdr state)
        (fun _ after => holds (done ++ [phdr]) after) fun _ _ => True)
    (indices : List Nat) :
    ∀ done state phdrVaddr, done ++ loadHeaders elfBytes header indices = loads →
      holds done state → Yields (loadSegments elfBytes header indices phdrVaddr state)
        (fun _ after => holds loads after) fun _ _ => True := by
  induction indices with
  | nil =>
    intro done state _ all held
    rw [loadHeaders, List.filterMap_nil, List.filter_nil, List.append_nil] at all
    exact all ▸ held
  | cons i rest ih =>
    intro done state phdrVaddr all held
    rw [loadSegments]
    cases sum : checkedAdd header.phoff (i * header.phentsize) with
    | none => exact trivial
    | some offset =>
      dsimp only
      cases found : readPhdr elfBytes offset with
      | none => exact trivial
      | some phdr =>
        have here : phdrAt elfBytes header i = some phdr := by rw [phdrAt, sum]; exact found
        dsimp only
        by_cases load : phdr.type = ptLoad
        · have headers : loadHeaders elfBytes header (i :: rest) =
              [phdr] ++ loadHeaders elfBytes header rest := by
            simp [loadHeaders, here, load]
          rw [headers, ← List.append_assoc] at all
          rw [if_pos load]
          exact Yields.bind (segment done phdr state phdrVaddr ⟨_, all⟩ held)
            (fun located middle next => ih _ middle located all next) fun _ _ _ => trivial
        · have headers : loadHeaders elfBytes header (i :: rest) =
              loadHeaders elfBytes header rest := by
            simp [loadHeaders, here, load]
          rw [headers] at all
          rw [if_neg load]
          exact ih done state phdrVaddr all held

/-- A load that returns has gone through its segments, its stack and its arguments. -/
theorem loadElf_yields (holds : List Elf64Phdr → VmState → Prop) (mapped final : VmState → Prop)
    {state : VmState} {argv envp : List (List Byte)} (start : holds [] state)
    (segment : ∀ done phdr state phoff phdrVaddr, done ++ [phdr] <+: segments elfBytes →
      holds done state → Yields (loadSegment elfBytes phoff phdrVaddr phdr state)
        (fun _ after => holds (done ++ [phdr]) after) fun _ _ => True)
    (stack : ∀ loaded, holds (segments elfBytes) loaded →
      Yields (VmSpace.allocAndMapRange stackBottom userStackSize PageFlags.userData loaded)
        (fun _ after => mapped after) fun _ _ => True)
    (arguments : ∀ entryPoint phdrVaddr phentsize phnum before, mapped before →
      Yields (setupUserStack entryPoint phdrVaddr phentsize phnum argv envp before)
        (fun _ after => final after) fun _ _ => True) :
    Yields (loadElf elfBytes argv envp state) (fun _ after => final after) fun _ _ => True := by
  rw [loadElf]
  cases checked : checkHeader elfBytes with
  | error fault => exact trivial
  | ok header =>
    have headers : loadHeaders elfBytes header (List.range header.phnum) = segments elfBytes := by
      rw [segments, checked]
    refine Yields.bind (loadSegments_yields
      (fun done phdr state => segment done phdr state header.phoff) _ [] state 0 headers start)
      (fun phdrVaddr loaded held => ?_) fun _ _ _ => trivial
    refine Yields.bind (stack loaded held) (fun _ before ready => ?_) fun _ _ _ => trivial
    exact Yields.bind (arguments _ _ _ _ before ready) (fun _ _ done => done) fun _ _ _ => trivial

end Order

end RustPosix.Process
