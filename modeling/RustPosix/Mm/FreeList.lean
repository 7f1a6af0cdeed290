import RustPosix.Library.Chain
import RustPosix.Mm.Heap

/-! The free list of the heap as a list of regions, and what the allocator's functions on
the nodes in memory do to that list. -/

namespace RustPosix.Mm

open Library

section Rounding

variable {x align rounded : Nat}

theorem clearLow_eq (power : align.isPowerOfTwo) : clearLow x align = x - x % align := by
  obtain ⟨exponent, rfl⟩ := power
  rw [clearLow, Nat.and_two_pow_sub_one_eq_mod]

theorem roundUp_eq_ok (power : align.isPowerOfTwo) :
    roundUp x align = .ok rounded ↔
      x + align < 2 ^ 64 ∧ rounded % align = 0 ∧ x ≤ rounded ∧ rounded < x + align := by
  have positive : 0 < align := Nat.pos_of_isPowerOfTwo power
  unfold roundUp
  cases sum : checkedAdd x align with
  | none =>
    have large := checkedAdd_eq_none.mp sum
    exact ⟨nofun, fun holds => absurd holds.1 (Nat.not_lt.mpr large)⟩
  | some total =>
    obtain ⟨fits, rfl⟩ := checkedAdd_eq_some.mp sum
    simp only [Except.ok.injEq, clearLow_eq power, fits, true_and]
    have below := Nat.mod_lt (x + align - 1) positive
    constructor
    · rintro rfl
      refine ⟨Nat.mod_eq_zero_of_dvd (Nat.dvd_sub_mod _), ?_, ?_⟩ <;> omega
    · rintro ⟨aligned, low, high⟩
      -- both are the multiple in a window of `align` numbers
      obtain ⟨quotient, rfl⟩ := Nat.dvd_of_mod_eq_zero aligned
      have quot : (x + align - 1) / align = quotient := by
        rw [Nat.div_eq_iff positive]
        rw [Nat.mul_comm] at low high
        omega
      have split := Nat.div_add_mod (x + align - 1) align
      rw [quot] at split
      omega

theorem roundUp_error {halt : Halt} (failed : roundUp x align = .error halt) :
    halt = .panicked := by
  unfold roundUp at failed
  split at failed
  · cases failed
    rfl
  · cases failed

theorem nodeAlign_power : nodeAlign.isPowerOfTwo := ⟨3, rfl⟩

end Rounding

/-- `add_free_region` on the list of regions -/
def addRegion (free : List Extent) (addr size : Nat) : Except Halt (List Extent) := do
  let start ← roundUp addr nodeAlign
  if size ≤ start - addr + nodeSize then return free
  return ⟨start, size - (start - addr)⟩ :: free

/-- A region that was found, where the block starts in it, and the regions around it. -/
structure Found where
  before : List Extent
  region : Extent
  start : Nat
  behind : List Extent

/-- `find_region` on the list of regions -/
def findIn (size align : Nat) : List Extent → Except Halt (Option Found)
  | [] => .ok none
  | region :: rest =>
    match judge size align region.start region.size with
    | .error halt => .error halt
    | .ok .fails => .ok none
    | .ok (.takes start) => .ok (some ⟨[], region, start, rest⟩)
    | .ok .passes =>
      (findIn size align rest).map fun found =>
        found.map fun found => { found with before := region :: found.before }

section Search

variable {size align start : Nat} {region : Extent} {free rest : List Extent} {found : Found}
  {halt : Halt}

/-- The block fits in the region, which ends within a machine word. -/
structure Fits (size align : Nat) (region : Extent) (start : Nat) : Prop where
  rounds : roundUp region.start align = .ok start
  room : start + size ≤ region.stop
  word : region.stop < 2 ^ 64

/-- The block does not fit in the region, and the search goes on. -/
structure Passed (size align : Nat) (region : Extent) : Prop where
  word : region.stop < 2 ^ 64
  short : ∃ start, roundUp region.start align = .ok start ∧ start + size < 2 ^ 64 ∧
    region.stop < start + size

theorem judge_error (failed : judge size align region.start region.size = .error halt) :
    halt = .panicked := by
  unfold judge at failed
  split at failed
  · rename_i halt rounding
    cases failed
    exact roundUp_error rounding
  · split at failed <;> cases failed

theorem judge_takes :
    judge size align region.start region.size = .ok (.takes start) ↔
      Fits size align region start := by
  unfold judge
  constructor
  · intro judged
    split at judged
    · cases judged
    · rename_i allocStart rounds
      split at judged
      · rename_i allocEnd regionEnd first second
        obtain ⟨-, rfl⟩ := checkedAdd_eq_some.mp first
        obtain ⟨word, rfl⟩ := checkedAdd_eq_some.mp second
        split at judged
        · rename_i room
          cases judged
          exact ⟨rounds, room, word⟩
        · cases judged
      · cases judged
  · intro fits
    have word : region.start + region.size < 2 ^ 64 := fits.word
    have room : start + size ≤ region.start + region.size := fits.room
    have first := checkedAdd_eq_some.mpr ⟨Nat.lt_of_le_of_lt room word, rfl⟩
    have second := checkedAdd_eq_some.mpr ⟨word, rfl⟩
    simp only [fits.rounds, first, second, if_pos room]

theorem judge_passes :
    judge size align region.start region.size = .ok .passes ↔ Passed size align region := by
  unfold judge
  constructor
  · intro judged
    split at judged
    · cases judged
    · rename_i allocStart rounds
      split at judged
      · rename_i allocEnd regionEnd first second
        obtain ⟨small, rfl⟩ := checkedAdd_eq_some.mp first
        obtain ⟨word, rfl⟩ := checkedAdd_eq_some.mp second
        split at judged
        · cases judged
        · rename_i short
          exact ⟨word, allocStart, rounds, small, Nat.not_le.mp short⟩
      · cases judged
  · rintro ⟨word, start, rounds, small, short⟩
    have first := checkedAdd_eq_some.mpr ⟨small, rfl⟩
    have second := checkedAdd_eq_some.mpr ⟨word, rfl⟩
    simp only [rounds, first, second, Extent.stop] at short ⊢
    rw [if_neg (Nat.not_le.mpr short)]

/-- What a successful search finds: the first region with room. -/
structure Found.First (size align : Nat) (free : List Extent) (found : Found) : Prop where
  split : free = found.before ++ found.region :: found.behind
  fits : Fits size align found.region found.start
  passed : ∀ region ∈ found.before, Passed size align region

theorem findIn_error (failed : findIn size align free = .error halt) : halt = .panicked := by
  induction free with
  | nil => cases failed
  | cons region rest ih =>
    unfold findIn at failed
    split at failed
    · rename_i judged
      cases failed
      exact judge_error judged
    · cases failed
    · cases failed
    · cases later : findIn size align rest with
      | error halt =>
        rw [later] at failed
        cases failed
        exact ih later
      | ok found =>
        rw [later] at failed
        cases failed

theorem findIn_eq_some :
    findIn size align free = .ok (some found) ↔ found.First size align free := by
  constructor
  · intro searched
    induction free generalizing found with
    | nil => cases searched
    | cons region rest ih =>
      unfold findIn at searched
      split at searched
      · cases searched
      · cases searched
      · rename_i start judged
        cases searched
        exact ⟨rfl, judge_takes.mp judged, nofun⟩
      · rename_i judged
        cases later : findIn size align rest with
        | error halt =>
          rw [later] at searched
          cases searched
        | ok result =>
          rw [later] at searched
          obtain ⟨deeper, rfl, rfl⟩ := Option.map_eq_some_iff.mp (Except.ok.inj searched)
          have first := ih later
          refine ⟨congrArg (region :: ·) first.split, first.fits, ?_⟩
          intro other member
          rcases List.mem_cons.mp member with rfl | member
          · exact judge_passes.mp judged
          · exact first.passed other member
  · rintro ⟨rfl, fits, passed⟩
    obtain ⟨before, region, start, behind⟩ := found
    induction before with
    | nil =>
      have judged := judge_takes.mpr fits
      dsimp only [List.nil_append] at judged ⊢
      rw [findIn, judged]
    | cons other before ih =>
      have judged := judge_passes.mpr (passed other List.mem_cons_self)
      have later := ih fits fun region member => passed region (List.mem_cons_of_mem _ member)
      dsimp only at later ⊢
      rw [List.cons_append, findIn, judged, later]
      rfl

end Search

namespace Heap

variable {mem after : Memory} {node other : Nat}

/-- The header of a node is its first sixteen bytes. -/
theorem header_congr (same : ∀ offset < 16, after (node + offset) = mem (node + offset)) :
    sizeAt after node = sizeAt mem node ∧ nextAt after node = nextAt mem node := by
  have size : after.read64 node = mem.read64 node :=
    Memory.read64_congr fun offset small => same offset (by omega)
  have next : after.read64 (node + 8) = mem.read64 (node + 8) :=
    Memory.read64_congr fun offset small => by
      rw [Nat.add_assoc]
      exact same (8 + offset) (by omega)
  exact ⟨by rw [sizeAt, sizeAt, size], by rw [nextAt, nextAt, next]⟩

theorem setNext_outside {next : Option Nat} {addr : Nat}
    (outside : ¬ (node + 8 ≤ addr ∧ addr < node + 16)) : setNext mem node next addr = mem addr := by
  unfold setNext Memory.write64
  exact Memory.patch_outside (by omega)

theorem setSize_outside {size addr : Nat} (outside : ¬ (node ≤ addr ∧ addr < node + 8)) :
    setSize mem node size addr = mem addr := by
  unfold setSize Memory.write64
  exact Memory.patch_outside outside

theorem nextAt_setNext {next : Option Nat} (valid : ∀ node ∈ next, 0 < node ∧ node < 2 ^ 64) :
    nextAt (setNext mem node next) node = next := by
  unfold nextAt setNext
  rw [Memory.read64_write64, BitVec.toNat_ofNat]
  cases next with
  | none => rfl
  | some next =>
    obtain ⟨positive, small⟩ := valid next rfl
    simp only [Option.getD_some, Nat.mod_eq_of_lt small]
    rw [if_neg (Nat.ne_of_gt positive)]

theorem sizeAt_setNext {next : Option Nat} : sizeAt (setNext mem node next) node = sizeAt mem node := by
  unfold sizeAt setNext
  rw [Memory.write64, Memory.read64_patch_outside (Or.inl (Nat.le_refl _))]

theorem sizeAt_setSize {size : Nat} (small : size < 2 ^ 64) :
    sizeAt (setSize mem node size) node = size := by
  unfold sizeAt setSize
  rw [Memory.read64_write64, BitVec.toNat_ofNat, Nat.mod_eq_of_lt small]

/-- The nodes in memory are the regions of the list. -/
structure Lists (heap : Heap) (free : List Extent) : Prop where
  chain : Chain (nextAt heap.mem) heap.head (free.map Extent.start)
  sizes : ∀ region ∈ free, sizeAt heap.mem region.start = region.size

end Heap

/-- Disjoint regions of valid memory, each with room for more than a header. -/
structure Laid (free : List Extent) : Prop where
  apart : free.Pairwise Extent.Apart
  roomy : ∀ region ∈ free, nodeSize < region.size
  low : ∀ region ∈ free, 0 < region.start
  high : ∀ region ∈ free, region.stop ≤ 2 ^ 64

namespace Laid

variable {free before behind : List Extent} {region other : Extent}

theorem middle (laid : Laid (before ++ region :: behind)) (member : other ∈ before ++ behind) :
    region.Apart other := by
  have front := (List.perm_middle.pairwise_iff Extent.Apart.symm).mp laid.apart
  exact (List.pairwise_cons.mp front).1 other member

theorem sublist (laid : Laid free) {fewer : List Extent} (less : fewer.Sublist free) :
    Laid fewer :=
  ⟨laid.apart.sublist less, fun region member => laid.roomy region (less.subset member),
    fun region member => laid.low region (less.subset member),
    fun region member => laid.high region (less.subset member)⟩

/-- A reference to a node is a machine word other than zero. -/
theorem valid (laid : Laid free) (member : region ∈ free) :
    0 < region.start ∧ region.start < 2 ^ 64 := by
  have high := laid.high region member
  have roomy := laid.roomy region member
  unfold Extent.stop at high
  exact ⟨laid.low region member, by omega⟩

end Laid

namespace Heap

variable {heap after : Heap} {free other : List Extent} {region : Extent} {size align addr : Nat}

namespace Lists

theorem congr (lists : heap.Lists free) (head : after.head = heap.head)
    (same : ∀ region ∈ free, ∀ offset < 16,
      after.mem (region.start + offset) = heap.mem (region.start + offset)) :
    after.Lists free := by
  constructor
  · rw [head]
    apply lists.chain.congr
    intro node member
    obtain ⟨region, inside, rfl⟩ := List.mem_map.mp member
    exact (header_congr (same region inside)).2
  · intro region member
    rw [(header_congr (same region member)).1, lists.sizes region member]

/-- The memory determines the list. -/
theorem unique (lists : heap.Lists free) (also : heap.Lists other) : free = other := by
  have restore : ∀ {free : List Extent}, heap.Lists free →
      (free.map Extent.start).map (fun start => ⟨start, sizeAt heap.mem start⟩) = free := by
    intro free lists
    rw [List.map_map]
    refine (List.map_congr_left fun region member => ?_).trans (List.map_id free)
    rw [Function.comp_apply, lists.sizes region member, id]
  rw [← restore lists, ← restore also, lists.chain.unique also.chain]

theorem head_valid (lists : heap.Lists free) (laid : Laid free) :
    ∀ node ∈ heap.head, 0 < node ∧ node < 2 ^ 64 := by
  intro node here
  cases free with
  | nil => cases here.symm.trans lists.chain
  | cons region rest =>
    obtain rfl := Option.some.inj (here.symm.trans lists.chain.1)
    exact laid.valid List.mem_cons_self

theorem next_valid (lists : heap.Lists free) (laid : Laid free) {before behind : List Extent}
    (split : free = before ++ region :: behind) :
    ∀ node ∈ nextAt heap.mem region.start, 0 < node ∧ node < 2 ^ 64 := by
  intro node here
  have chain := lists.chain
  rw [split, List.map_append, List.map_cons] at chain
  have rest := chain.from_node
  cases behind with
  | nil => cases here.symm.trans rest
  | cons next behind =>
    obtain rfl := Option.some.inj (here.symm.trans rest.1)
    exact laid.valid (by rw [split]; simp)

/-- A header that names the head of the list puts a region in front of it. -/
theorem push (lists : heap.Lists free) {mem : Memory} (region : Extent)
    (frame : ∀ other ∈ free, ∀ offset < 16,
      mem (other.start + offset) = heap.mem (other.start + offset))
    (size : sizeAt mem region.start = region.size)
    (next : nextAt mem region.start = heap.head) :
    Lists { heap with mem := mem, head := some region.start } (region :: free) := by
  have old : Lists { heap with mem := mem } free := lists.congr rfl frame
  refine ⟨⟨rfl, ?_⟩, ?_⟩
  · rw [next]
    exact old.chain
  · intro other member
    rcases List.mem_cons.mp member with rfl | member
    · exact size
    · exact old.sizes other member

theorem addFreeRegion (lists : heap.Lists free) (laid : Laid free)
    (apart : ∀ region ∈ free, Extent.Apart ⟨addr, size⟩ region) (high : addr + size ≤ 2 ^ 64)
    (positive : 0 < addr) (done : heap.addFreeRegion addr size = .ok after) :
    ∃ added, addRegion free addr size = .ok added ∧ after.Lists added ∧ after.used = heap.used := by
  unfold Heap.addFreeRegion at done
  unfold addRegion
  cases rounds : roundUp addr nodeAlign with
  | error halt =>
    rw [rounds] at done
    cases done
  | ok start =>
    obtain ⟨-, -, low, near⟩ := (roundUp_eq_ok nodeAlign_power).mp rounds
    rw [rounds] at done
    simp only [bind, Except.bind, pure, Except.pure] at done ⊢
    split at done
    · rename_i small
      cases done
      exact ⟨free, if_pos small, lists, rfl⟩
    · rename_i large
      cases done
      refine ⟨_, if_neg large, ?_, rfl⟩
      unfold nodeSize at large
      -- the header is written inside the new region
      have frame : ∀ region ∈ free, ∀ offset < 16,
          setNext (setSize heap.mem start (size - (start - addr))) start heap.head
            (region.start + offset) = heap.mem (region.start + offset) := by
        intro region member offset small
        have between := apart region member
        have roomy := laid.roomy region member
        unfold Extent.Apart Extent.stop at between
        unfold nodeSize at roomy
        dsimp only at between
        rw [setNext_outside (by omega), setSize_outside (by omega)]
      have header : sizeAt (setNext (setSize heap.mem start (size - (start - addr))) start heap.head)
          start = size - (start - addr) := by
        rw [sizeAt_setNext, sizeAt_setSize (by omega)]
      exact lists.push ⟨start, size - (start - addr)⟩ frame header
        (nextAt_setNext (lists.head_valid laid))

end Lists

/-- The heap without the region found behind `current` -/
def unlinked (heap : Heap) (current : Option Nat) (found : Found) : Heap :=
  { heap with mem := setNext heap.mem found.region.start none }.linkTo
    ((found.before.getLast?.map Extent.start).or current) (nextAt heap.mem found.region.start)

/-- The walk over the nodes is the search in the list. -/
theorem findFrom_eq {passes : Nat} {current : Option Nat}
    (chain : Chain (nextAt heap.mem) (heap.nextOf current) (free.map Extent.start))
    (sizes : ∀ region ∈ free, sizeAt heap.mem region.start = region.size)
    (enough : free.length < passes) :
    heap.findFrom size align passes current = (findIn size align free).map fun found =>
      found.map fun found => (found.region.start, found.start, heap.unlinked current found) := by
  induction free generalizing passes current with
  | nil =>
    obtain ⟨passes, rfl⟩ := Nat.exists_eq_succ_of_ne_zero (Nat.ne_of_gt enough)
    have ended : heap.nextOf current = none := chain
    rw [findFrom, ended]
    rfl
  | cons region rest ih =>
    obtain ⟨passes, rfl⟩ := Nat.exists_eq_succ_of_ne_zero (Nat.ne_of_gt (Nat.zero_lt_of_lt enough))
    have here : heap.nextOf current = some region.start := chain.1
    rw [findFrom, here, findIn]
    dsimp only
    rw [sizes region List.mem_cons_self]
    cases judge size align region.start region.size with
    | error halt => rfl
    | ok verdict =>
      cases verdict with
      | fails => rfl
      | takes start => rfl
      | passes =>
        have later : Chain (nextAt heap.mem) (heap.nextOf (some region.start))
            (rest.map Extent.start) := chain.2
        dsimp only
        rw [ih later (fun region member => sizes region (List.mem_cons_of_mem _ member))
          (Nat.lt_of_succ_lt_succ enough)]
        cases findIn size align rest with
        | error halt => rfl
        | ok found =>
          cases found with
          | none => rfl
          | some found =>
            have same : heap.unlinked (some region.start) found =
                heap.unlinked current { found with before := region :: found.before } := by
              unfold unlinked
              rw [List.getLast?_cons]
              cases found.before.getLast? <;> rfl
            simp only [Except.map, Option.map_some, same]

/-- Writing the link of one node leaves the headers of the others. -/
theorem setNext_frame {mem : Memory} {next : Option Nat} {other : Extent}
    (apart : region.Apart other) (roomy : nodeSize < region.size) (roomy' : nodeSize < other.size) :
    ∀ offset < 16, setNext mem region.start next (other.start + offset) =
      mem (other.start + offset) := by
  intro offset small
  unfold Extent.Apart Extent.stop at apart
  unfold nodeSize at roomy roomy'
  exact setNext_outside (by omega)

theorem Lists.unlink_first {behind : List Extent} (lists : heap.Lists (region :: behind))
    (laid : Laid (region :: behind)) :
    Lists { heap with mem := setNext heap.mem region.start none,
                      head := nextAt heap.mem region.start } behind := by
  have frame : ∀ other ∈ behind, ∀ offset < 16,
      setNext heap.mem region.start none (other.start + offset) =
        heap.mem (other.start + offset) := fun other member =>
    setNext_frame ((List.pairwise_cons.mp laid.apart).1 other member)
      (laid.roomy region List.mem_cons_self) (laid.roomy other (List.mem_cons_of_mem _ member))
  constructor
  · have chain : Chain (nextAt heap.mem) heap.head (region.start :: behind.map Extent.start) :=
      lists.chain
    have same : ∀ node ∈ behind.map Extent.start,
        nextAt (setNext heap.mem region.start none) node = nextAt heap.mem node := by
      intro node member
      obtain ⟨other, inside, rfl⟩ := List.mem_map.mp member
      exact (header_congr (frame other inside)).2
    dsimp only
    exact chain.unlink_first same
  · intro other member
    rw [(header_congr (frame other member)).1, lists.sizes other (List.mem_cons_of_mem _ member)]

theorem Lists.unlink_later {front behind : List Extent} {previous : Extent}
    (lists : heap.Lists (front ++ previous :: region :: behind))
    (laid : Laid (front ++ previous :: region :: behind)) :
    Lists { heap with mem := setNext (setNext heap.mem region.start none) previous.start
                        (nextAt heap.mem region.start) } (front ++ previous :: behind) := by
  have split : front ++ previous :: region :: behind = (front ++ [previous]) ++ region :: behind := by
    simp
  have next := lists.next_valid laid split
  have previousApart : ∀ other ∈ front ++ region :: behind, previous.Apart other :=
    fun other member => laid.middle member
  have regionApart : ∀ other ∈ (front ++ [previous]) ++ behind, region.Apart other := by
    rw [split] at laid
    exact fun other member => laid.middle member
  have regionRoomy := laid.roomy region (by simp)
  have previousRoomy := laid.roomy previous (by simp)
  have first : ∀ other ∈ front ++ previous :: behind, ∀ offset < 16,
      setNext heap.mem region.start none (other.start + offset) =
        heap.mem (other.start + offset) := by
    intro other member
    have inside : other ∈ (front ++ [previous]) ++ behind := by simpa using member
    refine setNext_frame (regionApart other inside) regionRoomy (laid.roomy other ?_)
    simp only [List.mem_append, List.mem_cons] at member ⊢
    tauto
  have frame : ∀ other ∈ front ++ behind, ∀ offset < 16,
      setNext (setNext heap.mem region.start none) previous.start (nextAt heap.mem region.start)
        (other.start + offset) = heap.mem (other.start + offset) := by
    intro other member offset small
    have inside : other ∈ front ++ region :: behind := by
      simp only [List.mem_append, List.mem_cons] at member ⊢
      tauto
    have before : other ∈ front ++ previous :: behind := by
      simp only [List.mem_append, List.mem_cons] at member ⊢
      tauto
    have all : other ∈ front ++ previous :: region :: behind := by
      simp only [List.mem_append, List.mem_cons] at member ⊢
      tauto
    rw [setNext_frame (previousApart other inside) previousRoomy (laid.roomy other all) offset small,
      first other before offset small]
  constructor
  · have chain := lists.chain
    simp only [List.map_append, List.map_cons] at chain ⊢
    refine chain.unlink (nextAt_setNext next) ?_
    intro node member
    rw [← List.map_append] at member
    obtain ⟨other, inside, rfl⟩ := List.mem_map.mp member
    exact (header_congr (frame other inside)).2
  · intro other member
    by_cases same : other = previous
    · subst same
      dsimp only
      rw [sizeAt_setNext, (header_congr (first other (by simp))).1, lists.sizes other (by simp)]
    · have inside : other ∈ front ++ behind := by
        simp only [List.mem_append, List.mem_cons] at member ⊢
        tauto
      have all : other ∈ front ++ previous :: region :: behind := by
        simp only [List.mem_append, List.mem_cons] at inside ⊢
        tauto
      rw [(header_congr (frame other inside)).1, lists.sizes other all]

/-- Taking out the region that was found leaves the regions around it. -/
theorem Lists.unlinked {found : Found} (lists : heap.Lists free) (laid : Laid free)
    (split : free = found.before ++ found.region :: found.behind) :
    (heap.unlinked none found).Lists (found.before ++ found.behind) ∧
      sizeAt (heap.unlinked none found).mem found.region.start = found.region.size := by
  subst split
  obtain ⟨before, region, start, behind⟩ := found
  have size := lists.sizes region (by simp)
  rcases List.eq_nil_or_concat before with rfl | ⟨front, previous, rfl⟩
  · refine ⟨lists.unlink_first laid, ?_⟩
    exact sizeAt_setNext.trans size
  · rw [List.concat_eq_append] at *
    have last : heap.unlinked none ⟨front ++ [previous], region, start, behind⟩ =
        { heap with mem := setNext (setNext heap.mem region.start none) previous.start
                            (nextAt heap.mem region.start) } := by
      unfold Heap.unlinked
      rw [List.getLast?_concat]
      rfl
    have regroup : front ++ [previous] ++ region :: behind =
        front ++ previous :: region :: behind := by simp
    have regroup' : front ++ [previous] ++ behind = front ++ previous :: behind := by simp
    dsimp only at *
    rw [regroup] at lists laid
    rw [last, regroup']
    refine ⟨lists.unlink_later laid, ?_⟩
    have apart : previous.Apart region := laid.middle (by simp)
    have frame : ∀ offset < 16, setNext (setNext heap.mem region.start none) previous.start
        (nextAt heap.mem region.start) (region.start + offset) =
          setNext heap.mem region.start none (region.start + offset) :=
      setNext_frame apart (laid.roomy previous (by simp)) (laid.roomy region (by simp))
    rw [(header_congr frame).1, sizeAt_setNext, size]

end Heap

end RustPosix.Mm
