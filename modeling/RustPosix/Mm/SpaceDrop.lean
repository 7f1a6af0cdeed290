import RustPosix.Mm.SpaceNew

/-! Tearing an address space down frees its frames and no others. -/

namespace RustPosix.Mm

open Library

/-- The frame is at or below `phys`, with `level` levels of tables and the first index
under `slots`. -/
def Below (mem : Memory) (level slots phys frame : Nat) : Prop :=
  ∃ path node, path.length ≤ level ∧ (∀ idx ∈ path, idx < 512) ∧
    (∀ idx, path.head? = some idx → idx < slots) ∧
    walk (getTable mem) phys path = some node ∧ node / pageSize = frame

section Below

variable {mem : Memory} {level slots phys frame : Nat}

theorem below_zero : Below mem 0 slots phys frame ↔ phys / pageSize = frame := by
  constructor
  · rintro ⟨path, node, short, _, _, found, same⟩
    obtain rfl := List.eq_nil_of_length_eq_zero (Nat.le_zero.mp short)
    obtain rfl := Option.some.inj found
    exact same
  · exact fun same => ⟨[], phys, Nat.le_refl _, by simp, by simp, rfl, same⟩

theorem below_succ (small : slots ≤ 512) : Below mem (level + 1) slots phys frame ↔
    phys / pageSize = frame ∨ ∃ idx < slots, ∃ next, getTable mem phys idx = some next ∧
      Below mem level 512 next frame := by
  constructor
  · rintro ⟨path, node, short, within, first, found, same⟩
    cases path with
    | nil =>
      obtain rfl := Option.some.inj found
      exact .inl same
    | cons idx rest =>
      rw [walk] at found
      obtain ⟨next, here, deeper⟩ := Option.bind_eq_some_iff.mp found
      refine .inr ⟨idx, first idx rfl, next, here, rest, node, ?_, ?_, ?_, deeper, same⟩
      · simpa using short
      · exact fun slot member => within slot (List.mem_cons_of_mem _ member)
      · exact fun slot head => within slot (List.mem_cons_of_mem _ (List.mem_of_head? head))
  · rintro (same | ⟨idx, low, next, here, path, node, short, within, _, found, same⟩)
    · exact ⟨[], phys, Nat.zero_le _, by simp, by simp, rfl, same⟩
    · refine ⟨idx :: path, node, Nat.succ_le_succ short, ?_, ?_, ?_, same⟩
      · intro slot member
        rcases List.mem_cons.mp member with rfl | deeper
        · exact Nat.lt_of_lt_of_le low small
        · exact within slot deeper
      · intro slot head
        obtain rfl := Option.some.inj head
        exact low
      · rw [walk, here]
        exact found

end Below

/-- Freeing a list of frames in turn, read bit by bit. -/
theorem testBit_freeFrame_iff (pmm : PhysicalMemoryManager) (phys frame : Nat) :
    (pmm.freeFrame phys).testBit frame = false ↔
      pmm.testBit frame = false ∨ (phys / pageSize = frame ∧ frame < pmm.totalFrames) := by
  by_cases inside : phys / pageSize < pmm.totalFrames
  · rw [PhysicalMemoryManager.testBit_freeFrame _ _ _ inside]
    by_cases same : phys / pageSize = frame
    · rw [if_pos same]
      exact ⟨fun _ => .inr ⟨same, same ▸ inside⟩, fun _ => rfl⟩
    · rw [if_neg same]
      exact ⟨.inl, fun held => held.resolve_right fun other => same other.1⟩
  · rw [PhysicalMemoryManager.freeFrame, if_neg fun both => inside both.1]
    exact ⟨.inl, fun held => held.resolve_right fun other => inside (other.1 ▸ other.2)⟩

/-- The loop over the slots of a table. -/
def freeSlots (mem : Memory) (level phys count : Nat) (pmm : PhysicalMemoryManager) :
    PhysicalMemoryManager :=
  (List.range count).foldl (fun pmm idx =>
    match getTable mem phys idx with
    | some next => freeLevel mem level 512 next pmm
    | none => pmm) pmm

theorem freeSlots_succ (mem : Memory) (level phys count : Nat) (pmm : PhysicalMemoryManager) :
    freeSlots mem level phys (count + 1) pmm =
      match getTable mem phys count with
      | some next => freeLevel mem level 512 next (freeSlots mem level phys count pmm)
      | none => freeSlots mem level phys count pmm := by
  rw [freeSlots, List.range_succ, List.foldl_append]
  rfl

/-- A step of the teardown frees the managed frames with a property. -/
def Frees (pmm freed : PhysicalMemoryManager) (holds : Nat → Prop) : Prop :=
  freed.totalFrames = pmm.totalFrames ∧ ∀ frame, freed.testBit frame = false ↔
    pmm.testBit frame = false ∨ (holds frame ∧ frame < pmm.totalFrames)

theorem freeSlots_frees {mem : Memory} {level phys : Nat} {pmm : PhysicalMemoryManager}
    (deeper : ∀ next pmm, Frees pmm (freeLevel mem level 512 next pmm) (Below mem level 512 next))
    (count : Nat) : Frees pmm (freeSlots mem level phys count pmm) fun frame =>
      ∃ idx < count, ∃ next, getTable mem phys idx = some next ∧ Below mem level 512 next frame := by
  induction count with
  | zero =>
    refine ⟨rfl, fun frame => ⟨.inl, fun held => held.resolve_right ?_⟩⟩
    rintro ⟨⟨idx, low, _⟩, _⟩
    exact Nat.not_lt_zero idx low
  | succ count ih =>
    obtain ⟨total, bits⟩ := ih
    rw [freeSlots_succ]
    cases here : getTable mem phys count with
    | none =>
      refine ⟨total, fun frame => (bits frame).trans ?_⟩
      refine or_congr Iff.rfl (and_congr_left fun _ => ⟨?_, ?_⟩)
      · rintro ⟨idx, low, rest⟩
        exact ⟨idx, Nat.lt_succ_of_lt low, rest⟩
      · rintro ⟨idx, low, next, found, rest⟩
        refine ⟨idx, (Nat.lt_succ_iff_lt_or_eq.mp low).resolve_right ?_, next, found, rest⟩
        rintro rfl
        rw [here] at found
        exact nomatch found
    | some next =>
      obtain ⟨kept, freed⟩ := deeper next (freeSlots mem level phys count pmm)
      refine ⟨kept.trans total, fun frame => ?_⟩
      rw [freed frame, bits frame, total, or_assoc, ← or_and_right]
      refine or_congr Iff.rfl (and_congr_left fun _ => ⟨?_, ?_⟩)
      · rintro (⟨idx, low, rest⟩ | rest)
        · exact ⟨idx, Nat.lt_succ_of_lt low, rest⟩
        · exact ⟨count, Nat.lt_succ_self _, next, here, rest⟩
      · rintro ⟨idx, low, other, found, rest⟩
        rcases Nat.lt_succ_iff_lt_or_eq.mp low with lower | rfl
        · exact .inl ⟨idx, lower, other, found, rest⟩
        · rw [here] at found
          obtain rfl := Option.some.inj found
          exact .inr rest

theorem freeLevel_frees (mem : Memory) (level : Nat) : ∀ slots phys pmm, slots ≤ 512 →
    Frees pmm (freeLevel mem level slots phys pmm) (Below mem level slots phys) := by
  induction level with
  | zero =>
    intro slots phys pmm _
    refine ⟨PhysicalMemoryManager.freeFrame_totalFrames .., fun frame => ?_⟩
    rw [freeLevel, testBit_freeFrame_iff, below_zero]
  | succ level ih =>
    intro slots phys pmm small
    obtain ⟨total, bits⟩ : Frees pmm (freeSlots mem level phys slots pmm) _ :=
      freeSlots_frees (fun next pmm => ih 512 next pmm (Nat.le_refl _)) slots
    change Frees pmm ((freeSlots mem level phys slots pmm).freeFrame phys) _
    refine ⟨?_, fun frame => ?_⟩
    · rw [PhysicalMemoryManager.freeFrame_totalFrames]
      exact total
    · rw [testBit_freeFrame_iff, bits frame, total, below_succ small, or_assoc, ← or_and_right]
      exact or_congr Iff.rfl (and_congr_left fun _ => or_comm)

/-- The frames of the address space become free, and nothing else changes. -/
theorem drop_spec {state : VmState} (tree : PageTree state.machine state.root) (frame : Nat) :
    (VmSpace.drop state).pmm.testBit frame = false ↔ Charged state.machine state.root frame := by
  rw [VmSpace.drop, freePageTableHierarchy, (freeLevel_frees _ 4 256 _ _ (by decide)).2]
  refine or_congr Iff.rfl ⟨?_, ?_⟩
  · rintro ⟨⟨path, node, short, within, first, found, rfl⟩, _⟩
    have valid : UserPath path := ⟨short, within, first⟩
    have aligned := (tree.taken path node valid found).aligned
    exact ⟨path, valid, by rw [div_pageSize_mul aligned]; exact found⟩
  · rintro ⟨path, valid, found⟩
    have held := tree.taken path _ valid found
    refine ⟨⟨path, _, valid.depth, valid.slots, valid.lower, found, mul_pageSize_div frame⟩, ?_⟩
    have inside := held.inside
    rwa [mul_pageSize_div] at inside

end RustPosix.Mm
