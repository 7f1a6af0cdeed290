import RustPosix.Mm.MmCore

/-! What `mmap_allocate` does over any allocator and any mapper that keep their contracts. -/

namespace RustPosix.Mm

open Library

/-- What can be seen of an allocator and a mapper: the frame behind each page, by the number
of the page, the free frames, and the frames that have been passed to `zero_frame`. -/
@[ext] structure MmapView (Frame : Type) where
  mapped : Nat → Option Frame
  free : Set Frame
  zeroed : List Frame

/-- A page number of a range that starts in the page of an address. -/
def PageRange (start count page : Nat) : Prop :=
  start / pageSize ≤ page ∧ page < start / pageSize + count

instance (start count page : Nat) : Decidable (PageRange start count page) :=
  inferInstanceAs (Decidable (_ ∧ _))

/-- The contracts of the traits: allocating and mapping may fail at any time, but then they
change nothing, and unmapping gives the frames back. -/
structure MmapLaws {State Frame : Type} (ops : MmapOps State Frame) where
  view : State → MmapView Frame
  allocNone : ∀ {state after}, ops.allocFrame state = (none, after) → view after = view state
  allocSome : ∀ {state frame after}, ops.allocFrame state = (some frame, after) →
    frame ∈ (view state).free ∧
      view after = { view state with free := (view state).free \ {frame} }
  freeFrame : ∀ frame state,
    view (ops.freeFrame frame state) = { view state with free := insert frame (view state).free }
  mapOk : ∀ {vaddr frame prot state done after},
    ops.mapPage vaddr frame prot state = (.ok done, after) →
      view after = { view state with
        mapped := Function.update (view state).mapped (vaddr / pageSize) (some frame) }
  mapError : ∀ {vaddr frame prot state fault after},
    ops.mapPage vaddr frame prot state = (.error fault, after) → view after = view state
  unmapRange : ∀ start count state,
    view (ops.unmapRange start count state) = { view state with
      mapped := fun page => if PageRange start count page then none else (view state).mapped page
      free := (view state).free ∪
        {frame | ∃ page, PageRange start count page ∧ (view state).mapped page = some frame} }
  zeroFrame : ∀ frame state,
    view (ops.zeroFrame frame state) = { view state with zeroed := (view state).zeroed ++ [frame] }

namespace MmapView

variable {Frame : Type}

/-- The pages from that of `start` on are backed by zeroed frames that were free. -/
def withPages (view : MmapView Frame) (start : Nat) (frames : List Frame) : MmapView Frame where
  mapped page :=
    if PageRange start frames.length page then frames[page - start / pageSize]?
    else view.mapped page
  free := view.free \ {frame | frame ∈ frames}
  zeroed := view.zeroed ++ frames

theorem withPages_nil (view : MmapView Frame) (start : Nat) : view.withPages start [] = view := by
  apply MmapView.ext
  · funext page
    have outside : ¬ PageRange start 0 page := fun inside =>
      absurd (Nat.lt_of_le_of_lt inside.1 inside.2) (Nat.lt_irrefl _)
    exact if_neg outside
  · simp [withPages]
  · simp [withPages]

/-- One more page behind those that are there. -/
theorem withPages_concat (view : MmapView Frame) (start : Nat) (frames : List Frame)
    (frame : Frame) :
    view.withPages start (frames ++ [frame]) =
      { mapped := Function.update (view.withPages start frames).mapped
          ((start + frames.length * pageSize) / pageSize) (some frame)
        free := (view.withPages start frames).free \ {frame}
        zeroed := (view.withPages start frames).zeroed ++ [frame] } := by
  have place : (start + frames.length * pageSize) / pageSize = start / pageSize + frames.length :=
    Nat.add_mul_div_right start frames.length (by decide)
  rw [place]
  apply MmapView.ext
  · funext page
    dsimp only
    by_cases last : page = start / pageSize + frames.length
    · subst last
      simp [withPages, PageRange]
    · rw [Function.update_of_ne last]
      have same : PageRange start (frames ++ [frame]).length page ↔
          PageRange start frames.length page := by
        simp only [PageRange, List.length_append, List.length_singleton]
        omega
      simp only [withPages, same]
      split
      · rename_i inside
        exact List.getElem?_append_left (Nat.sub_lt_left_of_lt_add inside.1 inside.2)
      · rfl
  · apply Set.ext
    intro other
    simp [withPages, and_assoc]
  · exact (List.append_assoc ..).symm

/-- Unmapping the new pages gives back the old ones and the frames. -/
theorem withPages_undone {view : MmapView Frame} {start : Nat} {frames : List Frame}
    (unmapped : ∀ page, PageRange start frames.length page → view.mapped page = none)
    (fresh : ∀ frame ∈ frames, frame ∈ view.free) :
    (fun page => if PageRange start frames.length page then none
      else (view.withPages start frames).mapped page) = view.mapped ∧
    (view.withPages start frames).free ∪ {frame | ∃ page, PageRange start frames.length page ∧
      (view.withPages start frames).mapped page = some frame} = view.free := by
  constructor
  · funext page
    split
    · rename_i inside
      exact (unmapped page inside).symm
    · rename_i outside
      exact if_neg outside
  · apply Set.Subset.antisymm
    · rintro frame (kept | ⟨page, inside, found⟩)
      · exact kept.1
      · rw [withPages] at found
        simp only [inside, if_true] at found
        exact fresh frame (List.mem_of_getElem? found)
    · intro frame here
      by_cases used : frame ∈ frames
      · obtain ⟨i, found⟩ := List.mem_iff_getElem?.mp used
        have inside : PageRange start frames.length (start / pageSize + i) := by
          have bound := (List.getElem?_eq_some_iff.mp found).1
          exact ⟨Nat.le_add_right _ _, Nat.add_lt_add_left bound _⟩
        refine .inr ⟨start / pageSize + i, inside, ?_⟩
        rw [withPages]
        simp only [inside, if_true, Nat.add_sub_cancel_left]
        exact found
      · exact .inl ⟨here, used⟩

end MmapView

/-- The address of the first page of a request. -/
def mmapBase (addr mmapNextVaddr : Nat) : Nat := if addr = 0 then mmapNextVaddr else alignDown addr

theorem checkedOffset_some {base count pageVaddr : Nat}
    (found : (checkedMul count pageSize).bind (checkedAdd base) = some pageVaddr) :
    pageVaddr = base + count * pageSize := by
  obtain ⟨offset, product, sum⟩ := Option.bind_eq_some_iff.mp found
  rw [checkedMul] at product
  split at product
  · cases product
    rw [checkedAdd] at sum
    split at sum
    · exact (Option.some.inj sum).symm
    · cases sum
  · cases product

section Lawful

variable {State Frame : Type} {ops : MmapOps State Frame} (laws : MmapLaws ops) {base : Nat}
  {prot : BitVec 32} {start : State}

/-- `count` pages have been mapped to frames of their own that were free before. -/
def MmapLaws.Fills (base count : Nat) (before after : State) : Prop :=
  ∃ frames : List Frame, frames.length = count ∧ frames.Nodup ∧
    (∀ frame ∈ frames, frame ∈ (laws.view before).free) ∧
    laws.view after = (laws.view before).withPages base frames

/-- Nothing is different but that frames may have been zeroed. -/
def MmapLaws.Same (before after : State) : Prop :=
  (laws.view after).mapped = (laws.view before).mapped ∧
    (laws.view after).free = (laws.view before).free

variable {laws}

theorem fills_none (state : State) : laws.Fills base 0 state state :=
  ⟨[], rfl, List.nodup_nil, nofun, (MmapView.withPages_nil _ _).symm⟩

/-- The exits of the loop: what has been mapped is unmapped. -/
theorem fills_undone {count : Nat} {state after : State} (filled : laws.Fills base count start state)
    (unmapped : ∀ page, PageRange base count page → (laws.view start).mapped page = none)
    (same : laws.view after = laws.view state) :
    laws.Same start (ops.unmapRange base count after) := by
  obtain ⟨frames, rfl, _, fresh, view⟩ := filled
  unfold MmapLaws.Same
  rw [laws.unmapRange, same, view]
  exact MmapView.withPages_undone unmapped fresh

/-- The frame of a page that could not be mapped goes back first. -/
theorem alloc_freed {state taken mapped : State} {frame : Frame}
    (allocated : ops.allocFrame state = (some frame, taken)) (same : laws.view mapped = laws.view taken) :
    laws.view (ops.freeFrame frame mapped) = laws.view state := by
  obtain ⟨here, view⟩ := laws.allocSome allocated
  rw [laws.freeFrame, same, view]
  apply MmapView.ext
  · rfl
  · exact Set.insert_sdiff_self_of_mem here
  · rfl

theorem fills_next {count : Nat} {state taken mapped : State} {frame : Frame} {done : Unit}
    (filled : laws.Fills base count start state)
    (allocated : ops.allocFrame state = (some frame, taken))
    (placed : ops.mapPage (base + count * pageSize) frame prot taken = (.ok done, mapped)) :
    laws.Fills base (count + 1) start (ops.zeroFrame frame mapped) := by
  obtain ⟨frames, rfl, nodup, fresh, view⟩ := filled
  obtain ⟨here, afterAlloc⟩ := laws.allocSome allocated
  rw [view] at here
  refine ⟨frames ++ [frame], List.length_append, ?_, ?_, ?_⟩
  · refine nodup.append (List.nodup_singleton frame) ?_
    intro other before last
    cases List.mem_singleton.mp last
    exact here.2 before
  · intro other member
    rcases List.mem_append.mp member with before | last
    · exact fresh other before
    · cases List.mem_singleton.mp last
      exact here.1
  · rw [laws.zeroFrame, laws.mapOk placed, afterAlloc, view, MmapView.withPages_concat]

theorem mmapPages_fills (remaining : Nat) : ∀ count state,
    (∀ page, PageRange base (count + remaining) page → (laws.view start).mapped page = none) →
    laws.Fills base count start state →
    Yields (mmapPages ops base prot remaining count state)
      (fun _ after => laws.Fills base (count + remaining) start after)
      (fun _ after => laws.Same start after) := by
  induction remaining with
  | zero =>
    intro count state _ filled
    exact filled
  | succ remaining ih =>
    intro count state unmapped filled
    have mine : ∀ page, PageRange base count page → (laws.view start).mapped page = none :=
      fun page inside => unmapped page
        ⟨inside.1, Nat.lt_of_lt_of_le inside.2 (Nat.add_le_add_left (Nat.le_add_right _ _) _)⟩
    rw [mmapPages]
    split
    · exact fills_undone filled mine rfl
    · rename_i place
      have address := checkedOffset_some place
      subst address
      split
      · rename_i allocated
        exact fills_undone filled mine (laws.allocNone allocated)
      · rename_i frame taken allocated
        split
        · rename_i failed
          exact fills_undone filled mine (alloc_freed allocated (laws.mapError failed))
        · rename_i placed
          have next := ih (count + 1) _ (by rwa [Nat.add_right_comm]) (fills_next filled allocated placed)
          rwa [Nat.add_right_comm] at next

end Lawful

/-- The sums and products of the loop do not overflow once the target has been found. -/
def MmapFits (base count : Nat) : Prop :=
  ∀ i < count, (checkedMul i pageSize).bind (checkedAdd base) = some (base + i * pageSize)

theorem mmapTarget_base {addr byteLen userSpaceEnd next base after : Nat}
    (found : mmapTarget addr byteLen userSpaceEnd next = some (base, after)) :
    base = mmapBase addr next ∧ base + byteLen < 2 ^ 64 ∧ base + byteLen ≤ userSpaceEnd ∧
      after = if addr = 0 then next + byteLen else next := by
  have sum {first stop : Nat}
      (fits : (checkedAdd first byteLen).filter (fun stop => stop ≤ userSpaceEnd) = some stop) :
      stop = first + byteLen ∧ first + byteLen < 2 ^ 64 ∧ first + byteLen ≤ userSpaceEnd := by
    obtain ⟨sum, small⟩ := Option.filter_eq_some_iff.mp fits
    rw [checkedAdd] at sum
    split at sum
    · rename_i word
      cases sum
      exact ⟨rfl, word, of_decide_eq_true small⟩
    · cases sum
  rw [mmapTarget] at found
  dsimp only at found
  split at found
  · rename_i bump
    obtain ⟨stop, fits, same⟩ := Option.map_eq_some_iff.mp found
    cases same
    obtain ⟨rfl, word, small⟩ := sum fits
    refine ⟨?_, word, small, ?_⟩
    · rw [mmapBase, if_pos bump]
    · rw [if_pos bump]
  · rename_i fixed
    obtain ⟨stop, fits, same⟩ := Option.map_eq_some_iff.mp found
    cases same
    obtain ⟨_, word, small⟩ := sum fits
    refine ⟨?_, word, small, ?_⟩
    · rw [mmapBase, if_neg fixed]
    · rw [if_neg fixed]

theorem mmapFits_of_word {base count : Nat} (word : base + count * pageSize < 2 ^ 64) :
    MmapFits base count := by
  intro i inside
  have below : i * pageSize ≤ count * pageSize := Nat.mul_le_mul_right _ (Nat.le_of_lt inside)
  rw [checkedMul, if_pos (by omega), Option.bind_some, checkedAdd, if_pos (by omega)]

/-- Four frames and the pages mapped to them. -/
structure Shelf where
  mapped : Nat → Option (Fin 4)
  free : Fin 4 → Bool
  zeroed : List (Fin 4)

def Shelf.ops : MmapOps Shelf (Fin 4) where
  allocFrame shelf :=
    match (List.finRange 4).find? shelf.free with
    | some frame => (some frame, { shelf with free := Function.update shelf.free frame false })
    | none => (none, shelf)
  freeFrame frame shelf := { shelf with free := Function.update shelf.free frame true }
  mapPage vaddr frame _ shelf :=
    (.ok (), { shelf with mapped := Function.update shelf.mapped (vaddr / pageSize) (some frame) })
  unmapRange start count shelf :=
    { shelf with
      mapped := fun page => if PageRange start count page then none else shelf.mapped page
      free := fun frame => shelf.free frame ||
        (List.range count).any fun i => shelf.mapped (start / pageSize + i) = some frame }
  zeroFrame frame shelf := { shelf with zeroed := shelf.zeroed ++ [frame] }

def Shelf.laws : MmapLaws Shelf.ops where
  view shelf := ⟨shelf.mapped, {frame | shelf.free frame = true}, shelf.zeroed⟩
  allocNone taken := by
    simp only [Shelf.ops] at taken
    split at taken
    · cases taken
    · cases taken
      rfl
  allocSome {_ frame _} taken := by
    simp only [Shelf.ops] at taken
    split at taken
    · rename_i found
      cases taken
      refine ⟨List.find?_some found, MmapView.ext rfl (Set.ext fun other => ?_) rfl⟩
      by_cases same : other = frame
      · simp [same]
      · simp [same]
    · cases taken
  freeFrame frame shelf := by
    refine MmapView.ext rfl (Set.ext fun other => ?_) rfl
    by_cases same : other = frame
    · simp [Shelf.ops, same]
    · simp [Shelf.ops, same]
  mapOk placed := by
    cases placed
    rfl
  mapError failed := by
    cases failed
  unmapRange start count shelf := by
    refine MmapView.ext rfl (Set.ext fun frame => ?_) rfl
    simp only [Shelf.ops, Set.mem_ofPred_eq, Bool.or_eq_true, List.any_eq_true, List.mem_range,
      decide_eq_true_eq, Set.mem_union]
    apply or_congr_right
    constructor
    · rintro ⟨i, inside, found⟩
      exact ⟨_, ⟨Nat.le_add_right _ _, Nat.add_lt_add_left inside _⟩, found⟩
    · rintro ⟨page, ⟨above, below⟩, found⟩
      refine ⟨page - start / pageSize, Nat.sub_lt_left_of_lt_add above below, ?_⟩
      rw [Nat.add_sub_cancel' above]
      exact found
  zeroFrame frame shelf := rfl

end RustPosix.Mm
