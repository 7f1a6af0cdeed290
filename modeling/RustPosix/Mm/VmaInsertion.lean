import RustPosix.Mm.Vma

/-! `insert_vma` read pointwise. The first loop goes through two phases, before
and after it has emitted the new area, and one way of leaving them loses
addresses; the second loop changes no address. -/

namespace RustPosix.Mm

open Library

/-- An area with the new attributes reaches past the end of the new range while
an area with other attributes meets that range. -/
def Straddled (vmas : List Vma) (start stop : Nat) (attr : VmaAttr) : Prop :=
  ∃ v ∈ vmas, v.attr = attr ∧ v.start < stop ∧ stop < v.stop ∧
    ∃ u ∈ vmas, u.attr ≠ attr ∧ u.start < stop ∧ start < u.stop

instance : Decidable (Straddled vmas start stop attr) :=
  inferInstanceAs (Decidable (∃ v ∈ vmas, v.attr = attr ∧ v.start < stop ∧ stop < v.stop ∧
    ∃ u ∈ vmas, u.attr ≠ attr ∧ u.start < stop ∧ start < u.stop))

namespace InsertLoop

/-- Nothing emitted yet: the areas seen so far lie before the new one or have
been merged into it. -/
structure Pending (start stop : Nat) (attr : VmaAttr) (seen : List Vma) (loop : InsertLoop) :
    Prop where
  waiting : loop.inserted = false
  ordered : Ordered loop.newVmas
  kept : ∀ w ∈ loop.newVmas, w ∈ seen
  before : ∀ w ∈ loop.newVmas, w.stop ≤ loop.curStart
  wider : loop.curStart ≤ start ∧ stop ≤ loop.curEnd
  read : ∀ addr, lookup loop.newVmas addr =
    if addr < loop.curStart then lookup seen addr else none
  leftMerged : ∀ addr, loop.curStart ≤ addr → addr < start → lookup seen addr = some attr
  rightMerged : ∀ addr, stop ≤ addr → addr < loop.curEnd → lookup seen addr = some attr
  within : ∀ u ∈ seen, u.stop ≤ loop.curEnd
  leftEdge : loop.curStart = start ∨ ∃ u ∈ seen, start < u.stop
  rightEdge : loop.curEnd = stop ∨ ∃ u ∈ seen, loop.curEnd ≤ u.stop
  uniform : ∀ u ∈ seen, u.start < stop → start < u.stop → u.attr = attr

/-- The new area has been emitted. `missing` is the end of the addresses after
`stop` that the list has lost; it is `stop` itself while none are. -/
structure Emitted (start stop missing : Nat) (attr : VmaAttr) (seen : List Vma)
    (loop : InsertLoop) : Prop where
  placed : loop.inserted = true
  ordered : Ordered loop.newVmas
  bounded : ∀ w ∈ loop.newVmas, w.stop ≤ loop.curEnd ∨ ∃ u ∈ seen, w.stop ≤ u.stop
  wider : loop.curStart ≤ start ∧ stop ≤ loop.curEnd
  read : ∀ addr, lookup loop.newVmas addr =
    if stop ≤ addr ∧ addr < missing then none else overlay start stop attr seen addr
  reached : ∃ u ∈ seen, start < u.stop
  rightEdge : loop.curEnd = stop ∨ ∃ u ∈ seen, loop.curEnd ≤ u.stop

/-- Emitted without loss, with the reason why the loop emitted. -/
structure Placed (start stop : Nat) (attr : VmaAttr) (seen : List Vma) (loop : InsertLoop) :
    Prop extends Emitted start stop stop attr seen loop where
  reason : (∃ u ∈ seen, u.attr ≠ attr ∧ u.start < stop ∧ start < u.stop) ∨
    ∃ u ∈ seen, stop ≤ u.start
  clean : ¬ Straddled seen start stop attr

/-- The addresses from `stop` up to `curEnd` are gone. -/
structure Lost (start stop : Nat) (attr : VmaAttr) (seen : List Vma) (loop : InsertLoop) :
    Prop extends Emitted start stop loop.curEnd attr seen loop where
  gap : stop < loop.curEnd
  covered : ∃ u ∈ seen, loop.curEnd ≤ u.stop
  straddled : Straddled seen start stop attr

section Step

variable {start stop : Nat} {attr : VmaAttr} {seen : List Vma} {loop : InsertLoop} {v : Vma}

private theorem older {property : Vma → Prop} (found : ∃ u ∈ seen, property u) :
    ∃ u ∈ seen ++ [v], property u :=
  found.imp fun _ ⟨member, holds⟩ => ⟨List.mem_append_left _ member, holds⟩

private theorem newest {property : Vma → Prop} (holds : property v) :
    ∃ u ∈ seen ++ [v], property u :=
  ⟨v, by simp, holds⟩

private theorem Ordered.newest_past (ordered : Ordered (seen ++ [v])) :
    ∀ u ∈ seen, u.stop ≤ v.start :=
  fun _ member => ordered.across member (List.mem_singleton_self v)

private theorem Ordered.newest_valid (ordered : Ordered (seen ++ [v])) : v.start < v.stop :=
  ordered.nonempty v (by simp)

theorem Pending.pushBefore (pending : Pending start stop attr seen loop) (range : start < stop)
    (ordered : Ordered (seen ++ [v])) (earlier : v.stop ≤ loop.curStart) :
    Pending start stop attr (seen ++ [v]) (loop.push v) := by
  have past := Ordered.newest_past ordered
  have wider := pending.wider
  refine ⟨pending.waiting, ?_, ?_, ?_, wider, ?_, ?_, ?_, ?_, pending.leftEdge.imp id older,
    pending.rightEdge.imp id older, ?_⟩
  · exact pending.ordered.push (Ordered.newest_valid ordered)
      fun w member => past w (pending.kept w member)
  · intro w member
    rcases List.mem_append.mp member with old | new
    · exact List.mem_append_left _ (pending.kept w old)
    · exact List.mem_append_right _ new
  · intro w member
    rcases List.mem_append.mp member with old | new
    · exact pending.before w old
    · obtain rfl := List.mem_singleton.mp new
      exact earlier
  · intro addr
    simp only [push, lookup_push, pending.read]
    by_cases low : addr < loop.curStart
    · simp [low]
    · simp [low, show ¬ addr < v.stop by omega]
  · intro addr lower upper
    simp [lookup_append, pending.leftMerged addr lower upper]
  · intro addr lower upper
    simp [lookup_append, pending.rightMerged addr lower upper]
  · intro u member
    rcases List.mem_append.mp member with old | new
    · exact pending.within u old
    · obtain rfl := List.mem_singleton.mp new
      change u.stop ≤ loop.curEnd
      omega
  · intro u member below above
    rcases List.mem_append.mp member with old | new
    · exact pending.uniform u old below above
    · obtain rfl := List.mem_singleton.mp new
      omega

/-- What the list reads once the new area has been pushed behind it. -/
theorem Pending.read_place (pending : Pending start stop attr seen loop) (addr : Nat) :
    lookup (loop.newVmas ++ [⟨loop.curStart, loop.curEnd, attr⟩]) addr =
      overlay start stop attr seen addr := by
  have wider := pending.wider
  rw [lookup_push, pending.read]
  by_cases low : addr < loop.curStart
  · rw [overlay_outside (by omega)]
    simp [low, show ¬ loop.curStart ≤ addr by omega]
  · by_cases high : addr < loop.curEnd
    · have new : overlay start stop attr seen addr = some attr := by
        by_cases left : addr < start
        · rw [overlay_outside (by omega)]
          exact pending.leftMerged addr (by omega) left
        · by_cases right : stop ≤ addr
          · rw [overlay_outside (by omega)]
            exact pending.rightMerged addr right high
          · exact overlay_inside (by omega)
      simp [new, low, high, show loop.curStart ≤ addr by omega]
    · have absent : lookup seen addr = none :=
        lookup_none_of_stop_le fun u member => Nat.le_trans (pending.within u member) (by omega)
      rw [overlay_outside (by omega), absent]
      simp [low, high]

theorem Pending.ordered_place (pending : Pending start stop attr seen loop) (range : start < stop) :
    Ordered (loop.newVmas ++ [⟨loop.curStart, loop.curEnd, attr⟩]) := by
  have wider := pending.wider
  exact pending.ordered.push (by change loop.curStart < loop.curEnd; omega) pending.before

theorem Pending.emitBefore (pending : Pending start stop attr seen loop) (range : start < stop)
    (ordered : Ordered (seen ++ [v])) (later : loop.curEnd ≤ v.start) :
    Placed start stop attr (seen ++ [v]) ((loop.place attr).push v) := by
  have past := Ordered.newest_past ordered
  have valid := Ordered.newest_valid ordered
  have wider := pending.wider
  have placed : (loop.place attr).push v = { loop with
      newVmas := loop.newVmas ++ [⟨loop.curStart, loop.curEnd, attr⟩] ++ [v], inserted := true } := by
    simp [place, push, pending.waiting]
  rw [placed]
  refine ⟨⟨rfl, ?_, ?_, wider, ?_, newest (by omega), pending.rightEdge.imp id older⟩,
    .inr (newest (by omega)), ?_⟩
  · refine (pending.ordered_place range).push valid ?_
    intro w member
    rcases List.mem_append.mp member with old | new
    · exact past w (pending.kept w old)
    · obtain rfl := List.mem_singleton.mp new
      exact later
  · intro w member
    rcases List.mem_append.mp member with old | new
    · rcases List.mem_append.mp old with kept | own
      · exact .inr (older ⟨w, pending.kept w kept, Nat.le_refl _⟩)
      · obtain rfl := List.mem_singleton.mp own
        exact .inl (Nat.le_refl _)
    · obtain rfl := List.mem_singleton.mp new
      exact .inr (newest (Nat.le_refl _))
  · intro addr
    rw [if_neg (by omega), overlay_append, lookup_append, pending.read_place]
  · rintro ⟨w, _, _, _, _, u, member, differs, below, above⟩
    rcases List.mem_append.mp member with old | new
    · exact differs (pending.uniform u old below above)
    · obtain rfl := List.mem_singleton.mp new
      omega

theorem Pending.widen (pending : Pending start stop attr seen loop) (ordered : Ordered (seen ++ [v]))
    (right : loop.curStart < v.stop) (left : v.start < loop.curEnd) (same : v.attr = attr) :
    Pending start stop attr (seen ++ [v]) { loop with
      curStart := min loop.curStart v.start, curEnd := max loop.curEnd v.stop } := by
  have past := Ordered.newest_past ordered
  have wider := pending.wider
  have before : ∀ w ∈ loop.newVmas, w.stop ≤ min loop.curStart v.start := fun w member =>
    Nat.le_min.mpr ⟨pending.before w member, past w (pending.kept w member)⟩
  have own (addr : Nat) (lower : v.start ≤ addr) (upper : addr < v.stop) :
      lookup (seen ++ [v]) addr = some attr :=
    same ▸ ordered.lookup_mem (by simp) lower upper
  refine ⟨pending.waiting, pending.ordered, ?_, before, ?_, ?_, ?_, ?_, ?_, ?_, ?_, ?_⟩
  · exact fun w member => List.mem_append_left _ (pending.kept w member)
  · exact ⟨Nat.le_trans (Nat.min_le_left _ _) wider.1, Nat.le_trans wider.2 (Nat.le_max_left _ _)⟩
  · intro addr
    change lookup loop.newVmas addr = if addr < min loop.curStart v.start then _ else none
    by_cases low : addr < min loop.curStart v.start
    · rw [if_pos low, lookup_push, pending.read, if_pos (by omega)]
      simp [show ¬ v.start ≤ addr by omega]
    · rw [if_neg low]
      exact lookup_none_of_stop_le fun w member => Nat.le_trans (before w member) (by omega)
  · intro addr lower upper
    change min loop.curStart v.start ≤ addr at lower
    by_cases old : loop.curStart ≤ addr
    · simp [lookup_append, pending.leftMerged addr old upper]
    · exact own addr (by omega) (by omega)
  · intro addr lower upper
    change addr < max loop.curEnd v.stop at upper
    by_cases old : addr < loop.curEnd
    · simp [lookup_append, pending.rightMerged addr lower old]
    · exact own addr (by omega) (by omega)
  · intro u member
    change u.stop ≤ max loop.curEnd v.stop
    rcases List.mem_append.mp member with old | new
    · exact Nat.le_trans (pending.within u old) (Nat.le_max_left _ _)
    · obtain rfl := List.mem_singleton.mp new
      exact Nat.le_max_right _ _
  · rcases pending.leftEdge with edge | old
    · exact .inr (newest (edge ▸ right))
    · exact .inr (older old)
  · change max loop.curEnd v.stop = stop ∨ ∃ u ∈ seen ++ [v], max loop.curEnd v.stop ≤ u.stop
    by_cases longer : loop.curEnd ≤ v.stop
    · exact .inr (newest (by omega))
    · rw [Nat.max_eq_left (by omega)]
      exact pending.rightEdge.imp id older
  · intro u member below above
    rcases List.mem_append.mp member with old | new
    · exact pending.uniform u old below above
    · obtain rfl := List.mem_singleton.mp new
      exact same

/-- Once an area past the merged right edge is seen, that edge is the end of the
new range. -/
private theorem rightEdge_eq (edge : loop.curEnd = stop ∨ ∃ u ∈ seen, loop.curEnd ≤ u.stop)
    (ordered : Ordered (seen ++ [v])) (left : v.start < loop.curEnd) : loop.curEnd = stop := by
  rcases edge with same | ⟨u, member, reaches⟩
  · exact same
  · have := Ordered.newest_past ordered u member
    omega

private theorem Pending.leftEdge_eq (pending : Pending start stop attr seen loop)
    (ordered : Ordered (seen ++ [v])) (left : v.start < loop.curStart) : loop.curStart = start := by
  rcases pending.leftEdge with same | ⟨u, member, reaches⟩
  · exact same
  · have := Ordered.newest_past ordered u member
    have := pending.wider
    omega

/-- The list in which an area with other attributes has been cut around the new
one, before the part on the right of it is pushed. -/
def cutLeft (attr : VmaAttr) (loop : InsertLoop) (v : Vma) : InsertLoop :=
  (if v.start < loop.curStart then loop.push ⟨v.start, loop.curStart, v.attr⟩ else loop).place attr

theorem Pending.cutLeft_eq (pending : Pending start stop attr seen loop) :
    loop.cutLeft attr v = { loop with
      newVmas := (if v.start < loop.curStart then
          loop.newVmas ++ [⟨v.start, loop.curStart, v.attr⟩] else loop.newVmas) ++
        [⟨loop.curStart, loop.curEnd, attr⟩]
      inserted := true } := by
  by_cases cut : v.start < loop.curStart <;> simp [cutLeft, cut, place, push, pending.waiting]

theorem Pending.ordered_cutLeft (pending : Pending start stop attr seen loop) (range : start < stop)
    (ordered : Ordered (seen ++ [v])) : Ordered (loop.cutLeft attr v).newVmas := by
  have past := Ordered.newest_past ordered
  have wider := pending.wider
  rw [pending.cutLeft_eq]
  by_cases cut : v.start < loop.curStart
  · simp only [if_pos cut]
    have pieces : Ordered (loop.newVmas ++ [⟨v.start, loop.curStart, v.attr⟩]) :=
      pending.ordered.push cut fun w member => past w (pending.kept w member)
    refine pieces.push (by change loop.curStart < loop.curEnd; omega) ?_
    intro w member
    rcases List.mem_append.mp member with old | new
    · exact pending.before w old
    · obtain rfl := List.mem_singleton.mp new
      exact Nat.le_refl _
  · simpa only [if_neg cut] using pending.ordered_place range

theorem Pending.read_cutLeft (pending : Pending start stop attr seen loop) (range : start < stop)
    (ordered : Ordered (seen ++ [v])) (right : loop.curStart < v.stop)
    (left : v.start < loop.curEnd) (addr : Nat) :
    lookup (loop.cutLeft attr v).newVmas addr =
      if addr < stop then overlay start stop attr (seen ++ [v]) addr else none := by
  have edge := rightEdge_eq pending.rightEdge ordered left
  have wider := pending.wider
  have stale (above : v.start ≤ addr) : lookup seen addr = none :=
    lookup_none_of_stop_le fun u member =>
      Nat.le_trans (Ordered.newest_past ordered u member) above
  have merged := pending.leftMerged addr
  rw [pending.cutLeft_eq, overlay_append, lookup_singleton]
  by_cases cut : v.start < loop.curStart
  · have same := pending.leftEdge_eq ordered cut
    simp only [if_pos cut, lookup_push, pending.read, overlay]
    grind
  · simp only [if_neg cut, lookup_push, pending.read, overlay]
    grind

/-- Everything `cutLeft` leaves ends at `stop` or before. -/
theorem Pending.cutLeft_stop (pending : Pending start stop attr seen loop) (range : start < stop)
    (edge : loop.curEnd = stop) : ∀ w ∈ (loop.cutLeft attr v).newVmas, w.stop ≤ stop := by
  have wider := pending.wider
  have before := pending.before
  intro w member
  rw [pending.cutLeft_eq] at member
  grind

theorem Pending.cut (pending : Pending start stop attr seen loop) (range : start < stop)
    (ordered : Ordered (seen ++ [v])) (right : loop.curStart < v.stop)
    (left : v.start < loop.curEnd) (differs : v.attr ≠ attr) :
    Placed start stop attr (seen ++ [v])
      (if v.stop > loop.curEnd then (loop.cutLeft attr v).push ⟨loop.curEnd, v.stop, v.attr⟩
        else loop.cutLeft attr v) := by
  have past := Ordered.newest_past ordered
  have wider := pending.wider
  have edge := rightEdge_eq pending.rightEdge ordered left
  have sorted := pending.ordered_cutLeft range ordered
  have bound := pending.cutLeft_stop (v := v) range edge
  have read := pending.read_cutLeft range ordered right left
  have fields : (loop.cutLeft attr v).inserted = true ∧
      (loop.cutLeft attr v).curStart = loop.curStart ∧
      (loop.cutLeft attr v).curEnd = loop.curEnd := by
    rw [pending.cutLeft_eq]; exact ⟨rfl, rfl, rfl⟩
  have reached : start < v.stop := by
    rcases pending.leftEdge with same | ⟨u, member, reaches⟩
    · omega
    · have := past u member
      have := Ordered.newest_valid ordered
      omega
  have reason : ∃ u ∈ seen ++ [v], u.attr ≠ attr ∧ u.start < stop ∧ start < u.stop :=
    newest ⟨differs, by omega, reached⟩
  have clean : ¬ Straddled (seen ++ [v]) start stop attr := by
    rintro ⟨w, member, same, _, beyond, _⟩
    rcases List.mem_append.mp member with old | new
    · have := past w old
      omega
    · obtain rfl := List.mem_singleton.mp new
      exact differs same
  have above (addr : Nat) (high : stop ≤ addr) :
      overlay start stop attr (seen ++ [v]) addr = if addr < v.stop then some v.attr else none := by
    have stale : lookup seen addr = none :=
      lookup_none_of_stop_le fun u member => Nat.le_trans (past u member) (by omega)
    rw [overlay_outside (by omega), lookup_push, stale]
    simp [show v.start ≤ addr by omega]
  by_cases longer : v.stop > loop.curEnd
  · rw [if_pos longer]
    refine ⟨⟨fields.1, ?_, ?_, ?_, ?_, newest reached, ?_⟩, .inl reason, clean⟩
    · exact sorted.push longer fun w member => edge ▸ bound w member
    · intro w member
      rcases List.mem_append.mp member with old | new
      · exact .inl (by simpa only [push, fields.2.2, edge] using bound w old)
      · obtain rfl := List.mem_singleton.mp new
        exact .inr (newest (Nat.le_refl _))
    · simpa only [push, fields] using wider
    · intro addr
      simp only [push, lookup_push, read]
      grind
    · exact .inl (by simpa only [push, fields.2.2] using edge)
  · rw [if_neg longer]
    refine ⟨⟨fields.1, sorted, ?_, ?_, ?_, newest reached, .inl (fields.2.2 ▸ edge)⟩,
      .inl reason, clean⟩
    · exact fun w member => .inl (by simpa only [fields.2.2, edge] using bound w member)
    · simpa only [fields] using wider
    · intro addr
      rw [read]
      grind

/-- The part of an area past `curEnd` goes behind an emitted list; it is all of
the area when the two are apart. -/
theorem Emitted.piece {missing : Nat} (emitted : Emitted start stop missing attr seen loop)
    (ordered : Ordered (seen ++ [v])) (covers : missing ≤ loop.curEnd)
    (longer : loop.curEnd < v.stop) :
    Emitted start stop missing attr (seen ++ [v])
      (loop.push ⟨max v.start loop.curEnd, v.stop, v.attr⟩) := by
  have past := Ordered.newest_past ordered
  have valid := Ordered.newest_valid ordered
  obtain ⟨near, member, reaches⟩ := emitted.reached
  have above : start < v.start := Nat.lt_of_lt_of_le reaches (past near member)
  refine ⟨emitted.placed, ?_, ?_, emitted.wider, ?_, older emitted.reached,
    emitted.rightEdge.imp id older⟩
  · refine emitted.ordered.push (by change max v.start loop.curEnd < v.stop; omega) ?_
    intro w inside
    change w.stop ≤ max v.start loop.curEnd
    rcases emitted.bounded w inside with low | ⟨u, earlier, low⟩
    · omega
    · have := past u earlier
      omega
  · intro w inside
    rcases List.mem_append.mp inside with old | new
    · exact (emitted.bounded w old).imp id older
    · obtain rfl := List.mem_singleton.mp new
      exact .inr (newest (Nat.le_refl _))
  · intro addr
    have wider := emitted.wider
    have edge := rightEdge_eq emitted.rightEdge ordered
    simp only [push, lookup_push, emitted.read, overlay]
    by_cases inside : start ≤ addr ∧ addr < stop
    · simp [inside, show ¬ stop ≤ addr by omega]
    · simp only [inside, if_false]
      grind

/-- An area that ends inside the new range needs no piece. -/
theorem Emitted.skip {missing : Nat} (emitted : Emitted start stop missing attr seen loop)
    (ordered : Ordered (seen ++ [v])) (shorter : v.stop ≤ stop) :
    Emitted start stop missing attr (seen ++ [v]) loop := by
  have past := Ordered.newest_past ordered
  obtain ⟨near, member, reaches⟩ := emitted.reached
  have above : start < v.start := Nat.lt_of_lt_of_le reaches (past near member)
  refine ⟨emitted.placed, emitted.ordered, fun w inside => (emitted.bounded w inside).imp id older,
    emitted.wider, ?_, older emitted.reached, emitted.rightEdge.imp id older⟩
  intro addr
  rw [emitted.read, overlay_append, lookup_singleton, overlay]
  grind

/-- After the new area is emitted the loop body has two cases left. -/
theorem Emitted.step_eq {missing : Nat} (emitted : Emitted start stop missing attr seen loop)
    (ordered : Ordered (seen ++ [v])) :
    loop.step attr v =
      if loop.curEnd ≤ v.start ∨ v.attr ≠ attr then
        if v.stop > loop.curEnd then loop.push ⟨max v.start loop.curEnd, v.stop, v.attr⟩ else loop
      else { loop with curEnd := max loop.curEnd v.stop } := by
  obtain ⟨near, member, reaches⟩ := emitted.reached
  have above := Nat.lt_of_lt_of_le reaches (Ordered.newest_past ordered near member)
  have valid := Ordered.newest_valid ordered
  have wider := emitted.wider
  have here : loop.place attr = loop := by simp [place, emitted.placed]
  unfold step
  rw [if_neg (by omega)]
  by_cases apart : loop.curEnd ≤ v.start
  · rw [if_pos apart, if_pos (.inl apart), if_pos (by omega), Nat.max_eq_left apart, here]
  · by_cases same : v.attr = attr
    · rw [if_neg apart, if_pos same, if_neg (by simp [apart, same]), Nat.min_eq_left (by omega)]
    · have other : loop.curEnd ≤ v.start ∨ v.attr ≠ attr := .inr same
      rw [if_neg apart, if_neg same, if_pos other, Nat.max_eq_right (by omega)]
      simp only [show ¬ v.start < loop.curStart by omega, if_false, here]

theorem Placed.extend (placed : Placed start stop attr seen loop) (ordered : Ordered (seen ++ [v]))
    (other : loop.curEnd ≤ v.start ∨ v.attr ≠ attr) :
    Placed start stop attr (seen ++ [v])
      (if v.stop > loop.curEnd then loop.push ⟨max v.start loop.curEnd, v.stop, v.attr⟩
        else loop) := by
  have past := Ordered.newest_past ordered
  have valid := Ordered.newest_valid ordered
  have wider := placed.wider
  have clean : ¬ Straddled (seen ++ [v]) start stop attr := by
    rintro ⟨w, member, same, below, beyond, u, second, differs, low, high⟩
    rcases List.mem_append.mp member with old | new
    · rcases List.mem_append.mp second with earlier | last
      · exact placed.clean ⟨w, old, same, below, beyond, u, earlier, differs, low, high⟩
      · obtain rfl := List.mem_singleton.mp last
        have := past w old
        omega
    · obtain rfl := List.mem_singleton.mp new
      rcases other with apart | different
      · omega
      · exact different same
  refine ⟨?_, placed.reason.imp older older, clean⟩
  by_cases longer : v.stop > loop.curEnd
  · rw [if_pos longer]
    exact placed.toEmitted.piece ordered wider.2 longer
  · rw [if_neg longer]
    have edge := rightEdge_eq placed.rightEdge ordered (by omega)
    exact placed.toEmitted.skip ordered (by omega)

/-- An area with the new attributes that meets the emitted range only moves
`curEnd`; what it has past `stop` is lost. -/
theorem Placed.absorb (placed : Placed start stop attr seen loop) (ordered : Ordered (seen ++ [v]))
    (near : v.start < loop.curEnd) (same : v.attr = attr) :
    Placed start stop attr (seen ++ [v]) { loop with curEnd := max loop.curEnd v.stop } ∨
      Lost start stop attr (seen ++ [v]) { loop with curEnd := max loop.curEnd v.stop } := by
  have past := Ordered.newest_past ordered
  have edge := rightEdge_eq placed.rightEdge ordered near
  have wider := placed.wider
  by_cases shorter : v.stop ≤ stop
  · left
    rw [Nat.max_eq_left (by omega)]
    refine ⟨placed.toEmitted.skip ordered shorter, placed.reason.imp older older, ?_⟩
    rintro ⟨w, member, equal, below, beyond, u, second, differs, low, high⟩
    rcases List.mem_append.mp member with old | new
    · have := past w old
      omega
    · obtain rfl := List.mem_singleton.mp new
      omega
  · right
    rw [Nat.max_eq_right (by omega)]
    obtain ⟨first, member, reaches⟩ := placed.reached
    have above := Nat.lt_of_lt_of_le reaches (past first member)
    have other : ∃ u ∈ seen, u.attr ≠ attr ∧ u.start < stop ∧ start < u.stop := by
      rcases placed.reason with found | ⟨u, inside, beyond⟩
      · exact found
      · have := past u inside
        have := ordered.nonempty u (List.mem_append_left _ inside)
        omega
    refine ⟨⟨placed.placed, placed.ordered, ?_, ⟨wider.1, ?_⟩, ?_, newest (by omega),
      .inr (newest (Nat.le_refl _))⟩, by change stop < v.stop; omega, newest (Nat.le_refl _),
      ⟨v, by simp, same, by omega, by omega, older other⟩⟩
    · intro w inside
      refine .inr ?_
      rcases placed.bounded w inside with low | found
      · exact newest (by omega)
      · exact older found
    · change stop ≤ v.stop
      omega
    · intro addr
      have stale (high : v.start ≤ addr) : lookup seen addr = none :=
        lookup_none_of_stop_le fun u inside => Nat.le_trans (past u inside) high
      rw [placed.read, overlay_append, lookup_singleton, overlay]
      grind

theorem Lost.extend (lost : Lost start stop attr seen loop) (ordered : Ordered (seen ++ [v])) :
    Lost start stop attr (seen ++ [v]) (loop.step attr v) := by
  obtain ⟨last, member, reaches⟩ := lost.covered
  have valid := Ordered.newest_valid ordered
  have apart := Nat.le_trans reaches (Ordered.newest_past ordered last member)
  obtain ⟨w, inside, same, below, beyond, other⟩ := lost.straddled
  rw [lost.toEmitted.step_eq ordered, if_pos (.inl apart), if_pos (by omega)]
  exact ⟨lost.toEmitted.piece ordered (Nat.le_refl _) (by omega), lost.gap, older lost.covered,
    ⟨w, List.mem_append_left _ inside, same, below, beyond, older other⟩⟩

/-- What the first loop has made of the areas it has seen. -/
def Progress (start stop : Nat) (attr : VmaAttr) (seen : List Vma) (loop : InsertLoop) : Prop :=
  Pending start stop attr seen loop ∨ Placed start stop attr seen loop ∨
    Lost start stop attr seen loop

theorem Progress.step (progress : Progress start stop attr seen loop) (range : start < stop)
    (ordered : Ordered (seen ++ [v])) :
    Progress start stop attr (seen ++ [v]) (loop.step attr v) := by
  rcases progress with pending | placed | lost
  · unfold InsertLoop.step
    split
    next earlier => exact .inl (pending.pushBefore range ordered earlier)
    next right =>
      split
      next later => exact .inr (.inl (pending.emitBefore range ordered later))
      next left =>
        split
        next same => exact .inl (pending.widen ordered (by omega) (by omega) same)
        next differs =>
          exact .inr (.inl (pending.cut range ordered (by omega) (by omega) differs))
  · rw [placed.toEmitted.step_eq ordered]
    split
    next other => exact .inr (.inl (placed.extend ordered other))
    next near =>
      have meets : v.start < loop.curEnd := Nat.lt_of_not_le fun apart => near (.inl apart)
      have same : v.attr = attr := Decidable.not_not.mp fun differs => near (.inr differs)
      exact .inr (placed.absorb ordered meets same)
  · exact .inr (.inr (lost.extend ordered))

theorem Progress.initial (start stop : Nat) (attr : VmaAttr) :
    Progress start stop attr [] ⟨[], false, start, stop⟩ := by
  refine .inl ⟨rfl, Ordered.nil, by simp, by simp, ⟨Nat.le_refl _, Nat.le_refl _⟩, by simp, ?_, ?_,
    by simp, .inl rfl, .inl rfl, by simp⟩
  · intro addr lower upper
    change start ≤ addr at lower
    omega
  · intro addr lower upper
    change addr < stop at upper
    omega

end Step

theorem Progress.run {start stop : Nat} {attr : VmaAttr} {vmas : List Vma} (range : start < stop)
    (ordered : Ordered vmas) :
    Progress start stop attr vmas (vmas.foldl (InsertLoop.step attr) ⟨[], false, start, stop⟩) := by
  refine foldl_consumed vmas (Progress.initial start stop attr) ?_
  rintro seen v rest loop rfl progress
  refine progress.step range ?_
  rw [List.append_cons] at ordered
  exact ordered.of_append_left

end InsertLoop

/-- The merging loop after some areas of an ordered list. -/
structure Merged (seen merged : List Vma) : Prop where
  ordered : Ordered merged
  bounded : ∀ w ∈ merged, ∃ u ∈ seen, w.stop ≤ u.stop
  read : ∀ addr, lookup merged addr = lookup seen addr

theorem Merged.push {seen merged : List Vma} {v : Vma} (state : Merged seen merged)
    (ordered : Ordered (seen ++ [v])) : Merged (seen ++ [v]) (merged ++ [v]) := by
  refine ⟨state.ordered.push (ordered.nonempty v (by simp)) ?_, ?_, ?_⟩
  · intro w member
    obtain ⟨u, inside, reaches⟩ := state.bounded w member
    exact Nat.le_trans reaches (ordered.across inside (List.mem_singleton_self v))
  · intro w member
    rcases List.mem_append.mp member with old | new
    · obtain ⟨u, inside, reaches⟩ := state.bounded w old
      exact ⟨u, List.mem_append_left _ inside, reaches⟩
    · exact ⟨w, List.mem_append_right _ new, Nat.le_refl _⟩
  · intro addr
    rw [lookup_append, lookup_append, state.read]

/-- Gluing two adjacent areas of equal attributes changes no address. -/
theorem Merged.glue {seen before : List Vma} {last v : Vma}
    (state : Merged seen (before ++ [last])) (ordered : Ordered (seen ++ [v]))
    (adjacent : last.stop = v.start) (same : last.attr = v.attr) :
    Merged (seen ++ [v]) (before ++ [{ last with stop := v.stop }]) := by
  have valid : v.start < v.stop := ordered.nonempty v (by simp)
  have lastValid : last.start < last.stop := state.ordered.nonempty last (by simp)
  refine ⟨state.ordered.of_append_left.push (by change last.start < v.stop; omega) ?_, ?_, ?_⟩
  · intro w member
    change w.stop ≤ last.start
    exact state.ordered.across member (List.mem_singleton_self last)
  · intro w member
    rcases List.mem_append.mp member with old | new
    · obtain ⟨u, inside, reaches⟩ := state.bounded w (List.mem_append_left _ old)
      exact ⟨u, List.mem_append_left _ inside, reaches⟩
    · obtain rfl := List.mem_singleton.mp new
      exact ⟨v, by simp, Nat.le_refl _⟩
  · intro addr
    rw [lookup_push, lookup_push, ← state.read, lookup_push]
    cases lookup before addr with
    | some value => rfl
    | none =>
      simp only [Option.none_or]
      grind

theorem Merged.step {seen merged : List Vma} {v : Vma} (state : Merged seen merged)
    (ordered : Ordered (seen ++ [v])) : Merged (seen ++ [v]) (mergeStep merged v) := by
  unfold mergeStep
  split
  next last found =>
    obtain ⟨before, rfl⟩ := List.getLast?_eq_some_iff.mp found
    split
    next joined =>
      rw [List.dropLast_concat]
      exact state.glue ordered joined.1 joined.2
    next => exact state.push ordered
  next => exact state.push ordered

theorem Merged.run {vmas : List Vma} (ordered : Ordered vmas) :
    Merged vmas (vmas.foldl mergeStep []) := by
  refine foldl_consumed vmas ⟨Ordered.nil, by simp, fun _ => rfl⟩ ?_
  rintro seen v rest merged rfl state
  refine state.step ?_
  rw [List.append_cons] at ordered
  exact ordered.of_append_left

section Insertion

variable {vmas : List Vma} {start stop : Nat} {prot flags : BitVec 32} {attr : VmaAttr}

theorem findVma_attr (vmas : List Vma) (addr : Nat) :
    (findVma vmas addr).map Span.attr = lookup vmas addr := rfl

/-- The list that the merging loop starts from. -/
def placedVmas (vmas : List Vma) (start stop : Nat) (attr : VmaAttr) : List Vma :=
  ((vmas.foldl (InsertLoop.step attr) ⟨[], false, start, stop⟩).place attr).newVmas

theorem insertVma_eq (range : start < stop) : insertVma vmas start stop prot flags =
    (placedVmas vmas start stop ⟨prot, flags⟩).foldl mergeStep [] :=
  if_neg (Nat.not_le_of_lt range)

theorem placedVmas_spec (ordered : Ordered vmas) (range : start < stop)
    (clean : ¬ Straddled vmas start stop attr) :
    Ordered (placedVmas vmas start stop attr) ∧
      ∀ addr, lookup (placedVmas vmas start stop attr) addr =
        overlay start stop attr vmas addr := by
  unfold placedVmas
  rcases InsertLoop.Progress.run range ordered with pending | emitted | lost
  · rw [InsertLoop.place, pending.waiting]
    exact ⟨pending.ordered_place range, pending.read_place⟩
  · rw [InsertLoop.place, emitted.placed]
    refine ⟨emitted.ordered, fun addr => ?_⟩
    exact (emitted.read addr).trans (if_neg (by omega))
  · exact absurd lost.straddled clean

theorem placedVmas_loses (ordered : Ordered vmas) (range : start < stop)
    (straddled : Straddled vmas start stop attr) :
    Ordered (placedVmas vmas start stop attr) ∧
      lookup (placedVmas vmas start stop attr) stop = none := by
  unfold placedVmas
  rcases InsertLoop.Progress.run range ordered with pending | emitted | lost
  · obtain ⟨_, _, _, _, _, u, member, differs, low, high⟩ := straddled
    exact absurd (pending.uniform u member low high) differs
  · exact absurd straddled emitted.clean
  · rw [InsertLoop.place, lost.placed]
    exact ⟨lost.ordered, (lost.read stop).trans (if_pos ⟨Nat.le_refl _, lost.gap⟩)⟩

/-- With no area straddling the end of the range the insertion is exact. -/
theorem insertVma_spec (ordered : Ordered vmas) (range : start < stop)
    (clean : ¬ Straddled vmas start stop ⟨prot, flags⟩) :
    Ordered (insertVma vmas start stop prot flags) ∧
      ∀ addr, lookup (insertVma vmas start stop prot flags) addr =
        overlay start stop ⟨prot, flags⟩ vmas addr := by
  have placed := placedVmas_spec ordered range clean
  have merged := Merged.run placed.1
  rw [insertVma_eq range]
  exact ⟨merged.ordered, fun addr => (merged.read addr).trans (placed.2 addr)⟩

/-- With a straddling area the address just past the range is lost. -/
theorem insertVma_loses (ordered : Ordered vmas) (range : start < stop)
    (straddled : Straddled vmas start stop ⟨prot, flags⟩) :
    lookup (insertVma vmas start stop prot flags) stop = none ∧
      lookup vmas stop = some ⟨prot, flags⟩ := by
  have placed := placedVmas_loses ordered range straddled
  have merged := Merged.run placed.1
  obtain ⟨v, member, same, low, high, _⟩ := straddled
  rw [insertVma_eq range, merged.read]
  exact ⟨placed.2, same ▸ ordered.lookup_mem member (Nat.le_of_lt low) high⟩

/-- Inserting a range into an ordered list overwrites exactly that range, and
keeps the list ordered, unless an area straddles the end of the range. -/
theorem insertVma_exact_iff (vmas : List Vma) (start stop : Nat) (prot flags : BitVec 32)
    (ordered : Ordered vmas) (range : start < stop) :
    (Ordered (insertVma vmas start stop prot flags) ∧
      ∀ addr, (findVma (insertVma vmas start stop prot flags) addr).map Span.attr =
        if start ≤ addr ∧ addr < stop then some ⟨prot, flags⟩
        else (findVma vmas addr).map Span.attr) ↔
      ¬ Straddled vmas start stop ⟨prot, flags⟩ := by
  constructor
  · rintro ⟨_, exact⟩ straddled
    have lost := insertVma_loses ordered range straddled
    have kept := exact stop
    rw [findVma_attr, findVma_attr, lost.1, lost.2, if_neg (by omega)] at kept
    exact nomatch kept
  · exact insertVma_spec ordered range

/-- Two adjacent areas, of which the second has the attributes inserted. -/
def straddledVmas : List Vma :=
  [⟨0x1000, 0x3000, ⟨5, 2⟩⟩, ⟨0x3000, 0x5000, ⟨3, 2⟩⟩]

theorem straddledVmas_ordered : Ordered straddledVmas :=
  ⟨by decide, by decide⟩

theorem insertVma_exact_iff_whole :
    Ordered (insertVma straddledVmas 0x2000 0x5000 3 2) ∧
      ∀ addr, (findVma (insertVma straddledVmas 0x2000 0x5000 3 2) addr).map Span.attr =
        if 0x2000 ≤ addr ∧ addr < 0x5000 then some ⟨3, 2⟩
        else (findVma straddledVmas addr).map Span.attr :=
  (insertVma_exact_iff straddledVmas 0x2000 0x5000 3 2 straddledVmas_ordered (by decide)).mpr
    (by decide)

/-- A range that ends inside the second area loses the rest of it. -/
theorem insertVma_loses_tail :
    Ordered straddledVmas ∧
      insertVma straddledVmas 0x2000 0x4000 3 2 =
        [⟨0x1000, 0x2000, ⟨5, 2⟩⟩, ⟨0x2000, 0x4000, ⟨3, 2⟩⟩] ∧
      findVma straddledVmas 0x4000 = some ⟨0x3000, 0x5000, ⟨3, 2⟩⟩ ∧
      findVma (insertVma straddledVmas 0x2000 0x4000 3 2) 0x4000 = none := by
  exact ⟨straddledVmas_ordered, by decide⟩

end Insertion

end RustPosix.Mm
