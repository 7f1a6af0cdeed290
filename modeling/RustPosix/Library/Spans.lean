import Mathlib

/-! Lists of attributed half-open address ranges, read pointwise. -/

namespace RustPosix.Library

universe u

/-- The range `[start, stop)` carrying one attribute. -/
structure Span (Attr : Type u) where
  start : Nat
  stop : Nat
  attr : Attr
  deriving DecidableEq, Repr

variable {Attr : Type u} {spans left right : List (Span Attr)} {addr : Nat}

def Span.covers (span : Span Attr) (addr : Nat) : Bool :=
  decide (span.start ≤ addr) && decide (addr < span.stop)

@[simp] theorem Span.covers_iff (span : Span Attr) :
    span.covers addr = true ↔ span.start ≤ addr ∧ addr < span.stop := by
  simp [Span.covers]

/-- Ascending, pairwise disjoint and without empty ranges. -/
structure Ordered (spans : List (Span Attr)) : Prop where
  apart : spans.Pairwise fun earlier later => earlier.stop ≤ later.start
  nonempty : ∀ span ∈ spans, span.start < span.stop

/-- The attribute of the first range holding `addr`. -/
def lookup (spans : List (Span Attr)) (addr : Nat) : Option Attr :=
  (spans.find? fun span => span.covers addr).map Span.attr

@[simp] theorem lookup_nil : lookup ([] : List (Span Attr)) addr = none := rfl

theorem lookup_append : lookup (left ++ right) addr = (lookup left addr).or (lookup right addr) := by
  unfold lookup
  rw [List.find?_append]
  cases left.find? (fun span => span.covers addr) <;> rfl

theorem lookup_singleton (span : Span Attr) :
    lookup [span] addr = if span.start ≤ addr ∧ addr < span.stop then some span.attr else none := by
  by_cases inside : span.start ≤ addr ∧ addr < span.stop
  · simp [lookup, inside]
  · have outside : span.covers addr = false := by
      rw [← Bool.not_eq_true]; simpa using inside
    rw [if_neg inside]
    simp [lookup, outside]

theorem lookup_push (span : Span Attr) :
    lookup (spans ++ [span]) addr = (lookup spans addr).or
      (if span.start ≤ addr ∧ addr < span.stop then some span.attr else none) := by
  rw [lookup_append, lookup_singleton]

theorem lookup_eq_none_iff :
    lookup spans addr = none ↔ ∀ span ∈ spans, ¬ (span.start ≤ addr ∧ addr < span.stop) := by
  simp only [lookup, Option.map_eq_none_iff, List.find?_eq_none, Span.covers_iff]

theorem lookup_none_of_stop_le (before : ∀ span ∈ spans, span.stop ≤ addr) :
    lookup spans addr = none :=
  lookup_eq_none_iff.mpr fun span member inside => by
    have := before span member
    omega

theorem Ordered.nil : Ordered ([] : List (Span Attr)) := ⟨List.Pairwise.nil, by simp⟩

theorem Ordered.of_append_left (ordered : Ordered (left ++ right)) : Ordered left :=
  ⟨(List.pairwise_append.mp ordered.apart).1,
    fun span member => ordered.nonempty span (List.mem_append_left _ member)⟩

theorem Ordered.of_append_right (ordered : Ordered (left ++ right)) : Ordered right :=
  ⟨(List.pairwise_append.mp ordered.apart).2.1,
    fun span member => ordered.nonempty span (List.mem_append_right _ member)⟩

theorem Ordered.across {a b : Span Attr} (ordered : Ordered (left ++ right)) (first : a ∈ left)
    (second : b ∈ right) : a.stop ≤ b.start :=
  (List.pairwise_append.mp ordered.apart).2.2 a first b second

theorem Ordered.append (first : Ordered left) (second : Ordered right)
    (across : ∀ a ∈ left, ∀ b ∈ right, a.stop ≤ b.start) : Ordered (left ++ right) := by
  refine ⟨List.pairwise_append.mpr ⟨first.apart, second.apart, across⟩, fun span member => ?_⟩
  rcases List.mem_append.mp member with before | after
  · exact first.nonempty span before
  · exact second.nonempty span after

/-- A range past everything in the list can be pushed at its end. -/
theorem Ordered.push {span : Span Attr} (ordered : Ordered spans) (valid : span.start < span.stop)
    (past : ∀ earlier ∈ spans, earlier.stop ≤ span.start) : Ordered (spans ++ [span]) := by
  constructor
  · refine List.pairwise_append.mpr ⟨ordered.apart, List.pairwise_singleton _ _, ?_⟩
    intro earlier member later last
    obtain rfl := List.mem_singleton.mp last
    exact past earlier member
  · intro item member
    rcases List.mem_append.mp member with old | new
    · exact ordered.nonempty item old
    · obtain rfl := List.mem_singleton.mp new
      exact valid

/-- In an ordered list every member answers for its own addresses. -/
theorem Ordered.lookup_mem {span : Span Attr} (ordered : Ordered spans) (member : span ∈ spans)
    (lower : span.start ≤ addr) (upper : addr < span.stop) :
    lookup spans addr = some span.attr := by
  obtain ⟨before, after, rfl⟩ := List.append_of_mem member
  have earlier : lookup before addr = none :=
    lookup_none_of_stop_le fun item present =>
      Nat.le_trans (ordered.across present (List.mem_cons_self ..)) lower
  have here : lookup (span :: after) addr = some span.attr := by
    simp [lookup, lower, upper]
  rw [lookup_append, earlier, here]
  rfl

/-- The pointwise reading with `[start, stop)` overwritten by one attribute. -/
def overlay (start stop : Nat) (value : Attr) (spans : List (Span Attr)) (addr : Nat) : Option Attr :=
  if start ≤ addr ∧ addr < stop then some value else lookup spans addr

theorem overlay_inside {start stop : Nat} {value : Attr} (inside : start ≤ addr ∧ addr < stop) :
    overlay start stop value spans addr = some value := if_pos inside

theorem overlay_outside {start stop : Nat} {value : Attr} (outside : ¬ (start ≤ addr ∧ addr < stop)) :
    overlay start stop value spans addr = lookup spans addr := if_neg outside

theorem overlay_append {start stop : Nat} {value : Attr} :
    overlay start stop value (left ++ right) addr =
      (overlay start stop value left addr).or (lookup right addr) := by
  by_cases inside : start ≤ addr ∧ addr < stop
  · rw [overlay_inside inside, overlay_inside inside]; rfl
  · rw [overlay_outside inside, overlay_outside inside, lookup_append]

/-- An invariant of the items consumed so far carries through a left fold. -/
theorem foldl_consumed {Item State : Type u} {holds : List Item → State → Prop}
    {step : State → Item → State} {start : State} (items : List Item) (initial : holds [] start)
    (preserved : ∀ done item rest state, items = done ++ item :: rest → holds done state →
      holds (done ++ [item]) (step state item)) : holds items (items.foldl step start) := by
  have general : ∀ rest done state, items = done ++ rest → holds done state →
      holds items (rest.foldl step state) := by
    intro rest
    induction rest with
    | nil =>
      intro done state same valid
      rw [same, List.append_nil]
      exact valid
    | cons item rest ih =>
      intro done state same valid
      exact ih (done ++ [item]) (step state item) (by simp [same])
        (preserved done item rest state same valid)
  exact general items [] start rfl initial

end RustPosix.Library
