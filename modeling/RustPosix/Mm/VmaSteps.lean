import RustPosix.Mm.VmaInsertion

/-! Removing a range of areas and changing the protection of one, read pointwise. -/

namespace RustPosix.Mm

open Library

/-- The pieces that `remove_vma_range` leaves of one area. -/
def cutVma (start stop : Nat) (vma : Vma) : List Vma :=
  if vma.stop ≤ start ∨ vma.start ≥ stop then [vma]
  else
    (if vma.start < start then [⟨vma.start, start, vma.attr⟩] else []) ++
    (if vma.stop > stop then [⟨stop, vma.stop, vma.attr⟩] else [])

section Remove

variable {start stop addr : Nat} {vma : Vma} {vmas : List Vma}

theorem removeVmas_cons (vma : Vma) (vmas : List Vma) :
    removeVmas (vma :: vmas) start stop = cutVma start stop vma ++ removeVmas vmas start stop :=
  List.flatMap_cons

theorem cutVma_within (valid : vma.start < vma.stop) :
    ∀ piece ∈ cutVma start stop vma, vma.start ≤ piece.start ∧ piece.start < piece.stop ∧
      piece.stop ≤ vma.stop := by
  intro piece member
  rw [cutVma] at member
  split at member
  · obtain rfl := List.mem_singleton.mp member
    omega
  · rcases List.mem_append.mp member with left | right
    · split at left
      · obtain rfl := List.mem_singleton.mp left
        dsimp only
        omega
      · exact absurd left List.not_mem_nil
    · split at right
      · obtain rfl := List.mem_singleton.mp right
        dsimp only
        omega
      · exact absurd right List.not_mem_nil

theorem cutVma_ordered (valid : vma.start < vma.stop) (range : start < stop) :
    Ordered (cutVma start stop vma) := by
  refine ⟨?_, fun piece member => (cutVma_within valid piece member).2.1⟩
  rw [cutVma]
  split
  · exact List.pairwise_singleton ..
  · refine List.pairwise_append.mpr ⟨?_, ?_, ?_⟩
    · split
      · exact List.pairwise_singleton ..
      · exact List.Pairwise.nil
    · split
      · exact List.pairwise_singleton ..
      · exact List.Pairwise.nil
    · intro left leftMember right rightMember
      split at leftMember
      · split at rightMember
        · obtain rfl := List.mem_singleton.mp leftMember
          obtain rfl := List.mem_singleton.mp rightMember
          exact Nat.le_of_lt range
        · exact absurd rightMember List.not_mem_nil
      · exact absurd leftMember List.not_mem_nil

theorem lookup_cutVma : lookup (cutVma start stop vma) addr =
    if start ≤ addr ∧ addr < stop then none else lookup [vma] addr := by
  have piece (kept : Prop) [Decidable kept] (span : Vma) :
      lookup (if kept then [span] else []) addr =
        if kept ∧ span.start ≤ addr ∧ addr < span.stop then some span.attr else none := by
    by_cases holds : kept <;> simp [holds, lookup_singleton]
  rw [cutVma, lookup_singleton]
  split
  · rw [lookup_singleton]
    by_cases inside : start ≤ addr ∧ addr < stop
    · rw [if_pos inside, if_neg (by omega)]
    · rw [if_neg inside]
  · rw [lookup_append, piece, piece]
    by_cases inside : start ≤ addr ∧ addr < stop
    · rw [if_pos inside, if_neg (by dsimp only; omega), if_neg (by dsimp only; omega)]
      rfl
    · rw [if_neg inside]
      by_cases covered : vma.start ≤ addr ∧ addr < vma.stop
      · rw [if_pos covered]
        by_cases before : addr < start
        · rw [if_pos (by dsimp only; omega)]
          rfl
        · rw [if_neg (by dsimp only; omega), if_pos (by dsimp only; omega)]
          rfl
      · rw [if_neg covered, if_neg (by dsimp only; omega), if_neg (by dsimp only; omega)]
        rfl

/-- Exactly the addresses of the range are gone. -/
theorem removeVmas_spec (ordered : Ordered vmas) (range : start < stop) :
    Ordered (removeVmas vmas start stop) ∧ ∀ addr, lookup (removeVmas vmas start stop) addr =
      if start ≤ addr ∧ addr < stop then none else lookup vmas addr := by
  suffices spec : Ordered (removeVmas vmas start stop) ∧
      (∀ piece ∈ removeVmas vmas start stop, ∃ vma ∈ vmas, vma.start ≤ piece.start) ∧
      ∀ addr, lookup (removeVmas vmas start stop) addr =
        if start ≤ addr ∧ addr < stop then none else lookup vmas addr from ⟨spec.1, spec.2.2⟩
  induction vmas with
  | nil => exact ⟨Ordered.nil, fun _ member => absurd member List.not_mem_nil, fun _ => by split <;> rfl⟩
  | cons vma rest ih =>
    have split : Ordered ([vma] ++ rest) := ordered
    obtain ⟨restOrdered, restWithin, restRead⟩ := ih split.of_append_right
    have valid := ordered.nonempty vma (List.mem_cons_self ..)
    have within := @cutVma_within start stop _ valid
    rw [removeVmas_cons]
    refine ⟨(cutVma_ordered valid range).append restOrdered ?_, ?_, ?_⟩
    · intro left leftMember right rightMember
      obtain ⟨later, laterMember, bound⟩ := restWithin right rightMember
      have apart := (List.pairwise_cons.mp ordered.apart).1 later laterMember
      have inside := within left leftMember
      omega
    · intro piece member
      rcases List.mem_append.mp member with here | later
      · exact ⟨vma, List.mem_cons_self .., (within piece here).1⟩
      · obtain ⟨old, oldMember, bound⟩ := restWithin piece later
        exact ⟨old, List.mem_cons_of_mem _ oldMember, bound⟩
    · intro addr
      change _ = if start ≤ addr ∧ addr < stop then none else lookup ([vma] ++ rest) addr
      rw [lookup_append, lookup_append, lookup_cutVma, restRead]
      by_cases inside : start ≤ addr ∧ addr < stop
      · rw [if_pos inside, if_pos inside, if_pos inside]
        rfl
      · rw [if_neg inside, if_neg inside, if_neg inside]

end Remove

/-- Whatever it loses, an insertion keeps the list ordered and covers nothing but its range
and what was covered. -/
theorem insertVma_covers {vmas : List Vma} (ordered : Ordered vmas) (start stop : Nat)
    (prot flags : BitVec 32) :
    Ordered (insertVma vmas start stop prot flags) ∧ ∀ addr,
      lookup (insertVma vmas start stop prot flags) addr ≠ none →
        (start ≤ addr ∧ addr < stop) ∨ lookup vmas addr ≠ none := by
  by_cases range : start < stop
  · have placed : Ordered (placedVmas vmas start stop ⟨prot, flags⟩) ∧ ∀ addr,
        lookup (placedVmas vmas start stop ⟨prot, flags⟩) addr ≠ none →
          overlay start stop ⟨prot, flags⟩ vmas addr ≠ none := by
      by_cases straddled : Straddled vmas start stop ⟨prot, flags⟩
      · rcases InsertLoop.Progress.run range ordered with pending | emitted | lost
        · obtain ⟨_, _, _, _, _, u, member, differs, low, high⟩ := straddled
          exact absurd (pending.uniform u member low high) differs
        · exact absurd straddled emitted.clean
        · rw [placedVmas, InsertLoop.place, lost.placed]
          refine ⟨lost.ordered, fun addr found => ?_⟩
          simp only [if_true, lost.read addr] at found
          split at found
          · exact absurd rfl found
          · exact found
      · obtain ⟨exactOrder, read⟩ := placedVmas_spec ordered range straddled
        exact ⟨exactOrder, fun addr found => read addr ▸ found⟩
    have merged := Merged.run placed.1
    rw [insertVma_eq range]
    refine ⟨merged.ordered, fun addr found => ?_⟩
    rw [merged.read] at found
    by_cases inside : start ≤ addr ∧ addr < stop
    · exact .inl inside
    · exact .inr (overlay_outside inside ▸ placed.2 addr found)
  · rw [insertVma, if_pos (Nat.le_of_not_lt range)]
    exact ⟨ordered, fun _ found => .inr found⟩

section Protect

variable {start stop addr : Nat} {vmas : List Vma}

/-- An insertion into addresses of one attribute is never straddled. -/
theorem not_straddled_of_uniform {value attr : VmaAttr} (ordered : Ordered vmas)
    (uniform : ∀ addr, start ≤ addr → addr < stop → lookup vmas addr = some value)
    (range : start < stop) : ¬ Straddled vmas start stop attr := by
  rintro ⟨v, member, same, lower, upper, u, other, differs, before, after⟩
  have nonempty := ordered.nonempty u other
  have first := ordered.lookup_mem member (Nat.le_max_right start v.start) (by omega)
  have second := ordered.lookup_mem other (Nat.le_max_right start u.start) (by omega)
  rw [uniform _ (by omega) (by omega)] at first second
  exact differs ((Option.some.inj second).symm.trans ((Option.some.inj first).trans same))

/-- The insertions of `mprotect_range`, one for each area. An empty segment inserts nothing. -/
theorem protectVmas_eq (vmas : List Vma) (start stop : Nat) (newProt : BitVec 32) :
    protectVmas vmas start stop newProt = vmas.foldl (fun current vma =>
      insertVma current (max vma.start start) (min vma.stop stop) newProt vma.attr.flags) vmas := by
  rw [protectVmas, protectSegments, List.foldl_filterMap]
  congr 1
  funext current vma
  dsimp only
  split
  · rename_i segment found
    split at found
    · obtain rfl := Option.some.inj found
      rfl
    · exact nomatch found
  · rename_i found
    split at found
    · exact nomatch found
    · rename_i empty
      rw [insertVma, if_pos (by omega)]

/-- The protection has changed in the range, and only there. -/
theorem protectVmas_spec (ordered : Ordered vmas) (start stop : Nat) (newProt : BitVec 32) :
    Ordered (protectVmas vmas start stop newProt) ∧
      ∀ addr, lookup (protectVmas vmas start stop newProt) addr =
        if start ≤ addr ∧ addr < stop then
          (lookup vmas addr).map fun attr => ⟨newProt, attr.flags⟩
        else lookup vmas addr := by
  let holds (done current : List Vma) : Prop := Ordered current ∧ ∀ addr, lookup current addr =
    if start ≤ addr ∧ addr < stop ∧ lookup done addr ≠ none then
      (lookup vmas addr).map fun attr => ⟨newProt, attr.flags⟩
    else lookup vmas addr
  have run : holds vmas (protectVmas vmas start stop newProt) := by
    rw [protectVmas_eq]
    refine foldl_consumed vmas ⟨ordered, fun addr => by simp⟩ ?_
    rintro done vma rest current same ⟨currentOrdered, read⟩
    have member : vma ∈ vmas := by rw [same]; simp
    have fresh : ∀ addr, vma.start ≤ addr → lookup done addr = none := fun addr lower =>
      lookup_none_of_stop_le fun earlier earlierMember => Nat.le_trans
        ((same ▸ ordered).across earlierMember (List.mem_cons_self ..)) lower
    have outside : ∀ addr, ¬ (max vma.start start ≤ addr ∧ addr < min vma.stop stop) →
        ((start ≤ addr ∧ addr < stop ∧ lookup (done ++ [vma]) addr ≠ none) ↔
          (start ≤ addr ∧ addr < stop ∧ lookup done addr ≠ none)) := by
      intro addr apart
      rw [lookup_push]
      by_cases inside : start ≤ addr ∧ addr < stop
      · rw [if_neg (by omega), Option.or_none]
      · constructor <;> exact fun held => absurd ⟨held.1, held.2.1⟩ inside
    by_cases segment : max vma.start start < min vma.stop stop
    · have uniform : ∀ addr, max vma.start start ≤ addr → addr < min vma.stop stop →
          lookup current addr = some vma.attr := by
        intro addr lower upper
        rw [read addr, if_neg fun held => held.2.2 (fresh addr (by omega))]
        exact ordered.lookup_mem member (by omega) (by omega)
      have clean : ¬ Straddled current (max vma.start start) (min vma.stop stop)
          ⟨newProt, vma.attr.flags⟩ := not_straddled_of_uniform currentOrdered uniform segment
      obtain ⟨nextOrdered, nextRead⟩ := insertVma_spec currentOrdered segment clean
      refine ⟨nextOrdered, fun addr => ?_⟩
      rw [nextRead addr]
      by_cases inside : max vma.start start ≤ addr ∧ addr < min vma.stop stop
      · have lower : vma.start ≤ addr := by omega
        have here := ordered.lookup_mem member lower (by omega)
        rw [overlay_inside inside, if_pos, here, Option.map_some]
        refine ⟨by omega, by omega, ?_⟩
        rw [lookup_push, fresh addr (by omega), if_pos (by omega)]
        exact Option.some_ne_none _
      · rw [overlay_outside inside, read addr]
        simp only [outside addr inside]
    · rw [insertVma, if_pos (by omega)]
      refine ⟨currentOrdered, fun addr => ?_⟩
      rw [read addr]
      have apart : ¬ (max vma.start start ≤ addr ∧ addr < min vma.stop stop) := by omega
      simp only [outside addr apart]
  refine ⟨run.1, fun addr => ?_⟩
  rw [run.2 addr]
  cases lookup vmas addr <;> simp

end Protect

end RustPosix.Mm
