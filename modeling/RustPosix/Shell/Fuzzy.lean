import RustPosix.Shell.Completion

/-! The left-to-right scan of `fuzzy_score` finds every candidate: a match anywhere can be
moved to the first byte that fits. The score is an `i32` with checked sums. -/

namespace RustPosix.Shell

open Library

/-- A sum of `i32`; none stands for the panic on overflow. -/
def addI32 (left right : Int) : Option Int :=
  if -2 ^ 31 ≤ left + right ∧ left + right < 2 ^ 31 then some (left + right) else none

theorem addI32_of_small {left right : Int} (low : -2 ^ 31 ≤ left + right)
    (high : left + right < 2 ^ 31) : addI32 left right = some (left + right) :=
  if_pos ⟨low, high⟩

/-- A bonus that is added on a condition. -/
def addBonus (earned : Prop) [Decidable earned] (score bonus : Int) : Option Int :=
  if earned then addI32 score bonus else some score

theorem addBonus_of_small (earned : Prop) [Decidable earned] {score bonus : Int}
    (low : 0 ≤ score + bonus) (high : score + bonus < 2 ^ 31) :
    addBonus earned score bonus = some (score + if earned then bonus else 0) := by
  by_cases given : earned
  · rw [addBonus, if_pos given, if_pos given, addI32_of_small (by omega) high]
  · rw [addBonus, if_neg given, if_neg given, Int.add_zero]

/-- Whether a byte lies right behind the last match; `-1` stands for no match before. -/
def consecutiveI32 (prev : Int) (idx : Nat) : Option Bool :=
  if prev ≥ 0 then (addI32 prev 1).map fun next => decide ((idx : Int).bmod (2 ^ 32) = next)
  else some false

/-- The score behind a byte that matches. -/
def matchedI32 (wanted byte : Byte) (score prev : Int) (idx : Nat) (before : Option Byte) :
    Option Int := do
  let score ← addI32 score 10
  let score ← addBonus (before = none ∨ before = some slash ∨ before = some dash ∨
    before = some underscore) score 15
  let consecutive ← consecutiveI32 prev idx
  let score ← addBonus (consecutive = true) score 20
  addBonus (wanted = byte) score 5

/-- The loop with the widths of the source. -/
def fuzzyScanI32 : List Byte → List Byte → Int → Int → Nat → Option Byte →
    Option (List Byte × Int)
  | pattern, [], score, _, _, _ => some (pattern, score)
  | [], _ :: _, score, _, _, _ => some ([], score)
  | wanted :: pattern, byte :: target, score, prev, idx, before =>
    if toAsciiLowercase wanted = toAsciiLowercase byte then do
      let score ← matchedI32 wanted byte score prev idx before
      fuzzyScanI32 pattern target score ((idx : Int).bmod (2 ^ 32)) (idx + 1) (some byte)
    else fuzzyScanI32 (wanted :: pattern) target score prev (idx + 1) (some byte)

/-- The score, where the outer none stands for a panic. -/
def fuzzyScoreI32 (pattern target : List Byte) : Option (Option Int) :=
  if pattern = [] then some (some 0)
  else if pattern.length > target.length then some none
  else do
    let (unmatched, score) ← fuzzyScanI32 pattern target 0 (-1) 0 none
    if unmatched = [] then
      let score ← addI32 score (-((target.length - pattern.length : Nat) : Int).bmod (2 ^ 32))
      pure (some score)
    else pure none

/-- The index of the last match as an `i32`. -/
def lastMatch (prev : Option Nat) : Int :=
  prev.elim (-1) fun last => (last : Int)

/-- Casting an index of a short target changes nothing. -/
theorem bmod_of_short {idx : Nat} (short : idx < 2 ^ 20) : (idx : Int).bmod (2 ^ 32) = idx := by
  refine Int.bmod_eq_of_le ?_ ?_ <;> omega

theorem consecutiveI32_eq {prev : Option Nat} {idx : Nat}
    (inside : ∀ last, prev = some last → last < idx) (short : idx < 2 ^ 20) :
    consecutiveI32 (lastMatch prev) idx = some (prev.any fun last => idx = last + 1) := by
  cases prev with
  | none => rfl
  | some last =>
    have earlier := inside last rfl
    rw [consecutiveI32, lastMatch, Option.elim_some, if_pos (Int.natCast_nonneg last),
      addI32_of_small (by omega) (by omega), bmod_of_short short, Option.map_some,
      Option.any_some]
    exact congrArg some (decide_eq_decide.mpr (by omega))

theorem matchedI32_eq (wanted byte : Byte) {score : Int} {prev : Option Nat} {idx : Nat}
    (before : Option Byte) (low : 0 ≤ score) (high : score ≤ 50 * idx)
    (inside : ∀ last, prev = some last → last < idx) (short : idx < 2 ^ 20) :
    matchedI32 wanted byte score (lastMatch prev) idx before = some (score + 10 +
      (if before = none ∨ before = some slash ∨ before = some dash ∨ before = some underscore
        then 15 else 0) +
      (if prev.any fun last => idx = last + 1 then 20 else 0) +
      (if wanted = byte then 5 else 0)) := by
  simp only [matchedI32, Option.bind_eq_bind]
  rw [addI32_of_small (by omega) (by omega), Option.bind_some,
    addBonus_of_small _ (by omega) (by omega), Option.bind_some, consecutiveI32_eq inside short,
    Option.bind_some, addBonus_of_small _ (by split <;> omega) (by split <;> omega),
    Option.bind_some, addBonus_of_small]
  all_goals split <;> split <;> omega

/-- The scan of a short target never leaves `i32`. -/
theorem fuzzyScanI32_eq (pattern target : List Byte) (score : Int) (prev : Option Nat) (idx : Nat)
    (before : Option Byte) (low : 0 ≤ score) (high : score ≤ 50 * idx)
    (inside : ∀ last, prev = some last → last < idx) (short : idx + target.length < 2 ^ 20) :
    fuzzyScanI32 pattern target score (lastMatch prev) idx before =
        some (fuzzyScan pattern target score prev idx before) ∧
      0 ≤ (fuzzyScan pattern target score prev idx before).2 ∧
      (fuzzyScan pattern target score prev idx before).2 ≤ 50 * (idx + target.length) := by
  induction target generalizing pattern score prev idx before with
  | nil => simp [fuzzyScanI32, fuzzyScan, low, high]
  | cons byte target ih =>
    rw [List.length_cons] at short ⊢
    have total : 50 * ((idx + 1 : Nat) + target.length : Int) =
        50 * (idx + (target.length + 1 : Nat)) := by omega
    cases pattern with
    | nil =>
      rw [fuzzyScanI32, fuzzyScan]
      exact ⟨rfl, low, by omega⟩
    | cons wanted pattern =>
      by_cases same : toAsciiLowercase wanted = toAsciiLowercase byte
      · rw [fuzzyScanI32, if_pos same, fuzzyScan, if_pos same, ← total,
          matchedI32_eq wanted byte before low high inside (by omega), Option.bind_eq_bind,
          Option.bind_some, bmod_of_short (by omega)]
        refine ih pattern _ (some idx) (idx + 1) (some byte) ?_ ?_ ?_ (by omega)
        · split <;> split <;> split <;> omega
        · split <;> split <;> split <;> omega
        · rintro last ⟨⟩
          exact Nat.lt_succ_self idx
      · rw [fuzzyScanI32, if_neg same, fuzzyScan, if_neg same, ← total]
        refine ih _ _ _ _ _ low (by omega) ?_ (by omega)
        intro last found
        exact Nat.lt_succ_of_lt (inside last found)

/-- No candidate is lost by taking the first byte that fits. -/
theorem fuzzyScan_matched (pattern target : List Byte) (score : Int) (prev : Option Nat) (idx : Nat)
    (before : Option Byte) :
    (fuzzyScan pattern target score prev idx before).1 = [] ↔
      (pattern.map toAsciiLowercase).Sublist (target.map toAsciiLowercase) := by
  induction target generalizing pattern score prev idx before with
  | nil => simp [fuzzyScan]
  | cons byte target ih =>
    cases pattern with
    | nil => simp [fuzzyScan]
    | cons wanted pattern =>
      by_cases same : toAsciiLowercase wanted = toAsciiLowercase byte
      · rw [fuzzyScan, if_pos same, List.map_cons, List.map_cons, same, List.cons_sublist_cons]
        exact ih ..
      · rw [fuzzyScan, if_neg same, ih, List.map_cons, List.map_cons, List.sublist_cons_iff]
        simp [same]

/-- The score in `i32` is the one without widths. -/
theorem fuzzyScoreI32_eq (pattern : List Byte) {target : List Byte}
    (short : target.length < 2 ^ 20) :
    fuzzyScoreI32 pattern target = some (fuzzyScore pattern target) := by
  obtain ⟨ran, low, high⟩ := fuzzyScanI32_eq pattern target 0 none 0 none (Int.le_refl 0)
    (Int.le_refl 0) (fun _ => nofun) (by omega)
  by_cases empty : pattern = []
  · simp [fuzzyScoreI32, fuzzyScore, empty]
  by_cases long : pattern.length > target.length
  · simp [fuzzyScoreI32, fuzzyScore, empty, long]
  rw [fuzzyScoreI32, fuzzyScore, if_neg empty, if_neg empty, if_neg long, if_neg long]
  rw [lastMatch, Option.elim_none] at ran
  rw [ran, Option.bind_eq_bind, Option.bind_some, bmod_of_short (by omega)]
  dsimp only
  split
  · rw [addI32_of_small (by omega) (by omega), Option.bind_eq_bind, Option.bind_some]
    exact congrArg (fun score => some (some score)) (by omega)
  · rfl

/-- A score is given exactly if the pattern is a subsequence of the target up to case. -/
theorem fuzzy_score_complete (pattern : List Byte) {target : List Byte}
    (short : target.length < 2 ^ 20) :
    ∃ score, fuzzyScoreI32 pattern target = some score ∧ (score.isSome ↔
      (pattern.map toAsciiLowercase).Sublist (target.map toAsciiLowercase)) := by
  refine ⟨_, fuzzyScoreI32_eq pattern short, ?_⟩
  rw [fuzzyScore]
  by_cases empty : pattern = []
  · simp [empty]
  by_cases long : pattern.length > target.length
  · rw [if_neg empty, if_pos long]
    refine ⟨nofun, fun found => ?_⟩
    have lengths := found.length_le
    rw [List.length_map, List.length_map] at lengths
    omega
  rw [if_neg empty, if_neg long, ← fuzzyScan_matched pattern target 0 none 0 none]
  dsimp only
  split <;> simp_all

/-- The letters of `LS` lie in `tools`. -/
theorem fuzzy_score_tools : ∃ score,
    fuzzyScoreI32 [0x4C, 0x53] [0x74, 0x6F, 0x6F, 0x6C, 0x73] = some score ∧ (score.isSome ↔
      ([0x4C, 0x53].map toAsciiLowercase).Sublist
        ([0x74, 0x6F, 0x6F, 0x6C, 0x73].map toAsciiLowercase)) :=
  fuzzy_score_complete _ (by decide)

end RustPosix.Shell
