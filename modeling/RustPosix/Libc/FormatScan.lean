import RustPosix.Libc.Format

/-! The scan of a format goes through its pieces one by one. -/

namespace RustPosix.Libc

open Library

/-- The memory holds these bytes from an address on. -/
def Spells (bytes : Memory) : Nat → List Byte → Prop
  | _, [] => True
  | s, byte :: rest => bytes s = byte ∧ Spells bytes (s + 1) rest

section Reading

variable {bytes : Memory} {s width i format : Nat} {front back digits : List Byte} {spec : Byte}

theorem spells_append :
    Spells bytes s (front ++ back) ↔ Spells bytes s front ∧ Spells bytes (s + front.length) back := by
  induction front generalizing s with
  | nil => simp [Spells]
  | cons byte front ih =>
    rw [List.cons_append, Spells, Spells, ih, List.length_cons, Nat.add_assoc, Nat.add_comm 1,
      and_assoc]

/-- `strlen` finds the end of a string that has one. -/
theorem strlen_settles (terminated : ∃ len, bytes (s + len) = 0) :
    ∃ len, Settles (fun fuel => strlen bytes s fuel 0) (.ok len) ∧
      textAt bytes s = bytesAt bytes s len := by
  classical
  refine ⟨Nat.find terminated, ?_, by rw [textAt, dif_pos terminated]⟩
  have counts : ∀ left len, len + left = Nat.find terminated →
      Settles (fun fuel => strlen bytes s fuel len) (.ok (Nat.find terminated)) := by
    intro left
    induction left with
    | zero =>
      intro len here
      refine .of_succ ⟨0, fun fuel _ => ?_⟩
      have nul : bytes (s + len) = 0 := by
        have found := Nat.find_spec terminated
        rwa [← here, Nat.add_zero] at found
      dsimp only
      rw [strlen, if_neg (not_not_intro nul), ← here, Nat.add_zero]
    | succ left ih =>
      intro len here
      have other : bytes (s + len) ≠ 0 := Nat.find_min terminated (by omega)
      obtain ⟨enough, same⟩ := ih (len + 1) (by omega)
      refine .of_succ ⟨enough, fun fuel more => ?_⟩
      dsimp only
      rw [strlen, if_pos other]
      exact same fuel more
  exact counts _ 0 (Nat.zero_add _)

/-- A number does not get smaller with more digits. -/
theorem le_decimal (digits : List Byte) (value : Nat) : value ≤ decimal value digits := by
  induction digits generalizing value with
  | nil => exact Nat.le_refl value
  | cons digit digits ih =>
    exact Nat.le_trans (by omega) (ih (value * 10 + (digit.toNat - 0x30)))

/-- The loop over the digits of a width ends behind them, or with a panic. -/
theorem scanWidth_settles (digitsOnly : ∀ digit ∈ digits, isDigit digit = true)
    (other : isDigit spec = false) (bounded : width < 2 ^ 64)
    (spelled : Spells bytes (format + i) (digits ++ [spec])) :
    Settles (fun fuel => scanWidth bytes format fuel width i)
      (if decimal width digits < 2 ^ 64 then .ok (decimal width digits, i + digits.length)
      else .error .panic) := by
  induction digits generalizing width i with
  | nil =>
    refine .of_succ ⟨0, fun fuel _ => ?_⟩
    dsimp only
    rw [scanWidth, spelled.1, other, decimal, List.foldl_nil, if_pos bounded]
    rfl
  | cons digit digits ih =>
    obtain ⟨here, spelled⟩ := spelled
    have isDigit := digitsOnly digit List.mem_cons_self
    rw [decimal, List.foldl_cons, ← decimal]
    by_cases room : width * 10 + (digit.toNat - 0x30) < 2 ^ 64
    · obtain ⟨enough, same⟩ := @ih (width * 10 + (digit.toNat - 0x30)) (i + 1)
        (fun other member => digitsOnly other (List.mem_cons_of_mem digit member)) room
        (by rw [← Nat.add_assoc]; exact spelled)
      refine .of_succ ⟨enough, fun fuel more => ?_⟩
      dsimp only
      rw [scanWidth, here, if_pos isDigit]
      dsimp only
      rw [if_pos room, List.length_cons, Nat.add_comm digits.length 1, ← Nat.add_assoc]
      exact same fuel more
    · have large := le_decimal digits (width * 10 + (digit.toNat - 0x30))
      refine .of_succ ⟨0, fun fuel _ => ?_⟩
      dsimp only
      rw [scanWidth, here, if_pos isDigit, if_neg room, if_neg (by omega)]

end Reading

section Steps

variable {passed : Passed} {format index taken width : Nat} {spec : Byte} {out : FormatBuffer}
  {piece : Piece}

/-- Sign extension does not reach the least number. -/
theorem signed32_ne (slot : BitVec 64) : signed32 slot ≠ BitVec.intMin 64 := by
  intro same
  have value := congrArg BitVec.toInt same
  unfold signed32 at value
  rw [BitVec.toInt_signExtend_of_le (by decide)] at value
  have least := BitVec.le_toInt (slot.truncate 32)
  rw [value] at least
  revert least
  decide

/-- A conversion pushes what it stands for. -/
theorem conversion_settles (matching : (Piece.directive [] spec).Matches passed taken) :
    Settles (fun fuel => conversion passed fuel spec width taken out)
      ((out.pushAll (converted passed spec width taken)).map
        ((Piece.directive [] spec).after taken, ·)) := by
  unfold conversion converted Piece.after
  dsimp only
  by_cases isInt : spec = 0x64 ∨ spec = 0x69
  · have taking : takes spec = true := by rcases isInt with rfl | rfl <;> rfl
    simp only [if_pos isInt, taking, if_true]
    rw [FormatBuffer.writeNumPadded_eq (Or.inl rfl) fun _ => signed32_ne _]
    exact .const
  simp only [if_neg isInt]
  by_cases isUnsigned : spec = 0x75
  · have taking : takes spec = true := by rw [isUnsigned]; rfl
    simp only [if_pos isUnsigned, taking, if_true]
    rw [FormatBuffer.writeUnsigned_eq (Or.inl rfl)]
    exact .const
  simp only [if_neg isUnsigned]
  by_cases isHex : spec = 0x78
  · have taking : takes spec = true := by rw [isHex]; rfl
    simp only [if_pos isHex, taking, if_true]
    rw [FormatBuffer.writeUnsigned_eq (Or.inr rfl)]
    exact .const
  simp only [if_neg isHex]
  by_cases isPointer : spec = 0x70
  · have taking : takes spec = true := by rw [isPointer]; rfl
    simp only [if_pos isPointer, taking, if_true, FormatBuffer.pushAll_append]
    refine ⟨0, fun _ _ => ?_⟩
    cases out.pushAll zeroX with
    | error problem => rfl
    | ok out =>
      change (out.writeNumPadded _ 16 false width).map _ = _
      rw [FormatBuffer.writeUnsigned_eq (Or.inr rfl)]
      rfl
  simp only [if_neg isPointer]
  by_cases isString : spec = 0x73
  · have taking : takes spec = true := by rw [isString]; rfl
    simp only [if_pos isString, taking, if_true]
    by_cases null : passed.slots taken = 0
    · simp only [if_pos null]
      exact .const
    · simp only [if_neg null]
      obtain ⟨len, settles, text⟩ := strlen_settles (matching isString null)
      rw [text]
      exact settles.bind .const
  simp only [if_neg isString]
  by_cases isChar : spec = 0x63
  · have taking : takes spec = true := by rw [isChar]; rfl
    simp only [if_pos isChar, taking, if_true]
    rw [FormatBuffer.pushAll_one]
    exact .const
  simp only [if_neg isChar]
  have taking : takes spec = false := by
    refine Bool.eq_false_iff.mpr fun taking => ?_
    simp only [takes, Bool.or_eq_true, decide_eq_true_eq] at taking
    simp only [isUnsigned, isHex, isPointer, isString, isChar, or_false] at taking
    exact isInt taking
  simp only [taking, Bool.false_eq_true, if_false]
  by_cases isPercent : spec = percent
  · simp only [if_pos isPercent, FormatBuffer.pushAll_one]
    exact .const
  · simp only [if_neg isPercent, FormatBuffer.pushAll]
    refine ⟨0, fun _ _ => ?_⟩
    cases out.push percent with
    | error problem => rfl
    | ok out =>
      change (out.push spec).map _ = (FormatBuffer.pushAll [spec] out).map _
      rw [FormatBuffer.pushAll_one]

/-- What a round of the scan comes to at a piece. -/
noncomputable def stepped (passed : Passed) (piece : Piece) (scan : Scan) : Except Stop Scan :=
  if piece.Fits then
    (scan.out.pushAll (piece.expansion passed scan.taken)).map
      (⟨scan.index + piece.bytes.length, piece.after scan.taken, ·⟩)
  else .error .panic

/-- A round of the scan goes through a piece. -/
theorem scanStep_settles {scan : Scan} (proper : piece.Proper)
    (matching : piece.Matches passed scan.taken)
    (spelled : Spells passed.bytes (format + scan.index) piece.bytes) :
    Settles (fun fuel => scanStep passed format fuel scan) (stepped passed piece scan) := by
  unfold scanStep stepped
  cases piece with
  | literal byte =>
    have here : passed.bytes (format + scan.index) = byte := spelled.1
    simp only [here, if_neg proper.2]
    rw [if_pos (show (Piece.literal byte).Fits from trivial), Piece.expansion,
      FormatBuffer.pushAll_one]
    exact .const
  | directive digits spec =>
    obtain ⟨here, spelled⟩ := spelled
    have width := @scanWidth_settles passed.bytes 0 (scan.index + 1) format digits spec proper.1
      proper.2 (by decide) spelled
    have behind : passed.bytes (format + (scan.index + 1 + digits.length)) = spec := by
      have last := (spells_append.mp spelled).2.1
      rwa [Nat.add_assoc format, Nat.add_assoc format] at last
    simp only [here, if_true]
    by_cases fits : (Piece.directive digits spec).Fits
    · rw [if_pos fits]
      rw [if_pos (show decimal 0 digits < 2 ^ 64 from fits)] at width
      refine width.bind ?_
      dsimp only
      rw [behind]
      have converts := @conversion_settles passed scan.taken (decimal 0 digits) spec scan.out matching
      rw [Piece.expansion]
      cases pushed : scan.out.pushAll (converted passed spec (decimal 0 digits) scan.taken) with
      | error problem =>
        rw [pushed] at converts
        exact converts.bind_error
      | ok out =>
        rw [pushed] at converts
        refine converts.bind ?_
        have length : scan.index + (Piece.directive digits spec).bytes.length =
            scan.index + 1 + digits.length + 1 := by
          rw [Piece.bytes, List.length_cons, List.length_append, List.length_singleton]
          omega
        rw [length]
        exact .const
    · rw [if_neg fits]
      rw [if_neg (show ¬ decimal 0 digits < 2 ^ 64 from fits)] at width
      exact width.bind_error

end Steps

/-- What the scan of pieces comes to. -/
noncomputable def walked (passed : Passed) : List Piece → Scan → Except Stop Scan
  | [], scan => .ok scan
  | piece :: rest, scan => stepped passed piece scan >>= walked passed rest

/-- The arguments that have been taken after pieces. -/
def takenAfter (taken : Nat) (pieces : List Piece) : Nat :=
  pieces.foldl (fun taken piece => piece.after taken) taken

section Pieces

variable {passed : Passed} {format : Nat} {scan last : Scan} {piece : Piece}
  {pieces front back : List Piece}

theorem walked_append : walked passed (front ++ back) scan =
    walked passed front scan >>= walked passed back := by
  induction front generalizing scan with
  | nil => rfl
  | cons piece front ih =>
    rw [List.cons_append, walked, walked]
    cases stepped passed piece scan with
    | error problem => rfl
    | ok next => exact ih

theorem matching_append {taken : Nat} : Matching passed taken (front ++ back) ↔
    Matching passed taken front ∧ Matching passed (takenAfter taken front) back := by
  induction front generalizing taken with
  | nil => simp [Matching, takenAfter]
  | cons piece front ih =>
    rw [List.cons_append, Matching, Matching, ih, and_assoc]
    rfl

/-- All pieces fit and their expansion can be counted, or the scan panics. -/
theorem walked_eq : walked passed pieces scan =
    if ∀ piece ∈ pieces, piece.Fits then
      (scan.out.pushAll (expand passed scan.taken pieces)).map
        (⟨scan.index + (pieces.flatMap Piece.bytes).length, takenAfter scan.taken pieces, ·⟩)
    else .error .panic := by
  induction pieces generalizing scan with
  | nil =>
    rw [if_pos (show ∀ piece ∈ [], Piece.Fits piece from nofun)]
    rfl
  | cons piece pieces ih =>
    rw [walked, stepped]
    by_cases fits : piece.Fits
    · rw [if_pos fits, expand, FormatBuffer.pushAll_append]
      simp only [List.forall_mem_cons, fits, true_and]
      cases pushed : scan.out.pushAll (piece.expansion passed scan.taken) with
      | error problem =>
        cases FormatBuffer.pushAll_error pushed
        split <;> rfl
      | ok out =>
        refine ih.trans ?_
        rw [List.flatMap_cons, List.length_append, ← Nat.add_assoc]
        rfl
    · rw [if_neg fits, if_neg fun all => fits (all piece List.mem_cons_self)]
      rfl

theorem walked_ok (ran : walked passed pieces scan = .ok last) :
    last.index = scan.index + (pieces.flatMap Piece.bytes).length ∧
      last.taken = takenAfter scan.taken pieces := by
  rw [walked_eq] at ran
  split at ran
  · cases pushed : scan.out.pushAll (expand passed scan.taken pieces) with
    | error problem =>
      rw [pushed] at ran
      cases ran
    | ok out =>
      rw [pushed] at ran
      cases ran
      exact ⟨rfl, rfl⟩
  · cases ran

/-- A round of the scan, at a byte that is not the last one, with enough fuel. -/
def ScanSteps (passed : Passed) (format : Nat) (scan next : Scan) : Prop :=
  passed.bytes (format + scan.index) ≠ 0 ∧
    Settles (fun fuel => scanStep passed format fuel scan) (.ok next)

/-- The pieces are in the memory, as the scan reads them, and their arguments match. -/
structure Readable (passed : Passed) (format : Nat) (pieces : List Piece) (scan : Scan) : Prop where
  proper : ∀ piece ∈ pieces, piece.Proper
  matching : Matching passed scan.taken pieces
  spelled : Spells passed.bytes (format + scan.index) (pieces.flatMap Piece.bytes)

namespace Readable

theorem first (readable : Readable passed format (piece :: pieces) scan) :
    passed.bytes (format + scan.index) ≠ 0 ∧
      Settles (fun fuel => scanStep passed format fuel scan) (stepped passed piece scan) := by
  have proper := readable.proper piece List.mem_cons_self
  have spelled := readable.spelled
  rw [List.flatMap_cons, spells_append] at spelled
  refine ⟨?_, scanStep_settles proper readable.matching.1 spelled.1⟩
  cases piece with
  | literal byte => exact spelled.1.1 ▸ proper.1
  | directive digits spec =>
    rw [spelled.1.1]
    decide

/-- Behind pieces that have been scanned come the others. -/
theorem behind (readable : Readable passed format (front ++ back) scan)
    (ran : walked passed front scan = .ok last) : Readable passed format back last := by
  obtain ⟨index, taken⟩ := walked_ok ran
  refine ⟨fun piece member => readable.proper piece (List.mem_append_right front member), ?_, ?_⟩
  · rw [taken]
    exact (matching_append.mp readable.matching).2
  · have spelled := readable.spelled
    rw [List.flatMap_append, spells_append, Nat.add_assoc] at spelled
    rw [index]
    exact spelled.2

/-- The scan comes to the end of pieces that can be scanned. -/
theorem reaches (readable : Readable passed format pieces scan)
    (ran : walked passed pieces scan = .ok last) :
    Relation.ReflTransGen (ScanSteps passed format) scan last := by
  induction pieces generalizing scan with
  | nil =>
    cases ran
    exact .refl
  | cons piece pieces ih =>
    obtain ⟨inside, settles⟩ := readable.first
    rw [walked] at ran
    cases step : stepped passed piece scan with
    | error problem =>
      rw [step] at ran
      cases ran
    | ok next =>
      rw [step] at ran settles
      have single : walked passed [piece] scan = .ok next := by rw [walked, step]; rfl
      have rest : Readable passed format pieces next :=
        behind (show Readable passed format ([piece] ++ pieces) scan from readable) single
      exact (Relation.ReflTransGen.single ⟨inside, settles⟩).trans (ih rest ran)

/-- The loop of the scan goes on behind the pieces, or ends with their panic. -/
theorem loop (readable : Readable passed format pieces scan) {result : Except Stop Scan}
    (rest : ∀ last, walked passed pieces scan = .ok last →
      Settles (fun fuel => scanLoop passed format fuel last) result)
    (failed : ∀ problem, walked passed pieces scan = .error problem → result = .error problem) :
    Settles (fun fuel => scanLoop passed format fuel scan) result := by
  induction pieces generalizing scan with
  | nil => exact rest scan rfl
  | cons piece pieces ih =>
    obtain ⟨inside, settles⟩ := readable.first
    have unfolded : (fun fuel => scanLoop passed format (fuel + 1) scan) =
        fun fuel => scanStep passed format fuel scan >>= scanLoop passed format fuel := by
      funext fuel
      rw [scanLoop, if_neg inside]
    refine .of_succ ?_
    rw [unfolded]
    rw [walked] at rest failed
    cases step : stepped passed piece scan with
    | error problem =>
      rw [step] at failed settles
      rw [failed problem rfl]
      exact settles.bind_error
    | ok next =>
      rw [step] at rest failed settles
      have single : walked passed [piece] scan = .ok next := by rw [walked, step]; rfl
      exact settles.bind (ih
        (behind (show Readable passed format ([piece] ++ pieces) scan from readable) single)
        rest failed)

/-- If the scan cannot go on behind the pieces, it is always between two of them. -/
theorem stays (readable : Readable passed format pieces scan) {now : Scan}
    (ends : ∀ last, walked passed pieces scan = .ok last → passed.bytes (format + last.index) = 0)
    (reached : Relation.ReflTransGen (ScanSteps passed format) scan now) :
    ∃ front back, pieces = front ++ back ∧ walked passed front scan = .ok now := by
  induction reached with
  | refl => exact ⟨[], pieces, rfl, rfl⟩
  | @tail middle now _ step ih =>
    obtain ⟨front, back, whole, ran⟩ := ih
    obtain ⟨inside, settles⟩ := step
    cases back with
    | nil =>
      rw [List.append_nil] at whole
      exact (inside (ends middle (whole ▸ ran))).elim
    | cons piece back =>
      have same := settles.unique ((whole ▸ readable).behind ran).first.2
      refine ⟨front ++ [piece], back, by rw [whole, List.append_assoc, List.singleton_append], ?_⟩
      rw [walked_append, ran]
      change stepped passed piece middle >>= _ = _
      rw [← same]
      rfl

end Readable

end Pieces

end RustPosix.Libc
