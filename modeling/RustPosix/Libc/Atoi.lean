import RustPosix.Libc.Snprintf

/-! `atoi` of `libs/libc/src/stdlib.rs` reads back what `snprintf` prints for `%d`. Its
accumulator is an `i32` without the sign, and has no room for the least number. -/

namespace RustPosix.Libc

open Library

def isBlank (byte : Byte) : Bool := byte = 0x20 || byte = 0x09 || byte = 0x0A

def plus : Byte := 0x2B

def skipBlanks (bytes : Memory) (s : Nat) : Nat → Nat → Except Stop Nat
  | 0, _ => .error .fuel
  | fuel + 1, i => if isBlank (bytes (s + i)) then skipBlanks bytes s fuel (i + 1) else .ok i

/-- The value of an operation on `i32`, which is checked. -/
def checkedI32 (value : Int) : Except Stop Int :=
  if -2 ^ 31 ≤ value ∧ value < 2 ^ 31 then .ok value else .error .panic

def digitsLoop (bytes : Memory) (s : Nat) : Nat → Int → Nat → Except Stop Int
  | 0, _, _ => .error .fuel
  | fuel + 1, res, i =>
    if isDigit (bytes (s + i)) then do
      let product ← checkedI32 (res * 10)
      let res ← checkedI32 (product + ((bytes (s + i)).toNat - 0x30 : Nat))
      digitsLoop bytes s fuel res (i + 1)
    else .ok res

def atoi (bytes : Memory) (s fuel : Nat) : Except Stop Int :=
  if s = 0 then .ok 0
  else do
    let i ← skipBlanks bytes s fuel 0
    let (sign, i) :=
      if bytes (s + i) = minus then (-1, i + 1)
      else if bytes (s + i) = plus then (1, i + 1)
      else (1, i)
    let res ← digitsLoop bytes s fuel 0 i
    checkedI32 (sign * res)

section Reading

variable {bytes : Memory} {s i : Nat} {blanks digits : List Byte}

theorem skipBlanks_settles (allBlank : ∀ byte ∈ blanks, isBlank byte = true)
    (spelled : Spells bytes (s + i) blanks)
    (other : isBlank (bytes (s + (i + blanks.length))) = false) :
    Settles (fun fuel => skipBlanks bytes s fuel i) (.ok (i + blanks.length)) := by
  induction blanks generalizing i with
  | nil =>
    refine .of_succ ⟨0, fun fuel _ => ?_⟩
    rw [List.length_nil, Nat.add_zero] at other
    simp [skipBlanks, other]
  | cons byte blanks ih =>
    rw [List.forall_mem_cons] at allBlank
    have step : i + (blanks.length + 1) = i + 1 + blanks.length := by omega
    rw [List.length_cons, step] at other ⊢
    obtain ⟨enough, same⟩ := ih allBlank.2 spelled.2 other
    refine .of_succ ⟨enough, fun fuel more => ?_⟩
    dsimp only
    rw [skipBlanks, spelled.1, if_pos allBlank.1]
    exact same fuel more

theorem checkedI32_small {value : Nat} (small : value < 2 ^ 31) :
    checkedI32 value = .ok (value : Int) :=
  if_pos (by omega)

theorem checkedI32_large {value : Nat} (large : ¬ value < 2 ^ 31) :
    checkedI32 value = .error .panic :=
  if_neg (by omega)

theorem ok_bind {α β : Type} (value : α) (next : α → Except Stop β) :
    (Except.ok value >>= next) = next value := rfl

/-- A round of the loop: the product and the sum are checked one after the other. -/
theorem checkedI32_digit (res digit : Nat) :
    (checkedI32 ((res : Int) * 10) >>= fun product => checkedI32 (product + (digit : Int))) =
      if res * 10 + digit < 2 ^ 31 then .ok ((res * 10 + digit : Nat) : Int)
      else .error .panic := by
  have product : (res : Int) * 10 = (res * 10 : Nat) := (Int.natCast_mul res 10).symm
  rw [product]
  by_cases inside : res * 10 < 2 ^ 31
  · rw [checkedI32_small inside]
    have sum : ((res * 10 : Nat) : Int) + digit = (res * 10 + digit : Nat) :=
      (Int.natCast_add ..).symm
    rw [ok_bind, sum]
    split
    · rename_i small
      exact checkedI32_small small
    · rename_i large
      exact checkedI32_large large
  · rw [checkedI32_large inside, if_neg (by omega)]
    rfl

/-- The loop over the digits comes to their number, or panics where an `i32` ends. -/
theorem digitsLoop_settles {res : Nat} (digitsOnly : ∀ digit ∈ digits, isDigit digit = true)
    (spelled : Spells bytes (s + i) digits)
    (other : isDigit (bytes (s + (i + digits.length))) = false) (small : res < 2 ^ 31) :
    Settles (fun fuel => digitsLoop bytes s fuel res i)
      (if decimal res digits < 2 ^ 31 then .ok (decimal res digits : Int) else .error .panic) := by
  induction digits generalizing res i with
  | nil =>
    refine .of_succ ⟨0, fun fuel _ => ?_⟩
    rw [List.length_nil, Nat.add_zero] at other
    dsimp only
    rw [digitsLoop, other, decimal, List.foldl_nil, if_pos small]
    rfl
  | cons digit digits ih =>
    rw [List.forall_mem_cons] at digitsOnly
    have step : i + (digits.length + 1) = i + 1 + digits.length := by omega
    rw [List.length_cons, step] at other
    rw [decimal, List.foldl_cons, ← decimal]
    refine .of_succ ?_
    have unfolded : (fun fuel => digitsLoop bytes s (fuel + 1) res i) = fun fuel =>
        (checkedI32 ((res : Int) * 10) >>= fun product =>
          checkedI32 (product + ((digit.toNat - 0x30 : Nat) : Int))) >>=
            fun next => digitsLoop bytes s fuel next (i + 1) := by
      funext fuel
      rw [digitsLoop, spelled.1, if_pos digitsOnly.1, bind_assoc]
    rw [unfolded, checkedI32_digit]
    by_cases room : res * 10 + (digit.toNat - 0x30) < 2 ^ 31
    · rw [if_pos room]
      exact ih digitsOnly.2 spelled.2 other room
    · have large := le_decimal digits (res * 10 + (digit.toNat - 0x30))
      rw [if_neg room, if_neg (by omega)]
      exact .const

end Reading

section Numerals

theorem digitByte_decimal {digit : Nat} (small : digit < 10) :
    isDigit (FormatBuffer.digitByte digit) = true ∧
      (FormatBuffer.digitByte digit).toNat - 0x30 = digit :=
  (by decide : ∀ digit : Fin 10, isDigit (FormatBuffer.digitByte digit) = true ∧
    (FormatBuffer.digitByte digit).toNat - 0x30 = digit.val) ⟨digit, small⟩

/-- A digit is neither a blank nor a sign. -/
theorem isDigit_plain {byte : Byte} (digit : isDigit byte = true) :
    isBlank byte = false ∧ byte ≠ minus ∧ byte ≠ plus := by
  revert byte
  decide

/-- A number is printed with digits only. -/
theorem isDigit_numeral (n : Nat) : ∀ byte ∈ numeral 10 n, isDigit byte = true := by
  intro byte member
  rw [numeral] at member
  split at member
  · rw [List.mem_singleton.mp member]
    rfl
  · obtain ⟨digit, printed, rfl⟩ := List.mem_map.mp (List.mem_reverse.mp member)
    exact (digitByte_decimal (Nat.digits_lt_base (by decide) printed)).1

/-- The digits that are printed spell the number. -/
theorem decimal_numeral (n : Nat) : decimal 0 (numeral 10 n) = n := by
  have spells : ∀ digits : List Nat, (∀ digit ∈ digits, digit < 10) →
      decimal 0 (digits.map FormatBuffer.digitByte).reverse = Nat.ofDigits 10 digits := by
    intro digits small
    induction digits with
    | nil => rfl
    | cons digit digits ih =>
      rw [List.forall_mem_cons] at small
      have rest := ih small.2
      rw [decimal] at rest
      rw [List.map_cons, List.reverse_cons, decimal, List.foldl_append, rest, List.foldl_cons,
        List.foldl_nil, (digitByte_decimal small.1).2, Nat.ofDigits_cons]
      omega
  rw [numeral]
  split
  · rename_i zero
    rw [zero]
    rfl
  · rw [spells _ fun digit member => Nat.digits_lt_base (by decide) member, Nat.ofDigits_digits]

/-- What `%d` prints for a value. -/
def signedText (value : BitVec 32) : List Byte :=
  if value.toInt < 0 then minus :: numeral 10 value.toInt.natAbs else numeral 10 value.toInt.natAbs

theorem numberText_signed (slot : BitVec 64) :
    numberText (signed32 slot) 10 true 0 = signedText (slot.truncate 32) := by
  have value : (signed32 slot).toInt = (slot.truncate 32).toInt :=
    BitVec.toInt_signExtend_of_le (by decide)
  have wide := (signed32 slot).isLt
  have sign := BitVec.toInt_eq_msb_cond (signed32 slot)
  have half := BitVec.msb_eq_decide (signed32 slot)
  rw [numberText, signedText, ← value]
  cases negative : (signed32 slot).msb with
  | true =>
    rw [negative] at sign half
    have high := of_decide_eq_true half.symm
    have below : (signed32 slot).toInt < 0 := by
      rw [sign, if_pos rfl]
      omega
    have magnitude : (-signed32 slot).toNat = (signed32 slot).toInt.natAbs := by
      rw [sign, if_pos rfl, BitVec.toNat_neg, Nat.mod_eq_of_lt (by omega)]
      omega
    simp only [Bool.and_self, if_true, if_pos below, magnitude, Nat.zero_sub, List.replicate_zero,
      List.nil_append]
  | false =>
    rw [negative, if_neg (by decide)] at sign
    have above : ¬ (signed32 slot).toInt < 0 := by omega
    have magnitude : (signed32 slot).toNat = (signed32 slot).toInt.natAbs := by omega
    simp only [Bool.and_false, Bool.false_eq_true, if_false, if_neg above, ← magnitude,
      Nat.zero_sub, List.replicate_zero, List.nil_append]

end Numerals

section RoundTrip

variable {bytes : Memory} {s i : Nat} {blanks : List Byte}

/-- The parts of `atoi` one after the other. -/
theorem atoi_settles {start : Nat} {sign : Int} {number : Except Stop Int} (valid : s ≠ 0)
    (skipped : Settles (fun fuel => skipBlanks bytes s fuel 0) (.ok i))
    (signed : (if bytes (s + i) = minus then ((-1 : Int), i + 1)
      else if bytes (s + i) = plus then (1, i + 1) else (1, i)) = (sign, start))
    (read : Settles (fun fuel => digitsLoop bytes s fuel 0 start) number) :
    Settles (atoi bytes s) (number >>= fun res => checkedI32 (sign * res)) := by
  unfold atoi
  simp only [if_neg valid]
  refine skipped.bind ?_
  simp only [signed]
  cases number with
  | error problem => exact read.bind_error
  | ok res => exact read.bind .const

/-- The sign is put back last. -/
theorem checkedI32_sign {value : BitVec 32} {sign : Int}
    (same : sign * value.toInt.natAbs = value.toInt) :
    ((if value.toInt.natAbs < 2 ^ 31 then Except.ok (value.toInt.natAbs : Int) else .error .panic) >>=
      fun res => checkedI32 (sign * res)) =
      if value.toInt.natAbs < 2 ^ 31 then .ok value.toInt else .error .panic := by
  by_cases small : value.toInt.natAbs < 2 ^ 31
  · rw [if_pos small, if_pos small, ok_bind, same, checkedI32, if_pos (by omega)]
  · rw [if_neg small, if_neg small]
    rfl

/-- What `atoi` makes of a printed number. -/
theorem atoi_signedText {value : BitVec 32} (valid : s ≠ 0)
    (allBlank : ∀ byte ∈ blanks, isBlank byte = true)
    (spelled : Spells bytes s (blanks ++ signedText value))
    (other : isDigit (bytes (s + (blanks ++ signedText value).length)) = false) :
    Settles (atoi bytes s)
      (if value.toInt.natAbs < 2 ^ 31 then .ok value.toInt else .error .panic) := by
  have digitsOnly := isDigit_numeral value.toInt.natAbs
  rw [spells_append, signedText] at spelled
  rw [List.length_append, signedText] at other
  by_cases negative : value.toInt < 0
  · rw [if_pos negative] at spelled other
    have skipped := skipBlanks_settles (i := 0) allBlank spelled.1 (by
      rw [Nat.zero_add, spelled.2.1]
      rfl)
    rw [Nat.zero_add] at skipped
    rw [List.length_cons, Nat.add_comm (numeral _ _).length, ← Nat.add_assoc blanks.length]
      at other
    have answer := atoi_settles valid skipped (by rw [spelled.2.1, if_pos rfl])
      (digitsLoop_settles digitsOnly spelled.2.2 other (show 0 < 2 ^ 31 by decide))
    rw [decimal_numeral, checkedI32_sign (by omega)] at answer
    exact answer
  · rw [if_neg negative] at spelled other
    obtain ⟨digit, rest, text⟩ : ∃ digit rest, numeral 10 value.toInt.natAbs = digit :: rest := by
      refine List.exists_cons_of_ne_nil fun empty => ?_
      have zero := decimal_numeral value.toInt.natAbs
      rw [empty] at zero
      rw [← zero] at empty
      cases empty
    have first : bytes (s + blanks.length) = digit := by
      rw [text] at spelled
      exact spelled.2.1
    have plain := isDigit_plain (digitsOnly digit (text ▸ List.mem_cons_self))
    have skipped := skipBlanks_settles (i := 0) allBlank spelled.1 (by
      rw [Nat.zero_add, first]
      exact plain.1)
    rw [Nat.zero_add] at skipped
    have answer := atoi_settles valid skipped
      (by rw [first, if_neg plain.2.1, if_neg plain.2.2])
      (digitsLoop_settles digitsOnly spelled.2 other (show 0 < 2 ^ 31 by decide))
    rw [decimal_numeral, checkedI32_sign (by omega)] at answer
    exact answer

theorem length_signedText (value : BitVec 32) : (signedText value).length ≤ 11 := by
  have low := BitVec.le_toInt value
  have high := BitVec.toInt_lt (x := value)
  have digits : (numeral 10 value.toInt.natAbs).length ≤ 10 := by
    rw [numeral]
    split
    · decide
    · rw [List.length_reverse, List.length_map, Nat.digits_length_le_iff (by decide)]
      exact Nat.lt_of_le_of_lt (by omega : _ ≤ 2 ^ 31) (by decide)
  rw [signedText]
  split
  · rw [List.length_cons]
    omega
  · omega

theorem toNat_length_signedText (value : BitVec 32) :
    (BitVec.ofNat 32 (signedText value).length).toNat = (signedText value).length :=
  Nat.mod_eq_of_lt (Nat.lt_of_le_of_lt (length_signedText value) (by decide))

/-- `snprintf` prints the value whole. -/
theorem snprintf_signedText {passed : Passed} {format : Nat} {buf : List Byte}
    (string : CString passed.bytes format [percent, 0x64]) (room : 12 ≤ buf.length) :
    ∃ stored, Settles (snprintf passed format buf)
        (.ok (BitVec.ofNat 32 (signedText ((passed.slots 0).truncate 32)).length, stored)) ∧
      stored.take (signedText ((passed.slots 0).truncate 32)).length =
        signedText ((passed.slots 0).truncate 32) := by
  have short := length_signedText ((passed.slots 0).truncate 32)
  have text : expand passed 0 [.directive [] 0x64] = signedText ((passed.slots 0).truncate 32) :=
    (List.append_nil _).trans (numberText_signed _)
  have counted : Counted passed [.directive [] 0x64] := by
    refine ⟨fun piece member => ?_, ?_⟩
    · cases List.mem_singleton.mp member
      exact show 0 < 2 ^ 64 by decide
    · rw [text]
      omega
  have settles := @snprintf_settles passed format [.directive [] 0x64] buf (fun piece member => by
    cases List.mem_singleton.mp member
    exact ⟨nofun, rfl⟩) string.spelled ⟨nofun, trivial⟩ counted (by omega)
  rw [text] at settles
  refine ⟨_, settles, ?_⟩
  have stored := @take_terminated (signedText ((passed.slots 0).truncate 32)) buf (by omega)
  rw [Nat.min_eq_left (by omega), List.take_of_length_le (Nat.le_refl _)] at stored
  have front := congrArg (List.take (signedText ((passed.slots 0).truncate 32)).length) stored
  rwa [List.take_take, Nat.min_eq_left (Nat.le_succ _), List.take_left] at front

/-- A memory that begins with a text behind other bytes. -/
theorem spells_beginning (front text : List Byte) :
    Spells (beginning (front ++ text)) front.length text := by
  induction text generalizing front with
  | nil => trivial
  | cons byte text ih =>
    refine ⟨?_, ?_⟩
    · simp [beginning]
    · have rest := ih (front ++ [byte])
      rwa [List.append_assoc, List.singleton_append, List.length_append] at rest

end RoundTrip

/-- Whatever blanks are before the text that `snprintf` prints for the value, and whatever comes
behind it that is no digit, `atoi` returns the value. -/
def AtoiInverts (value : BitVec 32) : Prop :=
  ∀ (passed : Passed) (format : Nat) (buf : List Byte),
    CString passed.bytes format [percent, 0x64] → (passed.slots 0).truncate 32 = value →
    12 ≤ buf.length → ∃ length stored,
      Settles (snprintf passed format buf) (.ok (length, stored)) ∧
        ∀ (bytes : Memory) (s : Nat) (blanks : List Byte), s ≠ 0 →
          (∀ byte ∈ blanks, isBlank byte = true) →
          Spells bytes s (blanks ++ stored.take length.toNat) →
          isDigit (bytes (s + (blanks ++ stored.take length.toNat).length)) = false →
          Settles (atoi bytes s) (.ok value.toInt)

/-- The text of the least number is read up to a panic. -/
theorem not_atoiInverts_intMin : ¬ AtoiInverts (BitVec.intMin 32) := by
  intro inverts
  let passed : Passed := ⟨beginning [percent, 0x64], fun _ => 0x80000000⟩
  have string : CString passed.bytes 0 [percent, 0x64] := ⟨⟨rfl, rfl, rfl, trivial⟩, by decide⟩
  have least : (passed.slots 0).truncate 32 = BitVec.intMin 32 := rfl
  have room : 12 ≤ (List.replicate 12 (0 : Byte)).length := Nat.le_of_eq List.length_replicate.symm
  obtain ⟨length, stored, settles, reads⟩ := inverts passed 0 _ string least room
  obtain ⟨same, again, text⟩ := snprintf_signedText string room
  rw [least] at again text
  cases settles.unique again
  rw [toNat_length_signedText, text] at reads
  have spelled := spells_beginning [0] (signedText (BitVec.intMin 32))
  have suffix : isDigit (beginning ([0] ++ signedText (BitVec.intMin 32))
      (1 + ([] ++ signedText (BitVec.intMin 32)).length)) = false := by
    rw [beginning, List.getD_eq_getElem?_getD, List.getElem?_eq_none (by simp [Nat.add_comm])]
    rfl
  have answer := reads _ 1 [] (by decide) nofun spelled suffix
  have panics := @atoi_signedText _ 1 [] _ (by decide) nofun spelled suffix
  rw [if_neg (by decide)] at panics
  cases answer.unique panics

/-- `atoi` inverts `%d` for every value but the least one. -/
theorem atoi_inverts_iff (value : BitVec 32) : AtoiInverts value ↔ value ≠ BitVec.intMin 32 := by
  constructor
  · rintro inverts rfl
    exact not_atoiInverts_intMin inverts
  · rintro other passed format buf string rfl room
    obtain ⟨stored, settles, text⟩ := snprintf_signedText string room
    refine ⟨_, stored, settles, fun bytes s blanks valid allBlank spelled suffix => ?_⟩
    rw [toNat_length_signedText, text] at spelled suffix
    have answer := atoi_signedText valid allBlank spelled suffix
    rwa [if_pos] at answer
    have low := BitVec.le_toInt ((passed.slots 0).truncate 32)
    have high := BitVec.toInt_lt (x := (passed.slots 0).truncate 32)
    have least : ((passed.slots 0).truncate 32).toInt ≠ -2 ^ 31 := fun same =>
      other (BitVec.eq_of_toInt_eq same)
    omega

/-- Of the text for the least number `atoi` panics. -/
theorem atoi_panics_at_least :
    snprintf ⟨beginning [percent, 0x64], fun _ => 0x80000000⟩ 0 (List.replicate 12 0) 4 =
        .ok (11, [0x2D, 0x32, 0x31, 0x34, 0x37, 0x34, 0x38, 0x33, 0x36, 0x34, 0x38, 0]) ∧
      atoi (beginning [0, 0x2D, 0x32, 0x31, 0x34, 0x37, 0x34, 0x38, 0x33, 0x36, 0x34, 0x38]) 1 20 =
        .error .panic ∧ ¬ AtoiInverts (BitVec.intMin 32) :=
  ⟨by decide +kernel, by decide +kernel, not_atoiInverts_intMin⟩

end RustPosix.Libc
