import RustPosix.Libc.Stdio
import RustPosix.Library.Fuel

/-! What a format stands for: the pieces that it is read as, and the bytes that they expand to. -/

namespace RustPosix.Libc

open Library

/-- A byte that is copied, or a conversion with the digits of its width. -/
inductive Piece where
  | literal (byte : Byte)
  | directive (digits : List Byte) (spec : Byte)
  deriving DecidableEq, Repr

namespace Piece

def bytes : Piece → List Byte
  | literal byte => [byte]
  | directive digits spec => percent :: (digits ++ [spec])

/-- The scan takes the bytes of the piece for this piece. -/
def Proper : Piece → Prop
  | literal byte => byte ≠ 0 ∧ byte ≠ percent
  | directive digits spec => (∀ digit ∈ digits, isDigit digit = true) ∧ isDigit spec = false

end Piece

/-- The pieces of a format, and the digits of a directive that is cut short by its end. -/
def parse : List Byte → List Piece × Option (List Byte)
  | [] => ([], none)
  | byte :: rest =>
    if byte = percent then
      match tail : rest.dropWhile isDigit with
      | [] => ([], some (rest.takeWhile isDigit))
      | spec :: more =>
        have shorter : more.length < rest.length := by
          have suffix := (List.dropWhile_suffix (l := rest) isDigit).length_le
          rwa [tail] at suffix
        (.directive (rest.takeWhile isDigit) spec :: (parse more).1, (parse more).2)
    else (.literal byte :: (parse rest).1, (parse rest).2)
termination_by format => format.length
decreasing_by
  all_goals
    rw [List.length_cons]
    omega

/-- The bytes of a directive that is cut short. -/
def cutBytes : Option (List Byte) → List Byte
  | none => []
  | some digits => percent :: digits

/-- The pieces and the directive that is cut short spell the format. -/
theorem parse_spells (format : List Byte) (noNul : 0 ∉ format) :
    (parse format).1.flatMap Piece.bytes ++ cutBytes (parse format).2 = format ∧
      (∀ piece ∈ (parse format).1, piece.Proper) ∧
      ∀ digits, (parse format).2 = some digits → ∀ digit ∈ digits, isDigit digit = true := by
  fun_induction parse format with
  | case1 => exact ⟨rfl, nofun, nofun⟩
  | case2 rest tail =>
    have whole := List.takeWhile_append_dropWhile (p := isDigit) (l := rest)
    rw [tail, List.append_nil] at whole
    refine ⟨congrArg (percent :: ·) whole, nofun, ?_⟩
    intro digits cut digit member
    cases cut
    exact List.mem_takeWhile_imp member
  | case3 rest spec more tail shorter ih =>
    have whole := List.takeWhile_append_dropWhile (p := isDigit) (l := rest)
    rw [tail] at whole
    have noNul' : 0 ∉ more := by
      intro member
      apply noNul
      rw [← whole]
      exact List.mem_cons_of_mem _ (List.mem_append_right _ (List.mem_cons_of_mem spec member))
    obtain ⟨spells, proper, digits⟩ := ih noNul'
    refine ⟨?_, ?_, digits⟩
    · rw [List.flatMap_cons, List.append_assoc, spells, Piece.bytes, List.cons_append,
        List.append_assoc, List.singleton_append, whole]
    · intro piece member
      rcases List.mem_cons.mp member with rfl | member
      · refine ⟨fun digit member => List.mem_takeWhile_imp member, ?_⟩
        have first := List.head?_dropWhile_not isDigit rest
        rw [tail] at first
        simpa using first
      · exact proper piece member
  | case4 byte rest other ih =>
    obtain ⟨spells, proper, digits⟩ := ih fun member => noNul (List.mem_cons_of_mem byte member)
    refine ⟨congrArg (byte :: ·) spells, ?_, digits⟩
    intro piece member
    rcases List.mem_cons.mp member with rfl | member
    · exact ⟨fun zero => noNul (zero ▸ List.mem_cons_self), other⟩
    · exact proper piece member

/-- The number that digits behind those of `start` spell. -/
def decimal (start : Nat) (digits : List Byte) : Nat :=
  digits.foldl (fun value digit => value * 10 + (digit.toNat - 0x30)) start

/-- A number in a radix. -/
def numeral (base n : Nat) : List Byte :=
  if n = 0 then [FormatBuffer.digitByte 0]
  else ((Nat.digits base n).map FormatBuffer.digitByte).reverse

/-- A number with its sign, and with blanks before it up to the width. -/
def numberText (num : BitVec 64) (base : Nat) (isSigned : Bool) (width : Nat) : List Byte :=
  let text := if isSigned && num.msb then minus :: numeral base (-num).toNat
    else numeral base num.toNat
  List.replicate (width - text.length) blank ++ text

open Classical in
/-- The C string at an address. -/
noncomputable def textAt (bytes : Memory) (s : Nat) : List Byte :=
  if terminated : ∃ len, bytes (s + len) = 0 then bytesAt bytes s (Nat.find terminated) else []

/-- The conversions that take an argument. -/
def takes (spec : Byte) : Bool :=
  spec = 0x64 || spec = 0x69 || spec = 0x75 || spec = 0x78 || spec = 0x70 || spec = 0x73 ||
    spec = 0x63

/-- What a conversion writes if its argument is in the slot `taken`. -/
noncomputable def converted (passed : Passed) (spec : Byte) (width taken : Nat) : List Byte :=
  let slot := passed.slots taken
  if spec = 0x64 ∨ spec = 0x69 then numberText (signed32 slot) 10 true width
  else if spec = 0x75 then numberText (unsigned32 slot) 10 false width
  else if spec = 0x78 then numberText (unsigned32 slot) 16 false width
  else if spec = 0x70 then zeroX ++ numberText slot 16 false width
  else if spec = 0x73 then if slot = 0 then nullText else textAt passed.bytes slot.toNat
  else if spec = 0x63 then [slot.truncate 8]
  else if spec = percent then [percent]
  else [percent, spec]

namespace Piece

noncomputable def expansion (passed : Passed) (taken : Nat) : Piece → List Byte
  | literal byte => [byte]
  | directive digits spec => converted passed spec (decimal 0 digits) taken

/-- The arguments that have been taken after the piece. -/
def after (taken : Nat) : Piece → Nat
  | literal _ => taken
  | directive _ spec => if takes spec then taken + 1 else taken

/-- The width of the conversion is a machine word. -/
def Fits : Piece → Prop
  | literal _ => True
  | directive digits _ => decimal 0 digits < 2 ^ 64

instance : DecidablePred Fits
  | literal _ => inferInstanceAs (Decidable True)
  | directive digits _ => inferInstanceAs (Decidable (decimal 0 digits < 2 ^ 64))

/-- An argument that is used as a string is null or points to one. -/
def Matches (passed : Passed) (taken : Nat) : Piece → Prop
  | literal _ => True
  | directive _ spec => spec = 0x73 → passed.slots taken ≠ 0 →
      ∃ len, passed.bytes ((passed.slots taken).toNat + len) = 0

end Piece

/-- What the pieces of a format expand to. -/
noncomputable def expand (passed : Passed) : Nat → List Piece → List Byte
  | _, [] => []
  | taken, piece :: rest => piece.expansion passed taken ++ expand passed (piece.after taken) rest

/-- The arguments match the pieces of the format. -/
def Matching (passed : Passed) : Nat → List Piece → Prop
  | _, [] => True
  | taken, piece :: rest => piece.Matches passed taken ∧ Matching passed (piece.after taken) rest

namespace FormatBuffer

variable {out : FormatBuffer} {front back : List Byte}

theorem pushAll_one {byte : Byte} : pushAll [byte] out = out.push byte := by
  unfold pushAll
  cases out.push byte <;> rfl

theorem pushAll_error {problem : Stop} (failed : pushAll front out = .error problem) :
    problem = .panic := by
  induction front generalizing out with
  | nil => cases failed
  | cons byte front ih =>
    rw [pushAll, push] at failed
    split at failed
    · exact ih failed
    · cases failed
      rfl

theorem pushAll_append : pushAll (front ++ back) out = pushAll front out >>= pushAll back := by
  induction front generalizing out with
  | nil => rfl
  | cons byte front ih =>
    rw [List.cons_append, pushAll, pushAll]
    cases out.push byte with
    | error problem => rfl
    | ok next => exact ih

theorem digitLoop_last {base slots n : Nat} (small : n < base) :
    digitLoop base (slots + 1) n = .ok (numeral base n).reverse := by
  rw [digitLoop, if_pos (Nat.div_eq_of_lt small), Nat.mod_eq_of_lt small]
  unfold numeral
  split
  · rename_i zero
    rw [zero]
    rfl
  · rename_i positive
    rw [Nat.digits_of_lt base n positive small]
    rfl

/-- The digits by repeated division, as many as there are slots for. -/
theorem digitLoop_eq {base slots n : Nat} (radix : 2 ≤ base) (fits : n < base ^ (slots + 1)) :
    digitLoop base (slots + 1) n = .ok (numeral base n).reverse := by
  induction slots generalizing n with
  | zero => exact digitLoop_last (by rwa [Nat.zero_add, Nat.pow_one] at fits)
  | succ slots ih =>
    by_cases small : n < base
    · exact digitLoop_last small
    have positive : n ≠ 0 := by omega
    have more : n / base ≠ 0 := fun none =>
      small ((Nat.div_eq_zero_iff.mp none).resolve_left (by omega))
    rw [digitLoop, if_neg more, ih (Nat.div_lt_of_lt_mul (by rwa [← Nat.pow_succ'])), numeral,
      if_neg more, numeral, if_neg positive, Nat.digits_def' radix (Nat.pos_of_ne_zero positive)]
    simp only [List.map_cons, List.reverse_reverse]
    rfl

/-- No blanks are pushed where the text is wide enough. -/
theorem pushAll_padding {width total : Nat} {rest : FormatBuffer → Except Stop FormatBuffer} :
    (if width > total then pushAll (List.replicate (width - total) blank) out >>= rest
      else rest out) = pushAll (List.replicate (width - total) blank) out >>= rest := by
  split
  · rfl
  · rename_i wide
    rw [Nat.sub_eq_zero_of_le (Nat.not_lt.mp wide)]
    rfl

/-- `write_num_padded` pushes the number with its sign and its blanks. -/
theorem writeNumPadded_eq {num : BitVec 64} {base width : Nat} {isSigned : Bool}
    (radix : base = 10 ∨ base = 16) (negatable : isSigned = true → num ≠ BitVec.intMin 64) :
    out.writeNumPadded num base isSigned width =
      pushAll (numberText num base isSigned width) out := by
  have digits : ∀ n : BitVec 64, digitLoop base 32 n.toNat = .ok (numeral base n.toNat).reverse := by
    intro n
    apply digitLoop_eq
    · omega
    · refine Nat.lt_of_lt_of_le n.isLt ?_
      rcases radix with rfl | rfl <;> decide
  unfold writeNumPadded numberText
  by_cases negative : (isSigned && num.msb) = true
  · have fine : num ≠ BitVec.intMin 64 := negatable (Bool.and_eq_true_iff.mp negative).1
    simp only [negative, if_true, if_neg fine, pure_bind, digits]
    change (if width > (numeral base (-num).toNat).reverse.length + 1 then _ else _) = _
    rw [pushAll_padding, pushAll_append, List.length_reverse, List.reverse_reverse,
      List.length_cons]
    rfl
  · simp only [Bool.not_eq_true _ ▸ negative, Bool.false_eq_true, if_false, pure_bind, digits,
      Nat.add_zero]
    change (if width > (numeral base num.toNat).reverse.length then _ else _) = _
    rw [pushAll_padding, pushAll_append, List.length_reverse, List.reverse_reverse]

theorem writeUnsigned_eq {num : BitVec 64} {base width : Nat} (radix : base = 10 ∨ base = 16) :
    out.writeNumPadded num base false width = pushAll (numberText num base false width) out :=
  writeNumPadded_eq radix nofun

/-- Pushing fails only where the count would leave its type. -/
theorem pushAll_eq (bounded : out.written < 2 ^ 64) :
    pushAll front out =
      if out.written + front.length < 2 ^ 64 then .ok (front.foldl put out) else .error .panic := by
  induction front generalizing out with
  | nil => rw [List.length_nil, Nat.add_zero, if_pos bounded]; rfl
  | cons byte front ih =>
    rw [pushAll, push]
    by_cases room : out.written + 1 < 2 ^ 64
    · rw [if_pos room]
      change pushAll front (out.put byte) = _
      rw [ih (show (out.put byte).written < 2 ^ 64 from room), List.length_cons,
        show (out.put byte).written = out.written + 1 from rfl, Nat.add_assoc,
        Nat.add_comm 1 front.length]
      rfl
    · rw [if_neg room, if_neg (by rw [List.length_cons]; omega)]
      rfl

/-- What is in the buffer: the bytes that have been pushed as far as there is room, and then what
was there before. -/
theorem foldl_put {buf : List Byte} (written : Nat) (bytes : List Byte) :
    bytes.foldl put ⟨buf, written⟩ =
      ⟨(buf.take written ++ bytes).take buf.length ++ buf.drop (written + bytes.length),
        written + bytes.length⟩ := by
  induction bytes generalizing buf written with
  | nil =>
    rw [List.append_nil, List.length_nil, Nat.add_zero, List.take_take]
    by_cases inside : written ≤ buf.length
    · rw [Nat.min_eq_right inside, List.take_append_drop]
      rfl
    · rw [List.take_of_length_le (by omega), List.drop_eq_nil_of_le (by omega), List.append_nil]
      rfl
  | cons byte bytes ih =>
    rw [List.foldl_cons, put]
    dsimp only
    by_cases inside : written < buf.length
    · have cut : buf.set written byte = buf.take written ++ [byte] ++ buf.drop (written + 1) := by
        rw [List.set_eq_take_append_cons_drop, if_pos inside, List.append_assoc,
          List.singleton_append]
      have front : (buf.take written ++ [byte]).length = written + 1 := by
        rw [List.length_append, List.length_take, List.length_singleton]
        omega
      rw [if_pos inside, ih, List.length_set, cut, List.take_left' front, List.append_assoc,
        List.singleton_append, List.drop_append, front, Nat.add_sub_cancel_left, List.drop_drop,
        List.drop_eq_nil_of_le (by omega), List.nil_append, List.length_cons, Nat.add_assoc,
        Nat.add_comm 1]
    · have full : ∀ n, written ≤ n → buf.take n = buf := fun n more =>
        List.take_of_length_le (by omega)
      rw [if_neg inside, ih, full written (Nat.le_refl _), full _ (Nat.le_succ _),
        List.take_left' rfl, List.take_left' rfl, List.length_cons, Nat.add_assoc, Nat.add_comm 1]

end FormatBuffer

end RustPosix.Libc
