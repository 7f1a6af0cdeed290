import RustPosix.Libc.FormatScan

/-! `snprintf` and `printf` read nothing behind the end of their format, unless the end cuts a
directive short. -/

namespace RustPosix.Libc

open Library

/-- A C string in the memory. -/
structure CString (bytes : Memory) (s : Nat) (text : List Byte) : Prop where
  spelled : Spells bytes s (text ++ [0])
  noNul : 0 ∉ text

section Strings

variable {bytes : Memory} {s : Nat} {text : List Byte}

theorem Spells.getElem? (spelled : Spells bytes s text) {j : Nat} (inside : j < text.length) :
    text[j]? = some (bytes (s + j)) := by
  induction text generalizing s j with
  | nil => exact (Nat.not_lt_zero j inside).elim
  | cons byte text ih =>
    cases j with
    | zero => rw [List.getElem?_cons_zero, Nat.add_zero, spelled.1]
    | succ j =>
      rw [List.getElem?_cons_succ, ih spelled.2 (Nat.lt_of_succ_lt_succ inside), Nat.add_assoc,
        Nat.add_comm 1]

theorem CString.nul (string : CString bytes s text) : bytes (s + text.length) = 0 :=
  (spells_append.mp string.spelled).2.1

theorem CString.ne_nul (string : CString bytes s text) {j : Nat} (inside : j < text.length) :
    bytes (s + j) ≠ 0 := by
  intro zero
  have found := (spells_append.mp string.spelled).1.getElem? inside
  rw [zero] at found
  exact string.noNul (List.mem_of_getElem? found)

theorem CString.bytesAt (string : CString bytes s text) : bytesAt bytes s text.length = text := by
  apply List.ext_getElem?
  intro j
  unfold Libc.bytesAt
  rw [List.getElem?_map]
  by_cases inside : j < text.length
  · rw [List.getElem?_range inside, (spells_append.mp string.spelled).1.getElem? inside]
    rfl
  · rw [List.getElem?_eq_none (by rw [List.length_range]; omega),
      List.getElem?_eq_none (Nat.not_lt.mp inside)]
    rfl

/-- The string at an address is the one that is there. -/
theorem CString.textAt (string : CString bytes s text) : textAt bytes s = text := by
  classical
  have terminated : ∃ len, bytes (s + len) = 0 := ⟨text.length, string.nul⟩
  have length : Nat.find terminated = text.length := by
    rw [Nat.find_eq_iff]
    exact ⟨string.nul, fun j inside => string.ne_nul inside⟩
  unfold Libc.textAt
  rw [dif_pos terminated, show Nat.find terminated = text.length from length, string.bytesAt]

/-- A terminated string is one. -/
theorem cString_textAt (terminated : ∃ len, bytes (s + len) = 0) :
    CString bytes s (Libc.textAt bytes s) := by
  classical
  have spells : ∀ len, Spells bytes s (Libc.bytesAt bytes s len) := by
    intro len
    induction len with
    | zero => trivial
    | succ len ih =>
      unfold Libc.bytesAt
      rw [List.range_succ, List.map_append, List.map_singleton, spells_append]
      refine ⟨ih, ?_, trivial⟩
      rw [List.length_map, List.length_range]
  unfold Libc.textAt
  rw [dif_pos terminated]
  refine ⟨spells_append.mpr ⟨spells _, ?_, trivial⟩, fun zero => ?_⟩
  · unfold Libc.bytesAt
    rw [List.length_map, List.length_range]
    exact Nat.find_spec terminated
  · obtain ⟨j, inside, nul⟩ := List.mem_map.mp zero
    exact Nat.find_min terminated (List.mem_range.mp inside) nul

end Strings

/-- The pieces that a format is scanned as. A directive that is cut short takes the last byte for its
conversion. -/
def scanned (text : List Byte) : List Piece :=
  (parse text).1 ++ ((parse text).2.map fun digits => Piece.directive digits 0).toList

/-- No directive of the format is cut short by its end, or the scan panics before: at a width that
is no machine word, or at too many bytes to be counted. -/
def Uncut (passed : Passed) (text : List Byte) : Prop :=
  ∀ digits, (parse text).2 = some digits →
    (∃ piece ∈ (parse text).1, ¬ piece.Fits) ∨ 2 ^ 64 ≤ decimal 0 digits ∨
      2 ^ 64 ≤ (expand passed 0 (parse text).1).length + 2

/-- The other call has the same argument for the piece, and the same string behind it. -/
def Piece.SameArgument (passed other : Passed) (taken : Nat) : Piece → Prop
  | literal _ => True
  | directive _ spec => takes spec = true → other.slots taken = passed.slots taken ∧
      (spec = 0x73 → passed.slots taken ≠ 0 → ∀ text,
        CString passed.bytes (passed.slots taken).toNat text →
        CString other.bytes (passed.slots taken).toNat text)

def SameArguments (passed other : Passed) : Nat → List Piece → Prop
  | _, [] => True
  | taken, piece :: rest =>
    piece.SameArgument passed other taken ∧ SameArguments passed other (piece.after taken) rest

/-- Two calls agree on the format, up to its end, and on the arguments. -/
structure Agrees (passed other : Passed) (format : Nat) (text : List Byte) : Prop where
  string : CString other.bytes format text
  arguments : SameArguments passed other 0 (parse text).1

/-- What a call shows: the value that it returns and the first `count` bytes of its buffer. -/
def shown (count : Nat) (result : Except Stop (BitVec 32 × List Byte)) :
    Except Stop (BitVec 32 × List Byte) :=
  result.map fun (value, buf) => (value, buf.take count)

/-- A call depends on the text of its format and on its arguments: between its rounds and at the
conversions the index is not behind the last byte, the scan ends, and any other call that agrees
with it shows the same. The bytes of the buffer that are compared are those that are stored. -/
structure FormatOnly (passed : Passed) (format : Nat) (text : List Byte) : Prop where
  inside : ∀ buf scan, Relation.ReflTransGen (ScanSteps passed format) ⟨0, 0, ⟨buf, 0⟩⟩ scan →
    scan.index ≤ text.length
  conversions : ∀ buf scan width i,
    Relation.ReflTransGen (ScanSteps passed format) ⟨0, 0, ⟨buf, 0⟩⟩ scan →
    passed.bytes (format + scan.index) = percent →
    Settles (fun fuel => scanWidth passed.bytes format fuel 0 (scan.index + 1)) (.ok (width, i)) →
    i ≤ text.length
  buffered : ∀ other buf buf', Agrees passed other format text → buf'.length = buf.length →
    ∃ result, result ≠ .error .fuel ∧
      Settles (fun fuel => shown (min (expand passed 0 (parse text).1).length (buf.length - 1) + 1)
        (snprintf passed format buf fuel)) result ∧
      Settles (fun fuel => shown (min (expand passed 0 (parse text).1).length (buf.length - 1) + 1)
        (snprintf other format buf' fuel)) result
  printed : ∀ other, Agrees passed other format text → ∃ result, result ≠ .error .fuel ∧
    Settles (printf passed format) result ∧ Settles (printf other format) result

section Scanned

variable {passed other : Passed} {format taken : Nat} {text : List Byte} {pieces : List Piece}

/-- A directive that is cut short takes the last byte as well. -/
theorem flatMap_scanned (noNul : 0 ∉ text) : (scanned text).flatMap Piece.bytes =
    text ++ if (parse text).2.isSome then [0] else [] := by
  obtain ⟨spells, _, _⟩ := parse_spells text noNul
  unfold scanned
  cases cut : (parse text).2 with
  | none =>
    rw [cut, cutBytes, List.append_nil] at spells
    rw [Option.map_none, Option.toList_none, List.append_nil, spells]
    exact (List.append_nil _).symm
  | some digits =>
    rw [cut, cutBytes] at spells
    rw [Option.map_some, Option.toList_some, List.flatMap_append, List.flatMap_singleton,
      Piece.bytes, Option.isSome_some, if_pos rfl, ← List.cons_append, ← List.append_assoc, spells]

theorem readable_scanned (string : CString passed.bytes format text)
    (matching : Matching passed 0 (parse text).1) (out : FormatBuffer) :
    Readable passed format (scanned text) ⟨0, 0, out⟩ := by
  obtain ⟨_, proper, digitsOnly⟩ := parse_spells text string.noNul
  refine ⟨fun piece member => ?_, ?_, ?_⟩
  · rcases List.mem_append.mp member with member | member
    · exact proper piece member
    · obtain ⟨digits, cut, rfl⟩ := Option.map_eq_some_iff.mp (Option.mem_toList.mp member)
      exact ⟨digitsOnly digits cut, rfl⟩
  · refine matching_append.mpr ⟨matching, ?_⟩
    cases (parse text).2 with
    | none => trivial
    | some digits => exact ⟨nofun, trivial⟩
  · rw [flatMap_scanned string.noNul, Nat.add_zero]
    cases (parse text).2 with
    | none => exact spells_append.mpr ⟨(spells_append.mp string.spelled).1, trivial⟩
    | some digits => exact string.spelled

theorem expand_append {front back : List Piece} : expand passed taken (front ++ back) =
    expand passed taken front ++ expand passed (takenAfter taken front) back := by
  induction front generalizing taken with
  | nil => rfl
  | cons piece front ih =>
    rw [List.cons_append, expand, expand, ih, List.append_assoc]
    rfl

/-- A scan that gets through a directive that is cut short has had no reason to panic. -/
theorem cut_scanned {digits : List Byte} (cut : (parse text).2 = some digits) :
    scanned text = (parse text).1 ++ [.directive digits 0] ∧
      (expand passed 0 (scanned text)).length = (expand passed 0 (parse text).1).length + 2 := by
  have whole : scanned text = (parse text).1 ++ [.directive digits 0] := by
    unfold scanned
    rw [cut]
    rfl
  refine ⟨whole, ?_⟩
  rw [whole, expand_append, List.length_append]
  rfl

/-- With a format that is not cut short the scan ends at its last byte or panics. -/
theorem Uncut.ends (uncut : Uncut passed text) (string : CString passed.bytes format text)
    {buf : List Byte} {last : Scan} (ran : walked passed (scanned text) ⟨0, 0, ⟨buf, 0⟩⟩ = .ok last) :
    (parse text).2 = none ∧ last.index = text.length := by
  have index := (walked_ok ran).1
  rw [flatMap_scanned string.noNul, Nat.zero_add] at index
  cases cut : (parse text).2 with
  | none =>
    rw [cut] at index
    exact ⟨rfl, index.trans (congrArg List.length (List.append_nil text))⟩
  | some digits =>
    obtain ⟨whole, length⟩ := @cut_scanned passed text digits cut
    rw [walked_eq] at ran
    split at ran
    · rename_i fits
      have fitsPieces : ∀ piece ∈ (parse text).1, piece.Fits := fun piece member =>
        fits piece (whole ▸ List.mem_append_left _ member)
      have fitsCut : decimal 0 digits < 2 ^ 64 :=
        fits (.directive digits 0) (whole ▸ List.mem_append_right _ List.mem_cons_self)
      rw [FormatBuffer.pushAll_eq (show 0 < 2 ^ 64 by decide)] at ran
      split at ran
      · rename_i counted
        rcases uncut digits cut with ⟨piece, member, wide⟩ | wide | long
        · exact (wide (fitsPieces piece member)).elim
        · omega
        · dsimp only at counted
          omega
      · cases ran
    · cases ran

/-- The loop of the scan comes to what the pieces come to. -/
theorem Uncut.settles (uncut : Uncut passed text) (string : CString passed.bytes format text)
    (matching : Matching passed 0 (parse text).1) (buf : List Byte) :
    Settles (fun fuel => scanLoop passed format fuel ⟨0, 0, ⟨buf, 0⟩⟩)
      (walked passed (scanned text) ⟨0, 0, ⟨buf, 0⟩⟩) := by
  refine (readable_scanned string matching _).loop (fun last ran => ?_) fun problem failed => failed
  have nul : passed.bytes (format + last.index) = 0 := by
    rw [(uncut.ends string ran).2]
    exact string.nul
  refine .of_succ ⟨0, fun fuel _ => ?_⟩
  dsimp only
  rw [scanLoop, if_pos nul, ran]

/-- The scan of all pieces does not panic. -/
def Counted (passed : Passed) (pieces : List Piece) : Prop :=
  (∀ piece ∈ pieces, piece.Fits) ∧ (expand passed 0 pieces).length < 2 ^ 64

/-- The buffer holds the expansion as far as there is room, and behind it what was there. -/
theorem walked_of_counted {buf : List Byte} (counted : Counted passed pieces) :
    walked passed pieces ⟨0, 0, ⟨buf, 0⟩⟩ =
      .ok ⟨(pieces.flatMap Piece.bytes).length, takenAfter 0 pieces,
        ⟨(expand passed 0 pieces).take buf.length ++ buf.drop (expand passed 0 pieces).length,
          (expand passed 0 pieces).length⟩⟩ := by
  have bounded : 0 + (expand passed 0 pieces).length < 2 ^ 64 := by
    rw [Nat.zero_add]
    exact counted.2
  rw [walked_eq, if_pos counted.1, FormatBuffer.pushAll_eq (show 0 < 2 ^ 64 by decide),
    if_pos bounded, FormatBuffer.foldl_put, List.take_zero, List.nil_append, Nat.zero_add, Except.map,
    Nat.zero_add]

theorem walked_of_not_counted {buf : List Byte} (not : ¬ Counted passed pieces) :
    walked passed pieces ⟨0, 0, ⟨buf, 0⟩⟩ = .error .panic := by
  rw [walked_eq]
  split
  · rename_i fits
    have unbounded : ¬ 0 + (expand passed 0 pieces).length < 2 ^ 64 := by
      rw [Nat.zero_add]
      exact fun counted => not ⟨fits, counted⟩
    rw [FormatBuffer.pushAll_eq (show 0 < 2 ^ 64 by decide), if_neg unbounded]
    rfl
  · rfl

section Agreeing

variable {piece : Piece}

/-- Conversions without an argument copy what they find. -/
theorem converted_of_not_takes {spec : Byte} {width : Nat} (idle : takes spec = false) :
    converted passed spec width taken = if spec = percent then [percent] else [percent, spec] := by
  simp only [takes, Bool.or_eq_false_iff, decide_eq_false_iff_not] at idle
  obtain ⟨⟨⟨⟨⟨⟨notD, notI⟩, notU⟩, notX⟩, notP⟩, notS⟩, notC⟩ := idle
  unfold converted
  dsimp only
  rw [if_neg (not_or.mpr ⟨notD, notI⟩), if_neg notU, if_neg notX, if_neg notP, if_neg notS,
    if_neg notC]

theorem Piece.SameArgument.expansion (same : piece.SameArgument passed other taken)
    (matching : piece.Matches passed taken) :
    piece.expansion other taken = piece.expansion passed taken ∧ piece.Matches other taken := by
  cases piece with
  | literal byte => exact ⟨rfl, trivial⟩
  | directive digits spec =>
    by_cases taking : takes spec = true
    · obtain ⟨slots, strings⟩ := same taking
      unfold Piece.expansion Piece.Matches converted
      rw [slots]
      by_cases isString : spec = 0x73
      · subst isString
        by_cases null : passed.slots taken = 0
        · exact ⟨by simp only [null]; rfl, fun _ some => (some null).elim⟩
        · have string := cString_textAt (matching rfl null)
          have there := strings rfl null _ string
          refine ⟨?_, fun _ _ => ⟨_, there.nul⟩⟩
          dsimp only
          rw [there.textAt]
      · simp only [if_neg isString]
        exact ⟨trivial, fun isString' => (isString isString').elim⟩
    · have idle := Bool.not_eq_true _ ▸ taking
      refine ⟨?_, fun isString => ?_⟩
      · unfold Piece.expansion
        dsimp only
        rw [converted_of_not_takes idle, converted_of_not_takes idle]
      · rw [isString] at idle
        cases idle

theorem SameArguments.expand (same : SameArguments passed other taken pieces)
    (matching : Matching passed taken pieces) :
    expand other taken pieces = expand passed taken pieces ∧ Matching other taken pieces := by
  induction pieces generalizing taken with
  | nil => exact ⟨rfl, trivial⟩
  | cons piece pieces ih =>
    obtain ⟨here, matches'⟩ := same.1.expansion matching.1
    obtain ⟨rest, matching'⟩ := ih same.2 matching.2
    exact ⟨by rw [Libc.expand, Libc.expand, here, rest], matches', matching'⟩

/-- Calls that agree are scanned in the same way. -/
theorem Agrees.scanned (agrees : Agrees passed other format text)
    (matching : Matching passed 0 (parse text).1) :
    expand other 0 (scanned text) = expand passed 0 (scanned text) ∧
      Matching other 0 (parse text).1 ∧ (Uncut passed text → Uncut other text) := by
  obtain ⟨same, matching'⟩ := agrees.arguments.expand matching
  refine ⟨?_, matching', fun uncut => ?_⟩
  · unfold Libc.scanned
    rw [expand_append, expand_append, same]
    cases (parse text).2 with
    | none => rfl
    | some digits =>
      have idle : takes 0 = false := rfl
      simp only [Option.map_some, Option.toList_some, expand, Piece.expansion,
        converted_of_not_takes idle]
  · unfold Uncut
    rw [same]
    exact uncut

end Agreeing

section Results

open Classical in
/-- What a call comes to: the length of the expansion and a part of it, or a panic. -/
noncomputable def answered (passed : Passed) (pieces : List Piece)
    (output : List Byte → List Byte) : Except Stop (BitVec 32 × List Byte) :=
  if Counted passed pieces then
    .ok (BitVec.ofNat 32 (expand passed 0 pieces).length, output (expand passed 0 pieces))
  else .error .panic

/-- The first bytes of a buffer after the terminator is put behind them. -/
theorem take_set_zero {bytes behind : List Byte} {kept size : Nat} (inside : kept ≤ bytes.length)
    (room : kept < size) (long : kept < (bytes.take size ++ behind).length) :
    ((bytes.take size ++ behind).set kept 0).take (kept + 1) = bytes.take kept ++ [0] := by
  have front : kept ≤ (bytes.take size).length := by
    rw [List.length_take]
    omega
  have first : (bytes.take kept).length = kept := List.length_take_of_le inside
  rw [List.set_eq_take_append_cons_drop, if_pos long, List.take_append_of_le_length front,
    List.take_take, Nat.min_eq_left (Nat.le_of_lt room), List.take_append, first,
    Nat.add_sub_cancel_left, List.take_succ_cons, List.take_zero,
    List.take_of_length_le (first.le.trans (Nat.le_succ kept))]

/-- The bytes up to the terminator are the expansion, as far as there is room. -/
theorem take_terminated {bytes buf : List Byte} (room : buf.length ≠ 0) :
    ((bytes.take buf.length ++ buf.drop bytes.length).set
      (if bytes.length < buf.length then bytes.length else buf.length - 1) 0).take
        (min bytes.length (buf.length - 1) + 1) =
      bytes.take (min bytes.length (buf.length - 1)) ++ [0] := by
  have last : (if bytes.length < buf.length then bytes.length else buf.length - 1) =
      min bytes.length (buf.length - 1) := by
    split <;> omega
  rw [last]
  refine take_set_zero (Nat.min_le_left ..) (by omega) ?_
  rw [List.length_append, List.length_take, List.length_drop]
  omega

theorem take_printed {bytes buf : List Byte} :
    (bytes.take 1024 ++ buf.drop bytes.length).take
      (if bytes.length < 1024 then bytes.length else 1023) = bytes.take (min bytes.length 1023) := by
  have last : (if bytes.length < 1024 then bytes.length else 1023) = min bytes.length 1023 := by
    split <;> omega
  have front : min bytes.length 1023 ≤ (bytes.take 1024).length := by
    rw [List.length_take]
    omega
  rw [last, List.take_append_of_le_length front, List.take_take, Nat.min_eq_left (by omega)]

/-- What `snprintf` makes of a scan: the count, and the buffer with its terminator. -/
theorem snprintf_of_scan {bytes buf : List Byte} {index : Nat} (room : buf.length ≠ 0)
    (scan : Settles (fun fuel => scanLoop passed format fuel ⟨0, 0, ⟨buf, 0⟩⟩)
      (.ok ⟨index, taken, ⟨bytes.take buf.length ++ buf.drop bytes.length, bytes.length⟩⟩)) :
    Settles (snprintf passed format buf)
      (.ok (BitVec.ofNat 32 bytes.length, (bytes.take buf.length ++ buf.drop bytes.length).set
        (if bytes.length < buf.length then bytes.length else buf.length - 1) 0)) := by
  unfold Libc.snprintf
  simp only [if_neg room]
  exact scan.bind .const

variable (uncut : Uncut passed text) (string : CString passed.bytes format text)
  (matching : Matching passed 0 (parse text).1)

include uncut string matching

theorem Uncut.snprintf {buf : List Byte} (room : buf.length ≠ 0) :
    Settles (fun fuel => shown (min (expand passed 0 (parse text).1).length (buf.length - 1) + 1)
      (snprintf passed format buf fuel))
      (answered passed (scanned text) fun bytes =>
        bytes.take (min bytes.length (buf.length - 1)) ++ [0]) := by
  have settles := uncut.settles string matching buf
  unfold answered
  by_cases counted : Counted passed (scanned text)
  · have ran := @walked_of_counted passed (scanned text) buf counted
    have whole : scanned text = (parse text).1 := by
      unfold scanned
      rw [(uncut.ends string ran).1]
      exact List.append_nil _
    rw [ran] at settles
    have result := snprintf_of_scan room settles
    rw [if_pos counted]
    dsimp only
    rw [← take_terminated room, ← whole]
    exact result.map (shown _)
  · have result : Settles (Libc.snprintf passed format buf) (.error .panic) := by
      rw [walked_of_not_counted counted] at settles
      unfold Libc.snprintf
      simp only [if_neg room]
      exact settles.bind_error
    rw [if_neg counted]
    exact result.map (shown _)

theorem Uncut.printf : Settles (printf passed format)
    (answered passed (scanned text) fun bytes => bytes.take (min bytes.length 1023)) := by
  have settles := uncut.settles string matching (List.replicate 1024 0)
  unfold Libc.printf answered
  by_cases counted : Counted passed (scanned text)
  · rw [walked_of_counted counted, List.length_replicate] at settles
    rw [if_pos counted]
    dsimp only
    rw [← take_printed]
    exact settles.bind .const
  · rw [if_neg counted]
    rw [walked_of_not_counted counted] at settles
    exact settles.bind_error

/-- The scan is always at the first byte of a piece, or at the end. -/
theorem Uncut.between {buf : List Byte} {scan : Scan}
    (reached : Relation.ReflTransGen (ScanSteps passed format) ⟨0, 0, ⟨buf, 0⟩⟩ scan) :
    scan.index = text.length ∨ ∃ piece back, Readable passed format (piece :: back) scan ∧
      scan.index + piece.bytes.length ≤ text.length + 1 := by
  have readable := readable_scanned string matching ⟨buf, 0⟩
  obtain ⟨front, back, whole, ran⟩ := readable.stays (fun last ran => by
    rw [(uncut.ends string ran).2]
    exact string.nul) reached
  cases back with
  | nil =>
    rw [List.append_nil] at whole
    exact .inl (uncut.ends string (whole ▸ ran)).2
  | cons piece back =>
    rw [whole] at readable
    refine .inr ⟨piece, back, readable.behind ran, ?_⟩
    have length : ((scanned text).flatMap Piece.bytes).length ≤ text.length + 1 := by
      rw [flatMap_scanned string.noNul, List.length_append]
      split
      · exact Nat.le_refl _
      · exact Nat.le_succ _
    rw [whole, List.flatMap_append, List.flatMap_cons, List.length_append, List.length_append]
      at length
    rw [(walked_ok ran).1]
    dsimp only
    omega

theorem Uncut.inside {buf : List Byte} {scan : Scan}
    (reached : Relation.ReflTransGen (ScanSteps passed format) ⟨0, 0, ⟨buf, 0⟩⟩ scan) :
    scan.index ≤ text.length := by
  rcases uncut.between string matching reached with ended | ⟨piece, back, _, bounded⟩
  · exact ended.le
  · have nonempty : 0 < piece.bytes.length := by
      cases piece <;> exact Nat.zero_lt_succ _
    omega

/-- The conversion of a directive is not behind the last byte. -/
theorem Uncut.conversions {buf : List Byte} {scan : Scan} {width i : Nat}
    (reached : Relation.ReflTransGen (ScanSteps passed format) ⟨0, 0, ⟨buf, 0⟩⟩ scan)
    (directive : passed.bytes (format + scan.index) = percent)
    (read : Settles (fun fuel => scanWidth passed.bytes format fuel 0 (scan.index + 1))
      (.ok (width, i))) : i ≤ text.length := by
  rcases uncut.between string matching reached with ended | ⟨piece, back, readable, bounded⟩
  · rw [ended, string.nul] at directive
    cases directive
  · have proper := readable.proper piece List.mem_cons_self
    have spelled := readable.spelled
    rw [List.flatMap_cons, spells_append] at spelled
    cases piece with
    | literal byte => exact (proper.2 (spelled.1.1.symm.trans directive)).elim
    | directive digits spec =>
      have rest := spelled.1.2
      rw [Nat.add_assoc] at rest
      have settles := scanWidth_settles proper.1 proper.2 (show 0 < 2 ^ 64 by decide) rest
      have same := settles.unique read
      split at same
      · cases same
        rw [Piece.bytes, List.length_cons, List.length_append, List.length_singleton] at bounded
        omega
      · cases same

end Results

/-- A directive that is cut short is scanned if nothing panics before. -/
theorem counted_of_cut {digits : List Byte} (cut : (parse text).2 = some digits)
    (quiet : ¬ ((∃ piece ∈ (parse text).1, ¬ piece.Fits) ∨ 2 ^ 64 ≤ decimal 0 digits ∨
      2 ^ 64 ≤ (expand passed 0 (parse text).1).length + 2)) : Counted passed (scanned text) := by
  obtain ⟨whole, length⟩ := @cut_scanned passed text digits cut
  rw [not_or, not_or] at quiet
  obtain ⟨fits, narrow, short⟩ := quiet
  refine ⟨fun piece member => ?_, length ▸ Nat.not_le.mp short⟩
  rw [whole, List.mem_append, List.mem_singleton] at member
  rcases member with member | rfl
  · exact Decidable.byContradiction fun wide => fits ⟨piece, member, wide⟩
  · exact Nat.not_le.mp narrow

/-- The scan takes the last byte for the conversion, and passes it. -/
theorem not_formatOnly {digits : List Byte} (string : CString passed.bytes format text)
    (matching : Matching passed 0 (parse text).1) (cut : (parse text).2 = some digits)
    (quiet : ¬ ((∃ piece ∈ (parse text).1, ¬ piece.Fits) ∨ 2 ^ 64 ≤ decimal 0 digits ∨
      2 ^ 64 ≤ (expand passed 0 (parse text).1).length + 2)) : ¬ FormatOnly passed format text := by
  intro only
  have ran := @walked_of_counted passed (scanned text) (List.replicate 1024 0)
    (counted_of_cut cut quiet)
  have reached := only.inside _ _ ((readable_scanned string matching _).reaches ran)
  rw [flatMap_scanned string.noNul, cut, Option.isSome_some, if_pos rfl, List.length_append]
    at reached
  exact Nat.not_succ_le_self _ reached

theorem snprintf_nil (passed : Passed) (format : Nat) {buf : List Byte} (empty : buf.length = 0) :
    Settles (snprintf passed format buf) (.ok (0, [])) := by
  refine ⟨0, fun fuel _ => ?_⟩
  rw [List.eq_nil_of_length_eq_zero empty]
  rfl

theorem answered_congr {output : List Byte → List Byte}
    (same : expand other 0 pieces = expand passed 0 pieces) :
    answered other pieces output = answered passed pieces output := by
  unfold answered Counted
  rw [same]

theorem answered_ne_fuel {output : List Byte → List Byte} :
    answered passed pieces output ≠ .error .fuel := by
  unfold answered
  split <;> exact nofun

end Scanned

/-- The calls depend on nothing but the format and the arguments unless the end of the format cuts a
directive short, and the scan gets there. -/
theorem format_only_iff (passed : Passed) (format : Nat) (text : List Byte)
    (string : CString passed.bytes format text) (matching : Matching passed 0 (parse text).1) :
    FormatOnly passed format text ↔ Uncut passed text := by
  refine ⟨fun only digits cut => ?_, fun uncut => ⟨?_, ?_, ?_, ?_⟩⟩
  · by_contra quiet
    exact not_formatOnly string matching cut quiet only
  · exact fun buf scan reached => uncut.inside string matching reached
  · exact fun buf scan width i reached directive read =>
      uncut.conversions string matching reached directive read
  · intro other buf buf' agrees sameSize
    obtain ⟨same, matching', cut⟩ := agrees.scanned matching
    by_cases empty : buf.length = 0
    · refine ⟨.ok (0, []), nofun, ?_, ?_⟩
      · exact (snprintf_nil passed format empty).map (shown _)
      · exact (snprintf_nil other format (sameSize.trans empty)).map (shown _)
    · refine ⟨_, answered_ne_fuel, uncut.snprintf string matching empty, ?_⟩
      rw [← (agrees.arguments.expand matching).1, ← answered_congr same, ← sameSize]
      exact (cut uncut).snprintf agrees.string matching' (sameSize ▸ empty)
  · intro other agrees
    obtain ⟨same, matching', cut⟩ := agrees.scanned matching
    refine ⟨_, answered_ne_fuel, uncut.printf string matching, ?_⟩
    rw [← answered_congr same]
    exact (cut uncut).printf agrees.string matching'

/-- A memory that begins with some bytes, and is zero behind them. -/
def beginning (bytes : List Byte) : Memory := fun address => bytes.getD address 0

theorem format_only_decimal :
    let passed : Passed := ⟨beginning [percent, 0x64, 0, percent], fun _ => 7⟩
    CString passed.bytes 0 [percent, 0x64] ∧ Matching passed 0 (parse [percent, 0x64]).1 ∧
      FormatOnly passed 0 [percent, 0x64] := by
  intro passed
  have string : CString passed.bytes 0 [percent, 0x64] := ⟨⟨rfl, rfl, rfl, trivial⟩, by decide⟩
  have pieces : parse [percent, 0x64] = ([.directive [] 0x64], none) := by decide +kernel
  have matching : Matching passed 0 (parse [percent, 0x64]).1 := pieces ▸ ⟨nofun, trivial⟩
  refine ⟨string, matching, (format_only_iff passed 0 _ string matching).mpr fun digits cut => ?_⟩
  rw [pieces] at cut
  cases cut

/-- After the format "%" the scan goes on with what is behind its last byte. -/
theorem format_reads_behind :
    let passed : Passed := ⟨beginning [percent, 0, 0x41], fun _ => 0⟩
    let other : Passed := ⟨beginning [percent], fun _ => 0⟩
    Agrees passed other 0 [percent] ∧ CString passed.bytes 0 [percent] ∧
      Matching passed 0 (parse [percent]).1 ∧ ¬ FormatOnly passed 0 [percent] ∧
      printf passed 0 4 = .ok (3, [percent, 0, 0x41]) ∧ printf other 0 4 = .ok (2, [percent, 0]) := by
  intro passed other
  have string : CString passed.bytes 0 [percent] := ⟨⟨rfl, rfl, trivial⟩, by decide⟩
  have pieces : parse [percent] = ([], some []) := by decide +kernel
  have matching : Matching passed 0 (parse [percent]).1 := pieces ▸ trivial
  refine ⟨⟨⟨⟨rfl, rfl, trivial⟩, by decide⟩, pieces ▸ trivial⟩, string, matching, ?_, ?_, ?_⟩
  · refine not_formatOnly string matching (congrArg Prod.snd pieces) ?_
    rw [pieces]
    rintro (⟨_, member, _⟩ | wide | long)
    · cases member
    · exact absurd wide (by decide)
    · exact absurd (show 2 ^ 64 ≤ 0 + 2 from long) (by decide)
  · decide +kernel
  · decide +kernel

end RustPosix.Libc
