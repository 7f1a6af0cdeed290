import RustPosix.Mm.User

/-! Checking the first byte of each page covers every byte: the checks on user memory
accept exactly the ranges and strings that lie in accepted pages. -/

namespace RustPosix.Mm

open Library

/-- The first address of the page of an address. -/
def pageOf (addr : Nat) : Nat := addr / pageSize * pageSize

section Pages

variable {addr page other : Nat}

theorem pageOf_le : pageOf addr ≤ addr := Nat.div_mul_le_self addr pageSize

theorem pageOf_of_within (aligned : page % pageSize = 0) (low : page ≤ other)
    (high : other < page + pageSize) : pageOf other = page := by
  unfold pageOf
  unfold pageSize at *
  omega

theorem pageOf_aligned : pageOf addr % pageSize = 0 := by
  unfold pageOf
  exact Nat.mul_mod_left _ _

theorem lt_pageOf_add : addr < pageOf addr + pageSize := by
  unfold pageOf pageSize
  omega

theorem sub_pageMask : addr - (addr &&& pageMask) = pageOf addr := by
  have mask : addr &&& pageMask = addr % pageSize := Nat.and_two_pow_sub_one_eq_mod addr 12
  rw [mask]
  unfold pageOf pageSize
  omega

theorem and_pageMask_eq_zero : addr &&& pageMask = 0 ↔ addr % pageSize = 0 := by
  have mask : addr &&& pageMask = addr % pageSize := Nat.and_two_pow_sub_one_eq_mod addr 12
  rw [mask]

/-- The page walk does not look at the offset in the page. -/
private theorem validateFrom_pageOf (mem : Memory) (needWrite : Bool) (level table : Nat) :
    validateFrom mem (pageOf addr) needWrite table level =
      validateFrom mem addr needWrite table level := by
  have index : ∀ level, pageOf addr >>> (12 + level * 9) = addr >>> (12 + level * 9) := by
    intro level
    have split : 2 ^ (12 + level * 9) = pageSize * 2 ^ (level * 9) := by rw [Nat.pow_add]; rfl
    rw [Nat.shiftRight_eq_div_pow, Nat.shiftRight_eq_div_pow, split, ← Nat.div_div_eq_div_mul,
      ← Nat.div_div_eq_div_mul, pageOf, Nat.mul_div_cancel _ pageSize_pos]
  induction level generalizing table with
  | zero => rfl
  | succ level ih =>
    unfold validateFrom
    simp only [index, ih]

theorem validateUserPage_pageOf (mem : Memory) (root : Nat) (needWrite : Bool) :
    validateUserPage mem root (pageOf addr) needWrite = validateUserPage mem root addr needWrite :=
  validateFrom_pageOf mem needWrite 4 root

end Pages

section Loops

variable {validate : Nat → Except UserAccessError Unit}

/-- From a page on, the loop accepts what lies in accepted pages up to the end. -/
private theorem validatePages_iff {stop page : Nat} (user : stop ≤ userSpaceEnd)
    (aligned : page % pageSize = 0) :
    validatePages validate stop page = .ok () ↔
      ∀ byte, page ≤ byte → byte < stop → validate (pageOf byte) = .ok () := by
  fun_induction validatePages validate stop page with
  | case1 page below error failed =>
    refine ⟨nofun, fun all => ?_⟩
    have here := all page (Nat.le_refl page) below
    rw [pageOf_of_within aligned (Nat.le_refl page) (Nat.lt_add_of_pos_right pageSize_pos),
      failed] at here
    cases here
  | case2 page below passed fits ih =>
    rw [ih (by rw [Nat.add_mod_right, aligned])]
    constructor
    · intro later byte low high
      by_cases within : byte < page + pageSize
      · rw [pageOf_of_within aligned low within, passed]
      · exact later byte (Nat.not_lt.mp within) high
    · intro all byte low high
      exact all byte (Nat.le_trans (Nat.le_add_right page pageSize) low) high
  | case3 page below passed overflows =>
    exfalso
    apply overflows
    unfold checkedAdd
    unfold userSpaceEnd at user
    rw [if_pos (by unfold pageSize; omega)]
    rfl
  | case4 page above =>
    exact ⟨fun _ byte low high => absurd (Nat.lt_of_le_of_lt low high) above, fun _ => rfl⟩

variable {byteAt : Nat → Byte} {addr : Nat}

/-- An address below the end of user space, in an accepted page. -/
def Lies (validate : Nat → Except UserAccessError Unit) (byte : Nat) : Prop :=
  byte < userSpaceEnd ∧ validate (pageOf byte) = .ok ()

/-- The string at `addr` ends with its byte `n`, and a buffer of the given length and user
memory hold it. -/
structure StringEnds (validate : Nat → Except UserAccessError Unit) (byteAt : Nat → Byte)
    (addr length n : Nat) : Prop where
  fits : n < length
  lies : ∀ j ≤ n, Lies validate (addr + j)
  ends : byteAt (addr + n) = 0
  first : ∀ j < n, byteAt (addr + j) ≠ 0

/-- What the loop has found before the byte `i`. -/
structure Scanned (validate : Nat → Except UserAccessError Unit) (byteAt : Nat → Byte)
    (addr i : Nat) (buf : List Byte) (reads : List Nat) : Prop where
  lies : ∀ j < i, Lies validate (addr + j)
  nonzero : ∀ j < i, byteAt (addr + j) ≠ 0
  copied : ∀ j < i, buf[j]? = some (byteAt (addr + j))
  reads : ∀ byte ∈ reads, Lies validate byte

/-- What the loop has found when it is done. -/
structure Settled (validate : Nat → Except UserAccessError Unit) (byteAt : Nat → Byte)
    (addr length : Nat) (copied : Copied) : Prop where
  result : ∀ n, copied.result = .ok n ↔ StringEnds validate byteAt addr length n
  buf : ∀ n, copied.result = .ok n → ∀ j ≤ n, copied.buf[j]? = some (byteAt (addr + j))
  reads : ∀ byte ∈ copied.reads, Lies validate byte

namespace Scanned

variable {i : Nat} {buf : List Byte} {reads : List Nat}
  (scanned : Scanned validate byteAt addr i buf reads)

include scanned

/-- No string is found if the next byte cannot be read or stored. -/
theorem refused {error : AccessError} (lost : i < buf.length → ¬ Lies validate (addr + i)) :
    Settled validate byteAt addr buf.length ⟨.error error, buf, reads⟩ := by
  refine ⟨fun n => ⟨nofun, fun string => ?_⟩, nofun, scanned.reads⟩
  by_cases before : n < i
  · exact (scanned.nonzero n before string.ends).elim
  · exact (lost (Nat.lt_of_le_of_lt (Nat.not_lt.mp before) string.fits)
      (string.lies i (Nat.not_lt.mp before))).elim

/-- The check at the start and at each page covers every byte. -/
theorem lies_next (uniform : ∀ addr, validate (pageOf addr) = validate addr)
    (user : addr + i < userSpaceEnd)
    (checked : (if i = 0 ∨ (addr + i) &&& pageMask = 0 then validate (addr + i) else .ok ()) =
      .ok ()) : Lies validate (addr + i) := by
  refine ⟨user, ?_⟩
  split at checked
  · rw [uniform, checked]
  · rename_i inside
    rw [not_or, and_pageMask_eq_zero] at inside
    -- the byte before is in the same page
    have before := (scanned.lies (i - 1) (by omega)).2
    have same : pageOf (addr + (i - 1)) = pageOf (addr + i) := by
      unfold pageOf
      unfold pageSize at *
      omega
    rwa [same] at before

theorem next (lies : Lies validate (addr + i)) (nonzero : byteAt (addr + i) ≠ 0)
    (room : i < buf.length) :
    Scanned validate byteAt addr (i + 1) (buf.set i (byteAt (addr + i))) ((addr + i) :: reads) := by
  refine ⟨?_, ?_, ?_, ?_⟩
  · intro j before
    rcases Nat.lt_succ_iff_lt_or_eq.mp before with before | rfl
    · exact scanned.lies j before
    · exact lies
  · intro j before
    rcases Nat.lt_succ_iff_lt_or_eq.mp before with before | rfl
    · exact scanned.nonzero j before
    · exact nonzero
  · intro j before
    rcases Nat.lt_succ_iff_lt_or_eq.mp before with before | rfl
    · rw [List.getElem?_set_ne (Nat.ne_of_gt before), scanned.copied j before]
    · rw [List.getElem?_set_self room]
  · intro byte member
    rcases List.mem_cons.mp member with rfl | old
    · exact lies
    · exact scanned.reads byte old

/-- The string ends here. -/
theorem found (lies : Lies validate (addr + i)) (zero : byteAt (addr + i) = 0)
    (room : i < buf.length) : Settled validate byteAt addr buf.length
      ⟨.ok i, buf.set i (byteAt (addr + i)), (addr + i) :: reads⟩ := by
  have here : StringEnds validate byteAt addr buf.length i := by
    refine ⟨room, ?_, zero, scanned.nonzero⟩
    intro j upTo
    rcases Nat.lt_or_eq_of_le upTo with before | rfl
    · exact scanned.lies j before
    · exact lies
  refine ⟨fun n => ⟨?_, fun string => ?_⟩, ?_, ?_⟩
  · intro same
    cases same
    exact here
  · rcases Nat.lt_trichotomy n i with before | rfl | after
    · exact (scanned.nonzero n before string.ends).elim
    · rfl
    · exact (string.first i after zero).elim
  · intro n same j upTo
    cases same
    rcases Nat.lt_or_eq_of_le upTo with before | rfl
    · rw [List.getElem?_set_ne (Nat.ne_of_gt before), scanned.copied j before]
    · rw [List.getElem?_set_self room]
  · intro byte member
    rcases List.mem_cons.mp member with rfl | old
    · exact lies
    · exact scanned.reads byte old

end Scanned

/-- The loop, from any byte on. -/
private theorem copyCstrFrom_settled (uniform : ∀ addr, validate (pageOf addr) = validate addr)
    {i : Nat} {buf : List Byte} {reads : List Nat}
    (scanned : Scanned validate byteAt addr i buf reads) :
    Settled validate byteAt addr buf.length
      (copyCstrFrom validate byteAt addr i buf reads) := by
  fun_induction copyCstrFrom validate byteAt addr i buf reads with
  | case1 i buf reads room overflows =>
    apply scanned.refused
    intro _ lies
    have small := lies.1
    have large := checkedAdd_eq_none.mp overflows
    unfold userSpaceEnd at small
    omega
  | case2 i buf reads room cur sum above =>
    obtain ⟨-, rfl⟩ := checkedAdd_eq_some.mp sum
    exact scanned.refused fun _ lies => Nat.not_lt.mpr above lies.1
  | case3 i buf reads room cur sum below error failed =>
    obtain ⟨-, rfl⟩ := checkedAdd_eq_some.mp sum
    apply scanned.refused
    intro _ lies
    have accepted := lies.2
    rw [uniform] at accepted
    split at failed
    · rw [accepted] at failed
      cases failed
    · cases failed
  | case4 i buf reads room cur sum below passed byte zero =>
    obtain ⟨-, rfl⟩ := checkedAdd_eq_some.mp sum
    exact scanned.found (scanned.lies_next uniform (Nat.not_le.mp below) passed) zero room
  | case5 i buf reads room cur sum below passed byte nonzero ih =>
    obtain ⟨-, rfl⟩ := checkedAdd_eq_some.mp sum
    have lies := scanned.lies_next uniform (Nat.not_le.mp below) passed
    have rest := ih (scanned.next lies nonzero room)
    rwa [List.length_set] at rest
  | case6 i buf reads full =>
    exact scanned.refused fun room => absurd room full

end Loops

namespace UserView

variable (view : UserView)

/-- The pages of the active page tables that `validate_user_page` accepts. -/
def Accepts (needWrite : Bool) (page : Nat) : Prop := view.validate needWrite page = .ok ()

private theorem validateUserRange_iff (addr len : Nat) (needWrite : Bool) :
    view.validateUserRange addr len needWrite = .ok () ↔
      len = 0 ∨ (addr + len < 2 ^ 64 ∧ addr + len ≤ userSpaceEnd ∧
        ∀ byte, addr ≤ byte → byte < addr + len → view.Accepts needWrite (pageOf byte)) := by
  unfold validateUserRange
  by_cases empty : len = 0
  · simp [empty]
  rw [if_neg empty]
  cases sum : checkedAdd addr len with
  | none =>
    have large := checkedAdd_eq_none.mp sum
    refine ⟨nofun, fun holds => ?_⟩
    omega
  | some stop =>
    obtain ⟨fits, rfl⟩ := checkedAdd_eq_some.mp sum
    by_cases above : addr + len > userSpaceEnd
    · simp only [if_pos above, empty, false_or]
      exact ⟨nofun, fun holds => absurd holds.2.1 (Nat.not_le.mpr above)⟩
    · have below := Nat.not_lt.mp above
      simp only [if_neg above, empty, fits, below, false_or, true_and]
      rw [sub_pageMask, validatePages_iff below pageOf_aligned]
      refine ⟨fun all byte low high => all byte (Nat.le_trans pageOf_le low) high, ?_⟩
      intro all byte low high
      by_cases before : addr ≤ byte
      · exact all byte before high
      · -- such a byte is in the page of the first one
        have same : pageOf byte = pageOf addr := pageOf_of_within pageOf_aligned low
          (Nat.lt_trans (Nat.not_le.mp before) lt_pageOf_add)
        rw [same]
        exact all addr (Nat.le_refl addr) (by omega)

private theorem copyCstrFromUser_settled {addr : Nat} (nonnull : addr ≠ 0) (buf : List Byte) :
    Settled (view.validate false) view.byteAt addr buf.length (view.copyCstrFromUser addr buf) := by
  have start : Scanned (view.validate false) view.byteAt addr 0 buf [] :=
    ⟨nofun, nofun, nofun, nofun⟩
  unfold copyCstrFromUser
  rw [if_neg nonnull]
  split
  · rename_i above
    exact start.refused fun _ lies => Nat.not_lt.mpr above lies.1
  · exact copyCstrFrom_settled (fun addr => validateUserPage_pageOf _ _ _) start

/-- The checks on user memory are exact: a range is accepted if and only if all its bytes
lie in accepted pages, and a string is copied if and only if all its bytes do and it fits.
Only bytes of accepted pages are read. -/
theorem user_validation_exact :
    (∀ addr len needWrite, view.validateUserRange addr len needWrite = .ok () ↔
      len = 0 ∨ (addr + len < 2 ^ 64 ∧ addr + len ≤ userSpaceEnd ∧
        ∀ byte, addr ≤ byte → byte < addr + len → view.Accepts needWrite (pageOf byte))) ∧
    ∀ addr buf,
      (∀ n, (view.copyCstrFromUser addr buf).result = .ok n ↔
        addr ≠ 0 ∧ n < buf.length ∧
        (∀ j ≤ n, addr + j < userSpaceEnd ∧ view.Accepts false (pageOf (addr + j))) ∧
        view.byteAt (addr + n) = 0 ∧ ∀ j < n, view.byteAt (addr + j) ≠ 0) ∧
      (∀ n, (view.copyCstrFromUser addr buf).result = .ok n →
        ∀ j ≤ n, (view.copyCstrFromUser addr buf).buf[j]? = some (view.byteAt (addr + j))) ∧
      ∀ byte ∈ (view.copyCstrFromUser addr buf).reads,
        byte < userSpaceEnd ∧ view.Accepts false (pageOf byte) := by
  refine ⟨view.validateUserRange_iff, ?_⟩
  intro addr buf
  by_cases null : addr = 0
  · have refused : view.copyCstrFromUser addr buf = ⟨.error .nullPointer, buf, []⟩ := if_pos null
    rw [refused]
    exact ⟨fun n => ⟨nofun, fun holds => absurd null holds.1⟩, nofun, nofun⟩
  · have settled := view.copyCstrFromUser_settled null buf
    refine ⟨fun n => ?_, settled.buf, settled.reads⟩
    rw [settled.result n]
    constructor
    · intro string
      exact ⟨null, string.fits, string.lies, string.ends, string.first⟩
    · rintro ⟨-, fits, lies, ends, first⟩
      exact ⟨fits, lies, ends, first⟩

end UserView

end RustPosix.Mm
