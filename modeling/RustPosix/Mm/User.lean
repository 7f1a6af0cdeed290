import RustPosix.Mm.PageTree
import RustPosix.Mm.VmSpace

/-! Access to user memory, `ostd/mm/user.rs`: the checks before a copy, and the copy of a
string that ends with a zero byte. -/

namespace RustPosix.Mm

open Library

/-- `UserAccessError`; the last two of its page walk are those of the walk itself. -/
inductive AccessError where
  | nullPointer
  | outOfUserRange
  | overflow
  | tooLong
  | page (error : UserAccessError)
  deriving DecidableEq, Repr

/-- `PAGE_MASK` -/
def pageMask : Nat := 0xFFF

theorem pageSize_pos : 0 < pageSize := by decide

section Loops

variable (validate : Nat → Except UserAccessError Unit)

/-- The loop of `validate_user_range`; a page has `PAGE_MASK + 1` bytes. -/
def validatePages (stop page : Nat) : Except AccessError Unit :=
  if page < stop then
    match validate page with
    | .error error => .error (.page error)
    | .ok () =>
      if (checkedAdd page pageSize).isSome then validatePages stop (page + pageSize)
      else .error .overflow
  else .ok ()
termination_by stop - page
decreasing_by
  have forward := pageSize_pos
  omega

/-- What `copy_cstr_from_user` leaves: its result, the buffer, and the user addresses that
it read, the last one first. -/
structure Copied where
  result : Except AccessError Nat
  buf : List Byte
  reads : List Nat

/-- The loop of `copy_cstr_from_user` from the byte `i` on -/
def copyCstrFrom (byteAt : Nat → Byte) (addr i : Nat) (buf : List Byte) (reads : List Nat) :
    Copied :=
  if i < buf.length then
    match checkedAdd addr i with
    | none => ⟨.error .overflow, buf, reads⟩
    | some cur =>
      if cur ≥ userSpaceEnd then ⟨.error .outOfUserRange, buf, reads⟩
      else
        match if i = 0 ∨ cur &&& pageMask = 0 then validate cur else .ok () with
        | .error error => ⟨.error (.page error), buf, reads⟩
        | .ok () =>
          let byte := byteAt cur
          if byte = 0 then ⟨.ok i, buf.set i byte, cur :: reads⟩
          else copyCstrFrom byteAt addr (i + 1) (buf.set i byte) (cur :: reads)
  else ⟨.error .tooLong, buf, reads⟩
termination_by buf.length - i
decreasing_by
  rw [List.length_set]
  omega

end Loops

/-- The active page tables, and what the processor reads at user addresses. -/
structure UserView where
  mem : Memory
  root : Nat
  byteAt : Nat → Byte

namespace UserView

/-- `validate_user_page` on the active page tables -/
def validate (view : UserView) (needWrite : Bool) (vaddr : Nat) : Except UserAccessError Unit :=
  validateUserPage view.mem view.root vaddr needWrite

def validateUserRange (view : UserView) (addr len : Nat) (needWrite : Bool) :
    Except AccessError Unit :=
  if len = 0 then .ok ()
  else
    match checkedAdd addr len with
    | none => .error .overflow
    | some stop =>
      if stop > userSpaceEnd then .error .outOfUserRange
      else validatePages (view.validate needWrite) stop (addr - (addr &&& pageMask))

def copyCstrFromUser (view : UserView) (addr : Nat) (buf : List Byte) : Copied :=
  if addr = 0 then ⟨.error .nullPointer, buf, []⟩
  else if addr ≥ userSpaceEnd then ⟨.error .outOfUserRange, buf, []⟩
  else copyCstrFrom (view.validate false) view.byteAt addr 0 buf []

end UserView

end RustPosix.Mm
