import RustPosix.Library.Memory

/-! `snprintf` and `printf` of `libs/libc/src/stdio.rs`. The destination is a list of bytes apart from
the memory that the format and the arguments are read from, and the variadic arguments are words in
slots. -/

namespace RustPosix.Libc

open Library

/-- Why a function has not returned: its loops have had all their rounds, or it has panicked. -/
inductive Stop where
  | fuel
  | panic
  deriving DecidableEq, Repr

def percent : Byte := 0x25
def minus : Byte := 0x2D
def blank : Byte := 0x20

def isDigit (byte : Byte) : Bool := 0x30 ≤ byte.toNat && byte.toNat ≤ 0x39

structure FormatBuffer where
  buf : List Byte
  written : Nat
  deriving DecidableEq, Repr

namespace FormatBuffer

/-- The buffer after a byte, which is counted even if there is no room for it. -/
def put (out : FormatBuffer) (byte : Byte) : FormatBuffer :=
  ⟨if out.written < out.buf.length then out.buf.set out.written byte else out.buf, out.written + 1⟩

def push (out : FormatBuffer) (byte : Byte) : Except Stop FormatBuffer :=
  if out.written + 1 < 2 ^ 64 then .ok (out.put byte) else .error .panic

/-- The loops that do nothing but push bytes, as `write_str` is one. -/
def pushAll : List Byte → FormatBuffer → Except Stop FormatBuffer
  | [], out => .ok out
  | byte :: rest, out => out.push byte >>= pushAll rest

/-- A digit; the letters come behind the ten figures. -/
def digitByte (digit : Nat) : Byte :=
  if digit < 10 then BitVec.ofNat 8 (0x30 + digit) else BitVec.ofNat 8 (0x61 + (digit - 10))

/-- The loop that stores the digits, the last one first, with the slots left in their array. -/
def digitLoop (base : Nat) : Nat → Nat → Except Stop (List Byte)
  | 0, _ => .error .panic
  | slots + 1, unum =>
    if unum / base = 0 then .ok [digitByte (unum % base)]
    else (digitLoop base slots (unum / base)).map (digitByte (unum % base) :: ·)

def writeNumPadded (num : BitVec 64) (base : Nat) (isSigned : Bool) (width : Nat)
    (out : FormatBuffer) : Except Stop FormatBuffer := do
  let isNeg := isSigned && num.msb
  let num ← if isNeg then (if num = BitVec.intMin 64 then .error .panic else pure (-num)) else pure num
  let digits ← digitLoop base 32 num.toNat
  let totalLen := digits.length + if isNeg then 1 else 0
  let out ← if width > totalLen then pushAll (List.replicate (width - totalLen) blank) out
    else pure out
  let out ← if isNeg then out.push minus else pure out
  pushAll digits.reverse out

end FormatBuffer

/-- What a call reads: the memory, and the slots of its variadic arguments. -/
structure Passed where
  bytes : Memory
  slots : Nat → BitVec 64

def strlen (bytes : Memory) (s : Nat) : Nat → Nat → Except Stop Nat
  | 0, _ => .error .fuel
  | fuel + 1, len => if bytes (s + len) ≠ 0 then strlen bytes s fuel (len + 1) else .ok len

/-- The bytes of a C string of `len` bytes. -/
def bytesAt (bytes : Memory) (s len : Nat) : List Byte := (List.range len).map fun j => bytes (s + j)

/-- The state of the scan: the index into the format, the arguments taken, and the output. -/
structure Scan where
  index : Nat
  taken : Nat
  out : FormatBuffer
  deriving DecidableEq, Repr

/-- The loop over the digits of a width; the product and the sum are checked. -/
def scanWidth (bytes : Memory) (format : Nat) : Nat → Nat → Nat → Except Stop (Nat × Nat)
  | 0, _, _ => .error .fuel
  | fuel + 1, width, i =>
    if isDigit (bytes (format + i)) then
      let next := width * 10 + ((bytes (format + i)).toNat - 0x30)
      if next < 2 ^ 64 then scanWidth bytes format fuel next (i + 1) else .error .panic
    else .ok (width, i)

/-- `val as i64` of an `i32` -/
def signed32 (slot : BitVec 64) : BitVec 64 := (slot.truncate 32).signExtend 64

/-- `val as i64` of a `u32` -/
def unsigned32 (slot : BitVec 64) : BitVec 64 := (slot.truncate 32).zeroExtend 64

def zeroX : List Byte := [0x30, 0x78]
def nullText : List Byte := [0x28, 0x6E, 0x75, 0x6C, 0x6C, 0x29]

/-- The `match` on the conversion, with the arguments that have been taken after it. -/
def conversion (passed : Passed) (fuel : Nat) (spec : Byte) (width taken : Nat)
    (out : FormatBuffer) : Except Stop (Nat × FormatBuffer) :=
  let slot := passed.slots taken
  if spec = 0x64 ∨ spec = 0x69 then
    (out.writeNumPadded (signed32 slot) 10 true width).map (taken + 1, ·)
  else if spec = 0x75 then
    (out.writeNumPadded (unsigned32 slot) 10 false width).map (taken + 1, ·)
  else if spec = 0x78 then
    (out.writeNumPadded (unsigned32 slot) 16 false width).map (taken + 1, ·)
  else if spec = 0x70 then do
    let out ← out.pushAll zeroX
    (out.writeNumPadded slot 16 false width).map (taken + 1, ·)
  else if spec = 0x73 then
    if slot = 0 then (out.pushAll nullText).map (taken + 1, ·)
    else do
      let len ← strlen passed.bytes slot.toNat fuel 0
      (out.pushAll (bytesAt passed.bytes slot.toNat len)).map (taken + 1, ·)
  else if spec = 0x63 then (out.push (slot.truncate 8)).map (taken + 1, ·)
  else if spec = percent then (out.push percent).map (taken, ·)
  else do
    let out ← out.push percent
    (out.push spec).map (taken, ·)

/-- One round of the scan, at a byte that is not the last one. -/
def scanStep (passed : Passed) (format fuel : Nat) (scan : Scan) : Except Stop Scan :=
  let byte := passed.bytes (format + scan.index)
  if byte = percent then do
    let (width, i) ← scanWidth passed.bytes format fuel 0 (scan.index + 1)
    let (taken, out) ← conversion passed fuel (passed.bytes (format + i)) width scan.taken scan.out
    pure ⟨i + 1, taken, out⟩
  else (scan.out.push byte).map (⟨scan.index + 1, scan.taken, ·⟩)

def scanLoop (passed : Passed) (format : Nat) : Nat → Scan → Except Stop Scan
  | 0, _ => .error .fuel
  | fuel + 1, scan =>
    if passed.bytes (format + scan.index) = 0 then .ok scan
    else scanStep passed format fuel scan >>= scanLoop passed format fuel

/-- `snprintf` into a buffer that holds `buf`: what it returns, and the buffer. -/
def snprintf (passed : Passed) (format : Nat) (buf : List Byte) (fuel : Nat) :
    Except Stop (BitVec 32 × List Byte) :=
  if buf.length = 0 then .ok (0, buf)
  else do
    let scan ← scanLoop passed format fuel ⟨0, 0, ⟨buf, 0⟩⟩
    let written := scan.out.written
    let last := if written < buf.length then written else buf.length - 1
    pure (BitVec.ofNat 32 written, scan.out.buf.set last 0)

/-- `printf`: what it returns, and the bytes that it hands to `write`. -/
def printf (passed : Passed) (format fuel : Nat) : Except Stop (BitVec 32 × List Byte) := do
  let scan ← scanLoop passed format fuel ⟨0, 0, ⟨List.replicate 1024 0, 0⟩⟩
  let written := scan.out.written
  let actualLen := if written < 1024 then written else 1023
  pure (BitVec.ofNat 32 written, scan.out.buf.take actualLen)

end RustPosix.Libc
