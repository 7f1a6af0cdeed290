import RustPosix.Library.Buffer
import RustPosix.Library.Memory

/-! The line of `userland/shell/src/editor.rs` and what the keys do to it. None is a panic:
an index or a range outside of its array, or a difference below zero. -/

namespace RustPosix.Shell

open Library

/-- A text in an array of fixed size. -/
structure FixedText (capacity : Nat) where
  buf : List Byte
  len : Nat
  sized : buf.length = capacity
  filled : len ≤ capacity

namespace FixedText

variable {capacity : Nat}

def empty : FixedText capacity where
  buf := List.replicate capacity 0
  len := 0
  sized := List.length_replicate
  filled := Nat.zero_le _

/-- Store a text from the start of the array on. What does not fit is dropped. -/
def store (stored : FixedText capacity) (src : List Byte) : FixedText capacity where
  buf := splice stored.buf 0 (src.take (min src.length capacity))
  len := min src.length capacity
  sized := by
    rw [length_splice, stored.sized]
    rw [stored.sized, List.length_take]
    omega
  filled := Nat.min_le_right ..

def text (stored : FixedText capacity) : List Byte := stored.buf.take stored.len

theorem text_store (stored : FixedText capacity) (src : List Byte) :
    (stored.store src).text = src.take capacity := by
  have taken : (src.take (min src.length capacity)).length = min src.length capacity := by
    rw [List.length_take]
    omega
  change (splice stored.buf 0 (src.take (min src.length capacity))).take (min src.length capacity) = _
  rw [splice, List.take_zero, List.nil_append, List.take_left' taken]
  exact List.take_eq_take_iff.mpr (by omega)

theorem length_text (stored : FixedText capacity) : stored.text.length = stored.len := by
  rw [text, List.length_take, stored.sized]
  exact Nat.min_eq_left stored.filled

end FixedText

def killRingSize : Nat := 1024

/-- The last text that has been cut. -/
abbrev KillRing := FixedText killRingSize

def KillRing.save (ring : KillRing) (src : List Byte) : KillRing := ring.store src

def KillRing.asBytes (ring : KillRing) : List Byte := ring.text

/-- The buffer that is edited, how much of it is in use, and the place of the cursor. -/
structure Line where
  buf : List Byte
  len : Nat
  cursorPos : Nat
  deriving DecidableEq, Repr

def space : Byte := 0x20
def tab : Byte := 0x09
def carriageReturn : Byte := 0x0D
def lineFeed : Byte := 0x0A

def isWordBreak (byte : Byte) : Bool := byte = space || byte = tab

def checkedSub (a b : Nat) : Option Nat := if b ≤ a then some (a - b) else none

def wordLeft (buf : List Byte) (cursorPos : Nat) : Option Nat := do
  let cursorPos ← Buffer.backWhile isWordBreak buf cursorPos
  Buffer.backWhile (fun byte => !isWordBreak byte) buf cursorPos

def wordRight (buf : List Byte) (len cursorPos : Nat) : Option Nat := do
  let cursorPos ← Buffer.forwardWhile (fun byte => !isWordBreak byte) buf len cursorPos
  Buffer.forwardWhile isWordBreak buf len cursorPos

/-- The byte that is stored for one of the data: a line stays one line. -/
def cleaned (byte : Byte) : Byte :=
  if byte = carriageReturn ∨ byte = lineFeed then space else byte

/-- The number of bytes inserted, and the line. -/
def spliceInsert (data : List Byte) (line : Line) : Option (Nat × Line) :=
  if line.buf = [] ∨ line.len ≥ line.buf.length - 1 then some (0, line)
  else
    let capacityLeft := line.buf.length - 1 - line.len
    let insertCount := min capacityLeft data.length
    if insertCount = 0 then some (0, line)
    else do
      let buf ← Buffer.moveEach id (· + insertCount)
        (List.range' line.cursorPos (line.len - line.cursorPos)).reverse line.buf
      let buf ← Buffer.putAll line.cursorPos ((data.take insertCount).map cleaned) buf
      let buf ← Buffer.put buf (line.len + insertCount) 0
      pure (insertCount, ⟨buf, line.len + insertCount, line.cursorPos + insertCount⟩)

def b64Chars : List Byte :=
  "ABCDEFGHIJKLMNOPQRSTUVWXYZabcdefghijklmnopqrstuvwxyz0123456789+/".toList.map
    fun char => BitVec.ofNat 8 char.toNat

def equalsSign : Byte := 0x3D

/-- The number of encoded bytes, and the destination. -/
def base64Encode : List Byte → List Byte → Nat → Option (Nat × List Byte)
  | [], dst, outLen => some (outLen, dst)
  | [b0], dst, outLen =>
    if outLen + 4 > dst.length then some (outLen, dst)
    else do
      let c0 ← b64Chars[(b0 >>> 2).toNat]?
      let c1 ← b64Chars[((b0 &&& 0x03) <<< 4).toNat]?
      let dst ← Buffer.putAll outLen [c0, c1, equalsSign, equalsSign] dst
      pure (outLen + 4, dst)
  | [b0, b1], dst, outLen =>
    if outLen + 4 > dst.length then some (outLen, dst)
    else do
      let c0 ← b64Chars[(b0 >>> 2).toNat]?
      let c1 ← b64Chars[((b0 &&& 0x03) <<< 4 ||| b1 >>> 4).toNat]?
      let c2 ← b64Chars[((b1 &&& 0x0F) <<< 2).toNat]?
      let dst ← Buffer.putAll outLen [c0, c1, c2, equalsSign] dst
      pure (outLen + 4, dst)
  | b0 :: b1 :: b2 :: rest, dst, outLen =>
    if outLen + 4 > dst.length then some (outLen, dst)
    else do
      let c0 ← b64Chars[(b0 >>> 2).toNat]?
      let c1 ← b64Chars[((b0 &&& 0x03) <<< 4 ||| b1 >>> 4).toNat]?
      let c2 ← b64Chars[((b1 &&& 0x0F) <<< 2 ||| b2 >>> 6).toNat]?
      let c3 ← b64Chars[(b2 &&& 0x3F).toNat]?
      let dst ← Buffer.putAll outLen [c0, c1, c2, c3] dst
      base64Encode rest dst (outLen + 4)

/-- `ESC ] 5 2 ; c ;` -/
def osc52Header : List Byte := [0x1B, 0x5D, 0x35, 0x32, 0x3B, 0x63, 0x3B]

/-- The bytes that are sent to the terminal for its clipboard. -/
def osc52Copy (data : List Byte) : Option (List Byte) :=
  if data = [] then some []
  else do
    let out := List.replicate 1536 0
    let out ← Buffer.overwrite out 0 osc52Header
    let total := osc52Header.length
    let dst ← Buffer.range out total (total + 1400)
    let (encodedLen, dst) ← base64Encode data dst 0
    let out ← Buffer.overwrite out total dst
    let total := total + encodedLen
    let out ← Buffer.put out total 0x07
    Buffer.range out 0 (total + 1)

/-- What a cut leaves: the line, the kill ring and the bytes for the clipboard. -/
structure Cut where
  line : Line
  killRing : KillRing
  sent : List Byte

/-- Put the bytes between two positions into the kill ring and send them on. -/
def saveCut (buf : List Byte) (lo hi : Nat) (killRing : KillRing) :
    Option (KillRing × List Byte) := do
  let removed ← Buffer.range buf lo hi
  let killRing := KillRing.save killRing removed
  let sent ← osc52Copy (KillRing.asBytes killRing)
  pure (killRing, sent)

def killToEnd (line : Line) (killRing : KillRing) : Option Cut :=
  if line.cursorPos < line.len then do
    let (killRing, sent) ← saveCut line.buf line.cursorPos line.len killRing
    let buf ← Buffer.put line.buf line.cursorPos 0
    pure ⟨⟨buf, line.cursorPos, line.cursorPos⟩, killRing, sent⟩
  else some ⟨line, killRing, []⟩

def killToStart (line : Line) (killRing : KillRing) : Option Cut :=
  if line.cursorPos > 0 then do
    let (killRing, sent) ← saveCut line.buf 0 line.cursorPos killRing
    let buf ← Buffer.moveEach id (· - line.cursorPos)
      (List.range' line.cursorPos (line.len - line.cursorPos)) line.buf
    let len ← checkedSub line.len line.cursorPos
    let buf ← Buffer.put buf len 0
    pure ⟨⟨buf, len, 0⟩, killRing, sent⟩
  else if line.len > 0 then do
    -- With the cursor at the start it is the whole line that goes.
    let (killRing, sent) ← saveCut line.buf 0 line.len killRing
    let buf ← Buffer.put line.buf 0 0
    pure ⟨⟨buf, 0, line.cursorPos⟩, killRing, sent⟩
  else some ⟨line, killRing, []⟩

def killWordBackward (line : Line) (killRing : KillRing) : Option Cut :=
  if line.cursorPos > 0 then do
    let wordStart ← wordLeft line.buf line.cursorPos
    let count ← checkedSub line.cursorPos wordStart
    let (killRing, sent) ← saveCut line.buf wordStart line.cursorPos killRing
    let buf ← Buffer.moveEach id (· - count)
      (List.range' line.cursorPos (line.len - line.cursorPos)) line.buf
    let len ← checkedSub line.len count
    let buf ← Buffer.put buf len 0
    pure ⟨⟨buf, len, wordStart⟩, killRing, sent⟩
  else some ⟨line, killRing, []⟩

def yank (line : Line) (killRing : KillRing) : Option (Nat × Line) :=
  spliceInsert (KillRing.asBytes killRing) line

/-- Whether a byte was deleted, and the line. -/
def backspace (line : Line) : Option (Bool × Line) :=
  if line.cursorPos > 0 then do
    let buf ← Buffer.moveEach id (· - 1)
      (List.range' line.cursorPos (line.len - line.cursorPos)) line.buf
    let len ← checkedSub line.len 1
    let buf ← Buffer.put buf len 0
    pure (true, ⟨buf, len, line.cursorPos - 1⟩)
  else some (false, line)

def deleteChar (line : Line) : Option (Bool × Line) :=
  if line.cursorPos < line.len then do
    let buf ← Buffer.moveEach (· + 1) id
      (List.range' line.cursorPos (line.len - 1 - line.cursorPos)) line.buf
    let buf ← Buffer.put buf (line.len - 1) 0
    pure (true, ⟨buf, line.len - 1, line.cursorPos⟩)
  else some (false, line)

end RustPosix.Shell
