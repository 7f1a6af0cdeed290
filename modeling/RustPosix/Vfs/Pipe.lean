import RustPosix.Library.Memory
import RustPosix.Library.Ring

/-! Anonymous pipes: the sections of `services/vfs/pipe.rs` that hold the lock of the
buffer, over the wait queues of `services/vfs/wait_queue.rs`. -/

namespace RustPosix.Vfs

open Library

/-- Process identifiers, `i32` in the source. -/
abbrev Pid := Int

def eintr : Int := 4
def eagain : Int := 11
def epipe : Int := 32
def oNonblock : BitVec 32 := 0x0800

structure WaitQueue where
  waiters : List Pid
  deriving DecidableEq, Repr

namespace WaitQueue

def new : WaitQueue := ⟨[]⟩

def addWaiter (queue : WaitQueue) (pid : Pid) : WaitQueue :=
  if pid ∈ queue.waiters then queue else ⟨queue.waiters ++ [pid]⟩

def removeWaiter (queue : WaitQueue) (pid : Pid) : WaitQueue :=
  ⟨queue.waiters.filter fun waiter => waiter ≠ pid⟩

def drainOne (queue : WaitQueue) : Option Pid × WaitQueue :=
  (queue.waiters.head?, ⟨queue.waiters.tail⟩)

def drainAll (queue : WaitQueue) : List Pid × WaitQueue := (queue.waiters, new)

end WaitQueue

def pipeBufferSize : Nat := 4096

/-- The ring buffer of a pipe, whose cursors stay inside the buffer. -/
structure PipeBuffer where
  data : Fin pipeBufferSize → Byte
  readPos : Fin pipeBufferSize
  writePos : Fin pipeBufferSize
  len : Nat
  fits : len ≤ pipeBufferSize
  readersOpen : Nat
  writersOpen : Nat
  readWaiters : WaitQueue
  writeWaiters : WaitQueue

namespace PipeBuffer

instance : NeZero pipeBufferSize := ⟨by decide⟩

def new : PipeBuffer where
  data _ := 0
  readPos := 0
  writePos := 0
  len := 0
  fits := Nat.zero_le _
  readersOpen := 1
  writersOpen := 1
  readWaiters := .new
  writeWaiters := .new

end PipeBuffer

/-- What the section of a call under the lock of the pipe comes to: a return from inside
it, or the values that the loop goes on with. -/
inductive Section (Value : Type) where
  | leave (result : Except Int Value)
  | go (toWake : List Pid) (shouldSwitch : Bool) (done : Option Value)

/-- The processes a section takes off a queue to wake them. -/
def Section.woken {Value : Type} : Section Value → List Pid
  | .leave _ => []
  | .go toWake _ _ => toWake

namespace PipeBuffer

/-- The bytes and the buffer once `toRead` of them have been taken out. -/
def takeBytes (pipe : PipeBuffer) (toRead : Nat) : List Byte × PipeBuffer :=
  let (bytes, readPos) := Ring.readFrom pipe.data toRead pipe.readPos
  (bytes, { pipe with
    readPos
    len := pipe.len - toRead
    fits := Nat.le_trans (Nat.sub_le ..) pipe.fits })

/-- The buffer once the first `toWrite` of the bytes have been put in. -/
def putBytes (pipe : PipeBuffer) (bytes : List Byte) (toWrite : Nat)
    (room : pipe.len + toWrite ≤ pipeBufferSize) : PipeBuffer :=
  let (writePos, data) := Ring.writeFrom (bytes.take toWrite) pipe.writePos pipe.data
  { pipe with data, writePos, len := pipe.len + toWrite, fits := room }

/-- The section of `PipeReadEnd::read_with_flags`. -/
def readSection (pipe : PipeBuffer) (wanted : Nat) (flags : BitVec 32) (callerPid : Pid) :
    Section (List Byte) × PipeBuffer :=
  if pipe.len = 0 then
    if pipe.writersOpen = 0 then (.leave (.ok []), pipe)
    else if flags &&& oNonblock ≠ 0 then (.leave (.error eagain), pipe)
    else
      let pipe := { pipe with readWaiters := pipe.readWaiters.addWaiter callerPid }
      if pipe.len > 0 ∨ pipe.writersOpen = 0 then
        (.go [] false none, { pipe with readWaiters := pipe.readWaiters.removeWaiter callerPid })
      else (.go [] true none, pipe)
  else
    let toRead := min wanted pipe.len
    let (bytes, after) := pipe.takeBytes toRead
    if pipe.len = pipeBufferSize ∧ after.len < pipeBufferSize then
      let (waiter, writeWaiters) := after.writeWaiters.drainOne
      (.go waiter.toList false (some bytes), { after with writeWaiters })
    else (.go [] false (some bytes), after)

/-- The section of `PipeWriteEnd::write_with_flags`. -/
def writeSection (pipe : PipeBuffer) (bytes : List Byte) (flags : BitVec 32) (callerPid : Pid) :
    Section Nat × PipeBuffer :=
  if pipe.readersOpen = 0 then (.leave (.error epipe), pipe)
  else if pipeBufferSize - pipe.len = 0 then
    if flags &&& oNonblock ≠ 0 then (.leave (.error eagain), pipe)
    else
      let pipe := { pipe with writeWaiters := pipe.writeWaiters.addWaiter callerPid }
      if pipe.len < pipeBufferSize ∨ pipe.readersOpen = 0 then
        (.go [] false none, { pipe with writeWaiters := pipe.writeWaiters.removeWaiter callerPid })
      else (.go [] true none, pipe)
  else
    let toWrite := min bytes.length (pipeBufferSize - pipe.len)
    let after := pipe.putBytes bytes toWrite (by have := pipe.fits; omega)
    if pipe.len = 0 ∧ after.len > 0 then
      let (toWake, readWaiters) := after.readWaiters.drainAll
      (.go toWake false (some toWrite), { after with readWaiters })
    else (.go [] false (some toWrite), after)

/-- The section of `Drop for PipeReadEnd`, with the writers to wake. -/
def dropReadEnd (pipe : PipeBuffer) : List Pid × PipeBuffer :=
  let after := { pipe with readersOpen := pipe.readersOpen - 1 }
  if after.readersOpen = 0 then
    let (toWake, writeWaiters) := after.writeWaiters.drainAll
    (toWake, { after with writeWaiters })
  else ([], after)

/-- The section of `Drop for PipeWriteEnd`, with the readers to wake. -/
def dropWriteEnd (pipe : PipeBuffer) : List Pid × PipeBuffer :=
  let after := { pipe with writersOpen := pipe.writersOpen - 1 }
  if after.writersOpen = 0 then
    let (toWake, readWaiters) := after.readWaiters.drainAll
    (toWake, { after with readWaiters })
  else ([], after)

end PipeBuffer

end RustPosix.Vfs
