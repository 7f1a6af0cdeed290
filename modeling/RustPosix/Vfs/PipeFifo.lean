import RustPosix.Library.Run
import RustPosix.Vfs.Pipe

/-! What goes into a pipe comes out of it, over any interleaving of its sections. -/

namespace RustPosix.Vfs

open Library

/-- The sections that processes run on one pipe, in the order of its lock. -/
inductive PipeStep where
  | read (wanted : Nat) (flags : BitVec 32) (callerPid : Pid)
  | write (bytes : List Byte) (flags : BitVec 32) (callerPid : Pid)
  | unregisterReader (callerPid : Pid)
  | unregisterWriter (callerPid : Pid)
  | dropReadEnd
  | dropWriteEnd

namespace Section

/-- What the call hands to its caller, if the section ends it with success. -/
def value? {Value : Type} : Section Value → Option Value
  | .leave (.ok value) => some value
  | .leave (.error _) => none
  | .go _ _ done => done

end Section

namespace PipeBuffer

/-- The unread bytes, oldest first. -/
def buffered (pipe : PipeBuffer) : List Byte := (Ring.readFrom pipe.data pipe.len pipe.readPos).1

/-- Effect of the sections other than those of reads and writes. -/
def unregisterReader (pipe : PipeBuffer) (callerPid : Pid) : PipeBuffer :=
  { pipe with readWaiters := pipe.readWaiters.removeWaiter callerPid }

def unregisterWriter (pipe : PipeBuffer) (callerPid : Pid) : PipeBuffer :=
  { pipe with writeWaiters := pipe.writeWaiters.removeWaiter callerPid }

end PipeBuffer

/-- A pipe with all bytes that reads have returned and that writes have reported as
accepted: a write that reports `n` speaks of the first `n` bytes of its buffer. -/
structure PipeLog where
  pipe : PipeBuffer
  returned : List Byte
  accepted : List Byte

namespace PipeLog

def new : PipeLog := ⟨.new, [], []⟩

def step (log : PipeLog) : PipeStep → Option PipeLog
  | .read wanted flags callerPid =>
    let (result, pipe) := log.pipe.readSection wanted flags callerPid
    some { log with pipe, returned := log.returned ++ result.value?.getD [] }
  | .write bytes flags callerPid =>
    let (result, pipe) := log.pipe.writeSection bytes flags callerPid
    some { log with pipe, accepted := log.accepted ++ bytes.take (result.value?.getD 0) }
  | .unregisterReader callerPid => some { log with pipe := log.pipe.unregisterReader callerPid }
  | .unregisterWriter callerPid => some { log with pipe := log.pipe.unregisterWriter callerPid }
  | .dropReadEnd => some { log with pipe := log.pipe.dropReadEnd.2 }
  | .dropWriteEnd => some { log with pipe := log.pipe.dropWriteEnd.2 }

end PipeLog

/-- The state of the ring is the same in both. -/
structure SameRing (before after : PipeBuffer) : Prop where
  data : after.data = before.data
  readPos : after.readPos = before.readPos
  writePos : after.writePos = before.writePos
  len : after.len = before.len

theorem SameRing.refl (pipe : PipeBuffer) : SameRing pipe pipe := ⟨rfl, rfl, rfl, rfl⟩

theorem SameRing.buffered {before after : PipeBuffer} (same : SameRing before after) :
    after.buffered = before.buffered := by
  rw [PipeBuffer.buffered, PipeBuffer.buffered, same.data, same.readPos, same.len]

/-- The write cursor is behind the unread bytes. -/
def PipeBuffer.Aligned (pipe : PipeBuffer) : Prop :=
  Ring.advance pipe.readPos pipe.len = pipe.writePos

/-- What a read does to the ring: the bytes it hands out were the first unread ones. -/
structure Took (bytes : List Byte) (before after : PipeBuffer) : Prop where
  contents : before.buffered = bytes ++ after.buffered
  aligned : before.Aligned → after.Aligned

/-- What a write does to the ring: the bytes it accepts are now the last unread ones. -/
structure Gave (bytes : List Byte) (before after : PipeBuffer) : Prop where
  contents : after.buffered = before.buffered ++ bytes
  aligned : after.Aligned

section Sections

variable {pipe before after : PipeBuffer}

theorem SameRing.took (same : SameRing before after) : Took [] before after := by
  refine ⟨same.buffered.symm, fun aligned => ?_⟩
  rw [PipeBuffer.Aligned, same.readPos, same.len, same.writePos]
  exact aligned

theorem SameRing.gave (same : SameRing before after) (aligned : before.Aligned) :
    Gave [] before after := by
  refine ⟨same.buffered.trans (List.append_nil _).symm, ?_⟩
  exact same.took.aligned aligned

theorem took_takeBytes {count : Nat} (enough : count ≤ pipe.len) :
    Took (pipe.takeBytes count).1 pipe (pipe.takeBytes count).2 := by
  obtain ⟨rest, whole⟩ := Nat.exists_eq_add_of_le enough
  have left : pipe.len - count = rest := by omega
  have stop : (Ring.readFrom pipe.data count pipe.readPos).2 = Ring.advance pipe.readPos count :=
    Ring.readFrom_stop ..
  constructor
  · change (Ring.readFrom pipe.data pipe.len pipe.readPos).1 =
      (Ring.readFrom pipe.data count pipe.readPos).1 ++
        (Ring.readFrom pipe.data (pipe.len - count) (Ring.readFrom pipe.data count pipe.readPos).2).1
    rw [left, stop, whole]
    exact Ring.readFrom_add ..
  · intro aligned
    change Ring.advance (Ring.readFrom pipe.data count pipe.readPos).2 (pipe.len - count) =
      pipe.writePos
    rw [left, stop, Ring.advance_advance, ← whole]
    exact aligned

theorem gave_putBytes {bytes : List Byte} {count : Nat} (aligned : pipe.Aligned)
    (enough : count ≤ bytes.length) (room : pipe.len + count ≤ pipeBufferSize) :
    Gave (bytes.take count) pipe (pipe.putBytes bytes count room) := by
  have length : (bytes.take count).length = count := List.length_take_of_le enough
  constructor
  · change (Ring.readFrom (Ring.writeFrom (bytes.take count) pipe.writePos pipe.data).2
      (pipe.len + count) pipe.readPos).1 = _
    rw [Ring.readFrom_add, aligned]
    congr 1
    · apply Ring.readFrom_congr
      intro steps inside
      apply Ring.writeFrom_other
      intro further bounded same
      rw [length] at bounded
      rw [← aligned, Ring.advance_advance] at same
      have equal := Ring.advance_injective pipe.readPos (by omega) (by omega) same
      omega
    · have fits : (bytes.take count).length ≤ pipeBufferSize := by omega
      have back := @Ring.readFrom_writeFrom _ _ _ pipe.data _ fits pipe.writePos
      rwa [length] at back
  · change Ring.advance pipe.readPos (pipe.len + count) =
      (Ring.writeFrom (bytes.take count) pipe.writePos pipe.data).1
    rw [Ring.writeFrom_stop, length, ← Ring.advance_advance, aligned]

theorem readSection_took (wanted : Nat) (flags : BitVec 32) (callerPid : Pid) :
    Took ((pipe.readSection wanted flags callerPid).1.value?.getD []) pipe
      (pipe.readSection wanted flags callerPid).2 := by
  unfold PipeBuffer.readSection
  split
  · have same (waiters : WaitQueue) : SameRing pipe { pipe with readWaiters := waiters } :=
      ⟨rfl, rfl, rfl, rfl⟩
    split
    · exact (SameRing.refl pipe).took
    · split
      · exact (SameRing.refl pipe).took
      · dsimp only
        split
        · exact (same _).took
        · exact (same _).took
  · have taken := took_takeBytes (Nat.min_le_right wanted pipe.len)
    dsimp only
    split
    · exact ⟨taken.contents, taken.aligned⟩
    · exact taken

theorem writeSection_gave (aligned : pipe.Aligned) (bytes : List Byte) (flags : BitVec 32)
    (callerPid : Pid) :
    Gave (bytes.take ((pipe.writeSection bytes flags callerPid).1.value?.getD 0)) pipe
      (pipe.writeSection bytes flags callerPid).2 := by
  unfold PipeBuffer.writeSection
  split
  · exact (SameRing.refl pipe).gave aligned
  · split
    · have same (waiters : WaitQueue) : SameRing pipe { pipe with writeWaiters := waiters } :=
        ⟨rfl, rfl, rfl, rfl⟩
      split
      · exact (SameRing.refl pipe).gave aligned
      · dsimp only
        split
        · exact (same _).gave aligned
        · exact (same _).gave aligned
    · have fits := pipe.fits
      have put := gave_putBytes aligned (Nat.min_le_left bytes.length (pipeBufferSize - pipe.len))
        (by omega)
      dsimp only
      split
      · exact ⟨put.contents, put.aligned⟩
      · exact put

theorem dropReadEnd_same : SameRing pipe pipe.dropReadEnd.2 := by
  unfold PipeBuffer.dropReadEnd
  dsimp only
  split
  · exact ⟨rfl, rfl, rfl, rfl⟩
  · exact ⟨rfl, rfl, rfl, rfl⟩

theorem dropWriteEnd_same : SameRing pipe pipe.dropWriteEnd.2 := by
  unfold PipeBuffer.dropWriteEnd
  dsimp only
  split
  · exact ⟨rfl, rfl, rfl, rfl⟩
  · exact ⟨rfl, rfl, rfl, rfl⟩

theorem readSection_bounded {wanted : Nat} {flags : BitVec 32} {callerPid : Pid}
    {bytes : List Byte} (value : (pipe.readSection wanted flags callerPid).1.value? = some bytes) :
    bytes.length ≤ wanted := by
  have taken : (pipe.takeBytes (min wanted pipe.len)).1.length = min wanted pipe.len :=
    Ring.readFrom_length ..
  have bounded : (pipe.takeBytes (min wanted pipe.len)).1.length ≤ wanted :=
    taken.trans_le (Nat.min_le_left ..)
  unfold PipeBuffer.readSection at value
  dsimp only at value
  split at value
  · split at value
    · cases value
      exact Nat.zero_le _
    · split at value
      · cases value
      · split at value
        · cases value
        · cases value
  · split at value
    · cases value
      exact bounded
    · cases value
      exact bounded

theorem writeSection_bounded {bytes : List Byte} {flags : BitVec 32} {callerPid : Pid}
    {count : Nat} (value : (pipe.writeSection bytes flags callerPid).1.value? = some count) :
    count ≤ bytes.length := by
  unfold PipeBuffer.writeSection at value
  dsimp only at value
  split at value
  · cases value
  · split at value
    · split at value
      · cases value
      · split at value
        · cases value
        · cases value
    · split at value
      · cases value
        exact Nat.min_le_left ..
      · cases value
        exact Nat.min_le_left ..

end Sections

/-- All bytes that have gone in are the bytes that have come out and the unread ones. -/
structure PipeLog.Fifo (log : PipeLog) : Prop where
  aligned : log.pipe.Aligned
  contents : log.returned ++ log.pipe.buffered = log.accepted

namespace PipeLog

theorem new_fifo : PipeLog.new.Fifo := ⟨rfl, rfl⟩

theorem Fifo.took {log : PipeLog} (fifo : log.Fifo) {bytes : List Byte} {after : PipeBuffer}
    (took : Took bytes log.pipe after) :
    Fifo ⟨after, log.returned ++ bytes, log.accepted⟩ := by
  constructor
  · exact took.aligned fifo.aligned
  · calc
      log.returned ++ bytes ++ after.buffered = log.returned ++ (bytes ++ after.buffered) :=
        List.append_assoc ..
      _ = log.returned ++ log.pipe.buffered := by rw [took.contents]
      _ = log.accepted := fifo.contents

theorem Fifo.gave {log : PipeLog} (fifo : log.Fifo) {bytes : List Byte} {after : PipeBuffer}
    (gave : Gave bytes log.pipe after) :
    Fifo ⟨after, log.returned, log.accepted ++ bytes⟩ := by
  constructor
  · exact gave.aligned
  · calc
      log.returned ++ after.buffered = log.returned ++ log.pipe.buffered ++ bytes := by
        rw [gave.contents, List.append_assoc]
      _ = log.accepted ++ bytes := by rw [fifo.contents]

theorem Fifo.same {log : PipeLog} (fifo : log.Fifo) {after : PipeBuffer}
    (same : SameRing log.pipe after) : Fifo { log with pipe := after } := by
  constructor
  · exact same.took.aligned fifo.aligned
  · exact (congrArg (log.returned ++ ·) same.buffered).trans fifo.contents

theorem step_fifo (log : PipeLog) (label : PipeStep) (after : PipeLog) (fifo : log.Fifo)
    (next : log.step label = some after) : after.Fifo := by
  cases label with
  | read wanted flags callerPid =>
    cases next
    exact fifo.took (readSection_took wanted flags callerPid)
  | write bytes flags callerPid =>
    cases next
    exact fifo.gave (writeSection_gave fifo.aligned bytes flags callerPid)
  | unregisterReader callerPid =>
    cases next
    exact fifo.same ⟨rfl, rfl, rfl, rfl⟩
  | unregisterWriter callerPid =>
    cases next
    exact fifo.same ⟨rfl, rfl, rfl, rfl⟩
  | dropReadEnd =>
    cases next
    exact fifo.same dropReadEnd_same
  | dropWriteEnd =>
    cases next
    exact fifo.same dropWriteEnd_same

/-- States of a pipe and its history under any interleaving of sections. -/
abbrev Reached : PipeLog → Prop := Run step (fun _ _ => True) new

theorem Reached.fifo {log : PipeLog} (run : Reached log) : log.Fifo := by
  apply run.invariant new_fifo
  intro before label after fifo _ next
  exact step_fifo before label after fifo next

end PipeLog

/-- A pipe hands out the bytes it accepted in the order in which it accepted them; a read
returns no more than it was asked for, and a write that reports `n` put in exactly the
first `n` bytes of its buffer. -/
theorem pipes_are_fifo {log : PipeLog} (run : log.Reached) :
    log.pipe.len ≤ 4096 ∧
    (log.pipe.readPos.val + log.pipe.len) % 4096 = log.pipe.writePos.val ∧
    log.returned ++ log.pipe.buffered = log.accepted ∧
    (∀ wanted flags callerPid bytes,
      (log.pipe.readSection wanted flags callerPid).1.value? = some bytes →
        bytes.length ≤ wanted) ∧
    ∀ bytes flags callerPid,
      let (result, after) := log.pipe.writeSection bytes flags callerPid
      match result.value? with
      | some count => count ≤ bytes.length ∧ after.buffered = log.pipe.buffered ++ bytes.take count
      | none => after.buffered = log.pipe.buffered := by
  have fifo := run.fifo
  refine ⟨log.pipe.fits, congrArg Fin.val fifo.aligned, fifo.contents, ?_, ?_⟩
  · intro wanted flags callerPid bytes value
    exact readSection_bounded value
  · intro bytes flags callerPid
    have gave := (writeSection_gave fifo.aligned bytes flags callerPid).contents
    dsimp only
    split
    · rename_i count value
      rw [value] at gave
      exact ⟨writeSection_bounded value, gave⟩
    · rename_i value
      rw [value] at gave
      exact gave.trans (List.append_nil _)

/-- Two bytes are written and one of them is read. -/
theorem pipes_are_fifo_short :
    let written := (PipeBuffer.new.writeSection [7, 9] 0 1).2
    let taken := (written.readSection 1 0 2).2
    [7] ++ taken.buffered = [7, 9] := by
  have first : PipeLog.Reached ⟨(PipeBuffer.new.writeSection [7, 9] 0 1).2, [], [7, 9]⟩ :=
    Run.start.step (.write [7, 9] 0 1) trivial rfl
  have second := first.step (.read 1 0 2) trivial rfl
  exact (pipes_are_fifo second).2.2.1

end RustPosix.Vfs
