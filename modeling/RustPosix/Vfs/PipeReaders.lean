import RustPosix.Vfs.PipeFifo

/-! Who may be left on the queue of the readers of a pipe. -/

namespace RustPosix.Vfs

open Library

/-- Readers are registered only while there is nothing to read and a writer is left. -/
def PipeBuffer.ReadersWait (pipe : PipeBuffer) : Prop :=
  pipe.readWaiters.waiters ≠ [] → pipe.len = 0 ∧ 0 < pipe.writersOpen

namespace WaitQueue

variable {queue : WaitQueue} {pid : Pid}

theorem removeWaiter_nonempty (left : (queue.removeWaiter pid).waiters ≠ []) :
    queue.waiters ≠ [] := by
  intro empty
  apply left
  rw [removeWaiter, empty]
  rfl

end WaitQueue

section Readers

variable {pipe : PipeBuffer}

theorem readSection_readersWait (waits : pipe.ReadersWait) (wanted : Nat) (flags : BitVec 32)
    (callerPid : Pid) : (pipe.readSection wanted flags callerPid).2.ReadersWait := by
  unfold PipeBuffer.readSection
  split
  · rename_i empty
    split
    · exact waits
    · rename_i writers
      split
      · exact waits
      · dsimp only
        split
        · intro _
          exact ⟨empty, Nat.pos_of_ne_zero writers⟩
        · intro _
          exact ⟨empty, Nat.pos_of_ne_zero writers⟩
  · rename_i filled
    -- Nobody is registered on a pipe that has bytes, and reading registers nobody.
    have nobody : pipe.readWaiters.waiters = [] := by
      by_contra waiting
      exact filled (waits waiting).1
    dsimp only
    split
    · exact fun waiting => absurd nobody waiting
    · exact fun waiting => absurd nobody waiting

theorem writeSection_readersWait (waits : pipe.ReadersWait) (bytes : List Byte)
    (flags : BitVec 32) (callerPid : Pid) :
    (pipe.writeSection bytes flags callerPid).2.ReadersWait := by
  unfold PipeBuffer.writeSection
  split
  · exact waits
  · split
    · split
      · exact waits
      · dsimp only
        split
        · exact waits
        · exact waits
    · dsimp only
      split
      · exact fun waiting => absurd rfl waiting
      · rename_i edge
        intro waiting
        obtain ⟨empty, writers⟩ := waits waiting
        refine ⟨?_, writers⟩
        by_contra filled
        exact edge ⟨empty, Nat.pos_of_ne_zero filled⟩

theorem dropReadEnd_readersWait (waits : pipe.ReadersWait) : pipe.dropReadEnd.2.ReadersWait := by
  unfold PipeBuffer.dropReadEnd
  dsimp only
  split
  · exact waits
  · exact waits

theorem dropWriteEnd_readersWait (waits : pipe.ReadersWait) :
    pipe.dropWriteEnd.2.ReadersWait := by
  unfold PipeBuffer.dropWriteEnd
  dsimp only
  split
  · exact fun waiting => absurd rfl waiting
  · rename_i left
    intro waiting
    exact ⟨(waits waiting).1, Nat.pos_of_ne_zero left⟩

end Readers

theorem PipeLog.step_readersWait (log : PipeLog) (label : PipeStep) (after : PipeLog)
    (waits : log.pipe.ReadersWait) (next : log.step label = some after) :
    after.pipe.ReadersWait := by
  cases label with
  | read wanted flags callerPid =>
    cases next
    exact readSection_readersWait waits wanted flags callerPid
  | write bytes flags callerPid =>
    cases next
    exact writeSection_readersWait waits bytes flags callerPid
  | unregisterReader callerPid =>
    cases next
    exact fun waiting => waits (WaitQueue.removeWaiter_nonempty waiting)
  | unregisterWriter callerPid =>
    cases next
    exact waits
  | dropReadEnd =>
    cases next
    exact dropReadEnd_readersWait waits
  | dropWriteEnd =>
    cases next
    exact dropWriteEnd_readersWait waits

theorem PipeLog.Reached.readersWait {log : PipeLog} (run : log.Reached) :
    log.pipe.ReadersWait := by
  induction run with
  | start => exact fun waiting => absurd rfl waiting
  | step _ label _ next ih => exact PipeLog.step_readersWait _ label _ ih next

/-- No reader is left waiting on a pipe that has bytes or that nobody can write to. -/
theorem no_reader_waits_on_readable {log : PipeLog} (run : log.Reached)
    (waiting : log.pipe.readWaiters.waiters ≠ []) :
    log.pipe.len = 0 ∧ 0 < log.pipe.writersOpen :=
  run.readersWait waiting

/-- A reader that found a new pipe empty. -/
theorem no_reader_waits_on_readable_empty :
    let pipe := (PipeBuffer.new.readSection 16 0 7).2
    pipe.readWaiters.waiters ≠ [] ∧ pipe.len = 0 ∧ 0 < pipe.writersOpen := by
  have run : PipeLog.Reached ⟨(PipeBuffer.new.readSection 16 0 7).2, [], []⟩ :=
    Run.start.step (.read 16 0 7) trivial rfl
  have waiting : (PipeBuffer.new.readSection 16 0 7).2.readWaiters.waiters ≠ [] := by decide
  exact ⟨waiting, no_reader_waits_on_readable run waiting⟩

end RustPosix.Vfs
