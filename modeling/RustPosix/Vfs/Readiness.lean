import RustPosix.Vfs.Devices
import RustPosix.Vfs.FileHandle

/-! What `poll` says of an inode, and what a call on it in the same state comes to. -/

namespace RustPosix.Vfs

open Library

structure InodePollFlags where
  readable : Bool
  writable : Bool
  hangup : Bool
  error : Bool
  deriving DecidableEq, Repr

/-- `poll` of the trait `Inode`, for all inodes but the ends of pipes. -/
def InodePollFlags.default : InodePollFlags := ⟨true, true, false, false⟩

/-- What of a pipe the readiness of its ends depends on. -/
structure PipeLevel where
  len : Nat
  readersOpen : Nat
  writersOpen : Nat
  deriving DecidableEq, Repr

def PipeLevel.pollRead (pipe : PipeLevel) : InodePollFlags :=
  ⟨pipe.len > 0, false, pipe.writersOpen = 0, false⟩

def PipeLevel.pollWrite (pipe : PipeLevel) : InodePollFlags :=
  ⟨false, pipe.len < pipeBufferSize, false, pipe.readersOpen = 0⟩

namespace PipeBuffer

/-- `PipeReadEnd::read_with_flags` for at most `rounds` turns of its loop; none if it gives up
the processor. -/
def readLoop : Nat → PipeBuffer → Nat → BitVec 32 → Pid → Option (Except Int (List Byte) × PipeBuffer)
  | 0, _, _, _, _ => none
  | rounds + 1, pipe, wanted, flags, callerPid =>
    match pipe.readSection wanted flags callerPid with
    | (.leave result, after) => some (result, after)
    | (.go _ _ (some bytes), after) => some (.ok bytes, after)
    | (.go _ true none, _) => none
    | (.go _ false none, after) => readLoop rounds after wanted flags callerPid

/-- `PipeWriteEnd::write_with_flags`, in the same way. -/
def writeLoop : Nat → PipeBuffer → List Byte → BitVec 32 → Pid → Option (Except Int Nat × PipeBuffer)
  | 0, _, _, _, _ => none
  | rounds + 1, pipe, bytes, flags, callerPid =>
    match pipe.writeSection bytes flags callerPid with
    | (.leave result, after) => some (result, after)
    | (.go _ _ (some count), after) => some (.ok count, after)
    | (.go _ true none, _) => none
    | (.go _ false none, after) => writeLoop rounds after bytes flags callerPid

def level (pipe : PipeBuffer) : PipeLevel := ⟨pipe.len, pipe.readersOpen, pipe.writersOpen⟩

end PipeBuffer

/-- The inodes that are opened, with their states. -/
inductive PolledInode where
  | file (regular : RamFsFile)
  | readEnd (pipe : PipeBuffer)
  | writeEnd (pipe : PipeBuffer)
  | console (port : SerialPort)
  | tty (ldisc : LineDiscipline)

/-- With enough turns of its loop and no other step in between, the call returns something
other than `EAGAIN`. -/
def Completes {Value : Type} (attempt : Nat → Option (Except Int Value)) : Prop :=
  ∃ rounds result, attempt rounds = some result ∧ result ≠ .error eagain

/-- `EBADF` -/
def badDescriptor : Int := 9

namespace PolledInode

/-- `poll`; a device inherits that of the trait. -/
def poll : PolledInode → InodePollFlags
  | .readEnd pipe => pipe.level.pollRead
  | .writeEnd pipe => pipe.level.pollWrite
  | _ => .default

/-- `read_with_flags`; only the end of a pipe looks at the flags. -/
def read (inode : PolledInode) (offset wanted : Nat) (flags : BitVec 32) (callerPid : Pid)
    (rounds : Nat) : Option (Except Int (List Byte)) :=
  match inode with
  | .file regular => some (.ok (regular.read offset wanted))
  | .readEnd pipe => (pipe.readLoop rounds wanted flags callerPid).map Prod.fst
  | .writeEnd _ => some (.error badDescriptor)
  | .console port => (port.consoleRead rounds wanted).map fun (bytes, _) => .ok bytes
  | .tty ldisc => some (ldisc.read wanted).1

/-- `poll` tells whether a call would go through: a write at the write end of a pipe, a read
everywhere else. -/
def Agrees : PolledInode → Prop
  | .writeEnd pipe => ∀ bytes flags callerPid, bytes ≠ [] →
    (Completes (fun rounds => (pipe.writeLoop rounds bytes flags callerPid).map Prod.fst) ↔
      (poll (.writeEnd pipe)).writable ∨ (poll (.writeEnd pipe)).error)
  | inode => ∀ offset wanted flags callerPid, 0 < wanted →
    (Completes (inode.read offset wanted flags callerPid) ↔
      inode.poll.readable ∨ inode.poll.hangup)

/-- A device has something to read. -/
def Supplied : PolledInode → Prop
  | .console port => port.Pending
  | .tty ldisc => ldisc.canonicalQueue ≠ []
  | _ => True

end PolledInode

section Calls

variable {pipe : PipeBuffer} {flags : BitVec 32} {callerPid : Pid}

theorem Completes.of_returns {Value : Type} {attempt : Nat → Option (Except Int Value)}
    (value : Value) (returns : attempt 1 = some (.ok value)) : Completes attempt :=
  ⟨1, .ok value, returns, nofun⟩

theorem PipeBuffer.read_completes_iff {wanted : Nat} :
    Completes (fun rounds => (pipe.readLoop rounds wanted flags callerPid).map Prod.fst) ↔
      pipe.len > 0 ∨ pipe.writersOpen = 0 := by
  by_cases empty : pipe.len = 0
  · by_cases closed : pipe.writersOpen = 0
    · refine ⟨fun _ => .inr closed, fun _ => Completes.of_returns [] ?_⟩
      simp only [readLoop, readSection, if_pos empty, if_pos closed]
      rfl
    · have level : ¬ (pipe.len > 0 ∨ pipe.writersOpen = 0) := by omega
      refine ⟨fun ⟨rounds, result, returned, other⟩ => ?_, fun ready => absurd ready level⟩
      cases rounds with
      | zero => exact nomatch returned
      | succ rounds =>
        by_cases nonblock : flags &&& oNonblock ≠ 0
        · simp only [readLoop, readSection, if_pos empty, if_neg closed, if_pos nonblock] at returned
          exact absurd (Option.some.inj returned).symm other
        · simp only [readLoop, readSection, if_pos empty, if_neg closed, if_neg nonblock,
            if_neg level] at returned
          exact nomatch returned
  · refine ⟨fun _ => .inl (Nat.pos_of_ne_zero empty),
      fun _ => Completes.of_returns (pipe.takeBytes (min wanted pipe.len)).1 ?_⟩
    simp only [readLoop, readSection, if_neg empty]
    by_cases wakes : pipe.len = pipeBufferSize ∧
        (pipe.takeBytes (min wanted pipe.len)).2.len < pipeBufferSize
    · simp only [if_pos wakes]
      rfl
    · simp only [if_neg wakes]
      rfl

theorem PipeBuffer.write_completes_iff {bytes : List Byte} :
    Completes (fun rounds => (pipe.writeLoop rounds bytes flags callerPid).map Prod.fst) ↔
      pipe.len < pipeBufferSize ∨ pipe.readersOpen = 0 := by
  by_cases closed : pipe.readersOpen = 0
  · refine ⟨fun _ => .inr closed, fun _ => ⟨1, .error epipe, ?_, by decide⟩⟩
    simp only [writeLoop, writeSection, if_pos closed]
    rfl
  · by_cases full : pipeBufferSize - pipe.len = 0
    · have level : ¬ (pipe.len < pipeBufferSize ∨ pipe.readersOpen = 0) := by omega
      refine ⟨fun ⟨rounds, result, returned, other⟩ => ?_, fun ready => absurd ready level⟩
      cases rounds with
      | zero => exact nomatch returned
      | succ rounds =>
        by_cases nonblock : flags &&& oNonblock ≠ 0
        · simp only [writeLoop, writeSection, if_neg closed, if_pos full, if_pos nonblock] at returned
          exact absurd (Option.some.inj returned).symm other
        · simp only [writeLoop, writeSection, if_neg closed, if_pos full, if_neg nonblock,
            if_neg level] at returned
          exact nomatch returned
    · refine ⟨fun _ => .inl (by omega),
        fun _ => Completes.of_returns (min bytes.length (pipeBufferSize - pipe.len)) ?_⟩
      simp only [writeLoop, writeSection, if_neg closed, if_neg full]
      split <;> rename_i outcome <;> split at outcome <;> cases outcome <;> rfl

theorem SerialPort.console_completes_iff {port : SerialPort} {wanted : Nat} (positive : 0 < wanted) :
    Completes (fun rounds => (port.consoleRead rounds wanted).map
      fun (bytes, _) => (.ok bytes : Except Int (List Byte))) ↔ port.Pending := by
  constructor
  · rintro ⟨rounds, result, returned, _⟩
    by_contra idle
    have never : port.consoleRead rounds wanted = none := consoleRead_idle idle positive rounds
    simp only [never] at returned
    exact nomatch returned
  · intro pending
    refine Completes.of_returns (port.readBytes wanted).1 ?_
    simp only [consoleRead, if_neg (Nat.ne_of_gt positive), if_pos (readBytes_pending pending positive)]
    rfl

theorem LineDiscipline.read_completes_iff {ldisc : LineDiscipline} {wanted : Nat} :
    Completes (fun _ => some (ldisc.read wanted).1) ↔ ldisc.canonicalQueue ≠ [] := by
  constructor
  · rintro ⟨_, result, returned, other⟩ empty
    rw [read, if_pos empty] at returned
    exact other (Option.some.inj returned).symm
  · intro supplied
    refine Completes.of_returns (ldisc.canonicalQueue.take (min wanted ldisc.canonicalQueue.length)) ?_
    simp only [read, if_neg supplied]

end Calls

/-- The ends of pipes report what they will do; a device always reports that it is readable. -/
theorem poll_agrees_iff (inode : PolledInode) : inode.Agrees ↔ inode.Supplied := by
  cases inode with
  | file regular =>
    exact ⟨fun _ => trivial, fun _ _ _ _ _ _ =>
      ⟨fun _ => .inl rfl, fun _ => Completes.of_returns _ rfl⟩⟩
  | readEnd pipe =>
    refine ⟨fun _ => trivial, fun _ offset wanted flags callerPid _ => ?_⟩
    refine PipeBuffer.read_completes_iff.trans ?_
    exact or_congr decide_eq_true_iff.symm decide_eq_true_iff.symm
  | writeEnd pipe =>
    refine ⟨fun _ => trivial, fun _ bytes flags callerPid _ => ?_⟩
    refine PipeBuffer.write_completes_iff.trans ?_
    exact or_congr decide_eq_true_iff.symm decide_eq_true_iff.symm
  | console port =>
    constructor
    · intro agrees
      exact (SerialPort.console_completes_iff Nat.one_pos).mp ((agrees 0 1 0 0 Nat.one_pos).mpr (.inl rfl))
    · exact fun pending offset wanted flags callerPid positive =>
        ⟨fun _ => .inl rfl, fun _ => (SerialPort.console_completes_iff positive).mpr pending⟩
  | tty ldisc =>
    constructor
    · intro agrees
      exact LineDiscipline.read_completes_iff.mp ((agrees 0 1 0 0 Nat.one_pos).mpr (.inl rfl))
    · exact fun supplied offset wanted flags callerPid _ =>
        ⟨fun _ => .inl rfl, fun _ => LineDiscipline.read_completes_iff.mpr supplied⟩

/-- Until the first line is finished, the terminal is reported as readable and is not. -/
theorem tty_disagrees_in_line {ldisc : LineDiscipline}
    (run : Run LineDiscipline.step (fun _ event => LineDiscipline.InLine event) .new ldisc) :
    ¬ (PolledInode.tty ldisc).Agrees := by
  intro agrees
  have completes := (agrees 0 1 0 0 Nat.one_pos).mpr (.inl rfl)
  exact LineDiscipline.read_completes_iff.mp completes (LineDiscipline.queue_empty_in_line run).1

/-- A terminal at which `a` has been typed. -/
def halfTyped : LineDiscipline := (LineDiscipline.new.pushChar 0x61).2

/-- A terminal inside a line and the console before the first key are reported as readable,
and nothing can be read. -/
theorem poll_promises_unreadable :
    Run LineDiscipline.step (fun _ event => LineDiscipline.InLine event) .new halfTyped ∧
      ¬ (PolledInode.tty halfTyped).Agrees ∧ ¬ (PolledInode.console .new).Agrees := by
  have typed : Run LineDiscipline.step (fun _ event => LineDiscipline.InLine event) .new halfTyped :=
    Run.start.step (.typed 0x61) ⟨by decide, by decide⟩ rfl
  refine ⟨typed, tty_disagrees_in_line typed, fun agrees => ?_⟩
  have completes := (agrees 0 1 0 0 Nat.one_pos).mpr (.inl rfl)
  rcases (SerialPort.console_completes_iff Nat.one_pos).mp completes with moved | waiting
  · exact moved rfl
  · exact waiting rfl

end RustPosix.Vfs
