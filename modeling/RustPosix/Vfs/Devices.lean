import RustPosix.Library.Run
import RustPosix.Vfs.Pipe

/-! The devices behind `/dev/console` and the terminal: the receive buffer of
`ostd/drivers/serial.rs`, `DevConsole` of `services/vfs/devfs.rs` and the line discipline of
`services/tty/mod.rs`. -/

namespace RustPosix.Vfs

open Library

def rxBufSize : Nat := 2048

instance : NeZero rxBufSize := ⟨by decide⟩

/-- `fifo` is what the receiver of the UART holds. -/
structure SerialPort where
  rxBuf : Fin rxBufSize → Byte
  rxHead : Fin rxBufSize
  rxTail : Fin rxBufSize
  fifo : List Byte

namespace SerialPort

def new : SerialPort := ⟨fun _ => 0, 0, 0, []⟩

/-- One byte from the receiver, dropped if the ring is full. -/
def accept (port : SerialPort) (byte : Byte) : SerialPort :=
  let nextHead := port.rxHead + 1
  if nextHead ≠ port.rxTail then
    { port with rxBuf := Function.update port.rxBuf port.rxHead byte, rxHead := nextHead }
  else port

def drainHardwareFifo (port : SerialPort) : SerialPort :=
  port.fifo.foldl accept { port with fifo := [] }

/-- The loop of `read_bytes`. -/
def takeBytes : Nat → SerialPort → List Byte × SerialPort
  | 0, port => ([], port)
  | wanted + 1, port =>
    if port.rxTail ≠ port.rxHead then
      let (bytes, after) := takeBytes wanted { port with rxTail := port.rxTail + 1 }
      (port.rxBuf port.rxTail :: bytes, after)
    else ([], port)

def readBytes (port : SerialPort) (wanted : Nat) : List Byte × SerialPort :=
  port.drainHardwareFifo.takeBytes wanted

/-- `DevConsole::read`, for at most `rounds` turns of its loop. -/
def consoleRead : Nat → SerialPort → Nat → Option (List Byte × SerialPort)
  | 0, _, _ => none
  | rounds + 1, port, wanted =>
    if wanted = 0 then some ([], port)
    else
      let (bytes, after) := port.readBytes wanted
      if bytes.length > 0 then some (bytes, after) else consoleRead rounds after wanted

/-- A byte has come that was not read yet. -/
def Pending (port : SerialPort) : Prop := port.rxTail ≠ port.rxHead ∨ port.fifo ≠ []

section Reading

variable {port : SerialPort} {byte : Byte} {wanted : Nat}

/-- A ring with something in it stays so. -/
theorem accept_pending (some : port.rxTail ≠ port.rxHead) :
    (port.accept byte).rxTail ≠ (port.accept byte).rxHead := by
  unfold accept
  by_cases room : port.rxHead + 1 ≠ port.rxTail
  · rw [if_pos room]
    exact Ne.symm room
  · rw [if_neg room]
    exact some

theorem accept_of_empty (empty : port.rxTail = port.rxHead) :
    (port.accept byte).rxTail ≠ (port.accept byte).rxHead := by
  have room : port.rxHead + 1 ≠ port.rxTail := by
    rw [empty]
    intro same
    have cell := congrArg Fin.val same
    have bound := port.rxHead.isLt
    simp only [rxBufSize] at cell bound
    omega
  unfold accept
  rw [if_pos room]
  exact Ne.symm room

theorem foldl_accept_pending (bytes : List Byte) :
    ∀ {port : SerialPort}, port.rxTail ≠ port.rxHead →
      (bytes.foldl accept port).rxTail ≠ (bytes.foldl accept port).rxHead := by
  induction bytes with
  | nil => exact id
  | cons byte rest ih => exact fun some => ih (accept_pending some)

theorem drain_pending_iff :
    port.drainHardwareFifo.rxTail ≠ port.drainHardwareFifo.rxHead ↔ port.Pending := by
  unfold drainHardwareFifo Pending
  cases waiting : port.fifo with
  | nil => simp
  | cons byte rest =>
    refine ⟨fun _ => .inr (List.cons_ne_nil byte rest), fun _ => ?_⟩
    rw [List.foldl_cons]
    refine foldl_accept_pending rest ?_
    by_cases empty : port.rxTail = port.rxHead
    · exact @accept_of_empty { port with fifo := [] } byte empty
    · exact @accept_pending { port with fifo := [] } byte empty

theorem readBytes_pending (pending : port.Pending) (positive : 0 < wanted) :
    (port.readBytes wanted).1.length > 0 := by
  obtain ⟨more, rfl⟩ := Nat.exists_eq_succ_of_ne_zero (Nat.ne_of_gt positive)
  rw [readBytes, takeBytes, if_pos (drain_pending_iff.mpr pending)]
  exact Nat.succ_pos _

/-- Nothing is read from a port that nothing has come to, and it stays as it is. -/
theorem readBytes_idle (idle : ¬ port.Pending) : port.readBytes wanted = ([], port) := by
  have empty : port.fifo = [] := not_not.mp fun some => idle (.inr some)
  have drained : port.drainHardwareFifo = port := by
    rw [drainHardwareFifo, empty, List.foldl_nil, ← empty]
  have level : ¬ port.rxTail ≠ port.rxHead := fun some => idle (.inl some)
  rw [readBytes, drained]
  cases wanted with
  | zero => rfl
  | succ wanted => rw [takeBytes, if_neg level]

theorem consoleRead_idle (idle : ¬ port.Pending) (positive : 0 < wanted) (rounds : Nat) :
    consoleRead rounds port wanted = none := by
  induction rounds with
  | zero => rfl
  | succ rounds ih =>
    rw [consoleRead, if_neg (Nat.ne_of_gt positive), readBytes_idle idle]
    exact ih

end Reading

end SerialPort

def ttyEcho : BitVec 32 := 0x0008
def ttyIcanon : BitVec 32 := 0x0002
def ttyIsig : BitVec 32 := 0x0001

/-- Of the settings only `c_lflag` is read. -/
structure LineDiscipline where
  inputBuffer : List Byte
  canonicalQueue : List Byte
  cLflag : BitVec 32
  deriving DecidableEq

namespace LineDiscipline

def new : LineDiscipline := ⟨[], [], ttyEcho ||| ttyIcanon ||| ttyIsig⟩

/-- `push_char`, with the byte to echo. -/
def pushChar (ldisc : LineDiscipline) (c : Byte) : Option Byte × LineDiscipline :=
  let isCanon := ldisc.cLflag &&& ttyIcanon ≠ 0
  let isEcho := ldisc.cLflag &&& ttyEcho ≠ 0
  if isCanon then
    if c = 0x08 ∨ c = 0x7f then
      (if ldisc.inputBuffer ≠ [] ∧ isEcho then some 0x08 else none,
        { ldisc with inputBuffer := ldisc.inputBuffer.dropLast })
    else if c = 0x0d ∨ c = 0x0a then
      (if isEcho then some 0x0a else none,
        { ldisc with
          inputBuffer := []
          canonicalQueue := ldisc.canonicalQueue ++ (ldisc.inputBuffer ++ [0x0a]) })
    else
      (if isEcho then some c else none, { ldisc with inputBuffer := ldisc.inputBuffer ++ [c] })
  else
    (if isEcho then some c else none, { ldisc with canonicalQueue := ldisc.canonicalQueue ++ [c] })

/-- `TtyDevice::read` -/
def read (ldisc : LineDiscipline) (wanted : Nat) : Except Int (List Byte) × LineDiscipline :=
  if ldisc.canonicalQueue = [] then (.error eagain, ldisc)
  else
    let toRead := min wanted ldisc.canonicalQueue.length
    (.ok (ldisc.canonicalQueue.take toRead),
      { ldisc with canonicalQueue := ldisc.canonicalQueue.drop toRead })

/-- What happens at a terminal. -/
inductive Event where
  | typed (c : Byte)
  | read (wanted : Nat)

def step (ldisc : LineDiscipline) : Event → Option LineDiscipline
  | .typed c => some (ldisc.pushChar c).2
  | .read wanted => some (ldisc.read wanted).2

/-- No key that ends a line. -/
def InLine : Event → Prop
  | .typed c => c ≠ 0x0d ∧ c ≠ 0x0a
  | .read _ => True

/-- While a line is being typed, none of it can be read. -/
theorem queue_empty_in_line {ldisc : LineDiscipline}
    (run : Run step (fun _ event => InLine event) new ldisc) :
    ldisc.canonicalQueue = [] ∧ ldisc.cLflag = new.cLflag := by
  refine @Run.invariant _ _ _ _ _ _
    (fun state => state.canonicalQueue = [] ∧ state.cLflag = new.cLflag) run ⟨rfl, rfl⟩ ?_
  rintro before event after ⟨empty, flags⟩ inLine next
  cases event with
  | typed c =>
    obtain rfl := Option.some.inj next
    have canonical : before.cLflag &&& ttyIcanon ≠ 0 := by rw [flags]; decide
    have open_ : ¬ (c = 0x0d ∨ c = 0x0a) := not_or.mpr inLine
    by_cases erase : c = 0x08 ∨ c = 0x7f
    · simp only [pushChar, if_pos canonical, if_pos erase]
      exact ⟨empty, flags⟩
    · simp only [pushChar, if_pos canonical, if_neg erase, if_neg open_]
      exact ⟨empty, flags⟩
  | read wanted =>
    obtain rfl := Option.some.inj next
    rw [read, if_pos empty]
    exact ⟨empty, flags⟩

def Event.apply (past : LineDiscipline × List Byte) : Event → LineDiscipline × List Byte
  | .typed c => ((past.1.pushChar c).2, past.2)
  | .read wanted =>
    ((past.1.read wanted).2, past.2 ++ (past.1.read wanted).1.toOption.getD [])

def session (events : List Event) : LineDiscipline × List Byte :=
  events.foldl Event.apply (new, [])

def Event.key : Event → Option Byte
  | .typed c => some c
  | .read _ => none

/-- A line as its reader should see it: an erase key takes back the last byte that is left
of the line, if there is one. -/
def edited (line : List Byte) : List Byte :=
  line.foldl (fun kept c => if c = 0x08 ∨ c = 0x7f then kept.dropLast else kept ++ [c]) []

/-- The keys are lines, each with the key that ended it, and the line being typed. What was
read and what can be read are the edited lines, in order. -/
structure Cooks (past : LineDiscipline × List Byte) (keys : List Byte)
    (lines : List (List Byte × Byte)) (rest : List Byte) : Prop where
  keys : keys = (lines.flatMap fun line => line.1 ++ [line.2]) ++ rest
  ended : ∀ line ∈ lines, (line.2 = 0x0d ∨ line.2 = 0x0a) ∧ ∀ c ∈ line.1, c ≠ 0x0d ∧ c ≠ 0x0a
  typing : ∀ c ∈ rest, c ≠ 0x0d ∧ c ≠ 0x0a
  flags : past.1.cLflag = new.cLflag
  readable : past.2 ++ past.1.canonicalQueue = lines.flatMap fun line => edited line.1 ++ [0x0a]
  buffer : past.1.inputBuffer = edited rest

variable {past : LineDiscipline × List Byte} {keys rest : List Byte}
  {lines : List (List Byte × Byte)}

theorem Cooks.typed (cooks : Cooks past keys lines rest) (c : Byte) :
    ∃ lines rest, Cooks (Event.apply past (.typed c)) (keys ++ [c]) lines rest := by
  obtain ⟨rfl, ended, typing, flags, readable, buffer⟩ := cooks
  have canonical : past.1.cLflag &&& ttyIcanon ≠ 0 := by rw [flags]; decide
  by_cases ends : c = 0x0d ∨ c = 0x0a
  · have plain : ¬ (c = 0x08 ∨ c = 0x7f) := by rcases ends with rfl | rfl <;> decide
    rw [Event.apply, pushChar, if_pos canonical, if_neg plain, if_pos ends]
    exact ⟨lines ++ [(rest, c)], [], by simp,
      List.forall_mem_append.mpr ⟨ended, List.forall_mem_singleton.mpr ⟨ends, typing⟩⟩,
      List.forall_mem_nil _, flags, by simp [← List.append_assoc, readable, buffer], rfl⟩
  · have more : ∀ key ∈ rest ++ [c], key ≠ 0x0d ∧ key ≠ 0x0a :=
      List.forall_mem_append.mpr ⟨typing, List.forall_mem_singleton.mpr (not_or.mp ends)⟩
    refine ⟨lines, rest ++ [c], by simp, ended, more, ?_, ?_, ?_⟩ <;>
      by_cases erase : c = 0x08 ∨ c = 0x7f <;>
      simp_all [Event.apply, pushChar, edited]

theorem Cooks.read (cooks : Cooks past keys lines rest) (wanted : Nat) :
    Cooks (Event.apply past (.read wanted)) keys lines rest := by
  obtain ⟨keys, ended, typing, flags, readable, buffer⟩ := cooks
  rw [Event.apply, LineDiscipline.read]
  split <;>
    exact ⟨keys, ended, typing, flags, by simpa [Except.toOption] using readable, buffer⟩

/-- However keys and reads interleave, the bytes read are those of edited lines, in order. -/
theorem terminal_reads_edited_lines (events : List Event) :
    ∃ lines rest, Cooks (session events) (events.filterMap Event.key) lines rest := by
  induction events using List.reverseRecOn with
  | nil => exact ⟨[], [], rfl, by simp, by simp, rfl, rfl, rfl⟩
  | append_singleton events event ih =>
    obtain ⟨lines, rest, cooks⟩ := ih
    rw [session, List.foldl_append, List.filterMap_append]
    cases event with
    | typed c => exact cooks.typed c
    | read wanted =>
      have none : [Event.read wanted].filterMap Event.key = [] := rfl
      rw [none, List.append_nil]
      exact ⟨lines, rest, cooks.read wanted⟩

end LineDiscipline

end RustPosix.Vfs
