import RustPosix.Posix.FileCalls
import RustPosix.Vfs.CheckedOffset

/-! Sequences of `sys_lseek`, `sys_read` and `sys_write` on regular files, with every sum
checked. -/

namespace RustPosix.Posix

open Library Vfs

/-- The files, and the open ones by their position. -/
structure FileTable where
  fs : RamFs
  handles : List FileHandle

/-- A call on an open file. Others open and truncate files in between; `heap` is what the
allocator can give when the call is made. -/
inductive OffsetCall where
  | open (inode : InodeId) (flags : BitVec 32)
  | truncate (inode : InodeId)
  | read (handle : Nat) (count : Nat)
  | write (handle : Nat) (buf : List Byte) (heap : Nat → Bool)
  | lseek (handle : Nat) (offset : BitVec 64) (whence : BitVec 32)

namespace FileTable

def setHandle (table : FileTable) (index : Nat) (handle : FileHandle) : FileTable :=
  { table with handles := table.handles.set index handle }

def sysRead (table : FileTable) (index : Nat) (handle : FileHandle) (count : Nat) :
    Except Halt (Answer × FileTable) := do
  let (result, moved) ← handle.readChecked table.fs (min count maxRwCount) (.error einval)
  match result with
  | .error problem => pure (⟨-problem, []⟩, table.setHandle index moved)
  | .ok bytes => pure (⟨bytes.length, bytes⟩, table.setHandle index moved)

def sysWrite (table : FileTable) (index : Nat) (handle : FileHandle) (buf : List Byte)
    (heap : Nat → Bool) : Except Halt (Answer × FileTable) := do
  let (result, moved, fs) ←
    handle.writeChecked heap table.fs (buf.take maxRwCount) (.error einval)
  match result with
  | .error problem => pure (⟨-problem, []⟩, { table with fs }.setHandle index moved)
  | .ok count => pure (⟨count, []⟩, { table with fs }.setHandle index moved)

def sysLseek (table : FileTable) (index : Nat) (handle : FileHandle) (offset : BitVec 64)
    (whence : BitVec 32) : Except Halt (Answer × FileTable) := do
  let (result, moved) ← handle.lseekChecked table.fs offset.toInt whence
  match result with
  | .error problem => pure (⟨-problem, []⟩, table.setHandle index moved)
  | .ok newOffset => pure (⟨newOffset, []⟩, table.setHandle index moved)

/-- A call on the handle at a position. -/
def withHandle (table : FileTable) (index : Nat)
    (call : FileHandle → Except Halt (Answer × FileTable)) : Except Halt (Answer × FileTable) :=
  match table.handles[index]? with
  | none => pure (⟨-ebadf, []⟩, table)
  | some handle => call handle

def perform (table : FileTable) : OffsetCall → Except Halt (Answer × FileTable)
  | .open inode flags =>
    match table.fs.fileAt inode with
    | none => pure (⟨-enoent, []⟩, table)
    | some _ =>
      pure (⟨table.handles.length, []⟩, { table with handles := table.handles ++ [⟨inode, 0, flags⟩] })
  | .truncate inode => pure (⟨0, []⟩, { table with fs := table.fs.truncate inode })
  | .read index count => table.withHandle index fun handle => table.sysRead index handle count
  | .write index buf heap => table.withHandle index fun handle => table.sysWrite index handle buf heap
  | .lseek index offset whence =>
    table.withHandle index fun handle => table.sysLseek index handle offset whence

/-- A halt ends the run. -/
def step (table : FileTable) (call : OffsetCall) : Option FileTable :=
  match table.perform call with
  | .ok (_, after) => some after
  | .error _ => none

/-- Files are vectors, and every handle is a new one on a file. -/
structure Started (table : FileTable) : Prop where
  vectors : ∀ inode file, table.fs.fileAt inode = some file → file.data.length < 2 ^ 63
  fresh : ∀ handle ∈ table.handles, handle.offset = 0 ∧ (table.fs.fileAt handle.inode).isSome

/-- The positions fit in an `i64`. -/
structure Bounded (table : FileTable) : Prop where
  vectors : ∀ inode file, table.fs.fileAt inode = some file → file.data.length < 2 ^ 63
  positions : ∀ handle ∈ table.handles,
    handle.offset < 2 ^ 63 ∧ (table.fs.fileAt handle.inode).isSome

/-- No sum of the call overflows, and `lseek` refuses what is no position. -/
structure Exact (table : FileTable) (call : OffsetCall) : Prop where
  inWidth : table.perform call ≠ .error .overflow
  refused : ∀ index offset whence handle position, call = .lseek index offset whence →
    table.handles[index]? = some handle →
    handle.target table.fs offset.toInt whence = some position →
    position < 0 ∨ 2 ^ 63 ≤ position → table.perform call = .ok (⟨-einval, []⟩, table)

/-- The position asked for is at most `i64::MAX`. -/
def InRange (table : FileTable) : OffsetCall → Prop
  | .lseek index offset whence => ∀ handle position, table.handles[index]? = some handle →
    handle.target table.fs offset.toInt whence = some position → position < 2 ^ 63
  | _ => True

section Steps

variable {table : FileTable} {index : Nat} {handle : FileHandle} {fs : RamFs}

theorem Started.bounded (started : table.Started) : table.Bounded where
  vectors := started.vectors
  positions handle member := by
    obtain ⟨zero, regular⟩ := started.fresh handle member
    exact ⟨by omega, regular⟩

/-- A file stays a file, whatever is stored in it. -/
theorem fileAt_set_isSome {inode id : InodeId} {file : RamFsFile}
    (regular : (fs.fileAt id).isSome) : ((fs.set inode (.file file)).fileAt id).isSome := by
  by_cases same : id = inode
  · rw [same, RamFs.fileAt_set_self]
    rfl
  · rw [RamFs.fileAt_set_of_ne same]
    exact regular

theorem Bounded.setFile (bounded : table.Bounded) {inode : InodeId} {file : RamFsFile}
    (short : file.data.length < 2 ^ 63) :
    ({ table with fs := table.fs.set inode (.file file) } : FileTable).Bounded where
  vectors id other found := by
    by_cases same : id = inode
    · rw [same, RamFs.fileAt_set_self, Option.some_inj] at found
      exact found ▸ short
    · rw [RamFs.fileAt_set_of_ne same] at found
      exact bounded.vectors id other found
  positions handle member :=
    ⟨(bounded.positions handle member).1, fileAt_set_isSome (bounded.positions handle member).2⟩

theorem Bounded.moveTo (bounded : table.Bounded) (found : table.handles[index]? = some handle)
    {offset : Nat} (small : offset < 2 ^ 63) :
    (table.setHandle index { handle with offset }).Bounded where
  vectors := bounded.vectors
  positions other member := by
    rcases List.mem_or_eq_of_mem_set member with kept | rfl
    · exact bounded.positions other kept
    · exact ⟨small, (bounded.positions handle (List.mem_of_getElem? found)).2⟩

/-- The file of a handle. -/
theorem Bounded.regular (bounded : table.Bounded) (found : table.handles[index]? = some handle) :
    ∃ file, table.fs.fileAt handle.inode = some file ∧ file.data.length < 2 ^ 63 ∧
      handle.offset < 2 ^ 63 := by
  obtain ⟨small, regular⟩ := bounded.positions handle (List.mem_of_getElem? found)
  obtain ⟨file, there⟩ := Option.isSome_iff_exists.mp regular
  exact ⟨file, there, bounded.vectors _ file there, small⟩

/-- A read returns. -/
theorem Bounded.sysRead (bounded : table.Bounded) (found : table.handles[index]? = some handle)
    (count : Nat) : ∃ answer after, table.sysRead index handle count = .ok (answer, after) ∧
      after.Bounded := by
  obtain ⟨file, there, vector, small⟩ := bounded.regular found
  obtain ⟨returned, moved⟩ := @FileHandle.readChecked_spec table.fs handle file
    (min count maxRwCount) (.error einval) there vector small
  rw [FileHandle.read_regular there] at returned moved
  let bytes := file.read handle.offset (min count maxRwCount)
  refine ⟨⟨bytes.length, bytes⟩, table.setHandle index { handle with offset := handle.offset + bytes.length },
    ?_, bounded.moveTo found moved⟩
  rw [FileTable.sysRead, returned]
  rfl

/-- A write returns, or the file cannot grow. -/
theorem Bounded.sysWrite (bounded : table.Bounded) (found : table.handles[index]? = some handle)
    (buf : List Byte) (heap : Nat → Bool) :
    table.sysWrite index handle buf heap = .error .memory ∨
      ∃ answer after, table.sysWrite index handle buf heap = .ok (answer, after) ∧
        after.Bounded := by
  obtain ⟨file, there, vector, small⟩ := bounded.regular found
  have short : (buf.take maxRwCount).length ≤ 2 ^ 20 := by
    rw [List.length_take]
    exact Nat.min_le_left ..
  rcases @FileHandle.writeChecked_spec heap table.fs handle file _ (.error einval) there vector small
    short with stopped | ⟨returned, room⟩
  · left
    rw [FileTable.sysWrite, stopped]
    rfl
  · right
    rw [FileHandle.write_regular there] at returned
    have grown : (file.write (handle.writeOffset table.fs) (buf.take maxRwCount)).data.length <
        2 ^ 63 := by
      rw [RamFsFile.length_write]
      exact Nat.max_lt.mpr ⟨vector, room⟩
    refine ⟨⟨(buf.take maxRwCount).length, []⟩, _, ?_,
      (@setFile _ bounded handle.inode _ grown).moveTo found room⟩
    rw [FileTable.sysWrite, returned]
    rfl

/-- What `sys_lseek` does, by the exact position. -/
theorem Bounded.sysLseek (bounded : table.Bounded) (found : table.handles[index]? = some handle)
    (offset : BitVec 64) (whence : BitVec 32) :
    table.sysLseek index handle offset whence =
      match handle.target table.fs offset.toInt whence with
      | none => .ok (⟨-einval, []⟩, table)
      | some position =>
        if position < 2 ^ 63 then
          if position < 0 then .ok (⟨-einval, []⟩, table)
          else .ok (⟨position, []⟩,
            table.setHandle index { handle with offset := position.toNat })
        else .error .overflow := by
  obtain ⟨file, there, vector, small⟩ := bounded.regular found
  have same : table.setHandle index handle = table := by
    obtain ⟨inside, read⟩ := List.getElem?_eq_some_iff.mp found
    rw [FileTable.setHandle, ← read, List.set_getElem_self inside]
  rw [FileTable.sysLseek, FileHandle.lseekChecked_spec there vector small]
  cases handle.target table.fs offset.toInt whence with
  | none => exact congrArg (fun kept => Except.ok (_, kept)) same
  | some position =>
    by_cases high : position < 2 ^ 63
    · simp only [if_pos high]
      by_cases negative : position < 0
      · simp only [if_pos negative]
        exact congrArg (fun kept => Except.ok (_, kept)) same
      · simp only [if_neg negative]
        rfl
    · simp only [if_neg high]
      rfl

theorem withHandle_some {call : FileHandle → Except Halt (Answer × FileTable)}
    (found : table.handles[index]? = some handle) : table.withHandle index call = call handle := by
  rw [withHandle, found]

theorem withHandle_none {call : FileHandle → Except Halt (Answer × FileTable)}
    (missing : table.handles[index]? = none) :
    table.withHandle index call = .ok (⟨-ebadf, []⟩, table) := by
  rw [withHandle, missing]
  rfl

theorem Bounded.truncate (bounded : table.Bounded) (inode : InodeId) :
    ({ table with fs := table.fs.truncate inode } : FileTable).Bounded := by
  unfold RamFs.truncate
  cases table.fs.fileAt inode with
  | none => exact bounded
  | some file => exact bounded.setFile (Nat.two_pow_pos 63)

/-- A call returns, or memory runs out, or it is a seek behind `i64::MAX`. -/
theorem Bounded.perform (bounded : table.Bounded) (call : OffsetCall) :
    table.perform call = .error .memory ∨
      (∃ answer after, table.perform call = .ok (answer, after) ∧ after.Bounded) ∨
      table.perform call = .error .overflow ∧ ¬ table.InRange call := by
  cases call with
  | «open» inode flags =>
    refine .inr (.inl ?_)
    rw [FileTable.perform]
    cases there : table.fs.fileAt inode with
    | none => exact ⟨_, _, rfl, bounded⟩
    | some file =>
      refine ⟨_, _, rfl, bounded.vectors, fun handle member => ?_⟩
      rcases List.mem_append.mp member with old | new
      · exact bounded.positions handle old
      · rw [List.mem_singleton.mp new]
        exact ⟨Nat.two_pow_pos 63, by rw [there]; rfl⟩
  | truncate inode => exact .inr (.inl ⟨_, _, rfl, bounded.truncate inode⟩)
  | read index count =>
    rw [FileTable.perform]
    cases found : table.handles[index]? with
    | none => exact .inr (.inl ⟨_, _, withHandle_none found, bounded⟩)
    | some handle =>
      rw [withHandle_some found]
      exact .inr (.inl (bounded.sysRead found count))
  | write index buf heap =>
    rw [FileTable.perform]
    cases found : table.handles[index]? with
    | none => exact .inr (.inl ⟨_, _, withHandle_none found, bounded⟩)
    | some handle =>
      rw [withHandle_some found]
      exact (bounded.sysWrite found buf heap).imp_right .inl
  | lseek index offset whence =>
    rw [FileTable.perform]
    cases found : table.handles[index]? with
    | none => exact .inr (.inl ⟨_, _, withHandle_none found, bounded⟩)
    | some handle =>
      rw [withHandle_some found, bounded.sysLseek found]
      cases goal : handle.target table.fs offset.toInt whence with
      | none => exact .inr (.inl ⟨_, _, rfl, bounded⟩)
      | some position =>
        by_cases high : position < 2 ^ 63
        · simp only [if_pos high]
          by_cases negative : position < 0
          · exact .inr (.inl ⟨_, _, if_pos negative, bounded⟩)
          · exact .inr (.inl ⟨_, _, if_neg negative, bounded.moveTo found (by omega)⟩)
        · exact .inr (.inr ⟨if_neg high, fun inRange => high (inRange handle position found goal)⟩)

theorem Bounded.step {after : FileTable} {call : OffsetCall} (bounded : table.Bounded)
    (next : table.step call = some after) : after.Bounded := by
  unfold FileTable.step at next
  rcases bounded.perform call with halted | ⟨answer, reached, returned, still⟩ | ⟨halted, _⟩
  · rw [halted] at next
    exact nomatch next
  · rw [returned] at next
    exact Option.some.inj next ▸ still
  · rw [halted] at next
    exact nomatch next

end Steps

/-- Of all calls that can come, only a seek behind `i64::MAX` overflows. -/
theorem offsets_exact_iff {start table : FileTable} (started : start.Started)
    (run : Run FileTable.step (fun _ _ => True) start table) (call : OffsetCall) :
    table.Exact call ↔ table.InRange call := by
  have bounded : table.Bounded :=
    run.invariant started.bounded fun _ _ _ bounded _ next => bounded.step next
  constructor
  · intro exact
    cases call with
    | lseek index offset whence =>
      intro handle position found goal
      by_contra high
      refine exact.inWidth ?_
      rw [FileTable.perform, withHandle_some found, bounded.sysLseek found, goal]
      exact if_neg high
    | _ => trivial
  · intro inRange
    refine ⟨fun overflow => ?_, ?_⟩
    · rcases bounded.perform call with halted | ⟨answer, after, returned, _⟩ | ⟨_, behind⟩
      · exact nomatch halted.symm.trans overflow
      · exact nomatch returned.symm.trans overflow
      · exact behind inRange
    · rintro index offset whence handle position rfl found goal outside
      have low : position < 0 := by
        have high := inRange handle position found goal
        omega
      rw [FileTable.perform, withHandle_some found, bounded.sysLseek found, goal]
      simp only [if_pos low, if_pos (show position < 2 ^ 63 by omega)]

/-- One empty file, not open yet. -/
def oneFile : FileTable where
  fs := ⟨fun inode => if inode = 0 then some (.file ⟨[], ⟨0, 0, 0⟩⟩) else none, 1⟩
  handles := []

private theorem oneFile_started : oneFile.Started where
  vectors inode file found := by
    rw [RamFs.fileAt_eq_some] at found
    change (if inode = 0 then _ else _) = _ at found
    by_cases zero : inode = 0
    · rw [if_pos zero] at found
      cases found
      decide
    · rw [if_neg zero] at found
      exact nomatch found
  fresh handle member := nomatch member

/-- The file is open, and its position is `i64::MAX`. -/
def farTable : FileTable := { oneFile with handles := [⟨0, 2 ^ 63 - 1, 2⟩] }

private theorem farTable_reached : Run FileTable.step (fun _ _ => True) oneFile farTable :=
  (Run.start.step (.open 0 2) trivial rfl).step (.lseek 0 0x7fffffffffffffff seekSet) trivial rfl

theorem offsets_exact_far :
    farTable.Exact (.lseek 0 (-1) seekCur) := by
  refine (offsets_exact_iff oneFile_started farTable_reached (.lseek 0 (-1) seekCur)).mpr ?_
  rintro handle position ⟨⟩ ⟨⟩
  decide

/-- One byte further is an overflow instead of a refusal. -/
theorem lseek_overflows :
    oneFile.Started ∧ Run FileTable.step (fun _ _ => True) oneFile farTable ∧
      farTable.perform (.lseek 0 1 seekCur) = .error .overflow :=
  ⟨oneFile_started, farTable_reached, rfl⟩

end FileTable

end RustPosix.Posix
