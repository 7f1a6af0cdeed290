import RustPosix.Vfs.Contents

/-! Several open file descriptions on one regular file, and the array of bytes with cursors
that they stand for. -/

namespace RustPosix.Vfs

open Library

/-- A file as an array: the bytes below `size` are there, whatever `byte` says of the others. -/
structure ByteFile where
  size : Nat
  byte : Nat → Byte

/-- Where a description reads and writes next, and whether it writes at the end. -/
structure Cursor where
  position : Nat
  append : Bool
  deriving DecidableEq

/-- What a call on a description answers. -/
inductive FileAnswer where
  | bytes (bytes : List Byte)
  | written (count : Nat)
  | position (position : Int)
  | refused (problem : Int)
  | truncated
  deriving DecidableEq

/-- A call on one of `n` descriptions; any process may truncate the file in between. -/
inductive FileOp (n : Nat) where
  | read (handle : Fin n) (len : Nat)
  | write (handle : Fin n) (buf : List Byte)
  | lseek (handle : Fin n) (offset : BitVec 64) (whence : BitVec 32)
  | truncate

namespace ByteFile

/-- The bytes from `lo` up to `hi`. -/
def between (file : ByteFile) (lo hi : Nat) : List Byte := (List.range' lo (hi - lo)).map file.byte

/-- The array with `buf` from `start` on, zeros in the gap before it, and all else as it was. -/
def store (file : ByteFile) (start : Nat) (buf : List Byte) : ByteFile where
  size := max file.size (start + buf.length)
  byte position :=
    if start ≤ position ∧ position < start + buf.length then buf.getD (position - start) 0
    else if position < file.size then file.byte position
    else 0

end ByteFile

/-- An array with `n` cursors. -/
structure CursorFile (n : Nat) where
  file : ByteFile
  cursors : Fin n → Cursor

namespace CursorFile

variable {n : Nat}

def moveTo (model : CursorFile n) (handle : Fin n) (position : Nat) : CursorFile n :=
  { model with cursors :=
      Function.update model.cursors handle { model.cursors handle with position } }

/-- Where a write through the description goes. -/
def writePosition (model : CursorFile n) (handle : Fin n) : Nat :=
  if (model.cursors handle).append then model.file.size else (model.cursors handle).position

/-- Where `lseek` is told to go. -/
def target (model : CursorFile n) (handle : Fin n) (offset : Int) (whence : BitVec 32) :
    Option Int :=
  if whence = seekSet then some offset
  else if whence = seekCur then some ((model.cursors handle).position + offset)
  else if whence = seekEnd then some (model.file.size + offset)
  else none

def perform (model : CursorFile n) : FileOp n → FileAnswer × CursorFile n
  | .read handle len =>
    let position := (model.cursors handle).position
    let bytes := model.file.between position (min (position + len) model.file.size)
    (.bytes bytes, model.moveTo handle (position + bytes.length))
  | .write handle buf =>
    let start := model.writePosition handle
    (.written buf.length,
      { model with file := model.file.store start buf }.moveTo handle (start + buf.length))
  | .lseek handle offset whence =>
    match model.target handle offset.toInt whence with
    | some position =>
      if position < 0 then (.refused einval, model)
      else (.position position, model.moveTo handle position.toNat)
    | none => (.refused einval, model)
  | .truncate => (.truncated, { model with file := { model.file with size := 0 } })

/-- No call comes to an offset, or to an offset and a length, of 2^62 or more. -/
def Bounded (model : CursorFile n) : FileOp n → Prop
  | .read handle len => (model.cursors handle).position + len < 2 ^ 62
  | .write handle buf => model.writePosition handle + buf.length < 2 ^ 62
  | .lseek handle offset whence =>
    ∀ position, model.target handle offset.toInt whence = some position → position < 2 ^ 62
  | .truncate => True

/-- The answers to a sequence of calls, and what it leads to. -/
def run (model : CursorFile n) : List (FileOp n) → List FileAnswer × CursorFile n
  | [] => ([], model)
  | op :: ops =>
    let (answer, next) := model.perform op
    let (answers, last) := next.run ops
    (answer :: answers, last)

def AllBounded (model : CursorFile n) : List (FileOp n) → Prop
  | [] => True
  | op :: ops => model.Bounded op ∧ (model.perform op).2.AllBounded ops

end CursorFile

/-- `n` handles on one inode of the filesystem. -/
structure OpenFiles (n : Nat) where
  fs : RamFs
  inode : InodeId
  handles : Fin n → FileHandle

namespace OpenFiles

variable {n : Nat}

def setHandle (files : OpenFiles n) (handle : Fin n) (moved : FileHandle) : OpenFiles n :=
  { files with handles := Function.update files.handles handle moved }

/-- A call on one of the handles; none if it panics. -/
def perform (files : OpenFiles n) : FileOp n → Option (FileAnswer × OpenFiles n)
  | .read handle len =>
    match (files.handles handle).read files.fs len (.error einval) with
    | (.ok bytes, moved) => some (.bytes bytes, files.setHandle handle moved)
    | (.error problem, moved) => some (.refused problem, files.setHandle handle moved)
  | .write handle buf =>
    match (files.handles handle).write files.fs buf (.error einval) with
    | (.ok count, moved, fs) => some (.written count, { files with fs }.setHandle handle moved)
    | (.error problem, moved, fs) => some (.refused problem, { files with fs }.setHandle handle moved)
  | .lseek handle offset whence =>
    ((files.handles handle).lseek files.fs offset.toInt whence).map fun
      | (.ok position, moved) => (.position position, files.setHandle handle moved)
      | (.error problem, moved) => (.refused problem, files.setHandle handle moved)
  | .truncate => some (.truncated, { files with fs := files.fs.truncate files.inode })

def run (files : OpenFiles n) : List (FileOp n) → Option (List FileAnswer × OpenFiles n)
  | [] => some ([], files)
  | op :: ops =>
    (files.perform op).bind fun (answer, next) =>
      (next.run ops).map fun (answers, last) => (answer :: answers, last)

end OpenFiles

/-- The bytes of the array are those of the vector. -/
structure ByteFile.Holds (file : ByteFile) (data : List Byte) : Prop where
  size : file.size = data.length
  byte : ∀ position < data.length, data[position]? = some (file.byte position)

namespace ByteFile

variable {file : ByteFile} {regular : RamFsFile} {start len position : Nat} {buf : List Byte}

theorem getElem?_between {lo hi : Nat} (inside : position < hi - lo) :
    (file.between lo hi)[position]? = some (file.byte (lo + position)) := by
  unfold between
  rw [List.getElem?_map, List.getElem?_range' inside, Option.map_some, Nat.one_mul]

theorem length_between {lo hi : Nat} : (file.between lo hi).length = hi - lo := by
  unfold between
  rw [List.length_map, List.length_range']

/-- `RamFsFile::read` returns the bytes between the offset and the end of the request or of the
file. -/
theorem Holds.read (holds : file.Holds regular.data) :
    regular.read start len = file.between start (min (start + len) file.size) := by
  apply List.ext_getElem?
  intro position
  unfold RamFsFile.read
  rw [holds.size]
  split
  · rename_i beyond
    rw [List.getElem?_nil, List.getElem?_eq_none]
    rw [length_between]
    omega
  · rename_i before
    by_cases inside : position < min (start + len) regular.data.length - start
    · rw [getElem?_between inside]
      unfold slice
      rw [List.getElem?_drop, List.getElem?_take_of_lt (by omega)]
      exact holds.byte (start + position) (by omega)
    · rw [List.getElem?_eq_none, List.getElem?_eq_none]
      · rw [length_between]
        omega
      · unfold slice
        rw [List.length_drop, List.length_take]
        omega

theorem length_grow : (regular.grow len).length = max regular.data.length len := by
  unfold RamFsFile.grow
  split
  · rw [List.length_append, List.length_replicate]
    omega
  · omega

theorem Holds.grow (holds : file.Holds regular.data)
    (inside : position < max regular.data.length len) :
    (regular.grow len)[position]? =
      some (if position < file.size then file.byte position else 0) := by
  unfold RamFsFile.grow
  rw [holds.size]
  split
  · rename_i longer
    split
    · rename_i old
      rw [List.getElem?_append_left old]
      exact holds.byte position old
    · rename_i new
      rw [List.getElem?_append_right (Nat.not_lt.mp new)]
      exact List.getElem?_replicate_of_lt (by omega)
  · rename_i long
    rw [if_pos (by omega)]
    exact holds.byte position (by omega)

/-- `RamFsFile::write` is a store into the array. -/
theorem Holds.write (holds : file.Holds regular.data) :
    (file.store start buf).Holds (regular.write start buf).data := by
  have fits : start + buf.length ≤ (regular.grow (start + buf.length)).length :=
    RamFsFile.le_length_grow
  have length : (regular.write start buf).data.length =
      max regular.data.length (start + buf.length) :=
    (length_splice fits).trans length_grow
  refine ⟨?_, ?_⟩
  · rw [length, ← holds.size]
    rfl
  · intro position inside
    rw [length] at inside
    change (splice _ start buf)[position]? = some (if _ then _ else _)
    rw [getElem?_splice fits]
    split
    · rename_i within
      rw [List.getD_eq_getElem?_getD, List.getElem?_eq_getElem (by omega), Option.getD_some]
    · exact holds.grow inside

/-- What is written to an empty file stands behind zeros. -/
theorem write_empty {attributes : Attributes} :
    (RamFsFile.write ⟨[], attributes⟩ start buf).data = List.replicate start 0 ++ buf := by
  have grown : RamFsFile.grow ⟨[], attributes⟩ (start + buf.length) =
      List.replicate (start + buf.length) 0 := by
    unfold RamFsFile.grow
    split
    · rfl
    · rename_i none
      rw [List.length_nil] at none
      rw [Nat.eq_zero_of_not_pos none]
      rfl
  unfold RamFsFile.write splice
  dsimp only
  rw [grown, List.take_replicate, List.drop_replicate, Nat.min_eq_left (Nat.le_add_right ..),
    Nat.sub_self, List.replicate_zero, List.append_nil]

end ByteFile

/-- The handles are on a regular file with the bytes of the array, and each stands where its
cursor does. -/
structure OpenFiles.Stands {n : Nat} (files : OpenFiles n) (model : CursorFile n)
    (regular : RamFsFile) : Prop where
  file : files.fs.fileAt files.inode = some regular
  bytes : model.file.Holds regular.data
  inode : ∀ handle, (files.handles handle).inode = files.inode
  cursor : ∀ handle, model.cursors handle =
    ⟨(files.handles handle).offset, (files.handles handle).flags &&& oAppend ≠ 0⟩

namespace OpenFiles

variable {n : Nat} {files : OpenFiles n} {model : CursorFile n} {regular : RamFsFile}

/-- A handle that only moves still stands where its cursor does. -/
theorem Stands.moveTo (stands : files.Stands model regular) (handle : Fin n) (position : Nat) :
    (files.setHandle handle { files.handles handle with offset := position }).Stands
      (model.moveTo handle position) regular := by
  refine ⟨stands.file, stands.bytes, fun other => ?_, fun other => ?_⟩
  · unfold setHandle
    by_cases same : other = handle
    · subst same
      simp only [Function.update_self, stands.inode other]
    · simp only [Function.update_of_ne same, stands.inode other]
  · unfold setHandle CursorFile.moveTo
    by_cases same : other = handle
    · subst same
      simp only [Function.update_self, stands.cursor other]
    · simp only [Function.update_of_ne same, stands.cursor other]

theorem Stands.read (stands : files.Stands model regular) (handle : Fin n) (len : Nat) :
    ∃ after, files.perform (.read handle len) =
        some ((model.perform (.read handle len)).1, after) ∧
      after.Stands (model.perform (.read handle len)).2 regular := by
  have there : files.fs.fileAt (files.handles handle).inode = some regular :=
    stands.inode handle ▸ stands.file
  have position : (model.cursors handle).position = (files.handles handle).offset := by
    rw [stands.cursor handle]
  refine ⟨_, ?_, stands.moveTo handle _⟩
  unfold OpenFiles.perform CursorFile.perform
  dsimp only
  rw [FileHandle.read_regular there]
  simp only [position, stands.bytes.read]

theorem Stands.write (stands : files.Stands model regular) (handle : Fin n) (buf : List Byte) :
    ∃ after, files.perform (.write handle buf) =
        some ((model.perform (.write handle buf)).1, after) ∧
      after.Stands (model.perform (.write handle buf)).2
        (regular.write (model.writePosition handle) buf) := by
  have there : files.fs.fileAt (files.handles handle).inode = some regular :=
    stands.inode handle ▸ stands.file
  have start : (files.handles handle).writeOffset files.fs = model.writePosition handle := by
    unfold FileHandle.writeOffset CursorFile.writePosition
    simp only [stands.cursor handle, FileHandle.size_regular there, stands.bytes.size,
      decide_eq_true_eq]
  have stored : { files with
      fs := files.fs.set files.inode (.file (regular.write (model.writePosition handle) buf)) }.Stands
      { model with file := model.file.store (model.writePosition handle) buf }
      (regular.write (model.writePosition handle) buf) :=
    ⟨RamFs.fileAt_set_self, stands.bytes.write, stands.inode, stands.cursor⟩
  refine ⟨_, ?_, stored.moveTo handle _⟩
  unfold OpenFiles.perform CursorFile.perform
  dsimp only
  rw [FileHandle.write_regular there]
  simp only [start, stands.inode handle]

/-- Below 2^62 no sum of `lseek` leaves the machine word. -/
theorem Stands.lseek_eq (stands : files.Stands model regular) {handle : Fin n} {offset : BitVec 64}
    {whence : BitVec 32} (bounded : model.Bounded (.lseek handle offset whence)) :
    (files.handles handle).lseek files.fs offset.toInt whence =
      match model.target handle offset.toInt whence with
      | none => some (.error einval, files.handles handle)
      | some position =>
        if position < 0 then some (.error einval, files.handles handle)
        else some (.ok position, { files.handles handle with offset := position.toNat }) := by
  have there : files.fs.fileAt (files.handles handle).inode = some regular :=
    stands.inode handle ▸ stands.file
  have position : (model.cursors handle).position = (files.handles handle).offset := by
    rw [stands.cursor handle]
  have low : -2 ^ 63 ≤ offset.toInt := by
    have bound := offset.le_toInt
    omega
  have sum (base : Nat) (fits : (base + offset.toInt : Int) < 2 ^ 62) :
      FileHandle.addSigned base offset.toInt = some (base + offset.toInt) :=
    if_pos ⟨by omega, by omega⟩
  have limit : ∀ position, model.target handle offset.toInt whence = some position →
      position < 2 ^ 62 := bounded
  unfold FileHandle.lseek
  unfold CursorFile.target at limit ⊢
  rw [FileHandle.size_regular there, ← position, ← stands.bytes.size]
  dsimp only
  split at limit
  · rename_i set
    rw [if_pos set, if_pos set]
  · rename_i notSet
    rw [if_neg notSet, if_neg notSet]
    split at limit
    · rename_i current
      rw [if_pos current, if_pos current, sum _ (limit _ rfl)]
      rfl
    · rename_i notCurrent
      rw [if_neg notCurrent, if_neg notCurrent]
      split at limit
      · rename_i atEnd
        rw [if_pos atEnd, if_pos atEnd, sum _ (limit _ rfl)]
        rfl
      · rename_i unknown
        rw [if_neg unknown, if_neg unknown]

theorem Stands.lseek (stands : files.Stands model regular) (handle : Fin n) (offset : BitVec 64)
    (whence : BitVec 32) (bounded : model.Bounded (.lseek handle offset whence)) :
    ∃ after, files.perform (.lseek handle offset whence) =
        some ((model.perform (.lseek handle offset whence)).1, after) ∧
      after.Stands (model.perform (.lseek handle offset whence)).2 regular := by
  have unmoved : files.setHandle handle (files.handles handle) = files := by
    unfold setHandle
    rw [Function.update_eq_self]
  unfold OpenFiles.perform CursorFile.perform
  dsimp only
  rw [stands.lseek_eq bounded]
  cases model.target handle offset.toInt whence with
  | none => exact ⟨_, rfl, unmoved.symm ▸ stands⟩
  | some position =>
    dsimp only
    split
    · exact ⟨_, rfl, unmoved.symm ▸ stands⟩
    · exact ⟨_, rfl, stands.moveTo handle _⟩

theorem Stands.truncate (stands : files.Stands model regular) :
    { files with fs := files.fs.truncate files.inode }.Stands
      (model.perform .truncate).2 { regular with data := [] } := by
  refine ⟨?_, ⟨rfl, fun _ inside => nomatch inside⟩, stands.inode, stands.cursor⟩
  rw [RamFs.fileAt_truncate stands.file, if_pos rfl]

/-- Every call answers as it does on the array, and keeps the handles where the cursors are. -/
theorem Stands.perform (stands : files.Stands model regular) (op : FileOp n)
    (bounded : model.Bounded op) :
    ∃ after changed, files.perform op = some ((model.perform op).1, after) ∧
      after.Stands (model.perform op).2 changed := by
  cases op with
  | read handle len =>
    obtain ⟨after, done, next⟩ := stands.read handle len
    exact ⟨after, regular, done, next⟩
  | write handle buf =>
    obtain ⟨after, done, next⟩ := stands.write handle buf
    exact ⟨after, _, done, next⟩
  | lseek handle offset whence =>
    obtain ⟨after, done, next⟩ := stands.lseek handle offset whence bounded
    exact ⟨after, regular, done, next⟩
  | truncate => exact ⟨_, _, rfl, stands.truncate⟩

theorem run_cons {op : FileOp n} {ops : List (FileOp n)} {answer : FileAnswer}
    {answers : List FileAnswer} {next last : OpenFiles n}
    (first : files.perform op = some (answer, next)) (rest : next.run ops = some (answers, last)) :
    files.run (op :: ops) = some (answer :: answers, last) := by
  unfold run
  rw [first, Option.bind_some]
  dsimp only
  rw [rest, Option.map_some]

theorem Stands.run (stands : files.Stands model regular) (ops : List (FileOp n))
    (bounded : model.AllBounded ops) :
    ∃ after changed, files.run ops = some ((model.run ops).1, after) ∧
      after.Stands (model.run ops).2 changed := by
  induction ops generalizing files model regular with
  | nil => exact ⟨files, regular, rfl, stands⟩
  | cons op ops ih =>
    obtain ⟨next, _, done, stands⟩ := stands.perform op bounded.1
    obtain ⟨after, changed, rest, stands⟩ := ih stands bounded.2
    exact ⟨after, changed, run_cons done rest, stands⟩

/-- After a truncation, a write past the end leaves zeros before what it wrote. -/
theorem Stands.truncate_write (stands : files.Stands model regular) (handle : Fin n)
    (buf : List Byte) :
    ∃ after changed, files.run [.truncate, .write handle buf] =
        some ([.truncated, .written buf.length], after) ∧
      after.fs.fileAt after.inode = some changed ∧
      changed.data = List.replicate ((model.perform .truncate).2.writePosition handle) 0 ++ buf := by
  obtain ⟨after, done, next⟩ := stands.truncate.write handle buf
  exact ⟨after, _, run_cons rfl (run_cons done rfl), next.file, ByteFile.write_empty⟩

/-- Open file descriptions refine the array of bytes with cursors: every sequence of calls gets
the answers that it gets on the array, and the array has at every time the bytes of the file. -/
theorem open_files_refine_array (stands : files.Stands model regular) (ops : List (FileOp n))
    (bounded : model.AllBounded ops) :
    ∃ after changed, files.run ops = some ((model.run ops).1, after) ∧
      after.Stands (model.run ops).2 changed ∧
      ∀ handle buf, ∃ last exposed, after.run [.truncate, .write handle buf] =
          some ([.truncated, .written buf.length], last) ∧
        last.fs.fileAt last.inode = some exposed ∧ exposed.data =
          List.replicate (((model.run ops).2.perform .truncate).2.writePosition handle) 0 ++ buf := by
  obtain ⟨after, changed, done, stands⟩ := stands.run ops bounded
  exact ⟨after, changed, done, stands, stands.truncate_write⟩

/-- A file of three bytes, open for appending and otherwise. -/
def twoHandles : OpenFiles 2 where
  fs := ⟨fun id => if id = 0 then some (.file ⟨[1, 2, 3], ⟨0o644, 0, 0⟩⟩) else none, 1⟩
  inode := 0
  handles handle := ⟨0, 0, if handle = 0 then oRdwr else oRdwr ||| oAppend⟩

def twoCursors : CursorFile 2 where
  file := ⟨3, fun position => BitVec.ofNat 8 (position + 1)⟩
  cursors handle := ⟨0, handle ≠ 0⟩

theorem open_files_refine_array_two : ∃ after changed,
    twoHandles.run [.write 1 [9], .lseek 0 2 seekEnd, .truncate, .write 0 [7], .read 1 9] =
      some ([.written 1, .position 6, .truncated, .written 1, .bytes [0, 0, 7]], after) ∧
    after.Stands (twoCursors.run
      [.write 1 [9], .lseek 0 2 seekEnd, .truncate, .write 0 [7], .read 1 9]).2 changed := by
  have stands : twoHandles.Stands twoCursors ⟨[1, 2, 3], ⟨0o644, 0, 0⟩⟩ :=
    ⟨rfl, ⟨rfl, by decide⟩, by decide, by decide⟩
  have six : (twoCursors.perform (.write 1 [9])).2.target 0 (2 : BitVec 64).toInt seekEnd =
      some 6 := by
    decide
  have sought : (twoCursors.perform (.write 1 [9])).2.Bounded (.lseek 0 2 seekEnd) := by
    intro position found
    cases six.symm.trans found
    decide
  obtain ⟨after, changed, done, stands, _⟩ := open_files_refine_array stands
    [.write 1 [9], .lseek 0 2 seekEnd, .truncate, .write 0 [7], .read 1 9]
    ⟨Nat.lt_of_sub_pos (by decide), sought, trivial, Nat.lt_of_sub_pos (by decide),
      Nat.lt_of_sub_pos (by decide), trivial⟩
  exact ⟨after, changed, done, stands⟩

end OpenFiles

end RustPosix.Vfs
