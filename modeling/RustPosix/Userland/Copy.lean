import RustPosix.Posix.Moving

/-! Copying one file, as `cp` of the coreutils and of the shell do it. An open descriptor of the
program is the handle that it stands for. -/

namespace RustPosix.Userland

open Library Vfs Posix

/-- The process that a program runs in. -/
structure Caller where
  root : InodeId
  creds : VfsCreds
  cwd : Name

/-- What special inodes answer: the results of the reads of the source, which ends after them, and
of a write. -/
structure Devices where
  source : List (Except Int (List Byte))
  sink : List Byte → Except Int Nat

/-- `open` -/
def Caller.open (caller : Caller) (path : Name) (flags mode : BitVec 32) (fs : RamFs) :
    Except Int FileHandle × RamFs :=
  match openInode fs caller.root caller.creds caller.cwd path flags mode with
  | (.ok inode, fs) => (.ok ⟨inode, 0, flags⟩, fs)
  | (.error problem, fs) => (.error problem, fs)

/-- The loop that copies: up to 1024 bytes at a time, until a read returns nothing or an error.
The results of the writes are ignored. -/
def copyLoop (sink : List Byte → Except Int Nat) : Nat → List (Except Int (List Byte)) →
    FileHandle → FileHandle → RamFs → Option RamFs
  | 0, _, _, _, _ => none
  | fuel + 1, source, input, output, fs =>
    match input.read fs 1024 (source.headD (.ok [])) with
    | (.error _, _) => some fs
    | (.ok [], _) => some fs
    | (.ok (byte :: bytes), input) =>
      let (_, output, fs) := output.write fs (byte :: bytes) (sink (byte :: bytes))
      copyLoop sink fuel source.tail input output fs

/-- `copy_file` of the shell, and `cmd_cp` up to its result: 0, or the error of an `open`. -/
def copyFile (caller : Caller) (devices : Devices) (fuel : Nat) (src dest : Name) (fs : RamFs) :
    Option (Int × RamFs) :=
  match caller.open src oRdonly 0 fs with
  | (.error problem, fs) => some (-problem, fs)
  | (.ok input, fs) =>
    match caller.open dest createFlags 0o644 fs with
    | (.error problem, fs) => some (-problem, fs)
    | (.ok output, fs) =>
      (copyLoop devices.sink fuel devices.source input output fs).map fun fs => (0, fs)

section Loop

variable {sink : List Byte → Except Int Nat} {source : List (Except Int (List Byte))}
  {input output : FileHandle} {fs after : RamFs} {fuel : Nat}

/-- Only a regular file takes what is written to it. -/
private theorem write_of_not_file {buf : List Byte} {device : Except Int Nat}
    (notFile : fs.fileAt output.inode = none) : ∃ result moved,
      output.write fs buf device = (result, moved, fs) ∧ moved.inode = output.inode := by
  have inode : (output.positioned fs).inode = output.inode := by
    unfold FileHandle.positioned
    split <;> rfl
  unfold FileHandle.write
  dsimp only
  rw [inode]
  split
  · rename_i regular there
    rw [RamFs.fileAt_eq_some.mpr there] at notFile
    cases notFile
  · exact ⟨_, _, rfl, inode⟩
  · split
    · exact ⟨_, _, rfl, inode⟩
    · exact ⟨_, _, rfl, rfl⟩

/-- Where the writes go nowhere, a round of the loop only moves the handles. -/
private theorem copyLoop_succ (notFile : fs.fileAt output.inode = none) :
    (∀ fuel, copyLoop sink (fuel + 1) source input output fs = some fs) ∨
      ∃ bytes output', bytes ≠ [] ∧ fs.fileAt output'.inode = none ∧
        (input.read fs 1024 (source.headD (.ok []))).1 = .ok bytes ∧
        ∀ fuel, copyLoop sink (fuel + 1) source input output fs =
          copyLoop sink fuel source.tail (input.read fs 1024 (source.headD (.ok []))).2 output' fs := by
  cases done : input.read fs 1024 (source.headD (.ok [])) with
  | mk result moved =>
    cases result with
    | error problem => exact Or.inl fun fuel => by rw [copyLoop, done]
    | ok bytes =>
      cases bytes with
      | nil => exact Or.inl fun fuel => by rw [copyLoop, done]
      | cons byte bytes =>
        obtain ⟨result, output', written, inode⟩ :=
          @write_of_not_file output fs (byte :: bytes) (sink (byte :: bytes)) notFile
        refine Or.inr ⟨byte :: bytes, output', List.cons_ne_nil _ _, inode ▸ notFile, rfl, ?_⟩
        intro fuel
        rw [copyLoop, done]
        dsimp only
        rw [written]

/-- A regular file is read to its end, whatever devices answer. -/
theorem copyLoop_returns_file {regular : RamFsFile}
    (there : fs.fileAt input.inode = some regular) (notFile : fs.fileAt output.inode = none)
    (enough : regular.data.length - input.offset < fuel) :
    copyLoop sink fuel source input output fs = some fs := by
  induction fuel generalizing source input output with
  | zero => exact (Nat.not_lt_zero _ enough).elim
  | succ fuel ih =>
    rcases @copyLoop_succ sink source input output fs notFile with
      done | ⟨bytes, output', nonempty, next, gave, more⟩
    · exact done fuel
    rw [FileHandle.read_regular there] at gave more
    cases gave
    have inside : input.offset < regular.data.length := by
      by_contra beyond
      apply nonempty
      unfold RamFsFile.read
      rw [if_pos (Nat.not_lt.mp beyond)]
    have moved := List.length_pos_iff.mpr nonempty
    let input' := { input with offset := input.offset + (regular.read input.offset 1024).length }
    have less : regular.data.length - input'.offset < fuel := by
      simp only [input']
      omega
    exact (more fuel).trans (@ih _ input' output' there next less)

/-- What is no regular file answers as often as the device has answers. -/
private theorem copyLoop_returns_device (notRegular : fs.fileAt input.inode = none)
    (notFile : fs.fileAt output.inode = none) :
    ∃ fuel, copyLoop sink fuel source input output fs = some fs := by
  induction source generalizing input output with
  | nil =>
    rcases @copyLoop_succ sink [] input output fs notFile with
      done | ⟨bytes, output', nonempty, next, gave, more⟩
    · exact ⟨1, done 0⟩
    · refine (nonempty ?_).elim
      unfold FileHandle.read RamFs.readInode at gave
      split at gave
      · cases gave
      · rename_i read answer
        cases gave
        split at answer
        · rename_i regular there
          rw [RamFs.fileAt_eq_some.mpr there] at notRegular
          cases notRegular
        · cases answer
        · cases answer
          rfl
  | cons answer source ih =>
    rcases @copyLoop_succ sink (answer :: source) input output fs notFile with
      done | ⟨bytes, output', nonempty, next, gave, more⟩
    · exact ⟨1, done 0⟩
    · have same : (input.read fs 1024 answer).2.inode = input.inode :=
        (FileHandle.read_handle rfl).1
      obtain ⟨fuel, rest⟩ := ih (same ▸ notRegular) next
      exact ⟨fuel + 1, (more fuel).trans rest⟩

/-- Where the writes go nowhere, the loop ends. -/
theorem copyLoop_returns (notFile : fs.fileAt output.inode = none) :
    ∃ fuel, copyLoop sink fuel source input output fs = some fs := by
  cases there : fs.fileAt input.inode with
  | none => exact copyLoop_returns_device there notFile
  | some regular => exact ⟨_, copyLoop_returns_file there notFile (Nat.lt_succ_self _)⟩

end Loop

section Files

variable {caller : Caller} {devices : Devices} {fuel : Nat} {src dest : Name} {fs after : RamFs}
  {source : InodeId} {result : Int}

/-- What copying a file has done: nothing, or it has opened both files and run the loop. -/
theorem copyFile_ran (ran : copyFile caller devices fuel src dest fs = some (result, after)) :
    (result < 0 ∧ after = fs) ∨ (result = 0 ∧ ∃ source output opened,
      descend fs.lookup caller.root (normalComponents caller.cwd src) = .ok source ∧
      Permits fs caller.creds source oRdonly ∧
      OpensForWriting fs caller.root caller.creds (normalComponents caller.cwd dest)
        (caller.creds.attributes 0o644) output opened ∧
      copyLoop devices.sink fuel devices.source ⟨source, 0, oRdonly⟩ ⟨output, 0, createFlags⟩
        opened = some after) := by
  unfold copyFile Caller.open at ran
  rw [openInode_read readsOnly_oRdonly] at ran
  cases input : (openInode fs caller.root caller.creds caller.cwd src oRdonly 0).1 with
  | error problem =>
    rw [input] at ran
    cases ran
    have positive := openInode_error (Prod.ext input rfl)
    exact Or.inl ⟨by omega, rfl⟩
  | ok source =>
    obtain ⟨reached, permits⟩ := openInode_read_reached readsOnly_oRdonly (Prod.ext input rfl)
    rw [input] at ran
    dsimp only at ran
    cases output : openInode fs caller.root caller.creds caller.cwd dest createFlags 0o644 with
    | mk opening opened =>
      rw [output] at ran
      cases opening with
      | error problem =>
        cases ran
        have positive := openInode_error output
        exact Or.inl ⟨by omega, openInode_of_error output⟩
      | ok target =>
        obtain ⟨copied, loop, same⟩ := Option.map_eq_some_iff.mp ran
        cases same
        exact Or.inr ⟨rfl, source, target, opened, reached, permits,
          opensForWriting_of_ok output, loop⟩

/-- Files that can be opened are copied by the loop. -/
theorem copyFile_of_opens
    (reached : descend fs.lookup caller.root (normalComponents caller.cwd src) = .ok source)
    (permits : Permits fs caller.creds source oRdonly)
    (writable : Writable fs caller.root caller.creds (normalComponents caller.cwd dest)) :
    ∃ output opened, OpensForWriting fs caller.root caller.creds (normalComponents caller.cwd dest)
        (caller.creds.attributes 0o644) output opened ∧
      ∀ fuel, copyFile caller devices fuel src dest fs =
        (copyLoop devices.sink fuel devices.source ⟨source, 0, oRdonly⟩ ⟨output, 0, createFlags⟩
          opened).map fun fs => (0, fs) := by
  obtain ⟨output, opened, opening⟩ := @Writable.openInode_ok fs caller.root caller.creds caller.cwd
    dest 0o644 writable
  refine ⟨output, opened, opensForWriting_of_ok opening, fun fuel => ?_⟩
  unfold copyFile Caller.open
  rw [openInode_read_ok readsOnly_oRdonly reached permits]
  dsimp only
  rw [opening]

end Files

end RustPosix.Userland
