import RustPosix.Userland.Copy

/-! What copying a file leaves behind: all bytes of the source, if the destination is another
regular file or a new one. -/

namespace RustPosix.Vfs

open Library

namespace RamFsFile

variable {file : RamFsFile}

/-- What is written at the end of a file is appended. -/
theorem write_end (file : RamFsFile) (buf : List Byte) :
    file.write file.data.length buf = { file with data := file.data ++ buf } := by
  unfold write grow splice
  congr 1
  split
  · rw [Nat.add_sub_cancel_left, List.take_left' rfl, List.drop_eq_nil_of_le, List.append_nil]
    rw [List.length_append, List.length_replicate]
  · rename_i short
    have empty : buf = [] := List.eq_nil_of_length_eq_zero (by omega)
    rw [empty, List.take_length, List.append_nil, List.length_nil, Nat.add_zero, List.drop_length,
      List.append_nil]

theorem read_eq_nil {offset : Nat} (done : file.read offset 1024 = []) :
    file.data.length ≤ offset := by
  by_contra inside
  unfold read slice at done
  rw [if_neg inside, List.drop_eq_nil_iff, List.length_take] at done
  omega

/-- A read continues where the bytes before the offset end. -/
theorem take_append_read {offset : Nat} (inside : offset < file.data.length) :
    file.data.take offset ++ file.read offset 1024 =
      file.data.take (offset + (file.read offset 1024).length) := by
  have whole : (file.read offset 1024).length = min 1024 (file.data.length - offset) := by
    unfold read slice
    rw [if_neg (Nat.not_le.mpr inside), List.length_drop, List.length_take]
    omega
  rw [whole]
  unfold read slice
  rw [if_neg (Nat.not_le.mpr inside), List.drop_take, Nat.add_sub_cancel_left, List.take_add]

end RamFsFile

namespace RamFs

variable {fs : RamFs} {id : InodeId} {inode other : Inode}

theorem set_self (there : fs.nodes id = some inode) : fs.set id inode = fs := by
  unfold set
  rw [← there, Function.update_eq_self]

theorem set_set : (fs.set id other).set id inode = fs.set id inode := by
  unfold set
  rw [Function.update_idem]

end RamFs

/-- Only the bytes of regular files differ. -/
structure Rewritten (fs after : RamFs) : Prop where
  created : after.created = fs.created
  dirs : ∀ id, after.dirAt id = fs.dirAt id
  files : ∀ id, (after.fileAt id).isSome = (fs.fileAt id).isSome

namespace Rewritten

variable {fs middle after : RamFs}

theorem set {id : InodeId} {regular changed : RamFsFile} (there : fs.fileAt id = some regular) :
    Rewritten fs (fs.set id (.file changed)) := by
  refine ⟨rfl, fun other => ?_, fun other => ?_⟩
  · rw [RamFs.dirAt_set]
    split
    · rename_i same
      subst same
      unfold RamFs.dirAt
      rw [RamFs.fileAt_eq_some.mp there]
    · rfl
  · by_cases same : other = id
    · subst same
      rw [RamFs.fileAt_set_self, there]
      rfl
    · rw [RamFs.fileAt_set_of_ne same]

theorem lookup (rewritten : Rewritten fs after) : after.lookup = fs.lookup := by
  funext id name
  exact RamFs.lookup_congr (rewritten.dirs id)

end Rewritten

end RustPosix.Vfs

namespace RustPosix.Posix

open Library Vfs

namespace OpensForWriting

variable {fs opened : RamFs} {root output id : InodeId} {creds : VfsCreds} {path other : List Name}
  {attributes : Attributes}

/-- Paths that lead somewhere lead there still, and the path of the file leads to it. -/
theorem descends (standing : Standing fs root)
    (opens : OpensForWriting fs root creds path attributes output opened) :
    descend opened.lookup root path = .ok output ∧ ∀ {other id},
      descend fs.lookup root other = .ok id → descend opened.lookup root other = .ok id := by
  cases opens with
  | found reached =>
    exact ⟨descend_truncate.trans reached, fun reached' => descend_truncate.trans reached'⟩
  | @created front name parent dir split reached there absent =>
    have bare : ∀ new, Inode.file ⟨[], attributes⟩ = .dir new → new.entries = ∅ := nofun
    have plants := standing.sound.plants standing.isRoot there bare
      fun other => dir.lookup_createFile name other _
    have deep := RamFs.isDirectory_of_dirAt there
    refine ⟨split ▸ plants.at_edge standing.tree deep reached, fun {other id} reached' => ?_⟩
    rw [plants.elsewhere standing.tree deep reached, reached']
    rintro ⟨rest, rfl⟩
    have lost : descend fs.lookup root (front ++ [name]) = .error enoent := by
      rw [descend_snoc reached, RamFs.lookup_of_dirAt there, absent]
      rfl
    rw [descend_append_error lost] at reached'
    cases reached'

/-- What was there before holds what it held, the opened file apart. -/
theorem contentsOf_other (standing : Standing fs root)
    (opens : OpensForWriting fs root creds path attributes output opened)
    (reached : descend fs.lookup root other = .ok id) (apart : id ≠ output) :
    opened.contentsOf id = fs.contentsOf id := by
  cases opens with
  | found => rw [RamFs.contentsOf_truncate, if_neg fun both => apart both.1]
  | created =>
    rw [RamFs.contentsOf_modify, RamFs.contentsOf_alloc
      (Nat.ne_of_lt (standing.sound.below_of_walk standing.isRoot reached))]

/-- A regular file is empty when it has been opened; anything else is as it was. -/
theorem emptied (opens : OpensForWriting fs root creds path attributes output opened) :
    ((∃ attributes, opened.fileAt output = some ⟨[], attributes⟩) ∧
      ∀ id, descend fs.lookup root path = .ok id → (fs.fileAt id).isSome = true) ∨
    (opened = fs ∧ descend fs.lookup root path = .ok output ∧ Permits fs creds output createFlags ∧
      fs.fileAt output = none) := by
  cases opens with
  | found reached permits =>
    cases there : fs.fileAt output with
    | none =>
      refine Or.inr ⟨?_, reached, permits, rfl⟩
      unfold RamFs.truncate
      rw [there]
    | some regular =>
      refine Or.inl ⟨⟨regular.attributes, ?_⟩, fun id reached' => ?_⟩
      · rw [RamFs.fileAt_truncate there, if_pos rfl]
      · cases reached.symm.trans reached'
        rw [there]
        rfl
  | created split reached there absent =>
    have empty : ((fs.alloc (.file ⟨[], attributes⟩)).2).contentsOf fs.created = .file [] := by
      simp only [RamFs.contentsOf, RamFs.alloc, Function.update_self]
    rw [← RamFs.contentsOf_modify] at empty
    obtain ⟨regular, new, data⟩ := RamFs.contentsOf_eq_file.mp empty
    refine Or.inl ⟨⟨regular.attributes, by rw [new, ← data]⟩, fun id reached' => ?_⟩
    rw [split, descend_snoc reached, RamFs.lookup_of_dirAt there, absent] at reached'
    cases reached'

end OpensForWriting

end RustPosix.Posix

namespace RustPosix.Userland

open Library Vfs Posix

section Loop

variable {sink : List Byte → Except Int Nat} {source : List (Except Int (List Byte))}
  {input output : FileHandle} {fs after : RamFs} {fuel more : Nat} {regular : RamFsFile}

/-- More fuel does not change a result. -/
theorem copyLoop_more (ran : copyLoop sink fuel source input output fs = some after)
    (enough : fuel ≤ more) : copyLoop sink more source input output fs = some after := by
  induction fuel generalizing source input output fs more with
  | zero => cases ran
  | succ fuel ih =>
    obtain ⟨more, rfl⟩ := Nat.exists_eq_add_of_le' (Nat.le_trans (Nat.le_add_left 1 fuel) enough)
    rw [copyLoop] at ran ⊢
    split at ran
    · exact ran
    · exact ran
    · exact ih ran (Nat.le_of_succ_le_succ enough)

/-- Nothing is copied from the end of a file. -/
theorem copyLoop_end (there : fs.fileAt input.inode = some regular)
    (done : regular.data.length ≤ input.offset) :
    copyLoop sink (fuel + 1) source input output fs = some fs := by
  have nothing : regular.read input.offset 1024 = [] := if_pos done
  rw [copyLoop, FileHandle.read_regular there, nothing]

/-- A file whose destination holds its bytes up to the offset is copied to its end. -/
theorem copyLoop_copies {attributes : Attributes} (there : fs.fileAt input.inode = some regular)
    (apart : input.inode ≠ output.inode)
    (begun : fs.fileAt output.inode = some ⟨regular.data.take input.offset, attributes⟩)
    (level : output.offset = (regular.data.take input.offset).length)
    (overwrites : output.flags &&& oAppend = 0) :
    ∃ enough, ∀ fuel source, enough ≤ fuel → copyLoop sink fuel source input output fs =
      some (fs.set output.inode (.file ⟨regular.data, attributes⟩)) := by
  induction left : regular.data.length - input.offset using Nat.strong_induction_on
    generalizing input output fs with
  | _ left ih =>
    subst left
    by_cases done : regular.data.length ≤ input.offset
    · refine ⟨1, fun fuel source enough => ?_⟩
      obtain ⟨fuel, rfl⟩ := Nat.exists_eq_add_of_le' enough
      rw [copyLoop_end there done]
      rw [List.take_of_length_le done] at begun
      rw [RamFs.set_self (RamFs.fileAt_eq_some.mp begun)]
    have inside := Nat.not_le.mp done
    have nonempty : regular.read input.offset 1024 ≠ [] := fun nothing =>
      done (RamFsFile.read_eq_nil nothing)
    have moved := List.length_pos_iff.mpr nonempty
    let bytes := regular.read input.offset 1024
    let input' : FileHandle := { input with offset := input.offset + bytes.length }
    let output' : FileHandle := { output with offset := output.offset + bytes.length }
    let fs' := fs.set output.inode (.file ⟨regular.data.take input'.offset, attributes⟩)
    have written : ∀ device, (output.write fs bytes device).2 = (output', fs') := by
      intro device
      unfold FileHandle.write FileHandle.positioned
      rw [if_neg (not_not_intro overwrites)]
      dsimp only
      rw [RamFs.fileAt_eq_some.mp begun]
      dsimp only
      rw [level, RamFsFile.write_end, RamFsFile.take_append_read inside, ← level]
    have still : fs'.fileAt input'.inode = some regular :=
      (RamFs.fileAt_set_of_ne apart).trans there
    have grown : fs'.fileAt output'.inode =
        some ⟨regular.data.take input'.offset, attributes⟩ := RamFs.fileAt_set_self
    have level' : output'.offset = (regular.data.take input'.offset).length := by
      change output.offset + bytes.length = (regular.data.take (input.offset + bytes.length)).length
      rw [level, ← RamFsFile.take_append_read inside, List.length_append]
    obtain ⟨enough, rest⟩ := @ih _ (by simp only [input', bytes]; omega) input' output' fs' still
      apart grown level' overwrites rfl
    refine ⟨enough + 1, fun fuel source fuelled => ?_⟩
    obtain ⟨fuel, rfl⟩ := Nat.exists_eq_add_of_le' (Nat.le_trans (Nat.le_add_left 1 enough) fuelled)
    have step : copyLoop sink (fuel + 1) source input output fs =
        copyLoop sink fuel source.tail input' output' fs' := by
      rw [copyLoop, FileHandle.read_regular there]
      cases content : regular.read input.offset 1024 with
      | nil => exact (nonempty content).elim
      | cons byte rest =>
        dsimp only
        have outcome := written (sink (byte :: rest))
        simp only [bytes, content] at outcome
        simp only [input', bytes, content, outcome]
    rw [step, rest fuel source.tail (by omega), RamFs.set_set]

end Loop

/-- A destination that is there and can be opened is a regular file, and not the source unless this
is empty. -/
def CopySafe (fs : RamFs) (root : InodeId) (creds : VfsCreds) (source : InodeId) (data : List Byte)
    (dest : List Name) : Prop :=
  ∀ target, descend fs.lookup root dest = .ok target → Permits fs creds target createFlags →
    (fs.fileAt target).isSome = true ∧ (target = source → data = [])

section Copied

variable {caller : Caller} {devices : Devices} {src dest : Name} {fs opened : RamFs}
  {source output : InodeId} {data : List Byte} {attributes : Attributes}

/-- Another regular file has all the bytes of the source in the end. -/
theorem copyLoop_opened {sink : List Byte → Except Int Nat} {regular : RamFsFile}
    {flags : BitVec 32} (there : opened.fileAt source = some regular) (apart : source ≠ output)
    (empty : opened.fileAt output = some ⟨[], attributes⟩) :
    ∃ enough, ∀ fuel answers, enough ≤ fuel →
      copyLoop sink fuel answers ⟨source, 0, flags⟩ ⟨output, 0, createFlags⟩ opened =
        some (opened.set output (.file ⟨regular.data, attributes⟩)) :=
  copyLoop_copies there apart empty rfl (show createFlags &&& oAppend = 0 by decide)

/-- Nothing is left to be read from a file that has been opened for writing too. -/
theorem copyLoop_opened_same {sink : List Byte → Except Int Nat} {flags : BitVec 32} {fuel : Nat}
    {answers : List (Except Int (List Byte))} {handle : FileHandle}
    (empty : opened.fileAt source = some ⟨[], attributes⟩) :
    copyLoop sink (fuel + 1) answers ⟨source, 0, flags⟩ handle opened = some opened :=
  @copyLoop_end sink answers ⟨source, 0, flags⟩ handle opened fuel _ empty (Nat.le_refl 0)

theorem contents_set_file {id : InodeId} {regular changed : RamFsFile} {path : List Name}
    {root : InodeId} (there : fs.fileAt id = some regular)
    (reached : descend fs.lookup root path = .ok output) :
    (fs.set id (.file changed)).contents root path =
      some (if output = id then .file changed.data else fs.contentsOf output) := by
  have rewritten : Rewritten fs (fs.set id (.file changed)) := .set there
  rw [RamFs.contents_of_ok (rewritten.lookup ▸ reached)]
  unfold RamFs.contentsOf RamFs.set
  dsimp only
  by_cases same : output = id
  · rw [same, Function.update_self, if_pos rfl]
  · rw [Function.update_of_ne same, if_neg same]

section Safe

variable (standing : Standing fs caller.root)
  (reached : descend fs.lookup caller.root (normalComponents caller.cwd src) = .ok source)

include standing reached

/-- Copying onto a safe destination, or a new file, leaves both with the bytes of the source. -/
theorem copied_of_safe {fuel : Nat} {after : RamFs} (holds : fs.contentsOf source = .file data)
    (opens : OpensForWriting fs caller.root caller.creds (normalComponents caller.cwd dest)
      attributes output opened)
    (safe : CopySafe fs caller.root caller.creds source data (normalComponents caller.cwd dest))
    (loop : copyLoop devices.sink fuel devices.source ⟨source, 0, oRdonly⟩ ⟨output, 0, createFlags⟩
      opened = some after) :
    after.contents caller.root (normalComponents caller.cwd src) = some (.file data) ∧
      after.contents caller.root (normalComponents caller.cwd dest) = some (.file data) := by
  obtain ⟨atDest, kept⟩ := opens.descends standing
  have atSrc := kept reached
  rcases opens.emptied with ⟨⟨attributes, empty⟩, _⟩ | ⟨_, reached', permits, other⟩
  · by_cases same : source = output
    · subst same
      have nothing : data = [] := by
        cases opens with
        | found reached' permits => exact (safe source reached' permits).2 rfl
        | created =>
          exact (Nat.lt_irrefl _ (standing.sound.below_of_walk standing.isRoot reached)).elim
      cases fuel with
      | zero => cases loop
      | succ fuel =>
        rw [copyLoop_opened_same empty] at loop
        cases loop
        have held := RamFs.contentsOf_eq_file.mpr ⟨_, empty, rfl⟩
        rw [RamFs.contents_of_ok atSrc, RamFs.contents_of_ok atDest, held, nothing]
        exact ⟨rfl, rfl⟩
    · have held := (opens.contentsOf_other standing reached same).trans holds
      obtain ⟨regular, there, rfl⟩ := RamFs.contentsOf_eq_file.mp held
      obtain ⟨enough, copies⟩ := copyLoop_opened there same empty
      have ran := copies (max enough fuel) devices.source (Nat.le_max_left ..)
      cases (copyLoop_more loop (Nat.le_max_right enough fuel)).symm.trans ran
      rw [contents_set_file empty atSrc, contents_set_file empty atDest, if_neg same, if_pos rfl,
        held]
      exact ⟨rfl, rfl⟩
  · have regular := (safe output reached' permits).1
    rw [other] at regular
    cases regular

/-- A source that can be read is lost by copying it onto a destination that is not safe, or the
destination is no regular file afterwards. -/
theorem not_copied {target : InodeId} (permits : Permits fs caller.creds source oRdonly)
    (taken : descend fs.lookup caller.root (normalComponents caller.cwd dest) = .ok target)
    (writable : Permits fs caller.creds target createFlags)
    (lossy : fs.fileAt target = none ∨ (target = source ∧ data ≠ [])) :
    ∃ fuel after, copyFile caller devices fuel src dest fs = some (0, after) ∧
      after.contents caller.root (normalComponents caller.cwd dest) ≠ some (.file data) := by
  obtain ⟨output, opened, opens, copies⟩ := @copyFile_of_opens caller devices src dest fs source
    reached permits (Or.inl ⟨target, taken, writable⟩)
  obtain ⟨atDest, kept⟩ := opens.descends standing
  cases atDest.symm.trans (kept taken)
  rcases opens.emptied with ⟨⟨attributes, empty⟩, regular⟩ | ⟨rfl, _, _, other⟩
  · rcases lossy with other | ⟨rfl, nonempty⟩
    · have found := regular target taken
      rw [other] at found
      cases found
    · refine ⟨1, opened, by rw [copies, copyLoop_opened_same empty]; rfl, ?_⟩
      rw [RamFs.contents_of_ok atDest, RamFs.contentsOf_eq_file.mpr ⟨_, empty, rfl⟩]
      intro same
      exact nonempty (Contents.file.inj (Option.some.inj same)).symm
  · obtain ⟨fuel, loop⟩ := @copyLoop_returns devices.sink devices.source ⟨source, 0, oRdonly⟩
      ⟨target, 0, createFlags⟩ opened other
    refine ⟨fuel, opened, by rw [copies, loop]; rfl, ?_⟩
    rw [RamFs.contents_of_ok taken]
    intro same
    obtain ⟨_, there, _⟩ := RamFs.contentsOf_eq_file.mp (Option.some.inj same)
    rw [other] at there
    cases there

end Safe

/-- For a regular file at `src` that may be read, what `copy_file` calls a copy is one, and leaves
the source alone, exactly if the destination is safe. -/
theorem copy_file_copies_iff (caller : Caller) (devices : Devices) (src dest : Name) (fs : RamFs)
    (source : InodeId) (data : List Byte) (standing : Standing fs caller.root)
    (resolves : fs.resolvePath caller.root caller.cwd src = .ok source)
    (holds : fs.contentsOf source = .file data) :
    (∀ fuel after, copyFile caller devices fuel src dest fs = some (0, after) →
      after.contents caller.root (components (normalizePath caller.cwd src)) = some (.file data) ∧
      after.contents caller.root (components (normalizePath caller.cwd dest)) =
        some (.file data)) ↔
    (Permits fs caller.creds source oRdonly →
      CopySafe fs caller.root caller.creds source data
        (components (normalizePath caller.cwd dest))) := by
  rw [RamFs.resolvePath_eq] at resolves
  rw [components_normalizePath, components_normalizePath]
  constructor
  · intro copied permits target taken writable
    by_contra notSafe
    have lossy : fs.fileAt target = none ∨ (target = source ∧ data ≠ []) := by
      cases there : fs.fileAt target with
      | none => exact Or.inl rfl
      | some regular =>
        rw [there] at notSafe
        exact Or.inr (by simpa using notSafe)
    obtain ⟨fuel, after, ran, other⟩ := @not_copied caller devices src dest fs source data standing
      resolves target permits taken writable lossy
    exact other (copied fuel after ran).2
  · intro safe fuel after ran
    rcases copyFile_ran ran with ⟨negative, _⟩ | ⟨_, source', output, opened, reached, permits, opens,
      loop⟩
    · cases negative
    · cases resolves.symm.trans reached
      exact copied_of_safe standing reached holds opens (safe permits) loop

end Copied

/-- A file `f` with one byte in the root. -/
def oneFile : RamFs :=
  (RamFs.newRoot.apply (.createFile 0 [102] ⟨0o644, 0, 0⟩)).set 1 (.file ⟨[120], ⟨0o644, 0, 0⟩⟩)

theorem standing_oneFile : Standing oneFile 0 := by
  let first := RamFs.newRoot.apply (.createFile 0 [102] ⟨0o644, 0, 0⟩)
  have made : RamFs.newRoot.createFile 0 [102] ⟨0o644, 0, 0⟩ = .ok (1, first) := rfl
  have atRoot : descend RamFs.newRoot.lookup 0 [] = .ok 0 := rfl
  have there : first.fileAt 1 = some ⟨[], ⟨0o644, 0, 0⟩⟩ := rfl
  have rewritten : Rewritten first oneFile := .set there
  exact (RamFs.standing_newRoot.createFile atRoot made).congr rewritten.created rewritten.dirs

/-- The first process, in the root. -/
def initCaller : Caller := ⟨0, ⟨0, 0, 0, 0, 0o022⟩, [slash]⟩

/-- `cp f e`, where there is no `e` -/
theorem copy_file_copies_new : ∃ after,
    copyFile initCaller ⟨[], fun _ => .ok 0⟩ 2 [102] [101] oneFile = some (0, after) ∧
      after.contents 0 [[102]] = some (.file [120]) ∧
      after.contents 0 [[101]] = some (.file [120]) := by
  obtain ⟨after, ran⟩ : ∃ after, copyFile initCaller ⟨[], fun _ => .ok 0⟩ 2 [102] [101] oneFile =
      some (0, after) := ⟨_, rfl⟩
  refine ⟨after, ran, (copy_file_copies_iff initCaller ⟨[], fun _ => .ok 0⟩ [102] [101] oneFile 1
    [120] standing_oneFile rfl rfl).mpr (fun _ target taken => ?_) 2 after ran⟩
  cases taken

/-- `cp f f` returns 0 and leaves an empty file. -/
theorem copy_file_empties_source : ∃ after,
    copyFile initCaller ⟨[], fun _ => .ok 0⟩ 1 [102] [102] oneFile = some (0, after) ∧
      oneFile.contents 0 [[102]] = some (.file [120]) ∧
      after.contents 0 [[102]] = some (.file []) :=
  ⟨_, rfl, rfl, rfl⟩

end RustPosix.Userland
