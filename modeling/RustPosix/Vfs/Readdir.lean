import RustPosix.Library.Sorted
import RustPosix.Vfs.FileHandle
import RustPosix.Vfs.RamFsSteps

/-! Listing a directory: `readdir` of `services/vfs/ramfs.rs` and the records that it fills. -/

namespace RustPosix.Vfs

open Library

/-- `<` of `String`, by the bytes. -/
def nameLt : Name → Name → Bool
  | _, [] => false
  | [], _ :: _ => true
  | first :: rest, other :: others =>
    first.toNat < other.toNat || (first = other && nameLt rest others)

/-- The order of the names. -/
def NameLt (name other : Name) : Prop := nameLt name other = true

instance : DecidableRel NameLt := fun name other => decEq (nameLt name other) true

def NameLe (name other : Name) : Prop := ¬ NameLt other name

instance : DecidableRel NameLe := fun name other =>
  inferInstanceAs (Decidable (¬ NameLt other name))

/-- The name of a `Dirent64`; its other fields are not read. -/
structure Dirent64 where
  dName : List Byte
  deriving DecidableEq, Repr

/-- `size_of::<Dirent64>()`: two words, a length, a type and 256 bytes, in whole words. -/
def direntSize : Nat := 280

def createDirent (name : Name) : Dirent64 :=
  ⟨name.take 255 ++ List.replicate (256 - min name.length 255) 0⟩

/-- The name as a C string. -/
def Dirent64.cstr (dirent : Dirent64) : Name := dirent.dName.takeWhile (· ≠ 0)

/-- The names of a directory in the order of the map. -/
def RamFsDir.names (dir : RamFsDir) : List Name :=
  dir.entries.keys.insertionSort NameLe

def RamFs.readdir (fs : RamFs) (id : InodeId) : Except Int (List Dirent64) :=
  match fs.dirAt id with
  | some dir => .ok (dir.names.map createDirent)
  | none => .error enotdir

/-- `sys_getdents64` on a handle, with a buffer of `count` bytes that can be written: the records
that it fills. -/
def FileHandle.getdents (fs : RamFs) (handle : FileHandle) (count : Nat) :
    Except Int (List Dirent64) × FileHandle :=
  match fs.readdir handle.inode with
  | .error problem => (.error problem, handle)
  | .ok entries =>
    let records := (entries.drop handle.offset).take (count / direntSize)
    (.ok records, { handle with offset := handle.offset + records.length })

theorem nameLt_irrefl (name : Name) : nameLt name name = false := by
  induction name with
  | nil => rfl
  | cons first rest ih =>
    simp only [nameLt, ih, Nat.lt_irrefl, decide_false, Bool.and_false, Bool.or_false]

theorem nameLt_trans {name middle other : Name} (first : nameLt name middle = true)
    (second : nameLt middle other = true) : nameLt name other = true := by
  induction other generalizing name middle with
  | nil => cases middle <;> cases second
  | cons last others ih =>
    cases middle with
    | nil => cases name <;> cases first
    | cons between middles =>
      cases name with
      | nil => rfl
      | cons head rest =>
        simp only [nameLt, Bool.or_eq_true, decide_eq_true_eq, Bool.and_eq_true] at first second ⊢
        rcases first with less | ⟨rfl, inside⟩
        · rcases second with less' | ⟨rfl, _⟩
          · exact Or.inl (Nat.lt_trans less less')
          · exact Or.inl less
        · rcases second with less' | ⟨rfl, inside'⟩
          · exact Or.inl less'
          · exact Or.inr ⟨rfl, ih inside inside'⟩

theorem nameLt_or_eq_or_gt (name other : Name) :
    nameLt name other = true ∨ name = other ∨ nameLt other name = true := by
  induction name generalizing other with
  | nil =>
    cases other with
    | nil => exact Or.inr (Or.inl rfl)
    | cons first rest => exact Or.inl rfl
  | cons head rest ih =>
    cases other with
    | nil => exact Or.inr (Or.inr rfl)
    | cons first others =>
      simp only [nameLt, Bool.or_eq_true, decide_eq_true_eq, Bool.and_eq_true]
      rcases Nat.lt_trichotomy head.toNat first.toNat with less | same | greater
      · exact Or.inl (Or.inl less)
      · cases BitVec.eq_of_toNat_eq same
        rcases ih others with less | rfl | greater
        · exact Or.inl (Or.inr ⟨rfl, less⟩)
        · exact Or.inr (Or.inl rfl)
        · exact Or.inr (Or.inr (Or.inr ⟨rfl, greater⟩))
      · exact Or.inr (Or.inr (Or.inl greater))

instance : Std.Irrefl NameLt := ⟨fun name less => by
  unfold NameLt at less
  rw [nameLt_irrefl] at less
  cases less⟩

instance : Std.Antisymm NameLt := ⟨fun name _ less greater =>
  (Std.Irrefl.irrefl (r := NameLt) name (nameLt_trans less greater)).elim⟩

instance : Std.Total NameLe := ⟨fun name other => by
  rcases nameLt_or_eq_or_gt name other with less | rfl | greater
  · exact Or.inl fun greater => Std.Irrefl.irrefl (r := NameLt) name (nameLt_trans less greater)
  · exact Or.inl (Std.Irrefl.irrefl (r := NameLt) name)
  · exact Or.inr fun less => Std.Irrefl.irrefl (r := NameLt) name (nameLt_trans less greater)⟩

instance : IsTrans Name NameLe := ⟨fun name middle other first second greater => by
  rcases nameLt_or_eq_or_gt middle name with less | rfl | more
  · exact first less
  · exact second greater
  · exact second (nameLt_trans greater more)⟩

namespace RamFsDir

variable {dir : RamFsDir} {name : Name}

theorem mem_names : name ∈ dir.names ↔ (dir.entries.lookup name).isSome = true := by
  unfold names
  rw [List.mem_insertionSort, AList.lookup_isSome, AList.mem_keys]

theorem names_nodup (dir : RamFsDir) : dir.names.Nodup :=
  (List.perm_insertionSort NameLe _).nodup_iff.mpr dir.entries.keys_nodup

/-- The names come in order, and none comes twice. -/
theorem names_sorted (dir : RamFsDir) : dir.names.Pairwise NameLt := by
  have sorted : dir.names.Pairwise NameLe := List.pairwise_insertionSort NameLe _
  refine (sorted.and dir.names_nodup).imp ?_
  rintro name other ⟨le, ne⟩
  rcases nameLt_or_eq_or_gt name other with less | same | greater
  · exact less
  · exact (ne same).elim
  · exact (le greater).elim

end RamFsDir

/-- A name that fits into the record and ends at its first zero byte. -/
def Listable (name : Name) : Prop := name.length ≤ 255 ∧ 0 ∉ name

theorem cstr_createDirent {name : Name} (listable : Listable name) :
    (createDirent name).cstr = name := by
  obtain ⟨short, ends⟩ := listable
  have nonzero : ∀ byte ∈ name, decide (byte ≠ 0) = true := fun byte member =>
    decide_eq_true fun zero => ends (zero ▸ member)
  unfold createDirent Dirent64.cstr
  dsimp only
  rw [List.take_of_length_le short, List.takeWhile_append_of_pos nonzero,
    List.takeWhile_replicate, if_neg (by decide), List.append_nil]

end RustPosix.Vfs
