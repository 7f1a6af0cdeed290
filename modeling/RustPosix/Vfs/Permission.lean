import RustPosix.Vfs.RamFs

/-! Who may open an inode: the permission check of `services/vfs/mod.rs`. -/

namespace RustPosix.Vfs

def oWronly : BitVec 32 := 0x0001
def oRdwr : BitVec 32 := 0x0002
def oCreat : BitVec 32 := 0x0040
def oExcl : BitVec 32 := 0x0080
def oTrunc : BitVec 32 := 0x0200

def sIfchr : BitVec 32 := 0o020000
def sIfdir : BitVec 32 := 0o040000
def sIfreg : BitVec 32 := 0o100000

/-- What of `Stat` the permission check reads. -/
structure Stat where
  mode : BitVec 32
  uid : BitVec 32
  gid : BitVec 32
  deriving DecidableEq, Repr

def Attributes.stat (kind : BitVec 32) (attributes : Attributes) : Stat :=
  ⟨kind ||| attributes.mode.zeroExtend 32, attributes.uid, attributes.gid⟩

def Inode.stat : Inode → Stat
  | .dir directory => directory.attributes.stat sIfdir
  | .file regular => regular.attributes.stat sIfreg
  | .special attributes => attributes.stat sIfchr

structure VfsCreds where
  uid : BitVec 32
  gid : BitVec 32
  euid : BitVec 32
  egid : BitVec 32
  umask : BitVec 32
  deriving DecidableEq, Repr

namespace VfsCreds

def creationMode (creds : VfsCreds) (mode : BitVec 32) : BitVec 16 :=
  (mode.truncate 16 &&& 0o777) &&& ~~~ creds.umask.truncate 16

def isRoot (creds : VfsCreds) : Bool := creds.euid = 0

/-- The owner and the mode of what a process creates. -/
def attributes (creds : VfsCreds) (mode : BitVec 32) : Attributes :=
  ⟨creds.creationMode mode, creds.euid, creds.egid⟩

end VfsCreds

/-- Which of reading and writing the permission bits of an inode allow. -/
def Stat.allows (stat : Stat) (creds : VfsCreds) : Bool × Bool :=
  if creds.euid = stat.uid then (stat.mode &&& 0o400 ≠ 0, stat.mode &&& 0o200 ≠ 0)
  else if creds.egid = stat.gid then (stat.mode &&& 0o040 ≠ 0, stat.mode &&& 0o020 ≠ 0)
  else (stat.mode &&& 0o004 ≠ 0, stat.mode &&& 0o002 ≠ 0)

/-- The flags that ask for writing, as the permission check and `O_TRUNC` read them. -/
def asksToWrite (flags : BitVec 32) : Bool := flags &&& oWronly ≠ 0 || flags &&& oRdwr ≠ 0

def checkInodePermission (stat : Stat) (creds : VfsCreds) (flags : BitVec 32) :
    Except Int Unit :=
  if creds.isRoot then .ok ()
  else
    let reqWrite := asksToWrite flags
    let reqRead := flags &&& oWronly = 0
    let (canRead, canWrite) := stat.allows creds
    if (reqRead && !canRead) || (reqWrite && !canWrite) then .error eacces else .ok ()

end RustPosix.Vfs
