import RustPosix.Mm.VmSpace

/-! The ELF64 loader and the initial user stack of `services/process/elf.rs`. -/

namespace RustPosix.Process

open Library Mm

/-- The number spelled by bytes, the least significant first. -/
def leNumber : List Byte → Nat
  | [] => 0
  | byte :: rest => byte.toNat + 256 * leNumber rest

/-- `to_ne_bytes` of a 64-bit value on this target. -/
def leBytes (count value : Nat) : List Byte :=
  (List.range count).map fun offset => BitVec.ofNat 8 (value / 256 ^ offset)

/-- The bytes of a plain structure of `size` bytes at `offset`, if they are there. -/
def readPod (size : Nat) (bytes : List Byte) (offset : Nat) : Option (List Byte) :=
  (checkedAdd offset size).bind fun stop =>
    if stop ≤ bytes.length then some ((bytes.drop offset).take size) else none

def field (pod : List Byte) (offset size : Nat) : Nat := leNumber ((pod.drop offset).take size)

/-- The fields of the file header that the loader reads. -/
structure Elf64Header where
  ident : List Byte
  machine : Nat
  entry : Nat
  phoff : Nat
  phentsize : Nat
  phnum : Nat

/-- The fields of a program header that the loader reads. -/
structure Elf64Phdr where
  type : Nat
  flags : Nat
  offset : Nat
  vaddr : Nat
  filesz : Nat
  memsz : Nat
  deriving DecidableEq, Repr

def readHeader (bytes : List Byte) : Option Elf64Header :=
  (readPod 64 bytes 0).map fun pod =>
    { ident := pod.take 16
      machine := field pod 18 2
      entry := field pod 24 8
      phoff := field pod 32 8
      phentsize := field pod 54 2
      phnum := field pod 56 2 }

def readPhdr (bytes : List Byte) (offset : Nat) : Option Elf64Phdr :=
  (readPod 56 bytes offset).map fun pod =>
    { type := field pod 0 4
      flags := field pod 4 4
      offset := field pod 8 8
      vaddr := field pod 16 8
      filesz := field pod 32 8
      memsz := field pod 40 8 }

def elfMagic : List Byte := [0x7F, 0x45, 0x4C, 0x46]
def elfClass64 : Byte := 2
def elfData2lsb : Byte := 1
def emX8664 : Nat := 0x3E
def ptLoad : Nat := 1
def pfX : Nat := 1
def pfW : Nat := 2

def userStackTop : Nat := 0x00007FFFFFFF0000
def userStackSize : Nat := 128 * 1024
def stackBottom : Nat := userStackTop - userStackSize

def checkHeader (bytes : List Byte) : Except Fault Elf64Header :=
  match readHeader bytes with
  | none => .error (.error "ELF file too small for header")
  | some header =>
    if header.ident.take 4 ≠ elfMagic then .error (.error "Invalid ELF magic")
    else if header.ident[4]? ≠ some elfClass64 then .error (.error "Not a 64-bit ELF")
    else if header.ident[5]? ≠ some elfData2lsb then .error (.error "Not a little-endian ELF")
    else if header.machine ≠ emX8664 then .error (.error "Not an x86_64 ELF")
    else .ok header

def segmentFlags (phdr : Elf64Phdr) : PageFlags where
  present := true
  writable := phdr.flags &&& pfW != 0
  user := true
  noExec := phdr.flags &&& pfX == 0

def segmentData (elfBytes : List Byte) (phdr : Elf64Phdr) : List Byte :=
  (elfBytes.drop phdr.offset).take phdr.filesz

/-- The address of the program headers in memory, once a segment holds them. -/
def locatePhdrs (phoff phdrVaddr : Nat) (phdr : Elf64Phdr) : Option Nat :=
  if phoff ≥ phdr.offset ∧ phoff < phdr.offset + phdr.filesz ∧ phdrVaddr = 0 then
    checkedAdd phdr.vaddr (phoff - phdr.offset)
  else some phdrVaddr

/-- The body of the loop for a `PT_LOAD` header. -/
def loadSegment (elfBytes : List Byte) (phoff phdrVaddr : Nat) (phdr : Elf64Phdr) :
    Action VmState Fault Nat :=
  match checkedAdd phdr.offset phdr.filesz with
  | none => Action.fail .panicked
  | some stop =>
    if stop > elfBytes.length then
      Action.fail (.error "Segment data out of bounds in ELF file")
    else do
      VmSpace.allocAndMapRange phdr.vaddr phdr.memsz (segmentFlags phdr)
      if phdr.filesz > 0 then
        VmSpace.writeBytesToSpace phdr.vaddr (segmentData elfBytes phdr)
      match locatePhdrs phoff phdrVaddr phdr with
      | none => Action.fail .panicked
      | some located => pure located

def loadSegments (elfBytes : List Byte) (header : Elf64Header) :
    List Nat → Nat → Action VmState Fault Nat
  | [], phdrVaddr => pure phdrVaddr
  | i :: rest, phdrVaddr =>
    match checkedAdd header.phoff (i * header.phentsize) with
    | none => Action.fail .panicked
    | some offset =>
      match readPhdr elfBytes offset with
      | none => Action.fail (.error "Program header out of bounds")
      | some phdr =>
        if phdr.type = ptLoad then do
          let located ← loadSegment elfBytes header.phoff phdrVaddr phdr
          loadSegments elfBytes header rest located
        else loadSegments elfBytes header rest phdrVaddr

/-- Push the strings of a list and return the pointer behind each of them and
the stack pointer. -/
def pushStrings (tooBig : String) : List (List Byte) → Nat → Action VmState Fault (List Nat × Nat)
  | [], sp => pure ([], sp)
  | bytes :: rest, sp =>
    if sp < stackBottom + bytes.length + 1 then Action.fail (.error tooBig)
    else do
      let at' := sp - (bytes.length + 1)
      VmSpace.writeBytesToSpace at' bytes
      VmSpace.writeBytesToSpace (at' + bytes.length) [0]
      let (pointers, sp) ← pushStrings tooBig rest at'
      pure (at' :: pointers, sp)

/-- Push 64-bit words, the first of them highest. -/
def pushWords : List Nat → Nat → Action VmState Fault Nat
  | [], sp => pure sp
  | word :: rest, sp => do
    VmSpace.writeBytesToSpace (sp - 8) (leBytes 8 word)
    pushWords rest (sp - 8)

def atNull : Nat := 0
def atPhdr : Nat := 3
def atPhent : Nat := 4
def atPhnum : Nat := 5
def atPagesz : Nat := 6
def atEntry : Nat := 9

def auxVector (entryPoint phdrVaddr phentsize phnum : Nat) : List (Nat × Nat) :=
  [(atPagesz, 4096), (atEntry, entryPoint), (atPhdr, phdrVaddr), (atPhent, phentsize),
    (atPhnum, phnum), (atNull, 0)]

def setupUserStack (entryPoint phdrVaddr phentsize phnum : Nat) (argv envp : List (List Byte)) :
    Action VmState Fault Nat := do
  let (envpPtrs, sp) ←
    pushStrings "Environment list exceeds user stack limit (E2BIG)" envp userStackTop
  let (argvPtrs, sp) ← pushStrings "Argument list exceeds user stack limit (E2BIG)" argv sp
  let sp := sp / 8 * 8
  let auxv := auxVector entryPoint phdrVaddr phentsize phnum
  let totalWords := 1 + (argvPtrs.length + 1) + (envpPtrs.length + 1) + auxv.length * 2
  let totalBytes := totalWords * 8
  if sp < totalBytes then Action.fail (.error "Stack pointer underflow")
  else
    let targetSp := sp - totalBytes
    let alignedSp := targetSp / 16 * 16
    if alignedSp < stackBottom then
      Action.fail (.error "User stack frame exceeds user stack limit (E2BIG)")
    else do
      let sp := sp - (targetSp - alignedSp)
      let sp ← pushWords (auxv.reverse.flatMap fun (key, value) => [value, key]) sp
      let sp ← pushWords (0 :: envpPtrs.reverse) sp
      let sp ← pushWords (0 :: argvPtrs.reverse) sp
      let sp ← pushWords [argv.length] sp
      if sp ≠ alignedSp then Action.fail (.error "Stack alignment computation mismatch")
      else pure sp

structure LoadedElf where
  entryPoint : Nat
  userStackTop : Nat
  deriving DecidableEq, Repr

def loadElf (elfBytes : List Byte) (argv envp : List (List Byte)) :
    Action VmState Fault LoadedElf :=
  match checkHeader elfBytes with
  | .error fault => Action.fail fault
  | .ok header => do
    let phdrVaddr ← loadSegments elfBytes header (List.range header.phnum) 0
    VmSpace.allocAndMapRange stackBottom userStackSize PageFlags.userData
    let initialRsp ←
      setupUserStack header.entry phdrVaddr header.phentsize header.phnum argv envp
    pure ⟨header.entry, initialRsp⟩

end RustPosix.Process
