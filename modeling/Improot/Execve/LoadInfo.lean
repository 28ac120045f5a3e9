import Improot.Execve.Elf
import Improot.Path.Translate
import Improot.Syscall.Heap

/-!
# What is loaded, and where

`execve/enter.c` reads the program and its ELF interpreter, and lists the mappings they want; that
list is used three times after that: to choose the load addresses, to write the script of the
loader (`execve/exit.c`), and to place the heap when the program calls brk(2) (`syscall/heap.c`).
-/

namespace Improot.Execve

open Lib (Bytes)

variable {w : Nat}

structure Mapping (w : Nat) where
  addr : BitVec w
  length : BitVec w
  clearLength : BitVec w
  prot : BitVec w
  flags : BitVec w
  fd : BitVec w
  offset : BitVec w
  deriving DecidableEq

/-- `LoadInfo` of `execve/execve.h`.  Without a raw path of its own it refers to its user path. -/
structure LoadInfo (w : Nat) where
  hostPath : CString
  userPath : CString
  rawPath : Option CString
  mappings : List (Mapping w)
  elfHeader : ElfHeader
  needsExecutableStack : Bool
  interp : Option (LoadInfo w)

/-- A zeroed `LoadInfo`, with its paths. -/
def LoadInfo.zero (hostPath userPath : CString) (rawPath : Option CString) : LoadInfo w :=
  { hostPath := hostPath, userPath := userPath, rawPath := rawPath, mappings := [],
    elfHeader := ⟨false, 0, 0, 0, 0, 0⟩, needsExecutableStack := false, interp := none }

/-- The load addresses of an architecture; those of 32-bit objects if it has a 32-bit loader. -/
structure Arch (w : Nat) where
  execPicAddress : BitVec w
  interpPicAddress : BitVec w
  execPicAddress32 : Option (BitVec w)
  interpPicAddress32 : Option (BitVec w)

/-- What the tracer asks its host during an execve(2). -/
structure Loading (w : Nat) where
  arch : Arch w
  host : Syscall.Host w
  world : Path.World
  openFile : CString → Except Errno File
  exists? : CString → Bool
  executable : CString → Bool
  lstat : CString → Bool
  qemu : Bool
  /-- `errno` when the program headers of a file are looked for -/
  errno : CString → Option Errno

namespace Loading

variable (l : Loading w)

/-- `page_size`, which is initialized as `heap_offset` is. -/
def pageSize : BitVec w := l.host.heapOffset

def pageMask : BitVec w := ~~~ (l.pageSize - 1)

/-! ## Program headers -/

def protOf (flags : Nat) : BitVec w :=
  (if flags.testBit 2 then 1 else 0) ||| (if flags.testBit 1 then 2 else 0) |||
    (if flags.testBit 0 then 4 else 0)

def mapPrivateFixed : BitVec w := 0x02 ||| 0x10

def mapAnonymous : BitVec w := 0x20

def addMapping (mappings : List (Mapping w)) (p : ProgramHeader) : List (Mapping w) :=
  let start := BitVec.ofNat w p.vaddr &&& l.pageMask
  let fileEnd := BitVec.ofNat w (p.vaddr + p.filesz)
  let endAddress := (fileEnd + l.pageSize - 1) &&& l.pageMask
  let mapping : Mapping w :=
    { fd := -1, offset := BitVec.ofNat w p.offset &&& l.pageMask, addr := start,
      length := endAddress - start, flags := mapPrivateFixed, prot := protOf p.flags,
      clearLength := if p.memsz > p.filesz then endAddress - fileEnd else 0 }
  let memoryEnd := (BitVec.ofNat w (p.vaddr + p.memsz) + l.pageSize - 1) &&& l.pageMask
  -- new pages for the remaining extra bytes
  if p.memsz > p.filesz ∧ memoryEnd > endAddress then
    mappings ++ [mapping,
      { fd := -1, offset := 0, addr := endAddress, length := memoryEnd - endAddress,
        clearLength := 0, flags := mapPrivateFixed ||| mapAnonymous, prot := protOf p.flags }]
  else mappings ++ [mapping]

def translateAndCheckExec (userPath : CString) : Except Fault CString :=
  if userPath = [] then .error .enoexec
  else
    match (Path.translatePath .cwd userPath true l.world).1 with
    | .error failure => .error (.failure failure)
    | .ok hostPath =>
      if ¬ l.exists? hostPath then .error (.errno .enoent)
      else if ¬ l.executable hostPath then .error (.errno .eacces)
      else if ¬ l.lstat hostPath then .error (.errno .eperm)
      else .ok hostPath

def hostRootfs : CString := "/host-rootfs".toList

/-- The name in a `PT_INTERP` segment. -/
def interpName (content : Bytes) (p : ProgramHeader) : CString :=
  (((content.drop p.offset).take p.filesz).takeWhile (· ≠ 0)).map fun b => Char.ofNat b.toNat

/-- The guest path of an ELF interpreter: below `HOST_ROOTFS` when a QEMU command was specified. -/
def interpUserPath (name : CString) : CString :=
  if l.qemu ∧ name.head? = some '/' then hostRootfs ++ name else name

def addInterp (file : File) (info : LoadInfo w) (p : ProgramHeader) :
    Except Fault (LoadInfo w) :=
  -- only one PT_INTERP segment is allowed
  if info.interp.isSome then .error (.errno .einval)
  -- the allocator has a limit; its size wraps
  else if (p.filesz + 1) % 2 ^ 64 ≥ 0x10000000 then .error (.errno .enomem)
  -- the error of pread(2) is the size that was expected
  else if p.filesz = 2 ^ 64 - 1 then .error (.errno .eperm)
  else if p.offset ≥ 2 ^ 63 ∨ ((file.content.drop p.offset).take p.filesz).length ≠ p.filesz then
    .error (.errno .eacces)
  else
    let userPath := l.interpUserPath (interpName file.content p)
    match l.translateAndCheckExec userPath with
    | .error fault => .error fault
    | .ok hostPath => .ok { info with interp := some (.zero hostPath userPath none) }

def addLoadInfo (file : File) (p : ProgramHeader) (info : LoadInfo w) :
    Except Fault (LoadInfo w) :=
  if p.type = ptLoad then .ok { info with mappings := l.addMapping info.mappings p }
  else if p.type = ptInterp then l.addInterp file info p
  else if p.type = ptGnuStack then
    .ok { info with needsExecutableStack := info.needsExecutableStack || p.flags.testBit 0 }
  else .ok info

def extractLoadInfo (info : LoadInfo w) : Except Fault (LoadInfo w) :=
  match l.openFile info.hostPath with
  | .error e => .error (.errno e)
  | .ok file =>
    match openElf file.content with
    | .error fault => .error fault
    | .ok header =>
      if header.type ≠ etExec ∧ header.type ≠ etDyn then .error (.errno .einval)
      else
        iterateProgramHeaders file (l.errno info.hostPath) header (l.addLoadInfo file)
          { info with elfHeader := header }

/-- `translate_execve_enter` calls `extract_load_info` for the program, and for its interpreter,
which is supposed to be standalone. -/
def extractAll (info : LoadInfo w) : Except Fault (LoadInfo w) :=
  match l.extractLoadInfo info with
  | .error fault => .error fault
  | .ok info =>
    match info.interp with
    | none => .ok info
    | some interp =>
      match l.extractLoadInfo interp with
      | .error fault => .error fault
      | .ok interp => .ok { info with interp := some { interp with interp := none } }

end Loading

/-! ## Load addresses -/

def element {α : Type} : Option α → Except Fault α
  | none => .error .outOfRange
  | some a => .ok a

def addLoadBase (info : LoadInfo w) (loadBase : BitVec w) : LoadInfo w :=
  { info with
    mappings := info.mappings.map fun m => { m with addr := m.addr + loadBase }
    elfHeader :=
      { info.elfHeader with
        entry := (info.elfHeader.entry + loadBase.toNat) %
          2 ^ (if info.elfHeader.class64 then 64 else 32) } }

def relocate (info : LoadInfo w) (loadBase : BitVec w) : Except Fault (LoadInfo w) :=
  if info.elfHeader.isPositionIndependent then
    match element info.mappings.head? with
    | .error fault => .error fault
    | .ok first => .ok (if first.addr = 0 then addLoadBase info loadBase else info)
  else .ok info

/-- The address for 32-bit objects, when the *program* is one and there is such an address. -/
def picAddress (program : ElfHeader) (address32 : Option (BitVec w)) (address : BitVec w) :
    BitVec w :=
  if program.class64 then address else address32.getD address

def computeLoadAddresses (arch : Arch w) (info : LoadInfo w) : Except Fault (LoadInfo w) :=
  match relocate info (picAddress info.elfHeader arch.execPicAddress32 arch.execPicAddress) with
  | .error fault => .error fault
  | .ok info =>
    match info.interp with
    | none => .ok info
    | some interp =>
      match relocate interp
          (picAddress info.elfHeader arch.interpPicAddress32 arch.interpPicAddress) with
      | .error fault => .error fault
      | .ok interp => .ok { info with interp := some interp }

/-- `translate_execve_enter`, from the allocation of `load_info` on. -/
def translateExecveEnter (l : Loading w) (hostPath userPath : CString) (rawPath : Option CString) :
    Except Fault (LoadInfo w) :=
  match l.extractAll (.zero hostPath userPath rawPath) with
  | .error fault => .error fault
  | .ok info => computeLoadAddresses l.arch info

/-! ## The script of the loader -/

inductive LoadStatement (w : Nat) where
  | openNext (stringAddress : BitVec w)
  | open (stringAddress : BitVec w)
  | mmapFile (addr length prot offset clearLength : BitVec w)
  | mmapAnon (addr length prot offset clearLength : BitVec w)
  | makeStackExec (start : BitVec w)
  | start (traced : Bool)
      (stackPointer entryPoint atPhdr atPhent atPhnum atEntry atExecfn : BitVec w)

/-- `LOAD_STATEMENT_SIZE`, in words. -/
def LoadStatement.size : LoadStatement w → Nat
  | .openNext _ | .open _ | .makeStackExec _ => 2
  | .mmapFile .. | .mmapAnon .. => 6
  | .start .. => 8

def transcriptMappings (mappings : List (Mapping w)) : List (LoadStatement w) :=
  mappings.map fun m =>
    if m.flags &&& Loading.mapAnonymous ≠ 0 then
      .mmapAnon m.addr m.length m.prot m.offset m.clearLength
    else .mmapFile m.addr m.length m.prot m.offset m.clearLength

/-- Where the strings are put below the stack pointer: the user path, the one of the interpreter and
the raw path. -/
def stringAddresses (alignment : BitVec w) (stackPointer : BitVec w) (info : LoadInfo w) :
    BitVec w × BitVec w × BitVec w :=
  let size (s : CString) : BitVec w := BitVec.ofNat w (s.length + 1)
  let size1 := size info.userPath
  let size2 := (info.interp.map fun interp => size interp.userPath).getD 0
  let size3 := (info.rawPath.map size).getD 0
  let padding := (stackPointer - size1 - size2 - size3) % alignment
  let base := stackPointer - (size1 + size2 + size3 + padding)
  (base, base + size1, if info.rawPath.isNone then base else base + size1 + size2)

/-- `transfer_load_script`: the statements that are written to the memory of the tracee. -/
def transferLoadScript (l : Loading w) (alignment : BitVec w) (traced : Bool)
    (stackPointer : BitVec w) (info : LoadInfo w) : Except Fault (List (LoadStatement w)) :=
  let needsExecutableStack := info.needsExecutableStack ||
    (info.interp.map (·.needsExecutableStack)).getD false
  let strings := stringAddresses alignment stackPointer info
  let scriptSize := 2 + 6 * info.mappings.length +
    (info.interp.map fun interp => 2 + 6 * interp.mappings.length).getD 0 +
    (if needsExecutableStack then 2 else 0) + 8
  let script := .open strings.1 :: transcriptMappings info.mappings
  let script := script ++
    (info.interp.map fun interp =>
      .openNext strings.2.1 :: transcriptMappings interp.mappings).getD []
  let entryPoint := (info.interp.getD info).elfHeader.entry
  let script := script ++
    (if needsExecutableStack then [.makeStackExec (stackPointer &&& l.pageMask)] else [])
  match element info.mappings.head? with
  | .error fault => .error fault
  | .ok first =>
    let script := script ++
      [.start traced stackPointer (BitVec.ofNat w entryPoint)
        (BitVec.ofNat w info.elfHeader.phoff + first.addr)
        (BitVec.ofNat w info.elfHeader.phentsize) (BitVec.ofNat w info.elfHeader.phnum)
        (BitVec.ofNat w info.elfHeader.entry) strings.2.2]
    -- "Sanity check."
    if (script.map LoadStatement.size).sum ≠ scriptSize then .error (.failure .abort)
    else .ok script

/-! ## The heap -/

/-- `translate_brk_enter`: the end of the last mapping is read when the heap is to be put there. -/
def translateBrkEnter (info : LoadInfo w) (host : Syscall.Host w) (heapOffset : BitVec w)
    (heap : Syscall.Heap w) (regs : Syscall.BrkRegs w) :
    Except Fault (BitVec w × Syscall.BrkRegs w) :=
  if ¬ heap.disabled ∧ heap.base = 0 ∧ regs.sysarg1 = 0 then
    match element info.mappings.getLast? with
    | .error fault => .error fault
    | .ok bss => .ok (Syscall.translateBrkEnter host (bss.addr + bss.length) heapOffset heap regs)
  else .ok (Syscall.translateBrkEnter host 0 heapOffset heap regs)

end Improot.Execve
