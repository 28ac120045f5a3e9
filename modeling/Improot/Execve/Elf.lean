import Improot.Lib.Records
import Improot.Path.Tracee

/-!
# ELF files

`execve/elf.c`: the header of an ELF file, and the walk over its program headers.  Fields are in the
byte order of the host, which is little-endian here.
-/

namespace Improot.Execve

open Lib (Bytes readLe)

inductive Fault where
  | failure (failure : Path.Failure)
  | enoexec
  | enotsup
  /-- an element is read that its array doesn't have -/
  | outOfRange
  deriving DecidableEq, Repr

/-- A function returns `-errno`. -/
abbrev Fault.errno (e : Errno) : Fault := .failure (.errno e)

structure File where
  content : Bytes
  maxOffset : Nat

/-! ## Headers -/

structure ElfHeader where
  class64 : Bool
  type : Nat
  entry : Nat
  phoff : Nat
  phentsize : Nat
  phnum : Nat
  deriving DecidableEq, Repr

def etExec : Nat := 2

def etDyn : Nat := 3

/-- `IS_POSITION_INDENPENDANT`. -/
def ElfHeader.isPositionIndependent (header : ElfHeader) : Bool := header.type = etDyn

/-- `ELF_FIELD`, for each field. -/
def ElfHeader.read (content : Bytes) : ElfHeader :=
  if readLe 1 4 content = 2 then
    { class64 := true, type := readLe 2 16 content, entry := readLe 8 24 content,
      phoff := readLe 8 32 content, phentsize := readLe 2 54 content,
      phnum := readLe 2 56 content }
  else
    { class64 := false, type := readLe 2 16 content, entry := readLe 4 24 content,
      phoff := readLe 4 28 content, phentsize := readLe 2 42 content,
      phnum := readLe 2 44 content }

/-- `open_elf`, once the file is open: its header. -/
def openElf (content : Bytes) : Except Fault ElfHeader :=
  if content.length < 64 ∨ content.take 4 ≠ [0x7f, 0x45, 0x4c, 0x46] then .error .enoexec
  else if readLe 1 4 content ≠ 1 ∧ readLe 1 4 content ≠ 2 then .error .enoexec
  else .ok (ElfHeader.read content)

structure ProgramHeader where
  type : Nat
  offset : Nat
  vaddr : Nat
  filesz : Nat
  memsz : Nat
  flags : Nat
  deriving DecidableEq, Repr

def ptLoad : Nat := 1

def ptInterp : Nat := 3

def ptGnuStack : Nat := 0x6474e551

/-- `PROGRAM_FIELD`, for each field. -/
def ProgramHeader.read (class64 : Bool) (bytes : Bytes) : ProgramHeader :=
  if class64 then
    { type := readLe 4 0 bytes, flags := readLe 4 4 bytes, offset := readLe 8 8 bytes,
      vaddr := readLe 8 16 bytes, filesz := readLe 8 32 bytes, memsz := readLe 8 40 bytes }
  else
    { type := readLe 4 0 bytes, offset := readLe 4 4 bytes, vaddr := readLe 4 8 bytes,
      filesz := readLe 4 16 bytes, memsz := readLe 4 20 bytes, flags := readLe 4 24 bytes }

def ElfHeader.knownPhentsize (header : ElfHeader) : Bool :=
  header.phentsize = if header.class64 then 56 else 32

/-! ## The walk -/

variable {σ : Type}

/-- The loop of `iterate_program_headers`, over what remains to be read. -/
def iterateHeaders (header : ElfHeader) (callback : ProgramHeader → σ → Except Fault σ) :
    (count : Nat) → (rest : Bytes) → (data : σ) → Except Fault σ
  | 0, _, data => .ok data
  | count + 1, rest, data =>
    if (rest.take header.phentsize).length ≠ header.phentsize then .error .enotsup
    else
      match callback (ProgramHeader.read header.class64 rest) data with
      | .error fault => .error fault
      | .ok data => iterateHeaders header callback count (rest.drop header.phentsize) data

/-- The position that `lseek` returns is negative once it is an `int`. -/
def wrapped (offset : Nat) : Bool := 2 ^ 31 ≤ offset % 2 ^ 32

/-- `iterate_program_headers`.  `errno` is the error of an earlier call, if there is one. -/
def iterateProgramHeaders (file : File) (errno : Option Errno) (header : ElfHeader)
    (callback : ProgramHeader → σ → Except Fault σ) (data : σ) : Except Fault σ :=
  if header.phnum ≥ 0xffff then .error .enotsup
  else if ¬ header.knownPhentsize then .error .enotsup
  else if file.maxOffset < header.phoff then .error (.errno .einval)
  else if wrapped header.phoff then
    -- `-errno`, although the call succeeded
    match errno with
    | some e => .error (.errno e)
    | none => .ok data
  else iterateHeaders header callback header.phnum (file.content.drop header.phoff) data

end Improot.Execve
