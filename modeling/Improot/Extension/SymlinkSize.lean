import Improot.Syscall.Readlink
import Improot.Tracee.Requests

/-!
# The size of a symbolic link

`fix_symlink_size`: at the exit of lstat(2), `st_size` is overwritten where the path leads to a symbolic
link.  The structure of the tracee is read and written with the layout that it has in PRoot.
-/

namespace Improot.Extension.SymlinkSize

open Improot.Lib Improot.Path Improot.Syscall

abbrev Space := Lib.Memory

/-! ## Layouts -/

structure StatLayout where
  size : Nat
  offset : Nat
  width : Nat
  deriving DecidableEq, Repr

/-- The system calls that are handled, by the structure that the kernel fills in: lstat(2) of the
64-bit ABI and of x32, lstat(2) and lstat64(2) of i386 and SH4, lstat64(2) of ARM.  The oldest structure
is the same one on i386, SH4 and ARM. -/
inductive LstatCall where
  | lstat64Bit | lstat32Bit | lstat64 | lstat64Arm
  deriving DecidableEq, Repr

def LstatCall.stat : LstatCall → StatLayout
  | .lstat64Bit => ⟨144, 48, 8⟩
  | .lstat32Bit => ⟨64, 20, 4⟩
  | .lstat64 => ⟨96, 44, 8⟩
  | .lstat64Arm => ⟨104, 48, 8⟩

inductive Arch where
  | x86_64 | armEabi | arm64 | x86 | sh4
  deriving DecidableEq, Repr

/-- `struct stat`, with `_FILE_OFFSET_BITS` set to 64. -/
def Arch.stat : Arch → StatLayout
  | .x86_64 => ⟨144, 48, 8⟩
  | .armEabi => ⟨104, 48, 8⟩
  | .arm64 => ⟨128, 48, 8⟩
  | .x86 | .sh4 => ⟨96, 44, 8⟩

/-- The size of `word_t`. -/
def Arch.wordSize : Arch → Nat
  | .x86_64 | .arm64 => 8
  | .armEabi | .x86 | .sh4 => 4

def Arch.calls : Arch → List LstatCall
  | .x86_64 => [.lstat64Bit, .lstat32Bit, .lstat64]
  | .armEabi | .arm64 => [.lstat32Bit, .lstat64Arm]
  | .x86 | .sh4 => [.lstat32Bit, .lstat64]

/-! ## The handler -/

def readable (m : Space) : Tracee.ProcessVmReadv
  | _, 0 => []
  | a, n + 1 =>
    match m.byte? a with
    | none => []
    | some b => b :: readable m (a + 1) n

/-- `write_data`, with process_vm_writev(2). -/
def writeData (w : Nat) (m : Space) (dest : Nat) (src : Bytes) : Space × Except Errno Unit :=
  match m.store dest src with
  | (m, true) => (m, .ok ())
  | (m, false) => Tracee.writeDataFallback w m dest src

structure LstatExit (arch : Arch) where
  result : Except Errno Unit
  original : Except Errno CString
  buf : Nat
  /-- what PRoot's own lstat(2) puts into its structure -/
  statl : Bytes
  sized : statl.length = arch.stat.size

/-- `handle_sysexit_end`: the result of the system call, and the memory of the tracee. -/
def handleSysexitEnd (w : World) {arch : Arch} (exit : LstatExit arch) (m : Space) :
    Except Errno Unit × Space :=
  match exit.result with
  -- override only if it succeeds
  | .error e => (.error e, m)
  | .ok () =>
    match exit.original with
    | .error e => (.error e, m)
    | .ok original =>
      if original.length + 1 ≥ pathMax then (.error .enametoolong, m)
      else
        match w.host.lstat original with
        -- the status is -1
        | .error _ => (.error .eperm, m)
        | .ok type =>
          if type ≠ .lnk then (.ok (), m)
          else
            match w.host.readlink original with
            | .error _ => (.error .eperm, m)
            | .ok intermediate =>
              let size := min intermediate.length pathMax
              -- whether the structure can be read isn't checked
              let statl := (Tracee.readData arch.wordSize (readable m) m exit.statl exit.buf
                arch.stat.size).1
              let (m, status) := writeData arch.wordSize m exit.buf
                (patch statl arch.stat.offset (le arch.stat.width size))
              (status, m)

/-! ## What is to be -/

/-- **A call that is to be fixed**: the path leads to a symbolic link, and the kernel has filled in the
structure of the tracee. -/
structure Lstats (w : World) {arch : Arch} (call : LstatCall) (exit : LstatExit arch) (m : Space)
    (path target : CString) : Prop where
  handled : call ∈ arch.calls
  result : exit.result = .ok ()
  original : exit.original = .ok path
  -- as long as a translated path is at most
  absolute : path ≠ []
  fits : path.length + 1 < pathMax
  link : w.host.lstat path = .ok .lnk
  content : w.host.readlink path = .ok target
  nonempty : target ≠ []
  short : target.length < pathMax
  filled : m.Writable exit.buf call.stat.size

/-- The tracee finds `size` in `st_size`, and what the kernel left everywhere else. -/
structure Reports (call : LstatCall) (m : Space) (buf size : Nat) (r : Except Errno Unit × Space) :
    Prop where
  result : r.1 = .ok ()
  memory : r.2 = (m.store (buf + call.stat.offset) (le call.stat.width size)).1

/-- The same link, read with a buffer that is large enough. -/
structure Reads (call : ReadlinkCall) (path target : CString) (m : Syscall.Memory) : Prop where
  number : call.number = .readlink
  input : call.input = path
  large : pathMax ≤ call.maxSize
  kernel : call.result = .ok target.length
  stored : readData m call.output target.length = target

/-- **The size of a link is what readlink(2) returns**, whatever the buffer. -/
def SizeIsLength (w : World) (extensions : ReadlinkProcFd) {arch : Arch} (call : LstatCall)
    (exit : LstatExit arch) (m : Space) (path target : CString) : Prop :=
  ∀ readlink m', Reads readlink path target m' →
    ∃ size, (readlinkExit w extensions readlink m').1 = .ok size ∧
      Reports call m exit.buf size (handleSysexitEnd w exit m)

end Improot.Extension.SymlinkSize
