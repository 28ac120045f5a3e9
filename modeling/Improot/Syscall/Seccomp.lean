import Mathlib.Data.BitVec
import Improot.Lib.Bpf
import Improot.Syscall.Sysnum

/-!
# The seccomp filter

`syscall/seccomp.c`: PRoot merges its own list of system calls with the lists of the extensions,
and writes the classic BPF program that tells the kernel which system calls to trace.
-/

namespace Improot.Syscall

open Improot.Lib.Bpf Sysnum

/-! ## The lists of system calls -/

structure FilteredSysnum where
  value : Sysnum
  flags : BitVec 64

def filterSysexit : BitVec 64 := 0x1

/-- The system calls PRoot handles; some of them on Android only. -/
def prootSysnums (android : Bool) : List FilteredSysnum :=
  [⟨PR_accept, filterSysexit⟩, ⟨PR_accept4, filterSysexit⟩, ⟨PR_access, 0⟩, ⟨PR_acct, 0⟩,
    ⟨PR_bind, 0⟩, ⟨PR_brk, filterSysexit⟩, ⟨PR_chdir, filterSysexit⟩, ⟨PR_chmod, 0⟩,
    ⟨PR_chown, 0⟩, ⟨PR_chown32, 0⟩, ⟨PR_chroot, 0⟩, ⟨PR_clone, 0⟩, ⟨PR_clone3, 0⟩,
    ⟨PR_connect, 0⟩, ⟨PR_creat, 0⟩, ⟨PR_recvfrom, 0⟩, ⟨PR_recvmsg, 0⟩, ⟨PR_sendmsg, 0⟩,
    ⟨PR_sendto, 0⟩, ⟨PR_socket, filterSysexit⟩, ⟨PR_execve, filterSysexit⟩,
    ⟨PR_execveat, filterSysexit⟩, ⟨PR_faccessat, 0⟩, ⟨PR_faccessat2, filterSysexit⟩,
    ⟨PR_fchdir, filterSysexit⟩, ⟨PR_fchmodat, 0⟩, ⟨PR_fchownat, 0⟩, ⟨PR_fstatat64, 0⟩,
    ⟨PR_futimesat, 0⟩, ⟨PR_getcwd, filterSysexit⟩, ⟨PR_getpeername, filterSysexit⟩,
    ⟨PR_getsockname, filterSysexit⟩, ⟨PR_getxattr, 0⟩, ⟨PR_inotify_add_watch, 0⟩] ++
  (if android then [⟨PR_ioctl, filterSysexit⟩] else []) ++
  [⟨PR_lchown, 0⟩, ⟨PR_lchown32, 0⟩, ⟨PR_lgetxattr, 0⟩, ⟨PR_link, 0⟩, ⟨PR_linkat, 0⟩,
    ⟨PR_listxattr, 0⟩, ⟨PR_llistxattr, 0⟩, ⟨PR_lremovexattr, 0⟩, ⟨PR_lsetxattr, 0⟩, ⟨PR_lstat, 0⟩,
    ⟨PR_lstat64, 0⟩] ++
  (if android then [⟨PR_memfd_create, 0⟩] else []) ++
  [⟨PR_mkdir, 0⟩, ⟨PR_mkdirat, 0⟩, ⟨PR_mknod, 0⟩, ⟨PR_mknodat, 0⟩, ⟨PR_mount, filterSysexit⟩,
    ⟨PR_name_to_handle_at, 0⟩, ⟨PR_newfstatat, 0⟩, ⟨PR_oldlstat, 0⟩, ⟨PR_oldstat, 0⟩,
    ⟨PR_open, 0⟩, ⟨PR_openat, 0⟩, ⟨PR_openat2, 0⟩, ⟨PR_pivot_root, filterSysexit⟩, ⟨PR_prctl, 0⟩,
    ⟨PR_prlimit64, filterSysexit⟩, ⟨PR_ptrace, filterSysexit⟩, ⟨PR_readlink, filterSysexit⟩,
    ⟨PR_readlinkat, filterSysexit⟩, ⟨PR_removexattr, 0⟩, ⟨PR_rename, filterSysexit⟩,
    ⟨PR_renameat, filterSysexit⟩, ⟨PR_renameat2, filterSysexit⟩, ⟨PR_rmdir, 0⟩,
    ⟨PR_setrlimit, filterSysexit⟩, ⟨PR_setxattr, 0⟩, ⟨PR_socketcall, filterSysexit⟩, ⟨PR_stat, 0⟩,
    ⟨PR_stat64, 0⟩, ⟨PR_statfs, filterSysexit⟩, ⟨PR_statfs64, filterSysexit⟩,
    ⟨PR_statx, filterSysexit⟩, ⟨PR_swapoff, 0⟩, ⟨PR_swapon, 0⟩, ⟨PR_symlink, 0⟩,
    ⟨PR_symlinkat, 0⟩, ⟨PR_truncate, 0⟩, ⟨PR_truncate64, 0⟩, ⟨PR_umount, filterSysexit⟩,
    ⟨PR_umount2, filterSysexit⟩, ⟨PR_uname, filterSysexit⟩, ⟨PR_unshare, filterSysexit⟩,
    ⟨PR_setns, filterSysexit⟩, ⟨PR_unlink, 0⟩, ⟨PR_unlinkat, 0⟩, ⟨PR_uselib, 0⟩,
    ⟨PR_utime, filterSysexit⟩, ⟨PR_utimensat, 0⟩, ⟨PR_utimes, 0⟩, ⟨PR_wait4, filterSysexit⟩,
    ⟨PR_waitpid, filterSysexit⟩]

def untilVoid (sysnums : List FilteredSysnum) : List FilteredSysnum :=
  sysnums.takeWhile (·.value ≠ PR_void)

def mergeFilteredSysnum : List FilteredSysnum → FilteredSysnum → List FilteredSysnum
  | [], new => [new]
  | sysnum :: sysnums, new =>
      if sysnum.value = new.value then
        { sysnum with flags := sysnum.flags ||| new.flags } :: sysnums
      else sysnum :: mergeFilteredSysnum sysnums new

def mergeFilteredSysnums (sysnums newSysnums : List FilteredSysnum) : List FilteredSysnum :=
  (untilVoid newSysnums).foldl mergeFilteredSysnum sysnums

/-! ## The program -/

/-- What makes the construction of the program fail: a sanity check, or an assertion. -/
inductive FilterError where
  | ERANGE
  | assertion
  deriving DecidableEq

structure SockFprog where
  len : BitVec 16
  filter : List Insn

def newProgramFilter : SockFprog := ⟨0, []⟩

def SockFprog.addStatements (program : SockFprog) (statements : List Insn) : SockFprog :=
  { program with filter := program.filter ++ statements }

def seccompRetKill : BitVec 32 := 0x00000000

def seccompRetTrace : BitVec 32 := 0x7ff00000

def seccompRetAllow : BitVec 32 := 0x7fff0000

def lengthTraceSyscall : Nat := 2

def lengthEndSection : Nat := 1

def uint32Max : Nat := 0xffffffff

/-- The offset of `nr` in `struct seccomp_data`. -/
def syscallOffset : BitVec 32 := 0

def archOffset : BitVec 32 := 4

/-- The statements of `add_trace_syscall`; the flags are cut down to an `int`. -/
def traceSyscall (syscall : Nat) (flag : BitVec 64) : List Insn :=
  [.jmpJeqK (BitVec.ofNat 32 syscall) 0 1, .retK (seccompRetTrace + flag.setWidth 32)]

def addTraceSyscall (program : SockFprog) (syscall : Nat) (flag : BitVec 64) :
    Except FilterError SockFprog :=
  if syscall > uint32Max then .error .ERANGE
  else .ok (program.addStatements (traceSyscall syscall flag))

def endArchSection (program : SockFprog) (nbTracedSyscalls : Nat) :
    Except FilterError SockFprog :=
  let program := program.addStatements [.retK seccompRetAllow]
  if program.filter.length - program.len.toNat ≠
      lengthEndSection + nbTracedSyscalls * lengthTraceSyscall then .error .ERANGE
  else .ok program

/-- The statements of `start_arch_section`. -/
def checkArch (arch : BitVec 32) (sectionLength : Nat) : List Insn :=
  [.ldWAbs archOffset, .jmpJeqK arch 1 0, .jmpJa (BitVec.ofNat 32 (sectionLength + 1)),
    .ldWAbs syscallOffset]

def startArchSection (program : SockFprog) (arch : BitVec 32) (nbTracedSyscalls : Nat) :
    Except FilterError SockFprog :=
  let sectionLength := lengthEndSection + nbTracedSyscalls * lengthTraceSyscall
  if archOffset.toNat > uint32Max ∨ syscallOffset.toNat > uint32Max ∨
      sectionLength > uint32Max - 1 then .error .ERANGE
  else
    let program := program.addStatements (checkArch arch sectionLength)
    .ok { program with len := BitVec.ofNat 16 program.filter.length }

def finalizeProgramFilter (program : SockFprog) : SockFprog :=
  let program := program.addStatements [.retK seccompRetKill]
  { program with len := BitVec.ofNat 16 program.filter.length }

/-! ## The architectures -/

structure SeccompArch where
  value : BitVec 32
  abis : List Abi

/-- `SECCOMP_ARCHS`, with the numbers of `linux/audit.h`. -/
def Arch.seccompArchs : Arch → List SeccompArch
  | .ARCH_X86_64 => [⟨0xC000003E, [.ABI_DEFAULT, .ABI_3]⟩, ⟨0x40000003, [.ABI_2]⟩]
  | .ARCH_ARM_EABI => [⟨0x40000028, [.ABI_DEFAULT]⟩]
  | .ARCH_ARM64 => [⟨0xC00000B7, [.ABI_DEFAULT]⟩, ⟨0x40000028, [.ABI_2]⟩]
  | .ARCH_X86 => [⟨0x40000003, [.ABI_DEFAULT]⟩]
  | .ARCH_SH4 => []

structure Build where
  arch : Arch
  android : Bool

/-- `detranslate_sysnum`, whose assertion may fail. -/
def sysnumOf (arch : Arch) (abi : Abi) (sysnum : Sysnum) : Except FilterError Nat :=
  match detranslateSysnum arch abi sysnum with
  | some syscall => .ok syscall
  | none => .error .assertion

def countSysnum (arch : Arch) (abi : Abi) (nbTracedSyscalls : Nat) (sysnum : FilteredSysnum) :
    Except FilterError Nat := do
  let syscall ← sysnumOf arch abi sysnum.value
  pure (if syscall ≠ arch.syscallAvoider then nbTracedSyscalls + 1 else nbTracedSyscalls)

def countTraced (arch : Arch) (sysnums : List FilteredSysnum) (nbTracedSyscalls : Nat)
    (abi : Abi) : Except FilterError Nat :=
  (untilVoid sysnums).foldlM (countSysnum arch abi) nbTracedSyscalls

def addSysnum (arch : Arch) (abi : Abi) (program : SockFprog) (sysnum : FilteredSysnum) :
    Except FilterError SockFprog := do
  let syscall ← sysnumOf arch abi sysnum.value
  if syscall = arch.syscallAvoider then pure program
  else addTraceSyscall program syscall sysnum.flags

def addTraced (arch : Arch) (sysnums : List FilteredSysnum) (program : SockFprog) (abi : Abi) :
    Except FilterError SockFprog :=
  (untilVoid sysnums).foldlM (addSysnum arch abi) program

def addArchSection (arch : Arch) (sysnums : List FilteredSysnum) (program : SockFprog)
    (seccompArch : SeccompArch) : Except FilterError SockFprog := do
  let nbTracedSyscalls ← seccompArch.abis.foldlM (countTraced arch sysnums) 0
  let program ← startArchSection program seccompArch.value nbTracedSyscalls
  let program ← seccompArch.abis.foldlM (addTraced arch sysnums) program
  endArchSection program nbTracedSyscalls

/-- `set_seccomp_filters`, up to the program that prctl(2) gets. -/
def setSeccompFilters (arch : Arch) (sysnums : List FilteredSysnum) :
    Except FilterError SockFprog := do
  let program ← arch.seccompArchs.foldlM (addArchSection arch sysnums) newProgramFilter
  pure (finalizeProgramFilter program)

/-- The list of an extension in `enable_syscall_filtering`; an extension may have none. -/
def mergeExtension (sysnums : List FilteredSysnum) :
    Option (List FilteredSysnum) → List FilteredSysnum
  | none => sysnums
  | some filtered => mergeFilteredSysnums sysnums filtered

/-- The list `enable_syscall_filtering` makes. -/
def filteredSysnums (build : Build) (extensions : List (Option (List FilteredSysnum))) :
    List FilteredSysnum :=
  extensions.foldl mergeExtension (mergeFilteredSysnums [] (prootSysnums build.android))

def enableSyscallFiltering (build : Build) (extensions : List (Option (List FilteredSysnum))) :
    Except FilterError SockFprog :=
  setSeccompFilters build.arch (filteredSysnums build extensions)

structure SeccompData where
  nr : BitVec 32
  arch : BitVec 32

/-- A load from `struct seccomp_data`. -/
def SeccompData.load (data : SeccompData) (offset : BitVec 32) : Option (BitVec 32) :=
  if offset = syscallOffset then some data.nr
  else if offset = archOffset then some data.arch
  else none

/-- The kernel runs the first `len` statements. -/
def SockFprog.run (program : SockFprog) (data : SeccompData) : Option (BitVec 32) :=
  exec data.load (program.filter.take program.len.toNat) 0

end Improot.Syscall
