import Improot.Path.Basic

/-!
# statx

`tracee/statx.c`: the answer of the kernel to statx(2) is shown to the extensions, and where there is
none (the call failed, or a seccomp policy refused it) it is made up from stat(2).
-/

namespace Improot.Tracee

/-! ## What is reported about a file -/

structure Timespec where
  sec : BitVec 64
  nsec : BitVec 32
  deriving DecidableEq, Repr

structure Stat where
  mode : BitVec 16
  nlink : BitVec 32
  uid : BitVec 32
  gid : BitVec 32
  ino : BitVec 64
  size : BitVec 64
  blocks : BitVec 64
  blksize : BitVec 32
  atime : Timespec
  mtime : Timespec
  ctime : Timespec
  rdevMajor : BitVec 32
  rdevMinor : BitVec 32
  deriving DecidableEq, Repr

structure Statx where
  stxMask : BitVec 32
  mode : BitVec 16
  nlink : BitVec 32
  uid : BitVec 32
  gid : BitVec 32
  ino : BitVec 64
  size : BitVec 64
  blocks : BitVec 64
  blksize : BitVec 32
  atime : Timespec
  btime : Timespec
  mtime : Timespec
  ctime : Timespec
  rdevMajor : BitVec 32
  rdevMinor : BitVec 32
  deriving DecidableEq, Repr

/-- The bits of `stx_mask`, from `STATX_TYPE` to `STATX_BTIME`. -/
inductive StatxField where
  | type | mode | nlink | uid | gid | atime | mtime | ctime | ino | size | blocks | btime
  deriving DecidableEq, Repr

def StatxField.bit : StatxField → Nat
  | .type => 0
  | .mode => 1
  | .nlink => 2
  | .uid => 3
  | .gid => 4
  | .atime => 5
  | .mtime => 6
  | .ctime => 7
  | .ino => 8
  | .size => 9
  | .blocks => 10
  | .btime => 11

/-- `mask & STATX_…`. -/
def hasField (mask : BitVec 32) (f : StatxField) : Bool := mask.getLsbD f.bit

def statxFields : BitVec 32 := 0xfff

@[simp] theorem hasField_and_statxFields (mask : BitVec 32) (f : StatxField) :
    hasField (mask &&& statxFields) f = hasField mask f := by
  have hbit : statxFields.getLsbD f.bit = true := by cases f <;> decide
  rw [hasField, BitVec.getLsbD_and, hbit, Bool.and_true]
  rfl

inductive StatValue where
  | number (n : Nat)
  | time (t : Timespec)
  deriving DecidableEq, Repr

def sIfmt : BitVec 16 := 0xf000

def Statx.value (b : Statx) : StatxField → StatValue
  | .type => .number (b.mode &&& sIfmt).toNat
  | .mode => .number (b.mode &&& ~~~sIfmt).toNat
  | .nlink => .number b.nlink.toNat
  | .uid => .number b.uid.toNat
  | .gid => .number b.gid.toNat
  | .atime => .time b.atime
  | .mtime => .time b.mtime
  | .ctime => .time b.ctime
  | .ino => .number b.ino.toNat
  | .size => .number b.size.toNat
  | .blocks => .number b.blocks.toNat
  | .btime => .time b.btime

/-- The value that stat(2) reports for a field; it doesn't report when a file was born. -/
def Stat.value? (s : Stat) : StatxField → Option StatValue
  | .type => some (.number (s.mode &&& sIfmt).toNat)
  | .mode => some (.number (s.mode &&& ~~~sIfmt).toNat)
  | .nlink => some (.number s.nlink.toNat)
  | .uid => some (.number s.uid.toNat)
  | .gid => some (.number s.gid.toNat)
  | .atime => some (.time s.atime)
  | .mtime => some (.time s.mtime)
  | .ctime => some (.time s.ctime)
  | .ino => some (.number s.ino.toNat)
  | .size => some (.number s.size.toNat)
  | .blocks => some (.number s.blocks.toNat)
  | .btime => none

/-- Is every field that `stx_mask` reports the one of a `struct stat`? -/
def Statx.Agrees (b : Statx) (s : Stat) : Prop :=
  ∀ f, hasField b.stxMask f → ∀ v, s.value? f = some v → b.value f = v

/-! ## The call -/

def atSymlinkNofollow : Nat := 0x100

def atEmptyPath : Nat := 0x1000

structure StatxCall where
  dirfd : Int
  path : Except Errno CString
  flags : Nat
  mask : BitVec 32

/-- `flags & AT_SYMLINK_NOFOLLOW`. -/
def StatxCall.doLstat (call : StatxCall) : Bool := call.flags &&& atSymlinkNofollow ≠ 0

def StatxCall.emptyPath (call : StatxCall) : Bool := call.flags &&& atEmptyPath ≠ 0

/-- What PRoot finds: the paths it translates for the tracee, the links of its descriptors in /proc,
and the files that these lead to. -/
structure StatHost where
  translatePath : (dirfd : Int) → CString → (derefFinal : Bool) → Except Errno CString
  readlinkProcPidFd : Int → Except Errno CString
  stat : CString → Except Errno Stat
  lstat : CString → Except Errno Stat
  fstat : Int → Except Errno Stat

/-- The beginning of `handle_statx_syscall`: the host path, and `do_fstat`. -/
def statxPath (h : StatHost) (call : StatxCall) : Except Errno (CString × Bool) :=
  match call.path with
  | .error errno => .error errno
  | .ok path =>
    if path = [] then
      if ¬ call.emptyPath then .error .enoent
      else
        match h.readlinkProcPidFd call.dirfd with
        | .error errno => .error errno
        | .ok host => .ok (host, true)
    else if path.length + 1 ≥ pathMax then .error .enametoolong
    else
      match h.translatePath call.dirfd path (!call.doLstat) with
      | .error errno => .error errno
      | .ok host => .ok (host, false)

/-- `[l]stat()` on the translated path. -/
def statxStat (h : StatHost) (call : StatxCall) (hostPath : CString) (doFstat : Bool) :
    Except Errno Stat :=
  if doFstat then h.fstat call.dirfd
  else if call.doLstat then h.lstat hostPath
  else h.stat hostPath

def statxOfStat (mask : BitVec 32) (s : Stat) : Statx where
  stxMask := mask &&& statxFields
  mode := if hasField mask .type ∨ hasField mask .mode then s.mode else 0
  nlink := if hasField mask .nlink then s.nlink else 0
  uid := if hasField mask .uid then s.uid else 0
  gid := if hasField mask .gid then s.gid else 0
  ino := if hasField mask .ino then s.ino else 0
  size := if hasField mask .size then s.size else 0
  blocks := if hasField mask .blocks then s.blocks else 0
  blksize := s.blksize
  atime := if hasField mask .atime then s.atime else ⟨0, 0⟩
  -- stat() doesn't expose this, take ctime
  btime := if hasField mask .btime then s.ctime else ⟨0, 0⟩
  mtime := if hasField mask .mtime then s.mtime else ⟨0, 0⟩
  ctime := if hasField mask .ctime then s.ctime else ⟨0, 0⟩
  rdevMajor := s.rdevMajor
  rdevMinor := s.rdevMinor

structure StatxSyscallState where
  hostPath : CString
  statxBuf : Statx
  updatedStats : Bool
  deriving DecidableEq, Repr

structure StatxExit where
  fromSigsys : Bool
  result : Except Errno Unit
  buffer : Statx
  accessible : Bool

def StatxExit.answered (e : StatxExit) : Bool := ¬ e.fromSigsys ∧ e.result.isOk

/-- `handle_statx_syscall`, with what the extensions do at `STATX_SYSCALL`: what is in the buffer
afterwards. -/
def handleStatxSyscall (h : StatHost) (notify : StatxSyscallState → StatxSyscallState)
    (call : StatxCall) (e : StatxExit) : Except Errno Statx := do
  let (hostPath, doFstat) ← statxPath h call
  let state ←
    if ¬ e.answered then do
      let s ← statxStat h call hostPath doFstat
      pure ⟨hostPath, statxOfStat call.mask s, true⟩
    else if e.accessible then pure ⟨hostPath, e.buffer, false⟩
    else throw .efault
  let state := notify state
  if ¬ state.updatedStats then pure e.buffer
  else if e.accessible then pure state.statxBuf
  else throw .efault

/-! ## The stat family -/

/-- fstatat(2) with the same arguments: the path is translated as for statx(2), and the kernel looks
the file up. -/
def fstatat (h : StatHost) (call : StatxCall) : Except Errno Stat :=
  match call.path with
  | .error errno => .error errno
  | .ok path =>
    if path = [] then if ¬ call.emptyPath then .error .enoent else h.fstat call.dirfd
    else if path.length + 1 ≥ pathMax then .error .enametoolong
    else
      match h.translatePath call.dirfd path (!call.doLstat) with
      | .error errno => .error errno
      | .ok host => if call.doLstat then h.lstat host else h.stat host

/-- What the kernel puts into the buffer is what it tells about the same file by fstatat(2). -/
def StatxExit.Honest (e : StatxExit) (h : StatHost) (call : StatxCall) : Prop :=
  e.answered → ∃ s, fstatat h call = .ok s ∧ e.buffer.Agrees s

/-! ## The answer that is made up -/

theorem statxStat_eq {h : StatHost} {call : StatxCall} {hostPath : CString} {doFstat : Bool}
    (hpath : statxPath h call = .ok (hostPath, doFstat)) :
    statxStat h call hostPath doFstat = fstatat h call := by
  unfold statxPath at hpath
  unfold statxStat fstatat
  cases hread : call.path with
  | error errno => simp [hread] at hpath
  | ok path =>
      rw [hread] at hpath
      dsimp only at hpath ⊢
      split_ifs at hpath with hempty hflag hlong
      · cases hlink : h.readlinkProcPidFd call.dirfd with
        | error errno => simp [hlink] at hpath
        | ok host =>
            rw [hlink] at hpath
            obtain ⟨-, rfl⟩ := Prod.mk.inj (Except.ok.inj hpath)
            rw [if_pos hempty, if_neg (not_not.mpr hflag)]
            rfl
      · cases htranslate : h.translatePath call.dirfd path (!call.doLstat) with
        | error errno => simp [htranslate] at hpath
        | ok host =>
            rw [htranslate] at hpath
            obtain ⟨rfl, rfl⟩ := Prod.mk.inj (Except.ok.inj hpath)
            rw [if_neg hempty, if_neg hlong]
            rfl

theorem statxOfStat_agrees (mask : BitVec 32) (s : Stat) : (statxOfStat mask s).Agrees s := by
  intro f hf v hv
  rw [show (statxOfStat mask s).stxMask = mask &&& statxFields from rfl,
    hasField_and_statxFields] at hf
  cases f <;> simp_all [statxOfStat, Statx.value, Stat.value?]

end Improot.Tracee
