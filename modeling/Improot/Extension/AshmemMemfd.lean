import Improot.Lib.Memory
import Improot.Lib.Transition
import Improot.Syscall.Sysnum

/-!
# Memory files over ashmem

`extension/ashmem_memfd/ashmem_memfd.c`: where the kernel has no `memfd_create`, a memory file is an
open `/dev/ashmem`, whose size is set and read with `ioctl`.  The size goes into the result of
`fstat` at the end of a chained `ioctl`, so the extension keeps a state from the entry of a call to
the exit of the chained one.
-/

namespace Improot.Extension.Ashmem

open Lib (Bytes Memory le ofLe)
open Syscall (Sysnum)

/-! ## What the tracer is compiled for -/

structure StatLayout where
  size : Nat
  stSize : Nat
  width : Nat
  fits : stSize + width ≤ size
  wide : 4 ≤ width

structure Layout where
  word : Nat
  sizeofWord : Nat
  /-- `ASHMEM_SET_SIZE` and `ASHMEM_GET_SIZE`, which depend on `size_t`. -/
  ashmemSetSize : Nat
  ashmemGetSize : Nat
  /-- `offsetof(struct stat, st_size)`. -/
  stSize : Nat
  /-- What the system calls of the tracee store. -/
  stat : Sysnum → StatLayout
  /-- The registers that hold the length of `ftruncate64`, low word first, when it takes two. -/
  splitLength : Option (Nat × Nat)
  word_le : 4 ≤ word
  sizeofWord_pos : 0 < sizeofWord
  sizeofWord_le (sysnum : Sysnum) : sizeofWord ≤ (stat sysnum).width

/-- `word_t` has so many values. -/
def Layout.modulus (layout : Layout) : Nat := 256 ^ layout.word

/-- A 64-bit tracer and tracee on ARM: `fstatat` is `PR_fstatat64` there. -/
def layoutArm64 : Layout where
  word := 8
  sizeofWord := 8
  ashmemSetSize := 0x40087703
  ashmemGetSize := 0x7704
  stSize := 48
  stat _ := ⟨128, 48, 8, by decide, by decide⟩
  splitLength := none
  word_le := by decide
  sizeofWord_pos := by decide
  sizeofWord_le _ := Nat.le_refl 8

/-- `"/dev/ashmem"`. -/
def devAshmem : Bytes := [47, 100, 101, 118, 47, 97, 115, 104, 109, 101, 109]

def atFdcwd (layout : Layout) : Nat := layout.modulus - 100
def oRdwr : Nat := 2
def oCloexec : Nat := 0o2000000
def mfdCloexec : Nat := 1

/-! ## The state of the extension -/

inductive AshmemMemfdChainState where
  | CS_IDLE
  | CS_STAT_ENTERED
  | CS_STAT_CHAINED_IOCTL
  deriving DecidableEq

structure AshmemMemfdState where
  memfdSupported : Bool
  chainState : AshmemMemfdChainState
  fd : Int
  addr : Nat

structure Regs where
  sysnum : Sysnum
  arg1 : Nat
  arg2 : Nat
  arg3 : Nat
  arg4 : Nat
  deriving DecidableEq

/-- A word as an `int`. -/
def int (word : Nat) : Int := (BitVec.ofNat 32 word).toInt

def processVmReadv (m : Memory) : Nat → Nat → Bytes
  | _, 0 => []
  | a, n + 1 =>
    match m.byte? a with
    | none => []
    | some b => b :: processVmReadv m (a + 1) n

/-- `peek_word`: when nothing can be read, neither can it be with `ptrace`, whose -1 is returned. -/
def peekWord (layout : Layout) (m : Memory) (address : Nat) : Nat :=
  match processVmReadv m address layout.sizeofWord with
  | [] => 256 ^ layout.sizeofWord - 1
  | b :: bs => ofLe (b :: bs)

/-- `is_ashmem_fd`; `links` is what `/proc/<pid>/fd` has for the tracee. -/
def isAshmemFd (links : Int → Option Bytes) (fd : Int) : Bool := links fd = some devAshmem

/-- What the extension makes of a system call: its registers, the memory of the tracee, and the
state of the extension. -/
structure Entered where
  regs : Regs
  memory : Memory
  state : AshmemMemfdState

/-- `ashmem_memfd_handle_stat`, where `address` is what the register of the buffer holds. -/
def handleStat (layout : Layout) (links : Int → Option Bytes) (state : AshmemMemfdState) (fd : Int)
    (address : Nat) : AshmemMemfdState :=
  if isAshmemFd links fd then
    { state with
      chainState := .CS_STAT_ENTERED, fd := fd, addr := (address + layout.stSize) % layout.modulus }
  else state

/-- `set_sysarg_data(tracee, "/dev/ashmem", 12, SYSARG_2)`, where `alloc` is what `alloc_mem`
returns.  Its status is ignored. -/
def setSysargPath (alloc : Option Nat) (regs : Regs) (m : Memory) : Regs × Memory :=
  match alloc with
  | none => (regs, m)
  | some address =>
    let (m, ok) := m.store address (devAshmem ++ [0])
    (if ok then { regs with arg2 := address } else regs, m)

def handleMemfdCreate (layout : Layout) (alloc : Option Nat) (e : Entered) : Entered :=
  if e.state.memfdSupported then e
  else
    let flags := e.regs.arg2
    let (regs, memory) := setSysargPath alloc { e.regs with sysnum := .PR_openat } e.memory
    { e with
      memory := memory
      regs := { regs with
        arg1 := atFdcwd layout
        arg3 := oRdwr ||| (if flags &&& mfdCloexec ≠ 0 then oCloexec else 0)
        arg4 := 0 } }

def handleSyscall (layout : Layout) (links : Int → Option Bytes) (alloc : Option Nat)
    (e : Entered) : Entered :=
  -- The cases of `ftruncate` end without a `break`.
  let fstat (regs : Regs) : Entered :=
    { e with regs := regs, state := handleStat layout links e.state (int regs.arg1) regs.arg2 }
  match e.regs.sysnum with
  | .PR_memfd_create => handleMemfdCreate layout alloc e
  | .PR_ftruncate | .PR_ftruncate64 =>
    if isAshmemFd links (int e.regs.arg1) then
      fstat { e.regs with
        sysnum := .PR_ioctl, arg3 := e.regs.arg2, arg2 := layout.ashmemSetSize }
    else fstat e.regs
  | .PR_fstat => fstat e.regs
  | .PR_fstatat64 =>
    let fd := int e.regs.arg1
    if 0 ≤ fd ∧ peekWord layout e.memory e.regs.arg2 &&& 0xff = 0 then
      { e with state := handleStat layout links e.state fd e.regs.arg3 }
    else e
  | _ => e

/-- `ashmem_memfd_handle_stat_exit`: its state, and whether it registers the chained `ioctl`. -/
def handleStatExit (layout : Layout) (result : Nat) (m : Memory) (state : AshmemMemfdState) :
    AshmemMemfdState × Bool :=
  if result ≠ 0 ∨ peekWord layout m state.addr ≠ 0 then
    ({ state with chainState := .CS_IDLE }, false)
  else ({ state with chainState := .CS_STAT_CHAINED_IOCTL }, true)

/-- `SYSCALL_EXIT_START`. -/
def exitStart (layout : Layout) (result : Nat) (m : Memory) (state : AshmemMemfdState) :
    AshmemMemfdState × Bool :=
  match state.chainState with
  | .CS_IDLE | .CS_STAT_CHAINED_IOCTL => (state, false)
  | .CS_STAT_ENTERED => handleStatExit layout result m state

/-- `SYSCALL_CHAINED_EXIT`: the result that is left, and `poke_uint32`. -/
def chainedExit (result : Nat) (m : Memory) (state : AshmemMemfdState) :
    Nat × Memory × AshmemMemfdState :=
  if state.chainState = .CS_STAT_CHAINED_IOCTL then
    (0, (m.store state.addr (le 4 result)).1, { state with chainState := .CS_IDLE })
  else (result, m, state)

/-- `INHERIT_CHILD`, which goes on as the entry of a call: `regs` and `m` are those of the child,
whose registers the tracer has not fetched yet. -/
def inheritChild (layout : Layout) (links : Int → Option Bytes) (alloc : Option Nat)
    (parent : AshmemMemfdState) (regs : Regs) (m : Memory) : Entered :=
  handleSyscall layout links alloc
    ⟨regs, m, ⟨parent.memfdSupported, .CS_IDLE, 0, 0⟩⟩

/-! ## The calls -/

def IsStat (sysnum : Sysnum) : Prop :=
  sysnum = .PR_fstat ∨ sysnum = .PR_fstat64 ∨ sysnum = .PR_fstatat64 ∨ sysnum = .PR_newfstatat

def IsTruncate (sysnum : Sysnum) : Prop := sysnum = .PR_ftruncate ∨ sysnum = .PR_ftruncate64

instance : DecidablePred IsStat := fun _ => inferInstanceAs (Decidable (_ ∨ _))
instance : DecidablePred IsTruncate := fun _ => inferInstanceAs (Decidable (_ ∨ _))

/-- A call `fstatat`, which also takes a path. -/
def takesPath (sysnum : Sysnum) : Bool := sysnum = .PR_fstatat64 || sysnum = .PR_newfstatat

/-- Where a call stores its `struct stat`. -/
def Regs.buffer (regs : Regs) : Nat := if takesPath regs.sysnum then regs.arg3 else regs.arg2

/-- The descriptor that a call is about: `fstatat` is about one when its path is empty. -/
def Regs.descriptor (regs : Regs) (m : Memory) : Option Int :=
  if IsTruncate regs.sysnum then some (int regs.arg1)
  else if IsStat regs.sysnum then
    if takesPath regs.sysnum = true ∧ m.byte? regs.arg2 ≠ some 0 then none
    else some (int regs.arg1)
  else none

def Regs.length (layout : Layout) (regs : Regs) : Nat :=
  match regs.sysnum, layout.splitLength with
  | .PR_ftruncate64, some (low, high) =>
    let register (i : Nat) := if i = 2 then regs.arg2 else if i = 3 then regs.arg3 else regs.arg4
    register low + layout.modulus * register high
  | _, _ => regs.arg2

/-! ## The processes -/

/-- An open file: what its link in `/proc/<pid>/fd` shows, the size that ashmem keeps for it,
whether `memfd_create` opened it, and the last length that a successful `ftruncate` was given. -/
structure OpenFile where
  link : Bytes
  size : Nat
  emulated : Bool
  truncated : Nat

/-- A call of a tracee: as it was requested and with the memory at that time, the file it is about,
where the scratch space of the call is, whether a signal has interrupted it, and as the kernel gets
it. -/
structure Call where
  request : Regs
  before : Memory
  file : Option Nat
  scratch : Option Nat
  fromSigsys : Bool
  regs : Regs

/-- Where a tracee is: `chained` holds the memory as the kernel left it. -/
inductive Stage where
  | running
  | entered (call : Call)
  | chained (call : Call) (kernelMemory : Memory)

structure Process where
  fds : Nat → Option Nat
  memory : Memory
  state : AshmemMemfdState
  stage : Stage

/-- A call that is over: what the kernel made of it, and what the tracee gets. -/
structure Finished where
  call : Call
  /-- The file it was about, as it was then. -/
  file : Option OpenFile
  kernelResult : Nat
  kernelMemory : Memory
  result : Nat
  memory : Memory

structure World where
  process : Nat → Option Process
  file : Nat → OpenFile
  next : Nat
  finished : List Finished

def Process.open? (p : Process) (fd : Int) : Option Nat :=
  if fd < 0 then none else p.fds fd.toNat

/-- The links in `/proc/<pid>/fd`. -/
def World.links (w : World) (p : Process) (fd : Int) : Option Bytes :=
  (p.open? fd).map fun id => (w.file id).link

def Process.about (p : Process) (regs : Regs) : Option Nat :=
  (regs.descriptor p.memory).bind p.open?

def World.set (w : World) (pid : Nat) (p : Process) : World :=
  { w with process := fun q => if q = pid then some p else w.process q }

/-! ## The kernel -/

inductive Outcome where
  /-- It fails; it may have stored some bytes of its `struct stat`. -/
  | fails (errno : Nat) (bytes : Bytes)
  | truncates
  | stats (bytes : Bytes)
  | opens (fd : Nat) (link : Bytes)

structure Served where
  result : Nat
  memory : Memory
  fds : Nat → Option Nat
  file : Nat → OpenFile
  next : Nat

/-- `ioctl(fd, ASHMEM_SET_SIZE, size)`. -/
def IsSetSize (layout : Layout) (regs : Regs) : Prop :=
  regs.sysnum = .PR_ioctl ∧ regs.arg2 = layout.ashmemSetSize

instance (layout : Layout) (regs : Regs) : Decidable (IsSetSize layout regs) :=
  inferInstanceAs (Decidable (_ ∧ _))

/-- The kernel serves the call of a tracee, when the outcome is one of the call's.  The size that
`fstat` stores for ashmem is zero, and `ftruncate` fails on it. -/
def kernel (layout : Layout) (w : World) (p : Process) (call : Call) : Outcome → Option Served
  | .fails errno bytes =>
    if 0 < errno ∧ errno < 4096 then
      some ⟨layout.modulus - errno,
        if IsStat call.regs.sysnum then (p.memory.store call.regs.buffer bytes).1 else p.memory,
        p.fds, w.file, w.next⟩
    else none
  | .truncates =>
    (p.open? (int call.regs.arg1)).bind fun id =>
      let file := w.file id
      if IsSetSize layout call.regs ∧ file.link = devAshmem then
        some ⟨0, p.memory, p.fds,
          fun other =>
            if other = id then
              { file with size := call.regs.arg3, truncated := call.request.length layout }
            else w.file other,
          w.next⟩
      else if IsTruncate call.regs.sysnum ∧ file.link ≠ devAshmem then
        some ⟨0, p.memory, p.fds, w.file, w.next⟩
      else none
  | .stats bytes =>
    let stat := layout.stat call.regs.sysnum
    if IsStat call.regs.sysnum ∧ bytes.length = stat.size ∧
        call.regs.buffer + stat.size ≤ layout.modulus ∧
        (p.memory.store call.regs.buffer bytes).2 = true ∧
        (((p.about call.regs).map fun id => (w.file id).link) = some devAshmem →
          (bytes.drop stat.stSize).take stat.width = List.replicate stat.width 0) then
      some ⟨0, (p.memory.store call.regs.buffer bytes).1, p.fds, w.file, w.next⟩
    else none
  | .opens fd link =>
    if p.fds fd = none ∧ fd < 2 ^ 31 ∧
        (call.regs.sysnum = .PR_openat ∧
            (call.fromSigsys = false → p.memory.load call.regs.arg2 12 = some (devAshmem ++ [0]) →
              link = devAshmem) ∨
          call.regs.sysnum = .PR_memfd_create ∧ link ≠ devAshmem) then
      some ⟨fd, p.memory, fun other => if other = fd then some w.next else p.fds other,
        fun other =>
          if other = w.next then ⟨link, 0, decide (call.regs.sysnum = .PR_openat), 0⟩
          else w.file other,
        w.next + 1⟩
    else none

/-! ## The runs -/

inductive Event where
  | runs (pid : Nat) (memory : Memory)
  /-- It duplicates, receives or closes a descriptor. -/
  | moves (pid fd : Nat) (file : Option Nat)
  | opens (pid fd : Nat) (link : Bytes)
  /-- It enters one of the calls; `alloc` is what `alloc_mem` returns. -/
  | enters (pid : Nat) (regs : Regs) (alloc : Option Nat)
  /-- Its `memfd_create` is refused with a signal, and is started again. -/
  | sigsys (pid : Nat) (regs : Regs) (alloc : Option Nat)
  | exits (pid : Nat) (outcome : Outcome)
  | chainedExits (pid : Nat)
  /-- It forks, in whatever stage it is: the child has a copy of the memory and of the
  descriptors. -/
  | forks (pid child : Nat) (arch : Syscall.Arch) (abi : Syscall.Abi)

def IsCall (sysnum : Sysnum) : Prop :=
  sysnum = .PR_memfd_create ∨ IsTruncate sysnum ∨ IsStat sysnum

instance : DecidablePred IsCall := fun _ => inferInstanceAs (Decidable (_ ∨ _))

/-- A tracee enters a call that the extension has changed to `e`. -/
def Process.enter (p : Process) (regs : Regs) (alloc : Option Nat) (fromSigsys : Bool)
    (e : Entered) : Process :=
  { p with
    memory := e.memory
    state := e.state
    stage := .entered ⟨regs, p.memory, p.about regs, alloc, fromSigsys, e.regs⟩ }

def World.finish (w : World) (pid : Nat) (p : Process) (f : Finished) : World :=
  { w.set pid { p with stage := .running } with finished := f :: w.finished }

def exit (layout : Layout) (w : World) (pid : Nat) (p : Process) (call : Call) (s : Served) :
    World :=
  let (state, registered) := exitStart layout s.result s.memory p.state
  let w := { w with file := s.file, next := s.next }
  let p := { p with memory := s.memory, fds := s.fds, state := state }
  if registered then w.set pid { p with stage := .chained call s.memory }
  else
    w.finish pid p ⟨call, call.file.map w.file, s.result, s.memory, s.result, s.memory⟩

/-- The result of `ioctl(fd, ASHMEM_GET_SIZE)`, or `EBADF` or `ENOTTY`. -/
def getSize (layout : Layout) (w : World) (p : Process) (fd : Int) : Nat :=
  match p.open? fd with
  | none => layout.modulus - 9
  | some id => if (w.file id).link = devAshmem then (w.file id).size else layout.modulus - 25

/-- A tracee leaves the chained `ioctl`. -/
def leaveChained (layout : Layout) (w : World) (pid : Nat) (p : Process) (call : Call)
    (kernelMemory : Memory) : World :=
  let (result, memory, state) := chainedExit (getSize layout w p p.state.fd) p.memory p.state
  w.finish pid { p with memory := memory, state := state }
    ⟨call, call.file.map w.file, 0, kernelMemory, result, memory⟩

/-- The system call that the zeroed registers of a new tracee stand for. -/
def zeroSysnum (arch : Syscall.Arch) (abi : Syscall.Abi) : Sysnum :=
  ((Syscall.getSysnums arch abi).bind (·.sysnum? 0)).getD .PR_void

def Process.child (layout : Layout) (w : World) (p : Process) (arch : Syscall.Arch)
    (abi : Syscall.Abi) : Process :=
  let regs : Regs := ⟨zeroSysnum arch abi, 0, 0, 0, 0⟩
  let e := inheritChild layout (w.links p) none p.state regs p.memory
  { p with memory := e.memory, state := e.state, stage := .running }

def step (layout : Layout) (w : World) : Event → Option World
  | .runs pid memory => do
    let p ← w.process pid
    match p.stage with
    | .running => some (w.set pid { p with memory := memory })
    | _ => none
  | .moves pid fd file => do
    let p ← w.process pid
    match p.stage with
    | .running =>
      if ∀ id ∈ file, id < w.next then
        some (w.set pid { p with fds := fun other => if other = fd then file else p.fds other })
      else none
    | _ => none
  | .opens pid fd link => do
    let p ← w.process pid
    match p.stage with
    | .running =>
      let fds := fun other => if other = fd then some w.next else p.fds other
      some { w.set pid { p with fds := fds } with
        file := fun other => if other = w.next then ⟨link, 0, false, 0⟩ else w.file other
        next := w.next + 1 }
    | _ => none
  | .enters pid regs alloc => do
    let p ← w.process pid
    match p.stage with
    | .running =>
      if IsCall regs.sysnum then
        some (w.set pid (p.enter regs alloc false
          (handleSyscall layout (w.links p) alloc ⟨regs, p.memory, p.state⟩)))
      else none
    | _ => none
  | .sigsys pid regs alloc => do
    let p ← w.process pid
    match p.stage with
    | .running =>
      if regs.sysnum = .PR_memfd_create then
        some (w.set pid (p.enter regs alloc true
          (handleMemfdCreate layout alloc ⟨regs, p.memory, p.state⟩)))
      else none
    | _ => none
  | .exits pid outcome => do
    let p ← w.process pid
    match p.stage with
    | .entered call => (kernel layout w p call outcome).map (exit layout w pid p call)
    | _ => none
  | .chainedExits pid => do
    let p ← w.process pid
    match p.stage with
    | .chained call kernelMemory => some (leaveChained layout w pid p call kernelMemory)
    | _ => none
  | .forks pid child arch abi => do
    let p ← w.process pid
    match w.process child with
    | none => some (w.set child (p.child layout w arch abi))
    | some _ => none

end Improot.Extension.Ashmem
