import Improot.Lib.Sharing
import Improot.Syscall.Heap
import Improot.Syscall.NameSpace

/-!
# What tracees share

`new_child` of `tracee/tracee.c`, the stages of clone(2), clone3(2) and unshare(2) in
`syscall/enter.c`, and the end of `execve/exit.c`: the file-system name-space, its binding lists and
the heap of a tracee are objects that other tracees may refer to.
-/

namespace Improot.Tracee

open Improot.Path (Bindings Comp World DirFd)
open Improot.Syscall

/-! ## Flags -/

abbrev Flags := BitVec 64

def Flags.has (flags flag : Flags) : Bool := flags &&& flag ≠ 0

def cloneVm : Flags := 0x100

def cloneFs : Flags := 0x200

def cloneVfork : Flags := 0x4000

def cloneNewns : Flags := 0x20000

/-- `CLONE_NS_MASK`: `CLONE_NEWNS`, `CLONE_NEWUTS`, `CLONE_NEWIPC`, `CLONE_NEWUSER`, `CLONE_NEWPID`,
`CLONE_NEWNET`, `CLONE_NEWCGROUP` and `CLONE_NEWTIME`. -/
def cloneNsMask : Flags :=
  cloneNewns ||| 0x04000000 ||| 0x08000000 ||| 0x10000000 ||| 0x20000000 ||| 0x40000000 |||
    0x02000000 ||| 0x80

def Flags.strip (flags : Flags) : Flags := flags &&& ~~~cloneNsMask

/-- The calls that create a process.  The flags of clone3(2) are the first word of its arguments. -/
inductive CloneCall where
  | fork
  | vfork
  | clone (flags : Flags)
  | clone3 (flags : Flags)
  deriving DecidableEq

def CloneCall.strip : CloneCall → CloneCall
  | fork => fork
  | vfork => vfork
  | clone flags => clone flags.strip
  | clone3 flags => clone3 flags.strip

def CloneCall.newns : CloneCall → Bool
  | fork | vfork => false
  | clone flags | clone3 flags => flags.has cloneNewns

/-- The flags `new_child` goes by: those of the event, unless the call is clone(2) or clone3(2).  A
vfork(2) is reported by `PTRACE_EVENT_VFORK`. -/
def CloneCall.flags : CloneCall → Flags
  | fork => 0
  | vfork => cloneVfork
  | clone flags | clone3 flags => flags

/-! ## Tracees -/

/-- `FileSystemNameSpace`; the lists of bindings are an object of their own. -/
structure FileSystemNameSpace where
  cwd : CString
  bindings : Nat

/-- The part of `struct tracee` used here. -/
structure Process where
  fs : Nat
  heap : Nat
  cloneStrippedNewns : Bool
  call : Option CloneCall

/-- The tracees and the objects they refer to; all objects are below `next`. -/
structure Tracees (w : Nat) where
  pids : List Nat
  process : Nat → Process
  fs : Nat → FileSystemNameSpace
  bindings : Nat → Bindings
  heap : Nat → Heap w
  next : Nat

namespace Tracees

variable {w : Nat}

/-- `tracee->fs`, as an object. -/
def fsOf (s : Tracees w) (pid : Nat) : Nat := (s.process pid).fs

/-- `tracee->heap`, as an object. -/
def heapOf (s : Tracees w) (pid : Nat) : Nat := (s.process pid).heap

/-- `tracee->fs->bindings`, as an object. -/
def listsOf (s : Tracees w) (pid : Nat) : Nat := (s.fs (s.fsOf pid)).bindings

/-- `tracee->fs->cwd`. -/
def cwd (s : Tracees w) (pid : Nat) : CString := (s.fs (s.fsOf pid)).cwd

def tree (s : Tracees w) (pid : Nat) : Bindings := s.bindings (s.listsOf pid)

/-- `*tracee->heap`. -/
def memory (s : Tracees w) (pid : Nat) : Heap w := s.heap (s.heapOf pid)

/-- What a system call of the tracee reads: the state, and what else there is in `world`.  No
binding is being initialized. -/
def worldOf (s : Tracees w) (pid : Nat) (world : World) : World :=
  { world with tracee := { world.tracee with
      bindings := s.tree pid
      cwd := s.cwd pid
      glueType := none } }

/-! ## System calls -/

def enterClone (s : Tracees w) (pid : Nat) (call : CloneCall) : Tracees w :=
  let tracee := s.process pid
  { s with
    process := Function.update s.process pid
      { tracee with
        cloneStrippedNewns := if call.newns then true else tracee.cloneStrippedNewns
        call := some call.strip } }

def failClone (s : Tracees w) (pid : Nat) : Tracees w :=
  { s with process := Function.update s.process pid { s.process pid with call := none } }

/-- `new_child`, of the call that `parent` is in: the child's heap, then its name-space. -/
def newChild (s : Tracees w) (parent child : Nat) (call : CloneCall) : Tracees w :=
  let tracee := s.process parent
  let flags := call.flags
  let heap := if flags.has cloneVm then tracee.heap else s.next
  let fs := if flags.has cloneFs then tracee.fs else s.next
  -- the child's own copy of the bindings, or a reference to those of its parent
  let lists := if tracee.cloneStrippedNewns then s.next else s.listsOf parent
  { pids := child :: s.pids
    process :=
      Function.update
        (Function.update s.process parent
          { tracee with cloneStrippedNewns := false, call := none })
        child { fs := fs, heap := heap, cloneStrippedNewns := false, call := none }
    fs :=
      if flags.has cloneFs then s.fs
      else Function.update s.fs s.next { cwd := s.cwd parent, bindings := lists }
    bindings :=
      if ¬ flags.has cloneFs ∧ tracee.cloneStrippedNewns then
        Function.update s.bindings s.next (copyBindings (s.tree parent))
      else s.bindings
    heap :=
      if flags.has cloneVm then s.heap
      else Function.update s.heap s.next (s.memory parent)
    next := s.next + 1 }

/-- `talloc_reference_count(tracee->heap) >= 1`. -/
def heapReferenced (s : Tracees w) (pid : Nat) : Bool :=
  s.pids.any fun other => other ≠ pid && s.heapOf other = s.heapOf pid

/-- The end of a successful execve(2): "new processes have no heap". -/
def translateExecveExit (s : Tracees w) (pid : Nat) : Tracees w :=
  if s.heapReferenced pid then
    { s with
      process := Function.update s.process pid { s.process pid with heap := s.next }
      heap := Function.update s.heap s.next ⟨0, 0, false⟩
      next := s.next + 1 }
  else { s with heap := Function.update s.heap (s.heapOf pid) ⟨0, 0, false⟩ }

/-- The new `tracee->fs->cwd`. -/
def setCwd (s : Tracees w) (pid : Nat) (cwd : CString) : Tracees w :=
  { s with fs := Function.update s.fs (s.fsOf pid) { s.fs (s.fsOf pid) with cwd := cwd } }

/-- The new contents of `tracee->fs->bindings`. -/
def setTree (s : Tracees w) (pid : Nat) (t : Bindings) : Tracees w :=
  { s with bindings := Function.update s.bindings (s.listsOf pid) t }

/-- The new contents of `tracee->heap`. -/
def setMemory (s : Tracees w) (pid : Nat) (heap : Heap w) : Tracees w :=
  { s with heap := Function.update s.heap (s.heapOf pid) heap }

end Tracees

/-- The new working directory after chdir(2) or fchdir(2): `oldpath` is ".", or the path given
followed by "."; `searchable` tells whether `S_IXUSR` is set. -/
def chdirTo (dirFd : DirFd) (oldpath : CString) (searchable : CString → Bool) : Comp CString := do
  let path ← Improot.Path.translatePath dirFd oldpath true
  let world ← Comp.get
  let _ ← Comp.lift (world.host.lstat path)
  if ¬ searchable path then Comp.fail (.errno .eacces)
  else
    let (_, path) ← Comp.liftFailure (Improot.Path.detranslatePath world path none)
    pure (Improot.Path.chopFinality path)

inductive ChdirCall where
  | chdir (path : CString)
  | fchdir (fd : Int)

def ChdirCall.run (searchable : CString → Bool) : ChdirCall → Comp CString
  | chdir path => do
    -- the ending "." ensures an error is reported if it isn't a directory
    let oldpath ← Comp.lift (Improot.Path.joinPaths [some path, some ['.']])
    chdirTo .cwd oldpath searchable
  | fchdir fd => chdirTo (.fd fd) ['.'] searchable

inductive MountCall where
  | mount (srcUser targetUser fstype : CString) (flags : Nat) (tempDirectory : Option CString)
  | umount (targetUser : CString)
  | pivotRoot (held : Nat → Bool) (newRootUser putOldUser : CString)

def MountCall.run : MountCall → Comp Unit
  | mount srcUser targetUser fstype flags tempDirectory =>
    emulateMount srcUser targetUser fstype flags tempDirectory
  | umount targetUser => emulateUmount targetUser
  | pivotRoot held newRootUser putOldUser => emulatePivotRoot held newRootUser putOldUser

/-! ## Steps -/

inductive Event (w : Nat) where
  | enter (pid : Nat) (call : CloneCall)
  | fail (pid : Nat)
  | newChild (parent child : Nat)
  | unshare (pid : Nat) (flags : Flags)
  | execve (pid : Nat) (succeeds : Bool)
  | chdir (pid : Nat) (world : World) (searchable : CString → Bool) (call : ChdirCall)
  | brk (pid : Nat) (heapOffset : BitVec w) (original modified : BrkRegs w) (result : BitVec w)
  | mount (pid : Nat) (world : World) (call : MountCall)

def Event.pid {w : Nat} : Event w → Nat
  | enter pid _ | fail pid | newChild pid _ | unshare pid _ | execve pid _ | chdir pid _ _ _
  | brk pid _ _ _ _ | mount pid _ _ => pid

def Tracees.step {w : Nat} (s : Tracees w) (e : Event w) : Option (Tracees w) :=
  if e.pid ∉ s.pids then none
  else
    match e with
    | .enter pid call => if (s.process pid).call = none then some (s.enterClone pid call) else none
    | .fail pid => if (s.process pid).call = none then none else some (s.failClone pid)
    | .newChild parent child =>
      match (s.process parent).call with
      | none => none
      | some call => if child ∈ s.pids then none else some (s.newChild parent child call)
    -- pretend it succeeds without doing anything
    | .unshare _ _ => some s
    | .execve pid succeeds => some (if succeeds then s.translateExecveExit pid else s)
    | .chdir pid world searchable call =>
      match (call.run searchable (s.worldOf pid world)).1 with
      | .ok cwd => some (s.setCwd pid cwd)
      | .error (.errno _) => some s
      | .error .abort => none
    | .brk pid heapOffset original modified result =>
      (translateBrkExit heapOffset (s.memory pid) original modified result).map fun out =>
        s.setMemory pid out.1
    | .mount pid world call =>
      match call.run (s.worldOf pid world) with
      | (.error .abort, _) => none
      | (_, world) => some (s.setTree pid world.tracee.bindings)

end Improot.Tracee
