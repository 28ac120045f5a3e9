import Improot.Extension.Credentials
import Improot.Lib.Transition
import Improot.Path.Basic
import Improot.Syscall.Sysnum

/-!
# Simulated CAP_DAC_OVERRIDE

While the paths of a system call are translated, `fake_id0` forces the permissions of their
components, for a caller that is root by its fake ids. Talloc destructors restore the permissions by
the names of the files, when the memory of the tracee is collected.
-/

namespace Improot.Extension

open Improot.Path Improot.Syscall Improot.Lib

/-- The bits of a `mode_t` that chmod(2) takes. -/
abbrev Perms := BitVec 12

abbrev Inode := Nat

/-- Which bits of a file count for the process of PRoot: its owner's, its group's, those of others,
or none as it is root's. -/
inductive FileClass where
  | user
  | group
  | other
  | root
  deriving DecidableEq

/-- **The files of the host.** `find` tells the directories that a path goes through and the file it
leads to, symbolic links being followed, and `skipped` is `should_skip_file_access_due_to_f2fs_bug`.
-/
structure HostFiles where
  find : CString → Option (List Inode × Inode)
  mode : Inode → Perms
  directory : Inode → Bool
  rights : Inode → FileClass
  skipped : CString → Bool

namespace HostFiles

def searchable (fs : HostFiles) (i : Inode) (perms : Perms) : Bool :=
  match fs.rights i with
  | .user => perms &&& 0o100 ≠ 0
  | .group => perms &&& 0o010 ≠ 0
  | .other => perms &&& 0o001 ≠ 0
  | .root => true

def mayChmod (fs : HostFiles) (i : Inode) : Bool :=
  match fs.rights i with
  | .user | .root => true
  | .group | .other => false

def trail (fs : HostFiles) (path : CString) : List Inode := ((fs.find path).map (·.1)).getD []

def reach (fs : HostFiles) (path : CString) : Option Inode :=
  (fs.find path).bind fun found =>
    if ∀ d ∈ found.1, fs.directory d ∧ fs.searchable d (fs.mode d) then some found.2 else none

def stat (fs : HostFiles) (path : CString) : Option (Perms × Bool) :=
  (fs.reach path).map fun i => (fs.mode i, fs.directory i)

def setMode (fs : HostFiles) (i : Inode) (perms : Perms) : HostFiles :=
  { fs with mode := Function.update fs.mode i perms }

def chmod (fs : HostFiles) (path : CString) (perms : Perms) : HostFiles :=
  match fs.reach path with
  | some i => if fs.mayChmod i then fs.setMode i perms else fs
  | none => fs

end HostFiles

/-! ## `fake_id0` -/

structure ModifiedNode where
  path : CString
  mode : Perms
  deriving DecidableEq

def restoreMode (fs : HostFiles) (node : ModifiedNode) : HostFiles := fs.chmod node.path node.mode

/-- `S_IRWXU | S_IRWXG | S_IRWXO`. -/
def rwxBits : Perms := 0o777

/-- The bits that `override_permissions` forces. -/
def forced (directory : Bool) (perms : Perms) : Perms :=
  let newMode := perms &&& rwxBits ||| 0o600
  if directory then newMode ||| 0o100 else newMode

/-- A system call, with the registers that `override_permissions` peeks. -/
structure GuestCall where
  sysnum : Sysnum
  sysarg2 : Perms
  sysarg3 : Perms

/-- The mode that the node of a file is to restore; `none` when the file isn't touched. -/
def restoredMode (call : GuestCall) (perms : Perms) (isFinal : Bool) : Option Perms :=
  if ¬ isFinal then some perms
  else
    match call.sysnum with
    | .PR_chmod => some call.sysarg2
    | .PR_fchmodat => some call.sysarg3
    | .PR_fstatat64 | .PR_lstat | .PR_lstat64 | .PR_newfstatat | .PR_oldlstat | .PR_oldstat
    | .PR_stat | .PR_stat64 | .PR_statfs | .PR_statfs64 => none
    | _ => some perms

/-- `override_permissions`, up to its last statement: the node that is left to the destructors, and
the bits that the final chmod(2) gives to the file. -/
def overridePermissions (fs : HostFiles) (call : GuestCall) (path : CString) (isFinal : Bool) :
    Option (ModifiedNode × Perms) :=
  if fs.skipped path then none
  else
    match fs.stat path with
    | none => none
    | some (perms, directory) =>
      let newMode := forced directory perms
      if newMode = perms &&& rwxBits then none
      else (restoredMode call perms isFinal).map fun mode => (⟨path, mode⟩, newMode)

def hostPath (fs : HostFiles) (euid : Id) (call : GuestCall) (path : CString) (isFinal : Bool) :
    Option (ModifiedNode × Perms) :=
  if euid = 0 then overridePermissions fs call path isFinal else none

/-! ## Tracees -/

/-- A node in the memory of a tracee. The file that it was made for is remembered for the proofs
only, as well as whether its mode is the one that the guest asks for. -/
structure Pending where
  node : ModifiedNode
  file : Inode
  asked : Bool

/-- A tracee. `ctx` has the newest node first, as the destructors are called in this order; `patch`
is the final chmod(2) of `override_permissions`, as long as it's ahead; `changed` tells for the
proofs that the guest's chmod(2) was done, since the last node was made that has its mode. -/
structure OverrideTracee where
  euid : Id
  call : Option GuestCall
  ctx : List Pending
  patch : Option (CString × Perms)
  changed : Bool

/-- The host and all tracees.  `base` has, for the proofs, the bits that a file had at the start or
since the last chmod(2) of a guest; a file that isn't made yet has the bits it will be made with. -/
structure OverrideState where
  fs : HostFiles
  base : Inode → Perms
  tracee : Nat → OverrideTracee

/-- What happens, in any order. The kernel's part of a call may give any file other names, and
change the bits of one when the call is a chmod(2). -/
inductive OverrideEvent where
  | enter (t : Nat) (euid : Id) (call : GuestCall)
  | look (t : Nat) (path : CString) (isFinal : Bool)
  | patch (t : Nat)
  | kernel (t : Nat) (find : CString → Option (List Inode × Inode)) (chmod : Option (Inode × Perms))
  | restore (t : Nat)
  | leave (t : Nat) (reported : Bool)

def GuestCall.asks (call : GuestCall) : Bool :=
  match call.sysnum with
  | .PR_chmod | .PR_fchmodat => true
  | _ => false

def GuestCall.isChmod (call : GuestCall) : Bool :=
  match call.sysnum with
  | .PR_chmod | .PR_fchmod | .PR_fchmodat => true
  | _ => false

namespace OverrideState

variable (s : OverrideState)

def setTracee (t : Nat) (tracee : OverrideTracee) : OverrideState :=
  { s with tracee := Function.update s.tracee t tracee }

/-- A call is entered.  `get_tracee` has collected the memory of the tracee before. -/
def enter (t : Nat) (euid : Id) (call : GuestCall) : Option OverrideState :=
  let tracee := s.tracee t
  if tracee.call.isNone ∧ tracee.ctx.isEmpty ∧ tracee.patch.isNone then
    some (s.setTracee t ⟨euid, some call, [], none, false⟩)
  else none

def look (t : Nat) (path : CString) (isFinal : Bool) : Option OverrideState :=
  let tracee := s.tracee t
  match tracee.call, tracee.patch with
  | some call, none =>
    match hostPath s.fs tracee.euid call path isFinal, s.fs.reach path with
    | some (node, newMode), some i =>
      let asked := isFinal && call.asks
      some (s.setTracee t
        { tracee with
          ctx := ⟨node, i, asked⟩ :: tracee.ctx
          patch := some (path, newMode)
          changed := tracee.changed && ! asked })
    | _, _ => some s
  | _, _ => none

def patch (t : Nat) : Option OverrideState :=
  let tracee := s.tracee t
  match tracee.patch with
  | some (path, newMode) =>
    some { s.setTracee t { tracee with patch := none } with fs := s.fs.chmod path newMode }
  | none => none

def kernel (t : Nat) (find : CString → Option (List Inode × Inode)) (chmod : Option (Inode × Perms)) :
    Option OverrideState :=
  let tracee := s.tracee t
  match tracee.call, tracee.patch with
  | some call, none =>
    match chmod with
    | none => some { s with fs := { s.fs with find := find } }
    | some (i, perms) =>
      if call.isChmod then
        some
          { s.setTracee t { tracee with changed := true } with
            fs := { s.fs.setMode i perms with find := find }
            base := Function.update s.base i perms }
      else none
  | _, _ => none

/-- A destructor is called: at the next event of the tracee, or earlier when another handler looks
the tracee up. -/
def restore (t : Nat) : Option OverrideState :=
  let tracee := s.tracee t
  match tracee.patch, tracee.ctx with
  | none, p :: ctx =>
    some { s.setTracee t { tracee with ctx := ctx } with fs := restoreMode s.fs p.node }
  | _, _ => none

/-- The call returns to the tracee. When its exit is reported, `get_tracee` collects the memory of
the tracee first. -/
def leave (t : Nat) (reported : Bool) : Option OverrideState :=
  let tracee := s.tracee t
  if tracee.call.isSome ∧ tracee.patch.isNone ∧ (reported → tracee.ctx.isEmpty) then
    some (s.setTracee t { tracee with call := none })
  else none

def step : OverrideEvent → Option OverrideState
  | .enter t euid call => s.enter t euid call
  | .look t path isFinal => s.look t path isFinal
  | .patch t => s.patch t
  | .kernel t find chmod => s.kernel t find chmod
  | .restore t => s.restore t
  | .leave t reported => s.leave t reported

def Idle : Prop := ∀ t, (s.tracee t).call = none

structure Start : Prop where
  idle : s.Idle
  ctx : ∀ t, (s.tracee t).ctx = []
  patch : ∀ t, (s.tracee t).patch = none
  base : s.base = s.fs.mode

end OverrideState

def overrideSystem : System OverrideState OverrideEvent where
  init := OverrideState.Start
  step := OverrideState.step

end Improot.Extension
