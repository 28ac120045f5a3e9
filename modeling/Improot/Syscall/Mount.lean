import Improot.Path.Initialize

/-!
# Emulated mounts

The system calls of `syscall/enter.c`, `syscall/socket.c` and `execve/exit.c` that change the
bindings of a running tracee: mount(2), umount(2) and pivot_root(2) are emulated by bindings, and
two kinds of files are replaced by temporary ones.
-/

namespace Improot.Syscall

open Improot.Path

/-! ## Mounting -/

def canonicalizeUser (userPath : CString) : Comp CString := do
  let w ← Comp.get
  let base ← Comp.lift (if userPath.head? = some '/' then .ok ['/'] else getcwd2 w)
  canonicalize userPath true base 0

def guestCanonicalize (userPath : CString) : Comp CString := do
  let guestPath ← canonicalizeUser userPath
  pure (chopFinality guestPath)

/-- `insort_binding3` in the tree of the tracee. -/
def bindPaths (hostPath guestPath : CString) : Comp Unit := fun w =>
  (.ok (), { w with tracee := { w.tracee with
    bindings := insortBinding3 w.tracee.bindings hostPath guestPath } })

def msRemount : Nat := 32

def msBind : Nat := 4096

def fstypePath (fstype : CString) (tempDirectory : Option CString) : Option CString :=
  if fstype = ['p', 'r', 'o', 'c'] then some ['/', 'p', 'r', 'o', 'c']
  else if fstype = ['s', 'y', 's', 'f', 's'] then some ['/', 's', 'y', 's']
  else if fstype = ['d', 'e', 'v', 't', 'm', 'p', 'f', 's'] then some ['/', 'd', 'e', 'v']
  else if fstype = ['d', 'e', 'v', 'p', 't', 's'] then
    some ['/', 'd', 'e', 'v', '/', 'p', 't', 's']
  else if fstype = ['t', 'm', 'p', 'f', 's'] then tempDirectory
  else none

/-- The host path of a mount, before `chop_finality`; `ENOENT` stands for a silent return. -/
def mountSource (srcUser fstype : CString) (flags : Nat) (tempDirectory : Option CString) :
    Comp CString :=
  if flags &&& msRemount ≠ 0 then Comp.fail (.errno .enoent)
  else if flags &&& msBind ≠ 0 then translatePath .cwd srcUser true
  else
    match fstypePath fstype tempDirectory with
    | some path => pure path
    | none => Comp.fail (.errno .enoent)

/-- `emulate_mount`; `tempDirectory` is what `create_temp_directory` answers. -/
def emulateMount (srcUser targetUser fstype : CString) (flags : Nat)
    (tempDirectory : Option CString) : Comp Unit := do
  let hostPath ← mountSource srcUser fstype flags tempDirectory
  let guestPath ← guestCanonicalize targetUser
  bindPaths (chopFinality hostPath) guestPath

def emulateUmount (targetUser : CString) : Comp Unit := do
  let guestPath ← guestCanonicalize targetUser
  fun w =>
    let t := w.tracee.bindings
    -- never drop the root binding
    if guestPath = ['/'] then (.ok (), w)
    else
      match getBinding t .guest guestPath with
      | none => (.ok (), w)
      | some b =>
        if b.guest ≠ guestPath then (.ok (), w)
        else
          (.ok (), { w with tracee := { w.tracee with
            bindings := removeBindingFromAllLists t b } })

/-! ## Pivoting -/

/-- The rest of `put_old` after the new root. -/
def afterNewRoot (newRoot putOld : CString) : CString :=
  if newRoot.length = 1 then putOld else putOld.drop newRoot.length

/-- Where the previous root becomes reachable, as a path under the new one; `strncpy` cuts nothing,
since a guest path is shorter than `PATH_MAX`. -/
def putOldAfter (newRoot putOld : CString) : Option CString :=
  let after := afterNewRoot newRoot putOld
  if newRoot.length > 0 ∧ putOld.take newRoot.length = newRoot ∧
      (putOld[newRoot.length]? = some '/' ∨ newRoot = ['/']) ∧
      after.head? = some '/' ∧ after.length > 1 then some after
  else none

def movesWith (newRoot : CString) (b : Binding) : Bool :=
  newRoot.length > 0 ∧ b.guest.length > newRoot.length ∧
    b.guest.take newRoot.length = newRoot ∧ b.guest[newRoot.length]? = some '/'

/-- Does the binding already sit under `put_old`? -/
def sitsUnder (after : CString) (b : Binding) : Bool :=
  b.guest.take after.length = after ∧
    (b.guest[after.length]? = none ∨ b.guest[after.length]? = some '/')

/-- A turn of the loop of `emulate_pivot_root`. -/
def pivotBinding (newRoot : CString) (after : Option CString) (root : Binding) (t : Bindings)
    (b : Binding) : Bindings :=
  if b.node = root.node ∨ b.guest = ['/'] then t
  else if movesWith newRoot b then
    removeBindingFromAllLists (insortBinding3 t b.host (b.guest.drop newRoot.length)) b
  else
    match after with
    | none => t
    | some after =>
      if sitsUnder after b then t
      else if (after ++ b.guest).length ≥ pathMax then t
      else insortBinding3 t b.host (after ++ b.guest)

/-- Is a binding of the snapshot still allocated?  The lists hold it, or something else does (`held`,
by its node): the name-space of the tracee that made it, or a life context. -/
def Allocated (held : Nat → Bool) (t : Bindings) (b : Binding) : Prop :=
  held b.node = true ∨ b.node ∈ t.guest.map (·.node) ∨ b.node ∈ t.host.map (·.node)

instance (held : Nat → Bool) (t : Bindings) (b : Binding) : Decidable (Allocated held t b) :=
  inferInstanceAs (Decidable (_ ∨ _))

/-- The same turn for a pointer of the snapshot: `none` when it reads a binding that
`remove_binding_from_all_lists` freed at an earlier turn. -/
def pivotTurn (held : Nat → Bool) (newRoot : CString) (after : Option CString) (root : Binding)
    (t : Bindings) (b : Binding) : Option Bindings :=
  -- the pointer to the former root is compared only
  if b.node = root.node ∨ Allocated held t b then some (pivotBinding newRoot after root t b)
  else none

/-- The bindings before the loop: the two roots are put in place. -/
def switchRoots (newRootHost : CString) (after : Option CString) (root : Binding) (t : Bindings) :
    Bindings :=
  let t := insortBinding3 (removeBindingFromAllLists t root) newRootHost ['/']
  match after with
  | some after => insortBinding3 t root.host after
  | none => t

/-- The bindings after `emulate_pivot_root`, unless its loop reads a freed one. -/
def pivotBindings (held : Nat → Bool) (newRootHost newRoot putOld : CString) (root : Binding)
    (t : Bindings) : Option Bindings :=
  let after := putOldAfter newRoot putOld
  t.guest.foldlM (pivotTurn held newRoot after root) (switchRoots newRootHost after root t)

/-- The canonicalization of `put_old`, relative to the new root. -/
def canonicalizePutOld (newRoot putOldUser : CString) : Comp CString :=
  canonicalize putOldUser true (if putOldUser.head? = some '/' then ['/'] else newRoot) 0

/-- `emulate_pivot_root`; nothing is said of what comes after a freed binding was read. -/
def emulatePivotRoot (held : Nat → Bool) (newRootUser putOldUser : CString) : Comp Unit := do
  let newRootHost ← translatePath .cwd newRootUser true
  let newRoot ← guestCanonicalize newRootUser
  let putOld ← canonicalizePutOld newRoot putOldUser
  fun w =>
    match getBinding w.tracee.bindings .guest ['/'] with
    | none => (.ok (), w)
    | some root =>
      match pivotBindings held (chopFinality newRootHost) newRoot putOld root w.tracee.bindings with
      | none => (.error .abort, w)
      | some t => (.ok (), { w with tracee := { w.tracee with bindings := t } })

/-! ## Temporary files -/

def procPidAuxv (pid : Nat) : CString := procPidDir pid ++ ['/', 'a', 'u', 'x', 'v']

def removeBindingTo (t : Bindings) (guestPath : CString) : Bindings :=
  match getBinding t .guest guestPath with
  | some b =>
    if comparePaths b.guest guestPath = .pathsAreEqual then removeBindingFromAllLists t b else t
  | none => t

/-- `bind_proc_pid_auxv`, once the vectors are read; `tempFile` is the file they are written to. -/
def bindProcPidAuxv (tempFile : Option CString) : Comp Unit := fun w =>
  let guestPath := procPidAuxv w.tracee.pid
  let t := removeBindingTo w.tracee.bindings guestPath
  let t :=
    match tempFile with
    | some hostPath => insortBinding3 t hostPath guestPath
    | none => t
  (.ok (), { w with tracee := { w.tracee with bindings := t } })

def sizeofSunPath : Nat := 108

/-- The part of `translate_socketcall_enter` about a path; `tempName` is what `create_temp_name`
and `mktemp(3)` answer. -/
def translateSocketPath (userPath : CString) (tempName : Option CString) : Comp CString := do
  let hostPath ← translatePath .cwd userPath true
  if hostPath.length ≤ sizeofSunPath then pure hostPath
  else
    match tempName with
    | none => Comp.fail (.errno .einval)
    | some shorter =>
      if shorter.length > sizeofSunPath then Comp.fail (.errno .einval)
      else
        let w ← Comp.get
        match detranslatePath w hostPath none with
        | .error _ => Comp.fail (.errno .einval)
        | .ok (_, guestPath) =>
          -- the guest path is canonicalized, as it is always assumed
          bindPaths shorter guestPath
          pure shorter

end Improot.Syscall
