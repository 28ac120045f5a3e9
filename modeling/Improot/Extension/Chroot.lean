import Improot.Path.Initialize

/-!
# Emulated chroot

`fake_id0/chroot.c`: a chroot(2) that the kernel refuses to the fake root, or never gets to see
because it raises SIGSYS, is emulated by another binding of "/".
-/

namespace Improot.Extension

open Improot.Path

inductive ChrootEntry where
  | sigsys
  /-- at the exit of the system call: its result, and the path that its argument was translated to -/
  | exit (result : Int) (modified : Except Errno CString)

structure Chroot where
  isRoot : Bool
  entry : ChrootEntry
  arg : Except Errno CString
  /-- what is on the stack where `path_guest` is, and in the buffer of a realpath(3) that fails -/
  pathGuest : CString
  unresolved : CString

/-- What the handler makes of the system call, if it reports no error. -/
inductive ChrootStatus where
  /-- its result stays as it is -/
  | ignored
  | forced
  deriving DecidableEq

def Chroot.fromSigsys (c : Chroot) : Bool :=
  match c.entry with
  | .sigsys => true
  | .exit _ _ => false

def Chroot.target (c : Chroot) : Comp CString :=
  match c.entry with
  | .exit _ modified => Comp.lift modified
  | .sigsys => do
    let pathGuest ← Comp.lift c.arg
    translatePath .cwd pathGuest true

/-- `path_host_absolute`; whether realpath(3) succeeds isn't looked at. -/
def Chroot.hostAbsolute (l : Launcher) (c : Chroot) (path : CString) : CString :=
  match l.realpath path with
  | .ok result => result
  | .error _ => c.unresolved

/-- `path_guest`, where it is compared: it is fetched in the SIGSYS handler only. -/
def Chroot.guest (c : Chroot) : CString :=
  match c.entry, c.arg with
  | .sigsys, .ok arg => arg
  | _, _ => c.pathGuest

def seenBindUnderNewRoot (t : Bindings) (pathGuest : CString) : Bool :=
  t.guest.dropLast.any fun b => comparePaths pathGuest b.guest = .path1IsPrefix

def setBindings (t : Bindings) : Comp Unit := fun w =>
  (.ok (), { w with tracee := { w.tracee with bindings := t } })

def setCwd (cwd : CString) : Comp Unit := fun w =>
  (.ok (), { w with tracee := { w.tracee with cwd := cwd } })

def replaceBindings (l : Launcher) (host : CString) : Comp Unit := do
  let t :=
    match newBinding l .empty host (some ['/']) with
    | .ok t => t
    | .error _ => .empty
  setBindings t
  initializeBindings

def restoreCwd (path : CString) : Comp Unit := do
  let w ← Comp.get
  match detranslatePath w path none with
  | .ok (status, path) => setCwd (if status = 0 then ['/'] else path)
  | .error (.errno _) => setCwd ['/']
  | .error .abort => Comp.fail .abort

def changeRoot (l : Launcher) (c : Chroot) (host : CString) : Comp ChrootStatus := do
  let w ← Comp.get
  if seenBindUnderNewRoot w.tracee.bindings c.guest then
    -- unsupported
    if c.fromSigsys then Comp.fail (.errno .enosys) else pure .ignored
  else
    let path ← translatePath .cwd w.tracee.cwd true
    replaceBindings l host
    restoreCwd path
    pure .forced

/-- The checks of the chroot target, which is another directory than the current root. -/
def validateTarget (stat : CString → Except Errno FileType) (c : Chroot) (host : CString) :
    Comp Unit := do
  let type ← Comp.lift (stat host)
  if type ≠ .dir then Comp.fail (.errno .enotdir)
  else if c.fromSigsys then pure ()
  else
    -- the guest path is fetched into another buffer than the one that is compared
    let _ ← Comp.lift c.arg
    pure ()

def handleChrootExitEnd (l : Launcher) (stat : CString → Except Errno FileType) (c : Chroot) :
    Comp ChrootStatus :=
  let emulate : Comp ChrootStatus := do
    let path ← c.target
    let w ← Comp.get
    let host := c.hostAbsolute l path
    if comparePaths (getRoot w.tracee.bindings) host = .pathsAreEqual then pure .forced
    else
      validateTarget stat c host
      changeRoot l c host
  match c.entry with
  | .sigsys => if c.isRoot then emulate else Comp.fail (.errno .eperm)
  -- override only permission errors
  | .exit result _ => if c.isRoot ∧ result = -1 then emulate else pure .ignored

end Improot.Extension
