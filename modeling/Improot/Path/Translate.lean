import Improot.Path.Canon

/-!
# Translation of a guest path

`translate_path` of `path/path.c`: the base of a relative path is found, the path is canonicalized
from the guest's point of view, and the binding that covers the result is substituted.
-/

namespace Improot.Path

inductive DirFd where
  | cwd
  | fd (n : Int)
  deriving DecidableEq, Repr

/-- `getcwd2`, for a tracee. -/
def getcwd2 (w : World) : Except Errno CString :=
  if w.tracee.cwd.length ≥ pathMax then .error .enametoolong else .ok w.tracee.cwd

def readlinkProcPidFd (w : World) (fd : Int) : Except Errno CString :=
  match w.host.fdPath fd with
  | .error _ => .error .ebadf
  | .ok path => if path.length ≥ pathMax then .error .enametoolong else .ok path

/-- The base of `userPath`, as a guest path. -/
def basePath (w : World) (dirFd : DirFd) (userPath : CString) : Except Failure CString :=
  if userPath.head? = some '/' then .ok ['/']
  else
    match dirFd with
    | .fd n =>
      match readlinkProcPidFd w n with
      | .error e => .error (.errno e)
      | .ok path =>
        -- named file descriptors may reference special objects like pipes, sockets, ...
        if path.head? ≠ some '/' then .error (.errno .enotdir)
        else (detranslatePath w path none).map (·.2)
    | .cwd =>
      match getcwd2 w with
      | .error e => .error (.errno e)
      | .ok path => .ok path

/-- The nominal part of `translate_path`: the canonical guest path of `base` and `userPath`, then
its host path. -/
def translateCanonical (base userPath : CString) (derefFinal : Bool) : Comp CString := do
  if base.head? ≠ some '/' then Comp.fail .abort
  else
    let guestPath ← Comp.lift (joinPaths [some base, some userPath])
    let result ← canonicalize guestPath derefFinal ['/'] 0
    let w ← Comp.get
    let (_, result) ← Comp.lift (substituteBinding w.tracee.bindings .guest result)
    pure result

def translateUnlessAnswered (status : Nat) (base userPath : CString) (derefFinal : Bool) :
    Comp CString :=
  if status > 0 then pure base else translateCanonical base userPath derefFinal

/-- `translate_path`: the host path of `userPath`, which is relative to `dirFd`. -/
def translatePath (dirFd : DirFd) (userPath : CString) (derefFinal : Bool) : Comp CString := do
  let w ← Comp.get
  let base ← Comp.liftFailure (basePath w dirFd userPath)
  let (status, base) ← Comp.lift
    (notifyExtensions (fun e base => e.guestPath base userPath) w.tracee.extensions base)
  let result ← translateUnlessAnswered status base userPath derefFinal
  let (_, result) ← Comp.lift
    (notifyExtensions (fun e path => e.translatedPath path) w.tracee.extensions result)
  pure result

end Improot.Path
