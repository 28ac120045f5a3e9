import Improot.Path.Proc

/-!
# The working directory after a rename

The exit of `PR_rename` and `PR_renameat` in `syscall/exit.c`: the old path is turned back into a
guest path, and when it is the current working directory or a parent of it, this prefix of `fs->cwd`
is exchanged for the new path.  `PR_renameat2` isn't handled there.
-/

namespace Improot.Syscall

open Improot.Path

inductive RenameCall where
  | rename | renameat
  | renameat2 (exchange : Bool)
  deriving DecidableEq, Repr

/-- What becomes of `fs->cwd`. -/
inductive CwdUpdate where
  | failed (e : Failure)
  | kept
  | set (cwd : CString)
  | tooLong
  /-- a length is negative, and bytes behind the buffer are moved -/
  | overrun
  deriving DecidableEq

/-- `substitute_path_prefix` for `fs->cwd`, with the lengths that its caller computes.  With an old
prefix that is longer than the path, `path_length - old_prefix_length` wraps around. -/
def substituteCwd (cwd : CString) (oldLength : Nat) (newPath : CString) (newLength : Nat) :
    CwdUpdate :=
  if cwd.length < oldLength then .overrun
  else
    match substitutePathPrefix cwd oldLength newPath newLength with
    | (.ok _, cwd) => .set cwd
    -- the value returned isn't looked at
    | (.error _, _) => .tooLong

/-- The length of a path that `detranslate_path` returned. -/
def detranslatedLength (status : Nat) (path : CString) : Nat :=
  if status > 0 then status - 1 else path.length

def renameExit (w : World) (oldPath newPath : CString) : CwdUpdate :=
  match detranslatePath w oldPath none with
  | .error e => .failed e
  | .ok (status, oldPath) =>
    let oldLength := detranslatedLength status oldPath
    let comparison := comparePaths oldPath w.tracee.cwd
    -- nothing special to do if the moved path is not the current working directory
    if comparison ≠ .path1IsPrefix ∧ comparison ≠ .pathsAreEqual then .kept
    else
      match detranslatePath w newPath none with
      | .error e => .failed e
      | .ok (status, newPath) =>
        let newLength := detranslatedLength status newPath
        if w.tracee.cwd.length ≥ pathMax then .kept
        else substituteCwd w.tracee.cwd oldLength newPath newLength

def RenameCall.exit (call : RenameCall) (w : World) (oldPath newPath : CString) : CwdUpdate :=
  match call with
  | .rename | .renameat => renameExit w oldPath newPath
  | .renameat2 _ => .kept

end Improot.Syscall
