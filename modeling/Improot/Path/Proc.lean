import Mathlib.Algebra.Group.Int.Defs
import Improot.Path.Tracee

/-!
# The links of /proc, and the way back from host to guest

`path/proc.c` emulates the links that the kernel makes up under "/proc"; `detranslate_path` of
`path/path.c` turns a host path into the name the guest knows it by.
-/

namespace Improot.Path

/-! ## Decimal numbers, as `atoi`, `strtol` and `sscanf` read them -/

def isSpace (c : Char) : Bool := c = ' ' ∨ ('\t'.toNat ≤ c.toNat ∧ c.toNat ≤ '\r'.toNat)

def digitsValue (digits : CString) : Nat :=
  digits.foldl (fun n c => 10 * n + (c.toNat - '0'.toNat)) 0

/-- Reads a decimal integer after optional blanks and sign, and what follows it. -/
def scanInt (s : CString) : Option (Int × CString) :=
  let s := s.dropWhile isSpace
  let negative := s.head? = some '-'
  let s := if s.head? = some '-' ∨ s.head? = some '+' then s.tail else s
  let digits := s.takeWhile Char.isDigit
  if digits = [] then none
  else
    some (if negative then -(digitsValue digits : Int) else digitsValue digits,
      s.dropWhile Char.isDigit)

def atoi (s : CString) : Int :=
  match scanInt s with
  | some (n, _) => n
  | none => 0

/-- `strtol` reads a number and does not report `ERANGE`. -/
def strtolSucceeds (s : CString) : Bool :=
  match scanInt s with
  | some (n, _) => -(2 ^ 63 : Int) ≤ n ∧ n < 2 ^ 63
  | none => false

def formatInt (n : Int) : CString :=
  if n < 0 then '-' :: Nat.toDigits 10 n.natAbs else Nat.toDigits 10 n.natAbs

def procDir : CString := ['/', 'p', 'r', 'o', 'c']

def procPidDir (pid : Int) : CString := procDir ++ '/' :: formatInt pid

/-! ## `readlink_proc` -/

/-- Action to do after a call to `readlink_proc`. -/
inductive Action where
  /-- nothing special to do, treat it as a regular link -/
  | default
  /-- the symlink was dereferenced, now canonicalize it -/
  | canonicalize (result : CString)
  /-- the symlink shouldn't be dereferenced nor canonicalized -/
  | dontCanonicalize (result : CString)
  deriving DecidableEq, Repr

def fitting (action : CString → Action) (result : CString) : Except Errno Action :=
  if result.length ≥ pathMax then .error .eperm else .ok (action result)

def normalizeProcBase (pid : Nat) (base : CString) : CString :=
  if (base.drop 6).take 4 = ['s', 'e', 'l', 'f'] ∧ (base[10]? = some '/' ∨ base[10]? = none) then
    procPidDir pid ++ base.drop 10
  else base

/-- `readlink_proc`: emulate the link `component` of the directory `base`, where `comparison` is
the comparison of "/proc" with `base`. -/
def readlinkProc (w : World) (base component : CString) (comparison : Comparison) :
    Except Errno Action :=
  match comparison with
  | .pathsAreEqual =>
    -- substitute "/proc/self" with "/proc/<PID>"
    if component ≠ ['s', 'e', 'l', 'f'] then .ok .default
    else fitting .canonicalize (procPidDir w.tracee.pid)
  | .path1IsPrefix =>
    let base := normalizeProcBase w.tracee.pid base
    if base.length ≥ pathMax then .error .eperm
    else
      let pid := atoi (base.drop 6)
      if pid = 0 then .ok .default
      else
        match comparePaths (procPidDir pid) base with
        | .pathsAreEqual =>
          match w.host.getTracee pid with
          | none => .ok .default
          | some known =>
            if component = ['e', 'x', 'e'] then fitting .canonicalize known.exe
            else if component = ['c', 'w', 'd'] then fitting .canonicalize known.cwd
            else if component = ['r', 'o', 'o', 't'] then fitting .canonicalize known.root
            else .ok .default
        | .path1IsPrefix =>
          match comparePaths (procPidDir pid ++ ['/', 'f', 'd']) base with
          | .pathsAreEqual =>
            -- a number is expected
            if strtolSucceeds component then
              fitting .dontCanonicalize (base ++ '/' :: component)
            else .error .eperm
          | _ => .ok .default
        | _ => .ok .default
  | _ => .ok .default

def splitLast (path : CString) : CString × CString :=
  let component := (path.reverse.takeWhile (· ≠ '/')).reverse
  (path.take (path.length - component.length - 1), component)

/-- `readlink_proc2`: the emulated value of the link `referer`, if there is one. -/
def readlinkProc2 (w : World) (referer : CString) : Except Errno (Option CString) :=
  if referer.length ≥ pathMax then .error .enametoolong
  else
    let (base, component) := splitLast referer
    if component = [] then .ok none
    else
      match readlinkProc w base component .path1IsPrefix with
      | .ok (.canonicalize result) => .ok (if result.length = 0 then none else some result)
      | _ => .ok none

/-! ## `detranslate_path` -/

/-- The last part of `detranslate_path`: remove the leading "root" of a host path. -/
def removeRoot (t : Bindings) (sanityCheck : Bool) (path : CString) :
    Except Failure (Nat × CString) :=
  match comparePaths (getRoot t) path with
  | .path1IsPrefix =>
    let prefixLength := if (getRoot t).length = 1 then 0 else (getRoot t).length
    let path := path.drop prefixLength
    .ok (path.length + 1, path)
  | .pathsAreEqual => .ok (2, ['/'])
  | _ => if sanityCheck then .error (.errno .eperm) else .ok (0, path)

/-- `detranslate_path`: remove or substitute the leading part of a translated path.  The number is
the value returned: 0 if no transformation is required, otherwise the size of the path. -/
def detranslatePath (w : World) (path : CString) (referrer : Option CString) :
    Except Failure (Nat × CString) :=
  let t := w.tracee.bindings
  if path.length ≥ pathMax then .error (.errno .enametoolong)
  else if path.head? ≠ some '/' then .ok (0, path)
  else
    let substitute (sanityCheck followBinding : Bool) : Except Failure (Nat × CString) :=
      if followBinding then
        match substituteBinding t .host path with
        | .ok (false, path) => .ok (0, path)
        | .ok (true, path) => .ok (path.length + 1, path)
        | .error _ => removeRoot t sanityCheck path
      else removeRoot t sanityCheck path
    match referrer with
    | none => substitute true true
    | some referrer =>
      if comparePaths procDir referrer = .path1IsPrefix then
        match readlinkProc2 w referrer with
        | .error e => .error (.errno e)
        | .ok (some result) => .ok (result.length + 1, result)
        -- symlinks in "/proc" always point to the emulated name-space
        | .ok none => substitute false true
      else if belongsToGuestfs t referrer then substitute false false
      else
        -- resolve bindings for symlinks that belong to a binding and point to the same one
        match getPathBinding t .host path, getPathBinding t .host referrer with
        | _, none => .error .abort
        | none, some _ => substitute false false
        | some referree, some referrer =>
          substitute false (comparePaths referree referrer = .pathsAreEqual)

def detranslated (t : Bindings) (path : CString) (sanityCheck followBinding : Bool) :
    Except Failure (Nat × CString) :=
  if followBinding then
    match substituteBinding t .host path with
    | .ok (false, path) => .ok (0, path)
    | .ok (true, path) => .ok (path.length + 1, path)
    | .error _ => removeRoot t sanityCheck path
  else removeRoot t sanityCheck path

/-- **What `detranslate_path` answers**: the path as it is, a link of "/proc", or what is left of
the path. -/
theorem detranslatePath_cases {w : World} {path result : CString} {referrer : Option CString}
    {status : Nat} (h : detranslatePath w path referrer = .ok (status, result)) :
    path.length < pathMax ∧
      ((status = 0 ∧ result = path) ∨
        (status = result.length + 1 ∧
          ∃ r, referrer = some r ∧ readlinkProc2 w r = .ok (some result)) ∨
        ∃ sanityCheck followBinding,
          detranslated w.tracee.bindings path sanityCheck followBinding = .ok (status, result)) := by
  unfold detranslatePath at h
  dsimp only at h
  split at h
  · cases h
  rename_i hlength
  refine ⟨Nat.lt_of_not_le hlength, ?_⟩
  split at h
  · cases h
    exact .inl ⟨rfl, rfl⟩
  right
  split at h
  · exact .inr ⟨true, true, h⟩
  split at h
  · split at h
    · cases h
    · rename_i hlink
      cases h
      exact .inl ⟨rfl, _, rfl, hlink⟩
    · exact .inr ⟨false, true, h⟩
  split at h
  · exact .inr ⟨false, false, h⟩
  split at h
  · cases h
  · exact .inr ⟨false, false, h⟩
  · exact .inr ⟨false, _, h⟩

end Improot.Path
