import Improot.Lib.Transition
import Improot.Path.Basic

/-!
# The removal of a temporary directory

`clean_temp_cwd` in `path/temp.c`: it goes down the tree by changing the working directory, and comes
back through "..".  A run takes one system call after another, each of which may fail, and other
processes change the file system in between.
-/

namespace Improot.Path.TempClean

open Improot.Lib

/-! ## The file system -/

abbrev Ino := Nat

inductive Kind where
  | dir | lnk | other
  deriving DecidableEq, Repr

/-- The `d_type` of an entry. -/
inductive DirentType where
  | dir | lnk | unknown | other
  deriving DecidableEq, Repr

structure Fs where
  kind : Ino → Kind
  /-- the entries of a directory, but for "." and ".." -/
  entry : Ino → CString → Option Ino
  /-- where a symbolic link leads in the end -/
  follow : Ino → Option Ino
  /-- the ".." of a directory -/
  parent : Ino → Ino
  /-- the components of the path of a directory -/
  location : Ino → List CString
  deleted : Ino → Bool
  mode : Ino → Nat
  /-- a directory lies where it is found -/
  found : ∀ d name i, entry d name = some i → kind i = .dir →
    parent i = d ∧ location i = location d ++ [name]

namespace Fs

def render (location : List CString) : CString := location.flatMap fun name => '/' :: name

def path (fs : Fs) (d : Ino) : CString :=
  render (fs.location d) ++ if fs.deleted d then " (deleted)".toList else []

/-- The file that a system call gets for a name if it follows symbolic links. -/
def lookup (fs : Fs) (d : Ino) (name : CString) : Option Ino :=
  (fs.entry d name).bind fun i => if fs.kind i = .lnk then fs.follow i else some i

def chmod (fs : Fs) (i : Ino) : Fs := { fs with mode := fun j => if j = i then 0o700 else fs.mode j }

def remove (fs : Fs) (d : Ino) (name : CString) (i : Ino) : Fs :=
  { fs with
    entry := fun d' name' => if d' = d ∧ name' = name then none else fs.entry d' name'
    deleted := fun j => (j = i && fs.kind i = .dir) || fs.deleted j
    found := by
      intro d' name' i' h
      split at h
      · cases h
      · exact fs.found d' name' i' h }

end Fs

/-! ## The recursion -/

/-- A call that waits for the one it has made: `dir`, `nb_errors` and `entry->d_name`. -/
structure Frame where
  stream : Ino
  nbErrors : Int
  name : CString

inductive Control where
  /-- the check of the working directory -/
  | enter
  /-- opendir(3) -/
  | opening
  /-- readdir(3) -/
  | reading (stream : Ino) (nbErrors : Int)
  /-- chmod(2) -/
  | chmodding (stream : Ino) (nbErrors : Int) (name : CString) (type : DirentType)
  /-- chdir(2) -/
  | entering (stream : Ino) (nbErrors : Int) (name : CString)
  /-- chdir(2) to "..", after the recursion -/
  | back (stream : Ino) (nbErrors : Int) (name : CString)
  /-- rmdir(2) or unlink(2) -/
  | removing (stream : Ino) (nbErrors : Int) (name : CString) (type : DirentType)
  | returning (status : Int)

structure State where
  control : Control
  callers : List Frame
  cwd : Ino
  fs : Fs
  /-- has a check found that the working directory is outside? -/
  detected : Bool

/-- What a call of a library or of the system comes back with. -/
inductive Answer where
  | failed
  | done
  | dirent (name : CString) (type : DirentType)
  | endOfDir

inductive Event where
  | answer (a : Answer)
  | environment (fs : Fs)

/-- `strncmp(prefix, temp_directory, length_temp_directory) == 0`. -/
def HasPrefix (temp : List CString) (path : CString) : Prop :=
  path.take (Fs.render temp).length = Fs.render temp

instance (temp : List CString) (path : CString) : Decidable (HasPrefix temp path) :=
  inferInstanceAs (Decidable (_ = _))

def State.goto (s : State) (control : Control) : State := { s with control := control }

/-- `clean_temp_cwd`, up to the next call of the system. -/
def cleanTempCwd (temp : List CString) (s : State) : Control → Answer → Option State
  -- `talloc_size` or readlink(2) fails
  | .enter, .failed => some (s.goto (.returning 1))
  | .enter, .done =>
    if HasPrefix temp (s.fs.path s.cwd) then some (s.goto .opening)
    else some { s with control := .returning 1, detected := true }
  | .opening, .failed => some (s.goto (.returning 1))
  | .opening, .done => some (s.goto (.reading s.cwd 0))
  | .reading _ nbErrors, .failed => some (s.goto (.returning (nbErrors + 1)))
  | .reading _ nbErrors, .endOfDir => some (s.goto (.returning nbErrors))
  | .reading stream nbErrors, .dirent name type =>
    if name = ['.'] ∨ name = ['.', '.'] then some s
    -- skip chmod on symlinks
    else if type ≠ .lnk then some (s.goto (.chmodding stream nbErrors name type))
    else some (s.goto (.removing stream nbErrors name type))
  | .chmodding stream nbErrors _ _, .failed => some (s.goto (.reading stream (nbErrors + 1)))
  | .chmodding stream nbErrors name type, .done =>
    (s.fs.lookup s.cwd name).map fun i =>
      { s with
        fs := s.fs.chmod i
        control :=
          if type = .dir then .entering stream nbErrors name
          else .removing stream nbErrors name type }
  | .entering stream nbErrors _, .failed => some (s.goto (.reading stream (nbErrors + 1)))
  | .entering stream nbErrors name, .done =>
    (s.fs.lookup s.cwd name).bind fun i =>
      if s.fs.kind i = .dir then
        some { s with
          control := .enter
          callers := ⟨stream, nbErrors, name⟩ :: s.callers
          cwd := i }
      else none
  | .returning status, .done =>
    match s.callers with
    | [] => none
    | f :: callers =>
      if status < 0 then some { s with control := .returning (-1), callers := callers }
      else
        some { s with
          control := .back f.stream (f.nbErrors + status) f.name
          callers := callers }
  | .back _ _ _, .failed => some (s.goto (.returning (-1)))
  | .back stream nbErrors name, .done =>
    some { s with control := .removing stream nbErrors name .dir, cwd := s.fs.parent s.cwd }
  | .removing stream nbErrors _ _, .failed => some (s.goto (.reading stream (nbErrors + 1)))
  | .removing stream nbErrors name type, .done =>
    (s.fs.entry s.cwd name).bind fun i =>
      if s.fs.kind i = .dir ↔ type = .dir then
        some { s with control := .reading stream nbErrors, fs := s.fs.remove s.cwd name i }
      else none
  | _, _ => none

/-- The runs of `clean_temp_cwd` from a working directory, among other processes. -/
def cleaning (temp : List CString) (start : Fs → Ino → Prop) : System State Event where
  init s := s.control = .enter ∧ s.callers = [] ∧ s.detected = false ∧ start s.fs s.cwd
  step s
    | .answer a => cleanTempCwd temp s s.control a
    | .environment fs => some { s with fs := fs }

/-! ## What is to be -/

def Below (temp : List CString) (fs : Fs) (d : Ino) : Prop :=
  ∃ name rest, fs.location d = temp ++ name :: rest

def Control.Changes : Control → Prop
  | .chmodding .. | .removing .. => True
  | _ => False

def Control.Leaves : Control → Prop
  | .back .. | .returning _ => True
  | _ => False

/-- **A step touches nothing outside**: what it changes lies in a directory below the temporary one, no
symbolic link is followed to change a mode, and a check that fails stops the whole recursion. -/
structure Safe (temp : List CString) (s : State) (e : Event) : Prop where
  parent : s.control.Changes → e = .answer .done → Below temp s.fs s.cwd
  link : ∀ stream nbErrors name type, s.control = .chmodding stream nbErrors name type →
    e = .answer .done → ∀ i, s.fs.entry s.cwd name = some i → s.fs.kind i ≠ .lnk
  stopped : s.detected = true → s.control.Leaves

def CleansSafely (temp : List CString) (start : Fs → Ino → Prop) (ok : State → Event → Prop) : Prop :=
  ∀ s e s', (cleaning temp start).Reach ok s → ok s e → (cleaning temp start).step s e = some s' →
    Safe temp s e

end Improot.Path.TempClean
