import Improot.Lib.Transition
import Improot.Lib.Tree
import Improot.Path.Canon
import Improot.Path.GuestTable

/-!
# Placeholders

`path/glue.c` over a file system with nodes: while the bindings are initialized, `build_glue` makes
the components that are missing, in the guest rootfs or in the glue directory, and records those that
it has made outside of the latter.  The destructors of the records remove them at the end, the last
one first.
-/

namespace Improot.Path.Placeholder

/-! ## The file system -/

structure Fs extends Lib.Tree Component where
  type : Nat → FileType
  size : Nat → Nat
  /-- The entries of the directory can't be removed. -/
  locked : Nat → Bool
  root_dir : type root = .dir
  dirs : ∀ i, type i ≠ .dir → entries i = []
  links : ∀ i, type i = .lnk ↔ link i ≠ none

def maxLinks : Nat := 40

structure Env where
  /-- The error of a system call that can't walk to a path. -/
  denied : CString → Option Errno
  /-- The error when nothing can be made at a path. -/
  refused : CString → Option Errno
  skipped : CString → Bool
  /-- The name that `create_temp_directory` takes. -/
  tempDirectory : Option CString
  /-- `PROOT_DONT_POLLUTE_ROOTFS` is set. -/
  dontPollute : Bool
  temp_canonical : ∀ path, tempDirectory = some path → Canonical path

def Fs.found (fs : Fs) (path : CString) : Option Nat :=
  if namesOf path = [] then some fs.root else fs.find maxLinks (namesOf path)

def Fs.lstat (fs : Fs) (env : Env) (path : CString) : Except Errno FileType :=
  match env.denied path with
  | some e => .error e
  | none =>
    match fs.found path with
    | none => .error .enoent
    | some i => .ok (fs.type i)

theorem Fs.link_of_dir (fs : Fs) {d : Nat} (h : fs.type d = .dir) : fs.link d = none := by
  by_contra hlink
  rw [(fs.links d).mpr hlink] at h
  cases h

def Fs.create (fs : Fs) (d : Nat) (n : Component) (type : FileType) (hd : d < fs.next)
    (hdir : fs.type d = .dir) (htype : type ≠ .lnk) : Fs where
  toTree := fs.toTree.make d n hd (fs.link_of_dir hdir)
  type i := if i = fs.next then type else fs.type i
  size i := if i = fs.next then 0 else fs.size i
  locked i := if i = fs.next then false else fs.locked i
  root_dir := by
    show (if fs.root = fs.next then type else fs.type fs.root) = .dir
    rw [if_neg (Nat.ne_of_lt fs.root_lt)]
    exact fs.root_dir
  dirs i hi := by
    show (if i = d then _ else fs.entries i) = []
    split at hi
    case isTrue heq =>
      rw [if_neg (by omega), heq]
      exact fs.unused fs.next (Nat.le_refl _)
    case isFalse hne =>
      split
      case isTrue heq =>
        rw [heq, hdir] at hi
        exact absurd rfl hi
      case isFalse => exact fs.dirs i hi
  links i := by
    show (if i = fs.next then type else fs.type i) = .lnk ↔
      (if i = fs.next then none else fs.link i) ≠ none
    split
    · simp [htype]
    · exact fs.links i

def Fs.makeNode (fs : Fs) (env : Env) (path : CString) (type : FileType) : Except Errno (Fs × Nat) :=
  match env.denied path with
  | some e => .error e
  | none =>
    if namesOf path = [] then .error .eexist
    else
      match fs.locate maxLinks (namesOf path) with
      | none => .error .enoent
      | some (d, n) =>
        match fs.entry d n with
        | some _ => .error .eexist
        | none =>
          match env.refused path with
          | some e => .error e
          | none =>
            if h : d < fs.next ∧ fs.type d = .dir ∧ type ≠ .lnk then
              .ok (fs.create d n type h.1 h.2.1 h.2.2, fs.next)
            else .error .enotdir

/-- `unlink(2)`, and `rmdir(2)` of an empty directory. -/
def Fs.unlink (fs : Fs) (d : Nat) (n : Component) : Fs :=
  if fs.locked d then fs
  else
    { fs with
      toTree := fs.toTree.remove d n
      dirs := by
        intro i hi
        show (if i = d then (fs.entries d).filter _ else fs.entries i) = []
        split
        case isTrue heq =>
          rw [← heq, fs.dirs i hi]
          rfl
        case isFalse => exact fs.dirs i hi
      links := fs.links }

/-! ## `build_glue` -/

/-- A record of `set_placeholder_destructor`, with the node that was made. -/
structure Record where
  path : CString
  node : Nat

/-- The files, and the part of the tracee that is used here; the last record comes first. -/
structure State where
  fs : Fs
  bindings : Bindings
  glue : Option CString
  placeholders : List Record

/-- `create_temp_directory`, unless there is one. -/
def withGlue (env : Env) (s : State) : Option (CString × State) :=
  match s.glue with
  | some glue => some (glue, s)
  | none =>
    match env.tempDirectory with
    | none => none
    | some glue =>
      match s.fs.makeNode env glue .dir with
      | .error _ => none
      | .ok (fs, _) => some (glue, { s with fs := fs, glue := some glue })

def BelongsToGluefs (glue hostPath : CString) : Prop :=
  comparePaths glue hostPath = .pathsAreEqual ∨ comparePaths glue hostPath = .path1IsPrefix

instance (glue hostPath : CString) : Decidable (BelongsToGluefs glue hostPath) :=
  inferInstanceAs (Decidable (_ ∨ _))

/-- The label `create_binding`. -/
def createBinding (glue guestPath : CString) (type : FileType) (s : State) :
    Option FileType × State :=
  if glue.length ≥ pathMax ∨ guestPath.length ≥ pathMax then (none, s)
  else (some type, { s with bindings := insortBinding3 s.bindings glue guestPath })

/-- `build_glue`, once the directory `glue` exists. -/
def buildGlueIn (env : Env) (glue guestPath hostPath : CString) (finality : Finality)
    (glueType : FileType) (s : State) : Option FileType × State :=
  let type := if finality.isFinal then glueType else .dir
  if env.dontPollute = true ∧ ¬ BelongsToGluefs glue hostPath then
    createBinding glue guestPath type s
  else
    match s.fs.makeNode env hostPath type with
    | .ok (fs, node) =>
      (some type,
        { s with
          fs := fs
          placeholders :=
            if BelongsToGluefs glue hostPath then s.placeholders
            else ⟨hostPath, node⟩ :: s.placeholders })
    | .error e =>
      if e = .eexist ∨ finality.isFinal then (some type, s)
      else if BelongsToGluefs glue hostPath then (none, s)
      else createBinding glue guestPath type s

def buildGlue (env : Env) (guestPath hostPath : CString) (finality : Finality)
    (glueType : FileType) (s : State) : Option FileType × State :=
  match withGlue env s with
  | none => (none, s)
  | some (glue, s) => buildGlueIn env glue guestPath hostPath finality glueType s

def hostOf (env : Env) (fs : Fs) : Host where
  lstat := fs.lstat env
  readlink _ := .error .einval
  fdPath _ := .error .enoent
  skipped := env.skipped
  make path type := (fs.makeNode env path type).map fun _ => ()
  tempDirectory := env.tempDirectory
  dontPollute := env.dontPollute
  getTracee _ := none

/-- `substitute_binding_stat`, while a binding is initialized. -/
def substituteBindingStat (env : Env) (finality : Finality) (guestPath : CString)
    (glueType : FileType) (s : State) : Except Errno (Bool × CString) × State :=
  match substituteBinding s.bindings .guest guestPath with
  | .error e => (.error e, s)
  | .ok (_, hostPath) =>
    let (type, s) :=
      match hostStat (hostOf env s.fs) hostPath with
      | .ok type => (some type, s)
      | .error _ => buildGlue env guestPath hostPath finality glueType s
    ((checkType finality type).map fun isLink => (isLink, hostPath), s)

/-! ## The destructors -/

def removePlaceholder (env : Env) (path : CString) (fs : Fs) : Fs :=
  match env.denied path, fs.locate maxLinks (namesOf path) with
  | none, some (d, n) =>
    match fs.entry d n with
    | none => fs
    | some i =>
      if fs.type i ≠ .dir then
        if fs.size i ≠ 0 then fs else fs.unlink d n
      else if fs.entries i ≠ [] then fs
      else fs.unlink d n
  | _, _ => fs

/-- The destructors of the autofree context, the last record first. -/
def freePlaceholders (env : Env) : List Record → Fs → Fs
  | [], fs => fs
  | p :: ps, fs => freePlaceholders env ps (removePlaceholder env p.path fs)

/-! ## The initialization -/

/-- What the initialization of the bindings does: it looks up a component of a directory, as
`canonicalize` does, or inserts a binding. -/
inductive Action where
  | look (finality : Finality) (dir : List Component) (component : Component)
    (glueType : FileType)
  | insert (host guest : List Component)

def perform (env : Env) (s : State) : Action → State
  | .look finality dir component glueType =>
    (substituteBindingStat env finality (pathOf (dir ++ [component])) glueType s).2
  | .insert host guest =>
    { s with bindings := insortBinding3 s.bindings (pathOf host) (pathOf guest) }

structure Initial (s : State) : Prop where
  sorted : s.bindings.Sorted
  rooted : s.bindings.Rooted
  glue : s.glue = none
  placeholders : s.placeholders = []

def initialization (env : Env) : Lib.System State Action where
  init := Initial
  step s a := some (perform env s a)

end Improot.Path.Placeholder
