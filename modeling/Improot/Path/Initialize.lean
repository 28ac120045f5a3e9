import Improot.Path.Translate

/-!
# Bindings from the command line

`new_binding`, `initialize_binding` and `initialize_bindings` of `path/binding.c`: the bindings the
user asks for are pending until their guest paths can be canonicalized, the one of "/" first.
-/

namespace Improot.Path

structure Launcher where
  realpath : CString → Except Errno CString
  getcwd : Except Errno CString

def procSelf : CString := ['/', 'p', 'r', 'o', 'c', '/', 's', 'e', 'l', 'f']

def isProcSelf (host : CString) : Bool :=
  host.take procSelf.length = procSelf ∧
    (host[procSelf.length]? = some '/' ∨ host[procSelf.length]? = none)

def sanitizeHost (l : Launcher) (host : CString) : Except Errno CString :=
  if isProcSelf host then
    if host.length ≥ pathMax then .error .enametoolong else .ok host
  else l.realpath host

def sanitizeGuest (l : Launcher) (guest : CString) : Except Errno CString := do
  -- assume the guest path is relative to the current working directory
  let base ← if guest.head? ≠ some '/' then l.getcwd else .ok ['/']
  joinPaths [some base, some guest]

def newBinding (l : Launcher) (t : Bindings) (host : CString) (guest : Option CString) :
    Except Errno Bindings := do
  let hostPath ← sanitizeHost l host
  -- a symmetric binding?
  let guestPath ← sanitizeGuest l (guest.getD host)
  .ok (insortBinding { t with nextNode := t.nextNode + 1 } .pending
    ⟨t.nextNode, hostPath, guestPath, false⟩)

/-- The type of the final component of a guest path, given what `lstat(2)` says of the host path:
a regular file stands for what `mknod(2)` can't make. -/
def glueTypeOf : Except Errno FileType → FileType
  | .error _ | .ok .blk | .ok .chr | .ok .lnk => .reg
  | .ok type => type

def setGlueType (type : Option FileType) : Comp Unit := fun w =>
  (.ok (), { w with tracee := { w.tracee with glueType := type } })

/-- `insort_binding2` in the tree of the tracee. -/
def insertBinding (b : Binding) : Comp Unit := fun w =>
  (.ok (), { w with tracee := { w.tracee with bindings := insortBinding2 w.tracee.bindings b } })

def Binding.keepsLink (b : Binding) : Bool := b.guest.getLast? = some '!'

def Binding.userPath (b : Binding) : CString := if b.keepsLink then b.guest.dropLast else b.guest

def canonicalizePending (b : Binding) : Comp CString := do
  let w ← Comp.get
  let type := w.host.lstat b.host
  setGlueType (some (glueTypeOf type))
  -- a symlink that a directory is bound to is kept
  let dereference := if type = .ok .dir then false else !b.keepsLink
  canonicalize b.userPath dereference ['/'] 0

/-- `initialize_binding`.  When the guest path cannot be canonicalized, `glue_type` is left as it
is. -/
def initializeBinding (b : Binding) : Comp Unit := do
  if comparePaths b.guest ['/'] ≠ .pathsAreEqual then
    let guestPath ← canonicalizePending b
    setGlueType none
    insertBinding { b with guest := chopFinality guestPath }
  else
    insertBinding b

/-- Goes on after an error; a failed assertion is the end. -/
def Comp.attempt (x : Comp Unit) : Comp Unit := fun w =>
  match x w with
  | (.error (.errno _), w') => (.ok (), w')
  | r => r

/-- The loop of `initialize_bindings`.  The binding that `CIRCLEQ_PREV` returns is still in the
list of pending bindings, since only initialized ones are ever removed. -/
def initializeEach : List Binding → Comp Unit
  | [] => pure ()
  | b :: bs => do
    Comp.attempt (initializeBinding b)
    initializeEach bs

def freePending : Comp Unit := fun w =>
  (.ok (), { w with tracee := { w.tracee with bindings := { w.tracee.bindings with
    pending := [] } } })

def Bindings.pendingRoot (t : Bindings) : Bool :=
  match t.pending.getLast? with
  | some b => comparePaths b.guest ['/'] = .pathsAreEqual
  | none => false

def initializeBindings : Comp Unit := do
  let w ← Comp.get
  let t := w.tracee.bindings
  if t.pendingRoot ∧ t.guest = [] ∧ t.host = [] then
    initializeEach t.pending.reverse
    freePending
  else Comp.fail .abort

end Improot.Path
