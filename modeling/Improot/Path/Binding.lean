import Improot.Path.Compare

/-!
# The binding tree

`path/binding.c`: the lists of bindings of a file-system name-space, the look-up of the binding
that covers a path, the substitution of its prefix, and the sorted insertion.
-/

namespace Improot.Path

inductive Side where
  | guest | host
  /-- bindings as specified by the user but not canonicalized yet -/
  | pending
  deriving DecidableEq, Repr

/-- `struct binding`.  `node` is the identity of the list node. -/
structure Binding where
  node : Nat
  host : CString
  guest : CString
  needSubstitution : Bool
  deriving DecidableEq, Repr

def Binding.path (b : Binding) : Side → CString
  | .host => b.host
  | .guest | .pending => b.guest

/-- The path by which a substitution replaces `Binding.path`. -/
def Binding.reversePath (b : Binding) : Side → CString
  | .host => b.guest
  | .guest | .pending => b.host

/-- `tracee->fs->bindings`: the three lists, and the next node to allocate. -/
structure Bindings where
  pending : List Binding
  guest : List Binding
  host : List Binding
  nextNode : Nat
  deriving DecidableEq, Repr

namespace Bindings

def list (t : Bindings) : Side → List Binding
  | .guest => t.guest
  | .host => t.host
  | .pending => t.pending

def setList (t : Bindings) (side : Side) (l : List Binding) : Bindings :=
  match side with
  | .guest => { t with guest := l }
  | .host => { t with host := l }
  | .pending => { t with pending := l }

/-- No list, as before `initialize_bindings`. -/
def empty : Bindings := ⟨[], [], [], 0⟩

end Bindings

/-! ## Look-up -/

/-- `get_root`, once the bindings are initialized: the host path of the last guest binding.  The
two assertions of the source (the list is not empty, its last entry is the binding of "/") are
the clause `root` of the invariants below. -/
def getRoot (t : Bindings) : CString :=
  match t.guest.getLast? with
  | some b => b.host
  | none => []

def belongsToGuestfs (t : Bindings) (hostPath : CString) : Bool :=
  comparePaths (getRoot t) hostPath = .pathsAreEqual ∨
    comparePaths (getRoot t) hostPath = .path1IsPrefix

/-- The condition under which the loop of `get_binding` returns a binding. -/
def covers (t : Bindings) (side : Side) (path : CString) (b : Binding) : Bool :=
  (comparePaths (b.path side) path = .pathsAreEqual ∨
    comparePaths (b.path side) path = .path1IsPrefix) ∧
  -- a prefix of the rootfs used as an asymmetric binding is a false positive
  ¬ (side = .host ∧ comparePaths (getRoot t) ['/'] ≠ .pathsAreEqual ∧ belongsToGuestfs t path)

def getBinding (t : Bindings) (side : Side) (path : CString) : Option Binding :=
  match side with
  | .pending => none
  | .guest | .host => (t.list side).find? (covers t side path)

def getPathBinding (t : Bindings) (side : Side) (path : CString) : Option CString :=
  (getBinding t side path).map (·.path side)

/-- `substitute_binding`: the result is an error, or whether a substitution is reported together
with what the buffer then holds.  The value returned by `substitute_path_prefix` is not looked at,
as in the source. -/
def substituteBinding (t : Bindings) (side : Side) (path : CString) :
    Except Errno (Bool × CString) :=
  match getBinding t side path with
  | none => .error .enoent
  | some b =>
    if b.needSubstitution then
      let ref := b.path side
      let reverseRef := b.reversePath side
      .ok (true, (substitutePathPrefix path ref.length reverseRef reverseRef.length).2)
    else .ok (false, path)

/-! ## Sorted insertion -/

/-- Where `insort_binding` puts a binding, by the position of the node it found. -/
inductive InsortPoint where
  | replace (iterator : Nat)
  | after (previous : Nat)
  | first
  deriving DecidableEq, Repr

/-- The search loop of `insort_binding`, at the node number `i`.  The variable `next` of the source
starts at the first node, so that the branch of a containing iterator never moves it. -/
def insortScan (side : Side) (binding : Binding) :
    (i : Nat) → (previous : Option Nat) → List Binding → InsortPoint
  | _, some previous, [] => .after previous
  | _, none, [] => .first
  | i, previous, iterator :: rest =>
    match comparePaths (binding.path side) (iterator.path side) with
    | .pathsAreEqual =>
      if side = .host then insortScan side binding (i + 1) (some i) rest else .replace i
    | .path1IsPrefix => insortScan side binding (i + 1) (some i) rest
    | .path2IsPrefix => insortScan side binding (i + 1) previous rest
    | .pathsAreNotComparable => insortScan side binding (i + 1) previous rest

def removeBindingFromAllLists (t : Bindings) (b : Binding) : Bindings :=
  { t with
    pending := t.pending.filter (·.node ≠ b.node)
    guest := t.guest.filter (·.node ≠ b.node)
    host := t.host.filter (·.node ≠ b.node) }

/-- `CIRCLEQ_INSERT_AFTER` of the first `n` nodes. -/
def insertAt (n : Nat) (b : Binding) (l : List Binding) : List Binding :=
  l.take n ++ b :: l.drop n

def insortBinding (t : Bindings) (side : Side) (binding : Binding) : Bindings :=
  let l := t.list side
  match insortScan side binding 0 none l with
  | .replace i =>
    let t' := t.setList side (insertAt (i + 1) binding l)
    match l[i]? with
    | some iterator => removeBindingFromAllLists t' iterator
    | none => t'
  | .after i => t.setList side (insertAt (i + 1) binding l)
  | .first => t.setList side (binding :: l)

def insortBinding2 (t : Bindings) (binding : Binding) : Bindings :=
  let binding :=
    { binding with
      needSubstitution := comparePaths binding.host binding.guest ≠ .pathsAreEqual }
  insortBinding (insortBinding t .guest binding) .host binding

def insortBinding3 (t : Bindings) (hostPath guestPath : CString) : Bindings :=
  insortBinding2 { t with nextNode := t.nextNode + 1 } ⟨t.nextNode, hostPath, guestPath, false⟩

end Improot.Path
