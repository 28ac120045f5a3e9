import Improot.Extension.LinkSymlink
import Improot.Lib.Transition

/-!
# Descriptors of faked hard links

The kernel only knows the final name of a faked hard link, so this is what it reports for a
descriptor in /proc.  `link2symlink` remembers the names that descriptors were opened through: there
is no bookkeeping for close(2), dup(2) or fork(2), a name is checked when it is used.
-/

namespace Improot.Extension

/-! ## Names -/

/-- `is_l2s_file`: is it the final name of a file, with its four digits? -/
def isL2sFile (l : Linker) (hostPath : CString) : Bool :=
  let name := Linker.baseName hostPath
  '/' ∈ hostPath ∧ l.isHidden hostPath = true ∧ l.hiddenTag.length + 5 ≤ name.length ∧
    name[name.length - 5]? = some '.' ∧ (name.drop (name.length - 4)).all (·.isDigit) = true

def resolveFakedHardLink (l : Linker) (d : LinkDisk) (link : CString) : Option CString :=
  match d.readlink link with
  | none => none
  | some intermediate =>
    if '/' ∈ intermediate ∧ l.isHidden intermediate = true then d.readlink intermediate else none

def fdCacheSize : Nat := 64

/-! ## The cache -/

structure FdEntry where
  pid : Nat
  fd : Nat
  link : CString
  deriving DecidableEq, Repr

def FdEntry.isOf (pid fd : Nat) : Option FdEntry → Bool
  | some e => e.pid = pid ∧ e.fd = fd
  | none => false

def EntriesUnique (slots : List (Option FdEntry)) : Prop :=
  ∀ (pid fd i j : Nat) (e e' : Option FdEntry), slots[i]? = some e → slots[j]? = some e' →
    FdEntry.isOf pid fd e = true → FdEntry.isOf pid fd e' = true → i = j

/-- `fd_cache` and `fd_cache_index`. -/
structure FdCache where
  slots : List (Option FdEntry)
  index : Nat
  sized : slots.length = fdCacheSize
  inside : index < fdCacheSize
  unique : EntriesUnique slots

namespace FdCache

def empty : FdCache where
  slots := List.replicate fdCacheSize none
  index := 0
  sized := List.length_replicate
  inside := by decide
  unique := by
    intro pid fd i j e e' he _ hof _
    rw [List.eq_of_mem_replicate (List.mem_of_getElem? he)] at hof
    cases hof

theorem unique_set {slots : List (Option FdEntry)} {entry : FdEntry} {slot : Nat}
    (hunique : EntriesUnique slots)
    (hslot : ∀ (i : Nat) (e : Option FdEntry), slots[i]? = some e →
      FdEntry.isOf entry.pid entry.fd e = true → i = slot) :
    EntriesUnique (slots.set slot (some entry)) := by
  intro pid fd i j e e' he he' hof hof'
  have hentry (h : FdEntry.isOf pid fd (some entry) = true) : entry.pid = pid ∧ entry.fd = fd :=
    of_decide_eq_true h
  rw [List.getElem?_set] at he he'
  by_cases hi : slot = i
  · subst hi
    by_cases hj : slot = j
    · exact hj
    · rw [if_neg hj] at he'
      rw [if_pos rfl] at he
      split at he
      · cases he
        obtain ⟨rfl, rfl⟩ := hentry hof
        exact absurd (hslot j e' he' hof').symm hj
      · cases he
  · rw [if_neg hi] at he
    by_cases hj : slot = j
    · subst hj
      rw [if_pos rfl] at he'
      split at he'
      · cases he'
        obtain ⟨rfl, rfl⟩ := hentry hof'
        exact absurd (hslot i e he hof).symm hi
      · cases he'
    · rw [if_neg hj] at he'
      exact hunique pid fd i j e e' he he' hof hof'

/-- `remember_fd`: the entry of this very descriptor is reused, or else the oldest one. -/
def rememberFd (c : FdCache) (pid fd : Nat) (link : CString) : FdCache :=
  match hfound : c.slots.findIdx? (FdEntry.isOf pid fd) with
  | some slot =>
    { c with
      slots := c.slots.set slot (some ⟨pid, fd, link⟩)
      sized := by rw [List.length_set, c.sized]
      unique := by
        apply unique_set c.unique
        intro i e he hof
        obtain ⟨hlt, hslot, -⟩ := List.findIdx?_eq_some_iff_getElem.mp hfound
        exact c.unique pid fd i slot e c.slots[slot] he (List.getElem?_eq_getElem hlt) hof hslot }
  | none =>
    { slots := c.slots.set c.index (some ⟨pid, fd, link⟩)
      index := (c.index + 1) % fdCacheSize
      sized := by rw [List.length_set, c.sized]
      inside := Nat.mod_lt _ (by decide)
      unique := by
        apply unique_set c.unique
        intro i e he hof
        have hnone := List.findIdx?_eq_none_iff.mp hfound e (List.mem_of_getElem? he)
        rw [hof] at hnone
        cases hnone }

def recallFrom (pid fd : Nat) : (fallback : Option CString) → List (Option FdEntry) →
    Option CString
  | fallback, [] => fallback
  | fallback, none :: slots => recallFrom pid fd fallback slots
  | fallback, some e :: slots =>
    if e.fd ≠ fd then recallFrom pid fd fallback slots
    else if e.pid = pid then some e.link
    -- threads share their descriptors but not their pid
    else recallFrom pid fd (some e.link) slots

def recallFd (c : FdCache) (pid fd : Nat) : Option CString := recallFrom pid fd none c.slots

end FdCache

/-! ## The events of the extension -/

/-- `readlink_proc_fd`: the name that takes the place of the one that the kernel reported. -/
def readlinkProcFd (l : Linker) (d : LinkDisk) (c : FdCache) (pid fd : Nat)
    (hostPath : CString) : Option CString :=
  if ¬ isL2sFile l hostPath then none
  else
    match c.recallFd pid fd with
    | none => none
    | some link =>
      match resolveFakedHardLink l d link with
      | none => none
      | some final => if final = hostPath then some link else none

/-- `remember_opened_link`: the name to remember once the file is open.  `finalComponent` is the
last component as it was named before it was dereferenced, empty when there is none. -/
def rememberOpenedLink (l : Linker) (d : LinkDisk) (finalComponent hostPath : CString) :
    Option CString :=
  if ¬ isL2sFile l hostPath then none
  else if finalComponent = [] then none
  else
    match resolveFakedHardLink l d finalComponent with
    | none => none
    | some final => if final = hostPath then some finalComponent else none

/-- `translated_path`, for a call that opens a file: the path, and the name to remember. -/
def translatedPath (l : Linker) (d : LinkDisk) (skipped : Bool)
    (finalComponent hostPath : CString) : CString × Option CString :=
  -- `should_skip_file_access_due_to_f2fs_bug`
  if skipped then (hostPath, none)
  else
    ((resolveFakedHardLink l d hostPath).getD hostPath,
      rememberOpenedLink l d finalComponent hostPath)

/-! ## Runs -/

structure FdState where
  disk : LinkDisk
  descriptors : Nat × Nat → Option (Lib.Inode LinkKind)
  cache : FdCache

inductive FdEvent where
  /-- a file is opened, and gets a descriptor -/
  | openFile (pid fd : Nat) (skipped : Bool) (finalComponent hostPath : CString)
  | close (pid fd : Nat)
  /-- dup(2), dup2(2), fork(2) and messages give a descriptor of the same file -/
  | duplicate (pid fd pid' fd' : Nat)
  /-- link(2) is faked -/
  | link (fails : LinkCall → Option Errno) (original target : CString)
  /-- unlink(2) and rename(2): a count is decremented, then the kernel makes the call -/
  | unlink (fails : DecrementCall → Option Errno) (path : CString)
  | rename (fails : DecrementCall → Option Errno) (old new : CString)
  /-- the names are created, removed or moved by someone else -/
  | create (path : CString) (kind : LinkKind)
  | remove (path : CString)
  | move (old new : CString)

def afterCount (counted : LinkOutcome × LinkDisk) (call : LinkDisk → Option LinkDisk) : LinkDisk :=
  match counted with
  | (.done, d) => (call d).getD d
  | (_, d) => d

def FdState.step (l : Linker) (s : FdState) : FdEvent → Option FdState
  | .openFile pid fd skipped finalComponent hostPath =>
    let (path, pendingLink) := translatedPath l s.disk skipped finalComponent hostPath
    match s.disk.file path, s.descriptors (pid, fd) with
    | some file, none =>
      some { s with
        descriptors := Function.update s.descriptors (pid, fd) (some file)
        cache := match pendingLink with
          | some link => s.cache.rememberFd pid fd link
          | none => s.cache }
    | _, _ => none
  | .close pid fd => some { s with descriptors := Function.update s.descriptors (pid, fd) none }
  | .duplicate pid fd pid' fd' =>
    match s.descriptors (pid, fd) with
    | some file =>
      some { s with descriptors := Function.update s.descriptors (pid', fd') (some file) }
    | none => none
  | .link fails original target =>
    some { s with disk := (moveAndSymlinkPath l fails s.disk original target).2 }
  | .unlink fails path =>
    some { s with
      disk := afterCount (decrementLinkCount l fails s.disk path) fun d => d.unlink none path }
  | .rename fails old new =>
    some { s with
      disk := afterCount (decrementLinkCount l fails s.disk new) fun d => d.rename none old new }
  | .create path kind => some { s with disk := s.disk.create path kind }
  | .remove path => some { s with disk := s.disk.remove path }
  | .move old new => some { s with disk := s.disk.move old new }

def fdSystem (l : Linker) : Lib.System FdState FdEvent where
  init s := s.descriptors = (fun _ => none) ∧ s.cache = .empty
  step := FdState.step l

end Improot.Extension
