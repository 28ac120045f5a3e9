import Improot.Extension.Credentials
import Improot.Lib.Memory
import Improot.Path.Basic

/-!
# Supplementary groups

setgroups(2) and getgroups(2) of `fake_id0`: the list is kept in the configuration of the tracee and
copied element by element from and to its memory.
-/

namespace Improot.Extension

open Lib

/-- The size of the array `groups`. -/
def maxGroups : Nat := 64

/-- `Config`, as far as the groups go. -/
structure GroupsConfig where
  egid : Id
  capsActive : Bool
  ngroups : Nat
  groups : List Id
  length_groups : groups.length = maxGroups
  ngroups_le : ngroups ≤ maxGroups

namespace GroupsConfig

def recorded (config : GroupsConfig) : List Id := config.groups.take config.ngroups

/-- The configuration of the first tracee: `talloc_zero`, and root's group for root's. -/
def initial (uid gid : Id) : GroupsConfig where
  egid := gid
  capsActive := uid = 0
  ngroups := if gid = 0 then 1 else 0
  groups := List.replicate maxGroups 0
  length_groups := List.length_replicate
  ngroups_le := by split <;> decide

end GroupsConfig

/-! ## Elements -/

/-- What tells the size of an element: the number of the call, and the ABI of the tracee. -/
structure GroupsAbi where
  number32 : Bool
  abi2 : Bool
  is32on64 : Bool
  sizeofWord : Nat
  deriving DecidableEq, Repr

def GroupsAbi.is16bit (abi : GroupsAbi) : Bool :=
  ¬ abi.number32 ∧ (abi.abi2 ∨ (¬ abi.is32on64 ∧ abi.sizeofWord = 4))

/-- The size of an element: `sizeof(uint16_t)` or `sizeof(uint32_t)`. -/
def GroupsAbi.size (abi : GroupsAbi) : Nat := if abi.is16bit then 2 else 4

/-- The group that an element stands for: `(uint16_t) -1` is `(gid_t) -1`. -/
def GroupsAbi.decode (abi : GroupsAbi) (bs : Bytes) : Id :=
  if abi.is16bit then
    let g16 := BitVec.ofNat 16 (ofLe bs)
    if g16 = -1 then -1 else g16.setWidth 32
  else BitVec.ofNat 32 (ofLe bs)

def GroupsAbi.encode (abi : GroupsAbi) (g : Id) : Bytes := le abi.size g.toNat

/-! ## The loops -/

variable (abi : GroupsAbi)

/-- The loop of setgroups over the elements from `i` on, `n` of them. An element that can't be read
is what happens to be in the variable of `peek_uint16` or `peek_uint32`: nobody tests `errno`. -/
def readGroups (m : Memory) (listAddr : Nat) (stale : Nat → Id) :
    (n i : Nat) → List Id → List Id
  | 0, _, groups => groups
  | n + 1, i, groups =>
    let g :=
      match m.load (listAddr + i * abi.size) abi.size with
      | some bs => abi.decode bs
      | none => stale i
    readGroups m listAddr stale n (i + 1) (groups.set i g)

/-- The loop of getgroups over the groups that are left, the first of which goes to `address`; and was
every element written? -/
def writeGroups (m : Memory) (address : Nat) : List Id → Memory × Bool
  | [] => (m, true)
  | g :: gs =>
    match m.store address (abi.encode g) with
    | (m, false) => (m, false)
    | (m, true) => writeGroups m (address + abi.size) gs

def guestGroups (m : Memory) : (address n : Nat) → Option (List Id)
  | _, 0 => some []
  | address, n + 1 =>
    (m.load address abi.size).bind fun bs =>
      (guestGroups m (address + abi.size) n).map (abi.decode bs :: ·)

/-! ## The calls -/

/-- What happens to a tracee: it makes one of the calls, with its memory as it is then, or its
credentials are changed. -/
inductive GroupsCall where
  | setgroups (abi : GroupsAbi) (size : Int) (listAddr : Nat) (m : Memory) (stale : Nat → Id)
  | getgroups (abi : GroupsAbi) (size : Int) (listAddr : Nat) (m : Memory)
  | credentials (egid : Id) (capsActive : Bool)

/-- What is seen of a call: its result, the list that the tracee finds in its memory if it got one,
and the list that is recorded afterwards. -/
structure GroupsSeen where
  result : Except Errno Nat
  shown : Option (List Id)
  recorded : List Id
  deriving DecidableEq

theorem length_readGroups (m : Memory) (listAddr : Nat) (stale : Nat → Id) (n i : Nat)
    (groups : List Id) : (readGroups abi m listAddr stale n i groups).length = groups.length := by
  induction n generalizing i groups with
  | zero => rfl
  | succ n ih => rw [readGroups, ih, List.length_set]

namespace GroupsConfig

variable (config : GroupsConfig)

/-- The configuration once setgroups has recorded `size` groups. -/
def record (size : Nat) (hsize : size ≤ maxGroups) (listAddr : Nat) (m : Memory)
    (stale : Nat → Id) : GroupsConfig :=
  { config with
    ngroups := size
    groups := readGroups abi m listAddr stale size 0 config.groups
    length_groups := (length_readGroups abi m listAddr stale size 0 _).trans config.length_groups
    ngroups_le := hsize }

/-- `case PR_setgroups` of `handle_sysenter_end`. -/
def setgroups (size : Int) (listAddr : Nat) (m : Memory) (stale : Nat → Id) :
    GroupsConfig × Except Errno Nat :=
  if config.egid ≠ 0 ∧ ¬ config.capsActive then (config, .error .eperm)
  else if hsize : size < 0 ∨ size > 64 then (config, .error .einval)
  else (config.record abi size.toNat (by unfold maxGroups; omega) listAddr m stale, .ok 0)

/-- The special case of getgroups: root without groups gets its own. -/
def withRootGroup : GroupsConfig :=
  if config.ngroups = 0 ∧ config.egid = 0 then
    { config with
      ngroups := 1
      groups := config.groups.set 0 0
      length_groups := by rw [List.length_set]; exact config.length_groups
      ngroups_le := by decide }
  else config

/-- `case PR_getgroups` of `handle_sysenter_end`, with the memory of the tracee. -/
def getgroups (size : Int) (listAddr : Nat) (m : Memory) :
    GroupsConfig × Memory × Except Errno Nat :=
  let config := config.withRootGroup
  let count := config.ngroups
  if size = 0 then (config, m, .ok count)
  else if size < count then (config, m, .error .einval)
  else
    match writeGroups abi m listAddr config.recorded with
    | (m, false) => (config, m, .error .efault)
    | (m, true) => (config, m, .ok count)

end GroupsConfig

/-- A tracee under `fake_id0`. -/
def fakeGroups : Machine GroupsConfig GroupsCall GroupsSeen where
  step config
    | .setgroups abi size listAddr m stale =>
      let (config, result) := config.setgroups abi size listAddr m stale
      (config, ⟨result, none, config.recorded⟩)
    | .getgroups abi size listAddr m =>
      let (config, m, result) := config.getgroups abi size listAddr m
      let shown :=
        match result with
        | .ok count => if size = 0 then none else guestGroups abi m listAddr count
        | .error _ => none
      (config, ⟨result, shown, config.recorded⟩)
    | .credentials egid capsActive =>
      let config :=
        { config with
          egid := egid
          capsActive := capsActive }
      (config, ⟨.ok 0, none, config.recorded⟩)

/-! ## The kernel's list -/

/-- A list of groups as the calls are to treat it, with what decides about privilege. -/
structure GroupList where
  egid : Id
  capsActive : Bool
  groups : List Id

namespace GroupList

variable (list : GroupList)

def setgroups (size : Int) (listAddr : Nat) (m : Memory) : GroupList × Except Errno Nat :=
  if list.egid ≠ 0 ∧ ¬ list.capsActive then (list, .error .eperm)
  else if size < 0 ∨ size > 64 then (list, .error .einval)
  else
    match guestGroups abi m listAddr size.toNat with
    | none => (list, .error .efault)
    | some groups => ({ list with groups := groups }, .ok 0)

/-- getgroups(2): the list, where there is room for it in memory that can be written. -/
def getgroups (size : Int) (listAddr : Nat) (m : Memory) : Except Errno Nat × Option (List Id) :=
  if size = 0 then (.ok list.groups.length, none)
  else if size < list.groups.length then (.error .einval, none)
  else if (writeGroups abi m listAddr list.groups).2 then
    (.ok list.groups.length, some list.groups)
  else (.error .efault, none)

end GroupList

def groupList : Machine GroupList GroupsCall GroupsSeen where
  step list
    | .setgroups abi size listAddr m _ =>
      let (list, result) := list.setgroups abi size listAddr m
      (list, ⟨result, none, list.groups⟩)
    | .getgroups abi size listAddr m =>
      let (result, shown) := list.getgroups abi size listAddr m
      (list, ⟨result, shown, list.groups⟩)
    | .credentials egid capsActive =>
      let list :=
        { list with
          egid := egid
          capsActive := capsActive }
      (list, ⟨.ok 0, none, list.groups⟩)

end Improot.Extension
