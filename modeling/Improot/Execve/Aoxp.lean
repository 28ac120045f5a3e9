import Mathlib.Data.List.TakeWhile
import Improot.Path.Tracee
import Improot.Tracee.Mem

/-!
# Arrays of pointers

`execve/aoxp.c`: argv and envp are copied from the memory of a tracee as arrays of pointers, whose
strings are copied on demand; they are edited by PRoot, and pushed to a block of the tracee's
memory.
-/

namespace Improot.Execve

open Improot.Lib Improot.Tracee
open Improot.Path (Failure)

/-! ## Strings -/

@[ext]
structure Str where
  bytes : Bytes
  ended : 0 ∉ bytes

instance : DecidableEq Str := fun s t =>
  decidable_of_iff (s.bytes = t.bytes) Str.ext_iff.symm

def Str.upTo (bytes : Bytes) : Str where
  bytes := bytes.takeWhile (· ≠ 0)
  ended := by
    intro hmem
    simpa using List.mem_takeWhile_imp hmem

def Str.stored (s : Str) : Bytes := s.bytes ++ [0]

def argMax : Nat := 131072

/-- How PRoot reads strings: the size of its own words, the size of a page, and process_vm_readv(2).
-/
structure Reader where
  word : Nat
  pageSize : Nat
  readv : ProcessVmReadv

def Reader.localString (r : Reader) (m : Memory) (address : Nat) : Except Errno Str :=
  match readString r.word r.readv r.pageSize m (List.replicate argMax 0) address argMax with
  | (_, .error e) => .error e
  | (tmp, .ok status) => if status ≥ argMax then .error .enomem else .ok (.upTo tmp)

/-! ## The array -/

/-- `struct mixed_pointer`: `cached` is the string in PRoot's address space. -/
structure XPointer where
  remote : Nat
  cached : Option Str
  deriving DecidableEq

/-- The entry that `bzero` leaves. -/
def XPointer.null : XPointer := ⟨0, none⟩

/-- `read_xpointee_as_string`: the string, none for a NULL entry, and the array that holds its copy.
-/
def readXpointeeAsString (r : Reader) (m : Memory) (array : List XPointer) (index : Nat) :
    Except Failure (Option Str × List XPointer) :=
  match array[index]? with
  | none => .error .abort
  | some x =>
    match x.cached with
    -- already cached locally
    | some s => .ok (some s, array)
    | none =>
      if x.remote = 0 then .ok (none, array)
      else
        match r.localString m x.remote with
        | .error e => .error (.errno e)
        | .ok s => .ok (some s, array.set index { x with cached := some s })

def writeXpointeeAsString (array : List XPointer) (index : Nat) (s : Str) :
    Except Failure (List XPointer) :=
  match array[index]? with
  | none => .error .abort
  | some x => .ok (array.set index { x with cached := some s })

def writeXpointees (array : List XPointer) (index : Nat) : List Str →
    Except Failure (List XPointer)
  | [] => .ok array
  | s :: ss =>
    match writeXpointeeAsString array index s with
    | .error e => .error e
    | .ok array => writeXpointees array (index + 1) ss

/-- `resize_array_of_xpointers`: entries are inserted before the index, or those before it removed.
-/
def resizeArrayOfXpointers (array : List XPointer) (index : Nat) (deltaNbEntries : Int) :
    Except Failure (List XPointer) :=
  if array.length ≤ index then .error .abort
  else if deltaNbEntries = 0 then .ok array
  else if 0 < deltaNbEntries then
    .ok (array.take index ++ List.replicate deltaNbEntries.toNat .null ++ array.drop index)
  else if index < (-deltaNbEntries).toNat then .error .abort
  else .ok (array.take (index - (-deltaNbEntries).toNat) ++ array.drop index)

/-! ## From and to the memory of the tracee -/

/-- The loop of `fetch_array_of_xpointers` up to the NULL pointer, for words of `w` bytes; none when
the fuel isn't enough. -/
def fetchUpToNull (m : Memory) (w : Nat) : (fuel address : Nat) →
    Option (Except Failure (List XPointer))
  | 0, _ => none
  | fuel + 1, address =>
    match m.load address w with
    | none => some (.error (.errno .efault))
    | some bytes =>
      let pointer := ofLe bytes
      if pointer = 0 then some (.ok [⟨pointer, none⟩])
      else
        match fetchUpToNull m w fuel (address + w) with
        | none => none
        | some (.error e) => some (.error e)
        | some (.ok array) => some (.ok (⟨pointer, none⟩ :: array))

def modifiedPointees (array : List XPointer) : Bytes :=
  array.flatMap fun x => (x.cached.map Str.stored).getD []

/-- The pointers of the table, in a block at `traceePtr`: the modified pointees come from `offset`
on. -/
def podArray (traceePtr : Nat) : (offset : Nat) → List XPointer → List Nat
  | _, [] => []
  | offset, x :: array =>
    match x.cached with
    | none => x.remote :: podArray traceePtr offset array
    | some s => (offset + traceePtr) :: podArray traceePtr (offset + s.stored.length) array

/-- A table of pointers, as words of `w` bytes. -/
def tableBytes (w : Nat) (pointers : List Nat) : Bytes := pointers.flatMap (le w)

def pushedSize (w : Nat) (array : List XPointer) : Nat :=
  array.length * w + (modifiedPointees array).length

/-- `push_array_of_xpointers`, where `alloc` is `alloc_mem`: the memory, and the new value of the
register that holds the address of the array. -/
def pushArrayOfXpointers (m : Memory) (w : Nat) (alloc : Nat → Option Nat) (reg : Nat)
    (array : List XPointer) : Memory × Except Failure Nat :=
  let localCount := array.countP (·.cached.isSome) + 1
  -- nothing has changed
  if localCount = 1 then (m, .ok reg)
  else if array.length + 1 ≤ localCount then (m, .error .abort)
  else
    match alloc (pushedSize w array) with
    | none => (m, .error (.errno .e2big))
    | some traceePtr =>
      let table := tableBytes w (podArray traceePtr (array.length * w) array)
      match m.store traceePtr (table ++ modifiedPointees array) with
      | (m, false) => (m, .error (.errno .efault))
      | (m, true) => (m, .ok traceePtr)

end Improot.Execve
