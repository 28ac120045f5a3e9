import Improot.Path.Proc

/-!
# readlink

The exit of readlink(2) and readlinkat(2) in `syscall/exit.c`: the kernel has copied a host path to
the tracee, cut to the size of its buffer; the handler puts the guest path in its place.
-/

namespace Improot.Syscall

open Improot.Path

/-! ## The memory of the tracee -/

abbrev Memory := Nat → Char

def readData (m : Memory) (address size : Nat) : CString :=
  (List.range size).map fun i => m (address + i)

def writeData (m : Memory) (address : Nat) (data : CString) : Memory := fun a =>
  if a < address then m a else (data[a - address]?).getD (m a)

@[simp] theorem length_readData (m : Memory) (address size : Nat) :
    (readData m address size).length = size := by
  simp [readData]

theorem writeData_inside {m : Memory} {address i : Nat} {data : CString} (h : i < data.length) :
    writeData m address data (address + i) = data[i] := by
  rw [writeData, if_neg (by omega), Nat.add_sub_cancel_left, List.getElem?_eq_getElem h]
  rfl

theorem writeData_outside {m : Memory} {address a : Nat} {data : CString}
    (h : a < address ∨ address + data.length ≤ a) : writeData m address data a = m a := by
  unfold writeData
  split
  · rfl
  · rw [List.getElem?_eq_none (by omega)]
    rfl

theorem readData_writeData {m : Memory} {address : Nat} {data : CString} {n : Nat}
    (h : n ≤ data.length) : readData (writeData m address data) address n = data.take n := by
  apply List.ext_getElem
  · rw [length_readData, List.length_take, Nat.min_eq_left h]
  · intro i hi hi'
    rw [length_readData] at hi
    simp only [readData, List.getElem_map, List.getElem_range, List.getElem_take]
    exact writeData_inside (by omega)

/-! ## The handler -/

inductive ReadlinkNumber where
  | readlink | readlinkat
  deriving DecidableEq, Repr

structure ReadlinkCall where
  number : ReadlinkNumber
  result : Except Errno Nat
  output : Nat
  maxSize : Nat
  input : CString
  dirfd : Nat
  deriving Repr

/-- `(int) word` -/
def toInt (word : Nat) : Int := (BitVec.ofNat 32 word).toInt

/-- `sscanf(referer, "/proc/%d/fd/%d%c", …) == 2`, for a descriptor that isn't negative. -/
def procFd? (referer : CString) : Option (Int × Int) :=
  if referer.take 6 = procDir ++ ['/'] then
    match scanInt (referer.drop 6) with
    | none => none
    | some (pid, rest) =>
      if rest.take 4 = ['/', 'f', 'd', '/'] then
        match scanInt (rest.drop 4) with
        | some (fd, []) => if 0 ≤ fd then some (pid, fd) else none
        | _ => none
      else none
  else none

def ReadlinkCall.referer (w : World) (call : ReadlinkCall) :
    Except Errno (CString × Option (Int × Int)) :=
  -- the number of bytes, with the terminator
  let status := call.input.length + 1
  if status ≥ pathMax then .error .enametoolong
  else if status = 1 then
    -- the link is the file of the descriptor
    if call.number = .readlink then .error .ebadf
    else
      match w.host.fdPath (toInt call.dirfd) with
      | .error e => .error e
      | .ok referer =>
        let fd := toInt call.dirfd
        .ok (referer, if 0 ≤ fd then some (w.tracee.pid, fd) else none)
  else .ok (call.input, procFd? call.input)

/-- The content of the link is read again when the kernel may have cut it. -/
def fullReferee (w : World) (referer referee : CString) : CString :=
  match w.host.readlink referer with
  | .error _ => referee
  | .ok full => if full = [] then referee else full.take (pathMax - 1)

/-- What `READLINK_PROC_FD` makes of the content of a link of "/proc/<PID>/fd", and whether it was
substituted. -/
abbrev ReadlinkProcFd := (pid fd : Int) → CString → Except Errno (CString × Bool)

/-- The content of the link after `READLINK_PROC_FD`, and whether it was substituted. -/
def notifiedReferee (extensions : ReadlinkProcFd) (procFd : Option (Int × Int))
    (referee : CString) : Except Failure (CString × Bool) :=
  match procFd with
  | none => .ok (referee, false)
  | some (pid, fd) => (extensions pid fd referee).mapError .errno

/-- The guest's content of the link, with its size, the terminator included; nothing when the
kernel's answer stays. -/
def guestReferee (w : World) (extensions : ReadlinkProcFd) (referer : CString)
    (procFd : Option (Int × Int)) (referee : CString) :
    Except Failure (Option (Nat × CString)) := do
  let (referee, substituted) ← notifiedReferee extensions procFd referee
  let (status, referee) ← detranslatePath w referee (some referer)
  if status = 0 then
    -- it doesn't require any transformation, unless it was substituted just above
    if ¬ substituted then pure none else pure (some (referee.length + 1, referee))
  else pure (some (status, referee))

def overwritePath (m : Memory) (output maxSize status : Nat) (referee : CString) : Nat × Memory :=
  if status < maxSize then (status - 1, writeData m output ((referee ++ ['\x00']).take status))
  else (maxSize, writeData m output ((referee ++ ['\x00']).take maxSize))

/-- The exit of `PR_readlink` and `PR_readlinkat`: the result of the system call, and the memory
of the tracee. -/
def readlinkExit (w : World) (extensions : ReadlinkProcFd) (call : ReadlinkCall) (m : Memory) :
    Except Failure Nat × Memory :=
  match call.result with
  -- error reported by the kernel
  | .error e => (.error (.errno e), m)
  | .ok oldSize =>
    let maxSize := min call.maxSize pathMax
    if maxSize = 0 then (.error (.errno .einval), m)
    else
      let referee := readData m call.output oldSize
      match call.referer w with
      | .error e => (.error (.errno e), m)
      | .ok (referer, procFd) =>
        -- the kernel filled the whole buffer
        let referee := if oldSize = maxSize then fullReferee w referer referee else referee
        match guestReferee w extensions referer procFd referee with
        | .error e => (.error e, m)
        | .ok none => (.ok oldSize, m)
        | .ok (some (status, referee)) =>
          let (size, m) := overwritePath m call.output maxSize status referee
          (.ok size, m)

end Improot.Syscall
