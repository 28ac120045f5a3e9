import Improot.Lib.Records
import Improot.Path.Binding

/-!
# Hidden files

The extension `hidden_files`: at the exit of getdents(2) and getdents64(2), the records of the files
whose name starts with a prefix are taken out of the buffer of the tracee; a buffer of which nothing
is left makes PRoot chain another call.
-/

namespace Improot.Extension

open Improot.Lib Improot.Path

/-- `HIDDEN_PREFIX`, ".proot". -/
def hiddenPrefix : Bytes := [46, 112, 114, 111, 111, 116]

/-! ## Records -/

structure DirentLayout where
  reclen : Nat
  name : Nat
  reclen_le : reclen + 2 ≤ name
  deriving DecidableEq

def linuxDirent (w : Nat) : DirentLayout := ⟨w + w, w + w + 2, Nat.le_refl _⟩

def linuxDirent64 : DirentLayout := ⟨16, 19, by decide⟩

/-- A record as the kernel writes it: it has the length that it says, and its name ends in it. -/
structure Dirent (l : DirentLayout) where
  bytes : Bytes
  reclen : readLe 2 l.reclen bytes = bytes.length
  named : 0 ∈ bytes.drop l.name

def Dirent.name {l : DirentLayout} (d : Dirent l) : Bytes := (d.bytes.drop l.name).takeWhile (· ≠ 0)

def Dirent.hidden {l : DirentLayout} (d : Dirent l) : Bool := hiddenPrefix.isPrefixOf d.name

/-! ## The filter -/

inductive GetdentsFault where
  | stackOverflow
  | overrun
  | endless
  deriving DecidableEq, Repr

/-- `hasprefix`; none when it would read behind the bytes. -/
def hasprefix : (pre str : Bytes) → Option Bool
  | [], _ => some true
  | _ :: _, [] => none
  | p :: pre, c :: str => if c ≠ 0 ∧ p = c then hasprefix pre str else some false

/-- The loops of `handle_getdents`: `orig` is what is left of the records, `copy` what was copied to
an array of `count` bytes. -/
def filterDirents (l : DirentLayout) (count : Nat) (orig copy : Bytes) :
    Except GetdentsFault Bytes :=
  if orig = [] then .ok copy
  else
    match hasprefix hiddenPrefix (orig.drop l.name) with
    | none => .error .overrun
    | some hidden =>
      if orig.length < l.reclen + 2 then .error .overrun
      else
        let reclen := readLe 2 l.reclen orig
        if reclen = 0 then .error .endless
        else if hidden then filterDirents l count (orig.drop reclen) copy
        else if orig.length < reclen ∨ count < copy.length + reclen then .error .overrun
        else filterDirents l count (orig.drop reclen) (copy ++ orig.take reclen)
  termination_by orig.length
  decreasing_by
    all_goals
      rw [List.length_drop]
      have := List.length_pos_iff.mpr (show orig ≠ [] by assumption)
      omega

/-- PRoot and the tracee: the sizes of their words, the binding lists of the tracee, and how much
room there is on PRoot's stack. -/
structure HidingTracer where
  tracerWord : Nat
  traceeWord : Nat
  bindings : Bindings
  stackRoom : Nat

/-- A call of the tracee: which of the two, and the size of its buffer, an `unsigned int`. -/
structure Getdents where
  is64 : Bool
  count : Nat
  deriving DecidableEq, Repr

/-- The layout of the records of a call, for words of `w` bytes. -/
def Getdents.layout (call : Getdents) (w : Nat) : DirentLayout :=
  if call.is64 then linuxDirent64 else linuxDirent w

/-- What `handle_getdents` does. -/
inductive GetdentsOutcome where
  | kept
  | rewritten (copy : Bytes)
  /-- `register_chained_syscall` with the same arguments -/
  | chained
  | fault (f : GetdentsFault)
  deriving DecidableEq, Repr

/-- `handle_getdents`, for what the kernel returns and puts into the buffer; `dir?` is what the link
of the descriptor in /proc holds. -/
def handleGetdents (t : HidingTracer) (dir? : Option CString) (call : Getdents) (result : Nat)
    (buffer : Bytes) : GetdentsOutcome :=
  -- `unsigned int res`
  let res := result % 2 ^ 32
  if res = 0 then .kept
  else if t.stackRoom < call.count then .fault .stackOverflow
  else
    match dir? with
    | none => .kept
    | some path =>
      if belongsToGuestfs t.bindings path then
        -- `read_data` of `res` bytes into an array of `count` bytes
        if call.count < res then .fault .overrun
        else if t.stackRoom < call.count + call.count then .fault .stackOverflow
        else
          match filterDirents (call.layout t.tracerWord) call.count (buffer.take res) [] with
          | .error f => .fault f
          | .ok copy => if copy = [] then .chained else .rewritten copy
      else .kept

/-! ## Calls -/

/-- What the kernel answers: an error, or records (none at the end). -/
inductive GetdentsReply (l : DirentLayout) where
  | failed (errno : Nat)
  | listed (records : List (Dirent l))

def direntBytes {l : DirentLayout} (records : List (Dirent l)) : Bytes := records.flatMap Dirent.bytes

def GetdentsReply.result {l : DirentLayout} : GetdentsReply l → Nat
  | .failed errno => 2 ^ 64 - errno
  | .listed records => (direntBytes records).length

def GetdentsReply.buffer {l : DirentLayout} : GetdentsReply l → Bytes
  | .failed _ => []
  | .listed records => direntBytes records

def GetdentsReply.records {l : DirentLayout} : GetdentsReply l → List (Dirent l)
  | .failed _ => []
  | .listed records => records

/-- What the tracee gets: the register of the result, and the records in its buffer. -/
structure GetdentsAnswer where
  result : Nat
  bytes : Bytes
  deriving DecidableEq, Repr

/-- The answer of a call, from those of the kernel to it and to the calls that are chained; none as
long as the last one isn't there, and for answers that PRoot doesn't wait for. -/
def answerGetdents (t : HidingTracer) (dir? : Option CString) (call : Getdents) :
    List (GetdentsReply (call.layout t.traceeWord)) → Option (Except GetdentsFault GetdentsAnswer)
  | [] => none
  | reply :: replies =>
    match handleGetdents t dir? call reply.result reply.buffer, replies with
    | .kept, [] => some (.ok ⟨reply.result, reply.buffer⟩)
    | .rewritten copy, [] => some (.ok ⟨copy.length, copy⟩)
    | .fault f, [] => some (.error f)
    | .chained, replies => answerGetdents t dir? call replies
    | _, _ :: _ => none

end Improot.Extension
