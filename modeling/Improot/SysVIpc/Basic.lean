import Mathlib.Data.List.Basic
import Improot.Path.Basic

/-!
# System V IPC: the data

The structures of `extension/sysvipc/sysvipc_internal.h`, for the one IPC name-space of a session.
An object that the code allocates is known by its address, a number that is never used again: an
array slot that is used for a second queue holds the address of the second one.  Addresses, and the
fields said to be recorded, are for the statements only: no decision depends on them.
-/

namespace Improot.SysVIpc

/-- `word_t`. -/
abbrev Word := BitVec 64

/-- `word_t` or `long` read as an `int`. -/
def int (w : Word) : BitVec 32 := w.setWidth 32

abbrev Status := Except Errno Int

def has {n : Nat} (flags flag : BitVec n) : Bool := flags &&& flag != 0

def ipcPrivate : Word := 0
def ipcCreat : BitVec 32 := 0o1000
def ipcExcl : BitVec 32 := 0o2000
def ipcNowait : BitVec 32 := 0o4000
def msgNoerror : BitVec 32 := 0o10000
def msgExcept : BitVec 32 := 0o20000
def msgCopy : BitVec 32 := 0o40000

/-- `IPC_RMID`, `IPC_STAT` and the flag `SYSVIPC_IPC_64` of a command. -/
def ipcRmid : BitVec 32 := 0
def ipcStat : BitVec 32 := 2
def ipc64 : BitVec 32 := 0x100

/-! ## Objects -/

inductive Kind where
  | queue | semaphore | segment
  deriving DecidableEq, Repr

structure MsgQueueItem where
  address : Nat
  mtype : Word
  mtext : List (BitVec 8)
  deriving DecidableEq, Repr

/-- The `stats` of a queue, less the times. -/
structure MsgQueueStats where
  msgQbytes : Nat
  msgQnum : Nat
  msgCbytes : Nat
  msgLspid : Nat
  msgLrpid : Nat
  deriving DecidableEq, Repr

/-- A message that was received, with the selector it was received by. -/
structure Receipt where
  pid : Nat
  msgtyp : BitVec 32
  msgflg : BitVec 32
  item : MsgQueueItem
  deriving DecidableEq, Repr

/-- `struct SysVIpcMsgQueue`; the messages that were accepted and the receipts, oldest first, are
recorded since the creation of the queue. -/
structure MsgQueue where
  key : BitVec 32
  generation : BitVec 16
  valid : Bool
  address : Nat
  items : List MsgQueueItem
  stats : MsgQueueStats
  accepted : List MsgQueueItem
  receipts : List Receipt
  deriving DecidableEq, Repr

structure Sembuf where
  semNum : BitVec 16
  semOp : BitVec 16
  semFlg : BitVec 16
  deriving DecidableEq, Repr

/-- `struct SysVIpcSemaphore`; no value exceeds `SYSVIPC_MAX_SEMVAL`. -/
structure Semaphore where
  key : BitVec 32
  generation : BitVec 16
  valid : Bool
  address : Nat
  sems : List Nat
  nsems : Nat
  deriving DecidableEq, Repr

/-- `struct SysVIpcSharedMem`: the address of a segment is the one of the memory that the helper
allocates for it.  The list `mappings` holds the mappings of the processes with the index of the
segment: it is `World.mappingsOf`. -/
structure SharedMem where
  key : BitVec 32
  generation : BitVec 16
  valid : Bool
  rmidPending : Bool
  fd : Int
  address : Nat
  shmSegsz : Word
  mode : BitVec 32
  shmCpid : Nat
  deriving DecidableEq, Repr

/-- What the three kinds of objects have in common: the slot of an array. -/
class IpcObject (α : Type) where
  key : α → BitVec 32
  generation : α → BitVec 16
  valid : α → Bool
  address : α → Nat

instance : IpcObject MsgQueue := ⟨MsgQueue.key, MsgQueue.generation, MsgQueue.valid, MsgQueue.address⟩
instance : IpcObject Semaphore :=
  ⟨Semaphore.key, Semaphore.generation, Semaphore.valid, Semaphore.address⟩
instance : IpcObject SharedMem :=
  ⟨SharedMem.key, SharedMem.generation, SharedMem.valid, SharedMem.address⟩

section Objects

variable {α : Type} [IpcObject α]

def ipcObjectId (index : Nat) (object : α) : BitVec 32 :=
  int (BitVec.ofNat 64 (index + 1) ||| ((IpcObject.generation object).signExtend 32 <<< 12).signExtend 64)

/-- `LOOKUP_IPC_OBJECT`: `none` is `EINVAL`. -/
def lookupIpcObject (objects : List α) (id : Word) : Option (Nat × α) :=
  let objectId := int id
  let objectIndex := (objectId &&& 0xFFF).toNat
  if objectIndex = 0 ∨ objectIndex > objects.length then none
  else
    match objects[objectIndex - 1]? with
    | none => none
    | some object =>
        if IpcObject.valid object = false ∨
            (IpcObject.generation object).signExtend 32 ≠ objectId.sshiftRight 12 &&& 0xFFFF then none
        else some (objectIndex - 1, object)

theorem lookupIpcObject_some {objects : List α} {id : Word} {index : Nat} {object : α}
    (h : lookupIpcObject objects id = some (index, object)) :
    objects[index]? = some object ∧ IpcObject.valid object = true ∧
      index + 1 = (int id &&& 0xFFF).toNat ∧
      (IpcObject.generation object).signExtend 32 = (int id).sshiftRight 12 &&& 0xFFFF := by
  simp only [lookupIpcObject] at h
  split at h
  · cases h
  · rename_i hindex
    split at h
    · cases h
    · rename_i hget
      split at h
      · cases h
      · rename_i hvalid
        cases h
        simp only [not_or, not_not, Bool.not_eq_false] at hvalid
        exact ⟨hget, hvalid.1, by omega, hvalid.2⟩

/-- The object that the loop of a `*get` function finds. -/
def findKey (objects : List α) (key : Word) : Option Nat :=
  objects.findIdx? fun object =>
    IpcObject.valid object && decide (key ≠ ipcPrivate) && IpcObject.key object == int key

def unusedSlot (objects : List α) : Option Nat :=
  objects.findIdx? fun object => !IpcObject.valid object

theorem unusedSlot_some {objects : List α} {index : Nat} (h : unusedSlot objects = some index) :
    ∃ object, objects[index]? = some object ∧ IpcObject.valid object = false := by
  obtain ⟨hlt, hinvalid, -⟩ := List.findIdx?_eq_some_iff_getElem.mp h
  exact ⟨objects[index], by simp [hlt], by simpa using hinvalid⟩

end Objects

/-! ## Tracees -/

inductive WaitReason where
  | notWaiting | waitQueueRecv | waitSemop | waitShmatHelperBusy
  deriving DecidableEq, Repr

inductive WaitState where
  | notWaiting | restartedIntoPpollCanceled | restartedIntoPpoll | enteredPpoll | signaledPpoll
  | enteredGetpid
  deriving DecidableEq, Repr

inductive ChainState where
  | notChained | single | shmatSocket | shmatConnect | shmatRecvmsg | shmatMmap | msgrcvRetry
  deriving DecidableEq, Repr

/-- `struct SysVIpcConfig`, less what only reaches the arguments of the injected system calls. -/
structure Config where
  process : Nat
  waitReason : WaitReason
  waitState : WaitState
  chainState : ChainState
  statusAfterWait : Status
  waitingObjectIndex : Nat
  msgrcvMsgp : Word
  msgrcvMsgsz : Word
  msgrcvMsgtyp : BitVec 32
  msgrcvMsgflg : BitVec 32
  semopSops : List Sembuf

inductive Asked where
  | nothing
  | queue (address : Nat)
  | semaphore (address : Nat)
  | segment (address : Nat)
  deriving DecidableEq, Repr

/-- A tracee: its configuration, the result register after a call that is answered here, the
object that is recorded for its current call; and for a shmat the size it maps, and what the kernel
knows of its descriptors: the connection of the socket and the memory that `shmat_mem_fd` refers
to. -/
structure Tracee where
  pid : Nat
  config : Config
  result : Status
  asked : Asked
  mapSize : Word
  connection : Option Nat
  memFd : Option Nat

structure SharedMemMap where
  addr : Word
  size : Word
  shmIndex : Nat
  deriving DecidableEq, Repr

/-- `struct SysVIpcProcess`, with the number of its address space. -/
structure Process where
  id : Nat
  pgid : Nat
  space : Nat
  mappedShms : List SharedMemMap
  deriving DecidableEq, Repr

/-! ## The world -/

inductive HelperRequest where
  | distribute (fd : Int)
  | free (fd : Int)
  deriving DecidableEq, Repr

/-- The helper: its descriptors and the memory they refer to, the connections that wait to be
accepted, the requests in the pipe, and the memory that was sent over a connection. -/
structure Helper where
  fds : List (Int × Nat)
  backlog : List Nat
  requests : List HelperRequest
  sent : List (Nat × Nat)

structure Attachment where
  addr : Word
  size : Word
  memory : Nat
  deriving DecidableEq, Repr

/-- The state of the extension, the helper and the address spaces. -/
structure World where
  queues : List MsgQueue
  semaphores : List Semaphore
  shms : List SharedMem
  tracees : List Tracee
  processes : List Process
  helper : Helper
  spaces : Nat → List Attachment
  nextAddress : Nat

/-- What `read_data` and `write_data` find in the memory of a tracee during a call. -/
structure GuestMemory where
  readLong : (addr : Word) → Except Errno Word
  readBytes : (addr : Word) → (size : Nat) → Except Errno (List (BitVec 8))
  readSops : (addr : Word) → (count : Nat) → Except Errno (List Sembuf)
  write : (addr : Word) → (size : Nat) → Except Errno Unit

def World.tracee? (w : World) (pid : Nat) : Option Tracee := w.tracees.find? (·.pid = pid)

def World.setTracee (w : World) (t : Tracee) : World :=
  { w with tracees := w.tracees.map fun u => if u.pid = t.pid then t else u }

def World.process? (w : World) (id : Nat) : Option Process := w.processes.find? (·.id = id)

/-- The list `mappings` of a segment. -/
def World.mappingsOf (w : World) (index : Nat) : List SharedMemMap :=
  (w.processes.flatMap (·.mappedShms)).filter (·.shmIndex = index)

inductive Assertion where
  | waitReason | waitState | chainState | queueIndex | queueValid | shmIndex | shmValid
  | pendingMapping | mappingsEmpty
  deriving DecidableEq, Repr

end Improot.SysVIpc
