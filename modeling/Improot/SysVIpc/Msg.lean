import Improot.SysVIpc.Wait

/-!
# Message queues

The system calls of `sysvipc_msg.c`.  A handler gets the world and the tracee that calls it, whose
entry in the list of the tracees is stale until the handler is done, and returns the status, the
tracee and the world.
-/

namespace Improot.SysVIpc

/-- `SYSVIPC_MAX_MSG_SIZE`. -/
def maxMsgSize : Nat := 0xFFFF

/-- What `sysvipc_msgget` makes of a slot, `memset` when it is new. -/
def MsgQueue.create (key : BitVec 32) (generation : BitVec 16) (address : Nat) : MsgQueue where
  key := key
  generation := generation
  valid := true
  address := address
  items := []
  stats := { msgQbytes := 1024 * 64, msgQnum := 0, msgCbytes := 0, msgLspid := 0, msgLrpid := 0 }
  accepted := []
  receipts := []

/-- The slot of `sysvipc_msgget`: an object that has the key, or else a new one. -/
def msggetSlot (w : World) (key msgflg : Word) : Except Errno Nat × World :=
  match findKey w.queues key with
  | some index =>
      if has (int msgflg) ipcCreat ∧ has (int msgflg) ipcExcl then (.error .eexist, w)
      else (.ok index, w)
  | none =>
      if ¬ has (int msgflg) ipcCreat then (.error .enoent, w)
      else
        match unusedSlot w.queues with
        | some index =>
            let generation := (w.queues[index]?.map (·.generation)).getD 0
            (.ok index, { w with
              queues := w.queues.set index (.create (int key) generation w.nextAddress)
              nextAddress := w.nextAddress + 1 })
        | none =>
            (.ok w.queues.length, { w with
              queues := w.queues ++ [.create (int key) 0 w.nextAddress]
              nextAddress := w.nextAddress + 1 })

def slotId {α : Type} [IpcObject α] (objects : List α) (index : Nat) : Int :=
  ((objects[index]?.map (ipcObjectId index)).getD 0).toInt

def msgget (w : World) (key msgflg : Word) : Status × World :=
  match msggetSlot w key msgflg with
  | (.error e, w) => (.error e, w)
  | (.ok index, w) => (.ok (slotId w.queues index), w)

def msgMatch (senderType receiverFilter receiverFlag : BitVec 32) : Bool :=
  let matched := receiverFilter == 0 || senderType == receiverFilter ||
    (receiverFilter.slt 0 && senderType.sle (-receiverFilter))
  if has receiverFlag msgExcept then !matched else matched

def Config.selects (c : Config) (item : MsgQueueItem) : Bool :=
  msgMatch (int item.mtype) c.msgrcvMsgtyp c.msgrcvMsgflg

def msgDeliver (m : GuestMemory) (t : Tracee) (queue : MsgQueue) (msg : MsgQueueItem) :
    Status × MsgQueue :=
  let msgsz := t.config.msgrcvMsgsz.toNat
  if msg.mtext.length > msgsz ∧ ¬ has t.config.msgrcvMsgflg msgNoerror then (.error .e2big, queue)
  else
    let msgsz := if msg.mtext.length > msgsz then msgsz else msg.mtext.length
    match m.write t.config.msgrcvMsgp 8 with
    | .error e => (.error e, queue)
    | .ok _ =>
        match m.write (t.config.msgrcvMsgp + 8) msgsz with
        | .error e => (.error e, queue)
        | .ok _ => (.ok msgsz, { queue with stats := { queue.stats with msgLrpid := t.pid } })

def MsgQueue.insertTail (queue : MsgQueue) (pid : Nat) (item : MsgQueueItem) : MsgQueue :=
  { queue with
    items := queue.items ++ [item]
    stats := { queue.stats with
      msgLspid := pid
      msgQnum := queue.stats.msgQnum + 1
      msgCbytes := queue.stats.msgCbytes + item.mtext.length }
    accepted := queue.accepted ++ [item] }

def Config.receives (index : Nat) (item : MsgQueueItem) (c : Config) : Bool :=
  c.waitsOn .waitQueueRecv index && c.selects item

def msgsnd (m : GuestMemory) (w : World) (t : Tracee) (id msgp msgsz : Word) :
    Except Assertion (Status × Tracee × World) :=
  match lookupIpcObject w.queues id with
  | none => .ok (.error .einval, t, w)
  | some (index, queue) =>
      if msgsz.toNat > maxMsgSize then .ok (.error .einval, t, w)
      else
        match m.readLong msgp with
        | .error e => .ok (.error e, t, w)
        | .ok mtype =>
            if mtype.slt 1 then .ok (.error .einval, t, w)
            else
              match m.readBytes (msgp + 8) msgsz.toNat with
              | .error e => .ok (.error e, t, w)
              | .ok mtext => do
                  let item : MsgQueueItem := ⟨w.nextAddress, mtype, mtext⟩
                  let tracees ←
                    wakeFirst (Config.receives index item) .msgrcvRetry (.error .eagain) w.tracees
                  .ok (.ok 0, t, { w with
                    queues := w.queues.set index (queue.insertTail t.pid item)
                    tracees
                    nextAddress := w.nextAddress + 1 })

def MsgQueue.removeItem (queue : MsgQueue) (t : Tracee) (item : MsgQueueItem) : MsgQueue :=
  { queue with
    items := queue.items.erase item
    stats := { queue.stats with
      msgQnum := queue.stats.msgQnum - 1
      msgCbytes := queue.stats.msgCbytes - item.mtext.length }
    receipts := queue.receipts ++ [⟨t.pid, t.config.msgrcvMsgtyp, t.config.msgrcvMsgflg, item⟩] }

/-- The item that `sysvipc_do_msgrcv` finds: the one of some index for `MSG_COPY`, or else the
first that matches. -/
def foundItem (c : Config) (items : List MsgQueueItem) : Option MsgQueueItem :=
  if has c.msgrcvMsgflg msgCopy then
    if c.msgrcvMsgtyp.slt 0 then none else items[c.msgrcvMsgtyp.toNat]?
  else items.find? c.selects

def doMsgrcv (m : GuestMemory) (t : Tracee) (index : Nat) (queue : MsgQueue) :
    Status × Tracee × MsgQueue :=
  let flags := t.config.msgrcvMsgflg
  if (int t.config.msgrcvMsgsz).slt 0 then (.error .einval, t, queue)
  else if has flags (~~~(ipcNowait ||| msgNoerror ||| msgCopy ||| msgExcept)) then
    (.error .einval, t, queue)
  else if has flags msgCopy ∧ (¬ has flags ipcNowait ∨ has flags msgExcept) then
    (.error .einval, t, queue)
  else
    match foundItem t.config queue.items with
    | none =>
        if has flags ipcNowait then (.error .enomsg, t, queue)
        else
          (.ok 0, { t with
            asked := .queue queue.address
            config := { t.config with
              waitReason := .waitQueueRecv
              waitingObjectIndex := index } }, queue)
    | some item =>
        match msgDeliver m t queue item with
        | (.error e, queue) => (.error e, t, queue)
        | (.ok size, queue) =>
            (.ok size, t, if has flags msgCopy then queue else queue.removeItem t item)

def msgrcv (m : GuestMemory) (w : World) (t : Tracee) (id msgp msgsz msgtyp msgflg : Word) :
    Status × Tracee × World :=
  match lookupIpcObject w.queues id with
  | none => (.error .einval, t, w)
  | some (index, queue) =>
      let t := { t with config := { t.config with
        msgrcvMsgp := msgp
        msgrcvMsgsz := msgsz
        msgrcvMsgtyp := int msgtyp
        msgrcvMsgflg := int msgflg } }
      let (status, t, queue) := doMsgrcv m t index queue
      (status, t, { w with queues := w.queues.set index queue })

/-- `sysvipc_msgrcv_retry`; its first assertion is the condition its callers call it under. -/
def msgrcvRetry (m : GuestMemory) (w : World) (t : Tracee) :
    Except Assertion (Status × Tracee × World) :=
  let done (t : Tracee) : Tracee := { t with config := { t.config with chainState := .notChained } }
  if t.config.statusAfterWait = .error .eagain then
    let index := t.config.waitingObjectIndex
    match w.queues[index]? with
    | none => .error .queueIndex
    | some queue =>
        if queue.valid = false then .error .queueValid
        else
          let (status, t, queue) := doMsgrcv m t index queue
          let w := { w with queues := w.queues.set index queue }
          -- another tracee took the message: a spurious wakeup
          if t.config.waitReason ≠ .notWaiting then
            .ok (.error .eintr, done { t with config := { t.config with waitReason := .notWaiting } }, w)
          else .ok (status, done t, w)
  else .ok (t.config.statusAfterWait, done t, w)

/-- A queue after `IPC_RMID`. -/
def MsgQueue.rmid (queue : MsgQueue) : MsgQueue :=
  { queue with valid := false, generation := queue.generation + 1, items := [] }

def msgctl (m : GuestMemory) (w : World) (t : Tracee) (id cmd buf : Word) :
    Except Assertion (Status × Tracee × World) :=
  match lookupIpcObject w.queues id with
  | none => .ok (.error .einval, t, w)
  | some (index, queue) =>
      let cmd := int cmd
      if cmd = ipcRmid ∨ cmd = ipcRmid ||| ipc64 then do
        let tracees ← wakeEach (·.waitsOn .waitQueueRecv index) (.error .eidrm) w.tracees
        .ok (.ok 0, t, { w with queues := w.queues.set index queue.rmid, tracees })
      else if cmd = ipcStat ∨ cmd = ipcStat ||| ipc64 then
        match m.write buf 120 with
        | .error e => .ok (.error e, t, w)
        | .ok _ => .ok (.ok 0, t, w)
      else .ok (.error .einval, t, w)

end Improot.SysVIpc
