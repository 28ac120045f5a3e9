import Mathlib.Data.Nat.Basic
import Improot.Lib.Mailbox
import Improot.SysVIpc.Step

/-!
# Receiving messages

The outcomes of `sysvipc_do_msgrcv`, and what every step keeps of the messages of a queue.
-/

namespace Improot.SysVIpc

/-! ## The outcomes -/

def Config.accepted (c : Config) : Prop :=
  (int c.msgrcvMsgsz).slt 0 = false ∧
    has c.msgrcvMsgflg (~~~(ipcNowait ||| msgNoerror ||| msgCopy ||| msgExcept)) = false ∧
    (has c.msgrcvMsgflg msgCopy = true →
      has c.msgrcvMsgflg ipcNowait = true ∧ has c.msgrcvMsgflg msgExcept = false)

def Config.tooSmall (c : Config) (item : MsgQueueItem) : Prop :=
  item.mtext.length > c.msgrcvMsgsz.toNat ∧ has c.msgrcvMsgflg msgNoerror = false

def Config.sizeOf (c : Config) (item : MsgQueueItem) : Nat :=
  if item.mtext.length > c.msgrcvMsgsz.toNat then c.msgrcvMsgsz.toNat else item.mtext.length

def Config.writable (m : GuestMemory) (c : Config) (item : MsgQueueItem) : Prop :=
  m.write c.msgrcvMsgp 8 = .ok () ∧ m.write (c.msgrcvMsgp + 8) (c.sizeOf item) = .ok ()

def MsgQueue.receivedBy (queue : MsgQueue) (pid : Nat) : MsgQueue :=
  { queue with stats := { queue.stats with msgLrpid := pid } }

/-- What `sysvipc_do_msgrcv` returns. -/
inductive Received (m : GuestMemory) (t : Tracee) (index : Nat) (queue : MsgQueue) :
    Status → Tracee → MsgQueue → Prop
  | refused : ¬ t.config.accepted → Received m t index queue (.error .einval) t queue
  | nomsg : t.config.accepted → foundItem t.config queue.items = none →
      has t.config.msgrcvMsgflg ipcNowait = true →
      Received m t index queue (.error .enomsg) t queue
  | waits : t.config.accepted → foundItem t.config queue.items = none →
      has t.config.msgrcvMsgflg ipcNowait = false →
      Received m t index queue (.ok 0)
        { t with
          asked := .queue queue.address
          config := { t.config with waitReason := .waitQueueRecv, waitingObjectIndex := index } }
        queue
  | tooBig {item} : t.config.accepted → foundItem t.config queue.items = some item →
      t.config.tooSmall item → Received m t index queue (.error .e2big) t queue
  | fault {item e} : t.config.accepted → foundItem t.config queue.items = some item →
      ¬ t.config.tooSmall item → ¬ t.config.writable m item →
      Received m t index queue (.error e) t queue
  | copies {item} : t.config.accepted → foundItem t.config queue.items = some item →
      ¬ t.config.tooSmall item → t.config.writable m item →
      has t.config.msgrcvMsgflg msgCopy = true →
      Received m t index queue (.ok (t.config.sizeOf item)) t (queue.receivedBy t.pid)
  | takes {item} : t.config.accepted → queue.items.find? t.config.selects = some item →
      ¬ t.config.tooSmall item → t.config.writable m item →
      has t.config.msgrcvMsgflg msgCopy = false →
      Received m t index queue (.ok (t.config.sizeOf item)) t
        ((queue.receivedBy t.pid).removeItem t item)

theorem msgDeliver_cases (m : GuestMemory) (t : Tracee) (queue : MsgQueue) (item : MsgQueueItem) :
    (t.config.tooSmall item ∧ msgDeliver m t queue item = (.error .e2big, queue)) ∨
    (¬ t.config.tooSmall item ∧ ¬ t.config.writable m item ∧
      ∃ e, msgDeliver m t queue item = (.error e, queue)) ∨
    (¬ t.config.tooSmall item ∧ t.config.writable m item ∧
      msgDeliver m t queue item = (.ok (t.config.sizeOf item), queue.receivedBy t.pid)) := by
  have hsmall : t.config.tooSmall item ↔
      (item.mtext.length > t.config.msgrcvMsgsz.toNat ∧
        ¬ has t.config.msgrcvMsgflg msgNoerror = true) := by
    rw [Config.tooSmall, Bool.not_eq_true]
  simp only [msgDeliver]
  by_cases htooSmall : t.config.tooSmall item
  · exact .inl ⟨htooSmall, if_pos (hsmall.mp htooSmall)⟩
  · right
    rw [if_neg (hsmall.not.mp htooSmall)]
    cases htype : m.write t.config.msgrcvMsgp 8 with
    | error e =>
        refine .inl ⟨htooSmall, fun h => ?_, e, rfl⟩
        rw [h.1] at htype
        cases htype
    | ok _ =>
        cases htext : m.write (t.config.msgrcvMsgp + 8) (t.config.sizeOf item) with
        | error e =>
            refine .inl ⟨htooSmall, fun h => ?_, e, ?_⟩
            · rw [h.2] at htext
              cases htext
            · simp only [Config.sizeOf] at htext
              simp only [htext]
        | ok _ =>
            refine .inr ⟨htooSmall, ⟨htype, htext⟩, ?_⟩
            simp only [Config.sizeOf] at htext ⊢
            simp only [htext]
            rfl

variable {queue : MsgQueue} {fresh : Nat}

theorem doMsgrcv_received {m : GuestMemory} {t t' : Tracee} {index : Nat} {queue' : MsgQueue}
    {status : Status} (h : doMsgrcv m t index queue = (status, t', queue')) :
    Received m t index queue status t' queue' := by
  simp only [doMsgrcv] at h
  split at h
  · rename_i hsize
    cases h
    exact .refused fun hacc => Bool.false_ne_true (hacc.1.symm.trans hsize)
  rename_i hsize
  split at h
  · rename_i hflags
    cases h
    exact .refused fun hacc => Bool.false_ne_true (hacc.2.1.symm.trans hflags)
  rename_i hflags
  split at h
  · rename_i hcopy
    cases h
    refine .refused fun hacc => ?_
    have hboth := hacc.2.2 hcopy.1
    simp [hboth.1, hboth.2] at hcopy
  rename_i hcopy
  have hacc : t.config.accepted := by
    refine ⟨by simpa using hsize, by simpa using hflags, fun hc => ?_⟩
    simp only [not_and, not_or, Bool.not_eq_true, Bool.not_eq_false] at hcopy
    exact hcopy hc
  split at h
  · rename_i hnone
    split at h
    · rename_i hnowait
      cases h
      exact .nomsg hacc hnone hnowait
    · rename_i hnowait
      cases h
      exact .waits hacc hnone (by simpa using hnowait)
  · rename_i item hsome
    rcases msgDeliver_cases m t queue item with ⟨hsmall, hrun⟩ | ⟨hsmall, hwrite, e, hrun⟩ |
      ⟨hsmall, hwrite, hrun⟩
    · rw [hrun] at h
      cases h
      exact .tooBig hacc hsome hsmall
    · rw [hrun] at h
      cases h
      exact .fault hacc hsome hsmall hwrite
    · rw [hrun] at h
      dsimp only at h
      split at h
      · rename_i hc
        cases h
        exact .copies hacc hsome hsmall hwrite hc
      · rename_i hc
        cases h
        have hc : has t.config.msgrcvMsgflg msgCopy = false := by simpa using hc
        refine .takes hacc ?_ hsmall hwrite hc
        simpa [foundItem, hc] using hsome

/-! ## The mailbox of a queue -/

abbrev Selector := BitVec 32 × BitVec 32

def Selector.selects (s : Selector) (item : MsgQueueItem) : Bool :=
  msgMatch (int item.mtype) s.1 s.2

def MsgQueue.mailbox (queue : MsgQueue) : Lib.Mailbox MsgQueueItem Selector where
  sent := queue.accepted
  received := queue.receipts.map fun r => ((r.msgtyp, r.msgflg), r.item)
  queue := queue.items

/-- What holds of a live queue: its mailbox conserves the messages, each of them was sent before
now, and `msg_qnum` counts those that are queued. -/
structure MsgQueue.Conserves (fresh : Nat) (queue : MsgQueue) : Prop where
  mailbox : queue.mailbox.Conserved MsgQueueItem.address Selector.selects
  fresh : ∀ item ∈ queue.accepted, item.address < fresh
  msgQnum : queue.stats.msgQnum = queue.items.length

theorem MsgQueue.Conserves.mono {fresh' : Nat}
    (h : queue.Conserves fresh) (hle : fresh ≤ fresh') : queue.Conserves fresh' :=
  ⟨h.mailbox, fun item hitem => Nat.lt_of_lt_of_le (h.fresh item hitem) hle, h.msgQnum⟩

theorem MsgQueue.create_conserves (key : BitVec 32) (generation : BitVec 16)
    (address fresh : Nat) : (MsgQueue.create key generation address).Conserves fresh :=
  ⟨.empty, by simp [MsgQueue.create], rfl⟩

theorem MsgQueue.Conserves.insertTail (h : queue.Conserves fresh)
    {pid : Nat} {item : MsgQueueItem} (hitem : item.address = fresh) :
    (queue.insertTail pid item).Conserves (fresh + 1) := by
  constructor
  · exact h.mailbox.send fun y hy => hitem ▸ h.fresh y hy
  · intro y hy
    rcases List.mem_append.mp hy with hy | hy
    · exact Nat.lt_succ_of_lt (h.fresh y hy)
    · rw [List.mem_singleton.mp hy, hitem]
      exact Nat.lt_succ_self _
  · show queue.stats.msgQnum + 1 = (queue.items ++ [item]).length
    rw [h.msgQnum, List.length_append, List.length_singleton]

theorem MsgQueue.Conserves.removeItem (h : queue.Conserves fresh)
    {t : Tracee} {item : MsgQueueItem} (hfind : queue.items.find? t.config.selects = some item) :
    (queue.removeItem t item).Conserves fresh := by
  constructor
  · have hmailbox := @Lib.Mailbox.Conserved.receive _ _ _ _ _ _ _ _ _ h.mailbox
      (t.config.msgrcvMsgtyp, t.config.msgrcvMsgflg) item hfind
    have heq : (queue.removeItem t item).mailbox =
        queue.mailbox.receive (t.config.msgrcvMsgtyp, t.config.msgrcvMsgflg) item := by
      simp [MsgQueue.mailbox, MsgQueue.removeItem, Lib.Mailbox.receive]
    rw [heq]
    exact hmailbox
  · exact h.fresh
  · show queue.stats.msgQnum - 1 = (queue.items.erase item).length
    rw [h.msgQnum, List.length_erase_of_mem (List.mem_of_find?_eq_some hfind)]

theorem Received.conserves {m : GuestMemory} {t t' : Tracee} {index : Nat}
    {queue' : MsgQueue} {status : Status} (h : Received m t index queue status t' queue')
    (hqueue : queue.Conserves fresh) : queue'.Conserves fresh := by
  have hby : (queue.receivedBy t.pid).Conserves fresh :=
    ⟨hqueue.mailbox, hqueue.fresh, hqueue.msgQnum⟩
  cases h with
  | refused | nomsg | waits | tooBig | fault => exact hqueue
  | copies => exact hby
  | takes _ hfind => exact hby.removeItem hfind

end Improot.SysVIpc
