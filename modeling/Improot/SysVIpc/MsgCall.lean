import Improot.SysVIpc.MsgReceive

/-!
# The system calls on message queues

What a system call on a queue, or the retry of a receiver that was woken, makes of the queues and of
the tracees.
-/

namespace Improot.SysVIpc

def Tracee.asks (t : Tracee) (msgp msgsz msgtyp msgflg : Word) : Tracee :=
  { t with config := { t.config with
    msgrcvMsgp := msgp
    msgrcvMsgsz := msgsz
    msgrcvMsgtyp := int msgtyp
    msgrcvMsgflg := int msgflg } }

inductive MsgCall (m : GuestMemory) (w : World) (t : Tracee) : Syscall → Tracee → World → Prop
  | same {c} : MsgCall m w t c t w
  | makes {c index key generation} : unusedSlot w.queues = some index →
      MsgCall m w t c t { w with
        queues := w.queues.set index (.create key generation w.nextAddress)
        nextAddress := w.nextAddress + 1 }
  | pushes {c key} : MsgCall m w t c t { w with
      queues := w.queues ++ [.create key 0 w.nextAddress]
      nextAddress := w.nextAddress + 1 }
  | sends {c index queue item tracees} : w.queues[index]? = some queue → queue.valid = true →
      item.address = w.nextAddress →
      wakeFirst (Config.receives index item) .msgrcvRetry (.error .eagain) w.tracees = .ok tracees →
      MsgCall m w t c t { w with
        queues := w.queues.set index (queue.insertTail t.pid item)
        tracees
        nextAddress := w.nextAddress + 1 }
  | receives {id msgp msgsz msgtyp msgflg index queue status t₁ queue'} :
      w.queues[index]? = some queue → queue.valid = true →
      Received m (t.asks msgp msgsz msgtyp msgflg) index queue status t₁ queue' →
      MsgCall m w t (.msgrcv id msgp msgsz msgtyp msgflg) t₁
        { w with queues := w.queues.set index queue' }
  | removes {id cmd buf index queue tracees} :
      lookupIpcObject w.queues id = some (index, queue) →
      int cmd = ipcRmid ∨ int cmd = ipcRmid ||| ipc64 →
      wakeEach (·.waitsOn .waitQueueRecv index) (.error .eidrm) w.tracees = .ok tracees →
      MsgCall m w t (.msgctl id cmd buf) t
        { w with queues := w.queues.set index queue.rmid, tracees }

section Handlers

variable {m : GuestMemory} {w w' : World} {t t' : Tracee} {status : Status}

theorem msgget_call (key msgflg : Word) :
    MsgCall m w t (.msgget key msgflg) t (msgget w key msgflg).2 := by
  unfold msgget msggetSlot
  split <;> rename_i hslot <;> split at hslot
  · split at hslot <;> cases hslot
    exact .same
  · split at hslot
    · cases hslot
      exact .same
    · split at hslot <;> cases hslot
  · split at hslot <;> cases hslot
    exact .same
  · split at hslot
    · cases hslot
    · split at hslot
      · rename_i hunused
        cases hslot
        exact .makes hunused
      · cases hslot
        exact .pushes

theorem msgsnd_call {id msgp msgsz : Word} (h : msgsnd m w t id msgp msgsz = .ok (status, t', w')) :
    MsgCall m w t (.msgsnd id msgp msgsz) t' w' := by
  unfold msgsnd at h
  split at h
  · cases h
    exact .same
  rename_i hlookup
  repeat' split at h
  all_goals try (cases h; exact .same)
  obtain ⟨tracees, hwake, h⟩ := bind_eq_ok.mp h
  cases h
  obtain ⟨hget, hvalid, -⟩ := lookupIpcObject_some hlookup
  exact .sends hget hvalid rfl hwake

theorem msgrcv_call {id msgp msgsz msgtyp msgflg : Word}
    (h : msgrcv m w t id msgp msgsz msgtyp msgflg = (status, t', w')) :
    MsgCall m w t (.msgrcv id msgp msgsz msgtyp msgflg) t' w' := by
  unfold msgrcv at h
  split at h
  · cases h
    exact .same
  · rename_i index queue hlookup
    obtain ⟨hget, hvalid, -⟩ := lookupIpcObject_some hlookup
    cases h
    exact .receives hget hvalid (doMsgrcv_received rfl)

theorem msgctl_call {id cmd buf : Word} (h : msgctl m w t id cmd buf = .ok (status, t', w')) :
    MsgCall m w t (.msgctl id cmd buf) t' w' := by
  unfold msgctl at h
  split at h
  · cases h
    exact .same
  rename_i hlookup
  dsimp only at h
  split at h
  · rename_i hcmd
    obtain ⟨tracees, hwake, h⟩ := bind_eq_ok.mp h
    cases h
    exact .removes hlookup hcmd hwake
  split at h
  · split at h <;> cases h <;> exact .same
  · cases h
    exact .same

theorem handle_msgCall {c : Syscall} (hkind : c.kind = .queue)
    (h : c.handle m w t = .ok (status, t', w')) : MsgCall m w t c t' w' := by
  cases c with
  | msgget key msgflg =>
      cases h
      exact msgget_call key msgflg
  | msgsnd => exact msgsnd_call h
  | msgrcv => exact msgrcv_call (Except.ok.inj h)
  | msgctl => exact msgctl_call h
  | _ => cases hkind

/-! ## The end of a wait -/

/-- What a tracee that resumes does: it receives, or it is just done. -/
inductive Resumed (m : GuestMemory) (w : World) (t : Tracee) : Status → World → Prop
  | done : t.config.chainState ≠ .msgrcvRetry → Resumed m w t t.config.statusAfterWait w
  | receives {queue status t₁ queue'} : t.config.chainState = .msgrcvRetry →
      w.queues[t.config.waitingObjectIndex]? = some queue → queue.valid = true →
      Received m t t.config.waitingObjectIndex queue status t₁ queue' →
      t₁.config.waitReason = .notWaiting →
      Resumed m w t status { w with queues := w.queues.set t.config.waitingObjectIndex queue' }
  | spurious {queue} : t.config.chainState = .msgrcvRetry →
      w.queues[t.config.waitingObjectIndex]? = some queue → queue.valid = true →
      foundItem t.config queue.items = none →
      Resumed m w t (.error .eintr) w

theorem resume_resumed (hreason : t.config.waitReason = .notWaiting)
    (hretry : t.config.chainState = .msgrcvRetry → t.config.statusAfterWait = .error .eagain)
    (h : resume m w t = .ok (status, t', w')) : Resumed m w t status w' := by
  unfold resume at h
  split at h
  · rename_i hchain
    simp only [msgrcvRetry, hretry hchain, if_true] at h
    split at h
    · cases h
    rename_i queue hget
    split at h
    · cases h
    rename_i hvalid
    have hvalid : queue.valid = true := by simpa using hvalid
    rcases hrun : doMsgrcv m t t.config.waitingObjectIndex queue with ⟨status₁, t₁, queue₁⟩
    have hreceived := doMsgrcv_received hrun
    rw [hrun] at h
    dsimp only at h
    split at h
    · rename_i hwaits
      cases h
      cases hreceived with
      | waits _ hnone =>
          have hsame : w.queues.set t.config.waitingObjectIndex queue = w.queues := by
            apply List.ext_getElem?
            intro i
            by_cases hi : t.config.waitingObjectIndex = i
            · subst hi
              rw [List.getElem?_set_self (List.getElem?_eq_some_iff.mp hget).1, hget]
            · rw [List.getElem?_set_ne hi]
          rw [hsame]
          exact .spurious hchain hget hvalid hnone
      | refused | nomsg | tooBig | fault | copies | takes => exact absurd hreason hwaits
    · rename_i hwaits
      cases h
      exact .receives hchain hget hvalid hreceived (not_not.mp hwaits)
  · rename_i hchain
    cases h
    exact .done hchain

theorem exitStart_resumed {ppollStatus : Errno} (h : exitStart m w t ppollStatus = .ok w') :
    (t.config.waitState = .enteredPpoll ∧ w' = w.setTracee (t.interrupt ppollStatus)) ∨
      (t.config.waitState = .notWaiting ∧ w' = w) ∨
      ∃ status t₁ w₁, t.config.waitReason = .notWaiting ∧ resume m w t = .ok (status, t₁, w₁) ∧
        w' = w₁.setTracee (t₁.finish status) := by
  unfold exitStart at h
  split at h
  · rename_i hstate
    split at h
    · cases h
    · cases h
      exact .inl ⟨hstate, rfl⟩
  · split at h
    · cases h
    · rename_i hreason
      obtain ⟨⟨status, t₁, w₁⟩, hresume, h⟩ := bind_eq_ok.mp h
      cases h
      exact .inr (.inr ⟨status, t₁, w₁, not_not.mp hreason, hresume, rfl⟩)
  · split at h
    · cases h
    · rename_i hreason
      obtain ⟨⟨status, t₁, w₁⟩, hresume, h⟩ := bind_eq_ok.mp h
      cases h
      exact .inr (.inr ⟨status, t₁, w₁, not_not.mp hreason, hresume, rfl⟩)
  · rename_i hstate
    cases h
    exact .inr (.inl ⟨hstate, rfl⟩)
  · cases h

theorem enterStart_resumed (h : enterStart m w t = .ok w') :
    (t.config.waitState = .restartedIntoPpoll ∧
      w' = w.setTracee { t with config := { t.config with waitState := .enteredPpoll } }) ∨
      ∃ status t₁ w₁, t.config.waitState = .restartedIntoPpollCanceled ∧
        resume m w t = .ok (status, t₁, w₁) ∧ w' = w₁.setTracee (t₁.finish status) := by
  unfold enterStart at h
  split at h
  · rename_i hstate
    cases h
    exact .inl ⟨hstate, rfl⟩
  · rename_i hstate
    obtain ⟨⟨status, t₁, w₁⟩, hresume, h⟩ := bind_eq_ok.mp h
    cases h
    exact .inr ⟨status, t₁, w₁, hstate, hresume, rfl⟩
  · cases h

end Handlers

end Improot.SysVIpc
