import Improot.SysVIpc.MsgAbort
import Improot.SysVIpc.MsgConserve

/-!
# Receivers that were woken

A receiver that msgsnd(2) wakes retries later, and looks at the slot of its queue again.  The queue
may have been removed by then, and the slot may hold another one: `IPC_RMID` wakes those that are
still waiting, not those that were woken.  Where no queue is removed under a receiver that was
woken, receivers end with a message of their queue, or with an error that says what happened.
-/

namespace Improot.SysVIpc

/-! ## Queues and their addresses -/

def World.Holds (w : World) (index address : Nat) : Prop :=
  ∃ queue, w.queues[index]? = some queue ∧ queue.valid = true ∧ queue.address = address

def World.Gone (w : World) (address : Nat) : Prop := ∀ index, ¬ w.Holds index address

/-- What a step does to the queues when it removes none, `holds` excepted for the step that does. -/
structure QueuesBack (w w' : World) : Prop where
  nextAddress : w.nextAddress ≤ w'.nextAddress
  back : ∀ index address, w'.Holds index address → w.Holds index address ∨
    address = w.nextAddress ∧ w.nextAddress < w'.nextAddress ∧
      ∀ other, w'.Holds other address → other = index

structure QueuesStay (w w' : World) : Prop extends QueuesBack w w' where
  holds : ∀ index address, w.Holds index address → w'.Holds index address

section Queues

variable {w w' : World}

theorem QueuesStay.of_queues (hqueues : w'.queues = w.queues)
    (hnext : w.nextAddress ≤ w'.nextAddress) : QueuesStay w w' := by
  refine ⟨⟨hnext, ?_⟩, ?_⟩
  · intro index address h
    rw [World.Holds, hqueues] at h
    exact .inl h
  · intro index address h
    rw [World.Holds, hqueues]
    exact h

theorem QueuesStay.of_set {index : Nat} {queue queue' : MsgQueue} (hget : w.queues[index]? = some queue)
    (hvalid : queue'.valid = queue.valid) (haddress : queue'.address = queue.address)
    (hqueues : w'.queues = w.queues.set index queue') (hnext : w.nextAddress ≤ w'.nextAddress) :
    QueuesStay w w' := by
  have hlt := (List.getElem?_eq_some_iff.mp hget).1
  refine ⟨⟨hnext, ?_⟩, ?_⟩
  · rintro i a ⟨q, hq, hlive, rfl⟩
    left
    rw [hqueues] at hq
    rcases getElem?_set_cases hq with ⟨rfl, rfl⟩ | ⟨-, hq⟩
    · exact ⟨queue, hget, hvalid ▸ hlive, haddress.symm⟩
    · exact ⟨q, hq, hlive, rfl⟩
  · rintro i a ⟨q, hq, hlive, rfl⟩
    rw [World.Holds, hqueues]
    by_cases hi : index = i
    · subst hi
      rw [hget] at hq
      cases hq
      exact ⟨queue', List.getElem?_set_self hlt, hvalid.trans hlive, haddress⟩
    · exact ⟨q, (List.getElem?_set_ne hi).trans hq, hlive, rfl⟩

theorem Received.address {m : GuestMemory} {t t' : Tracee} {index : Nat} {queue queue' : MsgQueue}
    {status : Status} (h : Received m t index queue status t' queue') :
    queue'.valid = queue.valid ∧ queue'.address = queue.address := by
  cases h <;> exact ⟨rfl, rfl⟩

/-- A call keeps the queues where they are, unless it removes one. -/
theorem MsgCall.stay {m : GuestMemory} {t t₁ : Tracee} {c : Syscall} (h : MsgCall m w t c t₁ w')
    (hfresh : ∀ index address, w.Holds index address → address < w.nextAddress) :
    QueuesStay w w' ∨ ∃ id cmd buf index queue tracees, c = .msgctl id cmd buf ∧
      lookupIpcObject w.queues id = some (index, queue) ∧
      (int cmd = ipcRmid ∨ int cmd = ipcRmid ||| ipc64) ∧ t₁ = t ∧
      wakeEach (·.waitsOn .waitQueueRecv index) (.error .eidrm) w.tracees = .ok tracees ∧
      w' = { w with queues := w.queues.set index queue.rmid, tracees } := by
  have hnew : ∀ other, ¬ w.Holds other w.nextAddress :=
    fun other hholds => Nat.lt_irrefl _ (hfresh other _ hholds)
  cases h with
  | same => exact .inl (.of_queues rfl (Nat.le_refl _))
  | @makes _ index key generation hunused =>
      left
      obtain ⟨object, hobject, hinvalid⟩ := unusedSlot_some hunused
      refine ⟨⟨Nat.le_succ _, ?_⟩, ?_⟩
      · rintro i a ⟨q, hq, hlive, rfl⟩
        rcases getElem?_set_cases hq with ⟨rfl, rfl⟩ | ⟨-, hq⟩
        · refine .inr ⟨rfl, Nat.lt_succ_self _, ?_⟩
          rintro other ⟨q, hq, hlive, haddress⟩
          rcases getElem?_set_cases hq with ⟨rfl, -⟩ | ⟨-, hq⟩
          · rfl
          · exact absurd ⟨q, hq, hlive, haddress⟩ (hnew other)
        · exact .inl ⟨q, hq, hlive, rfl⟩
      · rintro i a ⟨q, hq, hlive, rfl⟩
        have hne : index ≠ i := by
          rintro rfl
          rw [hobject] at hq
          cases hq
          exact Bool.false_ne_true (hinvalid.symm.trans hlive)
        exact ⟨q, (List.getElem?_set_ne hne).trans hq, hlive, rfl⟩
  | @pushes _ key =>
      left
      have hcases : ∀ {i : Nat} {q : MsgQueue},
          (w.queues ++ [.create key 0 w.nextAddress])[i]? = some q →
          i = w.queues.length ∧ q = .create key 0 w.nextAddress ∨ w.queues[i]? = some q := by
        intro i q hq
        by_cases hi : i < w.queues.length
        · rw [List.getElem?_append_left hi] at hq
          exact .inr hq
        · rw [List.getElem?_append_right (by omega), List.getElem?_singleton] at hq
          split at hq
          · exact .inl ⟨by omega, (Option.some.inj hq).symm⟩
          · cases hq
      refine ⟨⟨Nat.le_succ _, ?_⟩, ?_⟩
      · rintro i a ⟨q, hq, hlive, rfl⟩
        rcases hcases hq with ⟨rfl, rfl⟩ | hq
        · refine .inr ⟨rfl, Nat.lt_succ_self _, ?_⟩
          rintro other ⟨q, hq, hlive, haddress⟩
          rcases hcases hq with ⟨rfl, -⟩ | hq
          · rfl
          · exact absurd ⟨q, hq, hlive, haddress⟩ (hnew other)
        · exact .inl ⟨q, hq, hlive, rfl⟩
      · rintro i a ⟨q, hq, hlive, rfl⟩
        have hlt := (List.getElem?_eq_some_iff.mp hq).1
        exact ⟨q, (List.getElem?_append_left hlt).trans hq, hlive, rfl⟩
  | @sends _ index queue item tracees hget hlive _ _ =>
      exact .inl (@QueuesStay.of_set w _ index queue (queue.insertTail t.pid item) hget rfl rfl rfl
        (Nat.le_succ _))
  | receives hget hlive hreceived =>
      exact .inl (.of_set hget hreceived.address.1 hreceived.address.2 rfl (Nat.le_refl _))
  | @removes id cmd buf index queue tracees hlookup hcmd hwake =>
      exact .inr ⟨id, cmd, buf, index, queue, tracees, rfl, hlookup, hcmd, rfl, hwake, rfl⟩

end Queues

/-! ## The invariant -/

def Tracee.Receiving (t : Tracee) : Prop :=
  t.config.waitReason = .waitQueueRecv ∨ t.config.chainState = .msgrcvRetry

/-- What is known of a tracee that blocked on a queue: either it is to receive from this queue, or
the queue was removed and the tracee is to end with `EIDRM`. -/
def Tracee.Expects (w : World) (t : Tracee) : Prop :=
  ∀ address, t.asked = .queue address →
    (t.Receiving ∧ w.Holds t.config.waitingObjectIndex address ∧ t.config.accepted ∧
      has t.config.msgrcvMsgflg ipcNowait = false) ∨
    (t.config.waitReason = .notWaiting ∧ t.config.chainState = .notChained ∧
      t.config.statusAfterWait = .error .eidrm ∧ address < w.nextAddress ∧ w.Gone address)

structure World.ReceiverInvariant (w : World) : Prop where
  fresh : ∀ index address, w.Holds index address → address < w.nextAddress
  unique : ∀ i j address, w.Holds i address → w.Holds j address → i = j
  expects : ∀ t ∈ w.tracees, t.Expects w

section Invariant

variable {w w' : World} {t t' : Tracee}

theorem QueuesBack.fresh_unique (h : QueuesBack w w') (hw : w.ReceiverInvariant) :
    (∀ index address, w'.Holds index address → address < w'.nextAddress) ∧
      ∀ i j address, w'.Holds i address → w'.Holds j address → i = j := by
  constructor
  · intro index address hholds
    rcases h.back index address hholds with hold | ⟨rfl, hlt, -⟩
    · exact Nat.lt_of_lt_of_le (hw.fresh index address hold) h.nextAddress
    · exact hlt
  · intro i j address hi hj
    rcases h.back i address hi with hold | ⟨-, -, honly⟩
    · rcases h.back j address hj with hold' | ⟨-, -, honly⟩
      · exact hw.unique i j address hold hold'
      · exact honly i hi
    · exact (honly j hj).symm

theorem QueuesBack.gone (h : QueuesBack w w') {address : Nat} (hlt : address < w.nextAddress)
    (hgone : w.Gone address) : address < w'.nextAddress ∧ w'.Gone address := by
  refine ⟨Nat.lt_of_lt_of_le hlt h.nextAddress, fun index hholds => ?_⟩
  rcases h.back index address hholds with hold | ⟨rfl, -⟩
  · exact hgone index hold
  · exact Nat.lt_irrefl _ hlt

theorem Tracee.Expects.stay (ht : t.Expects w) (h : QueuesStay w w') : t.Expects w' := by
  intro address hasked
  rcases ht address hasked with ⟨hreceiving, hholds, hargs⟩ | ⟨hreason, hchain, hstatus, hlt, hgone⟩
  · exact .inl ⟨hreceiving, h.holds _ _ hholds, hargs⟩
  · exact .inr ⟨hreason, hchain, hstatus, h.gone hlt hgone⟩

theorem Tracee.Expects.of_nothing (h : ∀ address, t.asked ≠ .queue address) : t.Expects w :=
  fun address hasked => absurd hasked (h address)

theorem Asked.ne_queue {a : Asked} (h : a.kind ≠ some .queue) (address : Nat) :
    a ≠ .queue address := by
  rintro rfl
  exact h rfl

theorem Tracee.Expects.same (ht : t.Expects w) (hsame : t.SameWait t')
    (hchain : t'.config.chainState = t.config.chainState)
    (hstatus : t'.config.statusAfterWait = t.config.statusAfterWait) : t'.Expects w := by
  intro address hasked
  rw [hsame.asked] at hasked
  have hargs : t.config.accepted → t'.config.accepted := by
    rw [Config.accepted, Config.accepted, hsame.msgrcvMsgsz, hsame.msgrcvMsgflg]
    exact id
  rcases ht address hasked with ⟨hreceiving, hholds, hacc, hnowait⟩ |
    ⟨hreason, hnone, heidrm, hgone⟩
  · left
    rw [Tracee.Receiving, hsame.waitReason, hchain, hsame.waitingObjectIndex, hsame.msgrcvMsgflg]
    exact ⟨hreceiving, hholds, hargs hacc, hnowait⟩
  · right
    rw [hsame.waitReason, hchain, hstatus]
    exact ⟨hreason, hnone, heidrm, hgone⟩

end Invariant

/-! ## The condition -/

def World.RetryWritable (w : World) (m : GuestMemory) (t : Tracee) : Prop :=
  t.config.chainState = .msgrcvRetry → ∀ queue item,
    w.queues[t.config.waitingObjectIndex]? = some queue →
    foundItem t.config queue.items = some item → ¬ t.config.tooSmall item → t.config.writable m item

/-- The condition on a step: a queue is removed only when all receivers that were woken for it have
retried; and a receiver that is woken can be given its message, or its ppoll(2), which gets no
pointer, doesn't fail with `EFAULT`. -/
def Event.SafeReceives (w : World) : Event → Prop
  | .call _ _ _ (.msgctl id cmd _) => ∀ index queue,
      lookupIpcObject w.queues id = some (index, queue) →
      int cmd = ipcRmid ∨ int cmd = ipcRmid ||| ipc64 →
      ∀ t ∈ w.tracees, ¬ t.config.pendsOn index
  | .enterStart pid m => ∀ t, w.tracee? pid = some t → w.RetryWritable m t
  | .exitStart pid m ppollStatus => ∀ t, w.tracee? pid = some t → w.RetryWritable m t ∧
      (t.config.waitReason = .waitQueueRecv → ppollStatus ≠ .efault)
  | _ => True

/-! ## The steps keep it -/

section Steps

variable {m : GuestMemory} {w w' w₁ : World} {t t' t₁ : Tracee} {c : Syscall} {e : Event}
  {status : Status}

theorem Wakes.expects_stay (hwakes : Wakes .queue t t') (ht : t.Expects w)
    (hretry : t'.config.chainState = .msgrcvRetry ∨ t' = t) (h : QueuesStay w w') :
    t'.Expects w' := by
  cases hwakes with
  | same => exact ht.stay h
  | woken hkind hresumes =>
      rcases hretry with hretry | heq
      · intro address hasked
        rcases ht.stay h address hasked with ⟨-, hholds, hacc, hnowait⟩ | ⟨hreason, -⟩
        · exact .inl ⟨.inr hretry, hholds, hacc, hnowait⟩
        · rw [hreason] at hkind
          cases hkind
      · rw [heq]
        exact ht.stay h

theorem wakeFirst_retry {index : Nat} {item : MsgQueueItem} {ts ts' : List Tracee}
    (hphases : ∀ t ∈ ts, t.Phase)
    (h : wakeFirst (Config.receives index item) .msgrcvRetry (.error .eagain) ts = .ok ts') :
    ∀ u ∈ ts', ∃ v ∈ ts, Wakes .queue v u ∧ (u.config.chainState = .msgrcvRetry ∨ u = v) := by
  intro u hu
  rcases @wakeFirst_eq (Config.receives index item) .queue .msgrcvRetry (.error .eagain)
      (fun c => receives_kind) ts hphases with ⟨-, hrun⟩ | ⟨pre, v, post, rfl, -, hv, hrun⟩
  · rw [hrun] at h
    cases h
    exact ⟨u, hu, .same, .inr rfl⟩
  · rw [hrun] at h
    cases h
    rcases List.mem_append.mp hu with hu | hu
    · exact ⟨u, List.mem_append_left _ hu, .same, .inr rfl⟩
    · rcases List.mem_cons.mp hu with rfl | hu
      · exact ⟨v, by simp, .woken (receives_kind hv) .retry, .inl rfl⟩
      · exact ⟨u, by simp [hu], .same, .inr rfl⟩

theorem MsgCall.caller (h : MsgCall m w t c t₁ w₁) (ht : t.Calls) (hsame : t₁.SameWait t')
    (hstay : QueuesStay w w₁) : t'.Expects w₁ := by
  have hnothing : t₁.asked = .nothing → t'.Expects w₁ := by
    intro hasked
    apply Tracee.Expects.of_nothing
    intro address hqueue
    rw [hsame.asked, hasked] at hqueue
    cases hqueue
  cases h with
  | same | makes | pushes | sends | removes => exact hnothing ht.asked
  | @receives id msgp msgsz msgtyp msgflg index queue _ _ _ hget hvalid hreceived =>
      cases hreceived with
      | refused | nomsg | tooBig | fault | copies | takes => exact hnothing ht.asked
      | waits hacc hnone hnowait =>
          intro address hasked
          rw [hsame.asked] at hasked
          cases hasked
          left
          rw [Tracee.Receiving, hsame.waitReason, hsame.waitingObjectIndex, hsame.msgrcvMsgflg]
          refine ⟨.inl rfl, hstay.holds _ _ ⟨queue, hget, hvalid, rfl⟩, ?_, hnowait⟩
          rw [Config.accepted, hsame.msgrcvMsgsz, hsame.msgrcvMsgflg]
          exact hacc

theorem removes_expects {index : Nat} (hw : w.ReceiverInvariant)
    (hphases : ∀ u ∈ w.tracees, u.Phase) (hpends : ∀ u ∈ w.tracees, ¬ u.config.pendsOn index)
    (hback : ∀ i address, w₁.Holds i address ↔ i ≠ index ∧ w.Holds i address)
    (hnext : w₁.nextAddress = w.nextAddress) {u : Tracee} (hu : u ∈ w.tracees) :
    (if u.config.waitsOn .waitQueueRecv index
      then { u with config := u.config.woken u.config.chainState (.error .eidrm) }
      else u : Tracee).Expects w₁ := by
  have hgone : ∀ address, w.Holds index address → w₁.Gone address := by
    intro address hholds i hi
    obtain ⟨hne, hold⟩ := (hback i address).mp hi
    exact hne (hw.unique i index address hold hholds)
  by_cases hwaits : u.config.waitsOn .waitQueueRecv index = true
  · rw [if_pos hwaits]
    obtain ⟨hreason, hindex⟩ := Config.waitsOn_kind hwaits
    have hkind : u.config.waitReason.kind = some .queue := by rw [hreason]; rfl
    have hchain := ((hphases u hu).of_waiting hkind).2.1
    intro address hasked
    rcases hw.expects u hu address hasked with ⟨-, hholds, -⟩ | ⟨hnone, -⟩
    · rw [hindex] at hholds
      refine .inr ⟨rfl, hchain, rfl, ?_, hgone address hholds⟩
      rw [hnext]
      exact hw.fresh index address hholds
    · rw [hreason] at hnone
      cases hnone
  · rw [if_neg hwaits]
    intro address hasked
    rcases hw.expects u hu address hasked with ⟨hreceiving, hholds, hargs⟩ |
      ⟨hreason, hchain, hstatus, hlt, hold⟩
    · refine .inl ⟨hreceiving, (hback _ _).mpr ⟨?_, hholds⟩, hargs⟩
      intro hindex
      rcases hreceiving with hreason | hchain
      · exact hwaits (by simp [Config.waitsOn, hreason, hindex])
      · exact hpends u hu ⟨hchain, hindex⟩
    · refine .inr ⟨hreason, hchain, hstatus, hnext ▸ hlt, fun i hi => ?_⟩
      exact hold i ((hback i address).mp hi).2

theorem MsgCall.receivers (h : MsgCall m w t c t₁ w₁) (hregular : w.Regular)
    (hw : w.ReceiverInvariant) (ht : t.Calls) (hsame : t₁.SameWait t')
    (hsafe : ∀ id cmd buf, c = .msgctl id cmd buf → ∀ index queue,
      lookupIpcObject w.queues id = some (index, queue) →
      int cmd = ipcRmid ∨ int cmd = ipcRmid ||| ipc64 →
      ∀ t ∈ w.tracees, ¬ t.config.pendsOn index) :
    (w₁.setTracee t').ReceiverInvariant := by
  rcases h.stay hw.fresh with hstay | ⟨id, cmd, buf, index, queue, tracees, rfl, hlookup, hcmd, rfl,
    hwake, rfl⟩
  · have hcaller := h.caller ht hsame hstay
    obtain ⟨hfresh, hunique⟩ := hstay.fresh_unique hw
    refine ⟨hfresh, hunique, ?_⟩
    intro u hu
    show u.Expects w₁
    rcases mem_setTracee hu with rfl | ⟨hu, -⟩
    · exact hcaller
    · cases h with
      | same | makes | pushes | receives => exact (hw.expects u hu).stay hstay
      | sends _ _ _ hwake =>
          obtain ⟨v, hv, hwakes, hretry⟩ := wakeFirst_retry hregular.phases hwake u hu
          exact hwakes.expects_stay (hw.expects v hv) hretry hstay
      | removes hlookup =>
          -- the queue doesn't stay
          obtain ⟨hget, hvalid, -⟩ := lookupIpcObject_some hlookup
          obtain ⟨q, hq, hlive, -⟩ := hstay.holds _ _ ⟨_, hget, hvalid, rfl⟩
          have hrmid := hq.symm.trans
            (List.getElem?_set_self (List.getElem?_eq_some_iff.mp hget).1)
          cases hrmid
          cases hlive
  · obtain ⟨hget, hvalid, -⟩ := lookupIpcObject_some hlookup
    have hpends := hsafe id cmd buf rfl index queue hlookup hcmd
    have hback : ∀ i address, World.Holds { w with
        queues := w.queues.set index queue.rmid, tracees } i address ↔
        i ≠ index ∧ w.Holds i address := by
      intro i address
      constructor
      · rintro ⟨q, hq, hlive, rfl⟩
        rcases getElem?_set_cases hq with ⟨-, rfl⟩ | ⟨hne, hq⟩
        · cases hlive
        · exact ⟨hne, q, hq, hlive, rfl⟩
      · rintro ⟨hne, q, hq, hlive, rfl⟩
        exact ⟨q, (List.getElem?_set_ne (Ne.symm hne)).trans hq, hlive, rfl⟩
    refine ⟨?_, ?_, ?_⟩
    · intro i address hi
      exact hw.fresh i address ((hback i address).mp hi).2
    · intro i j address hi hj
      exact hw.unique i j address ((hback i address).mp hi).2 ((hback j address).mp hj).2
    · intro u hu
      rcases mem_setTracee hu with rfl | ⟨hu, -⟩
      · apply Tracee.Expects.of_nothing
        intro address hqueue
        rw [hsame.asked, ht.asked] at hqueue
        cases hqueue
      · rw [wakeEach_eq (.error .eidrm) (fun c => waitsOn_reason_kind rfl) hregular.phases] at hwake
        cases hwake
        obtain ⟨v, hv, rfl⟩ := List.mem_map.mp hu
        exact removes_expects hw hregular.phases hpends hback rfl hv

theorem Resumed.stay (h : Resumed m w t status w₁) : QueuesStay w w₁ ∧ w₁.tracees = w.tracees := by
  cases h with
  | done | spurious => exact ⟨.of_queues rfl (Nat.le_refl _), rfl⟩
  | receives _ hget _ hreceived =>
      exact ⟨.of_set hget hreceived.address.1 hreceived.address.2 rfl (Nat.le_refl _), rfl⟩

theorem setTracee_receivers (hw : w.ReceiverInvariant) (hstay : QueuesStay w w₁)
    (htracees : w₁.tracees = w.tracees) (ht' : t'.Expects w₁) :
    (w₁.setTracee t').ReceiverInvariant := by
  obtain ⟨hfresh, hunique⟩ := hstay.fresh_unique hw
  refine ⟨hfresh, hunique, ?_⟩
  intro u hu
  show u.Expects w₁
  rcases mem_setTracee hu with rfl | ⟨hu, -⟩
  · exact ht'
  · exact (hw.expects u (htracees ▸ hu)).stay hstay

theorem Tracee.finish_expects (t : Tracee) (status : Status) : (t.finish status).Expects w :=
  .of_nothing nofun

/-- **Every step that meets the condition** keeps what is known of the receivers. -/
theorem step_receivers (hregular : w.Regular) (hw : w.ReceiverInvariant)
    (hsafe : e.SafeReceives w) (h : step (.ok w) e = some (.ok w')) : w'.ReceiverInvariant := by
  rcases step_cases h with ⟨rfl, helper, -, rfl⟩ | ⟨t, ht, hpid, henabled, hrun⟩
  · exact ⟨hw.fresh, hw.unique, hw.expects⟩
  by_cases hkind : e.kind = .queue
  · cases e with
    | call pid m fromSigsys c =>
        cases hpid
        simp only [Event.enabled, Bool.and_eq_true] at henabled
        obtain ⟨status, t₁, w₁, t', hhandle, -, hsame, rfl, -⟩ :=
          call_turn hregular ht henabled.1 hrun
        obtain ⟨hreason, hstate, hchain, -⟩ := (hregular.phases t ht).of_idle henabled.1
        refine (handle_msgCall hkind hhandle).receivers hregular hw ⟨hreason, hstate, hchain, rfl⟩
          hsame ?_
        rintro id cmd buf rfl
        exact hsafe
    | enterStart pid m =>
        rcases enterStart_resumed hrun with ⟨-, rfl⟩ | ⟨status, t₁, w₁, hstate, hresume, rfl⟩
        · refine setTracee_receivers hw (.of_queues rfl (Nat.le_refl _)) rfl ?_
          exact (hw.expects t ht).same ⟨rfl, rfl, rfl, rfl, rfl, rfl, rfl, rfl⟩ rfl rfl
        · have hreason := (hregular.phases t ht).of_canceled hstate
          obtain ⟨hstay, htracees⟩ := (resume_resumed hreason
            (fun hchain => ((hregular.phases t ht).pending hchain).2.2.1) hresume).stay
          exact setTracee_receivers hw hstay htracees (t₁.finish_expects status)
    | exitStart pid m ppollStatus =>
        rcases exitStart_resumed hrun with ⟨-, rfl⟩ | ⟨-, rfl⟩ |
          ⟨status, t₁, w₁, hreason, hresume, rfl⟩
        · exact setTracee_receivers hw (.of_queues rfl (Nat.le_refl _)) rfl
            (Tracee.finish_expects _ _)
        · exact hw
        · obtain ⟨hstay, htracees⟩ := (resume_resumed hreason
            (fun hchain => ((hregular.phases t ht).pending hchain).2.2.1) hresume).stay
          exact setTracee_receivers hw hstay htracees (t₁.finish_expects status)
    | _ => cases hkind
  · obtain ⟨hqueues, hnext⟩ := run_queues hregular ht henabled hkind hrun
    have hstay : QueuesStay w w' := .of_queues hqueues hnext
    obtain ⟨hfresh, hunique⟩ := hstay.fresh_unique hw
    refine ⟨hfresh, hunique, ?_⟩
    intro u hu
    by_cases hprocess : e.isProcess = true
    · cases e with
      | clone pid child thread vm =>
          cases hrun
          obtain ⟨v, hv, -, htracees, -⟩ := clone_spec w t child thread vm
          rw [htracees] at hu
          rcases List.mem_cons.mp hu with rfl | hu
          · apply Tracee.Expects.of_nothing
            intro address hqueue
            rw [hv.asked] at hqueue
            cases hqueue
          · exact (hw.expects u hu).stay hstay
      | execve pid success =>
          rw [(execve_only hrun).tracees] at hu
          exact (hw.expects u hu).stay hstay
      | death pid =>
          rw [(death_only hrun).tracees] at hu
          exact (hw.expects u (List.mem_of_mem_filter hu)).stay hstay
      | _ => cases hprocess
    · obtain ⟨t', hturn⟩ := run_turn hregular ht henabled (by simpa using hprocess) hrun
      by_cases hasked : u.asked.kind = some .queue
      · -- a tracee that asked for a queue is left alone
        have hfilter := hturn.tracees.filter_eq (hregular.setTracee hturn.phase).phases
          (Ne.symm hkind)
        have hmem : u ∈ (w.setTracee t').tracees := by
          refine List.mem_of_mem_filter (p := (·.asked.kind = some .queue)) ?_
          rw [← hfilter]
          exact List.mem_filter.mpr ⟨hu, by simpa using hasked⟩
        rcases mem_setTracee hmem with rfl | ⟨hold, -⟩
        · exact absurd (hturn.asked hkind _ hasked) (Ne.symm hkind)
        · exact (hw.expects u hold).stay hstay
      · exact .of_nothing (Asked.ne_queue hasked)

end Steps

/-! ## How receivers end -/

/-- How the call of a tracee that blocked on the queue of some address may end: with a message that
was sent to this queue, with an error, or with `EIDRM` once the queue was removed. -/
inductive ReceiverOutcome (w w' : World) (t : Tracee) (address : Nat) : Status → Prop
  | message {index : Nat} {queue queue' : MsgQueue} {receipt : Receipt} :
      w.queues[index]? = some queue → queue.valid = true →
      queue.address = address → w'.queues[index]? = some queue' →
      queue'.receipts = queue.receipts ++ [receipt] → receipt.pid = t.pid →
      receipt.item ∈ queue.accepted →
      ReceiverOutcome w w' t address (.ok (t.config.sizeOf receipt.item))
  | nomsg : ReceiverOutcome w w' t address (.error .enomsg)
  | tooBig : ReceiverOutcome w w' t address (.error .e2big)
  | interrupted : ReceiverOutcome w w' t address (.error .eintr)
  | removed : w.Gone address → ReceiverOutcome w w' t address (.error .eidrm)

section Outcome

variable {m : GuestMemory} {w w' w₁ : World} {t t' t₁ : Tracee} {e : Event} {status : Status}
  {address : Nat}

theorem Resumed.outcome (h : Resumed m w t status w₁) (ht : t.Expects w)
    (hasked : t.asked = .queue address) (hreason : t.config.waitReason = .notWaiting)
    (hconserves : ∀ (index : Nat) (queue : MsgQueue), w.queues[index]? = some queue →
      queue.valid = true → queue.Conserves w.nextAddress)
    (hwritable : w.RetryWritable m t) : ReceiverOutcome w w₁ t address status := by
  cases h with
  | done hchain =>
      rcases ht address hasked with ⟨hreceiving, -⟩ | ⟨-, -, hstatus, -, hgone⟩
      · rcases hreceiving with hwaits | hretry
        · rw [hreason] at hwaits
          cases hwaits
        · exact absurd hretry hchain
      · rw [hstatus]
        exact .removed hgone
  | spurious => exact .interrupted
  | @receives queue _ _ queue' hchain hget hvalid hreceived hdone =>
      rcases ht address hasked with ⟨-, hholds, hacc, hnowait⟩ | ⟨-, hnone, -⟩
      swap
      · rw [hchain] at hnone
        cases hnone
      obtain ⟨old, hold, -, rfl⟩ := hholds
      rw [hget] at hold
      cases hold
      cases hreceived with
      | refused hrefused => exact absurd hacc hrefused
      | nomsg => exact .nomsg
      | waits => cases hdone
      | tooBig => exact .tooBig
      | fault _ hsome hsmall hnot => exact absurd (hwritable hchain queue _ hget hsome hsmall) hnot
      | copies _ _ _ _ hcopy =>
          rw [(hacc.2.2 hcopy).1] at hnowait
          cases hnowait
      | @takes item _ hfind =>
          have hitem : item ∈ queue.accepted :=
            (hconserves _ queue hget hvalid).mailbox.perm.mem_iff.mpr
              (List.mem_append_right _ (List.mem_of_find?_eq_some hfind))
          exact @ReceiverOutcome.message w _ t _ _ queue _
            ⟨t.pid, t.config.msgrcvMsgtyp, t.config.msgrcvMsgflg, item⟩ hget hvalid rfl
            (List.getElem?_set_self (List.getElem?_eq_some_iff.mp hget).1) rfl rfl hitem

theorem Turn.other_asked {kind : Kind} (h : Turn kind w t t' w') (hregular : w.Regular)
    {u v : Tracee} (hu : u ∈ w.tracees) (hv : v ∈ w'.tracees) (hpid : v.pid = u.pid)
    (hne : u.pid ≠ t.pid) : v.asked = u.asked := by
  obtain ⟨x, hx, hwakes⟩ := h.tracees.mem hv
  rcases mem_setTracee hx with rfl | ⟨hx, -⟩
  · exact absurd (hpid.symm.trans (hwakes.pid.trans h.pid)) hne
  · rw [hwakes.asked, hregular.pid_injective hx hu (hwakes.pid.symm.trans hpid)]

theorem setTracee_self {v : Tracee} (hv : v ∈ (w₁.setTracee t').tracees)
    (hpid : v.pid = t'.pid) : v = t' := by
  rcases mem_setTracee hv with rfl | ⟨-, hne⟩
  · rfl
  · exact absurd hpid hne

/-- **How receivers end**, in a step that meets the condition: the call of a receiver goes on, or it
ends with one of the outcomes. -/
theorem step_outcome (hregular : w.Regular) (hw : w.ReceiverInvariant)
    (hconserves : ∀ (index : Nat) (queue : MsgQueue), w.queues[index]? = some queue →
      queue.valid = true → queue.Conserves w.nextAddress)
    (hsafe : e.SafeReceives w) (h : step (.ok w) e = some (.ok w')) (ht : t ∈ w.tracees)
    (hasked : t.asked = .queue address) (ht' : t' ∈ w'.tracees) (hpid : t'.pid = t.pid) :
    t'.asked = .queue address ∨
      t'.asked = .nothing ∧ ReceiverOutcome w w' t address t'.result := by
  have hphase := hregular.phases t ht
  have hkinds : t.asked.kind = some .queue := by rw [hasked]; rfl
  rcases step_cases h with ⟨rfl, helper, -, rfl⟩ | ⟨u, hu, hpid_u, henabled, hrun⟩
  · left
    rw [hregular.pid_injective ht' ht hpid, hasked]
  by_cases hprocess : e.isProcess = true
  · left
    cases e with
    | clone pid child thread vm =>
        cases hrun
        obtain ⟨v, -, hv, htracees, -⟩ := clone_spec w u child thread vm
        rw [htracees] at ht'
        rcases List.mem_cons.mp ht' with rfl | ht'
        · simp only [Event.enabled, Bool.and_eq_true, Option.isNone_iff_eq_none] at henabled
          rw [← hv, hpid, hregular.tracee?_eq ht] at henabled
          cases henabled.1
        · rw [hregular.pid_injective ht' ht hpid, hasked]
    | execve pid success =>
        rw [(execve_only hrun).tracees] at ht'
        rw [hregular.pid_injective ht' ht hpid, hasked]
    | death pid =>
        rw [(death_only hrun).tracees] at ht'
        rw [hregular.pid_injective (List.mem_of_mem_filter ht') ht hpid, hasked]
    | _ => cases hprocess
  have hprocess : e.isProcess = false := by simpa using hprocess
  obtain ⟨u', hturn⟩ := run_turn hregular hu henabled hprocess hrun
  by_cases hne : t.pid = u.pid
  swap
  · left
    rw [hturn.other_asked hregular ht ht' hpid hne, hasked]
  cases hregular.pid_injective ht hu hne
  -- only a stop of its ppoll(2) is about a tracee that blocked
  obtain ⟨hidle, hchain⟩ := hphase.of_asked_queue hkinds
  have hblocked : t.config.chainState.attaches = false := by
    rcases hchain with h | h <;> rw [h] <;> rfl
  have hresume : ∀ m status t₁ w₁, t.config.waitReason = .notWaiting → w.RetryWritable m t →
      resume m w t = .ok (status, t₁, w₁) → w' = w₁.setTracee (t₁.finish status) →
      t'.asked = .nothing ∧ ReceiverOutcome w w' t address t'.result := by
    rintro m status t₁ w₁ hreason hwritable hresume rfl
    have hresumed := resume_resumed hreason (fun hchain => (hphase.pending hchain).2.2.1) hresume
    obtain ⟨-, hpid₁, -⟩ := resume_spec hreason hchain hresume
    rw [setTracee_self ht' (hpid.trans hpid₁.symm)]
    refine ⟨rfl, ?_⟩
    cases hresumed.outcome (hw.expects t ht) hasked hreason hconserves hwritable with
    | message hget hvalid haddress hget' hreceipts hpid hitem =>
        exact .message hget hvalid haddress hget' hreceipts hpid hitem
    | nomsg => exact .nomsg
    | tooBig => exact .tooBig
    | interrupted => exact .interrupted
    | removed hgone => exact .removed hgone
  cases e with
  | call pid m fromSigsys c =>
      simp only [Event.enabled, Bool.and_eq_true] at henabled
      rw [hidle] at henabled
      cases henabled.1
  | enterStart pid m =>
      cases hpid_u
      have hwritable := hsafe t (hregular.tracee?_eq ht)
      rcases enterStart_resumed hrun with ⟨-, rfl⟩ | ⟨status, t₁, w₁, hstate, hrun, hw'⟩
      · left
        rw [setTracee_self ht' hpid]
        exact hasked
      · right
        exact hresume m status t₁ w₁ (hphase.of_canceled hstate) hwritable hrun hw'
  | exitStart pid m ppollStatus =>
      cases hpid_u
      obtain ⟨hwritable, hppoll⟩ := hsafe t (hregular.tracee?_eq ht)
      rcases exitStart_resumed hrun with ⟨hstate, rfl⟩ | ⟨-, rfl⟩ |
        ⟨status, t₁, w₁, hreason, hrun, hw'⟩
      · right
        rw [setTracee_self ht' hpid]
        refine ⟨rfl, ?_⟩
        have hwaits : t.config.waitReason = .waitQueueRecv := by
          obtain ⟨-, _, hreason, hkind⟩ := hphase.of_blocked (.inl hstate)
          rw [hkinds] at hkind
          cases hkind
          generalize t.config.waitReason = reason at *
          cases reason with
          | waitQueueRecv => rfl
          | _ => cases hreason
        show ReceiverOutcome _ _ _ _
          (.error (if ppollStatus = Errno.efault then Errno.efault else Errno.eintr))
        rw [if_neg (hppoll hwaits)]
        exact .interrupted
      · left
        rw [hregular.pid_injective ht' ht hpid, hasked]
      · exact .inr (hresume m status t₁ w₁ hreason hwritable hrun hw')
  | chainedEnter | chainedExit | socketDone =>
      have hsocket : t.config.chainState = .shmatSocket :=
        (Config.stopped_iff.mp henabled).1.mpr rfl
      rw [hsocket] at hblocked
      cases hblocked
  | connect | connectDone | recvmsgDone | mmapDone =>
      simp only [Event.enabled, Bool.and_eq_true, decide_eq_true_eq] at henabled
      rw [henabled.1] at hblocked
      cases hblocked
  | helper => cases henabled
  | clone | execve | death => cases hprocess

end Outcome

/-! ## Runs -/

section Runs

variable {w : World} {e : Event}

theorem step_error {a : Assertion} (h : step (.ok w) e = some (.error a)) :
    ∃ t ∈ w.tracees, e.run w t = .error a := by
  have he : e ≠ .helper := by
    rintro rfl
    obtain ⟨helper, -, hhelper⟩ := Option.map_eq_some_iff.mp h
    cases hhelper
  rw [step_tracee he] at h
  obtain ⟨t, hfind, h⟩ := Option.bind_eq_some_iff.mp h
  split at h
  · obtain ⟨pid, -, hfind⟩ := Option.bind_eq_some_iff.mp hfind
    exact ⟨t, (tracee?_mem hfind).1, Option.some.inj h⟩
  · cases h

def SafeReceives : Session → Event → Prop
  | .ok w, e => e.SafeReceives w
  | .error _, _ => True

theorem reach_receiverInvariant (h : system.Reach SafeReceives (.ok w)) : w.ReceiverInvariant := by
  apply reach_world _ _ h
  · intro pid
    have hnone : ∀ index address, ¬ (World.initial pid).Holds index address := by
      rintro index address ⟨queue, hget, -⟩
      simp [World.initial] at hget
    refine ⟨fun i a hi => absurd hi (hnone i a), fun i _ a hi => absurd hi (hnone i a), ?_⟩
    intro t ht
    cases List.mem_singleton.mp ht
    exact .of_nothing (by rintro _ ⟨⟩)
  · intro w e w' hregular hw hsafe hstep
    exact step_receivers hregular hw hsafe hstep

/-- **Receivers are safe** in the runs whose steps meet the condition: no assertion on a queue
fails, whatever comes next, and a receiver that blocked on a queue ends with a message that was sent
to this very queue, with `ENOMSG`, `E2BIG` or `EINTR`, or with `EIDRM` once the queue was removed.
-/
theorem receivers_safe (w : World) (e : Event) (h : system.Reach SafeReceives (.ok w)) :
    (∀ a, step (.ok w) e = some (.error a) → a.onQueue = false) ∧
    ∀ w' t t' address, e.SafeReceives w → step (.ok w) e = some (.ok w') → t ∈ w.tracees →
      t.asked = .queue address → t' ∈ w'.tracees → t'.pid = t.pid →
      t'.asked = .queue address ∨
        t'.asked = .nothing ∧ ReceiverOutcome w w' t address t'.result := by
  constructor
  · intro a hstep
    obtain ⟨t, ht, hrun⟩ := step_error hstep
    by_contra ha
    obtain ⟨hchain, hinvalid⟩ := run_abort hrun (by simpa using ha)
    have hw := reach_receiverInvariant h
    have hkind := (((reach_regular h).phases t ht).pending hchain).2.2.2
    cases hasked : t.asked with
    | queue address =>
        rcases hw.expects t ht address hasked with ⟨-, ⟨queue, hget, hlive, -⟩, -⟩ | ⟨-, hnone, -⟩
        · rw [hinvalid queue hget] at hlive
          cases hlive
        · rw [hchain] at hnone
          cases hnone
    | nothing | semaphore | segment =>
        rw [hasked] at hkind
        cases hkind
  · intro w' t t' address hsafe hstep ht hasked ht' hpid
    exact step_outcome (reach_regular h) (reach_receiverInvariant h) (reach_conserves h) hsafe hstep
      ht hasked ht' hpid

def wokenRun : List Event := [
  .call 1 .message true (.msgget 0 (ipcCreat.setWidth 64)),
  .clone 1 2 false false,
  .call 2 .message false (.msgrcv 1 0 8 0 0),
  .call 1 .message true (.msgsnd 1 0 1)]

/-- **An assertion that fails**: the queue is removed before the tracee 2 retries. -/
theorem receivers_not_safe :
    ¬ ∀ w e a, system.Reach Lib.System.Always (.ok w) → step (.ok w) e = some (.error a) →
      a.onQueue = false := by
  intro h
  have hrun : ∃ w, system.exec (.ok (.initial 1))
      (wokenRun ++ [.call 1 .message true (.msgctl 1 0 0)]) = some (.ok w) ∧
      step (.ok w) (.exitStart 2 .message .eintr) = some (.error .queueValid) := ⟨_, rfl, rfl⟩
  obtain ⟨w, hexec, hstep⟩ := hrun
  exact Bool.noConfusion (h w _ _ (.exec (.start ⟨1, rfl⟩) hexec) hstep)

/-- The tracee 2 retries, and ends with the message. -/
theorem receivers_safe_retry :
    ∃ w w' t t', system.Reach SafeReceives (.ok w) ∧
      step (.ok w) (.exitStart 2 .message .eintr) = some (.ok w') ∧ t ∈ w.tracees ∧
      t' ∈ w'.tracees ∧ (∀ e a, step (.ok w) e = some (.error a) → a.onQueue = false) ∧
      ReceiverOutcome w w' t 2 t'.result := by
  have hrun : ∃ w w', system.exec (.ok (.initial 1)) wokenRun = some (.ok w) ∧
      step (.ok w) (.exitStart 2 .message .eintr) = some (.ok w') ∧
      (Event.exitStart 2 .message .eintr).SafeReceives w ∧
      ∃ t ∈ w.tracees, t.asked = .queue 2 ∧ ∃ t' ∈ w'.tracees, t'.pid = t.pid ∧
        t'.asked ≠ .queue 2 := by
    refine ⟨_, _, rfl, rfl, ?_, _, List.mem_cons_self, rfl, _, List.mem_cons_self, rfl, nofun⟩
    intro t ht
    cases ht
    exact ⟨fun _ _ _ _ _ _ => ⟨rfl, rfl⟩, nofun⟩
  obtain ⟨w, w', hexec, hstep, hsafe, t, ht, hasked, t', ht', hpid, hended⟩ := hrun
  have hok : ∀ e ∈ wokenRun, ∀ s, SafeReceives s e := by
    intro e he s
    cases s with
    | error a => trivial
    | ok v =>
        simp only [wokenRun, List.mem_cons, List.not_mem_nil, or_false] at he
        rcases he with rfl | rfl | rfl | rfl <;> trivial
  have hinitial : system.Reach SafeReceives (.ok (.initial 1)) := .start ⟨1, rfl⟩
  have hreach : system.Reach SafeReceives (.ok w) := hinitial.exec_of hok hexec
  have houtcome := (receivers_safe w _ hreach).2 w' t t' 2 hsafe hstep ht hasked ht' hpid
  exact ⟨w, w', t, t', hreach, hstep, ht, ht', fun e => (receivers_safe w e hreach).1,
    (houtcome.resolve_left hended).2⟩

end Runs

end Improot.SysVIpc
