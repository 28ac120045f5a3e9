import Improot.SysVIpc.MsgCall

/-!
# Messages are conserved

A queue loses no message and delivers none twice, in the order of each selector.  A receiver can
stay blocked while there is a message for it: msgsnd(2) wakes one receiver for each message, and
when this one fails, dies, or finds another message, nobody wakes the next one.
-/

namespace Improot.SysVIpc

/-! ## Blocked receivers -/

/-- A receiver is blocked on the queue of a slot, although it has a message that matches. -/
def World.Blocked (w : World) (index : Nat) (item : MsgQueueItem) : Prop :=
  ∃ queue, w.queues[index]? = some queue ∧ queue.valid = true ∧ item ∈ queue.items ∧
    ∃ t ∈ w.tracees, t.config.waitsOn .waitQueueRecv index = true ∧ t.config.selects item = true

def Config.pendsOn (c : Config) (index : Nat) : Prop :=
  c.chainState = .msgrcvRetry ∧ c.waitingObjectIndex = index

def World.Pending (w : World) (index : Nat) : Prop := ∃ t ∈ w.tracees, t.config.pendsOn index

/-- No receiver is blocked that could receive, unless a wake-up is pending. -/
def World.ReceiversServed (w : World) : Prop := ∀ index item, w.Blocked index item → w.Pending index

/-- What the messages and the receivers are worth in every state of a run. -/
structure World.MsgInvariant (w : World) : Prop where
  conserves : ∀ (index : Nat) (queue : MsgQueue), w.queues[index]? = some queue → queue.valid = true →
    queue.Conserves w.nextAddress
  served : w.ReceiversServed

/-! ## The condition -/

def Config.takes (m : GuestMemory) (c : Config) (items : List MsgQueueItem)
    (item : MsgQueueItem) : Prop :=
  c.accepted ∧ items.find? c.selects = some item ∧ ¬ c.tooSmall item ∧ c.writable m item ∧
    has c.msgrcvMsgflg msgCopy = false

/-- When a receiver that was woken takes at most one message, another wake-up is pending or the
messages that it leaves match no blocked receiver. -/
def World.LeavesNone (w : World) (t : Tracee)
    (takes : List MsgQueueItem → MsgQueueItem → Prop) : Prop :=
  ∀ queue, w.queues[t.config.waitingObjectIndex]? = some queue → queue.valid = true →
    (∃ u ∈ w.tracees, u.pid ≠ t.pid ∧ u.config.pendsOn t.config.waitingObjectIndex) ∨
      ∀ item, w.Blocked t.config.waitingObjectIndex item → takes queue.items item

/-- The condition on a step: a receiver that was woken leaves nothing for a blocked one when it
retries, or when it dies. -/
def Event.LeavesNone (w : World) : Event → Prop
  | .enterStart pid m => ∀ t, w.tracee? pid = some t → t.config.chainState = .msgrcvRetry →
      w.LeavesNone t (t.config.takes m)
  | .exitStart pid m _ => ∀ t, w.tracee? pid = some t → t.config.chainState = .msgrcvRetry →
      w.LeavesNone t (t.config.takes m)
  | .death pid => ∀ t, w.tracee? pid = some t → t.config.chainState = .msgrcvRetry →
      w.LeavesNone t fun _ _ => False
  | _ => True

/-! ## Tracees that keep waiting, and wake-ups that stay pending -/

section Frame

variable {w w' : World} {t t' : Tracee}

theorem WakesAll.not_waiting {kind : Kind} {ts ts' : List Tracee} (h : WakesAll kind ts ts')
    {u : Tracee} (hu : u ∈ ts) (hreason : u.config.waitReason = .notWaiting) : u ∈ ts' := by
  induction h with
  | nil => cases hu
  | cons hwakes _ ih =>
      rcases List.mem_cons.mp hu with rfl | hu
      · cases hwakes with
        | same => exact List.mem_cons_self
        | woken hkind =>
            rw [hreason] at hkind
            cases hkind
      · exact List.mem_cons_of_mem _ (ih hu)

theorem Tracee.Phase.pending (h : t.Phase) (hchain : t.config.chainState = .msgrcvRetry) :
    t.config.waitReason = .notWaiting ∧
      (t.config.waitState = .signaledPpoll ∨ t.config.waitState = .restartedIntoPpollCanceled) ∧
      t.config.statusAfterWait = .error .eagain ∧ t.asked.kind = some .queue := by
  cases h with
  | idle _ _ h | answering _ _ h | waiting _ _ h =>
      rw [hchain] at h
      cases h
  | attaching _ _ h =>
      rw [hchain] at h
      cases h
  | woken hreason hstate hresumes hasked =>
      rw [hchain] at hresumes
      generalize t.config.statusAfterWait = status at *
      cases hresumes
      exact ⟨hreason, hstate, rfl, hasked⟩

theorem Turn.pending {kind : Kind} (h : Turn kind w t t' w') (hw : w.Regular) {index : Nat}
    {u : Tracee} (hu : u ∈ w.tracees) (hpends : u.config.pendsOn index) (hne : u.pid ≠ t.pid) :
    u ∈ w'.tracees := by
  obtain ⟨hreason, -⟩ := (hw.phases u hu).pending hpends.1
  exact h.tracees.not_waiting (setTracee_mem_of_ne hu (h.pid ▸ hne)) hreason

/-- A step after which no message is more, no receiver is blocked that wasn't, and all wake-ups are
still pending. -/
theorem World.ReceiversServed.frame (hw : w.ReceiversServed)
    (hblocked : ∀ index item, w'.Blocked index item → w.Blocked index item)
    (hpending : ∀ index, w.Pending index → w'.Pending index) : w'.ReceiversServed :=
  fun index item h => hpending index (hw index item (hblocked index item h))

theorem Turn.served {kind : Kind} (h : Turn kind w t t' w') (hw : w.Regular) (ht : t ∈ w.tracees)
    (hkind : kind ≠ .queue) (hchain : t.config.chainState ≠ .msgrcvRetry)
    (hserved : w.ReceiversServed) : w'.ReceiversServed := by
  refine hserved.frame ?_ ?_
  · rintro index item ⟨queue, hget, hvalid, hitem, u, hu, hwaits, hselects⟩
    obtain ⟨hreason, hindex⟩ := Config.waitsOn_kind hwaits
    have hkinds : u.config.waitReason.kind = some .queue := by rw [hreason]; rfl
    obtain ⟨v, hv, hsame⟩ := (h.waiting_before ht hu hkinds).resolve_right fun h => hkind h.symm
    refine ⟨queue, h.queues hkind ▸ hget, hvalid, hitem, v, hv, ?_, ?_⟩
    · simp [Config.waitsOn, ← hsame.waitReason, ← hsame.waitingObjectIndex, hreason, hindex]
    · rw [Config.selects, hsame.msgrcvMsgtyp, hsame.msgrcvMsgflg] at hselects
      exact hselects
  · rintro index ⟨u, hu, hpends⟩
    have hne : u.pid ≠ t.pid := by
      intro hpid
      rw [hw.pid_injective hu ht hpid] at hpends
      exact hchain hpends.1
    exact ⟨u, h.pending hw hu hpends hne, hpends⟩

end Frame

/-! ## System calls -/

section Calls

variable {m : GuestMemory} {w w₁ : World} {t t₁ t' : Tracee} {c : Syscall}

theorem getElem?_set_cases {α : Type} {l : List α} {i j : Nat} {a b : α}
    (h : (l.set i a)[j]? = some b) : (j = i ∧ b = a) ∨ (j ≠ i ∧ l[j]? = some b) := by
  by_cases hij : i = j
  · subst hij
    rw [List.getElem?_set_self'] at h
    obtain ⟨_, -, rfl⟩ := Option.map_eq_some_iff.mp h
    exact .inl ⟨rfl, rfl⟩
  · rw [List.getElem?_set_ne hij] at h
    exact .inr ⟨Ne.symm hij, h⟩

theorem getElem?_push_cases {α : Type} {l : List α} {j : Nat} {a b : α}
    (h : (l ++ [a])[j]? = some b) : b = a ∨ l[j]? = some b := by
  by_cases hj : j < l.length
  · rw [List.getElem?_append_left hj] at h
    exact .inr h
  · rw [List.getElem?_append_right (by omega), List.getElem?_singleton] at h
    split at h
    · exact .inl (Option.some.inj h).symm
    · cases h

theorem MsgCall.conserves (h : MsgCall m w t c t₁ w₁)
    (hw : ∀ (index : Nat) (queue : MsgQueue), w.queues[index]? = some queue → queue.valid = true →
      queue.Conserves w.nextAddress) :
    ∀ (index : Nat) (queue : MsgQueue), w₁.queues[index]? = some queue → queue.valid = true →
      queue.Conserves w₁.nextAddress := by
  intro index queue hget hvalid
  cases h with
  | same => exact hw index queue hget hvalid
  | makes =>
      rcases getElem?_set_cases hget with ⟨-, rfl⟩ | ⟨-, hget⟩
      · exact MsgQueue.create_conserves _ _ _ _
      · exact (hw index queue hget hvalid).mono (Nat.le_succ _)
  | pushes =>
      rcases getElem?_push_cases hget with rfl | hget
      · exact MsgQueue.create_conserves _ _ _ _
      · exact (hw index queue hget hvalid).mono (Nat.le_succ _)
  | sends hold hlive hfresh =>
      rcases getElem?_set_cases hget with ⟨-, rfl⟩ | ⟨-, hget⟩
      · exact (hw _ _ hold hlive).insertTail hfresh
      · exact (hw index queue hget hvalid).mono (Nat.le_succ _)
  | receives hold hlive hreceived =>
      rcases getElem?_set_cases hget with ⟨-, rfl⟩ | ⟨-, hget⟩
      · exact hreceived.conserves (hw _ _ hold hlive)
      · exact hw index queue hget hvalid
  | removes =>
      rcases getElem?_set_cases hget with ⟨-, rfl⟩ | ⟨-, hget⟩
      · cases hvalid
      · exact hw index queue hget hvalid

theorem Received.items_subset {status : Status} {index : Nat} {queue queue' : MsgQueue}
    (h : Received m t index queue status t' queue') : ∀ item ∈ queue'.items, item ∈ queue.items := by
  intro item hitem
  cases h with
  | refused | nomsg | waits | tooBig | fault | copies => exact hitem
  | takes => exact List.mem_of_mem_erase hitem

theorem Received.waits_none {status : Status} {index : Nat} {queue queue' : MsgQueue}
    (h : Received m t index queue status t' queue') (hreason : t.config.waitReason = .notWaiting)
    (hwaits : t'.config.waitReason = .waitQueueRecv) :
    t'.config.waitingObjectIndex = index ∧ queue' = queue ∧
      ∀ item ∈ queue.items, t'.config.selects item = false := by
  cases h with
  | refused | nomsg | tooBig | fault | copies | takes =>
      rw [hreason] at hwaits
      cases hwaits
  | waits hacc hnone hnowait =>
      refine ⟨rfl, rfl, ?_⟩
      intro item hitem
      have hcopy : ¬ has t.config.msgrcvMsgflg msgCopy = true := by
        intro hcopy
        rw [(hacc.2.2 hcopy).1] at hnowait
        cases hnowait
      rw [foundItem, if_neg hcopy, List.find?_eq_none] at hnone
      have hfalse : t.config.selects item = false := by simpa using hnone item hitem
      exact hfalse

/-- A call leaves no receiver blocked that could receive. -/
theorem MsgCall.served (h : MsgCall m w t c t₁ w₁) (hw : w.Regular) (ht : t.Calls)
    (hself : ∀ u ∈ w.tracees, u.pid = t.pid → u.config = t.config)
    (hhandled : Handled .queue w t t₁ w₁) (hsame : t₁.SameWait t') (hpid : t'.pid = t.pid)
    (hserved : w.ReceiversServed) : (w₁.setTracee t').ReceiversServed := by
  -- the wake-ups that are pending are those of other tracees
  have hpending : ∀ index, w.Pending index → (w₁.setTracee t').Pending index := by
    rintro index ⟨u, hu, hpends⟩
    have hne : u.pid ≠ t'.pid := by
      intro heq
      rw [hself u hu (heq.trans hpid)] at hpends
      have hnone := hpends.1.symm.trans ht.chainState
      cases hnone
    have hreason := ((hw.phases u hu).pending hpends.1).1
    exact ⟨u, setTracee_mem_of_ne (hhandled.tracees.not_waiting hu hreason) hne, hpends⟩
  -- who is blocked after the call is the caller or was blocked before
  have hwaiting : ∀ u ∈ (w₁.setTracee t').tracees, ∀ index,
      u.config.waitsOn .waitQueueRecv index = true →
      u = t' ∨ u ∈ w.tracees ∧ u ∈ w₁.tracees := by
    intro u hu index hwaits
    have hreason := (Config.waitsOn_kind hwaits).1
    rcases mem_setTracee hu with rfl | ⟨hu, -⟩
    · exact .inl rfl
    · exact .inr ⟨hhandled.tracees.waiting hu (by simp [hreason]), hu⟩
  have hcaller : t₁.config.waitReason = .notWaiting → ∀ index,
      t'.config.waitsOn .waitQueueRecv index = false := by
    intro hreason index
    simp [Config.waitsOn, hsame.waitReason, hreason]
  rintro index item ⟨queue, hget, hvalid, hitem, u, hu, hwaits, hselects⟩
  have hblocked : (∃ queue : MsgQueue, w.queues[index]? = some queue ∧ queue.valid = true ∧
      item ∈ queue.items) → u ≠ t' → (w₁.setTracee t').Pending index := by
    rintro ⟨old, hold, hlive, hmem⟩ hne
    have hu := ((hwaiting u hu index hwaits).resolve_left hne).1
    exact hpending index (hserved index item ⟨old, hold, hlive, hmem, u, hu, hwaits, hselects⟩)
  have hother : t₁.config.waitReason = .notWaiting → u ≠ t' := by
    rintro hreason rfl
    rw [hcaller hreason index] at hwaits
    cases hwaits
  cases h with
  | same => exact hblocked ⟨queue, hget, hvalid, hitem⟩ (hother ht.waitReason)
  | makes =>
      rcases getElem?_set_cases hget with ⟨-, rfl⟩ | ⟨-, hget⟩
      · cases hitem
      · exact hblocked ⟨queue, hget, hvalid, hitem⟩ (hother ht.waitReason)
  | pushes =>
      rcases getElem?_push_cases hget with rfl | hget
      · cases hitem
      · exact hblocked ⟨queue, hget, hvalid, hitem⟩ (hother ht.waitReason)
  | @sends _ i old new tracees hold hlive hfresh hwake =>
      rcases getElem?_set_cases hget with ⟨rfl, rfl⟩ | ⟨-, hget⟩
      · rcases List.mem_append.mp hitem with hmem | hmem
        · exact hblocked ⟨old, hold, hlive, hmem⟩ (hother ht.waitReason)
        · -- the new message: the receiver that was woken for it is pending
          cases List.mem_singleton.mp hmem
          have hu := (hwaiting u hu index hwaits).resolve_left (hother ht.waitReason)
          rcases @wakeFirst_eq (Config.receives index item) .queue .msgrcvRetry (.error .eagain)
              (fun c => receives_kind) w.tracees hw.phases with ⟨hnone, -⟩ |
            ⟨pre, v, post, hts, -, hv, hrun⟩
          · have hnot := hnone u hu.1
            simp [Config.receives, hwaits, hselects] at hnot
          · rw [hrun] at hwake
            cases hwake
            have hvmem : v ∈ w.tracees := by rw [hts]; simp
            have hvwaits : v.config.waitsOn .waitQueueRecv index = true := by
              simp only [Config.receives, Bool.and_eq_true] at hv
              exact hv.1
            obtain ⟨hvreason, hvindex⟩ := Config.waitsOn_kind hvwaits
            have hne : v.pid ≠ t'.pid := by
              intro heq
              rw [hself v hvmem (heq.trans hpid), ht.waitReason] at hvreason
              cases hvreason
            refine ⟨{ v with config := v.config.woken .msgrcvRetry (.error .eagain) }, ?_, rfl,
              hvindex⟩
            exact setTracee_mem_of_ne (by simp) hne
      · exact hblocked ⟨queue, hget, hvalid, hitem⟩ (hother ht.waitReason)
  | receives hold hlive hreceived =>
      by_cases hcall : u = t'
      · subst hcall
        rw [Config.waitsOn, hsame.waitReason, hsame.waitingObjectIndex] at hwaits
        obtain ⟨hreason, hindex⟩ := Config.waitsOn_kind hwaits
        obtain ⟨hat, rfl, hnone⟩ := hreceived.waits_none ht.waitReason hreason
        rw [hat] at hindex
        subst hindex
        rcases getElem?_set_cases hget with ⟨-, rfl⟩ | ⟨hne, -⟩
        · rw [Config.selects, hsame.msgrcvMsgtyp, hsame.msgrcvMsgflg] at hselects
          have hfalse := hnone item hitem
          rw [Config.selects, hselects] at hfalse
          cases hfalse
        · exact absurd rfl hne
      · rcases getElem?_set_cases hget with ⟨rfl, rfl⟩ | ⟨-, hget⟩
        · exact hblocked ⟨_, hold, hlive, hreceived.items_subset item hitem⟩ hcall
        · exact hblocked ⟨queue, hget, hvalid, hitem⟩ hcall
  | removes =>
      rcases getElem?_set_cases hget with ⟨-, rfl⟩ | ⟨-, hget⟩
      · cases hvalid
      · exact hblocked ⟨queue, hget, hvalid, hitem⟩ (hother ht.waitReason)

end Calls

/-! ## The end of a wait -/

section Resume

variable {m : GuestMemory} {w w₁ w' : World} {t t' : Tracee} {status : Status}

theorem Resumed.conserves (h : Resumed m w t status w₁)
    (hw : ∀ (index : Nat) (queue : MsgQueue), w.queues[index]? = some queue → queue.valid = true →
      queue.Conserves w.nextAddress) :
    ∀ (index : Nat) (queue : MsgQueue), w₁.queues[index]? = some queue → queue.valid = true →
      queue.Conserves w₁.nextAddress := by
  intro index queue hget hvalid
  cases h with
  | done | spurious => exact hw index queue hget hvalid
  | receives _ hold hlive hreceived =>
      rcases getElem?_set_cases hget with ⟨-, rfl⟩ | ⟨-, hget⟩
      · exact hreceived.conserves (hw _ _ hold hlive)
      · exact hw index queue hget hvalid

theorem MsgQueue.Conserves.items_nodup {fresh : Nat} {queue : MsgQueue}
    (h : queue.Conserves fresh) : queue.items.Nodup :=
  List.Nodup.of_map MsgQueueItem.address
    (by rw [List.Nodup, List.pairwise_map]; exact h.mailbox.queue.imp ne_of_lt)

/-- A receiver that goes on takes its message and no other. -/
theorem Resumed.items {queue queue' : MsgQueue} (h : Resumed m w t status w₁)
    (hchain : t.config.chainState = .msgrcvRetry)
    (hget : w.queues[t.config.waitingObjectIndex]? = some queue)
    (hget' : w₁.queues[t.config.waitingObjectIndex]? = some queue') (hnodup : queue.items.Nodup)
    (item : MsgQueueItem) :
    item ∈ queue'.items ↔ item ∈ queue.items ∧ ¬ t.config.takes m queue.items item := by
  have hlt := (List.getElem?_eq_some_iff.mp hget).1
  cases h with
  | done hne => exact absurd hchain hne
  | @spurious old _ hold _ hnone =>
      rw [hget] at hold hget'
      cases hold
      cases hget'
      refine ⟨fun hitem => ⟨hitem, fun htakes => ?_⟩, And.left⟩
      simp [foundItem, htakes.2.2.2.2, htakes.2.1] at hnone
  | @receives old status t₁ new _ hold _ hreceived _ =>
      rw [List.getElem?_set_self hlt] at hget'
      cases hget'
      rw [hget] at hold
      cases hold
      have hfound : ∀ item, t.config.takes m queue.items item →
          foundItem t.config queue.items = some item := by
        intro item htakes
        simp [foundItem, htakes.2.2.2.2, htakes.2.1]
      have hkept : (∀ item, ¬ t.config.takes m queue.items item) →
          (item ∈ queue.items ↔ item ∈ queue.items ∧ ¬ t.config.takes m queue.items item) :=
        fun hnot => ⟨fun hitem => ⟨hitem, hnot item⟩, And.left⟩
      cases hreceived with
      | refused hrefused => exact hkept fun _ htakes => hrefused htakes.1
      | nomsg _ hnone | waits _ hnone =>
          refine hkept fun item htakes => ?_
          have hsome := hfound item htakes
          rw [hnone] at hsome
          cases hsome
      | tooBig _ hsome hsmall =>
          refine hkept fun item htakes => htakes.2.2.1 ?_
          have heq := hsome.symm.trans (hfound item htakes)
          cases heq
          exact hsmall
      | fault _ hsome _ hwrite =>
          refine hkept fun item htakes => hwrite ?_
          have heq := hsome.symm.trans (hfound item htakes)
          cases heq
          exact htakes.2.2.2.1
      | copies _ _ _ _ hcopy =>
          exact hkept fun item htakes => Bool.false_ne_true (htakes.2.2.2.2.symm.trans hcopy)
      | @takes taken hacc hfind hsmall hwrite hcopy =>
          show item ∈ queue.items.erase taken ↔ _
          rw [hnodup.mem_erase_iff]
          constructor
          · rintro ⟨hne, hitem⟩
            refine ⟨hitem, fun htakes => hne ?_⟩
            have heq := hfind.symm.trans htakes.2.1
            cases heq
            rfl
          · rintro ⟨hitem, hnot⟩
            refine ⟨?_, hitem⟩
            rintro rfl
            exact hnot ⟨hacc, hfind, hsmall, hwrite, hcopy⟩

theorem Resumed.frame (h : Resumed m w t status w₁) :
    w₁.tracees = w.tracees ∧ ∀ index, index ≠ t.config.waitingObjectIndex ∨
      t.config.chainState ≠ .msgrcvRetry → w₁.queues[index]? = w.queues[index]? := by
  cases h with
  | done | spurious => exact ⟨rfl, fun _ _ => rfl⟩
  | receives hchain =>
      refine ⟨rfl, fun index hindex => ?_⟩
      exact List.getElem?_set_ne (Ne.symm (hindex.resolve_right (not_not.mpr hchain)))

/-- **A tracee that resumes** serves the receivers if and only if it leaves none. -/
theorem Resumed.served_iff (h : Resumed m w t status w₁) (hregular : w.Regular)
    (hw : w.MsgInvariant) (ht : t ∈ w.tracees) (hreason : t.config.waitReason = .notWaiting)
    (hpid : t'.pid = t.pid) (hreason' : t'.config.waitReason = .notWaiting)
    (hchain' : t'.config.chainState = .notChained) :
    (w₁.setTracee t').ReceiversServed ↔
      (t.config.chainState = .msgrcvRetry → w.LeavesNone t (t.config.takes m)) := by
  obtain ⟨htracees, hqueues⟩ := h.frame
  -- who waits, and who pends besides the tracee, stays
  have hother : ∀ u, u.pid ≠ t.pid → (u ∈ (w₁.setTracee t').tracees ↔ u ∈ w.tracees) := by
    intro u hne
    constructor
    · intro hu
      rcases mem_setTracee hu with rfl | ⟨hu, -⟩
      · exact absurd hpid hne
      · exact htracees ▸ hu
    · intro hu
      exact setTracee_mem_of_ne (htracees ▸ hu) (hpid ▸ hne)
  have hself : ∀ u ∈ (w₁.setTracee t').tracees, u.pid = t.pid → u = t' := by
    intro u hu hpids
    rcases mem_setTracee hu with rfl | ⟨-, hne⟩
    · rfl
    · exact absurd (hpids.trans hpid.symm) hne
  have hwaits : ∀ index u, u.config.waitsOn .waitQueueRecv index = true →
      (u ∈ (w₁.setTracee t').tracees ↔ u ∈ w.tracees) := by
    intro index u hwaits
    have hwaiting := (Config.waitsOn_kind hwaits).1
    by_cases hpids : u.pid = t.pid
    · constructor
      · intro hu
        rw [hself u hu hpids, hreason'] at hwaiting
        cases hwaiting
      · intro hu
        rw [hregular.pid_injective hu ht hpids, hreason] at hwaiting
        cases hwaiting
    · exact hother u hpids
  have hpending : ∀ index, (w₁.setTracee t').Pending index ↔
      ∃ u ∈ w.tracees, u.pid ≠ t.pid ∧ u.config.pendsOn index := by
    intro index
    constructor
    · rintro ⟨u, hu, hpends⟩
      have hne : u.pid ≠ t.pid := by
        intro hpids
        rw [hself u hu hpids] at hpends
        have hnone := hpends.1.symm.trans hchain'
        cases hnone
      exact ⟨u, (hother u hne).mp hu, hne, hpends⟩
    · rintro ⟨u, hu, hne, hpends⟩
      exact ⟨u, (hother u hne).mpr hu, hpends⟩
  constructor
  · intro hserved hchain queue hget hvalid
    by_cases hpends : ∃ u ∈ w.tracees, u.pid ≠ t.pid ∧
        u.config.pendsOn t.config.waitingObjectIndex
    · exact .inl hpends
    · right
      rintro item ⟨queue₁, hget₁, -, hitem, u, hu, huwaits, hselects⟩
      rw [hget] at hget₁
      cases hget₁
      by_contra htakes
      have hnodup := (hw.conserves _ queue hget hvalid).items_nodup
      obtain ⟨queue', hget', hvalid'⟩ : ∃ queue' : MsgQueue,
          w₁.queues[t.config.waitingObjectIndex]? = some queue' ∧ queue'.valid = true := by
        cases h with
        | done hne => exact absurd hchain hne
        | spurious => exact ⟨queue, hget, hvalid⟩
        | @receives old _ _ new _ hold hlive hreceived _ =>
            refine ⟨new, List.getElem?_set_self (List.getElem?_eq_some_iff.mp hget).1, ?_⟩
            cases hreceived <;> exact hlive
      have hitem' := (h.items hchain hget hget' hnodup item).mpr ⟨hitem, htakes⟩
      exact hpends ((hpending _).mp (hserved _ item
        ⟨queue', hget', hvalid', hitem', u, (hwaits _ u huwaits).mpr hu, huwaits, hselects⟩))
  · rintro hleaves index item ⟨queue', hget', hvalid', hitem, u, hu, huwaits, hselects⟩
    have hu := (hwaits index u huwaits).mp hu
    rw [hpending]
    by_cases hindex : index ≠ t.config.waitingObjectIndex ∨ t.config.chainState ≠ .msgrcvRetry
    · -- another queue, or nothing is received
      have hget : w.queues[index]? = some queue' := by
        rw [← hqueues index hindex]
        exact hget'
      obtain ⟨v, hv, hpends⟩ :=
        hw.served index item ⟨queue', hget, hvalid', hitem, u, hu, huwaits, hselects⟩
      refine ⟨v, hv, ?_, hpends⟩
      intro hpids
      rw [hregular.pid_injective hv ht hpids] at hpends
      exact hindex.elim (fun hne => hne hpends.2.symm) fun hne => hne hpends.1
    · simp only [not_or, not_not] at hindex
      obtain ⟨rfl, hchain⟩ := hindex
      obtain ⟨queue, hget, hvalid⟩ : ∃ queue : MsgQueue,
          w.queues[t.config.waitingObjectIndex]? = some queue ∧ queue.valid = true := by
        cases h with
        | done hne => exact absurd hchain hne
        | spurious _ hold hlive => exact ⟨_, hold, hlive⟩
        | receives _ hold hlive => exact ⟨_, hold, hlive⟩
      have hnodup := (hw.conserves _ queue hget hvalid).items_nodup
      obtain ⟨hitem, hnot⟩ := (h.items hchain hget hget' hnodup item).mp hitem
      rcases hleaves hchain queue hget hvalid with hpends | hnone
      · exact hpends
      · exact absurd (hnone item ⟨queue, hget, hvalid, hitem, u, hu, huwaits, hselects⟩) hnot

/-- **A tracee that dies** serves the receivers if and only if it leaves none. -/
theorem death_served_iff (hregular : w.Regular) (hw : w.MsgInvariant) (ht : t ∈ w.tracees)
    (hqueues : w'.queues = w.queues)
    (htracees : w'.tracees = w.tracees.filter (·.pid ≠ t.pid)) :
    w'.ReceiversServed ↔
      (t.config.chainState = .msgrcvRetry → w.LeavesNone t fun _ _ => False) := by
  have hmem : ∀ u, u ∈ w'.tracees ↔ u ∈ w.tracees ∧ u.pid ≠ t.pid := by
    intro u
    rw [htracees, List.mem_filter, decide_eq_true_eq]
  constructor
  · intro hserved hchain queue hget hvalid
    by_cases hpends : ∃ u ∈ w.tracees, u.pid ≠ t.pid ∧
        u.config.pendsOn t.config.waitingObjectIndex
    · exact .inl hpends
    · right
      rintro item ⟨queue, hget, hvalid, hitem, u, hu, huwaits, hselects⟩
      have hne : u.pid ≠ t.pid := by
        intro hpids
        have hreason := (Config.waitsOn_kind huwaits).1
        rw [hregular.pid_injective hu ht hpids,
          ((hregular.phases t ht).pending hchain).1] at hreason
        cases hreason
      obtain ⟨v, hv, hvpends⟩ := hserved _ item
        ⟨queue, hqueues ▸ hget, hvalid, hitem, u, (hmem u).mpr ⟨hu, hne⟩, huwaits, hselects⟩
      exact hpends ⟨v, ((hmem v).mp hv).1, ((hmem v).mp hv).2, hvpends⟩
  · rintro hleaves index item ⟨queue, hget, hvalid, hitem, u, hu, huwaits, hselects⟩
    have hblocked : w.Blocked index item :=
      ⟨queue, hqueues ▸ hget, hvalid, hitem, u, ((hmem u).mp hu).1, huwaits, hselects⟩
    obtain ⟨v, hv, hpends⟩ := hw.served index item hblocked
    by_cases hpids : v.pid = t.pid
    · rw [hregular.pid_injective hv ht hpids] at hpends
      obtain ⟨hchain, rfl⟩ := hpends
      rcases hleaves hchain queue (hqueues ▸ hget) hvalid with ⟨v, hv, hne, hpends⟩ | hnone
      · exact ⟨v, (hmem v).mpr ⟨hv, hne⟩, hpends⟩
      · exact absurd (hnone item hblocked) not_false
    · exact ⟨v, (hmem v).mpr ⟨hv, hpids⟩, hpends⟩

end Resume

/-! ## Runs -/

section Runs

variable {w w' : World} {e : Event} {t : Tracee}

theorem run_queues (hregular : w.Regular) (ht : t ∈ w.tracees) (henabled : e.enabled w t = true)
    (hkind : e.kind ≠ .queue) (h : e.run w t = .ok w') :
    w'.queues = w.queues ∧ w.nextAddress ≤ w'.nextAddress := by
  by_cases hprocess : e.isProcess = true
  · cases e with
    | clone pid child thread vm =>
        cases h
        obtain ⟨_, -, -, -, hqueues, -, hnext⟩ := clone_spec w t child thread vm
        exact ⟨hqueues, hnext⟩
    | execve pid success =>
        have honly := execve_only h
        exact ⟨honly.queues, honly.nextAddress⟩
    | death pid =>
        have honly := death_only h
        exact ⟨honly.queues, honly.nextAddress⟩
    | _ => cases hprocess
  · obtain ⟨t', hturn⟩ := run_turn hregular ht henabled (by simpa using hprocess) h
    exact ⟨hturn.queues hkind, hturn.nextAddress⟩

theorem enabled_chainState (henabled : e.enabled w t = true) (hkind : e.kind ≠ .queue)
    (hprocess : e.isProcess = false) : t.config.chainState ≠ .msgrcvRetry := by
  intro hchain
  cases e with
  | call pid m fromSigsys c => simp [Event.enabled, Config.idle, hchain] at henabled
  | enterStart | exitStart => exact hkind rfl
  | clone | execve | death => cases hprocess
  | _ => simp [Event.enabled, Config.stopped, hchain] at henabled

theorem step_conserves (hregular : w.Regular)
    (hw : ∀ (index : Nat) (queue : MsgQueue), w.queues[index]? = some queue → queue.valid = true →
      queue.Conserves w.nextAddress) (h : step (.ok w) e = some (.ok w')) :
    ∀ (index : Nat) (queue : MsgQueue), w'.queues[index]? = some queue → queue.valid = true →
      queue.Conserves w'.nextAddress := by
  have hsame : w'.queues = w.queues → w.nextAddress ≤ w'.nextAddress →
      ∀ (index : Nat) (queue : MsgQueue), w'.queues[index]? = some queue → queue.valid = true →
        queue.Conserves w'.nextAddress := by
    intro hqueues hle index queue hget hvalid
    exact (hw index queue (hqueues ▸ hget) hvalid).mono hle
  rcases step_cases h with ⟨rfl, helper, -, rfl⟩ | ⟨t, ht, -, henabled, hrun⟩
  · exact hw
  by_cases hkind : e.kind = .queue
  · have hphase := hregular.phases t ht
    have hresume : ∀ m status t₁ w₁, t.config.waitReason = .notWaiting →
        resume m w t = .ok (status, t₁, w₁) → w' = w₁.setTracee (t₁.finish status) →
        ∀ (index : Nat) (queue : MsgQueue), w'.queues[index]? = some queue → queue.valid = true →
          queue.Conserves w'.nextAddress := by
      rintro m status t₁ w₁ hreason hresume rfl
      exact (resume_resumed hreason (fun hchain => (hphase.pending hchain).2.2.1) hresume).conserves
        hw
    cases e with
    | call pid m fromSigsys c =>
        simp only [Event.enabled, Bool.and_eq_true] at henabled
        obtain ⟨status, t₁, w₁, t', hhandle, -, -, rfl, -⟩ :=
          call_turn hregular ht henabled.1 hrun
        exact (handle_msgCall hkind hhandle).conserves hw
    | enterStart pid m =>
        rcases enterStart_resumed hrun with ⟨-, rfl⟩ | ⟨status, t₁, w₁, hstate, hrun, hw'⟩
        · exact hw
        · exact hresume m status t₁ w₁ (hphase.of_canceled hstate) hrun hw'
    | exitStart pid m ppollStatus =>
        rcases exitStart_resumed hrun with ⟨-, rfl⟩ | ⟨-, rfl⟩ | ⟨status, t₁, w₁, hreason, hrun, hw'⟩
        · exact hw
        · exact hw
        · exact hresume m status t₁ w₁ hreason hrun hw'
    | _ => cases hkind
  · obtain ⟨hqueues, hle⟩ := run_queues hregular ht henabled hkind hrun
    exact hsame hqueues hle

theorem World.ReceiversServed.setTracee (hregular : w.Regular) (ht : t ∈ w.tracees)
    (hserved : w.ReceiversServed) {t' : Tracee} (hpid : t'.pid = t.pid)
    (hchain : t.config.chainState = .notChained)
    (hsame : t'.config.waitReason = .notWaiting ∨ t.SameWait t') :
    (w.setTracee t').ReceiversServed := by
  refine hserved.frame ?_ ?_
  · rintro index item ⟨queue, hget, hvalid, hitem, u, hu, hwaits, hselects⟩
    rcases mem_setTracee hu with rfl | ⟨hu, -⟩
    · rcases hsame with hreason | hsame
      · simp [Config.waitsOn, hreason] at hwaits
      · refine ⟨queue, hget, hvalid, hitem, t, ht, ?_, ?_⟩
        · rw [Config.waitsOn, hsame.waitReason, hsame.waitingObjectIndex] at hwaits
          exact hwaits
        · rw [Config.selects, hsame.msgrcvMsgtyp, hsame.msgrcvMsgflg] at hselects
          exact hselects
    · exact ⟨queue, hget, hvalid, hitem, u, hu, hwaits, hselects⟩
  · rintro index ⟨u, hu, hpends⟩
    refine ⟨u, setTracee_mem_of_ne hu ?_, hpends⟩
    intro heq
    rw [hregular.pid_injective hu ht (heq.trans hpid)] at hpends
    have hnone := hpends.1.symm.trans hchain
    cases hnone

/-- **A step serves the receivers if and only if it meets the condition.** -/
theorem step_served_iff (hregular : w.Regular) (hw : w.MsgInvariant)
    (h : step (.ok w) e = some (.ok w')) : w'.ReceiversServed ↔ e.LeavesNone w := by
  rcases step_cases h with ⟨rfl, helper, -, rfl⟩ | ⟨t, ht, hpid, henabled, hrun⟩
  · exact iff_of_true hw.served trivial
  have hphase := hregular.phases t ht
  have hfind : w.tracee? t.pid = some t := hregular.tracee?_eq ht
  have htracee (P : Tracee → Prop) : (∀ u, w.tracee? t.pid = some u → P u) ↔ P t := by
    rw [hfind]
    simp only [Option.some.injEq, forall_eq']
  -- a step that isn't the end of a wait leaves nothing
  have hkept : w'.ReceiversServed → e.LeavesNone w → (w'.ReceiversServed ↔ e.LeavesNone w) :=
    iff_of_true
  -- what a tracee that resumes leaves
  have hresume : ∀ m status t₁ w₁, t.config.waitReason = .notWaiting →
      t.config.chainState ≠ .shmatSocket →
      (t.config.waitState = .signaledPpoll ∨ t.config.waitState = .enteredGetpid ∨
        t.config.waitState = .restartedIntoPpollCanceled) →
      resume m w t = .ok (status, t₁, w₁) → w' = w₁.setTracee (t₁.finish status) →
      (w'.ReceiversServed ↔
        (t.config.chainState = .msgrcvRetry → w.LeavesNone t (t.config.takes m))) := by
    rintro m status t₁ w₁ hreason hsocket hstate hresume rfl
    obtain ⟨-, hchain⟩ := hphase.resumes hstate hsocket
    obtain ⟨-, hpid₁, -, hreason₁, hchain₁⟩ := resume_spec hreason hchain hresume
    exact (resume_resumed hreason (fun hchain => (hphase.pending hchain).2.2.1) hresume).served_iff
      hregular hw ht hreason hpid₁ hreason₁ hchain₁
  by_cases hprocess : e.isProcess = true
  · cases e with
    | clone pid child thread vm =>
        cases hrun
        obtain ⟨u, hu, -, htracees, hqueues, -⟩ := clone_spec w t child thread vm
        refine hkept (hw.served.frame ?_ ?_) trivial
        · rintro index item ⟨queue, hget, hvalid, hitem, v, hv, hwaits, hselects⟩
          refine ⟨queue, hqueues ▸ hget, hvalid, hitem, v, ?_, hwaits, hselects⟩
          rw [htracees] at hv
          rcases List.mem_cons.mp hv with rfl | hv
          · simp [Config.waitsOn, hu.waitReason] at hwaits
          · exact hv
        · rintro index ⟨v, hv, hpends⟩
          exact ⟨v, htracees ▸ List.mem_cons_of_mem _ hv, hpends⟩
    | execve pid success =>
        have honly := execve_only hrun
        refine hkept (hw.served.frame ?_ ?_) trivial
        · rintro index item ⟨queue, hget, hvalid, hitem, v, hv, hwaits, hselects⟩
          exact ⟨queue, honly.queues ▸ hget, hvalid, hitem, v, honly.tracees ▸ hv, hwaits, hselects⟩
        · rintro index ⟨v, hv, hpends⟩
          exact ⟨v, honly.tracees ▸ hv, hpends⟩
    | death pid =>
        cases hpid
        have honly := death_only hrun
        rw [death_served_iff hregular hw ht honly.queues honly.tracees]
        exact (htracee fun u => u.config.chainState = .msgrcvRetry → w.LeavesNone u fun _ _ => False).symm
    | _ => cases hprocess
  have hprocess : e.isProcess = false := by simpa using hprocess
  by_cases hkind : e.kind = .queue
  · cases e with
    | call pid m fromSigsys c =>
        simp only [Event.enabled, Bool.and_eq_true] at henabled
        obtain ⟨status, t₁, w₁, t', hhandle, hhandled, hsame, rfl, hturn⟩ :=
          call_turn hregular ht henabled.1 hrun
        obtain ⟨hreason, hstate, hchain, -⟩ := hphase.of_idle henabled.1
        refine hkept ?_ trivial
        refine (handle_msgCall hkind hhandle).served hregular ⟨hreason, hstate, hchain, rfl⟩ ?_ ?_
          hsame hturn.pid hw.served
        · intro u hu hpids
          rw [hregular.pid_injective hu ht hpids]
        · rw [show c.kind = .queue from hkind] at hhandled
          exact { hhandled with }
    | enterStart pid m =>
        cases hpid
        simp only [Event.enabled, Bool.or_eq_true, Config.stopped_iff] at henabled
        have hsocket : t.config.chainState ≠ .shmatSocket := by grind
        rcases enterStart_resumed hrun with ⟨hstate, hw'⟩ | ⟨status, t₁, w₁, hstate, hrun, hw'⟩
        · have hchain := (hphase.of_blocked (.inr hstate)).1
          have hserved : w'.ReceiversServed := by
            rw [hw']
            refine hw.served.setTracee hregular ht ?_ hchain ?_
            · rfl
            · exact .inr ⟨rfl, rfl, rfl, rfl, rfl, rfl, rfl, rfl⟩
          refine hkept hserved ((htracee _).mpr fun hretry => ?_)
          rw [hchain] at hretry
          cases hretry
        · have hreason : t.config.waitReason = .notWaiting :=
            (hphase.resumes (.inr (.inr hstate)) hsocket).1
          rw [hresume m status t₁ w₁ hreason hsocket (.inr (.inr hstate)) hrun hw']
          exact (htracee fun u => u.config.chainState = .msgrcvRetry →
            w.LeavesNone u (u.config.takes m)).symm
    | exitStart pid m ppollStatus =>
        cases hpid
        simp only [Event.enabled, Bool.or_eq_true, Config.stopped_iff] at henabled
        have hsocket : t.config.chainState ≠ .shmatSocket := by grind
        rcases exitStart_resumed hrun with ⟨hstate, hw'⟩ | ⟨hstate, -⟩ |
          ⟨status, t₁, w₁, hreason, hrun, hw'⟩
        · have hchain := (hphase.of_blocked (.inl hstate)).1
          have hserved : w'.ReceiversServed := by
            rw [hw']
            refine hw.served.setTracee hregular ht ?_ hchain ?_
            · rfl
            · exact .inl rfl
          refine hkept hserved ((htracee _).mpr fun hretry => ?_)
          rw [hchain] at hretry
          cases hretry
        · simp [hstate] at henabled
        · have hstate : t.config.waitState = .signaledPpoll ∨
              t.config.waitState = .enteredGetpid ∨
              t.config.waitState = .restartedIntoPpollCanceled := by
            rcases henabled with (⟨-, hstate⟩ | ⟨-, hstate⟩) | ⟨-, hstate⟩
            · obtain ⟨-, _, hkinds, -⟩ := hphase.of_blocked (.inl hstate)
              rw [hreason] at hkinds
              cases hkinds
            · exact .inl hstate
            · exact .inr (.inl hstate)
          rw [hresume m status t₁ w₁ hreason hsocket hstate hrun hw']
          exact (htracee fun u => u.config.chainState = .msgrcvRetry →
            w.LeavesNone u (u.config.takes m)).symm
    | _ => cases hkind
  · obtain ⟨t', hturn⟩ := run_turn hregular ht henabled hprocess hrun
    have hchain := enabled_chainState henabled hkind hprocess
    refine hkept (hturn.served hregular ht hkind hchain hw.served) ?_
    cases e with
    | enterStart | exitStart => exact absurd rfl hkind
    | clone | execve | death => cases hprocess
    | _ => trivial

/-- What a queue guarantees of the messages that it accepted, in the order of their addresses: each
was received once or is still there, the messages of a selector are received in the order they were
sent, and `msg_qnum` counts those that are there. -/
structure MsgQueue.Delivers (queue : MsgQueue) : Prop where
  sent : queue.accepted.Pairwise (·.address < ·.address)
  conserved : queue.accepted.Perm (queue.receipts.map (·.item) ++ queue.items)
  once : (queue.receipts.map (·.item)).Nodup ∧
    ∀ item ∈ queue.receipts.map (·.item), item ∉ queue.items
  order : ∀ pre mid post (r r' : Receipt), queue.receipts = pre ++ r :: (mid ++ r' :: post) →
    r.msgtyp = r'.msgtyp → has r.msgflg msgExcept = has r'.msgflg msgExcept →
      r.item.address < r'.item.address
  msgQnum : queue.stats.msgQnum = queue.items.length

theorem MsgQueue.Conserves.delivers {fresh : Nat} {queue : MsgQueue} (h : queue.Conserves fresh) :
    queue.Delivers := by
  have hitems : queue.mailbox.received.map Prod.snd = queue.receipts.map (·.item) := by
    simp [MsgQueue.mailbox]
  refine ⟨h.mailbox.sent, hitems ▸ h.mailbox.perm, hitems ▸ h.mailbox.received_nodup, ?_, h.msgQnum⟩
  intro pre mid post r r' hreceipts htyp hflg
  have hreceived : queue.mailbox.received =
      pre.map (fun r => ((r.msgtyp, r.msgflg), r.item)) ++ ((r.msgtyp, r.msgflg), r.item) ::
        (mid.map (fun r => ((r.msgtyp, r.msgflg), r.item)) ++ ((r'.msgtyp, r'.msgflg), r'.item) ::
          post.map (fun r => ((r.msgtyp, r.msgflg), r.item))) := by
    simp [MsgQueue.mailbox, hreceipts]
  refine h.mailbox.order hreceived ?_
  have hselected := h.mailbox.selected ((r'.msgtyp, r'.msgflg), r'.item) (by simp [hreceived])
  -- the selector is the type and MSG_EXCEPT
  simp only [Selector.selects, msgMatch] at hselected ⊢
  rwa [htyp, hflg]

def LeavesNone : Session → Event → Prop
  | .ok w, e => e.LeavesNone w
  | .error _, _ => True

theorem reach_conserves {ok : Session → Event → Prop} (h : system.Reach ok (.ok w)) :
    ∀ (index : Nat) (queue : MsgQueue), w.queues[index]? = some queue → queue.valid = true →
      queue.Conserves w.nextAddress := by
  apply reach_world _ _ h
  · intro pid index queue hget
    simp [World.initial] at hget
  · intro w e w' hregular hw _ hstep
    exact step_conserves hregular hw hstep

theorem reach_msgInvariant (h : system.Reach LeavesNone (.ok w)) : w.MsgInvariant := by
  apply reach_world _ _ h
  · intro pid
    refine ⟨by simp [World.initial], ?_⟩
    rintro index item ⟨queue, hget, -⟩
    simp [World.initial] at hget
  · intro w e w' hregular hw hleaves hstep
    exact ⟨step_conserves hregular hw.conserves hstep,
      (step_served_iff hregular hw hstep).mpr hleaves⟩

/-- **Message queues conserve messages** in every run; and in the runs whose steps meet the
condition no receiver stays blocked while it could receive, unless a wake-up is pending. The first
step that doesn't meet it leaves such a receiver. -/
theorem messages_conserved (w : World) :
    (system.Reach Lib.System.Always (.ok w) → ∀ (index : Nat) (queue : MsgQueue),
      w.queues[index]? = some queue → queue.valid = true → queue.Delivers) ∧
    (system.Reach LeavesNone (.ok w) →
      w.ReceiversServed ∧
        ∀ e w', step (.ok w) e = some (.ok w') → (w'.ReceiversServed ↔ e.LeavesNone w)) := by
  constructor
  · intro h index queue hget hvalid
    exact (reach_conserves h index queue hget hvalid).delivers
  · intro h
    refine ⟨(reach_msgInvariant h).served, ?_⟩
    intro e w' hstep
    exact step_served_iff (reach_regular h) (reach_msgInvariant h) hstep

def GuestMemory.message : GuestMemory where
  readLong _ := .ok 1
  readBytes _ size := .ok (List.replicate size 0)
  readSops _ _ := .ok []
  write _ _ := .ok ()

/-- The tracees 2 and 3 wait for any message, the latter with an empty buffer; it is woken for a
message of one byte, and retries. -/
def blockedRun : List Event := [
  .call 1 .message true (.msgget 0 (ipcCreat.setWidth 64)),
  .clone 1 2 false false,
  .clone 1 3 false false,
  .call 2 .message false (.msgrcv 1 0 8 0 0),
  .call 3 .message false (.msgrcv 1 0 0 0 0),
  .call 1 .message true (.msgsnd 1 0 1),
  .exitStart 3 .message .eintr]

/-- **A receiver that stays blocked**: the tracee 3 fails with `E2BIG`, and the message stays in the
queue for which the tracee 2 waits. -/
theorem messages_blocked :
    ¬ ∀ w, system.Reach Lib.System.Always (.ok w) → w.ReceiversServed := by
  intro h
  have hrun : ∃ w, system.exec (.ok (.initial 1)) blockedRun = some (.ok w) ∧
      (∃ queue, w.queues[0]? = some queue ∧ queue.valid = true ∧
        ∃ item ∈ queue.items, ∃ t ∈ w.tracees,
          t.config.waitsOn .waitQueueRecv 0 = true ∧ t.config.selects item = true) ∧
      ∀ t ∈ w.tracees, t.config.chainState = .notChained := by
    refine ⟨_, rfl, ⟨_, rfl, rfl, _, List.mem_cons_self, _,
      List.mem_cons_of_mem _ List.mem_cons_self, by decide, by decide⟩, ?_⟩
    decide
  obtain ⟨w, hexec, ⟨queue, hget, hvalid, item, hitem, t, ht, hwaits, hselects⟩, hchain⟩ := hrun
  have hreach : system.Reach Lib.System.Always (.ok w) := .exec (.start ⟨1, rfl⟩) hexec
  obtain ⟨u, hu, hpends⟩ := h w hreach 0 item ⟨queue, hget, hvalid, hitem, t, ht, hwaits, hselects⟩
  have hnone := hpends.1.symm.trans (hchain u hu)
  cases hnone

/-- Before the retry of the tracee 3, its wake-up is pending. -/
theorem messages_conserved_pending :
    ∃ w, (∃ item, w.Blocked 0 item ∧ w.Pending 0) ∧ w.ReceiversServed ∧
      (∀ (index : Nat) (queue : MsgQueue), w.queues[index]? = some queue → queue.valid = true →
        queue.Delivers) ∧
      ∀ w', step (.ok w) (.exitStart 3 .message .eintr) = some (.ok w') →
        (w'.ReceiversServed ↔ (Event.exitStart 3 .message .eintr).LeavesNone w) := by
  have hrun : ∃ w, system.exec (.ok (.initial 1)) (blockedRun.take 6) = some (.ok w) ∧
      ∃ item, w.Blocked 0 item := by
    exact ⟨_, rfl, _, _, rfl, rfl, List.mem_cons_self, _,
      List.mem_cons_of_mem _ List.mem_cons_self, by decide, by decide⟩
  obtain ⟨w, hexec, item, hblocked⟩ := hrun
  have hok : ∀ e ∈ blockedRun.take 6, ∀ s, LeavesNone s e := by
    intro e he s
    cases s with
    | error a => trivial
    | ok v =>
        simp only [blockedRun, List.take_succ_cons, List.take_zero, List.mem_cons,
          List.not_mem_nil, or_false] at he
        rcases he with rfl | rfl | rfl | rfl | rfl | rfl <;> trivial
  have hinitial : system.Reach LeavesNone (.ok (.initial 1)) := .start ⟨1, rfl⟩
  have hreach : system.Reach LeavesNone (.ok w) := hinitial.exec_of hok hexec
  obtain ⟨hdelivers, hserves⟩ := messages_conserved w
  obtain ⟨hserved, hnext⟩ := hserves hreach
  exact ⟨w, ⟨item, hblocked, hserved 0 item hblocked⟩, hserved,
    hdelivers (.exec (.start ⟨1, rfl⟩) hexec), hnext _⟩

end Runs

end Improot.SysVIpc
