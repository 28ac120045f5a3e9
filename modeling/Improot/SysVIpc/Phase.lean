import Mathlib.Data.List.Forall2
import Improot.SysVIpc.Machine

/-!
# The wait mechanism

Between two events a tracee is in one of five phases, and the loops that wake tracees find them in
the state that `sysvipc_wake_tracee` asserts.
-/

namespace Improot.SysVIpc

/-! ## Phases -/

def WaitReason.kind : WaitReason → Option Kind
  | .notWaiting => none
  | .waitQueueRecv => some .queue
  | .waitSemop => some .semaphore
  | .waitShmatHelperBusy => some .segment

def Asked.kind : Asked → Option Kind
  | .nothing => none
  | .queue _ => some .queue
  | .semaphore _ => some .semaphore
  | .segment _ => some .segment

/-- How a tracee that waited for an object of some kind is woken: in some state of the chain, with
some status. -/
inductive Resumes : Kind → ChainState → Status → Prop
  | queue {status} : Resumes .queue .notChained status
  | semaphore {status} : Resumes .semaphore .notChained status
  | retry : Resumes .queue .msgrcvRetry (.error .eagain)
  | attach : Resumes .segment .shmatSocket (.ok 0)

inductive Tracee.Phase (t : Tracee) : Prop
  | idle : t.config.waitReason = .notWaiting → t.config.waitState = .notWaiting →
      t.config.chainState = .notChained → t.asked = .nothing → t.Phase
  | answering : t.config.waitReason = .notWaiting → t.config.waitState = .enteredGetpid →
      t.config.chainState = .notChained → t.asked = .nothing → t.Phase
  | waiting {kind} : t.config.waitReason.kind = some kind →
      (t.config.waitState = .enteredPpoll ∨ t.config.waitState = .restartedIntoPpoll) →
      t.config.chainState = .notChained → t.asked.kind = some kind → t.Phase
  | woken {kind} : t.config.waitReason = .notWaiting →
      (t.config.waitState = .signaledPpoll ∨ t.config.waitState = .restartedIntoPpollCanceled) →
      Resumes kind t.config.chainState t.config.statusAfterWait → t.asked.kind = some kind → t.Phase
  | attaching : t.config.waitReason = .notWaiting → t.config.waitState = .notWaiting →
      t.config.chainState.attaches = true → t.asked.kind = some .segment → t.Phase

/-- The tracees of a world are known by their pids, and each is in a phase. -/
structure World.Regular (w : World) : Prop where
  pids : (w.tracees.map (·.pid)).Nodup
  phases : ∀ t ∈ w.tracees, t.Phase

theorem Tracee.Phase.of_waiting {t : Tracee} (h : t.Phase) {kind : Kind}
    (hreason : t.config.waitReason.kind = some kind) :
    (t.config.waitState = .enteredPpoll ∨ t.config.waitState = .restartedIntoPpoll) ∧
      t.config.chainState = .notChained ∧ t.asked.kind = some kind := by
  cases h with
  | waiting hkind hstate hchain hasked =>
      rw [hreason] at hkind
      exact ⟨hstate, hchain, hkind ▸ hasked⟩
  | idle h | answering h | woken h | attaching h =>
      rw [h] at hreason
      cases hreason

theorem Tracee.Phase.of_idle {t : Tracee} (h : t.Phase) (hidle : t.config.idle = true) :
    t.config.waitReason = .notWaiting ∧ t.config.waitState = .notWaiting ∧
      t.config.chainState = .notChained ∧ t.asked = .nothing := by
  simp only [Config.idle, Bool.and_eq_true, decide_eq_true_eq] at hidle
  obtain ⟨hstate, hchain⟩ := hidle
  cases h with
  | idle hreason _ _ hasked => exact ⟨hreason, hstate, hchain, hasked⟩
  | answering _ h => rw [hstate] at h; cases h
  | waiting _ h => rw [hstate] at h; rcases h with h | h <;> cases h
  | woken _ h => rw [hstate] at h; rcases h with h | h <;> cases h
  | attaching _ _ h => rw [hchain] at h; cases h

theorem Tracee.Phase.of_blocked {t : Tracee} (h : t.Phase)
    (hstate : t.config.waitState = .enteredPpoll ∨ t.config.waitState = .restartedIntoPpoll) :
    t.config.chainState = .notChained ∧
      ∃ kind, t.config.waitReason.kind = some kind ∧ t.asked.kind = some kind := by
  cases h with
  | idle _ h | answering _ h | attaching _ h => rw [h] at hstate; rcases hstate with h | h <;> cases h
  | woken _ h => rcases h with h | h <;> rw [h] at hstate <;> rcases hstate with h | h <;> cases h
  | waiting hreason _ hchain hasked => exact ⟨hchain, _, hreason, hasked⟩

theorem Tracee.Phase.of_canceled {t : Tracee} (h : t.Phase)
    (hstate : t.config.waitState = .restartedIntoPpollCanceled) :
    t.config.waitReason = .notWaiting := by
  cases h with
  | idle hreason | answering hreason | woken hreason | attaching hreason => exact hreason
  | waiting _ h => rw [hstate] at h; rcases h with h | h <;> cases h

theorem Tracee.Phase.of_asked_queue {t : Tracee} (h : t.Phase) (hasked : t.asked.kind = some .queue) :
    t.config.idle = false ∧
      (t.config.chainState = .notChained ∨ t.config.chainState = .msgrcvRetry) := by
  cases h with
  | idle _ _ _ hnone | answering _ _ _ hnone =>
      rw [hnone] at hasked
      cases hasked
  | waiting _ hstate hchain =>
      refine ⟨?_, .inl hchain⟩
      rcases hstate with h | h <;> simp [Config.idle, h]
  | woken _ hstate hresumes hkind =>
      rw [hasked] at hkind
      cases hkind
      generalize t.config.chainState = chainState, t.config.statusAfterWait = status at *
      refine ⟨by rcases hstate with h | h <;> simp [Config.idle, h], ?_⟩
      cases hresumes
      · exact .inl rfl
      · exact .inr rfl
  | attaching _ _ _ hkind =>
      rw [hasked] at hkind
      cases hkind

/-! ## Waking -/

/-- What `sysvipc_wake_tracee` makes of a tracee that waits. -/
def Config.woken (c : Config) (chainState : ChainState) (status : Status) : Config :=
  { c with
    waitReason := .notWaiting
    statusAfterWait := status
    waitState :=
      if c.waitState = .enteredPpoll then .signaledPpoll else .restartedIntoPpollCanceled
    chainState }

theorem wakeTracee_waiting {c : Config} {kind : Kind} (hreason : c.waitReason.kind = some kind)
    (hstate : c.waitState = .enteredPpoll ∨ c.waitState = .restartedIntoPpoll) (status : Status) :
    wakeTracee c status = .ok (c.woken c.chainState status) := by
  have hne : c.waitReason ≠ .notWaiting := by
    intro h
    rw [h] at hreason
    cases hreason
  rw [wakeTracee, if_neg hne]
  rcases hstate with h | h <;> simp [h, Config.woken]

/-- What the loops do to a tracee: nothing, or they wake it from a wait of their kind. -/
inductive Wakes (kind : Kind) : Tracee → Tracee → Prop
  | same {t} : Wakes kind t t
  | woken {t chainState status sops} : t.config.waitReason.kind = some kind →
      Resumes kind chainState status →
      Wakes kind t { t with config := { t.config.woken chainState status with semopSops := sops } }

theorem Wakes.pid {kind : Kind} {t t' : Tracee} (h : Wakes kind t t') : t'.pid = t.pid := by
  cases h <;> rfl

theorem Wakes.asked {kind : Kind} {t t' : Tracee} (h : Wakes kind t t') : t'.asked = t.asked := by
  cases h <;> rfl

theorem Wakes.phase {kind : Kind} {t t' : Tracee} (h : Wakes kind t t') (ht : t.Phase) :
    t'.Phase := by
  cases h with
  | same => exact ht
  | woken hreason hresumes =>
      obtain ⟨-, -, hasked⟩ := ht.of_waiting hreason
      refine .woken rfl ?_ hresumes hasked
      simp only [Config.woken]
      split
      · exact .inl rfl
      · exact .inr rfl

def WakesAll (kind : Kind) (ts ts' : List Tracee) : Prop := List.Forall₂ (Wakes kind) ts ts'

section WakesAll

variable {kind : Kind} {ts ts' : List Tracee}

theorem WakesAll.refl (kind : Kind) (ts : List Tracee) : WakesAll kind ts ts :=
  List.forall₂_same.mpr fun _ _ => .same

theorem WakesAll.pids (h : WakesAll kind ts ts') : ts'.map (·.pid) = ts.map (·.pid) := by
  induction h with
  | nil => rfl
  | cons hwakes _ ih => simp [hwakes.pid, ih]

theorem WakesAll.mem (h : WakesAll kind ts ts') {t' : Tracee} (ht' : t' ∈ ts') :
    ∃ t ∈ ts, Wakes kind t t' := by
  induction h with
  | nil => cases ht'
  | cons hwakes _ ih =>
      rcases List.mem_cons.mp ht' with rfl | ht'
      · exact ⟨_, List.mem_cons_self, hwakes⟩
      · obtain ⟨t, ht, h⟩ := ih ht'
        exact ⟨t, List.mem_cons_of_mem _ ht, h⟩

theorem WakesAll.regular {w : World} (h : WakesAll kind w.tracees ts') (hw : w.Regular) :
    (ts'.map (·.pid)).Nodup ∧ ∀ t ∈ ts', t.Phase := by
  refine ⟨by rw [h.pids]; exact hw.pids, ?_⟩
  intro t' ht'
  obtain ⟨t, ht, hwakes⟩ := h.mem ht'
  exact hwakes.phase (hw.phases t ht)

theorem WakesAll.waiting (h : WakesAll kind ts ts') {t' : Tracee} (ht' : t' ∈ ts')
    (hreason : t'.config.waitReason ≠ .notWaiting) : t' ∈ ts := by
  obtain ⟨t, ht, hwakes⟩ := h.mem ht'
  cases hwakes with
  | same => exact ht
  | woken => exact absurd rfl hreason

theorem WakesAll.filter_eq (h : WakesAll kind ts ts') (hphases : ∀ t ∈ ts, t.Phase)
    {other : Kind} (hne : other ≠ kind) :
    ts'.filter (·.asked.kind = some other) = ts.filter (·.asked.kind = some other) := by
  induction h with
  | nil => rfl
  | @cons t t' ts ts' hwakes _ ih =>
      have ih := ih fun t ht => hphases t (List.mem_cons_of_mem _ ht)
      cases hwakes with
      | same => rw [List.filter_cons, List.filter_cons, ih]
      | woken hreason =>
          have hasked := ((hphases t List.mem_cons_self).of_waiting hreason).2.2
          have hother : ¬ t.asked.kind = some other := by
            rw [hasked]
            exact fun h => hne (Option.some.inj h).symm
          rw [List.filter_cons_of_neg (by simpa using hother),
            List.filter_cons_of_neg (by simpa using hother), ih]

end WakesAll

theorem wakeEach_eq {p : Config → Bool} {kind : Kind} (status : Status)
    (hp : ∀ c, p c = true → c.waitReason.kind = some kind) {ts : List Tracee}
    (hphases : ∀ t ∈ ts, t.Phase) :
    wakeEach p status ts = .ok (ts.map fun t =>
      if p t.config then { t with config := t.config.woken t.config.chainState status } else t) := by
  induction ts with
  | nil => rfl
  | cons t ts ih =>
      have ih := ih fun t ht => hphases t (List.mem_cons_of_mem _ ht)
      rw [wakeEach, ih, List.map_cons]
      by_cases h : p t.config = true
      · have hstate := ((hphases t List.mem_cons_self).of_waiting (hp _ h)).1
        rw [if_pos h, if_pos h, wakeTracee_waiting (hp _ h) hstate]
        rfl
      · rw [if_neg h, if_neg h]
        rfl

theorem wakeEach_wakes {p : Config → Bool} {kind : Kind} {status : Status}
    (hresumes : Resumes kind .notChained status)
    (hp : ∀ c, p c = true → c.waitReason.kind = some kind) {ts ts' : List Tracee}
    (hphases : ∀ t ∈ ts, t.Phase) (h : wakeEach p status ts = .ok ts') :
    WakesAll kind ts ts' ∧ ∀ t ∈ ts', p t.config = false ∨ t.config.waitReason = .notWaiting := by
  rw [wakeEach_eq status hp hphases] at h
  cases h
  constructor
  · rw [WakesAll, List.forall₂_map_right_iff, List.forall₂_same]
    intro t ht
    split
    · rename_i h
      have hchain := ((hphases t ht).of_waiting (hp _ h)).2.1
      rw [hchain]
      exact .woken (hp _ h) hresumes
    · exact .same
  · simp only [List.forall_mem_map]
    intro t ht
    split
    · exact .inr rfl
    · rename_i h
      exact .inl (by simpa using h)

theorem wakeFirst_eq {p : Config → Bool} {kind : Kind} {chainState : ChainState} {status : Status}
    (hp : ∀ c, p c = true → c.waitReason.kind = some kind) {ts : List Tracee}
    (hphases : ∀ t ∈ ts, t.Phase) :
    ((∀ t ∈ ts, p t.config = false) ∧ wakeFirst p chainState status ts = .ok ts) ∨
    ∃ pre t post, ts = pre ++ t :: post ∧ (∀ t ∈ pre, p t.config = false) ∧ p t.config = true ∧
      wakeFirst p chainState status ts =
        .ok (pre ++ { t with config := t.config.woken chainState status } :: post) := by
  induction ts with
  | nil => exact .inl ⟨by simp, rfl⟩
  | cons t ts ih =>
      have ih := ih fun t ht => hphases t (List.mem_cons_of_mem _ ht)
      rw [wakeFirst]
      by_cases h : p t.config = true
      · have hkind : t.config.waitReason.kind = some kind := hp _ h
        have hstate := ((hphases t List.mem_cons_self).of_waiting hkind).1
        have hwake : wakeTracee { t.config with chainState } status =
            .ok (t.config.woken chainState status) :=
          @wakeTracee_waiting { t.config with chainState } kind hkind hstate status
        refine .inr ⟨[], t, ts, rfl, by simp, h, ?_⟩
        rw [if_pos h, hwake]
        rfl
      · rw [if_neg h]
        have h : p t.config = false := by simpa using h
        rcases ih with ⟨hnone, hrun⟩ | ⟨pre, u, post, hts, hpre, hu, hrun⟩
        · refine .inl ⟨List.forall_mem_cons.mpr ⟨h, hnone⟩, ?_⟩
          rw [hrun]
          rfl
        · refine .inr ⟨t :: pre, u, post, by rw [hts, List.cons_append],
            List.forall_mem_cons.mpr ⟨h, hpre⟩, hu, ?_⟩
          rw [hrun]
          rfl

theorem wakeFirst_wakes {p : Config → Bool} {kind : Kind} {chainState : ChainState}
    {status : Status} (hresumes : Resumes kind chainState status)
    (hp : ∀ c, p c = true → c.waitReason.kind = some kind) {ts ts' : List Tracee}
    (hphases : ∀ t ∈ ts, t.Phase) (h : wakeFirst p chainState status ts = .ok ts') :
    WakesAll kind ts ts' := by
  rcases wakeFirst_eq hp hphases with ⟨-, hrun⟩ | ⟨pre, t, post, hts, -, ht, hrun⟩
  · rw [hrun] at h
    cases h
    exact .refl kind _
  · rw [hrun] at h
    cases h
    rw [hts]
    exact List.rel_append (WakesAll.refl kind pre)
      (.cons (.woken (hp _ ht) hresumes) (WakesAll.refl kind post))

theorem Config.waitsOn_kind {reason : WaitReason} {index : Nat} {c : Config}
    (h : c.waitsOn reason index = true) : c.waitReason = reason ∧ c.waitingObjectIndex = index := by
  simpa [Config.waitsOn] using h

/-- A tracee that the loop examines is woken from its ppoll. -/
theorem Tracee.Phase.of_examined {t : Tracee} {pid index : Nat} (hphase : t.Phase)
    (hex : t.examined pid index = true) :
    t.config.waitReason.kind = some .semaphore ∧ ∀ status,
      wakeTracee { t.config with semopSops := [] } status =
        .ok { t.config.woken .notChained status with semopSops := [] } := by
  simp only [Tracee.examined, Bool.and_eq_true] at hex
  have hkind : t.config.waitReason.kind = some .semaphore := by
    rw [(Config.waitsOn_kind hex.2).1]
    rfl
  obtain ⟨hstate, hchain, -⟩ := hphase.of_waiting hkind
  refine ⟨hkind, fun status => ?_⟩
  have hwake := @wakeTracee_waiting { t.config with semopSops := [] } _ hkind hstate status
  rw [hwake, Config.woken, Config.woken, hchain]

theorem semopPass_wakes {pid index : Nat} {sems sems' : List Nat} {ts ts' : List Tracee}
    (hphases : ∀ t ∈ ts, t.Phase) (h : semopPass pid index sems ts = .ok (sems', ts')) :
    WakesAll .semaphore ts ts' := by
  induction ts generalizing sems ts' with
  | nil =>
      cases h
      exact .nil
  | cons t ts ih =>
      have ih := fun sems ts' => @ih sems ts' fun t ht => hphases t (List.mem_cons_of_mem _ ht)
      rw [semopPass] at h
      by_cases hex : t.examined pid index = true
      · obtain ⟨hkind, hwake⟩ := (hphases t List.mem_cons_self).of_examined hex
        rw [if_pos hex] at h
        cases hcheck : semCheck sems t.config.semopSops with
        | wait =>
            simp only [hcheck, bind_eq_ok] at h
            obtain ⟨⟨_, _⟩, hrest, h⟩ := h
            cases h
            exact .cons .same (ih _ _ hrest)
        | failed | done =>
            simp only [hcheck, hwake, bind_eq_ok] at h
            obtain ⟨_, hwoken, ⟨_, _⟩, hrest, h⟩ := h
            cases hwoken
            cases h
            exact .cons (.woken hkind .semaphore) (ih _ _ hrest)
      · rw [if_neg hex] at h
        simp only [bind_eq_ok] at h
        obtain ⟨⟨_, _⟩, hrest, h⟩ := h
        cases h
        exact .cons .same (ih _ _ hrest)

end Improot.SysVIpc
