import Improot.SysVIpc.Turn

/-!
# Runs

The cases of a step, and what every step keeps, whatever the events: no tracee is ever found in a
state that `sysvipc_wake_tracee` doesn't expect.
-/

namespace Improot.SysVIpc

/-- The kind of objects that an event is about: a tracee that resumes may look at its queue. -/
def Event.kind : Event → Kind
  | .call _ _ _ c => c.kind
  | .enterStart .. | .exitStart .. => .queue
  | _ => .segment

def Event.isProcess : Event → Bool
  | .clone .. | .execve .. | .death _ => true
  | _ => false

theorem step_tracee {w : World} {e : Event} (he : e ≠ .helper) :
    step (.ok w) e = (e.pid.bind w.tracee?).bind fun t =>
      if e.enabled w t then some (e.run w t) else none := by
  cases e with
  | helper => exact absurd rfl he
  | _ =>
      unfold step
      dsimp only
      split
      · rename_i hnone
        rw [hnone]
        rfl
      · rename_i t hsome
        rw [hsome]
        rfl

theorem step_cases {w w' : World} {e : Event} (h : step (.ok w) e = some (.ok w')) :
    (e = .helper ∧ ∃ helper, w.helper.step = some helper ∧ w' = { w with helper }) ∨
      ∃ t ∈ w.tracees, e.pid = some t.pid ∧ e.enabled w t = true ∧ e.run w t = .ok w' := by
  by_cases he : e = .helper
  · subst he
    obtain ⟨helper, hstep, hw'⟩ := Option.map_eq_some_iff.mp h
    cases hw'
    exact .inl ⟨rfl, helper, hstep, rfl⟩
  · right
    rw [step_tracee he] at h
    obtain ⟨t, hfind, h⟩ := Option.bind_eq_some_iff.mp h
    split at h
    · rename_i henabled
      obtain ⟨pid, hpid, hfind⟩ := Option.bind_eq_some_iff.mp hfind
      obtain ⟨hmem, rfl⟩ := tracee?_mem hfind
      exact ⟨t, hmem, hpid, henabled, Option.some.inj h⟩
    · cases h

theorem Config.stopped_iff {c : Config} {chained : Bool} {waitState : WaitState} :
    c.stopped chained waitState = true ↔
      (c.chainState = .shmatSocket ↔ chained = true) ∧ c.waitState = waitState := by
  cases chained <;> simp [Config.stopped]

theorem Tracee.Phase.resumes {t : Tracee} (h : t.Phase)
    (hstate : t.config.waitState = .signaledPpoll ∨ t.config.waitState = .enteredGetpid ∨
      t.config.waitState = .restartedIntoPpollCanceled)
    (hchain : t.config.chainState ≠ .shmatSocket) :
    t.config.waitReason = .notWaiting ∧
      (t.config.chainState = .notChained ∨ t.config.chainState = .msgrcvRetry) := by
  cases h with
  | idle _ h | attaching _ h => simp [h] at hstate
  | answering hreason _ h => exact ⟨hreason, .inl h⟩
  | waiting _ h => rcases h with h | h <;> simp [h] at hstate
  | woken hreason _ hresumes =>
      refine ⟨hreason, ?_⟩
      generalize t.config.chainState = chainState, t.config.statusAfterWait = status at *
      cases hresumes with
      | queue | semaphore => exact .inl rfl
      | retry => exact .inr rfl
      | attach => exact absurd rfl hchain

section Run

variable {w w' : World} {t : Tracee} {e : Event}

theorem enterStart_turn {m : GuestMemory} (hphase : t.Phase)
    (hchain : t.config.chainState ≠ .shmatSocket) (h : enterStart m w t = .ok w') :
    ∃ t', Turn .queue w t t' w' := by
  unfold enterStart at h
  split at h
  · rename_i hstate
    cases h
    refine ⟨_, .of_setTracee .queue rfl rfl ?_ (.inr ⟨rfl, rfl, rfl, rfl, rfl, rfl, rfl, rfl⟩)
      fun h => absurd rfl h⟩
    obtain ⟨hchain, _, hreason, hasked⟩ := hphase.of_blocked (.inr hstate)
    exact .waiting hreason (.inl rfl) hchain hasked
  · rename_i hstate
    obtain ⟨⟨status, t₁, w₁⟩, hresume, h⟩ := bind_eq_ok.mp h
    cases h
    obtain ⟨hreason, hretry⟩ := hphase.resumes (.inr (.inr hstate)) hchain
    obtain ⟨hw₁, hpid, hprocess, hreason₁, hchain₁⟩ := resume_spec hreason hretry hresume
    exact ⟨_, finish_turn hw₁ hpid hprocess hreason₁ hchain₁⟩
  · cases h

theorem exitStart_turn {m : GuestMemory} {ppollStatus : Errno} (hphase : t.Phase)
    (hchain : t.config.chainState ≠ .shmatSocket)
    (hstate : t.config.waitState = .enteredPpoll ∨ t.config.waitState = .signaledPpoll ∨
      t.config.waitState = .enteredGetpid)
    (h : exitStart m w t ppollStatus = .ok w') : ∃ t', Turn .queue w t t' w' := by
  have hresumed : ∀ (h : (resume m w t).bind (fun r => .ok (r.2.2.setTracee (r.2.1.finish r.1))) =
      .ok w') (_ : t.config.waitState = .signaledPpoll ∨ t.config.waitState = .enteredGetpid ∨
        t.config.waitState = .restartedIntoPpollCanceled), ∃ t', Turn .queue w t t' w' := by
    intro h hstate
    obtain ⟨⟨status, t₁, w₁⟩, hresume, h⟩ := bind_eq_ok.mp h
    cases h
    obtain ⟨hreason, hretry⟩ := hphase.resumes hstate hchain
    obtain ⟨hw₁, hpid, hprocess, hreason₁, hchain₁⟩ := resume_spec hreason hretry hresume
    exact ⟨_, finish_turn hw₁ hpid hprocess hreason₁ hchain₁⟩
  unfold exitStart at h
  split at h
  · rename_i hstate
    split at h
    · cases h
    · cases h
      have hchain := (hphase.of_blocked (.inl hstate)).1
      exact ⟨_, .of_setTracee .queue rfl rfl (.idle rfl rfl hchain rfl) (.inl rfl)
        fun h => absurd rfl h⟩
  · rename_i hstate
    split at h
    · cases h
    · exact hresumed h (.inl hstate)
  · rename_i hstate
    split at h
    · cases h
    · exact hresumed h (.inr (.inl hstate))
  · rename_i hnone
    exact absurd hstate (by simp [hnone])
  · cases h

theorem Tracee.Phase.wokenToAttach (hphase : t.Phase) (hchain : t.config.chainState = .shmatSocket)
    (hstate : t.config.waitState ≠ .notWaiting) :
    t.config.waitReason = .notWaiting ∧ t.asked.kind = some .segment ∧
      Resumes .segment t.config.chainState t.config.statusAfterWait := by
  cases hphase with
  | idle _ h | attaching _ h => exact absurd h hstate
  | answering _ _ h | waiting _ _ h => rw [hchain] at h; cases h
  | woken hreason _ hresumes hasked =>
      obtain ⟨-, rfl⟩ := hresumes.attaches (by rw [hchain]; rfl)
      exact ⟨hreason, hasked, hresumes⟩

theorem chainedEnter_turn (hphase : t.Phase) (hchain : t.config.chainState = .shmatSocket)
    (hstate : t.config.waitState = .restartedIntoPpollCanceled) (h : chainedEnter w t = .ok w') :
    ∃ t', Turn .segment w t t' w' := by
  obtain ⟨hreason, hasked, hresumes⟩ := hphase.wokenToAttach hchain (by simp [hstate])
  simp only [chainedEnter, hstate, Except.ok.injEq] at h
  subst h
  exact ⟨_, .of_setTracee .segment rfl rfl (.woken hreason (.inl rfl) hresumes hasked)
    (.inl hreason) fun _ _ h => (Option.some.inj (hasked.symm.trans h)).symm⟩

theorem chainedExit_turn (hphase : t.Phase) (hchain : t.config.chainState = .shmatSocket)
    (hstate : t.config.waitState = .signaledPpoll) (h : chainedExit w t = .ok w') :
    ∃ t', Turn .segment w t t' w' := by
  obtain ⟨hreason, hasked, -⟩ := hphase.wokenToAttach hchain (by simp [hstate])
  simp only [chainedExit, hstate, Except.ok.injEq] at h
  subst h
  exact ⟨_, .of_setTracee .segment rfl rfl (.attaching hreason rfl (by rw [hchain]; rfl) hasked)
    (.inl hreason) fun _ _ h => (Option.some.inj (hasked.symm.trans h)).symm⟩

theorem connect_turn (ht : t.Attaches) (hchain : t.config.chainState.attaches = true)
    (helper : Helper) (connection nextAddress : Nat) (hnext : w.nextAddress ≤ nextAddress) :
    Turn .segment w t { t with connection := some connection }
      ({ w with helper, nextAddress }.setTracee { t with connection := some connection }) := by
  have hturn : Turn .segment w t { t with connection := some connection }
      (w.setTracee { t with connection := some connection }) :=
    chain_turn ht rfl rfl rfl rfl rfl hchain
  exact { hturn with
    tracees := hturn.tracees, nextAddress := hnext, segments := fun h => absurd rfl h }

/-- **A step is a turn** of the tracee that it is about. -/
theorem run_turn (hw : w.Regular) (ht : t ∈ w.tracees) (henabled : e.enabled w t = true)
    (hprocess : e.isProcess = false) (h : e.run w t = .ok w') : ∃ t', Turn e.kind w t t' w' := by
  have hphase := hw.phases t ht
  cases e with
  | call pid m fromSigsys c =>
      simp only [Event.enabled, Bool.and_eq_true] at henabled
      obtain ⟨_, _, _, t', _, _, _, _, hturn⟩ := call_turn hw ht henabled.1 h
      exact ⟨t', hturn⟩
  | enterStart pid m =>
      simp only [Event.enabled, Bool.or_eq_true, Config.stopped_iff] at henabled
      have hchain : t.config.chainState ≠ .shmatSocket := by grind
      exact enterStart_turn hphase hchain h
  | exitStart pid m ppollStatus =>
      simp only [Event.enabled, Bool.or_eq_true, Config.stopped_iff] at henabled
      have hchain : t.config.chainState ≠ .shmatSocket := by grind
      exact exitStart_turn hphase hchain (by grind) h
  | chainedEnter pid =>
      obtain ⟨hchain, hstate⟩ := Config.stopped_iff.mp henabled
      exact chainedEnter_turn hphase (hchain.mpr rfl) hstate h
  | chainedExit pid =>
      obtain ⟨hchain, hstate⟩ := Config.stopped_iff.mp henabled
      exact chainedExit_turn hphase (hchain.mpr rfl) hstate h
  | socketDone pid m fd guestAddr =>
      obtain ⟨hchain, hstate⟩ := Config.stopped_iff.mp henabled
      have hattaches := hphase.attaches (by rw [hchain.mpr rfl]; rfl) fun _ => hstate
      exact chainSocket_turn hw hattaches h
  | connect pid =>
      simp only [Event.enabled, Bool.and_eq_true, decide_eq_true_eq] at henabled
      have hchain : t.config.chainState.attaches = true := by rw [henabled.1]; rfl
      have hattaches := hphase.attaches hchain (by simp [henabled.1])
      cases h
      exact ⟨_, connect_turn hattaches hchain _ _ _ (Nat.le_succ _)⟩
  | connectDone pid m result guestAddr =>
      simp only [Event.enabled, Bool.and_eq_true, decide_eq_true_eq] at henabled
      have hattaches := hphase.attaches (by rw [henabled.1]; rfl) (by simp [henabled.1])
      exact chainConnect_turn hw hattaches h
  | recvmsgDone pid fd =>
      simp only [Event.enabled, Bool.and_eq_true, decide_eq_true_eq] at henabled
      have hattaches := hphase.attaches (by rw [henabled.1]; rfl) (by simp [henabled.1])
      exact chainRecvmsg_turn hw hattaches h
  | mmapDone pid addr =>
      simp only [Event.enabled, Bool.and_eq_true, decide_eq_true_eq] at henabled
      have hattaches := hphase.attaches (by rw [henabled.1]; rfl) (by simp [henabled.1])
      exact chainMmap_turn hw hattaches h
  | helper => cases henabled
  | clone | execve | death => cases hprocess

/-! ## Processes -/

structure Tracee.Fresh (t : Tracee) : Prop where
  waitReason : t.config.waitReason = .notWaiting
  phase : t.Phase
  asked : t.asked = .nothing
  chainState : t.config.chainState = .notChained

theorem clone_spec (w : World) (t : Tracee) (pid : Nat) (thread vm : Bool) :
    ∃ child, child.Fresh ∧ child.pid = pid ∧
      (clone w t pid thread vm).tracees = child :: w.tracees ∧
      (clone w t pid thread vm).queues = w.queues ∧
      (clone w t pid thread vm).semaphores = w.semaphores ∧
      w.nextAddress ≤ (clone w t pid thread vm).nextAddress := by
  have hfresh : ∀ config : Config, config.waitReason = .notWaiting →
      config.waitState = .notWaiting → config.chainState = .notChained →
      ({ pid, config, result := .ok 0, asked := .nothing, mapSize := 0, connection := none,
          memFd := none } : Tracee).Fresh :=
    fun _ hreason hstate hchain => ⟨hreason, .idle hreason hstate hchain rfl, rfl, hchain⟩
  unfold clone
  cases thread with
  | true => exact ⟨_, hfresh _ rfl rfl rfl, rfl, rfl, rfl, rfl, Nat.le_refl _⟩
  | false =>
      cases w.process? t.config.process with
      | none => exact ⟨_, hfresh _ rfl rfl rfl, rfl, rfl, rfl, rfl, Nat.le_refl _⟩
      | some parent => exact ⟨_, hfresh _ rfl rfl rfl, rfl, rfl, rfl, rfl, Nat.le_succ _⟩

theorem execve_only {success : Bool} (h : execve w t success = .ok w') : SegmentsOnly w w' := by
  unfold execve at h
  split at h
  · cases h
    exact .refl w
  · obtain ⟨w₁, hremove, h⟩ := bind_eq_ok.mp h
    have honly := removeMappingsFromProcess_only hremove
    split at h
    · cases h
      exact honly.trans ⟨rfl, Nat.le_succ _, rfl, rfl⟩
    · cases h
      exact honly

theorem death_only (h : death w t = .ok w') :
    SegmentsOnly { w with tracees := w.tracees.filter (·.pid ≠ t.pid) } w' := by
  simp only [death] at h
  split at h
  · cases h
    exact .refl _
  split at h
  · cases h
    exact .refl _
  · obtain ⟨w₁, hremove, h⟩ := bind_eq_ok.mp h
    cases h
    exact (removeMappingsFromProcess_only hremove).trans ⟨rfl, Nat.le_refl _, rfl, rfl⟩

end Run

/-! ## The invariant of every run -/

theorem World.Regular.step {w w' : World} {e : Event} (hw : w.Regular)
    (h : SysVIpc.step (.ok w) e = some (.ok w')) : w'.Regular := by
  rcases step_cases h with ⟨-, _, -, rfl⟩ | ⟨t, ht, -, henabled, hrun⟩
  · exact ⟨hw.pids, hw.phases⟩
  by_cases hprocess : e.isProcess = true
  · cases e with
    | clone pid child thread vm =>
        cases hrun
        obtain ⟨u, hu, hpid, htracees, -⟩ := clone_spec w t child thread vm
        simp only [Event.enabled, Bool.and_eq_true, Option.isNone_iff_eq_none] at henabled
        have hnew : u.pid ∉ w.tracees.map (·.pid) := by
          intro hmem
          obtain ⟨v, hv, hpids⟩ := List.mem_map.mp hmem
          have hnone := List.find?_eq_none.mp henabled.1 v hv
          rw [hpids, hpid] at hnone
          simp at hnone
        refine ⟨?_, ?_⟩
        · show (List.map _ (clone w t child thread vm).tracees).Nodup
          rw [htracees, List.map_cons, List.nodup_cons]
          exact ⟨hnew, hw.pids⟩
        · show ∀ v ∈ (clone w t child thread vm).tracees, v.Phase
          rw [htracees]
          exact List.forall_mem_cons.mpr ⟨hu.phase, hw.phases⟩
    | execve pid success =>
        have honly := execve_only hrun
        refine ⟨?_, ?_⟩
        · rw [honly.tracees]
          exact hw.pids
        · rw [honly.tracees]
          exact hw.phases
    | death pid =>
        have honly := death_only hrun
        refine ⟨?_, ?_⟩
        · rw [honly.tracees]
          exact List.Nodup.sublist (List.filter_sublist.map _) hw.pids
        · rw [honly.tracees]
          exact fun u hu => hw.phases u (List.mem_of_mem_filter hu)
    | _ => cases hprocess
  · obtain ⟨t', hturn⟩ := run_turn hw ht henabled (by simpa using hprocess) hrun
    exact hturn.regular hw

theorem initial_regular (pid : Nat) : (World.initial pid).Regular := by
  refine ⟨List.nodup_singleton _, ?_⟩
  intro t ht
  cases List.mem_singleton.mp ht
  exact .idle rfl rfl rfl rfl

theorem reach_world {ok : Session → Event → Prop} {inv : World → Prop}
    (hinit : ∀ pid, inv (.initial pid))
    (hstep : ∀ w e w', w.Regular → inv w → ok (.ok w) e → step (.ok w) e = some (.ok w') → inv w')
    {w : World} (h : system.Reach ok (.ok w)) : inv w := by
  have hall : ∀ s, system.Reach ok s → ∀ w, s = .ok w → w.Regular ∧ inv w := by
    intro s hs
    apply @Lib.System.Reach.invariant _ _ _ _ (fun s => ∀ w, s = .ok w → w.Regular ∧ inv w) s _ _ hs
    · rintro _ ⟨pid, rfl⟩ w hw
      cases hw
      exact ⟨initial_regular pid, hinit pid⟩
    · intro s e s' ih hok hs w hw
      subst hw
      cases s with
      | error a => cases hs
      | ok v =>
          obtain ⟨hregular, hv⟩ := ih v rfl
          exact ⟨hregular.step hs, hstep v e w hregular hv hok hs⟩
  exact (hall _ h w rfl).2

theorem reach_regular {ok : Session → Event → Prop} {w : World} (h : system.Reach ok (.ok w)) :
    w.Regular :=
  reach_world initial_regular (fun _ _ _ hw _ _ hstep => hw.step hstep) h

end Improot.SysVIpc
