import Mathlib.Data.List.Nodup
import Improot.SysVIpc.Handled

/-!
# Steps

What one step of a session changes, and the invariant that every step keeps: the tracees are known
by their pids, and each is in a phase.
-/

namespace Improot.SysVIpc

/-! ## The list of the tracees -/

section Tracees

variable {w : World} {t u : Tracee}

theorem tracee?_mem {pid : Nat} (h : w.tracee? pid = some t) : t ∈ w.tracees ∧ t.pid = pid := by
  have hpid := List.find?_some h
  exact ⟨List.mem_of_find?_eq_some h, by simpa using hpid⟩

theorem mem_setTracee (h : u ∈ (w.setTracee t).tracees) :
    u = t ∨ u ∈ w.tracees ∧ u.pid ≠ t.pid := by
  obtain ⟨v, hv, rfl⟩ := List.mem_map.mp h
  split
  · exact .inl rfl
  · rename_i hne
    exact .inr ⟨hv, hne⟩

theorem setTracee_mem_of_ne (hu : u ∈ w.tracees) (hne : u.pid ≠ t.pid) :
    u ∈ (w.setTracee t).tracees :=
  List.mem_map.mpr ⟨u, hu, by rw [if_neg hne]⟩

theorem setTracee_pids : (w.setTracee t).tracees.map (·.pid) = w.tracees.map (·.pid) := by
  rw [World.setTracee, List.map_map]
  refine List.map_congr_left fun u _ => ?_
  simp only [Function.comp]
  split
  · rename_i h
    exact h.symm
  · rfl

theorem World.Regular.setTracee (hw : w.Regular) (ht : t.Phase) : (w.setTracee t).Regular := by
  refine ⟨by rw [setTracee_pids]; exact hw.pids, ?_⟩
  intro u hu
  rcases mem_setTracee hu with rfl | ⟨hu, -⟩
  · exact ht
  · exact hw.phases u hu

theorem World.Regular.pid_injective (hw : w.Regular) (ht : t ∈ w.tracees) (hu : u ∈ w.tracees)
    (h : t.pid = u.pid) : t = u :=
  List.inj_on_of_nodup_map hw.pids ht hu h

theorem World.Regular.tracee?_eq (hw : w.Regular) (ht : t ∈ w.tracees) :
    w.tracee? t.pid = some t := by
  cases hfind : w.tracee? t.pid with
  | some u =>
      obtain ⟨hmem, hpid⟩ := tracee?_mem hfind
      rw [hw.pid_injective hmem ht hpid]
  | none =>
      have hnone := List.find?_eq_none.mp hfind t ht
      simp at hnone

end Tracees

/-! ## Turns -/

structure Tracee.SameWait (t t' : Tracee) : Prop where
  waitReason : t'.config.waitReason = t.config.waitReason
  waitingObjectIndex : t'.config.waitingObjectIndex = t.config.waitingObjectIndex
  semopSops : t'.config.semopSops = t.config.semopSops
  msgrcvMsgp : t'.config.msgrcvMsgp = t.config.msgrcvMsgp
  msgrcvMsgsz : t'.config.msgrcvMsgsz = t.config.msgrcvMsgsz
  msgrcvMsgtyp : t'.config.msgrcvMsgtyp = t.config.msgrcvMsgtyp
  msgrcvMsgflg : t'.config.msgrcvMsgflg = t.config.msgrcvMsgflg
  asked : t'.asked = t.asked

/-- What a step that is about a tracee and some kind of objects can change. -/
structure Turn (kind : Kind) (w : World) (t t' : Tracee) (w' : World) : Prop where
  pid : t'.pid = t.pid
  process : t'.config.process = t.config.process
  phase : t'.Phase
  waiting : ∀ other, t'.config.waitReason.kind = some other → t.SameWait t' ∨ other = kind
  asked : kind ≠ .queue → ∀ other, t'.asked.kind = some other → other = kind
  tracees : WakesAll kind (w.setTracee t').tracees w'.tracees
  nextAddress : w.nextAddress ≤ w'.nextAddress
  queues : kind ≠ .queue → w'.queues = w.queues
  semaphores : kind ≠ .semaphore → w'.semaphores = w.semaphores
  segments : kind ≠ .segment → w'.shms = w.shms ∧ w'.processes = w.processes ∧
    w'.helper = w.helper ∧ w'.spaces = w.spaces

variable {t' : Tracee} {kind : Kind} {status : Status}

variable {w w' : World} {t : Tracee}

theorem Turn.of_setTracee (kind : Kind) (hpid : t'.pid = t.pid)
    (hprocess : t'.config.process = t.config.process) (hphase : t'.Phase)
    (hwaiting : t'.config.waitReason = .notWaiting ∨ t.SameWait t')
    (hasked : kind ≠ .queue → ∀ other, t'.asked.kind = some other → other = kind) :
    Turn kind w t t' (w.setTracee t') where
  pid := hpid
  process := hprocess
  phase := hphase
  waiting other h := by
    rcases hwaiting with hreason | hsame
    · rw [hreason] at h
      cases h
    · exact .inl hsame
  asked := hasked
  tracees := .refl kind _
  nextAddress := Nat.le_refl _
  queues _ := rfl
  semaphores _ := rfl
  segments _ := ⟨rfl, rfl, rfl, rfl⟩

theorem Turn.regular (h : Turn kind w t t' w') (hw : w.Regular) : w'.Regular := by
  obtain ⟨hpids, hphases⟩ := h.tracees.regular (hw.setTracee h.phase)
  exact ⟨hpids, hphases⟩

/-- Whoever waits after a turn waited before, or it is the tracee of the turn and waits for an
object of its kind. -/
theorem Turn.waiting_before (h : Turn kind w t t' w')
    (ht : t ∈ w.tracees) {u : Tracee} (hu : u ∈ w'.tracees) {other : Kind}
    (hreason : u.config.waitReason.kind = some other) :
    (∃ v ∈ w.tracees, v.SameWait u) ∨ other = kind := by
  have hne : u.config.waitReason ≠ .notWaiting := by
    intro h
    rw [h] at hreason
    cases hreason
  rcases mem_setTracee (h.tracees.waiting hu hne) with rfl | ⟨hu, -⟩
  · rcases h.waiting other hreason with hsame | hkind
    · exact .inl ⟨t, ht, hsame⟩
    · exact .inr hkind
  · exact .inl ⟨u, hu, ⟨rfl, rfl, rfl, rfl, rfl, rfl, rfl, rfl⟩⟩

/-! ## System calls -/

theorem syscallCommon_phase {fromSigsys : Bool}
    (hleft : t.Left kind) (hstate : t.config.waitState = .notWaiting)
    (h : syscallCommon fromSigsys status t = .ok t') :
    t'.Phase ∧ ∃ waitState chainState statusAfterWait result,
      t' = { t with
        result
        config := { t.config with waitState, chainState, statusAfterWait } } := by
  unfold syscallCommon at h
  dsimp only at h
  cases hleft with
  | done hreason hchain hasked =>
      rcases hchain with hchain | hchain
      · rw [if_neg (not_not.mpr hchain), if_neg (not_not.mpr hreason)] at h
        split at h
        · cases h
          exact ⟨.idle hreason hstate hchain hasked, _, _, _, _, rfl⟩
        · cases h
          exact ⟨.answering hreason rfl hchain hasked, _, _, _, _, rfl⟩
      · rw [if_pos (by simp [hchain])] at h
        simp only [hchain, Except.ok.injEq] at h
        subst h
        exact ⟨.idle hreason hstate rfl hasked, _, _, _, _, rfl⟩
  | waits hreason hchain hasked =>
      have hne : t.config.waitReason ≠ .notWaiting := by
        intro h
        rw [h] at hreason
        cases hreason
      rw [if_neg (not_not.mpr hchain), if_pos hne] at h
      cases h
      refine ⟨.waiting hreason ?_ hchain hasked, _, _, _, _, rfl⟩
      cases fromSigsys
      · exact .inl rfl
      · exact .inr rfl
  | starts hreason hchain hasked hkind =>
      rw [if_pos (by simp [hchain])] at h
      simp only [hchain, Except.ok.injEq] at h
      subst h
      exact ⟨.attaching hreason hstate (by rw [hchain]; rfl) hasked, _, _, _, _, rfl⟩

theorem WakesAll.setTracee (h : WakesAll kind w.tracees w'.tracees) :
    WakesAll kind (w.setTracee t).tracees (w'.setTracee t).tracees := by
  rw [WakesAll, World.setTracee, World.setTracee, List.forall₂_map_left_iff,
    List.forall₂_map_right_iff]
  refine List.Forall₂.imp ?_ h
  intro u v huv
  rw [huv.pid]
  split
  · exact .same
  · exact huv

theorem call_turn {m : GuestMemory} {fromSigsys : Bool} {c : Syscall}
    (hw : w.Regular) (ht : t ∈ w.tracees) (hidle : t.config.idle = true)
    (h : call m w t fromSigsys c = .ok w') :
    ∃ status t₁ w₁ t', c.handle m w { t with asked := .nothing } = .ok (status, t₁, w₁) ∧
      Handled c.kind w t t₁ w₁ ∧ t₁.SameWait t' ∧ w' = w₁.setTracee t' ∧ Turn c.kind w t t' w' := by
  obtain ⟨hreason, hstate, hchain, hasked⟩ := (hw.phases t ht).of_idle hidle
  have hcalls : ({ t with asked := .nothing } : Tracee).Calls := ⟨hreason, hstate, hchain, rfl⟩
  obtain ⟨⟨status, t₁, w₁⟩, hhandle, h⟩ := bind_eq_ok.mp h
  obtain ⟨t', hcommon, h⟩ := bind_eq_ok.mp h
  cases h
  have hhandled := handle_handled hw hcalls hhandle
  have hstate₁ : t₁.config.waitState = .notWaiting := hhandled.waitState.trans hstate
  obtain ⟨hphase, _, _, _, _, heq⟩ := syscallCommon_phase hhandled.left hstate₁ hcommon
  have hhandled : Handled c.kind w t t₁ w₁ := { hhandled with }
  have hsame : t₁.SameWait t' := by
    rw [heq]
    exact ⟨rfl, rfl, rfl, rfl, rfl, rfl, rfl, rfl⟩
  refine ⟨status, t₁, w₁, t', hhandle, hhandled, hsame, rfl, ?_⟩
  constructor
  · rw [heq]
    exact hhandled.pid
  · rw [heq]
    exact hhandled.process
  · exact hphase
  · intro other hother
    right
    rw [hsame.waitReason] at hother
    cases hhandled.left with
    | done h | starts h =>
        rw [h] at hother
        cases hother
    | waits h =>
        rw [h] at hother
        exact (Option.some.inj hother).symm
  · intro _ other hother
    rw [hsame.asked] at hother
    cases hhandled.left with
    | done _ _ h =>
        rw [h] at hother
        cases hother
    | waits _ _ h =>
        rw [h] at hother
        exact (Option.some.inj hother).symm
    | starts _ _ h hkind =>
        rw [h] at hother
        rw [hkind]
        exact (Option.some.inj hother).symm
  · exact hhandled.tracees.setTracee
  · exact hhandled.nextAddress
  · exact hhandled.queues
  · exact hhandled.semaphores
  · exact hhandled.segments

/-! ## The end of a wait -/

theorem resume_spec {m : GuestMemory} (hreason : t.config.waitReason = .notWaiting)
    (hchain : t.config.chainState = .notChained ∨ t.config.chainState = .msgrcvRetry)
    (h : resume m w t = .ok (status, t', w')) :
    w' = { w with queues := w'.queues } ∧ t'.pid = t.pid ∧
      t'.config.process = t.config.process ∧ t'.config.waitReason = .notWaiting ∧
      t'.config.chainState = .notChained := by
  unfold resume at h
  split at h
  · simp only [msgrcvRetry] at h
    split at h
    · split at h
      · cases h
      split at h
      · cases h
      · rename_i queue _ _
        rcases hrun : doMsgrcv m t t.config.waitingObjectIndex queue with ⟨status₁, t₁, queue₁⟩
        rw [hrun] at h
        have hkeeps : t₁.pid = t.pid ∧ t₁.config.process = t.config.process := by
          simp only [doMsgrcv] at hrun
          (repeat' split at hrun) <;> cases hrun <;> exact ⟨rfl, rfl⟩
        dsimp only at h
        split at h
        · cases h
          exact ⟨rfl, hkeeps.1, hkeeps.2, rfl, rfl⟩
        · rename_i hwait
          cases h
          exact ⟨rfl, hkeeps.1, hkeeps.2, not_not.mp hwait, rfl⟩
    · cases h
      exact ⟨rfl, rfl, rfl, hreason, rfl⟩
  · rename_i hne
    cases h
    exact ⟨rfl, rfl, rfl, hreason, hchain.resolve_right hne⟩

theorem finish_turn (hw' : w' = { w with queues := w'.queues }) (hpid : t'.pid = t.pid)
    (hprocess : t'.config.process = t.config.process)
    (hreason : t'.config.waitReason = .notWaiting)
    (hchain : t'.config.chainState = .notChained) :
    Turn .queue w t (t'.finish status) (w'.setTracee (t'.finish status)) := by
  have hturn : Turn .queue w t (t'.finish status) (w.setTracee (t'.finish status)) :=
    .of_setTracee .queue hpid hprocess (.idle hreason rfl hchain rfl) (.inl hreason)
      (fun h => absurd rfl h)
  rw [hw']
  exact { hturn with queues := fun h => absurd rfl h }

/-! ## The chain of a shmat -/

/-- A tracee that attaches a segment: it doesn't wait. -/
structure Tracee.Attaches (t : Tracee) : Prop where
  waitReason : t.config.waitReason = .notWaiting
  waitState : t.config.waitState = .notWaiting
  asked : t.asked.kind = some .segment

theorem Resumes.attaches {chainState : ChainState}
    (h : Resumes kind chainState status) (hchain : chainState.attaches = true) :
    chainState = .shmatSocket ∧ kind = .segment := by
  cases h with
  | queue | semaphore | retry => cases hchain
  | attach => exact ⟨rfl, rfl⟩

theorem Tracee.Phase.attaches (h : t.Phase) (hchain : t.config.chainState.attaches = true)
    (hstate : t.config.chainState = .shmatSocket → t.config.waitState = .notWaiting) :
    t.Attaches := by
  cases h with
  | attaching hreason hstate _ hasked => exact ⟨hreason, hstate, hasked⟩
  | idle _ _ h | answering _ _ h | waiting _ _ h =>
      rw [h] at hchain
      cases hchain
  | woken hreason _ hresumes hasked =>
      obtain ⟨hsocket, rfl⟩ := hresumes.attaches hchain
      exact ⟨hreason, hstate hsocket, hasked⟩

theorem wakePendingShmat_wakes (hphases : ∀ t ∈ w.tracees, t.Phase)
    (h : wakePendingShmat w = .ok w') :
    WakesAll .segment w.tracees w'.tracees ∧ w' = { w with tracees := w'.tracees } := by
  obtain ⟨tracees, hwake, h⟩ := bind_eq_ok.mp h
  cases h
  refine ⟨wakeFirst_wakes .attach (fun c hc => ?_) hphases hwake, rfl⟩
  have hreason : c.waitReason = .waitShmatHelperBusy := by simpa using hc
  rw [hreason]
  rfl

def Tracee.leave (t : Tracee) : Tracee :=
  { t with
    asked := .nothing
    config := { t.config with chainState := .notChained } }

theorem leaveChain_spec {mapped : Option (Word × Word)} (h : leaveChain w t mapped = .ok w') :
    ∃ p w₁, w.process? t.config.process = some p ∧
      p.mappedShms.any (SharedMemMap.pending t.config.waitingObjectIndex) = true ∧
      wakePendingShmat w₁ = .ok w' ∧
      match mapped with
      | none =>
          freeMapping (w.setTracee t.leave) p (SharedMemMap.pending t.config.waitingObjectIndex) =
            .ok w₁
      | some (addr, size) =>
          w₁ = (w.setTracee t.leave).setProcess { p with
            mappedShms := p.mappedShms.replaceF fun mapping =>
              if mapping.pending t.config.waitingObjectIndex then
                some { mapping with addr, size }
              else none } := by
  simp only [leaveChain] at h
  split at h
  · cases h
  · rename_i p hprocess
    split at h
    · rename_i hany
      cases mapped with
      | none =>
          obtain ⟨w₁, hmapping, hwake⟩ := bind_eq_ok.mp h
          exact ⟨p, w₁, hprocess, hany, hwake, hmapping⟩
      | some r =>
          obtain ⟨w₁, hmapping, hwake⟩ := bind_eq_ok.mp h
          cases hmapping
          exact ⟨p, _, hprocess, hany, hwake, rfl⟩
    · cases h

theorem leaveChain_turn {mapped : Option (Word × Word)}
    (hw : w.Regular) (ht : t.Attaches) (h : leaveChain w t mapped = .ok w') :
    Turn .segment w t t.leave w' := by
  have hphase : t.leave.Phase := .idle ht.waitReason ht.waitState rfl rfl
  have hset : Turn .segment w t t.leave (w.setTracee t.leave) :=
    .of_setTracee .segment rfl rfl hphase (.inl ht.waitReason) fun _ _ h => by cases h
  obtain ⟨p, w₁, -, -, hwake, hmapping⟩ := leaveChain_spec h
  have honly : SegmentsOnly (w.setTracee t.leave) w₁ := by
    cases mapped with
    | none => exact freeMapping_only hmapping
    | some r =>
        rw [hmapping]
        exact setProcess_only _ _
  have hphases : ∀ u ∈ w₁.tracees, u.Phase := by
    rw [honly.tracees]
    exact (hw.setTracee hphase).phases
  obtain ⟨hwakes, hw'⟩ := wakePendingShmat_wakes hphases hwake
  rw [honly.tracees] at hwakes
  rw [hw']
  exact { hset with
    tracees := hwakes, nextAddress := honly.nextAddress, queues := fun _ => honly.queues
    semaphores := fun _ => honly.semaphores, segments := fun h => absurd rfl h }

theorem chain_turn (ht : t.Attaches) (hpid : t'.pid = t.pid)
    (hprocess : t'.config.process = t.config.process)
    (hreason : t'.config.waitReason = t.config.waitReason)
    (hstate : t'.config.waitState = t.config.waitState) (hasked : t'.asked = t.asked)
    (hchain : t'.config.chainState.attaches = true) :
    Turn .segment w t t' (w.setTracee t') := by
  have hnone := hreason.trans ht.waitReason
  have hkind : t'.asked.kind = some .segment := hasked ▸ ht.asked
  exact .of_setTracee .segment hpid hprocess
    (.attaching hnone (hstate.trans ht.waitState) hchain hkind) (.inl hnone)
    fun _ _ h => (Option.some.inj (hkind.symm.trans h)).symm

theorem mmapped_only (w : World) (t : Tracee) (addr : Word) :
    ∃ spaces, w.mmapped t addr = { w with spaces } := by
  unfold World.mmapped
  split
  · exact ⟨_, rfl⟩
  · exact ⟨w.spaces, rfl⟩

section Chain

variable {m : GuestMemory} {w w' : World} {t : Tracee} (hw : w.Regular) (ht : t.Attaches)

include hw ht

theorem chainSocket_turn {fd : Int} {guestAddr : Word}
    (h : chainSocket m w t fd guestAddr = .ok w') : ∃ t', Turn .segment w t t' w' := by
  obtain ⟨_, -, h⟩ := bind_eq_ok.mp h
  split at h
  · exact ⟨_, leaveChain_turn hw ht h⟩
  split at h
  · exact ⟨_, leaveChain_turn hw ht h⟩
  · cases h
    exact ⟨_, chain_turn ht rfl rfl rfl rfl rfl rfl⟩

theorem chainConnect_turn {result : Int} {guestAddr : Word}
    (h : chainConnect m w t result guestAddr = .ok w') : ∃ t', Turn .segment w t t' w' := by
  obtain ⟨shm, -, h⟩ := bind_eq_ok.mp h
  split at h
  · exact ⟨_, leaveChain_turn hw ht h⟩
  split at h
  · exact ⟨_, leaveChain_turn hw ht h⟩
  · cases h
    have hturn : Turn .segment w t { t with config := { t.config with chainState := .shmatRecvmsg } }
        (w.setTracee { t with config := { t.config with chainState := .shmatRecvmsg } }) :=
      chain_turn ht rfl rfl rfl rfl rfl rfl
    exact ⟨_, { hturn with tracees := hturn.tracees, segments := fun h => absurd rfl h }⟩

theorem chainRecvmsg_turn {fd : Option Word} (h : chainRecvmsg w t fd = .ok w') :
    ∃ t', Turn .segment w t t' w' := by
  obtain ⟨shm, -, h⟩ := bind_eq_ok.mp h
  split at h
  · exact ⟨_, leaveChain_turn hw ht h⟩
  split at h
  · exact ⟨_, leaveChain_turn hw ht h⟩
  · cases h
    exact ⟨_, chain_turn ht rfl rfl rfl rfl rfl rfl⟩

theorem chainMmap_turn {addr : Word} (h : chainMmap w t addr = .ok w') :
    ∃ t', Turn .segment w t t' w' := by
  obtain ⟨shm, -, h⟩ := bind_eq_ok.mp h
  obtain ⟨spaces, hspaces⟩ := mmapped_only w t addr
  rw [hspaces] at h
  have hregular : ({ w with spaces } : World).Regular := ⟨hw.pids, hw.phases⟩
  have hturn := leaveChain_turn hregular ht h
  exact ⟨_, { hturn with segments := fun h => absurd rfl h }⟩

end Chain

end Improot.SysVIpc
