import Improot.SysVIpc.Phase

/-!
# What a system call can change

A handler changes the objects of its own kind, wakes tracees that wait for them, and leaves its
caller done, waiting, or at the start of a chain.
-/

namespace Improot.SysVIpc

def Syscall.kind : Syscall → Kind
  | .msgget .. | .msgsnd .. | .msgrcv .. | .msgctl .. => .queue
  | .semget .. | .semop .. | .semctl .. => .semaphore
  | .shmget .. | .shmat .. | .shmdt .. | .shmctl .. => .segment

/-- What a handler makes of its caller: it is done, waits, or starts a chain. -/
inductive Tracee.Left (kind : Kind) (t : Tracee) : Prop
  | done : t.config.waitReason = .notWaiting →
      (t.config.chainState = .notChained ∨ t.config.chainState = .single) → t.asked = .nothing →
      t.Left kind
  | waits : t.config.waitReason.kind = some kind → t.config.chainState = .notChained →
      t.asked.kind = some kind → t.Left kind
  | starts : t.config.waitReason = .notWaiting → t.config.chainState = .shmatSocket →
      t.asked.kind = some .segment → kind = .segment → t.Left kind

structure Handled (kind : Kind) (w : World) (t t' : Tracee) (w' : World) : Prop where
  pid : t'.pid = t.pid
  process : t'.config.process = t.config.process
  waitState : t'.config.waitState = t.config.waitState
  left : t'.Left kind
  tracees : WakesAll kind w.tracees w'.tracees
  nextAddress : w.nextAddress ≤ w'.nextAddress
  queues : kind ≠ .queue → w'.queues = w.queues
  semaphores : kind ≠ .semaphore → w'.semaphores = w.semaphores
  segments : kind ≠ .segment → w'.shms = w.shms ∧ w'.processes = w.processes ∧
    w'.helper = w.helper ∧ w'.spaces = w.spaces

/-- A tracee that calls: it doesn't wait, and nothing is recorded for it yet. -/
structure Tracee.Calls (t : Tracee) : Prop where
  waitReason : t.config.waitReason = .notWaiting
  waitState : t.config.waitState = .notWaiting
  chainState : t.config.chainState = .notChained
  asked : t.asked = .nothing

section Handlers

variable {m : GuestMemory} {w w' : World} {t t' : Tracee} {status : Status} {kind : Kind}

theorem Tracee.Calls.left (ht : t.Calls) (kind : Kind) : t.Left kind :=
  .done ht.waitReason (.inl ht.chainState) ht.asked

theorem Handled.same (ht : t.Calls) (kind : Kind) (w : World) : Handled kind w t t w :=
  ⟨rfl, rfl, rfl, ht.left kind, .refl kind _, Nat.le_refl _, fun _ => rfl, fun _ => rfl,
    fun _ => ⟨rfl, rfl, rfl, rfl⟩⟩

/-! ## Message queues -/

theorem msgget_handled (ht : t.Calls) (key msgflg : Word) :
    Handled .queue w t t (msgget w key msgflg).2 := by
  have hsame := Handled.same ht .queue w
  unfold msgget msggetSlot
  split <;> rename_i hslot <;> split at hslot <;> split at hslot <;>
    (try split at hslot) <;> cases hslot <;> first
    | exact hsame
    | exact { hsame with nextAddress := Nat.le_succ _, queues := fun h => absurd rfl h }

theorem receives_kind {index : Nat} {item : MsgQueueItem} {c : Config}
    (h : c.receives index item = true) : c.waitReason.kind = some .queue := by
  simp only [Config.receives, Bool.and_eq_true] at h
  rw [(Config.waitsOn_kind h.1).1]
  rfl

theorem waitsOn_reason_kind {reason : WaitReason} {index : Nat} {c : Config} {kind : Kind}
    (hreason : reason.kind = some kind) (h : c.waitsOn reason index = true) :
    c.waitReason.kind = some kind := by
  rw [(Config.waitsOn_kind h).1, hreason]

theorem msgsnd_handled (hw : w.Regular) (ht : t.Calls) {id msgp msgsz : Word}
    (h : msgsnd m w t id msgp msgsz = .ok (status, t', w')) : Handled .queue w t t' w' := by
  have hsame := Handled.same ht .queue w
  unfold msgsnd at h
  split at h
  · cases h
    exact hsame
  split at h
  · cases h
    exact hsame
  split at h
  · cases h
    exact hsame
  split at h
  · cases h
    exact hsame
  split at h
  · cases h
    exact hsame
  · obtain ⟨tracees, hwake, h⟩ := bind_eq_ok.mp h
    cases h
    have hwakes := wakeFirst_wakes .retry (fun c => receives_kind) hw.phases hwake
    exact { hsame with
      tracees := hwakes, nextAddress := Nat.le_succ _, queues := fun h => absurd rfl h }

theorem doMsgrcv_left (ht : t.Calls) {index : Nat} {queue queue' : MsgQueue}
    (h : doMsgrcv m t index queue = (status, t', queue')) :
    t'.pid = t.pid ∧ t'.config.process = t.config.process ∧
      t'.config.waitState = t.config.waitState ∧ t'.Left .queue := by
  have hleft := ht.left .queue
  simp only [doMsgrcv] at h
  split at h
  · cases h
    exact ⟨rfl, rfl, rfl, hleft⟩
  split at h
  · cases h
    exact ⟨rfl, rfl, rfl, hleft⟩
  split at h
  · cases h
    exact ⟨rfl, rfl, rfl, hleft⟩
  split at h
  · split at h
    · cases h
      exact ⟨rfl, rfl, rfl, hleft⟩
    · cases h
      exact ⟨rfl, rfl, rfl, .waits rfl ht.chainState rfl⟩
  · split at h
    · cases h
      exact ⟨rfl, rfl, rfl, hleft⟩
    · cases h
      exact ⟨rfl, rfl, rfl, hleft⟩

theorem msgrcv_handled (ht : t.Calls) {id msgp msgsz msgtyp msgflg : Word}
    (h : msgrcv m w t id msgp msgsz msgtyp msgflg = (status, t', w')) :
    Handled .queue w t t' w' := by
  have hsame := Handled.same ht .queue w
  unfold msgrcv at h
  split at h
  · cases h
    exact hsame
  · rename_i index queue _
    simp only [Prod.mk.injEq] at h
    obtain ⟨-, rfl, rfl⟩ := h
    obtain ⟨hpid, hprocess, hstate, hleft⟩ := @doMsgrcv_left m
      { t with config := { t.config with
        msgrcvMsgp := msgp
        msgrcvMsgsz := msgsz
        msgrcvMsgtyp := int msgtyp
        msgrcvMsgflg := int msgflg } } _ _ ⟨ht.1, ht.2, ht.3, ht.4⟩ index queue _ rfl
    exact { hsame with
      pid := hpid, process := hprocess, waitState := hstate, left := hleft
      queues := fun h => absurd rfl h }

theorem msgctl_handled (hw : w.Regular) (ht : t.Calls) {id cmd buf : Word}
    (h : msgctl m w t id cmd buf = .ok (status, t', w')) : Handled .queue w t t' w' := by
  have hsame := Handled.same ht .queue w
  unfold msgctl at h
  split at h
  · cases h
    exact hsame
  dsimp only at h
  split at h
  · obtain ⟨tracees, hwake, h⟩ := bind_eq_ok.mp h
    cases h
    have hwakes := wakeEach_wakes .queue (fun c => waitsOn_reason_kind rfl) hw.phases hwake
    exact { hsame with tracees := hwakes.1, queues := fun h => absurd rfl h }
  split at h
  · split at h
    · cases h
      exact hsame
    · cases h
      exact hsame
  · cases h
    exact hsame

/-! ## Semaphores -/

theorem semget_handled (ht : t.Calls) (key nsems semflg : Word) :
    Handled .semaphore w t t (semget w key nsems semflg).2 := by
  have hsame := Handled.same ht .semaphore w
  unfold semget semgetSlot
  dsimp only
  split <;> rename_i hslot <;> split at hslot <;> (try split at hslot) <;> (try split at hslot) <;>
    (try split at hslot) <;> (try split at hslot) <;> cases hslot <;> first
    | exact hsame
    | exact { hsame with nextAddress := Nat.le_succ _, semaphores := fun h => absurd rfl h }

theorem semopStatus_left (ht : t.Calls) (index : Nat) (semaphore : Semaphore) (sops : List Sembuf)
    (check : SemCheck) :
    (semopStatus t index semaphore sops check).2.pid = t.pid ∧
      (semopStatus t index semaphore sops check).2.config.process = t.config.process ∧
      (semopStatus t index semaphore sops check).2.config.waitState = t.config.waitState ∧
      (semopStatus t index semaphore sops check).2.Left .semaphore := by
  cases check with
  | wait => exact ⟨rfl, rfl, rfl, .waits rfl ht.chainState rfl⟩
  | failed | done => exact ⟨rfl, rfl, rfl, .done ht.waitReason (.inl ht.chainState) ht.asked⟩

theorem semop_handled (hw : w.Regular) (ht : t.Calls) {id sops nsops : Word}
    (h : semop m w t id sops nsops = .ok (status, t', w')) : Handled .semaphore w t t' w' := by
  have hsame := Handled.same ht .semaphore w
  unfold semop at h
  split at h
  · cases h
    exact hsame
  split at h
  · cases h
    exact hsame
  split at h
  · cases h
    exact hsame
  split at h
  · cases h
    exact hsame
  split at h
  · cases h
    exact hsame
  · rename_i semaphore _ _ _ _ sops _ _
    obtain ⟨⟨sems, tracees⟩, hpass, h⟩ := bind_eq_ok.mp h
    cases h
    obtain ⟨hpid, hprocess, hstate, hleft⟩ :=
      semopStatus_left ht _ semaphore sops (semCheck semaphore.sems sops)
    exact { hsame with
      pid := hpid, process := hprocess, waitState := hstate, left := hleft
      tracees := semopPass_wakes hw.phases hpass, semaphores := fun h => absurd rfl h }

theorem semctl_handled (hw : w.Regular) (ht : t.Calls) {id semnum cmd arg : Word}
    (h : semctl m w t id semnum cmd arg = .ok (status, t', w')) :
    Handled .semaphore w t t' w' := by
  have hsame := Handled.same ht .semaphore w
  unfold semctl at h
  split at h
  · cases h
    exact hsame
  dsimp only at h
  split at h
  · split at h <;> cases h <;> exact hsame
  split at h
  · split at h
    · cases h
      exact hsame
    split at h
    · cases h
      exact hsame
    · cases h
      exact { hsame with semaphores := fun h => absurd rfl h }
  split at h
  · split at h <;> cases h <;> exact hsame
  split at h
  · obtain ⟨tracees, hwake, h⟩ := bind_eq_ok.mp h
    cases h
    have hwakes := wakeEach_wakes .semaphore (fun c => waitsOn_reason_kind rfl) hw.phases hwake
    exact { hsame with tracees := hwakes.1, semaphores := fun h => absurd rfl h }
  split at h
  · split at h <;> cases h <;> exact hsame
  · cases h
    exact hsame

/-! ## Shared memory -/

structure SegmentsOnly (w w' : World) : Prop where
  tracees : w'.tracees = w.tracees
  nextAddress : w.nextAddress ≤ w'.nextAddress
  queues : w'.queues = w.queues
  semaphores : w'.semaphores = w.semaphores

theorem SegmentsOnly.refl (w : World) : SegmentsOnly w w := ⟨rfl, Nat.le_refl _, rfl, rfl⟩

theorem SegmentsOnly.trans {w₁ w₂ w₃ : World} (h : SegmentsOnly w₁ w₂) (h' : SegmentsOnly w₂ w₃) :
    SegmentsOnly w₁ w₃ :=
  ⟨h'.tracees.trans h.tracees, Nat.le_trans h.nextAddress h'.nextAddress, h'.queues.trans h.queues,
    h'.semaphores.trans h.semaphores⟩

theorem SegmentsOnly.handled (h : SegmentsOnly w w') (hpid : t'.pid = t.pid)
    (hprocess : t'.config.process = t.config.process)
    (hstate : t'.config.waitState = t.config.waitState) (hleft : t'.Left .segment) :
    Handled .segment w t t' w' where
  pid := hpid
  process := hprocess
  waitState := hstate
  left := hleft
  tracees := h.tracees ▸ .refl .segment _
  nextAddress := h.nextAddress
  queues _ := h.queues
  semaphores _ := h.semaphores
  segments h := absurd rfl h

theorem doRmid_only {index : Nat} (h : doRmid w index = .ok w') : SegmentsOnly w w' := by
  unfold doRmid at h
  split at h
  · cases h
  split at h
  · cases h
  · cases h
    exact ⟨rfl, Nat.le_refl _, rfl, rfl⟩

theorem memmapDestructor_only {mapping : SharedMemMap} (h : memmapDestructor w mapping = .ok w') :
    SegmentsOnly w w' := by
  unfold memmapDestructor at h
  split at h
  · cases h
  split at h
  · exact doRmid_only h
  · cases h
    exact .refl w

theorem setProcess_only (w : World) (p : Process) : SegmentsOnly w (w.setProcess p) :=
  ⟨rfl, Nat.le_refl _, rfl, rfl⟩

theorem munmapped_only (w : World) (p : Process) (mapping : SharedMemMap) :
    SegmentsOnly w (w.munmapped p mapping) :=
  ⟨rfl, Nat.le_refl _, rfl, rfl⟩

theorem freeMapping_only {p : Process} {which : SharedMemMap → Bool}
    (h : freeMapping w p which = .ok w') : SegmentsOnly w w' := by
  unfold freeMapping at h
  split at h
  · cases h
    exact .refl w
  · exact (setProcess_only w _).trans (memmapDestructor_only h)

theorem removeMappingsFromProcess_only {p : Process} {mappings : List SharedMemMap}
    (h : removeMappingsFromProcess w p mappings = .ok w') : SegmentsOnly w w' := by
  induction mappings generalizing w p with
  | nil =>
      cases h
      exact .refl _
  | cons mapping mappings ih =>
      obtain ⟨w₁, hdestroy, h⟩ := bind_eq_ok.mp h
      exact ((setProcess_only w _).trans (memmapDestructor_only hdestroy)).trans (ih h)

theorem shmget_handled (ht : t.Calls) (key size shmflg : Word) (allocation : Allocation) :
    Handled .segment w t t (shmget w t key size shmflg allocation).2 := by
  refine SegmentsOnly.handled ?_ rfl rfl rfl (ht.left .segment)
  unfold shmget shmgetSlot World.allocMemory
  dsimp only
  split <;> rename_i hslot <;> split at hslot <;> (try split at hslot) <;> (try split at hslot) <;>
    (try split at hslot) <;> cases hslot <;>
    exact ⟨rfl, by simp, rfl, rfl⟩

theorem addMapping_only (w : World) (process : Nat) (mapping : SharedMemMap) :
    SegmentsOnly w (w.addMapping process mapping) := by
  unfold World.addMapping
  split
  · exact .refl w
  · exact setProcess_only w _

theorem shmat_handled (ht : t.Calls) {id : Word} (h : shmat w t id = (status, t', w')) :
    Handled .segment w t t' w' := by
  unfold shmat at h
  split at h
  · cases h
    exact .same ht .segment w
  · dsimp only at h
    split at h
    · cases h
      exact (addMapping_only w _ _).handled rfl rfl rfl (.waits rfl ht.chainState rfl)
    · cases h
      exact (addMapping_only w _ _).handled rfl rfl rfl (.starts ht.waitReason rfl rfl rfl)

theorem shmdt_handled (ht : t.Calls) {addr : Word} (h : shmdt w t addr = .ok (status, t', w')) :
    Handled .segment w t t' w' := by
  unfold shmdt at h
  split at h
  · cases h
    exact .same ht .segment w
  split at h
  · cases h
    exact .same ht .segment w
  · obtain ⟨w₁, hfree, h⟩ := bind_eq_ok.mp h
    cases h
    exact ((munmapped_only w _ _).trans (freeMapping_only hfree)).handled rfl rfl rfl
      (.done ht.waitReason (.inr rfl) ht.asked)

theorem shmctl_handled (ht : t.Calls) {id cmd buf : Word}
    (h : shmctl m w t id cmd buf = .ok (status, t', w')) : Handled .segment w t t' w' := by
  have hsame := Handled.same ht .segment w
  unfold shmctl at h
  split at h
  · cases h
    exact hsame
  dsimp only at h
  split at h
  · split at h
    · obtain ⟨w₁, hrmid, h⟩ := bind_eq_ok.mp h
      cases h
      exact (doRmid_only hrmid).handled rfl rfl rfl (ht.left .segment)
    · cases h
      exact SegmentsOnly.handled ⟨rfl, Nat.le_refl _, rfl, rfl⟩ rfl rfl rfl (ht.left .segment)
  split at h
  · split at h <;> cases h <;> exact hsame
  · cases h
    exact hsame

/-! ## Every system call -/

theorem handle_handled (hw : w.Regular) (ht : t.Calls) {c : Syscall}
    (h : c.handle m w t = .ok (status, t', w')) : Handled c.kind w t t' w' := by
  cases c with
  | msgget key msgflg =>
      cases h
      exact msgget_handled ht key msgflg
  | msgsnd => exact msgsnd_handled hw ht h
  | msgrcv => exact msgrcv_handled ht (Except.ok.inj h)
  | msgctl => exact msgctl_handled hw ht h
  | semget key nsems semflg =>
      cases h
      exact semget_handled ht key nsems semflg
  | semop => exact semop_handled hw ht h
  | semctl => exact semctl_handled hw ht h
  | shmget key size shmflg allocation =>
      cases h
      exact shmget_handled ht key size shmflg allocation
  | shmat => exact shmat_handled ht (Except.ok.inj h)
  | shmdt => exact shmdt_handled ht h
  | shmctl => exact shmctl_handled ht h

end Handlers

end Improot.SysVIpc
