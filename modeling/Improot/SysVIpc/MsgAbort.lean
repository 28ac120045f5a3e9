import Improot.SysVIpc.MsgCall

/-!
# Assertions on queues

Only the retry of a receiver asserts something of a queue.
-/

namespace Improot.SysVIpc

/-- The assertions of `sysvipc_msgrcv_retry`. -/
def Assertion.onQueue : Assertion → Bool
  | .queueIndex | .queueValid => true
  | _ => false

def NoQueueAbort {α : Type} (x : Except Assertion α) : Prop :=
  ∀ a, x = .error a → a.onQueue = false

section NoQueueAbort

variable {α β : Type}

theorem NoQueueAbort.ok (a : α) : NoQueueAbort (.ok a) := by
  intro b h
  cases h

theorem NoQueueAbort.error {b : Assertion} (h : b.onQueue = false) :
    NoQueueAbort (.error b : Except Assertion α) := by
  intro a ha
  cases ha
  exact h

theorem NoQueueAbort.bind {x : Except Assertion α} {f : α → Except Assertion β}
    (hx : NoQueueAbort x) (hf : ∀ a, NoQueueAbort (f a)) : NoQueueAbort (x >>= f) := by
  intro b h
  cases x with
  | error a =>
      cases h
      exact hx b rfl
  | ok a => exact hf a b h

end NoQueueAbort

section Functions

variable {w : World} {t : Tracee} {m : GuestMemory}

theorem wakeTracee_noQueueAbort (c : Config) (status : Status) :
    NoQueueAbort (wakeTracee c status) := by
  unfold wakeTracee
  split
  · exact .error rfl
  split
  · exact .ok _
  · exact .ok _
  · exact .error rfl

theorem wakeEach_noQueueAbort (p : Config → Bool) (status : Status) (ts : List Tracee) :
    NoQueueAbort (wakeEach p status ts) := by
  induction ts with
  | nil => exact .ok _
  | cons t ts ih =>
      rw [wakeEach]
      split
      · exact (wakeTracee_noQueueAbort _ _).bind fun _ => ih.bind fun _ => .ok _
      · exact ih.bind fun _ => .ok _

theorem wakeFirst_noQueueAbort (p : Config → Bool) (chainState : ChainState) (status : Status)
    (ts : List Tracee) : NoQueueAbort (wakeFirst p chainState status ts) := by
  induction ts with
  | nil => exact .ok _
  | cons t ts ih =>
      rw [wakeFirst]
      split
      · exact (wakeTracee_noQueueAbort _ _).bind fun _ => .ok _
      · exact ih.bind fun _ => .ok _

theorem semopPass_noQueueAbort (pid index : Nat) (sems : List Nat) (ts : List Tracee) :
    NoQueueAbort (semopPass pid index sems ts) := by
  induction ts generalizing sems with
  | nil => exact .ok _
  | cons t ts ih =>
      rw [semopPass]
      split
      · split
        · exact (ih _).bind fun _ => .ok _
        · exact (wakeTracee_noQueueAbort _ _).bind fun _ => (ih _).bind fun _ => .ok _
        · exact (wakeTracee_noQueueAbort _ _).bind fun _ => (ih _).bind fun _ => .ok _
      · exact (ih _).bind fun _ => .ok _

theorem doRmid_noQueueAbort (w : World) (index : Nat) : NoQueueAbort (doRmid w index) := by
  unfold doRmid
  split
  · exact .error rfl
  split
  · exact .error rfl
  · exact .ok _

theorem memmapDestructor_noQueueAbort (w : World) (mapping : SharedMemMap) :
    NoQueueAbort (memmapDestructor w mapping) := by
  unfold memmapDestructor
  split
  · exact .error rfl
  split
  · exact doRmid_noQueueAbort _ _
  · exact .ok _

theorem freeMapping_noQueueAbort (w : World) (p : Process) (which : SharedMemMap → Bool) :
    NoQueueAbort (freeMapping w p which) := by
  unfold freeMapping
  split
  · exact .ok _
  · exact memmapDestructor_noQueueAbort _ _

theorem removeMappingsFromProcess_noQueueAbort (w : World) (p : Process)
    (mappings : List SharedMemMap) : NoQueueAbort (removeMappingsFromProcess w p mappings) := by
  induction mappings generalizing w p with
  | nil => exact .ok _
  | cons mapping mappings ih => exact (memmapDestructor_noQueueAbort _ _).bind fun _ => ih _ _

theorem leaveChain_noQueueAbort (w : World) (t : Tracee) (mapped : Option (Word × Word)) :
    NoQueueAbort (leaveChain w t mapped) := by
  have hwake : ∀ w, NoQueueAbort (wakePendingShmat w) := fun w =>
    (wakeFirst_noQueueAbort _ _ _ _).bind fun _ => .ok _
  simp only [leaveChain]
  split
  · exact .error rfl
  split
  · cases mapped with
    | none => exact (freeMapping_noQueueAbort _ _ _).bind hwake
    | some r => exact (NoQueueAbort.ok _).bind hwake
  · exact .error rfl

theorem chainSegment_noQueueAbort (w : World) (t : Tracee) : NoQueueAbort (chainSegment w t) := by
  unfold chainSegment
  split
  · exact .error rfl
  split
  · exact .ok _
  · exact .error rfl

theorem syscallCommon_noQueueAbort (fromSigsys : Bool) (status : Status) (t : Tracee) :
    NoQueueAbort (syscallCommon fromSigsys status t) := by
  unfold syscallCommon
  dsimp only
  split
  · split
    · exact .ok _
    · exact .ok _
    · exact .error rfl
  split
  · exact .ok _
  split
  · exact .ok _
  · exact .ok _

theorem handle_noQueueAbort (m : GuestMemory) (w : World) (t : Tracee) (c : Syscall) :
    NoQueueAbort (c.handle m w t) := by
  cases c with
  | msgget | msgrcv | semget | shmget | shmat => exact .ok _
  | msgsnd id msgp msgsz =>
      simp only [Syscall.handle, msgsnd]
      repeat' split
      all_goals try exact NoQueueAbort.ok _
      exact (wakeFirst_noQueueAbort _ _ _ _).bind fun _ => .ok _
  | msgctl id cmd buf =>
      simp only [Syscall.handle, msgctl]
      repeat' split
      all_goals try exact NoQueueAbort.ok _
      exact (wakeEach_noQueueAbort _ _ _).bind fun _ => .ok _
  | semop id sops nsops =>
      simp only [Syscall.handle, semop]
      repeat' split
      all_goals try exact NoQueueAbort.ok _
      exact (semopPass_noQueueAbort _ _ _ _).bind fun _ => .ok _
  | semctl id semnum cmd arg =>
      simp only [Syscall.handle, semctl]
      repeat' split
      all_goals try exact NoQueueAbort.ok _
      exact (wakeEach_noQueueAbort _ _ _).bind fun _ => .ok _
  | shmdt addr =>
      simp only [Syscall.handle, shmdt]
      repeat' split
      all_goals try exact NoQueueAbort.ok _
      exact (freeMapping_noQueueAbort _ _ _).bind fun _ => .ok _
  | shmctl id cmd buf =>
      simp only [Syscall.handle, shmctl]
      repeat' split
      all_goals try exact NoQueueAbort.ok _
      exact (doRmid_noQueueAbort _ _).bind fun _ => .ok _

theorem resume_abort {a : Assertion} (h : resume m w t = .error a) :
    t.config.chainState = .msgrcvRetry ∧
      ∀ queue : MsgQueue, w.queues[t.config.waitingObjectIndex]? = some queue →
        queue.valid = false := by
  unfold resume at h
  split at h
  · rename_i hchain
    refine ⟨hchain, fun queue hget => ?_⟩
    simp only [msgrcvRetry, hget] at h
    split at h
    · split at h
      · rename_i hvalid
        exact hvalid
      · split at h <;> cases h
    · cases h
  · cases h

/-- **Who asserts something of a queue**: a receiver whose queue isn't there any more. -/
theorem run_abort {e : Event} {a : Assertion} (h : e.run w t = .error a) (ha : a.onQueue = true) :
    t.config.chainState = .msgrcvRetry ∧
      ∀ queue : MsgQueue, w.queues[t.config.waitingObjectIndex]? = some queue →
        queue.valid = false := by
  have hnone : NoQueueAbort (e.run w t) → False := fun hno =>
    Bool.false_ne_true ((hno a h).symm.trans ha)
  cases e with
  | call pid m fromSigsys c =>
      exact (hnone ((handle_noQueueAbort _ _ _ _).bind fun _ =>
        (syscallCommon_noQueueAbort _ _ _).bind fun _ => .ok _)).elim
  | enterStart pid m =>
      simp only [Event.run, enterStart] at h
      split at h
      · cases h
      · cases hrun : resume m w t with
        | error b => exact resume_abort hrun
        | ok r =>
            rw [hrun] at h
            cases h
      · cases h
        cases ha
  | exitStart pid m ppollStatus =>
      simp only [Event.run, exitStart] at h
      split at h
      · split at h
        · cases h
          cases ha
        · cases h
      · split at h
        · cases h
          cases ha
        · cases hrun : resume m w t with
          | error b => exact resume_abort hrun
          | ok r =>
              rw [hrun] at h
              cases h
      · split at h
        · cases h
          cases ha
        · cases hrun : resume m w t with
          | error b => exact resume_abort hrun
          | ok r =>
              rw [hrun] at h
              cases h
      · cases h
      · cases h
        cases ha
  | chainedEnter pid =>
      simp only [Event.run, chainedEnter] at h
      split at h <;> cases h
      cases ha
  | chainedExit pid =>
      simp only [Event.run, chainedExit] at h
      split at h <;> cases h
      cases ha
  | socketDone | connectDone | recvmsgDone =>
      refine (hnone ((chainSegment_noQueueAbort w t).bind fun _ => ?_)).elim
      split
      · exact leaveChain_noQueueAbort _ _ _
      split
      · exact leaveChain_noQueueAbort _ _ _
      · exact .ok _
  | mmapDone pid addr =>
      exact (hnone ((chainSegment_noQueueAbort w t).bind fun _ =>
        leaveChain_noQueueAbort _ _ _)).elim
  | execve pid success =>
      refine (hnone ?_).elim
      simp only [Event.run, execve]
      split
      · exact .ok _
      · refine (removeMappingsFromProcess_noQueueAbort _ _ _).bind fun _ => ?_
        split <;> exact .ok _
  | death pid =>
      refine (hnone ?_).elim
      simp only [Event.run, death]
      split
      · exact .ok _
      split
      · exact .ok _
      · exact (removeMappingsFromProcess_noQueueAbort _ _ _).bind fun _ => .ok _
  | connect | helper | clone => cases h

end Functions

end Improot.SysVIpc
