import Improot.SysVIpc.Basic

/-!
# Waking tracees

`sysvipc_wake_tracee` and the loops over the tracees that call it.  The list of the tracees is in
the order of `get_tracees_list_head`, the newest first.
-/

namespace Improot.SysVIpc

theorem bind_eq_ok {α β : Type} {x : Except Assertion α} {f : α → Except Assertion β} {b : β} :
    (x >>= f) = .ok b ↔ ∃ a, x = .ok a ∧ f a = .ok b := by
  cases x <;> simp [bind, Except.bind]

def wakeTracee (c : Config) (status : Status) : Except Assertion Config :=
  if c.waitReason = .notWaiting then .error .waitReason
  else
    match c.waitState with
    | .enteredPpoll =>
        .ok { c with
          waitReason := .notWaiting
          statusAfterWait := status
          waitState := .signaledPpoll }
    | .restartedIntoPpoll =>
        .ok { c with
          waitReason := .notWaiting
          statusAfterWait := status
          waitState := .restartedIntoPpollCanceled }
    | _ => .error .waitState

def Config.waitsOn (c : Config) (reason : WaitReason) (index : Nat) : Bool :=
  decide (c.waitReason = reason) && c.waitingObjectIndex == index

/-- The loop of the `IPC_RMID` commands: wakes each tracee that meets a condition. -/
def wakeEach (p : Config → Bool) (status : Status) :
    List Tracee → Except Assertion (List Tracee)
  | [] => .ok []
  | t :: ts =>
      if p t.config then do
        let config ← wakeTracee t.config status
        let ts ← wakeEach p status ts
        .ok ({ t with config } :: ts)
      else do
        let ts ← wakeEach p status ts
        .ok (t :: ts)

/-- The loops of `sysvipc_msgsnd` and `sysvipc_shm_wake_pending_shmat`: wakes the first tracee that
meets a condition, to resume in some state of the chain. -/
def wakeFirst (p : Config → Bool) (chainState : ChainState) (status : Status) :
    List Tracee → Except Assertion (List Tracee)
  | [] => .ok []
  | t :: ts =>
      if p t.config then do
        let config ← wakeTracee { t.config with chainState } status
        .ok ({ t with config } :: ts)
      else do
        let ts ← wakeFirst p chainState status ts
        .ok (t :: ts)

end Improot.SysVIpc
