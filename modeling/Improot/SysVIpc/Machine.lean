import Improot.Lib.Transition
import Improot.SysVIpc.Shm

/-!
# The extension as a machine

`sysvipc_callback` of `sysvipc.c`: what the extension does at each stop of a tracee, what the kernel
and the helper do in between, and the runs of a session.  An event that the kernel can't cause in a
state is refused (`none`); a failed assertion ends the session.
-/

namespace Improot.SysVIpc

/-! ## System calls -/

/-- The system calls, with their arguments; semtimedop(2) is semop(2), since its timeout only goes
to ppoll(2).  For shmget(2), `allocation` is what happens if the helper is asked for memory. -/
inductive Syscall where
  | msgget (key msgflg : Word)
  | msgsnd (id msgp msgsz : Word)
  | msgrcv (id msgp msgsz msgtyp msgflg : Word)
  | msgctl (id cmd buf : Word)
  | semget (key nsems semflg : Word)
  | semop (id sops nsops : Word)
  | semctl (id semnum cmd arg : Word)
  | shmget (key size shmflg : Word) (allocation : Allocation)
  | shmat (id : Word)
  | shmdt (addr : Word)
  | shmctl (id cmd buf : Word)

def Syscall.handle (m : GuestMemory) (w : World) (t : Tracee) :
    Syscall → Except Assertion (Status × Tracee × World)
  | .msgget key msgflg =>
      let (status, w) := SysVIpc.msgget w key msgflg
      .ok (status, t, w)
  | .msgsnd id msgp msgsz => SysVIpc.msgsnd m w t id msgp msgsz
  | .msgrcv id msgp msgsz msgtyp msgflg => .ok (SysVIpc.msgrcv m w t id msgp msgsz msgtyp msgflg)
  | .msgctl id cmd buf => SysVIpc.msgctl m w t id cmd buf
  | .semget key nsems semflg =>
      let (status, w) := SysVIpc.semget w key nsems semflg
      .ok (status, t, w)
  | .semop id sops nsops => SysVIpc.semop m w t id sops nsops
  | .semctl id semnum cmd arg => SysVIpc.semctl m w t id semnum cmd arg
  | .shmget key size shmflg allocation =>
      let (status, w) := SysVIpc.shmget w t key size shmflg allocation
      .ok (status, t, w)
  | .shmat id => .ok (SysVIpc.shmat w t id)
  | .shmdt addr => SysVIpc.shmdt w t addr
  | .shmctl id cmd buf => SysVIpc.shmctl m w t id cmd buf

/-- What the helper can answer: it is done with the requests before, and the descriptor is new. -/
def Syscall.answered (w : World) : Syscall → Bool
  | .shmget _ _ _ allocation =>
      match w.helper.drain with
      | none => false
      | some helper => helper.fds.all fun (fd, _) => allocation.opened.all fun new => fd ≠ new
  | _ => true

def syscallCommon (fromSigsys : Bool) (status : Status) (t : Tracee) : Except Assertion Tracee :=
  let c := t.config
  if c.chainState ≠ .notChained then
    match c.chainState with
    | .single => .ok { t with config := { c with chainState := .notChained } }
    | .shmatSocket => .ok t
    | _ => .error .chainState
  else if c.waitReason ≠ .notWaiting then
    let waitState := if fromSigsys then .restartedIntoPpoll else .enteredPpoll
    .ok { t with config := { c with waitState } }
  else if fromSigsys then .ok { t with result := status }
  else .ok { t with config := { c with statusAfterWait := status, waitState := .enteredGetpid } }

def Config.idle (c : Config) : Bool :=
  decide (c.waitState = .notWaiting) && decide (c.chainState = .notChained)

def call (m : GuestMemory) (w : World) (t : Tracee) (fromSigsys : Bool) (c : Syscall) :
    Except Assertion World := do
  let (status, t, w) ← c.handle m w { t with asked := .nothing }
  let t ← syscallCommon fromSigsys status t
  .ok (w.setTracee t)

/-! ## Waiting -/

def resume (m : GuestMemory) (w : World) (t : Tracee) :
    Except Assertion (Status × Tracee × World) :=
  if t.config.chainState = .msgrcvRetry then msgrcvRetry m w t
  else .ok (t.config.statusAfterWait, t, w)

def Tracee.finish (t : Tracee) (status : Status) : Tracee :=
  { t with
    result := status
    asked := .nothing
    config := { t.config with waitState := .notWaiting } }

/-- A tracee that was interrupted, `sysvipc_semop_timedout` included. -/
def Tracee.interrupt (t : Tracee) (ppollStatus : Errno) : Tracee :=
  let sops := if t.config.waitReason = .waitSemop then [] else t.config.semopSops
  { t with config := { t.config with waitReason := .notWaiting, semopSops := sops } }.finish
    (.error (if ppollStatus = Errno.efault then Errno.efault else Errno.eintr))

/-- The stop at the end of a system call (`SYSCALL_EXIT_START`): ppoll(2) that timed out or was
interrupted, or what was made of a call that is answered. -/
def exitStart (m : GuestMemory) (w : World) (t : Tracee) (ppollStatus : Errno) :
    Except Assertion World :=
  match t.config.waitState with
  | .enteredPpoll =>
      if t.config.waitReason = .notWaiting then .error .waitReason
      else .ok (w.setTracee (t.interrupt ppollStatus))
  | .signaledPpoll | .enteredGetpid =>
      if t.config.waitReason ≠ .notWaiting then .error .waitReason
      else do
        let (status, t, w) ← resume m w t
        .ok (w.setTracee (t.finish status))
  | .notWaiting => .ok w
  | _ => .error .waitState

/-- The stop at the start of the restarted ppoll(2) (`SYSCALL_ENTER_START`). -/
def enterStart (m : GuestMemory) (w : World) (t : Tracee) : Except Assertion World :=
  match t.config.waitState with
  | .restartedIntoPpoll =>
      .ok (w.setTracee { t with config := { t.config with waitState := .enteredPpoll } })
  | .restartedIntoPpollCanceled => do
      let (status, t, w) ← resume m w t
      .ok (w.setTracee (t.finish status))
  | _ => .error .waitState

/-- The stops of the ppoll(2) of a tracee that was woken to attach a segment
(`SYSCALL_CHAINED_ENTER`, `SYSCALL_CHAINED_EXIT`). -/
def chainedEnter (w : World) (t : Tracee) : Except Assertion World :=
  match t.config.waitState with
  | .notWaiting => .ok w
  | .restartedIntoPpollCanceled =>
      .ok (w.setTracee { t with config := { t.config with waitState := .signaledPpoll } })
  | _ => .error .waitState

def chainedExit (w : World) (t : Tracee) : Except Assertion World :=
  match t.config.waitState with
  | .signaledPpoll =>
      .ok (w.setTracee { t with config := { t.config with waitState := .notWaiting } })
  | _ => .error .waitState

/-! ## Tracees that come and go -/

/-- `INHERIT_CHILD`: the child shares the process with `CLONE_THREAD`, and the address space with
`CLONE_VM`. -/
def clone (w : World) (t : Tracee) (pid : Nat) (thread vm : Bool) : World :=
  let (process, w) :=
    if thread then (t.config.process, w)
    else
      match w.process? t.config.process with
      | none => (t.config.process, w)
      | some parent =>
          let (child, w) := inheritProcess w parent pid vm
          (child.id, w)
  let config : Config :=
    { process
      waitReason := .notWaiting
      waitState := .notWaiting
      chainState := .notChained
      statusAfterWait := .ok 0
      waitingObjectIndex := 0
      msgrcvMsgp := 0
      msgrcvMsgsz := 0
      msgrcvMsgtyp := 0
      msgrcvMsgflg := 0
      semopSops := [] }
  let child : Tracee :=
    { pid, config, result := .ok 0, asked := .nothing, mapSize := 0, connection := none, memFd := none }
  { w with tracees := child :: w.tracees }

/-- execve(2): the mappings are removed when the call starts (`SYSCALL_ENTER_END`), and the address
space is replaced when it succeeds. -/
def execve (w : World) (t : Tracee) (success : Bool) : Except Assertion World :=
  match w.process? t.config.process with
  | none => .ok w
  | some p => do
      let w ← removeMappingsFromProcess w p p.mappedShms
      if success then
        .ok { w.setProcess { p with mappedShms := [], space := w.nextAddress } with
          spaces := Function.update w.spaces w.nextAddress []
          nextAddress := w.nextAddress + 1 }
      else .ok w

def death (w : World) (t : Tracee) : Except Assertion World :=
  let w := { w with tracees := w.tracees.filter (·.pid ≠ t.pid) }
  if w.tracees.any (·.config.process = t.config.process) then .ok w
  else
    match w.process? t.config.process with
    | none => .ok w
    | some p => do
        let w ← removeMappingsFromProcess w p p.mappedShms
        .ok { w with processes := w.processes.filter (·.id ≠ p.id) }

/-! ## Runs -/

/-- What can happen: a stop of a tracee, or a step of the kernel or of the helper. -/
inductive Event where
  | call (pid : Nat) (m : GuestMemory) (fromSigsys : Bool) (c : Syscall)
  | enterStart (pid : Nat) (m : GuestMemory)
  | exitStart (pid : Nat) (m : GuestMemory) (ppollStatus : Errno)
  | chainedEnter (pid : Nat)
  | chainedExit (pid : Nat)
  | socketDone (pid : Nat) (m : GuestMemory) (fd : Int) (guestAddr : Word)
  | connect (pid : Nat)
  | connectDone (pid : Nat) (m : GuestMemory) (result : Int) (guestAddr : Word)
  | helper
  | recvmsgDone (pid : Nat) (fd : Option Word)
  | mmapDone (pid : Nat) (addr : Word)
  | clone (pid child : Nat) (thread vm : Bool)
  | execve (pid : Nat) (success : Bool)
  | death (pid : Nat)

def Event.pid : Event → Option Nat
  | .call pid .. | .enterStart pid .. | .exitStart pid .. | .chainedEnter pid
  | .chainedExit pid | .socketDone pid .. | .connect pid | .connectDone pid ..
  | .recvmsgDone pid _ | .mmapDone pid _ | .clone pid .. | .execve pid _ | .death pid => some pid
  | .helper => none

/-- Whether a tracee is in some state of the wait mechanism, and its stops are chained ones or
not. -/
def Config.stopped (c : Config) (chained : Bool) (waitState : WaitState) : Bool :=
  (decide (c.chainState = .shmatSocket) == chained) && decide (c.waitState = waitState)

def Event.enabled (w : World) (t : Tracee) : Event → Bool
  | .call _ _ _ c => t.config.idle && c.answered w
  | .enterStart .. =>
      t.config.stopped false .restartedIntoPpoll ||
        t.config.stopped false .restartedIntoPpollCanceled
  | .exitStart .. =>
      t.config.stopped false .enteredPpoll || t.config.stopped false .signaledPpoll ||
        t.config.stopped false .enteredGetpid
  | .chainedEnter _ => t.config.stopped true .restartedIntoPpollCanceled
  | .chainedExit _ => t.config.stopped true .signaledPpoll
  | .socketDone .. => t.config.stopped true .notWaiting
  | .connect _ => decide (t.config.chainState = .shmatConnect) && t.connection.isNone
  | .connectDone _ _ result _ =>
      decide (t.config.chainState = .shmatConnect) && (result != 0 || t.connection.isSome)
  | .helper => false
  | .recvmsgDone _ fd =>
      decide (t.config.chainState = .shmatRecvmsg) &&
        (fd.isNone || (t.connection.bind w.helper.sentOver).isSome)
  | .mmapDone _ addr =>
      decide (t.config.chainState = .shmatMmap) &&
        (isError addr || (addr != 0 && t.mapSize != 0 && t.memFd.isSome &&
          (w.process? t.config.process).all fun p => (w.spaces p.space).all (·.addr ≠ addr)))
  | .clone _ child thread vm => (w.tracee? child).isNone && (!thread || vm)
  | .execve .. => t.config.idle
  | .death _ => true

def Event.run (w : World) (t : Tracee) : Event → Except Assertion World
  | .call _ m fromSigsys c => SysVIpc.call m w t fromSigsys c
  | .enterStart _ m => SysVIpc.enterStart m w t
  | .exitStart _ m ppollStatus => SysVIpc.exitStart m w t ppollStatus
  | .chainedEnter _ => SysVIpc.chainedEnter w t
  | .chainedExit _ => SysVIpc.chainedExit w t
  | .socketDone _ m fd guestAddr => chainSocket m w t fd guestAddr
  | .connect _ =>
      .ok ({ w with
        helper := { w.helper with backlog := w.helper.backlog ++ [w.nextAddress] }
        nextAddress := w.nextAddress + 1 }.setTracee { t with connection := some w.nextAddress })
  | .connectDone _ m result guestAddr => chainConnect m w t result guestAddr
  | .helper => .ok w
  | .recvmsgDone _ fd => chainRecvmsg w t fd
  | .mmapDone _ addr => chainMmap w t addr
  | .clone _ child thread vm => .ok (SysVIpc.clone w t child thread vm)
  | .execve _ success => SysVIpc.execve w t success
  | .death _ => SysVIpc.death w t

abbrev Session := Except Assertion World

def World.initial (pid : Nat) : World where
  queues := []
  semaphores := []
  shms := []
  tracees := [
    { pid
      config :=
        { process := 0
          waitReason := .notWaiting
          waitState := .notWaiting
          chainState := .notChained
          statusAfterWait := .ok 0
          waitingObjectIndex := 0
          msgrcvMsgp := 0
          msgrcvMsgsz := 0
          msgrcvMsgtyp := 0
          msgrcvMsgflg := 0
          semopSops := [] }
      result := .ok 0
      asked := .nothing
      mapSize := 0
      connection := none
      memFd := none }]
  processes := [⟨0, pid, 1, []⟩]
  helper := ⟨[], [], [], []⟩
  spaces := fun _ => []
  nextAddress := 2

def step : Session → Event → Option Session
  | .error _, _ => none
  | .ok w, .helper => w.helper.step.map fun helper => .ok { w with helper }
  | .ok w, e =>
      match e.pid.bind w.tracee? with
      | none => none
      | some t => if e.enabled w t then some (e.run w t) else none

def system : Lib.System Session Event where
  init s := ∃ pid, s = .ok (.initial pid)
  step := step

end Improot.SysVIpc
