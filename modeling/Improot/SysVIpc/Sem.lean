import Improot.SysVIpc.Msg

/-!
# Semaphores

The system calls of `sysvipc_sem.c`.
-/

namespace Improot.SysVIpc

/-- `SYSVIPC_MAX_SEMS`, `SYSVIPC_MAX_NSEMS`, `SYSVIPC_MAX_NSOPS` and `SYSVIPC_MAX_SEMVAL`. -/
def maxSems : Nat := 512
def maxNsems : Nat := 512
def maxNsops : Nat := 512
def maxSemval : Nat := 0x7000

/-- What `sysvipc_semget` makes of a slot. -/
def Semaphore.create (key : BitVec 32) (generation : BitVec 16) (address nsems : Nat) :
    Semaphore where
  key := key
  generation := generation
  valid := true
  address := address
  sems := List.replicate nsems 0
  nsems := nsems

/-- The slot of `sysvipc_semget`. -/
def semgetSlot (w : World) (key nsems semflg : Word) : Except Errno Nat × World :=
  let count := (int nsems).toInt
  if count ≤ 0 ∨ count > maxNsems then (.error .einval, w)
  else
    match findKey w.semaphores key with
    | some index =>
        if has (int semflg) ipcCreat ∧ has (int semflg) ipcExcl then (.error .eexist, w)
        else if ((w.semaphores[index]?.map (·.nsems)).getD 0 : Int) < count then (.error .einval, w)
        else (.ok index, w)
    | none =>
        if ¬ has (int semflg) ipcCreat then (.error .enoent, w)
        else
          match unusedSlot w.semaphores with
          | some index =>
              let generation := (w.semaphores[index]?.map (·.generation)).getD 0
              (.ok index, { w with
                semaphores :=
                  w.semaphores.set index (.create (int key) generation w.nextAddress count.toNat)
                nextAddress := w.nextAddress + 1 })
          | none =>
              if w.semaphores.length ≥ maxSems then (.error .enospc, w)
              else
                (.ok w.semaphores.length, { w with
                  semaphores := w.semaphores ++ [.create (int key) 0 w.nextAddress count.toNat]
                  nextAddress := w.nextAddress + 1 })

def semget (w : World) (key nsems semflg : Word) : Status × World :=
  match semgetSlot w key nsems semflg with
  | (.error e, w) => (.error e, w)
  | (.ok index, w) => (.ok (slotId w.semaphores index), w)

/-- What `sysvipc_sem_check` returns: the tracee should still wait, or the system call fails, or
it is done and these are the values. -/
inductive SemCheck where
  | wait
  | failed (e : Errno)
  | done (sems : List Nat)
  deriving DecidableEq, Repr

/-- The values after a check, which are copied back when the operations are done. -/
def SemCheck.values (sems : List Nat) : SemCheck → List Nat
  | .done sems => sems
  | _ => sems

/-- `sysvipc_sem_check`, whose assertion its callers meet. -/
def semCheck (sems : List Nat) : List Sembuf → SemCheck
  | [] => .done sems
  | sop :: sops =>
      let op := sop.semOp.toInt
      let value := sems.getD sop.semNum.toNat 0
      let nowait := has (sop.semFlg.signExtend 32) ipcNowait
      if op = 0 then
        if value ≠ 0 then
          if nowait then .failed .eagain else .wait
        else semCheck sems sops
      else
        let newValue : Int := value + op
        if newValue < 0 then
          if nowait then .failed .eagain else .wait
        else if newValue > maxSemval then .failed .erange
        else semCheck (sems.set sop.semNum.toNat newValue.toNat) sops

/-- Whether the loop of `sysvipc_semop` examines a tracee. -/
def Tracee.examined (pid index : Nat) (t : Tracee) : Bool :=
  t.pid != pid && t.config.waitsOn .waitSemop index

/-- The loop of `sysvipc_semop` over the other tracees, with the values so far. -/
def semopPass (pid index : Nat) : List Nat → List Tracee → Except Assertion (List Nat × List Tracee)
  | sems, [] => .ok (sems, [])
  | sems, t :: ts =>
      if t.examined pid index then
        match semCheck sems t.config.semopSops with
        | .wait => do
            let (sems, ts) ← semopPass pid index sems ts
            .ok (sems, t :: ts)
        | .failed e => do
            let config ← wakeTracee { t.config with semopSops := [] } (.error e)
            let (sems, ts) ← semopPass pid index sems ts
            .ok (sems, { t with config } :: ts)
        | .done sems => do
            let config ← wakeTracee { t.config with semopSops := [] } (.ok 0)
            let (sems, ts) ← semopPass pid index sems ts
            .ok (sems, { t with config } :: ts)
      else do
        let (sems, ts) ← semopPass pid index sems ts
        .ok (sems, t :: ts)

/-- The status of a call whose operations were checked, and the tracee: it waits, or not. -/
def semopStatus (t : Tracee) (index : Nat) (semaphore : Semaphore) (sops : List Sembuf) :
    SemCheck → Status × Tracee
  | .wait =>
      (.ok 0, { t with
        asked := .semaphore semaphore.address
        config := { t.config with
          waitReason := .waitSemop
          waitingObjectIndex := index
          semopSops := sops } })
  | .failed e =>
      (.error e, { t with config := { t.config with waitingObjectIndex := index, semopSops := [] } })
  | .done _ =>
      (.ok 0, { t with config := { t.config with waitingObjectIndex := index, semopSops := [] } })

def semop (m : GuestMemory) (w : World) (t : Tracee) (id sopsPtr nsops : Word) :
    Except Assertion (Status × Tracee × World) :=
  match lookupIpcObject w.semaphores id with
  | none => .ok (.error .einval, t, w)
  | some (index, semaphore) =>
      if nsops.toNat > maxNsops then .ok (.error .e2big, t, w)
      else if nsops.toNat = 0 then .ok (.error .einval, t, w)
      else
        match m.readSops sopsPtr nsops.toNat with
        | .error e => .ok (.error e, t, w)
        | .ok sops =>
            if sops.any fun sop => decide (sop.semNum.toNat ≥ semaphore.nsems) then
              .ok (.error .efbig, t, w)
            else do
              let check := semCheck semaphore.sems sops
              let (sems, tracees) ← semopPass t.pid index (check.values semaphore.sems) w.tracees
              let (status, t) := semopStatus t index semaphore sops check
              .ok (status, t, { w with
                semaphores := w.semaphores.set index { semaphore with sems }
                tracees })

/-- The commands of `sysvipc_semctl`, without `SYSVIPC_IPC_64`. -/
def semGetval : BitVec 32 := 12
def semGetall : BitVec 32 := 13
def semSetval : BitVec 32 := 16
def ipcInfo : BitVec 32 := 3
def semInfo : BitVec 32 := 19

/-- A semaphore set after `IPC_RMID`. -/
def Semaphore.rmid (semaphore : Semaphore) : Semaphore :=
  { semaphore with valid := false, generation := semaphore.generation + 1, sems := [] }

def semctl (m : GuestMemory) (w : World) (t : Tracee) (id semnum cmd cmdarg : Word) :
    Except Assertion (Status × Tracee × World) :=
  match lookupIpcObject w.semaphores id with
  | none => .ok (.error .einval, t, w)
  | some (index, semaphore) =>
      let semnum := (int semnum).toInt
      let cmd := int cmd &&& ~~~ipc64
      if cmd = semGetval then
        if semnum < 0 ∨ semnum ≥ semaphore.nsems then .ok (.error .einval, t, w)
        else .ok (.ok (semaphore.sems.getD semnum.toNat 0), t, w)
      else if cmd = semSetval then
        if cmdarg.toNat > maxSemval then .ok (.error .erange, t, w)
        else if semnum < 0 ∨ semnum ≥ semaphore.nsems then .ok (.error .einval, t, w)
        else
          .ok (.ok 0, t, { w with
            semaphores := w.semaphores.set index
              { semaphore with sems := semaphore.sems.set semnum.toNat cmdarg.toNat } })
      else if cmd = semGetall then
        match m.write cmdarg (2 * semaphore.nsems) with
        | .error e => .ok (.error e, t, w)
        | .ok _ => .ok (.ok 0, t, w)
      else if cmd = ipcRmid then do
        let tracees ← wakeEach (·.waitsOn .waitSemop index) (.error .eidrm) w.tracees
        .ok (.ok 0, t, { w with semaphores := w.semaphores.set index semaphore.rmid, tracees })
      else if cmd = ipcInfo ∨ cmd = semInfo then
        match m.write cmdarg 40 with
        | .error e => .ok (.error e, t, w)
        | .ok _ => .ok (.ok 0, t, w)
      else .ok (.error .einval, t, w)

end Improot.SysVIpc
