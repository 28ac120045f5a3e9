import Mathlib.Algebra.Group.Nat.Defs
import Improot.SysVIpc.Sem

/-!
# Shared memory

The system calls of `sysvipc_shm.c`, where the helper process allocates the memory (the mode that
leaves it to libandroid-shmem isn't modelled).
-/

namespace Improot.SysVIpc

/-! ## The helper -/

def Helper.memory? (h : Helper) (fd : Int) : Option Nat :=
  (h.fds.find? (·.1 = fd)).map (·.2)

/-- A request in the loop of `sysvipc_shm_helper_main`; `accept` waits for a connection. -/
def Helper.serve (h : Helper) : HelperRequest → Option Helper
  | .free fd => some { h with fds := h.fds.filter (·.1 ≠ fd) }
  | .distribute fd =>
      match h.backlog with
      | [] => none
      | connection :: backlog =>
          some { h with
            backlog
            sent := h.sent ++ ((h.memory? fd).map fun memory => (connection, memory)).toList }

def Helper.step (h : Helper) : Option Helper :=
  match h.requests with
  | [] => none
  | request :: requests => { h with requests }.serve request

def Helper.drain (h : Helper) : Option Helper :=
  h.requests.foldlM Helper.serve { h with requests := [] }

def Helper.sentOver (h : Helper) (connection : Nat) : Option Nat :=
  (h.sent.find? (·.1 = connection)).map (·.2)

def World.sendHelperRequest (w : World) (request : HelperRequest) : World :=
  { w with helper := { w.helper with requests := w.helper.requests ++ [request] } }

/-- `sysvipc_shm_do_allocate`: it gets no file or no descriptor for it, `ftruncate` fails and the
descriptor stays open, or the file has the size of the segment. -/
inductive Allocation where
  | failed
  | unsized (fd : Nat)
  | done (fd : Nat)

/-- What `sysvipc_shm_do_allocate` returns: a descriptor or `-ENOSPC`. -/
def Allocation.answer : Allocation → Int
  | .failed | .unsized _ => -28
  | .done fd => fd

def Allocation.opened : Allocation → Option Nat
  | .failed => none
  | .unsized fd | .done fd => some fd

/-- `SHMHELPER_ALLOC`, whose response is read: the helper is done with the requests before. -/
def World.allocMemory (w : World) (allocation : Allocation) : World :=
  let helper := w.helper.drain.getD w.helper
  let opened := allocation.opened.toList.map fun fd => ((fd : Int), w.nextAddress)
  { w with
    helper := { helper with fds := opened ++ helper.fds }
    nextAddress := w.nextAddress + 1 }

/-! ## Segments -/

/-- A slot after `memset`. -/
def SharedMem.zero : SharedMem where
  key := 0
  generation := 0
  valid := false
  rmidPending := false
  fd := 0
  address := 0
  shmSegsz := 0
  mode := 0
  shmCpid := 0

/-- What `sysvipc_shmget` makes of a slot. -/
def SharedMem.create (shm : SharedMem) (key : BitVec 32) (size : Word) (shmflg : BitVec 32)
    (fd : Int) (address pgid : Nat) : SharedMem :=
  { shm with
    key := key
    valid := true
    fd := fd
    address := address
    shmSegsz := size
    mode := shmflg &&& 0o777
    shmCpid := pgid }

/-- The slot of `sysvipc_shmget`, with what happens if the helper is asked for memory. -/
def shmgetSlot (w : World) (pgid : Nat) (key size shmflg : Word) (allocation : Allocation) :
    Except Errno Nat × World :=
  match findKey w.shms key with
  | some index =>
      let segsz := (w.shms[index]?.map (·.shmSegsz)).getD 0
      if has (int shmflg) ipcCreat ∧ has (int shmflg) ipcExcl then (.error .eexist, w)
      else if size ≠ 0 ∧ size ≠ segsz then (.error .einval, w)
      else (.ok index, w)
  | none =>
      if ¬ has (int shmflg) ipcCreat then (.error .enoent, w)
      else
        let index := (unusedSlot w.shms).getD w.shms.length
        let shms := if index < w.shms.length then w.shms else w.shms ++ [.zero]
        let shm := (shms[index]?).getD .zero
        let fd := allocation.answer
        let w := { w with shms := shms.set index { shm with fd } }
        if fd < 0 then (.error .enospc, w.allocMemory allocation)
        else
          (.ok index, { w.allocMemory allocation with
            shms := shms.set index (shm.create (int key) size (int shmflg) fd w.nextAddress pgid) })

def shmget (w : World) (t : Tracee) (key size shmflg : Word) (allocation : Allocation) :
    Status × World :=
  let pgid := ((w.process? t.config.process).map (·.pgid)).getD 0
  match shmgetSlot w pgid key size shmflg allocation with
  | (.error e, w) => (.error e, w)
  | (.ok index, w) => (.ok (slotId w.shms index), w)

def SharedMem.rmid (shm : SharedMem) : SharedMem :=
  { shm with valid := false, rmidPending := false, generation := shm.generation + 1, fd := -1 }

def doRmid (w : World) (index : Nat) : Except Assertion World :=
  match w.shms[index]? with
  | none => .error .shmIndex
  | some shm =>
      if w.mappingsOf index ≠ [] then .error .mappingsEmpty
      else .ok ({ w with shms := w.shms.set index shm.rmid }.sendHelperRequest (.free shm.fd))

/-! ## Mappings -/

def World.setProcess (w : World) (p : Process) : World :=
  { w with processes := w.processes.map fun q => if q.id = p.id then p else q }

/-- `sysvipc_shm_memmap_destructor`, once the mapping isn't in the lists any more. -/
def memmapDestructor (w : World) (mapping : SharedMemMap) : Except Assertion World :=
  match w.shms[mapping.shmIndex]? with
  | none => .error .shmIndex
  | some shm =>
      if w.mappingsOf mapping.shmIndex = [] ∧ shm.rmidPending = true then doRmid w mapping.shmIndex
      else .ok w

/-- `talloc_free` of the first mapping of a process that meets a condition. -/
def freeMapping (w : World) (p : Process) (which : SharedMemMap → Bool) : Except Assertion World :=
  match p.mappedShms.find? which with
  | none => .ok w
  | some mapping =>
      memmapDestructor (w.setProcess { p with mappedShms := p.mappedShms.eraseP which }) mapping

def removeMappingsFromProcess (w : World) (p : Process) : List SharedMemMap → Except Assertion World
  | [] => .ok w
  | mapping :: mappings => do
      let p := { p with mappedShms := mappings }
      let w ← memmapDestructor (w.setProcess p) mapping
      removeMappingsFromProcess w p mappings

def SharedMemMap.pending (index : Nat) (mapping : SharedMemMap) : Bool :=
  mapping.size == 0 && mapping.shmIndex == index

/-! ## Attaching -/

/-- The states of the chain between `CSTATE_SHMAT_SOCKET`, excluded, and `CSTATE_SHMAT_MMAP`. -/
def ChainState.usesHelper : ChainState → Bool
  | .shmatConnect | .shmatRecvmsg | .shmatMmap => true
  | _ => false

/-- The states of the chain from `CSTATE_SHMAT_SOCKET` to `CSTATE_SHMAT_MMAP`. -/
def ChainState.attaches : ChainState → Bool
  | .shmatSocket | .shmatConnect | .shmatRecvmsg | .shmatMmap => true
  | _ => false

def World.addMapping (w : World) (process : Nat) (mapping : SharedMemMap) : World :=
  match w.process? process with
  | none => w
  | some p => w.setProcess { p with mappedShms := mapping :: p.mappedShms }

def shmat (w : World) (t : Tracee) (id : Word) : Status × Tracee × World :=
  match lookupIpcObject w.shms id with
  | none => (.error .einval, t, w)
  | some (index, shm) =>
      let w := w.addMapping t.config.process ⟨0, 0, index⟩
      let t := { t with
        asked := .segment shm.address
        config := { t.config with waitingObjectIndex := index } }
      if w.tracees.any (·.config.chainState.usesHelper) then
        (.ok 0, { t with config := { t.config with waitReason := .waitShmatHelperBusy } }, w)
      else (.ok 0, { t with config := { t.config with chainState := .shmatSocket } }, w)

def wakePendingShmat (w : World) : Except Assertion World := do
  let tracees ← wakeFirst (fun c => decide (c.waitReason = .waitShmatHelperBusy)) .shmatSocket
    (.ok 0) w.tracees
  .ok { w with tracees }

/-- The end of `sysvipc_shmat_chain`: the tracee leaves the chain, the pending mapping is changed or
freed, and a tracee that waits for the helper is woken. -/
def leaveChain (w : World) (t : Tracee) (mapped : Option (Word × Word)) : Except Assertion World :=
  let t := { t with
    asked := .nothing
    config := { t.config with chainState := .notChained } }
  let index := t.config.waitingObjectIndex
  match w.process? t.config.process with
  | none => .error .pendingMapping
  | some p =>
      if p.mappedShms.any (SharedMemMap.pending index) then do
        let w := w.setTracee t
        let w ← match mapped with
          | none => freeMapping w p (SharedMemMap.pending index)
          | some (addr, size) =>
              .ok (w.setProcess { p with
                mappedShms := p.mappedShms.replaceF fun mapping =>
                  if mapping.pending index then some { mapping with addr, size } else none })
        wakePendingShmat w
      else .error .pendingMapping

/-- The segment that `sysvipc_shmat_chain` starts with. -/
def chainSegment (w : World) (t : Tracee) : Except Assertion SharedMem :=
  match w.shms[t.config.waitingObjectIndex]? with
  | none => .error .shmIndex
  | some shm => if shm.valid then .ok shm else .error .shmValid

/-- `sysvipc_shmat_chain` in `CSTATE_SHMAT_SOCKET`: the socket is `fd`, and the address of the
helper is written at `guestAddr`. -/
def chainSocket (m : GuestMemory) (w : World) (t : Tracee) (fd : Int) (guestAddr : Word) :
    Except Assertion World := do
  let _ ← chainSegment w t
  if fd < 0 ∨ guestAddr = 0 then leaveChain w t none
  else
    match m.write guestAddr 110 with
    | .error _ => leaveChain w t none
    | .ok _ =>
        .ok (w.setTracee { t with
          connection := none
          memFd := none
          config := { t.config with chainState := .shmatConnect } })

def chainConnect (m : GuestMemory) (w : World) (t : Tracee) (result : Int) (guestAddr : Word) :
    Except Assertion World := do
  let shm ← chainSegment w t
  if result ≠ 0 then leaveChain w t none
  else
    match m.write guestAddr 110 with
    | .error _ => leaveChain w t none
    | .ok _ =>
        .ok ((w.setTracee { t with config := { t.config with chainState := .shmatRecvmsg } })
          |>.sendHelperRequest (.distribute shm.fd))

def SharedMem.mapSize (shm : SharedMem) : Word := (shm.shmSegsz + 4095) &&& ~~~4095

/-- `sysvipc_shmat_chain` in `CSTATE_SHMAT_RECVMSG`, with the descriptor of the control message if
there is one. -/
def chainRecvmsg (w : World) (t : Tracee) (fd : Option Word) : Except Assertion World := do
  let shm ← chainSegment w t
  match fd with
  | none => leaveChain w t none
  | some fd =>
      if fd.toNat > 0xFFFF then leaveChain w t none
      else
        .ok (w.setTracee { t with
          mapSize := shm.mapSize
          memFd := t.connection.bind w.helper.sentOver
          config := { t.config with chainState := .shmatMmap } })

def isError (result : Word) : Bool := decide (2 ^ 64 - 4095 ≤ result.toNat)

def World.mmapped (w : World) (t : Tracee) (addr : Word) : World :=
  match isError addr, t.memFd, w.process? t.config.process with
  | false, some memory, some p =>
      let attached := ⟨addr, t.mapSize, memory⟩ :: w.spaces p.space
      { w with spaces := Function.update w.spaces p.space attached }
  | _, _, _ => w

def chainMmap (w : World) (t : Tracee) (addr : Word) : Except Assertion World := do
  let _ ← chainSegment w t
  leaveChain (w.mmapped t addr) t (some (addr, t.mapSize))

/-! ## Detaching and removing -/

def World.munmapped (w : World) (p : Process) (mapping : SharedMemMap) : World :=
  let kept := (w.spaces p.space).filter fun a =>
    !(a.addr == mapping.addr && a.size == mapping.size)
  { w with spaces := Function.update w.spaces p.space kept }

/-- `sysvipc_shmdt`, and the munmap(2) it is turned into. -/
def shmdt (w : World) (t : Tracee) (addr : Word) : Except Assertion (Status × Tracee × World) :=
  match w.process? t.config.process with
  | none => .ok (.error .einval, t, w)
  | some p =>
      match p.mappedShms.find? (·.addr = addr) with
      | none => .ok (.error .einval, t, w)
      | some mapping => do
          let w ← freeMapping (w.munmapped p mapping) p (·.addr = addr)
          .ok (.ok 0, { t with config := { t.config with chainState := .single } }, w)

/-- `sysvipc_shm_update_stats`: the `shm_nattch` of a segment. -/
def World.shmNattch (w : World) (index : Nat) : Nat := (w.mappingsOf index).length

def shmctl (m : GuestMemory) (w : World) (t : Tracee) (id cmd buf : Word) :
    Except Assertion (Status × Tracee × World) :=
  match lookupIpcObject w.shms id with
  | none => .ok (.error .einval, t, w)
  | some (index, shm) =>
      let cmd := int cmd
      if cmd = ipcRmid ∨ cmd = ipcRmid ||| ipc64 then
        if w.mappingsOf index = [] then do
          let w ← doRmid w index
          .ok (.ok 0, t, w)
        else .ok (.ok 0, t, { w with shms := w.shms.set index { shm with rmidPending := true } })
      else if cmd = ipcStat then
        match m.write buf 112 with
        | .error e => .ok (.error e, t, w)
        | .ok _ => .ok (.ok 0, t, w)
      else .ok (.error .einval, t, w)

/-- `sysvipc_shm_inherit_process`, for a process whose address space is a copy or the same. -/
def inheritProcess (w : World) (parent : Process) (pgid : Nat) (vm : Bool) : Process × World :=
  let child : Process :=
    ⟨w.nextAddress, pgid, if vm then parent.space else w.nextAddress, parent.mappedShms⟩
  let spaces := if vm then w.spaces
    else Function.update w.spaces w.nextAddress (w.spaces parent.space)
  (child, { w with
    processes := child :: w.processes
    spaces
    nextAddress := w.nextAddress + 1 })

end Improot.SysVIpc
