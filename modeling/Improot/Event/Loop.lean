import Improot.Event.Translate

/-!
# The event loop

`tracee/event.c` for one tracee that no other tracee traces: what `handle_tracee_event` makes of a
stop, and how the tracee is restarted.  An assertion that fails is a step that isn't there.
-/

namespace Improot.Event

open Improot.Syscall

inductive Stop where
  /-- It exited, or was terminated by a signal. -/
  | terminated
  /-- A bare `SIGTRAP`. -/
  | sigtrap
  /-- `SIGTRAP | 0x80`. -/
  | syscall
  /-- `PTRACE_EVENT_SECCOMP`, with its message. -/
  | seccompEvent (flags : Word)
  /-- `PTRACE_EVENT_FORK`, `PTRACE_EVENT_VFORK` or `PTRACE_EVENT_CLONE`. -/
  | forkEvent
  /-- `PTRACE_EVENT_EXEC`, `PTRACE_EVENT_EXIT` or `PTRACE_EVENT_VFORK_DONE`. -/
  | otherEvent
  | sigstop
  /-- `SIGSYS`, whether a seccomp policy raised it, and whether the system call was the avoider. -/
  | sigsys (seccomp avoider : Bool)
  | signal (number : Nat)
  deriving DecidableEq

/-- The static variables of `tracee/event.c`. -/
structure Globals where
  seccompDetected : Bool
  seccompAfterPtraceEnter : Bool
  deliverSigtrap : Bool
  deriving DecidableEq

/-- What an event is handled with: the registers of the tracee, the handler of the system call, and
the operations of `handle_seccomp_event_common`. -/
structure Input where
  regs : Registers
  handler : Handler
  sigsysActions : List Action

/-- What `update_wait_status` makes of the wait of a ptracer. -/
inductive WaitStatus where
  /-- The event is hidden, and the wait is asked for again. -/
  | restarted
  | result (value : Word)
  deriving DecidableEq

def SIGTRAP : Int := 5

def SIGSTOP : Int := 19

def SIGSYS : Int := 31

/-- `FILTER_SYSEXIT` in the message of a seccomp event. -/
def asksSysexit (flags : Word) : Bool := flags &&& filterSysexitFlag ≠ 0
where
  filterSysexitFlag : Word := 0x1

namespace Tracee

variable (p : Platform)

def chooseRestart (t : Tracee) : Tracee :=
  { t with restartHow :=
      match t.restartHow with
      | some how => some how
      | none =>
          if t.seccomp = .ENABLED && !t.sysexitNecessary then some .PTRACE_CONT
          else some .PTRACE_SYSCALL }

/-- A signal that was suppressed is delivered once there is no chain. -/
def redeliver (t : Tracee) : Tracee × Int :=
  if t.chain.suppressedSignal ≠ 0 && t.chain.syscalls.isNone &&
      !t.restoreOriginalRegsAfterSeccompEvent then
    ({ t with chain := { t.chain with suppressedSignal := 0 } }, t.chain.suppressedSignal)
  else (t, 0)

def accelerate (t : Tracee) : Tracee :=
  if t.seccomp = .ENABLED then
    if t.isInSysenter then
      { t with restartHow := some .PTRACE_SYSCALL, sysexitPending := true }
    else { t with restartHow := some .PTRACE_CONT, sysexitPending := false }
  else t

def disableAcceleration (t : Tracee) : Tracee :=
  if t.seccomp = .DISABLING then
    { t with restartHow := some .PTRACE_SYSCALL, seccomp := .DISABLED }
  else t

/-- The stages at a stop `SIGTRAP | 0x80`. -/
def translateStop (input : Input) (t : Tracee) : Tracee :=
  let wasSysenter := t.isInSysenter
  let t := t.translateSyscall p input.handler input.regs
  { t with skipNextSeccompSignal :=
      wasSysenter && p.sysnumOf (t.peekReg p .CURRENT .SYSARG_NUM) = .PR_void }

def handleSyscall (g : Globals) (input : Input) (t : Tracee) : Option (Globals × Tracee × Int) :=
  if t.exe = false then some (g, { t with restartHow := some .PTRACE_CONT }, 0)
  else if t.seccomp = .DISABLING then
    some (g, { t with
      seccomp := .DISABLED
      status := if t.isInSysenter then 1 else t.status }, 0)
  else
    let t := t.accelerate
    if t.seccompAlreadyHandledEnter then
      if t.isInSysenter || g.seccompAfterPtraceEnter then none
      else
        some (g, { t with
          seccompAlreadyHandledEnter := false
          restartHow := some .PTRACE_SYSCALL }.disableAcceleration, 0)
    else
      let redelivered := (t.translateStop p input).redeliver
      some (g, redelivered.1.disableAcceleration, redelivered.2)

def detectSeccomp (g : Globals) (t : Tracee) : Globals × Tracee :=
  if g.seccompDetected then (g, t)
  else ({ g with seccompDetected := true, seccompAfterPtraceEnter := !t.isInSysenter },
    { t with seccomp := .ENABLED })

/-- The enter stage at a seccomp event, without an exit stage unless a handler asks for it. -/
def enterAtSeccompEvent (g : Globals) (input : Input) (t : Tracee) : Tracee :=
  let t := { t with restartHow := some .PTRACE_CONT }.translateSyscall p input.handler input.regs
  let t :=
    if t.sysexitPending || t.seccomp = .DISABLING then
      { t with restartHow := some .PTRACE_SYSCALL }
    else t
  if !g.seccompAfterPtraceEnter && t.restartHow = some .PTRACE_SYSCALL &&
      !t.voidedSyscallCancelled then { t with seccompAlreadyHandledEnter := true }
  else t

/-- The case `PTRACE_EVENT_SECCOMP`; `necessary` is `sysexit_necessary`. -/
def handleSeccomp (g : Globals) (input : Input) (flags : Word) (necessary : Bool) (t : Tracee) :
    Option (Globals × Tracee × Int) :=
  let detected := detectSeccomp g t
  let g := detected.1
  let t : Tracee := { detected.2 with skipNextSeccompSignal := false }
  if g.seccompAfterPtraceEnter && !t.isInSysenter then
    if t.lastRestartHow = some .PTRACE_CONT then none
    else some (g, { t with restartHow := t.lastRestartHow }, 0)
  else if !t.isInSysenter then none
  else if t.seccomp ≠ .ENABLED then some (g, t, 0)
  else if asksSysexit flags || necessary then
    let t :=
      if g.seccompAfterPtraceEnter then
        { t with restartHow := some .PTRACE_SYSCALL }.translateSyscall p input.handler input.regs
      else t
    some (g, { t with restartHow := some .PTRACE_SYSCALL }, 0)
  else some (g, t.enterAtSeccompEvent p g input, 0)

/-- The registers that `handle_seccomp_event` starts from: on ARM the first argument is taken back
from the result, and on x86 the number of the system call is in the register of the result. -/
def fetchBlocked (input : Input) (t : Tracee) : Tracee :=
  let t := { t with status := 0, restoreOriginalRegs := false }.fetchRegs input.regs
  let t :=
    if setsSysnumApart p && t.restoreSysarg1AfterSigsys &&
        p.sysnumOf (t.peekReg p .ORIGINAL .SYSARG_NUM) =
          p.sysnumOf (t.peekReg p .CURRENT .SYSARG_NUM) then
      t.pokeReg p .SYSARG_1 (t.peekReg p .ORIGINAL .SYSARG_1)
    else t
  let t := { t with restoreSysarg1AfterSigsys := false }.saveCurrentRegs .ORIGINAL_SECCOMP_REWRITE
  if p.systrapNum = .SYSARG_RESULT then
    let regs := t.regs .CURRENT
    t.setBank .CURRENT fun i =>
      if i = p.regOffset .SYSARG_NUM then regs (p.regOffset .SYSARG_RESULT) else regs i
  else t

def leaveBlocked (input : Input) (t : Tracee) : Tracee :=
  let t := { t with seccompAlreadyHandledEnter := false }
  if t.isInSysenter then t
  else { t.translateSyscall p input.handler input.regs with restoreSysarg1AfterSigsys := true }

def handleSigsys (input : Input) (avoider : Bool) (t : Tracee) : Tracee :=
  let t := t.leaveBlocked p input
  if t.skipNextSeccompSignal || avoider then
    { t with skipNextSeccompSignal := false, restoreSysarg1AfterSigsys := false }
  else (t.fetchBlocked p input).performAll p input.sigsysActions

/-- The case `SIGSTOP`. -/
def handleSigstop (t : Tracee) : Tracee × Int :=
  let signal : Int := if t.exe then SIGSTOP else -1
  let t := if t.exe then t else { t with sigstop := .SIGSTOP_PENDING }
  if t.sigstop = .SIGSTOP_IGNORED then ({ t with sigstop := .SIGSTOP_ALLOWED }, 0)
  else (t, signal)

def handleSignal (number : Nat) (t : Tracee) : Tracee × Int :=
  if t.chain.syscalls.isSome || t.restoreOriginalRegsAfterSeccompEvent then
    ({ t with chain := { t.chain with suppressedSignal := number } }, 0)
  else (t, number)

def handleTraceeEvent (g : Globals) (stop : Stop) (input : Input) (t : Tracee) :
    Option (Globals × Tracee × Int) :=
  let necessary := t.sysexitNecessary
  let t := t.chooseRestart
  match stop with
  | .terminated => some (g, t, 0)
  | .sigtrap =>
      if g.deliverSigtrap then some (g, t, SIGTRAP)
      else t.handleSyscall p { g with deliverSigtrap := true } input
  | .syscall => t.handleSyscall p g input
  | .seccompEvent flags => t.handleSeccomp p g input flags necessary
  | .forkEvent => some (g, t, 0)
  | .otherEvent =>
      some (g, { t with restartHow := if t.lastRestartHow.isSome then t.lastRestartHow
        else t.restartHow }, 0)
  | .sigstop => some (g, t.handleSigstop.1, t.handleSigstop.2)
  | .sigsys seccomp avoider =>
      if seccomp then some (g, t.handleSigsys p input avoider, 0) else some (g, t, SIGSYS)
  | .signal number => some (g, (t.handleSignal number).1, (t.handleSignal number).2)

def restartTracee (t : Tracee) (signal : Int) : Option (Tracee × Bool) :=
  if t.waitsForPtracee || signal = -1 then some (t, false)
  else if t.restartHow = none then none
  else some ({ t with lastRestartHow := t.restartHow, restartHow := none }, true)

/-! ## Stopped tracees -/

/-- A ptracer that waits for a ptracee is woken up, in `handle_ptracee_event` and in
`remove_tracee`. -/
def wake (status : WaitStatus) (t : Tracee) : Option (Tracee × Bool) :=
  let t :=
    match status with
    | .restarted => (t.restartOriginalSyscall p).nextSyscall p
    | .result value => t.pokeReg p .SYSARG_RESULT value
  { (t.pushSpecificRegs p true false).1 with waitsForPtracee := false }.restartTracee 0

/-- What `new_child` does to the child, which inherits the acceleration of its parent, and whether
the child was restarted. -/
def adopt (seccomp : SeccompState) (sysexitPending : Bool) (t : Tracee) :
    Option (Tracee × Bool) :=
  if t.exe then none
  else
    let t := { t with exe := true, seccomp := seccomp, sysexitPending := sysexitPending }
    if t.sigstop = .SIGSTOP_PENDING then
      { t with sigstop := .SIGSTOP_ALLOWED }.restartTracee 0
    else some (t, false)

end Tracee

end Improot.Event
