import Improot.Event.State

/-!
# The two stages of a system call

`syscall/syscall.c`: the enter and the exit stage of the translation, around the handlers of the
system calls (`translate_syscall_enter`, `translate_syscall_exit` and the extensions), of which the
model keeps what they do to the state of the tracee: any list of the operations below.

The workaround for kernels with a broken `PTRACE_POKEDATA` is left out.
-/

namespace Improot.Event

open Improot.Syscall

/-! ## Handlers -/

inductive Action where
  | pokeReg (reg : Reg) (value : Word)
  | setSysnum (sysnum : Sysnum)
  | registerChainedSyscall (syscall : ChainedSyscall)
  | restartOriginalSyscall
  | forceChainFinalResult (result : Word)
  /-- `tracee->sysexit_pending = true; tracee->restart_how = PTRACE_SYSCALL`. -/
  | requestSysexit
  /-- `tracee->restart_how = PTRACE_SYSCALL`. -/
  | restartSyscall
  /-- `tracee->restore_original_regs = false`. -/
  | keepRegs
  /-- `tracee->seccomp = DISABLING`, for a tracee that asks to be traced. -/
  | disableSeccomp
  /-- `PTRACER.wait_pid = pid`. -/
  | waitForPtracee
  /-- What `fix_and_restart_enosys_syscall` does first. -/
  | fixEnosysSyscall
  | restartSyscallAfterSeccomp
  | setResultAfterSeccomp (result : Word)
  deriving DecidableEq

structure Handler where
  actions : List Action
  status : Int
  sysnumFails : Bool

namespace Tracee

variable (p : Platform)

/-- The registers for a system call that is asked for again, in `restart_syscall_after_seccomp`; on
x86 its number has to be in the register of the result. -/
def rewind (t : Tracee) : Tracee :=
  let t := t.pokeReg p .INSTR_POINTER (t.peekReg p .CURRENT .INSTR_POINTER - p.systrapSize)
  if p.systrapNum = .SYSARG_RESULT then
    let regs := t.regs .CURRENT
    t.setBank .CURRENT fun i =>
      if i = p.regOffset .SYSARG_RESULT then regs (p.regOffset .SYSARG_NUM) else regs i
  else t

def restartSyscallAfterSeccomp (t : Tracee) : Tracee :=
  let t := { t with
    restoreOriginalRegsAfterSeccompEvent := true
    restartHow := some .PTRACE_SYSCALL }
  ((t.rewind p).pushSpecificRegs p false false).1

def setResultAfterSeccomp (t : Tracee) (result : Word) : Tracee :=
  { ((t.pokeReg p .SYSARG_RESULT result).pushSpecificRegs p false false).1 with
    status := 0, restartHow := some .PTRACE_SYSCALL }

def perform (t : Tracee) : Action → Tracee
  | .pokeReg reg value => t.pokeReg p reg value
  | .setSysnum sysnum => t.setSysnum p sysnum
  | .registerChainedSyscall syscall => t.registerChainedSyscall syscall
  | .restartOriginalSyscall => t.restartOriginalSyscall p
  | .forceChainFinalResult result => t.forceChainFinalResult result
  | .requestSysexit => { t with sysexitPending := true, restartHow := some .PTRACE_SYSCALL }
  | .restartSyscall => { t with restartHow := some .PTRACE_SYSCALL }
  | .keepRegs => { t with restoreOriginalRegs := false }
  | .disableSeccomp =>
      { t with seccomp := if t.seccomp = .ENABLED then .DISABLING else t.seccomp }
  | .waitForPtracee => { t with waitsForPtracee := true }
  | .fixEnosysSyscall =>
      ({ t with status := 0, restoreOriginalRegs := false }.setBank .CURRENT
        (t.regs .ORIGINAL)).saveCurrentRegs .ORIGINAL_SECCOMP_REWRITE
  | .restartSyscallAfterSeccomp => t.restartSyscallAfterSeccomp p
  | .setResultAfterSeccomp result => t.setResultAfterSeccomp p result

def performAll (t : Tracee) (actions : List Action) : Tracee :=
  actions.foldl (perform p) t

/-! ## The enter stage -/

/-- `kernel_cancels_voided_syscall`: the number is negative for the kernel. -/
def kernelCancelsVoidedSyscall : Bool := 2 ^ (p.wordSize - 1) ≤ p.arch.syscallAvoider

/-- The translation at the enter stage, and its status: of the system call itself, or of one of the
chain. -/
def translateEnter (h : Handler) (t : Tracee) : Tracee × Int :=
  match t.chain.syscalls with
  | none => (((t.saveCurrentRegs .ORIGINAL).performAll p h.actions).saveCurrentRegs .MODIFIED,
      h.status)
  | some _ =>
      if t.chain.sysnumWorkaroundState ≠ .PROCESS_REPLACED_CALL then
        ({ t.performAll p h.actions with restartHow := some .PTRACE_SYSCALL }, h.status)
      else ({ t with restartHow := some .PTRACE_SYSCALL }, 0)

def settle (t : Tracee) (status : Int) : Tracee :=
  if status < 0 then
    let t := (t.setSysnum p .PR_void).pokeReg p .SYSARG_RESULT (BitVec.ofInt 64 status)
    { t with
      status := status
      restartHow := if p.arch = .ARCH_ARM_EABI then some .PTRACE_SYSCALL else t.restartHow }
  else if t.isVoidedSyscall p .CURRENT && !kernelCancelsVoidedSyscall p then
    { t with status := 1, sysexitPending := true, restartHow := some .PTRACE_SYSCALL }
  else { t with status := 1 }

/-- Without an exit stage the status is reset and the stack pointer restored now. -/
def skipSysexit (t : Tracee) : Tracee :=
  if t.restartHow = some .PTRACE_CONT then
    { t with status := 0 }.pokeReg p .STACK_POINTER (t.peekReg p .ORIGINAL .STACK_POINTER)
  else t

def pokeInvalid (t : Tracee) : Tracee :=
  let t := t.pokeReg p .SYSARG_1 (-1)
  let t := t.pokeReg p .SYSARG_2 (-1)
  let t := t.pokeReg p .SYSARG_3 (-1)
  let t := t.pokeReg p .SYSARG_4 (-1)
  let t := t.pokeReg p .SYSARG_5 (-1)
  let t := t.pokeReg p .SYSARG_6 (-1)
  if p.sysnumOf (t.peekReg p .ORIGINAL .SYSARG_NUM) = .PR_brk then t.pokeReg p .SYSARG_1 0 else t

/-- What happens when the number of the system call can't be changed; `suppressed` is the status
that was reset. -/
def workAroundSysnum (t : Tracee) (suppressed : Int) : Tracee :=
  if t.peekReg p .ORIGINAL .SYSARG_NUM ≠ t.peekReg p .CURRENT .SYSARG_NUM then
    let t :=
      if t.peekReg p .CURRENT .SYSARG_NUM ≠ p.avoider then t.restartCurrentSyscallAsChained p
      else if suppressed ≠ 0 then
        { t with status := suppressed, restartHow := some .PTRACE_SYSCALL }
      else t
    ((t.pokeInvalid p).pushSpecificRegs p false false).1
  else t

/-- The registers are pushed with the number of the system call, unless there is a chain. -/
def pushEntered (h : Handler) (t : Tracee) (suppressed : Int) : Tracee :=
  let overrideSysnum := t.chain.syscalls.isNone
  let pushed := t.pushSpecificRegs p overrideSysnum h.sysnumFails
  let t :=
    if !pushed.2 && overrideSysnum then pushed.1.workAroundSysnum p suppressed else pushed.1
  { t with
    voidedSyscallCancelled := overrideSysnum && pushed.2 && kernelCancelsVoidedSyscall p &&
      t.isVoidedSyscall p .CURRENT }

def enterStage (h : Handler) (t : Tracee) : Tracee :=
  let t := { t with restoreOriginalRegs := false, voidedSyscallCancelled := false }
  let translated := t.translateEnter p h
  let t := translated.1.settle p translated.2
  (t.skipSysexit p).pushEntered p h (if t.restartHow = some .PTRACE_CONT then t.status else 0)

/-! ## The exit stage -/

def translateExit (h : Handler) (t : Tracee) : Tracee :=
  if t.chain.syscalls.isNone || t.chain.sysnumWorkaroundState = .PROCESS_REPLACED_CALL then
    { t with chain := { t.chain with sysnumWorkaroundState := .INACTIVE } }.performAll p h.actions
  else if t.chain.sysnumWorkaroundState = .PROCESS_FAULTY_CALL then
    { t with chain := { t.chain with sysnumWorkaroundState := .PROCESS_REPLACED_CALL } }
  else t.performAll p h.actions

def nextSyscall (t : Tracee) : Tracee :=
  match t.chain.syscalls with
  | some syscalls => t.chainNextSyscall p syscalls
  | none => t

def exitStage (h : Handler) (t : Tracee) : Tracee :=
  let t := { t with restoreOriginalRegs := true }.translateExit p h
  (({ t with status := 0 }.nextSyscall p).pushSpecificRegs p false h.sysnumFails).1

def translateSyscall (h : Handler) (regs : Registers) (t : Tracee) : Tracee :=
  let t := t.fetchRegs regs
  if t.isInSysenter then { t.enterStage p h with stages := t.stages ++ [.enter] }
  else { t.exitStage p h with stages := t.stages ++ [.exit] }

end Tracee

end Improot.Event
