import Improot.Event.Registers

/-!
# A tracee under the event loop

The fields of `Tracee` that the event loop and the translation of system calls read and write, the
registers (`tracee/reg.c`) and the chain of injected system calls (`syscall/chain.c`).
-/

namespace Improot.Event

open Improot.Syscall

inductive Restart where
  | PTRACE_CONT
  | PTRACE_SYSCALL
  | PTRACE_SINGLESTEP
  deriving DecidableEq

inductive SeccompState where
  | DISABLED
  | DISABLING
  | ENABLED
  deriving DecidableEq

/-- `sysnum_workaround_state`. -/
inductive SysnumWorkaround where
  | INACTIVE
  | PROCESS_FAULTY_CALL
  | PROCESS_REPLACED_CALL
  deriving DecidableEq

inductive Sigstop where
  | SIGSTOP_IGNORED
  | SIGSTOP_ALLOWED
  | SIGSTOP_PENDING
  deriving DecidableEq

structure ChainedSyscall where
  sysnum : Sysnum
  sysarg1 : Word
  sysarg2 : Word
  sysarg3 : Word
  sysarg4 : Word
  sysarg5 : Word
  sysarg6 : Word
  deriving DecidableEq

/-- `chain` of `Tracee`; `syscalls` is `none` for a null pointer. -/
structure Chain where
  syscalls : Option (List ChainedSyscall)
  forceFinalResult : Bool
  finalResult : Word
  sysnumWorkaroundState : SysnumWorkaround
  suppressedSignal : Nat

inductive Stage where
  | enter
  | exit
  deriving DecidableEq

/-- The fields of `Tracee` that aren't registers; `restartHow` is `none` for 0. -/
structure Flags where
  exe : Bool
  status : Int
  restartHow : Option Restart
  lastRestartHow : Option Restart
  restoreOriginalRegs : Bool
  restoreOriginalRegsAfterSeccompEvent : Bool
  sigstop : Sigstop
  skipNextSeccompSignal : Bool
  voidedSyscallCancelled : Bool
  restoreSysarg1AfterSigsys : Bool
  chain : Chain
  seccomp : SeccompState
  sysexitPending : Bool
  seccompAlreadyHandledEnter : Bool
  waitsForPtracee : Bool
  /-- The stages that were run for the last system call; the source doesn't keep them. -/
  stages : List Stage

/-- The fields of `Tracee`. -/
structure Tracee extends Flags where
  regs : RegVersion → Registers
  regsWereChanged : Bool

def Flags.isInSysenter (t : Flags) : Bool := t.status = 0

def Flags.sysexitNecessary (t : Flags) : Bool :=
  t.sysexitPending || t.chain.syscalls.isSome || t.restoreOriginalRegsAfterSeccompEvent

def Flags.new : Flags where
  exe := false
  status := 0
  restartHow := none
  lastRestartHow := none
  restoreOriginalRegs := false
  restoreOriginalRegsAfterSeccompEvent := false
  sigstop := .SIGSTOP_IGNORED
  skipNextSeccompSignal := false
  voidedSyscallCancelled := false
  restoreSysarg1AfterSigsys := false
  chain := ⟨none, false, 0, .INACTIVE, 0⟩
  seccomp := .DISABLED
  sysexitPending := false
  seccompAlreadyHandledEnter := false
  waitsForPtracee := false
  stages := []

namespace Tracee

/-! ## Registers -/

section Registers

variable (p : Platform)

def peekReg (t : Tracee) (version : RegVersion) (reg : Reg) : Word :=
  p.peek (t.regs version) reg

def setBank (t : Tracee) (version : RegVersion) (regs : Registers) : Tracee :=
  { t with regs := fun v => if v = version then regs else t.regs v }

def pokeReg (t : Tracee) (reg : Reg) (value : Word) : Tracee :=
  if t.peekReg p .CURRENT reg = value then t
  else { t.setBank .CURRENT (p.set (t.regs .CURRENT) reg value) with regsWereChanged := true }

def fetchRegs (t : Tracee) (regs : Registers) : Tracee := t.setBank .CURRENT regs

def saveCurrentRegs (t : Tracee) (version : RegVersion) : Tracee :=
  { t.setBank version (t.regs .CURRENT) with
    regsWereChanged := if version = .ORIGINAL then false else t.regsWereChanged }

def setSysnum (t : Tracee) (sysnum : Sysnum) : Tracee :=
  t.pokeReg p .SYSARG_NUM (p.numberOf sysnum)

def isVoidedSyscall (t : Tracee) (version : RegVersion) : Bool :=
  t.peekReg p version .SYSARG_NUM = p.mask p.avoider ∧
    t.peekReg p .ORIGINAL .SYSARG_NUM ≠ p.mask p.avoider

/-- The registers that `push_specific_regs` restores. -/
def restoredRegs : List Reg :=
  [.SYSARG_NUM, .SYSARG_1, .SYSARG_2, .SYSARG_3, .SYSARG_4, .SYSARG_5, .SYSARG_6, .STACK_POINTER]

/-- `RESTORE`: on x86 every register, elsewhere those that don't hold the result. -/
def restores (reg : Reg) : Bool :=
  p.arch = .ARCH_X86 ∨ p.arch = .ARCH_X86_64 ∨ p.regOffset .SYSARG_RESULT ≠ p.regOffset reg

/-- A bank after `RESTORE` of the registers. -/
def restore (saved : Registers) (regs : Registers) : Registers :=
  restoredRegs.foldl
    (fun regs reg =>
      if restores p reg then fun i => if i = p.regOffset reg then saved i else regs i else regs)
    regs

def setsSysnumApart : Bool := p.arch = .ARCH_ARM_EABI ∨ p.arch = .ARCH_ARM64

/-- The part of `push_specific_regs` that restores the original registers. -/
def restoreRegs (t : Tracee) : Tracee :=
  if t.restoreOriginalRegs then
    let saved :=
      if t.restoreOriginalRegsAfterSeccompEvent then RegVersion.ORIGINAL_SECCOMP_REWRITE
      else .ORIGINAL
    { t.setBank .CURRENT (restore p (t.regs saved) (t.regs .CURRENT)) with
      restoreOriginalRegsAfterSeccompEvent := false }
  else t

/-- `push_specific_regs`, and whether it succeeds.  The only request that may fail for a tracee
that is alive is the one that sets the number of the system call (`sysnumFails`). -/
def pushSpecificRegs (t : Tracee) (includingSysnum sysnumFails : Bool) : Tracee × Bool :=
  if t.regsWereChanged || (t.restoreOriginalRegs && t.restoreOriginalRegsAfterSeccompEvent) then
    let t := t.restoreRegs p
    if setsSysnumApart p && includingSysnum && sysnumFails &&
        t.regs .CURRENT (p.regOffset .SYSARG_NUM) ≠ t.regs .ORIGINAL (p.regOffset .SYSARG_NUM) then
      (t, false)
    else (t, true)
  else (t, true)

end Registers

/-! ## The chain of system calls -/

def registerChainedSyscallInternal (t : Tracee) (syscall : ChainedSyscall) (atFront : Bool) :
    Tracee :=
  let syscalls := t.chain.syscalls.getD []
  { t with chain := { t.chain with
    syscalls := some (if atFront then syscall :: syscalls else syscalls ++ [syscall]) } }

def registerChainedSyscall (t : Tracee) (syscall : ChainedSyscall) : Tracee :=
  t.registerChainedSyscallInternal syscall false

def forceChainFinalResult (t : Tracee) (forcedResult : Word) : Tracee :=
  { t with chain := { t.chain with forceFinalResult := true, finalResult := forcedResult } }

section Chain

variable (p : Platform)

def syscallOf (t : Tracee) (version : RegVersion) : ChainedSyscall :=
  ⟨p.sysnumOf (t.peekReg p version .SYSARG_NUM), t.peekReg p version .SYSARG_1,
    t.peekReg p version .SYSARG_2, t.peekReg p version .SYSARG_3, t.peekReg p version .SYSARG_4,
    t.peekReg p version .SYSARG_5, t.peekReg p version .SYSARG_6⟩

def restartOriginalSyscall (t : Tracee) : Tracee :=
  t.registerChainedSyscall (t.syscallOf p .ORIGINAL)

/-- `restart_current_syscall_as_chained`, whose assertion is the caller's. -/
def restartCurrentSyscallAsChained (t : Tracee) : Tracee :=
  let t := { t with chain := { t.chain with sysnumWorkaroundState := .PROCESS_FAULTY_CALL } }
  t.registerChainedSyscallInternal (t.syscallOf p .CURRENT) true

/-- The registers for the next system call of the chain, in `chain_next_syscall`. -/
def pokeChained (t : Tracee) (syscall : ChainedSyscall) : Tracee :=
  let t := t.pokeReg p .SYSARG_1 syscall.sysarg1
  let t := t.pokeReg p .SYSARG_2 syscall.sysarg2
  let t := t.pokeReg p .SYSARG_3 syscall.sysarg3
  let t := t.pokeReg p .SYSARG_4 syscall.sysarg4
  let t := t.pokeReg p .SYSARG_5 syscall.sysarg5
  let t := t.pokeReg p .SYSARG_6 syscall.sysarg6
  let t := t.pokeReg p p.systrapNum (p.numberOf syscall.sysnum)
  t.pokeReg p .INSTR_POINTER (t.peekReg p .CURRENT .INSTR_POINTER - p.systrapSize)

def chainNextSyscall (t : Tracee) : List ChainedSyscall → Tracee
  | [] =>
      let t := { t with chain := { t.chain with syscalls := none } }
      let t := if t.chain.forceFinalResult then t.pokeReg p .SYSARG_RESULT t.chain.finalResult
        else t
      { t with chain := { t.chain with forceFinalResult := false, finalResult := 0 } }
  | syscall :: syscalls =>
      let t := { t with
        restoreOriginalRegs := false
        chain := { t.chain with syscalls := some syscalls } }
      { t.pokeChained p syscall with restartHow := some .PTRACE_SYSCALL }

end Chain

end Tracee

end Improot.Event
