import Improot.Event.Loop

/-!
# The rounds of a chain

What a tracee goes through between a system call of its own and the next one: the enter and the exit
stage of the system call, then the two stages of each system call that was injected behind it.  The
machine around the stages traps and executes system calls, and keeps a history of them.
-/

namespace Improot.Event

namespace Rounds

/-! ## The machine -/

section Registers

variable (p : Platform)

def fit (value : Word) : Word := p.mask (p.word value)

/-- The registers at the enter stop, for a tracee that runs into the trap.  On x86 the number of the
system call comes from the register of the result, which holds `-ENOSYS` until the exit stop. -/
def trapped (regs : Registers) : Registers := fun i =>
  if i = p.regOffset .INSTR_POINTER then fit p (regs i + p.systrapSize)
  else if p.systrapNum = .SYSARG_RESULT ∧ i = p.regOffset .SYSARG_NUM then
    regs (p.regOffset .SYSARG_RESULT)
  else if p.systrapNum = .SYSARG_RESULT ∧ i = p.regOffset .SYSARG_RESULT then p.word (-38)
  else regs i

def finished (regs : Registers) (result : Word) : Registers := fun i =>
  if i = p.regOffset .SYSARG_RESULT then p.word result else regs i

def callRegs : List Reg :=
  [.SYSARG_NUM, .SYSARG_1, .SYSARG_2, .SYSARG_3, .SYSARG_4, .SYSARG_5, .SYSARG_6]

def callOf (regs : Registers) : List Word :=
  callRegs.map fun reg => fit p (regs (p.regOffset reg))

/-- The system call that is asked for with `register_chained_syscall`. -/
def chainedCall (syscall : ChainedSyscall) : List Word :=
  [p.numberOf syscall.sysnum, syscall.sysarg1, syscall.sysarg2, syscall.sysarg3, syscall.sysarg4,
    syscall.sysarg5, syscall.sysarg6].map (fit p)

/-- The system call that is asked for with `restart_original_syscall`. -/
def originalSyscall (original : Registers) : ChainedSyscall :=
  ⟨p.sysnumOf (p.peek original .SYSARG_NUM), p.peek original .SYSARG_1, p.peek original .SYSARG_2,
    p.peek original .SYSARG_3, p.peek original .SYSARG_4, p.peek original .SYSARG_5,
    p.peek original .SYSARG_6⟩

end Registers

/-! ## What the stages push -/

section Pushes

variable (p : Platform)

def pushed (t : Tracee) (includingSysnum sysnumFails : Bool) (regs : Registers) : Registers :=
  if (t.regsWereChanged || (t.restoreOriginalRegs && t.restoreOriginalRegsAfterSeccompEvent)) &&
      (t.pushSpecificRegs p includingSysnum sysnumFails).2 then
    (t.pushSpecificRegs p includingSysnum sysnumFails).1.regs .CURRENT
  else regs

/-- The tracee at the end of the enter stage, before its registers are pushed. -/
def beforePush (h : Handler) (t : Tracee) : Tracee :=
  let t := { t with restoreOriginalRegs := false, voidedSyscallCancelled := false }
  let translated := t.translateEnter p h
  (translated.1.settle p translated.2).skipSysexit p

def stuck (h : Handler) (t : Tracee) : Bool :=
  t.chain.syscalls.isNone && !(t.pushSpecificRegs p true h.sysnumFails).2 &&
    t.peekReg p .ORIGINAL .SYSARG_NUM ≠ t.peekReg p .CURRENT .SYSARG_NUM

def restarted (h : Handler) (t : Tracee) : List ChainedSyscall :=
  if stuck p h t && t.peekReg p .CURRENT .SYSARG_NUM ≠ p.avoider then [t.syscallOf p .CURRENT]
  else []

def enteredRegs (h : Handler) (regs : Registers) (t : Tracee) : Registers :=
  let t := t.fetchRegs regs
  let u := beforePush p h t
  if stuck p h u then (t.enterStage p h).regs .CURRENT
  else pushed p u u.chain.syscalls.isNone h.sysnumFails regs

def exitedRegs (h : Handler) (regs : Registers) (t : Tracee) : Registers :=
  let t := { t.fetchRegs regs with restoreOriginalRegs := true }.translateExit p h
  pushed p ({ t with status := 0 }.nextSyscall p) false h.sysnumFails regs

end Pushes

/-! ## Histories -/

/-- What the handlers do at the enter stage: nothing for a system call that was restarted because
its number couldn't be set. -/
def enterActions (h : Handler) (t : Tracee) : List Action :=
  if t.chain.syscalls.isSome && t.chain.sysnumWorkaroundState = .PROCESS_REPLACED_CALL then []
  else h.actions

/-- What the handlers do at the exit stage: nothing for one that will be restarted. -/
def exitActions (h : Handler) (t : Tracee) : List Action :=
  if t.chain.syscalls.isSome && t.chain.sysnumWorkaroundState = .PROCESS_FAULTY_CALL then []
  else h.actions

def registration (p : Platform) (original : Registers) : Action → Option ChainedSyscall
  | .registerChainedSyscall syscall => some syscall
  | .restartOriginalSyscall => some (originalSyscall p original)
  | _ => none

/-- The result that an operation forces, after the one that was forced before. -/
def force (forced : Option Word) : Action → Option Word
  | .forceChainFinalResult result => some result
  | _ => forced

def poke (p : Platform) (regs : Registers) (reg : Reg) (value : Word) : Registers :=
  if p.peek regs reg = value then regs else p.set regs reg value

def pokes (p : Platform) (regs : Registers) : Action → Registers
  | .pokeReg reg value => poke p regs reg value
  | .setSysnum sysnum => poke p regs .SYSARG_NUM (p.numberOf sysnum)
  | _ => regs

/-! ## Rounds -/

/-- The handlers of the two stages, and what the kernel answers. -/
structure Round where
  enter : Handler
  exit : Handler
  result : Word

/-- A tracee in the machine, with the history since its own system call. -/
structure Machine where
  regs : Registers
  tracee : Tracee
  /-- The registers at the enter stop of its own system call. -/
  original : Registers
  registered : List ChainedSyscall
  /-- The injected system calls that the tracee trapped for. -/
  requested : List (List Word)
  /-- The injected system calls that the kernel executed. -/
  executed : List (List Word)
  /-- The result that was forced last, for the chain that hasn't ended. -/
  forced : Option Word
  /-- The results of the system calls, as the handlers of the exit stages leave them. -/
  results : List Word

section Steps

variable (p : Platform)

def begin (regs : Registers) (t : Tracee) : Machine where
  regs := regs
  tracee := t
  original := trapped p regs
  registered := []
  requested := []
  executed := []
  forced := none
  results := []

def Machine.record (m : Machine) (actions : List Action) : Machine :=
  { m with
    registered := m.registered ++ actions.filterMap (registration p m.original)
    forced := actions.foldl force m.forced }

def enterRound (r : Round) (m : Machine) : Machine :=
  let stopped := trapped p m.regs
  let regs := enteredRegs p r.enter stopped m.tracee
  let injected := m.tracee.chain.syscalls.isSome
  let recorded := m.record p (enterActions r.enter m.tracee)
  { recorded with
    regs := finished p regs r.result
    tracee := m.tracee.translateSyscall p r.enter stopped
    registered := recorded.registered ++
      restarted p r.enter (beforePush p r.enter (m.tracee.fetchRegs stopped))
    requested := if injected then m.requested ++ [callOf p stopped] else m.requested
    executed := if injected then m.executed ++ [callOf p regs] else m.executed }

def exitRound (r : Round) (m : Machine) : Machine :=
  let actions := exitActions r.exit m.tracee
  { m.record p actions with
    regs := exitedRegs p r.exit m.regs m.tracee
    tracee := m.tracee.translateSyscall p r.exit m.regs
    results := m.results ++ [actions.foldl (pokes p) m.regs (p.regOffset .SYSARG_RESULT)] }

/-- A system call, from the trap to the point where the tracee goes on. -/
def round (r : Round) (m : Machine) : Machine :=
  let entered := enterRound p r m
  if entered.tracee.status = 0 then entered else exitRound p r entered

inductive Turn where
  | call (r : Round)
  /-- The tracee waited for a ptracee, and has to wait again. -/
  | again

def again (m : Machine) : Option Machine :=
  let t := (m.tracee.restartOriginalSyscall p).nextSyscall p
  (m.tracee.wake p .restarted).map fun woken =>
    { m with
      regs := pushed p t true false m.regs
      tracee := woken.1
      registered := m.registered ++ [originalSyscall p m.original]
      forced := if m.registered = [] then m.forced else none }

/-- A turn: injected system calls as long as there is a chain, a wait only after it. -/
def turn (m : Machine) : Turn → Option Machine
  | .call r => if m.tracee.chain.syscalls.isSome then some (round p r m) else none
  | .again =>
      if m.tracee.chain.syscalls.isNone && m.tracee.waitsForPtracee then again p m else none

def run (r : Round) (turns : List Turn) (regs : Registers) (t : Tracee) : Option Machine :=
  turns.foldlM (turn p) (round p r (begin p regs t))

end Steps

end Rounds

end Improot.Event
