import Improot.Event.Loop
import Improot.Lib.Transition

/-!
# The stops of a system call

The two orders in which a kernel reports the stops of a traced system call: up to Linux 4.7 the
seccomp filters are evaluated before the enter stop, since Linux 4.8 after it.  Every stop is
handled by the event loop, and how the tracee is restarted decides which stops are reported next.
-/

namespace Improot.Event

namespace Kernel

open Improot.Lib

/-! ## The kernel -/

inductive Order where
  /-- Before the enter stop. -/
  | old
  /-- After the enter stop, and again after the seccomp event. -/
  | new
  deriving DecidableEq

inductive Phase where
  /-- Outside of system calls. -/
  | user
  /-- The enter stop was reported, the filters are evaluated next. -/
  | check
  /-- The seccomp event was reported after the enter stop would have been. -/
  | recheck
  /-- The seccomp event was reported before the enter stop, unless the number of the system call
  cancels it. -/
  | entry (cancelled : Bool)
  /-- In the system call. -/
  | running
  /-- A filter blocked the system call; its exit stop may be reported before the signal is. -/
  | trapped (exited : Bool)
  /-- The tracee is dead. -/
  | gone
  deriving DecidableEq

/-- A seccomp event before the enter stop, once it is known whether the system call is cancelled. -/
def Phase.afterEvent (cancelled : Bool) : Phase → Phase
  | .entry _ => .entry cancelled
  | phase => phase

structure State where
  order : Order
  phase : Phase
  how : Restart
  traced : Bool
  stopped : Bool
  globals : Globals
  tracee : Tracee

inductive Move where
  | enterStop (input : Input)
  | seccompStop (flags : Word) (input : Input)
  | exitStop (input : Input)
  /-- The signal of a filter that blocked the system call. -/
  | sigsysStop (avoider : Bool) (input : Input)
  /-- An event of the system call; `fork` tells those that have a new child. -/
  | eventStop (fork : Bool)
  | userStop (stop : Stop)
  /-- A system call is started without any stop. -/
  | start
  /-- A filter blocks the system call. -/
  | trap
  | proceed
  | terminate
  /-- The ptracee that the tracee waits for has an event. -/
  | wake (status : WaitStatus)
  /-- The first seccomp event is one of another tracee. -/
  | detect

namespace State

def begin (s : State) (phase : Phase) (traced : Bool) : State :=
  { s with phase := phase, traced := traced, tracee := { s.tracee with stages := [] } }

def goOn (s : State) (phase : Phase) : State := { s with phase := phase }

/-- Syscall stops are bare `SIGTRAP`s as long as the options aren't set. -/
def syscallStop (s : State) : Stop := if s.globals.deliverSigtrap then .syscall else .sigtrap

end State

def noInput : Input := ⟨fun _ => 0, ⟨[], 0, false⟩, []⟩

def outside (g : Globals) : Stop → Bool
  | .signal _ => true
  | .sigstop => true
  | .sigsys seccomp _ => !seccomp
  | .sigtrap => g.deliverSigtrap
  | .otherEvent => true
  | _ => false

def report (s : State) (m : Move) : Option (State × Option (Stop × Input)) :=
  match m with
  | .terminate => some (s.goOn .gone, none)
  | .detect =>
      if s.globals.seccompDetected then none
      else
        some ({ s with globals := { s.globals with
          seccompDetected := true
          seccompAfterPtraceEnter := s.order = .new } }, none)
  | .wake _ => none
  | .enterStop input =>
      if s.stopped || s.how ≠ .PTRACE_SYSCALL then none
      else
        match s.phase with
        | .user =>
            some (s.begin (if s.order = .new then .check else .running) true,
              some (s.syscallStop, input))
        | .entry false => some (s.goOn .running, some (s.syscallStop, input))
        | _ => none
  | .seccompStop flags input =>
      if s.stopped then none
      else
        match s.phase, s.order with
        | .user, .old => some (s.begin (.entry false) true, some (.seccompEvent flags, input))
        | .user, .new =>
            if s.how = .PTRACE_SYSCALL then none
            else some (s.begin .recheck true, some (.seccompEvent flags, input))
        | .check, _ => some (s.goOn .recheck, some (.seccompEvent flags, input))
        | _, _ => none
  | .exitStop input =>
      if s.stopped || s.how ≠ .PTRACE_SYSCALL then none
      else
        match s.phase with
        | .running => some (s.goOn .user, some (s.syscallStop, input))
        | .trapped false =>
            if s.traced then some (s.goOn (.trapped true), some (s.syscallStop, input)) else none
        | _ => none
  | .sigsysStop avoider input =>
      if s.stopped then none
      else
        match s.phase with
        | .trapped _ => some (s.goOn .user, some (.sigsys true avoider, input))
        | _ => none
  | .eventStop fork =>
      if s.stopped then none
      else
        match s.phase with
        | .running => some (s, some (if fork then .forkEvent else .otherEvent, noInput))
        | _ => none
  | .userStop stop =>
      if s.stopped then none
      else if s.phase = .user && outside s.globals stop then some (s, some (stop, noInput))
      else none
  | .start =>
      if s.stopped || s.phase ≠ .user || s.how = .PTRACE_SYSCALL then none
      else some (s.begin .running false, none)
  | .trap =>
      if s.stopped then none
      else
        match s.phase, s.order with
        | .user, .old => some (s.begin (.trapped false) false, none)
        | .user, .new =>
            if s.how = .PTRACE_SYSCALL then none else some (s.begin (.trapped false) false, none)
        | .check, _ => some (s.goOn (.trapped false), none)
        | .recheck, _ => some (s.goOn (.trapped false), none)
        | _, _ => none
  | .proceed =>
      if s.stopped then none
      else
        match s.phase with
        | .check => some (s.goOn .running, none)
        | .recheck => some (s.goOn .running, none)
        | .entry cancelled =>
            if cancelled || s.how ≠ .PTRACE_SYSCALL then some (s.goOn .running, none) else none
        | .running => if s.how = .PTRACE_SYSCALL then none else some (s.goOn .user, none)
        | _ => none

/-! ## The event loop -/

section Loop

variable (p : Platform)

def numberEntered (input : Input) (t : Tracee) : Word :=
  if Tracee.setsSysnumApart p && (t.chain.syscalls.isSome || input.handler.sysnumFails) then
    p.peek input.regs .SYSARG_NUM
  else t.peekReg p .CURRENT .SYSARG_NUM

def numberAfter (input : Input) (t : Tracee) : Word :=
  if t.stages = [] then p.peek input.regs .SYSARG_NUM else numberEntered p input t

/-- Whether a number is negative, as an `int`. -/
def negative (number : Word) : Bool := number.getLsbD 31

def handle (s : State) (stop : Stop) (input : Input) : Option State :=
  (s.tracee.handleTraceeEvent p s.globals stop input).bind fun handled =>
    (handled.2.1.restartTracee handled.2.2).map fun restarted =>
      { s with
        phase := s.phase.afterEvent (negative (numberAfter p input handled.2.1))
        how := handled.2.1.restartHow.getD s.how
        stopped := !restarted.2
        globals := handled.1
        tracee := restarted.1 }

def Allowed (s : State) : Move → Prop
  | .wake _ => s.stopped = true ∧ s.tracee.waitsForPtracee = true
  | m => (report s m).isSome

/-- One step; an assertion that fails is a move that is allowed and has no step. -/
def step (s : State) (m : Move) : Option State :=
  match m with
  | .wake status =>
      if s.stopped && s.tracee.waitsForPtracee then
        (s.tracee.wake p status).map fun woken =>
          { s with
            how := woken.1.lastRestartHow.getD s.how
            stopped := !woken.2
            tracee := woken.1 }
      else none
  | m =>
      (report s m).bind fun reported =>
        match reported.2 with
        | none => some reported.1
        | some (stop, input) => handle p reported.1 stop input

/-- The runs of a tracee that has its program; a child inherits the acceleration of its parent, and
may have been restarted before. -/
def system : System State Move where
  init s := s.phase = .user ∧ s.how = .PTRACE_SYSCALL ∧ s.stopped = false ∧
    (s.globals.seccompDetected = true →
      s.globals.seccompAfterPtraceEnter = decide (s.order = .new)) ∧
    ∃ seccomp sysexitPending sigstop last,
      s.tracee.toFlags = { Flags.new with
        exe := true, seccomp := seccomp, sysexitPending := sysexitPending
        sigstop := sigstop, lastRestartHow := last } ∧
      seccomp ≠ .DISABLING ∧ (seccomp = .ENABLED → s.globals.seccompDetected = true) ∧
      (last = none ∨ last = some .PTRACE_SYSCALL)
  step := step p

end Loop

end Kernel

end Improot.Event
