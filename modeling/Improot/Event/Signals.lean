import Improot.Event.Frame
import Improot.Lib.Transition

/-!
# Signals during a chain of system calls

A run of one tracee: the signals that the kernel reports to the event loop, and those that the
tracee is restarted with.  A signal that arrives while a chain runs is suppressed; the tracee gets
it once the chain is over, unless another one arrives before.
-/

namespace Improot.Event

namespace Signals

open Improot.Lib

/-! ## Runs of a tracee -/

structure State where
  globals : Globals
  tracee : Tracee
  running : Bool
  received : List Int
  delivered : List Int

inductive Move where
  | stop (stop : Stop) (input : Input)
  | wake (status : WaitStatus)
  | adopt (seccomp : SeccompState) (sysexitPending : Bool)

def Ordinary (number : Nat) : Prop :=
  number ≠ 0 ∧ (number : Int) ≠ SIGTRAP ∧ (number : Int) ≠ SIGSTOP ∧ (number : Int) ≠ SIGSYS

instance (number : Nat) : Decidable (Ordinary number) := by
  unfold Ordinary
  infer_instance

def reported : Stop → List Int
  | .signal number => [number]
  | _ => []

def Reportable : Stop → Prop
  | .signal number => Ordinary number
  | _ => True

instance (stop : Stop) : Decidable (Reportable stop) := by
  unfold Reportable
  split <;> infer_instance

def restartedWith (restarted : Bool) (signal : Int) : List Int :=
  if restarted && signal ≠ 0 then [signal] else []

variable (p : Platform)

def stopStep (s : State) (stop : Stop) (input : Input) : Option State :=
  if s.running && Reportable stop then
    (s.tracee.handleTraceeEvent p s.globals stop input).bind fun handled =>
      if stop = .terminated then
        some { s with globals := handled.1, tracee := handled.2.1, running := false }
      else
        (handled.2.1.restartTracee handled.2.2).map fun restarted =>
          { globals := handled.1
            tracee := restarted.1
            running := restarted.2
            received := s.received ++ reported stop
            delivered := s.delivered ++ restartedWith restarted.2 handled.2.2 }
  else none

def step (s : State) : Move → Option State
  | .stop stop input => stopStep p s stop input
  | .wake status =>
      if !s.running && s.tracee.waitsForPtracee then
        (s.tracee.wake p status).map fun woken =>
          { s with tracee := woken.1, running := woken.2 }
      else none
  | .adopt seccomp sysexitPending =>
      (s.tracee.adopt seccomp sysexitPending).map fun adopted =>
        { s with tracee := adopted.1, running := s.running || adopted.2 }

/-- The runs of a tracee, from its allocation on; the first one is given its program before. -/
def system : System State Move where
  init s := ∃ exe, s.tracee.toFlags = { Flags.new with exe := exe } ∧ s.running = true ∧
    s.received = [] ∧ s.delivered = []
  step := step p

/-! ## What is claimed -/

def ChainRuns (t : Tracee) : Prop :=
  t.chain.syscalls.isSome ∨ t.restoreOriginalRegsAfterSeccompEvent

instance (t : Tracee) : Decidable (ChainRuns t) := by
  unfold ChainRuns
  infer_instance

def held (t : Tracee) : List Int :=
  if t.chain.suppressedSignal = 0 then [] else [(t.chain.suppressedSignal : Int)]

/-- Every signal was delivered exactly once, unless it is held back during a chain. -/
structure Survive (s : State) : Prop where
  /-- None is lost, and none is delivered twice. -/
  count : ∀ number : Nat, Ordinary number →
    s.received.count (number : Int) =
      s.delivered.count (number : Int) + (held s.tracee).count (number : Int)
  /-- None is held back once the chain is over. -/
  chain : held s.tracee ≠ [] → ChainRuns s.tracee

def Postponed (s s' : State) : Prop :=
  ChainRuns s'.tracee → ∀ number : Nat, Ordinary number →
    s'.delivered.count (number : Int) = s.delivered.count (number : Int)

/-! ## When signals survive -/

def SyscallLeft (t : Tracee) : Prop := ∃ next rest, t.chain.syscalls = some (next :: rest)

/-- No step of the run loses a signal that is held back: no other signal arrives before it is
delivered, no system call puts the tracee to wait for a ptracee, and a seccomp policy doesn't
block the last system call of the chain. -/
def Fits (s : State) : Move → Prop
  | .stop stop input => s.tracee.chain.suppressedSignal ≠ 0 →
      .waitForPtracee ∉ input.handler.actions ∧ .waitForPtracee ∉ input.sigsysActions ∧
      match stop with
      | .signal _ => ¬ ChainRuns s.tracee
      | .sigsys seccomp _ => seccomp = true →
          s.tracee.isInSysenter ∨ SyscallLeft s.tracee
      | _ => True
  | _ => True

instance (t : Tracee) : Decidable (SyscallLeft t) :=
  decidable_of_iff (t.chain.syscalls.isSome ∧ t.chain.syscalls ≠ some []) <| by
    unfold SyscallLeft
    cases t.chain.syscalls with
    | none => simp
    | some syscalls => cases syscalls <;> simp

instance (s : State) (m : Move) : Decidable (Fits s m) := by
  unfold Fits
  split
  · have : Decidable (match ‹Stop› with
      | .signal _ => ¬ ChainRuns s.tracee
      | .sigsys seccomp _ => seccomp = true → s.tracee.isInSysenter ∨ SyscallLeft s.tracee
      | _ => True) := by split <;> infer_instance
    infer_instance
  · infer_instance

/-! ## Chains that go on -/

variable {t' : Tracee} {signal : Int} {g' : Globals} {restarted : Bool}

section GoesOn

variable {t : Tracee}

def Holds (t : Tracee) : Prop := t.restoreOriginalRegs = false ∧ ChainRuns t

theorem Holds.of_eq (h : Holds t) (hregs : t'.restoreOriginalRegs = t.restoreOriginalRegs)
    (hchain : t'.chain.syscalls = t.chain.syscalls)
    (hseccomp : t'.restoreOriginalRegsAfterSeccompEvent = t.restoreOriginalRegsAfterSeccompEvent) :
    Holds t' := by
  unfold Holds ChainRuns at *
  rw [hregs, hchain, hseccomp]
  exact h

theorem Holds.pushSpecificRegs (h : Holds t) (includingSysnum sysnumFails : Bool) :
    Holds (t.pushSpecificRegs p includingSysnum sysnumFails).1 := by
  apply h.of_eq <;> simp [h.1]

theorem Holds.perform (h : Holds t) (action : Action) : Holds (t.perform p action) := by
  cases action with
  | registerChainedSyscall | restartOriginalSyscall => exact ⟨h.1, .inl rfl⟩
  | keepRegs | fixEnosysSyscall => exact ⟨rfl, h.2⟩
  | restartSyscallAfterSeccomp =>
      refine ⟨?_, .inr ?_⟩ <;> simp [Tracee.perform, Tracee.restartSyscallAfterSeccomp, h.1]
  | setResultAfterSeccomp result =>
      have hpoked : Holds (t.pokeReg p .SYSARG_RESULT result) := by
        apply h.of_eq <;> simp
      exact hpoked.pushSpecificRegs p false false
  | _ => apply h.of_eq <;> simp [Tracee.perform, Tracee.forceChainFinalResult]

theorem Holds.performAll (h : Holds t) (actions : List Action) :
    Holds (t.performAll p actions) := by
  induction actions generalizing t with
  | nil => exact h
  | cons action actions ih => exact ih (h.perform p action)

theorem Holds.translateEnter (h : Holds t) (handler : Handler) :
    Holds (t.translateEnter p handler).1 := by
  rw [Tracee.translateEnter]
  split
  · have hsaved : Holds (t.saveCurrentRegs .ORIGINAL) := h
    exact hsaved.performAll p handler.actions
  · split
    · exact h.performAll p handler.actions
    · exact h

theorem Holds.settle (h : Holds t) (status : Int) : Holds (t.settle p status) := by
  rw [Tracee.settle]
  split
  · apply h.of_eq <;> simp
  · split <;> exact h

theorem Holds.skipSysexit (h : Holds t) : Holds (t.skipSysexit p) := by
  rw [Tracee.skipSysexit]
  split
  · apply h.of_eq <;> simp
  · exact h

theorem Holds.workAroundSysnum (h : Holds t) (suppressed : Int) :
    Holds (t.workAroundSysnum p suppressed) := by
  simp only [Tracee.workAroundSysnum]
  split
  · apply Holds.pushSpecificRegs
    have hregs : ∀ t' : Tracee, Holds t' → Holds (t'.pokeInvalid p) := by
      intro t' h'
      apply h'.of_eq <;> simp
    apply hregs
    split
    · exact ⟨h.1, .inl rfl⟩
    · split <;> exact h
  · exact h

theorem Holds.pushEntered (h : Holds t) (handler : Handler) (suppressed : Int) :
    Holds (t.pushEntered p handler suppressed) := by
  simp only [Tracee.pushEntered]
  split
  · exact (h.pushSpecificRegs p _ _).workAroundSysnum p suppressed
  · exact h.pushSpecificRegs p _ _

theorem ChainRuns.enterStage (h : ChainRuns t) (handler : Handler) :
    ChainRuns (t.enterStage p handler) := by
  have hreset : Holds { t with restoreOriginalRegs := false, voidedSyscallCancelled := false } :=
    ⟨rfl, h⟩
  exact ((((hreset.translateEnter p handler).settle p _).skipSysexit p).pushEntered p handler _).2

theorem SyscallLeft.perform (h : SyscallLeft t) (action : Action) :
    SyscallLeft (t.perform p action) := by
  obtain ⟨next, rest, hchain⟩ := h
  cases action with
  | registerChainedSyscall syscall =>
      exact ⟨next, rest ++ [syscall], by
        simp [Tracee.perform, Tracee.registerChainedSyscall,
          Tracee.registerChainedSyscallInternal, hchain]⟩
  | restartOriginalSyscall =>
      exact ⟨next, rest ++ [t.syscallOf p .ORIGINAL], by
        simp [Tracee.perform, Tracee.restartOriginalSyscall, Tracee.registerChainedSyscall,
          Tracee.registerChainedSyscallInternal, hchain]⟩
  | _ =>
      exact ⟨next, rest, by
        simpa [Tracee.perform, Tracee.restartSyscallAfterSeccomp, Tracee.setResultAfterSeccomp,
          Tracee.forceChainFinalResult] using hchain⟩

theorem SyscallLeft.performAll (h : SyscallLeft t) (actions : List Action) :
    SyscallLeft (t.performAll p actions) := by
  induction actions generalizing t with
  | nil => exact h
  | cons action actions ih => exact ih (h.perform p action)

theorem SyscallLeft.exitStage (h : SyscallLeft t) (handler : Handler) :
    ChainRuns (t.exitStage p handler) := by
  have htranslated : SyscallLeft
      (Tracee.translateExit p handler { t with restoreOriginalRegs := true }) := by
    rw [Tracee.translateExit]
    split
    · exact SyscallLeft.performAll p (t := { t with
        restoreOriginalRegs := true
        chain := { t.chain with sysnumWorkaroundState := .INACTIVE } }) h handler.actions
    · split
      · exact h
      · exact SyscallLeft.performAll p (t := { t with restoreOriginalRegs := true }) h
          handler.actions
  obtain ⟨next, rest, hchain⟩ := htranslated
  refine .inl ?_
  simp [Tracee.exitStage, Tracee.nextSyscall, hchain, Tracee.chainNextSyscall]

end GoesOn

/-! ## What a stop does -/

section Stops

variable {g : Globals} {t : Tracee}

/-- The stop neither suppresses nor delivers a signal, and a signal that is held back stays so. -/
structure Quiet (t t' : Tracee) (signal : Int) : Prop where
  signal : ∀ number : Nat, Ordinary number → signal ≠ number
  same : held t' = held t
  chain : held t ≠ [] → ChainRuns t'
  waits : held t ≠ [] → t'.waitsForPtracee = false

/-- The signal that was held back is delivered after the chain. -/
structure Redelivers (t t' : Tracee) (signal : Int) : Prop where
  before : held t = [signal]
  after : held t' = []
  chain : ¬ ChainRuns t'
  waits : t'.waitsForPtracee = false

/-- What the event loop relies on: a signal is only held back for a tracee that runs a chain and
isn't kept waiting. -/
structure Ready (t : Tracee) : Prop where
  chain : held t ≠ [] → ChainRuns t
  waits : held t ≠ [] → t.waitsForPtracee = false

theorem held_ne_nil : held t ≠ [] ↔ t.chain.suppressedSignal ≠ 0 := by
  unfold held
  split <;> simp_all

theorem held_congr
    (h : t'.chain.suppressedSignal = t.chain.suppressedSignal) : held t' = held t := by
  simp only [held, h]

theorem not_ordinary_of
    (h : signal ≤ 0 ∨ signal = SIGTRAP ∨ signal = SIGSTOP ∨ signal = SIGSYS) (number : Nat)
    (hnumber : Ordinary number) : signal ≠ number := by
  obtain ⟨h0, htrap, hstop, hsys⟩ := hnumber
  intro heq
  subst heq
  grind

/-- Two tracees that agree on the chain, and on whether they wait. -/
structure SameChain (t t' : Tracee) : Prop where
  chain : t'.chain = t.chain
  seccomp : t'.restoreOriginalRegsAfterSeccompEvent = t.restoreOriginalRegsAfterSeccompEvent
  waits : t'.waitsForPtracee = t.waitsForPtracee

theorem SameChain.held (h : SameChain t t') : held t' = held t :=
  held_congr (by rw [h.chain])

theorem SameChain.chainRuns (h : SameChain t t') : ChainRuns t' ↔ ChainRuns t := by
  unfold ChainRuns
  rw [h.chain, h.seccomp]

theorem SameChain.ready (h : SameChain t t') (hready : Ready t) : Ready t' where
  chain hne := h.chainRuns.mpr (hready.chain (h.held ▸ hne))
  waits hne := h.waits.trans (hready.waits (h.held ▸ hne))

theorem Quiet.of_same (hready : Ready t)
    (hsignal : signal ≤ 0 ∨ signal = SIGTRAP ∨ signal = SIGSTOP ∨ signal = SIGSYS)
    (hsame : SameChain t t') : Quiet t t' signal where
  signal := not_ordinary_of hsignal
  same := hsame.held
  chain h := hsame.chainRuns.mpr (hready.chain h)
  waits h := hsame.waits.trans (hready.waits h)

theorem Quiet.congr {t₀ t₁ : Tracee} (hbefore : SameChain t₀ t)
    (h : Quiet t t' signal) (hafter : SameChain t' t₁) : Quiet t₀ t₁ signal where
  signal := h.signal
  same := hafter.held.trans (h.same.trans hbefore.held)
  chain hne := hafter.chainRuns.mpr (h.chain (hbefore.held ▸ hne))
  waits hne := hafter.waits.trans (h.waits (hbefore.held ▸ hne))

theorem Redelivers.congr {t₀ t₁ : Tracee} (hbefore : SameChain t₀ t)
    (h : Redelivers t t' signal) (hafter : SameChain t' t₁) : Redelivers t₀ t₁ signal where
  before := hbefore.held ▸ h.before
  after := hafter.held.trans h.after
  chain := fun hchain => h.chain (hafter.chainRuns.mp hchain)
  waits := hafter.waits.trans h.waits

theorem Quiet.of_frame {actions : List Action} (hready : Ready t)
    (hframe : Tracee.Frame actions t t')
    (hactions : held t ≠ [] → .waitForPtracee ∉ actions)
    (hchain : held t ≠ [] → ChainRuns t') : Quiet t t' 0 where
  signal := not_ordinary_of (.inl (le_refl 0))
  same := held_congr hframe.suppressedSignal
  chain := hchain
  waits h := by
    cases hw : t'.waitsForPtracee with
    | false => rfl
    | true =>
        cases hframe.waitsForPtracee hw with
        | inl hold => exact absurd hold (by simp [hready.waits h])
        | inr hmem => exact absurd hmem (hactions h)

/-! ### System calls -/

theorem sameChain_chooseRestart : SameChain t t.chooseRestart := ⟨rfl, rfl, rfl⟩

theorem chainRuns_redeliver_not (h : t.chain.suppressedSignal ≠ 0) (hchain : ¬ ChainRuns t) :
    t.redeliver = ({ t with chain := { t.chain with suppressedSignal := 0 } },
      (t.chain.suppressedSignal : Int)) := by
  simp only [ChainRuns, not_or, Bool.not_eq_true, Option.isSome_eq_false_iff] at hchain
  simp [Tracee.redeliver, h, hchain]

theorem redeliver_of_chainRuns (h : t.chain.suppressedSignal = 0 ∨ ChainRuns t) :
    t.redeliver = (t, 0) := by
  rw [Tracee.redeliver, if_neg]
  intro hcond
  simp only [Bool.and_eq_true, decide_eq_true_eq, Bool.not_eq_true'] at hcond
  cases h with
  | inl h => exact hcond.1.1 h
  | inr h =>
      cases h with
      | inl | inr => simp_all

/-- A stop of a system call delivers the signal when the chain is over. -/
theorem translateStop_redeliver (hready : Ready t) (input : Input)
    (hactions : held t ≠ [] → .waitForPtracee ∉ input.handler.actions) :
    Quiet t (t.translateStop p input).redeliver.1 (t.translateStop p input).redeliver.2 ∨
      Redelivers t (t.translateStop p input).redeliver.1
        (t.translateStop p input).redeliver.2 := by
  have hframe := Tracee.frame_translateSyscall p input.handler input.regs t
  have hsignal : (t.translateStop p input).chain.suppressedSignal = t.chain.suppressedSignal :=
    hframe.suppressedSignal
  have hwaits : held t ≠ [] → (t.translateStop p input).waitsForPtracee = false := by
    intro h
    cases hw : (t.translateStop p input).waitsForPtracee with
    | false => rfl
    | true =>
        cases hframe.waitsForPtracee hw with
        | inl hold => exact absurd hold (by simp [hready.waits h])
        | inr hmem => exact absurd hmem (hactions h)
  have hkept : t.chain.suppressedSignal = 0 ∨ ChainRuns (t.translateStop p input) →
      Quiet t (t.translateStop p input).redeliver.1 (t.translateStop p input).redeliver.2 := by
    intro hcond
    rw [redeliver_of_chainRuns (by rwa [hsignal])]
    refine ⟨not_ordinary_of (.inl (le_refl 0)), held_congr hsignal, ?_, hwaits⟩
    intro h
    exact hcond.resolve_left (held_ne_nil.mp h)
  rcases Nat.eq_zero_or_pos t.chain.suppressedSignal with hzero | hpos
  · exact .inl (hkept (.inl hzero))
  · rcases Classical.em (ChainRuns (t.translateStop p input)) with hchain | hchain
    · exact .inl (hkept (.inr hchain))
    · right
      rw [chainRuns_redeliver_not (by omega) hchain, hsignal]
      refine ⟨?_, ?_, hchain, hwaits (held_ne_nil.mpr (by omega))⟩
      · rw [held, if_neg (by omega)]
      · simp [held]

theorem sameChain_accelerate : SameChain t t.accelerate := by
  rw [Tracee.accelerate]
  split
  · split <;> exact ⟨rfl, rfl, rfl⟩
  · exact ⟨rfl, rfl, rfl⟩

theorem sameChain_disableAcceleration : SameChain t t.disableAcceleration := by
  rw [Tracee.disableAcceleration]
  split <;> exact ⟨rfl, rfl, rfl⟩

theorem handleSyscall_cases (hready : Ready t)
    (input : Input) (hactions : held t ≠ [] → .waitForPtracee ∉ input.handler.actions)
    (h : t.handleSyscall p g input = some (g', t', signal)) :
    Quiet t t' signal ∨ Redelivers t t' signal := by
  have hzero : (0 : Int) ≤ 0 ∨ (0 : Int) = SIGTRAP ∨ (0 : Int) = SIGSTOP ∨ (0 : Int) = SIGSYS :=
    .inl (le_refl 0)
  rw [Tracee.handleSyscall] at h
  split at h
  · cases h
    exact .inl (.of_same hready hzero ⟨rfl, rfl, rfl⟩)
  · split at h
    · cases h
      exact .inl (.of_same hready hzero ⟨rfl, rfl, rfl⟩)
    · have hsame : SameChain t t.accelerate := sameChain_accelerate
      simp only [] at h
      split at h
      · split at h
        · cases h
        · cases h
          have hquiet : Quiet t.accelerate t.accelerate 0 :=
            .of_same (hsame.ready hready) hzero ⟨rfl, rfl, rfl⟩
          have hreset : SameChain t.accelerate { t.accelerate with
              seccompAlreadyHandledEnter := false
              restartHow := some .PTRACE_SYSCALL } := ⟨rfl, rfl, rfl⟩
          exact .inl ((hquiet.congr hsame hreset).congr ⟨rfl, rfl, rfl⟩
            sameChain_disableAcceleration)
      · have hcases := translateStop_redeliver p (hsame.ready hready) input
          (by rwa [hsame.held])
        cases h
        cases hcases with
        | inl hquiet => exact .inl (hquiet.congr hsame sameChain_disableAcceleration)
        | inr hredelivers => exact .inr (hredelivers.congr hsame sameChain_disableAcceleration)

/-! ### Seccomp -/

theorem translateSyscall_sysenter (hsysenter : t.isInSysenter = true) (handler : Handler)
    (regs : Registers) (hchain : ChainRuns t) :
    ChainRuns (t.translateSyscall p handler regs) := by
  have henter : (t.fetchRegs regs).isInSysenter = true := hsysenter
  rw [Tracee.translateSyscall, if_pos henter]
  exact ChainRuns.enterStage p (t := t.fetchRegs regs) hchain handler

theorem translateSyscall_sysexit (hsysexit : t.isInSysenter = false) (handler : Handler)
    (regs : Registers) (hleft : SyscallLeft t) :
    ChainRuns (t.translateSyscall p handler regs) := by
  have hexit : ¬ (t.fetchRegs regs).isInSysenter = true := by
    simpa using hsysexit
  rw [Tracee.translateSyscall, if_neg hexit]
  exact SyscallLeft.exitStage p (t := t.fetchRegs regs) hleft handler

theorem quiet_translateSyscall (hready : Ready t) (hsysenter : t.isInSysenter = true)
    (input : Input) (hactions : held t ≠ [] → .waitForPtracee ∉ input.handler.actions) :
    Quiet t (t.translateSyscall p input.handler input.regs) 0 :=
  .of_frame hready (Tracee.frame_translateSyscall p input.handler input.regs t) hactions
    fun hne => translateSyscall_sysenter p hsysenter _ _ (hready.chain hne)

/-- A seccomp event delivers nothing. -/
theorem handleSeccomp_cases (hready : Ready t) (input : Input) (flags : Word) (necessary : Bool)
    (hactions : held t ≠ [] → .waitForPtracee ∉ input.handler.actions)
    (h : t.handleSeccomp p g input flags necessary = some (g', t', signal)) :
    Quiet t t' signal := by
  have hzero : (0 : Int) ≤ 0 ∨ (0 : Int) = SIGTRAP ∨ (0 : Int) = SIGSTOP ∨ (0 : Int) = SIGSYS :=
    .inl (le_refl 0)
  have hdetected : SameChain t (Tracee.detectSeccomp g t).2 := by
    rw [Tracee.detectSeccomp]
    split <;> exact ⟨rfl, rfl, rfl⟩
  simp only [Tracee.handleSeccomp] at h
  -- the stages start from the tracee with the restart that the branch has chosen
  have hstage : ∀ how : Restart, (Tracee.detectSeccomp g t).2.isInSysenter = true →
      Quiet t (Tracee.translateSyscall p input.handler input.regs
        { (Tracee.detectSeccomp g t).2 with
          skipNextSeccompSignal := false, restartHow := some how }) 0 := by
    intro how hsysenter
    have hsame : SameChain t { (Tracee.detectSeccomp g t).2 with
        skipNextSeccompSignal := false, restartHow := some how } :=
      ⟨hdetected.chain, hdetected.seccomp, hdetected.waits⟩
    exact (quiet_translateSyscall p (hsame.ready hready) hsysenter input
      (by rwa [hsame.held])).congr hsame ⟨rfl, rfl, rfl⟩
  split at h
  · split at h
    · cases h
    · cases h
      exact .of_same hready hzero ⟨hdetected.chain, hdetected.seccomp, hdetected.waits⟩
  · split at h
    · cases h
    · rename_i hsysenter
      have hsysenter : (Tracee.detectSeccomp g t).2.isInSysenter = true := by
        simpa [Flags.isInSysenter] using hsysenter
      split at h
      · cases h
        exact .of_same hready hzero ⟨hdetected.chain, hdetected.seccomp, hdetected.waits⟩
      · split at h
        · cases h
          split
          · exact (hstage .PTRACE_SYSCALL hsysenter).congr ⟨rfl, rfl, rfl⟩ ⟨rfl, rfl, rfl⟩
          · exact .of_same hready hzero ⟨hdetected.chain, hdetected.seccomp, hdetected.waits⟩
        · cases h
          refine (hstage .PTRACE_CONT hsysenter).congr ⟨rfl, rfl, rfl⟩ ?_
          simp only [Tracee.enterAtSeccompEvent]
          split <;> split <;> exact ⟨rfl, rfl, rfl⟩

theorem sameChain_fetchBlocked (input : Input) : SameChain t (t.fetchBlocked p input) := by
  constructor <;> rw [Tracee.toFlags_fetchBlocked]

theorem quiet_leaveBlocked (hready : Ready t) (input : Input)
    (hactions : held t ≠ [] → .waitForPtracee ∉ input.handler.actions)
    (hleft : held t ≠ [] → t.isInSysenter ∨ SyscallLeft t) :
    Quiet t (t.leaveBlocked p input) 0 := by
  have hsame : SameChain t { t with seccompAlreadyHandledEnter := false } := ⟨rfl, rfl, rfl⟩
  simp only [Tracee.leaveBlocked]
  split
  · exact .of_same hready (.inl (le_refl 0)) hsame
  · rename_i hexit
    have hframe := Tracee.frame_translateSyscall p input.handler input.regs
      { t with seccompAlreadyHandledEnter := false }
    refine Quiet.congr hsame (Quiet.of_frame (hsame.ready hready) hframe hactions ?_)
      ⟨rfl, rfl, rfl⟩
    intro hne
    have hsyscall : SyscallLeft t := by
      refine (hleft hne).resolve_left ?_
      simpa [Flags.isInSysenter] using hexit
    exact translateSyscall_sysexit p (by simpa using hexit) _ _ hsyscall

theorem handleSigsys_cases (hready : Ready t) (input : Input) (avoider : Bool)
    (hactions : held t ≠ [] →
      .waitForPtracee ∉ input.handler.actions ∧ .waitForPtracee ∉ input.sigsysActions)
    (hleft : held t ≠ [] → t.isInSysenter ∨ SyscallLeft t) :
    Quiet t (t.handleSigsys p input avoider) 0 := by
  have hquiet := quiet_leaveBlocked p hready input (fun hne => (hactions hne).1) hleft
  simp only [Tracee.handleSigsys]
  generalize Tracee.leaveBlocked p input t = left at hquiet ⊢
  split
  · exact hquiet.congr ⟨rfl, rfl, rfl⟩ ⟨rfl, rfl, rfl⟩
  · have hfetched := sameChain_fetchBlocked p (t := left) input
    have hframe := Tracee.frame_performAll p (left.fetchBlocked p input) input.sigsysActions
    refine ⟨not_ordinary_of (.inl (le_refl 0)),
      (held_congr hframe.suppressedSignal).trans (hfetched.held.trans hquiet.same), ?_, ?_⟩
    · intro hne
      have hholds : Holds (left.fetchBlocked p input) :=
        ⟨by rw [Tracee.toFlags_fetchBlocked], hfetched.chainRuns.mpr (hquiet.chain hne)⟩
      exact (hholds.performAll p input.sigsysActions).2
    · intro hne
      cases hw : (Tracee.performAll p (left.fetchBlocked p input)
          input.sigsysActions).waitsForPtracee with
      | false => rfl
      | true =>
          cases hframe.waitsForPtracee hw with
          | inl hold => exact absurd (hfetched.waits ▸ hold) (by simp [hquiet.waits hne])
          | inr hmem => exact absurd hmem (hactions hne).2

/-! ### Any stop -/

theorem handleSigstop_quiet (hready : Ready t) : Quiet t t.handleSigstop.1 t.handleSigstop.2 := by
  simp only [Tracee.handleSigstop]
  split
  · split
    · exact .of_same hready (.inl (le_refl 0)) ⟨rfl, rfl, rfl⟩
    · exact .of_same hready (.inr (.inr (.inl rfl))) ⟨rfl, rfl, rfl⟩
  · split
    · exact .of_same hready (.inl (le_refl 0)) ⟨rfl, rfl, rfl⟩
    · exact .of_same hready (.inl (show (-1 : Int) ≤ 0 by decide)) ⟨rfl, rfl, rfl⟩

theorem handleSignal_of_chainRuns (hchain : ChainRuns t) (number : Nat) :
    t.handleSignal number =
      ({ t with chain := { t.chain with suppressedSignal := number } }, 0) := by
  rw [Tracee.handleSignal, if_pos]
  simpa [ChainRuns] using hchain

theorem handleSignal_of_not_chainRuns (hchain : ¬ ChainRuns t) (number : Nat) :
    t.handleSignal number = (t, (number : Int)) := by
  rw [Tracee.handleSignal, if_neg]
  simpa [ChainRuns] using hchain

/-- **What a stop does to the signal that is held back.** Besides a signal of its own, a stop
either leaves it alone or delivers it after the chain. -/
theorem handleTraceeEvent_cases (hready : Ready t)
    (stop : Stop) (input : Input) (hstop : reported stop = [])
    (hactions : held t ≠ [] →
      .waitForPtracee ∉ input.handler.actions ∧ .waitForPtracee ∉ input.sigsysActions)
    (hleft : ∀ avoider, stop = .sigsys true avoider →
      held t ≠ [] → t.isInSysenter ∨ SyscallLeft t)
    (h : t.handleTraceeEvent p g stop input = some (g', t', signal)) :
    Quiet t t' signal ∨ Redelivers t t' signal := by
  have hchosen : SameChain t t.chooseRestart := sameChain_chooseRestart
  have hready' := hchosen.ready hready
  have hhandler : held t.chooseRestart ≠ [] → .waitForPtracee ∉ input.handler.actions :=
    fun hne => (hactions (hchosen.held ▸ hne)).1
  have hsyscall : ∀ g : Globals, t.chooseRestart.handleSyscall p g input = some (g', t', signal) →
      Quiet t t' signal ∨ Redelivers t t' signal := by
    intro g h
    cases handleSyscall_cases p hready' input hhandler h with
    | inl hquiet => exact .inl (hquiet.congr hchosen ⟨rfl, rfl, rfl⟩)
    | inr hredelivers => exact .inr (hredelivers.congr hchosen ⟨rfl, rfl, rfl⟩)
  cases stop with
  | terminated =>
      cases h
      exact .inl (.of_same hready (.inl (le_refl 0)) hchosen)
  | sigtrap =>
      simp only [Tracee.handleTraceeEvent] at h
      split at h
      · cases h
        exact .inl (.of_same hready (.inr (.inl rfl)) hchosen)
      · exact hsyscall _ h
  | syscall => exact hsyscall _ h
  | seccompEvent flags =>
      exact .inl ((handleSeccomp_cases p hready' input flags _ hhandler h).congr hchosen
        ⟨rfl, rfl, rfl⟩)
  | forkEvent =>
      cases h
      exact .inl (.of_same hready (.inl (le_refl 0)) hchosen)
  | otherEvent =>
      cases h
      exact .inl (.of_same hready (.inl (le_refl 0)) ⟨rfl, rfl, rfl⟩)
  | sigstop =>
      cases h
      exact .inl ((handleSigstop_quiet hready').congr hchosen ⟨rfl, rfl, rfl⟩)
  | sigsys seccomp avoider =>
      simp only [Tracee.handleTraceeEvent] at h
      split at h
      · rename_i hpolicy
        cases h
        have hquiet := handleSigsys_cases p hready' input avoider
          (fun hne => hactions (hchosen.held ▸ hne))
          (fun hne => hleft avoider (by rw [hpolicy]) (hchosen.held ▸ hne))
        exact .inl (hquiet.congr hchosen ⟨rfl, rfl, rfl⟩)
      · cases h
        exact .inl (.of_same hready (.inr (.inr (.inr rfl))) hchosen)
  | signal number => simp [reported] at hstop

theorem restartTracee_sameChain (h : t.restartTracee signal = some (t', restarted)) :
    SameChain t t' ∧ (restarted = true → t.waitsForPtracee = false) ∧
      (t.waitsForPtracee = false → signal ≠ -1 → restarted = true) := by
  rw [Tracee.restartTracee] at h
  split at h
  · rename_i hkept
    cases h
    refine ⟨⟨rfl, rfl, rfl⟩, nofun, ?_⟩
    intro hwaits hsignal
    simp_all
  · rename_i hkept
    split at h
    · cases h
    · cases h
      refine ⟨⟨rfl, rfl, rfl⟩, ?_, fun _ _ => rfl⟩
      intro _
      simp_all

end Stops

/-! ## Runs -/

section Runs

variable {s s' : State}

structure Inv (s : State) : Prop where
  survive : Survive s
  waits : held s.tracee ≠ [] → s.tracee.waitsForPtracee = false
  running : s.running = true → s.tracee.waitsForPtracee = false

theorem Inv.ready (h : Inv s) : Ready s.tracee := ⟨h.survive.chain, h.waits⟩

theorem inv_restarted {t : Tracee} {received : List Int}
    (g : Globals) (hrestart : t.restartTracee signal = some (t', restarted)) (hready : Ready t)
    (hcount : ∀ number : Nat, Ordinary number →
      received.count (number : Int) =
        (s.delivered ++ restartedWith restarted signal).count (number : Int) +
          (held t).count (number : Int)) :
    Inv { globals := g
          tracee := t'
          running := restarted
          received := received
          delivered := s.delivered ++ restartedWith restarted signal } := by
  obtain ⟨hsame, hwaits, -⟩ := restartTracee_sameChain hrestart
  have hready' := hsame.ready hready
  refine ⟨⟨?_, hready'.chain⟩, hready'.waits, ?_⟩
  · intro number hnumber
    rw [hsame.held]
    exact hcount number hnumber
  · intro hrestarted
    exact hsame.waits.trans (hwaits hrestarted)

/-- A signal is delivered, or held back when there is a chain. -/
theorem inv_signal {g : Globals} {number : Nat}
    (hinv : Inv s) (hrunning : s.running = true) (hnumber : Ordinary number)
    (hfits : s.tracee.chain.suppressedSignal ≠ 0 → ¬ ChainRuns s.tracee)
    (hrestart : ((s.tracee.chooseRestart).handleSignal number).1.restartTracee
      ((s.tracee.chooseRestart).handleSignal number).2 = some (t', restarted)) :
    Inv { globals := g
          tracee := t'
          running := restarted
          received := s.received ++ [(number : Int)]
          delivered := s.delivered ++ restartedWith restarted
            ((s.tracee.chooseRestart).handleSignal number).2 } := by
  have hwaits : s.tracee.waitsForPtracee = false := hinv.running hrunning
  -- nothing is held back yet
  have hheld : held s.tracee = [] := by
    cases hh : held s.tracee with
    | nil => rfl
    | cons signal rest =>
        have hne : held s.tracee ≠ [] := by simp [hh]
        exact absurd (hinv.survive.chain hne) (hfits (held_ne_nil.mp hne))
  obtain ⟨-, -, hrestarted⟩ := restartTracee_sameChain hrestart
  have hcount := hinv.survive.count
  simp only [hheld, List.count_nil, Nat.add_zero] at hcount
  have hpos : number ≠ 0 := hnumber.1
  rcases Classical.em (ChainRuns s.tracee.chooseRestart) with hchain | hchain
  · rw [handleSignal_of_chainRuns hchain] at hrestart ⊢
    refine inv_restarted g hrestart ⟨fun _ => hchain, fun _ => hwaits⟩ ?_
    intro other hother
    rw [List.count_append, List.count_append, hcount other hother]
    simp [restartedWith, held, hpos]
  · rw [handleSignal_of_not_chainRuns hchain] at hrestart hrestarted ⊢
    refine inv_restarted g hrestart ⟨hinv.survive.chain, hinv.waits⟩ ?_
    intro other hother
    have hyes : restarted = true := hrestarted hwaits (by simp)
    have hsame : held s.tracee.chooseRestart = [] := hheld
    rw [List.count_append, List.count_append, hcount other hother]
    simp [restartedWith, hyes, hpos, hsame]

theorem Quiet.count_restartedWith {t : Tracee} (h : Quiet t t' signal)
    (restarted : Bool) {number : Nat} (hnumber : Ordinary number) :
    (restartedWith restarted signal).count (number : Int) = 0 := by
  rw [restartedWith]
  split
  · simp [h.signal number hnumber]
  · rfl

/-- Any other stop delivers nothing, or the signal that was held back. -/
theorem inv_other {g : Globals} {t : Tracee}
    (hinv : Inv s) (hcases : Quiet s.tracee t signal ∨ Redelivers s.tracee t signal)
    (hrestart : t.restartTracee signal = some (t', restarted)) :
    Inv { globals := g
          tracee := t'
          running := restarted
          received := s.received
          delivered := s.delivered ++ restartedWith restarted signal } := by
  have hcount := hinv.survive.count
  cases hcases with
  | inl hquiet =>
      refine inv_restarted g hrestart ?_ ?_
      · exact ⟨fun hne => hquiet.chain (hquiet.same ▸ hne), fun hne =>
          hquiet.waits (hquiet.same ▸ hne)⟩
      · intro number hnumber
        rw [List.count_append, hquiet.count_restartedWith restarted hnumber, hquiet.same,
          hcount number hnumber, Nat.add_zero]
  | inr hredelivers =>
      refine inv_restarted g hrestart ?_ ?_
      · exact ⟨fun hne => absurd hredelivers.after hne, fun hne =>
          absurd hredelivers.after hne⟩
      · intro number hnumber
        obtain ⟨-, -, hrestarted⟩ := restartTracee_sameChain hrestart
        -- the signal is a number that isn't 0, so the tracee is restarted with it
        have hsignal : signal = s.tracee.chain.suppressedSignal ∧
            s.tracee.chain.suppressedSignal ≠ 0 := by
          have hbefore := hredelivers.before
          rw [held] at hbefore
          split at hbefore
          · cases hbefore
          · cases hbefore
            exact ⟨rfl, by assumption⟩
        have hyes : restarted = true := hrestarted hredelivers.waits (by omega)
        have hgiven : restartedWith restarted signal = held s.tracee := by
          rw [hredelivers.before, restartedWith, hyes, if_pos]
          simp
          omega
        rw [List.count_append, hgiven, hredelivers.after, hcount number hnumber]
        rfl

theorem handled_cases {stop : Stop} {input : Input}
    (hinv : Inv s) (hfits : Fits s (.stop stop input)) (hstop : reported stop = [])
    (h : s.tracee.handleTraceeEvent p s.globals stop input = some (g', t', signal)) :
    Quiet s.tracee t' signal ∨ Redelivers s.tracee t' signal := by
  refine handleTraceeEvent_cases p hinv.ready stop input hstop ?_ ?_ h
  · intro hne
    exact ⟨(hfits (held_ne_nil.mp hne)).1, (hfits (held_ne_nil.mp hne)).2.1⟩
  · intro avoider hsys hne
    subst hsys
    exact (hfits (held_ne_nil.mp hne)).2.2 rfl

theorem inv_stop {stop : Stop} {input : Input} (hinv : Inv s) (hfits : Fits s (.stop stop input))
    (h : stopStep p s stop input = some s') : Inv s' := by
  simp only [stopStep, Option.ite_none_right_eq_some, Bool.and_eq_true, decide_eq_true_eq,
    Option.bind_eq_some_iff] at h
  obtain ⟨⟨hrunning, hreport⟩, ⟨g, t, signal⟩, hhandled, h⟩ := h
  cases hstop : reported stop with
  | nil =>
      have hcases := handled_cases p hinv hfits hstop hhandled
      split at h
      · rename_i hterminated
        subst hterminated
        cases h
        cases hhandled
        exact ⟨⟨hinv.survive.count, hinv.survive.chain⟩, hinv.waits, nofun⟩
      · simp only [Option.map_eq_some_iff] at h
        obtain ⟨⟨t', restarted⟩, hrestart, rfl⟩ := h
        simp only [hstop, List.append_nil]
        exact inv_other hinv hcases hrestart
  | cons number rest =>
      cases stop with
      | signal number =>
          cases hhandled
          simp only [reduceCtorEq, if_false, Option.map_eq_some_iff] at h
          obtain ⟨⟨t', restarted⟩, hrestart, rfl⟩ := h
          exact inv_signal hinv hrunning hreport (fun hne => (hfits hne).2.2) hrestart
      | _ => simp [reported] at hstop

theorem inv_wake {status : WaitStatus} (hinv : Inv s)
    (h : step p s (.wake status) = some s') : Inv s' := by
  simp only [step, Option.ite_none_right_eq_some, Bool.and_eq_true, Option.map_eq_some_iff] at h
  obtain ⟨⟨-, hwaits⟩, ⟨t', restarted⟩, hwoken, rfl⟩ := h
  -- nothing is held back for a tracee that waits
  have hnone : s.tracee.chain.suppressedSignal = 0 := by
    cases Nat.eq_zero_or_pos s.tracee.chain.suppressedSignal with
    | inl hzero => exact hzero
    | inr hpos =>
        have hidle := hinv.waits (held_ne_nil.mpr (by omega))
        simp [hidle] at hwaits
  simp only [Tracee.wake] at hwoken
  obtain ⟨hsame, hrestarted, -⟩ := restartTracee_sameChain hwoken
  have hchanged : t'.chain.suppressedSignal = s.tracee.chain.suppressedSignal := by
    rw [hsame.chain]
    cases status with
    | restarted =>
        have hframe := @Tracee.frame_nextSyscall p [] (s.tracee.restartOriginalSyscall p)
        refine Eq.trans ?_ hframe.suppressedSignal
        simp
    | result value => simp
  have hheld : held t' = held s.tracee := held_congr hchanged
  have hnil : held s.tracee = [] := by simp [held, hnone]
  refine ⟨⟨?_, ?_⟩, ?_, ?_⟩
  · intro number hnumber
    rw [hheld]
    exact hinv.survive.count number hnumber
  · intro hne
    exact absurd (hheld.trans hnil) hne
  · intro hne
    exact absurd (hheld.trans hnil) hne
  · intro _
    exact hsame.waits

theorem inv_adopt {seccomp : SeccompState} {sysexitPending : Bool} (hinv : Inv s)
    (h : step p s (.adopt seccomp sysexitPending) = some s') : Inv s' := by
  simp only [step, Option.map_eq_some_iff] at h
  obtain ⟨⟨t', restarted⟩, hadopted, rfl⟩ := h
  have hsame : SameChain s.tracee t' ∧
      (restarted = true → s.tracee.waitsForPtracee = false) := by
    rw [Tracee.adopt] at hadopted
    split at hadopted
    · cases hadopted
    · simp only [] at hadopted
      split at hadopted
      · obtain ⟨hsame, hrestarted, -⟩ := restartTracee_sameChain hadopted
        exact ⟨⟨hsame.chain, hsame.seccomp, hsame.waits⟩, hrestarted⟩
      · cases hadopted
        exact ⟨⟨rfl, rfl, rfl⟩, nofun⟩
  obtain ⟨hsame, hrestarted⟩ := hsame
  have hready := hsame.ready hinv.ready
  refine ⟨⟨?_, hready.chain⟩, hready.waits, ?_⟩
  · intro number hnumber
    rw [hsame.held]
    exact hinv.survive.count number hnumber
  · intro hrunning
    rw [hsame.waits]
    cases hr : s.running with
    | true => exact hinv.running hr
    | false => exact hrestarted (by simpa [hr] using hrunning)

theorem inv_step {m : Move} (hinv : Inv s) (hfits : Fits s m) (h : step p s m = some s') :
    Inv s' := by
  cases m with
  | stop stop input => exact inv_stop p hinv hfits h
  | wake status => exact inv_wake p hinv h
  | adopt seccomp sysexitPending => exact inv_adopt p hinv h

theorem inv_of_reach (h : (system p).Reach Fits s) : Inv s := by
  refine Lib.System.Reach.invariant ?_ ?_ h
  · intro s hinit
    obtain ⟨exe, hflags, -, hreceived, hdelivered⟩ := hinit
    have hwaits : s.tracee.waitsForPtracee = false := by rw [hflags]; rfl
    have hheld : held s.tracee = [] := by
      rw [held, if_pos]
      rw [hflags]
      rfl
    refine ⟨⟨?_, fun hne => absurd hheld hne⟩, fun _ => hwaits, fun _ => hwaits⟩
    intro number _
    simp [hreceived, hdelivered, hheld]
  · intro s m s' hinv hfits hstep
    exact inv_step p hinv hfits hstep

/-- A signal that comes during a chain waits for its end. -/
theorem postponed_step {m : Move} (hinv : Inv s) (hfits : Fits s m)
    (h : step p s m = some s') : Postponed s s' := by
  intro hchain number hnumber
  cases m with
  | wake status =>
      simp only [step, Option.ite_none_right_eq_some, Option.map_eq_some_iff] at h
      obtain ⟨-, woken, -, rfl⟩ := h
      rfl
  | adopt seccomp sysexitPending =>
      simp only [step, Option.map_eq_some_iff] at h
      obtain ⟨adopted, -, rfl⟩ := h
      rfl
  | stop stop input =>
      simp only [step, stopStep, Option.ite_none_right_eq_some, Option.bind_eq_some_iff] at h
      obtain ⟨-, ⟨g, t, signal⟩, hhandled, h⟩ := h
      split at h
      · cases h
        rfl
      · simp only [Option.map_eq_some_iff] at h
        obtain ⟨⟨t', restarted⟩, hrestart, rfl⟩ := h
        obtain ⟨hsame, -, -⟩ := restartTracee_sameChain hrestart
        have hends : ChainRuns t := hsame.chainRuns.mp hchain
        have hnone : (restartedWith restarted signal).count (number : Int) = 0 := by
          cases hstop : reported stop with
          | nil =>
              cases handled_cases p hinv hfits hstop hhandled with
              | inl hquiet => exact hquiet.count_restartedWith restarted hnumber
              | inr hredelivers => exact absurd hends hredelivers.chain
          | cons other rest =>
              cases stop with
              | signal other =>
                  cases hhandled
                  rcases Classical.em (ChainRuns s.tracee.chooseRestart) with hruns | hruns
                  · rw [handleSignal_of_chainRuns hruns]
                    simp [restartedWith]
                  · rw [handleSignal_of_not_chainRuns hruns] at hends
                    exact absurd hends hruns
              | _ => simp [reported] at hstop
        rw [List.count_append, hnone, Nat.add_zero]

/-- **Signals survive chains.** In a run whose steps all fit, every signal is delivered exactly
once, after the chain that it arrived in. -/
theorem signals_survive_chains (h : (system p).Reach Fits s) :
    Survive s ∧ ∀ m s', Fits s m → step p s m = some s' → Postponed s s' :=
  ⟨(inv_of_reach p h).survive, fun _ _ hfits hstep =>
    postponed_step p (inv_of_reach p h) hfits hstep⟩

end Runs

/-! ## Two signals in one chain -/

section Lost

def start : State where
  globals := ⟨false, false, true⟩
  tracee := { Flags.new with exe := true, regs := fun _ _ => 0, regsWereChanged := false }
  running := true
  received := []
  delivered := []

def chainStop (chained : List ChainedSyscall) : Move :=
  .stop .syscall ⟨fun _ => 0, ⟨chained.map .registerChainedSyscall, 0, false⟩, []⟩

def signalStop (number : Nat) : Move := .stop (.signal number) ⟨fun _ => 0, ⟨[], 0, false⟩, []⟩

/-- The exit stage of a system call registers a chain of one; the signals arrive before it. -/
def chainWith (signals : List Nat) : List Move :=
  [chainStop [], chainStop [⟨.PR_getpid, 0, 0, 0, 0, 0, 0⟩]] ++ signals.map signalStop ++
    [chainStop [], chainStop []]

def histories (moves : List Move) : Option (List Int × List Int × Nat) :=
  ((system (Mode.x86_64.platform false)).exec start moves).map fun s =>
    (s.received, s.delivered, s.tracee.chain.suppressedSignal)

theorem start_reach : (system (Mode.x86_64.platform false)).Reach System.Always start :=
  .start ⟨true, rfl, rfl, rfl, rfl⟩

/-- A run whose steps fit: one signal in a chain is delivered after it. -/
theorem signals_survive_chains_one : ∃ s,
    (system (Mode.x86_64.platform false)).execWith Fits start (chainWith [10]) = some s ∧
      s.received = [10] ∧ s.delivered = [10] ∧ Survive s := by
  have hrun : ((system (Mode.x86_64.platform false)).execWith Fits start (chainWith [10])).map
      (fun s => (s.received, s.delivered)) = some ([10], [10]) := by decide +kernel
  obtain ⟨s, hs, hhist⟩ := Option.map_eq_some_iff.mp hrun
  simp only [Prod.mk.injEq] at hhist
  have hreach : (system (Mode.x86_64.platform false)).Reach Fits start :=
    .start ⟨true, rfl, rfl, rfl, rfl⟩
  exact ⟨s, hs, hhist.1, hhist.2, (signals_survive_chains _ (hreach.execWith hs)).1⟩

/-- `SIGUSR1` and `SIGUSR2` in one chain: only the second one is delivered. -/
theorem signal_lost_in_chain :
    ¬ ∀ (p : Platform) (s : State), (system p).Reach System.Always s → Survive s := by
  intro h
  have hrun : histories (chainWith [10, 12]) = some ([10, 12], [12], 0) := by
    decide +kernel
  obtain ⟨s, hs, hhist⟩ := Option.map_eq_some_iff.mp hrun
  simp only [Prod.mk.injEq] at hhist
  obtain ⟨hreceived, hdelivered, hsuppressed⟩ := hhist
  have hcount := (h _ s (start_reach.exec hs)).count 10 (by decide)
  rw [hreceived, hdelivered, held, if_pos hsuppressed] at hcount
  revert hcount
  decide

end Lost

end Signals

end Improot.Event
