import Improot.Event.Frame

/-!
# How a stage leaves the tracee

After the enter stage the tracee is in the system call unless it is restarted without an exit stop,
after the exit stage it is out of it.  A handler may ask for the exit stop, and only then does it
change whether one is pending.
-/

namespace Improot.Event

namespace Tracee

variable (p : Platform)

/-! ## Asking for the exit stop -/

def Asks (t t' : Tracee) : Prop :=
  t'.restartHow = some .PTRACE_SYSCALL ∨
    (t'.restartHow = t.restartHow ∧ t'.sysexitPending = t.sysexitPending)

section Asks

variable {t t' t'' : Tracee}

theorem Asks.refl : Asks t t := .inr ⟨rfl, rfl⟩

theorem Asks.trans (h : Asks t t') (h' : Asks t' t'') : Asks t t'' := by
  unfold Asks at *
  grind

theorem Asks.of_eq (hhow : t'.restartHow = t.restartHow)
    (hpending : t'.sysexitPending = t.sysexitPending) : Asks t t' :=
  .inr ⟨hhow, hpending⟩

theorem asks_perform (t : Tracee) (action : Action) : Asks t (t.perform p action) := by
  cases action with
  | requestSysexit | restartSyscall => exact .inl rfl
  | restartSyscallAfterSeccomp =>
      exact .inl (by simp [perform, restartSyscallAfterSeccomp])
  | setResultAfterSeccomp result => exact .inl rfl
  | _ => apply Asks.of_eq <;> simp [perform, registerChainedSyscall, restartOriginalSyscall,
      registerChainedSyscallInternal, forceChainFinalResult]

theorem asks_performAll (t : Tracee) (actions : List Action) :
    Asks t (t.performAll p actions) := by
  induction actions generalizing t with
  | nil => exact .refl
  | cons action actions ih => exact (asks_perform p t action).trans (ih _)

theorem asks_translateEnter (h : Handler) (t : Tracee) : Asks t (t.translateEnter p h).1 := by
  rw [translateEnter]
  split
  · have hsaved : Asks t (t.saveCurrentRegs .ORIGINAL) := .of_eq rfl rfl
    exact (hsaved.trans (asks_performAll p _ h.actions)).trans (.of_eq rfl rfl)
  · split
    · exact .inl rfl
    · exact .inl rfl

theorem asks_settle (t : Tracee) (status : Int) : Asks t (t.settle p status) := by
  simp only [settle]
  split
  · split
    · exact .inl rfl
    · apply Asks.of_eq <;> simp
  · split
    · exact .inl rfl
    · exact .of_eq rfl rfl

theorem asks_skipSysexit (t : Tracee) : Asks t (t.skipSysexit p) := by
  rw [skipSysexit]
  split
  · apply Asks.of_eq <;> simp
  · exact .refl

theorem asks_workAroundSysnum (t : Tracee) (suppressed : Int) :
    Asks t (t.workAroundSysnum p suppressed) := by
  simp only [workAroundSysnum]
  split
  · split
    · apply Asks.of_eq <;> simp [restartCurrentSyscallAsChained, registerChainedSyscallInternal]
    · split
      · exact .inl (by simp)
      · apply Asks.of_eq <;> simp
  · exact .refl

theorem asks_pushSpecificRegs (t : Tracee) (includingSysnum sysnumFails : Bool) :
    Asks t (t.pushSpecificRegs p includingSysnum sysnumFails).1 := by
  apply Asks.of_eq <;> simp

theorem asks_pushEntered (h : Handler) (t : Tracee) (suppressed : Int) :
    Asks t (t.pushEntered p h suppressed) := by
  have hpushed := asks_pushSpecificRegs p t t.chain.syscalls.isNone h.sysnumFails
  simp only [pushEntered]
  split
  · exact hpushed.trans (asks_workAroundSysnum p _ suppressed)
  · exact hpushed

theorem asks_enterStage (h : Handler) (t : Tracee) : Asks t (t.enterStage p h) := by
  simp only [enterStage]
  have hreset : Asks t
      { t with restoreOriginalRegs := false, voidedSyscallCancelled := false } := .of_eq rfl rfl
  exact ((hreset.trans (asks_translateEnter p h _)).trans (asks_settle p _ _)).trans
    ((asks_skipSysexit p _).trans (asks_pushEntered p h _ _))

theorem asks_translateExit (h : Handler) (t : Tracee) : Asks t (t.translateExit p h) := by
  rw [translateExit]
  split
  · exact Asks.trans (.of_eq rfl rfl) (asks_performAll p _ h.actions)
  · split
    · exact .of_eq rfl rfl
    · exact asks_performAll p t h.actions

theorem asks_nextSyscall (t : Tracee) : Asks t (t.nextSyscall p) := by
  rw [nextSyscall]
  split
  · rename_i syscalls _
    cases syscalls with
    | nil =>
        simp only [chainNextSyscall]
        split <;> apply Asks.of_eq <;> simp
    | cons syscall syscalls => exact .inl rfl
  · exact .refl

theorem asks_exitStage (h : Handler) (t : Tracee) : Asks t (t.exitStage p h) := by
  simp only [exitStage]
  have hrestore : Asks t { t with restoreOriginalRegs := true } := .of_eq rfl rfl
  have htranslated := hrestore.trans (asks_translateExit p h _)
  generalize translateExit p h { t with restoreOriginalRegs := true } = translated
    at htranslated ⊢
  have hreset : Asks translated { translated with status := 0 } := .of_eq rfl rfl
  exact (htranslated.trans hreset).trans
    ((asks_nextSyscall p _).trans (asks_pushSpecificRegs p _ _ _))

theorem asks_translateSyscall (h : Handler) (regs : Registers) (t : Tracee) :
    Asks t (t.translateSyscall p h regs) := by
  have hfetch : Asks t (t.fetchRegs regs) := .of_eq rfl rfl
  simp only [translateSyscall]
  split
  · exact hfetch.trans (asks_enterStage p h _)
  · exact hfetch.trans (asks_exitStage p h _)

end Asks

/-! ## The status -/

/-- The tracee is in the system call unless it is restarted without an exit stop. -/
def Balanced (t : Tracee) : Prop := t.status = 0 ↔ t.restartHow = some .PTRACE_CONT

theorem settle_status (t : Tracee) (status : Int) : (t.settle p status).status ≠ 0 := by
  rw [settle]
  split
  · rename_i hneg
    exact ne_of_lt hneg
  · split <;> simp

theorem balanced_skipSysexit {t : Tracee} (h : t.status ≠ 0) : (t.skipSysexit p).Balanced := by
  rw [skipSysexit, Balanced]
  split
  · rename_i hcont
    simp [hcont]
  · rename_i hcont
    simp [h, hcont]

theorem Balanced.of_eq {t t' : Tracee} (h : t.Balanced) (hstatus : t'.status = t.status)
    (hhow : t'.restartHow = t.restartHow) : t'.Balanced := by
  rw [Balanced, hstatus, hhow]
  exact h

theorem Balanced.workAroundSysnum {t : Tracee} (h : t.Balanced) (suppressed : Int) :
    (t.workAroundSysnum p suppressed).Balanced := by
  simp only [Tracee.workAroundSysnum]
  split
  · split
    · apply h.of_eq <;> simp [restartCurrentSyscallAsChained, registerChainedSyscallInternal]
    · split
      · rename_i hsuppressed
        simp [Balanced, hsuppressed]
      · apply h.of_eq <;> simp
  · exact h

theorem Balanced.pushEntered {t : Tracee} (h : t.Balanced) (handler : Handler)
    (suppressed : Int) : (t.pushEntered p handler suppressed).Balanced := by
  have hpushed : (t.pushSpecificRegs p t.chain.syscalls.isNone handler.sysnumFails).1.Balanced := by
    apply h.of_eq <;> simp
  simp only [Tracee.pushEntered]
  split
  · exact hpushed.workAroundSysnum p suppressed
  · exact hpushed

/-- **After the enter stage** the tracee is in the system call, or won't have an exit stop. -/
theorem balanced_enterStage (h : Handler) (t : Tracee) : (t.enterStage p h).Balanced := by
  simp only [enterStage]
  exact (balanced_skipSysexit p (settle_status p _ _)).pushEntered p h _

theorem status_exitStage (h : Handler) (t : Tracee) : (t.exitStage p h).status = 0 := by
  simp only [exitStage, toFlags_pushSpecificRegs]
  rw [nextSyscall]
  split
  · rename_i syscalls _
    cases syscalls with
    | nil =>
        simp only [chainNextSyscall]
        split <;> simp
    | cons syscall syscalls => simp [chainNextSyscall]
  · rfl

theorem status_performAll {t : Tracee} (h : t.status = 0) (actions : List Action) :
    (t.performAll p actions).status = 0 := by
  induction actions generalizing t with
  | nil => exact h
  | cons action actions ih =>
      refine ih (t := t.perform p action) ?_
      cases action <;> simp [perform, registerChainedSyscall, restartOriginalSyscall,
        registerChainedSyscallInternal, forceChainFinalResult, restartSyscallAfterSeccomp,
        setResultAfterSeccomp, h]

theorem stages_performAll (t : Tracee) (actions : List Action) :
    (t.performAll p actions).stages = t.stages := by
  induction actions generalizing t with
  | nil => rfl
  | cons action actions ih =>
      refine (ih (t.perform p action)).trans ?_
      cases action <;> simp [perform, registerChainedSyscall, restartOriginalSyscall,
        registerChainedSyscallInternal, forceChainFinalResult, restartSyscallAfterSeccomp,
        setResultAfterSeccomp]

/-! ## Both stages -/

variable {t : Tracee} (h : Handler) (regs : Registers)

theorem translateSyscall_enter (hstatus : t.status = 0) :
    t.translateSyscall p h regs =
      { (t.fetchRegs regs).enterStage p h with stages := t.stages ++ [.enter] } := by
  have hsysenter : (t.fetchRegs regs).isInSysenter = true := by
    simp [Flags.isInSysenter, hstatus]
  rw [translateSyscall]
  exact if_pos hsysenter

theorem translateSyscall_exit (hstatus : t.status ≠ 0) :
    t.translateSyscall p h regs =
      { (t.fetchRegs regs).exitStage p h with stages := t.stages ++ [.exit] } := by
  have hsysexit : ¬ (t.fetchRegs regs).isInSysenter = true := by
    simp [Flags.isInSysenter, hstatus]
  rw [translateSyscall]
  exact if_neg hsysexit

end Tracee

end Improot.Event
