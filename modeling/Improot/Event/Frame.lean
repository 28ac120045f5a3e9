import Improot.Event.Loop

/-!
# What a stage touches

The register operations leave the other fields of a tracee alone, and the two stages of a system
call leave the fields of the event loop alone.
-/

namespace Improot.Event

namespace Tracee

variable (p : Platform) (t : Tracee)

/-! ## Register operations -/

@[simp] theorem toFlags_setBank (version : RegVersion) (regs : Registers) :
    (t.setBank version regs).toFlags = t.toFlags := rfl

@[simp] theorem toFlags_pokeReg (reg : Reg) (value : Word) :
    (t.pokeReg p reg value).toFlags = t.toFlags := by
  rw [pokeReg]
  split <;> rfl

@[simp] theorem toFlags_fetchRegs (regs : Registers) :
    (t.fetchRegs regs).toFlags = t.toFlags := rfl

@[simp] theorem toFlags_saveCurrentRegs (version : RegVersion) :
    (t.saveCurrentRegs version).toFlags = t.toFlags := rfl

@[simp] theorem toFlags_setSysnum (sysnum : Syscall.Sysnum) :
    (t.setSysnum p sysnum).toFlags = t.toFlags :=
  toFlags_pokeReg p t _ _

@[simp] theorem toFlags_pokeChained (syscall : ChainedSyscall) :
    (t.pokeChained p syscall).toFlags = t.toFlags := by
  simp [pokeChained]

@[simp] theorem toFlags_pokeInvalid : (t.pokeInvalid p).toFlags = t.toFlags := by
  simp only [pokeInvalid]
  split <;> simp

@[simp] theorem toFlags_rewind : (t.rewind p).toFlags = t.toFlags := by
  rw [rewind]
  split <;> simp

@[simp] theorem toFlags_restoreRegs : (t.restoreRegs p).toFlags =
    { t.toFlags with restoreOriginalRegsAfterSeccompEvent :=
        t.restoreOriginalRegsAfterSeccompEvent && !t.restoreOriginalRegs } := by
  rw [restoreRegs]
  cases hr : t.restoreOriginalRegs with
  | false => simp
  | true => simp [hr]

@[simp] theorem toFlags_pushSpecificRegs (includingSysnum sysnumFails : Bool) :
    (t.pushSpecificRegs p includingSysnum sysnumFails).1.toFlags =
      { t.toFlags with restoreOriginalRegsAfterSeccompEvent :=
          t.restoreOriginalRegsAfterSeccompEvent && !t.restoreOriginalRegs } := by
  simp only [pushSpecificRegs]
  split
  · split <;> exact toFlags_restoreRegs p t
  · rename_i hnot
    have hkept : (t.restoreOriginalRegsAfterSeccompEvent && !t.restoreOriginalRegs) =
        t.restoreOriginalRegsAfterSeccompEvent := by
      cases hr : t.restoreOriginalRegs <;> cases hs : t.restoreOriginalRegsAfterSeccompEvent <;>
        simp_all
    rw [hkept]

theorem toFlags_fetchBlocked (input : Input) : (t.fetchBlocked p input).toFlags =
    { t.toFlags with
      status := 0, restoreOriginalRegs := false, restoreSysarg1AfterSigsys := false } := by
  simp only [fetchBlocked]
  split <;> split <;> simp

/-! ## What the stages of a system call touch -/

/-- `t'` is `t` after a handler performed `actions`: the fields that belong to the event loop are
unchanged, and the others only change in the ways that the actions allow. -/
structure Frame (actions : List Action) (t t' : Tracee) : Prop where
  exe : t'.exe = t.exe
  lastRestartHow : t'.lastRestartHow = t.lastRestartHow
  sigstop : t'.sigstop = t.sigstop
  skipNextSeccompSignal : t'.skipNextSeccompSignal = t.skipNextSeccompSignal
  restoreSysarg1AfterSigsys : t'.restoreSysarg1AfterSigsys = t.restoreSysarg1AfterSigsys
  suppressedSignal : t'.chain.suppressedSignal = t.chain.suppressedSignal
  seccompAlreadyHandledEnter : t'.seccompAlreadyHandledEnter = t.seccompAlreadyHandledEnter
  seccomp : t'.seccomp = t.seccomp ∨
    (t.seccomp = .ENABLED ∧ t'.seccomp = .DISABLING ∧ .disableSeccomp ∈ actions)
  waitsForPtracee : t'.waitsForPtracee = true →
    t.waitsForPtracee = true ∨ .waitForPtracee ∈ actions

variable {p t}

variable {actions : List Action}

theorem Frame.of_toFlags {t' : Tracee}
    (hexe : t'.exe = t.exe) (hlast : t'.lastRestartHow = t.lastRestartHow)
    (hstop : t'.sigstop = t.sigstop)
    (hskip : t'.skipNextSeccompSignal = t.skipNextSeccompSignal)
    (hrestore : t'.restoreSysarg1AfterSigsys = t.restoreSysarg1AfterSigsys)
    (hsignal : t'.chain.suppressedSignal = t.chain.suppressedSignal)
    (hhandled : t'.seccompAlreadyHandledEnter = t.seccompAlreadyHandledEnter)
    (hseccomp : t'.seccomp = t.seccomp) (hwaits : t'.waitsForPtracee = t.waitsForPtracee) :
    Frame actions t t' :=
  ⟨hexe, hlast, hstop, hskip, hrestore, hsignal, hhandled, .inl hseccomp,
    fun h => .inl (hwaits ▸ h)⟩

theorem Frame.refl : Frame actions t t := by
  apply Frame.of_toFlags <;> rfl

theorem Frame.trans {actions : List Action} {t t' t'' : Tracee} (h : Frame actions t t')
    (h' : Frame actions t' t'') : Frame actions t t'' where
  exe := h'.exe.trans h.exe
  lastRestartHow := h'.lastRestartHow.trans h.lastRestartHow
  sigstop := h'.sigstop.trans h.sigstop
  skipNextSeccompSignal := h'.skipNextSeccompSignal.trans h.skipNextSeccompSignal
  restoreSysarg1AfterSigsys := h'.restoreSysarg1AfterSigsys.trans h.restoreSysarg1AfterSigsys
  suppressedSignal := h'.suppressedSignal.trans h.suppressedSignal
  seccompAlreadyHandledEnter :=
    h'.seccompAlreadyHandledEnter.trans h.seccompAlreadyHandledEnter
  seccomp := by
    have h1 := h.seccomp
    have h2 := h'.seccomp
    grind
  waitsForPtracee := by
    intro hw
    cases h'.waitsForPtracee hw with
    | inl hw => exact h.waitsForPtracee hw
    | inr hmem => exact .inr hmem

theorem Frame.mono {actions' : List Action} {t' : Tracee} (h : Frame actions t t')
    (hsub : ∀ a ∈ actions, a ∈ actions') : Frame actions' t t' where
  __ := h
  seccomp := h.seccomp.imp_right fun ⟨h1, h2, h3⟩ => ⟨h1, h2, hsub _ h3⟩
  waitsForPtracee := fun hw => (h.waitsForPtracee hw).imp_right (hsub _)

variable (p)

theorem frame_perform (t : Tracee) (action : Action) : Frame [action] t (t.perform p action) := by
  cases action with
  | disableSeccomp =>
      have hseccomp : (t.perform p .disableSeccomp).seccomp = t.seccomp ∨
          (t.seccomp = .ENABLED ∧ (t.perform p .disableSeccomp).seccomp = .DISABLING) := by
        simp only [perform]
        split <;> simp_all
      exact ⟨rfl, rfl, rfl, rfl, rfl, rfl, rfl,
        hseccomp.imp_right fun h => ⟨h.1, h.2, List.mem_singleton.mpr rfl⟩, .inl⟩
  | waitForPtracee =>
      exact ⟨rfl, rfl, rfl, rfl, rfl, rfl, rfl, .inl rfl, fun _ => .inr (List.mem_singleton.mpr rfl)⟩
  | _ =>
      apply Frame.of_toFlags <;>
        simp [perform, restartSyscallAfterSeccomp, setResultAfterSeccomp, registerChainedSyscall,
          restartOriginalSyscall, forceChainFinalResult, registerChainedSyscallInternal]

theorem frame_performAll (t : Tracee) (actions : List Action) :
    Frame actions t (t.performAll p actions) := by
  induction actions generalizing t with
  | nil => exact .refl
  | cons action actions ih =>
      have hfirst : Frame (action :: actions) t (t.perform p action) :=
        (frame_perform p t action).mono (by simp)
      exact hfirst.trans ((ih (t.perform p action)).mono (by simp +contextual))

/-! ### The enter stage -/

theorem frame_translateEnter (h : Handler) (t : Tracee) :
    Frame h.actions t (t.translateEnter p h).1 := by
  rw [translateEnter]
  split
  · have hsaved : Frame h.actions t (t.saveCurrentRegs .ORIGINAL) := by
      apply Frame.of_toFlags <;> rfl
    have hlast : Frame h.actions ((t.saveCurrentRegs .ORIGINAL).performAll p h.actions)
        (((t.saveCurrentRegs .ORIGINAL).performAll p h.actions).saveCurrentRegs .MODIFIED) := by
      apply Frame.of_toFlags <;> rfl
    exact hsaved.trans ((frame_performAll p _ h.actions).trans hlast)
  · split
    · refine (frame_performAll p t h.actions).trans ?_
      apply Frame.of_toFlags <;> rfl
    · apply Frame.of_toFlags <;> rfl

@[simp] theorem chain_settle (t : Tracee) (status : Int) :
    (t.settle p status).chain = t.chain := by
  rw [settle]
  split
  · simp
  · split <;> rfl

@[simp] theorem chain_skipSysexit (t : Tracee) : (t.skipSysexit p).chain = t.chain := by
  rw [skipSysexit]
  split <;> simp

theorem frame_settle (t : Tracee) (status : Int) :
    Frame actions t (t.settle p status) := by
  rw [settle]
  split
  · apply Frame.of_toFlags <;> simp
  · split <;> apply Frame.of_toFlags <;> rfl

theorem frame_skipSysexit (t : Tracee) :
    Frame actions t (t.skipSysexit p) := by
  rw [skipSysexit]
  split
  · apply Frame.of_toFlags <;> simp
  · exact .refl

theorem frame_pushSpecificRegs (t : Tracee) (includingSysnum sysnumFails : Bool) :
    Frame actions t (t.pushSpecificRegs p includingSysnum sysnumFails).1 := by
  apply Frame.of_toFlags <;> simp

theorem frame_workAroundSysnum (t : Tracee) (suppressed : Int) :
    Frame actions t (t.workAroundSysnum p suppressed) := by
  simp only [workAroundSysnum]
  split
  · refine .trans ?_ (frame_pushSpecificRegs p _ false false)
    split
    · apply Frame.of_toFlags <;>
        simp [restartCurrentSyscallAsChained, registerChainedSyscallInternal]
    · split <;> apply Frame.of_toFlags <;> simp
  · exact .refl

theorem frame_pushEntered (h : Handler) (t : Tracee) (suppressed : Int) :
    Frame actions t (t.pushEntered p h suppressed) := by
  simp only [pushEntered]
  refine @Frame.trans actions t (if !(t.pushSpecificRegs p t.chain.syscalls.isNone h.sysnumFails).2 &&
      t.chain.syscalls.isNone then
      (t.pushSpecificRegs p t.chain.syscalls.isNone h.sysnumFails).1.workAroundSysnum p suppressed
    else (t.pushSpecificRegs p t.chain.syscalls.isNone h.sysnumFails).1) _ ?_ ?_
  · split
    · exact (frame_pushSpecificRegs p t _ _).trans (frame_workAroundSysnum p _ suppressed)
    · exact frame_pushSpecificRegs p t _ _
  · apply Frame.of_toFlags <;> rfl

theorem frame_enterStage (h : Handler) (t : Tracee) : Frame h.actions t (t.enterStage p h) := by
  simp only [enterStage]
  have hreset : Frame h.actions t
      { t with restoreOriginalRegs := false, voidedSyscallCancelled := false } := by
    apply Frame.of_toFlags <;> rfl
  exact ((hreset.trans (frame_translateEnter p h _)).trans (frame_settle p _ _)).trans
    ((frame_skipSysexit p _).trans (frame_pushEntered p h _ _))

/-! ### The exit stage -/

theorem frame_translateExit (h : Handler) (t : Tracee) :
    Frame h.actions t (t.translateExit p h) := by
  rw [translateExit]
  split
  · refine .trans ?_ (frame_performAll p _ h.actions)
    apply Frame.of_toFlags <;> rfl
  · split
    · apply Frame.of_toFlags <;> rfl
    · exact frame_performAll p t h.actions

theorem frame_chainNextSyscall (t : Tracee)
    (syscalls : List ChainedSyscall) : Frame actions t (t.chainNextSyscall p syscalls) := by
  cases syscalls with
  | nil =>
      simp only [chainNextSyscall]
      split <;> apply Frame.of_toFlags <;> simp
  | cons syscall syscalls =>
      simp only [chainNextSyscall]
      apply Frame.of_toFlags <;> simp

theorem frame_nextSyscall {actions : List Action} (t : Tracee) :
    Frame actions t (t.nextSyscall p) := by
  rw [nextSyscall]
  split
  · exact frame_chainNextSyscall p t _
  · exact .refl

theorem frame_exitStage (h : Handler) (t : Tracee) : Frame h.actions t (t.exitStage p h) := by
  simp only [exitStage]
  have hrestore : Frame h.actions t { t with restoreOriginalRegs := true } := by
    apply Frame.of_toFlags <;> rfl
  refine .trans (hrestore.trans (frame_translateExit p h _)) ?_
  refine .trans ?_ ((frame_nextSyscall p _).trans (frame_pushSpecificRegs p _ _ _))
  apply Frame.of_toFlags <;> rfl

/-- **The frame of a stage.** The two stages of a system call leave the fields of the event loop
alone. -/
theorem frame_translateSyscall (h : Handler) (regs : Registers) (t : Tracee) :
    Frame h.actions t (t.translateSyscall p h regs) := by
  have hfetch : Frame h.actions t (t.fetchRegs regs) := by
    apply Frame.of_toFlags <;> rfl
  simp only [translateSyscall]
  split
  · refine (hfetch.trans (frame_enterStage p h _)).trans ?_
    apply Frame.of_toFlags <;> rfl
  · refine (hfetch.trans (frame_exitStage p h _)).trans ?_
    apply Frame.of_toFlags <;> rfl

end Tracee

end Improot.Event
