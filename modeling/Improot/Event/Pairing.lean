import Improot.Event.Cancelled
import Improot.Event.Stages

/-!
# Paired stages

Every traced system call has its enter stage once and its exit stage at most once, after the enter
stage, as long as the event loop keeps track of where the kernel is.  What it keeps track with is
the status of the tracee; the invariant says what the status means in each phase of the kernel.
-/

namespace Improot.Event

namespace Kernel

open Improot.Lib

/-! ## What the event loop keeps -/

section Loop

variable {order : Order} {g : Globals} {t u : Tracee}

structure Steady (order : Order) (g : Globals) (t : Tracee) : Prop where
  exe : t.exe = true
  detected : g.seccompDetected = true → g.seccompAfterPtraceEnter = decide (order = .new)
  enabled : t.seccomp = .ENABLED → g.seccompDetected = true
  disabling : t.seccomp ≠ .DISABLING

structure Chosen (order : Order) (g : Globals) (t : Tracee) : Prop extends Steady order g t where
  how : t.restartHow = some .PTRACE_SYSCALL ∨ t.restartHow = some .PTRACE_CONT
  disabled : t.seccomp = .DISABLED → t.restartHow = some .PTRACE_SYSCALL

structure Same (t u : Tracee) : Prop where
  exe : u.exe = t.exe
  status : u.status = t.status
  restartHow : u.restartHow = t.restartHow
  seccomp : u.seccomp = t.seccomp
  already : u.seccompAlreadyHandledEnter = t.seccompAlreadyHandledEnter
  stages : u.stages = t.stages
  waits : u.waitsForPtracee = t.waitsForPtracee

theorem Chosen.same (h : Chosen order g t) (hsame : Same t u) : Chosen order g u where
  exe := hsame.exe.trans h.exe
  detected := h.detected
  enabled hu := h.enabled (hsame.seccomp ▸ hu)
  disabling := hsame.seccomp ▸ h.disabling
  how := hsame.restartHow ▸ h.how
  disabled hu := hsame.restartHow.trans (h.disabled (hsame.seccomp ▸ hu))

theorem chosen_chooseRestart (h : Steady order g t) (hnone : t.restartHow = none) :
    Chosen order g t.chooseRestart where
  exe := h.exe
  detected := h.detected
  enabled := h.enabled
  disabling := h.disabling
  how := by
    simp only [Tracee.chooseRestart, hnone]
    split
    · exact .inr rfl
    · exact .inl rfl
  disabled hd := by
    have hd' : t.seccomp = .DISABLED := hd
    simp [Tracee.chooseRestart, hnone, hd']

theorem same_redeliver : Same t t.redeliver.1 := by
  rw [Tracee.redeliver]
  split <;> exact ⟨rfl, rfl, rfl, rfl, rfl, rfl, rfl⟩

theorem redeliver_nonneg : 0 ≤ t.redeliver.2 := by
  rw [Tracee.redeliver]
  split
  · exact Int.natCast_nonneg _
  · exact le_refl 0

/-- The tracee at the end of a syscall stop, before the acceleration may be turned off. -/
structure Ended (order : Order) (g : Globals) (t : Tracee) : Prop where
  exe : t.exe = true
  detected : g.seccompDetected = true → g.seccompAfterPtraceEnter = decide (order = .new)
  enabled : t.seccomp ≠ .DISABLED → g.seccompDetected = true
  how : t.restartHow = some .PTRACE_SYSCALL ∨ t.restartHow = some .PTRACE_CONT
  disabled : t.seccomp = .DISABLED → t.restartHow = some .PTRACE_SYSCALL

theorem Ended.chosen (h : Ended order g t) : Chosen order g t.disableAcceleration := by
  rw [Tracee.disableAcceleration]
  split
  · exact ⟨⟨h.exe, h.detected, nofun, nofun⟩, .inl rfl, fun _ => rfl⟩
  · rename_i hne
    exact ⟨⟨h.exe, h.detected, fun he => h.enabled (by simp [he]), hne⟩, h.how, h.disabled⟩

theorem disableAcceleration_kept :
    t.disableAcceleration.status = t.status ∧
      t.disableAcceleration.seccompAlreadyHandledEnter = t.seccompAlreadyHandledEnter ∧
      t.disableAcceleration.stages = t.stages ∧
      t.disableAcceleration.waitsForPtracee = t.waitsForPtracee ∧
      (t.restartHow = some .PTRACE_SYSCALL →
        t.disableAcceleration.restartHow = some .PTRACE_SYSCALL) := by
  rw [Tracee.disableAcceleration]
  split
  · exact ⟨rfl, rfl, rfl, rfl, fun _ => rfl⟩
  · exact ⟨rfl, rfl, rfl, rfl, id⟩

theorem Ended.same (h : Ended order g t) (hsame : Same t u) : Ended order g u where
  exe := hsame.exe.trans h.exe
  detected := h.detected
  enabled hu := h.enabled (hsame.seccomp ▸ hu)
  how := hsame.restartHow ▸ h.how
  disabled hu := hsame.restartHow.trans (h.disabled (hsame.seccomp ▸ hu))

def MayWait (t : Tracee) (input : Input) : Prop :=
  t.waitsForPtracee = true ∨ .waitForPtracee ∈ input.handler.actions

theorem accelerate_kept :
    t.accelerate.status = t.status ∧
      t.accelerate.seccompAlreadyHandledEnter = t.seccompAlreadyHandledEnter ∧
      t.accelerate.stages = t.stages ∧ t.accelerate.waitsForPtracee = t.waitsForPtracee := by
  rw [Tracee.accelerate]
  split
  · split <;> exact ⟨rfl, rfl, rfl, rfl⟩
  · exact ⟨rfl, rfl, rfl, rfl⟩

theorem Chosen.accelerate (h : Chosen order g t) : Chosen order g t.accelerate := by
  rw [Tracee.accelerate]
  split
  · rename_i hs
    split
    · exact ⟨⟨h.exe, h.detected, h.enabled, h.disabling⟩, .inl rfl, fun _ => rfl⟩
    · refine ⟨⟨h.exe, h.detected, h.enabled, h.disabling⟩, .inr rfl, ?_⟩
      intro hd
      have hd' : t.seccomp = .DISABLED := hd
      rw [hs] at hd'
      cases hd'
  · exact h

theorem accelerate_restartHow (h : Chosen order g t) (hstatus : t.status = 0) :
    t.accelerate.restartHow = some .PTRACE_SYSCALL := by
  rw [Tracee.accelerate]
  cases hs : t.seccomp with
  | ENABLED => simp [Flags.isInSysenter, hstatus]
  | DISABLED => simp [h.disabled hs]
  | DISABLING => exact absurd hs h.disabling

variable (p : Platform) (input : Input)

/-! ## Syscall stops -/

theorem Chosen.ended {actions : List Action} (h : Chosen order g t)
    (hframe : Tracee.Frame actions t u) (hasks : Tracee.Asks t u) : Ended order g u := by
  refine ⟨hframe.exe.trans h.exe, h.detected, ?_, ?_, ?_⟩
  · intro hne
    rcases hframe.seccomp with hs | ⟨hs, -, -⟩
    · refine h.enabled ?_
      cases hc : t.seccomp with
      | ENABLED => rfl
      | DISABLED => exact absurd (hs.trans hc) hne
      | DISABLING => exact absurd hc h.disabling
    · exact h.enabled hs
  · rcases hasks with hs | ⟨hs, -⟩
    · exact .inl hs
    · exact hs ▸ h.how
  · intro hd
    rcases hasks with hs | ⟨hs, -⟩
    · exact hs
    · refine hs.trans (h.disabled ?_)
      rcases hframe.seccomp with hsame | ⟨-, hdisabling, -⟩
      · exact hsame ▸ hd
      · rw [hd] at hdisabling
        cases hdisabling

theorem Chosen.framed {actions : List Action} (h : Chosen order g t)
    (hframe : Tracee.Frame actions t u) (hasks : Tracee.Asks t u)
    (hdisable : t.seccomp = .ENABLED → .disableSeccomp ∉ actions) : Chosen order g u := by
  have hended := h.ended hframe hasks
  have hseccomp : u.seccomp = t.seccomp := by
    rcases hframe.seccomp with hs | ⟨henabled, -, hmem⟩
    · exact hs
    · exact absurd hmem (hdisable henabled)
  exact ⟨⟨hended.exe, hended.detected, fun hs => h.enabled (hseccomp ▸ hs),
    hseccomp ▸ h.disabling⟩, hended.how, hended.disabled⟩

theorem waits_translateSyscall
    (hwaits : (t.translateSyscall p input.handler input.regs).waitsForPtracee = true) :
    MayWait t input :=
  (Tracee.frame_translateSyscall p input.handler input.regs t).waitsForPtracee hwaits

/-- A stop of the system call runs one stage. -/
theorem handleSyscall_stage (h : Chosen order g t)
    (halready : t.seccompAlreadyHandledEnter = false) :
    ∃ t' signal, t.handleSyscall p g input = some (g, t', signal) ∧ 0 ≤ signal ∧
      Chosen order g t' ∧
      t'.status = (t.accelerate.translateSyscall p input.handler input.regs).status ∧
      ((t.accelerate.translateSyscall p input.handler input.regs).restartHow =
        some .PTRACE_SYSCALL → t'.restartHow = some .PTRACE_SYSCALL) ∧
      t'.seccompAlreadyHandledEnter = false ∧
      t'.stages = (t.accelerate.translateSyscall p input.handler input.regs).stages ∧
      (t'.waitsForPtracee = true → MayWait t input) := by
  obtain ⟨-, haccelerated, -, hwaits⟩ := accelerate_kept (t := t)
  have hsyscall : t.handleSyscall p g input =
      some (g, (t.accelerate.translateStop p input).redeliver.1.disableAcceleration,
        (t.accelerate.translateStop p input).redeliver.2) := by
    simp [Tracee.handleSyscall, h.exe, h.disabling, haccelerated, halready]
  have hstop : Same (t.accelerate.translateSyscall p input.handler input.regs)
      (t.accelerate.translateStop p input) := ⟨rfl, rfl, rfl, rfl, rfl, rfl, rfl⟩
  have hgiven := same_redeliver (t := t.accelerate.translateStop p input)
  obtain ⟨hstatus, hskip, hstages, hwait, hhow⟩ :=
    disableAcceleration_kept (t := (t.accelerate.translateStop p input).redeliver.1)
  have hframe := Tracee.frame_translateSyscall p input.handler input.regs t.accelerate
  refine ⟨_, _, hsyscall, redeliver_nonneg,
    (((h.accelerate.ended hframe
      (Tracee.asks_translateSyscall p input.handler input.regs _)).same hstop).same hgiven).chosen,
    hstatus.trans (hgiven.status.trans hstop.status), ?_,
    hskip.trans (hgiven.already.trans (hstop.already.trans ?_)),
    hstages.trans (hgiven.stages.trans hstop.stages), ?_⟩
  · intro hs
    exact hhow (hgiven.restartHow.trans (hstop.restartHow.trans hs))
  · exact hframe.seccompAlreadyHandledEnter.trans (haccelerated.trans halready)
  · intro hw
    have hmay : MayWait t.accelerate input := by
      refine waits_translateSyscall p input ?_
      rw [← hstop.waits, ← hgiven.waits, ← hwait]
      exact hw
    exact hmay.imp_left (fun hold => hwaits ▸ hold)

theorem handleSyscall_enter (h : Chosen order g t) (hstatus : t.status = 0)
    (halready : t.seccompAlreadyHandledEnter = false) :
    ∃ t' signal, t.handleSyscall p g input = some (g, t', signal) ∧ 0 ≤ signal ∧
      Chosen order g t' ∧ t'.status ≠ 0 ∧ t'.restartHow = some .PTRACE_SYSCALL ∧
      t'.seccompAlreadyHandledEnter = false ∧ t'.stages = t.stages ++ [.enter] ∧
      (t'.waitsForPtracee = true → MayWait t input) := by
  obtain ⟨t', signal, hsome, hsignal, hchosen, hstat, hhow, halready', hstages, hwaits⟩ :=
    handleSyscall_stage p input h halready
  obtain ⟨haccelerated, -, hkept, -⟩ := accelerate_kept (t := t)
  have hentered := Tracee.translateSyscall_enter p (t := t.accelerate) input.handler input.regs
    (haccelerated.trans hstatus)
  have hasked : (t.accelerate.translateSyscall p input.handler input.regs).restartHow =
      some .PTRACE_SYSCALL := by
    rcases Tracee.asks_translateSyscall p input.handler input.regs t.accelerate with hs | ⟨hs, -⟩
    · exact hs
    · exact hs.trans (accelerate_restartHow h hstatus)
  have hbalanced := Tracee.balanced_enterStage p input.handler (t.accelerate.fetchRegs input.regs)
  refine ⟨t', signal, hsome, hsignal, hchosen, ?_, hhow hasked, halready', ?_, hwaits⟩
  · rw [hstat, hentered]
    rw [hentered] at hasked
    intro hzero
    have hcont := hbalanced.mp hzero
    simp only [] at hasked
    rw [hasked] at hcont
    cases hcont
  · rw [hstages, hentered, hkept]

theorem handleSyscall_exit (h : Chosen order g t) (hstatus : t.status ≠ 0)
    (halready : t.seccompAlreadyHandledEnter = false) :
    ∃ t' signal, t.handleSyscall p g input = some (g, t', signal) ∧ 0 ≤ signal ∧
      Chosen order g t' ∧ t'.status = 0 ∧ t'.seccompAlreadyHandledEnter = false ∧
      t'.stages = t.stages ++ [.exit] := by
  obtain ⟨t', signal, hsome, hsignal, hchosen, hstat, -, halready', hstages, -⟩ :=
    handleSyscall_stage p input h halready
  obtain ⟨haccelerated, -, hkept, -⟩ := accelerate_kept (t := t)
  have hexited := Tracee.translateSyscall_exit p (t := t.accelerate) input.handler input.regs
    (by rw [haccelerated]; exact hstatus)
  refine ⟨t', signal, hsome, hsignal, hchosen, ?_, halready', ?_⟩
  · rw [hstat, hexited]
    exact Tracee.status_exitStage p input.handler _
  · rw [hstages, hexited, hkept]

/-- The enter stop is skipped after a seccomp event that ran the enter stage. -/
theorem handleSyscall_skip (h : Chosen order g t) (hstatus : t.status ≠ 0)
    (halready : t.seccompAlreadyHandledEnter = true)
    (hafter : g.seccompAfterPtraceEnter = false) :
    ∃ t', t.handleSyscall p g input = some (g, t', 0) ∧ Chosen order g t' ∧ t'.status ≠ 0 ∧
      t'.restartHow = some .PTRACE_SYSCALL ∧ t'.seccompAlreadyHandledEnter = false ∧
      t'.stages = t.stages ∧ t'.waitsForPtracee = t.waitsForPtracee := by
  obtain ⟨hstat, haccelerated, hkept, hwaits⟩ := accelerate_kept (t := t)
  have hchosen := h.accelerate
  have hsysexit : t.accelerate.isInSysenter = false := by
    simp [Flags.isInSysenter, hstat, hstatus]
  have hskip : t.handleSyscall p g input =
      some (g, { t.accelerate with
        seccompAlreadyHandledEnter := false
        restartHow := some .PTRACE_SYSCALL }.disableAcceleration, 0) := by
    simp [Tracee.handleSyscall, h.exe, h.disabling, haccelerated, halready, hsysexit, hafter]
  have hnot : Tracee.disableAcceleration { t.accelerate with
      seccompAlreadyHandledEnter := false
      restartHow := some .PTRACE_SYSCALL } = { t.accelerate with
      seccompAlreadyHandledEnter := false
      restartHow := some .PTRACE_SYSCALL } := by
    rw [Tracee.disableAcceleration, if_neg hchosen.disabling]
  refine ⟨_, hskip, ?_, ?_, ?_, ?_, ?_, ?_⟩
  · rw [hnot]
    exact ⟨⟨hchosen.exe, hchosen.detected, hchosen.enabled, hchosen.disabling⟩, .inl rfl,
      fun _ => rfl⟩
  · rw [hnot]
    exact hstat ▸ hstatus
  · rw [hnot]
  · rw [hnot]
  · rw [hnot]
    exact hkept
  · rw [hnot]
    exact hwaits

/-! ## Seccomp events -/

theorem chosen_detectSeccomp (h : Chosen order g t)
    (hright : g.seccompDetected = false → (t.status = 0 ↔ order = .old)) :
    Chosen order (Tracee.detectSeccomp g t).1 (Tracee.detectSeccomp g t).2 ∧
      (Tracee.detectSeccomp g t).1.seccompAfterPtraceEnter = decide (order = .new) ∧
      (Tracee.detectSeccomp g t).1.seccompDetected = true ∧
      (Tracee.detectSeccomp g t).2 = { t with seccomp := (Tracee.detectSeccomp g t).2.seccomp } := by
  rw [Tracee.detectSeccomp]
  split
  · rename_i hdetected
    exact ⟨h, h.detected hdetected, hdetected, rfl⟩
  · rename_i hdetected
    have hright := hright (by simpa using hdetected)
    have hafter : (!t.isInSysenter) = decide (order = .new) := by
      cases order with
      | old => simp [Flags.isInSysenter, hright.mpr rfl]
      | new =>
          have hne : t.status ≠ 0 := by
            intro hzero
            cases hright.mp hzero
          simp [Flags.isInSysenter, hne]
    exact ⟨⟨⟨h.exe, fun _ => hafter, fun _ => rfl, (by rintro ⟨⟩)⟩, h.how, (by rintro ⟨⟩)⟩,
      hafter, rfl, rfl⟩

theorem handleSeccomp_after (h : Chosen order g t) (hnew : order = .new) (hstatus : t.status ≠ 0)
    (hlast : t.lastRestartHow = some .PTRACE_SYSCALL) (flags : Word) (necessary : Bool) :
    ∃ g' t', t.handleSeccomp p g input flags necessary = some (g', t', 0) ∧
      Chosen order g' t' ∧ t'.status = t.status ∧ t'.restartHow = some .PTRACE_SYSCALL ∧
      t'.seccompAlreadyHandledEnter = t.seccompAlreadyHandledEnter ∧ t'.stages = t.stages ∧
      t'.waitsForPtracee = t.waitsForPtracee := by
  have hright : t.status = 0 ↔ order = .old := by
    simp [hstatus, hnew]
  obtain ⟨hchosen, hafter, -, hsame⟩ := chosen_detectSeccomp h (fun _ => hright)
  rw [hsame] at hchosen
  refine ⟨(Tracee.detectSeccomp g t).1, { t with
    seccomp := (Tracee.detectSeccomp g t).2.seccomp
    skipNextSeccompSignal := false
    restartHow := some .PTRACE_SYSCALL }, ?_, ?_, rfl, rfl, rfl, rfl, rfl⟩
  · simp only [Tracee.handleSeccomp]
    rw [hsame]
    simp [Flags.isInSysenter, hstatus, hafter, hnew, hlast]
  · exact ⟨⟨hchosen.exe, hchosen.detected, hchosen.enabled, hchosen.disabling⟩, .inl rfl,
      fun _ => rfl⟩

/-- The enter stage at a seccomp event, and whether the enter stop is to be skipped. -/
theorem enterAtSeccompEvent_spec (h : Steady order g t) (henabled : t.seccomp = .ENABLED)
    (hafter : g.seccompAfterPtraceEnter = decide (order = .new)) (hstatus : t.status = 0)
    (hpending : t.sysexitPending = false) (halready : t.seccompAlreadyHandledEnter = false)
    (hdisable : .disableSeccomp ∉ input.handler.actions) :
    ∃ u, u = Tracee.translateSyscall p input.handler input.regs
        { t with restartHow := some .PTRACE_CONT } ∧
      t.enterAtSeccompEvent p g input = { u with
        seccompAlreadyHandledEnter := order = .old && u.restartHow = some .PTRACE_SYSCALL &&
          !u.voidedSyscallCancelled } ∧
      Chosen order g u ∧ u.Balanced ∧ u.stages = t.stages ++ [.enter] ∧
      (u.waitsForPtracee = true → MayWait t input) := by
  have hframe := Tracee.frame_translateSyscall p input.handler input.regs
    { t with restartHow := some .PTRACE_CONT }
  have hasks := Tracee.asks_translateSyscall p input.handler input.regs
    { t with restartHow := some .PTRACE_CONT }
  have hentered := Tracee.translateSyscall_enter p (t := { t with
    restartHow := some .PTRACE_CONT }) input.handler input.regs hstatus
  have hseccomp : (Tracee.translateSyscall p input.handler input.regs
      { t with restartHow := some .PTRACE_CONT }).seccomp = .ENABLED := by
    rcases hframe.seccomp with hs | ⟨-, -, hmem⟩
    · exact hs.trans henabled
    · exact absurd hmem hdisable
  refine ⟨_, rfl, ?_, ?_, ?_, ?_, hframe.waitsForPtracee⟩
  · simp only [Tracee.enterAtSeccompEvent]
    generalize Tracee.translateSyscall p input.handler input.regs
      { t with restartHow := some .PTRACE_CONT } = u at hframe hasks hseccomp
    -- a handler that leaves an exit stop pending has asked for it
    have hasked : (if u.sysexitPending || u.seccomp = .DISABLING then
        { u with restartHow := some .PTRACE_SYSCALL } else u) = u := by
      split
      · rename_i hcond
        rcases hasks with hs | ⟨-, hs⟩
        · rw [← hs]
        · rw [hs, hseccomp] at hcond
          simp [hpending] at hcond
      · rfl
    have hkept : u.seccompAlreadyHandledEnter = false :=
      hframe.seccompAlreadyHandledEnter.trans halready
    have hold : (!decide (order = .new)) = decide (order = .old) := by
      cases order <;> rfl
    have hmark : ∀ mark : Bool, (if mark = true then
        { u with seccompAlreadyHandledEnter := true } else u) =
          { u with seccompAlreadyHandledEnter := mark } := by
      intro mark
      cases mark with
      | true => rfl
      | false =>
          simp only [Bool.false_eq_true, if_false]
          rw [← hkept]
    rw [hasked, hafter, hold]
    exact hmark _
  · refine ⟨⟨hframe.exe.trans h.exe, h.detected, fun _ => h.enabled henabled, ?_⟩, ?_, ?_⟩
    · rw [hseccomp]
      nofun
    · exact hasks.imp_right And.left
    · rw [hseccomp]
      nofun
  · rw [hentered]
    exact (Tracee.balanced_enterStage p input.handler _).of_eq rfl rfl
  · rw [hentered]

theorem handleSeccomp_sysenter (flags : Word) (necessary : Bool)
    (hu : u = { (Tracee.detectSeccomp g t).2 with skipNextSeccompSignal := false })
    (hstatus : u.status = 0) :
    t.handleSeccomp p g input flags necessary =
      if u.seccomp ≠ .ENABLED then some ((Tracee.detectSeccomp g t).1, u, 0)
      else if asksSysexit flags || necessary then
        let entered :=
          if (Tracee.detectSeccomp g t).1.seccompAfterPtraceEnter then
            { u with restartHow := some .PTRACE_SYSCALL }.translateSyscall p input.handler
              input.regs
          else u
        some ((Tracee.detectSeccomp g t).1, { entered with
          restartHow := some .PTRACE_SYSCALL }, 0)
      else
        some ((Tracee.detectSeccomp g t).1,
          u.enterAtSeccompEvent p (Tracee.detectSeccomp g t).1 input, 0) := by
  have hsysenter : u.isInSysenter = true := by
    simp [Flags.isInSysenter, hstatus]
  subst hu
  simp only [Tracee.handleSeccomp, hsysenter, Bool.not_true, Bool.and_false, Bool.false_eq_true,
    if_false]

/-- A system call is translated at its seccomp stop, which asked for the exit stop. -/
theorem translateSyscall_asked (p : Platform) (input : Input) {u : Tracee}
    (hasked : Chosen order g { u with restartHow := some .PTRACE_SYSCALL }) (hstatus : u.status = 0)
    (hdisable : .disableSeccomp ∉ input.handler.actions) :
    let u' := Tracee.translateSyscall p input.handler input.regs
      { u with restartHow := some .PTRACE_SYSCALL }
    u'.restartHow = some .PTRACE_SYSCALL ∧ Chosen order g u' ∧ u'.Balanced ∧
      u'.stages = u.stages ++ [.enter] ∧
      u'.seccompAlreadyHandledEnter = u.seccompAlreadyHandledEnter ∧
      (u'.waitsForPtracee = true → MayWait u input) := by
  have hframe := Tracee.frame_translateSyscall p input.handler input.regs
    { u with restartHow := some .PTRACE_SYSCALL }
  have hentered := Tracee.translateSyscall_enter p (t := { u with
    restartHow := some .PTRACE_SYSCALL }) input.handler input.regs hstatus
  have hasks := Tracee.asks_translateSyscall p input.handler input.regs
    { u with restartHow := some .PTRACE_SYSCALL }
  refine ⟨hasks.elim id And.left, hasked.framed hframe hasks fun _ => hdisable, ?_, ?_,
    hframe.seccompAlreadyHandledEnter, hframe.waitsForPtracee⟩
  · rw [hentered]
    exact (Tracee.balanced_enterStage p input.handler _).of_eq rfl rfl
  · rw [hentered]

/-- Before the ptrace stop, what is chosen is found to be right. -/
theorem detectSeccomp_before (h : Chosen order g t) (hstatus : t.status = 0)
    (hnew : order = .new → t.seccomp = .ENABLED) :
    ∃ g' seccomp, Tracee.detectSeccomp g t = (g', { t with seccomp }) ∧
      Chosen order g' { t with seccomp, skipNextSeccompSignal := false } ∧
      g'.seccompAfterPtraceEnter = decide (order = .new) ∧ g'.seccompDetected = true ∧
      (order = .new → seccomp = .ENABLED) := by
  have hright : g.seccompDetected = false → (t.status = 0 ↔ order = .old) := by
    intro hnot
    cases hor : order with
    | old => simp [hstatus]
    | new =>
        have hyes := h.enabled (hnew hor)
        rw [hnot] at hyes
        cases hyes
  obtain ⟨hdetected, hafter, hyes, hsame⟩ := chosen_detectSeccomp h hright
  refine ⟨_, _, Prod.ext rfl hsame, ?_, hafter, hyes, ?_⟩
  · rw [hsame] at hdetected
    exact ⟨⟨hdetected.exe, hdetected.detected, hdetected.enabled, hdetected.disabling⟩,
      hdetected.how, hdetected.disabled⟩
  · intro hor
    rw [Tracee.detectSeccomp]
    split
    · exact hnew hor
    · rfl

/-- A seccomp event before the enter stop, in the two orders. -/
theorem handleSeccomp_before (hp : Numbers p) (h : Chosen order g t) (hstatus : t.status = 0)
    (halready : t.seccompAlreadyHandledEnter = false)
    (hnew : order = .new → t.seccomp = .ENABLED) (flags : Word) {necessary : Bool}
    (hnecessary : necessary = false → t.sysexitPending = false ∧ t.chain.syscalls = none)
    (hdisable : .disableSeccomp ∉ input.handler.actions)
    (hfits : order = .old → NumberFits p input) :
    ∃ g' t', t.handleSeccomp p g input flags necessary = some (g', t', 0) ∧
      Chosen order g' t' ∧ g'.seccompDetected = true ∧
      (t'.waitsForPtracee = true → MayWait t input) ∧
      ((order = .old ∧ t'.stages = t.stages ∧ t'.status = 0 ∧
          t'.restartHow = some .PTRACE_SYSCALL ∧ t'.seccompAlreadyHandledEnter = false) ∨
        (t'.stages = t.stages ++ [.enter] ∧ t'.Balanced ∧
          (order = .new → t'.seccompAlreadyHandledEnter = false) ∧
          (order = .old → t'.seccompAlreadyHandledEnter =
            (t'.restartHow = some .PTRACE_SYSCALL && !negative (numberEntered p input t'))))) := by
  obtain ⟨g', seccomp, hdetect, hchosen, hafter, hyes, henabled⟩ :=
    detectSeccomp_before h hstatus hnew
  obtain ⟨u, hu⟩ : ∃ u : Tracee, u = { t with seccomp, skipNextSeccompSignal := false } := ⟨_, rfl⟩
  -- nothing but the acceleration has changed before
  have hkept : u.stages = t.stages ∧ u.seccompAlreadyHandledEnter = false ∧
      u.chain = t.chain ∧ u.sysexitPending = t.sysexitPending ∧
      u.waitsForPtracee = t.waitsForPtracee ∧ u.status = 0 := by
    rw [hu]
    exact ⟨rfl, halready, rfl, rfl, rfl, hstatus⟩
  obtain ⟨hstages, hskip, hchain, hpending, hwaits, hustatus⟩ := hkept
  rw [handleSeccomp_sysenter p input flags necessary (by rw [hdetect]; exact hu) hustatus, hdetect]
  rw [← hu] at hchosen
  replace henabled : order = .new → u.seccomp = .ENABLED := by
    rw [hu]
    exact henabled
  have hmay : u.waitsForPtracee = true → MayWait t input := fun hw => .inl (hwaits ▸ hw)
  split
  · rename_i hne
    have hor : order = .old := by
      cases hor : order with
      | old => rfl
      | new => exact absurd (henabled hor) hne
    have hdisabled : u.seccomp = .DISABLED := by
      cases hs : u.seccomp with
      | DISABLED => rfl
      | ENABLED => exact absurd hs hne
      | DISABLING => exact absurd hs hchosen.disabling
    exact ⟨g', u, rfl, hchosen, hyes, hmay,
      .inl ⟨hor, hstages, hustatus, hchosen.disabled hdisabled, hskip⟩⟩
  · rename_i hseccomp
    have hseccomp : u.seccomp = .ENABLED := by simpa using hseccomp
    split
    · rw [hafter]
      have hasked : Chosen order g' { u with restartHow := some .PTRACE_SYSCALL } :=
        ⟨⟨hchosen.exe, hchosen.detected, hchosen.enabled, hchosen.disabling⟩, .inl rfl,
          fun _ => rfl⟩
      cases hor : order with
      | old =>
          subst hor
          exact ⟨g', _, rfl, hasked, hyes, hmay, .inl ⟨rfl, hstages, hustatus, rfl, hskip⟩⟩
      | new =>
          subst hor
          obtain ⟨hhow, hchosen', hbalanced, hstage, hdone, hwait⟩ :=
            translateSyscall_asked p input hasked hustatus hdisable
          refine ⟨g', _, rfl, hchosen'.same ⟨rfl, rfl, hhow.symm, rfl, rfl, rfl, rfl⟩, hyes, ?_,
            .inr ⟨?_, hbalanced.of_eq rfl hhow.symm, fun _ => hdone.trans hskip, nofun⟩⟩
          · exact fun hw => (hwait hw).imp_left fun hold => hwaits ▸ hold
          · simp only [if_true, decide_true]
            exact hstage.trans (by rw [hstages])
    · rename_i hcond
      have hnone : necessary = false := by
        cases necessary with
        | false => rfl
        | true => simp at hcond
      obtain ⟨hno, hnil⟩ := hnecessary hnone
      obtain ⟨u', hu', hevent, hchosen', hbalanced, hstage, hwait⟩ :=
        enterAtSeccompEvent_spec p input hchosen.toSteady hseccomp hafter hustatus
          (hpending.trans hno) hskip hdisable
      have hentered := Tracee.translateSyscall_enter p (t := { u with
        restartHow := some .PTRACE_CONT }) input.handler input.regs hustatus
      rw [hevent]
      refine ⟨g', _, rfl, ?_, hyes, ?_, .inr ⟨hstage.trans (by rw [hstages]),
        hbalanced.of_eq rfl rfl, ?_, ?_⟩⟩
      · exact ⟨⟨hchosen'.exe, hchosen'.detected, hchosen'.enabled, hchosen'.disabling⟩,
          hchosen'.how, hchosen'.disabled⟩
      · intro hw
        exact (hwait hw).imp_left (fun hold => hwaits ▸ hold)
      · intro hor
        simp [hor]
      · intro hor
        have hvoided := voidedSyscallCancelled_enterStage hp (hfits hor)
          (t := { u with restartHow := some .PTRACE_CONT }) (by rw [hchain]; exact hnil)
        have hflag : u'.voidedSyscallCancelled = negative (numberEntered p input u') := by
          rw [hu', hentered]
          exact hvoided
        show _ = (decide (u'.restartHow = some .PTRACE_SYSCALL) &&
          !negative (numberEntered p input u'))
        rw [← hflag]
        simp [hor]

/-! ## The other stops -/

/-- A system call that was blocked in the middle gets its exit stage. -/
theorem leaveBlocked_spec (h : Chosen order g t)
    (hfits : t.seccomp = .ENABLED → t.status ≠ 0 → .disableSeccomp ∉ input.handler.actions) :
    Chosen order g (t.leaveBlocked p input) ∧ (t.leaveBlocked p input).status = 0 ∧
      (t.leaveBlocked p input).seccompAlreadyHandledEnter = false ∧
      (t.leaveBlocked p input).stages = t.stages ++ (if t.status = 0 then [] else [.exit]) ∧
      (t.leaveBlocked p input).seccomp = t.seccomp := by
  obtain ⟨reset, hreset⟩ : ∃ reset : Tracee,
    reset = { t with seccompAlreadyHandledEnter := false } := ⟨_, rfl⟩
  have hleave : t.leaveBlocked p input = if reset.isInSysenter then reset
      else { reset.translateSyscall p input.handler input.regs with
        restoreSysarg1AfterSigsys := true } := by
    subst hreset
    rfl
  have hchosen : Chosen order g reset := by
    subst hreset
    exact ⟨⟨h.exe, h.detected, h.enabled, h.disabling⟩, h.how, h.disabled⟩
  have hkept : reset.status = t.status ∧ reset.seccompAlreadyHandledEnter = false ∧
      reset.stages = t.stages ∧ reset.seccomp = t.seccomp := by
    subst hreset
    exact ⟨rfl, rfl, rfl, rfl⟩
  obtain ⟨hstatus, hskip, hstages, hseccomp⟩ := hkept
  rw [hleave]
  rcases eq_or_ne t.status 0 with hzero | hne
  · have hsysenter : reset.isInSysenter = true := by
      simp [Flags.isInSysenter, hstatus, hzero]
    rw [if_pos hsysenter, if_pos hzero, List.append_nil]
    exact ⟨hchosen, hstatus.trans hzero, hskip, hstages, hseccomp⟩
  · have hnot : reset.status ≠ 0 := hstatus ▸ hne
    have hsysexit : ¬ reset.isInSysenter = true := by
      simp [Flags.isInSysenter, hnot]
    have hframe := Tracee.frame_translateSyscall p input.handler input.regs reset
    have hexited := Tracee.translateSyscall_exit p input.handler input.regs hnot
    have hframed := hchosen.framed hframe
      (Tracee.asks_translateSyscall p input.handler input.regs _)
      (fun hs => hfits (hseccomp ▸ hs) hne)
    have hsame : (reset.translateSyscall p input.handler input.regs).seccomp = t.seccomp := by
      rcases hframe.seccomp with hs | ⟨hs, -, hmem⟩
      · exact hs.trans hseccomp
      · exact absurd hmem (hfits (hseccomp ▸ hs) hne)
    rw [if_neg hsysexit, if_neg hne]
    refine ⟨hframed.same ⟨rfl, rfl, rfl, rfl, rfl, rfl, rfl⟩, ?_,
      hframe.seccompAlreadyHandledEnter.trans hskip, ?_, hsame⟩
    · rw [hexited]
      exact Tracee.status_exitStage p input.handler _
    · rw [hexited, hstages]

/-- After the signal of a filter the tracee is outside of system calls. -/
theorem handleSigsys_spec (h : Chosen order g t) (avoider : Bool)
    (hfits : t.seccomp = .ENABLED →
      (t.status ≠ 0 → .disableSeccomp ∉ input.handler.actions) ∧
        .disableSeccomp ∉ input.sigsysActions) :
    Chosen order g (t.handleSigsys p input avoider) ∧
      (t.handleSigsys p input avoider).status = 0 ∧
      (t.handleSigsys p input avoider).seccompAlreadyHandledEnter = false ∧
      (t.handleSigsys p input avoider).stages =
        t.stages ++ (if t.status = 0 then [] else [.exit]) := by
  obtain ⟨hchosen, hstatus, hskip, hstages, hseccomp⟩ :=
    leaveBlocked_spec p input h (fun hs => (hfits hs).1)
  simp only [Tracee.handleSigsys]
  generalize Tracee.leaveBlocked p input t = left at *
  split
  · exact ⟨⟨⟨hchosen.exe, hchosen.detected, hchosen.enabled, hchosen.disabling⟩,
      hchosen.how, hchosen.disabled⟩, hstatus, hskip, hstages⟩
  · have hflags := Tracee.toFlags_fetchBlocked p left input
    have hfetched : Chosen order g (left.fetchBlocked p input) := by
      refine ⟨⟨?_, hchosen.detected, ?_, ?_⟩, ?_, ?_⟩ <;> rw [hflags]
      · exact hchosen.exe
      · exact hchosen.enabled
      · exact hchosen.disabling
      · exact hchosen.how
      · exact hchosen.disabled
    have hframe := Tracee.frame_performAll p (left.fetchBlocked p input) input.sigsysActions
    refine ⟨hfetched.framed hframe (Tracee.asks_performAll p _ _) ?_, ?_, ?_, ?_⟩
    · intro hs
      rw [hflags] at hs
      exact (hfits (hseccomp ▸ hs)).2
    · exact Tracee.status_performAll p (by rw [hflags]) _
    · rw [hframe.seccompAlreadyHandledEnter, hflags]
      exact hskip
    · rw [Tracee.stages_performAll, hflags]
      exact hstages

end Loop

end Kernel

end Improot.Event
