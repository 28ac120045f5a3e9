import Improot.Event.Pairing

/-!
# Runs with paired stages

The invariant of the runs: in each phase of the kernel the status of the tracee says whether the
system call was entered, and the tracee is restarted so that the exit stop is reported for exactly
those system calls.
-/

namespace Improot.Event

namespace Kernel

open Improot.Lib

/-! ## What is claimed -/

/-- The stages that were run for the last system call: the enter stage before it is executed, unless
the enter stop is still to come, the enter stage if it is traced and executed, and no more than the
two of them after. -/
def Paired (s : State) : Prop :=
  match s.phase with
  | .check => s.tracee.stages = [.enter]
  | .recheck => s.tracee.stages = [.enter]
  | .entry _ => s.tracee.stages <+: [.enter]
  | .running => s.tracee.stages = if s.traced then [.enter] else []
  | .trapped false => s.tracee.stages = if s.traced then [.enter] else []
  | _ => s.tracee.stages <+: [.enter, .exit]

/-! ## When the stages stay paired -/

def Fits (p : Platform) (s : State) : Move → Prop
  | .enterStop input => .waitForPtracee ∉ input.handler.actions
  | .seccompStop _ input => s.tracee.status = 0 →
      .waitForPtracee ∉ input.handler.actions ∧ .disableSeccomp ∉ input.handler.actions ∧
        (s.order = .old → NumberFits p input)
  | .sigsysStop _ input => s.tracee.seccomp = .ENABLED →
      (s.tracee.status ≠ 0 → .disableSeccomp ∉ input.handler.actions) ∧
        .disableSeccomp ∉ input.sigsysActions
  | .eventStop fork => fork = true → s.tracee.seccomp = .ENABLED →
      (s.tracee.sysexitNecessary = true ↔ s.tracee.status ≠ 0)
  | _ => True

/-! ## The invariant -/

structure Between (s : State) : Prop where
  steady : Steady s.order s.globals s.tracee
  how : s.how = .PTRACE_SYSCALL ∨ s.how = .PTRACE_CONT
  disabled : s.tracee.seccomp = .DISABLED → s.how = .PTRACE_SYSCALL
  restart : s.tracee.restartHow = if s.stopped then some s.how else none
  last : s.stopped = false → s.tracee.lastRestartHow = some s.how ∨
    (s.tracee.lastRestartHow = none ∧ s.how = .PTRACE_SYSCALL)
  waits : s.tracee.waitsForPtracee = s.stopped

structure Outside (t : Tracee) : Prop where
  status : t.status = 0
  already : t.seccompAlreadyHandledEnter = false
  stages : t.stages <+: [.enter, .exit]

/-- The enter stage was run, and the exit stop is reported when the status says so. -/
structure Entered (s : State) : Prop where
  stopped : s.stopped = false
  traced : s.traced = true
  stages : s.tracee.stages = [.enter]
  already : s.tracee.seccompAlreadyHandledEnter = false
  status : s.tracee.status = 0 ↔ s.how = .PTRACE_CONT
  last : s.tracee.lastRestartHow = some s.how

structure Untraced (s : State) : Prop where
  stopped : s.stopped = false
  traced : s.traced = false
  stages : s.tracee.stages = []
  already : s.tracee.seccompAlreadyHandledEnter = false
  status : s.tracee.status = 0

/-- The seccomp event came before the enter stop, which is left to run the enter stage or has to be
skipped. -/
structure EntryLeft (s : State) (cancelled : Bool) : Prop where
  order : s.order = .old
  detected : s.globals.seccompDetected = true
  stopped : s.stopped = false
  traced : s.traced = true
  last : s.tracee.lastRestartHow = some s.how
  cases : (s.tracee.stages = [.enter] ∧ (s.tracee.status = 0 ↔ s.how = .PTRACE_CONT) ∧
      s.tracee.seccompAlreadyHandledEnter = (decide (s.how = .PTRACE_SYSCALL) && !cancelled)) ∨
    (s.tracee.stages = [] ∧ s.tracee.status = 0 ∧ s.how = .PTRACE_SYSCALL ∧
      s.tracee.seccompAlreadyHandledEnter = false ∧ cancelled = false)

def Phased (s : State) : Prop :=
  match s.phase with
  | .user => Outside s.tracee
  | .trapped true => Outside s.tracee
  | .check => s.order = .new ∧ Entered s ∧ s.how = .PTRACE_SYSCALL
  | .recheck => s.order = .new ∧ Entered s
  | .entry cancelled => EntryLeft s cancelled
  | .running => Entered s ∨ (Untraced s ∧ s.how = .PTRACE_CONT)
  | .trapped false => Entered s ∨ Untraced s
  | .gone => s.tracee.stages <+: [.enter, .exit]

structure Inv (s : State) : Prop where
  between : Between s
  phased : Phased s

variable {stop : Stop} {input : Input} {s' : State}

section Handle

variable {p : Platform} {s : State}

/-- The tracee `t'` and the globals `g'` that a stop leaves: the tracee was restarted, or put to
wait. -/
structure Restarted (p : Platform) (input : Input) (s : State) (g' : Globals) (t' : Tracee)
    (s' : State) : Prop where
  between : Between s'
  globals : s'.globals = g'
  order : s'.order = s.order
  traced : s'.traced = s.traced
  phase : s'.phase = s.phase.afterEvent (negative (numberAfter p input t'))
  stopped : s'.stopped = t'.waitsForPtracee
  how : t'.restartHow = some s'.how
  status : s'.tracee.status = t'.status
  already : s'.tracee.seccompAlreadyHandledEnter = t'.seccompAlreadyHandledEnter
  stages : s'.tracee.stages = t'.stages
  last : s'.stopped = false → s'.tracee.lastRestartHow = some s'.how

variable {g' : Globals} {t' : Tracee} {phase : Phase}

/-- An event that is handled restarts the tracee as the handler has chosen. -/
theorem handle_spec {signal : Int}
    (hhandled : s.tracee.handleTraceeEvent p s.globals stop input = some (g', t', signal))
    (hsignal : 0 ≤ signal) (hchosen : Chosen s.order g' t') :
    ∃ s', handle p s stop input = some s' ∧ Restarted p input s g' t' s' := by
  obtain ⟨how, hhow⟩ : ∃ how, t'.restartHow = some how := by
    rcases hchosen.how with h | h
    · exact ⟨_, h⟩
    · exact ⟨_, h⟩
  have hmode : how = .PTRACE_SYSCALL ∨ how = .PTRACE_CONT := by
    rcases hchosen.how with h | h
    · exact .inl (by simpa [hhow] using h)
    · exact .inr (by simpa [hhow] using h)
  have hdisabled : t'.seccomp = .DISABLED → how = .PTRACE_SYSCALL := by
    intro hd
    simpa [hhow] using hchosen.disabled hd
  have hkill : signal ≠ -1 := by omega
  cases hwaits : t'.waitsForPtracee with
  | true =>
      have hrestart : t'.restartTracee signal = some (t', false) := by
        simp [Tracee.restartTracee, hwaits]
      refine ⟨{ s with
        phase := s.phase.afterEvent (negative (numberAfter p input t'))
        how := how, stopped := true, globals := g', tracee := t' }, ?_, ?_⟩
      · simp [handle, hhandled, hrestart, hhow]
      · refine ⟨⟨hchosen.toSteady, hmode, hdisabled, hhow, nofun, hwaits⟩, rfl, rfl, rfl, rfl,
          hwaits.symm, hhow, rfl, rfl, rfl, nofun⟩
  | false =>
      have hrestart : t'.restartTracee signal =
          some ({ t' with lastRestartHow := t'.restartHow, restartHow := none }, true) := by
        simp [Tracee.restartTracee, hwaits, hkill, hhow]
      refine ⟨{ s with
        phase := s.phase.afterEvent (negative (numberAfter p input t'))
        how := how, stopped := false, globals := g'
        tracee := { t' with lastRestartHow := t'.restartHow, restartHow := none } }, ?_, ?_⟩
      · simp [handle, hhandled, hrestart, hhow]
      · exact ⟨⟨⟨hchosen.exe, hchosen.detected, hchosen.enabled, hchosen.disabling⟩, hmode,
          hdisabled, rfl, fun _ => .inl hhow, hwaits⟩, rfl, rfl, rfl, rfl, hwaits.symm, hhow, rfl, rfl,
          rfl, fun _ => hhow⟩

theorem Between.chosen (h : Between s) (hstopped : s.stopped = false) :
    Chosen s.order s.globals s.tracee.chooseRestart :=
  chosen_chooseRestart h.steady (by simpa [hstopped] using h.restart)

theorem handleTraceeEvent_syscallStop (input : Input) (t : Tracee) :
    t.handleTraceeEvent p s.globals s.syscallStop input =
      t.chooseRestart.handleSyscall p { s.globals with deliverSigtrap := true } input := by
  rw [State.syscallStop]
  cases hd : s.globals.deliverSigtrap with
  | true =>
      have hsame : { s.globals with deliverSigtrap := true } = s.globals := by
        rw [← hd]
      rw [hsame]
      rfl
  | false => simp [Tracee.handleTraceeEvent, hd]

theorem Chosen.options {order : Order} {g : Globals} {t : Tracee} (h : Chosen order g t)
    (deliverSigtrap : Bool) : Chosen order { g with deliverSigtrap := deliverSigtrap } t :=
  ⟨⟨h.exe, h.detected, h.enabled, h.disabling⟩, h.how, h.disabled⟩

theorem Between.begin (h : Between s) (phase : Phase) (traced : Bool) :
    Between (s.begin phase traced) :=
  ⟨⟨h.steady.exe, h.steady.detected, h.steady.enabled, h.steady.disabling⟩, h.how, h.disabled,
    h.restart, h.last, h.waits⟩

theorem Between.goOn (h : Between s) (phase : Phase) : Between (s.goOn phase) :=
  ⟨h.steady, h.how, h.disabled, h.restart, h.last, h.waits⟩

theorem Restarted.running {input : Input} {g' : Globals} {t t' : Tracee} {s' : State}
    (h : Restarted p input s g' t' s') (hwaits : t'.waitsForPtracee = true → MayWait t input)
    (hold : t.waitsForPtracee = false) (hfits : .waitForPtracee ∉ input.handler.actions) :
    s'.stopped = false := by
  rw [h.stopped]
  cases hw : t'.waitsForPtracee with
  | false => rfl
  | true =>
      rcases hwaits hw with hyes | hmem
      · rw [hold] at hyes
        cases hyes
      · exact absurd hmem hfits

theorem Restarted.how_eq {how : Restart}
    (h : Restarted p input s g' t' s') (hhow : t'.restartHow = some how) : s'.how = how := by
  have hsame := h.how
  rw [hhow] at hsame
  exact (Option.some.inj hsame).symm

theorem Restarted.balanced (h : Restarted p input s g' t' s') (hbalanced : t'.Balanced) :
    t'.status = 0 ↔ s'.how = .PTRACE_CONT := by
  rw [Tracee.Balanced, h.how, Option.some.injEq] at hbalanced
  exact hbalanced

theorem Restarted.phase_eq (h : Restarted p input s g' t' s') (hphase : s.phase = phase)
    (hknown : ∀ cancelled, phase ≠ .entry cancelled) : s'.phase = phase := by
  rw [h.phase, hphase]
  cases phase with
  | entry cancelled => exact absurd rfl (hknown cancelled)
  | _ => rfl

/-! ## Syscall stops -/

theorem enterStop_stage (input : Input) (h : Between s) (hstopped : s.stopped = false)
    (hfits : .waitForPtracee ∉ input.handler.actions) (htraced : s.traced = true)
    (hstages : s.tracee.stages = []) (hstatus : s.tracee.status = 0)
    (halready : s.tracee.seccompAlreadyHandledEnter = false)
    (hphase : s.phase = phase) (hknown : ∀ cancelled, phase ≠ .entry cancelled) :
    ∃ s', handle p s s.syscallStop input = some s' ∧ Between s' ∧ s'.order = s.order ∧
      s'.phase = phase ∧ Entered s' ∧ s'.how = .PTRACE_SYSCALL := by
  obtain ⟨t', signal, hsome, hsignal, hchosen, hne, hhow, halready', hstage, hwaits⟩ :=
    handleSyscall_enter p input ((h.chosen hstopped).options true) hstatus halready
  obtain ⟨s', hs', hrestarted⟩ := handle_spec
    ((handleTraceeEvent_syscallStop input s.tracee).trans hsome) hsignal hchosen
  have hrunning := hrestarted.running hwaits (h.waits.trans hstopped) hfits
  have hs := hrestarted.how_eq hhow
  refine ⟨s', hs', hrestarted.between, hrestarted.order, hrestarted.phase_eq hphase hknown,
    ⟨hrunning, hrestarted.traced.trans htraced, ?_, hrestarted.already.trans halready', ?_,
      hrestarted.last hrunning⟩, hs⟩
  · rw [hrestarted.stages, hstage]
    show s.tracee.stages ++ [.enter] = [.enter]
    rw [hstages, List.nil_append]
  · rw [hrestarted.status, hs]
    simp [hne]

theorem enterStop_skip (input : Input) (h : Between s) (hstopped : s.stopped = false)
    (hafter : s.globals.seccompAfterPtraceEnter = false) (htraced : s.traced = true)
    (hstages : s.tracee.stages = [.enter]) (hstatus : s.tracee.status ≠ 0)
    (halready : s.tracee.seccompAlreadyHandledEnter = true)
    (hphase : s.phase = phase) (hknown : ∀ cancelled, phase ≠ .entry cancelled) :
    ∃ s', handle p s s.syscallStop input = some s' ∧ Between s' ∧ s'.order = s.order ∧
      s'.phase = phase ∧ Entered s' := by
  obtain ⟨t', hsome, hchosen, hne, hhow, halready', hstage, hwaits⟩ :=
    handleSyscall_skip p input ((h.chosen hstopped).options true) hstatus halready hafter
  obtain ⟨s', hs', hrestarted⟩ := handle_spec
    ((handleTraceeEvent_syscallStop input s.tracee).trans hsome) (le_refl 0) hchosen
  have hrunning : s'.stopped = false :=
    hrestarted.stopped.trans (hwaits.trans (h.waits.trans hstopped))
  have hs := hrestarted.how_eq hhow
  refine ⟨s', hs', hrestarted.between, hrestarted.order, hrestarted.phase_eq hphase hknown,
    ⟨hrunning, hrestarted.traced.trans htraced, ?_, hrestarted.already.trans halready', ?_,
      hrestarted.last hrunning⟩⟩
  · rw [hrestarted.stages, hstage]
    exact hstages
  · rw [hrestarted.status, hs]
    simp [hne]

theorem exitStop_stage (input : Input) (h : Between s) (hstopped : s.stopped = false)
    (hstages : s.tracee.stages = [.enter]) (hstatus : s.tracee.status ≠ 0)
    (halready : s.tracee.seccompAlreadyHandledEnter = false)
    (hphase : s.phase = phase) (hknown : ∀ cancelled, phase ≠ .entry cancelled) :
    ∃ s', handle p s s.syscallStop input = some s' ∧ Between s' ∧ s'.phase = phase ∧
      Outside s'.tracee ∧ s'.tracee.stages = [.enter, .exit] := by
  obtain ⟨t', signal, hsome, hsignal, hchosen, hzero, halready', hstage⟩ :=
    handleSyscall_exit p input ((h.chosen hstopped).options true) hstatus halready
  obtain ⟨s', hs', hrestarted⟩ := handle_spec
    ((handleTraceeEvent_syscallStop input s.tracee).trans hsome) hsignal hchosen
  have hboth : s'.tracee.stages = [.enter, .exit] := by
    rw [hrestarted.stages, hstage]
    show s.tracee.stages ++ [.exit] = _
    rw [hstages]
    rfl
  refine ⟨s', hs', hrestarted.between, hrestarted.phase_eq hphase hknown,
    ⟨hrestarted.status.trans hzero, hrestarted.already.trans halready', ?_⟩, hboth⟩
  rw [hboth]

end Handle

/-! ## The moves -/

section Moves

variable {p : Platform} {s : State}

theorem Entered.status_ne (h : Entered s) (hhow : s.how = .PTRACE_SYSCALL) :
    s.tracee.status ≠ 0 := by
  intro hzero
  have hcont := h.status.mp hzero
  rw [hhow] at hcont
  cases hcont

variable {m : Move}

theorem step_of_report {s₁ : State} (h : report s m = some (s₁, some (stop, input))) :
    step p s m = handle p s₁ stop input := by
  cases m with
  | wake status => simp [report] at h
  | _ => simp only [step, h, Option.bind_some]

theorem step_of_silent {s₁ : State} (h : report s m = some (s₁, none)) :
    step p s m = some s₁ := by
  cases m with
  | wake status => simp [report] at h
  | _ => simp only [step, h, Option.bind_some]

theorem running_of_isSome {α : Type} {o : Option α}
    (h : (if s.stopped then none else o).isSome) : s.stopped = false := by
  split at h
  · cases h
  · rename_i hcond
    simpa using hcond

theorem traced_of_isSome {α : Type} {o : Option α}
    (h : (if s.stopped || s.how ≠ .PTRACE_SYSCALL then none else o).isSome) :
    s.stopped = false ∧ s.how = .PTRACE_SYSCALL := by
  split at h
  · cases h
  · rename_i hcond
    simpa using hcond

/-- An enter stop runs the enter stage. -/
theorem inv_enterStop (hinv : Inv s) (hfits : Fits p s (.enterStop input))
    (hallowed : Allowed s (.enterStop input)) :
    ∃ s', step p s (.enterStop input) = some s' ∧ Inv s' ∧ s'.tracee.stages = [.enter] := by
  have hbetween := hinv.between
  have hphased := hinv.phased
  obtain ⟨hstopped, hhow⟩ := traced_of_isSome hallowed
  unfold Phased at hphased
  cases hphase : s.phase with
  | user =>
      rw [hphase] at hphased
      cases horder : s.order with
      | new =>
          have hreport : report s (.enterStop input) =
              some (s.begin .check true, some (s.syscallStop, input)) := by
            simp [report, hstopped, hhow, hphase, horder]
          obtain ⟨s', hs', hbetween', horder', hphase', hentered, hsyscall⟩ :=
            enterStop_stage (p := p) input (hbetween.begin .check true) hstopped hfits rfl rfl
              hphased.status hphased.already rfl nofun
          refine ⟨s', (step_of_report hreport).trans hs', ⟨hbetween', ?_⟩, hentered.stages⟩
          unfold Phased
          rw [hphase']
          exact ⟨horder'.trans horder, hentered, hsyscall⟩
      | old =>
          have hreport : report s (.enterStop input) =
              some (s.begin .running true, some (s.syscallStop, input)) := by
            simp [report, hstopped, hhow, hphase, horder]
          obtain ⟨s', hs', hbetween', -, hphase', hentered, -⟩ :=
            enterStop_stage (p := p) input (hbetween.begin .running true) hstopped hfits rfl rfl
              hphased.status hphased.already rfl nofun
          refine ⟨s', (step_of_report hreport).trans hs', ⟨hbetween', ?_⟩, hentered.stages⟩
          unfold Phased
          rw [hphase']
          exact .inl hentered
  | entry cancelled =>
      rw [hphase] at hphased
      cases cancelled with
      | true => simp [Allowed, report, hstopped, hhow, hphase] at hallowed
      | false =>
          have hreport : report s (.enterStop input) =
              some (s.goOn .running, some (s.syscallStop, input)) := by
            simp [report, hstopped, hhow, hphase]
          have hafter : s.globals.seccompAfterPtraceEnter = false := by
            rw [hbetween.steady.detected hphased.detected, hphased.order]
            rfl
          have hentered : ∃ s', handle p (s.goOn .running) s.syscallStop input = some s' ∧
              Between s' ∧ s'.phase = .running ∧ Entered s' := by
            rcases hphased.cases with ⟨hstages, hstatus, halready⟩ |
              ⟨hstages, hstatus, -, halready, -⟩
            · have hne : s.tracee.status ≠ 0 := by
                intro hzero
                have hcont := hstatus.mp hzero
                rw [hhow] at hcont
                cases hcont
              obtain ⟨s', hs', hbetween', -, hphase', hentered⟩ :=
                enterStop_skip (p := p) input (hbetween.goOn .running) hstopped hafter
                  hphased.traced hstages hne (halready.trans (by simp [hhow])) rfl nofun
              exact ⟨s', hs', hbetween', hphase', hentered⟩
            · obtain ⟨s', hs', hbetween', -, hphase', hentered, -⟩ :=
                enterStop_stage (p := p) input (hbetween.goOn .running) hstopped hfits
                  hphased.traced hstages hstatus halready rfl nofun
              exact ⟨s', hs', hbetween', hphase', hentered⟩
          obtain ⟨s', hs', hbetween', hphase', hentered⟩ := hentered
          refine ⟨s', (step_of_report hreport).trans hs', ⟨hbetween', ?_⟩, hentered.stages⟩
          unfold Phased
          rw [hphase']
          exact .inl hentered
  | _ => simp [Allowed, report, hstopped, hhow, hphase] at hallowed

/-- An exit stop runs the exit stage after the enter stage. -/
theorem inv_exitStop (hinv : Inv s) (hallowed : Allowed s (.exitStop input)) :
    ∃ s', step p s (.exitStop input) = some s' ∧ Inv s' ∧
      s'.tracee.stages = [.enter, .exit] := by
  have hbetween := hinv.between
  have hphased := hinv.phased
  obtain ⟨hstopped, hhow⟩ := traced_of_isSome hallowed
  unfold Phased at hphased
  cases hphase : s.phase with
  | running =>
      rw [hphase] at hphased
      have hentered : Entered s := by
        refine hphased.resolve_right ?_
        rintro ⟨-, hcont⟩
        rw [hhow] at hcont
        cases hcont
      have hreport : report s (.exitStop input) =
          some (s.goOn .user, some (s.syscallStop, input)) := by
        simp [report, hstopped, hhow, hphase]
      obtain ⟨s', hs', hbetween', hphase', houtside, hboth⟩ :=
        exitStop_stage (p := p) input (hbetween.goOn .user) hstopped hentered.stages
          (hentered.status_ne hhow) hentered.already rfl nofun
      refine ⟨s', (step_of_report hreport).trans hs', ⟨hbetween', ?_⟩, hboth⟩
      unfold Phased
      rw [hphase']
      exact houtside
  | trapped exited =>
      rw [hphase] at hphased
      cases exited with
      | true => simp [Allowed, report, hstopped, hhow, hphase] at hallowed
      | false =>
          have htraced : s.traced = true := by
            simpa [Allowed, report, hstopped, hhow, hphase] using hallowed
          have hentered : Entered s := by
            refine hphased.resolve_right ?_
            intro huntraced
            rw [huntraced.traced] at htraced
            cases htraced
          have hreport : report s (.exitStop input) =
              some (s.goOn (.trapped true), some (s.syscallStop, input)) := by
            simp [report, hstopped, hhow, hphase, htraced]
          obtain ⟨s', hs', hbetween', hphase', houtside, hboth⟩ :=
            exitStop_stage (p := p) input (hbetween.goOn (.trapped true)) hstopped
              hentered.stages (hentered.status_ne hhow) hentered.already rfl nofun
          refine ⟨s', (step_of_report hreport).trans hs', ⟨hbetween', ?_⟩, hboth⟩
          unfold Phased
          rw [hphase']
          exact houtside
  | _ => simp [Allowed, report, hstopped, hhow, hphase] at hallowed

/-! ### Seccomp events -/

/-- A seccomp event that comes before the enter stage. -/
theorem seccompStop_before (hp : Numbers p) (flags : Word) (h : Between s)
    (hstopped : s.stopped = false) (hstages : s.tracee.stages = [])
    (hstatus : s.tracee.status = 0) (halready : s.tracee.seccompAlreadyHandledEnter = false)
    (hnew : s.order = .new → s.tracee.seccomp = .ENABLED)
    (hwait : .waitForPtracee ∉ input.handler.actions)
    (hdisable : .disableSeccomp ∉ input.handler.actions)
    (hfits : s.order = .old → NumberFits p input) :
    ∃ g' t' s', handle p s (.seccompEvent flags) input = some s' ∧
      Restarted p input s g' t' s' ∧ g'.seccompDetected = true ∧ s'.stopped = false ∧
      ((s.order = .old ∧ t'.stages = [] ∧ t'.status = 0 ∧
          t'.restartHow = some .PTRACE_SYSCALL ∧ t'.seccompAlreadyHandledEnter = false) ∨
        (t'.stages = [.enter] ∧ t'.Balanced ∧
          (s.order = .new → t'.seccompAlreadyHandledEnter = false) ∧
          (s.order = .old → t'.seccompAlreadyHandledEnter =
            (t'.restartHow = some .PTRACE_SYSCALL &&
              !negative (numberEntered p input t'))))) := by
  have hnecessary : s.tracee.sysexitNecessary = false →
      s.tracee.sysexitPending = false ∧ s.tracee.chain.syscalls = none := by
    intro hno
    simp only [Flags.sysexitNecessary, Bool.or_eq_false_iff, Option.isSome_eq_false_iff,
      Option.isNone_iff_eq_none] at hno
    exact hno.1
  obtain ⟨g', t', hsome, hchosen, hdetected, hwaits, hcases⟩ :=
    handleSeccomp_before p input hp (h.chosen hstopped) hstatus halready hnew flags
      hnecessary hdisable hfits
  obtain ⟨s', hs', hrestarted⟩ := handle_spec
    (show s.tracee.handleTraceeEvent p s.globals (.seccompEvent flags) input =
      some (g', t', 0) from hsome) (le_refl 0) hchosen
  refine ⟨g', t', s', hs', hrestarted, hdetected,
    hrestarted.running hwaits (h.waits.trans hstopped) hwait, ?_⟩
  have hnil : s.tracee.chooseRestart.stages = [] := hstages
  rw [hnil, List.nil_append] at hcases
  exact hcases

/-- A seccomp event keeps the invariant, in both orders. -/
theorem inv_seccompStop (hp : Numbers p) {flags : Word} (hinv : Inv s)
    (hfits : Fits p s (.seccompStop flags input))
    (hallowed : Allowed s (.seccompStop flags input)) :
    ∃ s', step p s (.seccompStop flags input) = some s' ∧ Inv s' := by
  have hbetween := hinv.between
  have hphased := hinv.phased
  have hstopped := running_of_isSome hallowed
  unfold Phased at hphased
  cases hphase : s.phase with
  | user =>
      rw [hphase] at hphased
      obtain ⟨hwait, hdisable, hnumber⟩ := hfits hphased.status
      cases horder : s.order with
      | old =>
          have hreport : report s (.seccompStop flags input) =
              some (s.begin (.entry false) true, some (.seccompEvent flags, input)) := by
            simp [report, hstopped, hphase, horder]
          obtain ⟨g', t', s', hs', hrestarted, hdetected, hrunning, hcases⟩ :=
            seccompStop_before hp flags (hbetween.begin (.entry false) true) hstopped rfl
              hphased.status hphased.already (fun hnew => by
                rw [State.begin, horder] at hnew
                cases hnew) hwait hdisable (fun _ => hnumber horder)
          refine ⟨s', (step_of_report hreport).trans hs', hrestarted.between, ?_⟩
          unfold Phased
          rw [hrestarted.phase]
          refine ⟨hrestarted.order.trans horder, by rw [hrestarted.globals]; exact hdetected,
            hrunning, hrestarted.traced, hrestarted.last hrunning, ?_⟩
          rw [hrestarted.stages, hrestarted.status, hrestarted.already]
          rcases hcases with ⟨-, hstages, hstatus, hhow, halready⟩ |
            ⟨hstages, hbalanced, -, halready⟩
          · refine .inr ⟨hstages, hstatus, hrestarted.how_eq hhow, halready, ?_⟩
            rw [numberAfter, if_pos hstages]
            exact (hnumber horder).number
          · refine .inl ⟨hstages, hrestarted.balanced hbalanced, ?_⟩
            rw [halready horder, numberAfter, if_neg (by simp [hstages]), hrestarted.how]
            simp
      | new =>
          have hcont : s.how = .PTRACE_CONT := by
            refine hbetween.how.resolve_left ?_
            intro hsyscall
            simp [Allowed, report, hstopped, hphase, horder, hsyscall] at hallowed
          have henabled : s.tracee.seccomp = .ENABLED := by
            cases hs : s.tracee.seccomp with
            | ENABLED => rfl
            | DISABLED =>
                have hsyscall := hbetween.disabled hs
                rw [hcont] at hsyscall
                cases hsyscall
            | DISABLING => exact absurd hs hbetween.steady.disabling
          have hreport : report s (.seccompStop flags input) =
              some (s.begin .recheck true, some (.seccompEvent flags, input)) := by
            simp [report, hstopped, hphase, horder, hcont]
          obtain ⟨g', t', s', hs', hrestarted, -, hrunning, hcases⟩ :=
            seccompStop_before hp flags (hbetween.begin .recheck true) hstopped rfl
              hphased.status hphased.already (fun _ => henabled) hwait hdisable
              (fun hold => by
                rw [State.begin, horder] at hold
                cases hold)
          refine ⟨s', (step_of_report hreport).trans hs', hrestarted.between, ?_⟩
          unfold Phased
          rw [hrestarted.phase]
          rcases hcases with ⟨hold, -⟩ | ⟨hstages, hbalanced, halready, -⟩
          · rw [State.begin, horder] at hold
            cases hold
          · exact ⟨hrestarted.order.trans horder, hrunning, hrestarted.traced,
              hrestarted.stages.trans hstages, hrestarted.already.trans (halready horder),
              by rw [hrestarted.status]; exact hrestarted.balanced hbalanced,
              hrestarted.last hrunning⟩
  | check =>
      rw [hphase] at hphased
      obtain ⟨horder, hentered, hhow⟩ := hphased
      have hreport : report s (.seccompStop flags input) =
          some (s.goOn .recheck, some (.seccompEvent flags, input)) := by
        simp [report, hstopped, hphase]
      have hne := hentered.status_ne hhow
      obtain ⟨g', t', hsome, hchosen, hstatus, hrestart, halready, hstages, hwaits⟩ :=
        handleSeccomp_after p input (hbetween.chosen hstopped) horder hne
          (hentered.last.trans (by rw [hhow])) flags s.tracee.sysexitNecessary
      obtain ⟨s', hs', hrestarted⟩ := handle_spec (s := s.goOn .recheck)
        (show s.tracee.handleTraceeEvent p s.globals (.seccompEvent flags) input =
          some (g', t', 0) from hsome) (le_refl 0) hchosen
      have hrunning : s'.stopped = false :=
        hrestarted.stopped.trans (hwaits.trans (hbetween.waits.trans hstopped))
      refine ⟨s', (step_of_report hreport).trans hs', hrestarted.between, ?_⟩
      unfold Phased
      rw [hrestarted.phase]
      refine ⟨hrestarted.order.trans horder, hrunning, hrestarted.traced.trans hentered.traced,
        hrestarted.stages.trans (hstages.trans hentered.stages),
        hrestarted.already.trans (halready.trans hentered.already), ?_, hrestarted.last hrunning⟩
      rw [hrestarted.status, hstatus, hrestarted.how_eq hrestart]
      exact ⟨fun hzero => absurd hzero hne, nofun⟩
  | _ => simp [Allowed, report, hstopped, hphase] at hallowed

/-! ### Signals and events -/

/-- The signal of a filter keeps the invariant. -/
theorem inv_sigsysStop {avoider : Bool} (hinv : Inv s)
    (hfits : Fits p s (.sigsysStop avoider input))
    (hallowed : Allowed s (.sigsysStop avoider input)) :
    ∃ s', step p s (.sigsysStop avoider input) = some s' ∧ Inv s' := by
  have hbetween := hinv.between
  have hphased := hinv.phased
  have hstopped := running_of_isSome hallowed
  unfold Phased at hphased
  cases hphase : s.phase with
  | trapped exited =>
      rw [hphase] at hphased
      have hreport : report s (.sigsysStop avoider input) =
          some (s.goOn .user, some (.sigsys true avoider, input)) := by
        simp [report, hstopped, hphase]
      obtain ⟨hchosen, hstatus, halready, hstages⟩ :=
        handleSigsys_spec p input (hbetween.chosen hstopped) avoider hfits
      obtain ⟨s', hs', hrestarted⟩ := handle_spec (s := s.goOn .user)
        (show s.tracee.handleTraceeEvent p s.globals (.sigsys true avoider) input =
          some (s.globals, s.tracee.chooseRestart.handleSigsys p input avoider, 0) from rfl)
        (le_refl 0) hchosen
      refine ⟨s', (step_of_report hreport).trans hs', hrestarted.between, ?_⟩
      unfold Phased
      rw [hrestarted.phase]
      refine ⟨hrestarted.status.trans hstatus, hrestarted.already.trans halready, ?_⟩
      rw [hrestarted.stages, hstages]
      show s.tracee.stages ++ (if s.tracee.status = 0 then [] else [.exit]) <+: [.enter, .exit]
      cases exited with
      | true =>
          have houtside : Outside s.tracee := hphased
          rw [if_pos houtside.status, List.append_nil]
          exact houtside.stages
      | false =>
          rcases hphased with hentered | huntraced
          · rw [hentered.stages]
            split <;> decide
          · rw [huntraced.stages, if_pos huntraced.status]
            decide
  | _ => simp [Allowed, report, hstopped, hphase] at hallowed

/-- How the tracee is restarted after an event that the event loop leaves to the default, or to
what was chosen last. -/
theorem eventStop_running {fork : Bool} (hinv : Inv s) (hfits : Fits p s (.eventStop fork))
    (hstopped : s.stopped = false) (hphase : s.phase = .running) :
    ∃ t', s.tracee.handleTraceeEvent p s.globals (if fork then .forkEvent else .otherEvent)
        noInput = some (s.globals, t', 0) ∧ Chosen s.order s.globals t' ∧
      t'.restartHow = some s.how ∧ t'.status = s.tracee.status ∧
      t'.seccompAlreadyHandledEnter = s.tracee.seccompAlreadyHandledEnter ∧
      t'.stages = s.tracee.stages ∧ t'.waitsForPtracee = s.tracee.waitsForPtracee := by
  have hbetween := hinv.between
  have hphased := hinv.phased
  unfold Phased at hphased
  rw [hphase] at hphased
  have hstatus : s.tracee.status = 0 ↔ s.how = .PTRACE_CONT := by
    rcases hphased with hentered | ⟨huntraced, hcont⟩
    · exact hentered.status
    · simp [huntraced.status, hcont]
  have hnone : s.tracee.restartHow = none := by
    simpa [hstopped] using hbetween.restart
  cases fork with
  | true =>
      refine ⟨s.tracee.chooseRestart, rfl, hbetween.chosen hstopped, ?_, rfl, rfl, rfl, rfl⟩
      simp only [Tracee.chooseRestart, hnone]
      cases hs : s.tracee.seccomp with
      | ENABLED =>
          have hnecessary := hfits rfl hs
          rcases hbetween.how with hhow | hhow
          · have hyes : s.tracee.sysexitNecessary = true := by
              refine hnecessary.mpr ?_
              intro hzero
              rw [hhow] at hstatus
              cases hstatus.mp hzero
            simp [hyes, hhow]
          · have hno : s.tracee.sysexitNecessary = false := by
              cases hn : s.tracee.sysexitNecessary with
              | false => rfl
              | true => exact absurd (hstatus.mpr hhow) (hnecessary.mp hn)
            simp [hno, hhow]
      | DISABLED => simp [hbetween.disabled hs]
      | DISABLING => exact absurd hs hbetween.steady.disabling
  | false =>
      have hlast : s.tracee.lastRestartHow = some s.how := by
        rcases hphased with hentered | ⟨-, hcont⟩
        · exact hentered.last
        · refine (hbetween.last hstopped).resolve_right ?_
          rintro ⟨-, hsyscall⟩
          rw [hcont] at hsyscall
          cases hsyscall
      refine ⟨{ s.tracee with restartHow := some s.how }, ?_, ?_, rfl, rfl, rfl, rfl, rfl⟩
      · simp [Tracee.handleTraceeEvent, Tracee.chooseRestart, hlast]
      · exact ⟨⟨hbetween.steady.exe, hbetween.steady.detected, hbetween.steady.enabled,
          hbetween.steady.disabling⟩, by simpa using hbetween.how,
          fun hd => by simpa using hbetween.disabled hd⟩

/-- An event of the system call keeps the invariant, with a new child or not. -/
theorem inv_eventStop {fork : Bool} (hinv : Inv s) (hfits : Fits p s (.eventStop fork))
    (hallowed : Allowed s (.eventStop fork)) :
    ∃ s', step p s (.eventStop fork) = some s' ∧ Inv s' := by
  have hphased := hinv.phased
  have hstopped := running_of_isSome hallowed
  unfold Phased at hphased
  cases hphase : s.phase with
  | running =>
      rw [hphase] at hphased
      have hreport : report s (.eventStop fork) =
          some (s, some (if fork then .forkEvent else .otherEvent, noInput)) := by
        simp [report, hstopped, hphase]
      obtain ⟨t', hsome, hchosen, hhow, hstatus, halready, hstages, hwaits⟩ :=
        eventStop_running hinv hfits hstopped hphase
      obtain ⟨s', hs', hrestarted⟩ := handle_spec hsome (le_refl 0) hchosen
      have hrunning : s'.stopped = false :=
        hrestarted.stopped.trans (hwaits.trans (hinv.between.waits.trans hstopped))
      have hsame := hrestarted.how_eq hhow
      refine ⟨s', (step_of_report hreport).trans hs', hrestarted.between, ?_⟩
      unfold Phased
      rw [hrestarted.phase_eq hphase nofun]
      refine hphased.imp ?_ ?_
      · intro hentered
        refine ⟨hrunning, hrestarted.traced.trans hentered.traced,
          hrestarted.stages.trans (hstages.trans hentered.stages),
          hrestarted.already.trans (halready.trans hentered.already), ?_,
          hrestarted.last hrunning⟩
        rw [hrestarted.status, hstatus, hsame]
        exact hentered.status
      · rintro ⟨huntraced, hcont⟩
        exact ⟨⟨hrunning, hrestarted.traced.trans huntraced.traced,
          hrestarted.stages.trans (hstages.trans huntraced.stages),
          hrestarted.already.trans (halready.trans huntraced.already),
          hrestarted.status.trans (hstatus.trans huntraced.status)⟩, hsame.trans hcont⟩
  | _ => simp [Allowed, report, hstopped, hphase] at hallowed

theorem handleSigstop_exe {t : Tracee} (hexe : t.exe = true) :
    t.handleSigstop =
      if t.sigstop = .SIGSTOP_IGNORED then ({ t with sigstop := .SIGSTOP_ALLOWED }, 0)
      else (t, SIGSTOP) := by
  simp [Tracee.handleSigstop, hexe]

/-- A stop outside of system calls runs no stage. -/
theorem userStop_user (hinv : Inv s) (hstopped : s.stopped = false)
    (hstop : outside s.globals stop = true) :
    ∃ t' signal, s.tracee.handleTraceeEvent p s.globals stop noInput =
        some (s.globals, t', signal) ∧ 0 ≤ signal ∧ Chosen s.order s.globals t' ∧
      t'.status = s.tracee.status ∧
      t'.seccompAlreadyHandledEnter = s.tracee.seccompAlreadyHandledEnter ∧
      t'.stages = s.tracee.stages := by
  have hbetween := hinv.between
  have hchosen := hbetween.chosen hstopped
  cases stop with
  | signal number =>
      refine ⟨_, _, rfl, ?_, ?_⟩
      · rw [Tracee.handleSignal]
        split
        · exact le_refl 0
        · exact Int.natCast_nonneg number
      · rw [Tracee.handleSignal]
        split
        · exact ⟨hchosen.same ⟨rfl, rfl, rfl, rfl, rfl, rfl, rfl⟩, rfl, rfl, rfl⟩
        · exact ⟨hchosen, rfl, rfl, rfl⟩
  | sigstop =>
      refine ⟨_, _, rfl, ?_, ?_⟩
      · rw [handleSigstop_exe hchosen.exe]
        split
        · exact le_refl 0
        · exact Int.natCast_nonneg 19
      · rw [handleSigstop_exe hchosen.exe]
        split
        · exact ⟨hchosen.same ⟨rfl, rfl, rfl, rfl, rfl, rfl, rfl⟩, rfl, rfl, rfl⟩
        · exact ⟨hchosen, rfl, rfl, rfl⟩
  | sigsys seccomp avoider =>
      have hnot : seccomp = false := by simpa [outside] using hstop
      refine ⟨s.tracee.chooseRestart, SIGSYS, ?_, by decide, hchosen, rfl, rfl, rfl⟩
      simp [Tracee.handleTraceeEvent, hnot]
  | sigtrap =>
      have hdeliver : s.globals.deliverSigtrap = true := hstop
      refine ⟨s.tracee.chooseRestart, SIGTRAP, ?_, by decide, hchosen, rfl, rfl, rfl⟩
      simp [Tracee.handleTraceeEvent, hdeliver]
  | otherEvent =>
      refine ⟨_, 0, rfl, le_refl 0, ?_, rfl, rfl, rfl⟩
      rcases hbetween.last hstopped with hlast | ⟨hnone, -⟩
      · refine ⟨⟨hchosen.exe, hchosen.detected, hchosen.enabled, hchosen.disabling⟩, ?_, ?_⟩
        · simpa [Tracee.chooseRestart, hlast] using hbetween.how
        · simpa [Tracee.chooseRestart, hlast] using hbetween.disabled
      · refine hchosen.same ⟨rfl, rfl, ?_, rfl, rfl, rfl, rfl⟩
        simp [Tracee.chooseRestart, hnone]
  | _ => simp [outside] at hstop

theorem inv_userStop (hinv : Inv s) (hallowed : Allowed s (.userStop stop)) :
    ∃ s', step p s (.userStop stop) = some s' ∧ Inv s' := by
  have hphased := hinv.phased
  obtain ⟨hstopped, hphase, hstop⟩ : s.stopped = false ∧ s.phase = .user ∧
      outside s.globals stop = true := by
    simp only [Allowed, report] at hallowed
    split at hallowed
    · cases hallowed
    · rename_i hrunning
      split at hallowed
      · rename_i hcond
        simp_all
      · cases hallowed
  have hreport : report s (.userStop stop) = some (s, some (stop, noInput)) := by
    simp [report, hstopped, hphase, hstop]
  obtain ⟨t', signal, hsome, hsignal, hchosen, hstatus, halready, hstages⟩ :=
    userStop_user (p := p) hinv hstopped hstop
  obtain ⟨s', hs', hrestarted⟩ := handle_spec hsome hsignal hchosen
  refine ⟨s', (step_of_report hreport).trans hs', hrestarted.between, ?_⟩
  unfold Phased at hphased ⊢
  rw [hphase] at hphased
  rw [hrestarted.phase_eq hphase nofun]
  exact ⟨hrestarted.status.trans (hstatus.trans hphased.status),
    hrestarted.already.trans (halready.trans hphased.already), by
      rw [hrestarted.stages, hstages]
      exact hphased.stages⟩

/-! ### Without a stop -/

theorem Phased.stages (h : Phased s) : s.tracee.stages <+: [.enter, .exit] := by
  have henter : [Stage.enter] <+: [.enter, .exit] := by decide
  unfold Phased at h
  split at h
  · exact h.stages
  · exact Outside.stages h
  · rw [h.2.1.stages]
    exact henter
  · rw [h.2.stages]
    exact henter
  · rcases h.cases with ⟨hstages, -⟩ | ⟨hstages, -⟩
    · rw [hstages]
      exact henter
    · rw [hstages]
      exact List.nil_prefix
  · rcases h with hentered | ⟨huntraced, -⟩
    · rw [hentered.stages]
      exact henter
    · rw [huntraced.stages]
      exact List.nil_prefix
  · rcases h with hentered | huntraced
    · rw [hentered.stages]
      exact henter
    · rw [huntraced.stages]
      exact List.nil_prefix
  · exact h

theorem Entered.goOn (h : Entered s) (phase : Phase) : Entered (s.goOn phase) :=
  ⟨h.stopped, h.traced, h.stages, h.already, h.status, h.last⟩

theorem Outside.begin (h : Outside s.tracee) (hstopped : s.stopped = false) (phase : Phase) :
    Untraced (s.begin phase false) :=
  ⟨hstopped, rfl, rfl, h.already, h.status⟩

theorem inv_terminate (hinv : Inv s) :
    ∃ s', step p s .terminate = some s' ∧ Inv s' :=
  ⟨_, step_of_silent rfl, hinv.between.goOn .gone, hinv.phased.stages⟩

/-- The first seccomp event of another tracee keeps the invariant. -/
theorem inv_detect (hinv : Inv s) (hallowed : Allowed s .detect) :
    ∃ s', step p s .detect = some s' ∧ Inv s' := by
  have hbetween := hinv.between
  have hphased := hinv.phased
  have hnot : s.globals.seccompDetected = false := by
    simp only [Allowed, report] at hallowed
    split at hallowed
    · cases hallowed
    · rename_i hnot
      simpa using hnot
  have hreport : report s .detect = some ({ s with globals := { s.globals with
      seccompDetected := true
      seccompAfterPtraceEnter := decide (s.order = .new) } }, none) := by
    simp [report, hnot]
  refine ⟨_, step_of_silent hreport, ⟨⟨hbetween.steady.exe, fun _ => rfl, fun _ => rfl,
    hbetween.steady.disabling⟩, hbetween.how, hbetween.disabled, hbetween.restart,
    hbetween.last, hbetween.waits⟩, ?_⟩
  unfold Phased at hphased ⊢
  cases hphase : s.phase with
  | check =>
      rw [hphase] at hphased
      obtain ⟨horder, h, hhow⟩ := hphased
      exact ⟨horder, ⟨h.stopped, h.traced, h.stages, h.already, h.status, h.last⟩, hhow⟩
  | recheck =>
      rw [hphase] at hphased
      obtain ⟨horder, h⟩ := hphased
      exact ⟨horder, h.stopped, h.traced, h.stages, h.already, h.status, h.last⟩
  | entry cancelled =>
      rw [hphase] at hphased
      have hyes := hphased.detected
      rw [hnot] at hyes
      cases hyes
  | running =>
      rw [hphase] at hphased
      refine hphased.imp ?_ ?_
      · intro h
        exact ⟨h.stopped, h.traced, h.stages, h.already, h.status, h.last⟩
      · rintro ⟨h, hhow⟩
        exact ⟨⟨h.stopped, h.traced, h.stages, h.already, h.status⟩, hhow⟩
  | trapped exited =>
      rw [hphase] at hphased
      cases exited with
      | true => exact hphased
      | false =>
          refine hphased.imp ?_ ?_
          · intro h
            exact ⟨h.stopped, h.traced, h.stages, h.already, h.status, h.last⟩
          · intro h
            exact ⟨h.stopped, h.traced, h.stages, h.already, h.status⟩
  | _ =>
      rw [hphase] at hphased
      exact hphased

theorem inv_start (hinv : Inv s) (hallowed : Allowed s .start) :
    ∃ s', step p s .start = some s' ∧ Inv s' := by
  have hphased := hinv.phased
  obtain ⟨hstopped, hphase, hhow⟩ : s.stopped = false ∧ s.phase = .user ∧
      s.how ≠ .PTRACE_SYSCALL := by
    simp only [Allowed, report] at hallowed
    split at hallowed
    · cases hallowed
    · rename_i hcond
      simpa [and_assoc] using hcond
  have hreport : report s .start = some (s.begin .running false, none) := by
    simp [report, hstopped, hphase, hhow]
  unfold Phased at hphased
  rw [hphase] at hphased
  exact ⟨_, step_of_silent hreport, hinv.between.begin .running false,
    .inr ⟨hphased.begin hstopped .running, hinv.between.how.resolve_left hhow⟩⟩

theorem inv_trap (hinv : Inv s) (hallowed : Allowed s .trap) :
    ∃ s', step p s .trap = some s' ∧ Inv s' := by
  have hphased := hinv.phased
  have hstopped := running_of_isSome hallowed
  unfold Phased at hphased
  cases hphase : s.phase with
  | user =>
      rw [hphase] at hphased
      have hreport : report s .trap = some (s.begin (.trapped false) false, none) := by
        cases horder : s.order with
        | old => simp [report, hstopped, hphase, horder]
        | new =>
            have hhow : s.how ≠ .PTRACE_SYSCALL := by
              intro hsyscall
              simp [Allowed, report, hstopped, hphase, horder, hsyscall] at hallowed
            simp [report, hstopped, hphase, horder, hhow]
      exact ⟨_, step_of_silent hreport, hinv.between.begin (.trapped false) false,
        .inr (hphased.begin hstopped (.trapped false))⟩
  | check =>
      rw [hphase] at hphased
      have hreport : report s .trap = some (s.goOn (.trapped false), none) := by
        simp [report, hstopped, hphase]
      exact ⟨_, step_of_silent hreport, hinv.between.goOn (.trapped false),
        .inl (hphased.2.1.goOn _)⟩
  | recheck =>
      rw [hphase] at hphased
      have hreport : report s .trap = some (s.goOn (.trapped false), none) := by
        simp [report, hstopped, hphase]
      exact ⟨_, step_of_silent hreport, hinv.between.goOn (.trapped false),
        .inl (hphased.2.goOn _)⟩
  | _ => simp [Allowed, report, hstopped, hphase] at hallowed

/-- A system call that goes on without a stop keeps the invariant. -/
theorem inv_proceed (hinv : Inv s) (hallowed : Allowed s .proceed) :
    ∃ s', step p s .proceed = some s' ∧ Inv s' := by
  have hphased := hinv.phased
  have hstopped := running_of_isSome hallowed
  unfold Phased at hphased
  cases hphase : s.phase with
  | check =>
      rw [hphase] at hphased
      have hreport : report s .proceed = some (s.goOn .running, none) := by
        simp [report, hstopped, hphase]
      exact ⟨_, step_of_silent hreport, hinv.between.goOn .running, .inl (hphased.2.1.goOn _)⟩
  | recheck =>
      rw [hphase] at hphased
      have hreport : report s .proceed = some (s.goOn .running, none) := by
        simp [report, hstopped, hphase]
      exact ⟨_, step_of_silent hreport, hinv.between.goOn .running, .inl (hphased.2.goOn _)⟩
  | entry cancelled =>
      rw [hphase] at hphased
      have hleft : cancelled = true ∨ s.how ≠ .PTRACE_SYSCALL := by
        refine Classical.byContradiction fun hno => ?_
        simp only [not_or, not_not, Bool.not_eq_true] at hno
        simp [Allowed, report, hstopped, hphase, hno.1, hno.2] at hallowed
      have hreport : report s .proceed = some (s.goOn .running, none) := by
        rcases hleft with hcancelled | hhow
        · simp [report, hstopped, hphase, hcancelled]
        · simp [report, hstopped, hphase, hhow]
      have hentered : Entered (s.goOn .running) := by
        rcases hphased.cases with ⟨hstages, hstatus, halready⟩ | ⟨-, -, hhow, -, hcancelled⟩
        · refine ⟨hstopped, hphased.traced, hstages, halready.trans ?_, hstatus, hphased.last⟩
          rcases hleft with hcancelled | hhow
          · simp [hcancelled]
          · simp [hhow]
        · rcases hleft with hyes | hne
          · rw [hcancelled] at hyes
            cases hyes
          · exact absurd hhow hne
      exact ⟨_, step_of_silent hreport, hinv.between.goOn .running, .inl hentered⟩
  | running =>
      rw [hphase] at hphased
      have hhow : s.how ≠ .PTRACE_SYSCALL := by
        intro hsyscall
        simp [Allowed, report, hstopped, hphase, hsyscall] at hallowed
      have hreport : report s .proceed = some (s.goOn .user, none) := by
        simp [report, hstopped, hphase, hhow]
      have hcont := hinv.between.how.resolve_left hhow
      refine ⟨_, step_of_silent hreport, hinv.between.goOn .user, ?_⟩
      rcases hphased with hentered | ⟨huntraced, -⟩
      · exact ⟨hentered.status.mpr hcont, hentered.already, by
          rw [State.goOn, hentered.stages]
          decide⟩
      · exact ⟨huntraced.status, huntraced.already, by
          rw [State.goOn, huntraced.stages]
          decide⟩
  | _ => simp [Allowed, report, hstopped, hphase] at hallowed

/-! ### Waits -/

theorem nextSyscall_kept (t : Tracee) :
    (t.nextSyscall p).status = t.status ∧ (t.nextSyscall p).stages = t.stages := by
  rw [Tracee.nextSyscall]
  split
  · rename_i syscalls _
    cases syscalls with
    | nil =>
        simp only [Tracee.chainNextSyscall]
        split <;> simp
    | cons syscall syscalls => simp [Tracee.chainNextSyscall]
  · exact ⟨rfl, rfl⟩

variable (p) in
def answer (status : WaitStatus) (t : Tracee) : Tracee :=
  match status with
  | .restarted => (t.restartOriginalSyscall p).nextSyscall p
  | .result value => t.pokeReg p .SYSARG_RESULT value

theorem answer_kept (status : WaitStatus) (t : Tracee) :
    Tracee.Frame [] t (answer p status t) ∧ Tracee.Asks t (answer p status t) ∧
      (answer p status t).status = t.status ∧ (answer p status t).stages = t.stages := by
  cases status with
  | restarted =>
      have hframe : Tracee.Frame [] t (t.restartOriginalSyscall p) := by
        apply Tracee.Frame.of_toFlags <;> rfl
      have hasks : Tracee.Asks t (t.restartOriginalSyscall p) := .of_eq rfl rfl
      obtain ⟨hstatus, hstages⟩ := nextSyscall_kept (p := p) (t.restartOriginalSyscall p)
      exact ⟨hframe.trans (Tracee.frame_nextSyscall p _),
        hasks.trans (Tracee.asks_nextSyscall p _), hstatus, hstages⟩
  | result value =>
      refine ⟨?_, .of_eq ?_ ?_, ?_, ?_⟩
      · apply Tracee.Frame.of_toFlags <;> simp [answer]
      all_goals simp [answer]

/-- A tracee that waits is restarted the way that was chosen when it was put to wait, or for the
next system call. -/
theorem wake_spec {order : Order} {g : Globals} {t : Tracee} (h : Chosen order g t)
    (status : WaitStatus) :
    ∃ u : Tracee, t.wake p status =
        some ({ u with lastRestartHow := u.restartHow, restartHow := none }, true) ∧
      Chosen order g u ∧ u.status = t.status ∧
      u.seccompAlreadyHandledEnter = t.seccompAlreadyHandledEnter ∧ u.stages = t.stages ∧
      u.waitsForPtracee = false := by
  obtain ⟨hframe, hasks, hstatus, hstages⟩ := answer_kept (p := p) status t
  obtain ⟨u, hu⟩ : ∃ u : Tracee, u = { ((answer p status t).pushSpecificRegs p true false).1 with
    waitsForPtracee := false } := ⟨_, rfl⟩
  have hpushed := Tracee.toFlags_pushSpecificRegs p (answer p status t) true false
  have hwake : t.wake p status = u.restartTracee 0 := by
    subst hu
    cases status <;> rfl
  have hchosen : Chosen order g u := by
    have hanswer := h.framed hframe hasks (fun _ => List.not_mem_nil)
    refine ⟨⟨?_, h.detected, ?_, ?_⟩, ?_, ?_⟩
    all_goals subst hu; simp only [hpushed]
    · exact hanswer.exe
    · exact hanswer.enabled
    · exact hanswer.disabling
    · exact hanswer.how
    · exact hanswer.disabled
  obtain ⟨how, hhow⟩ : ∃ how, u.restartHow = some how := by
    rcases hchosen.how with hs | hs
    · exact ⟨_, hs⟩
    · exact ⟨_, hs⟩
  have hwaits : u.waitsForPtracee = false := by rw [hu]
  refine ⟨u, ?_, hchosen, ?_, ?_, ?_, hwaits⟩
  · rw [hwake]
    simp [Tracee.restartTracee, hwaits, hhow]
  all_goals subst hu; simp only [hpushed]
  · exact hstatus
  · exact hframe.seccompAlreadyHandledEnter
  · exact hstages

theorem phased_stopped (hinv : Inv s) (hstopped : s.stopped = true) :
    s.phase = .gone ∨ (Outside s.tracee ∧ (s.phase = .user ∨ s.phase = .trapped true)) := by
  have hphased := hinv.phased
  have hno : ∀ {P : Prop}, s.stopped = false → P := by
    intro P hrunning
    rw [hrunning] at hstopped
    cases hstopped
  unfold Phased at hphased
  cases hphase : s.phase with
  | user =>
      rw [hphase] at hphased
      exact .inr ⟨hphased, .inl rfl⟩
  | check =>
      rw [hphase] at hphased
      exact hno hphased.2.1.stopped
  | recheck =>
      rw [hphase] at hphased
      exact hno hphased.2.stopped
  | entry cancelled =>
      rw [hphase] at hphased
      exact hno hphased.stopped
  | running =>
      rw [hphase] at hphased
      exact hphased.elim (fun h => hno h.stopped) (fun h => hno h.1.stopped)
  | trapped exited =>
      rw [hphase] at hphased
      cases exited with
      | true => exact .inr ⟨hphased, .inr rfl⟩
      | false => exact hphased.elim (fun h => hno h.stopped) (fun h => hno h.stopped)
  | gone => exact .inl rfl

/-- A wait that ends keeps the invariant, whether the tracee waits again or not. -/
theorem inv_wake {status : WaitStatus} (hinv : Inv s) (hallowed : Allowed s (.wake status)) :
    ∃ s', step p s (.wake status) = some s' ∧ Inv s' := by
  obtain ⟨hstopped, hwaits⟩ := hallowed
  have hbetween := hinv.between
  have hrestart : s.tracee.restartHow = some s.how := by
    simpa [hstopped] using hbetween.restart
  have hchosen : Chosen s.order s.globals s.tracee :=
    ⟨hbetween.steady, by simpa [hrestart] using hbetween.how,
      fun hd => hrestart.trans (congrArg some (hbetween.disabled hd))⟩
  obtain ⟨u, hwake, huchosen, hstatus, halready, hstages, hidle⟩ :=
    wake_spec (p := p) hchosen status
  obtain ⟨how, hhow⟩ : ∃ how, u.restartHow = some how := by
    rcases huchosen.how with h | h
    · exact ⟨_, h⟩
    · exact ⟨_, h⟩
  obtain ⟨s', hs'⟩ : ∃ s' : State, s' = { s with
      how := how, stopped := false
      tracee := { u with lastRestartHow := u.restartHow, restartHow := none } } := ⟨_, rfl⟩
  have hstep : step p s (.wake status) = some s' := by
    simp [step, hstopped, hwaits, hwake, hhow, hs']
  refine ⟨s', hstep, ?_, ?_⟩
  · subst hs'
    refine ⟨⟨huchosen.exe, huchosen.detected, huchosen.enabled, huchosen.disabling⟩, ?_, ?_, rfl,
      fun _ => .inl hhow, hidle⟩
    · simpa [hhow] using huchosen.how
    · intro hd
      simpa [hhow] using huchosen.disabled hd
  · subst hs'
    unfold Phased
    have houtside : Outside s.tracee → Outside
        { u with lastRestartHow := u.restartHow, restartHow := none } := fun h =>
      ⟨hstatus.trans h.status, halready.trans h.already, by
        simp only [hstages]
        exact h.stages⟩
    rcases phased_stopped hinv hstopped with hgone | ⟨hout, huser | htrapped⟩
    · simp only [hgone, hstages]
      exact hinv.phased.stages
    · simp only [huser]
      exact houtside hout
    · simp only [htrapped]
      exact houtside hout

/-! ## Runs -/

theorem allowed_of_step (h : step p s m = some s') : Allowed s m := by
  cases m with
  | wake status =>
      simp only [step, Option.ite_none_right_eq_some, Bool.and_eq_true] at h
      exact h.1
  | _ =>
      simp only [step, Option.bind_eq_some_iff] at h
      obtain ⟨reported, hreported, -⟩ := h
      simp [Allowed, hreported]

theorem inv_step (hp : Numbers p) (hinv : Inv s) (hfits : Fits p s m)
    (hallowed : Allowed s m) : ∃ s', step p s m = some s' ∧ Inv s' := by
  cases m with
  | enterStop input =>
      obtain ⟨s', hs', hinv', -⟩ := inv_enterStop hinv hfits hallowed
      exact ⟨s', hs', hinv'⟩
  | seccompStop flags input => exact inv_seccompStop hp hinv hfits hallowed
  | exitStop input =>
      obtain ⟨s', hs', hinv', -⟩ := inv_exitStop hinv hallowed
      exact ⟨s', hs', hinv'⟩
  | sigsysStop avoider input => exact inv_sigsysStop hinv hfits hallowed
  | eventStop fork => exact inv_eventStop hinv hfits hallowed
  | userStop stop => exact inv_userStop hinv hallowed
  | start => exact inv_start hinv hallowed
  | trap => exact inv_trap hinv hallowed
  | proceed => exact inv_proceed hinv hallowed
  | terminate => exact inv_terminate hinv
  | wake status => exact inv_wake hinv hallowed
  | detect => exact inv_detect hinv hallowed

theorem inv_init (h : (system p).init s) : Inv s := by
  obtain ⟨hphase, hhow, hstopped, hdetected, seccomp, sysexitPending, sigstop, last, hflags,
    hdisabling, henabled, hlast⟩ := h
  refine ⟨⟨⟨?_, hdetected, ?_, ?_⟩, .inl hhow, fun _ => hhow, ?_, ?_, ?_⟩, ?_⟩
  · rw [hflags]
  · rw [hflags]
    exact henabled
  · rw [hflags]
    exact hdisabling
  · rw [hflags, hstopped]
    rfl
  · intro _
    rw [hflags, hhow]
    exact hlast.symm.imp_right (fun hnone => ⟨hnone, rfl⟩)
  · rw [hflags, hstopped]
    rfl
  · unfold Phased
    rw [hphase]
    refine ⟨?_, ?_, ?_⟩ <;> rw [hflags] <;> simp [Flags.new]

theorem inv_of_reach (hp : Numbers p) (h : (system p).Reach (Fits p) s) : Inv s := by
  refine Lib.System.Reach.invariant ?_ ?_ h
  · intro s hinit
    exact inv_init hinit
  · intro s m s' hinv hfits hstep
    obtain ⟨s'', hs'', hinv'⟩ := inv_step hp hinv hfits (allowed_of_step hstep)
    have hsame : s'' = s' := Option.some.inj (hs''.symm.trans hstep)
    exact hsame ▸ hinv'

theorem Phased.paired (h : Phased s) : Paired s := by
  have hsuffix := h.stages
  unfold Phased at h
  unfold Paired
  cases hphase : s.phase with
  | check =>
      rw [hphase] at h
      exact h.2.1.stages
  | recheck =>
      rw [hphase] at h
      exact h.2.stages
  | entry cancelled =>
      rw [hphase] at h
      rcases h.cases with ⟨hstages, -⟩ | ⟨hstages, -⟩
      · rw [hstages]
      · rw [hstages]
        exact List.nil_prefix
  | running =>
      rw [hphase] at h
      rcases h with hentered | ⟨huntraced, -⟩
      · simp [hentered.traced, hentered.stages]
      · simp [huntraced.traced, huntraced.stages]
  | trapped exited =>
      rw [hphase] at h
      cases exited with
      | true => exact hsuffix
      | false =>
          rcases h with hentered | huntraced
          · simp [hentered.traced, hentered.stages]
          · simp [huntraced.traced, huntraced.stages]
  | _ => exact hsuffix

/-- **Stages stay paired.** In a run whose steps all fit, no assertion of the event loop fails, an
enter stop leaves the enter stage run once, and an exit stop runs the exit stage after it. -/
theorem stages_stay_paired (thumb : Bool) (mode : Mode)
    (h : (system (mode.platform thumb)).Reach (Fits (mode.platform thumb)) s) :
    Paired s ∧
      (∀ m, Fits (mode.platform thumb) s m → Allowed s m →
        (step (mode.platform thumb) s m).isSome) ∧
      (∀ input s', Fits (mode.platform thumb) s (.enterStop input) →
        step (mode.platform thumb) s (.enterStop input) = some s' → s'.tracee.stages = [.enter]) ∧
      ∀ input s', step (mode.platform thumb) s (.exitStop input) = some s' →
        s'.tracee.stages = [.enter, .exit] := by
  have hp := numbers_platform thumb mode
  have hinv := inv_of_reach hp h
  refine ⟨hinv.phased.paired, ?_, ?_, ?_⟩
  · intro m hfits hallowed
    obtain ⟨s', hs', -⟩ := inv_step hp hinv hfits hallowed
    rw [hs']
    rfl
  · intro input s' hfits hstep
    obtain ⟨s'', hs'', -, hstages⟩ := inv_enterStop hinv hfits (allowed_of_step hstep)
    have hsame : s'' = s' := Option.some.inj (hs''.symm.trans hstep)
    exact hsame ▸ hstages
  · intro input s' hstep
    obtain ⟨s'', hs'', -, hstages⟩ := inv_exitStop hinv (allowed_of_step hstep)
    have hsame : s'' = s' := Option.some.inj (hs''.symm.trans hstep)
    exact hsame ▸ hstages

end Moves

/-! ## A fork in a system call that was asked for -/

section Forked

/-- A tracee of x86_64 that has its program, on a kernel that evaluates the filters after the enter
stop. -/
def start : State where
  order := .new
  phase := .user
  how := .PTRACE_SYSCALL
  traced := false
  stopped := false
  globals := ⟨false, false, true⟩
  tracee := { Flags.new with exe := true, regs := fun _ _ => 0, regsWereChanged := false }

theorem start_reach {ok : State → Move → Prop} :
    (system (Mode.x86_64.platform false)).Reach ok start :=
  .start ⟨rfl, rfl, rfl, nofun, .DISABLED, false, .SIGSTOP_IGNORED, none, rfl, nofun, nofun,
    .inl rfl⟩

def accelerated : List Move :=
  [.enterStop noInput, .seccompStop 0 noInput, .proceed, .exitStop noInput]

/-- A system call that a filter asks an exit stage for, and that has a new child. -/
def forked : List Move :=
  [.seccompStop 1 noInput, .proceed, .eventStop true, .proceed]

theorem fits_noInput (s : State) (flags : Word) :
    Fits (Mode.x86_64.platform false) s (.seccompStop flags noInput) := by
  intro _
  refine ⟨List.not_mem_nil, List.not_mem_nil, fun _ => ⟨by decide, fun _ => List.not_mem_nil, ?_⟩⟩
  intro _ _ hchains
  simp [Chains, noInput] at hchains

/-- A run whose steps fit: the system call with the first seccomp event. -/
theorem stages_stay_paired_accelerated : ∃ s,
    (system (Mode.x86_64.platform false)).exec start accelerated = some s ∧
      s.tracee.stages = [.enter, .exit] ∧ Paired s := by
  have hrun : ((system (Mode.x86_64.platform false)).exec start accelerated).map
      (fun s => s.tracee.stages) = some [.enter, .exit] := by decide +kernel
  obtain ⟨s, hs, hstages⟩ := Option.map_eq_some_iff.mp hrun
  have hfits : ∀ m ∈ accelerated, ∀ s, Fits (Mode.x86_64.platform false) s m := by
    intro m hm s
    simp only [accelerated, List.mem_cons, List.not_mem_nil, or_false] at hm
    rcases hm with rfl | rfl | rfl | rfl
    · exact List.not_mem_nil
    · exact fits_noInput s 0
    · exact trivial
    · exact trivial
  exact ⟨s, hs, hstages,
    (stages_stay_paired false .x86_64 (start_reach.exec_of hfits hs)).1⟩

/-- The exit stop of the system call that has the child is lost, and the next one fails an
assertion. -/
theorem exit_stop_lost_after_fork :
    ¬ ∀ (p : Platform) (s : State), (system p).Reach System.Always s →
      Paired s ∧ ∀ m, Allowed s m → (step p s m).isSome := by
  intro h
  have hrun : ((system (Mode.x86_64.platform false)).exec start (accelerated ++ forked)).map
      (fun s => ((report s (.seccompStop 0 noInput)).isSome,
        (step (Mode.x86_64.platform false) s (.seccompStop 0 noInput)).isSome)) =
      some (true, false) := by decide +kernel
  obtain ⟨s, hs, hends⟩ := Option.map_eq_some_iff.mp hrun
  simp only [Prod.mk.injEq] at hends
  have hfails := (h _ s (start_reach.exec hs)).2 (.seccompStop 0 noInput) hends.1
  rw [hends.2] at hfails
  cases hfails

end Forked

end Kernel

end Improot.Event
