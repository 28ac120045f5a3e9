import Improot.Event.RoundStages

/-!
# Transparent chains

A chain of injected system calls is executed in the order of registration, each system call once,
and leaves the registers as they were at the enter stop, but for the result: that is the one that
was forced or else the one of the last system call.
-/

namespace Improot.Event

namespace Rounds

/-! ## What is asked of a tracee and its handlers -/

/-- A tracee that isn't in a system call, without a chain or a result that is still forced. -/
structure Idle (t : Tracee) : Prop where
  status : t.status = 0
  chain : t.chain.syscalls = none
  after : t.restoreOriginalRegsAfterSeccompEvent = false
  forced : t.chain.forceFinalResult = false

def asksExit (t : Tracee) (h : Handler) : Bool :=
  t.restartHow ≠ some .PTRACE_CONT || h.actions.contains .requestSysexit ||
    h.actions.contains .restartSyscall

def plainRound (r : Round) : Bool := r.enter.actions.all plain && r.exit.actions.all plain

def plainTurn : Turn → Bool
  | .call r => plainRound r
  | .again => true

def leavesRegs : Action → Bool
  | .pokeReg _ _ => false
  | .setSysnum _ => false
  | _ => true

def leavesCall : Turn → Bool
  | .call r => 0 ≤ r.enter.status && r.enter.actions.all leavesRegs
  | .again => true

/-! ## The invariant -/

def lastResult (m : Machine) : Word := m.results.getLastD 0

structure Queued (p : Platform) (m : Machine) : Prop where
  status : m.tracee.status = 0
  isSome : m.tracee.chain.syscalls.isSome = true
  after : m.tracee.restoreOriginalRegsAfterSeccompEvent = false
  original : m.tracee.regs .ORIGINAL = m.original
  changed : m.tracee.regsWereChanged = true
  history : m.registered.map (chainedCall p) = m.requested ++
    callOf p (trapped p m.regs) :: (pending m.tracee).map (chainedCall p)
  kept : Keeps p m.original (trapped p m.regs)
  forced : forcedResult m.tracee = m.forced

structure Inside (p : Platform) (m : Machine) : Prop where
  after : m.tracee.restoreOriginalRegsAfterSeccompEvent = false
  original : m.tracee.regs .ORIGINAL = m.original
  kept : Keeps p m.original m.regs
  unchanged : m.tracee.regsWereChanged = false →
    ∀ i, i ≠ p.regOffset .SYSARG_RESULT → m.regs i = m.original i
  changed : m.tracee.chain.syscalls.isSome = true → pending m.tracee = [] →
    m.tracee.regsWereChanged = true
  history : m.registered.map (chainedCall p) =
    m.requested ++ (pending m.tracee).map (chainedCall p)
  isSome : m.tracee.chain.syscalls.isSome = true → m.registered ≠ []
  isNone : m.tracee.chain.syscalls = none → m.registered = []
  forced : forcedResult m.tracee = m.forced

structure Done (p : Platform) (m : Machine) : Prop where
  status : m.tracee.status = 0
  chain : m.tracee.chain.syscalls = none
  after : m.tracee.restoreOriginalRegsAfterSeccompEvent = false
  original : m.tracee.regs .ORIGINAL = m.original
  current : m.tracee.regs .CURRENT = m.regs
  history : m.registered.map (chainedCall p) = m.requested
  regs : ∀ i, i ≠ p.regOffset .SYSARG_RESULT → m.regs i = m.original i
  result : fit p (m.regs (p.regOffset .SYSARG_RESULT)) =
    fit p (if m.registered = [] then lastResult m else m.forced.getD (lastResult m))
  forced : forcedResult m.tracee = if m.registered = [] then m.forced else none

section Steps

variable {p : Platform} {m : Machine} {r : Round}

/-! ## The enter stage -/

theorem restartHow_injected {t : Tracee} {h : Handler} (hsome : t.chain.syscalls.isSome = true) :
    (t.enterStage p h).restartHow = some .PTRACE_SYSCALL := by
  obtain ⟨syscalls, hsyscalls⟩ := Option.isSome_iff_exists.mp hsome
  obtain ⟨s, hs⟩ : ∃ s : Tracee, s = { t with
    restoreOriginalRegs := false, voidedSyscallCancelled := false } := ⟨_, rfl⟩
  have hchain : s.chain.syscalls = some syscalls := by
    rw [hs]
    exact hsyscalls
  have htranslated : (s.translateEnter p h).1.restartHow = some .PTRACE_SYSCALL := by
    rw [Tracee.translateEnter, hchain]
    simp only []
    split <;> rfl
  have hasks := ((Tracee.asks_settle p (s.translateEnter p h).1 (s.translateEnter p h).2).trans
    (Tracee.asks_skipSysexit p _)).trans (Tracee.asks_pushEntered p h _
      (if ((s.translateEnter p h).1.settle p (s.translateEnter p h).2).restartHow =
          some .PTRACE_CONT then
        ((s.translateEnter p h).1.settle p (s.translateEnter p h).2).status else 0))
  have hstage : t.enterStage p h = (((s.translateEnter p h).1.settle p
      (s.translateEnter p h).2).skipSysexit p).pushEntered p h
      (if ((s.translateEnter p h).1.settle p (s.translateEnter p h).2).restartHow =
          some .PTRACE_CONT then
        ((s.translateEnter p h).1.settle p (s.translateEnter p h).2).status else 0) := by
    rw [hs]
    rfl
  rw [hstage]
  rcases hasks with hasked | ⟨hsame, -⟩
  · exact hasked
  · exact hsame.trans htranslated

theorem status_entered {t : Tracee} {h : Handler} {regs : Registers} (hstatus : t.status = 0)
    (hhow : ((t.fetchRegs regs).enterStage p h).restartHow ≠ some .PTRACE_CONT) :
    (t.translateSyscall p h regs).status ≠ 0 := by
  rw [Tracee.translateSyscall_enter p h regs hstatus]
  intro hzero
  exact hhow ((Tracee.balanced_enterStage p h (t.fetchRegs regs)).mp hzero)

theorem all_plain {actions : List Action} (h : actions.all plain = true) :
    ∀ action ∈ actions, plain action = true :=
  List.all_eq_true.mp h

theorem not_isEmpty_ne_nil {α : Type} {list : List α} : (!list.isEmpty) = true ↔ list ≠ [] := by
  cases list <;> simp

/-- The enter stop of an injected system call. -/
theorem inside_injected (hqueued : Queued p m) (hplain : plainRound r = true) :
    Inside p (enterRound p r m) ∧ (enterRound p r m).tracee.status ≠ 0 := by
  simp only [plainRound, Bool.and_eq_true] at hplain
  have hafter := @after_of_stopped p _ r.enter (trapped p m.regs) _ hqueued.status
    (stopped_injected hqueued.isSome (all_plain hplain.1)).1
  rw [hqueued.original] at hafter
  have hsome : (enterRound p r m).tracee.chain.syscalls.isSome = true :=
    hafter.isSome.trans (by rw [hqueued.isSome, Bool.true_or])
  have hchanged : (enterRound p r m).tracee.regsWereChanged = true := by
    cases hc : (enterRound p r m).tracee.regsWereChanged with
    | true => rfl
    | false =>
        have hno := (hafter.unchanged hc).2 hqueued.isSome
        rw [hqueued.changed] at hno
        cases hno
  have hhistory : (enterRound p r m).registered.map (chainedCall p) =
      (enterRound p r m).requested ++
        (pending (enterRound p r m).tracee).map (chainedCall p) := by
    have hpending : pending (enterRound p r m).tracee = _ := hafter.pending
    rw [hpending]
    simp only [enterRound, Machine.record, hqueued.isSome, if_true, List.map_append,
      hqueued.history, List.append_assoc, List.cons_append, List.nil_append]
  refine ⟨⟨hafter.after.trans hqueued.after, hafter.original, ?_, ?_, fun _ _ => hchanged,
    hhistory, ?_, ?_, ?_⟩, ?_⟩
  · exact (hqueued.kept.trans hafter.kept).trans (keeps_finished r.result)
  · intro hno
    rw [hchanged] at hno
    cases hno
  · intro _ hnil
    rw [hnil] at hhistory
    have hlength := congrArg List.length hhistory
    simp [enterRound, Machine.record, hqueued.isSome] at hlength
  · intro hnone
    rw [hnone] at hsome
    cases hsome
  · refine hafter.forced.trans ?_
    rw [hqueued.forced]
    rfl
  · refine status_entered hqueued.status ?_
    rw [restartHow_injected (by exact hqueued.isSome)]
    decide

theorem executed_injected (hqueued : Queued p m) (hplain : plainRound r = true)
    (hleaves : leavesCall (.call r) = true) (hsame : m.executed = m.requested) :
    (enterRound p r m).executed = (enterRound p r m).requested := by
  simp only [plainRound, Bool.and_eq_true] at hplain
  simp only [leavesCall, Bool.and_eq_true, decide_eq_true_eq] at hleaves
  have hpokes : ∀ action ∈ r.enter.actions, ∀ bank, pokes p bank action = bank := by
    intro action hmem bank
    have hleave := List.all_eq_true.mp hleaves.2 action hmem
    cases action with
    | pokeReg | setSysnum => cases hleave
    | _ => rfl
  obtain ⟨hstopped, hcurrent⟩ := @stopped_injected p _ _ (trapped p m.regs)
    hqueued.isSome (all_plain hplain.1)
  have hcurrent := hcurrent hleaves.1 hpokes
  have hnone : (beforePush p r.enter (m.tracee.fetchRegs (trapped p m.regs))).chain.syscalls.isNone
      = false := by
    have hsome := hstopped.chained.isSome
    rw [hqueued.isSome, Bool.true_or] at hsome
    rw [← Option.not_isSome, hsome]
    rfl
  have hregs : enteredRegs p r.enter (trapped p m.regs) m.tracee = trapped p m.regs := by
    have hpushed := Kernel.pushSpecificRegs_of_not_restore (p := p) hstopped.keep false
      r.enter.sysnumFails
    simp only [enteredRegs, stuck, hnone, Bool.false_and, Bool.false_eq_true, if_false, pushed,
      hpushed, hcurrent, ite_self]
  simp only [enterRound, hqueued.isSome, if_true, Machine.record, hregs, hsame]

theorem restartHow_performAll {t : Tracee} {actions : List Action}
    (hasked : t.restartHow ≠ some .PTRACE_CONT ∨ .requestSysexit ∈ actions ∨
      .restartSyscall ∈ actions) :
    (t.performAll p actions).restartHow ≠ some .PTRACE_CONT := by
  induction actions generalizing t with
  | nil => exact hasked.resolve_right (by simp)
  | cons action actions ih =>
      refine ih (t := t.perform p action) ?_
      simp only [List.mem_cons] at hasked
      rcases hasked with hhow | (hfirst | hrest) | (hfirst | hrest)
      · refine .inl ?_
        rcases Tracee.asks_perform p t action with hasks | ⟨hsame, -⟩
        · rw [hasks]
          decide
        · rwa [hsame]
      · refine .inl ?_
        rw [← hfirst]
        simp [Tracee.perform]
      · exact .inr (.inl hrest)
      · refine .inl ?_
        rw [← hfirst]
        simp [Tracee.perform]
      · exact .inr (.inr hrest)

theorem restartHow_original {t : Tracee} {h : Handler} (hnone : t.chain.syscalls = none)
    (hasked : asksExit t h = true) : (t.enterStage p h).restartHow ≠ some .PTRACE_CONT := by
  obtain ⟨s, hs⟩ : ∃ s : Tracee, s = Tracee.saveCurrentRegs { t with
    restoreOriginalRegs := false, voidedSyscallCancelled := false } .ORIGINAL := ⟨_, rfl⟩
  obtain ⟨v, hv⟩ : ∃ v, v = (s.performAll p h.actions).saveCurrentRegs .MODIFIED := ⟨_, rfl⟩
  obtain ⟨suppressed, hstage⟩ : ∃ suppressed, t.enterStage p h =
      ((v.settle p h.status).skipSysexit p).pushEntered p h suppressed := by
    refine ⟨if (v.settle p h.status).restartHow = some .PTRACE_CONT then
      (v.settle p h.status).status else 0, ?_⟩
    simp only [Tracee.enterStage, Tracee.translateEnter, hnone, hv, hs]
  have hstart : v.restartHow ≠ some .PTRACE_CONT := by
    have hperformed := @restartHow_performAll p s h.actions (by
      rw [hs]
      simpa [asksExit, or_assoc] using hasked)
    rw [hv]
    exact hperformed
  have hasks := ((Tracee.asks_settle p v h.status).trans (Tracee.asks_skipSysexit p _)).trans
    (Tracee.asks_pushEntered p h _ suppressed)
  rw [hstage]
  rcases hasks with hyes | ⟨hsame, -⟩
  · rw [hyes]
    decide
  · rwa [hsame]

/-- The enter stop of the tracee's own system call. -/
theorem inside_begin {regs : Registers} {t : Tracee} (hidle : Idle t) (hplain : plainRound r = true)
    (hasked : asksExit t r.enter = true) :
    Inside p (enterRound p r (begin p regs t)) ∧
      (enterRound p r (begin p regs t)).tracee.status ≠ 0 := by
  simp only [plainRound, Bool.and_eq_true] at hplain
  have hafter := @after_of_stopped p _ r.enter (trapped p regs) _ hidle.status
    (stopped_original hidle.chain (all_plain hplain.1))
  obtain ⟨calls, hcalls⟩ : ∃ calls, calls =
      (enterActions r.enter t).filterMap (registration p (trapped p regs)) ++
        restarted p r.enter (beforePush p r.enter (t.fetchRegs (trapped p regs))) := ⟨_, rfl⟩
  have hregistered : (enterRound p r (begin p regs t)).registered = calls := by
    rw [hcalls]
    simp [enterRound, Machine.record, begin]
  have hrequested : (enterRound p r (begin p regs t)).requested = [] := by
    simp [enterRound, Machine.record, begin, hidle.chain]
  have hpending : pending (enterRound p r (begin p regs t)).tracee = calls := by
    refine hafter.pending.trans ?_
    rw [hcalls, pending, hidle.chain]
    rfl
  have hsome : (enterRound p r (begin p regs t)).tracee.chain.syscalls.isSome =
      !calls.isEmpty := by
    refine hafter.isSome.trans ?_
    rw [hcalls, hidle.chain]
    rfl
  refine ⟨⟨hafter.after.trans hidle.after, hafter.original, ?_, ?_, ?_, ?_, ?_, ?_, ?_⟩, ?_⟩
  · exact hafter.kept.trans (keeps_finished r.result)
  · intro hno i hi
    have hsame := (hafter.unchanged hno).1
    show finished p (enteredRegs p r.enter (trapped p regs) t) r.result i = _
    rw [hsame]
    exact if_neg hi
  · intro hyes hnil
    rw [hpending] at hnil
    rw [hsome, hnil] at hyes
    cases hyes
  · rw [hregistered, hrequested, hpending, List.nil_append]
  · intro hyes
    rw [hregistered]
    exact not_isEmpty_ne_nil.mp (hsome ▸ hyes)
  · intro hnone
    rw [hregistered]
    rw [hnone] at hsome
    cases calls with
    | nil => rfl
    | cons call calls => cases hsome
  · refine hafter.forced.trans ?_
    have hnone : forcedResult t = none := by simp [forcedResult, hidle.forced]
    rw [hnone]
    rfl
  · refine status_entered hidle.status ?_
    exact restartHow_original hidle.chain hasked

/-! ## The exit stage -/

/-- What `chain_next_syscall` does for a system call that is left in the chain. -/
structure Next (p : Platform) (saved : Registers) (u w : Tracee) (syscall : ChainedSyscall)
    (syscalls : List ChainedSyscall) : Prop where
  status : w.status = u.status
  keep : w.restoreOriginalRegs = false
  after : w.restoreOriginalRegsAfterSeccompEvent = u.restoreOriginalRegsAfterSeccompEvent
  original : w.regs .ORIGINAL = u.regs .ORIGINAL
  changed : w.regsWereChanged = true
  syscalls : w.chain.syscalls = some syscalls
  forced : forcedResult w = forcedResult u
  call : callOf p (trapped p (w.regs .CURRENT)) = chainedCall p syscall
  kept : Keeps p saved (trapped p (w.regs .CURRENT))

theorem next_chainNextSyscall (hp : Layout p) {u : Tracee} {saved : Registers}
    (hroot : fit p (saved (p.regOffset .INSTR_POINTER)) = saved (p.regOffset .INSTR_POINTER))
    (hkept : Keeps p saved (u.regs .CURRENT)) (syscall : ChainedSyscall)
    (syscalls : List ChainedSyscall) :
    Next p saved u (u.chainNextSyscall p (syscall :: syscalls)) syscall syscalls := by
  obtain ⟨s, hs⟩ : ∃ s : Tracee, s = { u with
    restoreOriginalRegs := false
    chain := { u.chain with syscalls := some syscalls } } := ⟨_, rfl⟩
  have hnext : u.chainNextSyscall p (syscall :: syscalls) =
      { s.pokeChained p syscall with restartHow := some .PTRACE_SYSCALL } := by
    rw [hs]
    rfl
  have hregs : s.regs = u.regs := by rw [hs]
  obtain ⟨values, -, -, horiginal⟩ := regs_pokeChained (p := p) (t := s) syscall
  obtain ⟨hcall, hkeeps⟩ := @trapped_pokeChained p s hp syscall _ hroot
    (by rw [hregs]; exact hkept)
  rw [hnext]
  refine ⟨?_, ?_, ?_, ?_, changed_pokeChained hp syscall, ?_, ?_, hcall, hkeeps⟩
  · simp [hs]
  · simp [hs]
  · simp [hs]
  · exact horiginal.trans (by rw [hregs])
  · simp [hs]
  · rw [forcedResult, forcedResult]
    simp [hs]

/-- What `chain_next_syscall` does at the end of the chain. -/
structure Ends (p : Platform) (u w : Tracee) : Prop where
  quiet : Quiet p u w
  status : w.status = u.status
  syscalls : w.chain.syscalls = none
  forced : forcedResult w = none
  result : fit p (w.regs .CURRENT (p.regOffset .SYSARG_RESULT)) =
    fit p ((forcedResult u).getD (u.regs .CURRENT (p.regOffset .SYSARG_RESULT)))

theorem ends_chainNextSyscall (u : Tracee) : Ends p u (u.chainNextSyscall p []) := by
  obtain ⟨s, hs⟩ : ∃ s : Tracee, s = { u with
    chain := { u.chain with syscalls := none } } := ⟨_, rfl⟩
  have hregs : s.regs = u.regs := by rw [hs]
  have hstart : Quiet p u s := by
    rw [hs]
    exact .of_regs rfl rfl rfl rfl
  cases hforce : u.chain.forceFinalResult with
  | true =>
      have hends : u.chainNextSyscall p [] =
          { s.pokeReg p .SYSARG_RESULT s.chain.finalResult with
            chain := { (s.pokeReg p .SYSARG_RESULT s.chain.finalResult).chain with
              forceFinalResult := false, finalResult := 0 } } := by
        simp only [Tracee.chainNextSyscall, hforce, if_true, hs]
      rw [hends]
      refine ⟨(hstart.trans (quiet_pokeReg (by decide) _)).trans (.of_regs rfl rfl rfl rfl),
        ?_, ?_, rfl, ?_⟩
      · simp [hs]
      · simp [hs]
      · show fit p ((s.pokeReg p .SYSARG_RESULT s.chain.finalResult).regs .CURRENT _) = _
        rw [current_pokeReg, fit_poke_self]
        simp [forcedResult, hforce, hs]
  | false =>
      have hends : u.chainNextSyscall p [] =
          { s with chain := { s.chain with forceFinalResult := false, finalResult := 0 } } := by
        simp only [Tracee.chainNextSyscall, hforce, Bool.false_eq_true, if_false, hs]
      rw [hends]
      refine ⟨hstart.trans (.of_regs rfl rfl rfl rfl), ?_, ?_, rfl, ?_⟩
      · simp [hs]
      · simp [hs]
      · simp [forcedResult, hforce, hregs]

/-- At the end of the chain the registers are those of the enter stop. -/
theorem done_restored (hp : Layout p) {u w : Tracee} {regs saved : Registers} {fails : Bool}
    (hsame : w.regs .ORIGINAL = u.regs .ORIGINAL ∧
      w.restoreOriginalRegs = u.restoreOriginalRegs ∧
      w.restoreOriginalRegsAfterSeccompEvent = u.restoreOriginalRegsAfterSeccompEvent ∧
      Keeps p (u.regs .CURRENT) (w.regs .CURRENT))
    (hrestore : u.restoreOriginalRegs = true)
    (hafter : u.restoreOriginalRegsAfterSeccompEvent = false)
    (hsaved : u.regs .ORIGINAL = saved) (hkept : Keeps p saved (u.regs .CURRENT))
    (hunchanged : w.regsWereChanged = false → w.regs .CURRENT = regs ∧
      ∀ i, i ≠ p.regOffset .SYSARG_RESULT → regs i = saved i) :
    (w.pushSpecificRegs p false fails).1.regs .CURRENT = pushed p w false fails regs ∧
      (w.pushSpecificRegs p false fails).1.regs .ORIGINAL = saved ∧
      (∀ i, i ≠ p.regOffset .SYSARG_RESULT → pushed p w false fails regs i = saved i) ∧
      pushed p w false fails regs (p.regOffset .SYSARG_RESULT) =
        w.regs .CURRENT (p.regOffset .SYSARG_RESULT) := by
  obtain ⟨horiginal, hsamerestore, hsameafter, hsamekept⟩ := hsame
  obtain ⟨hreal, hcurrent, hbank⟩ := @pushed_of_restore p _ regs
    (hsamerestore.trans hrestore) (hsameafter.trans hafter) fails
  rw [hreal, hcurrent, hbank, horiginal, hsaved]
  cases hchanged : w.regsWereChanged with
  | true =>
      simp only [if_true]
      exact ⟨trivial, trivial, fun i hi => restore_of_ne (hkept.trans hsamekept) hi,
        restore_result hp _ _⟩
  | false =>
      obtain ⟨hregs, hequal⟩ := hunchanged hchanged
      simp only [Bool.false_eq_true, if_false]
      exact ⟨hregs, trivial, hequal, by rw [hregs]⟩

theorem results_exitRound :
    lastResult (exitRound p r m) =
      (exitActions r.exit m.tracee).foldl (pokes p) m.regs (p.regOffset .SYSARG_RESULT) := by
  simp [lastResult, exitRound]

/-- After the handlers of the exit stage: `u` is the tracee, out of the system call, and `calls` is
what the handlers registered. -/
structure Handed (p : Platform) (r : Round) (m : Machine) (u : Tracee)
    (calls : List ChainedSyscall) : Prop where
  inside : Inside p m
  status : u.status = 0
  original : u.regs .ORIGINAL = m.original
  restore : u.restoreOriginalRegs = true
  after : u.restoreOriginalRegsAfterSeccompEvent = false
  kept : Keeps p m.original (u.regs .CURRENT)
  unchanged : u.regsWereChanged = false → u.regs .CURRENT = m.regs ∧
    ∀ i, i ≠ p.regOffset .SYSARG_RESULT → m.regs i = m.original i
  queue : pending u = pending m.tracee ++ calls
  isSome : u.chain.syscalls.isSome = (m.tracee.chain.syscalls.isSome || !calls.isEmpty)
  forced : forcedResult u = (exitRound p r m).forced
  result : u.regs .CURRENT (p.regOffset .SYSARG_RESULT) = lastResult (exitRound p r m)
  tracee : ∃ stages, (exitRound p r m).tracee =
    { ((u.nextSyscall p).pushSpecificRegs p false r.exit.sysnumFails).1 with stages := stages }
  regs : (exitRound p r m).regs = pushed p (u.nextSyscall p) false r.exit.sysnumFails m.regs
  registered : (exitRound p r m).registered = m.registered ++ calls

theorem handed_exitRound (hinside : Inside p m) (hstatus : m.tracee.status ≠ 0)
    (hplain : ∀ action ∈ r.exit.actions, plain action = true) :
    ∃ u, Handed p r m u ((exitActions r.exit m.tracee).filterMap (registration p m.original)) := by
  obtain ⟨v, hv⟩ : ∃ v, v =
      { m.tracee.fetchRegs m.regs with restoreOriginalRegs := true }.translateExit p r.exit :=
    ⟨_, rfl⟩
  have hhandled := @handled_translateExit p m.tracee _ m.regs hplain
  rw [← hv] at hhandled
  obtain ⟨u, hu⟩ : ∃ u : Tracee, u = { v with status := 0 } := ⟨_, rfl⟩
  have hregs : u.regs = v.regs := by rw [hu]
  have hchain : u.chain = v.chain := by rw [hu]
  have hexited := Tracee.translateSyscall_exit p r.exit m.regs hstatus
  refine ⟨u, hinside, by rw [hu], ?_, ?_, ?_, ?_, ?_, ?_, ?_, ?_, ?_, ?_, ?_, rfl⟩
  · rw [hregs]
    exact hhandled.original.trans hinside.original
  · rw [hu]
    exact hhandled.restore
  · rw [hu]
    exact hhandled.after.trans hinside.after
  · rw [hregs]
    exact hinside.kept.trans hhandled.kept
  · intro hno
    rw [hu] at hno
    obtain ⟨hno', hsame⟩ := hhandled.unchanged hno
    rw [hregs]
    exact ⟨hsame, hinside.unchanged hno'⟩
  · rw [pending, hchain, ← pending, hhandled.pending, hinside.original]
  · rw [hchain, hhandled.isSome, hinside.original]
  · rw [forcedResult_of_eq hchain, hhandled.forced, hinside.forced]
    rfl
  · rw [hregs, results_exitRound, hhandled.current]
  · rw [hu, hv]
    exact ⟨m.tracee.stages ++ [Stage.exit], hexited⟩
  · rw [hu, hv]
    rfl

section Handed

variable {u : Tracee} {calls : List ChainedSyscall}

theorem Handed.done_of_none (hp : Layout p) (h : Handed p r m u calls)
    (hsyscalls : u.chain.syscalls = none) : Done p (exitRound p r m) := by
  obtain ⟨stages, htracee⟩ := h.tracee
  have hregs := h.regs
  have hnext : u.nextSyscall p = u := by
    rw [Tracee.nextSyscall, hsyscalls]
  rw [hnext] at htracee hregs
  obtain ⟨hcurrent, horiginal, hrest, hends⟩ := @done_restored _ hp _ _ _ _ r.exit.sysnumFails
    ⟨rfl, rfl, rfl, .refl⟩ h.restore h.after h.original h.kept h.unchanged
  have hnone : m.tracee.chain.syscalls = none ∧ calls = [] := by
    have hsome := h.isSome
    rw [hsyscalls] at hsome
    cases hc : m.tracee.chain.syscalls <;> cases calls <;> simp_all
  have hbefore := h.inside.isNone hnone.1
  have hnothing : (exitRound p r m).registered = [] := by
    rw [h.registered, hbefore, hnone.2]
    rfl
  refine ⟨?_, ?_, ?_, ?_, ?_, ?_, ?_, ?_, ?_⟩
  · rw [htracee]
    simp [h.status]
  · rw [htracee]
    simp [hsyscalls]
  · rw [htracee]
    simp [h.after]
  · rw [htracee]
    exact horiginal
  · rw [htracee, hregs]
    exact hcurrent
  · have hhistory := h.inside.history
    rw [hbefore, pending, hnone.1] at hhistory
    have hrequested : (exitRound p r m).requested = m.requested := rfl
    rw [hnothing, hrequested]
    simpa using hhistory.symm
  · rw [hregs]
    exact hrest
  · rw [hregs, hends, if_pos hnothing, h.result]
  · rw [if_pos hnothing, htracee]
    refine Eq.trans ?_ h.forced
    rw [forcedResult, forcedResult]
    simp

/-- Without a system call left, the chain is over. -/
theorem Handed.done_of_nil (hp : Layout p) (h : Handed p r m u calls)
    (hsyscalls : u.chain.syscalls = some []) : Done p (exitRound p r m) := by
  obtain ⟨stages, htracee⟩ := h.tracee
  have hregs := h.regs
  have hnext : u.nextSyscall p = u.chainNextSyscall p [] := by
    rw [Tracee.nextSyscall, hsyscalls]
  rw [hnext] at htracee hregs
  have hchained := ends_chainNextSyscall (p := p) u
  obtain ⟨hcurrent, horiginal, hrest, hends⟩ := @done_restored _ hp _ _ _ _ r.exit.sysnumFails
    ⟨hchained.quiet.original, hchained.quiet.restore, hchained.quiet.after,
      hchained.quiet.current⟩ h.restore h.after h.original h.kept (fun hno => by
      obtain ⟨hno', hsame⟩ := hchained.quiet.unchanged hno
      obtain ⟨hcurrent, hequal⟩ := h.unchanged hno'
      exact ⟨hsame.trans hcurrent, hequal⟩)
  -- the chain had been registered before
  have hnil : pending m.tracee = [] ∧ calls = [] := by
    have hpending := h.queue
    rw [pending, hsyscalls] at hpending
    exact List.append_eq_nil_iff.mp hpending.symm
  have hsomething : (exitRound p r m).registered ≠ [] := by
    have hsome := h.isSome
    rw [hsyscalls, hnil.2] at hsome
    rw [h.registered, hnil.2, List.append_nil]
    exact h.inside.isSome (by simpa using hsome.symm)
  refine ⟨?_, ?_, ?_, ?_, ?_, ?_, ?_, ?_, ?_⟩
  · rw [htracee]
    simp only [Tracee.toFlags_pushSpecificRegs]
    exact hchained.status.trans h.status
  · rw [htracee]
    simp [hchained.syscalls]
  · rw [htracee]
    simp only [Tracee.toFlags_pushSpecificRegs, hchained.quiet.after, h.after, Bool.false_and]
  · rw [htracee]
    exact horiginal
  · rw [htracee, hregs]
    exact hcurrent
  · rw [h.registered, hnil.2, List.append_nil, h.inside.history, hnil.1]
    exact List.append_nil _
  · rw [hregs]
    exact hrest
  · rw [hregs, hends, hchained.result, if_neg hsomething, h.forced, h.result]
  · rw [if_neg hsomething, htracee]
    refine Eq.trans ?_ hchained.forced
    rw [forcedResult, forcedResult]
    simp

/-- With one left, it is injected next. -/
theorem Handed.queued_of_cons (hp : Layout p) (h : Handed p r m u calls)
    (hroot : fit p (m.original (p.regOffset .INSTR_POINTER)) =
      m.original (p.regOffset .INSTR_POINTER)) {syscall : ChainedSyscall}
    {syscalls : List ChainedSyscall} (hsyscalls : u.chain.syscalls = some (syscall :: syscalls)) :
    Queued p (exitRound p r m) := by
  obtain ⟨stages, htracee⟩ := h.tracee
  have hregs := h.regs
  have hnext : u.nextSyscall p = u.chainNextSyscall p (syscall :: syscalls) := by
    rw [Tracee.nextSyscall, hsyscalls]
  have hchained := next_chainNextSyscall (p := p) (u := u) hp hroot h.kept syscall syscalls
  rw [← hnext] at hchained
  obtain ⟨hreal, hpushed⟩ := @pushed_of_keep p _ m.regs hchained.keep
    hchained.changed false r.exit.sysnumFails rfl
  rw [hpushed] at htracee
  rw [hreal] at hregs
  refine ⟨?_, ?_, ?_, ?_, ?_, ?_, ?_, ?_⟩
  · rw [htracee]
    exact hchained.status.trans h.status
  · rw [htracee]
    show (u.nextSyscall p).chain.syscalls.isSome = true
    rw [hchained.syscalls]
    rfl
  · rw [htracee]
    exact hchained.after.trans h.after
  · rw [htracee]
    exact hchained.original.trans h.original
  · rw [htracee]
    exact hchained.changed
  · have hqueue : pending (exitRound p r m).tracee = syscalls := by
      rw [htracee]
      show (u.nextSyscall p).chain.syscalls.getD [] = syscalls
      rw [hchained.syscalls]
      rfl
    have hwhole : pending u = syscall :: syscalls := by
      rw [pending, hsyscalls]
      rfl
    have hrequested : (exitRound p r m).requested = m.requested := rfl
    rw [hqueue, hregs, hchained.call, h.registered, hrequested, List.map_append,
      h.inside.history, List.append_assoc, ← List.map_append, ← h.queue, hwhole, List.map_cons]
  · rw [hregs]
    exact hchained.kept
  · rw [htracee]
    exact hchained.forced.trans h.forced

end Handed

/-- **The exit stage.** Either the tracee traps for the next system call of the chain, or its own
system call is done. -/
theorem exitRound_spec (hp : Layout p) (hinside : Inside p m) (hstatus : m.tracee.status ≠ 0)
    (hroot : fit p (m.original (p.regOffset .INSTR_POINTER)) =
      m.original (p.regOffset .INSTR_POINTER))
    (hplain : plainRound r = true) :
    Queued p (exitRound p r m) ∨ Done p (exitRound p r m) := by
  simp only [plainRound, Bool.and_eq_true] at hplain
  obtain ⟨u, hhanded⟩ := handed_exitRound hinside hstatus (all_plain hplain.2)
  cases hsyscalls : u.chain.syscalls with
  | none => exact .inr (hhanded.done_of_none hp hsyscalls)
  | some syscalls =>
      cases syscalls with
      | nil => exact .inr (hhanded.done_of_nil hp hsyscalls)
      | cons syscall syscalls => exact .inl (hhanded.queued_of_cons hp hroot hsyscalls)

/-! ## A wait that is asked for again -/

theorem keeps_of_regs {regs saved : Registers}
    (h : ∀ i, i ≠ p.regOffset .SYSARG_RESULT → regs i = saved i) : Keeps p saved regs :=
  fun i hi => h i (hi .SYSARG_RESULT (by decide))

/-- A tracee that has to wait again is about to trap for the same system call. -/
theorem again_spec (hp : Layout p) (hdone : Done p m) (hroot : fit p (m.original
    (p.regOffset .INSTR_POINTER)) = m.original (p.regOffset .INSTR_POINTER)) :
    ∃ m', again p m = some m' ∧ Queued p m' ∧ m'.original = m.original ∧
      m'.requested = m.requested ∧ m'.executed = m.executed := by
  obtain ⟨u, hu⟩ : ∃ u, u = m.tracee.restartOriginalSyscall p := ⟨_, rfl⟩
  have hregs : u.regs = m.tracee.regs := by
    rw [hu]
    rfl
  have hsyscalls : u.chain.syscalls = some [originalSyscall p m.original] := by
    rw [hu, ← hdone.original]
    simp [Tracee.restartOriginalSyscall, Tracee.registerChainedSyscall,
      Tracee.registerChainedSyscallInternal, hdone.chain, originalSyscall, Tracee.syscallOf,
      Tracee.peekReg]
  have hnext : u.nextSyscall p = u.chainNextSyscall p [originalSyscall p m.original] := by
    rw [Tracee.nextSyscall, hsyscalls]
  have hkept : Keeps p m.original (u.regs .CURRENT) := by
    rw [hregs, hdone.current]
    exact keeps_of_regs hdone.regs
  have hchained := next_chainNextSyscall (p := p) (u := u) hp hroot hkept
    (originalSyscall p m.original) []
  rw [← hnext] at hchained
  have hhow : (u.nextSyscall p).restartHow = some .PTRACE_SYSCALL := by
    rw [hnext]
    rfl
  obtain ⟨hreal, hpushed⟩ := @pushed_of_keep p _ m.regs hchained.keep
    hchained.changed true false rfl
  obtain ⟨w, hw⟩ : ∃ w : Tracee, w = { u.nextSyscall p with
      waitsForPtracee := false
      lastRestartHow := some .PTRACE_SYSCALL
      restartHow := none } := ⟨_, rfl⟩
  have hwake : m.tracee.wake p .restarted = some (w, true) := by
    simp only [Tracee.wake, ← hu, hpushed, Tracee.restartTracee, hhow, hw]
    rfl
  refine ⟨{ m with
    regs := (u.nextSyscall p).regs .CURRENT
    tracee := w
    registered := m.registered ++ [originalSyscall p m.original]
    forced := if m.registered = [] then m.forced else none }, ?_, ?_, rfl, rfl, rfl⟩
  · simp only [again, hwake, Option.map_some, ← hu, hreal]
  · refine ⟨?_, ?_, ?_, ?_, ?_, ?_, hchained.kept, ?_⟩
    · rw [hw]
      exact hchained.status.trans (by rw [hu]; exact hdone.status)
    · rw [hw]
      show (u.nextSyscall p).chain.syscalls.isSome = true
      rw [hchained.syscalls]
      rfl
    · rw [hw]
      exact hchained.after.trans (by rw [hu]; exact hdone.after)
    · rw [hw]
      exact hchained.original.trans (by rw [hregs]; exact hdone.original)
    · rw [hw]
      exact hchained.changed
    · have hqueue : pending w = [] := by
        rw [hw]
        show (u.nextSyscall p).chain.syscalls.getD [] = []
        rw [hchained.syscalls]
        rfl
      simp only [hqueue, hchained.call, List.map_append, hdone.history, List.map_cons, List.map_nil]
    · rw [hw]
      refine hchained.forced.trans (Eq.trans ?_ hdone.forced)
      rw [hu]
      rfl

/-! ## Runs -/

/-- The tracee traps for an injected system call, or its own system call is done. -/
def Settled (p : Platform) (m : Machine) : Prop := Queued p m ∨ Done p m

/-- **A turn** leaves the tracee settled, whether it waits or a chain is run. -/
theorem turn_spec (hp : Layout p) {m' : Machine} {next : Turn} (hsettled : Settled p m)
    (hroot : fit p (m.original (p.regOffset .INSTR_POINTER)) =
      m.original (p.regOffset .INSTR_POINTER))
    (hplain : plainTurn next = true) (hturn : turn p m next = some m') :
    Settled p m' ∧ m'.original = m.original ∧
      (leavesCall next = true → m.executed = m.requested → m'.executed = m'.requested) := by
  cases next with
  | call r =>
      simp only [turn, Option.ite_none_right_eq_some, Option.some.injEq] at hturn
      obtain ⟨hsome, rfl⟩ := hturn
      have hqueued : Queued p m := by
        refine hsettled.resolve_right ?_
        intro hdone
        rw [hdone.chain] at hsome
        cases hsome
      obtain ⟨hinside, hstatus⟩ := inside_injected hqueued hplain
      have hround : round p r m = exitRound p r (enterRound p r m) := by
        simp only [round, if_neg hstatus]
      rw [hround]
      refine ⟨exitRound_spec hp hinside hstatus hroot hplain, rfl, ?_⟩
      intro hleaves hsame
      exact executed_injected hqueued hplain hleaves hsame
  | again =>
      simp only [turn, Option.ite_none_right_eq_some, Bool.and_eq_true] at hturn
      obtain ⟨⟨hnone, -⟩, hagain⟩ := hturn
      have hdone : Done p m := by
        refine hsettled.resolve_left ?_
        intro hqueued
        have hsome := hqueued.isSome
        rw [Option.isNone_iff_eq_none.mp hnone] at hsome
        cases hsome
      obtain ⟨m'', hm'', hqueued, horiginal, hrequested, hexecuted⟩ := again_spec hp hdone hroot
      have hsame : m'' = m' := Option.some.inj (hm''.symm.trans hagain)
      subst hsame
      refine ⟨.inl hqueued, horiginal, ?_⟩
      intro _ hequal
      rw [hexecuted, hrequested, hequal]

theorem turns_spec (hp : Layout p) {m' : Machine} {turns : List Turn} (hsettled : Settled p m)
    (hroot : fit p (m.original (p.regOffset .INSTR_POINTER)) =
      m.original (p.regOffset .INSTR_POINTER))
    (hplain : turns.all plainTurn = true) (hrun : turns.foldlM (turn p) m = some m') :
    Settled p m' ∧ m'.original = m.original ∧
      (turns.all leavesCall = true → m.executed = m.requested → m'.executed = m'.requested) := by
  induction turns generalizing m with
  | nil =>
      simp only [List.foldlM_nil, Option.pure_def, Option.some.injEq] at hrun
      subst hrun
      exact ⟨hsettled, rfl, fun _ h => h⟩
  | cons next turns ih =>
      simp only [List.foldlM_cons, Option.bind_eq_bind, Option.bind_eq_some_iff] at hrun
      obtain ⟨m₁, hturn, hrest⟩ := hrun
      simp only [List.all_cons, Bool.and_eq_true] at hplain
      obtain ⟨hsettled₁, horiginal₁, hexecuted₁⟩ := turn_spec hp hsettled hroot hplain.1 hturn
      obtain ⟨hsettled', horiginal', hexecuted'⟩ :=
        ih hsettled₁ (by rw [horiginal₁]; exact hroot) hplain.2 hrest
      refine ⟨hsettled', horiginal'.trans horiginal₁, ?_⟩
      intro hleaves hsame
      simp only [List.all_cons, Bool.and_eq_true] at hleaves
      exact hexecuted' hleaves.2 (hexecuted₁ hleaves.1 hsame)

theorem run_spec (hp : Layout p) {turns : List Turn} {regs : Registers} {t : Tracee}
    (hidle : Idle t) (hasked : asksExit t r.enter = true) (hplain : plainRound r = true)
    (hturns : turns.all plainTurn = true) (hrun : run p r turns regs t = some m) :
    Settled p m ∧ m.original = trapped p regs ∧
      (turns.all leavesCall = true → m.executed = m.requested) := by
  obtain ⟨hinside, hstatus⟩ := @inside_begin p _ regs _ hidle hplain hasked
  have hround : round p r (begin p regs t) = exitRound p r (enterRound p r (begin p regs t)) := by
    simp only [round, if_neg hstatus]
  have hroot : fit p (trapped p regs (p.regOffset .INSTR_POINTER)) =
      trapped p regs (p.regOffset .INSTR_POINTER) := by
    rw [trapped, if_pos rfl, fit_fit]
  rw [run, hround] at hrun
  obtain ⟨hsettled, horiginal, hexecuted⟩ :=
    turns_spec hp (exitRound_spec hp hinside hstatus hroot hplain) hroot hturns hrun
  refine ⟨hsettled, horiginal, fun hleaves => hexecuted hleaves ?_⟩
  simp [exitRound, enterRound, Machine.record, begin, hidle.chain]

/-- What a chain leaves behind: the injected system calls were asked for in the order of
registration, and executed like that unless a handler changed them at their enter stop; at the end
all of them were, every register but the one of the result is as it was at the enter stop, and the
result is the one that was forced, or else the one of the last system call. -/
structure Transparent (p : Platform) (turns : List Turn) (regs : Registers) (m : Machine) : Prop where
  order : m.requested <+: m.registered.map (chainedCall p)
  executed : turns.all leavesCall = true → m.executed = m.requested
  all : m.tracee.chain.syscalls = none → m.requested = m.registered.map (chainedCall p)
  regs : m.tracee.chain.syscalls = none →
    ∀ i, i ≠ p.regOffset .SYSARG_RESULT → m.regs i = trapped p regs i
  result : m.tracee.chain.syscalls = none → fit p (m.regs (p.regOffset .SYSARG_RESULT)) =
    fit p (if m.registered = [] then lastResult m else m.forced.getD (lastResult m))
  idle : m.tracee.chain.syscalls = none → (m.registered = [] → m.forced = none) → Idle m.tracee

/-- **Chains are transparent.** -/
theorem chains_transparent (thumb : Bool) (mode : Mode) {turns : List Turn} {regs : Registers}
    {t : Tracee} (hidle : Idle t) (hasked : asksExit t r.enter = true)
    (hplain : plainRound r = true) (hturns : turns.all plainTurn = true)
    (hrun : run (mode.platform thumb) r turns regs t = some m) :
    Transparent (mode.platform thumb) turns regs m := by
  obtain ⟨hsettled, horiginal, hexecuted⟩ :=
    run_spec (layout_platform thumb mode) hidle hasked hplain hturns hrun
  rcases hsettled with hqueued | hdone
  · have hsome : m.tracee.chain.syscalls = none → False := by
      intro hnone
      have hyes := hqueued.isSome
      rw [hnone] at hyes
      cases hyes
    refine ⟨?_, hexecuted, fun hnone => (hsome hnone).elim, fun hnone => (hsome hnone).elim,
      fun hnone => (hsome hnone).elim, fun hnone => (hsome hnone).elim⟩
    rw [hqueued.history]
    exact List.prefix_append _ _
  · refine ⟨?_, hexecuted, fun _ => hdone.history.symm, ?_, fun _ => hdone.result, ?_⟩
    · rw [hdone.history]
    · intro _ i hi
      rw [← horiginal]
      exact hdone.regs i hi
    · intro _ hnothing
      refine ⟨hdone.status, hdone.chain, hdone.after, ?_⟩
      have hforced := hdone.forced
      have hnone : forcedResult m.tracee = none := by
        rw [hforced]
        split
        · rename_i hnil
          exact hnothing hnil
        · rfl
      rw [forcedResult] at hnone
      split at hnone
      · cases hnone
      · rename_i hno
        simpa using hno

end Steps

/-! ## A chain of one -/

section One

def fresh : Tracee := { Flags.new with exe := true, regs := fun _ _ => 0, regsWereChanged := false }

theorem fresh_idle : Idle fresh := ⟨rfl, rfl, rfl, rfl⟩

def chained : Round where
  enter := ⟨[], 0, false⟩
  exit := ⟨[.registerChainedSyscall ⟨.PR_getpid, 0, 0, 0, 0, 0, 0⟩], 0, false⟩
  result := 5

def injected : Turn := .call ⟨⟨[], 0, false⟩, ⟨[], 0, false⟩, 1234⟩

def chainedResult (m : Machine) : Bool × Word × List Word × Option Word :=
  (m.tracee.chain.syscalls.isNone,
    fit (Mode.x86_64.platform false) (m.regs ((Mode.x86_64.platform false).regOffset .SYSARG_RESULT)),
    m.results, m.forced)

theorem chained_run : (run (Mode.x86_64.platform false) chained [injected] (fun _ => 0) fresh).map
    chainedResult = some (true, 1234, [5, 1234], none) := by
  decide +kernel

theorem chains_transparent_one : ∃ m,
    run (Mode.x86_64.platform false) chained [injected] (fun _ => 0) fresh = some m ∧
      Transparent (Mode.x86_64.platform false) [injected] (fun _ => 0) m := by
  obtain ⟨m, hm, -⟩ := Option.map_eq_some_iff.mp chained_run
  exact ⟨m, hm, chains_transparent false .x86_64 fresh_idle rfl rfl rfl hm⟩

/-- The tracee sees the result of getpid(2), and no result was forced. -/
theorem original_result_lost :
    ¬ ∀ (thumb : Bool) (mode : Mode) (r : Round) (turns : List Turn) (regs : Registers)
      (t : Tracee) (m : Machine), Idle t → asksExit t r.enter = true → plainRound r = true →
      turns.all plainTurn = true → run (mode.platform thumb) r turns regs t = some m →
      m.tracee.chain.syscalls = none →
      fit (mode.platform thumb) (m.regs ((mode.platform thumb).regOffset .SYSARG_RESULT)) =
        fit (mode.platform thumb) (m.forced.getD (m.results.headD 0)) := by
  intro h
  obtain ⟨m, hm, hresult⟩ := Option.map_eq_some_iff.mp chained_run
  simp only [chainedResult, Prod.mk.injEq] at hresult
  obtain ⟨hnone, hregs, hresults, hforced⟩ := hresult
  have hsame := h false .x86_64 chained [injected] (fun _ => 0) fresh m fresh_idle rfl rfl rfl hm
    (Option.isNone_iff_eq_none.mp hnone)
  rw [hregs, hresults, hforced] at hsame
  revert hsame
  decide

end One

end Rounds

end Improot.Event
