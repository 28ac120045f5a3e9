import Improot.Event.Round
import Improot.Event.Cancelled
import Improot.Event.Stages

/-!
# What a round touches

A stage pokes no register but those of the system call, the result and the stack pointer, and
leaves the others as they are.  What it adds to the chain is what the handlers register.
-/

namespace Improot.Event

namespace Rounds

/-! ## Platforms -/

structure Layout (p : Platform) : Prop where
  instr : ∀ reg, reg ≠ .INSTR_POINTER → p.regOffset reg ≠ p.regOffset .INSTR_POINTER
  calls : ∀ reg ∈ callRegs, ∀ reg' ∈ callRegs, p.regOffset reg = p.regOffset reg' → reg = reg'
  trap : p.systrapNum = .SYSARG_NUM ∨ (p.systrapNum = .SYSARG_RESULT ∧
    ∀ reg, reg ≠ .SYSARG_RESULT → p.regOffset reg ≠ p.regOffset .SYSARG_RESULT)
  restores : ∀ reg ∈ Tracee.restoredRegs, p.regOffset reg = p.regOffset .SYSARG_RESULT →
    Tracee.restores p reg = false
  size : p.systrapSize ≠ 0

theorem layout_platform (thumb : Bool) (mode : Mode) : Layout (mode.platform thumb) where
  instr := by
    intro reg hreg
    cases mode <;> cases reg <;> simp_all [Mode.platform, regOffsetX86_64, regOffsetX86On64,
      regOffsetArm, regOffsetArm64, regOffsetX86, regOffsetSh4]
  calls := by
    cases mode <;> cases thumb <;> decide
  trap := by
    cases mode
    case x86_64 | x86On64 | x32 | x86 =>
      refine .inr ⟨rfl, ?_⟩
      intro reg hreg
      cases reg <;> simp_all [Mode.platform, regOffsetX86_64, regOffsetX86On64, regOffsetX86]
    all_goals exact .inl rfl
  restores := by
    cases mode <;> cases thumb <;> decide
  size := by
    cases mode <;> cases thumb <;> decide

section Fit

variable (p : Platform)

theorem toNat_and_mask (v : Word) : (v &&& 0xffffffff).toNat = v.toNat % 2 ^ 32 := by
  rw [BitVec.toNat_and]
  exact Nat.and_two_pow_sub_one_eq_mod v.toNat 32

theorem and_mask_add (v w : Word) :
    ((v &&& 0xffffffff) + w) &&& 0xffffffff = (v + w) &&& 0xffffffff := by
  apply BitVec.eq_of_toNat_eq
  rw [toNat_and_mask, toNat_and_mask, BitVec.toNat_add, BitVec.toNat_add, toNat_and_mask]
  omega

theorem and_mask_mask (v : Word) : v &&& 0xffffffff &&& 0xffffffff = v &&& 0xffffffff := by
  rw [BitVec.and_assoc, BitVec.and_self]

theorem fit_mask (v : Word) : fit p (p.mask v) = fit p v := by
  simp only [fit, Platform.mask, Platform.word]
  split <;> split <;> simp only [and_mask_mask]

theorem fit_word (v : Word) : fit p (p.word v) = fit p v := by
  simp only [fit, Platform.mask, Platform.word]
  split <;> split <;> simp only [and_mask_mask]

theorem fit_fit (v : Word) : fit p (fit p v) = fit p v :=
  (fit_mask p (p.word v)).trans (fit_word p v)

theorem fit_back (v w : Word) : fit p (p.word (p.mask (fit p v) - w) + w) = fit p v := by
  simp only [fit, Platform.mask, Platform.word]
  split <;> split <;> simp only [and_mask_mask, and_mask_add, BitVec.sub_add_cancel]

end Fit

/-! ## Pokes -/

section Pokes

variable {p : Platform} {regs regs' regs'' : Registers}

theorem fit_poke_self (reg : Reg) (value : Word) :
    fit p (poke p regs reg value (p.regOffset reg)) = fit p value := by
  rw [poke]
  split
  · rename_i hsame
    rw [← hsame]
    exact (fit_mask p _).symm
  · simp [Platform.set, fit_word]

theorem poke_of_ne {i : Nat} {reg : Reg} (hne : i ≠ p.regOffset reg) (value : Word) :
    poke p regs reg value i = regs i := by
  rw [poke]
  split
  · rfl
  · exact if_neg hne

/-- The registers that no system call uses are the same, and so is the instruction pointer. -/
def Keeps (p : Platform) (regs regs' : Registers) : Prop :=
  ∀ i, (∀ reg, reg ≠ .INSTR_POINTER → i ≠ p.regOffset reg) → regs' i = regs i

theorem Keeps.refl : Keeps p regs regs := fun _ _ => rfl

theorem Keeps.trans (h : Keeps p regs regs') (h' : Keeps p regs' regs'') :
    Keeps p regs regs'' :=
  fun i hi => (h' i hi).trans (h i hi)

theorem Keeps.instr (hp : Layout p) (h : Keeps p regs regs') :
    regs' (p.regOffset .INSTR_POINTER) = regs (p.regOffset .INSTR_POINTER) :=
  h _ fun reg hreg => (hp.instr reg hreg).symm

theorem keeps_poke {reg : Reg} (hreg : reg ≠ .INSTR_POINTER) (value : Word) :
    Keeps p regs (poke p regs reg value) :=
  fun _ hi => poke_of_ne (hi reg hreg) value

theorem keeps_finished (result : Word) : Keeps p regs (finished p regs result) :=
  fun _ hi => if_neg (hi .SYSARG_RESULT (by decide))

def pokeList (p : Platform) (regs : Registers) (values : List (Reg × Word)) : Registers :=
  values.foldl (fun regs value => poke p regs value.1 value.2) regs

theorem keeps_pokeList {values : List (Reg × Word)}
    (hvalues : ∀ value ∈ values, value.1 ≠ .INSTR_POINTER) :
    Keeps p regs (pokeList p regs values) := by
  induction values generalizing regs with
  | nil => exact .refl
  | cons value values ih =>
      obtain ⟨hfirst, hrest⟩ := List.forall_mem_cons.mp hvalues
      exact (keeps_poke hfirst value.2).trans (ih hrest)

theorem pokeList_of_ne {i : Nat} {values : List (Reg × Word)}
    (hne : ∀ value ∈ values, i ≠ p.regOffset value.1) : pokeList p regs values i = regs i := by
  induction values generalizing regs with
  | nil => rfl
  | cons value values ih =>
      obtain ⟨hfirst, hrest⟩ := List.forall_mem_cons.mp hne
      exact (ih hrest).trans (poke_of_ne hfirst value.2)

theorem fit_pokeList {values : List (Reg × Word)}
    (hdistinct : (values.map fun value => p.regOffset value.1).Nodup) {reg : Reg} {value : Word}
    (hmem : (reg, value) ∈ values) :
    fit p (pokeList p regs values (p.regOffset reg)) = fit p value := by
  induction values generalizing regs with
  | nil => cases hmem
  | cons first values ih =>
      simp only [List.map_cons, List.nodup_cons, List.mem_map, not_exists, not_and] at hdistinct
      cases hmem with
      | head =>
          have hkept : pokeList p (poke p regs reg value) values (p.regOffset reg) =
              poke p regs reg value (p.regOffset reg) := by
            refine pokeList_of_ne ?_
            intro other hother heq
            exact hdistinct.1 other hother heq.symm
          show fit p (pokeList p (poke p regs reg value) values (p.regOffset reg)) = _
          rw [hkept, fit_poke_self]
      | tail _ hrest => exact ih hdistinct.2 hrest

end Pokes

/-! ## Operations on a tracee -/

/-- `t'` is `t` after operations that poke only registers of a system call. -/
structure Quiet (p : Platform) (t t' : Tracee) : Prop where
  original : t'.regs .ORIGINAL = t.regs .ORIGINAL
  current : Keeps p (t.regs .CURRENT) (t'.regs .CURRENT)
  restore : t'.restoreOriginalRegs = t.restoreOriginalRegs
  after : t'.restoreOriginalRegsAfterSeccompEvent = t.restoreOriginalRegsAfterSeccompEvent
  unchanged : t'.regsWereChanged = false →
    t.regsWereChanged = false ∧ t'.regs .CURRENT = t.regs .CURRENT

section Quiet

variable {p : Platform} {t t' t'' : Tracee}

theorem Quiet.refl : Quiet p t t := ⟨rfl, .refl, rfl, rfl, fun h => ⟨h, rfl⟩⟩

theorem Quiet.trans (h : Quiet p t t') (h' : Quiet p t' t'') : Quiet p t t'' where
  original := h'.original.trans h.original
  current := h.current.trans h'.current
  restore := h'.restore.trans h.restore
  after := h'.after.trans h.after
  unchanged := by
    intro hno
    obtain ⟨hno', hsame'⟩ := h'.unchanged hno
    obtain ⟨hno'', hsame⟩ := h.unchanged hno'
    exact ⟨hno'', hsame'.trans hsame⟩

theorem Quiet.of_regs (hregs : t'.regs = t.regs) (hchanged : t'.regsWereChanged = t.regsWereChanged)
    (hrestore : t'.restoreOriginalRegs = t.restoreOriginalRegs)
    (hafter : t'.restoreOriginalRegsAfterSeccompEvent = t.restoreOriginalRegsAfterSeccompEvent) :
    Quiet p t t' :=
  ⟨by rw [hregs], by rw [hregs]; exact .refl, hrestore, hafter,
    fun hno => ⟨hchanged ▸ hno, by rw [hregs]⟩⟩

theorem current_pokeReg (reg : Reg) (value : Word) :
    (t.pokeReg p reg value).regs .CURRENT = poke p (t.regs .CURRENT) reg value := by
  rw [Tracee.pokeReg, poke]
  split
  · rename_i hsame
    exact (if_pos hsame).symm
  · rename_i hne
    exact (if_neg hne).symm

theorem original_pokeReg (reg : Reg) (value : Word) :
    (t.pokeReg p reg value).regs .ORIGINAL = t.regs .ORIGINAL := by
  rw [Tracee.pokeReg]
  split <;> rfl

theorem quiet_pokeReg {reg : Reg} (hreg : reg ≠ .INSTR_POINTER) (value : Word) :
    Quiet p t (t.pokeReg p reg value) where
  original := original_pokeReg reg value
  current := by
    rw [current_pokeReg]
    exact keeps_poke hreg value
  restore := by simp
  after := by simp
  unchanged := by
    rw [Tracee.pokeReg]
    split
    · intro hno
      exact ⟨hno, rfl⟩
    · rintro ⟨⟩

end Quiet

/-! ## Handlers -/

/-- An operation that neither asks for the registers to be kept, as execve(2) does, nor starts the
system call again after a seccomp event. -/
def plain : Action → Bool
  | .pokeReg reg _ => reg ≠ .INSTR_POINTER
  | .keepRegs => false
  | .fixEnosysSyscall => false
  | .restartSyscallAfterSeccomp => false
  | .setResultAfterSeccomp _ => false
  | _ => true

def pending (t : Tracee) : List ChainedSyscall := t.chain.syscalls.getD []

def forcedResult (t : Tracee) : Option Word :=
  if t.chain.forceFinalResult then some t.chain.finalResult else none

/-- `t'` is `t` with more system calls in the chain. -/
structure Chained (t t' : Tracee) (calls : List ChainedSyscall) : Prop where
  pending : pending t' = pending t ++ calls
  isSome : t'.chain.syscalls.isSome = (t.chain.syscalls.isSome || !calls.isEmpty)
  state : t'.chain.sysnumWorkaroundState = t.chain.sysnumWorkaroundState

section Handlers

variable {p : Platform} {t t' t'' : Tracee} {actions : List Action}

theorem Chained.of_eq (h : t'.chain = t.chain) : Chained t t' [] := by
  refine ⟨?_, ?_, ?_⟩
  · rw [Rounds.pending, Rounds.pending, h, List.append_nil]
  · rw [h]
    simp
  · rw [h]

theorem Chained.trans {calls calls' : List ChainedSyscall} (h : Chained t t' calls)
    (h' : Chained t' t'' calls') : Chained t t'' (calls ++ calls') where
  pending := by rw [h'.pending, h.pending, List.append_assoc]
  isSome := by
    rw [h'.isSome, h.isSome]
    cases calls <;> cases calls' <;> simp
  state := h'.state.trans h.state

theorem forcedResult_of_eq (h : t'.chain = t.chain) : forcedResult t' = forcedResult t := by
  rw [forcedResult, forcedResult, h]

theorem chained_registerChainedSyscall (syscall : ChainedSyscall) :
    Chained t (t.registerChainedSyscall syscall) [syscall] :=
  ⟨rfl, by simp [Tracee.registerChainedSyscall, Tracee.registerChainedSyscallInternal], rfl⟩

theorem quiet_perform {action : Action} (h : plain action = true) :
    Quiet p t (t.perform p action) := by
  cases action with
  | pokeReg reg value => exact quiet_pokeReg (by simpa [plain] using h) value
  | setSysnum sysnum => exact quiet_pokeReg (by decide) _
  | keepRegs => simp [plain] at h
  | fixEnosysSyscall | restartSyscallAfterSeccomp | setResultAfterSeccomp => simp [plain] at h
  | _ => exact .of_regs rfl rfl rfl rfl

theorem current_perform {action : Action} (h : plain action = true) :
    (t.perform p action).regs .CURRENT = pokes p (t.regs .CURRENT) action := by
  cases action with
  | pokeReg reg value => exact current_pokeReg reg value
  | setSysnum sysnum => exact current_pokeReg _ _
  | fixEnosysSyscall | restartSyscallAfterSeccomp | setResultAfterSeccomp => simp [plain] at h
  | _ => rfl

theorem chained_perform {action : Action} (h : plain action = true) :
    Chained t (t.perform p action) (registration p (t.regs .ORIGINAL) action).toList := by
  cases action with
  | registerChainedSyscall syscall => exact chained_registerChainedSyscall syscall
  | restartOriginalSyscall => exact chained_registerChainedSyscall _
  | forceChainFinalResult result =>
      exact ⟨(List.append_nil _).symm, (Bool.or_false _).symm, rfl⟩
  | fixEnosysSyscall | restartSyscallAfterSeccomp | setResultAfterSeccomp => simp [plain] at h
  | _ => exact .of_eq (by simp [Tracee.perform])

theorem forcedResult_perform {action : Action} (h : plain action = true) :
    forcedResult (t.perform p action) = force (forcedResult t) action := by
  cases action with
  | registerChainedSyscall | restartOriginalSyscall | forceChainFinalResult => rfl
  | fixEnosysSyscall | restartSyscallAfterSeccomp | setResultAfterSeccomp => simp [plain] at h
  | _ => exact forcedResult_of_eq (by simp [Tracee.perform])

/-- What the operations of a handler do to the registers and the chain. -/
structure Performed (p : Platform) (t t' : Tracee) (actions : List Action) : Prop where
  quiet : Quiet p t t'
  current : t'.regs .CURRENT = actions.foldl (pokes p) (t.regs .CURRENT)
  chained : Chained t t' (actions.filterMap (registration p (t.regs .ORIGINAL)))
  forced : forcedResult t' = actions.foldl force (forcedResult t)

theorem performed_performAll (h : ∀ action ∈ actions, plain action = true) :
    Performed p t (t.performAll p actions) actions := by
  induction actions generalizing t with
  | nil => exact ⟨.refl, rfl, .of_eq rfl, rfl⟩
  | cons action actions ih =>
      obtain ⟨hfirst, hrest⟩ := List.forall_mem_cons.mp h
      have hquiet := quiet_perform (p := p) (t := t) hfirst
      have hperformed := ih (t := t.perform p action) hrest
      refine ⟨hquiet.trans hperformed.quiet, ?_, ?_, ?_⟩
      · exact hperformed.current.trans (by rw [current_perform hfirst, List.foldl_cons])
      · have hchained := (chained_perform (p := p) (t := t) hfirst).trans hperformed.chained
        rw [hquiet.original] at hchained
        rw [List.filterMap_cons]
        cases hr : registration p (t.regs .ORIGINAL) action with
        | none | some =>
            rw [hr] at hchained
            exact hchained
      · exact hperformed.forced.trans (by rw [forcedResult_perform hfirst, List.foldl_cons])

end Handlers

/-! ## The enter stage -/

section Enter

open Kernel (pushSpecificRegs_of_not_restore)

variable {p : Platform} {t u : Tracee} {h : Handler}

theorem quiet_settle (status : Int) : Quiet p t (t.settle p status) := by
  rw [Tracee.settle]
  split
  · have hset : Quiet p t (t.setSysnum p .PR_void) := quiet_pokeReg (by decide) _
    have hpoke := hset.trans (@quiet_pokeReg p _ .SYSARG_RESULT (by decide)
      (BitVec.ofInt 64 status))
    exact hpoke.trans (.of_regs rfl rfl rfl rfl)
  · split <;> exact .of_regs rfl rfl rfl rfl

theorem quiet_skipSysexit : Quiet p t (t.skipSysexit p) := by
  rw [Tracee.skipSysexit]
  split
  · have hreset : Quiet p t { t with status := 0 } := .of_regs rfl rfl rfl rfl
    exact hreset.trans (quiet_pokeReg (by decide) _)
  · exact .refl

theorem quiet_pokeInvalid : Quiet p t (t.pokeInvalid p) := by
  have hpokes : ∀ (reg : Reg) (u : Tracee), reg ≠ .INSTR_POINTER →
      Quiet p t u → Quiet p t (u.pokeReg p reg (-1)) := fun reg u hreg hu =>
    hu.trans (quiet_pokeReg hreg _)
  have hall := hpokes .SYSARG_6 _ (by decide) (hpokes .SYSARG_5 _ (by decide)
    (hpokes .SYSARG_4 _ (by decide) (hpokes .SYSARG_3 _ (by decide)
      (hpokes .SYSARG_2 _ (by decide) (hpokes .SYSARG_1 _ (by decide) .refl)))))
  simp only [Tracee.pokeInvalid]
  split
  · exact hall.trans (quiet_pokeReg (by decide) 0)
  · exact hall

/-- How the tracee at the end of the enter stage differs from the one before it was pushed. -/
structure Left (p : Platform) (h : Handler) (u v : Tracee) : Prop where
  quiet : Quiet p u v
  forced : forcedResult v = forcedResult u
  pending : pending v = pending u ++ restarted p h u
  isSome : v.chain.syscalls.isSome = (u.chain.syscalls.isSome || !(restarted p h u).isEmpty)
  state : v.chain.sysnumWorkaroundState =
    if restarted p h u = [] then u.chain.sysnumWorkaroundState else .PROCESS_FAULTY_CALL

/-- What the workaround leaves where the number can't be set. -/
theorem left_workAroundSysnum (hkeep : u.restoreOriginalRegs = false)
    (hstuck : stuck p h u = true) (suppressed : Int) :
    Left p h u (u.workAroundSysnum p suppressed) := by
  have hparts := hstuck
  simp only [stuck, Bool.and_eq_true, decide_eq_true_eq, Bool.not_eq_true',
    Option.isNone_iff_eq_none] at hparts
  obtain ⟨⟨hnone, -⟩, hdiffers⟩ := hparts
  have hpush : ∀ v : Tracee, Quiet p u v →
      ((v.pokeInvalid p).pushSpecificRegs p false false).1 = v.pokeInvalid p := by
    intro v hv
    refine pushSpecificRegs_of_not_restore ?_ _ _
    rw [(quiet_pokeInvalid (p := p) (t := v)).restore, hv.restore, hkeep]
  simp only [Tracee.workAroundSysnum, if_pos hdiffers]
  split
  · rename_i havoider
    have hcalls : restarted p h u = [u.syscallOf p .CURRENT] := by
      simp [restarted, hstuck, havoider]
    have hquiet : Quiet p u (u.restartCurrentSyscallAsChained p) := .of_regs rfl rfl rfl rfl
    rw [hpush _ hquiet]
    refine ⟨hquiet.trans quiet_pokeInvalid, ?_, ?_, ?_, ?_⟩
    · rw [forcedResult, forcedResult]
      simp [Tracee.restartCurrentSyscallAsChained, Tracee.registerChainedSyscallInternal]
    · rw [hcalls]
      simp only [Rounds.pending, Tracee.restartCurrentSyscallAsChained,
        Tracee.registerChainedSyscallInternal, Tracee.toFlags_pokeInvalid, hnone]
      rfl
    · rw [hcalls]
      simp [Tracee.restartCurrentSyscallAsChained, Tracee.registerChainedSyscallInternal]
    · rw [hcalls]
      simp [Tracee.restartCurrentSyscallAsChained, Tracee.registerChainedSyscallInternal]
  · rename_i havoider
    have hcalls : restarted p h u = [] := by
      simp only [restarted, havoider, decide_false, Bool.and_false, Bool.false_eq_true, if_false]
    have hkept : ∀ v : Tracee, Quiet p u v → v.chain = u.chain →
        Left p h u (v.pokeInvalid p) := by
      intro v hv hchain
      have hsame : (v.pokeInvalid p).chain = u.chain := by simp [hchain]
      refine ⟨hv.trans quiet_pokeInvalid, forcedResult_of_eq hsame, ?_, ?_, ?_⟩
      · rw [hcalls, List.append_nil, Rounds.pending, Rounds.pending, hsame]
      · rw [hcalls, hsame]
        simp
      · rw [hcalls, hsame]
        rfl
    split
    · obtain ⟨v, hv⟩ : ∃ v : Tracee, v = { u with
        status := suppressed, restartHow := some .PTRACE_SYSCALL } := ⟨_, rfl⟩
      have hquiet : Quiet p u v := by
        rw [hv]
        exact .of_regs rfl rfl rfl rfl
      rw [← hv, hpush v hquiet]
      exact hkept v hquiet (by rw [hv])
    · rw [hpush _ .refl]
      exact hkept _ .refl rfl

theorem Left.of_not_stuck (hstuck : stuck p h u = false) : Left p h u u := by
  have hcalls : restarted p h u = [] := by simp [restarted, hstuck]
  refine ⟨.refl, rfl, ?_, ?_, ?_⟩
  · rw [hcalls, List.append_nil]
  · rw [hcalls]
    simp
  · rw [hcalls]
    rfl

theorem Left.of_eq {v w : Tracee} (hleft : Left p h u v) (hregs : w.regs = v.regs)
    (hchanged : w.regsWereChanged = v.regsWereChanged)
    (hrestore : w.restoreOriginalRegs = v.restoreOriginalRegs)
    (hafter : w.restoreOriginalRegsAfterSeccompEvent = v.restoreOriginalRegsAfterSeccompEvent)
    (hchain : w.chain = v.chain) : Left p h u w where
  quiet := hleft.quiet.trans (.of_regs hregs hchanged hrestore hafter)
  forced := (forcedResult_of_eq hchain).trans hleft.forced
  pending := by
    rw [← hleft.pending, Rounds.pending, Rounds.pending, hchain]
  isSome := by rw [hchain, hleft.isSome]
  state := by rw [hchain, hleft.state]

theorem left_pushEntered (hkeep : u.restoreOriginalRegs = false) (suppressed : Int) :
    Left p h u (u.pushEntered p h suppressed) := by
  have hpushed := pushSpecificRegs_of_not_restore (p := p) hkeep u.chain.syscalls.isNone
    h.sysnumFails
  simp only [Tracee.pushEntered, hpushed]
  cases hstuck : stuck p h u with
  | true =>
      have hparts := hstuck
      simp only [stuck, Bool.and_eq_true, Bool.not_eq_true'] at hparts
      rw [if_pos (by simp [hparts.1.1, hparts.1.2])]
      exact (left_workAroundSysnum hkeep hstuck suppressed).of_eq rfl rfl rfl rfl rfl
  | false =>
      have hsame : ∀ b : Bool, (!b && u.chain.syscalls.isNone) = true →
          b = (u.pushSpecificRegs p u.chain.syscalls.isNone h.sysnumFails).2 →
          u.workAroundSysnum p suppressed = u := by
        intro b hcond hb
        simp only [Bool.and_eq_true, Bool.not_eq_true'] at hcond
        have hequal : ¬ u.peekReg p .ORIGINAL .SYSARG_NUM ≠ u.peekReg p .CURRENT .SYSARG_NUM := by
          intro hne
          rw [hcond.2] at hb
          simp [stuck, hcond.2, ← hb, hcond.1, hne] at hstuck
        rw [Tracee.workAroundSysnum, if_neg hequal]
      split
      · rename_i hcond
        rw [hsame _ hcond rfl]
        exact (Left.of_not_stuck hstuck).of_eq rfl rfl rfl rfl rfl
      · exact (Left.of_not_stuck hstuck).of_eq rfl rfl rfl rfl rfl

/-- What is known at the end of the enter stage, before the registers are pushed. -/
structure Stopped (p : Platform) (regs saved : Registers) (t u : Tracee)
    (actions : List Action) : Prop where
  original : u.regs .ORIGINAL = saved
  current : Keeps p regs (u.regs .CURRENT)
  keep : u.restoreOriginalRegs = false
  after : u.restoreOriginalRegsAfterSeccompEvent = t.restoreOriginalRegsAfterSeccompEvent
  unchanged : u.regsWereChanged = false → u.regs .CURRENT = regs ∧
    (t.chain.syscalls.isSome = true → t.regsWereChanged = false)
  chained : Chained t u (actions.filterMap (registration p saved))
  forced : forcedResult u = actions.foldl force (forcedResult t)

theorem stopped_settled {regs saved : Registers} {actions : List Action} {v : Tracee}
    (status : Int) (hv : Stopped p regs saved t v actions) :
    Stopped p regs saved t ((v.settle p status).skipSysexit p) actions := by
  have hquiet : Quiet p v ((v.settle p status).skipSysexit p) :=
    (quiet_settle status).trans quiet_skipSysexit
  have hchain : ((v.settle p status).skipSysexit p).chain = v.chain := by simp
  refine ⟨hquiet.original.trans hv.original, hv.current.trans hquiet.current,
    hquiet.restore.trans hv.keep, hquiet.after.trans hv.after, ?_, ?_,
    (forcedResult_of_eq hchain).trans hv.forced⟩
  · intro hno
    obtain ⟨hno', hsame⟩ := hquiet.unchanged hno
    obtain ⟨hregs, hchanged⟩ := hv.unchanged hno'
    exact ⟨hsame.trans hregs, hchanged⟩
  · have hboth := hv.chained.trans (.of_eq hchain)
    rwa [List.append_nil] at hboth

/-- The enter stage of the tracee's own system call. -/
theorem stopped_original {regs : Registers} (hnone : t.chain.syscalls = none)
    (hplain : ∀ action ∈ h.actions, plain action = true) :
    Stopped p regs regs t (beforePush p h (t.fetchRegs regs)) (enterActions h t) := by
  have hactions : enterActions h t = h.actions := by simp [enterActions, hnone]
  obtain ⟨s, hs⟩ : ∃ s : Tracee, s = Tracee.saveCurrentRegs { t.fetchRegs regs with
    restoreOriginalRegs := false, voidedSyscallCancelled := false } .ORIGINAL := ⟨_, rfl⟩
  have hperformed := performed_performAll (p := p) (t := s) hplain
  have hbefore : beforePush p h (t.fetchRegs regs) =
      ((((s.performAll p h.actions).saveCurrentRegs .MODIFIED).settle p h.status).skipSysexit
        p) := by
    have hchain : (t.fetchRegs regs).chain.syscalls = none := hnone
    simp only [beforePush, Tracee.translateEnter, hchain, hs]
  have hregs : s.regs .ORIGINAL = regs ∧ s.regs .CURRENT = regs := by
    rw [hs]
    exact ⟨rfl, rfl⟩
  rw [hbefore, hactions]
  refine stopped_settled h.status ⟨hperformed.quiet.original.trans hregs.1, ?_, ?_, ?_, ?_, ?_, ?_⟩
  · have hcurrent := hperformed.quiet.current
    rw [hregs.2] at hcurrent
    exact hcurrent
  · exact hperformed.quiet.restore.trans (by rw [hs]; rfl)
  · exact hperformed.quiet.after.trans (by rw [hs]; rfl)
  · intro hno
    obtain ⟨-, hsame⟩ := hperformed.quiet.unchanged hno
    refine ⟨hsame.trans hregs.2, ?_⟩
    simp [hnone]
  · have hchained := hperformed.chained
    rw [hregs.1] at hchained
    have hstart : Chained t s [] := .of_eq (by rw [hs]; rfl)
    have hend : Chained (s.performAll p h.actions)
        ((s.performAll p h.actions).saveCurrentRegs .MODIFIED) [] := .of_eq rfl
    have hall := (hstart.trans hchained).trans hend
    rwa [List.nil_append, List.append_nil] at hall
  · exact hperformed.forced.trans (by rw [hs]; rfl)

/-- The enter stage of an injected system call. -/
theorem stopped_injected {regs : Registers} (hsome : t.chain.syscalls.isSome = true)
    (hplain : ∀ action ∈ h.actions, plain action = true) :
    Stopped p regs (t.regs .ORIGINAL) t (beforePush p h (t.fetchRegs regs)) (enterActions h t) ∧
      (0 ≤ h.status → (∀ action ∈ h.actions, ∀ bank, pokes p bank action = bank) →
        (beforePush p h (t.fetchRegs regs)).regs .CURRENT = regs) := by
  obtain ⟨s, hs⟩ : ∃ s : Tracee, s = { t.fetchRegs regs with
    restoreOriginalRegs := false, voidedSyscallCancelled := false } := ⟨_, rfl⟩
  have hplain' : ∀ action ∈ enterActions h t, plain action = true := by
    intro action hmem
    rw [enterActions] at hmem
    split at hmem
    · cases hmem
    · exact hplain action hmem
  have hperformed := performed_performAll (p := p) (t := s) hplain'
  obtain ⟨v, hv⟩ : ∃ v : Tracee, v = { s.performAll p (enterActions h t) with
    restartHow := some .PTRACE_SYSCALL } := ⟨_, rfl⟩
  obtain ⟨status, hbefore, hstatus⟩ : ∃ status : Int,
      beforePush p h (t.fetchRegs regs) = (v.settle p status).skipSysexit p ∧
      (0 ≤ h.status → 0 ≤ status) := by
    obtain ⟨syscalls, hsyscalls⟩ := Option.isSome_iff_exists.mp hsome
    have hchain : (t.fetchRegs regs).chain.syscalls = some syscalls := hsyscalls
    have hstate : (t.fetchRegs regs).chain.sysnumWorkaroundState =
        t.chain.sysnumWorkaroundState := rfl
    simp only [beforePush, Tracee.translateEnter, hchain, hstate, hv, hs]
    rcases eq_or_ne t.chain.sysnumWorkaroundState .PROCESS_REPLACED_CALL with hr | hr
    · refine ⟨0, ?_, fun _ => le_refl 0⟩
      simp [enterActions, hsyscalls, hr, Tracee.performAll]
    · refine ⟨h.status, ?_, id⟩
      simp [enterActions, hr]
  have hregs : s.regs .ORIGINAL = t.regs .ORIGINAL ∧ s.regs .CURRENT = regs := by
    rw [hs]
    exact ⟨rfl, rfl⟩
  have hquiet : Quiet p s v := hperformed.quiet.trans (by
    rw [hv]
    exact .of_regs rfl rfl rfl rfl)
  rw [hbefore]
  refine ⟨stopped_settled status ⟨hquiet.original.trans hregs.1, ?_, ?_, ?_, ?_, ?_, ?_⟩, ?_⟩
  · have hcurrent := hquiet.current
    rw [hregs.2] at hcurrent
    exact hcurrent
  · exact hquiet.restore.trans (by rw [hs])
  · exact hquiet.after.trans (by rw [hs]; rfl)
  · intro hno
    obtain ⟨hno', hsame⟩ := hquiet.unchanged hno
    refine ⟨hsame.trans hregs.2, fun _ => ?_⟩
    rw [hs] at hno'
    exact hno'
  · have hchained := hperformed.chained
    rw [hregs.1] at hchained
    have hstart : Chained t s [] := .of_eq (by rw [hs]; rfl)
    have hend : Chained (s.performAll p (enterActions h t)) v [] := .of_eq (by rw [hv])
    have hall := (hstart.trans hchained).trans hend
    rwa [List.nil_append, List.append_nil] at hall
  · have hforced := hperformed.forced
    exact (forcedResult_of_eq (by rw [hv])).trans (hforced.trans (by rw [hs]; rfl))
  · -- a handler that leaves the registers alone and succeeds
    intro hpositive hleaves
    have hleaves' : ∀ actions : List Action, (∀ action ∈ actions, action ∈ h.actions) →
        ∀ bank, actions.foldl (pokes p) bank = bank := by
      intro actions
      induction actions with
      | nil => exact fun _ _ => rfl
      | cons action actions ih =>
          intro hmem bank
          obtain ⟨hfirst, hrest⟩ := List.forall_mem_cons.mp hmem
          rw [List.foldl_cons, hleaves action hfirst, ih hrest]
    have hcurrent : v.regs .CURRENT = regs := by
      rw [hv]
      refine hperformed.current.trans ?_
      rw [hregs.2]
      refine hleaves' _ ?_ regs
      intro action hmem
      rw [enterActions] at hmem
      split at hmem
      · cases hmem
      · exact hmem
    have hnot : ¬ status < 0 := not_lt.mpr (hstatus hpositive)
    have hsettled : (v.settle p status).regs = v.regs ∧
        (v.settle p status).restartHow = some .PTRACE_SYSCALL := by
      rw [Tracee.settle, if_neg hnot]
      split
      · exact ⟨rfl, rfl⟩
      · exact ⟨rfl, by rw [hv]⟩
    rw [Tracee.skipSysexit, if_neg (by rw [hsettled.2]; rintro ⟨⟩), hsettled.1, hcurrent]

/-! ### After the enter stage -/

/-- What is known after the enter stage; `real` are the registers of the tracee. -/
structure After (p : Platform) (h : Handler) (regs saved : Registers) (t v : Tracee)
    (real : Registers) : Prop where
  original : v.regs .ORIGINAL = saved
  kept : Keeps p regs real
  after : v.restoreOriginalRegsAfterSeccompEvent = t.restoreOriginalRegsAfterSeccompEvent
  unchanged : v.regsWereChanged = false → real = regs ∧
    (t.chain.syscalls.isSome = true → t.regsWereChanged = false)
  pending : pending v = Rounds.pending t ++ (enterActions h t).filterMap (registration p saved) ++
    restarted p h (beforePush p h (t.fetchRegs regs))
  isSome : v.chain.syscalls.isSome = (t.chain.syscalls.isSome ||
    !((enterActions h t).filterMap (registration p saved) ++
      restarted p h (beforePush p h (t.fetchRegs regs))).isEmpty)
  state : v.chain.sysnumWorkaroundState =
    if restarted p h (beforePush p h (t.fetchRegs regs)) = [] then t.chain.sysnumWorkaroundState
    else .PROCESS_FAULTY_CALL
  forced : forcedResult v = (enterActions h t).foldl force (forcedResult t)

theorem changed_of_push_fails (hkeep : u.restoreOriginalRegs = false) {including fails : Bool}
    (hfails : (u.pushSpecificRegs p including fails).2 = false) : u.regsWereChanged = true := by
  cases hchanged : u.regsWereChanged with
  | true => rfl
  | false => simp [Tracee.pushSpecificRegs, hchanged, hkeep] at hfails

/-- What the push leaves of the registers at the enter stop. -/
theorem after_of_stopped {regs saved : Registers} (hstatus : t.status = 0)
    (hu : Stopped p regs saved t (beforePush p h (t.fetchRegs regs)) (enterActions h t)) :
    After p h regs saved t (t.translateSyscall p h regs) (enteredRegs p h regs t) := by
  obtain ⟨u, hbefore⟩ : ∃ u, u = beforePush p h (t.fetchRegs regs) := ⟨_, rfl⟩
  rw [← hbefore] at hu
  obtain ⟨suppressed, hstage⟩ : ∃ suppressed, (t.fetchRegs regs).enterStage p h =
      u.pushEntered p h suppressed := by
    rw [hbefore]
    exact ⟨_, rfl⟩
  have hleft := left_pushEntered (p := p) (h := h) hu.keep suppressed
  obtain ⟨v, hv⟩ : ∃ v, v = t.translateSyscall p h regs := ⟨_, rfl⟩
  have hentered := Tracee.translateSyscall_enter p h regs hstatus
  rw [hstage] at hentered
  have hleft' : Left p h u v :=
    hleft.of_eq (by rw [hv, hentered]) (by rw [hv, hentered]) (by rw [hv, hentered])
      (by rw [hv, hentered]) (by rw [hv, hentered])
  have hreal : enteredRegs p h regs t = if stuck p h u then v.regs .CURRENT
      else pushed p u u.chain.syscalls.isNone h.sysnumFails regs := by
    rw [enteredRegs, ← hbefore, hstage, hv, hentered]
  have hpushed := Kernel.pushSpecificRegs_of_not_restore (p := p) hu.keep u.chain.syscalls.isNone
    h.sysnumFails
  rw [← hv]
  refine ⟨hleft'.quiet.original.trans hu.original, ?_, hleft'.quiet.after.trans hu.after, ?_, ?_,
    ?_, ?_, hleft'.forced.trans hu.forced⟩
  · rw [hreal]
    split
    · exact hu.current.trans hleft'.quiet.current
    · rw [pushed, hpushed]
      split
      · exact hu.current
      · exact .refl
  · intro hno
    obtain ⟨hno', -⟩ := hleft'.quiet.unchanged hno
    refine ⟨?_, (hu.unchanged hno').2⟩
    rw [hreal]
    split
    · rename_i hstuck
      simp only [stuck, Bool.and_eq_true, Bool.not_eq_true'] at hstuck
      have hchanged := changed_of_push_fails hu.keep hstuck.1.2
      rw [hno'] at hchanged
      cases hchanged
    · rw [pushed, hno', hu.keep]
      rfl
  · rw [hleft'.pending, hu.chained.pending, hbefore]
  · rw [hleft'.isSome, hu.chained.isSome, hbefore]
    cases (enterActions h t).filterMap (registration p saved) with
    | nil | cons => simp
  · rw [hleft'.state, hu.chained.state, hbefore]

end Enter

/-! ## The exit stage -/

section Exit

variable {p : Platform} {t u : Tracee} {h : Handler} {regs : Registers}

/-- What is known after the handlers of the exit stage. -/
structure Handled (p : Platform) (regs : Registers) (t u : Tracee) (actions : List Action) :
    Prop where
  original : u.regs .ORIGINAL = t.regs .ORIGINAL
  current : u.regs .CURRENT = actions.foldl (pokes p) regs
  kept : Keeps p regs (u.regs .CURRENT)
  restore : u.restoreOriginalRegs = true
  after : u.restoreOriginalRegsAfterSeccompEvent = t.restoreOriginalRegsAfterSeccompEvent
  unchanged : u.regsWereChanged = false → t.regsWereChanged = false ∧ u.regs .CURRENT = regs
  pending : pending u =
    Rounds.pending t ++ actions.filterMap (registration p (t.regs .ORIGINAL))
  isSome : u.chain.syscalls.isSome = (t.chain.syscalls.isSome ||
    !(actions.filterMap (registration p (t.regs .ORIGINAL))).isEmpty)
  state : u.chain.sysnumWorkaroundState ≠ .PROCESS_FAULTY_CALL
  forced : forcedResult u = actions.foldl force (forcedResult t)

/-- The handlers of the exit stage, which start from a tracee that differs only in the state of the
workaround. -/
theorem handled_performAll {s : Tracee} {actions : List Action}
    (hplain : ∀ action ∈ actions, plain action = true) (hregs : s.regs = (t.fetchRegs regs).regs)
    (hchanged : s.regsWereChanged = t.regsWereChanged) (hrestore : s.restoreOriginalRegs = true)
    (hafter : s.restoreOriginalRegsAfterSeccompEvent = t.restoreOriginalRegsAfterSeccompEvent)
    (hsyscalls : s.chain.syscalls = t.chain.syscalls) (hforced : forcedResult s = forcedResult t)
    (hstate : s.chain.sysnumWorkaroundState ≠ .PROCESS_FAULTY_CALL) :
    Handled p regs t (s.performAll p actions) actions := by
  have hperformed := performed_performAll (p := p) (t := s) hplain
  have hcurrent : s.regs .CURRENT = regs := by
    rw [hregs]
    rfl
  have horiginal : s.regs .ORIGINAL = t.regs .ORIGINAL := by
    rw [hregs]
    rfl
  have hchained := hperformed.chained
  rw [horiginal] at hchained
  refine ⟨hperformed.quiet.original.trans horiginal, ?_, ?_, hperformed.quiet.restore.trans hrestore,
    hperformed.quiet.after.trans hafter, ?_, ?_, ?_, ?_, ?_⟩
  · rw [hperformed.current, hcurrent]
  · have hquiet := hperformed.quiet.current
    rw [hcurrent] at hquiet
    exact hquiet
  · intro hno
    obtain ⟨hno', hsame⟩ := hperformed.quiet.unchanged hno
    exact ⟨hchanged ▸ hno', hsame.trans hcurrent⟩
  · rw [hchained.pending, Rounds.pending, hsyscalls, ← Rounds.pending]
  · rw [hchained.isSome, hsyscalls]
  · rw [hchained.state]
    exact hstate
  · rw [hperformed.forced, hforced]

/-- What the handlers of the exit stage do to the registers and to the chain. -/
theorem handled_translateExit (hplain : ∀ action ∈ h.actions, plain action = true) :
    Handled p regs t ({ t.fetchRegs regs with restoreOriginalRegs := true }.translateExit p h)
      (exitActions h t) := by
  have hchain : (t.fetchRegs regs).chain = t.chain := rfl
  simp only [Tracee.translateExit, hchain, exitActions]
  split
  · rename_i hrun
    have hactions : (t.chain.syscalls.isSome &&
        decide (t.chain.sysnumWorkaroundState = .PROCESS_FAULTY_CALL)) = false := by
      cases hsyscalls : t.chain.syscalls with
      | none => rfl
      | some syscalls =>
          have hreplaced : t.chain.sysnumWorkaroundState = .PROCESS_REPLACED_CALL := by
            simpa [hsyscalls] using hrun
          simp [hreplaced]
    rw [hactions]
    exact handled_performAll hplain rfl rfl rfl rfl rfl rfl (by rintro ⟨⟩)
  · rename_i hrun
    have hsome : t.chain.syscalls.isSome = true := by
      cases hsyscalls : t.chain.syscalls with
      | none => simp [hsyscalls] at hrun
      | some syscalls => rfl
    split
    · rename_i hfaulty
      have hactions : (t.chain.syscalls.isSome &&
          decide (t.chain.sysnumWorkaroundState = .PROCESS_FAULTY_CALL)) = true := by
        simp [hsome, hfaulty]
      rw [hactions]
      exact @handled_performAll _ _ _ _ [] (by simp) rfl rfl rfl rfl rfl rfl (by rintro ⟨⟩)
    · rename_i hfaulty
      have hactions : (t.chain.syscalls.isSome &&
          decide (t.chain.sysnumWorkaroundState = .PROCESS_FAULTY_CALL)) = false := by
        simp [hfaulty]
      rw [hactions]
      exact handled_performAll hplain rfl rfl rfl rfl rfl rfl hfaulty

/-! ### Restored registers -/

theorem restore_foldl (saved : Registers) (list : List Reg) (bank : Registers) (i : Nat) :
    (list.foldl (fun regs reg =>
      if Tracee.restores p reg then fun i => if i = p.regOffset reg then saved i else regs i
      else regs) bank) i =
      if ∃ reg ∈ list, Tracee.restores p reg = true ∧ i = p.regOffset reg then saved i
      else bank i := by
  induction list generalizing bank with
  | nil => simp
  | cons reg list ih =>
      rw [List.foldl_cons, ih]
      by_cases hrest : ∃ reg ∈ list, Tracee.restores p reg = true ∧ i = p.regOffset reg
      · have hall : ∃ reg' ∈ reg :: list, Tracee.restores p reg' = true ∧ i = p.regOffset reg' := by
          obtain ⟨reg', hmem, hreg'⟩ := hrest
          exact ⟨reg', List.mem_cons_of_mem _ hmem, hreg'⟩
        rw [if_pos hrest, if_pos hall]
      · rw [if_neg hrest]
        simp only [List.exists_mem_cons_iff, hrest, or_false]
        cases hr : Tracee.restores p reg with
        | true | false => simp

theorem restore_of_ne {saved bank : Registers} (hkeeps : Keeps p saved bank) {i : Nat}
    (hi : i ≠ p.regOffset .SYSARG_RESULT) : Tracee.restore p saved bank i = saved i := by
  rw [Tracee.restore, restore_foldl]
  split
  · rfl
  · rename_i hnot
    refine hkeeps i ?_
    intro reg hreg heq
    refine hnot ⟨reg, ?_, ?_, heq⟩
    · cases reg <;> simp_all [Tracee.restoredRegs]
    · have hne : p.regOffset .SYSARG_RESULT ≠ p.regOffset reg := by
        rw [← heq]
        exact hi.symm
      simp [Tracee.restores, hne]

theorem restore_result (hp : Layout p) (saved bank : Registers) :
    Tracee.restore p saved bank (p.regOffset .SYSARG_RESULT) =
      bank (p.regOffset .SYSARG_RESULT) := by
  rw [Tracee.restore, restore_foldl, if_neg]
  rintro ⟨reg, hmem, hrestores, heq⟩
  rw [hp.restores reg hmem heq.symm] at hrestores
  cases hrestores

theorem pushed_of_restore (hrestore : u.restoreOriginalRegs = true)
    (hafter : u.restoreOriginalRegsAfterSeccompEvent = false) (fails : Bool) :
    pushed p u false fails regs =
        (if u.regsWereChanged then Tracee.restore p (u.regs .ORIGINAL) (u.regs .CURRENT)
        else regs) ∧
      (u.pushSpecificRegs p false fails).1.regs .CURRENT =
        (if u.regsWereChanged then Tracee.restore p (u.regs .ORIGINAL) (u.regs .CURRENT)
        else u.regs .CURRENT) ∧
      (u.pushSpecificRegs p false fails).1.regs .ORIGINAL = u.regs .ORIGINAL := by
  cases hchanged : u.regsWereChanged with
  | true =>
      simp [pushed, Tracee.pushSpecificRegs, hchanged, Tracee.restoreRegs, hrestore, hafter,
        Tracee.setBank]
  | false =>
      simp [pushed, Tracee.pushSpecificRegs, hchanged, hafter]

theorem pushed_of_keep (hkeep : u.restoreOriginalRegs = false) (hchanged : u.regsWereChanged = true)
    {including fails : Bool} (hsucceeds : (including && fails) = false) :
    pushed p u including fails regs = u.regs .CURRENT ∧
      (u.pushSpecificRegs p including fails).1 = u := by
  have hsame := Kernel.pushSpecificRegs_of_not_restore (p := p) hkeep including fails
  have hpush : (u.pushSpecificRegs p including fails).2 = true := by
    cases including with
    | true =>
        have hfails : fails = false := hsucceeds
        simp [Tracee.pushSpecificRegs, hchanged, hfails]
    | false => simp [Tracee.pushSpecificRegs, hchanged]
  refine ⟨?_, hsame⟩
  rw [pushed, hsame, hpush, hchanged]
  rfl

/-! ### Injected registers -/

/-- What `chain_next_syscall` pokes before it moves the instruction pointer. -/
def chainedValues (p : Platform) (syscall : ChainedSyscall) : List (Reg × Word) :=
  [(.SYSARG_1, syscall.sysarg1), (.SYSARG_2, syscall.sysarg2), (.SYSARG_3, syscall.sysarg3),
    (.SYSARG_4, syscall.sysarg4), (.SYSARG_5, syscall.sysarg5), (.SYSARG_6, syscall.sysarg6),
    (p.systrapNum, p.numberOf syscall.sysnum)]

theorem nodup_chainedValues (hp : Layout p) (syscall : ChainedSyscall) :
    ((chainedValues p syscall).map fun value => p.regOffset value.1).Nodup := by
  have hcalls := hp.calls
  simp only [callRegs, List.forall_mem_cons, List.not_mem_nil, false_implies, implies_true] at hcalls
  simp only [chainedValues, List.map_cons, List.map_nil, List.nodup_cons, List.mem_cons,
    List.not_mem_nil, or_false, not_or, List.nodup_nil, and_true, not_false_eq_true]
  rcases hp.trap with htrap | ⟨htrap, hresult⟩
  · rw [htrap]
    grind
  · rw [htrap]
    have hne := fun reg h => (hresult reg h)
    grind

theorem regs_pokeChained (syscall : ChainedSyscall) :
    ∃ values : Registers, values = pokeList p (t.regs .CURRENT) (chainedValues p syscall) ∧
      (t.pokeChained p syscall).regs .CURRENT =
        poke p values .INSTR_POINTER (p.peek values .INSTR_POINTER - p.systrapSize) ∧
      (t.pokeChained p syscall).regs .ORIGINAL = t.regs .ORIGINAL := by
  refine ⟨_, rfl, ?_, ?_⟩
  · simp only [Tracee.pokeChained, current_pokeReg, Tracee.peekReg, pokeList, chainedValues,
      List.foldl_cons, List.foldl_nil]
  · simp only [Tracee.pokeChained, original_pokeReg]

theorem sub_size_ne (hp : Layout p) (v : Word) : v ≠ v - p.systrapSize := by
  intro heq
  refine hp.size ?_
  have hadd := congrArg (· + p.systrapSize) heq
  simp only [BitVec.sub_add_cancel] at hadd
  simpa using hadd

theorem changed_pokeChained (hp : Layout p) (syscall : ChainedSyscall) :
    (t.pokeChained p syscall).regsWereChanged = true := by
  simp only [Tracee.pokeChained]
  generalize Tracee.pokeReg p (Tracee.pokeReg p (Tracee.pokeReg p (Tracee.pokeReg p
    (Tracee.pokeReg p (Tracee.pokeReg p (Tracee.pokeReg p t _ _) _ _) _ _) _ _) _ _) _ _) _ _ = u
  rw [Tracee.pokeReg, if_neg (sub_size_ne hp _)]

/-- **The trap of an injected system call.** The kernel finds the system call that was registered,
and the instruction pointer is where it was. -/
theorem trapped_pokeChained (hp : Layout p) {syscall : ChainedSyscall} {saved : Registers}
    (hroot : fit p (saved (p.regOffset .INSTR_POINTER)) = saved (p.regOffset .INSTR_POINTER))
    (hkept : Keeps p saved (t.regs .CURRENT)) :
    callOf p (trapped p ((t.pokeChained p syscall).regs .CURRENT)) = chainedCall p syscall ∧
      Keeps p saved (trapped p ((t.pokeChained p syscall).regs .CURRENT)) := by
  obtain ⟨values, hvalues, hregs, -⟩ := regs_pokeChained (p := p) (t := t) syscall
  rw [hregs]
  have hnoinstr : ∀ value ∈ chainedValues p syscall, value.1 ≠ .INSTR_POINTER := by
    simp only [chainedValues, List.forall_mem_cons, List.not_mem_nil, false_implies, implies_true]
    rcases hp.trap with htrap | ⟨htrap, -⟩ <;> rw [htrap] <;> decide
  have hkeeps : Keeps p saved values := by
    rw [hvalues]
    exact hkept.trans (keeps_pokeList hnoinstr)
  have hother : ∀ i, i ≠ p.regOffset .INSTR_POINTER →
      poke p values .INSTR_POINTER (p.peek values .INSTR_POINTER - p.systrapSize) i =
        values i := fun i hi => poke_of_ne hi _
  have hinstr : poke p values .INSTR_POINTER (p.peek values .INSTR_POINTER - p.systrapSize)
      (p.regOffset .INSTR_POINTER) =
        p.word (p.mask (saved (p.regOffset .INSTR_POINTER)) - p.systrapSize) := by
    have hpeek : p.peek values .INSTR_POINTER = p.mask (saved (p.regOffset .INSTR_POINTER)) := by
      rw [Platform.peek, hkeeps.instr hp]
    rw [poke, if_neg (sub_size_ne hp _), Platform.set, if_pos rfl, hpeek]
  have hfit : ∀ reg value, (reg, value) ∈ chainedValues p syscall →
      fit p (values (p.regOffset reg)) = fit p value := by
    intro reg value hmem
    rw [hvalues]
    exact fit_pokeList (nodup_chainedValues hp syscall) hmem
  have hcall : ∀ reg ∈ callRegs,
      fit p (trapped p (poke p values .INSTR_POINTER
        (p.peek values .INSTR_POINTER - p.systrapSize)) (p.regOffset reg)) =
      fit p (values (p.regOffset (if reg = .SYSARG_NUM then p.systrapNum else reg))) := by
    intro reg hmem
    have hreg : reg ≠ .INSTR_POINTER := by
      intro heq
      rw [heq] at hmem
      revert hmem
      decide
    rw [trapped, if_neg (hp.instr reg hreg)]
    rcases hp.trap with htrap | ⟨htrap, hresult⟩
    · have hno : ¬ p.systrapNum = .SYSARG_RESULT := by
        rw [htrap]
        decide
      rw [if_neg (fun h => hno h.1), if_neg (fun h => hno h.1), hother _ (hp.instr reg hreg), htrap]
      split
      · rename_i heq
        rw [heq]
      · rfl
    · by_cases hnum : reg = .SYSARG_NUM
      · rw [if_pos ⟨htrap, by rw [hnum]⟩, hother _ (hp.instr .SYSARG_RESULT (by decide)),
          if_pos hnum, htrap]
      · have hne : p.regOffset reg ≠ p.regOffset .SYSARG_NUM := fun heq =>
          hnum (hp.calls reg hmem .SYSARG_NUM (by decide) heq)
        have hnotresult : reg ≠ .SYSARG_RESULT := by
          intro heq
          rw [heq] at hmem
          revert hmem
          decide
        rw [if_neg (fun h => hne h.2), if_neg (fun h => hresult reg hnotresult h.2),
          hother _ (hp.instr reg hreg), if_neg hnum]
  refine ⟨?_, ?_⟩
  · have hall := hcall
    simp only [callRegs, List.forall_mem_cons, reduceCtorEq, if_true, if_false] at hall
    obtain ⟨hnum, h1, h2, h3, h4, h5, h6, -⟩ := hall
    simp only [callOf, callRegs, chainedCall, List.map_cons, List.map_nil, hnum, h1, h2, h3, h4, h5,
      h6]
    rw [hfit p.systrapNum (p.numberOf syscall.sysnum) (by simp [chainedValues]),
      hfit .SYSARG_1 syscall.sysarg1 (by simp [chainedValues]),
      hfit .SYSARG_2 syscall.sysarg2 (by simp [chainedValues]),
      hfit .SYSARG_3 syscall.sysarg3 (by simp [chainedValues]),
      hfit .SYSARG_4 syscall.sysarg4 (by simp [chainedValues]),
      hfit .SYSARG_5 syscall.sysarg5 (by simp [chainedValues]),
      hfit .SYSARG_6 syscall.sysarg6 (by simp [chainedValues])]
  · intro i hi
    rw [trapped]
    split
    · rename_i heq
      rw [heq, hinstr, ← hroot]
      exact fit_back p _ _
    · rename_i hne
      rw [if_neg (fun h => hi .SYSARG_NUM (by decide) h.2),
        if_neg (fun h => hi .SYSARG_RESULT (by decide) h.2), hother i hne]
      exact hkeeps i hi

end Exit

end Rounds

end Improot.Event
