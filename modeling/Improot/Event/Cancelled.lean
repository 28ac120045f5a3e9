import Improot.Event.Frame
import Improot.Event.Kernel

/-!
# When the kernel cancels a system call

The enter stage remembers whether the kernel is about to cancel the system call.  It is right about
that when the handler changes the number with `set_sysnum` only, and doesn't register a chain for a
system call that it voids.
-/

namespace Improot.Event

namespace Kernel

open Improot.Syscall

/-! ## Numbers -/

/-- What the event loop relies on for the numbers of a platform. -/
structure Numbers (p : Platform) : Prop where
  offset : ∀ reg, reg ≠ .SYSARG_NUM → p.regOffset reg ≠ p.regOffset .SYSARG_NUM
  void : p.mask (p.word p.avoider) = p.mask p.avoider
  cancels : negative (p.mask p.avoider) = Tracee.kernelCancelsVoidedSyscall p
  numberOf : ∀ sysnum, p.numberOf sysnum = p.avoider ∨
    negative (p.mask (p.word (p.numberOf sysnum))) = false

theorem numberOf_eq_avoider_or_lt (p : Platform) (sysnum : Sysnum) :
    p.numberOf sysnum = p.avoider ∨
      ∃ number, number < 2 ^ 31 ∧ p.numberOf sysnum = BitVec.ofNat 64 number := by
  rw [Platform.numberOf, Platform.avoider]
  rcases eq_or_ne sysnum .PR_void with rfl | hvoid
  · exact .inl rfl
  · cases htable : getSysnums p.arch p.abi with
    | none => simp [detranslateSysnum, hvoid, htable]
    | some sysnums =>
        obtain ⟨number, hnumber, hspec⟩ := detranslateSysnum_spec htable hvoid
        rw [hnumber, Option.getD_some]
        rcases eq_or_ne number p.arch.syscallAvoider with rfl | hne
        · exact .inl rfl
        · exact .inr ⟨number, sysnum?_lt htable ((hspec number).mp ⟨rfl, hne⟩), rfl⟩

theorem negative_of_lt {number : Nat} (h : number < 2 ^ 31) :
    negative (BitVec.ofNat 64 number) = false := by
  rw [negative, BitVec.getLsbD_ofNat, Nat.testBit_lt_two_pow h, Bool.and_false]

theorem ofNat_and_mask {number : Nat} (h : number < 2 ^ 31) :
    (BitVec.ofNat 64 number : Word) &&& 0xffffffff = BitVec.ofNat 64 number := by
  apply BitVec.eq_of_toNat_eq
  have hmod : number % 2 ^ 64 = number := Nat.mod_eq_of_lt (by omega)
  have hand : number &&& (2 ^ 32 - 1) = number := by
    rw [Nat.and_two_pow_sub_one_eq_mod, Nat.mod_eq_of_lt (by omega)]
  rw [BitVec.toNat_and, BitVec.toNat_ofNat, hmod]
  exact hand

theorem numbers_platform (thumb : Bool) (mode : Mode) : Numbers (mode.platform thumb) where
  offset := by
    intro reg hreg
    cases mode <;> cases reg <;> simp_all [Mode.platform, regOffsetX86_64, regOffsetX86On64,
      regOffsetArm, regOffsetArm64, regOffsetX86, regOffsetSh4]
  void := by
    cases mode <;> cases thumb <;> decide
  cancels := by
    cases mode <;> cases thumb <;> decide
  numberOf := by
    intro sysnum
    refine (numberOf_eq_avoider_or_lt _ sysnum).imp_right ?_
    rintro ⟨number, hlt, hnumber⟩
    have hmask := ofNat_and_mask hlt
    rw [hnumber, Platform.mask, Platform.word]
    split <;> split <;> simp only [hmask, negative_of_lt hlt]

/-! ## The number of a system call -/

section Number

variable {p : Platform} {t : Tracee}

theorem peekReg_pokeReg_num (hp : Numbers p) {reg : Reg} (hreg : reg ≠ .SYSARG_NUM)
    (version : RegVersion) (value : Word) :
    (t.pokeReg p reg value).peekReg p version .SYSARG_NUM =
      t.peekReg p version .SYSARG_NUM := by
  rw [Tracee.pokeReg]
  split
  · rfl
  · simp only [Tracee.peekReg, Tracee.setBank, Platform.peek]
    split
    · rename_i hversion
      rw [Platform.set, if_neg (hp.offset reg hreg).symm, hversion]
    · rfl

theorem peekReg_setSysnum_original (sysnum : Sysnum) :
    (t.setSysnum p sysnum).peekReg p .ORIGINAL .SYSARG_NUM =
      t.peekReg p .ORIGINAL .SYSARG_NUM := by
  rw [Tracee.setSysnum, Tracee.pokeReg]
  split <;> rfl

theorem peekReg_setSysnum (sysnum : Sysnum) :
    (t.setSysnum p sysnum).peekReg p .CURRENT .SYSARG_NUM =
        t.peekReg p .CURRENT .SYSARG_NUM ∨
      (t.setSysnum p sysnum).peekReg p .CURRENT .SYSARG_NUM =
        p.mask (p.word (p.numberOf sysnum)) := by
  rw [Tracee.setSysnum, Tracee.pokeReg]
  split
  · exact .inl rfl
  · refine .inr ?_
    simp [Tracee.peekReg, Tracee.setBank, Platform.peek, Platform.set]

theorem pushSpecificRegs_of_not_restore (h : t.restoreOriginalRegs = false)
    (includingSysnum sysnumFails : Bool) :
    (t.pushSpecificRegs p includingSysnum sysnumFails).1 = t := by
  have hrestore : t.restoreRegs p = t := by
    simp [Tracee.restoreRegs, h]
  simp only [Tracee.pushSpecificRegs, hrestore]
  split
  · split <;> rfl
  · rfl

/-- The number before the handler, and what is known of the one that it leaves. -/
structure NumberIs (p : Platform) (original : Word) (R : Word → Prop) (t : Tracee) : Prop where
  keep : t.restoreOriginalRegs = false
  original : t.peekReg p .ORIGINAL .SYSARG_NUM = original
  current : R (t.peekReg p .CURRENT .SYSARG_NUM)
  unchanged : t.regsWereChanged = false →
    t.peekReg p .CURRENT .SYSARG_NUM = t.peekReg p .ORIGINAL .SYSARG_NUM

variable {original : Word} {R : Word → Prop}

theorem NumberIs.of_regs {t' : Tracee} (h : NumberIs p original R t) (hregs : t'.regs = t.regs)
    (hchanged : t'.regsWereChanged = t.regsWereChanged)
    (hkeep : t'.restoreOriginalRegs = false) : NumberIs p original R t' where
  keep := hkeep
  original := by
    rw [Tracee.peekReg, hregs]
    exact h.original
  current := by
    rw [Tracee.peekReg, hregs]
    exact h.current
  unchanged := by
    rw [Tracee.peekReg, Tracee.peekReg, hregs, hchanged]
    exact h.unchanged

theorem pokeReg_regsWereChanged (reg : Reg) (value : Word) :
    t.pokeReg p reg value = t ∨ (t.pokeReg p reg value).regsWereChanged = true := by
  rw [Tracee.pokeReg]
  split
  · exact .inl rfl
  · exact .inr rfl

theorem NumberIs.pokeReg (hp : Numbers p) (h : NumberIs p original R t) {reg : Reg}
    (hreg : reg ≠ .SYSARG_NUM) (value : Word) : NumberIs p original R (t.pokeReg p reg value) where
  keep := by simpa using h.keep
  original := (peekReg_pokeReg_num hp hreg _ value).trans h.original
  current := by
    rw [peekReg_pokeReg_num hp hreg]
    exact h.current
  unchanged := by
    intro hchanged
    cases pokeReg_regsWereChanged (p := p) (t := t) reg value with
    | inl hsame =>
        rw [hsame] at hchanged ⊢
        exact h.unchanged hchanged
    | inr hyes => exact absurd hchanged (by simp [hyes])

theorem NumberIs.setSysnum (h : NumberIs p original R t) {sysnum : Sysnum}
    (hset : R (p.mask (p.word (p.numberOf sysnum)))) :
    NumberIs p original R (t.setSysnum p sysnum) where
  keep := by simpa using h.keep
  original := (peekReg_setSysnum_original sysnum).trans h.original
  current := by
    cases peekReg_setSysnum (t := t) (p := p) sysnum with
    | inl hsame => exact hsame ▸ h.current
    | inr hset' => exact hset' ▸ hset
  unchanged := by
    intro hchanged
    cases pokeReg_regsWereChanged (p := p) (t := t) .SYSARG_NUM (p.numberOf sysnum) with
    | inl hsame =>
        rw [Tracee.setSysnum, hsame] at hchanged ⊢
        exact h.unchanged hchanged
    | inr hyes => exact absurd hchanged (by simp [Tracee.setSysnum, hyes])

theorem NumberIs.rewind (hp : Numbers p) (h : NumberIs p original R t) :
    NumberIs p original R (t.rewind p) := by
  have hpoked := @NumberIs.pokeReg _ _ _ _ hp h .INSTR_POINTER (by decide)
    (t.peekReg p .CURRENT .INSTR_POINTER - p.systrapSize)
  simp only [Tracee.rewind]
  split
  · have hoffset := hp.offset .SYSARG_RESULT (by decide)
    refine ⟨hpoked.keep, hpoked.original, ?_, ?_⟩
    · rw [Tracee.peekReg, Platform.peek, Tracee.setBank]
      simp only [if_true, if_neg hoffset.symm]
      exact hpoked.current
    · intro hchanged
      rw [Tracee.peekReg, Platform.peek, Tracee.setBank]
      simp only [if_true, if_neg hoffset.symm]
      exact hpoked.unchanged hchanged
  · exact hpoked

theorem NumberIs.perform (hp : Numbers p) (horiginal : R original)
    (h : NumberIs p original R t) (action : Action)
    (hpoke : ∀ value, action ≠ .pokeReg .SYSARG_NUM value)
    (hset : ∀ sysnum, action = .setSysnum sysnum → R (p.mask (p.word (p.numberOf sysnum)))) :
    NumberIs p original R (t.perform p action) := by
  cases action with
  | pokeReg reg value =>
      refine h.pokeReg hp ?_ value
      intro hreg
      exact hpoke value (hreg ▸ rfl)
  | setSysnum sysnum => exact h.setSysnum (hset sysnum rfl)
  | fixEnosysSyscall =>
      refine ⟨rfl, h.original, ?_, fun _ => rfl⟩
      have horig : R (t.peekReg p .ORIGINAL .SYSARG_NUM) := h.original ▸ horiginal
      exact horig
  | restartSyscallAfterSeccomp =>
      have hkept : NumberIs p original R { t with
          restoreOriginalRegsAfterSeccompEvent := true
          restartHow := some .PTRACE_SYSCALL } := h.of_regs rfl rfl h.keep
      have hrewound := hkept.rewind hp
      simp only [Tracee.perform, Tracee.restartSyscallAfterSeccomp]
      rw [pushSpecificRegs_of_not_restore hrewound.keep]
      exact hrewound
  | setResultAfterSeccomp result =>
      have hpoked := @NumberIs.pokeReg _ _ _ _ hp h .SYSARG_RESULT (by decide) result
      simp only [Tracee.perform, Tracee.setResultAfterSeccomp]
      rw [pushSpecificRegs_of_not_restore hpoked.keep]
      exact hpoked.of_regs rfl rfl hpoked.keep
  | keepRegs => exact h.of_regs rfl rfl rfl
  | _ => exact h.of_regs rfl rfl h.keep

theorem NumberIs.performAll (hp : Numbers p) (horiginal : R original)
    (h : NumberIs p original R t) (actions : List Action)
    (hpoke : ∀ value, .pokeReg .SYSARG_NUM value ∉ actions)
    (hset : ∀ sysnum, .setSysnum sysnum ∈ actions → R (p.mask (p.word (p.numberOf sysnum)))) :
    NumberIs p original R (t.performAll p actions) := by
  induction actions generalizing t with
  | nil => exact h
  | cons action actions ih =>
      refine ih (h.perform hp horiginal action ?_ ?_) ?_ ?_
      · intro value heq
        exact hpoke value (heq ▸ List.mem_cons_self)
      · intro sysnum heq
        exact hset sysnum (heq ▸ List.mem_cons_self)
      · intro value hmem
        exact hpoke value (List.mem_cons_of_mem _ hmem)
      · intro sysnum hmem
        exact hset sysnum (List.mem_cons_of_mem _ hmem)

/-! ## The enter stage -/

def Voids (p : Platform) (h : Handler) : Prop :=
  h.status < 0 ∨ ∃ sysnum, .setSysnum sysnum ∈ h.actions ∧ p.numberOf sysnum = p.avoider

def Chains (h : Handler) : Prop :=
  (∃ syscall, .registerChainedSyscall syscall ∈ h.actions) ∨ .restartOriginalSyscall ∈ h.actions

structure NumberFits (p : Platform) (input : Input) : Prop where
  number : negative (p.peek input.regs .SYSARG_NUM) = false
  poke : ∀ value, .pokeReg .SYSARG_NUM value ∉ input.handler.actions
  chain : Tracee.kernelCancelsVoidedSyscall p = true → Tracee.setsSysnumApart p = false →
    Chains input.handler → ¬ Voids p input.handler

theorem chains_of_isSome {actions : List Action} (hnone : t.chain.syscalls = none)
    (hsome : (t.performAll p actions).chain.syscalls.isSome) :
    (∃ syscall, .registerChainedSyscall syscall ∈ actions) ∨ .restartOriginalSyscall ∈ actions := by
  induction actions generalizing t with
  | nil => simp [Tracee.performAll, hnone] at hsome
  | cons action actions ih =>
      rw [Tracee.performAll, List.foldl_cons] at hsome
      cases action with
      | registerChainedSyscall syscall => exact .inl ⟨syscall, List.mem_cons_self⟩
      | restartOriginalSyscall => exact .inr List.mem_cons_self
      | _ =>
          refine (ih (t := t.perform p _) ?_ hsome).imp ?_ (List.mem_cons_of_mem _)
          · simpa [Tracee.perform, Tracee.restartSyscallAfterSeccomp,
              Tracee.setResultAfterSeccomp, Tracee.forceChainFinalResult] using hnone
          · rintro ⟨syscall, hmem⟩
            exact ⟨syscall, List.mem_cons_of_mem _ hmem⟩

theorem NumberIs.settle (hp : Numbers p) (h : NumberIs p original R t) {status : Int}
    (hvoid : status < 0 → R (p.mask p.avoider)) :
    NumberIs p original R (t.settle p status) := by
  rw [Tracee.settle]
  split
  · rename_i hneg
    have hset : NumberIs p original R (t.setSysnum p .PR_void) := by
      refine h.setSysnum ?_
      have hnumber : p.numberOf .PR_void = p.avoider := rfl
      rw [hnumber, hp.void]
      exact hvoid hneg
    have hpoked := @NumberIs.pokeReg _ _ _ _ hp hset .SYSARG_RESULT (by decide) (BitVec.ofInt 64 status)
    exact hpoked.of_regs rfl rfl hpoked.keep
  · split
    · exact h.of_regs rfl rfl h.keep
    · exact h.of_regs rfl rfl h.keep

theorem NumberIs.skipSysexit (hp : Numbers p) (h : NumberIs p original R t) :
    NumberIs p original R (t.skipSysexit p) := by
  rw [Tracee.skipSysexit]
  split
  · have hreset : NumberIs p original R { t with status := 0 } := h.of_regs rfl rfl h.keep
    exact hreset.pokeReg hp (by decide) _
  · exact h

/-- The enter stage leaves the number of the guest, or one that a handler has set. -/
theorem numberIs_entered (hp : Numbers p) {input : Input}
    (hnone : t.chain.syscalls = none)
    (hpoke : ∀ value, .pokeReg .SYSARG_NUM value ∉ input.handler.actions)
    (horiginal : R (p.peek input.regs .SYSARG_NUM))
    (hset : ∀ sysnum, .setSysnum sysnum ∈ input.handler.actions →
      R (p.mask (p.word (p.numberOf sysnum))))
    (hvoid : input.handler.status < 0 → R (p.mask p.avoider)) :
    let entered := { t.fetchRegs input.regs with
      restoreOriginalRegs := false, voidedSyscallCancelled := false }
    let translated := Tracee.translateEnter p input.handler entered
    NumberIs p (p.peek input.regs .SYSARG_NUM) R
      ((translated.1.settle p translated.2).skipSysexit p) := by
  intro entered translated
  have hchain : entered.chain.syscalls = none := hnone
  have hsaved : NumberIs p (p.peek input.regs .SYSARG_NUM) R
      (entered.saveCurrentRegs .ORIGINAL) := ⟨rfl, rfl, horiginal, fun _ => rfl⟩
  have hperformed := hsaved.performAll hp horiginal input.handler.actions hpoke hset
  have htranslated : translated =
      (((entered.saveCurrentRegs .ORIGINAL).performAll p input.handler.actions).saveCurrentRegs
        .MODIFIED, input.handler.status) := by
    show Tracee.translateEnter p input.handler entered = _
    rw [Tracee.translateEnter, hchain]
  rw [htranslated]
  have hmodified : NumberIs p (p.peek input.regs .SYSARG_NUM) R
      (((entered.saveCurrentRegs .ORIGINAL).performAll p input.handler.actions).saveCurrentRegs
        .MODIFIED) :=
    ⟨hperformed.keep, hperformed.original, hperformed.current, hperformed.unchanged⟩
  exact (hmodified.settle hp hvoid).skipSysexit hp

def Known (p : Platform) (number : Word) : Prop :=
  negative number = false ∨ number = p.mask p.avoider

theorem known_negative (hp : Numbers p) (horiginal : negative original = false) {number : Word}
    (hknown : Known p number) :
    (Tracee.kernelCancelsVoidedSyscall p &&
      decide (number = p.mask p.avoider ∧ original ≠ p.mask p.avoider)) = negative number := by
  have hcancels := hp.cancels
  cases hc : Tracee.kernelCancelsVoidedSyscall p with
  | false =>
      cases hknown with
      | inl hneg => simp [hneg]
      | inr heq => rw [heq, hcancels, hc, Bool.false_and]
  | true =>
      have hne : original ≠ p.mask p.avoider := by
        intro heq
        rw [← heq, horiginal, hc] at hcancels
        cases hcancels
      cases hknown with
      | inl hneg =>
          have hother : number ≠ p.mask p.avoider := by
            intro heq
            rw [← heq, hneg, hc] at hcancels
            cases hcancels
          simp [hneg, hother]
      | inr heq =>
          rw [heq, hcancels, hc]
          simp [hne]

/-- The request for the number only fails where it is a request of its own, and when the number
was changed. -/
theorem pushSpecificRegs_failed {includingSysnum sysnumFails : Bool}
    (hfailed : (t.pushSpecificRegs p includingSysnum sysnumFails).2 = false) :
    Tracee.setsSysnumApart p = true ∧ sysnumFails = true := by
  simp only [Tracee.pushSpecificRegs] at hfailed
  split at hfailed
  · split at hfailed
    · rename_i hcond
      simp only [Bool.and_eq_true] at hcond
      exact ⟨hcond.1.1.1, hcond.1.2⟩
    · cases hfailed
  · cases hfailed

theorem pushSpecificRegs_unchanged (h : NumberIs p original R t)
    (hapart : Tracee.setsSysnumApart p = true)
    (hpushed : (t.pushSpecificRegs p true true).2 = true) :
    t.peekReg p .CURRENT .SYSARG_NUM = t.peekReg p .ORIGINAL .SYSARG_NUM := by
  cases hchanged : t.regsWereChanged with
  | false => exact h.unchanged hchanged
  | true =>
      have hrestore : t.restoreRegs p = t := by
        simp [Tracee.restoreRegs, h.keep]
      simp only [Tracee.pushSpecificRegs, hrestore, hchanged, Bool.true_or, if_true, hapart,
        Bool.and_true] at hpushed
      split at hpushed
      · cases hpushed
      · rename_i hsame
        simp only [Bool.true_and, decide_eq_true_eq, ne_eq, not_not] at hsame
        rw [Tracee.peekReg, Tracee.peekReg, Platform.peek, Platform.peek, hsame]

/-- After the push it is known whether the number became negative. -/
theorem voided_pushEntered (hp : Numbers p) {input : Input} (suppressed : Int)
    (h : NumberIs p (p.peek input.regs .SYSARG_NUM) (Known p) t)
    (horiginal : negative (p.peek input.regs .SYSARG_NUM) = false)
    (hchain : Tracee.setsSysnumApart p = false → t.chain.syscalls.isSome = true →
      negative (t.peekReg p .CURRENT .SYSARG_NUM) = false) :
    (t.pushEntered p input.handler suppressed).voidedSyscallCancelled =
      negative (numberEntered p input (t.pushEntered p input.handler suppressed)) := by
  cases hpushed : (t.pushSpecificRegs p t.chain.syscalls.isNone input.handler.sysnumFails).2 with
  | false =>
      -- the original number stays
      obtain ⟨hapart, hfails⟩ := pushSpecificRegs_failed hpushed
      rw [hfails] at hpushed
      simp only [Tracee.pushEntered, hfails, hpushed, numberEntered, hapart, Bool.or_true,
        Bool.and_true, Bool.and_false, Bool.false_and, if_true, horiginal]
  | true =>
      have hsame : t.pushEntered p input.handler suppressed =
          { t with voidedSyscallCancelled := t.chain.syscalls.isNone &&
              Tracee.kernelCancelsVoidedSyscall p && t.isVoidedSyscall p .CURRENT } := by
        simp only [Tracee.pushEntered, hpushed, Bool.not_true, Bool.false_and, Bool.and_true]
        rw [if_neg (by simp), pushSpecificRegs_of_not_restore h.keep]
      have hvoided : t.isVoidedSyscall p .CURRENT =
          decide (t.peekReg p .CURRENT .SYSARG_NUM = p.mask p.avoider ∧
            p.peek input.regs .SYSARG_NUM ≠ p.mask p.avoider) := by
        rw [Tracee.isVoidedSyscall, h.original]
      have hnegative := known_negative hp horiginal h.current
      rw [hsame]
      simp only [numberEntered]
      cases hc : t.chain.syscalls with
      | some syscalls =>
          simp only [Option.isNone_some, Option.isSome_some, Bool.false_and, Bool.true_or,
            Bool.and_true]
          split
          · exact horiginal.symm
          · rename_i hapart
            exact (hchain (by simpa using hapart) (by simp [hc])).symm
      | none =>
          simp only [Option.isNone_none, Option.isSome_none, Bool.true_and, Bool.false_or]
          split
          · rename_i hcond
            simp only [Bool.and_eq_true] at hcond
            rw [hc, Option.isNone_none, hcond.2] at hpushed
            have hunchanged := pushSpecificRegs_unchanged h hcond.1 hpushed
            rw [hvoided, hunchanged, h.original, horiginal]
            simp
          · rw [hvoided]
            exact hnegative

/-- **The enter stage is right** about a number that it has made negative. -/
theorem voidedSyscallCancelled_enterStage (hp : Numbers p) {input : Input}
    (hfits : NumberFits p input) (hnone : t.chain.syscalls = none) :
    ((t.fetchRegs input.regs).enterStage p input.handler).voidedSyscallCancelled =
      negative (numberEntered p input ((t.fetchRegs input.regs).enterStage p input.handler)) := by
  have hknown : ∀ sysnum, Known p (p.mask (p.word (p.numberOf sysnum))) := by
    intro sysnum
    cases hp.numberOf sysnum with
    | inl heq => exact .inr (by rw [heq, hp.void])
    | inr hneg => exact .inl hneg
  have hnumber := numberIs_entered (t := t) hp hnone hfits.poke (R := Known p)
    (.inl hfits.number) (fun sysnum _ => hknown sysnum) (fun _ => .inr rfl)
  refine voided_pushEntered hp _ hnumber hfits.number ?_
  intro hapart hsome
  cases hc : Tracee.kernelCancelsVoidedSyscall p with
  | false =>
      cases hnumber.current with
      | inl hneg => exact hneg
      | inr heq => rw [heq, hp.cancels, hc]
  | true =>
      -- a handler that registers a chain doesn't void the system call
      have hchains : Chains input.handler := by
        rw [Tracee.chain_skipSysexit, Tracee.chain_settle] at hsome
        have htranslated : (Tracee.translateEnter p input.handler { t.fetchRegs input.regs with
            restoreOriginalRegs := false, voidedSyscallCancelled := false }).1.chain =
            (Tracee.performAll p ({ t.fetchRegs input.regs with
              restoreOriginalRegs := false
              voidedSyscallCancelled := false }.saveCurrentRegs .ORIGINAL)
              input.handler.actions).chain := by
          have hchain : ({ t.fetchRegs input.regs with
              restoreOriginalRegs := false
              voidedSyscallCancelled := false } : Tracee).chain.syscalls = none := hnone
          rw [Tracee.translateEnter, hchain]
          rfl
        rw [htranslated] at hsome
        exact chains_of_isSome (by exact hnone) hsome
      have hnot := hfits.chain hc hapart hchains
      have hkept := numberIs_entered (t := t) hp hnone hfits.poke
        (R := fun number => negative number = false) hfits.number ?_ ?_
      · exact hkept.current
      · intro sysnum hmem
        refine (hp.numberOf sysnum).resolve_left ?_
        intro heq
        exact hnot (.inr ⟨sysnum, hmem, heq⟩)
      · intro hstatus
        exact absurd (.inl hstatus) hnot

end Number

end Kernel

end Improot.Event
