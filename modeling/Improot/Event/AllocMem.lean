import Improot.Event.Cancelled
import Improot.Event.Loop

/-!
# Scratch memory of a tracee

`alloc_mem` of `tracee/mem.c`, which takes memory below the stack pointer that PRoot has in its
registers, over all the calls made while PRoot handles one system call.
-/

namespace Improot.Event

open Improot.Syscall

def redZoneSize : Arch → Nat
  | .ARCH_X86_64 => 128
  | _ => 0

/-- A sum of type `ssize_t`; as compiled, it wraps around. -/
def Platform.ssize (p : Platform) (sum : Int) : Int := sum.bmod (2 ^ p.wordSize)

namespace Tracee

variable (p : Platform)

/-- The stack pointer in a bank, as a `word_t`. -/
def stackPointer (t : Tracee) (version : RegVersion) : Nat :=
  (p.word (t.peekReg p version .STACK_POINTER)).toNat

/-- `alloc_mem`, in the enter stage: the address is 0 if an error occured. -/
def allocMem (t : Tracee) (size : Int) : Tracee × Nat :=
  let stackPointer := t.stackPointer p .CURRENT
  let size :=
    if stackPointer = t.stackPointer p .ORIGINAL then p.ssize (size + redZoneSize p.arch) else size
  if (0 < size ∧ stackPointer ≤ size.toNat) ∨
      (size < 0 ∧ 2 ^ p.wordSize - 1 + size ≤ stackPointer) then (t, 0)
  else
    -- the stack grows downward
    let stackPointer := BitVec.ofInt 64 (stackPointer - size)
    (t.pokeReg p .STACK_POINTER stackPointer, (p.word stackPointer).toNat)

end Tracee

/-! ## Runs -/

inductive ScratchStep where
  | alloc (size : Int)
  | act (action : Action)

/-- A call of `alloc_mem`: the stack pointer before it, what is asked for, the address that is
returned and the stack pointer after it. -/
structure Allocation where
  before : Nat
  size : Int
  address : Nat
  after : Nat
  deriving DecidableEq, Repr

/-- The calls of `alloc_mem`, in order. -/
def allocations (p : Platform) (t : Tracee) : List ScratchStep → List Allocation
  | [] => []
  | .alloc size :: steps =>
    let allocated := t.allocMem p size
    ⟨t.stackPointer p .CURRENT, size, allocated.2, allocated.1.stackPointer p .CURRENT⟩ ::
      allocations p allocated.1 steps
  | .act action :: steps => allocations p (t.perform p action) steps

/-- Everything but `alloc_mem` leaves the stack pointers alone. -/
def Action.keepsStack : Action → Prop
  | .pokeReg reg _ => reg ≠ .STACK_POINTER
  | .fixEnosysSyscall => False
  | _ => True

/-- What is expected of a call, for a stack pointer `sp` and a red zone below it: the block lies
below the red zone, the difference doesn't wrap around, and the call fails, without any effect,
exactly when the block doesn't fit. -/
structure Allocation.Safe (redZone sp : Nat) (c : Allocation) : Prop where
  below : c.address ≠ 0 → (c.address : Int) + c.size + redZone ≤ sp
  noWrap : c.address ≠ 0 → (c.address : Int) + c.size ≤ c.before ∧ c.after = c.address
  fails : c.address = 0 ↔ ((min c.before (sp - redZone) : Nat) : Int) ≤ c.size
  unchanged : c.address = 0 → c.after = c.before

/-- What is expected of all calls: besides, each block lies below the earlier ones. -/
structure ScratchSafe (redZone sp : Nat) (calls : List Allocation) : Prop where
  each : ∀ c ∈ calls, c.Safe redZone sp
  disjoint : calls.Pairwise fun c d =>
    c.address ≠ 0 → d.address ≠ 0 → (d.address : Int) + d.size ≤ c.address

/-! ## One call -/

section Call

variable {p : Platform} {t : Tracee}

theorem toNat_low32 (value : Word) : (value &&& 0xffffffff).toNat = value.toNat % 2 ^ 32 := by
  rw [BitVec.toNat_and]
  exact Nat.and_two_pow_sub_one_eq_mod value.toNat 32

theorem toNat_word (p : Platform) (value : Word) :
    (p.word value).toNat = if p.wordSize = 32 then value.toNat % 2 ^ 32 else value.toNat := by
  unfold Platform.word
  split
  · exact toNat_low32 value
  · rfl

theorem toNat_mask (p : Platform) (value : Word) :
    (p.mask value).toNat = if p.mode32 = true then value.toNat % 2 ^ 32 else value.toNat := by
  unfold Platform.mask
  split
  · exact toNat_low32 value
  · rfl

theorem toNat_word_of_le {n : Nat} {version : RegVersion} (h : n ≤ t.stackPointer p version) :
    (p.word (BitVec.ofNat 64 n)).toNat = n ∧
      (p.word (p.mask (p.word (BitVec.ofNat 64 n)))).toNat = n := by
  have hword := (t.regs version (p.regOffset .STACK_POINTER)).isLt
  simp only [Tracee.stackPointer, Tracee.peekReg, Platform.peek, toNat_word, toNat_mask] at h
  simp only [toNat_word, toNat_mask, BitVec.toNat_ofNat]
  split at h <;> split at h <;> simp_all <;> omega

theorem stackPointer_pokeReg {n : Nat} (h : n ≤ t.stackPointer p .CURRENT) :
    (t.pokeReg p .STACK_POINTER (BitVec.ofNat 64 n)).stackPointer p .CURRENT = n := by
  have hfits := toNat_word_of_le h
  rw [Tracee.pokeReg]
  split
  case isTrue hsame =>
    rw [Tracee.stackPointer, hsame]
    exact hfits.1
  case isFalse =>
    simp only [Tracee.stackPointer, Tracee.peekReg, Tracee.setBank, Platform.peek, Platform.set,
      if_true]
    exact hfits.2

theorem stackPointer_pokeReg_original (reg : Reg) (value : Word) :
    (t.pokeReg p reg value).stackPointer p .ORIGINAL = t.stackPointer p .ORIGINAL := by
  rw [Tracee.pokeReg]
  split <;> rfl

theorem restoreOriginalRegs_pokeReg (reg : Reg) (value : Word) :
    (t.pokeReg p reg value).restoreOriginalRegs = t.restoreOriginalRegs := by
  rw [Tracee.pokeReg]
  split <;> rfl

theorem stackPointer_pokeReg_other {reg : Reg}
    (hreg : p.regOffset reg ≠ p.regOffset .STACK_POINTER) (value : Word) (version : RegVersion) :
    (t.pokeReg p reg value).stackPointer p version = t.stackPointer p version := by
  rw [Tracee.pokeReg]
  split
  · rfl
  · simp only [Tracee.stackPointer, Tracee.peekReg, Tracee.setBank, Platform.peek]
    split
    case isTrue hversion => rw [Platform.set, if_neg hreg.symm, hversion]
    case isFalse => rfl

/-! ## One step -/

structure StackApart (p : Platform) : Prop where
  offset : ∀ reg, reg ≠ .STACK_POINTER → p.regOffset reg ≠ p.regOffset .STACK_POINTER
  wordSize : 0 < p.wordSize

theorem stackApart_platform (thumb : Bool) (mode : Mode) : StackApart (mode.platform thumb) where
  offset := by
    intro reg hreg
    cases mode <;> cases reg <;> simp_all [Mode.platform, regOffsetX86_64, regOffsetX86On64,
      regOffsetArm, regOffsetArm64, regOffsetX86, regOffsetSh4]
  wordSize := by
    cases mode <;> exact Nat.succ_pos _

/-- The registers of a tracee between two calls, for the stack pointer `sp` that the handling began
with: nothing is restored, and the stack pointer is as it was, or below the red zone. -/
structure Scratch (p : Platform) (sp : Nat) (t : Tracee) : Prop where
  keeps : t.restoreOriginalRegs = false
  original : t.stackPointer p .ORIGINAL = sp ∨ redZoneSize p.arch = 0
  current : t.stackPointer p .CURRENT = sp ∨
    t.stackPointer p .CURRENT + redZoneSize p.arch ≤ sp

/-- Sizes that can be asked for: not negative, and with the red zone no more than `SSIZE_MAX`. -/
def Sized (p : Platform) (size : Int) : Prop :=
  0 ≤ size ∧ size + redZoneSize p.arch < (2 ^ (p.wordSize - 1) : Nat)

def Tracee.room (p : Platform) (sp : Nat) (t : Tracee) : Nat :=
  min (t.stackPointer p .CURRENT) (sp - redZoneSize p.arch)

theorem ssize_eq (hp : StackApart p) {size : Int} (h : Sized p size) :
    p.ssize (size + redZoneSize p.arch) = size + redZoneSize p.arch := by
  have hpow : 2 ^ p.wordSize = 2 ^ (p.wordSize - 1) * 2 := by
    have hsucc : p.wordSize - 1 + 1 = p.wordSize := Nat.sub_add_cancel hp.wordSize
    rw [← Nat.pow_succ, Nat.succ_eq_add_one, hsucc]
  obtain ⟨hnonneg, hsize⟩ := h
  apply Int.bmod_eq_of_le_mul_two
  · omega
  · omega

theorem room_eq {sp : Nat} (h : Scratch p sp t) :
    t.room p sp =
      if t.stackPointer p .CURRENT = t.stackPointer p .ORIGINAL then
        t.stackPointer p .CURRENT - redZoneSize p.arch
      else t.stackPointer p .CURRENT := by
  have horiginal := h.original
  have hcurrent := h.current
  unfold Tracee.room
  split <;> omega

/-- The check of the room and the one of the new stack pointer come to the same. -/
theorem allocMem_eq (hp : StackApart p) {sp : Nat} {size : Int} (h : Scratch p sp t)
    (hsize : Sized p size) :
    ∃ wanted : Nat, (size < t.room p sp ↔ wanted < t.stackPointer p .CURRENT) ∧
      (size < t.room p sp → (wanted : Int) + t.room p sp = size + t.stackPointer p .CURRENT) ∧
      t.allocMem p size =
        if 0 < wanted ∧ t.stackPointer p .CURRENT ≤ wanted then (t, 0)
        else
          (t.pokeReg p .STACK_POINTER (BitVec.ofNat 64 (t.stackPointer p .CURRENT - wanted)),
            t.stackPointer p .CURRENT - wanted) := by
  have hroom := room_eq h
  have hword := @toNat_word_of_le p t
  have hnonneg := hsize.1
  have hrest (wanted : Nat) (hwanted : (wanted : Int) =
      if t.stackPointer p .CURRENT = t.stackPointer p .ORIGINAL then size + redZoneSize p.arch
      else size) :
      t.allocMem p size =
        if 0 < wanted ∧ t.stackPointer p .CURRENT ≤ wanted then (t, 0)
        else
          (t.pokeReg p .STACK_POINTER (BitVec.ofNat 64 (t.stackPointer p .CURRENT - wanted)),
            t.stackPointer p .CURRENT - wanted) := by
    unfold Tracee.allocMem
    simp only [ssize_eq hp hsize, ← hwanted]
    by_cases hfails : 0 < wanted ∧ t.stackPointer p .CURRENT ≤ wanted
    · rw [if_pos hfails, if_pos (by omega)]
    · rw [if_neg hfails, if_neg (by omega)]
      have hofInt : BitVec.ofInt 64 ((t.stackPointer p .CURRENT : Int) - wanted) =
          BitVec.ofNat 64 (t.stackPointer p .CURRENT - wanted) := by
        rw [← Int.ofNat_sub (by omega), BitVec.ofInt_natCast]
      rw [hofInt, (hword (Nat.sub_le _ _)).1]
  by_cases hsame : t.stackPointer p .CURRENT = t.stackPointer p .ORIGINAL
  · rw [if_pos hsame] at hroom
    refine ⟨size.toNat + redZoneSize p.arch, by omega, by omega, hrest _ ?_⟩
    rw [if_pos hsame]
    omega
  · rw [if_neg hsame] at hroom
    refine ⟨size.toNat, by omega, by omega, hrest _ ?_⟩
    rw [if_neg hsame]
    omega

/-- **One call of `alloc_mem`**: the block is taken from the end of the room if it fits; otherwise
the stack pointer stays. -/
theorem allocMem_spec (hp : StackApart p) {sp : Nat} {size : Int} (h : Scratch p sp t)
    (hsize : Sized p size) :
    Scratch p sp (t.allocMem p size).1 ∧
      (size < t.room p sp → ((t.allocMem p size).2 : Int) + size = t.room p sp ∧
        0 < (t.allocMem p size).2 ∧
        (t.allocMem p size).1.stackPointer p .CURRENT = (t.allocMem p size).2) ∧
      (¬ size < t.room p sp → (t.allocMem p size).2 = 0 ∧
        (t.allocMem p size).1.stackPointer p .CURRENT = t.stackPointer p .CURRENT) := by
  obtain ⟨wanted, hfits, hroom, heq⟩ := allocMem_eq hp h hsize
  have hnonneg := hsize.1
  have hcurrent := h.current
  rw [heq]
  split
  case isTrue hfails =>
    refine ⟨h, fun hlt => ?_, fun hlt => ⟨rfl, rfl⟩⟩
    have := hfits.mp hlt
    omega
  case isFalse hok =>
    have hafter := @stackPointer_pokeReg p t _ (Nat.sub_le (t.stackPointer p .CURRENT) wanted)
    refine ⟨⟨?_, ?_, ?_⟩, fun hlt => ?_, fun hlt => ?_⟩
    · rw [restoreOriginalRegs_pokeReg]
      exact h.keeps
    · rw [stackPointer_pokeReg_original]
      exact h.original
    · rw [hafter]
      have hle : t.room p sp ≤ sp - redZoneSize p.arch := Nat.min_le_right _ _
      by_cases hlt : size < t.room p sp
      · have := hroom hlt
        omega
      · have : ¬ wanted < t.stackPointer p .CURRENT := fun hw => hlt (hfits.mpr hw)
        omega
    · have := hroom hlt
      have := hfits.mp hlt
      refine ⟨?_, by omega, hafter⟩
      omega
    · have : ¬ wanted < t.stackPointer p .CURRENT := fun hw => hlt (hfits.mpr hw)
      refine ⟨by omega, ?_⟩
      rw [hafter]
      omega

/-! ## Everything else -/

/-- Nothing that `alloc_mem` looks at has changed. -/
structure SameStack (p : Platform) (t t' : Tracee) : Prop where
  keeps : t'.restoreOriginalRegs = false
  same : ∀ version, t'.stackPointer p version = t.stackPointer p version

theorem SameStack.trans {t' t'' : Tracee} (h : SameStack p t t') (h' : SameStack p t' t'') :
    SameStack p t t'' :=
  ⟨h'.keeps, fun version => (h'.same version).trans (h.same version)⟩

theorem SameStack.of_regs {t' : Tracee} (hregs : t'.regs = t.regs)
    (hkeeps : t'.restoreOriginalRegs = false) : SameStack p t t' := by
  refine ⟨hkeeps, fun version => ?_⟩
  rw [Tracee.stackPointer, Tracee.peekReg, hregs]
  rfl

theorem SameStack.pokeReg (hp : StackApart p) (hkeeps : t.restoreOriginalRegs = false) {reg : Reg}
    (hreg : reg ≠ .STACK_POINTER) (value : Word) : SameStack p t (t.pokeReg p reg value) :=
  ⟨(restoreOriginalRegs_pokeReg reg value).trans hkeeps,
    stackPointer_pokeReg_other (hp.offset reg hreg) value⟩

theorem SameStack.rewind (hp : StackApart p) (hkeeps : t.restoreOriginalRegs = false) :
    SameStack p t (t.rewind p) := by
  have hpoked := SameStack.pokeReg hp hkeeps (show Reg.INSTR_POINTER ≠ .STACK_POINTER by decide)
    (t.peekReg p .CURRENT .INSTR_POINTER - p.systrapSize)
  simp only [Tracee.rewind]
  split
  · refine ⟨hpoked.keeps, fun version => ?_⟩
    rw [← hpoked.same version]
    simp only [Tracee.stackPointer, Tracee.peekReg, Tracee.setBank, Platform.peek]
    split
    case isTrue hversion =>
      subst hversion
      simp only [if_neg (hp.offset .SYSARG_RESULT (by decide)).symm]
    case isFalse => rfl
  · exact hpoked

/-- **An operation of a handler** leaves the stack pointers alone, even one that writes the
registers back, as nothing is restored in the enter stage. -/
theorem SameStack.perform (hp : StackApart p) (hkeeps : t.restoreOriginalRegs = false)
    {action : Action} (haction : action.keepsStack) : SameStack p t (t.perform p action) := by
  cases action with
  | pokeReg reg value => exact .pokeReg hp hkeeps haction value
  | setSysnum sysnum =>
      exact .pokeReg hp hkeeps (show Reg.SYSARG_NUM ≠ .STACK_POINTER by decide) _
  | fixEnosysSyscall => exact haction.elim
  | restartSyscallAfterSeccomp =>
      have hset : SameStack p t { t with
          restoreOriginalRegsAfterSeccompEvent := true
          restartHow := some .PTRACE_SYSCALL } := .of_regs rfl hkeeps
      have hrewound := hset.trans (.rewind hp hset.keeps)
      simp only [Tracee.perform, Tracee.restartSyscallAfterSeccomp]
      rw [Kernel.pushSpecificRegs_of_not_restore hrewound.keeps]
      exact hrewound
  | setResultAfterSeccomp result =>
      have hpoked := SameStack.pokeReg hp hkeeps
        (show Reg.SYSARG_RESULT ≠ .STACK_POINTER by decide) result
      simp only [Tracee.perform, Tracee.setResultAfterSeccomp]
      rw [Kernel.pushSpecificRegs_of_not_restore hpoked.keeps]
      exact hpoked.trans (.of_regs rfl hpoked.keeps)
  | keepRegs => exact .of_regs rfl rfl
  | _ => exact .of_regs rfl hkeeps

theorem Scratch.of_same {sp : Nat} {t' : Tracee} (h : Scratch p sp t) (hsame : SameStack p t t') :
    Scratch p sp t' where
  keeps := hsame.keeps
  original := by
    rw [hsame.same]
    exact h.original
  current := by
    rw [hsame.same]
    exact h.current

/-! ## Runs -/

/-- The steps of a run: sizes that can be asked for, and nothing that moves the stack pointer. -/
def ScratchStep.Allowed (p : Platform) : ScratchStep → Prop
  | .alloc size => Sized p size
  | .act action => action.keepsStack

/-- The blocks so far end at the stack pointer at most, by induction on the steps. -/
theorem allocations_safe (hp : StackApart p) {sp : Nat} (h : Scratch p sp t)
    {steps : List ScratchStep} (hsteps : ∀ step ∈ steps, step.Allowed p) :
    ScratchSafe (redZoneSize p.arch) sp (allocations p t steps) ∧
      ∀ c ∈ allocations p t steps, c.address ≠ 0 →
        (c.address : Int) + c.size ≤ t.stackPointer p .CURRENT := by
  induction steps generalizing t with
  | nil => exact ⟨⟨by simp [allocations], .nil⟩, by simp [allocations]⟩
  | cons step steps ih =>
      have hrest : ∀ step ∈ steps, step.Allowed p :=
        fun step hmem => hsteps step (List.mem_cons_of_mem _ hmem)
      have hstep := hsteps step List.mem_cons_self
      cases step with
      | act action =>
          have hsame := SameStack.perform hp h.keeps hstep
          have hafter := ih (h.of_same hsame) hrest
          rw [hsame.same] at hafter
          exact hafter
      | alloc size =>
          obtain ⟨hscratch, hfits, hfails⟩ := allocMem_spec hp h hstep
          obtain ⟨hsafe, hbelow⟩ := ih hscratch hrest
          have hnonneg : 0 ≤ size := hstep.1
          have hred : t.room p sp ≤ sp - redZoneSize p.arch := Nat.min_le_right _ _
          have hcurrent : t.room p sp ≤ t.stackPointer p .CURRENT := Nat.min_le_left _ _
          have hroom : min (t.stackPointer p .CURRENT) (sp - redZoneSize p.arch) = t.room p sp := rfl
          rw [allocations]
          generalize (t.allocMem p size).1.stackPointer p .CURRENT = after at hfits hfails hbelow
          generalize (t.allocMem p size).2 = address at hfits hfails ⊢
          have hcall : Allocation.Safe (redZoneSize p.arch) sp
              ⟨t.stackPointer p .CURRENT, size, address, after⟩ := by
            by_cases hlt : size < t.room p sp
            · have hblock := hfits hlt
              exact ⟨fun hne => by simp only; omega, fun hne => by simp only; omega,
                by simp only [hroom]; omega, fun hzero => by simp only at hzero ⊢; omega⟩
            · have hnone := hfails hlt
              exact ⟨fun hne => absurd hnone.1 hne, fun hne => absurd hnone.1 hne,
                by simp only [hroom]; omega, fun hzero => hnone.2⟩
          refine ⟨⟨List.forall_mem_cons.mpr ⟨hcall, hsafe.each⟩, .cons ?_ hsafe.disjoint⟩, ?_⟩
          · intro d hd hne hned
            have := hbelow d hd hned
            have := (hcall.noWrap hne).2
            simp only at this ⊢
            omega
          · intro c hc hne
            cases List.mem_cons.mp hc with
            | inl heq =>
                subst heq
                exact (hcall.noWrap hne).1
            | inr hmem =>
                have := hbelow c hmem hne
                by_cases hlt : size < t.room p sp
                · have := hfits hlt
                  omega
                · have := hfails hlt
                  omega

end Call

/-- **Scratch memory is disjoint**, over every run of calls in which the ORIGINAL registers hold the
stack pointer that the tracee made the system call with (or nothing is reserved below it), and no
size overflows. -/
theorem allocMem_safe (thumb : Bool) (mode : Mode) (t : Tracee) (steps : List ScratchStep)
    (hkeeps : t.restoreOriginalRegs = false)
    (horiginal : t.stackPointer (mode.platform thumb) .ORIGINAL =
        t.stackPointer (mode.platform thumb) .CURRENT ∨
      redZoneSize (mode.platform thumb).arch = 0)
    (hsteps : ∀ step ∈ steps, step.Allowed (mode.platform thumb)) :
    ScratchSafe (redZoneSize (mode.platform thumb).arch)
      (t.stackPointer (mode.platform thumb) .CURRENT)
      (allocations (mode.platform thumb) t steps) :=
  (allocations_safe (stackApart_platform thumb mode) ⟨hkeeps, horiginal, .inl rfl⟩ hsteps).1

/-- A tracee of x86_64 whose banks hold two stack pointers: the one of the system call that was
handled last, and the current one. -/
def traceeWithStack (original current : Word) : Tracee where
  toFlags := .new
  regs version _ :=
    match version with
    | .ORIGINAL => original
    | _ => current
  regsWereChanged := false

/-- A path and a structure are put on the stack at the start of a system call. -/
theorem allocMem_safe_enter :
    ScratchSafe 128 0x7ffe0000
      (allocations (Mode.x86_64.platform false) (traceeWithStack 0x7ffe0000 0x7ffe0000)
        [.alloc 12, .act (.pokeReg .SYSARG_1 0x7ffdff74), .alloc 110]) := by
  refine allocMem_safe false .x86_64 (traceeWithStack 0x7ffe0000 0x7ffe0000) _ rfl (.inl rfl) ?_
  intro step hstep
  simp only [List.mem_cons, List.not_mem_nil, or_false] at hstep
  rcases hstep with rfl | rfl | rfl
  · exact ⟨by decide, by decide⟩
  · exact fun heq => by cases heq
  · exact ⟨by decide, by decide⟩

/-- The red zone is added before the size is looked at: the sum wraps around. -/
example : ((traceeWithStack 0x7ffe0000 0x7ffe0000).allocMem (Mode.x86_64.platform false)
    (2 ^ 63 - 1)).2 = 2 ^ 63 + 0x7ffdff81 := by
  decide

/-- A system call that another seccomp policy blocks, poll(2) for instance: `handle_seccomp_event`
fetches the registers, but ORIGINAL is left as the system call before has it, so the first block is
taken from the red zone. -/
theorem not_allocMem_safe_sigsys :
    ¬ ScratchSafe 128 0x7ffd0000
      (allocations (Mode.x86_64.platform false)
        ((traceeWithStack 0x7ffe0000 0x7ffe0000).fetchBlocked (Mode.x86_64.platform false)
          ⟨fun _ => 0x7ffd0000, ⟨[], 0, false⟩, []⟩)
        [.alloc 16]) := by
  intro h
  have hcall : allocations (Mode.x86_64.platform false)
      ((traceeWithStack 0x7ffe0000 0x7ffe0000).fetchBlocked (Mode.x86_64.platform false)
        ⟨fun _ => 0x7ffd0000, ⟨[], 0, false⟩, []⟩)
      [.alloc 16] = [⟨0x7ffd0000, 16, 0x7ffcfff0, 0x7ffcfff0⟩] := by
    decide
  rw [hcall] at h
  have hbelow := (h.each _ List.mem_cons_self).below (by decide)
  revert hbelow
  decide

end Improot.Event
