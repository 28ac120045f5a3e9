import Improot.Syscall.Sysnum

/-!
# From the number in the register to the system call

`translate_sysnum` of `syscall/sysnum.c`, which looks the number of the guest up in the table of its
ABI, against the search of `detranslate_sysnum`.
-/

namespace Improot.Syscall

open Sysnum

/-- Why `translate_sysnum` has no answer. -/
inductive SysnumFault where
  /-- `assert(0)` of `get_sysnums` -/
  | noTable
  | beyondTable
  deriving DecidableEq

def translateSysnum (arch : Arch) (abi : Abi) (sysnum : Nat) : Except SysnumFault Sysnum :=
  match getSysnums arch abi with
  | none => .error .noTable
  | some sysnums =>
    if sysnum < sysnums.offset then .ok PR_void
    else
      let index := sysnum - sysnums.offset
      if index > sysnums.table.length then .ok PR_void
      else
        match sysnums.table[index]? with
        | some item => .ok item
        | none => .error .beyondTable

variable {arch : Arch} {abi : Abi} {sysnums : Sysnums}

/-- **What `translate_sysnum` answers**: the check of the index lets one number through that the
table doesn't have. -/
theorem translateSysnum_eq (h : getSysnums arch abi = some sysnums) (number : Nat) :
    translateSysnum arch abi number =
      if number = sysnums.offset + sysnums.table.length then .error .beyondTable
      else .ok ((sysnums.sysnum? number).getD PR_void) := by
  simp only [translateSysnum, h, Sysnums.sysnum?]
  by_cases hlow : number < sysnums.offset
  · rw [if_pos hlow, if_neg (by omega), if_neg (by omega)]
    rfl
  · rw [if_neg hlow, if_pos (show sysnums.offset ≤ number by omega)]
    by_cases hend : number = sysnums.offset + sysnums.table.length
    · subst hend
      rw [if_neg (by omega), if_pos rfl, List.getElem?_eq_none (by omega)]
    · rw [if_neg hend]
      by_cases hlt : number - sysnums.offset < sysnums.table.length
      · rw [if_neg (by omega), List.getElem?_eq_getElem hlt]
        rfl
      · rw [if_pos (by omega), List.getElem?_eq_none (by omega)]
        rfl

theorem length_sysnumsArm : sysnumsArm.length = 440 := by
  decide +kernel

theorem getSysnums_arm (h : getSysnums .ARCH_ARM_EABI abi = some sysnums) :
    sysnums = ⟨sysnumsArm, 0⟩ := by
  cases abi with
  | ABI_DEFAULT => exact (Option.some.inj h).symm
  | ABI_2 | ABI_3 => cases h

theorem syscallAvoider_ne (h : getSysnums arch abi = some sysnums) :
    arch.syscallAvoider ≠ sysnums.offset + sysnums.table.length := by
  have hsound := getSysnums_sound h
  have hlength := hsound.length
  have hoffset := hsound.offset
  by_cases harm : arch = .ARCH_ARM_EABI
  · subst harm
    have hsysnums := getSysnums_arm h
    have hlength : sysnums.table.length = 440 :=
      (congrArg (·.table.length) hsysnums).trans length_sysnumsArm
    have hoffset : sysnums.offset = 0 := congrArg Sysnums.offset hsysnums
    show 222 ≠ _
    omega
  · have hbig : 2 ^ 32 - 2 ≤ arch.syscallAvoider := by
      cases arch <;> first | contradiction | decide
    omega

theorem translateSysnum_avoider (h : getSysnums arch abi = some sysnums) :
    translateSysnum arch abi arch.syscallAvoider = .ok PR_void := by
  rw [translateSysnum_eq h, if_neg (syscallAvoider_ne h)]
  cases hn : sysnums.sysnum? arch.syscallAvoider with
  | none => rfl
  | some sysnum =>
      have hvoid := (getSysnums_sound h).avoider sysnum hn
      rw [hvoid]
      rfl

/-- **Detranslation, then translation** gives back every system call of the ABI. -/
theorem translateSysnum_detranslate (h : getSysnums arch abi = some sysnums) {sysnum : Sysnum}
    (havailable : sysnum = PR_void ∨ sysnum ∈ sysnums.table) :
    ∃ number, detranslateSysnum arch abi sysnum = some number ∧
      translateSysnum arch abi number = .ok sysnum := by
  by_cases hvoid : sysnum = PR_void
  · subst hvoid
    exact ⟨arch.syscallAvoider, if_pos rfl, translateSysnum_avoider h⟩
  · obtain ⟨number, hnumber, hiff⟩ := detranslateSysnum_spec h hvoid
    have hmem := havailable.resolve_left hvoid
    obtain ⟨i, hi⟩ := List.mem_iff_getElem?.mp hmem
    have hitem : sysnums.sysnum? (sysnums.offset + i) = some sysnum := by
      rw [Sysnums.sysnum?, if_pos (Nat.le_add_right _ _), Nat.add_sub_cancel_left, hi]
    have heq := ((hiff _).mpr hitem).1
    refine ⟨number, hnumber, ?_⟩
    rw [translateSysnum_eq h, heq, hitem, if_neg]
    · rfl
    · have hlt := (List.getElem?_eq_some_iff.mp hi).1
      omega

/-- What is expected of the translation of a number: no read outside of the table, `PR_void` for
what the table doesn't know, and the way back from the system calls of the ABI. -/
structure SysnumSafe (arch : Arch) (abi : Abi) (sysnums : Sysnums) (number : Nat) : Prop where
  inside : translateSysnum arch abi number ≠ .error .beyondTable
  known : ∀ sysnum, sysnums.sysnum? number = some sysnum →
    translateSysnum arch abi number = .ok sysnum
  unknown : sysnums.sysnum? number = none → translateSysnum arch abi number = .ok PR_void
  back : ∀ sysnum, sysnum = PR_void ∨ sysnum ∈ sysnums.table →
    ∃ number, detranslateSysnum arch abi sysnum = some number ∧
      translateSysnum arch abi number = .ok sysnum

/-- **Numbers of system calls stay in their tables**, whatever the ABI and the value of the
register, but for the number right behind the table. -/
theorem sysnumSafe_iff (arch : Arch) (abi : Abi) (sysnums : Sysnums) (number : Nat)
    (h : getSysnums arch abi = some sysnums) :
    SysnumSafe arch abi sysnums number ↔ number ≠ sysnums.offset + sysnums.table.length := by
  have heq := translateSysnum_eq h number
  constructor
  · intro hsafe hend
    rw [if_pos hend] at heq
    exact hsafe.inside heq
  · intro hne
    rw [if_neg hne] at heq
    refine ⟨?_, ?_, ?_, fun sysnum => translateSysnum_detranslate h⟩
    · rw [heq]
      intro hfault
      cases hfault
    · intro sysnum hsome
      rw [heq, hsome]
      rfl
    · intro hnone
      rw [heq, hnone]
      rfl

/-- x32's tagged number of clone3(2) is one of the table. -/
theorem sysnumSafe_x32_clone3 :
    SysnumSafe .ARCH_X86_64 .ABI_3 ⟨sysnumsX32, 0x40000000⟩ (0x40000000 + 435) :=
  (sysnumSafe_iff .ARCH_X86_64 .ABI_3 _ _ rfl).mpr (by decide +kernel)

/-- The number of process_madvise(2), 440, is the length of the table of x86_64. -/
theorem not_sysnumSafe_processMadvise :
    ¬ SysnumSafe .ARCH_X86_64 .ABI_DEFAULT ⟨sysnumsX86_64, 0⟩ 440 := by
  intro hsafe
  have hfault : translateSysnum .ARCH_X86_64 .ABI_DEFAULT 440 = .error .beyondTable := by
    rw [translateSysnum_eq rfl, if_pos (by decide +kernel)]
  exact hsafe.inside hfault

end Improot.Syscall
