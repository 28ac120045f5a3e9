import Mathlib.Data.BitVec
import Improot.Syscall.Sysnum

/-!
# Registers

`tracee/reg.c`: the banks of registers that PRoot keeps of a tracee, and where an architecture keeps
the number, the arguments and the result of a system call.
-/

namespace Improot.Event

open Improot.Syscall

/-- `word_t`. -/
abbrev Word := BitVec 64

/-- `Reg` of `tracee/reg.h`, as far as system calls use it. -/
inductive Reg where
  | SYSARG_NUM
  | SYSARG_1
  | SYSARG_2
  | SYSARG_3
  | SYSARG_4
  | SYSARG_5
  | SYSARG_6
  | SYSARG_RESULT
  | STACK_POINTER
  | INSTR_POINTER
  deriving DecidableEq

abbrev Registers := Nat → Word

inductive RegVersion where
  | CURRENT
  | ORIGINAL
  | MODIFIED
  | ORIGINAL_SECCOMP_REWRITE
  deriving DecidableEq

/-! ## Platforms -/

structure Platform where
  arch : Arch
  abi : Abi
  regOffset : Reg → Nat
  systrapNum : Reg
  systrapSize : Word
  mode32 : Bool
  wordSize : Nat

/-- `reg_offset` of x86_64, by the place in `struct user_regs_struct`. -/
def regOffsetX86_64 : Reg → Nat
  | .SYSARG_NUM => 15
  | .SYSARG_1 => 14
  | .SYSARG_2 => 13
  | .SYSARG_3 => 12
  | .SYSARG_4 => 7
  | .SYSARG_5 => 9
  | .SYSARG_6 => 8
  | .SYSARG_RESULT => 10
  | .STACK_POINTER => 19
  | .INSTR_POINTER => 16

def regOffsetX86On64 : Reg → Nat
  | .SYSARG_NUM => 15
  | .SYSARG_1 => 5
  | .SYSARG_2 => 11
  | .SYSARG_3 => 12
  | .SYSARG_4 => 13
  | .SYSARG_5 => 14
  | .SYSARG_6 => 4
  | .SYSARG_RESULT => 10
  | .STACK_POINTER => 19
  | .INSTR_POINTER => 16

/-- `reg_offset` of ARM, and `reg_offset_armeabi` of arm64. -/
def regOffsetArm : Reg → Nat
  | .SYSARG_NUM => 7
  | .SYSARG_1 => 0
  | .SYSARG_2 => 1
  | .SYSARG_3 => 2
  | .SYSARG_4 => 3
  | .SYSARG_5 => 4
  | .SYSARG_6 => 5
  | .SYSARG_RESULT => 0
  | .STACK_POINTER => 13
  | .INSTR_POINTER => 15

/-- `reg_offset` of arm64. -/
def regOffsetArm64 : Reg → Nat
  | .SYSARG_NUM => 8
  | .SYSARG_1 => 0
  | .SYSARG_2 => 1
  | .SYSARG_3 => 2
  | .SYSARG_4 => 3
  | .SYSARG_5 => 4
  | .SYSARG_6 => 5
  | .SYSARG_RESULT => 0
  | .STACK_POINTER => 31
  | .INSTR_POINTER => 32

/-- `reg_offset` of x86. -/
def regOffsetX86 : Reg → Nat
  | .SYSARG_NUM => 11
  | .SYSARG_1 => 0
  | .SYSARG_2 => 1
  | .SYSARG_3 => 2
  | .SYSARG_4 => 3
  | .SYSARG_5 => 4
  | .SYSARG_6 => 5
  | .SYSARG_RESULT => 6
  | .STACK_POINTER => 15
  | .INSTR_POINTER => 12

/-- `reg_offset` of SH4. -/
def regOffsetSh4 : Reg → Nat
  | .SYSARG_NUM => 3
  | .SYSARG_1 => 4
  | .SYSARG_2 => 5
  | .SYSARG_3 => 6
  | .SYSARG_4 => 7
  | .SYSARG_5 => 0
  | .SYSARG_6 => 1
  | .SYSARG_RESULT => 0
  | .STACK_POINTER => 15
  | .INSTR_POINTER => 16

/-- The platforms of `arch.h` and the modes of their tracees, Thumb apart. -/
inductive Mode where
  | x86_64
  | x86On64
  | x32
  | arm
  | arm64
  | armOn64
  | x86
  | sh4
  deriving DecidableEq

/-- What a mode decides; in Thumb mode a trap takes 2 bytes. -/
def Mode.platform (thumb : Bool) : Mode → Platform
  | .x86_64 => ⟨.ARCH_X86_64, .ABI_DEFAULT, regOffsetX86_64, .SYSARG_RESULT, 2, false, 64⟩
  | .x86On64 => ⟨.ARCH_X86_64, .ABI_2, regOffsetX86On64, .SYSARG_RESULT, 2, true, 64⟩
  | .x32 => ⟨.ARCH_X86_64, .ABI_3, regOffsetX86_64, .SYSARG_RESULT, 2, true, 64⟩
  | .arm => ⟨.ARCH_ARM_EABI, .ABI_DEFAULT, regOffsetArm, .SYSARG_NUM, if thumb then 2 else 4,
      false, 32⟩
  | .arm64 => ⟨.ARCH_ARM64, .ABI_DEFAULT, regOffsetArm64, .SYSARG_NUM, 4, false, 64⟩
  | .armOn64 => ⟨.ARCH_ARM64, .ABI_2, regOffsetArm, .SYSARG_NUM, if thumb then 2 else 4, true, 64⟩
  | .x86 => ⟨.ARCH_X86, .ABI_DEFAULT, regOffsetX86, .SYSARG_RESULT, 2, false, 32⟩
  | .sh4 => ⟨.ARCH_SH4, .ABI_DEFAULT, regOffsetSh4, .SYSARG_NUM, 2, false, 32⟩

/-! ## Numbers of system calls -/

/-- `detranslate_sysnum`, for the ABI of the tracee. -/
def Platform.numberOf (p : Platform) (sysnum : Sysnum) : Word :=
  BitVec.ofNat 64 ((detranslateSysnum p.arch p.abi sysnum).getD p.arch.syscallAvoider)

/-- `translate_sysnum`, for the ABI of the tracee.  The number right behind the table passes the
check of the source, which then reads past the table; here it is `PR_void`. -/
def Platform.sysnumOf (p : Platform) (number : Word) : Sysnum :=
  match getSysnums p.arch p.abi with
  | some sysnums => (sysnums.sysnum? number.toNat).getD .PR_void
  | none => .PR_void

/-- `SYSCALL_AVOIDER`. -/
def Platform.avoider (p : Platform) : Word := BitVec.ofNat 64 p.arch.syscallAvoider

/-- A value as a `word_t`. -/
def Platform.word (p : Platform) (value : Word) : Word :=
  if p.wordSize = 32 then value &&& 0xffffffff else value

def Platform.mask (p : Platform) (value : Word) : Word :=
  if p.mode32 then value &&& 0xffffffff else value

/-- The value of a register in a bank, as `peek_reg` has it. -/
def Platform.peek (p : Platform) (regs : Registers) (reg : Reg) : Word :=
  p.mask (regs (p.regOffset reg))

def Platform.set (p : Platform) (regs : Registers) (reg : Reg) (value : Word) : Registers :=
  fun i => if i = p.regOffset reg then p.word value else regs i

end Improot.Event
