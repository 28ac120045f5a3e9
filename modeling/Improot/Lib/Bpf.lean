import Mathlib.Logic.Basic

/-!
# Classic BPF

The part of the classic BPF machine that a filter on fixed words needs: absolute loads, one
conditional jump, the unconditional jump and the return of a constant.  Every jump goes forward,
so that a program is run by recursion on what is left of it.
-/

namespace Improot.Lib.Bpf

/-- The statements; jumps are relative to the statement that follows. -/
inductive Insn where
  | ldWAbs (k : BitVec 32)
  | jmpJeqK (k : BitVec 32) (jt jf : BitVec 8)
  | jmpJa (k : BitVec 32)
  | retK (k : BitVec 32)
  deriving DecidableEq

/-- Runs the program on the words of `data`, from the accumulator `acc`.  There is no result when
the run leaves the program or loads a word that isn't there. -/
def exec (data : BitVec 32 → Option (BitVec 32)) :
    List Insn → BitVec 32 → Option (BitVec 32)
  | [], _ => none
  | .ldWAbs k :: rest, _ => (data k).bind (exec data rest)
  | .jmpJeqK k jt jf :: rest, acc =>
      exec data (rest.drop (if acc = k then jt.toNat else jf.toNat)) acc
  | .jmpJa k :: rest, acc => exec data (rest.drop k.toNat) acc
  | .retK k :: _, _ => some k
termination_by p => p.length
decreasing_by all_goals simp; try omega

section Exec

variable (data : BitVec 32 → Option (BitVec 32)) (rest : List Insn) (acc k : BitVec 32)

@[simp] theorem exec_retK : exec data (.retK k :: rest) acc = some k := by
  rw [exec]

@[simp] theorem exec_ldWAbs : exec data (.ldWAbs k :: rest) acc = (data k).bind (exec data rest) := by
  rw [exec]

@[simp] theorem exec_jmpJeqK (jt jf : BitVec 8) : exec data (.jmpJeqK k jt jf :: rest) acc =
    exec data (rest.drop (if acc = k then jt.toNat else jf.toNat)) acc := by
  rw [exec]

/-- A jump over a block. -/
theorem exec_jmpJa_append (block : List Insn) (h : k.toNat = block.length) :
    exec data (.jmpJa k :: (block ++ rest)) acc = exec data rest acc := by
  rw [exec, h, List.drop_left]

end Exec

/-! ## Where jumps land -/

def Insn.targets : Insn → List Nat
  | .ldWAbs _ => [0]
  | .jmpJeqK _ jt jf => [jt.toNat, jf.toNat]
  | .jmpJa k => [k.toNat]
  | .retK _ => []

def LandsInside (p : List Insn) : Prop :=
  ∀ i insn, p[i]? = some insn → ∀ target ∈ insn.targets, i + 1 + target < p.length

/-- Every statement of the block goes on inside the block or right behind it. -/
def LandsNear (p : List Insn) : Prop :=
  ∀ i insn, p[i]? = some insn → ∀ target ∈ insn.targets, i + 1 + target ≤ p.length

theorem landsNear_nil : LandsNear [] := by
  intro i insn h
  simp at h

/-- Blocks follow each other. -/
theorem LandsNear.append {p q : List Insn} (hp : LandsNear p) (hq : LandsNear q) :
    LandsNear (p ++ q) := by
  intro i insn h target ht
  rw [List.length_append]
  rcases Nat.lt_or_ge i p.length with hi | hi
  · rw [List.getElem?_append_left hi] at h
    have := hp i insn h target ht
    omega
  · rw [List.getElem?_append_right hi] at h
    have := hq _ insn h target ht
    omega

/-- A statement before a block. -/
theorem LandsNear.cons {insn : Insn} {p : List Insn} (hp : LandsNear p)
    (h : ∀ target ∈ insn.targets, target ≤ p.length) : LandsNear (insn :: p) := by
  intro i insn' hi target ht
  cases i with
  | zero =>
      simp only [List.getElem?_cons_zero, Option.some.injEq] at hi
      subst hi
      have := h target ht
      simp only [List.length_cons]
      omega
  | succ i =>
      rw [List.getElem?_cons_succ] at hi
      have := hp i insn' hi target ht
      simp only [List.length_cons]
      omega

/-- A return behind a block closes the program. -/
theorem LandsNear.retK {p : List Insn} (hp : LandsNear p) (k : BitVec 32) :
    LandsInside (p ++ [.retK k]) := by
  intro i insn h target ht
  rw [List.length_append]
  rcases Nat.lt_or_ge i p.length with hi | hi
  · rw [List.getElem?_append_left hi] at h
    have := hp i insn h target ht
    simp only [List.length_cons, List.length_nil]
    omega
  · rw [List.getElem?_append_right hi] at h
    cases hn : i - p.length with
    | zero =>
        rw [hn] at h
        cases h
        simp [Insn.targets] at ht
    | succ n =>
        rw [hn] at h
        simp at h

end Improot.Lib.Bpf
