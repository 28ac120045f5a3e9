import Mathlib.Algebra.Group.Nat.Defs
import Mathlib.Data.Nat.Basic
import Improot.Lib.SlotTable
import Improot.SysVIpc.Step

/-!
# Identifiers

An identifier packs the place of a slot and its generation.  Twelve bits hold the place, and the
generation is a signed number that a removal increments, so that the identifier names its object
only for the first 4095 slots and the generations that are not negative.  Up to these limits, the
three arrays are tables whose slots age.
-/

namespace Improot.SysVIpc

/-! ## The arrays as tables -/

def Nameable (index generation : Nat) : Prop := index < 0xFFF ∧ generation < 2 ^ 15

section Objects

variable {α : Type} [IpcObject α]

def slotOf (object : α) : Lib.Slot Nat where
  generation := (IpcObject.generation object).toNat
  occupant := if IpcObject.valid object then some (IpcObject.address object) else none

def slotTable (objects : List α) : Lib.SlotTable Nat := objects.map slotOf

variable {objects : List α} {index : Nat} {object : α}

theorem slotTable_getElem? : (slotTable objects)[index]? = objects[index]?.map slotOf := by
  rw [slotTable, List.getElem?_map]

theorem slotTable_set (objects : List α) (index : Nat) (object : α) :
    slotTable (objects.set index object) = (slotTable objects).set index (slotOf object) := by
  rw [slotTable, slotTable, List.map_set]

theorem slotTable_set_same {object' : α}
    (hget : objects[index]? = some object) (hsame : slotOf object' = slotOf object) :
    slotTable (objects.set index object') = slotTable objects := by
  rw [slotTable_set, hsame]
  apply List.ext_getElem?
  intro i
  by_cases hi : index = i
  · subst hi
    have hlt := (List.getElem?_eq_some_iff.mp hget).1
    rw [List.getElem?_set_self (by simpa [slotTable] using hlt), slotTable_getElem?, hget]
    rfl
  · rw [List.getElem?_set_ne hi]

theorem slotOf_valid (h : IpcObject.valid object = true) :
    slotOf object =
      ⟨(IpcObject.generation object).toNat, some (IpcObject.address object)⟩ := by
  rw [slotOf, if_pos h]

theorem slotOf_invalid (h : IpcObject.valid object = false) :
    slotOf object = ⟨(IpcObject.generation object).toNat, none⟩ := by
  rw [slotOf, h, if_neg Bool.false_ne_true]

/-! ## Identifiers as numbers -/

theorem ipcObjectId_toNat (h : Nameable index (IpcObject.generation object).toNat) :
    (ipcObjectId index object).toNat =
      index + 1 + (IpcObject.generation object).toNat * 4096 := by
  obtain ⟨hindex, hgeneration⟩ := h
  rw [ipcObjectId, int]
  generalize IpcObject.generation object = g at *
  have hsigned : g.signExtend 32 = BitVec.ofNat 32 g.toNat := by
    apply BitVec.eq_of_toNat_eq
    rw [BitVec.toNat_signExtend, BitVec.msb_eq_false_iff_two_mul_lt.mpr (by omega)]
    simp
  have hshift : BitVec.ofNat 32 g.toNat <<< 12 = BitVec.ofNat 32 (g.toNat * 4096) := by
    apply BitVec.eq_of_toNat_eq
    simp [Nat.shiftLeft_eq]
  have hwide : (BitVec.ofNat 32 (g.toNat * 4096)).signExtend 64 =
      BitVec.ofNat 64 (g.toNat * 4096) := by
    apply BitVec.eq_of_toNat_eq
    rw [BitVec.toNat_signExtend,
      BitVec.msb_eq_false_iff_two_mul_lt.mpr (by rw [BitVec.toNat_ofNat]; omega)]
    simp only [BitVec.toNat_setWidth, BitVec.toNat_ofNat, Bool.false_eq_true, if_false]
    omega
  have hor : index + 1 ||| g.toNat * 4096 = index + 1 + g.toNat * 4096 := by
    have hadd := Nat.shiftLeft_add_eq_or_of_lt (show index + 1 < 2 ^ 12 by omega) g.toNat
    rw [Nat.shiftLeft_eq] at hadd
    rw [Nat.or_comm, show (4096 : Nat) = 2 ^ 12 from rfl, ← hadd]
    omega
  rw [hsigned, hshift, hwide, BitVec.toNat_setWidth, BitVec.toNat_or, BitVec.toNat_ofNat,
    BitVec.toNat_ofNat, Nat.mod_eq_of_lt (show index + 1 < 2 ^ 64 by omega),
    Nat.mod_eq_of_lt (show g.toNat * 4096 < 2 ^ 64 by omega), hor]
  omega

theorem identifier_parts {generation : Nat} (h : Nameable index generation) {id : BitVec 32}
    (hid : id.toNat = index + 1 + generation * 4096) :
    (id &&& 0xFFF).toNat = index + 1 ∧ (id.sshiftRight 12 &&& 0xFFFF).toNat = generation := by
  obtain ⟨hindex, hgeneration⟩ := h
  have hmsb : id.msb = false := by
    rw [BitVec.msb_eq_false_iff_two_mul_lt]
    omega
  constructor
  · rw [BitVec.toNat_and, show (0xFFF : BitVec 32).toNat = 2 ^ 12 - 1 from rfl,
      Nat.and_two_pow_sub_one_eq_mod, hid]
    omega
  · rw [BitVec.sshiftRight_eq_of_msb_false hmsb, BitVec.toNat_and,
      show (0xFFFF : BitVec 32).toNat = 2 ^ 16 - 1 from rfl, Nat.and_two_pow_sub_one_eq_mod,
      BitVec.toNat_ushiftRight, Nat.shiftRight_eq_div_pow, hid]
    omega

theorem generation_eq_iff {g : BitVec 16} {part : BitVec 32} (hpart : part.toNat < 2 ^ 15) :
    g.signExtend 32 = part ↔ g.toNat = part.toNat := by
  constructor
  · intro h
    have hint := congrArg BitVec.toInt h
    rw [BitVec.toInt_signExtend_of_le (by omega)] at hint
    have hg := g.isLt
    rw [BitVec.toInt_eq_toNat_cond, BitVec.toInt_eq_toNat_cond] at hint
    split at hint <;> split at hint <;> omega
  · intro h
    apply BitVec.eq_of_toNat_eq
    rw [BitVec.toNat_signExtend, BitVec.msb_eq_false_iff_two_mul_lt.mpr (by omega),
      BitVec.toNat_setWidth]
    simp only [Bool.false_eq_true, if_false]
    omega

/-- What a system call finds under an identifier: the slot and the address. -/
def lookupSlot (objects : List α) (id : Word) : Option (Nat × Nat) :=
  (lookupIpcObject objects id).map fun found => (found.1, IpcObject.address found.2)

theorem lookupSlot_eq_resolve {generation : Nat} (h : Nameable index generation) {id : Word}
    (hid : (int id).toNat = index + 1 + generation * 4096) :
    lookupSlot objects id = ((slotTable objects).resolve index generation).map (index, ·) := by
  obtain ⟨hplace, hpart⟩ := identifier_parts h hid
  have hlt : ((int id).sshiftRight 12 &&& 0xFFFF).toNat < 2 ^ 15 := by
    rw [hpart]
    exact h.2
  rw [lookupSlot, lookupIpcObject, Lib.SlotTable.resolve, slotTable_getElem?]
  simp only [hplace, Nat.add_sub_cancel]
  by_cases hindex : index < objects.length
  · rw [if_neg (by omega)]
    simp only [List.getElem?_eq_getElem hindex, Option.map_some, Option.bind_some]
    generalize objects[index] = object
    by_cases hvalid : IpcObject.valid object = true
    · rw [slotOf_valid hvalid]
      by_cases hgeneration : (IpcObject.generation object).toNat = generation
      · have heq := (generation_eq_iff hlt).mpr (hgeneration.trans hpart.symm)
        simp [hvalid, heq, hgeneration]
      · have hne : ¬ (IpcObject.generation object).signExtend 32 =
            (int id).sshiftRight 12 &&& 0xFFFF :=
          fun heq => hgeneration (((generation_eq_iff hlt).mp heq).trans hpart)
        simp [hvalid, hgeneration]
        exact hne
    · have hvalid : IpcObject.valid object = false := by simpa using hvalid
      rw [slotOf_invalid hvalid]
      simp [hvalid]
  · rw [if_pos (by omega), List.getElem?_eq_none (by omega)]
    rfl

theorem lookupSlot_nameable {id : Word} {address : Nat}
    (h : lookupSlot objects id = some (index, address)) (hget : objects[index]? = some object) :
    Nameable index (IpcObject.generation object).toNat := by
  obtain ⟨⟨i, found⟩, hlookup, heq⟩ := Option.map_eq_some_iff.mp h
  cases heq
  obtain ⟨hfound, -, hplace, hgeneration⟩ := lookupIpcObject_some hlookup
  rw [hget] at hfound
  cases hfound
  have hplace_lt : (int id &&& 0xFFF).toNat < 2 ^ 12 := by
    rw [BitVec.toNat_and]
    exact Nat.and_lt_two_pow _ (by decide)
  have hpart_lt : ((int id).sshiftRight 12 &&& 0xFFFF).toNat < 2 ^ 16 := by
    rw [BitVec.toNat_and]
    exact Nat.and_lt_two_pow _ (by decide)
  refine ⟨by omega, ?_⟩
  -- a negative generation is no part of an identifier
  have hint := congrArg BitVec.toInt hgeneration
  rw [BitVec.toInt_signExtend_of_le (by omega), BitVec.toInt_eq_toNat_cond,
    BitVec.toInt_eq_toNat_cond] at hint
  split at hint <;> split at hint <;> omega

end Objects

end Improot.SysVIpc
