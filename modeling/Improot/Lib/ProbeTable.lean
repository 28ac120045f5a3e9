import Mathlib.Data.List.Basic
import Mathlib.Logic.Function.Basic

/-!
# Tables with probing

An open-addressing table: a key is searched in the slots of its probe order, up to the first slot
that is vacant or has it. Entries are never removed, so every key that is stored is found.
-/

namespace Improot.Lib

/-- The slots of a table; a slot with the vacant key is free. -/
structure ProbeTable (K V : Type*) where
  key : Nat → K
  value : Nat → V

namespace ProbeTable

variable {K V : Type*} [DecidableEq K] (vacant : K) (order : K → List Nat)

def stops (t : ProbeTable K V) (k : K) (i : Nat) : Bool := t.key i = vacant ∨ t.key i = k

def index (t : ProbeTable K V) (k : K) : Option Nat := (order k).find? (t.stops vacant k)

def set (t : ProbeTable K V) (i : Nat) (k : K) (v : V) : ProbeTable K V :=
  ⟨Function.update t.key i k, Function.update t.value i v⟩

def lookup (t : ProbeTable K V) (k : K) : Option V :=
  match t.index vacant order k with
  | some i => if t.key i = k then some (t.value i) else none
  | none => none

def Sound (t : ProbeTable K V) : Prop :=
  ∀ k i, k ≠ vacant → t.key i = k → t.index vacant order k = some i

variable {vacant order} {t : ProbeTable K V} {k k' : K} {v : V} {i : Nat}

theorem stops_of_index (h : t.index vacant order k = some i) : t.key i = vacant ∨ t.key i = k := by
  have hstops := List.find?_some h
  simpa [stops] using hstops

/-- A table without entries. -/
theorem sound_of_vacant (h : ∀ i, t.key i = vacant) : t.Sound vacant order := by
  intro k i hk hkey
  exact absurd (hkey.symm.trans (h i)) hk

/-- The search for another key isn't over earlier, once a slot is filled. -/
theorem index_set_of_ne (h : t.index vacant order k' = some i) {j : Nat} (hk : k ≠ vacant)
    (hne : k' ≠ k) (hij : i ≠ j) : (t.set j k v).index vacant order k' = some i := by
  unfold index at *
  rw [List.find?_eq_some_iff_append] at h ⊢
  obtain ⟨hi, before, after, horder, hbefore⟩ := h
  refine ⟨?_, before, after, horder, ?_⟩
  · simpa [stops, set, Function.update_of_ne hij] using hi
  · intro x hx
    by_cases hxj : x = j
    · subst hxj
      simp [stops, set, hk, hne.symm]
    · simpa [stops, set, Function.update_of_ne hxj] using hbefore x hx

/-- The search for a key is over at the slot that was filled for it. -/
theorem index_set_self (h : t.index vacant order k = some i) :
    (t.set i k v).index vacant order k = some i := by
  unfold index at *
  rw [List.find?_eq_some_iff_append] at h ⊢
  obtain ⟨hi, before, after, horder, hbefore⟩ := h
  refine ⟨by simp [stops, set], before, after, horder, ?_⟩
  intro x hx
  have hxi : x ≠ i := by
    rintro rfl
    simpa [hi] using hbefore x hx
  simpa [stops, set, Function.update_of_ne hxi] using hbefore x hx

/-- An insertion keeps the table sound. -/
theorem Sound.set (h : t.Sound vacant order) (hi : t.index vacant order k = some i) :
    (t.set i k v).Sound vacant order := by
  intro k' j hk' hkey
  by_cases hji : j = i
  · subst hji
    obtain rfl : k = k' := by simpa [ProbeTable.set] using hkey
    exact index_set_self hi
  · have hold : t.key j = k' := by simpa [ProbeTable.set, Function.update_of_ne hji] using hkey
    have hindex := h k' j hk' hold
    by_cases hk : k = vacant
    · -- no key changes
      have hvacant : t.key i = vacant := by
        rcases stops_of_index hi with hv | hv
        · exact hv
        · exact hv.trans hk
      have hsame : (t.set i k v).key = t.key := by
        show Function.update t.key i k = t.key
        rw [hk, ← hvacant, Function.update_eq_self]
      unfold index stops at *
      rwa [hsame]
    · have hne : k' ≠ k := by
        rintro rfl
        exact hji (Option.some.inj (hindex.symm.trans hi))
      exact index_set_of_ne hindex hk hne hji

theorem lookup_set_self (h : t.index vacant order k = some i) :
    (t.set i k v).lookup vacant order k = some v := by
  unfold lookup
  rw [index_set_self h]
  simp [set]

/-- **Frame**: the other keys keep their values, and none comes up. -/
theorem Sound.lookup_set_of_ne (h : t.Sound vacant order) (hi : t.index vacant order k = some i)
    (hk' : k' ≠ vacant) (hne : k' ≠ k) :
    (t.set i k v).lookup vacant order k' = t.lookup vacant order k' := by
  have hsound : (t.set i k v).Sound vacant order := h.set hi
  by_cases hstored : ∃ j, t.key j = k'
  · obtain ⟨j, hj⟩ := hstored
    have hji : j ≠ i := by
      rintro rfl
      rcases stops_of_index hi with hv | hv
      · exact hk' (hj.symm.trans hv)
      · exact hne (hj.symm.trans hv)
    have hj' : (t.set i k v).key j = k' := by
      simpa [ProbeTable.set, Function.update_of_ne hji] using hj
    unfold lookup
    rw [hsound k' j hk' hj', h k' j hk' hj]
    simp [ProbeTable.set, Function.update_of_ne hji]
  · have hnone : ∀ t' : ProbeTable K V, (∀ j, t'.key j ≠ k') →
        t'.lookup vacant order k' = none := by
      intro t' ht'
      unfold lookup
      cases t'.index vacant order k' with
      | none => rfl
      | some j => simp [ht' j]
    rw [hnone t fun j hj => hstored ⟨j, hj⟩, hnone]
    intro j hj
    by_cases hji : j = i
    · subst hji
      exact hne (by simpa [ProbeTable.set, eq_comm] using hj)
    · exact hstored ⟨j, by simpa [ProbeTable.set, Function.update_of_ne hji] using hj⟩

end ProbeTable

end Improot.Lib
