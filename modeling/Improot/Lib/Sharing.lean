import Mathlib.Logic.Basic
import Mathlib.Order.Defs.LinearOrder

/-!
# Handles to shared objects

Users that have the same handle share an object. Which handles they have doesn't matter, only who
shares with whom: two assignments of handles are compared by this relation, and stay alike as long
as a user joins another one in both, or gets a new object in both.
-/

namespace Improot.Lib

variable {ι : Type*} {alive : ι → Prop} {h h' k k' : ι → Nat}

def SameSharing (alive : ι → Prop) (h k : ι → Nat) : Prop :=
  ∀ p q, alive p → alive q → (h p = h q ↔ k p = k q)

def HandlesBelow (alive : ι → Prop) (h : ι → Nat) (next : Nat) : Prop := ∀ p, alive p → h p < next

namespace SameSharing

/-- Only the handles of the users matter. -/
theorem congr (hs : SameSharing alive h k) (hh : ∀ p, alive p → h' p = h p)
    (hk : ∀ p, alive p → k' p = k p) : SameSharing alive h' k' := by
  intro p q hp hq
  rw [hh p hp, hh q hq, hk p hp, hk q hq]
  exact hs p q hp hq

/-- Fewer users. -/
theorem mono {alive' : ι → Prop} (hs : SameSharing alive h k) (hle : ∀ p, alive' p → alive p) :
    SameSharing alive' h k := fun p q hp hq => hs p q (hle p hp) (hle q hq)

/-- **Joining**: `c` shares with `p` from now on. -/
theorem join (hs : SameSharing alive h k) {p c : ι} (hp : alive p) (hc : h' c = h p)
    (kc : k' c = k p) (hh : ∀ q, alive q → q ≠ c → h' q = h q)
    (hk : ∀ q, alive q → q ≠ c → k' q = k q) :
    SameSharing (fun q => q = c ∨ alive q) h' k' := by
  have hside : ∀ q, q = c ∨ alive q → ∃ r, alive r ∧ h' q = h r ∧ k' q = k r := by
    intro q hq
    by_cases hqc : q = c
    · exact ⟨p, hp, hqc ▸ hc, hqc ▸ kc⟩
    · have hq := hq.resolve_left hqc
      exact ⟨q, hq, hh q hq hqc, hk q hq hqc⟩
  intro q r hq hr
  obtain ⟨q', hq', heq, keq⟩ := hside q hq
  obtain ⟨r', hr', her, ker⟩ := hside r hr
  rw [heq, keq, her, ker]
  exact hs q' r' hq' hr'

/-- **Splitting**: `c` has an object of its own from now on. -/
theorem split (hs : SameSharing alive h k) {c : ι} (hc : ∀ q, alive q → q ≠ c → h' q ≠ h' c)
    (kc : ∀ q, alive q → q ≠ c → k' q ≠ k' c) (hh : ∀ q, alive q → q ≠ c → h' q = h q)
    (hk : ∀ q, alive q → q ≠ c → k' q = k q) :
    SameSharing (fun q => q = c ∨ alive q) h' k' := by
  intro q r hq hr
  by_cases hqc : q = c
  · by_cases hrc : r = c
    · rw [hqc, hrc]
      exact ⟨fun _ => rfl, fun _ => rfl⟩
    · have hr := hr.resolve_left hrc
      rw [hqc]
      exact ⟨fun heq => absurd heq.symm (hc r hr hrc), fun heq => absurd heq.symm (kc r hr hrc)⟩
  · have hq := hq.resolve_left hqc
    by_cases hrc : r = c
    · rw [hrc]
      exact ⟨fun heq => absurd heq (hc q hq hqc), fun heq => absurd heq (kc q hq hqc)⟩
    · have hr := hr.resolve_left hrc
      rw [hh q hq hqc, hh r hr hrc, hk q hq hqc, hk r hr hrc]
      exact hs q r hq hr

/-- A new object has a handle above all others. -/
theorem split_next (hs : SameSharing alive h k) {c : ι} {n m : Nat} (hn : HandlesBelow alive h n)
    (hm : HandlesBelow alive k m) (hc : h' c = n) (kc : k' c = m)
    (hh : ∀ q, alive q → q ≠ c → h' q = h q) (hk : ∀ q, alive q → q ≠ c → k' q = k q) :
    SameSharing (fun q => q = c ∨ alive q) h' k' := by
  refine hs.split (fun q hq hqc => ?_) (fun q hq hqc => ?_) hh hk
  · rw [hh q hq hqc, hc]
    exact Nat.ne_of_lt (hn q hq)
  · rw [hk q hq hqc, kc]
    exact Nat.ne_of_lt (hm q hq)

end SameSharing

/-- A larger bound. -/
theorem HandlesBelow.succ {n : Nat} (hn : HandlesBelow alive h n) : HandlesBelow alive h (n + 1) :=
  fun p hp => Nat.lt_succ_of_lt (hn p hp)

/-- The bound after a user got a handle. -/
theorem HandlesBelow.insert {c : ι} {n : Nat} (hn : HandlesBelow alive h n) (hc : h' c < n + 1)
    (hh : ∀ q, alive q → q ≠ c → h' q = h q) :
    HandlesBelow (fun q => q = c ∨ alive q) h' (n + 1) := by
  intro q hq
  by_cases hqc : q = c
  · rwa [hqc]
  · have hq := hq.resolve_left hqc
    rw [hh q hq hqc]
    exact Nat.lt_succ_of_lt (hn q hq)

end Improot.Lib
