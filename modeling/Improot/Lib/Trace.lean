import Mathlib.Data.List.Basic

/-!
# Traces

A machine answers inputs one after another. An implementation has the trace of a reference exactly
where every single answer is the reference's, as long as equal answers keep the two related.
-/

namespace Improot.Lib

/-- A machine with states `σ`, inputs `α` and outputs `β`. -/
structure Machine (σ α β : Type*) where
  step : σ → α → σ × β

namespace Machine

variable {σ τ α β : Type*}

def trace (m : Machine σ α β) : σ → List α → List β
  | _, [] => []
  | s, a :: as => (m.step s a).2 :: m.trace (m.step s a).1 as

def Along (m : Machine σ α β) (P : σ → α → Prop) : σ → List α → Prop
  | _, [] => True
  | s, a :: as => P s a ∧ m.Along P (m.step s a).1 as

variable {m : Machine σ α β} {n : Machine τ α β} {R : σ → τ → Prop} {P : σ → α → Prop}

/-- **Two machines have the same trace** if and only if the condition for one equal answer is met
along the run. -/
theorem trace_eq_iff (hstep : ∀ s t a, R s t → ((m.step s a).2 = (n.step t a).2 ↔ P s a))
    (hkept : ∀ s t a, R s t → (m.step s a).2 = (n.step t a).2 → R (m.step s a).1 (n.step t a).1)
    {s : σ} {t : τ} (h : R s t) (as : List α) : m.trace s as = n.trace t as ↔ m.Along P s as := by
  induction as generalizing s t with
  | nil => exact ⟨fun _ => trivial, fun _ => rfl⟩
  | cons a as ih =>
      show _ :: _ = _ :: _ ↔ _ ∧ _
      rw [List.cons.injEq, hstep s t a h]
      refine and_congr_right fun hmet => ?_
      exact ih (hkept s t a h ((hstep s t a h).mpr hmet))

end Machine

end Improot.Lib
