import Mathlib.Logic.Basic

/-!
# Computations that may fail

What a sequence of computations says about its parts, when it succeeds.
-/

namespace Improot.Lib

variable {ε α β : Type}

/-- A sequence succeeds when both parts do. -/
theorem bind_eq_ok {x : Except ε α} {f : α → Except ε β} {b : β} :
    (x >>= f) = .ok b ↔ ∃ a, x = .ok a ∧ f a = .ok b := by
  cases x <;> simp [bind, Except.bind]

end Improot.Lib
