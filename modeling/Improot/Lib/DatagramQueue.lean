import Mathlib.Data.List.Basic
import Mathlib.Data.List.Count

/-!
# Queues read by calls

The front of a queue is handed out by each call, and removed by the ones that don't peek. What a
machine whose states stand for such queues answers is known call by call.
-/

namespace Improot.Lib

variable {σ δ γ ω : Type}

def leave (peeks : γ → Bool) (c : γ) (q : List δ) : List δ := if peeks c then q else q.tail

def taken (peeks : γ → Bool) (cs : List γ) : Nat := cs.countP fun c => !peeks c

/-- The number of the front of the queue moves on with each call that removes it. -/
theorem leave_getElem? (peeks : γ → Bool) (c : γ) (cs : List γ) (q : List δ) :
    (leave peeks c q)[taken peeks cs]? = q[taken peeks (c :: cs)]? := by
  unfold leave taken
  rw [List.countP_cons]
  cases peeks c with
  | true | false => simp

def answers (step : σ → γ → ω × σ) : σ → List γ → List ω
  | _, [] => []
  | s, c :: cs => (step s c).1 :: answers step (step s c).2 cs

/-- **In order, each once**: a machine whose states stand for queues answers a call by the element
whose number is the number of the calls before it that don't peek. -/
theorem answers_in_order {peeks : γ → Bool} {good : γ → Option δ → ω → Prop} {step : σ → γ → ω × σ}
    {stands : σ → List δ → Prop}
    (hstep : ∀ s q c, stands s q →
      good c q.head? (step s c).1 ∧ stands (step s c).2 (leave peeks c q))
    {s : σ} {q : List δ} (h : stands s q) {cs : List γ} {k : Nat} {c : γ} (hc : cs[k]? = some c) :
    ∃ x, (answers step s cs)[k]? = some x ∧ good c q[taken peeks (cs.take k)]? x := by
  induction cs generalizing s q k with
  | nil => cases hc
  | cons c' cs ih =>
      obtain ⟨hgood, hnext⟩ := hstep s q c' h
      cases k with
      | zero =>
          cases hc
          refine ⟨_, rfl, ?_⟩
          rwa [List.head?_eq_getElem?] at hgood
      | succ k =>
          obtain ⟨x, hx, hlater⟩ := ih hnext hc
          refine ⟨x, hx, ?_⟩
          rwa [leave_getElem?] at hlater

end Improot.Lib
