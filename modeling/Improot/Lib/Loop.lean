import Mathlib.Data.List.Basic
import Mathlib.Order.Basic

/-!
# Loops

A loop with a condition and a body that goes on or breaks, run with its trace: the states at which
the body runs. A loop that isn't left has no run.
-/

namespace Improot.Lib

/-- A loop over states `σ`, whose body goes on with another state or breaks with a result. -/
structure Loop (σ ρ : Type*) where
  enters : σ → Bool
  body : σ → σ ⊕ ρ

namespace Loop

variable {σ ρ : Type*} (l : Loop σ ρ)

/-- The states at which the body runs, and the result if it breaks; none if the loop isn't left
within `fuel` turns. -/
def run : Nat → σ → Option (List σ × Option ρ)
  | 0, s => if l.enters s then none else some ([], none)
  | fuel + 1, s =>
    if l.enters s then
      match l.body s with
      | .inl s' => (run fuel s').map fun (visited, r) => (s :: visited, r)
      | .inr r => some ([s], some r)
    else some ([], none)

variable {l} {s s' : σ} {r : ρ}

theorem run_leaves (h : l.enters s = false) (fuel : Nat) : l.run fuel s = some ([], none) := by
  cases fuel <;> simp [run, h]

theorem run_breaks (h : l.enters s) (hr : l.body s = .inr r) (fuel : Nat) :
    l.run (fuel + 1) s = some ([s], some r) := by
  simp [run, h, hr]

theorem run_goes (h : l.enters s) (hs : l.body s = .inl s') (fuel : Nat) :
    l.run (fuel + 1) s = (l.run fuel s').map fun (visited, r) => (s :: visited, r) := by
  simp [run, h, hs]

/-- **The rule of a loop**: an invariant that the body keeps while a measure goes down by `step` at
least bounds the number of turns, and holds wherever the body runs. -/
theorem run_of_measure {I : σ → Prop} {μ : σ → Nat} {step : Nat} (hstep : 0 < step)
    (hturn : ∀ s, I s → l.enters s → step ≤ μ s)
    (hbody : ∀ s s', I s → l.enters s → l.body s = .inl s' → I s' ∧ μ s' + step ≤ μ s)
    (s : σ) (hs : I s) :
    ∃ fuel visited r, l.run fuel s = some (visited, r) ∧ visited.length * step ≤ μ s ∧
      visited.Pairwise (fun a b => μ b < μ a) ∧ (∀ a ∈ visited, I a ∧ l.enters a ∧ μ a ≤ μ s) := by
  induction hμ : μ s using Nat.strongRecOn generalizing s with
  | ind n ih =>
    subst hμ
    cases henters : l.enters s with
    | false => exact ⟨0, [], none, run_leaves henters 0, by simp, .nil, by simp⟩
    | true =>
      cases hb : l.body s with
      | inr r =>
        refine ⟨1, [s], some r, run_breaks henters hb 0, ?_, List.pairwise_singleton _ _, ?_⟩
        · simpa using hturn s hs henters
        · intro a ha
          obtain rfl := List.mem_singleton.mp ha
          exact ⟨hs, henters, Nat.le_refl _⟩
      | inl s' =>
        obtain ⟨hs', hless⟩ := hbody s s' hs henters hb
        obtain ⟨fuel, visited, r, hrun, hlen, hsorted, hall⟩ := ih (μ s') (by omega) s' hs' rfl
        refine ⟨fuel + 1, s :: visited, r, ?_, ?_, ?_, ?_⟩
        · rw [run_goes henters hb, hrun]
          rfl
        · rw [List.length_cons, Nat.succ_mul]
          omega
        · refine List.pairwise_cons.mpr ⟨fun a ha => ?_, hsorted⟩
          have := (hall a ha).2.2
          omega
        · intro a ha
          rcases List.mem_cons.mp ha with rfl | ha
          · exact ⟨hs, henters, Nat.le_refl _⟩
          · obtain ⟨hI, he, hle⟩ := hall a ha
            exact ⟨hI, he, by omega⟩

/-- The states at which the loop arrives: where it starts, and where the body goes on to. -/
inductive Reaches (l : Loop σ ρ) (s : σ) : σ → Prop
  | start : Reaches l s s
  | next {a b : σ} : Reaches l s a → l.enters a → l.body a = .inl b → Reaches l s b

/-- Where the loop arrives and its condition holds, the body runs, and what it goes on to comes
later. -/
theorem visited_of_reaches {fuel : Nat} {visited : List σ} {res : Option ρ}
    (hrun : l.run fuel s = some (visited, res)) {a : σ} (hreach : Reaches l s a) (ha : l.enters a) :
    ∃ before after, visited = before ++ a :: after ∧
      ∀ b, l.body a = .inl b → l.enters b → b ∈ after := by
  -- by induction on the fuel, for the run that is left from `a` on
  have key : ∃ before fuel' visited', visited = before ++ visited' ∧
      l.run fuel' a = some (visited', res) := by
    induction hreach with
    | start => exact ⟨[], fuel, visited, rfl, hrun⟩
    | @next b c _ hb hgo ih =>
        obtain ⟨before, fuel', visited', hsplit, hrun'⟩ := ih hb
        cases fuel' with
        | zero => simp [run, hb] at hrun'
        | succ fuel' =>
            rw [run_goes hb hgo, Option.map_eq_some_iff] at hrun'
            obtain ⟨⟨later, res'⟩, hlater, heq⟩ := hrun'
            obtain ⟨rfl, rfl⟩ := Prod.mk.inj heq
            exact ⟨before ++ [b], fuel', later, by simp [hsplit], hlater⟩
  obtain ⟨before, fuel', visited', rfl, hrun'⟩ := key
  have starts : ∀ {fuel : Nat} {c : σ} {v : List σ}, l.enters c → l.run fuel c = some (v, res) →
      c ∈ v := by
    intro fuel c v hc h
    cases fuel with
    | zero => simp [run, hc] at h
    | succ fuel =>
        cases hb : l.body c with
        | inl d =>
            rw [run_goes hc hb, Option.map_eq_some_iff] at h
            obtain ⟨⟨later, _⟩, -, heq⟩ := h
            obtain ⟨rfl, -⟩ := Prod.mk.inj heq
            exact List.mem_cons_self
        | inr r =>
            rw [run_breaks hc hb] at h
            obtain ⟨rfl, -⟩ := Prod.mk.inj (Option.some.inj h)
            exact List.mem_cons_self
  cases fuel' with
  | zero => simp [run, ha] at hrun'
  | succ fuel' =>
      cases hb : l.body a with
      | inr r =>
          rw [run_breaks ha hb] at hrun'
          obtain ⟨rfl, -⟩ := Prod.mk.inj (Option.some.inj hrun')
          exact ⟨before, [], rfl, by simp⟩
      | inl b =>
          rw [run_goes ha hb, Option.map_eq_some_iff] at hrun'
          obtain ⟨⟨later, res'⟩, hlater, heq⟩ := hrun'
          obtain ⟨rfl, rfl⟩ := Prod.mk.inj heq
          refine ⟨before, later, rfl, fun c hc henters => ?_⟩
          obtain rfl := Sum.inl.inj hc
          exact starts henters hlater

/-! ## Walks over a range -/

section Walk

variable {offset : σ → Nat} {limit : Nat}

/-- The loop is left after no more turns than there is range left, its offset goes up from turn to
turn, and each turn keeps to `Inside`. -/
def Bounded (l : Loop σ ρ) (offset : σ → Nat) (limit : Nat) (Inside : σ → Prop) (s : σ) : Prop :=
  ∃ fuel visited r, l.run fuel s = some (visited, r) ∧ visited.length ≤ limit - offset s ∧
    visited.Pairwise (fun a b => offset a < offset b) ∧ ∀ a ∈ visited, Inside a

/-- **A walk is bounded if and only if each turn is**: wherever the loop arrives, the turn keeps to
`Inside` and the offset goes up. -/
theorem bounded_iff (henters : ∀ s, l.enters s ↔ offset s < limit) {Inside : σ → Prop} :
    l.Bounded offset limit Inside s ↔
      ∀ a, Reaches l s a → l.enters a → Inside a ∧ ∀ b, l.body a = .inl b → offset a < offset b := by
  constructor
  · intro ⟨fuel, visited, r, hrun, _, hsorted, hinside⟩ a hreach ha
    obtain ⟨before, after, rfl, hnext⟩ := visited_of_reaches hrun hreach ha
    refine ⟨hinside a (by simp), fun b hb => ?_⟩
    by_cases hgoes : l.enters b
    · have hlater := (List.pairwise_append.mp hsorted).2.1
      exact (List.pairwise_cons.mp hlater).1 b (hnext b hb hgoes)
    · have hstart := (henters a).mp ha
      have hend := mt (henters b).mpr hgoes
      omega
  · intro h
    have hturn : ∀ a, Reaches l s a → l.enters a → 1 ≤ limit - offset a := by
      intro a _ ha
      have := (henters a).mp ha
      omega
    have hbody : ∀ a b, Reaches l s a → l.enters a → l.body a = .inl b →
        Reaches l s b ∧ limit - offset b + 1 ≤ limit - offset a := by
      intro a b hreach ha hb
      have hup := (h a hreach ha).2 b hb
      have := (henters a).mp ha
      exact ⟨.next hreach ha hb, by omega⟩
    obtain ⟨fuel, visited, r, hrun, hlength, hsorted, hall⟩ :=
      run_of_measure Nat.one_pos hturn hbody s .start
    refine ⟨fuel, visited, r, hrun, by simpa using hlength, ?_, fun a ha => ?_⟩
    · refine hsorted.imp_of_mem fun {a b} ha hb hless => ?_
      have := (henters a).mp (hall a ha).2.1
      have := (henters b).mp (hall b hb).2.1
      omega
    · obtain ⟨hreach, henter, -⟩ := hall a ha
      exact (h a hreach henter).1

end Walk

end Loop

end Improot.Lib
