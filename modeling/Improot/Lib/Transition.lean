import Mathlib.Logic.Basic

/-!
# Transition systems and their invariants

A system is a set of initial states and a step function that a state may refuse.  `Reach` collects
the states of the runs whose steps all meet a side condition; the side condition `Always` gives
the plain reachable states.  The one induction over runs is done here, once, as
`Reach.invariant`.
-/

namespace Improot.Lib

/-- A labelled transition system: `step s e = none` when `e` cannot happen in `s`. -/
structure System (State Event : Type*) where
  init : State → Prop
  step : State → Event → Option State

namespace System

variable {State Event : Type*} (sys : System State Event)

def Always (_ : State) (_ : Event) : Prop := True

/-- The states that the runs from an initial state reach, when every step of the run meets `ok`. -/
inductive Reach (ok : State → Event → Prop) : State → Prop
  | start {s} : sys.init s → Reach ok s
  | next {s e s'} : Reach ok s → ok s e → sys.step s e = some s' → Reach ok s'

variable {sys}

/-- **Invariants are inductive.** What holds initially and is preserved by each step that meets
the side condition holds in every state reached. -/
theorem Reach.invariant {ok : State → Event → Prop} {inv : State → Prop} {s : State}
    (hinit : ∀ s, sys.init s → inv s)
    (hstep : ∀ s e s', inv s → ok s e → sys.step s e = some s' → inv s')
    (h : sys.Reach ok s) : inv s := by
  induction h with
  | start hs => exact hinit _ hs
  | next _ hok hs ih => exact hstep _ _ _ ih hok hs

variable {ok : State → Event → Prop} {s s' : State} {es : List Event}

/-- A stronger side condition reaches fewer states. -/
theorem Reach.mono {ok' : State → Event → Prop}
    (hle : ∀ s e, ok s e → ok' s e) (h : sys.Reach ok s) : sys.Reach ok' s := by
  induction h with
  | start hs => exact .start hs
  | next _ hok hs ih => exact .next ih (hle _ _ hok) hs

/-- The runs that go on from a state, when every step meets `ok`. -/
inductive Steps (sys : System State Event) (ok : State → Event → Prop) (s : State) : State → Prop
  | refl : Steps sys ok s s
  | next {s' e s''} : Steps sys ok s s' → ok s' e → sys.step s' e = some s'' → Steps sys ok s s''

/-- A run goes on. -/
theorem Reach.steps (h : sys.Reach ok s) (hs : sys.Steps ok s s') : sys.Reach ok s' := by
  induction hs with
  | refl => exact h
  | next _ hok hstep ih => exact .next ih hok hstep

def exec (sys : System State Event) (s : State) : List Event → Option State
  | [] => some s
  | e :: es => (sys.step s e).bind fun s' => sys.exec s' es

/-- The end state of an accepted list of events that meet `ok` in every state is reached. -/
theorem Reach.exec_of
    (h : sys.Reach ok s) (hok : ∀ e ∈ es, ∀ s, ok s e) (he : sys.exec s es = some s') :
    sys.Reach ok s' := by
  induction es generalizing s with
  | nil =>
      cases he
      exact h
  | cons e es ih =>
      simp only [System.exec, Option.bind_eq_some_iff] at he
      obtain ⟨t, ht, he⟩ := he
      obtain ⟨hfirst, hrest⟩ := List.forall_mem_cons.mp hok
      exact ih (.next h (hfirst s) ht) hrest he

/-- The end state of an accepted list of events is reached. -/
theorem Reach.exec (h : sys.Reach Always s) (he : sys.exec s es = some s') : sys.Reach Always s' :=
  h.exec_of (fun _ _ _ => trivial) he

/-- Every step of a list of events meets `ok`, as far as the system accepts them. -/
def Along (sys : System State Event) (ok : State → Event → Prop) (s : State) : List Event → Prop
  | [] => True
  | e :: es => ok s e ∧ ∀ s', sys.step s e = some s' → sys.Along ok s' es

/-- The end state of a list of events whose steps meet `ok` is reached. -/
theorem Reach.exec_along
    (h : sys.Reach ok s) (hok : sys.Along ok s es) (he : sys.exec s es = some s') :
    sys.Reach ok s' := by
  induction es generalizing s with
  | nil =>
      cases he
      exact h
  | cons e es ih =>
      simp only [System.exec, Option.bind_eq_some_iff] at he
      obtain ⟨t, ht, he⟩ := he
      exact ih (.next h hok.1 ht) (hok.2 t ht) he

/-- Runs a list of events, as far as the system accepts them and every step meets `ok`. -/
def execWith (sys : System State Event) (ok : State → Event → Prop) [∀ s e, Decidable (ok s e)]
    (s : State) : List Event → Option State
  | [] => some s
  | e :: es => if ok s e then (sys.step s e).bind fun s' => sys.execWith ok s' es else none

/-- The end state of a list of events whose steps meet `ok` is reached. -/
theorem Reach.execWith [∀ s e, Decidable (ok s e)]
    (h : sys.Reach ok s) (he : sys.execWith ok s es = some s') :
    sys.Reach ok s' := by
  induction es generalizing s with
  | nil =>
      cases he
      exact h
  | cons e es ih =>
      simp only [System.execWith, Option.ite_none_right_eq_some, Option.bind_eq_some_iff] at he
      obtain ⟨hok, t, ht, he⟩ := he
      exact ih (.next h hok ht) he

end System

end Improot.Lib
