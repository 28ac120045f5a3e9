import Mathlib.Data.List.Basic

/-!
# Resolving a path by its names

A reference resolver over an arbitrary type of names: a directory is the list of the names that
lead to it from the top, and a path is a list of steps from a directory.  The file system is seen
through a `View` that tells which names are links, and what they stand for.  The rules are those of
a kernel: `..` pops one name and never leaves the top; a link is replaced by what it stands for,
unless it is the last step, the caller doesn't want it followed and nothing asks for a directory.
-/

namespace Improot.Lib

inductive Step (Name : Type*) where
  | name (n : Name)
  | parent
  deriving DecidableEq, Repr

/-- A path, as it is written: from the top or from a directory, by its steps; `wantsDir` when it
ends in a way that asks for a directory. -/
structure Route (Name : Type*) where
  absolute : Bool
  steps : List (Step Name)
  wantsDir : Bool

def Route.start {Name : Type*} (r : Route Name) (dir : List Name) : List Name :=
  if r.absolute then [] else dir

structure View (Name : Type*) where
  /-- is there a link at this place? -/
  isLink : List Name → Bool
  /-- what the link `n` of a directory stands for -/
  target : (dir : List Name) → (n : Name) → Option (Route Name)
  /-- the place that the link `n` of a directory is known by, when nothing follows it -/
  pinned : (dir : List Name) → (n : Name) → Option (List Name)

variable {Name : Type*}

def KeepsLast (derefFinal wantsDir : Bool) (rest : List (Step Name)) : Prop :=
  rest = [] ∧ wantsDir = false ∧ derefFinal = false

def PinsLast (V : View Name) (wantsDir : Bool) (dir : List Name) (n : Name)
    (rest : List (Step Name)) : Prop :=
  rest = [] ∧ wantsDir = false ∧ (V.pinned dir n).isSome

/-- `Resolves V derefFinal wantsDir dir steps place`: from the directory `dir`, the steps lead to
`place`. -/
inductive Resolves (V : View Name) :
    (derefFinal wantsDir : Bool) → (dir : List Name) → List (Step Name) → List Name → Prop
  | done {derefFinal wantsDir dir} : Resolves V derefFinal wantsDir dir [] dir
  | parent {derefFinal wantsDir dir rest place} :
      Resolves V derefFinal wantsDir dir.dropLast rest place →
      Resolves V derefFinal wantsDir dir (.parent :: rest) place
  | plain {derefFinal wantsDir dir n rest place} :
      V.isLink (dir ++ [n]) = false ∨ KeepsLast derefFinal wantsDir rest →
      Resolves V derefFinal wantsDir (dir ++ [n]) rest place →
      Resolves V derefFinal wantsDir dir (.name n :: rest) place
  | link {derefFinal wantsDir dir n rest route mid place} :
      V.isLink (dir ++ [n]) = true → ¬ KeepsLast derefFinal wantsDir rest →
      ¬ PinsLast V wantsDir dir n rest →
      V.target dir n = some route →
      Resolves V true route.wantsDir (route.start dir) route.steps mid →
      Resolves V derefFinal wantsDir mid rest place →
      Resolves V derefFinal wantsDir dir (.name n :: rest) place
  | pinned {derefFinal wantsDir dir n place} :
      V.isLink (dir ++ [n]) = true → ¬ KeepsLast derefFinal wantsDir ([] : List (Step Name)) →
      wantsDir = false → V.pinned dir n = some place →
      Resolves V derefFinal wantsDir dir [.name n] place

namespace Resolves

variable {V : View Name} {derefFinal wantsDir : Bool} {dir : List Name}

/-- **The resolver is a function.** A path leads to at most one place. -/
theorem functional {steps : List (Step Name)} {place place' : List Name}
    (h : Resolves V derefFinal wantsDir dir steps place)
    (h' : Resolves V derefFinal wantsDir dir steps place') : place = place' := by
  induction h generalizing place' with
  | done =>
      cases h'
      rfl
  | parent _ ih =>
      cases h' with
      | parent h' => exact ih h'
  | plain hplain _ ih =>
      cases h' with
      | plain _ h' => exact ih h'
      | link hlink hkeep => simp [hlink, hkeep] at hplain
      | pinned hlink hkeep => simp [hlink, hkeep] at hplain
  | link hlink hkeep hpin htarget _ _ ihroute ih =>
      cases h' with
      | plain hplain => simp [hlink, hkeep] at hplain
      | link _ _ _ htarget' hroute' h' =>
          rw [htarget, Option.some.injEq] at htarget'
          subst htarget'
          rw [← ihroute hroute'] at h'
          exact ih h'
      | pinned _ _ hwants hpinned => exact absurd ⟨rfl, hwants, by simp [hpinned]⟩ hpin
  | pinned hlink hkeep hwants hpinned =>
      cases h' with
      | plain hplain => simp [hlink, hkeep] at hplain
      | link _ _ hpin => exact absurd ⟨rfl, hwants, by simp [hpinned]⟩ hpin
      | pinned _ _ _ hpinned' =>
          rw [hpinned, Option.some.injEq] at hpinned'
          exact hpinned'

/-- The last name of a path is in the directory that the steps before it lead to, where a link isn't
followed. -/
theorem of_append_name {steps : List (Step Name)} {n : Name} {place : List Name}
    (h : Resolves V false false dir (steps ++ [.name n]) place) :
    ∃ mid, Resolves V true true dir steps mid ∧ place = mid ++ [n] := by
  induction steps generalizing dir with
  | nil =>
      cases h with
      | plain _ h =>
          cases h
          exact ⟨dir, .done, rfl⟩
      | link _ hkeep => exact absurd ⟨rfl, rfl, rfl⟩ hkeep
      | pinned _ hkeep => exact absurd ⟨rfl, rfl, rfl⟩ hkeep
  | cons step steps ih =>
      have hne : steps ++ [Step.name n] ≠ [] := by simp
      generalize hrest : steps ++ [Step.name n] = rest at hne
      rw [List.cons_append, hrest] at h
      cases h with
      | parent h =>
          obtain ⟨mid, hmid, hplace⟩ := ih (hrest ▸ h)
          exact ⟨mid, .parent hmid, hplace⟩
      | plain hplain h =>
          obtain ⟨mid, hmid, hplace⟩ := ih (hrest ▸ h)
          have hlink := hplain.resolve_right fun hkeep => hne hkeep.1
          exact ⟨mid, .plain (.inl hlink) hmid, hplace⟩
      | link hlink _ _ htarget hroute h =>
          obtain ⟨mid, hmid, hplace⟩ := ih (hrest ▸ h)
          refine ⟨mid, .link hlink ?_ ?_ htarget hroute hmid, hplace⟩
          · rintro ⟨-, hwants, -⟩
            cases hwants
          · rintro ⟨-, hwants, -⟩
            cases hwants
      | pinned => exact absurd rfl hne

end Resolves

end Improot.Lib
