import Mathlib.Logic.Function.Basic

/-!
# Files and their names

A file has a number, and one name at most.  Entries are created, moved and removed one at a time; a
file that has no name any more never gets one again.
-/

namespace Improot.Lib

structure Inode (κ : Type) where
  number : Nat
  kind : κ
  deriving DecidableEq

structure Entries (Name κ : Type) where
  file : Name → Option (Inode κ)
  next : Nat
  fresh : ∀ {p f}, file p = some f → f.number < next
  distinct : ∀ {p q f g}, file p = some f → file q = some g → f.number = g.number → p = q

namespace Entries

variable {Name κ : Type} [DecidableEq Name] (d : Entries Name κ)

/-! ## Operations -/

def empty : Entries Name κ where
  file _ := none
  next := 0
  fresh h := by cases h
  distinct h := by cases h

def remove (p : Name) : Entries Name κ where
  file := Function.update d.file p none
  next := d.next
  fresh {q f} h := by
    rw [Function.update_apply] at h
    split at h
    · cases h
    · exact d.fresh h
  distinct {q q' f g} h h' := by
    rw [Function.update_apply] at h h'
    split at h
    · cases h
    split at h'
    · cases h'
    · exact d.distinct h h'

def create (p : Name) (kind : κ) : Entries Name κ where
  file := Function.update d.file p (some ⟨d.next, kind⟩)
  next := d.next + 1
  fresh {q f} h := by
    rw [Function.update_apply] at h
    split at h
    · cases h
      exact Nat.lt_succ_self _
    · exact Nat.lt_succ_of_lt (d.fresh h)
  distinct {q q' f g} h h' hnumber := by
    rw [Function.update_apply] at h h'
    split at h
    · rename_i hq
      cases h
      split at h'
      · rename_i hq'
        rw [hq, hq']
      · exact absurd hnumber (Nat.ne_of_gt (d.fresh h'))
    · split at h'
      · cases h'
        exact absurd hnumber (Nat.ne_of_lt (d.fresh h))
      · exact d.distinct h h' hnumber

def move (old new : Name) : Entries Name κ where
  file p := if p = new then d.file old else if p = old then none else d.file p
  next := d.next
  fresh {q f} h := by
    split at h
    · exact d.fresh h
    split at h
    · cases h
    · exact d.fresh h
  distinct {q q' f g} h h' hnumber := by
    split at h
    · rename_i hq
      split at h'
      · rename_i hq'
        rw [hq, hq']
      rename_i hq'
      split at h'
      · cases h'
      · rename_i hold
        exact absurd (d.distinct h h' hnumber).symm hold
    split at h
    · cases h
    rename_i hold
    split at h'
    · exact absurd (d.distinct h h' hnumber) hold
    split at h'
    · cases h'
    · exact d.distinct h h' hnumber

/-! ## What is under a name -/

@[simp] theorem file_remove_self (p : Name) : (d.remove p).file p = none :=
  Function.update_self ..

theorem file_remove_of_ne {p q : Name} (h : q ≠ p) : (d.remove p).file q = d.file q :=
  Function.update_of_ne h ..

@[simp] theorem file_create_self (p : Name) (kind : κ) :
    (d.create p kind).file p = some ⟨d.next, kind⟩ := Function.update_self ..

theorem file_create_of_ne {p q : Name} (h : q ≠ p) (kind : κ) :
    (d.create p kind).file q = d.file q := Function.update_of_ne h ..

theorem file_move_new (old new : Name) : (d.move old new).file new = d.file old := if_pos rfl

theorem file_move_old {old new : Name} (h : old ≠ new) : (d.move old new).file old = none := by
  show (if old = new then _ else _) = _
  rw [if_neg h, if_pos rfl]

theorem file_move_of_ne {old new p : Name} (hold : p ≠ old) (hnew : p ≠ new) :
    (d.move old new).file p = d.file p := by
  show (if p = new then _ else _) = _
  rw [if_neg hnew, if_neg hold]

/-! ## Files without a name -/

/-- A file that was created, and that no name leads to. -/
structure Gone (number : Nat) : Prop where
  old : number < d.next
  unnamed : ∀ p f, d.file p = some f → f.number ≠ number

variable {d}

omit [DecidableEq Name] in
theorem Gone.file_ne {p : Name} {f : Inode κ} (h : d.Gone f.number) : d.file p ≠ some f :=
  fun hp => h.unnamed p f hp rfl

theorem Gone.remove {number : Nat} (h : d.Gone number) (p : Name) : (d.remove p).Gone number := by
  refine ⟨h.old, fun q f hq => ?_⟩
  by_cases hqp : q = p
  · rw [hqp, file_remove_self] at hq
    cases hq
  · exact h.unnamed q f (by rwa [file_remove_of_ne d hqp] at hq)

theorem Gone.create {number : Nat} (h : d.Gone number) (p : Name) (kind : κ) :
    (d.create p kind).Gone number := by
  refine ⟨Nat.lt_succ_of_lt h.old, fun q f hq => ?_⟩
  by_cases hqp : q = p
  · rw [hqp, file_create_self] at hq
    cases hq
    exact Nat.ne_of_gt h.old
  · exact h.unnamed q f (by rwa [file_create_of_ne d hqp] at hq)

theorem Gone.move {number : Nat} (h : d.Gone number) (old new : Name) :
    (d.move old new).Gone number := by
  refine ⟨h.old, fun q f hq => ?_⟩
  by_cases hnew : q = new
  · rw [hnew, file_move_new] at hq
    exact h.unnamed old f hq
  by_cases hold : q = old
  · subst hold
    rw [file_move_old d hnew] at hq
    cases hq
  · exact h.unnamed q f (by rwa [file_move_of_ne d hold hnew] at hq)

/-- What is removed is gone. -/
theorem gone_remove {p : Name} {f : Inode κ} (h : d.file p = some f) :
    (d.remove p).Gone f.number := by
  refine ⟨d.fresh h, fun q g hq hnumber => ?_⟩
  by_cases hqp : q = p
  · rw [hqp, file_remove_self] at hq
    cases hq
  · rw [file_remove_of_ne d hqp] at hq
    exact hqp (d.distinct hq h hnumber)

/-- What another file takes the place of is gone. -/
theorem gone_move {old new : Name} {f : Inode κ} (h : d.file new = some f) (hne : old ≠ new) :
    (d.move old new).Gone f.number := by
  refine ⟨d.fresh h, fun q g hq hnumber => ?_⟩
  by_cases hnew : q = new
  · rw [hnew, file_move_new] at hq
    exact hne (d.distinct hq h hnumber)
  by_cases hold : q = old
  · rw [hold, file_move_old d hne] at hq
    cases hq
  · rw [file_move_of_ne d hold hnew] at hq
    exact hnew (d.distinct hq h hnumber)

end Entries

end Improot.Lib
