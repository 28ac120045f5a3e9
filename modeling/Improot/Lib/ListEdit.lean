import Mathlib.Data.List.Forall2

/-!
# Edits of a list

Sequences of reads, writes, insertions and deletions by index. An edit acts on lists of any
elements, once it is said what is inserted, and what becomes of an element that is read or written:
lists that are related element by element stay related.
-/

namespace Improot.Lib

/-- Lists that are related are related up to the first element that fails a test. -/
theorem forall₂_takeWhile {α β : Type} {R : α → β → Prop} {p : α → Bool} {q : β → Bool}
    (hpq : ∀ x y, R x y → p x = q y) {xs : List α} {ys : List β} (h : List.Forall₂ R xs ys) :
    List.Forall₂ R (xs.takeWhile p) (ys.takeWhile q) := by
  induction h with
  | nil => exact .nil
  | cons h hs ih =>
      rw [List.takeWhile_cons, List.takeWhile_cons, hpq _ _ h]
      split
      · exact .cons h ih
      · exact .nil

/-- An edit, where elements of `σ` are written. -/
inductive Edit (σ : Type) where
  | read (index : Nat)
  | write (index : Nat) (s : σ)
  /-- so many elements are inserted before the index, or removed if the number is negative -/
  | resize (index : Nat) (delta : Int)
  deriving DecidableEq

namespace Edit

variable {σ α β : Type}

def resized (blank : β) (index : Nat) (delta : Int) (l : List β) : List β :=
  if 0 ≤ delta then l.take index ++ List.replicate delta.toNat blank ++ l.drop index
  else l.take (index - (-delta).toNat) ++ l.drop index

def on (blank : β) (read : β → β) (write : σ → β → β) (l : List β) : Edit σ → List β
  | .read index => l.modify index read
  | .write index s => l.modify index (write s)
  | .resize index delta => resized blank index delta l

def all (blank : β) (read : β → β) (write : σ → β → β) (l : List β) (edits : List (Edit σ)) : List β :=
  edits.foldl (on blank read write) l

/-- Is the edit one of a list of `n` elements?  What is behind the last element may be read. -/
def Valid (n : Nat) : Edit σ → Prop
  | .read index => index ≤ n
  | .write index _ => index < n
  | .resize index delta => index ≤ n ∧ (-delta).toNat ≤ index

instance (n : Nat) : (e : Edit σ) → Decidable (Valid n e)
  | .read index => inferInstanceAs (Decidable (index ≤ n))
  | .write index _ => inferInstanceAs (Decidable (index < n))
  | .resize index delta => inferInstanceAs (Decidable (index ≤ n ∧ (-delta).toNat ≤ index))

def ValidAll (blank : β) (read : β → β) (write : σ → β → β) : List β → List (Edit σ) → Prop
  | _, [] => True
  | l, e :: edits => Valid l.length e ∧ ValidAll blank read write (on blank read write l e) edits

section Related

variable {R : α → β → Prop} {blank : α} {blank' : β}

theorem forall₂_modify {f : α → α} {g : β → β} (hfg : ∀ x y, R x y → R (f x) (g y)) (index : Nat)
    {xs : List α} {ys : List β} (h : List.Forall₂ R xs ys) :
    List.Forall₂ R (xs.modify index f) (ys.modify index g) := by
  induction h generalizing index with
  | nil => simp
  | cons h hs ih =>
      cases index with
      | zero => exact .cons (hfg _ _ h) hs
      | succ index => exact .cons h (ih index)

theorem forall₂_replicate (h : R blank blank') (n : Nat) :
    List.Forall₂ R (List.replicate n blank) (List.replicate n blank') := by
  induction n with
  | zero => exact .nil
  | succ n ih => exact .cons h ih

theorem forall₂_resized (hblank : R blank blank') (index : Nat) (delta : Int) {xs : List α}
    {ys : List β} (h : List.Forall₂ R xs ys) :
    List.Forall₂ R (resized blank index delta xs) (resized blank' index delta ys) := by
  unfold resized
  split
  · exact List.rel_append (List.rel_append (List.forall₂_take index h)
      (forall₂_replicate hblank delta.toNat)) (List.forall₂_drop index h)
  · exact List.rel_append (List.forall₂_take _ h) (List.forall₂_drop index h)

/-- **An edit keeps lists related**, if it keeps their elements related. -/
theorem forall₂_on {read : α → α} {read' : β → β} {write : σ → α → α} {write' : σ → β → β}
    (hblank : R blank blank') (hread : ∀ x y, R x y → R (read x) (read' y))
    (hwrite : ∀ s x y, R x y → R (write s x) (write' s y)) (e : Edit σ) {xs : List α}
    {ys : List β} (h : List.Forall₂ R xs ys) :
    List.Forall₂ R (on blank read write xs e) (on blank' read' write' ys e) := by
  cases e with
  | read index => exact forall₂_modify hread index h
  | write index s => exact forall₂_modify (hwrite s) index h
  | resize index delta => exact forall₂_resized hblank index delta h

end Related

section One

variable {blank : β} {read : β → β} {write : σ → β → β}

/-- What is behind the list stays behind it. -/
theorem resized_append {index : Nat} {delta : Int} {l : List β} (hindex : index ≤ l.length)
    (more : List β) :
    resized blank index delta (l ++ more) = resized blank index delta l ++ more := by
  unfold resized
  split
  · rw [List.take_append_of_le_length hindex, List.drop_append_of_le_length hindex]
    simp
  · rw [List.take_append_of_le_length (by omega), List.drop_append_of_le_length hindex]
    simp

/-- Elements that stay the same when they are read or written don't notice it. -/
theorem filter_resized (p : β → Bool) (hblank : p blank = false) (index : Nat) (delta : Int)
    (l : List β) : ((resized blank index delta l).filter p).Sublist (l.filter p) := by
  have hsplit (k : Nat) (hk : k ≤ index) :
      (l.take k ++ l.drop index).Sublist l := by
    have htake : (l.take k).Sublist (l.take index) := by
      rw [show k = min k index by omega, ← List.take_take]
      exact List.take_sublist k _
    have happend := htake.append_right (l.drop index)
    rwa [List.take_append_drop] at happend
  unfold resized
  split
  · rw [List.filter_append, List.filter_append, List.filter_replicate, if_neg (by simp [hblank]),
      List.append_nil, ← List.filter_append]
    exact (hsplit index (Nat.le_refl _)).filter p
  · exact (hsplit _ (by omega)).filter p

end One

end Edit

end Improot.Lib
