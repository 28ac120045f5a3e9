import Mathlib.Data.List.Basic
import Mathlib.Data.List.Perm.Basic

/-!
# Lists sorted by containment

Containment is only a partial order, so that a list cannot be sorted by it in the usual sense.  What
a first-match search needs is weaker: no element comes before one that it strictly contains.  Such a
list stays one when a new element is inserted right after the last element it contains.
-/

namespace Improot.Lib

variable {α : Type*} {above : α → α → Prop}

def DeepestFirst (above : α → α → Prop) (l : List α) : Prop := l.Pairwise fun x y => ¬ above x y

namespace DeepestFirst

theorem nil : DeepestFirst above [] := List.Pairwise.nil

theorem sublist {l l' : List α} (h : DeepestFirst above l) (hl : l'.Sublist l) :
    DeepestFirst above l' := List.Pairwise.sublist hl h

theorem filter {l : List α} (h : DeepestFirst above l) (p : α → Bool) :
    DeepestFirst above (l.filter p) := h.sublist List.filter_sublist

/-- An element goes between those that don't contain it and those it doesn't contain. -/
theorem insert {pre post : List α} {b : α} (h : DeepestFirst above (pre ++ post))
    (hpre : ∀ x ∈ pre, ¬ above x b) (hpost : ∀ y ∈ post, ¬ above b y) :
    DeepestFirst above (pre ++ b :: post) := by
  obtain ⟨hl, hr, hlr⟩ := List.pairwise_append.mp h
  refine List.pairwise_append.mpr ⟨hl, List.pairwise_cons.mpr ⟨hpost, hr⟩, ?_⟩
  intro x hx y hy
  rcases List.mem_cons.mp hy with rfl | hy
  · exact hpre x hx
  · exact hlr x hx y hy

/-- What comes before an element that `b` contains does not contain `b`. -/
theorem not_above_of_last {pre : List α} {p b : α} (h : DeepestFirst above (pre ++ [p]))
    (hirr : ¬ above p p) (hin : ∀ x, above x b → above x p) : ∀ x ∈ pre ++ [p], ¬ above x b := by
  intro x hx hxb
  obtain ⟨-, -, hlr⟩ := List.pairwise_append.mp h
  rcases List.mem_append.mp hx with hx | hx
  · exact hlr x hx p (List.mem_singleton_self p) (hin x hxb)
  · rw [List.mem_singleton.mp hx] at hxb
    exact hirr (hin p hxb)

/-- An element may take the place of one that contains the same and lies in the same. -/
theorem replace {pre post : List α} {a b : α} (h : DeepestFirst above (pre ++ a :: post))
    (hup : ∀ x, above x b → above x a) (hdown : ∀ y, above b y → above a y) :
    DeepestFirst above (pre ++ b :: post) := by
  obtain ⟨hl, hr, hlr⟩ := List.pairwise_append.mp h
  obtain ⟨ha, hpost⟩ := List.pairwise_cons.mp hr
  refine List.pairwise_append.mpr ⟨hl, List.pairwise_cons.mpr ⟨?_, hpost⟩, ?_⟩
  · exact fun y hy hby => ha y hy (hdown y hby)
  · intro x hx y hy
    rcases List.mem_cons.mp hy with rfl | hy
    · exact fun hxb => hlr x hx a List.mem_cons_self (hup x hxb)
    · exact hlr x hx y (List.mem_cons_of_mem _ hy)

/-- **The first match is the deepest.** Another match does not lie strictly below it. -/
theorem find?_deepest {l : List α} {p : α → Bool} {b c : α} (h : DeepestFirst above l)
    (hfind : l.find? p = some b) (hc : c ∈ l) (hp : p c = true) : c = b ∨ ¬ above b c := by
  obtain ⟨-, pre, post, rfl, hpre⟩ := List.find?_eq_some_iff_append.mp hfind
  rcases List.mem_append.mp hc with hc | hc
  · have := hpre c hc
    simp [hp] at this
  · rcases List.mem_cons.mp hc with rfl | hc
    · exact .inl rfl
    · obtain ⟨-, hr, -⟩ := List.pairwise_append.mp h
      exact .inr ((List.pairwise_cons.mp hr).1 c hc)

end DeepestFirst

end Improot.Lib
