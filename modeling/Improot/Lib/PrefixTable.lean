import Mathlib.Data.List.Induction
import Mathlib.Data.List.Infix
import Mathlib.Logic.Function.Basic

/-!
# Tables of prefixes

A table gives some words a replacement. A word is resolved by its longest prefix that has one: this
prefix is exchanged, and the rest of the word is kept. So the resolution of a word depends only on
the entries along it, and below a word whose resolution is known only on the entries that are
strictly below.
-/

namespace Improot.Lib

abbrev PrefixTable (α : Type*) := List α → Option (List α)

namespace PrefixTable

variable {α : Type*} {T T' : PrefixTable α} {a b p q : List α}

def resolveRev (T : PrefixTable α) : List α → Option (List α)
  | [] => T []
  | n :: rev => (T (rev.reverse ++ [n])).or ((resolveRev T rev).map (· ++ [n]))

def resolve (T : PrefixTable α) (p : List α) : Option (List α) := resolveRev T p.reverse

@[simp] theorem resolve_nil : resolve T [] = T [] := rfl

theorem resolve_concat (p : List α) (n : α) :
    resolve T (p ++ [n]) = (T (p ++ [n])).or ((resolve T p).map (· ++ [n])) := by
  rw [resolve, List.reverse_append, List.reverse_singleton, List.singleton_append, resolveRev,
    List.reverse_reverse, resolve]

/-- A word of the table is exchanged as a whole. -/
theorem resolve_of_some {h : List α} (hp : T p = some h) : resolve T p = some h := by
  induction p using List.reverseRecOn with
  | nil => rw [resolve_nil, hp]
  | append_singleton p n _ => rw [resolve_concat, hp, Option.some_or]

/-- **The longest prefix decides.** -/
theorem resolve_append (h : ∀ q, q ≠ [] → q <+: p → T (a ++ q) = none) :
    resolve T (a ++ p) = (resolve T a).map (· ++ p) := by
  induction p using List.reverseRecOn with
  | nil => simp
  | append_singleton p n ih =>
      have hnone := h (p ++ [n]) (by simp) List.prefix_rfl
      rw [← List.append_assoc] at hnone ⊢
      have hp := ih fun q hne hq => h q hne (hq.trans (List.prefix_append _ _))
      rw [resolve_concat, hnone, Option.none_or, hp, Option.map_map]
      congr 1
      funext r
      simp

/-- The entries along a word decide. -/
theorem resolve_congr (h : ∀ q, q <+: p → T' q = T q) : resolve T' p = resolve T p := by
  induction p using List.reverseRecOn with
  | nil => exact h [] List.prefix_rfl
  | append_singleton p n ih =>
      rw [resolve_concat, resolve_concat, h _ List.prefix_rfl,
        ih fun q hq => h q (hq.trans (List.prefix_append _ _))]

/-- **Two subtrees.** When the entries strictly below `b` in one table are those strictly below `a`
in another one, and both words have the same resolution, so have all words below them. -/
theorem resolve_shift (hroot : resolve T' a = resolve T b)
    (h : ∀ q, q ≠ [] → q <+: p → T' (a ++ q) = T (b ++ q)) :
    resolve T' (a ++ p) = resolve T (b ++ p) := by
  induction p using List.reverseRecOn with
  | nil => simpa using hroot
  | append_singleton p n ih =>
      have hsame := h (p ++ [n]) (by simp) List.prefix_rfl
      have hp := ih fun q hne hq => h q hne (hq.trans (List.prefix_append _ _))
      rw [← List.append_assoc, ← List.append_assoc] at hsame ⊢
      rw [resolve_concat, resolve_concat, hsame, hp]

/-! ## One entry changes -/

section Update

variable [DecidableEq α] {o : Option (List α)}

/-- What isn't below an entry is resolved without it. -/
theorem resolve_update_of_not_below (h : ¬ a <+: p) :
    resolve (Function.update T a o) p = resolve T p := by
  apply resolve_congr
  intro q hq
  apply Function.update_of_ne
  rintro rfl
  exact h hq

/-- An entry that is what its word resolves to changes nothing. -/
theorem resolve_update_same {h : List α} (hword : resolve T a = some h) (p : List α) :
    resolve (Function.update T a (some h)) (a ++ p) = resolve T (a ++ p) := by
  have hself : resolve (Function.update T a (some h)) a = resolve T a := by
    rw [resolve_of_some (Function.update_self ..), hword]
  refine resolve_shift hself fun q hne _ => Function.update_of_ne ?_ _ _
  exact fun heq => hne (List.append_right_eq_self.mp heq)

/-- **What an entry changes.** A word is resolved as before, or it is below the entry and nothing in
between decides. -/
theorem resolve_update_cases (T : PrefixTable α) (a : List α) (o : Option (List α)) (p : List α) :
    resolve (Function.update T a o) p = resolve T p ∨
      ∃ q, p = a ++ q ∧
        resolve (Function.update T a o) p = (resolve (Function.update T a o) a).map (· ++ q) ∧
        resolve T p = (resolve T a).map (· ++ q) := by
  by_cases hbelow : a <+: p
  · obtain ⟨q, rfl⟩ := hbelow
    induction q using List.reverseRecOn with
    | nil => exact .inr ⟨[], by simp, by simp, by simp⟩
    | append_singleton q n ih =>
        have hsame : Function.update T a o (a ++ q ++ [n]) = T (a ++ q ++ [n]) :=
          Function.update_of_ne (by simp) _ _
        rw [← List.append_assoc, resolve_concat, resolve_concat, hsame]
        cases hentry : T (a ++ q ++ [n]) with
        | some h => exact .inl rfl
        | none =>
            rcases ih with heq | ⟨q', hq', hnew, hold⟩
            · exact .inl (by rw [heq])
            · obtain rfl := List.append_cancel_left hq'
              refine .inr ⟨q ++ [n], List.append_assoc _ _ _, ?_, ?_⟩
              · rw [hnew, Option.none_or, Option.map_map]
                simp [Function.comp_def]
              · rw [hold, Option.none_or, Option.map_map]
                simp [Function.comp_def]
  · exact .inl (resolve_update_of_not_below hbelow)

end Update

end PrefixTable

end Improot.Lib
