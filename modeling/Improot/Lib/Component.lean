import Mathlib.Data.List.Basic
import Mathlib.Data.List.Induction
import Mathlib.Data.List.TakeWhile

/-!
# Names between separators

`pieces` lists the nonempty parts of a string between its separators, and `render` writes a list
of names with one separator before each.  The two are inverse to one another on the names that are
nonempty and free of separators.
-/

namespace Improot.Lib

variable {α : Type*} (sep : α)

/-- The nonempty parts of `s` between separators. -/
def pieces [DecidableEq α] (s : List α) : List (List α) := (s.splitOn sep).filter (· ≠ [])

/-- A separator before each name; without a name, a separator alone. -/
def render (names : List (List α)) : List α :=
  if names = [] then [sep] else names.flatMap (sep :: ·)

def IsName (name : List α) : Prop := name ≠ [] ∧ sep ∉ name

instance [DecidableEq α] (name : List α) : Decidable (IsName sep name) := inferInstanceAs (Decidable (_ ∧ _))

variable {sep}

/-! ## Rendering -/

@[simp] theorem render_nil : render sep [] = [sep] := rfl

theorem render_cons_ne_nil (names : List (List α)) : render sep names ≠ [] := by
  cases names <;> simp [render]

theorem render_head? (names : List (List α)) : (render sep names).head? = some sep := by
  cases names <;> simp [render]

theorem render_singleton (name : List α) : render sep [name] = sep :: name := by simp [render]

variable {names : List (List α)}

theorem render_concat (h : names ≠ []) (name : List α) :
    render sep (names ++ [name]) = render sep names ++ sep :: name := by
  simp [render, h]

theorem render_append (h : names ≠ []) {more : List (List α)}
    (hm : more ≠ []) : render sep (names ++ more) = render sep names ++ render sep more := by
  simp [render, h, hm]

/-- Only the empty list of names is rendered with a separator at the end. -/
theorem render_getLast? (hnames : ∀ n ∈ names, IsName sep n)
    (h : names ≠ []) : (render sep names).getLast? ≠ some sep := by
  obtain ⟨init, last, rfl⟩ := (List.eq_nil_or_concat' names).resolve_left h
  have hlast := hnames last (by simp)
  have hrender : ∃ s, render sep (init ++ [last]) = s ++ sep :: last := by
    by_cases hi : init = []
    · exact ⟨[], by simp [hi, render]⟩
    · exact ⟨_, render_concat hi last⟩
  obtain ⟨s, hs⟩ := hrender
  rw [hs, List.getLast?_append_of_ne_nil _ (by simp), List.getLast?_cons]
  intro hsep
  obtain ⟨c, hc⟩ : ∃ c, last.getLast? = some c := by
    rw [← Option.isSome_iff_exists, List.getLast?_isSome]
    exact hlast.1
  rw [hc, Option.getD_some, Option.some.injEq] at hsep
  exact hlast.2 (hsep ▸ List.mem_of_getLast? hc)

/-! ## Pieces -/

variable [DecidableEq α]

@[simp] theorem pieces_nil : pieces sep [] = [] := by simp [pieces]

theorem pieces_append_sep (s t : List α) :
    pieces sep (s ++ sep :: t) = pieces sep s ++ pieces sep t := by
  rw [pieces, List.splitOn_append_cons_self, List.filter_append, pieces, pieces]

@[simp] theorem pieces_cons_sep (s : List α) : pieces sep (sep :: s) = pieces sep s := by
  have h : pieces sep ([] ++ sep :: s) = pieces sep [] ++ pieces sep s := pieces_append_sep [] s
  simpa using h

@[simp] theorem pieces_append_singleton_sep (s : List α) :
    pieces sep (s ++ [sep]) = pieces sep s := by
  rw [pieces_append_sep, pieces_nil, List.append_nil]

theorem pieces_name {name : List α} (h : IsName sep name) : pieces sep name = [name] := by
  simp [pieces, List.splitOn_eq_singleton h.2, h.1]

theorem pieces_name_append {name : List α} (h : IsName sep name) (s : List α) :
    pieces sep (name ++ sep :: s) = name :: pieces sep s := by
  rw [pieces_append_sep, pieces_name h, List.singleton_append]

theorem pieces_dropWhile (s : List α) : pieces sep (s.dropWhile (· = sep)) = pieces sep s := by
  induction s with
  | nil => rfl
  | cons c s ih =>
      by_cases hc : c = sep
      · subst hc
        simpa using ih
      · simp [hc]

theorem sep_not_mem_takeWhile (s : List α) : sep ∉ s.takeWhile (· ≠ sep) := by
  intro h
  simpa using List.mem_takeWhile_imp h

/-- The first piece of a string that does not start with a separator, and the others. -/
theorem pieces_eq_cons {s : List α} (hs : s ≠ []) (hhead : s.head? ≠ some sep) :
    pieces sep s = s.takeWhile (· ≠ sep) :: pieces sep (s.dropWhile (· ≠ sep)) := by
  have hname : IsName sep (s.takeWhile (· ≠ sep)) := by
    refine ⟨?_, sep_not_mem_takeWhile s⟩
    cases s with
    | nil => exact absurd rfl hs
    | cons c s =>
        have hc : c ≠ sep := by simpa using hhead
        simp [hc]
  conv_lhs => rw [← List.takeWhile_append_dropWhile (p := (· ≠ sep)) (l := s)]
  generalize hrest : s.dropWhile (· ≠ sep) = rest
  cases rest with
  | nil => rw [List.append_nil, pieces_name hname, pieces_nil]
  | cons c rest =>
      have hc : c = sep := by
        have := List.head?_dropWhile_not (· ≠ sep) s
        rw [hrest] at this
        simpa using this
      subst hc
      rw [pieces_name_append hname, pieces_cons_sep]

theorem sep_not_mem_of_mem_splitOn {s part : List α} (h : part ∈ s.splitOn sep) :
    sep ∉ part := by
  induction s generalizing part with
  | nil =>
      obtain rfl : part = [] := by simpa using h
      simp
  | cons c s ih =>
      rw [List.splitOn_cons_eq_if_modifyHead] at h
      by_cases hc : c = sep
      · simp only [hc, beq_self_eq_true, if_true, List.mem_cons] at h
        rcases h with rfl | h
        · simp
        · exact ih h
      · simp only [beq_iff_eq, hc, if_false] at h
        generalize s.splitOn sep = parts at h ih
        cases parts with
        | nil => simp at h
        | cons first parts =>
            rcases List.mem_cons.mp h with rfl | h
            · simp only [List.mem_cons, not_or]
              exact ⟨fun h => hc h.symm, ih List.mem_cons_self⟩
            · exact ih (List.mem_cons_of_mem _ h)

theorem isName_of_mem_pieces {s name : List α} (h : name ∈ pieces sep s) : IsName sep name := by
  simp only [pieces, ne_eq, decide_not, List.mem_filter, Bool.not_eq_eq_eq_not, Bool.not_true,
    decide_eq_false_iff_not] at h
  exact ⟨h.2, sep_not_mem_of_mem_splitOn h.1⟩

/-! ## The two are inverse -/

theorem pieces_render (h : ∀ n ∈ names, IsName sep n) :
    pieces sep (render sep names) = names := by
  induction names using List.reverseRecOn with
  | nil => simp
  | append_singleton names name ih =>
      have hname := h name (by simp)
      by_cases hn : names = []
      · subst hn
        rw [List.nil_append, render_singleton, pieces_cons_sep, pieces_name hname]
      · rw [render_concat hn, pieces_append_sep, pieces_name hname,
          ih fun n hmem => h n (by simp [hmem])]

end Improot.Lib
