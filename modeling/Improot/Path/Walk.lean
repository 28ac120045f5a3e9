import Improot.Lib.Resolve
import Improot.Path.Canon
import Improot.Path.Component

/-!
# The string steps of the walk

What `next_component`, `pop_component` and `join_paths` do to a cursor and to a canonical guest
path, in terms of components.
-/

namespace Improot.Path

open Lib (pieces IsName Step Route)

/-! ## The cursor -/

/-- What `next_component` finds under the cursor: nothing but separators, a last component, or a
component that others follow. -/
inductive Next (cursor : CString) : Finality → CString → CString → Prop
  | nothing : pieces '/' cursor = [] → Next cursor .finalNormal [] []
  | last {component} : pieces '/' cursor = [component] →
      Next cursor (if cursor.getLast? = some '/' then .finalSlash else .finalNormal) component []
  | more {component rest} : pieces '/' cursor = component :: pieces '/' rest →
      pieces '/' rest ≠ [] → rest.getLast? = cursor.getLast? →
      Next cursor .notFinal component rest

theorem pieces_ne_nil {s : CString} (hs : s ≠ []) (hhead : s.head? ≠ some '/') :
    pieces '/' s ≠ [] := by
  rw [Lib.pieces_eq_cons hs hhead]
  exact List.cons_ne_nil _ _

theorem head?_dropWhile_slash (s : CString) : (s.dropWhile (· = '/')).head? ≠ some '/' := by
  have := List.head?_dropWhile_not (· = '/') s
  intro h
  rw [h] at this
  simp at this

theorem pieces_eq_nil_iff {s : CString} : pieces '/' s = [] ↔ s.dropWhile (· = '/') = [] := by
  rw [← Lib.pieces_dropWhile]
  constructor
  · intro h
    by_contra hne
    exact pieces_ne_nil hne (head?_dropWhile_slash s) h
  · intro h
    rw [h, Lib.pieces_nil]

theorem head?_dropWhile_component (s : CString) :
    s.dropWhile (· ≠ '/') = [] ∨ (s.dropWhile (· ≠ '/')).head? = some '/' := by
  have := List.head?_dropWhile_not (· ≠ '/') s
  cases h : s.dropWhile (· ≠ '/') with
  | nil => exact .inl rfl
  | cons c rest =>
      rw [h] at this
      exact .inr (by simpa using this)

theorem getLast?_dropWhile {p : Char → Bool} {s : CString} (h : s.dropWhile p ≠ []) :
    (s.dropWhile p).getLast? = s.getLast? := by
  conv_rhs => rw [← List.takeWhile_append_dropWhile (p := p) (l := s)]
  rw [List.getLast?_append_of_ne_nil _ h]

theorem getLast?_slash_of_pieces_nil {s : CString} (hs : s ≠ []) (h : pieces '/' s = []) :
    s.getLast? = some '/' := by
  have hall := List.dropWhile_eq_nil_iff.mp (pieces_eq_nil_iff.mp h)
  obtain ⟨c, hc⟩ : ∃ c, s.getLast? = some c := by
    rwa [← Option.isSome_iff_exists, List.getLast?_isSome]
  have := hall c (List.mem_of_getLast? hc)
  rw [hc, of_decide_eq_true this]

theorem nextComponent_ok {cursor component rest : CString} {finality : Finality}
    (h : nextComponent cursor = .ok (finality, component, rest)) :
    Next cursor finality component rest := by
  simp only [nextComponent] at h
  generalize hstart : cursor.dropWhile (· = '/') = start at h
  have hpieces : pieces '/' cursor = pieces '/' start := by rw [← hstart, Lib.pieces_dropWhile]
  by_cases hnil : start = []
  · subst hnil
    simp only [List.takeWhile_nil, List.dropWhile_nil, List.length_nil, List.head?_nil] at h
    rw [if_neg (by decide)] at h
    cases h
    exact .nothing hpieces
  have hhead : start.head? ≠ some '/' := hstart ▸ head?_dropWhile_slash cursor
  have hcons := Lib.pieces_eq_cons hnil hhead
  have hlast : start.getLast? = cursor.getLast? := by
    rw [← hstart] at hnil ⊢
    exact getLast?_dropWhile hnil
  have htail := head?_dropWhile_component start
  generalize hcomponent : start.takeWhile (· ≠ '/') = first at h hcons
  generalize hafter : start.dropWhile (· ≠ '/') = after at h hcons htail
  rw [← Lib.pieces_dropWhile after] at hcons
  generalize hrest : after.dropWhile (· = '/') = last at h hcons
  split_ifs at h with hlong hend hslash
  · cases h
    subst hend
    rw [Lib.pieces_nil] at hcons
    have hafter' : after ≠ [] := by
      rintro rfl
      simp at hslash
    have hsep : cursor.getLast? = some '/' := by
      rw [← hlast, ← getLast?_dropWhile (p := (· ≠ '/')) (by rwa [hafter]), hafter]
      exact getLast?_slash_of_pieces_nil hafter' (pieces_eq_nil_iff.mpr hrest)
    have := @Next.last cursor _ (hpieces.trans hcons)
    rwa [if_pos hsep] at this
  · cases h
    subst hend
    rw [Lib.pieces_nil] at hcons
    have hafter' : after = [] := htail.resolve_right hslash
    have hsep : cursor.getLast? ≠ some '/' := by
      rw [← hlast]
      intro hmem
      have hall := List.dropWhile_eq_nil_iff.mp (hafter.trans hafter')
      simpa using hall '/' (List.mem_of_getLast? hmem)
    have := @Next.last cursor _ (hpieces.trans hcons)
    rwa [if_neg hsep] at this
  · cases h
    refine .more (hpieces.trans hcons) (pieces_ne_nil hend (hrest ▸ head?_dropWhile_slash after)) ?_
    have hafter' : after ≠ [] := by
      rintro rfl
      exact hend hrest.symm
    rw [← hlast, ← hrest, getLast?_dropWhile (by rwa [hrest]), ← hafter,
      getLast?_dropWhile (by rwa [hafter])]

/-! ## The guest path -/

theorem skipBack_eq {p : Char → Bool} {path : CString} {n m : Nat} (hm : 0 < m) (hle : m ≤ n)
    (hskip : ∀ i, m < i → i ≤ n → ∃ c, path[i]? = some c ∧ p c = true)
    (hstop : m = 1 ∨ ∀ c, path[m]? = some c → p c = false) : skipBack p path n = m := by
  induction n with
  | zero => omega
  | succ n ih =>
      cases n with
      | zero =>
          obtain rfl : m = 1 := by omega
          rfl
      | succ n =>
          rcases Nat.lt_or_ge m (n + 2) with hlt | hge
          · obtain ⟨c, hc, hpc⟩ := hskip (n + 2) hlt (Nat.le_refl _)
            simp only [skipBack, hc, hpc, if_true]
            exact ih (by omega) fun i hi hin => hskip i hi (by omega)
          · obtain rfl : m = n + 2 := by omega
            have hstop := hstop.resolve_left (by omega)
            cases hc : path[n + 2]? with
            | none => simp [skipBack, hc]
            | some c => simp [skipBack, hc, hstop c hc]

theorem popComponent_append {init : CString} {n : CString} (hn : IsName '/' n) :
    popComponent (init ++ '/' :: n) = if init = [] then ['/'] else init := by
  have hlen : (init ++ '/' :: n).length - 1 = init.length + n.length := by
    simp only [List.length_append, List.length_cons]
    omega
  have hpos : 0 < n.length := List.length_pos_of_ne_nil hn.1
  have hget : ∀ i, init.length < i → i ≤ init.length + n.length →
      ∃ c, (init ++ '/' :: n)[i]? = some c ∧ c ≠ '/' := by
    intro i hlo hhi
    obtain ⟨j, rfl⟩ := Nat.exists_eq_add_of_lt hlo
    have hj : j < n.length := by omega
    refine ⟨n[j], ?_, ?_⟩
    · rw [List.getElem?_append_right (by omega)]
      have : init.length + j + 1 - init.length = j + 1 := by omega
      rw [this, List.getElem?_cons_succ, List.getElem?_eq_getElem hj]
    · intro hsep
      exact hn.2 (hsep ▸ List.getElem_mem hj)
  have hfirst : skipBack (· = '/') (init ++ '/' :: n) (init.length + n.length) =
      init.length + n.length := by
    refine skipBack_eq (by omega) (Nat.le_refl _) (fun i hlo hhi => by omega) (.inr ?_)
    intro c hc
    obtain ⟨c', hc', hne⟩ := hget (init.length + n.length) (by omega) (Nat.le_refl _)
    rw [hc, Option.some.injEq] at hc'
    subst hc'
    simpa using hne
  simp only [popComponent, hlen, hfirst]
  rw [if_neg (by omega)]
  by_cases hi : init = []
  · subst hi
    have hsecond : skipBack (· ≠ '/') ([] ++ '/' :: n) (([] : CString).length + n.length) = 1 := by
      refine skipBack_eq (by omega) (by simp only [List.length_nil]; omega) ?_ (.inl rfl)
      intro i hlo hhi
      obtain ⟨c, hc, hne⟩ := hget i (by simp only [List.length_nil]; omega) hhi
      exact ⟨c, hc, by simpa using hne⟩
    rw [if_pos rfl, hsecond]
    rfl
  · have hsecond : skipBack (· ≠ '/') (init ++ '/' :: n) (init.length + n.length) =
        init.length := by
      refine skipBack_eq (List.length_pos_of_ne_nil hi) (by omega) ?_ (.inr ?_)
      · intro i hlo hhi
        obtain ⟨c, hc, hne⟩ := hget i hlo hhi
        exact ⟨c, hc, by simpa using hne⟩
      · intro c hc
        rw [List.getElem?_append_right (Nat.le_refl _), Nat.sub_self] at hc
        simp only [List.getElem?_cons_zero, Option.some.injEq] at hc
        simp [← hc]
    rw [if_neg hi, hsecond, List.take_left]

theorem popComponent_pathOf (names : List Component) :
    popComponent (pathOf names) = pathOf names.dropLast := by
  rcases List.eq_nil_or_concat' names with rfl | ⟨init, n, rfl⟩
  · rfl
  rw [List.dropLast_concat]
  by_cases hi : init = []
  · subst hi
    have := @popComponent_append [] _ n.isName
    simpa [pathOf, Lib.render_singleton] using this
  · rw [pathOf_concat hi, popComponent_append n.isName, if_neg (pathOf_ne_nil _)]

end Improot.Path
