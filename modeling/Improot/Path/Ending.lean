import Improot.Path.BindingList
import Improot.Path.Canon
import Improot.Path.Substitute

/-!
# Canonical paths with an ending

`canonicalize` appends "/" or "/." to a canonical path to remember how the user wrote it.  Such a
path stays one when the prefix of a binding is substituted, and `chop_finality` makes it canonical
again, unless its last component ends in a dot of its own.
-/

namespace Improot.Path

open Lib (pieces)

def withEnding (names : List Component) : Finality → CString
  | .notFinal | .finalNormal => pathOf names
  | .finalSlash => if names = [] then ['/'] else pathOf names ++ ['/']
  | .finalDot => if names = [] then ['/', '.'] else pathOf names ++ ['/', '.']

def Ended (path : CString) : Prop := ∃ names finality, path = withEnding names finality

def Finality.mark : Finality → CString
  | .notFinal | .finalNormal => []
  | .finalSlash => ['/']
  | .finalDot => ['/', '.']

variable {path : CString} {names : List Component} {t : Bindings} {side : Side}

theorem Canonical.ended (h : Canonical path) : Ended path := by
  obtain ⟨names, rfl⟩ := h
  exact ⟨names, .finalNormal, rfl⟩

theorem withEnding_eq (h : names ≠ []) (finality : Finality) :
    withEnding names finality = pathOf names ++ finality.mark := by
  cases finality <;> simp [withEnding, Finality.mark, h]

theorem withEnding_nil (finality : Finality) :
    withEnding [] finality = if finality = .finalDot then ['/', '.'] else ['/'] := by
  cases finality <;> rfl

theorem withEnding_head? (names : List Component) (finality : Finality) :
    (withEnding names finality).head? = some '/' := by
  by_cases h : names = []
  · subst h
    cases finality <;> rfl
  · rw [withEnding_eq h, List.head?_append_of_ne_nil _ (pathOf_ne_nil names), pathOf_head?]

theorem Ended.ne_nil (h : Ended path) : path ≠ [] := by
  obtain ⟨names, finality, rfl⟩ := h
  intro hnil
  have := withEnding_head? names finality
  simp [hnil] at this

/-! ## Chopping -/

def Mischopped (path : CString) : Prop :=
  path.getLast? = some '.' ∧ path.dropLast.getLast? ≠ some '/'

instance (path : CString) : Decidable (Mischopped path) := inferInstanceAs (Decidable (_ ∧ _))

theorem pathOf_last (h : names ≠ []) :
    ∃ pre, ∃ n : Component, pathOf names = pre ++ '/' :: n.chars := by
  obtain ⟨init, n, rfl⟩ := (List.eq_nil_or_concat' names).resolve_left h
  by_cases hi : init = []
  · exact ⟨[], n, by simp [hi, pathOf, Lib.render_singleton]⟩
  · exact ⟨pathOf init, n, pathOf_concat hi n⟩

theorem pathOf_getLast?_dot (h : names ≠ [])
    (hmis : ¬ Mischopped (pathOf names)) : (pathOf names).getLast? ≠ some '.' := by
  intro hdot
  refine hmis ⟨hdot, fun hslash => ?_⟩
  obtain ⟨pre, n, hpath⟩ := pathOf_last h
  obtain ⟨cs, c, hchars⟩ := (List.eq_nil_or_concat' n.chars).resolve_left n.isName.1
  rw [hpath, hchars] at hdot hslash
  have hc : c = '.' := by
    rw [← List.cons_append, ← List.append_assoc, List.getLast?_concat] at hdot
    exact Option.some.inj hdot
  have hdrop : (pre ++ '/' :: (cs ++ [c])).dropLast = pre ++ '/' :: cs := by
    rw [← List.cons_append, ← List.append_assoc, List.dropLast_concat]
  rw [hdrop] at hslash
  by_cases hcs : cs = []
  · exact n.notDot (by rw [hchars, hcs, hc]; rfl)
  · rw [List.getLast?_append_of_ne_nil _ (by simp), List.getLast?_cons] at hslash
    obtain ⟨d, hd⟩ : ∃ d, cs.getLast? = some d := by
      rwa [← Option.isSome_iff_exists, List.getLast?_isSome]
    rw [hd, Option.getD_some, Option.some.injEq] at hslash
    have hmem := List.mem_of_getLast? hd
    exact n.isName.2 (by rw [hchars, ← hslash]; simp [hmem])

theorem chopFinality_withEnding {finality : Finality}
    (h : ¬ Mischopped (withEnding names finality)) :
    chopFinality (withEnding names finality) = pathOf names := by
  by_cases hn : names = []
  · subst hn
    cases finality <;> rfl
  · rw [withEnding_eq hn] at h ⊢
    have hpos := List.length_pos_of_ne_nil (pathOf_ne_nil names)
    have hplain : ¬ Mischopped (pathOf names) → chopFinality (pathOf names) = pathOf names := by
      intro hmis
      rw [chopFinality, if_neg (pathOf_getLast?_dot hn hmis), if_neg (pathOf_getLast? hn)]
    cases finality with
    | notFinal => simpa [Finality.mark] using hplain (by simpa [Finality.mark] using h)
    | finalNormal => simpa [Finality.mark] using hplain (by simpa [Finality.mark] using h)
    | finalSlash =>
        rw [Finality.mark, chopFinality, if_neg (by simp), if_pos (by simp)]
        rw [if_pos (by simp only [List.length_append, List.length_singleton]; omega)]
        simp
    | finalDot =>
        rw [Finality.mark, chopFinality, if_pos (by simp)]
        rw [if_neg (by simp only [List.length_append, List.length_cons, List.length_nil]; omega)]
        simp

theorem Ended.chopFinality (h : Ended path) (hmis : ¬ Mischopped path) :
    Canonical (chopFinality path) := by
  obtain ⟨names, finality, rfl⟩ := h
  exact ⟨names, chopFinality_withEnding hmis⟩

/-! ## The components of a path that a binding contains -/

theorem pieces_withEnding (names : List Component) (finality : Finality) :
    pieces '/' (withEnding names finality) =
      names.map (·.chars) ++ if finality = .finalDot then [['.']] else [] := by
  have hdot : pieces '/' ['.'] = [['.']] := Lib.pieces_name (by decide)
  by_cases hn : names = []
  · subst hn
    cases finality <;> decide
  · rw [withEnding_eq hn]
    cases finality <;>
      simp [Finality.mark, pieces_pathOf, Lib.pieces_append_sep, hdot]

theorem prefix_of_within {names' : List Component} {finality : Finality}
    (h : Within (stem (pathOf names)) (stem (withEnding names' finality))) : names <+: names' := by
  have hpieces := prefix_pieces_of_within h
  rw [pieces_withEnding] at hpieces
  have hmap : names.map (·.chars) <+: names'.map (·.chars) := by
    split_ifs at hpieces with hdot
    · rcases List.prefix_concat_iff.mp hpieces with heq | hpre
      · have hmem : ['.'] ∈ names.map (·.chars) := by simp [heq]
        obtain ⟨n, -, hn⟩ := List.mem_map.mp hmem
        exact absurd hn n.notDot
      · exact hpre
    · simpa using hpieces
  exact prefix_of_map_chars hmap

/-! ## Substitution -/

def tailOf (more : List Component) (finality : Finality) : CString :=
  (if more = [] then [] else pathOf more) ++ finality.mark

theorem withEnding_append {ref : List Component} (h : ref ≠ []) (more : List Component)
    (finality : Finality) :
    withEnding (ref ++ more) finality = pathOf ref ++ tailOf more finality := by
  rw [withEnding_eq (by simp [h]), tailOf]
  by_cases hm : more = []
  · simp [hm]
  · simp [hm, pathOf_append h hm]

theorem attach_tailOf (rev more : List Component) (finality : Finality) :
    attach (pathOf rev) (tailOf more finality) = withEnding (rev ++ more) finality := by
  by_cases hrev : rev = []
  · subst hrev
    by_cases hm : more = []
    · subst hm
      cases finality <;> rfl
    · have hne : pathOf more ++ finality.mark ≠ [] := by simp [pathOf_ne_nil]
      simp [attach, tailOf, hm, hne, withEnding_eq]
  · rw [withEnding_append hrev, attach, if_neg (fun h => hrev (pathOf_eq_root.mp h))]

theorem suffixAfter_withEnding (ref more : List Component) (finality : Finality) :
    suffixAfter (pathOf ref) (withEnding (ref ++ more) finality) =
      tailOf more
        (if withEnding (ref ++ more) finality = ['/'] then .finalNormal else finality) := by
  by_cases href : ref = []
  · subst href
    by_cases hm : more = []
    · subst hm
      cases finality <;> rfl
    · have hne : withEnding more finality ≠ ['/'] := by
        rw [withEnding_eq hm]
        intro h
        have hlen := congrArg List.length h
        have hpos := List.length_pos_of_ne_nil (pathOf_ne_nil more)
        simp only [List.length_append, List.length_singleton] at hlen
        have hone := (pathOf_tidy more).length_eq_one.mp (by omega)
        exact hm (pathOf_eq_root.mp hone)
      rw [List.nil_append, if_neg hne, suffixAfter, if_pos pathOf_nil, if_neg hne, withEnding_eq hm, tailOf,
        if_neg hm]
  · have hroot : pathOf ref ≠ ['/'] := fun h => href (pathOf_eq_root.mp h)
    have hne : withEnding (ref ++ more) finality ≠ ['/'] := by
      rw [withEnding_append href]
      intro h
      have hlen := congrArg List.length h
      have hpos := List.length_pos_of_ne_nil (pathOf_ne_nil ref)
      simp only [List.length_append, List.length_singleton] at hlen
      exact hroot ((pathOf_tidy ref).length_eq_one.mp (by omega))
    rw [if_neg hne, suffixAfter, if_neg hroot, withEnding_append href, List.drop_left]

/-- **Rebasing** exchanges the leading components, and keeps the ending unless the path is "/". -/
theorem rebase_withEnding (ref rev more : List Component) (finality : Finality) :
    rebase (pathOf ref) (pathOf rev) (withEnding (ref ++ more) finality) =
      withEnding (rev ++ more)
        (if withEnding (ref ++ more) finality = ['/'] then .finalNormal else finality) := by
  rw [rebase, suffixAfter_withEnding, attach_tailOf]

theorem Bindings.Sorted.getBinding_paths (h : t.Sorted)
    {b : Binding} (hget : getBinding t side path = some b) :
    ∃ ref rev, b.path side = pathOf ref ∧ b.reversePath side = pathOf rev := by
  have hclean : side ≠ .pending → b ∈ t.list side → ∃ ref rev, b.path side = pathOf ref ∧
      b.reversePath side = pathOf rev := by
    intro hs hmem
    obtain ⟨⟨host, hhost⟩, ⟨guest, hguest⟩⟩ := h.clean_list hs hmem
    cases side with
    | guest => exact ⟨guest, host, hguest, hhost⟩
    | host => exact ⟨host, guest, hhost, hguest⟩
    | pending => exact absurd rfl hs
  cases side with
  | guest | host => exact hclean (by simp) (List.mem_of_find?_eq_some hget)
  | pending => cases hget

theorem substituteBinding_withEnding (h : t.Sorted) (hroot : t.Rooted)
    {finality : Finality} {result : CString} {substituted : Bool}
    (hsub : substituteBinding t side (withEnding names finality) = .ok (substituted, result)) :
    ∃ names' finality', result = withEnding names' finality' ∧
      (finality' = finality ∨ finality' = .finalNormal) := by
  have hwf := h.wellFormed hroot
  rcases substituteBinding_cases hwf hsub with rfl | ⟨b, hget, rfl⟩
  · exact ⟨names, finality, rfl, .inl rfl⟩
  · obtain ⟨-, -, -, hin⟩ := getBinding_spec hwf hget
    obtain ⟨ref, rev, href, hrev⟩ := h.getBinding_paths hget
    rw [href] at hin
    obtain ⟨more, rfl⟩ := prefix_of_within hin
    rw [href, hrev, rebase_withEnding]
    refine ⟨_, _, rfl, ?_⟩
    split_ifs
    · exact .inr rfl
    · exact .inl rfl

theorem substituteBinding_ended (h : t.Sorted) (hroot : t.Rooted)
    {result : CString} {substituted : Bool} (hpath : Ended path)
    (hsub : substituteBinding t side path = .ok (substituted, result)) : Ended result := by
  obtain ⟨names, finality, rfl⟩ := hpath
  obtain ⟨names', finality', hresult, -⟩ := substituteBinding_withEnding h hroot hsub
  exact ⟨names', finality', hresult⟩

theorem substituteBinding_canonical (h : t.Sorted) (hroot : t.Rooted)
    {result : CString} {substituted : Bool} (hpath : Canonical path)
    (hsub : substituteBinding t side path = .ok (substituted, result)) : Canonical result := by
  obtain ⟨names, rfl⟩ := hpath
  have hsub : substituteBinding t side (withEnding names .finalNormal) =
      .ok (substituted, result) := hsub
  obtain ⟨names', finality', hresult, hend⟩ := substituteBinding_withEnding h hroot hsub
  refine ⟨names', hresult.trans ?_⟩
  rcases hend with rfl | rfl <;> rfl

end Improot.Path
