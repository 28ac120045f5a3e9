import Improot.Path.WellFormed

/-!
# The substitution of a binding

`substitute_binding` on a well-formed tree, case by case: no binding, a symmetric one, a result that
fits the buffer, and one that does not.  From this follows what a substitution keeps of a path.
-/

namespace Improot.Path

variable {t : Bindings} {side : Side} {path : CString}

theorem substituteBinding_of_not_fits {b : Binding}
    (hget : getBinding t side path = some b) (hneed : b.needSubstitution = true)
    (hfits : ¬ Fits (b.path side) (b.reversePath side) path) :
    substituteBinding t side path = .ok (true, path) := by
  simp only [substituteBinding, hget, hneed, if_true, substitutePathPrefix_of_not_fits hfits]

theorem substituteBinding_of_fits {b : Binding}
    (hwf : t.WellFormed) (hget : getBinding t side path = some b)
    (hneed : b.needSubstitution = true)
    (hfits : Fits (b.path side) (b.reversePath side) path) :
    substituteBinding t side path =
      .ok (true, rebase (b.path side) (b.reversePath side) path) := by
  obtain ⟨-, hb, hpath, hin⟩ := getBinding_spec hwf hget
  simp only [substituteBinding, hget, hneed, if_true]
  rw [substitutePathPrefix_of_fits (hb.path side) (hb.reversePath side) (hb.path_ne side hneed)
    hpath hin hfits]

theorem substituteBinding_symmetric {b : Binding}
    (hget : getBinding t side path = some b) (hneed : b.needSubstitution = false) :
    substituteBinding t side path = .ok (false, path) := by
  simp [substituteBinding, hget, hneed]

theorem substituteBinding_none (hget : getBinding t side path = none) :
    substituteBinding t side path = .error .enoent := by
  simp [substituteBinding, hget]

theorem getBinding_exists (hwf : t.WellFormed) (hpath : Tidy path) :
    ∃ b, getBinding t .guest path = some b := by
  obtain ⟨root, hlast, hguest⟩ := hwf.root
  have hin : Within (stem root.guest) (stem path) := by
    rw [hguest]
    by_cases hroot : path = ['/']
    · rw [hroot]
      exact .refl _
    · rw [hpath.stem_of_ne hroot]
      obtain ⟨rest, hrest⟩ := List.head?_eq_some_iff.mp hpath.absolute
      exact .inr ⟨rest, hrest.symm⟩
  have hcovers : covers t .guest path root = true := by
    rw [← comparePaths_within (by simp [hguest]) hpath.ne_nil] at hin
    simpa [covers, Binding.path] using hin
  rw [← Option.isSome_iff_exists, getBinding, List.find?_isSome]
  exact ⟨root, List.mem_of_getLast? hlast, hcovers⟩

theorem substituteBinding_exists {t : Bindings} (hwf : t.WellFormed) {path : CString}
    (hpath : Tidy path) :
    ∃ substituted hostPath, substituteBinding t .guest path = .ok (substituted, hostPath) := by
  obtain ⟨b, hget⟩ := getBinding_exists hwf hpath
  simp only [substituteBinding, hget]
  split_ifs
  · exact ⟨_, _, rfl⟩
  · exact ⟨_, _, rfl⟩

/-! ## What a substitution keeps -/

/-- A substitution leaves the path as it is, or gives it the other side of a binding. -/
theorem substituteBinding_cases (hwf : t.WellFormed)
    {result : CString} {substituted : Bool}
    (h : substituteBinding t side path = .ok (substituted, result)) :
    result = path ∨ ∃ b, getBinding t side path = some b ∧
      result = rebase (b.path side) (b.reversePath side) path := by
  cases hget : getBinding t side path with
  | none =>
      rw [substituteBinding_none hget] at h
      cases h
  | some b =>
      cases hneed : b.needSubstitution with
      | false =>
          rw [substituteBinding_symmetric hget hneed] at h
          cases h
          exact .inl rfl
      | true =>
          by_cases hfits : Fits (b.path side) (b.reversePath side) path
          · rw [substituteBinding_of_fits hwf hget hneed hfits] at h
            cases h
            exact .inr ⟨b, rfl, rfl⟩
          · rw [substituteBinding_of_not_fits hget hneed hfits] at h
            cases h
            exact .inl rfl

theorem substituteBinding_ne_nil (hwf : t.WellFormed)
    {result : CString} {substituted : Bool} (hpath : path ≠ [])
    (h : substituteBinding t side path = .ok (substituted, result)) : result ≠ [] := by
  rcases substituteBinding_cases hwf h with rfl | ⟨b, hget, rfl⟩
  · exact hpath
  · obtain ⟨-, hb, -, -⟩ := getBinding_spec hwf hget
    rw [rebase, attach]
    split_ifs with h1 h2
    · simp
    · exact h2
    · simp [(hb.reversePath side).ne_nil]

theorem substituteBinding_slash (hwf : t.WellFormed) {hostPath : CString}
    {substituted : Bool} (hlast : path.getLast? = some '/') (hroot : path ≠ ['/'])
    (h : substituteBinding t .guest path = .ok (substituted, hostPath)) :
    hostPath.getLast? = some '/' := by
  rcases substituteBinding_cases hwf h with rfl | ⟨b, hget, rfl⟩
  · exact hlast
  · obtain ⟨-, hb, -, hin⟩ := getBinding_spec hwf hget
    have hsuffix : (suffixAfter (b.path .guest) path).getLast? = some '/' := by
      by_cases href : b.path .guest = ['/']
      · simp [suffixAfter, href, hroot, hlast]
      · obtain ⟨suffix, rfl, -⟩ := append_of_within (hb.path .guest) href hin
        have hne : suffix ≠ [] := by
          rintro rfl
          rw [List.append_nil] at hlast
          exact ((hb.path .guest).chopped.resolve_left href) hlast
        rw [List.getLast?_append_of_ne_nil _ hne] at hlast
        simpa [suffixAfter, href] using hlast
    have hne : suffixAfter (b.path .guest) path ≠ [] := by
      intro hnil
      simp [hnil] at hsuffix
    rw [rebase, attach]
    split_ifs
    · exact hsuffix
    · rwa [List.getLast?_append_of_ne_nil _ hne]

theorem Tidy.append {ref suffix : CString} (href : Tidy ref)
    (hhead : suffix = [] ∨ suffix.getLast? ≠ some '/') (hne : ref ≠ ['/']) :
    Tidy (ref ++ suffix) := by
  refine ⟨?_, .inr ?_⟩
  · rw [List.head?_append_of_ne_nil _ href.ne_nil]
    exact href.absolute
  · by_cases hs : suffix = []
    · rw [hs, List.append_nil]
      exact href.chopped.resolve_left hne
    · rw [List.getLast?_append_of_ne_nil _ hs]
      exact hhead.resolve_left hs

theorem Tidy.rebase {ref reverseRef : CString} (href : Tidy ref) (hrev : Tidy reverseRef)
    (hpath : Tidy path) (hin : Within (stem ref) (stem path)) :
    Tidy (Path.rebase ref reverseRef path) := by
  have hsuffix : suffixAfter ref path = [] ∨ suffixAfter ref path ≠ [] ∧
      Tidy (suffixAfter ref path) ∧ (suffixAfter ref path).getLast? ≠ some '/' := by
    by_cases href1 : ref = ['/']
    · by_cases hp : path = ['/']
      · exact .inl (by simp [suffixAfter, href1, hp])
      · refine .inr ?_
        simp only [suffixAfter, href1, hp, if_true, if_false]
        exact ⟨hpath.ne_nil, hpath, hpath.chopped.resolve_left hp⟩
    · obtain ⟨suffix, rfl, hhead⟩ := append_of_within href href1 hin
      have hdrop : suffixAfter ref (ref ++ suffix) = suffix := by simp [suffixAfter, href1]
      rw [hdrop]
      rcases hhead with rfl | hhead
      · exact .inl rfl
      · have hne : suffix ≠ [] := by
          rintro rfl
          simp at hhead
        have hlast : suffix.getLast? ≠ some '/' := by
          have := hpath.chopped.resolve_left fun h => by
            have hlen := congrArg List.length h
            have := List.length_pos_of_ne_nil hne
            have := List.length_pos_of_ne_nil href.ne_nil
            simp only [List.length_append, List.length_cons, List.length_nil] at hlen
            omega
          rwa [List.getLast?_append_of_ne_nil _ hne] at this
        exact .inr ⟨hne, ⟨hhead, .inr hlast⟩, hlast⟩
  rw [Path.rebase, attach]
  by_cases hrev1 : reverseRef = ['/']
  · rw [if_pos hrev1]
    rcases hsuffix with hnil | ⟨hne, htidy, -⟩
    · rw [if_pos hnil]
      exact ⟨rfl, .inl rfl⟩
    · rwa [if_neg hne]
  · rw [if_neg hrev1]
    exact hrev.append (hsuffix.imp_right fun h => h.2.2) hrev1

theorem substituteBinding_tidy (hwf : t.WellFormed)
    {result : CString} {substituted : Bool} (hpath : Tidy path)
    (h : substituteBinding t side path = .ok (substituted, result)) : Tidy result := by
  rcases substituteBinding_cases hwf h with rfl | ⟨b, hget, rfl⟩
  · exact hpath
  · obtain ⟨-, hb, -, hin⟩ := getBinding_spec hwf hget
    exact (hb.path side).rebase (hb.reversePath side) hpath hin

theorem getRoot_tidy (hwf : t.WellFormed) : Tidy (getRoot t) := by
  obtain ⟨b, hlast, -⟩ := hwf.root
  rw [getRoot, hlast]
  exact (hwf.guest b (List.mem_of_getLast? hlast)).host

end Improot.Path
