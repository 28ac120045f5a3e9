import Improot.Path.CanonSpec
import Improot.Path.Resolve

/-!
# Removing the finality

`canonicalize` appends "/" or "/." to remember how a path ended, and `chop_finality` recognises that
marker by the last character.  A name that ends in a dot of its own looks the same.
-/

namespace Improot.Path

open Lib (pieces)

/-- No marker follows the last component, and this one ends in a dot. -/
def DotName (names : List Component) (finality : Finality) : Prop :=
  finality.mark = [] ∧ ∃ n ∈ names.getLast?, n.chars.getLast? = some '.'

instance (names : List Component) (finality : Finality) : Decidable (DotName names finality) :=
  inferInstanceAs (Decidable (_ ∧ _))

/-! ## The last character -/

theorem pathOf_concat_eq (init : List Component) (n : Component) :
    ∃ pre, pathOf (init ++ [n]) = pre ++ '/' :: n.chars ∧
      pieces '/' pre = init.map (·.chars) := by
  by_cases hinit : init = []
  · subst hinit
    exact ⟨[], by simp [pathOf, Lib.render_singleton], by simp⟩
  · exact ⟨pathOf init, pathOf_concat hinit n, pieces_pathOf init⟩

theorem Component.split_dot {n : Component} (h : n.chars.getLast? = some '.') :
    ∃ cs, n.chars = cs ++ ['.'] ∧ cs ≠ [] := by
  obtain ⟨cs, hcs⟩ := List.getLast?_eq_some_iff.mp h
  refine ⟨cs, hcs, ?_⟩
  rintro rfl
  exact n.notDot hcs

theorem mischopped_iff {names : List Component} {finality : Finality} :
    Mischopped (withEnding names finality) ↔ DotName names finality := by
  rcases List.eq_nil_or_concat' names with rfl | ⟨init, n, rfl⟩
  · cases finality <;> decide
  · have hne : init ++ [n] ≠ [] := by simp
    obtain ⟨pre, hpath, -⟩ := pathOf_concat_eq init n
    have hplain : Mischopped (pathOf (init ++ [n])) ↔ n.chars.getLast? = some '.' := by
      constructor
      · rintro ⟨hdot, -⟩
        rwa [hpath, List.getLast?_append_of_ne_nil _ (by simp), List.getLast?_cons_of_ne_nil
          n.isName.1] at hdot
      · intro hdot
        by_contra hmis
        refine pathOf_getLast?_dot hne hmis ?_
        rw [hpath, List.getLast?_append_of_ne_nil _ (by simp), List.getLast?_cons_of_ne_nil
          n.isName.1, hdot]
    rw [withEnding_eq hne]
    cases finality with
    | notFinal | finalNormal => simpa [DotName, Finality.mark] using hplain
    | finalSlash => simp [DotName, Finality.mark, Mischopped]
    | finalDot =>
        have hdrop : (pathOf (init ++ [n]) ++ ['/', '.']).dropLast =
            pathOf (init ++ [n]) ++ ['/'] := by
          rw [List.append_cons, List.dropLast_concat]
        simp [DotName, Finality.mark, Mischopped, hdrop]

/-! ## What is left -/

theorem chopFinality_dotName (init : List Component) {n : Component} {cs : CString}
    (hn : n.chars = cs ++ ['.']) (hcs : cs ≠ []) :
    ∃ pre, chopFinality (pathOf (init ++ [n])) = pre ++ '/' :: cs.dropLast ∧
      pieces '/' pre = init.map (·.chars) := by
  obtain ⟨pre, hpath, hpieces⟩ := pathOf_concat_eq init n
  refine ⟨pre, ?_, hpieces⟩
  obtain ⟨ds, d, rfl⟩ := (List.eq_nil_or_concat' cs).resolve_left hcs
  have hsplit : pre ++ '/' :: (ds ++ [d] ++ ['.']) = (pre ++ '/' :: ds) ++ [d, '.'] := by simp
  have hfront : pre ++ '/' :: ds ≠ [] := by simp
  rw [hpath, hn, hsplit, List.dropLast_concat]
  generalize pre ++ '/' :: ds = front at hfront ⊢
  have hpos := List.length_pos_of_ne_nil hfront
  rw [chopFinality, if_pos (by simp), if_neg]
  · simp
  · simp only [List.length_append, List.length_cons, List.length_nil]
    omega

theorem namesOf_chopFinality_dotName {init : List Component} {n : Component}
    (h : n.chars.getLast? = some '.') :
    namesOf (chopFinality (pathOf (init ++ [n]))) ≠ init ++ [n] := by
  obtain ⟨cs, hn, hcs⟩ := n.split_dot h
  obtain ⟨pre, hchop, hpieces⟩ := chopFinality_dotName init hn hcs
  have hslash : '/' ∉ cs.dropLast := by
    intro hmem
    refine n.isName.2 ?_
    rw [hn]
    exact List.mem_append_left _ (List.dropLast_subset cs hmem)
  intro hnames
  have hinit : (init.map (·.chars)).filterMap Component.of? = init := by
    rw [← pieces_pathOf]
    exact namesOf_pathOf init
  rw [hchop, namesOf, Lib.pieces_append_sep, hpieces, List.filterMap_append, hinit,
    List.append_cancel_left_eq] at hnames
  by_cases hnil : cs.dropLast = []
  · simp [hnil] at hnames
  · rw [Lib.pieces_name ⟨hnil, hslash⟩] at hnames
    have hof : Component.of? cs.dropLast = some n := by
      cases hof : Component.of? cs.dropLast with
      | none => simp [hof] at hnames
      | some m => simpa [hof] using hnames
    have hchars : cs.dropLast = n.chars := by
      unfold Component.of? at hof
      split at hof
      · rw [← Option.some.inj hof]
      · cases hof
    have hlen := congrArg List.length hchars
    rw [hn, List.length_dropLast, List.length_append, List.length_singleton] at hlen
    omega

/-- **Chopping keeps the name** if and only if a marker follows it or it doesn't end in a dot. -/
theorem chopFinality_keeps_iff (names : List Component) (finality : Finality) :
    (∀ {glueType : Option FileType} {kept : Kept} {w w' : World} {userPath base g : CString}
      {derefFinal : Bool}, w.Sound glueType kept →
      (userPath.head? = some '/' ∨ Canonical base) → (userPath ≠ [] ∨ glueType = none) →
      canonicalize userPath derefFinal base 0 w = (.ok g, w') →
      ∃ names finality, g = withEnding names finality) ∧
    (chopFinality (withEnding names finality) = pathOf names ↔ ¬ DotName names finality) ∧
    (namesOf (chopFinality (withEnding names finality)) = names ↔ ¬ DotName names finality) := by
  refine ⟨?_, ?_⟩
  · intro glueType kept w w' userPath base g derefFinal hw hbase hempty hrun
    have hended := (canonicalize_sound derefFinal hbase hempty w hw).2 g
    rw [hrun] at hended
    exact hended rfl
  · have hkept : ¬ DotName names finality →
        chopFinality (withEnding names finality) = pathOf names := by
      intro h
      exact chopFinality_withEnding (mt mischopped_iff.mp h)
    have hlost : DotName names finality →
        namesOf (chopFinality (withEnding names finality)) ≠ names := by
      rintro ⟨hmark, n, hlast, hdot⟩
      obtain ⟨init, rfl⟩ := List.getLast?_eq_some_iff.mp hlast
      rw [withEnding_eq (by simp), hmark, List.append_nil]
      exact namesOf_chopFinality_dotName hdot
    refine ⟨⟨?_, hkept⟩, ⟨?_, ?_⟩⟩
    · intro hchop hname
      refine hlost hname ?_
      rw [hchop, namesOf_pathOf]
    · intro hnames hname
      exact hlost hname hnames
    · intro hname
      rw [hkept hname, namesOf_pathOf]

/-- "/a/foo." is canonical, and becomes "/a/fo". -/
theorem chopFinality_loses_name :
    (canonicalize "/a/foo.".toList true ['/'] 0 fdWorld).1 = .ok "/a/foo.".toList ∧
      Canonical "/a/foo.".toList ∧ chopFinality "/a/foo.".toList = "/a/fo".toList := by
  refine ⟨rfl, by decide, by decide⟩

end Improot.Path
