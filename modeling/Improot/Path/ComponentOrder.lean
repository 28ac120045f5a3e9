import Improot.Path.Component

/-!
# Comparing paths by their components

`comparePaths2` works on characters and lengths.  On canonical paths it is the comparison of their
lists of components: a prefix that ends in the middle of a component doesn't count, and a trailing
separator doesn't matter.
-/

namespace Improot.Path

/-! ## Lists of components -/

section Lists

variable {α : Type*}

theorem prefix_antisymm {names1 names2 : List α} (h : names1 <+: names2) (h' : names2 <+: names1) :
    names1 = names2 :=
  h.eq_of_length_le h'.length_le

variable [DecidableEq α]

def compareNames (names1 names2 : List α) : Comparison :=
  if names1 = names2 then .pathsAreEqual
  else if names1 <+: names2 then .path1IsPrefix
  else if names2 <+: names1 then .path2IsPrefix
  else .pathsAreNotComparable

def Comparison.swap : Comparison → Comparison
  | .pathsAreEqual => .pathsAreEqual
  | .path1IsPrefix => .path2IsPrefix
  | .path2IsPrefix => .path1IsPrefix
  | .pathsAreNotComparable => .pathsAreNotComparable

variable {names1 names2 : List α}

theorem compareNames_eq_pathsAreEqual :
    compareNames names1 names2 = .pathsAreEqual ↔ names1 = names2 := by
  unfold compareNames
  split_ifs <;> simp_all

theorem compareNames_eq_path1IsPrefix :
    compareNames names1 names2 = .path1IsPrefix ↔ names1 <+: names2 ∧ names1 ≠ names2 := by
  unfold compareNames
  split_ifs <;> simp_all

theorem compareNames_contains :
    compareNames names1 names2 = .pathsAreEqual ∨ compareNames names1 names2 = .path1IsPrefix ↔
      names1 <+: names2 := by
  rw [compareNames_eq_pathsAreEqual, compareNames_eq_path1IsPrefix]
  constructor
  · rintro (rfl | ⟨h, -⟩)
    · exact List.prefix_rfl
    · exact h
  · intro h
    by_cases heq : names1 = names2
    · exact .inl heq
    · exact .inr ⟨h, heq⟩

theorem compareNames_swap :
    compareNames names2 names1 = (compareNames names1 names2).swap := by
  unfold compareNames
  by_cases heq : names1 = names2
  · simp [heq, Comparison.swap]
  · have heq' : names2 ≠ names1 := fun h => heq h.symm
    by_cases h12 : names1 <+: names2
    · have h21 : ¬ names2 <+: names1 := fun h21 => heq (prefix_antisymm h12 h21)
      simp [heq, heq', h12, h21, Comparison.swap]
    · by_cases h21 : names2 <+: names1
      · simp [heq, heq', h12, h21, Comparison.swap]
      · simp [heq, heq', h12, h21, Comparison.swap]

end Lists

/-! ## Canonical paths -/

/-- A canonical path, with one trailing separator or without.  The only one of "/" stays. -/
def slashed (names : List Component) (slash : Bool) : CString :=
  if slash ∧ names ≠ [] then pathOf names ++ ['/'] else pathOf names

def Slashed (path : CString) : Prop := ∃ names slash, path = slashed names slash

theorem slashed_ne_nil (names : List Component) (slash : Bool) : slashed names slash ≠ [] := by
  unfold slashed
  split_ifs
  · simp
  · exact pathOf_ne_nil names

theorem stem_slashed (names : List Component) (slash : Bool) :
    stem (slashed names slash) = stem (pathOf names) := by
  unfold slashed
  split_ifs with h
  · rw [stem_pathOf h.2, stem, if_pos (by simp)]
    simp
  · rfl

theorem comparePaths_slashed (names1 names2 : List Component) (slash1 slash2 : Bool) :
    comparePaths (slashed names1 slash1) (slashed names2 slash2) = compareNames names1 names2 := by
  rw [comparePaths_eq (slashed_ne_nil _ _) (slashed_ne_nil _ _), stem_slashed, stem_slashed]
  have hequal : stem (pathOf names1) = stem (pathOf names2) ↔ names1 = names2 := by
    constructor
    · intro h
      exact pathOf_injective ((pathOf_tidy _).stem_injective (pathOf_tidy _) h)
    · rintro rfl
      rfl
  unfold compareNames
  by_cases heq : names1 = names2
  · rw [if_pos (hequal.mpr heq), if_pos heq]
  · have heq' : names2 ≠ names1 := fun h => heq h.symm
    rw [if_neg (mt hequal.mp heq), if_neg heq]
    simp only [below_pathOf, heq, heq', ne_eq, not_false_eq_true, and_true]

def Contains (path1 path2 : CString) : Prop :=
  comparePaths path1 path2 = .pathsAreEqual ∨ comparePaths path1 path2 = .path1IsPrefix

theorem contains_slashed {names1 names2 : List Component} {slash1 slash2 : Bool} :
    Contains (slashed names1 slash1) (slashed names2 slash2) ↔ names1 <+: names2 := by
  rw [Contains, comparePaths_slashed, compareNames_contains]

/-- **The comparison of paths is the comparison of their components.**  It is symmetric up to the
names of the results, and containment is antisymmetric and transitive, strictly or not. -/
theorem comparePaths2_componentwise :
    (∀ names1 names2 slash1 slash2,
      comparePaths2 (slashed names1 slash1) (slashed names1 slash1).length
        (slashed names2 slash2) (slashed names2 slash2).length = compareNames names1 names2) ∧
    (∀ path1 path2, Slashed path1 → Slashed path2 →
      comparePaths path2 path1 = (comparePaths path1 path2).swap ∧
      (Contains path1 path2 → Contains path2 path1 →
        comparePaths path1 path2 = .pathsAreEqual)) ∧
    (∀ path1 path2 path3, Slashed path1 → Slashed path2 → Slashed path3 →
      (Contains path1 path2 → Contains path2 path3 → Contains path1 path3) ∧
      (comparePaths path1 path2 = .path1IsPrefix → Contains path2 path3 →
        comparePaths path1 path3 = .path1IsPrefix) ∧
      (Contains path1 path2 → comparePaths path2 path3 = .path1IsPrefix →
        comparePaths path1 path3 = .path1IsPrefix)) := by
  refine ⟨fun names1 names2 slash1 slash2 => comparePaths_slashed names1 names2 slash1 slash2,
    ?_, ?_⟩
  · rintro _ _ ⟨names1, slash1, rfl⟩ ⟨names2, slash2, rfl⟩
    simp only [contains_slashed, comparePaths_slashed]
    exact ⟨compareNames_swap, fun h h' => compareNames_eq_pathsAreEqual.mpr (prefix_antisymm h h')⟩
  · rintro _ _ _ ⟨names1, slash1, rfl⟩ ⟨names2, slash2, rfl⟩ ⟨names3, slash3, rfl⟩
    simp only [contains_slashed, comparePaths_slashed, compareNames_eq_path1IsPrefix]
    refine ⟨List.IsPrefix.trans, ?_, ?_⟩
    · rintro ⟨h12, hne⟩ h23
      refine ⟨h12.trans h23, ?_⟩
      rintro rfl
      exact hne (prefix_antisymm h12 h23)
    · rintro h12 ⟨h23, hne⟩
      refine ⟨h12.trans h23, ?_⟩
      rintro rfl
      exact hne (prefix_antisymm h23 h12)

/-- A prefix that ends in the middle of a component is none, with a trailing separator or without.
-/
example : comparePaths "/a/b".toList "/a/bc/".toList = .pathsAreNotComparable := by decide

end Improot.Path
