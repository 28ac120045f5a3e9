import Improot.Lib.Component
import Improot.Path.WellFormed

/-!
# Canonical paths

A canonical path is the rendering of a list of components, where a component is a name other than
"." and "..".  Containment of canonical paths is then the prefix order on lists of components.
-/

namespace Improot.Path

open Lib (pieces render IsName)

/-- A path component that is neither empty, nor ".", nor "..". -/
structure Component where
  chars : CString
  isName : IsName '/' chars
  notDot : chars ≠ ['.']
  notDotDot : chars ≠ ['.', '.']
  deriving DecidableEq

@[ext] theorem Component.ext {m n : Component} (h : m.chars = n.chars) : m = n := by
  cases m
  cases n
  cases h
  rfl

def Component.of? (s : CString) : Option Component :=
  if h : IsName '/' s ∧ s ≠ ['.'] ∧ s ≠ ['.', '.'] then some ⟨s, h.1, h.2.1, h.2.2⟩ else none

theorem Component.of?_chars (n : Component) : Component.of? n.chars = some n := by
  simp [Component.of?, n.isName, n.notDot, n.notDotDot]

def pathOf (names : List Component) : CString := render '/' (names.map (·.chars))

def namesOf (path : CString) : List Component := (pieces '/' path).filterMap Component.of?

/-- A path without empty, "." or ".." component, nor trailing separator. -/
def Canonical (path : CString) : Prop := ∃ names, path = pathOf names

variable {names names' : List Component} {path : CString}

theorem isName_of_mem_map : ∀ n ∈ names.map (·.chars), IsName '/' n := by
  intro n hn
  obtain ⟨c, -, rfl⟩ := List.mem_map.mp hn
  exact c.isName

theorem pieces_pathOf (names : List Component) : pieces '/' (pathOf names) = names.map (·.chars) :=
  Lib.pieces_render isName_of_mem_map

@[simp] theorem namesOf_pathOf (names : List Component) : namesOf (pathOf names) = names := by
  rw [namesOf, pieces_pathOf, List.filterMap_map]
  have : Component.of? ∘ (·.chars) = some := funext Component.of?_chars
  rw [this, List.filterMap_some]

theorem pathOf_injective (h : pathOf names = pathOf names') :
    names = names' := by
  rw [← namesOf_pathOf names, h, namesOf_pathOf]

instance (path : CString) : Decidable (Canonical path) :=
  decidable_of_iff (path = pathOf (namesOf path))
    ⟨fun h => ⟨_, h⟩, by rintro ⟨names, rfl⟩; rw [namesOf_pathOf]⟩

/-! ## The shape of a canonical path -/

@[simp] theorem pathOf_nil : pathOf [] = ['/'] := rfl

theorem pathOf_ne_nil (names : List Component) : pathOf names ≠ [] := Lib.render_cons_ne_nil _

theorem pathOf_head? (names : List Component) : (pathOf names).head? = some '/' :=
  Lib.render_head? _

theorem pathOf_getLast? (h : names ≠ []) :
    (pathOf names).getLast? ≠ some '/' :=
  Lib.render_getLast? isName_of_mem_map (by simpa using h)

theorem pathOf_eq_root : pathOf names = ['/'] ↔ names = [] := by
  rw [← pathOf_nil]
  exact ⟨pathOf_injective, fun h => h ▸ rfl⟩

theorem pathOf_tidy (names : List Component) : Tidy (pathOf names) := by
  refine ⟨pathOf_head? names, ?_⟩
  by_cases h : names = []
  · exact .inl (pathOf_eq_root.mpr h)
  · exact .inr (pathOf_getLast? h)

theorem Canonical.tidy (h : Canonical path) : Tidy path := by
  obtain ⟨names, rfl⟩ := h
  exact pathOf_tidy names

theorem pathOf_concat (h : names ≠ []) (n : Component) :
    pathOf (names ++ [n]) = pathOf names ++ '/' :: n.chars := by
  rw [pathOf, List.map_append, List.map_singleton, Lib.render_concat (by simpa using h), pathOf]

theorem pathOf_append {more : List Component} (h : names ≠ []) (hm : more ≠ []) :
    pathOf (names ++ more) = pathOf names ++ pathOf more := by
  rw [pathOf, List.map_append, Lib.render_append (by simpa using h) (by simpa using hm), pathOf,
    pathOf]

theorem pathOf_cons (n : Component) (names : List Component) :
    pathOf (n :: names) = '/' :: (n.chars ++ if names = [] then [] else pathOf names) := by
  by_cases h : names = []
  · simp [h, pathOf, Lib.render_singleton]
  · rw [← List.singleton_append, pathOf_append (List.cons_ne_nil n []) h, if_neg h]
    simp [pathOf, Lib.render_singleton]

theorem stem_pathOf (h : names ≠ []) :
    stem (pathOf names) = pathOf names :=
  stem_eq_self (pathOf_getLast? h)

/-! ## Containment -/

theorem pieces_stem (path : CString) : pieces '/' (stem path) = pieces '/' path := by
  by_cases h : path.getLast? = some '/'
  · conv_rhs => rw [stem_append_slash h]
    rw [Lib.pieces_append_singleton_sep]
  · rw [stem_eq_self h]

theorem prefix_pieces_of_within (h : Within (stem (pathOf names)) (stem path)) :
    names.map (·.chars) <+: pieces '/' path := by
  obtain ⟨suffix, hsuffix, hhead⟩ := within_iff.mp h
  rw [← pieces_stem path, hsuffix, ← pieces_pathOf names, ← pieces_stem (pathOf names)]
  rcases hhead with rfl | hhead
  · simp
  · obtain ⟨rest, rfl⟩ := List.head?_eq_some_iff.mp hhead
    rw [Lib.pieces_append_sep]
    exact List.prefix_append _ _

theorem prefix_of_map_chars
    (h : names.map (·.chars) <+: names'.map (·.chars)) : names <+: names' := by
  obtain ⟨more, hmore⟩ := h
  have hlen : names = names'.take names.length := by
    refine List.map_injective_iff.mpr (fun m n hmn => Component.ext hmn)
      (?_ : names.map (·.chars) = (names'.take names.length).map (·.chars))
    rw [List.map_take, ← hmore]
    simp
  rw [hlen]
  exact List.take_prefix _ _

/-- **Containment of canonical paths is the prefix order on their components.** -/
theorem within_pathOf : Within (stem (pathOf names)) (stem (pathOf names')) ↔ names <+: names' := by
  constructor
  · intro hin
    have hpieces := prefix_pieces_of_within hin
    rw [pieces_pathOf] at hpieces
    exact prefix_of_map_chars hpieces
  · rintro ⟨more, rfl⟩
    by_cases h : names = []
    · subst h
      by_cases hm : more = []
      · simp [hm, Within]
      · rw [List.nil_append, stem_pathOf hm]
        obtain ⟨rest, hrest⟩ := List.head?_eq_some_iff.mp (pathOf_head? more)
        exact .inr ⟨rest, hrest.symm⟩
    · rw [stem_pathOf h, stem_pathOf (by simp [h])]
      by_cases hm : more = []
      · rw [hm, List.append_nil]
        exact .refl _
      · rw [pathOf_append h hm]
        exact within_iff.mpr ⟨_, rfl, .inr (pathOf_head? more)⟩

theorem below_pathOf :
    Below (stem (pathOf names)) (stem (pathOf names')) ↔ names <+: names' ∧ names ≠ names' := by
  rw [← within_pathOf]
  constructor
  · intro h
    refine ⟨.inr h, ?_⟩
    rintro rfl
    exact Below.irrefl _ h
  · rintro ⟨heq | h, hne⟩
    · exact absurd (pathOf_injective ((pathOf_tidy _).stem_injective (pathOf_tidy _) heq)) hne
    · exact h

/-! ## Joining -/

def joined (result path : CString) : CString :=
  if result ≠ [] ∧ result.getLast? ≠ some '/' ∧ path.head? ≠ some '/' then result ++ '/' :: path
  else if result ≠ [] ∧ result.getLast? = some '/' ∧ path.head? = some '/' then result ++ path.tail
  else result ++ path

theorem joinPath_ok {result s : CString} (h : joinPath result path = .ok s) :
    s = joined result path := by
  unfold joinPath at h
  unfold joined
  split_ifs at h ⊢
  all_goals exact (Except.ok.inj h).symm

theorem joinPaths_ok {path' s : CString} (h : joinPaths [some path, some path'] = .ok s) :
    s = joined path path' := by
  simp only [joinPaths, List.foldlM_cons, List.foldlM_nil] at h
  cases hfirst : joinPath [] path with
  | error e => simp [hfirst, bind, Except.bind] at h
  | ok first =>
      obtain rfl : first = path := by simpa [joined] using joinPath_ok hfirst
      cases hsecond : joinPath first path' with
      | error e => simp [hfirst, hsecond, bind, Except.bind] at h
      | ok second =>
          obtain rfl : second = s := by
            simpa [hfirst, hsecond, bind, Except.bind, pure, Except.pure] using h
          exact joinPath_ok hsecond

theorem joined_absolute {base : CString} (h : base.head? = some '/') :
    (joined base path).head? = some '/' := by
  have hne : base ≠ [] := by
    rintro rfl
    simp at h
  unfold joined
  split_ifs <;> rw [List.head?_append_of_ne_nil _ hne] <;> exact h

theorem pieces_joined {a : CString} (h : a ≠ []) (b : CString) :
    pieces '/' (joined a b) = pieces '/' a ++ pieces '/' b := by
  unfold joined
  split_ifs with hsep hsame
  · exact Lib.pieces_append_sep a b
  · obtain ⟨bs, rfl⟩ := List.head?_eq_some_iff.mp hsame.2.2
    obtain ⟨as, rfl⟩ := List.getLast?_eq_some_iff.mp hsame.2.1
    rw [List.tail_cons, List.append_assoc, List.singleton_append, Lib.pieces_append_sep]
    simp
  · by_cases hlast : a.getLast? = some '/'
    · obtain ⟨as, rfl⟩ := List.getLast?_eq_some_iff.mp hlast
      rw [List.append_assoc, List.singleton_append, Lib.pieces_append_sep]
      simp
    · have hhead : b.head? = some '/' := by
        by_contra hhead
        exact hsep ⟨h, hlast, hhead⟩
      obtain ⟨bs, rfl⟩ := List.head?_eq_some_iff.mp hhead
      rw [Lib.pieces_append_sep]
      simp

theorem joined_pathOf (h : path.head? ≠ some '/') :
    joined (pathOf names) path =
      if names = [] then '/' :: path else pathOf names ++ '/' :: path := by
  by_cases hn : names = []
  · subst hn
    simp [joined, h]
  · simp [joined, h, hn, pathOf_ne_nil, pathOf_getLast? hn]

theorem Component.head?_chars (n : Component) : n.chars.head? ≠ some '/' := by
  intro hsep
  obtain ⟨rest, hrest⟩ := List.head?_eq_some_iff.mp hsep
  exact n.isName.2 (hrest ▸ List.mem_cons_self)

theorem joined_pathOf_component (names : List Component) (n : Component) :
    joined (pathOf names) n.chars = pathOf (names ++ [n]) := by
  rw [joined_pathOf n.head?_chars]
  by_cases hn : names = []
  · subst hn
    simp [pathOf, Lib.render_singleton]
  · rw [if_neg hn, pathOf_concat hn]

end Improot.Path
