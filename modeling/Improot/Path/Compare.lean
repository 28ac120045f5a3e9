import Improot.Path.Basic

/-!
# What a comparison of paths means

`comparePaths2` works on lengths and on one sentinel character.  Here it is related to an order on
strings: `Below s t` says that `t` lies strictly below the directory `s`, both written without
trailing separator.  Every later argument about bindings is carried out with this order.
-/

namespace Improot.Path

/-- A path without its potential trailing separator; the stem of "/" is empty. -/
def stem (path : CString) : CString :=
  if path.getLast? = some '/' then path.dropLast else path

/-- `t` lies strictly below the directory `s`. -/
def Below (s t : CString) : Prop := s ++ ['/'] <+: t

instance (s t : CString) : Decidable (Below s t) := inferInstanceAs (Decidable (_ <+: _))

/-- `t` is `s`, or lies below it. -/
def Within (s t : CString) : Prop := s = t ∨ Below s t

instance (s t : CString) : Decidable (Within s t) := inferInstanceAs (Decidable (_ ∨ _))

/-! ## The order -/

variable {p path q s t : CString}

theorem Below.length_lt (h : Below s t) : s.length < t.length := by
  have := h.length_le
  simp only [List.length_append, List.length_cons, List.length_nil] at this
  omega

theorem Below.irrefl (s : CString) : ¬ Below s s := fun h => Nat.lt_irrefl _ h.length_lt

theorem Below.trans {s t u : CString} (hst : Below s t) (htu : Below t u) : Below s u :=
  List.IsPrefix.trans hst ((List.prefix_append t ['/']).trans htu)

theorem Below.asymm (hst : Below s t) : ¬ Below t s :=
  fun hts => Below.irrefl s (hst.trans hts)

theorem Within.refl (s : CString) : Within s s := .inl rfl

theorem Within.trans {s t u : CString} (hst : Within s t) (htu : Within t u) : Within s u := by
  rcases hst with rfl | hst
  · exact htu
  · rcases htu with rfl | htu
    · exact .inr hst
    · exact .inr (hst.trans htu)

theorem Within.antisymm (hst : Within s t) (hts : Within t s) : s = t := by
  rcases hst with rfl | hst
  · rfl
  · rcases hts with rfl | hts
    · rfl
    · exact absurd hts hst.asymm

theorem Within.total {u : CString} (hs : Within s u) (ht : Within t u) :
    Within s t ∨ Below t s := by
  rcases hs with rfl | hs
  · rcases ht with rfl | ht
    · exact .inl (.refl _)
    · exact .inr ht
  · rcases ht with rfl | ht
    · exact .inl (.inr hs)
    · rcases Nat.lt_trichotomy s.length t.length with hlt | heq | hgt
      · refine .inl (.inr ?_)
        refine List.prefix_of_prefix_length_le hs ((List.prefix_append t ['/']).trans ht) ?_
        simp only [List.length_append, List.length_cons, List.length_nil]
        omega
      · have hpre : s <+: t :=
          List.prefix_of_prefix_length_le ((List.prefix_append s ['/']).trans hs)
            ((List.prefix_append t ['/']).trans ht) (Nat.le_of_eq heq)
        exact .inl (.inl (hpre.eq_of_length heq))
      · refine .inr ?_
        refine List.prefix_of_prefix_length_le ht ((List.prefix_append s ['/']).trans hs) ?_
        simp only [List.length_append, List.length_cons, List.length_nil]
        omega

theorem within_iff : Within s t ↔ ∃ suffix, t = s ++ suffix ∧
    (suffix = [] ∨ suffix.head? = some '/') := by
  constructor
  · rintro (rfl | ⟨rest, rfl⟩)
    · exact ⟨[], by simp⟩
    · exact ⟨'/' :: rest, by simp⟩
  · rintro ⟨suffix, rfl, rfl | hhead⟩
    · exact .inl (by simp)
    · cases suffix with
      | nil => simp at hhead
      | cons c rest =>
          simp only [List.head?_cons, Option.some.injEq] at hhead
          subst hhead
          exact .inr ⟨rest, by simp⟩

/-! ## Stems -/

@[simp] theorem stem_root : stem ['/'] = [] := rfl

theorem stem_eq_self (h : path.getLast? ≠ some '/') : stem path = path := by
  simp [stem, h]

theorem stem_append_slash (h : path.getLast? = some '/') :
    path = stem path ++ ['/'] := by
  obtain ⟨init, rfl⟩ := List.getLast?_eq_some_iff.mp h
  simp [stem]

theorem stem_isInitial (path : CString) : stem path <+: path := by
  by_cases h : path.getLast? = some '/'
  · exact ⟨['/'], (stem_append_slash h).symm⟩
  · simp [stem_eq_self h]

theorem stem_length_le (path : CString) : (stem path).length ≤ path.length :=
  (stem_isInitial path).length_le

theorem getElem?_length_sub_one (path : CString) : path[path.length - 1]? = path.getLast? := by
  rw [List.getLast?_eq_getElem?]

theorem chompedLength_eq (path : CString) :
    chompedLength path path.length = (stem path).length := by
  rw [chompedLength, getElem?_length_sub_one]
  by_cases h : path.getLast? = some '/'
  · rw [if_pos h]
    conv_lhs => rw [stem_append_slash h]
    simp
  · rw [if_neg h, stem_eq_self h]

theorem getElem?_stem_length (path : CString) :
    path[(stem path).length]? = some '/' ∨ path[(stem path).length]? = none := by
  by_cases h : path.getLast? = some '/'
  · left
    have happ := stem_append_slash h
    generalize stem path = s at happ
    subst happ
    simp
  · right
    rw [stem_eq_self h]
    simp

theorem take_stem {n : Nat} (hn : n ≤ (stem path).length) :
    path.take n = (stem path).take n := by
  obtain ⟨rest, hrest⟩ := stem_isInitial path
  conv_lhs => rw [← hrest]
  rw [List.take_append_of_le_length hn]

theorem getElem?_stem {n : Nat} (hn : n < (stem path).length) :
    path[n]? = (stem path)[n]? := by
  obtain ⟨rest, hrest⟩ := stem_isInitial path
  conv_lhs => rw [← hrest]
  rw [List.getElem?_append_left hn]

/-- A directory of `s.length` characters contains `t` when they agree so far and the next
character is a separator. -/
theorem below_iff_take (hlt : s.length < t.length) :
    Below s t ↔ t.take s.length = s ∧ t[s.length]? = some '/' := by
  constructor
  · rintro ⟨rest, rfl⟩
    simp
  · rintro ⟨htake, hget⟩
    obtain ⟨hlen, hget⟩ := List.getElem?_eq_some_iff.mp hget
    refine ⟨t.drop (s.length + 1), ?_⟩
    calc s ++ ['/'] ++ t.drop (s.length + 1)
        = t.take s.length ++ (t[s.length] :: t.drop (s.length + 1)) := by simp [htake, hget]
      _ = t.take s.length ++ t.drop s.length := by rw [List.drop_eq_getElem_cons hlen]
      _ = t := List.take_append_drop _ _

/-! ## The comparison -/

/-- `compare_paths` looks at the paths without their trailing separators. -/
theorem comparePaths_eq (hp : p ≠ []) (hq : q ≠ []) :
    comparePaths p q =
      if stem p = stem q then .pathsAreEqual
      else if Below (stem p) (stem q) then .path1IsPrefix
      else if Below (stem q) (stem p) then .path2IsPrefix
      else .pathsAreNotComparable := by
  have hp0 : p.length ≠ 0 := fun h => hp (List.length_eq_zero_iff.mp h)
  have hq0 : q.length ≠ 0 := fun h => hq (List.length_eq_zero_iff.mp h)
  simp only [comparePaths, comparePaths2, hp0, hq0, or_self, if_false, chompedLength_eq]
  rcases Nat.lt_trichotomy (stem p).length (stem q).length with hlt | heq | hgt
  · have hne : stem p ≠ stem q := fun h => by rw [h] at hlt; exact Nat.lt_irrefl _ hlt
    have hnb : ¬ Below (stem q) (stem p) := fun h => absurd h.length_lt (by omega)
    have hsome : (stem q)[(stem p).length]? ≠ none := by
      simp only [ne_eq, List.getElem?_eq_none_iff]
      omega
    have hb := below_iff_take hlt
    rw [if_pos hlt, if_pos hlt, getElem?_stem hlt, take_stem (Nat.le_refl _),
      take_stem (Nat.le_of_lt hlt), List.take_length,
      if_neg (by omega : ¬ (stem p).length = (stem q).length), if_pos hlt]
    by_cases hs : (stem q)[(stem p).length]? = some '/'
    · by_cases ht : (stem q).take (stem p).length = stem p
      · simp [hs, ht, hb, hne]
      · have ht' : stem p ≠ (stem q).take (stem p).length := fun h => ht h.symm
        simp [hs, ht, ht', hb, hne, hnb]
    · simp [hs, hsome, hb, hne, hnb]
  · have hnb₁ : ¬ Below (stem p) (stem q) := fun h => absurd h.length_lt (by omega)
    have hnb₂ : ¬ Below (stem q) (stem p) := fun h => absurd h.length_lt (by omega)
    have htq : (stem q).take (stem p).length = stem q := by rw [heq, List.take_length]
    have hnlt : ¬ (stem p).length < (stem q).length := by omega
    rw [if_neg hnlt, if_neg hnlt, ← heq, take_stem (Nat.le_refl _),
      take_stem (Nat.le_of_eq heq), List.take_length, htq]
    have hpass : ¬ (p[(stem p).length]? ≠ some '/' ∧ p[(stem p).length]? ≠ none) := by
      rcases getElem?_stem_length p with h | h <;> simp [h]
    rw [if_neg hpass]
    by_cases hst : stem p = stem q
    · simp [hst]
    · simp [hst, hnb₁, hnb₂]
  · have hne : stem p ≠ stem q := fun h => by rw [h] at hgt; exact Nat.lt_irrefl _ hgt
    have hnb : ¬ Below (stem p) (stem q) := fun h => absurd h.length_lt (by omega)
    have hsome : (stem p)[(stem q).length]? ≠ none := by
      simp only [ne_eq, List.getElem?_eq_none_iff]
      omega
    have hnlt : ¬ (stem p).length < (stem q).length := by omega
    have hb := below_iff_take hgt
    rw [if_neg hnlt, if_neg hnlt, getElem?_stem hgt, take_stem (Nat.le_refl _),
      take_stem (Nat.le_of_lt hgt), List.take_length,
      if_neg (by omega : ¬ (stem p).length = (stem q).length), if_neg hnlt]
    by_cases hs : (stem p)[(stem q).length]? = some '/'
    · by_cases ht : (stem p).take (stem q).length = stem q
      · simp [hs, ht, hb, hne, hnb]
      · simp [hs, ht, hb, hne, hnb]
    · simp [hs, hsome, hb, hne, hnb]

theorem comparePaths_eq_pathsAreEqual (hp : p ≠ []) (hq : q ≠ []) :
    comparePaths p q = .pathsAreEqual ↔ stem p = stem q := by
  rw [comparePaths_eq hp hq]
  split_ifs <;> simp_all

theorem comparePaths_eq_path1IsPrefix (hp : p ≠ []) (hq : q ≠ []) :
    comparePaths p q = .path1IsPrefix ↔ Below (stem p) (stem q) := by
  rw [comparePaths_eq hp hq]
  split_ifs with h1 h2 h3
  · simp [h1, Below.irrefl]
  · simp [h2]
  · simp [h2]
  · simp [h2]

theorem comparePaths_within (hp : p ≠ []) (hq : q ≠ []) :
    comparePaths p q = .pathsAreEqual ∨ comparePaths p q = .path1IsPrefix ↔
      Within (stem p) (stem q) := by
  rw [comparePaths_eq_pathsAreEqual hp hq, comparePaths_eq_path1IsPrefix hp hq, Within]

end Improot.Path
