import Improot.Path.Binding

/-!
# Well-formed bindings

What `substitute_binding` relies on: the paths of a binding are absolute, without trailing
separator, and the substitution is needed exactly when they differ.  From this, the prefix
substitution is described without lengths, by `rebase`.
-/

namespace Improot.Path

structure Tidy (path : CString) : Prop where
  absolute : path.head? = some '/'
  chopped : path = ['/'] ∨ path.getLast? ≠ some '/'

instance (path : CString) : Decidable (Tidy path) :=
  decidable_of_iff (path.head? = some '/' ∧ (path = ['/'] ∨ path.getLast? ≠ some '/'))
    ⟨fun h => ⟨h.1, h.2⟩, fun h => ⟨h.1, h.2⟩⟩

theorem Tidy.ne_nil {path : CString} (h : Tidy path) : path ≠ [] := by
  rintro rfl
  exact absurd h.absolute (by simp)

theorem Tidy.stem_of_ne {path : CString} (h : Tidy path) (hne : path ≠ ['/']) :
    stem path = path :=
  stem_eq_self (h.chopped.resolve_left hne)

theorem Tidy.stem_eq_nil {path : CString} (h : Tidy path) : stem path = [] ↔ path = ['/'] := by
  constructor
  · intro hs
    by_contra hne
    rw [h.stem_of_ne hne] at hs
    exact h.ne_nil hs
  · rintro rfl
    rfl

theorem Tidy.stem_injective {p q : CString} (hp : Tidy p) (hq : Tidy q) (h : stem p = stem q) :
    p = q := by
  by_cases hroot : p = ['/']
  · subst hroot
    exact (hq.stem_eq_nil.mp h.symm).symm
  · have hroot' : q ≠ ['/'] := by
      rintro rfl
      exact hroot (hp.stem_eq_nil.mp h)
    rwa [hp.stem_of_ne hroot, hq.stem_of_ne hroot'] at h

theorem Tidy.comparePaths_eq_pathsAreEqual {p q : CString} (hp : Tidy p) (hq : Tidy q) :
    comparePaths p q = .pathsAreEqual ↔ p = q := by
  rw [Path.comparePaths_eq_pathsAreEqual hp.ne_nil hq.ne_nil]
  exact ⟨hp.stem_injective hq, fun h => h ▸ rfl⟩

theorem Tidy.length_eq_one {path : CString} (h : Tidy path) : path.length = 1 ↔ path = ['/'] := by
  constructor
  · intro hlen
    match path, h.absolute, hlen with
    | [c], habs, _ =>
        simp only [List.head?_cons, Option.some.injEq] at habs
        rw [habs]
  · rintro rfl
    rfl

/-! ## Well-formed binding trees -/

/-- A binding whose paths are tidy, with the flag `insort_binding2` sets. -/
structure Binding.WellFormed (b : Binding) : Prop where
  host : Tidy b.host
  guest : Tidy b.guest
  need : b.needSubstitution = true ↔ b.host ≠ b.guest

structure Bindings.WellFormed (t : Bindings) : Prop where
  guest : ∀ b ∈ t.guest, b.WellFormed
  host : ∀ b ∈ t.host, b.WellFormed
  root : ∃ b, t.guest.getLast? = some b ∧ b.guest = ['/']

theorem Binding.WellFormed.path {b : Binding} (h : b.WellFormed) (side : Side) :
    Tidy (b.path side) := by
  cases side
  · exact h.guest
  · exact h.host
  · exact h.guest

theorem Binding.WellFormed.reversePath {b : Binding} (h : b.WellFormed) (side : Side) :
    Tidy (b.reversePath side) := by
  cases side
  · exact h.host
  · exact h.guest
  · exact h.host

theorem Binding.WellFormed.path_ne {b : Binding} (h : b.WellFormed) (side : Side)
    (hneed : b.needSubstitution = true) : b.path side ≠ b.reversePath side := by
  have hne := h.need.mp hneed
  cases side
  · exact hne.symm
  · exact hne
  · exact hne.symm

theorem getBinding_spec {t : Bindings} {side : Side} {path : CString} {b : Binding}
    (hwf : t.WellFormed) (h : getBinding t side path = some b) :
    b ∈ t.list side ∧ b.WellFormed ∧ path ≠ [] ∧ Within (stem (b.path side)) (stem path) := by
  have key : ∀ l : List Binding, (∀ b ∈ l, b.WellFormed) →
      l.find? (covers t side path) = some b →
      b ∈ l ∧ b.WellFormed ∧ path ≠ [] ∧ Within (stem (b.path side)) (stem path) := by
    intro l hl hfind
    have hmem := List.mem_of_find?_eq_some hfind
    have hcov := List.find?_some hfind
    simp only [covers, Bool.decide_or, Bool.decide_and, Bool.and_eq_true, Bool.or_eq_true,
      decide_eq_true_eq] at hcov
    have hb := (hl b hmem).path side
    have hpath : path ≠ [] := by
      rintro rfl
      rcases hcov.1 with h | h <;> simp [comparePaths, comparePaths2] at h
    exact ⟨hmem, hl b hmem, hpath, (comparePaths_within hb.ne_nil hpath).mp hcov.1⟩
  cases side with
  | guest => exact key _ hwf.guest h
  | host => exact key _ hwf.host h
  | pending => cases h

/-! ## Rebasing a path -/

/-- What follows the reference `ref` in a path it contains. -/
def suffixAfter (ref path : CString) : CString :=
  if ref = ['/'] then (if path = ['/'] then [] else path) else path.drop ref.length

def attach (ref suffix : CString) : CString :=
  if ref = ['/'] then (if suffix = [] then ['/'] else suffix) else ref ++ suffix

/-- `path` with its prefix `ref` exchanged for `reverseRef`. -/
def rebase (ref reverseRef path : CString) : CString :=
  attach reverseRef (suffixAfter ref path)

/-- The result of the prefix substitution fits the path buffer, in the way
`substitute_path_prefix` measures it. -/
def Fits (ref reverseRef path : CString) : Prop :=
  reverseRef.length = 1 ∨
    (if ref.length = 1 then reverseRef.length + path.length < pathMax
    else path.length - ref.length + reverseRef.length < pathMax)

instance (ref reverseRef path : CString) : Decidable (Fits ref reverseRef path) :=
  inferInstanceAs (Decidable (_ ∨ _))

theorem append_of_within {ref path : CString} (href : Tidy ref) (hne : ref ≠ ['/'])
    (h : Within (stem ref) (stem path)) :
    ∃ suffix, path = ref ++ suffix ∧ (suffix = [] ∨ suffix.head? = some '/') := by
  rw [href.stem_of_ne hne] at h
  obtain ⟨suffix, hsuffix, hhead⟩ := within_iff.mp h
  by_cases hlast : path.getLast? = some '/'
  · have happ := stem_append_slash hlast
    rw [hsuffix] at happ
    refine ⟨suffix ++ ['/'], by rw [happ, List.append_assoc], .inr ?_⟩
    rcases hhead with rfl | hhead
    · rfl
    · cases suffix with
      | nil => rfl
      | cons c rest => simpa using hhead
  · rw [stem_eq_self hlast] at hsuffix
    exact ⟨suffix, hsuffix, hhead⟩

theorem head?_of_within_root {path : CString} (hpath : path ≠ [])
    (h : Within [] (stem path)) : path.head? = some '/' := by
  obtain ⟨rest, hrest⟩ := stem_isInitial path
  rcases h with h | ⟨tail, htail⟩
  · by_cases hlast : path.getLast? = some '/'
    · rw [stem_append_slash hlast, ← h]
      rfl
    · rw [stem_eq_self hlast] at h
      exact absurd h.symm hpath
  · rw [← htail] at hrest
    rw [← hrest]
    rfl

section Substitution

variable {ref reverseRef path : CString} (href : Tidy ref) (hrev : Tidy reverseRef)
  (hne : ref ≠ reverseRef) (hpath : path ≠ []) (hin : Within (stem ref) (stem path))

include href hrev hne hpath hin

theorem substitutePathPrefix_of_fits (hfits : Fits ref reverseRef path) :
    (substitutePathPrefix path ref.length reverseRef reverseRef.length).2 =
      rebase ref reverseRef path := by
  by_cases hrev1 : reverseRef = ['/']
  · subst hrev1
    obtain ⟨suffix, rfl, -⟩ := append_of_within href hne hin
    cases suffix with
    | nil | cons => simp [substitutePathPrefix, rebase, attach, suffixAfter, hne]
  · have hlen : reverseRef.length ≠ 1 := fun h => hrev1 (hrev.length_eq_one.mp h)
    have hfits := hfits.resolve_left hlen
    by_cases href1 : ref = ['/']
    · subst href1
      simp only [List.length_cons, List.length_nil, Nat.zero_add, if_true] at hfits
      by_cases hp : path = ['/']
      · subst hp
        have : ¬ pathMax ≤ reverseRef.length + 1 := by simpa using hfits
        simp [substitutePathPrefix, hlen, this, rebase, attach, suffixAfter, hrev1]
      · have habs := head?_of_within_root hpath (by simpa using hin)
        have hlong : path.length > 1 := by
          match path, habs, hp with
          | [c], habs, hp => simp_all
          | _ :: _ :: _, _, _ => simp
        have : ¬ reverseRef.length + path.length ≥ pathMax := by omega
        simp [substitutePathPrefix, hlen, hlong, this, rebase, attach, suffixAfter, hrev1, hp]
    · have hlen' : ref.length ≠ 1 := fun h => href1 (href.length_eq_one.mp h)
      rw [if_neg hlen'] at hfits
      have : ¬ path.length - ref.length + reverseRef.length ≥ pathMax := by omega
      simp [substitutePathPrefix, hlen, hlen', this, rebase, attach, suffixAfter, hrev1, href1]

omit href hrev hne hpath hin in
theorem substitutePathPrefix_of_not_fits (hfits : ¬ Fits ref reverseRef path) :
    (substitutePathPrefix path ref.length reverseRef reverseRef.length).2 = path := by
  obtain ⟨hlen, hfits⟩ := not_or.mp hfits
  rw [substitutePathPrefix, if_neg hlen]
  split_ifs at hfits ⊢ with h1 h2 h3 h4
  all_goals first | rfl | omega

theorem rebase_ne : rebase ref reverseRef path ≠ path := by
  intro heq
  by_cases hrev1 : reverseRef = ['/']
  · subst hrev1
    obtain ⟨suffix, rfl, -⟩ := append_of_within href hne hin
    cases suffix with
    | nil => simp [rebase, attach, suffixAfter, hne] at heq; exact hne heq.symm
    | cons c rest =>
        simp [rebase, attach, suffixAfter, hne] at heq
        exact href.ne_nil heq
  · by_cases href1 : ref = ['/']
    · subst href1
      by_cases hp : path = ['/']
      · subst hp
        simp [rebase, attach, suffixAfter, hrev1] at heq
      · simp [rebase, attach, suffixAfter, hrev1, hp] at heq
        exact hrev.ne_nil heq
    · obtain ⟨suffix, rfl, -⟩ := append_of_within href href1 hin
      simp [rebase, attach, suffixAfter, hrev1, href1] at heq
      exact hne heq.symm

theorem within_rebase : Within (stem reverseRef) (rebase ref reverseRef path) := by
  have hsuffix : suffixAfter ref path = [] ∨ (suffixAfter ref path).head? = some '/' := by
    by_cases href1 : ref = ['/']
    · subst href1
      by_cases hp : path = ['/']
      · simp [suffixAfter, hp]
      · simp only [suffixAfter, if_true, hp, if_false]
        exact .inr (head?_of_within_root hpath (by simpa using hin))
    · obtain ⟨suffix, rfl, hhead⟩ := append_of_within href href1 hin
      simpa [suffixAfter, href1] using hhead
  generalize hs : suffixAfter ref path = suffix at hsuffix
  rw [rebase, hs, attach]
  by_cases hrev1 : reverseRef = ['/']
  · subst hrev1
    rw [if_pos rfl]
    refine within_iff.mpr ?_
    rcases hsuffix with rfl | hhead
    · exact ⟨['/'], rfl, .inr rfl⟩
    · cases suffix with
      | nil => exact ⟨['/'], rfl, .inr rfl⟩
      | cons c rest => exact ⟨c :: rest, rfl, .inr hhead⟩
  · rw [if_neg hrev1, hrev.stem_of_ne hrev1]
    exact within_iff.mpr ⟨suffix, rfl, hsuffix⟩

end Substitution

end Improot.Path
