import Improot.Lib.PrefixTable
import Improot.Path.Confinement
import Improot.Path.Ending

/-!
# The guest list as a table of prefixes

From the guest's point of view a sorted tree is a table that gives some directories a host
directory: a guest path is translated by the deepest of the directories above it. Insertions and
removals change one entry of this table, wherever they put or find the binding in the list.
-/

namespace Improot.Path

open Lib (PrefixTable pieces)
open Lib.PrefixTable

/-! ## Substitution, in components -/

theorem rebase_pathOf (ref rev more : List Component) :
    rebase (pathOf ref) (pathOf rev) (pathOf (ref ++ more)) = pathOf (rev ++ more) := by
  have h := rebase_withEnding ref rev more .finalNormal
  simp only [ite_self] at h
  exact h

variable {t : Bindings} {host names : List Component} {b : Binding} {finality : Finality}

theorem substituteBinding_pathOf (h : t.Sorted) (hroot : t.Rooted) {side : Side}
    (hget : getBinding t side (pathOf names) = some b) (hfitting : Fitting t side (pathOf names)) :
    ∃ ref rev more substituted, b.path side = pathOf ref ∧ b.reversePath side = pathOf rev ∧
      names = ref ++ more ∧
      substituteBinding t side (pathOf names) = .ok (substituted, pathOf (rev ++ more)) := by
  have hwf := h.wellFormed hroot
  obtain ⟨hmem, hb, -, hin⟩ := getBinding_spec hwf hget
  obtain ⟨ref, rev, href, hrev⟩ := h.getBinding_paths hget
  rw [href] at hin
  obtain ⟨more, rfl⟩ := within_pathOf.mp hin
  refine ⟨ref, rev, more, b.needSubstitution, href, hrev, rfl, ?_⟩
  cases hneed : b.needSubstitution with
  | false =>
      have heq : b.host = b.guest := by
        by_contra hne
        rw [hb.need.mpr hne] at hneed
        cases hneed
      have hsame : ref = rev := by
        refine pathOf_injective (href.symm.trans (Eq.trans ?_ hrev))
        cases side <;> simp [Binding.path, Binding.reversePath, heq]
      rw [substituteBinding_symmetric hget hneed, hsame]
  | true =>
      rw [substituteBinding_of_fits hwf hget hneed (hfitting b hget hneed), href, hrev,
        rebase_pathOf]

theorem pathOf_length_eq_one : (pathOf names).length = 1 ↔ names = [] := by
  rw [(pathOf_tidy names).length_eq_one, pathOf_eq_root]

/-- What a substitution by `host` would leave in the buffer. -/
def substituted (names host : List Component) (finality : Finality) : CString :=
  withEnding host (if withEnding names finality = ['/'] then .finalNormal else finality)

/-- Does it fit the buffer?  One byte less is left for the host path of "/". -/
def FitsNames (names host : List Component) (finality : Finality) : Prop :=
  (substituted names host finality).length + (if withEnding names finality = ['/'] then 1 else 0) <
    pathMax

instance (names host : List Component) (finality : Finality) :
    Decidable (FitsNames names host finality) := inferInstanceAs (Decidable (_ < _))

theorem withEnding_eq_root :
    withEnding names finality = ['/'] ↔ names = [] ∧ finality ≠ .finalDot := by
  by_cases hn : names = []
  · subst hn
    cases finality <;> simp [withEnding_nil]
  · simp only [hn, false_and, iff_false]
    rw [withEnding_eq hn]
    intro h
    have hlen := congrArg List.length h
    have hpos := List.length_pos_of_ne_nil (pathOf_ne_nil names)
    simp only [List.length_append, List.length_singleton] at hlen
    exact hn (pathOf_length_eq_one.mp (by omega))

theorem withEnding_append_length (h : names ≠ []) (more : List Component) (finality : Finality) :
    (withEnding (names ++ more) finality).length =
      (pathOf names).length + (tailOf more finality).length := by
  rw [withEnding_append h, List.length_append]

theorem withEnding_length {more : List Component} (h : withEnding more finality ≠ ['/']) :
    (withEnding more finality).length = (tailOf more finality).length := by
  by_cases hm : more = []
  · subst hm
    cases finality with
    | finalDot => rfl
    | _ => exact absurd rfl h
  · simp [hm, withEnding_eq hm, tailOf]

theorem fits_pathOf {ref rev more : List Component}
    (hlength : (withEnding (ref ++ more) finality).length < pathMax) :
    Fits (pathOf ref) (pathOf rev) (withEnding (ref ++ more) finality) ↔
      FitsNames (ref ++ more) (rev ++ more) finality := by
  unfold Fits FitsNames substituted
  simp only [pathOf_length_eq_one]
  by_cases hroot : withEnding (ref ++ more) finality = ['/']
  · obtain ⟨hnil, -⟩ := withEnding_eq_root.mp hroot
    obtain ⟨rfl, rfl⟩ := List.append_eq_nil_iff.mp hnil
    rw [List.append_nil] at hroot
    simp only [List.append_nil, hroot, if_true, List.length_singleton]
    by_cases hrev : rev = []
    · subst hrev
      decide
    · simp only [hrev, false_or]
      rfl
  · simp only [hroot, if_false, Nat.add_zero]
    by_cases href : ref = []
    · subst href
      by_cases hrev : rev = []
      · subst hrev
        simpa using hlength
      · have hlen := withEnding_length hroot
        simp only [List.nil_append] at hlen ⊢
        simp only [hrev, if_true, false_or, withEnding_append_length hrev, hlen]
    · have hlen := withEnding_append_length href more finality
      by_cases hrev : rev = []
      · subst hrev
        simp only [true_or, true_iff, List.nil_append]
        have hpos := List.length_pos_of_ne_nil (pathOf_ne_nil ref)
        by_cases hmore : withEnding more finality = ['/']
        · rw [hmore]
          decide
        · rw [withEnding_length hmore]
          omega
      · simp only [href, hrev, if_false, false_or, withEnding_append_length hrev, hlen]
        rw [Nat.add_sub_cancel_left, Nat.add_comm]

/-! ## The table -/

def tableOf (t : Bindings) : PrefixTable Component := fun names =>
  (t.guest.find? (·.guest = pathOf names)).map (namesOf ·.host)

theorem tableOf_eq_none : tableOf t names = none ↔ ∀ b ∈ t.guest, b.guest ≠ pathOf names := by
  simp [tableOf]

theorem tableOf_eq_some (h : t.Sorted) :
    tableOf t names = some host ↔
      ∃ b ∈ t.guest, b.guest = pathOf names ∧ b.host = pathOf host := by
  constructor
  · intro htable
    obtain ⟨b, hfind, hhost⟩ := Option.map_eq_some_iff.mp htable
    have hb := List.mem_of_find?_eq_some hfind
    obtain ⟨names', hcanon⟩ := (h.clean b hb).host
    rw [hcanon, namesOf_pathOf] at hhost
    subst hhost
    exact ⟨b, hb, by simpa using List.find?_some hfind, hcanon⟩
  · rintro ⟨b, hb, hguest, hhost⟩
    have hsome : (t.guest.find? (·.guest = pathOf names)).isSome := by
      rw [List.find?_isSome]
      exact ⟨b, hb, by simpa using hguest⟩
    obtain ⟨c, hfind⟩ := Option.isSome_iff_exists.mp hsome
    have hc := List.find?_some hfind
    rw [decide_eq_true_eq] at hc
    have hsame : c = b := List.inj_on_of_nodup_map h.distinct (List.mem_of_find?_eq_some hfind) hb
      (hc.trans hguest.symm)
    rw [tableOf, hfind, hsame, Option.map_some, hhost, namesOf_pathOf]

theorem tableOf_congr {t' : Bindings} (h : t.Sorted) (h' : t'.Sorted)
    (hpairs : ∀ host guest, (∃ b ∈ t'.guest, b.guest = guest ∧ b.host = host) ↔
      ∃ b ∈ t.guest, b.guest = guest ∧ b.host = host) : tableOf t' = tableOf t := by
  funext names
  apply Option.ext
  intro host
  rw [tableOf_eq_some h', tableOf_eq_some h]
  exact hpairs _ _

theorem within_withEnding {names' : List Component} (h : names <+: names')
    (finality : Finality) : Within (stem (pathOf names)) (stem (withEnding names' finality)) := by
  refine (within_pathOf.mpr h).trans ?_
  by_cases hn : names' = []
  · subst hn
    cases finality <;> decide
  · rw [stem_pathOf hn, withEnding_eq hn]
    cases finality with
    | notFinal | finalNormal => simp [Finality.mark, stem_pathOf hn, Within]
    | finalSlash => simp [Finality.mark, stem, Within]
    | finalDot =>
        rw [stem_eq_self (by simp [Finality.mark])]
        exact .inr ⟨['.'], by simp [Finality.mark]⟩

theorem covers_withEnding {names' : List Component}
    (hguest : b.guest = pathOf names) (h : names <+: names') (finality : Finality) :
    covers t .guest (withEnding names' finality) b = true := by
  have hin := within_withEnding h finality
  rw [← hguest, ← comparePaths_within (by rw [hguest]; exact pathOf_ne_nil _)
    (Ended.ne_nil ⟨names', finality, rfl⟩)] at hin
  simpa [covers, Binding.path] using hin

theorem getBinding_resolve (h : t.Sorted) (hroot : t.Rooted)
    (names : List Component) (finality : Finality) :
    ∃ b ref rev more, getBinding t .guest (withEnding names finality) = some b ∧
      b.guest = pathOf ref ∧ b.host = pathOf rev ∧ names = ref ++ more ∧
      resolve (tableOf t) names = some (rev ++ more) := by
  obtain ⟨root, hrootMem, hrootGuest⟩ := List.mem_map.mp hroot
  obtain ⟨b, hget⟩ : ∃ b, getBinding t .guest (withEnding names finality) = some b := by
    rw [← Option.isSome_iff_exists, getBinding, List.find?_isSome]
    exact ⟨root, hrootMem, covers_withEnding hrootGuest List.nil_prefix finality⟩
  obtain ⟨hmem, -, -, hin⟩ := getBinding_spec (h.wellFormed hroot) hget
  obtain ⟨ref, rev, href, hrev⟩ := h.getBinding_paths hget
  rw [href] at hin
  obtain ⟨more, rfl⟩ := prefix_of_within hin
  refine ⟨b, ref, rev, more, hget, href, hrev, rfl, ?_⟩
  have hentry : tableOf t ref = some rev := (tableOf_eq_some h).mpr ⟨b, hmem, href, hrev⟩
  rw [resolve_append, resolve_of_some hentry, Option.map_some]
  intro q hne hq
  rw [tableOf_eq_none]
  intro c hc hdeep
  have hcovers := covers_withEnding (t := t) hdeep
    ((List.prefix_append_right_inj ref).mpr hq) finality
  have hwithin := getBinding_deepest h hroot hget hc hcovers
  rw [hdeep, show b.guest = pathOf ref from href, within_pathOf] at hwithin
  have hle := hwithin.length_le
  rw [List.length_append] at hle
  exact hne (List.length_eq_zero_iff.mp (by omega))

/-- What `substitute_binding` makes of a guest path whose host path is `host`. -/
def substitution (names host : List Component) (finality : Finality) : Bool × CString :=
  if host = names then (false, withEnding names finality)
  else if FitsNames names host finality then (true, substituted names host finality)
  else (true, withEnding names finality)

theorem substituteBinding_resolve (h : t.Sorted) (hroot : t.Rooted)
        (hlength : (withEnding names finality).length < pathMax) :
    ∃ host, resolve (tableOf t) names = some host ∧
      substituteBinding t .guest (withEnding names finality) =
        .ok (substitution names host finality) := by
  have hwf := h.wellFormed hroot
  obtain ⟨b, ref, rev, more, hget, href, hrev, rfl, hresolve⟩ :=
    getBinding_resolve h hroot names finality
  refine ⟨rev ++ more, hresolve, ?_⟩
  have hneed : b.needSubstitution = true ↔ rev ++ more ≠ ref ++ more := by
    rw [(getBinding_spec hwf hget).2.1.need, href, hrev, ne_eq, ne_eq, List.append_left_inj]
    exact not_congr ⟨pathOf_injective, congrArg pathOf⟩
  have hpath : b.path .guest = pathOf ref := href
  have hreverse : b.reversePath .guest = pathOf rev := hrev
  unfold substitution
  by_cases hsame : rev ++ more = ref ++ more
  · rw [if_pos hsame, substituteBinding_symmetric hget]
    rw [← Bool.not_eq_true, hneed, not_not]
    exact hsame
  · rw [if_neg hsame]
    have hsub := hneed.mpr hsame
    by_cases hfits : FitsNames (ref ++ more) (rev ++ more) finality
    · rw [if_pos hfits, substituteBinding_of_fits hwf hget hsub, hpath, hreverse, rebase_withEnding]
      · rfl
      · rw [hpath, hreverse]
        exact (fits_pathOf hlength).mpr hfits
    · rw [if_neg hfits, substituteBinding_of_not_fits hget hsub]
      rw [hpath, hreverse]
      exact fun hnot => hfits ((fits_pathOf hlength).mp hnot)

theorem withEnding_injective {names' : List Component}
    (h : withEnding names finality = withEnding names' finality) : names = names' := by
  have hpieces := congrArg (pieces '/') h
  rw [pieces_withEnding, pieces_withEnding, List.append_left_inj] at hpieces
  exact List.map_injective_iff.mpr (fun m n hmn => Component.ext hmn) hpieces

theorem substituted_ne (hne : host ≠ names) :
    substituted names host finality ≠ withEnding names finality := by
  unfold substituted
  split_ifs with hroot
  · obtain ⟨rfl, -⟩ := withEnding_eq_root.mp hroot
    rw [hroot]
    exact fun h => hne (pathOf_eq_root.mp h)
  · exact fun h => hne (withEnding_injective h)

theorem substitution_eq {host' : List Component}
    (h : substitution names host' finality = substitution names host finality) :
    host' = host ∨ (host' ≠ names ∧ ¬ FitsNames names host' finality) ∧
      (host ≠ names ∧ ¬ FitsNames names host finality) := by
  unfold substitution at h
  split_ifs at h with hsame' hsame hfits hfits' hsame hfits hsame hfits
  · exact .inl (hsame'.trans hsame.symm)
  · cases h
  · cases h
  · cases h
  · exact .inl (withEnding_injective (Prod.mk.inj h).2)
  · exact absurd (Prod.mk.inj h).2 (substituted_ne hsame')
  · cases h
  · exact absurd (Prod.mk.inj h).2.symm (substituted_ne hsame)
  · exact .inr ⟨⟨hsame', hfits'⟩, hsame, hfits⟩

theorem FitsNames.of_append {more : List Component}
    (h : FitsNames (names ++ more) (host ++ more) finality) :
    FitsNames names host .finalNormal := by
  by_cases hhost : host = []
  · subst hhost
    unfold FitsNames substituted
    split_ifs <;> decide
  · unfold FitsNames substituted at h ⊢
    by_cases hroot : withEnding (names ++ more) finality = ['/']
    · obtain ⟨hnil, -⟩ := withEnding_eq_root.mp hroot
      obtain ⟨rfl, rfl⟩ := List.append_eq_nil_iff.mp hnil
      rw [List.append_nil] at hroot
      simp only [List.append_nil, hroot, if_true] at h
      exact h
    · simp only [hroot, if_false, Nat.add_zero, withEnding_append_length hhost] at h
      have hrest : withEnding names .finalNormal = ['/'] → 0 < (tailOf more finality).length := by
        intro hnames
        obtain ⟨rfl, -⟩ := withEnding_eq_root.mp hnames
        rw [List.nil_append] at hroot
        rw [← withEnding_length hroot]
        exact List.length_pos_of_ne_nil (Ended.ne_nil ⟨more, finality, rfl⟩)
      have hplain : (withEnding host .finalNormal).length = (pathOf host).length := rfl
      split_ifs with hnames
      · have := hrest hnames
        omega
      · omega

theorem substitution_append {host' : List Component} (more : List Component) (finality : Finality)
    (h : substitution names host' .finalNormal = substitution names host .finalNormal) :
    substitution (names ++ more) (host' ++ more) finality =
      substitution (names ++ more) (host ++ more) finality := by
  have hlift : ∀ host, host ≠ names ∧ ¬ FitsNames names host .finalNormal →
      substitution (names ++ more) (host ++ more) finality =
        (true, withEnding (names ++ more) finality) := by
    rintro host ⟨hdiff, hfits⟩
    rw [substitution, if_neg (by simpa using hdiff), if_neg fun h => hfits h.of_append]
  rcases substitution_eq h with rfl | ⟨hnot, hnot'⟩
  · rfl
  · rw [hlift host' hnot, hlift host hnot']

/-! ## Two trees -/

/-- Every guest path, up to its ending, is translated alike by two trees. -/
def SameGuestView (t t' : Bindings) : Prop :=
  ∀ path, Ended path → path.length < pathMax →
    substituteBinding t' .guest path = substituteBinding t .guest path

theorem SameGuestView.refl (t : Bindings) : SameGuestView t t := fun _ _ _ => rfl

theorem SameGuestView.of_table {t' : Bindings} (h : t.Sorted) (hroot : t.Rooted) (h' : t'.Sorted)
    (hroot' : t'.Rooted) (htable : tableOf t' = tableOf t) : SameGuestView t t' := by
  rintro _ ⟨names, finality, rfl⟩ hlength
  obtain ⟨host, hresolve, hsub⟩ := substituteBinding_resolve h hroot hlength
  obtain ⟨host', hresolve', hsub'⟩ := substituteBinding_resolve h' hroot' hlength
  rw [htable, hresolve, Option.some.injEq] at hresolve'
  rw [hsub, hsub', hresolve']

/-- **One entry apart**, two trees translate every guest path alike when they do so for the path of
the entry. -/
theorem sameGuestView_update_iff {t' : Bindings} (h : t.Sorted) (hroot : t.Rooted)
    (h' : t'.Sorted) (hroot' : t'.Rooted) {o : Option (List Component)}
    (htable : tableOf t' = Function.update (tableOf t) names o)
    (hlength : (pathOf names).length < pathMax) :
    SameGuestView t t' ↔
      substituteBinding t' .guest (pathOf names) = substituteBinding t .guest (pathOf names) := by
  constructor
  · exact fun hview => hview _ ⟨names, .finalNormal, rfl⟩ hlength
  · intro hsame
    have hlength' : (withEnding names .finalNormal).length < pathMax := hlength
    obtain ⟨top, htop, hsub⟩ := substituteBinding_resolve h hroot hlength'
    obtain ⟨top', htop', hsub'⟩ := substituteBinding_resolve h' hroot' hlength'
    have htops : substitution names top' .finalNormal = substitution names top .finalNormal :=
      Except.ok.inj (hsub'.symm.trans (Eq.trans hsame hsub))
    rintro _ ⟨path, finality, rfl⟩ hpath
    obtain ⟨host, hresolve, hpathSub⟩ := substituteBinding_resolve h hroot hpath
    obtain ⟨host', hresolve', hpathSub'⟩ := substituteBinding_resolve h' hroot' hpath
    rw [hpathSub, hpathSub']
    rw [htable] at hresolve' htop'
    rcases resolve_update_cases (tableOf t) names o path with heq | ⟨more, rfl, hnew, hold⟩
    · rw [heq, hresolve, Option.some.injEq] at hresolve'
      rw [hresolve']
    · rw [hnew, htop', Option.map_some, Option.some.injEq] at hresolve'
      rw [hold, htop, Option.map_some, Option.some.injEq] at hresolve
      rw [← hresolve, ← hresolve', substitution_append more finality htops]

/-! ## What changes the table -/

/-- The binding that `insort_binding3` inserts. -/
def newBindingOf (t : Bindings) (hostPath guestPath : CString) : Binding :=
  Binding.flagged ⟨t.nextNode, hostPath, guestPath, false⟩

/-- **After an insertion**, the list holds the new binding and the others, except for one that had
the same guest path. -/
theorem Bindings.Sorted.mem_insort3 {t : Bindings} (h : t.Sorted) {hostPath guestPath : CString}
    (hhost : Canonical hostPath) (hguest : Canonical guestPath) {x : Binding} :
    x ∈ (insortBinding3 t hostPath guestPath).guest ↔
      x = newBindingOf t hostPath guestPath ∨ x ∈ t.guest ∧ x.guest ≠ guestPath := by
  have hfresh : Bindings.Sorted { t with nextNode := t.nextNode + 1 } :=
    { h with fresh := fun x hx => Nat.lt_succ_of_lt (h.fresh x hx) }
  have haccepts : Bindings.Accepts { t with nextNode := t.nextNode + 1 }
      (newBindingOf t hostPath guestPath) := by
    refine ⟨⟨hhost, hguest⟩, fun hmem => ?_, Nat.lt_succ_self _⟩
    obtain ⟨y, hy, heq⟩ := List.mem_map.mp hmem
    have hlt := h.fresh y hy
    rw [heq] at hlt
    exact Nat.lt_irrefl _ hlt
  have hhalf := hfresh.insort_guest haccepts
  obtain ⟨hsorted, hsame⟩ := hhalf.insort_host hfresh haccepts
    (Binding.Clean.flagged_need ⟨hhost, hguest⟩)
  have hlist : (insortBinding3 t hostPath guestPath).guest = _ := hsame
  rw [hlist]
  have hnew := hhalf.same.mem_iff.mpr (List.mem_cons_self (a := newBindingOf t hostPath guestPath))
  have hinj := List.inj_on_of_nodup_map hhalf.distinct
  have hne : ∀ y ∈ t.guest, y ≠ newBindingOf t hostPath guestPath := by
    rintro y hy rfl
    exact Nat.lt_irrefl _ (h.fresh _ hy)
  constructor
  · intro hx
    refine (hhalf.guest x hx).imp_right fun hold => ⟨hold, fun heq => ?_⟩
    exact hne x hold (hinj hx hnew heq)
  · rintro (rfl | ⟨hx, hdiff⟩)
    · exact hnew
    · obtain ⟨y, hy, heq⟩ := List.mem_map.mp
        ((hhalf.paths x.guest).mpr (.inr (List.mem_map_of_mem hx)))
      rcases hhalf.guest y hy with rfl | hold
      · exact absurd heq.symm hdiff
      · rwa [List.inj_on_of_nodup_map h.distinct hx hold heq.symm]

theorem tableOf_insort3 (h : t.Sorted) (host guest : List Component) :
    tableOf (insortBinding3 t (pathOf host) (pathOf guest)) =
      Function.update (tableOf t) guest (some host) := by
  obtain ⟨hsorted, -, -, -⟩ := h.insort3 ⟨host, rfl⟩ ⟨guest, rfl⟩
  funext names
  apply Option.ext
  intro host'
  rw [tableOf_eq_some hsorted, Function.update_apply]
  simp only [h.mem_insort3 ⟨host, rfl⟩ ⟨guest, rfl⟩]
  split_ifs with hnames
  · subst hnames
    rw [Option.some.injEq]
    constructor
    · rintro ⟨x, rfl | ⟨-, hne⟩, hguest, hhost⟩
      · exact pathOf_injective hhost
      · exact absurd hguest hne
    · rintro rfl
      exact ⟨_, .inl rfl, rfl, rfl⟩
  · rw [tableOf_eq_some h]
    constructor
    · rintro ⟨x, rfl | ⟨hx, -⟩, hguest, hhost⟩
      · exact absurd (pathOf_injective hguest).symm hnames
      · exact ⟨x, hx, hguest, hhost⟩
    · rintro ⟨x, hx, hguest, hhost⟩
      refine ⟨x, .inr ⟨hx, fun heq => hnames ?_⟩, hguest, hhost⟩
      exact pathOf_injective (hguest.symm.trans heq)

theorem Bindings.Sorted.mem_remove (h : t.Sorted) {x : Binding} (hb : b ∈ t.guest) :
    x ∈ (removeBindingFromAllLists t b).guest ↔ x ∈ t.guest ∧ x.guest ≠ b.guest := by
  rw [removeBindingFromAllLists_guest, List.mem_filter, decide_eq_true_eq]
  refine and_congr_right fun hx => not_congr ⟨fun hnode => ?_, fun hguest => ?_⟩
  · rw [h.node_injective hx hb hnode]
  · rw [List.inj_on_of_nodup_map h.distinct hx hb hguest]

theorem Bindings.Rooted.remove (hroot : t.Rooted) (h : t.Sorted)
    (hb : b ∈ t.guest) (hne : b.guest ≠ ['/']) : (removeBindingFromAllLists t b).Rooted := by
  obtain ⟨root, hmem, hguest⟩ := List.mem_map.mp hroot
  refine List.mem_map.mpr ⟨root, (h.mem_remove hb).mpr ⟨hmem, fun heq => hne ?_⟩, hguest⟩
  exact heq.symm.trans hguest

theorem tableOf_remove {t : Bindings} (h : t.Sorted) {b : Binding} {guest : List Component}
    (hb : b ∈ t.guest) (hguest : b.guest = pathOf guest) :
    tableOf (removeBindingFromAllLists t b) = Function.update (tableOf t) guest none := by
  funext names
  apply Option.ext
  intro host
  rw [tableOf_eq_some (h.remove b), Function.update_apply]
  simp only [h.mem_remove hb, hguest]
  split_ifs with hnames
  · subst hnames
    simp only [iff_false]
    rintro ⟨x, ⟨-, hne⟩, hx, -⟩
    exact hne hx
  · rw [tableOf_eq_some h]
    constructor
    · rintro ⟨x, ⟨hx, -⟩, hpaths⟩
      exact ⟨x, hx, hpaths⟩
    · rintro ⟨x, hx, hx', hhost⟩
      refine ⟨x, ⟨hx, fun heq => hnames ?_⟩, hx', hhost⟩
      exact pathOf_injective (hx'.symm.trans heq)

theorem tableOf_root (h : t.Sorted) (hroot : t.Rooted) :
    ∃ root, tableOf t [] = some root ∧ getRoot t = pathOf root := by
  obtain ⟨b, hlast, hguest⟩ := h.root_last hroot
  have hb := List.mem_of_getLast? hlast
  obtain ⟨root, hhost⟩ := (h.clean b hb).host
  refine ⟨root, (tableOf_eq_some h).mpr ⟨b, hb, hguest, hhost⟩, ?_⟩
  rw [getRoot, hlast]
  exact hhost

end Improot.Path
