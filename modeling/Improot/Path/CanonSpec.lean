import Improot.Path.GuestView

/-!
# What canonicalization keeps and returns

Whatever the world, also while a binding is being initialized and the look-ups build glue, a
canonicalization keeps the invariant of the binding lists, and returns a path that is canonical up
to its ending.
-/

namespace Improot.Path

open Lib (pieces)

/-- What an extension answers is canonical, up to its ending, when what it is given is. -/
structure Extension.Regular (e : Extension) : Prop where
  guestPath : ∀ base userPath status result,
    e.guestPath base userPath = .ok (status + 1, result) → Ended result
  translatedPath : ∀ path status result, Ended path →
    e.translatedPath path = .ok (status, result) → Ended result

/-- What holds of a tracee and its host besides the binding lists. -/
structure World.Regular (w : World) : Prop where
  cwd : Canonical w.tracee.cwd
  extensions : ∀ e ∈ w.tracee.extensions, e.Regular
  glue : ∀ glue, w.tracee.glue = some glue → Canonical glue
  temp : ∀ glue, w.host.tempDirectory = some glue → Canonical glue
  links : LinkLaws w.host

structure Kept where
  holds : Bindings → Prop
  remove : ∀ {t b}, holds t → holds (removeBindingFromAllLists t b)
  insort3 : ∀ {t hostPath guestPath}, t.Sorted → Canonical hostPath → Canonical guestPath →
    holds t → holds (insortBinding3 t hostPath guestPath)

/-- The invariant of a world, while the final components that are missing get the type `glueType`,
and something else is kept. -/
structure World.Sound (glueType : Option FileType) (kept : Kept) (w : World) : Prop
    extends w.Regular where
  glueType : w.tracee.glueType = glueType
  sorted : w.tracee.bindings.Sorted
  rooted : w.tracee.bindings.Rooted
  kept : kept.holds w.tracee.bindings

variable {glueType : Option FileType} {kept : Kept}

theorem World.Sound.wellFormed {w : World} (h : w.Sound glueType kept) :
    w.tracee.bindings.WellFormed :=
  h.sorted.wellFormed h.rooted

theorem World.Sound.insort {w : World} (h : w.Sound glueType kept) {hostPath guestPath : CString}
    (hhost : Canonical hostPath) (hguest : Canonical guestPath) :
    World.Sound glueType kept { w with tracee := { w.tracee with
      bindings := insortBinding3 w.tracee.bindings hostPath guestPath } } := by
  obtain ⟨hsorted, -, hpaths, -⟩ := h.sorted.insort3 hhost hguest
  exact { h with
    sorted := hsorted
    rooted := (hpaths _).mpr (.inr h.rooted)
    kept := kept.insort3 h.sorted hhost hguest h.kept }

theorem World.Sound.remove {w : World} (h : w.Sound glueType kept) {b : Binding}
    (hb : ∀ x ∈ w.tracee.bindings.guest, x.node = b.node → x.guest ≠ ['/']) :
    World.Sound glueType kept { w with tracee := { w.tracee with
      bindings := removeBindingFromAllLists w.tracee.bindings b } } := by
  refine { h with sorted := h.sorted.remove b, rooted := ?_, kept := kept.remove h.kept }
  obtain ⟨root, hroot, hguest⟩ := List.mem_map.mp h.rooted
  refine List.mem_map.mpr ⟨root, List.mem_filter.mpr ⟨hroot, ?_⟩, hguest⟩
  simpa using fun heq => hb root hroot heq hguest

/-! ## Looking up -/

def KeepsSound (glueType : Option FileType) (kept : Kept) {α : Type} (x : Comp α) : Prop :=
  Comp.Spec (World.Sound glueType kept) x fun _ => True

theorem bindGlue_sound {glue guestPath : CString} (hglue : Canonical glue)
    (hguest : Canonical guestPath) (type : FileType) : KeepsSound glueType kept (bindGlue glue guestPath type) := by
  intro w hw
  unfold bindGlue
  split_ifs
  · exact ⟨hw, fun _ _ => trivial⟩
  · exact ⟨hw.insort hglue hguest, fun _ _ => trivial⟩

theorem buildGlueIn_sound {glue guestPath : CString} (hglue : Canonical glue)
    (hguest : Canonical guestPath) (hostPath : CString) (finality : Finality)
    (type : FileType) :
    KeepsSound glueType kept (buildGlueIn glue guestPath hostPath finality type) := by
  intro w hw
  have hbind := fun type => bindGlue_sound hglue hguest type w hw
  simp only [buildGlueIn]
  split
  · exact hbind _
  · split
    · exact ⟨{ hw with links := ⟨hw.links.readlink, hw.links.known⟩ }, fun _ _ => trivial⟩
    · split
      · exact ⟨hw, fun _ _ => trivial⟩
      · split
        · exact ⟨hw, fun _ _ => trivial⟩
        · exact hbind _

theorem buildGlue_sound {guestPath : CString} (hguest : Canonical guestPath) (hostPath : CString)
    (finality : Finality) (type : FileType) :
    KeepsSound glueType kept (buildGlue guestPath hostPath finality type) := by
  intro w hw
  unfold buildGlue
  split
  · exact ⟨hw, fun _ _ => trivial⟩
  · rename_i glue hglue
    have hcanon : Canonical glue := by
      cases hg : w.tracee.glue with
      | none => exact hw.temp glue (by simpa [hg] using hglue)
      | some g => exact hw.glue glue (by simpa [hg] using hglue)
    refine buildGlueIn_sound hcanon hguest _ _ _ _ { hw with glue := ?_ }
    rintro _ ⟨⟩
    exact hcanon

theorem substituteBindingStat_sound (finality : Finality) (level : Nat) {guestPath : CString}
    (hguest : Canonical guestPath ∨ glueType = none) :
    KeepsSound glueType kept (substituteBindingStat finality level guestPath) := by
  refine Comp.Spec.bind .get fun w _ => ?_
  refine Comp.Spec.bind (Q := fun _ => True) (.lift fun _ _ => trivial) fun _ _ => ?_
  refine Comp.Spec.bind (Q := fun _ => True) (.lift fun _ _ => trivial) fun hostPath _ => ?_
  refine Comp.Spec.bind (Q := fun _ => True) ?_ fun type _ => ?_
  · intro w hw
    unfold statOrGlue
    split
    · exact ⟨hw, fun _ _ => trivial⟩
    · exact ⟨hw, fun _ _ => trivial⟩
    · rename_i hsome
      rw [hw.glueType] at hsome
      refine buildGlue_sound (hguest.resolve_right fun h => ?_) _ _ _ w hw
      rw [h] at hsome
      cases hsome
  · exact Comp.Spec.bind (Q := fun _ => True) (.lift fun _ _ => trivial) fun _ _ => .pure trivial

/-! ## The walk -/

section Walk

variable {recurse : CString → CString → Nat → Comp CString}
  (hrec : ∀ target dir level, target ≠ [] → 0 < level →
    Comp.Spec (World.Sound glueType kept) (recurse target (pathOf dir) level) Canonical)

include hrec

/-- The loop of `canonicalize` keeps the path canonical. -/
theorem canonicalizeLoop_sound (derefFinal : Bool) (level fuel : Nat) {cursor : CString}
    {dir : List Component} (hcursor : pieces '/' cursor ≠ [] ∨ dir = []) (symlinksFollowed : Nat) :
    Comp.Spec (World.Sound glueType kept)
      (canonicalizeLoop recurse derefFinal level fuel cursor (pathOf dir) symlinksFollowed)
      fun r => Canonical r.2 := by
  induction fuel generalizing cursor dir symlinksFollowed with
  | zero => exact .fail _
  | succ fuel ih =>
      -- where a turn leads, and the rest of the loop from there
      have hgo : ∀ (finality ending : Finality) component rest (next : List Component) sf,
          Next cursor finality component rest →
          Comp.Spec (World.Sound glueType kept)
            (if finality.isFinal = true then pure (ending, pathOf next)
            else canonicalizeLoop recurse derefFinal level fuel rest (pathOf next) sf)
            fun r => Canonical r.2 := by
        intro finality ending component rest next sf hnext
        split_ifs with hfinal
        · exact .pure ⟨next, rfl⟩
        · cases hnext with
          | nothing => simp [Finality.isFinal] at hfinal
          | last => split_ifs at hfinal <;> simp [Finality.isFinal] at hfinal
          | more _ hrest => exact ih (.inl hrest) sf
      rw [canonicalizeLoop]
      refine Comp.Spec.bind (.lift fun _ => nextComponent_ok) ?_
      rintro ⟨finality, component, rest⟩ hnext
      dsimp only
      by_cases hdot : component = ['.']
      · rw [if_pos hdot]
        exact hgo finality .finalDot component rest dir _ hnext
      rw [if_neg hdot]
      by_cases hdots : component = ['.', '.']
      · rw [if_pos hdots, popComponent_pathOf]
        exact hgo finality .finalSlash component rest dir.dropLast _ hnext
      rw [if_neg hdots]
      have hcomponent : component = [] ∨ ∃ n : Component, component = n.chars :=
        (hnext.nothing_or_component hdot hdots).imp_left fun h => h.2.2.1
      obtain ⟨next, hjoin⟩ : ∃ next, joined (pathOf dir) component = pathOf next := by
        rcases hnext.nothing_or_component hdot hdots with ⟨hnil, -, rfl, -⟩ | ⟨n, rfl⟩
        · obtain rfl := hcursor.resolve_left fun h => h hnil
          exact ⟨[], rfl⟩
        · exact ⟨_, joined_pathOf_component dir n⟩
      have hjoins : Comp.Spec (World.Sound glueType kept)
          (Comp.lift (joinPaths [some (pathOf dir), some component])) (· = pathOf next) :=
        .lift fun path hpath => (joinPaths_ok hpath).trans hjoin
      refine hjoins.bind fun scratch hscratch => ?_
      subst hscratch
      refine Comp.Spec.bind (substituteBindingStat_sound finality level (.inl ⟨next, rfl⟩)) ?_
      rintro ⟨isLink, hostPath⟩ -
      dsimp only
      split
      · refine hjoins.bind fun path hpath => ?_
        subst hpath
        exact hgo finality finality component rest next _ hnext
      · refine Comp.Spec.bind .get fun w hw => ?_
        refine Comp.Spec.bind (.liftFailure fun referee =>
          dereference_spec hw.wellFormed hw.links (pathOf_tidy dir) hcomponent) fun referee href => ?_
        rcases href with ⟨target, rfl, hne⟩ | ⟨names, rfl, -⟩
        · refine Comp.Spec.bind (hrec target dir _ hne (by omega)) ?_
          rintro _ ⟨names, rfl⟩
          refine Comp.Spec.bind (substituteBindingStat_sound finality level (.inl ⟨names, rfl⟩)) ?_
          rintro ⟨isLink', hostPath'⟩ -
          dsimp only
          split
          · exact .fail _
          · exact hgo finality finality component rest names _ hnext
        · exact .pure ⟨names, rfl⟩

end Walk

theorem appendFinality_ended {level : Nat} {finality : Finality} {names : List Component}
    {g : CString} (h : appendFinality level finality (pathOf names) = .ok g) :
    Ended g ∧ (0 < level → Canonical g) := by
  rw [appendFinality_ok h]
  split_ifs with hlevel
  · exact ⟨⟨_, _, rfl⟩, fun h => by omega⟩
  · exact ⟨⟨names, .finalNormal, rfl⟩, fun _ => ⟨names, rfl⟩⟩

theorem canonicalizeAt_sound (budget : Nat) {userPath base : CString} {dir : List Component}
    (derefFinal : Bool) (level : Nat) (hne : userPath ≠ [])
    (hbase : userPath.head? = some '/' ∨ base = pathOf dir) :
    Comp.Spec (World.Sound glueType kept) (canonicalizeAt budget userPath derefFinal base level)
      fun g => Ended g ∧ (0 < level → Canonical g) := by
  induction budget generalizing userPath base dir derefFinal level with
  | zero => exact .fail _
  | succ budget ih =>
      rw [canonicalizeAt]
      simp only [start_pathOf hbase]
      split_ifs
      · exact .fail _
      · exact .fail _
      · exact .fail _
      · refine Comp.Spec.bind (canonicalizeLoop_sound (fun target dir level hne hpos =>
          (ih true level hne (.inr rfl)).mono fun g hg => hg.2 hpos) derefFinal level _
          (pieces_or_start hne dir) 0) ?_
        rintro ⟨finality, _⟩ ⟨names, rfl⟩
        exact .lift fun g hg => appendFinality_ended hg

theorem canonicalize_empty_sound (derefFinal : Bool) (dir : List Component) :
    Comp.Spec (World.Sound none kept) (canonicalize [] derefFinal (pathOf dir) 0) Ended := by
  have hjoins : Comp.Spec (World.Sound none kept) (Comp.lift (joinPaths [some (pathOf dir), some []]))
      (· = withEnding dir .finalSlash) := by
    refine .lift fun path hpath => ?_
    rw [joinPaths_ok hpath, joined_pathOf (by simp)]
    rfl
  rw [canonicalize, canonicalizeAt]
  have hbase : (if ([] : CString).head? ≠ some '/' then pathOf dir else ['/']) =
      pathOf ((routeOf []).start dir) := start_pathOf (.inr rfl)
  simp only [hbase]
  split_ifs
  · exact .fail _
  · exact .fail _
  · exact .fail _
  · have hstart : (routeOf []).start dir = dir := rfl
    rw [hstart]
    refine Comp.Spec.bind (Q := fun r => r.1 = .finalNormal ∧ Ended r.2) ?_ ?_
    · rw [canonicalizeLoop]
      refine Comp.Spec.bind (Q := fun r => r = (.finalNormal, [], []))
        (.lift fun r hr => (Except.ok.inj hr).symm) ?_
      rintro _ rfl
      dsimp only
      rw [if_neg (by decide), if_neg (by decide)]
      refine hjoins.bind fun scratch hscratch => ?_
      refine Comp.Spec.bind (substituteBindingStat_sound .finalNormal 0 (.inr rfl)) ?_
      rintro ⟨isLink, hostPath⟩ -
      dsimp only
      split
      · refine hjoins.bind fun path hpath => ?_
        subst hpath
        exact .pure ⟨rfl, dir, .finalSlash, rfl⟩
      · refine Comp.Spec.bind .get fun w hw => ?_
        refine Comp.Spec.bind (.liftFailure fun referee =>
          dereference_spec hw.wellFormed hw.links (pathOf_tidy dir) (.inl rfl)) fun referee href => ?_
        rcases href with ⟨target, rfl, hne⟩ | ⟨names, rfl, -⟩
        · refine Comp.Spec.bind (canonicalizeAt_sound _ true _ hne (.inr rfl)) fun g hg => ?_
          refine Comp.Spec.bind (substituteBindingStat_sound .finalNormal 0 (.inr rfl)) ?_
          rintro ⟨isLink', hostPath'⟩ -
          dsimp only
          split
          · exact .fail _
          · exact .pure ⟨rfl, hg.1⟩
        · exact .pure ⟨rfl, Canonical.ended ⟨names, rfl⟩⟩
    · rintro ⟨_, g⟩ ⟨rfl, hg⟩
      exact .lift fun g' hg' => Except.ok.inj hg' ▸ hg

/-- **Canonicalization is sound.** It keeps the invariant, and returns a canonical path up to its
ending; an empty path may not be canonicalized while a binding is being initialized. -/
theorem canonicalize_sound {userPath base : CString} (derefFinal : Bool)
    (hbase : userPath.head? = some '/' ∨ Canonical base) (hempty : userPath ≠ [] ∨ glueType = none) :
    Comp.Spec (World.Sound glueType kept) (canonicalize userPath derefFinal base 0) Ended := by
  have hdir : ∃ dir, userPath.head? = some '/' ∨ base = pathOf dir := by
    rcases hbase with habs | ⟨names, rfl⟩
    · exact ⟨[], .inl habs⟩
    · exact ⟨names, .inr rfl⟩
  obtain ⟨dir, hdir⟩ := hdir
  by_cases hne : userPath = []
  · subst hne
    obtain rfl := hempty.resolve_left fun h => h rfl
    rw [hdir.resolve_left (by simp)]
    exact canonicalize_empty_sound derefFinal dir
  · exact (canonicalizeAt_sound _ derefFinal 0 hne hdir).mono fun g hg => hg.1

end Improot.Path
