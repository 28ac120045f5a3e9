import Improot.Path.CanonSpec
import Improot.Path.Translate

/-!
# What the translation of a path keeps and returns

`translate_path` keeps the invariant of the binding lists and returns a host path that is canonical
up to its ending; `detranslate_path` brings a canonical host path back to a canonical guest path.
-/

namespace Improot.Path

variable {glueType : Option FileType} {kept : Kept}

/-! ## Extensions -/

theorem notifyExtensions_translatedPath {extensions : List Extension}
    (hreg : ∀ e ∈ extensions, e.Regular) {path result : CString} {status : Nat}
    (hpath : Ended path)
    (h : notifyExtensions (fun e path => e.translatedPath path) extensions path =
      .ok (status, result)) : Ended result := by
  induction extensions generalizing path with
  | nil =>
      cases h
      exact hpath
  | cons e es ih =>
      obtain ⟨he, hes⟩ := List.forall_mem_cons.mp hreg
      rw [notifyExtensions] at h
      split at h
      · cases h
      · rename_i path' hevent
        exact ih hes (he.translatedPath _ _ _ hpath hevent) h
      · rename_i n path' hevent
        cases h
        exact he.translatedPath _ _ _ hpath hevent

theorem notifyExtensions_guestPath {extensions : List Extension}
    (hreg : ∀ e ∈ extensions, e.Regular) {userPath base result : CString} {status : Nat}
    (h : notifyExtensions (fun e base => e.guestPath base userPath) extensions base =
      .ok (status + 1, result)) : Ended result := by
  induction extensions generalizing base with
  | nil => cases h
  | cons e es ih =>
      obtain ⟨he, hes⟩ := List.forall_mem_cons.mp hreg
      rw [notifyExtensions] at h
      split at h
      · cases h
      · exact ih hes h
      · rename_i n path' hevent
        cases h
        exact he.guestPath _ _ _ _ hevent

/-! ## Translation -/

theorem translateCanonical_sound (base userPath : CString) (derefFinal : Bool) :
    Comp.Spec (World.Sound glueType kept) (translateCanonical base userPath derefFinal)
      Ended := by
  unfold translateCanonical
  split_ifs with habs
  · exact .fail _
  · rw [ne_eq, not_not] at habs
    refine Comp.Spec.bind (Q := fun path => path.head? = some '/') (.lift fun path hpath => ?_) ?_
    · rw [joinPaths_ok hpath]
      exact joined_absolute habs
    · intro path hpath
      have hne : path ≠ [] := by
        rintro rfl
        simp at hpath
      refine Comp.Spec.bind (canonicalize_sound derefFinal (.inl hpath) (.inl hne)) fun g hg => ?_
      refine Comp.Spec.bind .get fun w hw => ?_
      refine Comp.Spec.bind (Q := fun r => Ended r.2) (.lift ?_) fun r hr => .pure hr
      rintro ⟨substituted, result⟩ hsub
      exact substituteBinding_ended hw.sorted hw.rooted hg hsub

theorem translatePath_sound (dirFd : DirFd) (userPath : CString) (derefFinal : Bool) :
    Comp.Spec (World.Sound glueType kept) (translatePath dirFd userPath derefFinal)
      Ended := by
  unfold translatePath
  refine Comp.Spec.bind .get fun w hw => ?_
  refine Comp.Spec.bind (Q := fun _ => True) (.liftFailure fun _ _ => trivial) fun base _ => ?_
  refine Comp.Spec.bind (Q := fun r => 0 < r.1 → Ended r.2) (.lift ?_) ?_
  · rintro ⟨status, base'⟩ hguest hpos
    obtain ⟨n, rfl⟩ := Nat.exists_eq_succ_of_ne_zero (Nat.ne_of_gt hpos)
    exact notifyExtensions_guestPath hw.extensions hguest
  · rintro ⟨status, base'⟩ hanswer
    refine Comp.Spec.bind (Q := Ended) ?_ fun result hresult => ?_
    · unfold translateUnlessAnswered
      split_ifs with hpos
      · exact .pure (hanswer hpos)
      · exact translateCanonical_sound base' userPath derefFinal
    · refine Comp.Spec.bind (Q := fun r => Ended r.2) (.lift ?_) fun r hr => .pure hr
      rintro ⟨status', result'⟩ htranslated
      exact notifyExtensions_translatedPath hw.extensions hresult htranslated

/-! ## While no binding is being initialized -/

def Comp.Still {α : Type} (w : World) (x : Comp α) : Prop := Comp.Spec (· = w) x fun _ => True

section Still

variable {w : World}

theorem Comp.Still.bind {α β : Type} {x : Comp α} {f : α → Comp β} (hx : x.Still w)
    (hf : ∀ a, (f a).Still w) : (x >>= f).Still w :=
  Comp.Spec.bind hx fun a _ => hf a

theorem Comp.Still.pure {α : Type} (a : α) : (Pure.pure a : Comp α).Still w := Comp.Spec.pure trivial

theorem Comp.Still.fail {α : Type} (e : Failure) : (Comp.fail e : Comp α).Still w := Comp.Spec.fail e

theorem Comp.Still.get : Comp.get.Still w := Comp.Spec.get.mono fun _ _ => trivial

theorem Comp.Still.lift {α : Type} (x : Except Errno α) : (Comp.lift x).Still w :=
  Comp.Spec.lift fun _ _ => trivial

theorem Comp.Still.liftFailure {α : Type} (x : Except Failure α) : (Comp.liftFailure x).Still w :=
  Comp.Spec.liftFailure fun _ _ => trivial

theorem Comp.Still.snd {α : Type} {x : Comp α} (hx : x.Still w) : (x w).2 = w := (hx w rfl).1

theorem substituteBindingStat_still (hglue : w.tracee.glueType = none) (finality : Finality)
    (level : Nat) (guestPath : CString) :
    (substituteBindingStat finality level guestPath).Still w := by
  refine .bind .get fun v => .bind (.lift _) fun _ => .bind (.lift _) fun hostPath => ?_
  refine .bind ?_ fun type => .bind (.lift _) fun _ => .pure _
  rintro _ rfl
  unfold statOrGlue
  split
  · exact ⟨rfl, fun _ _ => trivial⟩
  · exact ⟨rfl, fun _ _ => trivial⟩
  · rename_i hsome
    rw [hglue] at hsome
    cases hsome

theorem canonicalizeLoop_still (hglue : w.tracee.glueType = none)
    {recurse : CString → CString → Nat → Comp CString}
    (hrec : ∀ target base level, (recurse target base level).Still w) (derefFinal : Bool)
    (level fuel : Nat) (cursor guestPath : CString) (symlinksFollowed : Nat) :
    (canonicalizeLoop recurse derefFinal level fuel cursor guestPath symlinksFollowed).Still w := by
  induction fuel generalizing cursor guestPath symlinksFollowed with
  | zero => exact .fail _
  | succ fuel ih =>
      rw [canonicalizeLoop]
      refine .bind (.lift _) ?_
      rintro ⟨finality, component, rest⟩
      -- where a turn leads, and the rest of the loop from there
      have hgo : ∀ (ending : Finality) next sf,
          (if finality.isFinal = true then pure (ending, next)
          else canonicalizeLoop recurse derefFinal level fuel rest next sf).Still w := by
        intro ending next sf
        split_ifs
        · exact .pure _
        · exact ih _ _ _
      dsimp only
      by_cases hdot : component = ['.']
      · rw [if_pos hdot]
        exact hgo _ _ _
      rw [if_neg hdot]
      by_cases hdots : component = ['.', '.']
      · rw [if_pos hdots]
        exact hgo _ _ _
      rw [if_neg hdots]
      refine .bind (.lift _) fun scratch => ?_
      refine .bind (substituteBindingStat_still hglue _ _ _) ?_
      rintro ⟨isLink, hostPath⟩
      dsimp only
      split
      · exact .bind (.lift _) fun _ => hgo _ _ _
      · refine .bind .get fun _ => .bind (.liftFailure _) fun referee => ?_
        cases referee with
        | pinned result => exact .pure _
        | path target =>
            refine .bind (hrec _ _ _) fun next => ?_
            refine .bind (substituteBindingStat_still hglue _ _ _) ?_
            rintro ⟨isLink', hostPath'⟩
            dsimp only
            split
            · exact .fail _
            · exact hgo _ _ _

theorem canonicalize_still (hglue : w.tracee.glueType = none) (userPath : CString)
    (derefFinal : Bool) (base : CString) (level : Nat) :
    (canonicalize userPath derefFinal base level).Still w := by
  unfold canonicalize
  generalize maxSymlinks + 2 = budget
  induction budget generalizing userPath base derefFinal level with
  | zero => exact .fail _
  | succ budget ih =>
      rw [canonicalizeAt]
      split_ifs
      · exact .fail _
      · exact .fail _
      · exact .fail _
      · exact .bind (canonicalizeLoop_still hglue (fun _ _ _ => ih _ _ _ _) _ _ _ _ _ _)
          fun _ => .lift _
      · exact .bind (canonicalizeLoop_still hglue (fun _ _ _ => ih _ _ _ _) _ _ _ _ _ _)
          fun _ => .lift _

theorem translatePath_still (hglue : w.tracee.glueType = none) (dirFd : DirFd)
    (userPath : CString) (derefFinal : Bool) : (translatePath dirFd userPath derefFinal).Still w := by
  unfold translatePath
  refine .bind .get fun _ => .bind (.liftFailure _) fun _ => .bind (.lift _) fun answer => ?_
  refine .bind ?_ fun result => .bind (.lift _) fun _ => .pure _
  unfold translateUnlessAnswered translateCanonical
  split_ifs
  · exact .pure _
  · exact .fail _
  · refine .bind (.lift _) fun _ => .bind (canonicalize_still hglue _ _ _ _) fun _ => ?_
    exact .bind .get fun _ => .bind (.lift _) fun _ => .pure _

end Still

/-! ## The way back -/

theorem removeRoot_canonical {t : Bindings} (h : t.Sorted) (hroot : t.Rooted) {sanityCheck : Bool}
    {path result : CString} {n : Nat} (hpath : Canonical path)
    (hrun : removeRoot t sanityCheck path = .ok (n, result)) : Canonical result := by
  obtain ⟨names, rfl⟩ := hpath
  obtain ⟨root, hrootHost⟩ : ∃ root, getRoot t = pathOf root := by
    obtain ⟨b, hlast, -⟩ := h.root_last hroot
    obtain ⟨root, hhost⟩ := (h.clean b (List.mem_of_getLast? hlast)).host
    exact ⟨root, by rw [getRoot, hlast]; exact hhost⟩
  have hkeep : (if sanityCheck = true then Except.error (Failure.errno Errno.eperm)
      else .ok (0, pathOf names)) = .ok (n, result) → Canonical result := by
    intro hres
    split_ifs at hres
    cases hres
    exact ⟨names, rfl⟩
  unfold removeRoot at hrun
  split at hrun
  · rename_i hcmp
    rw [hrootHost, comparePaths_eq_path1IsPrefix (pathOf_ne_nil _) (pathOf_ne_nil _),
      below_pathOf] at hcmp
    obtain ⟨⟨more, rfl⟩, hne⟩ := hcmp
    have hmore : more ≠ [] := by
      rintro rfl
      exact hne (by simp)
    simp only [hrootHost, Except.ok.injEq, Prod.mk.injEq] at hrun
    rw [← hrun.2]
    by_cases hr : root = []
    · subst hr
      exact ⟨more, by simp⟩
    · have hlen : (pathOf root).length ≠ 1 :=
        fun hone => hr (pathOf_eq_root.mp ((pathOf_tidy root).length_eq_one.mp hone))
      rw [if_neg hlen, pathOf_append hr hmore, List.drop_left]
      exact ⟨more, rfl⟩
  · simp only [Except.ok.injEq, Prod.mk.injEq] at hrun
    rw [← hrun.2]
    exact ⟨[], rfl⟩
  · exact hkeep hrun

theorem detranslatePath_canonical {w : World} (h : w.tracee.bindings.Sorted)
    (hroot : w.tracee.bindings.Rooted) {path result : CString} {n : Nat}
    (hpath : Canonical path) (hrun : detranslatePath w path none = .ok (n, result)) :
    Canonical result := by
  obtain ⟨names, rfl⟩ := hpath
  simp only [detranslatePath] at hrun
  split at hrun
  · cases hrun
  · rw [if_neg (by simp [pathOf_head?])] at hrun
    simp only [if_true] at hrun
    split at hrun
    · rename_i hsub
      cases hrun
      exact substituteBinding_canonical h hroot ⟨names, rfl⟩ hsub
    · rename_i hsub
      cases hrun
      exact substituteBinding_canonical h hroot ⟨names, rfl⟩ hsub
    · exact removeRoot_canonical h hroot ⟨names, rfl⟩ hrun

end Improot.Path
