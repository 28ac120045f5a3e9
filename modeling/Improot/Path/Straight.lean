import Improot.Path.Resolve
import Improot.Path.Translate

/-!
# Paths that need no resolution

A canonical path whose directories are directories, and that no link leads away from, is its own
canonicalization; its translation is then a mere substitution.  In contrast to the resolution of
arbitrary paths, here success is shown and not assumed.
-/

namespace Improot.Path

open Lib (pieces)

structure Silent (w : World) : Prop extends Quiet w where
  guestPath : ∀ userPath base, notifyExtensions (fun e base => e.guestPath base userPath)
    w.tracee.extensions base = .ok (0, base)
  translatedPath : ∀ path, notifyExtensions (fun e path => e.translatedPath path)
    w.tracee.extensions path = .ok (0, path)

/-- From `dir`, the names lead straight on: every name but the last is a directory, the last one is
no link to follow, and nothing exceeds the buffers. -/
structure Straight (w : World) (derefFinal : Bool) (dir names : List Component) : Prop where
  directory : ∀ pre post, names = pre ++ post → pre ≠ [] → post ≠ [] →
    guestType w (pathOf (dir ++ pre)) = some .dir
  last : derefFinal = true → guestType w (pathOf (dir ++ names)) ≠ some .lnk
  short : ∀ n ∈ names, n.chars.length < nameMax
  fits : (pathOf (dir ++ names)).length + 1 < pathMax

variable {w : World} {derefFinal : Bool} {names : List Component}

theorem Straight.tail {dir : List Component} {n : Component}
    (h : Straight w derefFinal dir (n :: names)) : Straight w derefFinal (dir ++ [n]) names := by
  obtain ⟨hdirectory, hlast, hshort, hfits⟩ := h
  refine ⟨fun pre post hnames hpre hpost => ?_, ?_, fun m hm => hshort m (by simp [hm]), ?_⟩
  · have := hdirectory (n :: pre) post (by rw [hnames, List.cons_append]) (by simp) hpost
    rwa [List.append_assoc, List.singleton_append]
  · rwa [List.append_assoc, List.singleton_append]
  · rwa [List.append_assoc, List.singleton_append]

/-! ## The steps of the walk -/

theorem nextComponent_of_short {cursor : CString} {n : Component} {more : List CString}
    (h : pieces '/' cursor = n.chars :: more) (hshort : n.chars.length < nameMax) :
    ∃ finality rest, nextComponent cursor = .ok (finality, n.chars, rest) ∧
      Next cursor finality n.chars rest := by
  have hread : ∃ r, nextComponent cursor = .ok r := by
    have hpieces := h
    rw [← Lib.pieces_dropWhile] at hpieces
    have hne : cursor.dropWhile (· = '/') ≠ [] := by
      intro hnil
      simp [hnil] at hpieces
    rw [Lib.pieces_eq_cons hne (head?_dropWhile_slash cursor), List.cons.injEq] at hpieces
    simp only [nextComponent]
    rw [hpieces.1, if_neg (by omega)]
    exact ⟨_, rfl⟩
  obtain ⟨⟨finality, component, rest⟩, hread⟩ := hread
  have hnext := nextComponent_ok hread
  have hcomponent : component = n.chars := by
    cases hnext with
    | nothing hnil => simp [hnil] at h
    | last hone => exact (List.cons.inj (hone.symm.trans h)).1
    | more hmore => exact (List.cons.inj (hmore.symm.trans h)).1
  subst hcomponent
  exact ⟨finality, rest, hread, hnext⟩

theorem joinPaths_of_fits {path path' : CString} (hpath : path.length + 1 < pathMax)
    (hjoined : (joined path path').length + 1 < pathMax) :
    joinPaths [some path, some path'] = .ok (joined path path') := by
  have hfirst : joinPath [] path = .ok path := by
    simp only [joinPath]
    rw [if_neg (by simp), if_neg (by simp), if_neg (by simp; omega)]
    simp
  have hsecond : joinPath path path' = .ok (joined path path') := by
    unfold joinPath
    unfold joined at hjoined ⊢
    split_ifs at hjoined ⊢ with h₁ h₂ h₃ h₄ h₅
    all_goals first
      | rfl
      | (simp only [List.length_append, List.length_cons, List.length_tail] at hjoined; omega)
  simp [joinPaths, hfirst, hsecond, bind, Except.bind, pure, Except.pure]

theorem substituteBindingStat_run (hq : Quiet w) (hwf : w.tracee.bindings.WellFormed)
    {path : CString} (hpath : Tidy path) {finality : Finality} (level : Nat)
    (hdir : finality.isFinal = false → guestType w path = some .dir) :
    ∃ hostPath, substituteBindingStat finality level path w =
      (.ok (decide (guestType w path = some .lnk), hostPath), w) := by
  obtain ⟨substituted, hostPath, hsub⟩ := substituteBinding_exists hwf hpath
  have htype : guestType w path = (hostStat w.host hostPath).toOption := by
    simp only [guestType, hsub]
  refine ⟨hostPath, ?_⟩
  have hstat : statOrGlue path hostPath finality w = (.ok (guestType w path), w) := by
    rw [htype, statOrGlue, hq.glue]
    cases hostStat w.host hostPath <;> rfl
  have hcheck : checkType finality (guestType w path) =
      .ok (decide (guestType w path = some .lnk)) := by
    cases hfinal : finality.isFinal with
    | false =>
        rw [hdir hfinal]
        simp [checkType, FileType.isDirOrLink]
    | true =>
        cases guestType w path <;> simp [checkType, hfinal]
  simp only [substituteBindingStat, Comp.bind_run, Comp.get_run, hsub, Comp.lift_ok, hq.hostPath,
    hstat, hcheck, Comp.pure_run]

/-! ## The walk -/

theorem length_le_pathOf (names : List Component) : names.length ≤ (pathOf names).length := by
  induction names using List.reverseRecOn with
  | nil => simp
  | append_singleton names n ih =>
      by_cases hn : names = []
      · subst hn
        simp [pathOf_cons]
      · simp only [pathOf_concat hn, List.length_append, List.length_cons, List.length_nil]
        omega

theorem pathOf_length_mono (names more : List Component) :
    (pathOf names).length ≤ (pathOf (names ++ more)).length := by
  by_cases hn : names = []
  · subst hn
    exact List.length_pos_of_ne_nil (pathOf_ne_nil _)
  · by_cases hm : more = []
    · rw [hm, List.append_nil]
    · rw [pathOf_append hn hm, List.length_append]
      omega

/-- A path without links is canonicalized to its names. -/
theorem canonicalizeLoop_straight (hw : Walkable w)
    {recurse : CString → CString → Nat → Comp CString} {level fuel sf : Nat}
    {cursor : CString} {dir : List Component} (hstraight : Straight w derefFinal dir names)
    (hpieces : pieces '/' cursor = names.map (·.chars)) (hnames : names ≠ [])
    (hlast : cursor.getLast? ≠ some '/') (hfuel : names.length ≤ fuel) :
    canonicalizeLoop recurse derefFinal level fuel cursor (pathOf dir) sf w =
      (.ok (.finalNormal, pathOf (dir ++ names)), w) := by
  induction names generalizing fuel cursor dir with
  | nil => exact absurd rfl hnames
  | cons n more ih =>
      obtain ⟨fuel, rfl⟩ : ∃ k, fuel = k + 1 := Nat.exists_eq_succ_of_ne_zero (by
        simp only [List.length_cons] at hfuel
        omega)
      rw [List.map_cons] at hpieces
      obtain ⟨finality, rest, hread, hnext⟩ :=
        nextComponent_of_short hpieces (hstraight.short n List.mem_cons_self)
      have hcons : dir ++ n :: more = (dir ++ [n]) ++ more := by simp
      have hfits := hstraight.fits
      rw [hcons] at hfits
      have hle := pathOf_length_mono (dir ++ [n]) more
      have hle' := pathOf_length_mono dir [n]
      have hjoin : joinPaths [some (pathOf dir), some n.chars] = .ok (pathOf (dir ++ [n])) := by
        rw [← joined_pathOf_component]
        exact joinPaths_of_fits (by omega) (by rw [joined_pathOf_component]; omega)
      have hrest : pieces '/' rest = more.map (·.chars) := by
        have := hnext.pieces_eq n.isName.1
        rw [hpieces, List.cons.injEq] at this
        exact this.2.symm
      have hfinal : (finality.isFinal = true ↔ more = []) ∧
          (finality.isFinal = true → finality = .finalNormal) := by
        generalize n.chars = component at hnext hpieces
        cases hnext with
        | nothing hnil => simp [hnil] at hpieces
        | last hone =>
            rw [if_neg hlast]
            have hmap : more.map (·.chars) = [] := (List.cons.inj (hpieces.symm.trans hone)).2
            exact ⟨iff_of_true rfl (List.map_eq_nil_iff.mp hmap), fun _ => rfl⟩
        | more _ hne =>
            refine ⟨iff_of_false (by simp [Finality.isFinal]) ?_, by simp [Finality.isFinal]⟩
            rintro rfl
            exact hne hrest
      have hdir : finality.isFinal = false → guestType w (pathOf (dir ++ [n])) = some .dir := by
        intro hnot
        refine hstraight.directory [n] more rfl (by simp) fun hnil => ?_
        rw [hfinal.1.mpr hnil] at hnot
        cases hnot
      obtain ⟨hostPath, hstat⟩ :=
        substituteBindingStat_run hw.quiet hw.bindings (pathOf_tidy (dir ++ [n])) level hdir
      -- the name isn't a link to follow
      have hplain : ¬ (decide (guestType w (pathOf (dir ++ [n])) = some .lnk) = true) ∨
          (finality = .finalNormal ∧ ¬ derefFinal = true) := by
        rw [decide_eq_true_eq]
        cases hend : finality.isFinal with
        | false => exact .inl (by rw [hdir hend]; simp)
        | true =>
            by_cases hderef : derefFinal = true
            · refine .inl ?_
              have := hstraight.last hderef
              rwa [hfinal.1.mp hend] at this
            · exact .inr ⟨hfinal.2 hend, hderef⟩
      simp only [canonicalizeLoop, Comp.bind_run, hread, Comp.lift_ok, if_neg n.notDot,
        if_neg n.notDotDot, hjoin, hstat, if_pos hplain]
      by_cases hend : finality.isFinal = true
      · rw [if_pos hend, hfinal.2 hend, hfinal.1.mp hend]
        rfl
      · rw [if_neg hend, hcons]
        have hmore : more ≠ [] := fun hnil => hend (hfinal.1.mpr hnil)
        refine ih hstraight.tail hrest hmore ?_ (by simp only [List.length_cons] at hfuel; omega)
        generalize n.chars = component at hnext
        cases hnext with
        | nothing => simp [Finality.isFinal] at hend
        | last => split_ifs at hend <;> simp [Finality.isFinal] at hend
        | more _ _ hsame => rwa [hsame]

theorem canonicalize_straight (hw : Walkable w) (hstraight : Straight w derefFinal [] names) :
    canonicalize (pathOf names) derefFinal ['/'] 0 w = (.ok (pathOf names), w) := by
  have hloop : ∀ recurse, canonicalizeLoop recurse derefFinal 0 ((pathOf names).length + 1)
      (pathOf names) ['/'] 0 w = (.ok (.finalNormal, pathOf names), w) := by
    intro recurse
    by_cases hn : names = []
    · subst hn
      have hfinal : Finality.finalNormal.isFinal = false → guestType w (pathOf []) = some .dir := by
        simp [Finality.isFinal]
      obtain ⟨hostPath, hstat⟩ :=
        substituteBindingStat_run hw.quiet hw.bindings (pathOf_tidy []) 0 hfinal
      have hread : nextComponent ['/'] = .ok (.finalNormal, [], []) := rfl
      have hjoin : joinPaths [some ['/'], some []] = .ok ['/'] := rfl
      have hroot : guestType w ['/'] ≠ some .lnk := hw.laws.root
      rw [pathOf_nil] at hstat
      rw [canonicalizeLoop]
      simp [Comp.bind_run, hread, hjoin, hstat, hroot, Finality.isFinal]
    · exact canonicalizeLoop_straight hw hstraight (pieces_pathOf names) hn (pathOf_getLast? hn)
        (Nat.le_succ_of_le (length_le_pathOf names))
  rw [canonicalize, canonicalizeAt]
  simp [pathOf_head?, maxSymlinks, pathMax, Comp.bind_run, hloop, appendFinality]

/-- **The translation of a straight path** is the substitution of its binding. -/
theorem translatePath_straight (hw : Walkable w) (hs : Silent w)
    (hstraight : Straight w derefFinal [] names) {hostPath : CString} {substituted : Bool}
    (hsub : substituteBinding w.tracee.bindings .guest (pathOf names) = .ok (substituted, hostPath)) :
    translatePath .cwd (pathOf names) derefFinal w = (.ok hostPath, w) := by
  have hjoin : joinPaths [some ['/'], some (pathOf names)] = .ok (pathOf names) := by
    have hjoined : joined ['/'] (pathOf names) = pathOf names := by
      obtain ⟨rest, hrest⟩ := List.head?_eq_some_iff.mp (pathOf_head? names)
      simp [joined, hrest]
    conv_rhs => rw [← hjoined]
    exact joinPaths_of_fits (by decide) (by rw [hjoined]; exact hstraight.fits)
  have hbase : basePath w .cwd (pathOf names) = .ok ['/'] := by
    simp [basePath, pathOf_head?]
  have hcanon := canonicalize_straight hw hstraight
  have htranslate : translateCanonical ['/'] (pathOf names) derefFinal w = (.ok hostPath, w) := by
    simp [translateCanonical, Comp.bind_run, hjoin, hcanon, hsub]
  simp [translatePath, Comp.bind_run, hbase, Comp.liftFailure, hs.guestPath,
    translateUnlessAnswered, htranslate, hs.translatedPath]

end Improot.Path
