import Improot.Path.GuestView

/-!
# Canonicalization resolves the guest view

The walk of `canonicalize` over strings is the reference resolver over components.  The loop is
followed by induction on its fuel: at each turn the guest path is canonical, and what remains under
the cursor are the steps that remain to resolve.
-/

namespace Improot.Path

open Lib (pieces IsName Step Route View Resolves KeepsLast PinsLast)

structure Walkable (w : World) : Prop where
  bindings : w.tracee.bindings.WellFormed
  quiet : Quiet w
  laws : HostLaws w

/-- `recurse` resolves links. -/
def RecurseResolves (w : World) (recurse : CString → CString → Nat → Comp CString) : Prop :=
  ∀ target dir level g w', target ≠ [] → 0 < level →
    recurse target (pathOf dir) level w = (.ok g, w') →
    w' = w ∧ ∃ names, g = pathOf names ∧
      Resolves (guestView w) true (wantsDir target) ((routeOf target).start dir)
        (stepsOf target) names

/-! ## The last component -/

variable {cursor rest : CString} {w : World} {derefFinal : Bool} {dir : List Component}

theorem wantsDir_tail {path : CString} {piece : CString}
    (h : pieces '/' path = piece :: pieces '/' rest) (hrest : pieces '/' rest ≠ [])
    (hlast : rest.getLast? = path.getLast?) : wantsDir rest = wantsDir path := by
  rw [wantsDir, wantsDir, endingOf_tail h hrest hlast]

theorem stepsOf_tail {path : CString} {piece : CString}
    (h : pieces '/' path = piece :: pieces '/' rest) :
    stepsOf path = (stepOf piece).toList ++ stepsOf rest := stepsOf_eq h

theorem stepOf_component (n : Component) : stepOf n.chars = some (.name n) := by
  simp [stepOf, n.notDotDot, n.of?_chars]

variable {finality : Finality} {n : Component} {w' : World} {g : CString}

theorem Next.pieces_eq {component : CString}
    (h : Next cursor finality component rest) (hne : component ≠ []) :
    pieces '/' cursor = component :: pieces '/' rest := by
  cases h with
  | nothing h => exact absurd rfl hne
  | last h => rw [h, Lib.pieces_nil]
  | more h => exact h

theorem Next.finalNormal_iff (h : Next cursor finality n.chars rest) :
    finality = .finalNormal ↔ stepsOf rest = [] ∧ wantsDir cursor = false := by
  have hpieces := h.pieces_eq n.isName.1
  generalize hn : n.chars = component at h
  cases h with
  | nothing => exact absurd hn n.isName.1
  | last h =>
      subst hn
      simp only [stepsOf, Lib.pieces_nil, List.filterMap_nil, wantsDir, endingOf, h,
        List.getLast?_singleton, n.notDot, n.notDotDot, if_false, false_or]
      split_ifs <;> simp
  | more h hrest hlast =>
      simp only [reduceCtorEq, false_iff, not_and]
      intro hsteps
      rw [← wantsDir_tail h hrest hlast, wantsDir_of_dots hrest hsteps]
      simp

/-! ## One turn of the loop -/

/-- From `dir`, the cursor leads where the rest of the cursor leads from `next`. -/
def Turn (w : World) (derefFinal : Bool) (cursor : CString) (dir : List Component)
    (rest : CString) (next : List Component) : Prop :=
  ∀ names, Resolves (guestView w) derefFinal (wantsDir cursor) next (stepsOf rest) names →
    Resolves (guestView w) derefFinal (wantsDir cursor) dir (stepsOf cursor) names

def lastFinality (component : CString) (finality : Finality) : Finality :=
  if component = ['.'] then .finalDot
  else if component = ['.', '.'] then .finalSlash
  else finality

/-- How a turn of the loop goes on: it ends the loop, or another turn follows. -/
def GoesOn (w : World) (loop : CString → List Component → Nat → Except Failure (Finality × CString) × World)
    (last : Finality) (component rest : CString) (next : List Component) (finality : Finality)
    (g : CString) (w' : World) : Prop :=
  (last.isFinal = true ∧ w' = w ∧ g = pathOf next ∧ finality = lastFinality component last) ∨
    last.isFinal = false ∧ ∃ symlinksFollowed,
      loop rest next symlinksFollowed = (.ok (finality, g), w')

section Turn

variable {w : World} {derefFinal : Bool} {cursor rest : CString} {dir : List Component}

theorem Turn.dot (h : pieces '/' cursor = ['.'] :: pieces '/' rest) :
    Turn w derefFinal cursor dir rest dir := by
  intro names hres
  rw [stepsOf_tail h]
  exact hres

theorem Turn.dots (h : pieces '/' cursor = ['.', '.'] :: pieces '/' rest) :
    Turn w derefFinal cursor dir rest dir.dropLast := by
  intro names hres
  rw [stepsOf_tail h]
  exact .parent hres

theorem Turn.plain (hnext : Next cursor finality n.chars rest)
    (h : guestType w (pathOf (dir ++ [n])) ≠ some .lnk ∨
      (finality = .finalNormal ∧ derefFinal = false)) :
    Turn w derefFinal cursor dir rest (dir ++ [n]) := by
  intro names hres
  rw [stepsOf_tail (hnext.pieces_eq n.isName.1), stepOf_component]
  refine .plain ?_ hres
  rcases h with h | ⟨hfinal, hderef⟩
  · exact .inl (by simpa [guestView] using h)
  · obtain ⟨hrest, hwants⟩ := hnext.finalNormal_iff.mp hfinal
    exact .inr ⟨hrest, hwants, hderef⟩

theorem Turn.link {contents : CString}
    {mid : List Component} (hnext : Next cursor finality n.chars rest)
    (hlink : guestType w (pathOf (dir ++ [n])) = some .lnk)
    (hfollow : ¬ (finality = .finalNormal ∧ derefFinal = false))
    (hpin : ¬ (finality = .finalNormal ∧ ((guestView w).pinned dir n).isSome))
    (hcontents : linkContents w dir n = some contents)
    (hmid : Resolves (guestView w) true (wantsDir contents) ((routeOf contents).start dir)
      (stepsOf contents) mid) :
    Turn w derefFinal cursor dir rest mid := by
  intro names hres
  rw [stepsOf_tail (hnext.pieces_eq n.isName.1), stepOf_component]
  have htarget : (guestView w).target dir n = some (routeOf contents) := by
    simp [guestView, hcontents]
  refine .link ?_ ?_ ?_ htarget hmid hres
  · simpa [guestView] using hlink
  · rintro ⟨hrest, hwants, hderef⟩
    exact hfollow ⟨hnext.finalNormal_iff.mpr ⟨hrest, hwants⟩, hderef⟩
  · rintro ⟨hrest, hwants, hsome⟩
    exact hpin ⟨hnext.finalNormal_iff.mpr ⟨hrest, hwants⟩, hsome⟩

theorem Turn.pinned {place : List Component} (hnext : Next cursor finality n.chars rest)
    (hlink : guestType w (pathOf (dir ++ [n])) = some .lnk)
    (hfollow : ¬ (finality = .finalNormal ∧ derefFinal = false)) (hfinal : finality = .finalNormal)
    (hpinned : (guestView w).pinned dir n = some place) :
    Turn w derefFinal cursor dir rest place := by
  intro names hres
  obtain ⟨hrest, hwants⟩ := hnext.finalNormal_iff.mp hfinal
  rw [hrest] at hres
  cases hres
  rw [stepsOf_tail (hnext.pieces_eq n.isName.1), stepOf_component, hrest]
  refine .pinned (by simpa [guestView] using hlink) ?_ hwants hpinned
  rintro ⟨-, -, hderef⟩
  exact hfollow ⟨hfinal, hderef⟩

end Turn

/-- **A turn of the loop** is a step of the reference resolver. -/
theorem canonicalizeLoop_turn (hw : Walkable w)
    {recurse : CString → CString → Nat → Comp CString} (hrec : RecurseResolves w recurse)
    {level fuel symlinksFollowed : Nat} (hcursor : pieces '/' cursor ≠ [] ∨ dir = [])
    (h : canonicalizeLoop recurse derefFinal level (fuel + 1) cursor (pathOf dir)
      symlinksFollowed w = (.ok (finality, g), w')) :
    ∃ last component rest next, Next cursor last component rest ∧
      Turn w derefFinal cursor dir rest next ∧
      GoesOn w (fun rest next symlinksFollowed =>
          canonicalizeLoop recurse derefFinal level fuel rest (pathOf next) symlinksFollowed w)
        last component rest next finality g w' := by
  rw [canonicalizeLoop, Comp.lift_bind_eq_ok] at h
  obtain ⟨⟨last, component, rest⟩, hread, h⟩ := h
  have hnext := nextComponent_ok hread
  dsimp only at h
  by_cases hdot : component = ['.']
  · have hpieces := hnext.pieces_eq (by simp [hdot])
    rw [if_pos hdot] at h
    refine ⟨last, component, rest, dir, hnext, .dot (hdot ▸ hpieces), ?_⟩
    by_cases hfinal : last.isFinal = true
    · rw [if_pos hfinal, Comp.pure_eq_ok] at h
      obtain ⟨h, rfl⟩ := h
      cases h
      exact .inl ⟨hfinal, rfl, rfl, by simp [lastFinality, hdot]⟩
    · rw [if_neg hfinal] at h
      exact .inr ⟨by simpa using hfinal, _, h⟩
  rw [if_neg hdot] at h
  by_cases hdots : component = ['.', '.']
  · have hpieces := hnext.pieces_eq (by simp [hdots])
    rw [if_pos hdots] at h
    rw [popComponent_pathOf] at h
    refine ⟨last, component, rest, dir.dropLast, hnext, .dots (hdots ▸ hpieces), ?_⟩
    by_cases hfinal : last.isFinal = true
    · rw [if_pos hfinal, Comp.pure_eq_ok] at h
      obtain ⟨h, rfl⟩ := h
      cases h
      exact .inl ⟨hfinal, rfl, rfl, by simp [lastFinality, hdots]⟩
    · rw [if_neg hfinal] at h
      exact .inr ⟨by simpa using hfinal, _, h⟩
  rw [if_neg hdots] at h
  have hlast : lastFinality component last = last := by simp [lastFinality, hdot, hdots]
  rw [Comp.lift_bind_eq_ok] at h
  obtain ⟨scratch, hscratch, h⟩ := h
  have hscratch := joinPaths_ok hscratch
  rw [Comp.bind_eq_ok] at h
  obtain ⟨⟨isLink, hostPath⟩, w₁, hstat, h⟩ := h
  obtain ⟨hw₁, hlink, substituted, hsub⟩ := substituteBindingStat_ok hw.quiet hstat
  subst w₁
  dsimp only at h
  rcases hnext.nothing_or_component hdot hdots with ⟨hnil, rfl, rfl, rfl⟩ | ⟨n, rfl⟩
  · -- nothing but separators: the directory is "/", which isn't a link
    obtain rfl := hcursor.resolve_left fun h => h hnil
    obtain rfl : scratch = pathOf [] := hscratch
    have hroot : isLink = false := by
      rw [hlink, decide_eq_false_iff_not]
      exact guestType_slash hw.bindings hw.laws rfl
    rw [if_pos (by simp [hroot])] at h
    rw [Comp.lift_bind_eq_ok] at h
    obtain ⟨path, hpath, h⟩ := h
    obtain rfl : path = pathOf [] := joinPaths_ok hpath
    rw [if_pos (by rfl : Finality.finalNormal.isFinal = true), Comp.pure_eq_ok] at h
    obtain ⟨h, rfl⟩ := h
    cases h
    refine ⟨_, _, _, [], hnext, ?_, .inl ⟨rfl, rfl, rfl, rfl⟩⟩
    intro names hres
    rwa [stepsOf, hnil]
  rw [joined_pathOf_component] at hscratch
  subst hscratch
  by_cases hkeep : isLink = false ∨ (last = .finalNormal ∧ derefFinal = false)
  · rw [if_pos (by simpa using hkeep)] at h
    rw [Comp.lift_bind_eq_ok] at h
    obtain ⟨path, hpath, h⟩ := h
    obtain rfl : path = pathOf (dir ++ [n]) := by
      rw [joinPaths_ok hpath, joined_pathOf_component]
    have hturn : Turn w derefFinal cursor dir rest (dir ++ [n]) := by
      refine .plain hnext (hkeep.imp_left fun hno => ?_)
      rwa [hlink, decide_eq_false_iff_not] at hno
    refine ⟨last, n.chars, rest, dir ++ [n], hnext, hturn, ?_⟩
    by_cases hfinal : last.isFinal = true
    · rw [if_pos hfinal, Comp.pure_eq_ok] at h
      obtain ⟨h, rfl⟩ := h
      cases h
      exact .inl ⟨hfinal, rfl, rfl, hlast.symm⟩
    · rw [if_neg hfinal] at h
      exact .inr ⟨by simpa using hfinal, _, h⟩
  obtain ⟨hislink, hfollow⟩ := not_or.mp hkeep
  rw [Bool.not_eq_false, hlink, decide_eq_true_eq] at hislink
  rw [if_neg (by simpa using hkeep), Comp.get_bind] at h
  rw [Comp.liftFailure_bind_eq_ok] at h
  obtain ⟨referee, href, h⟩ := h
  rcases dereference_ok hw.bindings hw.laws.links hsub href with
    ⟨place, rfl, hfinal, hpinned⟩ | ⟨contents, rfl, hcontents, hpin⟩
  · rw [Comp.pure_eq_ok] at h
    obtain ⟨h, rfl⟩ := h
    cases h
    refine ⟨_, _, rest, place, hnext, .pinned hnext hislink hfollow hfinal hpinned, .inl ?_⟩
    exact ⟨by simp [hfinal, Finality.isFinal], rfl, rfl, hlast.symm⟩
  · rw [Comp.bind_eq_ok] at h
    obtain ⟨g₁, w₁, hcanon, h⟩ := h
    have hne := linkContents_ne_nil hw.bindings hw.laws.links hcontents
    obtain ⟨hw₁, mid, hg₁, hmid⟩ := hrec contents dir _ g₁ w₁ hne (by omega) hcanon
    subst hg₁
    subst w₁
    rw [Comp.bind_eq_ok] at h
    obtain ⟨⟨isLink', hostPath'⟩, w₁, hstat', h⟩ := h
    obtain ⟨hw₁, -, -⟩ := substituteBindingStat_ok hw.quiet hstat'
    subst w₁
    dsimp only at h
    refine ⟨last, n.chars, rest, mid, hnext,
      .link hnext hislink hfollow hpin hcontents hmid, ?_⟩
    split at h
    · cases h
    by_cases hfinal : last.isFinal = true
    · rw [if_pos hfinal, Comp.pure_eq_ok] at h
      obtain ⟨h, rfl⟩ := h
      cases h
      exact .inl ⟨hfinal, rfl, rfl, hlast.symm⟩
    · rw [if_neg hfinal] at h
      exact .inr ⟨by simpa using hfinal, _, h⟩

theorem endingOf_last {component : CString} (h : pieces '/' cursor = [component]) :
    endingOf cursor =
      if component = ['.'] then .finalDot
      else if component = ['.', '.'] ∨ cursor.getLast? = some '/' then .finalSlash
      else .finalNormal := by
  rw [endingOf, h]
  rfl

theorem Turn.ending {component : CString}
    {next : List Component} {last : Finality} (hcursor : pieces '/' cursor ≠ [] ∨ dir = [])
    (hnext : Next cursor last component rest) (hturn : Turn w derefFinal cursor dir rest next)
    (hfinal : last.isFinal = true) :
    withEnding next (lastFinality component last) = withEnding next (endingOf cursor) ∧
      Resolves (guestView w) derefFinal (wantsDir cursor) dir (stepsOf cursor) next := by
  cases hnext with
  | nothing h =>
      have hres := hturn next (by simpa [stepsOf] using .done)
      obtain rfl := hcursor.resolve_left fun hne => hne h
      refine ⟨?_, hres⟩
      rw [stepsOf, h, List.filterMap_nil] at hres
      cases hres
      rw [endingOf, h]
      rfl
  | last h =>
      refine ⟨?_, hturn next (by simpa [stepsOf] using .done)⟩
      rw [endingOf_last h, lastFinality]
      split_ifs <;> simp_all
  | more h hrest hlast => simp [Finality.isFinal] at hfinal

theorem canonicalizeLoop_resolves (hw : Walkable w)
    {recurse : CString → CString → Nat → Comp CString} (hrec : RecurseResolves w recurse)
    {level fuel symlinksFollowed : Nat} (hcursor : pieces '/' cursor ≠ [] ∨ dir = [])
    (h : canonicalizeLoop recurse derefFinal level fuel cursor (pathOf dir) symlinksFollowed w =
      (.ok (finality, g), w')) :
    w' = w ∧ ∃ names, g = pathOf names ∧
      withEnding names finality = withEnding names (endingOf cursor) ∧
      Resolves (guestView w) derefFinal (wantsDir cursor) dir (stepsOf cursor) names := by
  induction fuel generalizing cursor dir symlinksFollowed with
  | zero => simp [canonicalizeLoop] at h
  | succ fuel ih =>
      obtain ⟨last, component, rest, next, hnext, hturn, hgoes⟩ :=
        canonicalizeLoop_turn hw hrec hcursor h
      rcases hgoes with ⟨hfinal, rfl, rfl, rfl⟩ | ⟨hfinal, sf, hloop⟩
      · obtain ⟨hending, hres⟩ := hturn.ending hcursor hnext hfinal
        exact ⟨rfl, next, rfl, hending, hres⟩
      · cases hnext with
        | nothing => simp [Finality.isFinal] at hfinal
        | last => split_ifs at hfinal <;> simp [Finality.isFinal] at hfinal
        | more hpieces hrest hlast =>
            obtain ⟨hw', names, hg, hending, hres⟩ := ih (.inl hrest) hloop
            rw [wantsDir_tail hpieces hrest hlast] at hres
            rw [endingOf_tail hpieces hrest hlast] at hending
            exact ⟨hw', names, hg, hending, hturn names hres⟩

/-! ## The recursion -/

theorem canonicalizeAt_ok {budget level : Nat} {userPath base : CString}
        (hbase : userPath.head? = some '/' ∨ base = pathOf dir)
    (h : canonicalizeAt (budget + 1) userPath derefFinal base level w = (.ok g, w')) :
    ∃ finality path,
      canonicalizeLoop (fun target base => canonicalizeAt budget target true base) derefFinal level
        (userPath.length + 1) userPath (pathOf ((routeOf userPath).start dir)) 0 w =
          (.ok (finality, path), w') ∧
      appendFinality level finality path = .ok g := by
  rw [canonicalizeAt] at h
  simp only [start_pathOf hbase] at h
  split_ifs at h
  · simp at h
  · simp at h
  · simp at h
  · rw [Comp.bind_eq_ok] at h
    obtain ⟨⟨finality, path⟩, w₁, hloop, h⟩ := h
    obtain ⟨happend, rfl⟩ := Comp.lift_eq_ok.mp h
    exact ⟨finality, path, hloop, happend⟩

theorem canonicalizeAt_resolves {w : World} (hw : Walkable w) (budget : Nat)
    {userPath base g : CString} {derefFinal : Bool} {dir : List Component} {level : Nat}
    {w' : World} (hne : userPath ≠ [])
    (hbase : userPath.head? = some '/' ∨ base = pathOf dir)
    (h : canonicalizeAt budget userPath derefFinal base level w = (.ok g, w')) :
    w' = w ∧ ∃ names,
      g = (if level = 0 then withEnding names (endingOf userPath) else pathOf names) ∧
      Resolves (guestView w) derefFinal (wantsDir userPath) ((routeOf userPath).start dir)
        (stepsOf userPath) names := by
  induction budget generalizing userPath base g derefFinal dir level w' with
  | zero => simp [canonicalizeAt] at h
  | succ budget ih =>
      have hrec : RecurseResolves w fun target base => canonicalizeAt budget target true base := by
        intro target dir level g w' htarget hlevel hrun
        obtain ⟨hw', names, hg, hres⟩ := ih htarget (.inr rfl) hrun
        rw [if_neg (by omega)] at hg
        exact ⟨hw', names, hg, hres⟩
      obtain ⟨finality, path, hloop, happend⟩ := canonicalizeAt_ok hbase h
      obtain ⟨hw', names, rfl, hending, hres⟩ :=
        canonicalizeLoop_resolves hw hrec (pieces_or_start hne dir) hloop
      refine ⟨hw', names, ?_, hres⟩
      rw [appendFinality_ok happend, hending]

theorem canonicalize_empty (hw : Walkable w)
    (h : canonicalize [] derefFinal (pathOf dir) 0 w = (.ok g, w')) :
    w' = w ∧ g = withEnding dir .finalSlash := by
  have hjoin : ∀ path, joinPaths [some (pathOf dir), some []] = .ok path →
      path = withEnding dir .finalSlash := by
    intro path hpath
    rw [joinPaths_ok hpath, joined_pathOf (by simp)]
    rfl
  have hlast : (withEnding dir .finalSlash).getLast? = some '/' := by
    unfold withEnding
    split_ifs <;> simp
  obtain ⟨finality, path, hloop, happend⟩ := canonicalizeAt_ok (.inr rfl) h
  rw [canonicalizeLoop, Comp.lift_bind_eq_ok] at hloop
  obtain ⟨next, hnext, hloop⟩ := hloop
  obtain rfl : (.finalNormal, [], []) = next := Except.ok.inj hnext
  dsimp only at hloop
  rw [if_neg (by decide), if_neg (by decide), Comp.lift_bind_eq_ok] at hloop
  obtain ⟨scratch, hscratch, hloop⟩ := hloop
  rw [Comp.bind_eq_ok] at hloop
  obtain ⟨⟨isLink, hostPath⟩, w₁, hstat, hloop⟩ := hloop
  obtain ⟨hw₁, hlink, -⟩ := substituteBindingStat_ok hw.quiet hstat
  subst w₁
  -- a name that a separator follows isn't a link
  have hno : isLink = false := by
    rw [hlink, decide_eq_false_iff_not, hjoin _ hscratch]
    exact guestType_slash hw.bindings hw.laws hlast
  dsimp only at hloop
  rw [if_pos (by simp [hno]), Comp.lift_bind_eq_ok] at hloop
  obtain ⟨path', hpath', hloop⟩ := hloop
  rw [if_pos (by rfl : Finality.finalNormal.isFinal = true), Comp.pure_eq_ok] at hloop
  obtain ⟨hloop, rfl⟩ := hloop
  cases hloop
  refine ⟨rfl, ?_⟩
  rw [← hjoin _ hpath']
  exact (Except.ok.inj happend).symm

/-! ## The whole function -/

theorem canonicalize_finds (hw : Walkable w) {userPath base : CString}
    (hbase : userPath.head? = some '/' ∨ Canonical base)
    (h : canonicalize userPath derefFinal base 0 w = (.ok g, w')) :
    w' = w ∧ ∃ names, g = withEnding names (endingOf userPath) ∧
      Resolves (guestView w) derefFinal (wantsDir userPath)
        ((routeOf userPath).start (namesOf base)) (stepsOf userPath) names := by
  have hdir : userPath.head? = some '/' ∨ base = pathOf (namesOf base) := by
    refine hbase.imp_right ?_
    rintro ⟨names, rfl⟩
    rw [namesOf_pathOf]
  by_cases hne : userPath = []
  · subst hne
    rw [hdir.resolve_left (by simp)] at h
    obtain ⟨hw', hg⟩ := canonicalize_empty hw h
    exact ⟨hw', _, hg, .done⟩
  · obtain ⟨hw', names, hg, hres⟩ := canonicalizeAt_resolves hw _ hne hdir h
    exact ⟨hw', names, by simpa using hg, hres⟩

/-- **Canonicalization is resolution.** When `canonicalize` succeeds on a path that is absolute, or
relative to a canonical base, its result is the place that the reference resolver finds in the
guest view, with the ending that remembers the finality of the path. -/
theorem canonicalize_resolves {w w' : World} (hw : Walkable w) {userPath base g : CString}
    {derefFinal : Bool} (hbase : userPath.head? = some '/' ∨ Canonical base)
    (h : canonicalize userPath derefFinal base 0 w = (.ok g, w')) :
    w' = w ∧ ∃ names, g = withEnding names (endingOf userPath) ∧
      ∀ place, Resolves (guestView w) derefFinal (wantsDir userPath)
        ((routeOf userPath).start (namesOf base)) (stepsOf userPath) place ↔ place = names := by
  obtain ⟨hw', names, hg, hres⟩ := canonicalize_finds hw hbase h
  refine ⟨hw', names, hg, fun place => ⟨fun hplace => hplace.functional hres, ?_⟩⟩
  rintro rfl
  exact hres

/-! ## Two paths the resolver reads otherwise -/

def rootfs : CString := ['/', 'r', 'o', 'o', 't', 'f', 's']

def fdPath : CString := ['/', 'p', 'r', 'o', 'c', '/', '1', '/', 'f', 'd', '/', '3']

/-- A world with the root file system "/rootfs", where the files are directories, apart from the
descriptor 3 of the process 1, which stands for "/rootfs/x". -/
def fdWorld : World where
  tracee := ⟨1, ⟨[], [⟨0, rootfs, ['/'], true⟩], [⟨0, rootfs, ['/'], true⟩], 1⟩, ['/'], none, none,
    []⟩
  host := ⟨fun path => if path = rootfs ++ fdPath then .ok .lnk else .ok .dir,
    fun _ => .ok (rootfs ++ ['/', 'x']), fun _ => .error .enoent, fun _ => false,
    fun _ _ => .error .eacces, none, false, fun _ => none⟩

theorem fdWorld_walkable : Walkable fdWorld where
  bindings := by
    have hb : Binding.WellFormed ⟨0, rootfs, ['/'], true⟩ :=
      ⟨by decide, by decide, by decide⟩
    exact ⟨by simpa [fdWorld] using hb, by simpa [fdWorld] using hb, _, rfl, rfl⟩
  quiet := ⟨rfl, fun _ _ => rfl⟩
  laws := by
    refine ⟨⟨fun _ => by simp [fdWorld, rootfs], nofun⟩, fun path hlast h => ?_, by decide⟩
    simp only [fdWorld] at h
    split_ifs at h with hpath
    · rw [hpath] at hlast
      exact absurd hlast (by decide)
    · cases h

/-- From "/a", the path "x/../y/" leads to "/a/y", and asks for a directory. -/
theorem canonicalize_resolves_relative : ∃ names, ['/', 'a', '/', 'y', '/'] =
        withEnding names (endingOf ['x', '/', '.', '.', '/', 'y', '/']) ∧
      ∀ place, Resolves (guestView fdWorld) true (wantsDir ['x', '/', '.', '.', '/', 'y', '/'])
        ((routeOf ['x', '/', '.', '.', '/', 'y', '/']).start (namesOf ['/', 'a']))
        (stepsOf ['x', '/', '.', '.', '/', 'y', '/']) place ↔ place = names :=
  have hrun : canonicalize ['x', '/', '.', '.', '/', 'y', '/'] true ['/', 'a'] 0 fdWorld =
      (.ok ['/', 'a', '/', 'y', '/'], fdWorld) := rfl
  (canonicalize_resolves fdWorld_walkable (.inr (by decide)) hrun).2

/-- A base with ".." is kept as it is, and the link of a descriptor is not replaced although the
final link is to be followed: without pinned links, the resolver goes on to "/x". -/
theorem canonicalize_not_resolves :
    (canonicalize ['x'] true ['/', 'a', '/', '.', '.'] 0 fdWorld).1 =
        .ok ['/', 'a', '/', '.', '.', '/', 'x'] ∧
      ['.', '.'] ∈ pieces '/' ['/', 'a', '/', '.', '.', '/', 'x'] ∧
      (canonicalize fdPath true ['/'] 0 fdWorld).1 = .ok fdPath ∧
      Resolves { guestView fdWorld with pinned := fun _ _ => none } true (wantsDir fdPath) []
        (stepsOf fdPath) (namesOf ['/', 'x']) ∧
      fdPath ≠ withEnding (namesOf ['/', 'x']) (endingOf fdPath) := by
  refine ⟨rfl, by decide, rfl, ?_, by decide⟩
  have hsteps : stepsOf fdPath = (procFdNames 1 ++ namesOf ['3']).map .name := by decide
  rw [hsteps]
  refine .plain (.inl (by decide)) (.plain (.inl (by decide)) (.plain (.inl (by decide)) ?_))
  have hmid : Resolves { guestView fdWorld with pinned := fun _ _ => none } true false []
      (stepsOf ['/', 'x']) (namesOf ['/', 'x']) := .plain (.inl (by decide)) .done
  exact .link (by decide) (fun h => by simp [KeepsLast] at h) (fun h => by simp [PinsLast] at h)
    rfl hmid .done

end Improot.Path
