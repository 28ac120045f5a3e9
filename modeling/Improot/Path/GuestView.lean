import Improot.Path.Ending
import Improot.Path.Walk

/-!
# The guest view of the file system

What a resolver that knows nothing of bindings sees of the host: the type of the file behind a guest
path, and what a link stands for once `readlink_proc` has emulated it, or `detranslate_path` has
brought its target back to the guest.
-/

namespace Improot.Path

open Lib (pieces IsName Step Route View)

/-! ## Routes -/

/-- The step a piece of a path stands for; "." is none. -/
def stepOf (piece : CString) : Option (Step Component) :=
  if piece = ['.', '.'] then some .parent else (Component.of? piece).map .name

def stepsOf (path : CString) : List (Step Component) := (pieces '/' path).filterMap stepOf

/-- How a path ends.  Without component, it asks for the directory it starts from. -/
def endingOf (path : CString) : Finality :=
  match (pieces '/' path).getLast? with
  | none => .finalSlash
  | some piece =>
    if piece = ['.'] then .finalDot
    else if piece = ['.', '.'] ∨ path.getLast? = some '/' then .finalSlash
    else .finalNormal

def wantsDir (path : CString) : Bool := endingOf path ≠ .finalNormal

def routeOf (path : CString) : Route Component :=
  ⟨path.head? = some '/', stepsOf path, wantsDir path⟩

variable {component hostPath path result : CString} {w : World} {finality : Finality}
  {dir : List Component}

theorem stepsOf_eq {piece : CString} {rest : List CString} (h : pieces '/' path = piece :: rest) :
    stepsOf path = (stepOf piece).toList ++ rest.filterMap stepOf := by
  rw [stepsOf, h, List.filterMap_cons]
  cases stepOf piece <;> rfl

theorem endingOf_tail {rest : CString} {piece : CString}
    (h : pieces '/' path = piece :: pieces '/' rest) (hrest : pieces '/' rest ≠ [])
    (hlast : rest.getLast? = path.getLast?) : endingOf rest = endingOf path := by
  rw [endingOf, endingOf, h, List.getLast?_cons, hlast]
  obtain ⟨last, hl⟩ : ∃ last, (pieces '/' rest).getLast? = some last := by
    rwa [← Option.isSome_iff_exists, List.getLast?_isSome]
  rw [hl, Option.getD_some]

theorem wantsDir_of_dots (hne : pieces '/' path ≠ []) (h : stepsOf path = []) :
    wantsDir path = true := by
  obtain ⟨last, hl⟩ : ∃ last, (pieces '/' path).getLast? = some last := by
    rwa [← Option.isSome_iff_exists, List.getLast?_isSome]
  have hmem := List.mem_of_getLast? hl
  have hname := Lib.isName_of_mem_pieces hmem
  have hstep : stepOf last = none := by
    have := List.filterMap_eq_nil_iff.mp h
    exact this last hmem
  rw [wantsDir, endingOf, hl]
  by_cases hdot : last = ['.']
  · simp [hdot]
  · by_cases hdots : last = ['.', '.']
    · simp [stepOf, hdots] at hstep
    · simp [stepOf, Component.of?, hname, hdot, hdots] at hstep

/-! ## The view -/

def guestType (w : World) (path : CString) : Option FileType :=
  match substituteBinding w.tracee.bindings .guest path with
  | .ok (_, hostPath) => (hostStat w.host hostPath).toOption
  | .error _ => none

/-- The emulation of the link `n` of a directory. -/
def emulatedLink (w : World) (dir : List Component) (n : Component) : Except Errno Action :=
  readlinkProc w (procBase w (pathOf dir)).1 n.chars (procBase w (pathOf dir)).2

/-- The contents of the link `n` of a directory, as the guest sees them. -/
def linkContents (w : World) (dir : List Component) (n : Component) : Option CString :=
  match emulatedLink w dir n with
  | .error _ => none
  | .ok (.canonicalize result) => some result
  | .ok _ =>
    match substituteBinding w.tracee.bindings .guest (pathOf (dir ++ [n])) with
    | .ok (_, hostPath) => (readlinkHost w hostPath).toOption
    | .error _ => none

/-- The guest view: the file types and the contents of links behind the bindings; the descriptors
of "/proc/<pid>/fd" are pinned. -/
def guestView (w : World) : View Component where
  isLink names := guestType w (pathOf names) = some .lnk
  target dir n := (linkContents w dir n).map routeOf
  pinned dir n :=
    match emulatedLink w dir n with
    | .ok (.dontCanonicalize result) => some (namesOf result)
    | _ => none

/-- Looking up a path leaves the world as it is: no binding is being initialized, and no extension
rewrites host paths. -/
structure Quiet (w : World) : Prop where
  glue : w.tracee.glueType = none
  hostPath : ∀ isFinal path, notifyHostPath w isFinal path = .ok path

/-- Links aren't empty, neither those of the host nor those that are made up for a process. -/
structure LinkLaws (h : Host) : Prop where
  readlink : ∀ path, h.readlink path ≠ .ok []
  known : ∀ pid k, h.getTracee pid = some k → k.exe ≠ [] ∧ k.cwd ≠ [] ∧ k.root ≠ []

/-- What the kernel promises besides: it follows a link that a separator comes after; and the root
file system isn't a link, since its path was made by `realpath(3)`. -/
structure HostLaws (w : World) : Prop where
  links : LinkLaws w.host
  slash : ∀ path, path.getLast? = some '/' → w.host.lstat path ≠ .ok .lnk
  root : guestType w ['/'] ≠ some .lnk

/-! ## Looking up -/

theorem substituteBindingStat_ok {w' : World} (hq : Quiet w) {level : Nat} {isLink : Bool}
    (h : substituteBindingStat finality level path w = (.ok (isLink, hostPath), w')) :
    w' = w ∧ isLink = decide (guestType w path = some .lnk) ∧
      ∃ substituted, substituteBinding w.tracee.bindings .guest path =
        .ok (substituted, hostPath) := by
  simp only [substituteBindingStat, Comp.bind_eq_ok, Comp.get_run, Prod.mk.injEq, Except.ok.injEq,
    Comp.lift_eq_ok, Comp.pure_eq_ok, Prod.exists] at h
  obtain ⟨v, w₀, ⟨hv, hw₀⟩, substituted, substitute, w₁, ⟨hsub, hw₁⟩, host, w₂, ⟨hnotify, hw₂⟩,
    type, w₃, hstat, link, w₄, ⟨hcheck, hw₄⟩, ⟨hlink, hhost⟩, hw'⟩ := h
  subst hv hw₀ hw₁ hw₂ hw₄ hlink hhost hw'
  rw [hq.hostPath, Except.ok.injEq] at hnotify
  subst hnotify
  have htype : w' = w₂ ∧ type = guestType w₂ path := by
    simp only [statOrGlue, hq.glue, guestType, hsub] at hstat ⊢
    cases hhost : hostStat w₂.host substitute with
    | error | ok =>
        simp only [hhost, Prod.mk.injEq, Except.ok.injEq] at hstat
        exact ⟨hstat.2.symm, hstat.1.symm⟩
  obtain ⟨rfl, htype⟩ := htype
  refine ⟨rfl, ?_, substituted, hsub⟩
  rw [← htype]
  cases type with
  | none | some =>
      rw [checkType] at hcheck
      split_ifs at hcheck
      simpa using (Except.ok.inj hcheck).symm

theorem hostStat_slash (hl : HostLaws w)
    (hlast : path.getLast? = some '/') : hostStat w.host path ≠ .ok .lnk := by
  have hne : path ≠ linkerconfig := by
    rintro rfl
    exact absurd hlast (by decide)
  have := hl.slash path hlast
  unfold hostStat
  split_ifs with hskip
  · simp
  · cases hstat : w.host.lstat path with
    | ok t =>
        rw [hstat] at this
        simpa using this
    | error e => cases e <;> simp_all

theorem guestType_slash (hwf : w.tracee.bindings.WellFormed) (hl : HostLaws w)
    (hlast : path.getLast? = some '/') : guestType w path ≠ some .lnk := by
  by_cases hroot : path = ['/']
  · exact hroot ▸ hl.root
  · unfold guestType
    cases hsub : substituteBinding w.tracee.bindings .guest path with
    | error e => simp
    | ok r =>
        have := hostStat_slash hl (substituteBinding_slash hwf hlast hroot hsub)
        cases hstat : hostStat w.host r.2 with
        | error e => simp [hstat, Except.toOption]
        | ok t =>
            rw [hstat] at this
            simpa [hstat, Except.toOption] using this

/-! ## Links have contents -/

theorem removeRoot_ne_nil {t : Bindings} (hwf : t.WellFormed) {sanityCheck : Bool}
    {n : Nat} (hpath : path ≠ [])
    (h : removeRoot t sanityCheck path = .ok (n, result)) : result ≠ [] := by
  have hroot := getRoot_tidy hwf
  unfold removeRoot at h
  cases hcmp : comparePaths (getRoot t) path with
  | pathsAreEqual =>
      simp only [hcmp, Except.ok.injEq, Prod.mk.injEq] at h
      rw [← h.2]
      simp
  | path1IsPrefix =>
      simp only [hcmp, Except.ok.injEq, Prod.mk.injEq] at h
      rw [← h.2]
      have hbelow := (comparePaths_eq_path1IsPrefix hroot.ne_nil hpath).mp hcmp
      have hlt := hbelow.length_lt
      have hle := stem_length_le path
      split_ifs with hone
      · simpa using hpath
      · rw [hroot.stem_of_ne fun h => hone (by rw [h]; rfl)] at hlt
        intro hnil
        have := List.drop_eq_nil_iff.mp hnil
        omega
  | path2IsPrefix | pathsAreNotComparable =>
      cases sanityCheck with
      | true => simp [hcmp] at h
      | false =>
          simp only [hcmp, Bool.false_eq_true, if_false, Except.ok.injEq, Prod.mk.injEq] at h
          exact h.2 ▸ hpath

theorem readlinkProc2_ne_nil {referer : CString}
    (h : readlinkProc2 w referer = .ok (some result)) : result ≠ [] := by
  simp only [readlinkProc2] at h
  split at h
  · cases h
  · split at h
    · cases h
    · split at h
      · split_ifs at h with hlen
        · cases h
        · obtain rfl := Option.some.inj (Except.ok.inj h)
          exact fun hnil => hlen (List.length_eq_zero_iff.mpr hnil)
      · cases h

theorem detranslatePath_ne_nil (hwf : w.tracee.bindings.WellFormed)
    {referrer : Option CString} {n : Nat} (hpath : path ≠ [])
    (h : detranslatePath w path referrer = .ok (n, result)) : result ≠ [] := by
  obtain ⟨-, ⟨-, rfl⟩ | ⟨-, r, -, hlink⟩ | ⟨sanityCheck, followBinding, h⟩⟩ := detranslatePath_cases h
  · exact hpath
  · exact readlinkProc2_ne_nil hlink
  · unfold detranslated at h
    split at h
    · split at h
      · rename_i hs
        cases h
        exact substituteBinding_ne_nil hwf hpath hs
      · rename_i hs
        cases h
        exact substituteBinding_ne_nil hwf hpath hs
      · exact removeRoot_ne_nil hwf hpath h
    · exact removeRoot_ne_nil hwf hpath h

theorem readlinkHost_ne_nil (hwf : w.tracee.bindings.WellFormed) (hl : LinkLaws w.host)
    (h : readlinkHost w hostPath = .ok result) : result ≠ [] := by
  unfold readlinkHost at h
  split at h
  · cases h
  · rename_i target htarget
    split at h
    · cases h
    · cases hd : detranslatePath w target (some hostPath) with
      | error e => simp [hd, Except.map] at h
      | ok r =>
          have hne : target ≠ [] := fun hnil => hl.readlink hostPath (hnil ▸ htarget)
          obtain rfl : r.2 = result := by simpa [hd, Except.map] using h
          exact detranslatePath_ne_nil hwf hne hd

theorem fitting_ok {action : CString → Action} {a : Action}
    (h : fitting action result = .ok a) : a = action result := by
  unfold fitting at h
  split at h
  · cases h
  · exact (Except.ok.inj h).symm

/-- What `readlink_proc` emulates: a link that has contents, or a descriptor of
"/proc/<pid>/fd". -/
theorem readlinkProc_ok (hl : LinkLaws w.host) {base : CString}
    {comparison : Comparison} {a : Action} (h : readlinkProc w base component comparison = .ok a) :
    a = .default ∨ (∃ result, a = .canonicalize result ∧ result ≠ []) ∨
      ∃ pid, a = .dontCanonicalize (normalizeProcBase w.tracee.pid base ++ '/' :: component) ∧
        strtolSucceeds component = true ∧
        comparePaths (procPidDir pid ++ ['/', 'f', 'd']) (normalizeProcBase w.tracee.pid base) =
          .pathsAreEqual := by
  simp only [readlinkProc] at h
  split at h
  · split_ifs at h
    · exact .inl (Except.ok.inj h).symm
    · exact .inr (.inl ⟨_, fitting_ok h, by simp [procPidDir, procDir]⟩)
  · split at h
    · cases h
    · split at h
      · exact .inl (Except.ok.inj h).symm
      split at h
      · split at h
        · exact .inl (Except.ok.inj h).symm
        · rename_i known hknown
          obtain ⟨hexe, hcwd, hroot⟩ := hl.known _ _ hknown
          split_ifs at h
          · exact .inr (.inl ⟨_, fitting_ok h, hexe⟩)
          · exact .inr (.inl ⟨_, fitting_ok h, hcwd⟩)
          · exact .inr (.inl ⟨_, fitting_ok h, hroot⟩)
          · exact .inl (Except.ok.inj h).symm
      · split at h
        · rename_i hcmp
          split_ifs at h with hnumber
          exact .inr (.inr ⟨_, fitting_ok h, hnumber, hcmp⟩)
        · exact .inl (Except.ok.inj h).symm
      · exact .inl (Except.ok.inj h).symm
  · exact .inl (Except.ok.inj h).symm

theorem linkContents_ne_nil (hwf : w.tracee.bindings.WellFormed) (hl : LinkLaws w.host)
    {n : Component} {contents : CString}
    (h : linkContents w dir n = some contents) : contents ≠ [] := by
  unfold linkContents at h
  split at h
  · cases h
  · rename_i result hemu
    cases h
    rcases readlinkProc_ok hl hemu with h | ⟨result', h, hne⟩ | ⟨pid, h, -⟩
    · cases h
    · cases h
      exact hne
    · cases h
  · split at h
    · rename_i hostPath _
      cases hread : readlinkHost w hostPath with
      | error e => simp [hread, Except.toOption] at h
      | ok r =>
          obtain rfl : r = contents := by simpa [hread, Except.toOption] using h
          exact readlinkHost_ne_nil hwf hl hread
    · cases h

/-! ## Named descriptors are canonical -/

theorem formatInt_isName (pid : Int) : IsName '/' (formatInt pid) := by
  have hdigits : '/' ∉ Nat.toDigits 10 pid.natAbs := by
    intro h
    have := Nat.isDigit_of_mem_toDigits (by decide) (by decide) h
    exact absurd this (by decide)
  unfold formatInt
  split_ifs
  · exact ⟨by simp, by simpa using hdigits⟩
  · exact ⟨Nat.toDigits_ne_nil, hdigits⟩

theorem formatInt_notDot (pid : Int) : '.' ∉ formatInt pid := by
  have hdigits : '.' ∉ Nat.toDigits 10 pid.natAbs := by
    intro h
    have := Nat.isDigit_of_mem_toDigits (by decide) (by decide) h
    exact absurd this (by decide)
  unfold formatInt
  split_ifs
  · simpa using hdigits
  · exact hdigits

def procPidNames (pid : Int) : List Component :=
  [⟨['p', 'r', 'o', 'c'], by decide, by decide, by decide⟩,
    ⟨formatInt pid, formatInt_isName pid,
      fun h => formatInt_notDot pid (h ▸ List.mem_cons_self),
      fun h => formatInt_notDot pid (h ▸ List.mem_cons_self)⟩]

theorem procPidNames_ne_nil (pid : Int) : procPidNames pid ≠ [] := List.cons_ne_nil _ _

theorem pathOf_procPidNames (pid : Int) : pathOf (procPidNames pid) = procPidDir pid := by
  simp [pathOf, procPidNames, Lib.render, procPidDir, procDir]

def procFdNames (pid : Int) : List Component :=
  procPidNames pid ++ [⟨['f', 'd'], by decide, by decide, by decide⟩]

theorem pathOf_procFdNames (pid : Int) :
    pathOf (procFdNames pid) = procPidDir pid ++ ['/', 'f', 'd'] := by
  rw [procFdNames, pathOf_concat (procPidNames_ne_nil pid), pathOf_procPidNames]

theorem procBase_tidy (hwf : w.tracee.bindings.WellFormed)
    (hpath : Tidy path) : Tidy (procBase w path).1 := by
  simp only [procBase]
  split_ifs
  · split
    · rename_i hsub
      split_ifs
      · exact substituteBinding_tidy hwf hpath hsub
      · exact hpath
    · exact hpath
  · exact hpath

theorem procPidDir_tidy (pid : Int) : Tidy (procPidDir pid) := by
  rw [← pathOf_procPidNames]
  exact pathOf_tidy _

theorem normalizeProcBase_tidy (pid : Nat) {base : CString} (hbase : Tidy base) :
    Tidy (normalizeProcBase pid base) := by
  unfold normalizeProcBase
  split_ifs
  · refine (procPidDir_tidy pid).append ?_ (by simp [procPidDir, procDir])
    by_cases hnil : base.drop 10 = []
    · exact .inl hnil
    · refine .inr ?_
      have happ := List.take_append_drop 10 base
      have hlast : (base.drop 10).getLast? = base.getLast? := by
        conv_rhs => rw [← happ]
        rw [List.getLast?_append_of_ne_nil _ hnil]
      rw [hlast]
      refine hbase.chopped.resolve_left ?_
      rintro rfl
      exact hnil rfl
  · exact hbase

theorem readlinkProc_pinned (hwf : w.tracee.bindings.WellFormed)
    (hl : LinkLaws w.host) (hpath : Tidy path)
    (hcomponent : component = [] ∨ ∃ n : Component, component = n.chars)
    (h : readlinkProc w (procBase w path).1 component (procBase w path).2 =
      .ok (.dontCanonicalize result)) : Canonical result := by
  have hbase := normalizeProcBase_tidy w.tracee.pid (procBase_tidy hwf hpath)
  rcases readlinkProc_ok hl h with h | ⟨_, h, -⟩ | ⟨pid, h, hnumber, hcmp⟩
  · cases h
  · cases h
  · cases h
    rw [← pathOf_procFdNames] at hcmp
    have hfd := ((pathOf_tidy _).comparePaths_eq_pathsAreEqual hbase).mp hcmp
    rcases hcomponent with rfl | ⟨n, rfl⟩
    · simp [strtolSucceeds, scanInt] at hnumber
    · have hne : procFdNames pid ≠ [] := List.cons_ne_nil _ _
      rw [← hfd, ← pathOf_concat hne]
      exact ⟨_, rfl⟩

theorem emulatedLink_pinned (hwf : w.tracee.bindings.WellFormed)
    (hl : LinkLaws w.host) {n : Component}
    (h : emulatedLink w dir n = .ok (.dontCanonicalize result)) :
    result = pathOf (namesOf result) := by
  obtain ⟨names, rfl⟩ := readlinkProc_pinned hwf hl (pathOf_tidy dir) (.inr ⟨n, rfl⟩) h
  rw [namesOf_pathOf]

/-! ## Dereferencing -/

theorem dereference_ok (hwf : w.tracee.bindings.WellFormed) (hl : LinkLaws w.host) {n : Component}
    {substituted : Bool} {referee : Referee}
    (hsub : substituteBinding w.tracee.bindings .guest (pathOf (dir ++ [n])) =
      .ok (substituted, hostPath))
    (h : dereference w finality (pathOf dir) n.chars hostPath = .ok referee) :
    (∃ names, referee = .pinned (pathOf names) ∧ finality = .finalNormal ∧
        (guestView w).pinned dir n = some names) ∨
      ∃ contents, referee = .path contents ∧ linkContents w dir n = some contents ∧
        ¬ (finality = .finalNormal ∧ ((guestView w).pinned dir n).isSome) := by
  have hemu : emulatedLink w dir n =
      readlinkProc w (procBase w (pathOf dir)).1 n.chars (procBase w (pathOf dir)).2 := rfl
  have hread : ∀ referee, (readlinkHost w hostPath).map Referee.path = .ok referee →
      ∃ contents, referee = .path contents ∧ (readlinkHost w hostPath).toOption = some contents := by
    intro referee hmap
    cases hr : readlinkHost w hostPath with
    | error e => simp [hr, Except.map] at hmap
    | ok contents =>
        refine ⟨contents, ?_, rfl⟩
        simpa [hr, Except.map] using hmap.symm
  simp only [dereference] at h
  rw [← hemu] at h
  cases hlink : emulatedLink w dir n with
  | error e => simp [hlink] at h
  | ok action =>
      cases action with
      | default =>
          simp only [hlink] at h
          obtain ⟨contents, hpath, hcontents⟩ := hread _ h
          exact .inr ⟨contents, hpath, by simp [linkContents, hlink, hsub, hcontents],
            by simp [guestView, hlink]⟩
      | canonicalize result =>
          simp only [hlink, Except.ok.injEq] at h
          exact .inr ⟨result, h.symm, by simp [linkContents, hlink], by simp [guestView, hlink]⟩
      | dontCanonicalize result =>
          simp only [hlink] at h
          by_cases hfinal : finality = .finalNormal
          · rw [if_pos hfinal, Except.ok.injEq] at h
            refine .inl ⟨namesOf result, ?_, hfinal, by simp [guestView, hlink]⟩
            rw [← emulatedLink_pinned hwf hl hlink]
            exact h.symm
          · rw [if_neg hfinal] at h
            obtain ⟨contents, hpath, hcontents⟩ := hread _ h
            exact .inr ⟨contents, hpath, by simp [linkContents, hlink, hsub, hcontents],
              fun hpin => hfinal hpin.1⟩

/-- What is canonicalized in place of a link isn't empty, and what is not canonicalized is
canonical. -/
theorem dereference_spec (hwf : w.tracee.bindings.WellFormed) (hl : LinkLaws w.host)
    {referee : Referee}
    (hpath : Tidy path) (hcomponent : component = [] ∨ ∃ n : Component, component = n.chars)
    (h : dereference w finality path component hostPath = .ok referee) :
    (∃ target, referee = .path target ∧ target ≠ []) ∨
      ∃ names, referee = .pinned (pathOf names) ∧ finality = .finalNormal := by
  have hread : (readlinkHost w hostPath).map Referee.path = .ok referee →
      ∃ target, referee = .path target ∧ target ≠ [] := by
    intro hmap
    cases hr : readlinkHost w hostPath with
    | error e => simp [hr, Except.map] at hmap
    | ok target =>
        refine ⟨target, ?_, readlinkHost_ne_nil hwf hl hr⟩
        simpa [hr, Except.map] using hmap.symm
  simp only [dereference] at h
  split at h
  · cases h
  · rename_i result hlink
    cases h
    rcases readlinkProc_ok hl hlink with h | ⟨result', h, hne⟩ | ⟨_, h, -⟩
    · cases h
    · cases h
      exact .inl ⟨_, rfl, hne⟩
    · cases h
  · rename_i result hlink
    split_ifs at h with hfinal
    · cases h
      obtain ⟨names, rfl⟩ := readlinkProc_pinned hwf hl hpath hcomponent hlink
      exact .inr ⟨names, rfl, hfinal⟩
    · exact .inl (hread h)
  · exact .inl (hread h)

/-! ## Around the loop -/

theorem Next.nothing_or_component {cursor rest : CString}
    (h : Next cursor finality component rest) (hdot : component ≠ ['.'])
    (hdots : component ≠ ['.', '.']) :
    (pieces '/' cursor = [] ∧ finality = .finalNormal ∧ component = [] ∧ rest = []) ∨
      ∃ n : Component, component = n.chars := by
  have hname : component ∈ pieces '/' cursor → ∃ n : Component, component = n.chars :=
    fun hmem => ⟨⟨component, Lib.isName_of_mem_pieces hmem, hdot, hdots⟩, rfl⟩
  cases h with
  | nothing h => exact .inl ⟨h, rfl, rfl, rfl⟩
  | last h => exact .inr (hname (by simp [h]))
  | more h => exact .inr (hname (by simp [h]))

theorem appendFinality_ok {level : Nat} {names : List Component}
    {g : CString} (h : appendFinality level finality (pathOf names) = .ok g) :
    g = if level = 0 then withEnding names finality else pathOf names := by
  unfold appendFinality at h
  split_ifs at h ⊢
  · cases finality with
    | notFinal | finalNormal => exact (Except.ok.inj h).symm
    | finalSlash | finalDot =>
        rw [joinPaths_ok h, joined_pathOf (by simp)]
        rfl
  · exact (Except.ok.inj h).symm

theorem start_pathOf {userPath base : CString}
    (hbase : userPath.head? = some '/' ∨ base = pathOf dir) :
    (if userPath.head? ≠ some '/' then base else ['/']) =
      pathOf ((routeOf userPath).start dir) := by
  unfold Route.start routeOf
  by_cases habs : userPath.head? = some '/'
  · simp [habs]
  · simpa [habs] using hbase

theorem pieces_or_start {userPath : CString} (hne : userPath ≠ []) (dir : List Component) :
    pieces '/' userPath ≠ [] ∨ (routeOf userPath).start dir = [] := by
  by_cases habs : userPath.head? = some '/'
  · exact .inr (by simp [Route.start, routeOf, habs])
  · exact .inl (pieces_ne_nil hne habs)

end Improot.Path
