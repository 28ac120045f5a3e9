import Improot.Path.Placeholder

/-!
# What placeholders leave behind

The initialization only adds nodes, and a placeholder is never made around an older one.  So the
destructors, which begin with the last record, find a placeholder empty that the guest has left
alone.  Whether they spare the files of the guest depends on what it has put in the recorded places.
-/

namespace Improot.Path.Placeholder

open Lib.PrefixTable

variable {env : Env} {fs fs' : Fs} {s s' : State}

/-! ## New nodes -/

structure Adds (fs fs' : Fs) : Prop extends Lib.Tree.Grows fs.toTree fs'.toTree where
  type : ∀ i, i < fs.next → fs'.type i = fs.type i

theorem Adds.refl (fs : Fs) : Adds fs fs := ⟨.refl fs.toTree, fun _ _ => rfl⟩

variable {path : CString} {i : Nat} {type : FileType}

theorem found_lt (h : fs.found path = some i) : i < fs.next := by
  unfold Fs.found at h
  split at h
  · cases h
    exact fs.root_lt
  · obtain ⟨place, -, hentry⟩ := Option.bind_eq_some_iff.mp h
    exact Lib.Tree.entry_lt hentry

theorem Adds.found (h : Adds fs fs') (hfound : fs.found path = some i) :
    fs'.found path = some i := by
  unfold Fs.found at hfound ⊢
  split at hfound
  case isTrue hroot =>
    rw [if_pos hroot, h.root]
    exact hfound
  case isFalse hroot =>
    rw [if_neg hroot]
    exact h.find hfound

theorem Adds.found_type (h : Adds fs fs')
    (hfound : ∃ i, fs.found path = some i ∧ fs.type i = type) :
    ∃ i, fs'.found path = some i ∧ fs'.type i = type := by
  obtain ⟨i, hi, htype⟩ := hfound
  exact ⟨i, h.found hi, (h.type i (found_lt hi)).trans htype⟩

/-- **What `mkdir` and `mknod` do.** -/
structure Made (fs : Fs) (path : CString) (type : FileType) (fs' : Fs) (node : Nat) : Prop where
  adds : Adds fs fs'
  names : namesOf path ≠ []
  before : fs.found path = none
  after : fs'.found path = some node
  type : fs'.type node = type
  /-- There is one new entry, at the end of the path. -/
  entry : ∀ d n i, fs'.entry d n = some i → fs.entry d n = some i ∨
    fs'.locate maxLinks (namesOf path) = some (d, n)

theorem makeNode_ok {node : Nat}
    (h : fs.makeNode env path type = .ok (fs', node)) : Made fs path type fs' node := by
  unfold Fs.makeNode at h
  split at h
  · cases h
  split at h
  · cases h
  rename_i hnames
  split at h
  · cases h
  rename_i d n hplace
  split at h
  · cases h
  rename_i hnew
  split at h
  · cases h
  split at h
  case isFalse => cases h
  case isTrue hmake =>
    cases h
    have hgrows : Lib.Tree.Grows fs.toTree (fs.create d n type hmake.1 hmake.2.1 hmake.2.2).toTree :=
      Lib.Tree.grows_make hmake.1 (fs.link_of_dir hmake.2.1) hnew
    have hadds : Adds fs (fs.create d n type hmake.1 hmake.2.1 hmake.2.2) :=
      ⟨hgrows, fun i hi => if_neg (Nat.ne_of_lt hi)⟩
    refine ⟨hadds, hnames, ?_, ?_, if_pos rfl, fun d' n' i hi => ?_⟩
    · rw [Fs.found, if_neg hnames, Lib.Tree.find, hplace]
      exact hnew
    · rw [Fs.found, if_neg hnames, Lib.Tree.find, hgrows.locate hplace]
      exact Lib.Tree.entry_make_self hmake.1 (fs.link_of_dir hmake.2.1) hnew
    · by_cases hsame : d' = d ∧ n' = n
      · rw [hsame.1, hsame.2]
        exact .inr (hgrows.locate hplace)
      · left
        rwa [← Lib.Tree.entry_make_of_ne hmake.1 (fs.link_of_dir hmake.2.1) (not_and_or.mp hsame)]

/-! ## The invariant of the initialization -/

def IsDir (fs : Fs) (path : CString) : Prop := ∃ i, fs.found path = some i ∧ fs.type i = .dir

/-- **The invariant.** The records are of files that are there, and none is around an older one. -/
structure Sound (s : State) : Prop where
  sorted : s.bindings.Sorted
  rooted : s.bindings.Rooted
  glue : ∀ g, s.glue = some g → Canonical g ∧ IsDir s.fs g
  placed : ∀ p ∈ s.placeholders, s.fs.found p.path = some p.node
  names : ∀ p ∈ s.placeholders, namesOf p.path ≠ []
  order : s.placeholders.Pairwise fun p q =>
    ∀ more, more ≠ [] → namesOf q.path ≠ namesOf p.path ++ more

theorem Initial.sound (h : Initial s) : Sound s where
  sorted := h.sorted
  rooted := h.rooted
  glue g hg := by
    rw [h.glue] at hg
    cases hg
  placed p hp := by
    rw [h.placeholders] at hp
    cases hp
  names p hp := by
    rw [h.placeholders] at hp
    cases hp
  order := by
    rw [h.placeholders]
    exact .nil

theorem Sound.adds (h : Sound s) (hadds : Adds s.fs fs') : Sound { s with fs := fs' } where
  sorted := h.sorted
  rooted := h.rooted
  glue g hg := ⟨(h.glue g hg).1, hadds.found_type (h.glue g hg).2⟩
  placed p hp := hadds.found (h.placed p hp)
  names := h.names
  order := h.order

theorem found_of_append {path' : CString} {more : List Component}
    (hnames : namesOf path ≠ []) (hmore : more ≠ []) (heq : namesOf path' = namesOf path ++ more)
    (h : fs.found path' = some i) : ∃ j, fs.found path = some j := by
  have hne : namesOf path' ≠ [] := by
    rw [heq]
    exact List.append_ne_nil_of_left_ne_nil hnames more
  rw [Fs.found, if_neg hne, heq, ← List.dropLast_append_getLast hnames] at h
  obtain ⟨j, hj⟩ := Lib.Tree.find_of_append h hmore
  refine ⟨j, ?_⟩
  rw [Fs.found, if_neg hnames, ← hj, List.dropLast_append_getLast]

theorem Sound.record (h : Sound s) {node : Nat} (hmade : Made s.fs path type fs' node) :
    Sound { s with fs := fs', placeholders := ⟨path, node⟩ :: s.placeholders } where
  sorted := h.sorted
  rooted := h.rooted
  glue := (h.adds hmade.adds).glue
  placed p hp := by
    rcases List.mem_cons.mp hp with rfl | hp
    · exact hmade.after
    · exact (h.adds hmade.adds).placed p hp
  names p hp := by
    rcases List.mem_cons.mp hp with rfl | hp
    · exact hmade.names
    · exact h.names p hp
  order := by
    refine List.pairwise_cons.mpr ⟨fun q hq more hmore heq => ?_, h.order⟩
    obtain ⟨j, hj⟩ := found_of_append hmade.names hmore heq (h.placed q hq)
    rw [hmade.before] at hj
    cases hj

theorem Sound.insert (h : Sound s) {hostPath guestPath : CString} (hhost : Canonical hostPath)
    (hguest : Canonical guestPath) :
    Sound { s with bindings := insortBinding3 s.bindings hostPath guestPath } := by
  obtain ⟨hsorted, -, hpaths, -⟩ := h.sorted.insort3 hhost hguest
  exact { h with sorted := hsorted, rooted := (hpaths _).mpr (.inr h.rooted) }

structure Glued (env : Env) (s : State) (glue : CString) (s' : State) : Prop where
  sound : Sound s'
  there : s'.glue = some glue
  adds : Adds s.fs s'.fs
  bindings : s'.bindings = s.bindings
  placeholders : s'.placeholders = s.placeholders
  entry : ∀ d n i, s'.fs.entry d n = some i → s.fs.entry d n = some i ∨
    s'.fs.locate maxLinks (namesOf glue) = some (d, n)

theorem Sound.withGlue (h : Sound s) {glue : CString} (hg : withGlue env s = some (glue, s')) :
    Glued env s glue s' := by
  unfold Placeholder.withGlue at hg
  split at hg
  case h_1 glue' hglue =>
    cases hg
    exact ⟨h, hglue, .refl _, rfl, rfl, fun _ _ _ hi => .inl hi⟩
  case h_2 hglue =>
    split at hg
    case h_1 => cases hg
    case h_2 path htemp =>
      split at hg
      case h_1 => cases hg
      case h_2 fs' node hmake =>
        cases hg
        have hmade := makeNode_ok hmake
        refine ⟨{ h.adds hmade.adds with glue := fun g hg => ?_ }, rfl, hmade.adds, rfl, rfl,
          hmade.entry⟩
        cases hg
        exact ⟨env.temp_canonical glue htemp, node, hmade.after, hmade.type⟩

/-! ## `build_glue` -/

section BuildGlue

variable {glue guestPath hostPath : CString} {finality : Finality} {glueType : FileType}

def typeOf (finality : Finality) (glueType : FileType) : FileType :=
  if finality.isFinal then glueType else .dir

/-- **What `build_glue` comes to**, once the glue directory exists. -/
inductive Built (env : Env) (glue guestPath hostPath : CString) (finality : Finality)
    (glueType : FileType) (s : State) : Option FileType × State → Prop
  | binding (hwhy : env.dontPollute = true ∧ ¬ BelongsToGluefs glue hostPath ∨
      ∃ e, s.fs.makeNode env hostPath (typeOf finality glueType) = .error e ∧ e ≠ .eexist) :
      Built env glue guestPath hostPath finality glueType s
        (createBinding glue guestPath (typeOf finality glueType) s)
  | made {fs : Fs} {node : Nat} (hwhy : env.dontPollute = true → BelongsToGluefs glue hostPath)
      (hmade : s.fs.makeNode env hostPath (typeOf finality glueType) = .ok (fs, node)) :
      Built env glue guestPath hostPath finality glueType s
        (some (typeOf finality glueType),
          { s with
            fs := fs
            placeholders :=
              if BelongsToGluefs glue hostPath then s.placeholders
              else ⟨hostPath, node⟩ :: s.placeholders })
  | there {e : Errno} (hwhy : env.dontPollute = true → BelongsToGluefs glue hostPath)
      (hmade : s.fs.makeNode env hostPath (typeOf finality glueType) = .error e)
      (he : e = .eexist ∨ finality.isFinal = true) :
      Built env glue guestPath hostPath finality glueType s (some (typeOf finality glueType), s)
  | fails {e : Errno}
      (hmade : s.fs.makeNode env hostPath (typeOf finality glueType) = .error e)
      (he : e ≠ .eexist) : Built env glue guestPath hostPath finality glueType s (none, s)

theorem buildGlueIn_built : Built env glue guestPath hostPath finality glueType s
    (buildGlueIn env glue guestPath hostPath finality glueType s) := by
  unfold buildGlueIn
  simp only
  split
  case isTrue hpollute => exact .binding (.inl hpollute)
  case isFalse hpollute =>
    have hwhy : env.dontPollute = true → BelongsToGluefs glue hostPath := fun hset => by
      by_contra hbelongs
      exact hpollute ⟨hset, hbelongs⟩
    split
    case h_1 fs node hmake => exact .made hwhy hmake
    case h_2 e hmake =>
      split
      case isTrue he => exact .there hwhy hmake he
      case isFalse he =>
        split
        · exact .fails hmake fun heq => he (.inl heq)
        · exact .binding (.inr ⟨e, hmake, fun heq => he (.inl heq)⟩)

theorem createBinding_fs (type : FileType) : (createBinding glue guestPath type s).2.fs = s.fs := by
  unfold createBinding
  split <;> rfl

theorem bindGlue_eq {w : World} (hbindings : w.tracee.bindings = s.bindings) (type : FileType) :
    (bindGlue glue guestPath type w).1 = .ok (createBinding glue guestPath type s).1 ∧
      (bindGlue glue guestPath type w).2.tracee.bindings =
        (createBinding glue guestPath type s).2.bindings ∧
      (bindGlue glue guestPath type w).2.host = w.host := by
  unfold bindGlue createBinding
  split
  · exact ⟨rfl, hbindings, rfl⟩
  · exact ⟨rfl, by rw [hbindings], rfl⟩

/-- **Path translation builds the same glue**: it has no nodes, but a component gets the type and
the binding that it gets here, and is there afterwards if it is here. -/
theorem buildGlueIn_canon {w : World} (hhost : w.host = hostOf env s.fs)
    (hbindings : w.tracee.bindings = s.bindings) :
    (Path.buildGlueIn glue guestPath hostPath finality glueType w).1 =
        .ok (buildGlueIn env glue guestPath hostPath finality glueType s).1 ∧
      (Path.buildGlueIn glue guestPath hostPath finality glueType w).2.tracee.bindings =
        (buildGlueIn env glue guestPath hostPath finality glueType s).2.bindings ∧
      (Path.buildGlueIn glue guestPath hostPath finality glueType w).2.host.lstat hostPath =
        (buildGlueIn env glue guestPath hostPath finality glueType s).2.fs.lstat env hostPath := by
  have hlstat : w.host.lstat hostPath = s.fs.lstat env hostPath := by rw [hhost]; rfl
  have hmake : w.host.make hostPath = fun type => (s.fs.makeNode env hostPath type).map fun _ => ()
      := by rw [hhost]; rfl
  have hpollute : w.host.dontPollute = env.dontPollute := by rw [hhost]; rfl
  have hbind (type : FileType) :
      (bindGlue glue guestPath type w).1 = .ok (createBinding glue guestPath type s).1 ∧
        (bindGlue glue guestPath type w).2.tracee.bindings =
          (createBinding glue guestPath type s).2.bindings ∧
        (bindGlue glue guestPath type w).2.host = w.host := bindGlue_eq hbindings type
  have hsame (type : FileType) : (bindGlue glue guestPath type w).2.host.lstat hostPath =
      (createBinding glue guestPath type s).2.fs.lstat env hostPath := by
    rw [(hbind type).2.2, createBinding_fs, hlstat]
  have hbelongs : BelongsToGluefs glue hostPath ↔
      comparePaths glue hostPath = .pathsAreEqual ∨ comparePaths glue hostPath = .path1IsPrefix :=
    .rfl
  unfold Path.buildGlueIn buildGlueIn
  simp only [hpollute, hmake, ← hbelongs]
  by_cases hbinding : env.dontPollute = true ∧ ¬ BelongsToGluefs glue hostPath
  · simp only [if_pos hbinding]
    exact ⟨(hbind _).1, (hbind _).2.1, hsame _⟩
  simp only [if_neg hbinding]
  cases hmade : s.fs.makeNode env hostPath (if finality.isFinal then glueType else .dir) with
  | ok made =>
      obtain ⟨fs, node⟩ := made
      have hnode := makeNode_ok hmade
      have hallowed : env.denied hostPath = none := by
        unfold Fs.makeNode at hmade
        split at hmade
        · cases hmade
        · assumption
      refine ⟨rfl, hbindings, ?_⟩
      show (if hostPath = hostPath then _ else _) = _
      rw [if_pos rfl, Fs.lstat, hallowed]
      simp only [hnode.after, hnode.type]
  | error e =>
      by_cases hthere : e = .eexist ∨ finality.isFinal = true
      · simp only [Except.map, if_pos hthere]
        exact ⟨trivial, hbindings, hlstat⟩
      by_cases hin : BelongsToGluefs glue hostPath
      · simp only [Except.map, if_neg hthere, if_pos hin]
        exact ⟨trivial, hbindings, hlstat⟩
      · simp only [Except.map, if_neg hthere, if_neg hin]
        exact ⟨(hbind _).1, (hbind _).2.1, hsame _⟩

theorem createBinding_sound (h : Sound s) (hglue : Canonical glue) (hguest : Canonical guestPath)
    (type : FileType) : Sound (createBinding glue guestPath type s).2 := by
  unfold createBinding
  split
  · exact h
  · exact h.insert hglue hguest

theorem Built.sound {r : Option FileType × State} (h : Sound s) (hglue : Canonical glue)
    (hguest : Canonical guestPath)
    (hr : Built env glue guestPath hostPath finality glueType s r) : Sound r.2 := by
  cases hr with
  | binding hwhy => exact createBinding_sound h hglue hguest _
  | @made fs node hwhy hmade =>
      have hmade := makeNode_ok hmade
      by_cases hbelongs : BelongsToGluefs glue hostPath
      · simp only [if_pos hbelongs]
        exact h.adds hmade.adds
      · simp only [if_neg hbelongs]
        exact h.record hmade
  | there | fails => exact h

/-- **With `PROOT_DONT_POLLUTE_ROOTFS`**, the new entries of a step are in the glue directory. -/
def OnlyInGlue (s s' : State) : Prop :=
  ∀ d n i, s'.fs.entry d n = some i → s.fs.entry d n = some i ∨
    ∃ glue path, s'.glue = some glue ∧ BelongsToGluefs glue path ∧
      s'.fs.locate maxLinks (namesOf path) = some (d, n)

theorem belongsToGluefs_self (h : Canonical glue) : BelongsToGluefs glue glue :=
  .inl ((h.tidy.comparePaths_eq_pathsAreEqual h.tidy).mpr rfl)

theorem Built.onlyInGlue {s' : State} {r : Option FileType × State} (hs : Glued env s glue s')
    (hpollute : env.dontPollute = true)
    (hr : Built env glue guestPath hostPath finality glueType s' r) : OnlyInGlue s r.2 := by
  have hself := belongsToGluefs_self (hs.sound.glue glue hs.there).1
  have hold : OnlyInGlue s s' := fun d n i hi =>
    (hs.entry d n i hi).imp_right fun hplace => ⟨glue, glue, hs.there, hself, hplace⟩
  cases hr with
  | binding hwhy =>
      intro d n i hi
      rw [createBinding_fs] at hi ⊢
      refine (hold d n i hi).imp_right fun ⟨glue', path, hglue', hin⟩ => ⟨glue', path, ?_, hin⟩
      unfold createBinding
      split <;> exact hglue'
  | @made fs node hwhy hmade =>
      have hmade := makeNode_ok hmade
      intro d n i hi
      rcases hmade.entry d n i hi with hi | hplace
      · refine (hold d n i hi).imp_right fun ⟨glue', path, hglue', hin, hplace⟩ => ?_
        exact ⟨glue', path, hglue', hin, hmade.adds.locate hplace⟩
      · exact .inr ⟨glue, hostPath, hs.there, hwhy hpollute, hplace⟩
  | there | fails => exact hold

end BuildGlue

/-! ## Looking up a component -/

def Resolves (s : State) (guestPath : CString) (type : FileType) : Prop :=
  ∃ substituted hostPath i, substituteBinding s.bindings .guest guestPath =
    .ok (substituted, hostPath) ∧ s.fs.found hostPath = some i ∧ s.fs.type i = type

theorem substituteBinding_insort {t : Bindings} (h : t.Sorted) (hroot : t.Rooted)
    {host names : List Component} (hnames : names ≠ []) (hhost : (pathOf host).length < pathMax)
    (hguest : (pathOf names).length < pathMax) :
    ∃ substituted, substituteBinding (insortBinding3 t (pathOf host) (pathOf names)) .guest
      (pathOf names) = .ok (substituted, pathOf host) := by
  obtain ⟨hsorted, -, hpaths, -⟩ := h.insort3 ⟨host, rfl⟩ ⟨names, rfl⟩
  have hrooted := (hpaths _).mpr (.inr hroot)
  have hplain (ns : List Component) : withEnding ns .finalNormal = pathOf ns := rfl
  obtain ⟨host', hresolve, hsub⟩ := substituteBinding_resolve hsorted hrooted
    (show (withEnding names .finalNormal).length < pathMax from hguest)
  have hself : resolve (tableOf (insortBinding3 t (pathOf host) (pathOf names))) names = some host := by
    apply resolve_of_some
    rw [tableOf_insort3 h, Function.update_self]
  rw [hself] at hresolve
  cases hresolve
  have hne : ¬ withEnding names .finalNormal = ['/'] := by
    rw [hplain, pathOf_eq_root]
    exact hnames
  have hpath : (substitution names host .finalNormal).2 = pathOf host := by
    unfold substitution
    split
    case isTrue heq =>
      rw [heq]
      rfl
    case isFalse hdiff =>
      rw [if_pos]
      · rw [substituted, if_neg hne]
        rfl
      · rw [FitsNames, substituted, if_neg hne, if_neg hne]
        exact hhost
  refine ⟨(substitution names host .finalNormal).1, hsub.trans ?_⟩
  rw [← hpath]

theorem createBinding_resolves {glue : CString} {names : List Component} {type' : FileType}
    (h : Sound s) (hglue : s.glue = some glue) (hnames : names ≠ [])
    (hr : (createBinding glue (pathOf names) type s).1 = some type') :
    type' = type ∧ Resolves (createBinding glue (pathOf names) type s).2 (pathOf names) .dir := by
  obtain ⟨⟨host, rfl⟩, i, hfound, htype⟩ := h.glue glue hglue
  unfold createBinding at hr ⊢
  split at hr
  case isTrue => cases hr
  case isFalse hlengths =>
    cases hr
    obtain ⟨hhost, hguest⟩ := not_or.mp hlengths
    obtain ⟨substituted, hsub⟩ := substituteBinding_insort h.sorted h.rooted hnames
      (Nat.lt_of_not_le hhost) (Nat.lt_of_not_le hguest)
    rw [if_neg hlengths]
    exact ⟨rfl, substituted, _, i, hsub, hfound, htype⟩

/-- What `substitute_binding_stat` says of a component that isn't the last one: it leads to a
directory, or to a link. -/
def ComponentResolves (env : Env) (s : State) (names : List Component) (glueType : FileType) :
    Prop :=
  let (r, s') := substituteBindingStat env .notFinal (pathOf names) glueType s
  ∀ isLink hostPath, r = .ok (isLink, hostPath) →
    Resolves s' (pathOf names) (if isLink then .lnk else .dir)

/-- **The condition for it**: "/linkerconfig" is a directory where it can't be looked at, and what
keeps `mkdir` from making a component that `lstat` didn't find, or wasn't asked for, is one. -/
def Truthful (env : Env) (s : State) (names : List Component) : Prop :=
  ∀ substituted hostPath, substituteBinding s.bindings .guest (pathOf names) =
      .ok (substituted, hostPath) →
    (hostStat (hostOf env s.fs) hostPath = .ok .dir → IsDir s.fs hostPath) ∧
    ∀ e glue s', hostStat (hostOf env s.fs) hostPath = .error e →
      withGlue env s = some (glue, s') →
      (env.dontPollute = true → BelongsToGluefs glue hostPath) →
      s'.fs.makeNode env hostPath .dir = .error .eexist → IsDir s'.fs hostPath

theorem hostStat_ok (h : hostStat (hostOf env fs) path = .ok type) (htype : type ≠ .dir) :
    ∃ i, fs.found path = some i ∧ fs.type i = type := by
  unfold hostStat at h
  split at h
  · cases h
  · have hlstat : fs.lstat env path = .ok type := by
      split at h
      · split at h
        · cases h
          exact absurd rfl htype
        · cases h
      · exact h
    unfold Fs.lstat at hlstat
    split at hlstat
    · cases hlstat
    · split at hlstat
      · cases hlstat
      · cases hlstat
        exact ⟨_, ‹_›, rfl⟩

theorem checkType_notFinal {type : Option FileType} {isLink : Bool}
    (h : checkType .notFinal type = .ok isLink) :
    type = some (if isLink then .lnk else .dir) := by
  cases type with
  | none => cases h
  | some type =>
      cases type with
      | dir | lnk =>
          cases h
          rfl
      | _ => cases h

section Component

variable {names : List Component} {glueType : FileType} {substituted : Bool} {hostPath : CString}

theorem truthful_iff
    (hsub : substituteBinding s.bindings .guest (pathOf names) = .ok (substituted, hostPath)) :
    Truthful env s names ↔
      (hostStat (hostOf env s.fs) hostPath = .ok .dir → IsDir s.fs hostPath) ∧
      ∀ e glue s', hostStat (hostOf env s.fs) hostPath = .error e →
        withGlue env s = some (glue, s') →
        (env.dontPollute = true → BelongsToGluefs glue hostPath) →
        s'.fs.makeNode env hostPath .dir = .error .eexist → IsDir s'.fs hostPath := by
  unfold Truthful
  rw [hsub]
  constructor
  · intro hall
    exact hall substituted hostPath rfl
  · rintro hone _ _ ⟨⟩
    exact hone

theorem resolves_dir_iff
    (hsub : substituteBinding s.bindings .guest (pathOf names) = .ok (substituted, hostPath)) :
    Resolves s (pathOf names) .dir ↔ IsDir s.fs hostPath := by
  constructor
  · rintro ⟨_, _, i, heq, hi⟩
    cases hsub.symm.trans heq
    exact ⟨i, hi⟩
  · rintro ⟨i, hi⟩
    exact ⟨substituted, hostPath, i, hsub, hi⟩

theorem resolves_of_checked {r : Option FileType} (hr : r = none ∨ r = some .dir) :
    (∀ isLink path, (checkType .notFinal r).map (fun isLink => (isLink, hostPath)) =
        .ok (isLink, path) → Resolves s (pathOf names) (if isLink then .lnk else .dir)) ↔
      (r = some .dir → Resolves s (pathOf names) .dir) := by
  rcases hr with rfl | rfl
  · constructor
    · intro _ hno
      cases hno
    · intro _ isLink path hok
      cases hok
  · constructor
    · intro hall _
      exact hall false hostPath rfl
    · intro hdir isLink path hok
      cases hok
      exact hdir rfl

theorem componentResolves_found
    (hsub : substituteBinding s.bindings .guest (pathOf names) = .ok (substituted, hostPath))
    (hstat : hostStat (hostOf env s.fs) hostPath = .ok type) :
    ComponentResolves env s names glueType ↔ Truthful env s names := by
  rw [truthful_iff hsub]
  simp only [ComponentResolves, substituteBindingStat, hsub, hstat]
  by_cases hdir : type = .dir
  · subst hdir
    rw [resolves_of_checked (.inr rfl), resolves_dir_iff hsub]
    constructor
    · intro hall
      exact ⟨fun _ => hall rfl, fun e glue s' herror => (by cases herror)⟩
    · intro htruth _
      exact htruth.1 rfl
  · constructor
    · intro _
      exact ⟨fun heq => absurd (Except.ok.inj heq) hdir, fun e glue s' herror => by cases herror⟩
    · intro _ isLink path hok
      obtain ⟨i, hi, htype⟩ := hostStat_ok hstat hdir
      cases hcheck : checkType .notFinal (some type) with
      | error e =>
          rw [hcheck] at hok
          cases hok
      | ok isLink' =>
          rw [hcheck] at hok
          cases hok
          rw [← Option.some.inj (checkType_notFinal hcheck)]
          exact ⟨substituted, hostPath, i, hsub, hi, htype⟩

/-- A component that isn't there resolves to what is built, under `Truthful` only. -/
theorem componentResolves_built (h : Sound s) (hnames : names ≠ []) {e : Errno}
    (hsub : substituteBinding s.bindings .guest (pathOf names) = .ok (substituted, hostPath))
    (hstat : hostStat (hostOf env s.fs) hostPath = .error e) :
    ComponentResolves env s names glueType ↔ Truthful env s names := by
  rw [truthful_iff hsub, hstat]
  simp only [ComponentResolves, substituteBindingStat, hsub, hstat, buildGlue]
  cases hglue : withGlue env s with
  | none =>
      simp only
      rw [resolves_of_checked (.inl rfl)]
      constructor
      · intro _
        exact ⟨fun hdir => (by cases hdir), fun _ _ _ _ hnone => (by cases hnone)⟩
      · intro _ hno
        cases hno
  | some glued =>
      obtain ⟨glue, s'⟩ := glued
      have hs := h.withGlue hglue
      have hsub' : substituteBinding s'.bindings .guest (pathOf names) =
          .ok (substituted, hostPath) := by rw [hs.bindings, hsub]
      have hcond : ((.error e : Except Errno FileType) = .ok .dir → IsDir s.fs hostPath) ∧
          (∀ e' glue' s'', (.error e : Except Errno FileType) = .error e' →
            some (glue, s') = some (glue', s'') →
            (env.dontPollute = true → BelongsToGluefs glue' hostPath) →
            s''.fs.makeNode env hostPath .dir = .error .eexist → IsDir s''.fs hostPath) ↔
          ((env.dontPollute = true → BelongsToGluefs glue hostPath) →
            s'.fs.makeNode env hostPath .dir = .error .eexist → IsDir s'.fs hostPath) := by
        constructor
        · intro hall
          exact hall.2 e glue s' rfl rfl
        · intro hone
          refine ⟨fun hdir => (by cases hdir), ?_⟩
          rintro e' _ _ - ⟨⟩
          exact hone
      rw [hcond]
      dsimp only
      have hbuilt : Built env glue (pathOf names) hostPath .notFinal glueType s'
          (buildGlueIn env glue (pathOf names) hostPath .notFinal glueType s') := buildGlueIn_built
      generalize buildGlueIn env glue (pathOf names) hostPath .notFinal glueType s' = r at hbuilt
      cases hbuilt with
      | binding hwhy =>
          constructor
          · intro _ hin hexists
            rcases hwhy with ⟨hset, hout⟩ | ⟨e', hmade, hne⟩
            · exact absurd (hin hset) hout
            · cases hmade.symm.trans hexists
              exact absurd rfl hne
          · intro _
            cases hcreate : (createBinding glue (pathOf names) .dir s').1 with
            | none =>
                show ∀ isLink path, (checkType .notFinal
                  (createBinding glue (pathOf names) .dir s').1).map _ = _ → _
                rw [hcreate]
                exact (resolves_of_checked (.inl rfl)).mpr fun hno => by cases hno
            | some type' =>
                obtain ⟨rfl, hdir⟩ := createBinding_resolves hs.sound hs.there hnames hcreate
                show ∀ isLink path, (checkType .notFinal
                  (createBinding glue (pathOf names) .dir s').1).map _ = _ → _
                rw [hcreate]
                exact (resolves_of_checked (.inr rfl)).mpr fun _ => hdir
      | @made fs node hwhy hmake =>
          have hmade := makeNode_ok hmake
          constructor
          · intro _ _ hexists
            cases hmake.symm.trans hexists
          · intro _
            refine (resolves_of_checked (.inr rfl)).mpr fun _ => ?_
            exact ⟨substituted, hostPath, node, hsub', hmade.after, hmade.type⟩
      | there hwhy hmake he =>
          obtain rfl := he.resolve_right (by decide)
          refine (resolves_of_checked (.inr rfl)).trans ?_
          rw [resolves_dir_iff hsub']
          constructor
          · intro hdir _ _
            exact hdir rfl
          · intro hdir _
            exact hdir hwhy hmake
      | fails hmake hne =>
          constructor
          · intro _ _ hexists
            cases hmake.symm.trans hexists
            exact absurd rfl hne
          · intro _
            exact (resolves_of_checked (.inl rfl)).mpr fun hno => by cases hno

end Component

theorem componentResolves_iff (h : Sound s) {names : List Component} (hnames : names ≠ [])
    (glueType : FileType) : ComponentResolves env s names glueType ↔ Truthful env s names := by
  cases hsub : substituteBinding s.bindings .guest (pathOf names) with
  | error e =>
      simp only [ComponentResolves, Truthful, substituteBindingStat, hsub]
      constructor
      · intro _ substituted hostPath hok
        cases hok
      · intro _ isLink hostPath hok
        cases hok
  | ok answer =>
      obtain ⟨substituted, hostPath⟩ := answer
      cases hstat : hostStat (hostOf env s.fs) hostPath with
      | ok type => exact componentResolves_found hsub hstat
      | error e => exact componentResolves_built h hnames hsub hstat

/-! ## The initialization -/

theorem Sound.look (h : Sound s) (finality : Finality) (names : List Component)
    (glueType : FileType) :
    Sound (substituteBindingStat env finality (pathOf names) glueType s).2 := by
  unfold substituteBindingStat
  split
  case h_1 => exact h
  case h_2 substituted hostPath hsub =>
    cases hostStat (hostOf env s.fs) hostPath with
    | ok type => exact h
    | error e =>
        show Sound (buildGlue env (pathOf names) hostPath finality glueType s).2
        unfold buildGlue
        split
        case h_1 => exact h
        case h_2 glue s' hglue =>
          have hs := h.withGlue hglue
          exact buildGlueIn_built.sound hs.sound (hs.sound.glue glue hs.there).1 ⟨names, rfl⟩

theorem Sound.look_onlyInGlue (h : Sound s) (hpollute : env.dontPollute = true)
    (finality : Finality) (guestPath : CString) (glueType : FileType) :
    OnlyInGlue s (substituteBindingStat env finality guestPath glueType s).2 := by
  have hrefl : OnlyInGlue s s := fun _ _ _ hi => .inl hi
  unfold substituteBindingStat
  split
  case h_1 => exact hrefl
  case h_2 substituted hostPath hsub =>
    cases hostStat (hostOf env s.fs) hostPath with
    | ok type => exact hrefl
    | error e =>
        show OnlyInGlue s (buildGlue env guestPath hostPath finality glueType s).2
        unfold buildGlue
        split
        case h_1 => exact hrefl
        case h_2 glue s' hglue => exact buildGlueIn_built.onlyInGlue (h.withGlue hglue) hpollute

theorem Sound.perform (h : Sound s) (a : Action) : Sound (perform env s a) := by
  cases a with
  | look finality dir component glueType => exact h.look finality (dir ++ [component]) glueType
  | insert host guest => exact h.insert ⟨host, rfl⟩ ⟨guest, rfl⟩

theorem sound_of_reach (h : (initialization env).Reach Lib.System.Always s) : Sound s :=
  h.invariant (fun _ hinit => Initial.sound hinit) fun s a s' hs _ hstep => by
    cases hstep
    exact hs.perform a

/-! ## The destructors -/

def Record.names (p : Record) : List Component := namesOf p.path

/-- **The guest has left some placeholders alone**: they are where they were made, the files are
empty, and the directories hold nothing but such placeholders. -/
structure LeftAlone (env : Env) (fs : Fs) (ps : List Record) (U : Record → Prop) : Prop where
  recorded : ∀ p, U p → p ∈ ps
  placed : ∀ p, U p → fs.plain fs.root p.names = some p.node
  /-- PRoot may still remove them. -/
  free : ∀ p, U p → env.denied p.path = none ∧ ∀ d, fs.plain fs.root p.names.dropLast = some d →
    fs.locked d = false
  empty : ∀ p, U p → fs.type p.node ≠ .dir → fs.size p.node = 0
  holds : ∀ p, U p → fs.type p.node = .dir → ∀ n i, fs.entry p.node n = some i →
    ∃ q, U q ∧ q.names = p.names ++ [n]

structure Removes (fs fs' : Fs) : Prop extends Lib.Tree.Shrinks fs.toTree fs'.toTree where
  type : fs'.type = fs.type
  size : fs'.size = fs.size
  locked : fs'.locked = fs.locked

theorem Removes.refl (fs : Fs) : Removes fs fs := ⟨.refl fs.toTree, rfl, rfl, rfl⟩

theorem Removes.trans {fs'' : Fs} (h : Removes fs fs') (h' : Removes fs' fs'') :
    Removes fs fs'' where
  toShrinks := h.toShrinks.trans h'.toShrinks
  type := h'.type.trans h.type
  size := h'.size.trans h.size
  locked := h'.locked.trans h.locked

theorem removes_unlink (fs : Fs) (d : Nat) (n : Component) : Removes fs (fs.unlink d n) := by
  unfold Fs.unlink
  split
  · exact .refl fs
  · exact ⟨Lib.Tree.shrinks_remove fs.toTree d n, rfl, rfl, rfl⟩

theorem removes_placeholder (env : Env) (path : CString) (fs : Fs) :
    Removes fs (removePlaceholder env path fs) := by
  unfold removePlaceholder
  split
  case h_2 => exact .refl fs
  case h_1 d n hdenied hplace =>
    split
    · exact .refl fs
    · repeat' split
      all_goals first
        | exact .refl fs
        | exact removes_unlink fs _ _

/-- **What a destructor may remove**: an empty file or an empty directory at its path. -/
structure Removable (env : Env) (fs : Fs) (path : CString) (d : Nat) (n : Component) (i : Nat) :
    Prop where
  walk : env.denied path = none
  place : fs.locate maxLinks (namesOf path) = some (d, n)
  entry : fs.entry d n = some i
  empty : if fs.type i = .dir then fs.entries i = [] else fs.size i = 0
  free : fs.locked d = false

theorem Removable.removed {d : Nat} {n : Component} (h : Removable env fs path d n i) :
    removePlaceholder env path fs = fs.unlink d n ∧ (fs.unlink d n).entry d n = none := by
  have hempty := h.empty
  constructor
  · simp only [removePlaceholder, h.walk, h.place, h.entry]
    by_cases hdir : fs.type i = .dir
    · rw [if_pos hdir] at hempty
      rw [if_neg (not_not.mpr hdir), if_neg (not_not.mpr hempty)]
    · rw [if_neg hdir] at hempty
      rw [if_pos hdir, if_neg (not_not.mpr hempty)]
  · unfold Fs.unlink
    rw [if_neg (by rw [h.free]; exact Bool.false_ne_true)]
    exact Lib.Tree.entry_remove_self fs.toTree d n

theorem removable_of_removed {d : Nat} {n : Component}
    (hi : fs.entry d n = some i) (hno : (removePlaceholder env path fs).entry d n ≠ some i) :
    Removable env fs path d n i := by
  unfold removePlaceholder at hno
  split at hno
  case h_2 => exact absurd hi hno
  case h_1 d' n' hdenied hplace =>
    split at hno
    case h_1 => exact absurd hi hno
    case h_2 i' hi' =>
      have hunlink (hempty : if fs.type i' = .dir then fs.entries i' = [] else fs.size i' = 0) :
          (fs.unlink d' n').entry d n ≠ some i → Removable env fs path d n i := by
        intro hno
        unfold Fs.unlink at hno
        split at hno
        case isTrue => exact absurd hi hno
        case isFalse hfree =>
          by_cases hsame : d = d' ∧ n = n'
          · obtain ⟨rfl, rfl⟩ := hsame
            obtain rfl := Option.some.inj (hi'.symm.trans hi)
            exact ⟨hdenied, hplace, hi, hempty, Bool.of_not_eq_true hfree⟩
          · refine absurd ?_ hno
            exact (Lib.Tree.entry_remove_of_ne (not_and_or.mp hsame)).trans hi
      split at hno
      case isTrue hfile =>
        split at hno
        case isTrue => exact absurd hi hno
        case isFalse hsize =>
          refine hunlink ?_ hno
          rw [if_neg hfile]
          exact not_not.mp hsize
      case isFalse hdir =>
        split at hno
        case isTrue => exact absurd hi hno
        case isFalse hentries =>
          refine hunlink ?_ hno
          rw [if_pos (not_not.mp hdir)]
          exact not_not.mp hentries

def Gone (fs : Fs) (p : Record) : Prop := fs.plain fs.root p.names = none

theorem Gone.removes {p : Record} (h : Gone fs p) (hr : Removes fs fs') : Gone fs' p := by
  unfold Gone at h ⊢
  cases hplain : fs'.plain fs'.root p.names with
  | none => rfl
  | some i =>
      rw [hr.root] at hplain
      rw [hr.plain hplain] at h
      cases h

/-- **The destructor of a placeholder that was left alone.**  The files it may hold have gone: they
were recorded later. -/
theorem LeftAlone.gone {ps : List Record} {U : Record → Prop} (h : LeftAlone env fs ps U)
    (hr : Removes fs fs') {p : Record} (hp : U p) (hnames : p.names ≠ [])
    (hinside : ∀ q, U q → ∀ n, q.names = p.names ++ [n] → Gone fs' q) :
    Gone (removePlaceholder env p.path fs') p := by
  cases hplain : fs'.plain fs'.root p.names with
  | none => exact Gone.removes hplain (removes_placeholder env p.path fs')
  | some i =>
      have hold := hr.plain (hr.root ▸ hplain)
      rw [h.placed p hp] at hold
      cases hold
      -- where it is
      obtain ⟨dir, n, hsplit⟩ := (List.eq_nil_or_concat p.names).resolve_left hnames
      rw [List.concat_eq_append] at hsplit
      rw [hsplit, Lib.Tree.plain_concat] at hplain
      obtain ⟨d, hd, hentry⟩ := Option.bind_eq_some_iff.mp hplain
      have hplace : fs'.locate maxLinks (namesOf p.path) = some (d, n) := by
        rw [show namesOf p.path = dir ++ [n] from hsplit]
        exact Lib.Tree.locate_of_plain hd hentry
      obtain ⟨hdenied, hfree⟩ := h.free p hp
      rw [hsplit, List.dropLast_concat] at hfree
      have hlocked : fs'.locked d = false := by
        rw [hr.locked]
        exact hfree d (hr.plain (hr.root ▸ hd))
      have hempty : if fs'.type p.node = .dir then fs'.entries p.node = []
          else fs'.size p.node = 0 := by
        rw [hr.type, hr.size]
        split
        case isFalse hfile => exact h.empty p hp hfile
        case isTrue hdir =>
          by_contra hentries
          obtain ⟨e, he⟩ := List.exists_mem_of_ne_nil _ hentries
          obtain ⟨j, hj⟩ := Lib.Tree.entry_isSome he
          obtain ⟨q, hq, hqnames⟩ := h.holds p hp hdir e.1 j (hr.entry _ _ _ hj)
          have hgone := hinside q hq e.1 hqnames
          rw [Gone, hqnames, hsplit, Lib.Tree.plain_concat, Lib.Tree.plain_concat, hd,
            Option.bind_some, hentry, Option.bind_some, hj] at hgone
          cases hgone
      have hremovable : Removable env fs' p.path d n p.node :=
        ⟨hdenied, hplace, hentry, hempty, hlocked⟩
      obtain ⟨hunlink, hnone⟩ := hremovable.removed
      rw [hunlink, Gone, hsplit, Lib.Tree.plain_concat]
      cases hafter : (fs'.unlink d n).plain (fs'.unlink d n).root dir with
      | none => rfl
      | some d' =>
          have hremoves := removes_unlink fs' d n
          have hsame := hremoves.plain (hremoves.root ▸ hafter)
          rw [hd] at hsame
          cases hsame
          exact hnone

theorem removes_freePlaceholders (env : Env) (ps : List Record) (fs : Fs) :
    Removes fs (freePlaceholders env ps fs) := by
  induction ps generalizing fs with
  | nil => exact .refl fs
  | cons p ps ih => exact (removes_placeholder env p.path fs).trans (ih _)

/-- **After the destructors**, the placeholders that were left alone are gone. -/
theorem LeftAlone.all_gone {ps : List Record} {U : Record → Prop} (h : LeftAlone env fs ps U)
    (hnames : ∀ p ∈ ps, p.names ≠ [])
    (horder : ps.Pairwise fun p q => ∀ more, more ≠ [] → q.names ≠ p.names ++ more) :
    ∀ p, U p → Gone (freePlaceholders env ps fs) p := by
  -- the records of which the destructors have run, and the others
  have hrun : ∀ (todo : List Record) (fs' : Fs), Removes fs fs' →
      (∀ p ∈ todo, p.names ≠ []) →
      (todo.Pairwise fun p q => ∀ more, more ≠ [] → q.names ≠ p.names ++ more) →
      (∀ p, U p → p ∈ todo ∨ Gone fs' p) →
      ∀ p, U p → Gone (freePlaceholders env todo fs') p := by
    intro todo
    induction todo with
    | nil =>
        intro fs' _ _ _ hdone p hp
        exact (hdone p hp).resolve_left List.not_mem_nil
    | cons r todo ih =>
        intro fs' hr hnames horder hdone p hp
        obtain ⟨hfirst, hrest⟩ := List.pairwise_cons.mp horder
        have hstep := removes_placeholder env r.path fs'
        apply ih _ (hr.trans hstep) (fun q hq => hnames q (List.mem_cons_of_mem r hq)) hrest
        · intro q hq
          rcases hdone q hq with hmem | hgone
          swap
          · exact .inr (hgone.removes hstep)
          rcases List.mem_cons.mp hmem with rfl | hmem
          · right
            apply h.gone hr hq (hnames q List.mem_cons_self)
            intro q' hq' n hq'names
            refine (hdone q' hq').resolve_left fun hmem => ?_
            rcases List.mem_cons.mp hmem with rfl | hmem
            · exact absurd hq'names (by simp)
            · exact hfirst q' hmem [n] (List.cons_ne_nil n []) hq'names
          · exact .inl hmem
        · exact hp
  exact hrun ps fs (.refl fs) hnames horder fun p hp => .inl (h.recorded p hp)

/-- **The files of the guest are kept**: what the destructors remove is a placeholder. -/
def KeepsGuest (env : Env) (ps : List Record) (fs : Fs) : Prop :=
  ∀ d n i, fs.entry d n = some i → (freePlaceholders env ps fs).entry d n ≠ some i →
    ∃ p ∈ ps, p.node = i

/-- **The condition for it**: an empty file or an empty directory that a destructor finds at the
path of its record is a placeholder. -/
def OnlyPlaceholders (env : Env) (all : List Record) : List Record → Fs → Prop
  | [], _ => True
  | p :: ps, fs =>
    (∀ d n i, Removable env fs p.path d n i → ∃ q ∈ all, q.node = i) ∧
      OnlyPlaceholders env all ps (removePlaceholder env p.path fs)

theorem keeps_iff (all ps : List Record) (fs : Fs) :
    (∀ d n i, fs.entry d n = some i → (freePlaceholders env ps fs).entry d n ≠ some i →
      ∃ p ∈ all, p.node = i) ↔ OnlyPlaceholders env all ps fs := by
  induction ps generalizing fs with
  | nil => exact ⟨fun _ => trivial, fun _ d n i hi hno => absurd hi hno⟩
  | cons p ps ih =>
      have hstep := removes_placeholder env p.path fs
      rw [OnlyPlaceholders, ← ih]
      constructor
      · intro hall
        constructor
        · intro d n i hremovable
          apply hall d n i hremovable.entry
          intro hafter
          have hstill := (removes_freePlaceholders env ps _).entry d n i hafter
          rw [hremovable.removed.1, hremovable.removed.2] at hstill
          cases hstill
        · intro d n i hi hno
          exact hall d n i (hstep.entry d n i hi) hno
      · rintro ⟨hfirst, hrest⟩ d n i hi hno
        by_cases hkept : (removePlaceholder env p.path fs).entry d n = some i
        · exact hrest d n i hkept hno
        · exact hfirst d n i (removable_of_removed hi hkept)

/-- **Placeholders.** In every run of the initialization, nothing is made outside of the glue
directory when `PROOT_DONT_POLLUTE_ROOTFS` is set, and a component resolves to a directory exactly
under `Truthful`; and whatever the guest has made of the files since, the placeholders that it has
left alone are gone after the destructors, which keep its files exactly under `OnlyPlaceholders`. -/
theorem placeholders_iff {env : Env} {s : State}
    (h : (initialization env).Reach Lib.System.Always s) :
    (∀ a, env.dontPollute = true → OnlyInGlue s (perform env s a)) ∧
    (∀ dir component glueType, ComponentResolves env s (dir ++ [component]) glueType ↔
      Truthful env s (dir ++ [component])) ∧
    ∀ (exit : Env) (fs : Fs),
      (∀ U, LeftAlone exit fs s.placeholders U → ∀ p, U p →
        Gone (freePlaceholders exit s.placeholders fs) p) ∧
      (KeepsGuest exit s.placeholders fs ↔
        OnlyPlaceholders exit s.placeholders s.placeholders fs) := by
  have hs := sound_of_reach h
  refine ⟨fun a hpollute => ?_, fun dir component glueType => ?_, fun exit fs => ⟨fun U hU => ?_, ?_⟩⟩
  · cases a with
    | look finality dir component glueType =>
        exact hs.look_onlyInGlue hpollute finality _ glueType
    | insert host guest => exact fun _ _ _ hi => .inl hi
  · exact componentResolves_iff hs (List.append_ne_nil_of_right_ne_nil dir (List.cons_ne_nil _ _))
      glueType
  · exact hU.all_gone (fun p hp => hs.names p hp) hs.order
  · exact keeps_iff s.placeholders s.placeholders fs

/-! ### A placeholder, and a file of the guest in its place -/

theorem letter_isName {c : Char} (h : (c != '/' && c != '.') = true) : Lib.IsName '/' [c] := by
  refine ⟨List.cons_ne_nil _ _, fun hmem => ?_⟩
  simp [(List.mem_singleton.mp hmem).symm] at h

theorem letter_ne_dot {c : Char} (h : (c != '/' && c != '.') = true) : [c] ≠ ['.'] := by
  rintro heq
  simp [List.singleton_inj.mp heq] at h

theorem letter_ne_dotDot (c : Char) : [c] ≠ ['.', '.'] := by simp

def letter (c : Char) (h : (c != '/' && c != '.') = true) : Component :=
  ⟨[c], letter_isName h, letter_ne_dot h, letter_ne_dotDot c⟩

/-- The rootfs `/r`, where `b` may be an empty file. -/
def rootfs (file : Option Nat) : Fs where
  root := 0
  next := file.elim 2 (· + 3)
  entries d :=
    if d = 0 then [(letter 'r' rfl, 1)]
    else if d = 1 then file.toList.map fun i => (letter 'b' rfl, i + 2)
    else []
  parent _ := 0
  link _ := none
  type i := if i ≤ 1 then .dir else .reg
  size _ := 0
  locked _ := false
  root_lt := by cases file <;> exact Nat.succ_pos _
  entries_lt d e he := by
    cases file <;> simp only [Option.elim, Option.toList, List.map] at he ⊢ <;> split at he
    all_goals first | split at he | skip
    all_goals simp_all
  parent_lt _ _ := by cases file <;> exact Nat.succ_pos _
  link_entries _ h := absurd rfl h
  unused i hi := by
    cases file <;> simp only [Option.elim] at hi <;> rw [if_neg (by omega), if_neg (by omega)]
  root_dir := rfl
  dirs i hi := by
    by_cases hle : i ≤ 1
    · rw [if_pos hle] at hi
      exact absurd rfl hi
    · rw [if_neg (by omega), if_neg (by omega)]
  links i := by split <;> simp

def permissive : Env where
  denied _ := none
  refused _ := none
  skipped _ := false
  tempDirectory := some ['/', 't']
  dontPollute := false
  temp_canonical path h := by
    cases h
    exact ⟨[⟨['t'], by decide, by decide, by decide⟩], rfl⟩

def uninitialized : State := ⟨rootfs none, insortBinding3 .empty ['/', 'r'] ['/'], none, []⟩

theorem uninitialized_initial : Initial uninitialized := by
  have hempty : Bindings.empty.Sorted := by
    constructor <;> simp [Bindings.empty, Lib.DeepestFirst]
  have hrootfs : Canonical ['/', 'r'] := ⟨[⟨['r'], by decide, by decide, by decide⟩], rfl⟩
  obtain ⟨hsorted, -, hpaths, -⟩ := hempty.insort3 hrootfs ⟨[], rfl⟩
  exact ⟨hsorted, (hpaths _).mpr (.inl rfl), rfl, rfl⟩

/-- The file `/b` of the guest is bound to. -/
def bound : State :=
  perform permissive uninitialized (.look .finalNormal [] (letter 'b' rfl) .reg)

theorem bound_reach : (initialization permissive).Reach Lib.System.Always bound :=
  .next (.start uninitialized_initial) trivial rfl

theorem bound_placeholders : bound.placeholders = [⟨['/', 'r', '/', 'b'], 3⟩] := rfl

/-- The placeholder is gone when nothing was done to it. -/
theorem placeholders_iff_bound :
    Gone (freePlaceholders permissive bound.placeholders bound.fs) ⟨['/', 'r', '/', 'b'], 3⟩ := by
  refine ((placeholders_iff bound_reach).2.2 permissive bound.fs).1
    (fun p => p = ⟨['/', 'r', '/', 'b'], 3⟩) ?_ _ rfl
  constructor
  case recorded =>
    rintro p rfl
    exact List.mem_singleton_self _
  case placed =>
    rintro p rfl
    rfl
  case free =>
    rintro p rfl
    refine ⟨rfl, fun d hd => ?_⟩
    cases hd
    rfl
  case empty =>
    rintro p rfl -
    rfl
  case holds =>
    rintro p rfl hdir
    exact absurd hdir (by decide)

/-- **A file of the guest is removed**: it has removed the placeholder, and made an empty file. -/
theorem not_keepsGuest : ¬ ∀ (env : Env) (s : State),
    (initialization env).Reach Lib.System.Always s → ∀ (exit : Env) (fs : Fs),
      KeepsGuest exit s.placeholders fs := by
  intro hall
  obtain ⟨p, hp, hnode⟩ := hall permissive bound bound_reach permissive (rootfs (some 2)) 1
    ⟨['b'], by decide, by decide, by decide⟩ 4 rfl (by decide)
  rw [bound_placeholders] at hp
  cases List.mem_singleton.mp hp
  cases hnode

end Improot.Path.Placeholder
