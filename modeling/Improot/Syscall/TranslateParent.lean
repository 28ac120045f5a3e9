import Improot.Path.GuestTable
import Improot.Path.Length
import Improot.Path.Straight
import Improot.Syscall.NameSpace

/-!
# Translating the parent only

`translate_path2_parent` of `syscall/enter.c` splits a path at its last separator, translates the
directory and leaves the last component to the kernel.  It is compared with `translate_path2`, which
translates the whole path without following a final link.
-/

namespace Improot.Syscall

open Improot.Path
open Lib (pieces Resolves IsName)
open Lib.PrefixTable (resolve)

/-! ## The two functions -/

inductive PathType where
  | regular | symlink
  deriving DecidableEq, Repr

/-- `translate_path2`: the path that is put in the place of the argument, if there is one. -/
def translatePath2 (dirFd : DirFd) (path : CString) (type : PathType) : Comp (Option CString) :=
  -- special case where the argument was NULL
  if path = [] then pure none
  else do
    let newPath ← translatePath dirFd path (type ≠ .symlink)
    pure (some newPath)

def splitParent (path : CString) : CString × CString :=
  let (parent, leaf) := splitLast path
  if '/' ∉ path then (['.'], path)
  else if parent = [] then (['/'], leaf)
  else (parent, leaf)

def translatePath2Parent (dirFd : DirFd) (path : CString) : Comp (Option CString) :=
  -- special case where the argument was NULL
  if path = [] then pure none
  else if path.getLast? = some '/' then translatePath2 dirFd path .symlink
  else
    let (parent, leaf) := splitParent path
    if parent.length ≥ pathMax then Comp.fail (.errno .enametoolong)
    else if leaf = [] ∨ leaf = ['.'] ∨ leaf = ['.', '.'] then translatePath2 dirFd path .symlink
    else do
      let translatedParent ← translatePath dirFd parent true
      let translatedPath ← Comp.lift (joinPaths [some translatedParent, some leaf])
      pure (some translatedPath)

/-! ## Where the kernel looks -/

/-- The host directory of a translated path.  The only links that are left in it are those of
descriptors, which lead straight to their files. -/
def hostDirectory (h : Path.Host) (names : List Component) : List Component :=
  match h.lstat (pathOf names), h.readlink (pathOf names) with
  | .ok .lnk, .ok target => namesOf target
  | _, _ => names

def hostEntry (h : Path.Host) (names : List Component) : List Component :=
  hostDirectory h names.dropLast ++ names.getLast?.toList

def hostPlace (t : Bindings) (names : List Component) (finality : Finality) : List Component :=
  match substituteBinding t .guest (withEnding names finality) with
  | .ok (_, hostPath) => namesOf hostPath
  | .error _ => []

/-- The two translations of a path agree: its last component is `leaf`, and its directory leads to
`parent`, or to `dir` when a separator follows it. -/
def LeafAgrees (w : World) (parent dir : List Component) (finality : Finality)
    (leaf : Component) : Prop :=
  match Path.tableOf w.tracee.bindings (dir ++ [leaf]) with
  -- a binding of the entry
  | some host =>
    hostEntry w.host host =
      hostEntry w.host (hostPlace w.tracee.bindings parent finality ++ [leaf])
  -- the directory isn't a descriptor, or it is the one that its guest name leads to
  | none =>
    parent = dir ∨
      hostEntry w.host (hostPlace w.tracee.bindings (dir ++ [leaf]) .finalNormal) =
        hostEntry w.host (hostPlace w.tracee.bindings parent finality ++ [leaf])

/-- The condition for a whole argument; where no component is split off, there is none. -/
def ParentAgrees (w : World) (dirFd : DirFd) (path : CString) : Prop :=
  ∀ base leaf parent dir, path.getLast? ≠ some '/' → (splitParent path).2 = leaf.chars →
    basePath w dirFd path = .ok base →
    Resolves (guestView w) true (wantsDir (joined base (splitParent path).1)) []
      (stepsOf (joined base (splitParent path).1)) parent →
    Resolves (guestView w) true true [] (stepsOf (joined base (splitParent path).1)) dir →
    LeafAgrees w parent dir (endingOf (joined base (splitParent path).1)) leaf

/-! ## A translation -/

variable {parent path : CString} {leaf : Component}

theorem translatePath_place {w w' : World} (hs : Silent w) (hwalk : Walkable w) {dirFd : DirFd}
    {r : CString} {derefFinal : Bool} (h : translatePath dirFd path derefFinal w = (.ok r, w')) :
    ∃ base names substituted, basePath w dirFd path = .ok base ∧ base.head? = some '/' ∧
      Resolves (guestView w) derefFinal (wantsDir (joined base path)) []
        (stepsOf (joined base path)) names ∧
      (withEnding names (endingOf (joined base path))).length < pathMax ∧
      substituteBinding w.tracee.bindings .guest
        (withEnding names (endingOf (joined base path))) = .ok (substituted, r) := by
  simp only [translatePath, Comp.get_bind, Comp.liftFailure_bind_eq_ok, Comp.lift_bind_eq_ok,
    hs.guestPath] at h
  obtain ⟨base, hbase, answer, hanswer, h⟩ := h
  cases hanswer
  rw [Comp.bind_eq_ok] at h
  obtain ⟨result, v, htranslate, h⟩ := h
  rw [Comp.lift_bind_eq_ok, hs.translatedPath] at h
  obtain ⟨_, hresult, h⟩ := h
  cases hresult
  obtain ⟨rfl, rfl⟩ := Comp.pure_eq_ok.mp h
  simp only [translateUnlessAnswered, gt_iff_lt, Nat.lt_irrefl, if_false, translateCanonical]
    at htranslate
  split at htranslate
  · cases htranslate
  rename_i habsolute
  have habsolute : base.head? = some '/' := not_not.mp habsolute
  rw [Comp.lift_bind_eq_ok] at htranslate
  obtain ⟨whole, hjoin, htranslate⟩ := htranslate
  obtain rfl := joinPaths_ok hjoin
  rw [Comp.bind_eq_ok] at htranslate
  obtain ⟨p, v, hcanon, htranslate⟩ := htranslate
  rw [Comp.get_bind, Comp.lift_bind_eq_ok] at htranslate
  obtain ⟨⟨substituted, r'⟩, hsub, hpure⟩ := htranslate
  obtain ⟨rfl, rfl⟩ := Comp.pure_eq_ok.mp hpure
  have hhead : (joined base path).head? = some '/' := joined_absolute habsolute
  obtain ⟨rfl, names, rfl, hplace⟩ := canonicalize_finds hwalk (.inl hhead) hcanon
  refine ⟨base, names, substituted, hbase, habsolute, ?_, canonicalize_length hcanon, hsub⟩
  rwa [show (routeOf (joined base path)).start (namesOf ['/']) = [] by
    simp [Lib.Route.start, routeOf, hhead]] at hplace

/-! ## Splitting -/

theorem splitParent_name (h : '/' ∉ path) :
    splitParent path = (['.'], path) := by
  unfold splitParent
  dsimp only
  rw [if_pos h]

theorem splitParent_append {pre leaf : CString} (h : '/' ∉ leaf) :
    splitParent (pre ++ '/' :: leaf) = (if pre = [] then ['/'] else pre, leaf) := by
  have hleaf : (List.takeWhile (· ≠ '/') (pre ++ '/' :: leaf).reverse).reverse = leaf := by
    rw [List.reverse_append, List.reverse_cons, List.append_assoc, List.singleton_append,
      List.takeWhile_append_of_pos, List.takeWhile_cons_of_neg (by simp), List.append_nil,
      List.reverse_reverse]
    intro c hc
    rw [List.mem_reverse] at hc
    rw [decide_eq_true_eq]
    rintro rfl
    exact h hc
  have hmem : ¬ '/' ∉ pre ++ '/' :: leaf := by simp
  have hlength : (pre ++ '/' :: leaf).length - leaf.length - 1 = pre.length := by
    rw [List.length_append, List.length_cons]
    omega
  unfold splitParent splitLast
  dsimp only
  rw [hleaf, hlength, List.take_left', if_neg hmem]
  · split <;> rfl
  · rfl

theorem exists_last_separator (h : '/' ∈ path) :
    ∃ pre leaf, path = pre ++ '/' :: leaf ∧ '/' ∉ leaf := by
  obtain ⟨as, bs, hsplit, hnot⟩ := List.eq_append_cons_of_mem (List.mem_reverse.mpr h)
  refine ⟨bs.reverse, as.reverse, ?_, ?_⟩
  · rw [← List.reverse_reverse path, hsplit]
    simp
  · simpa using hnot

/-- A path whose last component is a name: what precedes it, as components. -/
structure Splits (path parent : CString) (leaf : Component) : Prop where
  steps : stepsOf path = stepsOf parent ++ [.name leaf]
  last : (pieces '/' path).getLast? = some leaf.chars
  absolute : path.head? = some '/' ↔ parent.head? = some '/'

theorem splitParent_splits
    (h : (splitParent path).2 = leaf.chars) : Splits path (splitParent path).1 leaf := by
  have hleaf : pieces '/' leaf.chars = [leaf.chars] := Lib.pieces_name leaf.isName
  have hdot : stepsOf ['.'] = [] := by decide
  have hstep : [leaf.chars].filterMap stepOf = [.name leaf] := by
    rw [List.filterMap_cons, stepOf_component, List.filterMap_nil]
  by_cases hsep : '/' ∈ path
  · obtain ⟨pre, last, rfl, hlast⟩ := exists_last_separator hsep
    rw [splitParent_append hlast] at h ⊢
    dsimp only at h ⊢
    subst h
    have hparent : pieces '/' (if pre = [] then ['/'] else pre) = pieces '/' pre := by
      split
      · rename_i hnil
        subst hnil
        rfl
      · rfl
    refine ⟨?_, ?_, ?_⟩
    · rw [stepsOf, stepsOf, hparent, Lib.pieces_append_sep, List.filterMap_append, hleaf, hstep]
    · rw [Lib.pieces_append_sep, hleaf, List.getLast?_append]
      simp
    · cases pre with
      | nil | cons => simp
  · rw [splitParent_name hsep] at h ⊢
    dsimp only at h ⊢
    subst h
    refine ⟨?_, ?_, ?_⟩
    · rw [hdot, List.nil_append, stepsOf, hleaf, hstep]
    · rw [hleaf]
      rfl
    · simp [leaf.head?_chars]

theorem Splits.basePath_eq (h : Splits path parent leaf) (w : World) (dirFd : DirFd) :
    basePath w dirFd path = basePath w dirFd parent := by
  unfold basePath
  by_cases habsolute : path.head? = some '/'
  · rw [if_pos habsolute, if_pos (h.absolute.mp habsolute)]
  · rw [if_neg habsolute, if_neg (mt h.absolute.mpr habsolute)]

theorem Splits.joined_steps {base : CString} (h : Splits path parent leaf) (hbase : base ≠ []) :
    stepsOf (joined base path) = stepsOf (joined base parent) ++ [.name leaf] := by
  have hsteps := h.steps
  unfold stepsOf at hsteps ⊢
  rw [pieces_joined hbase, pieces_joined hbase, List.filterMap_append, List.filterMap_append,
    hsteps, List.append_assoc]

theorem joined_getLast? {base : CString} (hpath : path ≠ []) (hlast : path.getLast? ≠ some '/') :
    (joined base path).getLast? = path.getLast? := by
  unfold joined
  split_ifs with hsep hsame
  · rw [List.getLast?_append_of_ne_nil _ (by simp), List.getLast?_cons_of_ne_nil hpath]
  · obtain ⟨cs, rfl⟩ := List.head?_eq_some_iff.mp hsame.2.2
    have hcs : cs ≠ [] := by
      rintro rfl
      exact hlast rfl
    rw [List.tail_cons, List.getLast?_append_of_ne_nil _ hcs, List.getLast?_cons_of_ne_nil hcs]
  · rw [List.getLast?_append_of_ne_nil _ hpath]

theorem Splits.joined_ending {base : CString}
    (h : Splits path parent leaf) (hbase : base ≠ []) (hlast : path.getLast? ≠ some '/') :
    endingOf (joined base path) = .finalNormal := by
  have hpath : path ≠ [] := by
    rintro rfl
    have := h.last
    simp at this
  have hpieces : (pieces '/' (joined base path)).getLast? = some leaf.chars := by
    rw [pieces_joined hbase, List.getLast?_append, h.last, Option.some_or]
  rw [endingOf, hpieces]
  dsimp only
  rw [if_neg leaf.notDot, if_neg]
  rw [joined_getLast? hpath hlast]
  exact not_or.mpr ⟨leaf.notDotDot, hlast⟩

/-! ## Substituting -/

theorem hostPlace_eq {t : Bindings} {names : List Component} {finality : Finality}
    {substituted : Bool} {r : CString}
    (h : substituteBinding t .guest (withEnding names finality) = .ok (substituted, r)) :
    hostPlace t names finality = namesOf r := by
  rw [hostPlace, h]

theorem namesOf_withEnding (names : List Component) (finality : Finality) :
    namesOf (withEnding names finality) = names := by
  have hdot : Component.of? ['.'] = none := by decide
  have hnames := namesOf_pathOf names
  rw [namesOf, pieces_pathOf] at hnames
  rw [namesOf, pieces_withEnding, List.filterMap_append, hnames]
  split
  · simp [hdot]
  · simp

theorem namesOf_joined (h : path ≠ []) (leaf : Component) :
    namesOf (joined path leaf.chars) = namesOf path ++ [leaf] := by
  rw [namesOf, pieces_joined h, List.filterMap_append, Lib.pieces_name leaf.isName,
    List.filterMap_cons, Component.of?_chars]
  rfl

theorem length_pathOf_concat (names : List Component) (leaf : Component) :
    (pathOf (names ++ [leaf])).length =
      (if names = [] then 0 else (pathOf names).length) + 1 + leaf.chars.length := by
  by_cases hn : names = []
  · subst hn
    simp [pathOf, Lib.render_singleton]
    omega
  · rw [if_neg hn, pathOf_concat hn, List.length_append, List.length_cons]
    omega

theorem length_withEnding_le (names : List Component) (finality : Finality) :
    (withEnding names finality).length ≤ (if names = [] then 0 else (pathOf names).length) + 2 := by
  by_cases hn : names = []
  · subst hn
    cases finality <;> decide
  · rw [if_neg hn, withEnding_eq hn, List.length_append]
    cases finality with
    | notFinal | finalNormal => simp [Finality.mark]
    | finalSlash | finalDot => simp [Finality.mark]

theorem length_joined_withEnding (names : List Component) (finality : Finality)
    (leaf : Component) :
    (pathOf (names ++ [leaf])).length ≤ (joined (withEnding names finality) leaf.chars).length := by
  have hhead := leaf.head?_chars
  rw [length_pathOf_concat]
  by_cases hn : names = []
  · subst hn
    rw [if_pos rfl, withEnding_nil]
    split
    · simp [joined, hhead]
      omega
    · simp [joined, hhead]
      omega
  · rw [if_neg hn, withEnding_eq hn]
    cases finality with
    | notFinal | finalNormal =>
        simp [Finality.mark, joined, pathOf_getLast? hn, hhead, pathOf_ne_nil]
        omega
    | finalSlash | finalDot =>
        simp [Finality.mark, joined, hhead]
        omega

theorem namesOf_substitution (names host : List Component) (finality : Finality) :
    namesOf (substitution names host finality).2 =
      if host = names ∨ FitsNames names host finality then host else names := by
  unfold substitution
  by_cases hsame : host = names
  · rw [if_pos hsame, if_pos (.inl hsame), namesOf_withEnding, hsame]
  rw [if_neg hsame]
  by_cases hfits : FitsNames names host finality
  · rw [if_pos hfits, if_pos (.inr hfits)]
    exact namesOf_withEnding _ _
  · rw [if_neg hfits, if_neg (not_or.mpr ⟨hsame, hfits⟩)]
    exact namesOf_withEnding _ _

theorem pathOf_concat_ne_root (names : List Component) (leaf : Component) (finality : Finality) :
    withEnding (names ++ [leaf]) finality ≠ ['/'] := by
  intro hroot
  have hnil := (withEnding_eq_root.mp hroot).1
  simp at hnil

theorem fitsNames_concat {names host : List Component} :
    FitsNames (names ++ [leaf]) host .finalNormal ↔ (pathOf host).length < pathMax := by
  unfold FitsNames substituted
  rw [if_neg (pathOf_concat_ne_root names leaf _), if_neg (pathOf_concat_ne_root names leaf _)]
  rfl

theorem fitsNames_of_concat {names host : List Component} (finality : Finality)
    (h : (pathOf (host ++ [leaf])).length < pathMax) : FitsNames names host finality := by
  have hpos := List.length_pos_of_ne_nil leaf.isName.1
  have hplain : (withEnding host .finalNormal).length ≤
      (if host = [] then 0 else (pathOf host).length) + 1 := by
    by_cases hh : host = []
    · subst hh
      decide
    · rw [if_neg hh]
      exact Nat.le_succ _
  have hending := length_withEnding_le host finality
  rw [length_pathOf_concat] at h
  unfold FitsNames substituted
  by_cases hroot : withEnding names finality = ['/']
  · rw [if_pos hroot, if_pos hroot]
    omega
  · rw [if_neg hroot, if_neg hroot]
    omega

/-- **No binding of the entry**: it is below the directory on the host too. -/
theorem substituteBinding_leaf {t : Bindings} (h : t.Sorted) (hroot : t.Rooted)
    {dir : List Component} {finality : Finality} {substituted substituted' : Bool}
    {whole : CString} (hnone : Path.tableOf t (dir ++ [leaf]) = none)
    (hlength : (withEnding dir finality).length < pathMax)
    (hlength' : (pathOf (dir ++ [leaf])).length < pathMax)
    (hparent : substituteBinding t .guest (withEnding dir finality) = .ok (substituted, parent))
    (hwhole : substituteBinding t .guest (withEnding (dir ++ [leaf]) .finalNormal) =
      .ok (substituted', whole))
    (hjoin : (joined parent leaf.chars).length < pathMax) :
    namesOf whole = namesOf parent ++ [leaf] := by
  obtain ⟨host, hresolve, hsub⟩ := substituteBinding_resolve h hroot hlength
  obtain ⟨host', hresolve', hsub'⟩ := substituteBinding_resolve h hroot
    (show (withEnding (dir ++ [leaf]) .finalNormal).length < pathMax from hlength')
  have hhost : host' = host ++ [leaf] := by
    have hbelow : resolve (Path.tableOf t) (dir ++ [leaf]) =
        (resolve (Path.tableOf t) dir).map (· ++ [leaf]) := by
      rw [Lib.PrefixTable.resolve_concat, hnone, Option.none_or]
    rw [hresolve', hresolve] at hbelow
    exact Option.some.inj hbelow
  subst hhost
  rw [hsub, Except.ok.injEq] at hparent
  rw [hsub', Except.ok.injEq] at hwhole
  have hparent : parent = (substitution dir host finality).2 := (congrArg Prod.snd hparent).symm
  have hwhole : whole = (substitution (dir ++ [leaf]) (host ++ [leaf]) .finalNormal).2 :=
    (congrArg Prod.snd hwhole).symm
  rw [hwhole, namesOf_substitution]
  by_cases hsame : host = dir
  · rw [hparent, namesOf_substitution, if_pos (.inl (by rw [hsame])), if_pos (.inl hsame)]
  have hdiff : host ++ [leaf] ≠ dir ++ [leaf] := fun heq => hsame (List.append_cancel_right heq)
  by_cases hfits : (pathOf (host ++ [leaf])).length < pathMax
  · rw [if_pos (.inr (fitsNames_concat.mpr hfits)), hparent, namesOf_substitution,
      if_pos (.inr (fitsNames_of_concat finality hfits))]
  · rw [if_neg (not_or.mpr ⟨hdiff, mt fitsNames_concat.mp hfits⟩), hparent,
      namesOf_substitution, if_neg]
    rintro (heq | hroom)
    · exact hsame heq
    -- the host path of the parent fits, but not the path that is joined to it
    · rw [substitution, if_neg hsame, if_pos hroom] at hparent
      rw [hparent] at hjoin
      exact hfits (Nat.lt_of_le_of_lt (length_joined_withEnding _ _ _) hjoin)

/-! ## The comparison -/

theorem splitParent_leaf (hleaf : (splitParent path).2 ≠ [])
    (hdot : (splitParent path).2 ≠ ['.']) (hdots : (splitParent path).2 ≠ ['.', '.']) :
    ∃ leaf : Component, (splitParent path).2 = leaf.chars := by
  have hsep : '/' ∉ (splitParent path).2 := by
    by_cases hmem : '/' ∈ path
    · obtain ⟨pre, leaf, rfl, hnot⟩ := exists_last_separator hmem
      rw [splitParent_append hnot]
      exact hnot
    · rw [splitParent_name hmem]
      exact hmem
  exact ⟨⟨_, ⟨hleaf, hsep⟩, hdot, hdots⟩, rfl⟩

theorem leafAgrees_iff {w : World} (h : w.tracee.bindings.Sorted)
    (hroot : w.tracee.bindings.Rooted)
    (hstored : ∀ b ∈ w.tracee.bindings.guest, b.host.length < pathMax)
    {parent dir : List Component} {finality : Finality}
    {substituted substituted' : Bool} {hostParent whole : CString}
    (hlength : (withEnding parent finality).length < pathMax)
    (hlength' : (pathOf (dir ++ [leaf])).length < pathMax)
    (hparent : substituteBinding w.tracee.bindings .guest (withEnding parent finality) =
      .ok (substituted, hostParent))
    (hwhole : substituteBinding w.tracee.bindings .guest (withEnding (dir ++ [leaf]) .finalNormal) =
      .ok (substituted', whole))
    (hjoin : (joined hostParent leaf.chars).length < pathMax) :
    LeafAgrees w parent dir finality leaf ↔
      hostEntry w.host (namesOf whole) = hostEntry w.host (namesOf hostParent ++ [leaf]) := by
  unfold LeafAgrees
  rw [hostPlace_eq hparent, hostPlace_eq hwhole]
  cases htable : Path.tableOf w.tracee.bindings (dir ++ [leaf]) with
  | some host =>
      obtain ⟨b, hb, -, hhost⟩ := (Path.tableOf_eq_some h).mp htable
      obtain ⟨host', hresolve, hsub⟩ := substituteBinding_resolve h hroot
        (show (withEnding (dir ++ [leaf]) .finalNormal).length < pathMax from hlength')
      rw [Lib.PrefixTable.resolve_of_some htable, Option.some.injEq] at hresolve
      subst hresolve
      rw [hwhole, Except.ok.injEq] at hsub
      have hwhole : whole = (substitution (dir ++ [leaf]) host .finalNormal).2 :=
        congrArg Prod.snd hsub
      have hroom : (pathOf host).length < pathMax := hhost ▸ hstored b hb
      rw [hwhole, namesOf_substitution, if_pos (.inr (fitsNames_concat.mpr hroom))]
  | none =>
      constructor
      · rintro (rfl | hentry)
        · rw [substituteBinding_leaf h hroot htable hlength hlength' hparent hwhole hjoin]
        · exact hentry
      · exact .inr

/-- **The two translations agree** on the entry that they designate, if and only if the condition
holds for the last component of the path. -/
theorem translatePath2Parent_agrees_iff {w w₁ w₂ : World} (hs : Silent w) (hlaws : HostLaws w)
    (h : w.tracee.bindings.Sorted) (hroot : w.tracee.bindings.Rooted)
    (hstored : ∀ b ∈ w.tracee.bindings.guest, b.host.length < pathMax) {dirFd : DirFd}
    {path byParent whole : CString}
    (hparent : translatePath2Parent dirFd path w = (.ok (some byParent), w₁))
    (hwhole : translatePath2 dirFd path .symlink w = (.ok (some whole), w₂)) :
    hostEntry w.host (namesOf byParent) = hostEntry w.host (namesOf whole) ↔
      ParentAgrees w dirFd path := by
  have hwalk : Walkable w := ⟨h.wellFormed hroot, hs.toQuiet, hlaws⟩
  by_cases hnil : path = []
  · rw [translatePath2Parent, if_pos hnil] at hparent
    cases hparent
  by_cases hslash : path.getLast? = some '/'
  · rw [translatePath2Parent, if_neg hnil, if_pos hslash, hwhole] at hparent
    cases hparent
    refine ⟨fun _ => ?_, fun _ => rfl⟩
    intro base leaf parent dir hlast
    exact absurd hslash hlast
  rw [translatePath2Parent, if_neg hnil, if_neg hslash] at hparent
  dsimp only at hparent
  split at hparent
  · cases hparent
  split at hparent
  · rename_i hdots
    rw [hwhole] at hparent
    cases hparent
    refine ⟨fun _ => ?_, fun _ => rfl⟩
    intro base leaf parent dir _ hleaf
    rw [hleaf] at hdots
    rcases hdots with hempty | hdot | hdots
    · exact absurd hempty leaf.isName.1
    · exact absurd hdot leaf.notDot
    · exact absurd hdots leaf.notDotDot
  rename_i hdots
  obtain ⟨hempty, hdots⟩ := not_or.mp hdots
  obtain ⟨hdot, hdots⟩ := not_or.mp hdots
  obtain ⟨leaf, hleaf⟩ := splitParent_leaf hempty hdot hdots
  have hsplits := splitParent_splits hleaf
  rw [Comp.bind_eq_ok] at hparent
  obtain ⟨hostParent, v, htranslate, hparent⟩ := hparent
  rw [Comp.lift_bind_eq_ok] at hparent
  obtain ⟨byParent', hjoin, hparent⟩ := hparent
  cases hparent
  rw [translatePath2, if_neg hnil, Comp.bind_eq_ok] at hwhole
  obtain ⟨whole', v', htranslate', hwhole⟩ := hwhole
  cases hwhole
  obtain ⟨base, parent, substituted, hbase, habsolute, hres, hlength, hsub⟩ :=
    translatePath_place hs hwalk htranslate
  obtain ⟨base', names, substituted', hbase', -, hres', hlength', hsub'⟩ :=
    translatePath_place hs hwalk htranslate'
  rw [hsplits.basePath_eq, hbase, Except.ok.injEq] at hbase'
  subst hbase'
  have hne : base ≠ [] := by
    rintro rfl
    cases habsolute
  have hending := hsplits.joined_ending hne hslash
  rw [hending] at hlength' hsub'
  rw [wantsDir, hending, hsplits.joined_steps hne] at hres'
  obtain ⟨dir, hdir, rfl⟩ := hres'.of_append_name
  have hhost : hostParent ≠ [] := (substituteBinding_ended h hroot ⟨_, _, rfl⟩ hsub).ne_nil
  have hnames : namesOf byParent = namesOf hostParent ++ [leaf] := by
    rw [joinPaths_ok hjoin, hleaf, namesOf_joined hhost]
  have hroom : (joined hostParent leaf.chars).length < pathMax := by
    rw [← hleaf, ← joinPaths_ok hjoin]
    exact Nat.lt_of_succ_lt (joinPaths_length hjoin)
  have hiff := leafAgrees_iff h hroot hstored hlength hlength' hsub hsub' hroom
  rw [hnames, eq_comm, ← hiff]
  constructor
  · intro hagrees base' leaf' parent' dir' _ hleaf' hbase' hparent' hdir'
    rw [hsplits.basePath_eq, hbase, Except.ok.injEq] at hbase'
    subst hbase'
    obtain rfl : leaf = leaf' := Component.ext (hleaf.symm.trans hleaf')
    obtain rfl := hres.functional hparent'
    obtain rfl := hdir.functional hdir'
    exact hagrees
  · intro hagrees
    exact hagrees base leaf parent dir hslash hleaf (by rw [hsplits.basePath_eq, hbase]) hres hdir

/-! ## A binding of the last component -/

theorem mountedNameSpace_silent : Silent mountedNameSpace.world where
  glue := rfl
  hostPath _ _ := rfl
  guestPath _ _ := rfl
  translatedPath _ := rfl

theorem mountedNameSpace_laws : HostLaws mountedNameSpace.world := by
  refine ⟨⟨nofun, nofun⟩, ?_, by decide⟩
  intro path _ hlink
  cases hlink

theorem translatePath2Parent_agrees_below :
    hostEntry mountedNameSpace.world.host (namesOf ['/', 'p', 'r', 'o', 'c', '/', 'x']) =
        hostEntry mountedNameSpace.world.host (namesOf ['/', 'p', 'r', 'o', 'c', '/', 'x']) ↔
      ParentAgrees mountedNameSpace.world .cwd (mntA ++ ['/', 'x']) := by
  obtain ⟨hsorted, hrooted⟩ := reached_sorted mountedNameSpace_reached rfl
  have hparent : translatePath2Parent .cwd (mntA ++ ['/', 'x']) mountedNameSpace.world =
      (.ok (some ['/', 'p', 'r', 'o', 'c', '/', 'x']), mountedNameSpace.world) := rfl
  have hwhole : translatePath2 .cwd (mntA ++ ['/', 'x']) .symlink mountedNameSpace.world =
      (.ok (some ['/', 'p', 'r', 'o', 'c', '/', 'x']), mountedNameSpace.world) := rfl
  exact translatePath2Parent_agrees_iff mountedNameSpace_silent mountedNameSpace_laws hsorted
    hrooted (by decide) hparent hwhole

/-- The mount itself: the parent is translated to "/mnt", where the entry is another one. -/
theorem translatePath2Parent_misses_binding :
    mountedNameSpace.bindings.Sorted ∧ mountedNameSpace.bindings.Rooted ∧
    translatePath2Parent .cwd mntA mountedNameSpace.world = (.ok (some mntA), mountedNameSpace.world) ∧
    translatePath2 .cwd mntA .symlink mountedNameSpace.world =
      (.ok (some ['/', 'p', 'r', 'o', 'c']), mountedNameSpace.world) ∧
    hostEntry mountedNameSpace.world.host (namesOf mntA) ≠
      hostEntry mountedNameSpace.world.host (namesOf ['/', 'p', 'r', 'o', 'c']) := by
  obtain ⟨hsorted, hrooted⟩ := reached_sorted mountedNameSpace_reached rfl
  exact ⟨hsorted, hrooted, rfl, rfl, by decide⟩

end Improot.Syscall
