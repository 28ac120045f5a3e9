import Improot.Extension.Chroot
import Improot.Path.GuestTable
import Improot.Path.InitializeSpec
import Improot.Path.TranslateSpec
import Improot.Syscall.PivotSpec

/-!
# What an emulated chroot changes

A chroot(2) that is emulated leaves one binding, the one of the new root: every guest path resolves
to what it resolved to below the new root, if nothing was bound there.
-/

namespace Improot.Extension

open Improot.Path Lib.PrefixTable

/-! ## A tree with one binding -/

def rootBinding (host : CString) : Binding :=
  ⟨0, host, ['/'], comparePaths host ['/'] ≠ .pathsAreEqual⟩

/-- The tree after `-r host`. -/
def rootTree (host : CString) : Bindings := ⟨[], [rootBinding host], [rootBinding host], 1⟩

/-- What realpath(3) promises besides: its results are their own, and none goes through
"/proc/self". -/
structure RealpathStable (l : Launcher) : Prop where
  again : ∀ path result, l.realpath path = .ok result → l.realpath result = .ok result
  self : ∀ path result, l.realpath path = .ok result → isProcSelf result = false

variable {l : Launcher} {path : CString} {w : World} {c : Chroot}

theorem newBinding_empty (h : RealpathStable l) {host : CString}
    (hreal : l.realpath path = .ok host) :
    newBinding l .empty host (some ['/']) = .ok ⟨[⟨0, host, ['/'], false⟩], [], [], 1⟩ := by
  have hhost : sanitizeHost l host = .ok host := by
    unfold sanitizeHost
    rw [h.self path host hreal, h.again path host hreal]
    rfl
  unfold newBinding
  rw [hhost]
  rfl

theorem initializeBindings_root (host : CString) (w : World) :
    (setBindings ⟨[⟨0, host, ['/'], false⟩], [], [], 1⟩ >>= fun _ => initializeBindings) w =
      (.ok (), { w with tracee := { w.tracee with bindings := rootTree host } }) := by
  rfl

theorem replaceBindings_root (h : RealpathStable l) {host : CString}
    (hreal : l.realpath path = .ok host) (w : World) : replaceBindings l host w =
      (.ok (), { w with tracee := { w.tracee with bindings := rootTree host } }) := by
  unfold replaceBindings
  rw [newBinding_empty h hreal]
  exact initializeBindings_root host w

variable {R : List Component}

theorem rootTree_sorted (R : List Component) : (rootTree (pathOf R)).Sorted where
  clean := by
    intro b hb
    obtain rfl := List.mem_singleton.mp hb
    exact ⟨⟨R, rfl⟩, ⟨[], rfl⟩⟩
  need := by
    intro b hb
    obtain rfl := List.mem_singleton.mp hb
    have hroot : Tidy ['/'] := pathOf_tidy []
    simp only [rootBinding, ne_eq, decide_not, Bool.not_eq_true', decide_eq_false_iff_not,
      (pathOf_tidy R).comparePaths_eq_pathsAreEqual hroot]
  distinct := List.nodup_singleton _
  guestOrder := List.pairwise_singleton _ _
  hostOrder := List.pairwise_singleton _ _
  same := List.Perm.refl _
  nodes := List.nodup_singleton _
  fresh := by
    intro b hb
    obtain rfl := List.mem_singleton.mp hb
    exact Nat.zero_lt_one

theorem resolve_rootTree (R p : List Component) :
    resolve (tableOf (rootTree (pathOf R))) p = some (R ++ p) := by
  have hsorted := rootTree_sorted R
  have hentry : tableOf (rootTree (pathOf R)) [] = some R :=
    (tableOf_eq_some hsorted).mpr ⟨rootBinding (pathOf R), List.mem_singleton_self _, rfl, rfl⟩
  have hnone : ∀ q, q ≠ [] → q <+: p → tableOf (rootTree (pathOf R)) ([] ++ q) = none := by
    intro q hne _
    rw [tableOf_eq_none]
    intro b hb hguest
    obtain rfl := List.mem_singleton.mp hb
    exact hne (pathOf_eq_root.mp hguest.symm)
  have happend := resolve_append hnone
  rwa [List.nil_append, resolve_of_some hentry, Option.map_some] at happend

/-! ## The current directory -/

/-- No binding of the new tree is found from the host's point of view: inside the new root it is
taken for a false positive. -/
theorem getBinding_rootTree (hR : R ≠ []) (path : CString) :
    getBinding (rootTree (pathOf R)) .host path = none := by
  have hroot : comparePaths (pathOf R) ['/'] ≠ .pathsAreEqual := by
    have hslash : Tidy ['/'] := pathOf_tidy []
    rw [ne_eq, (pathOf_tidy R).comparePaths_eq_pathsAreEqual hslash]
    exact fun h => hR (pathOf_eq_root.mp h)
  have hcovers : ¬ covers (rootTree (pathOf R)) .host path (rootBinding (pathOf R)) = true := by
    simp only [covers, belongsToGuestfs, getRoot, rootTree, rootBinding, Binding.path,
      decide_eq_true_eq, List.getLast?_singleton]
    rintro ⟨hin, hrule⟩
    exact hrule ⟨trivial, hroot, decide_eq_true hin⟩
  exact List.find?_eq_none.mpr fun b hb => List.mem_singleton.mp hb ▸ hcovers

theorem removeRoot_inside (hR : R ≠ []) (more : List Component) (finality : Finality) :
    ∃ n finality', removeRoot (rootTree (pathOf R)) true (withEnding (R ++ more) finality) =
      .ok (n + 1, withEnding more finality') := by
  have hlength : (pathOf R).length ≠ 1 := fun h => hR (pathOf_length_eq_one.mp h)
  have hpath := withEnding_append hR more finality
  have hne : withEnding (R ++ more) finality ≠ [] := Ended.ne_nil ⟨_, _, rfl⟩
  have hwithin : Within (stem (pathOf R)) (stem (withEnding (R ++ more) finality)) :=
    within_withEnding (List.prefix_append R more) finality
  have hroot : getRoot (rootTree (pathOf R)) = pathOf R := rfl
  unfold removeRoot
  rw [hroot]
  cases hcmp : comparePaths (pathOf R) (withEnding (R ++ more) finality) with
  | pathsAreEqual =>
      -- nothing is left below the root
      rw [comparePaths_eq_pathsAreEqual (pathOf_ne_nil R) hne] at hcmp
      have hnames := within_withEnding (List.prefix_refl (R ++ more)) finality
      rw [← hcmp, within_pathOf] at hnames
      have hmore : more = [] := by
        have hle := hnames.length_le
        rw [List.length_append] at hle
        exact List.eq_nil_of_length_eq_zero (by omega)
      exact ⟨1, .finalNormal, by rw [hmore]; rfl⟩
  | path1IsPrefix =>
      rw [comparePaths_eq_path1IsPrefix (pathOf_ne_nil R) hne] at hcmp
      dsimp only
      rw [if_neg hlength, hpath, List.drop_left]
      refine ⟨(tailOf more finality).length, finality, ?_⟩
      by_cases hmore : more = []
      · subst hmore
        cases finality with
        | finalSlash | finalDot => rfl
        | notFinal | finalNormal =>
            rw [List.append_nil] at hcmp
            exact absurd hcmp (Below.irrefl _)
      · rw [tailOf, if_neg hmore, withEnding_eq hmore]
  | path2IsPrefix | pathsAreNotComparable =>
      have hor := (comparePaths_within (pathOf_ne_nil R) hne).mpr hwithin
      rw [hcmp] at hor
      cases hor <;> contradiction

theorem removeRoot_outside {names : List Component} (h : ¬ R <+: names) (finality : Finality) :
    removeRoot (rootTree (pathOf R)) true (withEnding names finality) =
      .error (.errno .eperm) := by
  have hne : withEnding names finality ≠ [] := Ended.ne_nil ⟨_, _, rfl⟩
  have hout : ¬ Within (stem (pathOf R)) (stem (withEnding names finality)) :=
    fun hwithin => h (prefix_of_within hwithin)
  rw [← comparePaths_within (pathOf_ne_nil R) hne, not_or] at hout
  have hroot : getRoot (rootTree (pathOf R)) = pathOf R := rfl
  unfold removeRoot
  rw [hroot]
  cases hcmp : comparePaths (pathOf R) (withEnding names finality) with
  | pathsAreEqual => exact absurd hcmp hout.1
  | path1IsPrefix => exact absurd hcmp hout.2
  | path2IsPrefix | pathsAreNotComparable => rfl

theorem restoreCwd_run (path : CString) (w : World) :
    ∃ cwd, restoreCwd path w = (.ok (), { w with tracee := { w.tracee with cwd := cwd } }) := by
  have hroot : ∀ path', (∃ r, removeRoot w.tracee.bindings true path' = .ok r) ∨
      removeRoot w.tracee.bindings true path' = .error (.errno .eperm) := by
    intro path'
    unfold removeRoot
    cases comparePaths (getRoot w.tracee.bindings) path' with
    | path1IsPrefix | pathsAreEqual => exact .inl ⟨_, rfl⟩
    | path2IsPrefix | pathsAreNotComparable => exact .inr rfl
  have hway : (∃ r, detranslatePath w path none = .ok r) ∨
      ∃ e, detranslatePath w path none = .error (.errno e) := by
    simp only [detranslatePath, if_true]
    split_ifs
    · exact .inr ⟨_, rfl⟩
    · exact .inl ⟨_, rfl⟩
    · cases substituteBinding w.tracee.bindings .host path with
      | ok r =>
          obtain ⟨substituted, _⟩ := r
          cases substituted <;> exact .inl ⟨_, rfl⟩
      | error _ => exact (hroot path).imp_right fun h => ⟨_, h⟩
  unfold restoreCwd
  rw [Comp.get_bind]
  rcases hway with ⟨r, hr⟩ | ⟨e, he⟩
  · rw [hr]
    exact ⟨_, rfl⟩
  · rw [he]
    exact ⟨_, rfl⟩

/-- **The current directory keeps its place below the new root**, or becomes "/". -/
theorem restoreCwd_root (hR : R ≠ []) (hw : w.tracee.bindings = rootTree (pathOf R))
    (names : List Component) (finality : Finality)
    (hlength : (withEnding names finality).length < pathMax) {w' : World}
    (hrun : restoreCwd (withEnding names finality) w = (.ok (), w')) :
    (∀ more, names = R ++ more → ∃ finality', w'.tracee.cwd = withEnding more finality') ∧
      (¬ R <+: names → w'.tracee.cwd = ['/']) := by
  have hway : detranslatePath w (withEnding names finality) none =
      removeRoot (rootTree (pathOf R)) true (withEnding names finality) := by
    simp only [detranslatePath, if_true]
    rw [if_neg (Nat.not_le.mpr hlength), if_neg (fun h => h (withEnding_head? _ _)), hw,
      substituteBinding_none (getBinding_rootTree hR _)]
  unfold restoreCwd at hrun
  rw [Comp.get_bind, hway] at hrun
  constructor
  · rintro more rfl
    obtain ⟨n, finality', hroot⟩ := removeRoot_inside hR more finality
    rw [hroot] at hrun
    cases hrun
    exact ⟨finality', rfl⟩
  · intro hout
    rw [removeRoot_outside hout] at hrun
    cases hrun
    rfl

/-! ## The inversion of the handler -/

theorem initializeBindings_errno (w : World) (e : Errno) :
    (initializeBindings w).1 ≠ .error (.errno e) := by
  have heach : ∀ bs v, (initializeEach bs v).1 ≠ .error (.errno e) := by
    intro bs
    induction bs with
    | nil => exact fun v => (by rintro ⟨⟩)
    | cons b bs ih =>
        intro v
        rw [initializeEach, Comp.bind_run, Comp.attempt]
        cases initializeBinding b v with
        | mk result v' =>
            cases result with
            | ok _ => exact ih v'
            | error failure =>
                cases failure with
                | errno _ => exact ih v'
                | abort => rintro ⟨⟩
  unfold initializeBindings
  rw [Comp.get_bind]
  split_ifs
  · rw [Comp.bind_run]
    have hrun := heach w.tracee.bindings.pending.reverse w
    cases heq : initializeEach w.tracee.bindings.pending.reverse w with
    | mk result v =>
        rw [heq] at hrun
        cases result with
        | ok _ => rintro ⟨⟩
        | error failure => exact hrun
  · rintro ⟨⟩

inductive Outcome (l : Launcher) (c : Chroot) (w : World) : Except Failure ChrootStatus × World → Prop
  | refused (e : Errno) : Outcome l c w (.error (.errno e), w)
  | aborted (w' : World) : Outcome l c w (.error .abort, w')
  | ignored : Outcome l c w (.ok .ignored, w)
  | sameRoot {path : CString} : c.target w = (.ok path, w) →
      comparePaths (getRoot w.tracee.bindings) (c.hostAbsolute l path) = .pathsAreEqual →
      Outcome l c w (.ok .forced, w)
  | changed {path cwd : CString} {w' : World} : c.target w = (.ok path, w) →
      comparePaths (getRoot w.tracee.bindings) (c.hostAbsolute l path) ≠ .pathsAreEqual →
      seenBindUnderNewRoot w.tracee.bindings c.guest = false →
      (translatePath .cwd w.tracee.cwd true w).1 = .ok cwd →
      (replaceBindings l (c.hostAbsolute l path) >>= fun _ => restoreCwd cwd) w = (.ok (), w') →
      Outcome l c w (.ok .forced, w')

theorem Outcome.bind {α : Type} {x : Comp α} {f : α → Comp ChrootStatus} (hx : x.Still w)
    (hf : ∀ a, x w = (.ok a, w) → Outcome l c w (f a w)) : Outcome l c w ((x >>= f) w) := by
  have hworld := hx.snd
  rw [Comp.bind_run]
  cases hrun : x w with
  | mk result w' =>
      rw [hrun] at hworld
      obtain rfl : w' = w := hworld
      cases result with
      | ok a => exact hf a hrun
      | error failure =>
          cases failure with
          | errno e => exact .refused e
          | abort => exact .aborted w'

theorem replaceBindings_errno (l : Launcher) (host : CString) (w : World) (e : Errno) :
    (replaceBindings l host w).1 ≠ .error (.errno e) :=
  initializeBindings_errno _ e

theorem changeRoot_outcome (hglue : w.tracee.glueType = none) (htarget : c.target w = (.ok path, w))
    (hother : comparePaths (getRoot w.tracee.bindings) (c.hostAbsolute l path) ≠ .pathsAreEqual) :
    Outcome l c w (changeRoot l c (c.hostAbsolute l path) w) := by
  unfold changeRoot
  rw [Comp.get_bind]
  split_ifs with hseen hsigsys
  · exact .refused _
  · exact .ignored
  · refine .bind (translatePath_still hglue _ _ _) fun cwd hcwd => ?_
    have hcwd' : (translatePath .cwd w.tracee.cwd true w).1 = .ok cwd := by rw [hcwd]
    cases hreplace : replaceBindings l (c.hostAbsolute l path) w with
    | mk result v =>
        cases result with
        | ok _ =>
            obtain ⟨dir, hrestore⟩ := restoreCwd_run cwd v
            have hrun : (replaceBindings l (c.hostAbsolute l path) >>= fun _ => restoreCwd cwd) w =
                (.ok (), { v with tracee := { v.tracee with cwd := dir } }) := by
              rw [Comp.bind_run, hreplace]
              exact hrestore
            have hforced := Outcome.changed htarget hother (Bool.eq_false_iff.mpr hseen) hcwd' hrun
            rw [Comp.bind_run, hreplace]
            dsimp only
            rw [Comp.bind_run, hrestore]
            exact hforced
        | error failure =>
            cases failure with
            | errno e =>
                have herrno := replaceBindings_errno l (c.hostAbsolute l path) w e
                rw [hreplace] at herrno
                exact absurd rfl herrno
            | abort =>
                rw [Comp.bind_run, hreplace]
                exact .aborted v

theorem Chroot.target_still (hglue : w.tracee.glueType = none) (c : Chroot) :
    c.target.Still w := by
  unfold Chroot.target
  cases c.entry with
  | exit result modified => exact .lift _
  | sigsys => exact .bind (.lift _) fun _ => translatePath_still hglue _ _ _

/-- **The handler succeeds in two ways**, and changes nothing when it doesn't. -/
theorem handleChrootExitEnd_outcome (stat : CString → Except Errno FileType)
    (hglue : w.tracee.glueType = none) :
    Outcome l c w (handleChrootExitEnd l stat c w) := by
  have hemulate : Outcome l c w ((c.target >>= fun path => Comp.get >>= fun v =>
      if comparePaths (getRoot v.tracee.bindings) (c.hostAbsolute l path) = .pathsAreEqual then
        pure .forced
      else
        validateTarget stat c (c.hostAbsolute l path) >>= fun _ =>
          changeRoot l c (c.hostAbsolute l path)) w) := by
    refine .bind (c.target_still hglue) fun path htarget => ?_
    rw [Comp.get_bind]
    split_ifs with hsame
    · exact .sameRoot htarget hsame
    · refine .bind ?_ fun _ _ => changeRoot_outcome hglue htarget hsame
      refine .bind (.lift _) fun type => ?_
      split_ifs
      · exact .fail _
      · exact .pure _
      · exact .bind (.lift _) fun _ => .pure _
  unfold handleChrootExitEnd
  cases c.entry with
  | sigsys =>
      dsimp only
      split_ifs
      · exact hemulate
      · exact .refused _
  | exit result modified =>
      dsimp only
      split_ifs
      · exact hemulate
      · exact .ignored

/-! ## The law -/

structure RootChanged (w w' : World) (root : List Component) : Prop where
  others : w' = { w with tracee := { w.tracee with
    bindings := rootTree (pathOf root), cwd := w'.tracee.cwd } }
  /-- the current directory designates the same directory, or is "/" if this isn't inside the root -/
  cwd : root ≠ [] → ∀ names finality,
    (translatePath .cwd w.tracee.cwd true w).1 = .ok (withEnding names finality) →
    (withEnding names finality).length < pathMax →
    (∀ more, names = root ++ more → ∃ finality', w'.tracee.cwd = withEnding more finality' ∧
      resolve (tableOf w'.tracee.bindings) more = some names) ∧
    (¬ root <+: names → w'.tracee.cwd = ['/'])

/-- Every path resolves to what it resolved to below the new root, if nothing was bound there. -/
def ViewedFrom (w w' : World) (path : CString) (root : List Component) : Prop :=
  ∀ newRoot names finality, path = withEnding names finality →
    resolve (tableOf w.tracee.bindings) newRoot = some names →
    (∀ q, q ≠ [] → tableOf w.tracee.bindings (newRoot ++ q) = none) →
    ∀ p, resolve (tableOf w.tracee.bindings) (newRoot ++ p) = some (names ++ p) ∧
      resolve (tableOf w'.tracee.bindings) p = some (root ++ p)

/-- A binding lies strictly below the directory `names`. -/
def BoundBelow (t : Bindings) (names : List Component) : Prop :=
  ∃ more, more ≠ [] ∧ tableOf t (names ++ more) ≠ none

theorem rootChanged_of_run (hl : l.Lawful) (hstable : RealpathStable l)
    {host cwd : CString} (hreal : l.realpath path = .ok host) {w' : World}
    (hcwd : (translatePath .cwd w.tracee.cwd true w).1 = .ok cwd)
    (hrun : (replaceBindings l host >>= fun _ => restoreCwd cwd) w = (.ok (), w')) :
    ∃ root, host = pathOf root ∧ RootChanged w w' root ∧ ViewedFrom w w' path root := by
  obtain ⟨root, rfl⟩ := hl.realpath path host hreal
  rw [Comp.bind_run, replaceBindings_root hstable hreal] at hrun
  have htree : w'.tracee.bindings = rootTree (pathOf root) ∧
      w' = { w with tracee := { w.tracee with
        bindings := rootTree (pathOf root), cwd := w'.tracee.cwd } } := by
    obtain ⟨dir, hrestore⟩ := restoreCwd_run cwd { w with tracee := { w.tracee with
      bindings := rootTree (pathOf root) } }
    dsimp only at hrun
    rw [hrestore] at hrun
    cases hrun
    exact ⟨rfl, rfl⟩
  refine ⟨root, rfl, ⟨htree.2, ?_⟩, ?_⟩
  · intro hroot names finality htranslated hlength
    obtain rfl : cwd = withEnding names finality := Except.ok.inj (hcwd.symm.trans htranslated)
    obtain ⟨hinside, houtside⟩ := restoreCwd_root hroot rfl names finality hlength hrun
    refine ⟨fun more hmore => ?_, houtside⟩
    obtain ⟨finality', hcwd'⟩ := hinside more hmore
    refine ⟨finality', hcwd', ?_⟩
    rw [htree.1, resolve_rootTree, hmore]
  · intro newRoot names finality _ hnew hfree p
    have hbefore : resolve (tableOf w.tracee.bindings) (newRoot ++ p) = some (names ++ p) := by
      rw [resolve_append fun q hne _ => hfree q hne, hnew, Option.map_some]
    refine ⟨hbefore, ?_⟩
    rw [htree.1, resolve_rootTree]

theorem seenBind_of_boundBelow {t : Bindings} (h : t.Sorted) (hroot : t.Rooted)
    {names : List Component} (hbelow : BoundBelow t names) :
    seenBindUnderNewRoot t (pathOf names) = true := by
  obtain ⟨more, hmore, hentry⟩ := hbelow
  obtain ⟨host, hhost⟩ := Option.ne_none_iff_exists'.mp hentry
  obtain ⟨b, hb, hguest, -⟩ := (tableOf_eq_some h).mp hhost
  have hnotRoot : b.guest ≠ ['/'] := by
    rw [hguest]
    intro heq
    exact hmore (List.append_eq_nil_iff.mp (pathOf_eq_root.mp heq)).2
  obtain ⟨last, hlast, hlastGuest⟩ := h.root_last hroot
  obtain ⟨init, hinit⟩ := List.getLast?_eq_some_iff.mp hlast
  have hmem : b ∈ t.guest.dropLast := by
    rw [hinit, List.mem_append, List.mem_singleton] at hb
    rw [hinit, List.dropLast_concat]
    rcases hb with hb | rfl
    · exact hb
    · exact absurd hlastGuest hnotRoot
  refine List.any_eq_true.mpr ⟨b, hmem, decide_eq_true ?_⟩
  rw [hguest, comparePaths_eq_path1IsPrefix (pathOf_ne_nil _) (pathOf_ne_nil _), below_pathOf]
  refine ⟨List.prefix_append _ _, fun heq => hmore ?_⟩
  simpa using heq

/-- The call is made by the fake root, and not one that the kernel answered otherwise. -/
def Chroot.Emulated (c : Chroot) : Prop :=
  c.isRoot = true ∧ ∀ result modified, c.entry = .exit result modified → result = -1

theorem handleChrootExitEnd_sameRoot (stat : CString → Except Errno FileType)
    (hc : c.Emulated) (htarget : c.target w = (.ok path, w))
    (hsame : comparePaths (getRoot w.tracee.bindings) (c.hostAbsolute l path) = .pathsAreEqual) :
    handleChrootExitEnd l stat c w = (.ok .forced, w) := by
  unfold handleChrootExitEnd
  cases hentry : c.entry with
  | sigsys =>
      dsimp only
      rw [if_pos hc.1, Comp.bind_run, htarget]
      dsimp only
      rw [Comp.get_bind, if_pos hsame]
      rfl
  | exit result modified =>
      dsimp only
      rw [if_pos ⟨hc.1, hc.2 result modified hentry⟩, Comp.bind_run, htarget]
      dsimp only
      rw [Comp.get_bind, if_pos hsame]
      rfl

variable {kept : Kept}

/-- **An emulated chroot changes the root and nothing else.** -/
theorem chroot_changes_root {l : Launcher} (hl : l.Lawful) (hstable : RealpathStable l)
    (stat : CString → Except Errno FileType) (c : Chroot) {w : World} (hw : w.Sound none kept) :
    (match handleChrootExitEnd l stat c w with
    | (.error .abort, _) => True
    | (.error (.errno _), w') | (.ok .ignored, w') => w' = w
    | (.ok .forced, w') => ∃ path, c.target w = (.ok path, w) ∧
        if comparePaths (getRoot w.tracee.bindings) (c.hostAbsolute l path) = .pathsAreEqual then w' = w
        else
          (∀ host, l.realpath path = .ok host →
            ∃ root, host = pathOf root ∧ RootChanged w w' root ∧ ViewedFrom w w' path root) ∧
          ∀ names, c.fromSigsys = true → c.arg = .ok (pathOf names) →
            ¬ BoundBelow w.tracee.bindings names) ∧
    ∀ path, c.Emulated → c.target w = (.ok path, w) →
      comparePaths (getRoot w.tracee.bindings) (c.hostAbsolute l path) = .pathsAreEqual →
      handleChrootExitEnd l stat c w = (.ok .forced, w) := by
  refine ⟨?_, fun path hc htarget hsame => handleChrootExitEnd_sameRoot stat hc htarget hsame⟩
  have hout := handleChrootExitEnd_outcome (l := l) (c := c) stat hw.glueType
  generalize handleChrootExitEnd l stat c w = outcome at hout
  cases hout with
  | refused e => rfl
  | aborted w' => trivial
  | ignored => rfl
  | sameRoot htarget hsame =>
      refine ⟨_, htarget, ?_⟩
      rw [if_pos hsame]
  | @changed path cwd w' htarget hother hseen hcwd hrun =>
      refine ⟨path, htarget, ?_⟩
      rw [if_neg hother]
      constructor
      · intro host hreal
        have hhost : c.hostAbsolute l path = host := by rw [Chroot.hostAbsolute, hreal]
        rw [hhost] at hrun
        exact rootChanged_of_run hl hstable hreal hcwd hrun
      · intro names hsigsys harg hbelow
        have hguest : c.guest = pathOf names := by
          unfold Chroot.guest
          unfold Chroot.fromSigsys at hsigsys
          cases hentry : c.entry with
          | sigsys => rw [harg]
          | exit result modified => simp [hentry] at hsigsys
        rw [hguest, seenBind_of_boundBelow hw.sorted hw.rooted hbelow] at hseen
        cases hseen

/-! ## Two runs -/

open Improot.Syscall

def chrootTo (arg : CString) : Chroot := ⟨true, .sigsys, .ok arg, [], []⟩

def newLauncher : Launcher :=
  ⟨fun path => if path = dirNew then .ok dirNew else .error .enoent, .ok ['/']⟩

def insideWorld : World :=
  { mountedNameSpace.world with
    tracee := { mountedNameSpace.world.tracee with cwd := dirNew ++ ['/', 'a'] } }

theorem mountedWorld_sound : mountedNameSpace.world.Sound none (mortal []) :=
  reached_sound mountedNameSpace_reached rfl ⟨by decide, nofun, nofun, nofun, nofun, nofun⟩ rfl

/-- After a chroot(2) to "/new" the current directory is "/a", and every path is one of "/new". -/
theorem chroot_changes_root_new :
    ∃ w', handleChrootExitEnd newLauncher (fun _ => .ok .dir) (chrootTo dirNew) insideWorld =
        (.ok .forced, w') ∧ w'.tracee.cwd = ['/', 'a'] ∧
      RootChanged insideWorld w' (namesOf dirNew) ∧
      ViewedFrom insideWorld w' dirNew (namesOf dirNew) := by
  have hnew : dirNew = pathOf (namesOf dirNew) := by decide
  have hl : newLauncher.Lawful := by
    constructor
    · intro path result h
      simp only [newLauncher] at h
      split_ifs at h
      cases h
      exact ⟨_, hnew⟩
    · rintro _ ⟨⟩
      decide
  have hstable : RealpathStable newLauncher := by
    constructor
    · intro path result h
      simp only [newLauncher] at h ⊢
      split_ifs at h
      cases h
      rfl
    · intro path result h
      simp only [newLauncher] at h
      split_ifs at h
      cases h
      decide
  have hsound : insideWorld.Sound none (mortal []) :=
    { mountedWorld_sound with cwd := (by decide : Canonical (dirNew ++ ['/', 'a'])) }
  have hlaw := (chroot_changes_root hl hstable (fun _ => .ok .dir) (chrootTo dirNew) hsound).1
  have hrun : handleChrootExitEnd newLauncher (fun _ => .ok .dir) (chrootTo dirNew) insideWorld =
      (.ok .forced,
        (handleChrootExitEnd newLauncher (fun _ => .ok .dir) (chrootTo dirNew) insideWorld).2) := rfl
  rw [hrun] at hlaw
  obtain ⟨path, htarget, hchanged⟩ := hlaw
  obtain rfl : dirNew = path := by
    have htarget' : (chrootTo dirNew).target insideWorld = (.ok dirNew, insideWorld) := rfl
    rw [htarget'] at htarget
    exact Except.ok.inj (Prod.mk.inj htarget).1
  rw [if_neg (by decide)] at hchanged
  obtain ⟨root, hroot, hothers, hview⟩ := hchanged.1 dirNew rfl
  obtain rfl : namesOf dirNew = root := by rw [hroot, namesOf_pathOf]
  exact ⟨_, hrun, rfl, hothers, hview⟩

/-- A chroot(2) to "/" isn't refused, although a binding lies below. -/
theorem chroot_not_refused : system.Reach (fun s e => e.Lawful ∧ e.ChopsWell s) mountedNameSpace ∧
      BoundBelow mountedNameSpace.bindings (namesOf ['/']) ∧
      handleChrootExitEnd plainLauncher (fun _ => .ok .dir) (chrootTo ['/']) mountedNameSpace.world =
        (.ok .forced, mountedNameSpace.world) :=
  ⟨mountedNameSpace_reached, ⟨namesOf mntA, by decide, by decide⟩, rfl⟩

end Improot.Extension
