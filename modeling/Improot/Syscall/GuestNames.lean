import Improot.Path.GuestTable
import Improot.Path.Straight
import Improot.Syscall.NameSpace

/-!
# The guest names of host paths

What a guest reads back for a host path is the name under the first binding, in the host order, that
contains the path.  Whether this name leads to the same host path again depends on the bindings that
lie below it in the guest order: the name is valid exactly when the deepest of them agrees.
-/

namespace Improot.Path

/-! ## The root -/

theorem removeRoot_pathOf {t : Bindings} {root : List Component} (hroot : getRoot t = pathOf root)
    (more : List Component) (sanityCheck : Bool) :
    ∃ n, removeRoot t sanityCheck (pathOf (root ++ more)) = .ok (n, pathOf more) := by
  unfold removeRoot
  rw [hroot]
  by_cases hm : more = []
  · subst hm
    rw [List.append_nil, ((pathOf_tidy root).comparePaths_eq_pathsAreEqual (pathOf_tidy root)).mpr rfl]
    exact ⟨2, rfl⟩
  · have hcmp : comparePaths (pathOf root) (pathOf (root ++ more)) = .path1IsPrefix := by
      rw [comparePaths_eq_path1IsPrefix (pathOf_ne_nil _) (pathOf_ne_nil _), below_pathOf]
      refine ⟨List.prefix_append _ _, fun heq => hm ?_⟩
      simpa using heq
    rw [hcmp]
    by_cases hr : root = []
    · subst hr
      exact ⟨_, rfl⟩
    · have hlen : (pathOf root).length ≠ 1 :=
        fun hone => hr (pathOf_eq_root.mp ((pathOf_tidy root).length_eq_one.mp hone))
      dsimp only
      rw [if_neg hlen, pathOf_append hr hm, List.drop_left]
      exact ⟨_, rfl⟩

/-! ## Naming a host path -/

/-- The binding by which `detranslate_path` names a host path: the one found from the host's point
of view, or else the one of "/". -/
def namingBinding (t : Bindings) (hostPath : CString) : Option Binding :=
  (getBinding t .host hostPath).or t.guest.getLast?

/-- The place that the guest name of a host path has under its binding. -/
structure Names (t : Bindings) (hostPath guestPath : CString) (b : Binding)
    (ref rev more : List Component) : Prop where
  mem : b ∈ t.guest
  host : b.host = pathOf ref
  guest : b.guest = pathOf rev
  hostPath : hostPath = pathOf (ref ++ more)
  guestPath : guestPath = pathOf (rev ++ more)

/-- The guest name of a host path, under the binding that it is named by. -/
theorem detranslatePath_names {w : World} (h : w.tracee.bindings.Sorted)
    (hroot : w.tracee.bindings.Rooted) {hostPath : CString} (hcanon : Canonical hostPath)
    (hlength : hostPath.length < pathMax) (hfitting : Fitting w.tracee.bindings .host hostPath)
    (hcovered : ∃ b ∈ w.tracee.bindings.guest, Within (stem b.host) (stem hostPath)) :
    ∃ b n guestPath host guest more, namingBinding w.tracee.bindings hostPath = some b ∧
      detranslatePath w hostPath none = .ok (n, guestPath) ∧
      Names w.tracee.bindings hostPath guestPath b host guest more := by
  obtain ⟨names, rfl⟩ := hcanon
  have habs : ¬ (pathOf names).head? ≠ some '/' := by simp [pathOf_head?]
  simp only [detranslatePath, if_neg (Nat.not_le.mpr hlength), if_neg habs, if_true, namingBinding]
  cases hget : getBinding w.tracee.bindings .host (pathOf names) with
  | some b =>
      obtain ⟨hmem, -, -, -⟩ := getBinding_spec (h.wellFormed hroot) hget
      obtain ⟨host, guest, more, substituted, hhost, hguest, rfl, hsub⟩ :=
        substituteBinding_pathOf h hroot hget hfitting
      rw [hsub]
      have hnames : Names w.tracee.bindings (pathOf (host ++ more)) (pathOf (guest ++ more)) b host
          guest more := ⟨h.same.mem_iff.mpr hmem, hhost, hguest, rfl, rfl⟩
      cases substituted
      · exact ⟨b, _, _, host, guest, more, rfl, rfl, hnames⟩
      · exact ⟨b, _, _, host, guest, more, rfl, rfl, hnames⟩
  | none =>
      rw [substituteBinding_none hget]
      obtain ⟨root, hlast, hguest⟩ := h.root_last hroot
      have hmem := List.mem_of_getLast? hlast
      obtain ⟨host, hhost⟩ := (h.clean root hmem).host
      have hgetRoot : getRoot w.tracee.bindings = pathOf host := by
        rw [getRoot, hlast]
        exact hhost
      -- the look-up skips a binding that contains the path only below the root
      have hbelongs : belongsToGuestfs w.tracee.bindings (pathOf names) = true := by
        obtain ⟨b, hb, hin⟩ := hcovered
        have hskipped := List.find?_eq_none.mp hget b (h.same.mem_iff.mp hb)
        rw [← comparePaths_within (h.clean b hb).host.tidy.ne_nil (pathOf_ne_nil _)] at hin
        by_contra hnot
        exact hskipped (by simpa [covers, Binding.path, hnot] using hin)
      have hstarts : host <+: names := by
        rw [belongsToGuestfs, hgetRoot, decide_eq_true_eq,
          comparePaths_within (pathOf_ne_nil _) (pathOf_ne_nil _), within_pathOf] at hbelongs
        exact hbelongs
      obtain ⟨more, rfl⟩ := hstarts
      obtain ⟨n, hremove⟩ := removeRoot_pathOf hgetRoot more true
      dsimp only
      rw [hremove]
      exact ⟨root, n, _, host, [], more, hlast, rfl, hmem, hhost, hguest, rfl, rfl⟩

/-- **Agreement.** The guest name leads to the host path again exactly when the binding that covers
the name gives its own guest path the host path that the naming binding gives it. -/
theorem Names.substitute_iff {t : Bindings} (h : t.Sorted) (hroot : t.Rooted)
    {hostPath guestPath : CString} {b : Binding} {host guest more : List Component}
    (hnames : Names t hostPath guestPath b host guest more) (hfitting : Fitting t .guest guestPath) :
    ∃ b' result substituted, getBinding t .guest guestPath = some b' ∧
      substituteBinding t .guest guestPath = .ok (substituted, result) ∧
      (result = hostPath ↔ b'.host = rebase b.guest b.host b'.guest) := by
  obtain ⟨hmem, hhost, hguest, rfl, rfl⟩ := hnames
  obtain ⟨b', hget⟩ := getBinding_exists (h.wellFormed hroot) (pathOf_tidy (guest ++ more))
  obtain ⟨guest', host', rest, substituted, hguest', hhost', hsplit, hsub⟩ :=
    substituteBinding_pathOf h hroot hget hfitting
  refine ⟨b', _, substituted, hget, hsub, ?_⟩
  have hcovers : covers t .guest (pathOf (guest ++ more)) b = true := by
    have hin : Within (stem b.guest) (stem (pathOf (guest ++ more))) := by
      rw [hguest, within_pathOf]
      exact List.prefix_append _ _
    rw [← comparePaths_within (by rw [hguest]; exact pathOf_ne_nil _) (pathOf_ne_nil _)] at hin
    simpa [covers, Binding.path] using hin
  have hdeep := getBinding_deepest h hroot hget hmem hcovers
  rw [hguest, show b'.guest = pathOf guest' from hguest', within_pathOf] at hdeep
  obtain ⟨between, rfl⟩ := hdeep
  obtain rfl : more = between ++ rest := by
    rw [List.append_assoc] at hsplit
    exact List.append_cancel_left hsplit
  rw [show b'.host = pathOf host' from hhost', show b'.guest = pathOf (guest ++ between) from hguest',
    hguest, hhost, rebase_pathOf]
  constructor
  · intro heq
    have := pathOf_injective heq
    rw [← List.append_assoc] at this
    rw [List.append_cancel_right this]
  · intro heq
    rw [pathOf_injective heq, List.append_assoc]

/-! ## Translation -/

theorem endingOf_pathOf {names : List Component} (h : names ≠ []) :
    endingOf (pathOf names) = .finalNormal := by
  obtain ⟨init, n, rfl⟩ := (List.eq_nil_or_concat' names).resolve_left h
  have hlast : (Lib.pieces '/' (pathOf (init ++ [n]))).getLast? = some n.chars := by
    rw [pieces_pathOf]
    simp
  rw [endingOf, hlast]
  simp [n.notDot, n.notDotDot, pathOf_getLast? h]

theorem translatePath_silent {w w' : World} (hs : Silent w) {g h : CString} {derefFinal : Bool}
    (habs : g.head? = some '/') (hrun : translatePath .cwd g derefFinal w = (.ok h, w')) :
    ∃ p substituted, canonicalize g derefFinal ['/'] 0 w = (.ok p, w') ∧
      substituteBinding w'.tracee.bindings .guest p = .ok (substituted, h) := by
  have hbase : basePath w .cwd g = .ok ['/'] := by simp [basePath, habs]
  simp only [translatePath, Comp.get_bind, hbase, Comp.liftFailure_bind_eq_ok,
    Comp.lift_bind_eq_ok, hs.guestPath, Except.ok.injEq] at hrun
  obtain ⟨_, rfl, _, rfl, hrun⟩ := hrun
  rw [Comp.bind_eq_ok] at hrun
  obtain ⟨result, v, htranslate, hrun⟩ := hrun
  rw [Comp.lift_bind_eq_ok, hs.translatedPath] at hrun
  obtain ⟨_, hresult, hrun⟩ := hrun
  cases hresult
  obtain ⟨rfl, rfl⟩ := Comp.pure_eq_ok.mp hrun
  simp only [translateUnlessAnswered, gt_iff_lt, Nat.lt_irrefl, if_false, translateCanonical,
    List.head?_cons, ne_eq, not_true_eq_false, Comp.lift_bind_eq_ok] at htranslate
  obtain ⟨joined', hjoin, htranslate⟩ := htranslate
  have hjoined : joined' = g := by
    obtain ⟨rest, hrest⟩ := List.head?_eq_some_iff.mp habs
    rw [joinPaths_ok hjoin]
    simp [joined, hrest]
  subst hjoined
  rw [Comp.bind_eq_ok] at htranslate
  obtain ⟨p, v, hcanon, htranslate⟩ := htranslate
  rw [Comp.get_bind, Comp.lift_bind_eq_ok] at htranslate
  obtain ⟨⟨substituted, h'⟩, hsub, hpure⟩ := htranslate
  obtain ⟨rfl, rfl⟩ := Comp.pure_eq_ok.mp hpure
  exact ⟨p, substituted, hcanon, hsub⟩

theorem canonicalize_pathOf {w w' : World} (hw : Walkable w) {names : List Component}
    {derefFinal : Bool} {p : CString}
    (hrun : canonicalize (pathOf names) derefFinal ['/'] 0 w = (.ok p, w')) :
    w' = w ∧ Canonical p := by
  obtain ⟨hw', place, hp, hres⟩ :=
    @canonicalizeAt_resolves w hw _ _ _ _ _ [] _ _ (pathOf_ne_nil names)
      (.inl (pathOf_head? names)) hrun
  refine ⟨hw', place, hp.trans ?_⟩
  rw [if_pos rfl]
  by_cases hn : names = []
  · subst hn
    cases hres
    rfl
  · rw [endingOf_pathOf hn]
    rfl

end Improot.Path

namespace Improot.Syscall

open Improot.Path

/-- **Guest names** lead back, exactly when the bindings agree.  In every run where no path escapes
from `chop_finality`, what is translated has a canonical guest name; when this name is straight in
the guest view, it is translated to the same host path if and only if the binding that covers it
agrees with the one it was named by. -/
theorem guestName_valid_iff {s : NameSpace}
    (hreach : system.Reach (fun s e => e.Lawful ∧ e.ChopsWell s) s) (hinit : s.initialized = true)
    (hsilent : Silent s.world) (hlaws : HostLaws s.world) {g h : CString} {derefFinal : Bool}
    {w' : World} (hg : Canonical g)
    (htranslate : translatePath .cwd g derefFinal s.world = (.ok h, w'))
    (hlength : h.length < pathMax)
    (hfits : ∀ p w, canonicalize g derefFinal ['/'] 0 s.world = (.ok p, w) →
      Fitting s.bindings .guest p)
    (hfits' : Fitting s.bindings .host h) :
    w' = s.world ∧ ∃ b n g', namingBinding s.bindings h = some b ∧
      detranslatePath s.world h none = .ok (n, g') ∧ g' = rebase b.host b.guest h ∧
      Canonical g' ∧
      (Straight s.world derefFinal [] (namesOf g') → Fitting s.bindings .guest g' →
        ∃ b', getBinding s.bindings .guest g' = some b' ∧
          (translatePath .cwd g' derefFinal s.world = (.ok h, s.world) ↔
            b'.host = rebase b.guest b.host b'.guest)) := by
  obtain ⟨hsorted, hrooted⟩ := reached_sorted hreach hinit
  have hw : Walkable s.world := ⟨hsorted.wellFormed hrooted, hsilent.toQuiet, hlaws⟩
  obtain ⟨names, rfl⟩ := hg
  obtain ⟨p, substituted, hcanon, hsub⟩ :=
    translatePath_silent hsilent (pathOf_head? names) htranslate
  obtain ⟨rfl, hp⟩ := canonicalize_pathOf hw hcanon
  have hfitting := hfits p _ hcanon
  have hh : Canonical h := substituteBinding_canonical hsorted hrooted hp hsub
  have hcovered : ∃ b ∈ s.bindings.guest, Within (stem b.host) (stem h) := by
    obtain ⟨place, rfl⟩ := hp
    obtain ⟨b, hget⟩ := getBinding_exists hw.bindings (pathOf_tidy place)
    obtain ⟨ref, rev, more, _, -, hrev, -, hsub'⟩ :=
      substituteBinding_pathOf hsorted hrooted hget hfitting
    obtain ⟨-, rfl⟩ : _ ∧ pathOf (rev ++ more) = h := by
      simpa using hsub'.symm.trans hsub
    refine ⟨b, (getBinding_spec hw.bindings hget).1, ?_⟩
    rw [show b.host = pathOf rev from hrev, within_pathOf]
    exact List.prefix_append _ _
  obtain ⟨b, n, g', ref, rev, more, hnaming, hdetranslate, hnames⟩ :=
    detranslatePath_names hsorted hrooted hh hlength hfits' hcovered
  have hname : g' = rebase b.host b.guest h := by
    rw [hnames.guestPath, hnames.host, hnames.guest, hnames.hostPath, rebase_pathOf]
  refine ⟨rfl, b, n, g', hnaming, hdetranslate, hname, ⟨_, hnames.guestPath⟩, ?_⟩
  intro hstraight hfitting'
  obtain ⟨b', result, substituted', hget', hsub', hiff⟩ :=
    hnames.substitute_iff hsorted hrooted hfitting'
  refine ⟨b', hget', ?_⟩
  have hguest : pathOf (namesOf g') = g' := by
    rw [hnames.guestPath, namesOf_pathOf]
  have hback := translatePath_straight hw hsilent hstraight (hguest.symm ▸ hsub')
  rw [hguest] at hback
  rw [hback, ← hiff]
  simp

theorem guestType_of_directories {w : World} (hwf : w.tracee.bindings.WellFormed)
    (hhost : ∀ path, hostStat w.host path = .ok .dir) (names : List Component) :
    guestType w (pathOf names) = some .dir := by
  obtain ⟨_, hostPath, hsub⟩ := substituteBinding_exists hwf (pathOf_tidy names)
  simp only [guestType, hsub, hhost]
  rfl

/-- "/mnt/a/x", the name of "/proc/x" under the mount on "/mnt/a", leads back. -/
theorem guestName_valid_mount :
    translatePath .cwd (mntA ++ ['/', 'x']) true mountedNameSpace.world =
      (.ok ['/', 'p', 'r', 'o', 'c', '/', 'x'], mountedNameSpace.world) := by
  have hsilent : Silent mountedNameSpace.world :=
    ⟨⟨rfl, fun _ _ => rfl⟩, fun _ _ => rfl, fun _ => rfl⟩
  have hlaws : HostLaws mountedNameSpace.world := ⟨⟨nofun, nofun⟩, nofun, by decide⟩
  have hfitting : Fitting mountedNameSpace.bindings .guest (mntA ++ ['/', 'x']) := by
    intro b hget _
    cases hget
    decide
  have hwf : mountedNameSpace.bindings.WellFormed := by
    obtain ⟨hsorted, hrooted⟩ := reached_sorted mountedNameSpace_reached rfl
    exact hsorted.wellFormed hrooted
  have hstraight : Straight mountedNameSpace.world true [] (namesOf (mntA ++ ['/', 'x'])) := by
    refine ⟨fun _ _ _ _ _ => guestType_of_directories hwf (fun _ => rfl) _, fun _ => ?_, by decide,
      by decide⟩
    rw [guestType_of_directories hwf fun _ => rfl]
    simp
  have htranslate : translatePath .cwd (mntA ++ ['/', 'x']) true mountedNameSpace.world =
      (.ok ['/', 'p', 'r', 'o', 'c', '/', 'x'], mountedNameSpace.world) := rfl
  obtain ⟨-, b, n, g', hb, hrun, -, -, hback⟩ :=
    guestName_valid_iff mountedNameSpace_reached rfl hsilent hlaws (by decide) htranslate (by decide)
      (fun p w hp => by
        cases hp
        exact hfitting)
      (by
        intro b hget _
        cases hget
        decide)
  cases hb
  cases hrun
  obtain ⟨b', hb', hiff⟩ := hback hstraight hfitting
  cases hb'
  exact hiff.mpr (by decide)

/-! ## Two names that do not lead back -/

def canonicalLauncher : Launcher :=
  ⟨fun path => if Canonical path then .ok path else .error .enoent, .ok ['/']⟩

theorem canonicalLauncher_lawful : canonicalLauncher.Lawful := by
  constructor
  · intro path result h
    simp only [canonicalLauncher] at h
    split_ifs at h with hcanon
    cases h
    exact hcanon
  · rintro _ ⟨⟩
    decide

def other : CString := ['/', 'o', 't', 'h', 'e', 'r']
def dirA : CString := ['/', 'a']
def dirB : CString := ['/', 'b']

/-- The options `-r /rootfs -b /rootfs/a:/b -b /other:/a`, once initialized. -/
def shadowedBindings : List Binding :=
  [⟨2, other, dirA, true⟩, ⟨1, rootfs ++ dirA, dirB, true⟩, ⟨0, rootfs, ['/'], true⟩]

def shadowedNameSpace : NameSpace :=
  { rootNameSpace true with world := { plainWorld with tracee := { plainWorld.tracee with
      bindings := ⟨[], shadowedBindings, shadowedBindings, 3⟩ } } }

def shadowedPending : NameSpace :=
  { rootNameSpace false with world := { plainWorld with tracee := { plainWorld.tracee with
      bindings :=
        ⟨shadowedBindings.map fun b => { b with needSubstitution := false }, [], [], 3⟩ } } }

theorem shadowedNameSpace_reached :
    system.Reach (fun s e => e.Lawful ∧ e.ChopsWell s) shadowedNameSpace := by
  have hnew : ∀ (s s' : NameSpace) (host guest : CString), Canonical host →
      system.Reach (fun s e => e.Lawful ∧ e.ChopsWell s) s →
      s.step (.newBinding canonicalLauncher host (some guest)) = some s' →
      system.Reach (fun s e => e.Lawful ∧ e.ChopsWell s) s' :=
    fun _ _ host guest hhost hreach hstep => .next hreach
      (e := Event.newBinding canonicalLauncher host (some guest))
      ⟨canonicalLauncher_lawful, fun _ => hhost⟩ hstep
  have hpending : system.Reach (fun s e => e.Lawful ∧ e.ChopsWell s) shadowedPending :=
    hnew _ _ other dirA (by decide)
      (hnew _ _ (rootfs ++ dirA) dirB (by decide)
        (hnew _ _ rootfs ['/'] (by decide)
          (.start (s := ⟨plainWorld, [], false⟩) ⟨plainWorld_regular, rfl, rfl, rfl⟩) rfl) rfl) rfl
  refine .next hpending (e := Event.initializeBindings) ⟨trivial, ?_⟩ rfl
  refine .cons (.inl rfl) rfl (.cons (.inr ?_) rfl (.cons (.inr ?_) rfl (.nil _)))
  · intro path w hpath
    cases hpath
    decide
  · intro path w hpath
    cases hpath
    decide

def dirX : CString := ['/', 'x']
def dirXY : CString := dirX ++ ['/', 'y']
def dirZ : CString := ['/', 'z']
def dirT : CString := ['/', 't']

def linkedWorld : World :=
  { plainWorld with host := { plainWorld.host with
      lstat := fun path => if path = dirX then .ok .lnk else .ok .dir
      readlink := fun _ => .ok dirT } }

theorem linkedWorld_regular : linkedWorld.Regular :=
  ⟨by decide, nofun, nofun, nofun, ⟨nofun, nofun⟩⟩

/-- The name-space after the mounts of "/proc" on "/x/y" and on "/z", when "/x" becomes a link. -/
def linkedNameSpace : NameSpace :=
  { rootNameSpace true with world := linkedWorld }.setBindings
    (((rootNameSpace true).mountProc dirXY).mountProc dirZ).bindings

theorem linkedNameSpace_reached :
    system.Reach (fun s e => e.Lawful ∧ e.ChopsWell s) linkedNameSpace := by
  have hfirst := mountProc_reached rootNameSpace_reached dirXY (by decide) (by decide) rfl rfl
  have hmounted := mountProc_reached hfirst dirZ (by decide) (by decide) rfl rfl
  exact .next hmounted (e := Event.schedule linkedWorld) ⟨linkedWorld_regular, trivial⟩ rfl

/-- Under the rootfs, the name "/a/x" of "/rootfs/a/x" is the one of "/other/x"; and the name "/x/y"
of "/proc" leads to "/t/y" once "/x" is a link. -/
theorem guestName_not_valid :
    (system.Reach (fun s e => e.Lawful ∧ e.ChopsWell s) shadowedNameSpace ∧
      translatePath .cwd (dirB ++ dirX) true shadowedNameSpace.world =
        (.ok (rootfs ++ dirA ++ dirX), shadowedNameSpace.world) ∧
      detranslatePath shadowedNameSpace.world (rootfs ++ dirA ++ dirX) none =
        .ok (5, dirA ++ dirX) ∧
      (translatePath .cwd (dirA ++ dirX) true shadowedNameSpace.world).1 = .ok (other ++ dirX)) ∧
    system.Reach (fun s e => e.Lawful ∧ e.ChopsWell s) linkedNameSpace ∧
      translatePath .cwd dirZ true linkedNameSpace.world =
        (.ok ['/', 'p', 'r', 'o', 'c'], linkedNameSpace.world) ∧
      detranslatePath linkedNameSpace.world ['/', 'p', 'r', 'o', 'c'] none = .ok (5, dirXY) ∧
      (translatePath .cwd dirXY true linkedNameSpace.world).1 = .ok (dirT ++ ['/', 'y']) :=
  ⟨⟨shadowedNameSpace_reached, rfl, rfl, rfl⟩, linkedNameSpace_reached, rfl, rfl, rfl⟩

end Improot.Syscall
