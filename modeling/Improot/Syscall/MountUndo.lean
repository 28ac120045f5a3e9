import Improot.Syscall.GuestNames

/-!
# Mounting, then unmounting

`emulate_umount` is documented as the inverse of `emulate_mount`, and as removing no binding that
was given at start-up. A mount over a binding replaces it, so that the umount uncovers what lies
above the binding, not the binding; and the umount compares paths only. Here is exactly when the law
holds.
-/

namespace Improot.Syscall

open Improot.Path

variable {kept : Kept} {w : World} {targetUser g : CString}

/-! ## What each call does to the tree -/

theorem canonicalizeUser_still (hglue : w.tracee.glueType = none) (userPath : CString) :
    (canonicalizeUser userPath).Still w :=
  .bind .get fun _ => .bind (.lift _) fun _ => canonicalize_still hglue _ _ _ _

theorem guestCanonicalize_still (hglue : w.tracee.glueType = none) (userPath : CString) :
    (guestCanonicalize userPath).Still w :=
  .bind (canonicalizeUser_still hglue userPath) fun _ => .pure _

theorem mountSource_still (hglue : w.tracee.glueType = none) (srcUser fstype : CString)
    (flags : Nat) (tempDirectory : Option CString) :
    (mountSource srcUser fstype flags tempDirectory).Still w := by
  unfold mountSource
  split_ifs
  · exact .fail _
  · exact translatePath_still hglue _ _ _
  · split
    · exact .pure _
    · exact .fail _

theorem Still.eq_ok {α : Type} {x : Comp α} {a : α} (hx : x.Still w) (h : (x w).1 = .ok a) :
    x w = (.ok a, w) := Prod.ext h hx.snd

theorem emulateMount_tree (hw : w.Sound none kept) (hg : (guestCanonicalize targetUser w).1 = .ok g)
    (srcUser fstype : CString) (flags : Nat) (tempDirectory : Option CString) :
    ((∀ h, (mountSource srcUser fstype flags tempDirectory w).1 ≠ .ok h) ∧
        (emulateMount srcUser targetUser fstype flags tempDirectory w).2 = w) ∨
      ∃ h, (mountSource srcUser fstype flags tempDirectory w).1 = .ok h ∧
        (emulateMount srcUser targetUser fstype flags tempDirectory w).2.tracee.bindings =
          insortBinding3 w.tracee.bindings (chopFinality h) g := by
  have hsource := mountSource_still hw.glueType srcUser fstype flags tempDirectory
  have hcanon := Still.eq_ok (guestCanonicalize_still hw.glueType targetUser) hg
  cases hrun : (mountSource srcUser fstype flags tempDirectory w).1 with
  | error e =>
      have heq : mountSource srcUser fstype flags tempDirectory w = (.error e, w) :=
        Prod.ext hrun hsource.snd
      refine .inl ⟨fun h => by simp, ?_⟩
      rw [emulateMount, Comp.bind_run, heq]
  | ok h =>
      refine .inr ⟨h, rfl, ?_⟩
      rw [emulateMount, Comp.bind_run, Still.eq_ok hsource hrun]
      dsimp only
      rw [Comp.bind_run, hcanon]
      rfl

/-- **umount(2)** removes the binding of exactly its target, unless that is "/". -/
theorem emulateUmount_tree (hw : w.Sound none kept)
    (hg : (guestCanonicalize targetUser w).1 = .ok g) :
    (g ≠ ['/'] ∧ ∃ b ∈ w.tracee.bindings.guest, b.guest = g ∧
        (emulateUmount targetUser w).2.tracee.bindings =
          removeBindingFromAllLists w.tracee.bindings b) ∨
      (g = ['/'] ∨ ∀ b ∈ w.tracee.bindings.guest, b.guest ≠ g) ∧
        (emulateUmount targetUser w).2.tracee.bindings = w.tracee.bindings := by
  have hcanon := Still.eq_ok (guestCanonicalize_still hw.glueType targetUser) hg
  simp only [emulateUmount, bind, hcanon]
  by_cases hroot : g = ['/']
  · rw [if_pos hroot]
    exact .inr ⟨.inl hroot, rfl⟩
  rw [if_neg hroot]
  -- a binding of the target is the one that the look-up finds
  have hfound : ∀ c ∈ w.tracee.bindings.guest, c.guest = g →
      ∃ b, getBinding w.tracee.bindings .guest g = some b ∧ b.guest = g := by
    rintro c hc rfl
    have hguest := (hw.sorted.clean c hc).guest
    obtain ⟨b, hget⟩ := getBinding_exists hw.wellFormed hguest.tidy
    obtain ⟨hb, -, -, hin⟩ := getBinding_spec hw.wellFormed hget
    have hcovers : covers w.tracee.bindings .guest c.guest c = true := by
      have hself := Within.refl (stem c.guest)
      rw [← comparePaths_within hguest.tidy.ne_nil hguest.tidy.ne_nil] at hself
      simpa [covers, Binding.path] using hself
    have hdeep := getBinding_deepest hw.sorted hw.rooted hget hc hcovers
    exact ⟨b, hget, (hw.sorted.clean b hb).guest.tidy.stem_injective hguest.tidy
      (hin.antisymm hdeep)⟩
  cases hget : getBinding w.tracee.bindings .guest g with
  | none =>
      refine .inr ⟨.inr fun c hc heq => ?_, rfl⟩
      obtain ⟨b, hsome, -⟩ := hfound c hc heq
      rw [hget] at hsome
      cases hsome
  | some b =>
      dsimp only
      by_cases hb : b.guest = g
      · rw [if_neg (not_not.mpr hb)]
        have hmem : b ∈ w.tracee.bindings.guest := (getBinding_spec hw.wellFormed hget).1
        exact .inl ⟨hroot, b, hmem, hb, rfl⟩
      · rw [if_pos hb]
        refine .inr ⟨.inr fun c hc heq => ?_, rfl⟩
        obtain ⟨b', hsome, hb'⟩ := hfound c hc heq
        rw [hget, Option.some.injEq] at hsome
        exact hb (hsome ▸ hb')

/-! ## When the law holds -/

def Redundant (t : Bindings) (b : Binding) : Prop :=
  substituteBinding (removeBindingFromAllLists t b) .guest b.guest =
    substituteBinding t .guest b.guest

def RootTooLong (path : CString) : Prop := pathMax ≤ path.length + 1

/-- What the tree before a mount has to look like for an umount to bring it back: a mount on "/" has
no effect or is of what the root is already; on another target, the tree has no binding of its own,
or a redundant one. -/
def Undoable (w : World) (source : Comp CString) (g : CString) : Prop :=
  if g = ['/'] then
    ∀ h, (source w).1 = .ok h → chopFinality h = getRoot w.tracee.bindings ∨
      RootTooLong (chopFinality h) ∧ RootTooLong (getRoot w.tracee.bindings)
  else ∀ b ∈ w.tracee.bindings.guest, b.guest = g → Redundant w.tracee.bindings b

theorem sameGuestView_of_removed {t t' : Bindings} (h : t.Sorted) (hroot : t.Rooted)
    (h' : t'.Sorted) (hroot' : t'.Rooted) {names : List Component} (hne : names ≠ [])
    (htable : tableOf t' = Function.update (tableOf t) names none)
    (hlength : (pathOf names).length < pathMax) :
    SameGuestView t t' ↔ ∀ b ∈ t.guest, b.guest = pathOf names → Redundant t b := by
  rw [sameGuestView_update_iff h hroot h' hroot' htable hlength]
  have hlength' : (withEnding names .finalNormal).length < pathMax := hlength
  by_cases hbound : ∃ b ∈ t.guest, b.guest = pathOf names
  · obtain ⟨b, hb, hguest⟩ := hbound
    have hremoved := tableOf_remove h hb hguest
    have hrootRemoved := hroot.remove h hb fun heq => hne (pathOf_eq_root.mp (hguest.symm.trans heq))
    have hview := SameGuestView.of_table (h.remove b) hrootRemoved h' hroot'
      (htable.trans hremoved.symm)
    have hsame := hview (withEnding names .finalNormal) ⟨names, _, rfl⟩ hlength'
    rw [show pathOf names = withEnding names .finalNormal from rfl, hsame]
    constructor
    · rintro heq c hc hcguest
      obtain rfl : c = b := List.inj_on_of_nodup_map h.distinct hc hb (hcguest.trans hguest.symm)
      rw [Redundant, hguest]
      exact heq
    · intro hall
      have hredundant := hall b hb hguest
      rwa [Redundant, hguest] at hredundant
  · rw [not_exists] at hbound
    have hnone : tableOf t names = none := by
      rw [tableOf_eq_none]
      exact fun b hb hguest => hbound b ⟨hb, hguest⟩
    have hsame : tableOf t' = tableOf t := by
      rw [htable, ← hnone, Function.update_eq_self]
    constructor
    · exact fun _ b hb hguest => absurd ⟨hb, hguest⟩ (hbound b)
    · exact fun _ => SameGuestView.of_table h hroot h' hroot' hsame _ ⟨names, .finalNormal, rfl⟩
        hlength'

theorem sameGuestView_root_iff {t : Bindings} (h : t.Sorted) (hroot : t.Rooted) {path : CString}
    (hpath : Canonical path) :
    SameGuestView t (insortBinding3 t path ['/']) ↔
      path = getRoot t ∨ RootTooLong path ∧ RootTooLong (getRoot t) := by
  obtain ⟨host, rfl⟩ := hpath
  obtain ⟨root, hentry, hgetRoot⟩ := tableOf_root h hroot
  obtain ⟨hsorted, -, hpaths, -⟩ := @Bindings.Sorted.insort3 _ h (pathOf host) ['/']
    ⟨host, rfl⟩ ⟨[], rfl⟩
  have hrooted : (insortBinding3 t (pathOf host) ['/']).Rooted := (hpaths _).mpr (.inl rfl)
  have htable := tableOf_insort3 h host []
  have hlength : (withEnding [] .finalNormal).length < pathMax := by decide
  rw [sameGuestView_update_iff h hroot hsorted hrooted htable hlength]
  obtain ⟨top, htop, hsub⟩ := substituteBinding_resolve h hroot hlength
  obtain ⟨top', htop', hsub'⟩ := substituteBinding_resolve hsorted hrooted hlength
  rw [show pathOf [] = withEnding [] .finalNormal from rfl, hsub, hsub', Except.ok.injEq, hgetRoot]
  rw [Lib.PrefixTable.resolve_nil, hentry, Option.some.injEq] at htop
  rw [Lib.PrefixTable.resolve_nil, show tableOf (insortBinding3 t (pathOf host) ['/']) = _ from htable,
    Function.update_self, Option.some.injEq] at htop'
  subst htop htop'
  have hlong : ∀ names, ¬ FitsNames [] names .finalNormal ↔ RootTooLong (pathOf names) :=
    fun names => Nat.not_lt
  rw [← hlong, ← hlong]
  constructor
  · intro heq
    rcases substitution_eq heq with rfl | ⟨⟨-, hnot'⟩, -, hnot⟩
    · exact .inl rfl
    · exact .inr ⟨hnot', hnot⟩
  · rintro (heq | ⟨hnot', hnot⟩)
    · rw [pathOf_injective heq]
    · have hfits : FitsNames [] [] .finalNormal := by decide
      have hlift : ∀ names, ¬ FitsNames [] names .finalNormal →
          substitution [] names .finalNormal = (true, ['/']) := by
        intro names hnames
        have hne : names ≠ [] := by
          rintro rfl
          exact hnames hfits
        rw [substitution, if_neg hne, if_neg hnames]
        rfl
      rw [hlift _ hnot', hlift _ hnot]

theorem insort_of_mount (hw : w.Sound none kept) {srcUser fstype : CString} {flags : Nat}
    {tempDirectory : Option CString} (htemp : TempPath tempDirectory)
    (hchop : MountChopsWell srcUser targetUser fstype flags tempDirectory w)
    (hg : (guestCanonicalize targetUser w).1 = .ok g) {h : CString}
    (hsource : (mountSource srcUser fstype flags tempDirectory w).1 = .ok h) :
    Canonical (chopFinality h) ∧ Canonical g := by
  have hrun := Still.eq_ok (mountSource_still hw.glueType srcUser fstype flags tempDirectory) hsource
  have hcanon := Still.eq_ok (guestCanonicalize_still hw.glueType targetUser) hg
  obtain ⟨-, hyields⟩ := (mountSource_sound htemp).after hw hchop
  obtain ⟨hended, hmis, htarget⟩ := hyields h w hrun
  exact ⟨hended.chopFinality hmis, (guestCanonicalize_after hw htarget).2 g w hcanon⟩

theorem mountRoot_undone_iff {t t' : Bindings} (h : t.Sorted) (hroot : t.Rooted)
    {source : Except Failure CString}
    (hcanon : ∀ path, source = .ok path → Canonical (chopFinality path))
    (ht' : ((∀ path, source ≠ .ok path) ∧ t' = t) ∨
      ∃ path, source = .ok path ∧ t' = insortBinding3 t (chopFinality path) ['/']) :
    SameGuestView t t' ↔ ∀ path, source = .ok path → chopFinality path = getRoot t ∨
      RootTooLong (chopFinality path) ∧ RootTooLong (getRoot t) := by
  rcases ht' with ⟨hnone, rfl⟩ | ⟨path, rfl, rfl⟩
  · constructor
    · exact fun _ path hpath => absurd hpath (hnone path)
    · exact fun _ => .refl t'
  · rw [sameGuestView_root_iff h hroot (hcanon path rfl)]
    constructor
    · rintro hcond _ ⟨⟩
      exact hcond
    · exact fun hall => hall path rfl

theorem mountBelow_undone_iff {t t₁ t₂ : Bindings} (h : t.Sorted) (hroot : t.Rooted)
    (h₁ : t₁.Sorted) (hroot₁ : t₁.Rooted) (hne : g ≠ ['/']) (hlength : g.length < pathMax)
    (ht₁ : t₁ = t ∨ ∃ path, Canonical path ∧ Canonical g ∧ t₁ = insortBinding3 t path g)
    (ht₂ : (∃ b ∈ t₁.guest, b.guest = g ∧ t₂ = removeBindingFromAllLists t₁ b) ∨
      (∀ b ∈ t₁.guest, b.guest ≠ g) ∧ t₂ = t₁) :
    SameGuestView t t₂ ↔ ∀ b ∈ t.guest, b.guest = g → Redundant t b := by
  rcases ht₂ with ⟨b, hb, rfl, rfl⟩ | ⟨hnone, rfl⟩
  · obtain ⟨names, hguest⟩ := (h₁.clean b hb).guest
    rw [hguest] at hlength ht₁ ⊢
    have hnames : names ≠ [] := fun hnil => hne (hguest.trans (pathOf_eq_root.mpr hnil))
    refine sameGuestView_of_removed h hroot (h₁.remove b) (hroot₁.remove h₁ hb hne) hnames ?_ hlength
    rw [tableOf_remove h₁ hb hguest]
    rcases ht₁ with rfl | ⟨_, ⟨host, rfl⟩, -, rfl⟩
    · rfl
    · rw [tableOf_insort3 h, Function.update_idem]
  · rcases ht₁ with rfl | ⟨path, hpath, hg, rfl⟩
    · constructor
      · exact fun _ b hb hguest => absurd hguest (hnone b hb)
      · exact fun _ => .refl t₂
    · exact absurd rfl (hnone _ ((h.mem_insort3 hpath hg).mpr (.inl rfl)))

/-- **Unmounting undoes mounting**, exactly when the tree was fit for it; and umount(2) keeps every
binding that was given, exactly when none was given to its target, unless that is "/". -/
theorem umount_undoes_mount (hw : w.Sound none kept) :
    (∀ srcUser targetUser fstype flags tempDirectory g, TempPath tempDirectory →
      MountChopsWell srcUser targetUser fstype flags tempDirectory w →
      (guestCanonicalize targetUser w).1 = .ok g → g.length < pathMax →
      let w₁ := (emulateMount srcUser targetUser fstype flags tempDirectory w).2
      (guestCanonicalize targetUser w₁).1 = .ok g →
      (SameGuestView w.tracee.bindings (emulateUmount targetUser w₁).2.tracee.bindings ↔
        Undoable w (mountSource srcUser fstype flags tempDirectory) g)) ∧
    ∀ targetUser, ∀ given : Binding → Prop,
      (∀ b ∈ w.tracee.bindings.guest, given b →
        b ∈ (emulateUmount targetUser w).2.tracee.bindings.guest) ↔
      ∀ g, (guestCanonicalize targetUser w).1 = .ok g → g ≠ ['/'] →
        ∀ b ∈ w.tracee.bindings.guest, given b → b.guest ≠ g := by
  constructor
  · intro srcUser targetUser fstype flags tempDirectory g htemp hchop hg hlength w₁ hagain
    have hw₁ : w₁.Sound none kept := (emulateMount_after hw htemp hchop).1
    have hmount := emulateMount_tree hw hg srcUser fstype flags tempDirectory
    have hcanon : ∀ h, (mountSource srcUser fstype flags tempDirectory w).1 = .ok h → _ :=
      fun h hsource => insort_of_mount hw htemp hchop hg hsource
    have humount := emulateUmount_tree hw₁ hagain
    unfold Undoable
    split_ifs with hroot
    · subst hroot
      obtain ⟨-, hsame⟩ := humount.resolve_left fun h => h.1 rfl
      rw [hsame]
      refine mountRoot_undone_iff hw.sorted hw.rooted (fun h hsource => (hcanon h hsource).1) ?_
      exact hmount.imp_left fun h => ⟨h.1, by rw [show w₁ = w from h.2]⟩
    · refine mountBelow_undone_iff hw.sorted hw.rooted hw₁.sorted hw₁.rooted hroot hlength ?_ ?_
      · rcases hmount with ⟨-, heq⟩ | ⟨h, hsource, htree⟩
        · exact .inl (by rw [show w₁ = w from heq])
        · obtain ⟨hpath, hguest⟩ := hcanon h hsource
          exact .inr ⟨_, hpath, hguest, htree⟩
      · exact humount.imp (fun h => h.2) fun h => ⟨h.1.resolve_left hroot, h.2⟩
  · intro targetUser given
    cases hg : (guestCanonicalize targetUser w).1 with
    | error e =>
        have hrun : guestCanonicalize targetUser w = (.error e, w) :=
          Prod.ext hg (guestCanonicalize_still hw.glueType targetUser).snd
        have hsame : (emulateUmount targetUser w).2 = w := by
          simp only [emulateUmount, bind, hrun]
        rw [hsame]
        exact ⟨fun _ g hok => (nomatch hok), fun _ b hb _ => hb⟩
    | ok g =>
        rcases emulateUmount_tree hw hg with ⟨hne, b, hb, hguest, htree⟩ | ⟨hnone, htree⟩
        · rw [htree]
          simp only [hw.sorted.mem_remove hb, hguest]
          constructor
          · rintro hkept _ ⟨⟩ - c hc hgiven
            exact (hkept c hc hgiven).2
          · exact fun hall c hc hgiven => ⟨hc, hall g rfl hne c hc hgiven⟩
        · rw [htree]
          constructor
          · rintro - _ ⟨⟩ hne c hc -
            exact hnone.resolve_left hne c hc
          · exact fun _ b hb _ => hb

theorem reached_sound {s : NameSpace}
    (hreach : system.Reach (fun s e => e.Lawful ∧ e.ChopsWell s) s) (hinit : s.initialized = true)
    (hregular : s.world.Regular) (hglue : s.world.tracee.glueType = none) :
    s.world.Sound none (mortal []) := by
  obtain ⟨hsorted, hrooted⟩ := reached_sorted hreach hinit
  exact { hregular with
    glueType := hglue
    sorted := hsorted
    rooted := hrooted
    kept := nofun }

/-- "/proc" on "/mnt/a", which has no binding, comes and goes. -/
theorem umount_undoes_mount_proc :
    SameGuestView (rootNameSpace true).bindings
      (emulateUmount mntA
        (emulateMount [] mntA ['p', 'r', 'o', 'c'] 0 none (rootNameSpace true).world).2
      ).2.tracee.bindings := by
  have hregular : (rootNameSpace true).world.Regular :=
    ⟨by decide, nofun, nofun, nofun, nofun, nofun⟩
  have hsound := reached_sound rootNameSpace_reached rfl hregular rfl
  have htemp : TempPath none := nofun
  have hchops : MountChopsWell [] mntA ['p', 'r', 'o', 'c'] 0 none (rootNameSpace true).world := by
    rintro _ _ ⟨⟩
    refine ⟨by decide, .inl (by decide), ?_⟩
    rintro _ _ ⟨⟩
    decide
  refine ((umount_undoes_mount hsound).1 [] mntA ['p', 'r', 'o', 'c'] 0 none mntA htemp hchops rfl
    (by decide) rfl).mpr ?_
  rw [Undoable, if_neg (by decide)]
  intro b hb hguest
  obtain rfl : b = ⟨0, ['/'], ['/'], false⟩ := List.mem_singleton.mp hb
  exact absurd hguest (by decide)

/-- With the options `-r /rootfs -b /rootfs/a:/b -b /other:/a`, a mount of "/proc" on "/a" and its
umount leave "/a" with the directory of the rootfs; and an umount of "/a" removes the binding that
was given. -/
theorem umount_not_undo :
    system.Reach (fun s e => e.Lawful ∧ e.ChopsWell s) shadowedNameSpace ∧
      (let mounted := (emulateMount [] dirA ['p', 'r', 'o', 'c'] 0 none shadowedNameSpace.world).2
      (emulateMount [] dirA ['p', 'r', 'o', 'c'] 0 none shadowedNameSpace.world).1 = .ok () ∧
        ¬ SameGuestView shadowedNameSpace.bindings
          (emulateUmount dirA mounted).2.tracee.bindings) ∧
      ∃ b ∈ shadowedBindings,
        b ∉ (emulateUmount dirA shadowedNameSpace.world).2.tracee.bindings.guest := by
  refine ⟨shadowedNameSpace_reached, ⟨rfl, fun hview => ?_⟩, ⟨2, other, dirA, true⟩, by decide, ?_⟩
  · have hsame := hview dirA (Canonical.ended (by decide)) (by decide)
    have hbefore : substituteBinding shadowedNameSpace.bindings .guest dirA = .ok (true, other) := rfl
    rw [hbefore] at hsame
    exact absurd hsame (by decide)
  · decide

end Improot.Syscall
