import Improot.Path.HostOrder
import Improot.Syscall.MountUndo
import Improot.Tracee.CloneSpec

/-!
# The view of a child with mounts of its own

With `CLONE_NEWNS`, `new_child` builds the bindings of the child by inserting those of the parent,
in the order of the guest list. The guest list of the copy is equivalent to the parent's; in the
host list, bindings of one host path come in the order of their insertion, which the copy may
change.
-/

namespace Improot.Tracee

open Improot.Path
open Improot.Syscall

variable {w : Nat}

/-! ## Two trees -/

/-- Two trees that translate every path alike, in any world where no binding is being initialized.
-/
structure SameTranslations (t t' : Bindings) : Prop where
  substitute : ∀ path, substituteBinding t' .guest path = substituteBinding t .guest path
  translate : ∀ (world : World) dirFd path derefFinal, world.tracee.glueType = none →
    (translatePath dirFd path derefFinal (world.withTree t')).1 =
      (translatePath dirFd path derefFinal (world.withTree t)).1
  detranslate : ∀ (world : World) path referrer,
    detranslatePath (world.withTree t') path referrer =
      detranslatePath (world.withTree t) path referrer

theorem SameTranslations.refl (t : Bindings) : SameTranslations t t :=
  ⟨fun _ => rfl, fun _ _ _ _ _ => rfl, fun _ _ _ => rfl⟩

theorem copyBindings_same {t : Bindings} (h : t.Sorted) (hroot : t.Rooted) :
    SameBindings t (copyBindings t) ∧
      ∀ hostPath, ofHost (copyBindings t).host hostPath = ofHost t.guest hostPath := by
  have hempty : Bindings.empty.Sorted :=
    Bindings.Building.sorted ⟨by simp [Bindings.empty], by simp [Bindings.empty],
      by simp [Bindings.empty], rfl, rfl⟩
  obtain ⟨hsorted, hrooted⟩ := copyBindings_sorted h hroot
  have hnone : ∀ b ∈ t.guest, ∀ x ∈ Bindings.empty.guest, x.guest ≠ b.guest := by rintro _ _ _ ⟨⟩
  obtain ⟨-, hpaths, hhosts⟩ := foldl_insort3 hempty h.clean h.distinct hnone
  refine ⟨⟨h, hsorted, hroot, hrooted, fun paths => ?_⟩, fun hostPath => hhosts hostPath⟩
  refine (hpaths paths).trans (or_iff_right ?_)
  exact List.not_mem_nil

/-- **The copy translates alike** exactly when it keeps the order of the host list. -/
theorem copyBindings_iff {t : Bindings} (h : t.Sorted) (hroot : t.Rooted) :
    SameTranslations t (copyBindings t) ↔ HostOrderKept t := by
  obtain ⟨hsame, horder⟩ := copyBindings_same h hroot
  constructor
  · exact fun hview => (hsame.detranslatePath_iff horder plainWorld).mp (hview.detranslate plainWorld)
  · intro hkept
    refine ⟨hsame.substituteBinding_guest, fun world dirFd path derefFinal hglue => ?_,
      fun world => (hsame.detranslatePath_iff horder world).mpr hkept⟩
    have htree : SameTree (world.withTree t) (world.withTree (copyBindings t)) :=
      ⟨hglue, ⟨_, rfl⟩, hsame.substituteBinding_guest,
        (hsame.detranslatePath_iff horder world).mpr hkept⟩
    exact (translatePath_same htree dirFd path derefFinal).fst

/-! ## Later mounts -/

structure MountOp where
  pid : Nat
  world : World
  call : MountCall

/-- Some of them, one after the other; nothing comes after a failed assertion. -/
def Tracees.runMounts (s : Tracees w) : List MountOp → Option (Tracees w)
  | [] => some s
  | op :: ops => (s.step (.mount op.pid op.world op.call)).bind fun s' => s'.runMounts ops

/-- Whatever two tracees mount and unmount, each of them translates as if it had been alone. -/
def Isolated (s : Tracees w) (parent child : Nat) : Prop :=
  ∀ ops s', (∀ op ∈ ops, op.pid = parent ∨ op.pid = child) → s.runMounts ops = some s' →
    ∀ pid, pid = parent ∨ pid = child →
      ∃ own, s.runMounts (ops.filter (·.pid = pid)) = some own ∧
        SameTranslations (own.tree pid) (s'.tree pid)

/-- What a tracee sees of another state: nothing that differs. -/
structure Alone (s own : Tracees w) (pid : Nat) : Prop where
  member : pid ∈ s.pids
  member' : pid ∈ own.pids
  cwd : own.cwd pid = s.cwd pid
  tree : own.tree pid = s.tree pid

theorem step_mount (s : Tracees w) (pid : Nat) (world : World) (call : MountCall) :
    s.step (.mount pid world call) =
      if pid ∉ s.pids then none
      else
        match call.run (s.worldOf pid world) with
        | (.error .abort, _) => none
        | (_, world) => some (s.setTree pid world.tracee.bindings) := rfl

theorem setTree_of_step {s s' : Tracees w} {op : MountOp}
    (h : s.step (.mount op.pid op.world op.call) = some s') : ∃ t, s' = s.setTree op.pid t := by
  rw [step_mount] at h
  split at h
  · cases h
  · split at h
    · cases h
    · cases h
      exact ⟨_, rfl⟩

theorem setTree_self (s : Tracees w) (pid : Nat) (t : Bindings) : (s.setTree pid t).tree pid = t :=
  Function.update_self ..

theorem setTree_other {s : Tracees w} {p q : Nat} (hne : s.listsOf q ≠ s.listsOf p) (t : Bindings) :
    (s.setTree p t).tree q = s.tree q := Function.update_of_ne hne _ _

theorem Alone.step {s own s' : Tracees w} {op : MountOp} (h : Alone s own op.pid)
    (hstep : s.step (.mount op.pid op.world op.call) = some s') :
    ∃ own', own.step (.mount op.pid op.world op.call) = some own' ∧ Alone s' own' op.pid := by
  have hworld : own.worldOf op.pid op.world = s.worldOf op.pid op.world := by
    unfold Tracees.worldOf
    rw [h.tree, h.cwd]
  obtain ⟨hpid, hpid', hcwd, -⟩ := h
  rw [step_mount, if_neg (not_not.mpr hpid)] at hstep
  rw [step_mount, if_neg (not_not.mpr hpid'), hworld]
  split at hstep
  · cases hstep
  · cases hstep
    exact ⟨_, rfl, hpid, hpid', hcwd, (setTree_self ..).trans (setTree_self ..).symm⟩

theorem alone_of_runMounts {s own s' : Tracees w} {p q : Nat} {ops : List MountOp}
    (hne : s.listsOf p ≠ s.listsOf q) (hpids : ∀ op ∈ ops, op.pid = p ∨ op.pid = q)
    (hown : Alone s own p) (hrun : s.runMounts ops = some s') :
    ∃ own', own.runMounts (ops.filter (·.pid = p)) = some own' ∧ Alone s' own' p := by
  induction ops generalizing s own with
  | nil =>
      cases hrun
      exact ⟨own, rfl, hown⟩
  | cons op ops ih =>
      obtain ⟨hpid, hpids⟩ := List.forall_mem_cons.mp hpids
      obtain ⟨s₁, hstep, hrun⟩ := Option.bind_eq_some_iff.mp hrun
      obtain ⟨t, hs₁⟩ := setTree_of_step hstep
      have hne₁ : s₁.listsOf p ≠ s₁.listsOf q := by
        rw [hs₁]
        exact hne
      by_cases hp : op.pid = p
      · subst hp
        obtain ⟨own₁, hownStep, hown₁⟩ := hown.step hstep
        obtain ⟨own', hownRun, hown'⟩ := ih hne₁ hpids hown₁ hrun
        refine ⟨own', ?_, hown'⟩
        rw [List.filter_cons_of_pos (by simp), Tracees.runMounts, hownStep]
        exact hownRun
      · have hq := hpid.resolve_left hp
        have hkept : Alone s₁ own p := by
          rw [hs₁, hq]
          refine ⟨hown.member, hown.member', hown.cwd, ?_⟩
          rw [hown.tree, setTree_other hne]
        obtain ⟨own', hownRun, hown'⟩ := ih hne₁ hpids hkept hrun
        refine ⟨own', ?_, hown'⟩
        rw [List.filter_cons_of_neg (by simpa using hp)]
        exact hownRun

theorem isolated_of_lists {s : Tracees w} {p q : Nat} (hp : p ∈ s.pids) (hq : q ∈ s.pids)
    (hne : s.listsOf p ≠ s.listsOf q) : Isolated s p q := by
  intro ops s' hpids hrun pid hpid
  have hself : ∀ r ∈ s.pids, Alone s s r := fun r hr => ⟨hr, hr, rfl, rfl⟩
  rcases hpid with rfl | rfl
  · obtain ⟨own, hown, halone⟩ := alone_of_runMounts hne hpids (hself _ hp) hrun
    exact ⟨own, hown, halone.tree ▸ .refl _⟩
  · obtain ⟨own, hown, halone⟩ :=
      alone_of_runMounts hne.symm (fun op hop => (hpids op hop).symm) (hself _ hq) hrun
    exact ⟨own, hown, halone.tree ▸ .refl _⟩

/-! ## The child -/

/-- The tracees once `parent` has created `child` by a call. -/
def Tracees.cloned (s : Tracees w) (parent child : Nat) (call : CloneCall) : Tracees w :=
  (s.enterClone parent call).newChild parent child call.strip

section Cloned

variable {s : Tracees w} {parent child : Nat} {call : CloneCall}

theorem enterClone_objects (s : Tracees w) (parent : Nat) (call : CloneCall) :
    (s.enterClone parent call).fsOf = s.fsOf ∧ (s.enterClone parent call).heapOf = s.heapOf ∧
      (s.enterClone parent call).listsOf = s.listsOf := by
  have hfs : (s.enterClone parent call).fsOf = s.fsOf := by
    funext q
    apply s.fsOf_update
    rfl
  have hheap : (s.enterClone parent call).heapOf = s.heapOf := by
    funext q
    apply s.heapOf_update
    rfl
  refine ⟨hfs, hheap, ?_⟩
  funext q
  exact congrArg (fun n => (s.fs n).bindings) (congrFun hfs q)

theorem enterClone_allocated (h : Allocated s) : Allocated (s.enterClone parent call) := by
  obtain ⟨hfs, hheap, hlists⟩ := enterClone_objects s parent call
  refine ⟨?_, ?_, ?_⟩
  · rw [hfs]
    exact h.fs
  · rw [hheap]
    exact h.heap
  · rw [hlists]
    exact h.lists

theorem enterClone_stripped (hnewns : call.newns = true) :
    ((s.enterClone parent call).process parent).cloneStrippedNewns = true := by
  simp [Tracees.enterClone, hnewns]

/-- **What a call with `CLONE_NEWNS` leaves**: the parent has the lists it had; the child has its
own copy, unless it shares the name-space of its parent. -/
theorem cloned_trees (h : Allocated s) (hparent : parent ∈ s.pids) (hchild : child ∉ s.pids)
    (hnewns : call.newns = true) :
    let s' := s.cloned parent child call
    s'.tree parent = s.tree parent ∧ s'.cwd child = s'.cwd parent ∧
      if call.flags.has cloneFs then s'.listsOf child = s'.listsOf parent
      else s'.listsOf child ≠ s'.listsOf parent ∧ s'.tree child = copyBindings (s.tree parent) := by
  intro s'
  obtain ⟨-, -, hlists⟩ := enterClone_objects s parent call
  have halloc := @enterClone_allocated _ s parent call h
  have hmem : parent ∈ (s.enterClone parent call).pids := hparent
  have hne : parent ≠ child := by
    rintro rfl
    exact hchild hparent
  have htree : (s.enterClone parent call).tree parent = s.tree parent :=
    congrArg s.bindings (congrFun hlists parent)
  obtain ⟨hcwd, -, hkept⟩ :=
    @newChild_kept _ _ parent child call.strip halloc (show child ∉ _ from hchild) _ hmem
  obtain ⟨hcwdChild, -, hchildTree⟩ := @newChild_child _ _ parent child call.strip halloc hmem
  have hlistsChild :=
    @Tracees.newChild_listsOf_child _ (s.enterClone parent call) parent child call.strip
  have hlistsParent : s'.listsOf parent = (s.enterClone parent call).listsOf parent :=
    (s.enterClone parent call).newChild_listsOf hne (halloc.fs parent hmem)
  rw [enterClone_stripped hnewns, call.flags_strip_fs, htree] at hchildTree
  rw [enterClone_stripped hnewns, call.flags_strip_fs] at hlistsChild
  refine ⟨hkept.trans htree, hcwdChild.trans hcwd.symm, ?_⟩
  cases hflag : call.flags.has cloneFs with
  | true =>
      rw [if_pos rfl]
      rw [hflag, if_neg (by simp)] at hlistsChild
      exact hlistsChild.trans hlistsParent.symm
  | false =>
      rw [if_neg (by simp)]
      rw [hflag, if_pos (by simp)] at hlistsChild hchildTree
      refine ⟨?_, hchildTree⟩
      rw [hlistsParent]
      exact fun heq => Nat.ne_of_gt (halloc.lists parent hmem) (hlistsChild.symm.trans heq)

end Cloned

/-! ## A shared name-space -/

/-- mount(2) of "/proc" or "/sys" on "/", in a world where everything is a directory. -/
def mountOnRoot (fstype : CString) : MountCall := .mount [] ['/'] fstype 0 none

theorem guestCanonicalize_root {world : World} (h : world.tracee.bindings.Sorted)
    (hroot : world.tracee.bindings.Rooted) (hhost : world.host = plainWorld.host)
    (hextensions : world.tracee.extensions = []) (hglue : world.tracee.glueType = none) :
    guestCanonicalize ['/'] world = (.ok ['/'], world) := by
  obtain ⟨substituted, hostPath, hsub⟩ :=
    @substituteBinding_exists _ (h.wellFormed hroot) ['/'] ⟨rfl, .inl rfl⟩
  have hstat : substituteBindingStat .finalNormal 0 ['/'] world = (.ok (false, hostPath), world) := by
    simp only [substituteBindingStat, Comp.bind_run, Comp.get_run, hsub, Comp.lift_ok,
      notifyHostPath, hglue, hextensions, notifyExtensions, Except.map, statOrGlue, hhost]
    rfl
  have hwalk : canonicalize ['/'] true ['/'] 0 world = (.ok ['/'], world) := by
    unfold canonicalize
    have hstep : ∀ budget, canonicalizeAt (budget + 1) ['/'] true ['/'] 0 world =
        (.ok ['/'], world) := by
      intro budget
      rw [canonicalizeAt, if_neg (by decide), if_neg (by decide), if_neg (by decide)]
      have hloop : ∀ recurse fuel, canonicalizeLoop recurse true 0 (fuel + 1) ['/'] ['/'] 0 world =
          (.ok (.finalNormal, ['/']), world) := by
        intro recurse fuel
        rw [canonicalizeLoop, show nextComponent ['/'] = .ok (.finalNormal, [], []) from rfl]
        simp only [Comp.bind_run, Comp.lift_ok]
        rw [if_neg (by decide), if_neg (by decide)]
        simp only [Comp.bind_run, show joinPaths [some ['/'], some []] = .ok ['/'] from rfl,
          Comp.lift_ok, hstat]
        rfl
      simp only [Comp.bind_run]
      rw [show (if ['/'].head? ≠ some '/' then ['/'] else ['/']) = (['/'] : CString) from rfl, hloop]
      rfl
    exact hstep _
  simp only [guestCanonicalize, canonicalizeUser, Comp.bind_run, Comp.get_run, List.head?_cons,
    if_true, Comp.lift_ok, hwalk]
  rfl

theorem mountOnRoot_changes {world : World} (h : world.tracee.bindings.Sorted)
    (hroot : world.tracee.bindings.Rooted) (hhost : world.host = plainWorld.host)
    (hextensions : world.tracee.extensions = []) (hglue : world.tracee.glueType = none) :
    ∃ fstype world', (mountOnRoot fstype).run world = (.ok (), world') ∧
      ¬ SameGuestView world.tracee.bindings world'.tracee.bindings := by
  have hcanon := guestCanonicalize_root h hroot hhost hextensions hglue
  have hmount : ∀ fstype path, fstypePath fstype none = some path → chopFinality path = path →
      Canonical path → ¬ RootTooLong path → path ≠ getRoot world.tracee.bindings →
      ∃ world', (mountOnRoot fstype).run world = (.ok (), world') ∧
        ¬ SameGuestView world.tracee.bindings world'.tracee.bindings := by
    intro fstype path hpath hchop hcanonical hshort hne
    have hsource : mountSource [] fstype 0 none world = (.ok path, world) := by
      simp only [mountSource, Nat.zero_and, ne_eq, not_true_eq_false, if_false, hpath]
      rfl
    refine ⟨{ world with tracee := { world.tracee with
      bindings := insortBinding3 world.tracee.bindings path ['/'] } }, ?_, ?_⟩
    · simp only [mountOnRoot, MountCall.run, emulateMount, Comp.bind_run, hsource, hcanon, hchop]
      rfl
    · rw [sameGuestView_root_iff h hroot hcanonical]
      rintro (heq | ⟨hlong, -⟩)
      · exact hne heq
      · exact hshort hlong
  by_cases hproc : getRoot world.tracee.bindings = ['/', 'p', 'r', 'o', 'c']
  · refine ⟨['s', 'y', 's', 'f', 's'], hmount _ ['/', 's', 'y', 's'] rfl rfl (by decide) ?_ ?_⟩
    · unfold RootTooLong
      decide
    · rw [hproc]
      decide
  · refine ⟨['p', 'r', 'o', 'c'], hmount _ ['/', 'p', 'r', 'o', 'c'] rfl rfl (by decide) ?_ ?_⟩
    · unfold RootTooLong
      decide
    · exact fun heq => hproc heq.symm

theorem not_isolated_of_shared {s : Tracees w} {p c : Nat} (hc : c ∈ s.pids) (hne : c ≠ p)
    (hshared : s.listsOf c = s.listsOf p) (h : (s.tree p).Sorted) (hroot : (s.tree p).Rooted) :
    ¬ Isolated s p c := by
  have htree : s.tree c = s.tree p := congrArg s.bindings hshared
  have hsorted : (s.worldOf c plainWorld).tracee.bindings.Sorted := by
    rw [← htree] at h
    exact h
  have hrooted : (s.worldOf c plainWorld).tracee.bindings.Rooted := by
    rw [← htree] at hroot
    exact hroot
  obtain ⟨fstype, world', hrun, hchanged⟩ := mountOnRoot_changes hsorted hrooted rfl rfl rfl
  let op : MountOp := ⟨c, plainWorld, mountOnRoot fstype⟩
  have hstep : s.runMounts [op] = some (s.setTree c world'.tracee.bindings) := by
    rw [Tracees.runMounts, step_mount, if_neg (not_not.mpr hc), hrun]
    rfl
  intro hisolated
  obtain ⟨own, hown, hsame⟩ :=
    hisolated [op] _ (fun o ho => .inr (by rw [List.mem_singleton.mp ho])) hstep p (.inl rfl)
  rw [List.filter_cons_of_neg (by simpa [op] using hne)] at hown
  cases hown
  have hafter : (s.setTree c world'.tracee.bindings).tree p = world'.tracee.bindings := by
    unfold Tracees.tree
    rw [show (s.setTree c world'.tracee.bindings).listsOf p = s.listsOf c from hshared.symm]
    exact Function.update_self ..
  rw [hafter] at hsame
  refine hchanged fun path _ _ => ?_
  rw [hsame.substitute]
  exact congrArg (fun t => substituteBinding t .guest path) htree.symm

/-! ## When the law holds -/

/-- **`CLONE_NEWNS` copies the view**, and keeps the two apart, exactly when the name-space isn't
shared and the copy keeps the order of the host list. -/
theorem namespace_copied_iff {s : Tracees w} {parent child : Nat} {call : CloneCall}
    (halloc : Allocated s) (hparent : parent ∈ s.pids) (hchild : child ∉ s.pids)
    (hnewns : call.newns = true) (h : (s.tree parent).Sorted) (hroot : (s.tree parent).Rooted) :
    let s' := s.cloned parent child call
    (s'.tree parent = s.tree parent ∧ s'.cwd child = s'.cwd parent ∧
        SameTranslations (s.tree parent) (s'.tree child) ∧ Isolated s' parent child) ↔
      call.flags.has cloneFs = false ∧ HostOrderKept (s.tree parent) := by
  intro s'
  obtain ⟨htree, hcwd, hlists⟩ := cloned_trees halloc hparent hchild hnewns
  have hpids : parent ∈ s'.pids ∧ child ∈ s'.pids := ⟨.tail _ hparent, .head _⟩
  have hne : child ≠ parent := by
    rintro rfl
    exact hchild hparent
  change s'.tree parent = s.tree parent at htree
  cases hflag : call.flags.has cloneFs with
  | true =>
      rw [hflag, if_pos rfl] at hlists
      constructor
      · rintro ⟨-, -, -, hisolated⟩
        exact absurd hisolated
          (not_isolated_of_shared hpids.2 hne hlists (htree ▸ h) (htree ▸ hroot))
      · rintro ⟨hfalse, -⟩
        cases hfalse
  | false =>
      rw [hflag, if_neg (by simp)] at hlists
      obtain ⟨hdiffer, hcopy⟩ := hlists
      change s'.tree child = copyBindings (s.tree parent) at hcopy
      rw [hcopy, copyBindings_iff h hroot]
      constructor
      · rintro ⟨-, -, hkept, -⟩
        exact ⟨rfl, hkept⟩
      · rintro ⟨-, hkept⟩
        exact ⟨htree, hcwd, hkept, isolated_of_lists hpids.1 hpids.2 hdiffer.symm⟩

/-! ## Runs -/

/-- The first tracee asks for mounts of its own. -/
theorem namespace_copied_root :
    let s' := firstTracee.1.cloned 1 2 (.clone cloneNewns)
    s'.cwd 2 = s'.cwd 1 ∧ SameTranslations (firstTracee.1.tree 1) (s'.tree 2) ∧ Isolated s' 1 2 := by
  have halloc : Allocated firstTracee.1 := (agree_init (firstTracee_init pretended)).allocated
  obtain ⟨hsorted, hrooted⟩ := reached_sorted rootNameSpace_reached rfl
  have hkept : HostOrderKept (firstTracee.1.tree 1) := by
    intro hostPath b c _ _ hb hc
    have hone : ∀ {x : Binding}, x ∈ [(⟨0, ['/'], ['/'], false⟩ : Binding)] → x = _ :=
      List.mem_singleton.mp
    exact .inl ((hone (firstOf_spec hb).1).trans (hone (firstOf_spec hc).1).symm)
  have hiff := @namespace_copied_iff _ firstTracee.1 1 2 (.clone cloneNewns) halloc (by decide)
    (by decide) (by decide) hsorted hrooted
  exact (hiff.mpr ⟨by decide, hkept⟩).2

def twiceMounted : NameSpace := ((rootNameSpace true).mountProc dirXY).mountProc dirZ

theorem twiceMounted_reached :
    Syscall.system.Reach (fun s e => e.Lawful ∧ e.ChopsWell s) twiceMounted := by
  apply mountProc_reached
  · exact mountProc_reached rootNameSpace_reached dirXY (by decide) (by decide) rfl rfl
  · decide
  · decide
  · rfl
  · rfl

def twiceMountedTracee : Tracees 64 := firstTracee.1.setTree 1 twiceMounted.bindings

/-- After two mounts of "/proc", the parent brings "/proc" back to the first of its mount points, a
child created with `CLONE_NEWNS` to the second one. -/
theorem namespace_not_copied :
    Syscall.system.Reach (fun s e => e.Lawful ∧ e.ChopsWell s) twiceMounted ∧
      let s' := twiceMountedTracee.cloned 1 2 (.clone cloneNewns)
      detranslatePath (s'.worldOf 1 plainWorld) procDir none = .ok (5, dirXY) ∧
        detranslatePath (s'.worldOf 2 plainWorld) procDir none = .ok (3, dirZ) :=
  ⟨twiceMounted_reached, rfl, rfl⟩

end Improot.Tracee
