import Improot.Lib.Transition
import Improot.Path.InitializeSpec
import Improot.Syscall.MountSpec

/-!
# The bindings of a file-system name-space

A name-space is shared by tracees: bindings are first given on the command line, then initialized,
then changed by the system calls of whichever tracee runs.  Here all these steps are put together,
and the representation invariant of the two lists is shown to hold after any number of them, under
an exact account of the paths that `chop_finality` gets wrong or isn't asked to chop.
-/

namespace Improot.Syscall

open Improot.Path

structure NameSpace where
  world : World
  /-- the bindings in the life contexts of the tracees -/
  life : List (Nat × Binding)
  initialized : Bool

abbrev NameSpace.bindings (s : NameSpace) : Bindings := s.world.tracee.bindings

def NameSpace.setBindings (s : NameSpace) (t : Bindings) : NameSpace :=
  { s with world := { s.world with tracee := { s.world.tracee with bindings := t } } }

inductive Event where
  | newBinding (l : Launcher) (host : CString) (guest : Option CString)
  | initializeBindings
  | mount (srcUser targetUser fstype : CString) (flags : Nat) (tempDirectory : Option CString)
  | umount (targetUser : CString)
  /-- `held` are the bindings that something beside the lists holds -/
  | pivotRoot (held : Nat → Bool) (newRootUser putOldUser : CString)
  /-- execve(2) has read the auxiliary vectors -/
  | auxv (tempFile : Option CString)
  | socket (userPath : CString) (tempName : Option CString)
  /-- any other translation of a path -/
  | translate (dirFd : DirFd) (userPath : CString) (derefFinal : Bool)
  | exit (pid : Nat)
  | schedule (w : World)
  /-- clone(2) with `CLONE_NEWNS`: the child has its own copy -/
  | copy

/-- Runs a system call; nothing comes after a failed assertion. -/
def NameSpace.run {α : Type} (s : NameSpace) (x : Comp α) : Option NameSpace :=
  match x s.world with
  | (.error .abort, _) => none
  | (_, w) => some { s with world := w }

/-- The copy `new_child` makes of the bindings. -/
def copyBindings (t : Bindings) : Bindings :=
  t.guest.foldl (fun t b => insortBinding3 t b.host b.guest) Bindings.empty

def cleanLifeContext (t : Bindings) (bs : List Binding) : Bindings :=
  bs.foldl removeBindingFromAllLists t

def NameSpace.lifeContext (s : NameSpace) (pid : Nat) : List Binding :=
  (s.life.filter (·.1 = pid)).map (·.2)

/-- The binding that `bind_proc_pid_auxv` puts in the life context. -/
def NameSpace.auxvBinding (s : NameSpace) (hostPath : CString) : Nat × Binding :=
  (s.world.tracee.pid, ⟨s.bindings.nextNode, hostPath, procPidAuxv s.world.tracee.pid, false⟩)

def NameSpace.step (s : NameSpace) (e : Event) : Option NameSpace :=
  match e, s.initialized with
  | .newBinding l host guest, false =>
    match newBinding l s.bindings host guest with
    | .ok t => some (s.setBindings t)
    | .error _ => some s
  | .initializeBindings, false =>
    match Path.initializeBindings s.world with
    | (.ok (), w) => some { s with world := w, initialized := true }
    | (.error _, _) => none
  | .mount srcUser targetUser fstype flags tempDirectory, true =>
    s.run (emulateMount srcUser targetUser fstype flags tempDirectory)
  | .umount targetUser, true => s.run (emulateUmount targetUser)
  | .pivotRoot held newRootUser putOldUser, true =>
    s.run (emulatePivotRoot held newRootUser putOldUser)
  | .auxv none, true => s.run (bindProcPidAuxv none)
  | .auxv (some hostPath), true =>
    { s with life := s.auxvBinding hostPath :: s.life }.run (bindProcPidAuxv (some hostPath))
  | .socket userPath tempName, true => s.run (translateSocketPath userPath tempName)
  | .translate dirFd userPath derefFinal, true => s.run (translatePath dirFd userPath derefFinal)
  | .exit pid, true =>
    some { s.setBindings (cleanLifeContext s.bindings (s.lifeContext pid)) with
      life := s.life.filter (·.1 ≠ pid) }
  | .schedule w, _ => some ({ s with world := w }.setBindings s.bindings)
  | .copy, true => some { s.setBindings (copyBindings s.bindings) with life := [] }
  | _, _ => none

def system : Lib.System NameSpace Event where
  init s := s.world.Regular ∧ s.bindings = Bindings.empty ∧ s.life = [] ∧ s.initialized = false
  step := NameSpace.step

/-! ## Conditions -/

/-- What the host promises: the paths it resolves or creates are canonical. -/
def Event.Lawful : Event → Prop
  | .newBinding l _ _ => l.Lawful
  | .mount _ _ _ _ tempDirectory => TempPath tempDirectory
  | .auxv tempFile => TempPath tempFile
  | .socket _ tempName => TempPath tempName
  | .schedule w => w.Regular
  | _ => True

/-- No path escapes from `chop_finality`. -/
def Event.ChopsWell (s : NameSpace) : Event → Prop
  | .newBinding _ host _ => isProcSelf host = true → Canonical host
  | .initializeBindings => ChopWell s.world s.bindings.pending.reverse
  | .mount srcUser targetUser fstype flags tempDirectory =>
    MountChopsWell srcUser targetUser fstype flags tempDirectory s.world
  | .umount targetUser => Syscall.ChopsWell targetUser s.world
  | .pivotRoot _ newRootUser putOldUser => PivotChopsWell newRootUser putOldUser s.world
  | .socket userPath _ => SocketChopsWell userPath s.world
  | _ => True

/-! ## The invariant of the runs -/

def mortal (nodes : List Nat) : Kept where
  holds t := ∀ n ∈ nodes, n < t.nextNode ∧ ∀ x ∈ t.guest, x.node = n → x.guest ≠ ['/']
  remove := by
    intro t b h n hn
    exact ⟨(h n hn).1, fun x hx => (h n hn).2 x (List.mem_of_mem_filter hx)⟩
  insort3 := by
    intro t hostPath guestPath hsorted hhost hguest h n hn
    obtain ⟨-, hmem, -, hnext⟩ := hsorted.insort3 hhost hguest
    obtain ⟨hlt, hnot⟩ := h n hn
    refine ⟨by rw [hnext]; exact Nat.lt_succ_of_lt hlt, fun x hx hnode => ?_⟩
    rcases hmem x hx with ⟨hnew, -, -⟩ | hx
    · omega
    · exact hnot x hx hnode

def NameSpace.kept (s : NameSpace) : Kept := mortal (s.life.map (·.2.node))

inductive NameSpace.Valid (s : NameSpace) : Prop
  | building : s.initialized = false → s.world.Regular → s.bindings.Building → s.life = [] → s.Valid
  | running {glueType} : s.initialized = true → s.world.Sound glueType s.kept → s.Valid

theorem NameSpace.run_valid {α : Type} {s s' : NameSpace} {x : Comp α}
    {glueType : Option FileType} {Q : α → World → Prop} (hinit : s.initialized = true)
    (hx : Comp.After (World.Sound glueType s.kept) x s.world Q) (hrun : s.run x = some s') :
    s'.Valid := by
  have hkeep := hx.1
  unfold NameSpace.run at hrun
  split at hrun
  · cases hrun
  · rename_i w _ hx
    cases hrun
    rw [hx] at hkeep
    exact .running hinit hkeep

theorem copyBindings_sorted {t : Bindings} (h : t.Sorted) (hroot : t.Rooted) :
    (copyBindings t).Sorted ∧ (copyBindings t).Rooted := by
  have hfold : ∀ (bs : List Binding) (t₁ : Bindings), (∀ b ∈ bs, b.Clean) → t₁.Sorted →
      (bs.foldl (fun t b => insortBinding3 t b.host b.guest) t₁).Sorted ∧
        ∀ g, g ∈ bs.map (·.guest) ∨ g ∈ t₁.guest.map (·.guest) →
          g ∈ (bs.foldl (fun t b => insortBinding3 t b.host b.guest) t₁).guest.map (·.guest) := by
    intro bs
    induction bs with
    | nil => exact fun t₁ _ h₁ => ⟨h₁, fun g hg => by simpa using hg⟩
    | cons b bs ih =>
        intro t₁ hclean h₁
        obtain ⟨hb, hclean⟩ := List.forall_mem_cons.mp hclean
        obtain ⟨hsorted, -, hpaths, -⟩ := h₁.insort3 hb.host hb.guest
        obtain ⟨hsorted', hall⟩ := ih _ hclean hsorted
        refine ⟨hsorted', fun g hg => hall g ?_⟩
        rw [hpaths, List.map_cons, List.mem_cons] at *
        tauto
  have hempty : Bindings.empty.Sorted :=
    Bindings.Building.sorted ⟨by simp [Bindings.empty], by simp [Bindings.empty],
      by simp [Bindings.empty], rfl, rfl⟩
  obtain ⟨hsorted, hall⟩ := hfold t.guest _ h.clean hempty
  exact ⟨hsorted, hall _ (.inl hroot)⟩

theorem cleanLifeContext_sound {glueType : Option FileType} {kept : Kept} {bs : List Binding}
    {w : World} (hw : w.Sound glueType kept)
    (hbs : ∀ b ∈ bs, ∀ x ∈ w.tracee.bindings.guest, x.node = b.node → x.guest ≠ ['/']) :
    World.Sound glueType kept { w with tracee := { w.tracee with
      bindings := cleanLifeContext w.tracee.bindings bs } } := by
  induction bs generalizing w with
  | nil => exact hw
  | cons b bs ih =>
      obtain ⟨hb, hbs⟩ := List.forall_mem_cons.mp hbs
      exact ih (hw.remove hb) fun b' hb' x hx => hbs b' hb' x (List.mem_of_mem_filter hx)

theorem mortal_auxv {t : Bindings} (h : t.Sorted) {nodes : List Nat}
    (hkept : (mortal nodes).holds t) {hostPath : CString} (hhost : Canonical hostPath) (pid : Nat) :
    (mortal (t.nextNode :: nodes)).holds (insortBinding3 t hostPath (procPidAuxv pid)) := by
  have hauxv := procPidAuxv_canonical pid
  obtain ⟨-, hmem, -, hnext⟩ := h.insort3 hhost hauxv
  intro n hn
  rcases List.mem_cons.mp hn with rfl | hn
  · refine ⟨by rw [hnext]; exact Nat.lt_succ_self _, fun x hx hnode => ?_⟩
    rcases hmem x hx with ⟨-, -, hguest⟩ | hx
    · rw [hguest]
      exact procPidAuxv_ne_root pid
    · exact absurd (h.fresh x hx) (by rw [hnode]; exact Nat.lt_irrefl _)
  · exact (mortal nodes).insort3 h hhost hauxv hkept n hn

theorem removeBindingTo_nextNode (t : Bindings) (guestPath : CString) :
    (removeBindingTo t guestPath).nextNode = t.nextNode := by
  unfold removeBindingTo
  split
  · split_ifs <;> rfl
  · rfl

theorem auxv_valid {s s' : NameSpace} {glueType : Option FileType} (hinit : s.initialized = true)
    (hs : s.world.Sound glueType s.kept) {hostPath : CString} (hhost : Canonical hostPath)
    (hrun : s.step (.auxv (some hostPath)) = some s') : s'.Valid := by
  have hremoved := removeBindingTo_sound hs s.world.tracee.pid
  have hkept := mortal_auxv hremoved.sorted hremoved.kept hhost s.world.tracee.pid
  simp only [NameSpace.step, hinit] at hrun
  cases hrun
  simp only [removeBindingTo_nextNode] at hkept
  exact .running rfl { hremoved.insort hhost (procPidAuxv_canonical _) with kept := hkept }

/-- **Each step keeps the representation** of the two lists. -/
theorem NameSpace.Valid.step {s s' : NameSpace} {e : Event} (hs : s.Valid) (hlawful : e.Lawful)
    (hchop : e.ChopsWell s) (hstep : s.step e = some s') : s'.Valid := by
  cases hs with
  | building hinit hregular hbuilding hlife =>
      cases e with
      | newBinding l host guest =>
          simp only [NameSpace.step, hinit] at hstep
          split at hstep
          · rename_i t hnew
            cases hstep
            have hbuilding' := newBinding_building hlawful hbuilding hchop hnew
            exact .building hinit ⟨hregular.cwd, hregular.extensions, hregular.glue, hregular.temp,
              hregular.links⟩ hbuilding' hlife
          · cases hstep
            exact .building hinit hregular hbuilding hlife
      | initializeBindings =>
          simp only [NameSpace.step, hinit] at hstep
          split at hstep
          · rename_i w hrun
            cases hstep
            obtain ⟨glueType, hw⟩ := initializeBindings_initialized hregular hbuilding hchop hrun
            refine .running rfl { hw with kept := ?_ }
            simp [NameSpace.kept, mortal, hlife]
          · cases hstep
      | schedule w =>
          cases hstep
          exact .building hinit ⟨hlawful.cwd, hlawful.extensions, hlawful.glue, hlawful.temp,
            hlawful.links⟩ hbuilding hlife
      | _ => simp [NameSpace.step, hinit] at hstep
  | @running glueType hinit hw =>
      cases e with
      | newBinding | initializeBindings => simp [NameSpace.step, hinit] at hstep
      | mount =>
          simp only [NameSpace.step, hinit] at hstep
          exact run_valid hinit (emulateMount_after hw hlawful hchop) hstep
      | umount =>
          simp only [NameSpace.step, hinit] at hstep
          exact run_valid hinit (emulateUmount_after hw hchop) hstep
      | pivotRoot =>
          simp only [NameSpace.step, hinit] at hstep
          exact run_valid hinit (emulatePivotRoot_after hw _ hchop) hstep
      | auxv tempFile =>
          cases tempFile with
          | none =>
              simp only [NameSpace.step, hinit] at hstep
              exact run_valid hinit (bindProcPidAuxv_after hw hlawful) hstep
          | some hostPath => exact auxv_valid hinit hw (hlawful hostPath rfl) hstep
      | socket =>
          simp only [NameSpace.step, hinit] at hstep
          exact run_valid hinit (translateSocketPath_after hw hlawful hchop) hstep
      | translate dirFd userPath derefFinal =>
          simp only [NameSpace.step, hinit] at hstep
          exact run_valid hinit ((translatePath_sound dirFd userPath derefFinal).after hw
            fun _ _ _ => trivial) hstep
      | exit pid =>
          simp only [NameSpace.step, hinit] at hstep
          cases hstep
          have hdoomed : ∀ b ∈ s.lifeContext pid, ∀ x ∈ s.world.tracee.bindings.guest,
              x.node = b.node → x.guest ≠ ['/'] := by
            intro b hb x hx hnode
            obtain ⟨entry, hentry, rfl⟩ := List.mem_map.mp hb
            exact (hw.kept _ (List.mem_map_of_mem (List.mem_of_mem_filter hentry))).2 x hx hnode
          have hclean := cleanLifeContext_sound hw hdoomed
          refine .running hinit { hclean with kept := fun n hn => hclean.kept n ?_ }
          exact (List.filter_sublist.map _).subset hn
      | schedule w =>
          cases hstep
          exact .running hinit { hw with
            cwd := hlawful.cwd
            extensions := hlawful.extensions
            glue := hlawful.glue
            temp := hlawful.temp
            links := hlawful.links
            glueType := rfl }
      | copy =>
          simp only [NameSpace.step, hinit] at hstep
          cases hstep
          obtain ⟨hsorted, hrooted⟩ := copyBindings_sorted hw.sorted hw.rooted
          exact .running hinit { hw with
            sorted := hsorted
            rooted := hrooted
            kept := by simp [NameSpace.kept, mortal] }

/-! ## The representation invariant -/

/-- What `get_binding` and `get_root` rely on. -/
structure Represented (t : Bindings) : Prop where
  distinct : (t.guest.map (·.guest)).Nodup
  order : t.guest.Pairwise fun x y => ¬ Below (stem x.guest) (stem y.guest)
  deepest : ∀ path b c, getBinding t .guest path = some b → c ∈ t.guest →
    covers t .guest path c = true → Within (stem c.guest) (stem b.guest)
  root : ∃ b, t.guest.getLast? = some b ∧ b.guest = ['/']
  same : t.guest.Perm t.host
  canonical : ∀ b ∈ t.guest, Canonical b.host ∧ Canonical b.guest

theorem Represented.of_sorted {t : Bindings} (h : t.Sorted) (hroot : t.Rooted) :
    Represented t where
  distinct := h.distinct
  order := h.guestOrder
  deepest _ _ _ hget hc hin := getBinding_deepest h hroot hget hc hin
  root := h.root_last hroot
  same := h.same
  canonical b hb := ⟨(h.clean b hb).host, (h.clean b hb).guest⟩

theorem reached_sorted {s : NameSpace}
    (hreach : system.Reach (fun s e => e.Lawful ∧ e.ChopsWell s) s) (hinit : s.initialized = true) :
    s.bindings.Sorted ∧ s.bindings.Rooted := by
  have hvalid : s.Valid := by
    refine hreach.invariant ?_ fun s e s' hs hok hstep => hs.step hok.1 hok.2 hstep
    rintro s ⟨hregular, hbindings, hlife, hinit⟩
    refine .building hinit hregular ?_ hlife
    rw [hbindings]
    exact ⟨by simp [Bindings.empty], by simp [Bindings.empty], by simp [Bindings.empty], rfl, rfl⟩
  cases hvalid with
  | building hnot => simp [hnot] at hinit
  | running _ hw => exact ⟨hw.sorted, hw.rooted⟩

/-- **The binding lists stay in order**: in every run where no path escapes from `chop_finality`,
an initialized name-space is represented by its two lists. -/
theorem bindings_represented {s : NameSpace}
    (hreach : system.Reach (fun s e => e.Lawful ∧ e.ChopsWell s) s) (hinit : s.initialized = true) :
    Represented s.bindings := by
  obtain ⟨hsorted, hrooted⟩ := reached_sorted hreach hinit
  exact .of_sorted hsorted hrooted

/-! ## Two runs -/

def plainWorld : World where
  tracee := ⟨1, Bindings.empty, ['/'], none, none, []⟩
  host := ⟨fun _ => .ok .dir, fun _ => .error .einval, fun _ => .error .enoent, fun _ => false,
    fun _ _ => .error .eacces, none, false, fun _ => none⟩

theorem plainWorld_regular : plainWorld.Regular :=
  ⟨by decide, nofun, nofun, nofun, nofun, nofun⟩

def plainLauncher : Launcher := ⟨fun _ => .ok ['/'], .ok ['/']⟩

theorem plainLauncher_lawful : plainLauncher.Lawful := by
  constructor
  · rintro _ _ ⟨⟩
    decide
  · rintro _ ⟨⟩
    decide

/-- The name-space after `-r /`, before and after the initialization. -/
def rootNameSpace (initialized : Bool) : NameSpace where
  world := { plainWorld with tracee := { plainWorld.tracee with
    bindings :=
      if initialized then ⟨[], [⟨0, ['/'], ['/'], false⟩], [⟨0, ['/'], ['/'], false⟩], 1⟩
      else ⟨[⟨0, ['/'], ['/'], false⟩], [], [], 1⟩ } }
  life := []
  initialized := initialized

theorem rootNameSpace_reached :
    system.Reach (fun s e => e.Lawful ∧ e.ChopsWell s) (rootNameSpace true) := by
  have hstart : system.Reach (fun s e => e.Lawful ∧ e.ChopsWell s) ⟨plainWorld, [], false⟩ :=
    .start ⟨plainWorld_regular, rfl, rfl, rfl⟩
  have hpending : system.Reach (fun s e => e.Lawful ∧ e.ChopsWell s) (rootNameSpace false) := by
    have hself : isProcSelf ['/'] = true → Canonical ['/'] := fun _ => by decide
    exact .next hstart (e := Event.newBinding plainLauncher ['/'] (some ['/']))
      ⟨plainLauncher_lawful, hself⟩ rfl
  exact .next hpending (e := Event.initializeBindings)
    ⟨trivial, .cons (.inl rfl) rfl (.nil _)⟩ rfl

def mntA : CString := ['/', 'm', 'n', 't', '/', 'a']

def NameSpace.mountProc (s : NameSpace) (target : CString) : NameSpace :=
  s.setBindings (insortBinding3 s.bindings ['/', 'p', 'r', 'o', 'c'] target)

theorem mountProc_reached {s : NameSpace}
    (hreach : system.Reach (fun s e => e.Lawful ∧ e.ChopsWell s) s) (target : CString)
    (hne : target ≠ []) (hmis : ¬ Mischopped target)
    (hcanon : canonicalizeUser target s.world = (.ok target, s.world))
    (hstep : s.step (.mount [] target ['p', 'r', 'o', 'c'] 0 none) = some (s.mountProc target)) :
    system.Reach (fun s e => e.Lawful ∧ e.ChopsWell s) (s.mountProc target) := by
  have htemp : TempPath none := nofun
  refine .next hreach (e := Event.mount [] target ['p', 'r', 'o', 'c'] 0 none) ⟨htemp, ?_⟩ hstep
  intro hostPath w hsource
  cases hsource
  refine ⟨by decide, .inl hne, fun path w hpath => ?_⟩
  rw [hcanon] at hpath
  cases hpath
  exact hmis

def mountedNameSpace : NameSpace := (rootNameSpace true).mountProc mntA

theorem mountedNameSpace_reached :
    system.Reach (fun s e => e.Lawful ∧ e.ChopsWell s) mountedNameSpace :=
  mountProc_reached rootNameSpace_reached mntA (by decide) (by decide) rfl rfl

theorem bindings_represented_mount : Represented mountedNameSpace.bindings :=
  bindings_represented mountedNameSpace_reached rfl

/-- `chop_finality` cuts "/mnt/a." after the separator. -/
theorem bindings_not_represented :
    ¬ ∀ s, system.Reach (fun _ e => e.Lawful) s → s.initialized = true →
      Represented s.bindings := by
  intro h
  have hroot : system.Reach (fun _ e => e.Lawful) (rootNameSpace true) :=
    rootNameSpace_reached.mono fun _ _ hok => hok.1
  have htemp : TempPath none := nofun
  have hmounted := h ((rootNameSpace true).setBindings
      (insortBinding3 (rootNameSpace true).bindings ['/', 'p', 'r', 'o', 'c']
        ['/', 'm', 'n', 't', '/']))
    (.next hroot (e := Event.mount [] (mntA ++ ['.']) ['p', 'r', 'o', 'c'] 0 none) htemp rfl) rfl
  have hmnt := (hmounted.canonical ⟨1, ['/', 'p', 'r', 'o', 'c'], ['/', 'm', 'n', 't', '/'], true⟩
    (by decide)).2
  exact absurd hmnt (by decide)

end Improot.Syscall
