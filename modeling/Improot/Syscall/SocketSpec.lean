import Improot.Path.HostOrder
import Improot.Syscall.GuestNames
import Improot.Syscall.Socket
import Improot.Syscall.TranslateParent

/-!
# Socket names that are read back

What the tracee reads after bind(2) or connect(2): the guest name of the host path, cut to its
buffer.
-/

namespace Improot.Syscall

open Improot.Path Improot.Lib

/-! ## Arrays of characters -/

variable {path : CString} {w : World}

theorem untilNul_append {more : CString} (hnul : '\x00' ∉ path) :
    untilNul (path ++ '\x00' :: more) = path := by
  unfold untilNul
  rw [List.takeWhile_append_of_pos]
  · simp
  · intro c hc
    have hne : c ≠ '\x00' := by
      intro heq
      rw [heq] at hc
      exact hnul hc
    simpa using hne

theorem untilNul_zeros (chars : CString) (n : Nat) :
    untilNul (chars ++ List.replicate n '\x00') = untilNul chars := by
  unfold untilNul
  induction chars with
  | nil =>
      cases n with
      | zero => rfl
      | succ n => simp [List.replicate_succ]
  | cons c chars ih =>
      rw [List.cons_append, List.takeWhile_cons, List.takeWhile_cons, ih]

theorem untilNul_of_notMem (hnul : '\x00' ∉ path) : untilNul path = path := by
  apply List.takeWhile_eq_self_iff.mpr
  intro c hc
  have hne : c ≠ '\x00' := by
    intro heq
    rw [heq] at hc
    exact hnul hc
  simpa using hne

theorem untilNul_strncpy {n : Nat} (hnul : '\x00' ∉ path)
    (hlength : path.length ≤ n) : untilNul (strncpy n path) = path := by
  rw [strncpy, List.take_of_length_le hlength]
  cases hrest : n - path.length with
  | zero => rw [List.replicate_zero, List.append_nil, untilNul_of_notMem hnul]
  | succ k => rw [List.replicate_succ, untilNul_append hnul]

theorem take_strncpy {n k : Nat} (hn : k ≤ n) (hk : k ≤ path.length + 1) :
    (strncpy n path).take k = (path ++ ['\x00']).take k := by
  by_cases hpath : k ≤ path.length
  · rw [strncpy, List.take_append_of_le_length, List.take_append_of_le_length hpath,
      List.take_take, Nat.min_eq_left hn]
    rw [List.length_take]
    omega
  · have hk : k = path.length + 1 := by omega
    subst hk
    have hrest : n - path.length = (n - path.length - 1) + 1 := by omega
    rw [strncpy, List.take_of_length_le (by omega : path.length ≤ n), hrest, List.replicate_succ,
      List.take_length_add_append]
    simp

/-! ## The structure in the memory -/

theorem readSockaddrUn_path {m : Memory} {maxSize address : Nat} {size : Int}
    {sockaddr : CString} (hmax : maxSize ≤ sizeofSockaddrUn)
    (h : readSockaddrUn m maxSize address size = some (sockaddr, path)) :
    path = kernelName (readData m address size.toNat) ∧ sockaddr.length = sizeofSockaddrUn ∧
      sockaddr.take offsetofPath = afUnix := by
  unfold readSockaddrUn at h
  split at h
  · cases h
  rename_i hsize
  obtain ⟨hlow, hhigh⟩ := not_or.mp hsize
  dsimp only at h
  split at h
  · cases h
  rename_i hnamed
  obtain ⟨hfamily, -⟩ := not_or.mp hnamed
  cases h
  refine ⟨?_, ?_, not_not.mp hfamily⟩
  · rw [kernelName, List.drop_append_of_le_length, untilNul_zeros]
    rw [length_readData]
    omega
  · rw [List.length_append, length_readData, List.length_replicate]
    omega

theorem length_kernelAddress (name : CString) :
    (kernelAddress name).length = offsetofPath + name.length + 1 := by
  simp [kernelAddress, afUnix, offsetofPath]
  omega

theorem readSockaddrUn_kernel {m : Memory} {sockAddr size maxSize : Nat} {name : CString}
    (hnul : '\x00' ∉ name) (hne : name ≠ [])
    (hfits : (kernelAddress name).length ≤ maxSize) (hsize : maxSize ≤ size) :
    ∃ sockaddr, readSockaddrUn (kernelGetname m sockAddr size name).1 maxSize sockAddr
        (kernelAddress name).length = some (sockaddr, name) ∧
      sockaddr.take offsetofPath = afUnix := by
  have hread : readData (kernelGetname m sockAddr size name).1 sockAddr
      (kernelAddress name).length = kernelAddress name := by
    show readData (writeData m sockAddr ((kernelAddress name).take size)) sockAddr
      (kernelAddress name).length = kernelAddress name
    rw [List.take_of_length_le (by omega), readData_writeData (le_refl _), List.take_length]
  have hlength := length_kernelAddress name
  have hlow : ¬ ((kernelAddress name).length : Int) ≤ offsetofPath := by omega
  have hhigh : ¬ (maxSize : Int) < (kernelAddress name).length := by omega
  refine ⟨kernelAddress name ++
    List.replicate (sizeofSockaddrUn - (kernelAddress name).length) '\x00', ?_, rfl⟩
  rw [readSockaddrUn, if_neg (not_or.mpr ⟨hlow, hhigh⟩), Int.toNat_natCast, hread]
  have hpath : (kernelAddress name ++
      List.replicate (sizeofSockaddrUn - (kernelAddress name).length) '\x00').drop offsetofPath =
      name ++ '\x00' :: List.replicate (sizeofSockaddrUn - (kernelAddress name).length) '\x00' := by
    simp [kernelAddress, afUnix, offsetofPath]
  dsimp only
  rw [hpath, untilNul_append hnul, if_neg]
  rw [not_or, not_not]
  refine ⟨rfl, ?_⟩
  cases name with
  | nil => exact absurd rfl hne
  | cons c name =>
      intro hhead
      apply hnul
      rw [List.cons_append, List.head?_cons, Option.some.injEq] at hhead
      rw [hhead]
      exact List.mem_cons_self

/-! ## What the tracee reads -/

/-- What the tracee gets of the address of a path in a buffer: the beginning of the address and no
more than the buffer, and the length of the address, or a greater one than the size of the buffer.
-/
structure ReadsBack (m m' : Memory) (sockAddr size length : Nat) (path : CString) : Prop where
  bytes : readData m' sockAddr (min (min size sizeofSockaddrUn) (kernelAddress path).length) =
    (kernelAddress path).take (min size sizeofSockaddrUn)
  outside : ∀ a, a < sockAddr ∨ sockAddr + size ≤ a → m' a = m a
  length : length = if (kernelAddress path).length ≤ min size sizeofSockaddrUn
    then (kernelAddress path).length else min size sizeofSockaddrUn + 1

/-- The guest finds its own name in the buffer, cut to its size. -/
theorem guestGetname_readsBack {name : CString} {status : Nat}
    (hnul : '\x00' ∉ name) (hne : name ≠ [])
    (hname : detranslatePath w name none = .ok (status, path)) (m : Memory)
    {sockAddr size : Nat} (haddr : sockAddr ≠ 0)
    (hfits : (kernelAddress name).length ≤ min size sizeofSockaddrUn) :
    ∃ m' length, guestGetname w m sockAddr size name = .ok (m', length) ∧
      ReadsBack m m' sockAddr size length path := by
  obtain ⟨sockaddr, hread, hfamily⟩ := @readSockaddrUn_kernel m sockAddr size _ name hnul hne hfits
    (Nat.min_le_left size _)
  have hlength := length_kernelAddress path
  -- the kernel and PRoot write into the buffer only
  have hkernel (a : Nat) (ha : a < sockAddr ∨ sockAddr + size ≤ a) :
      (kernelGetname m sockAddr size name).1 a = m a := by
    apply writeData_outside
    rw [List.length_take]
    omega
  have hwritten (k : Nat) (hk : k ≤ min size sizeofSockaddrUn)
      (hpath : k ≤ (kernelAddress path).length) :
      (sockaddr.take offsetofPath ++ strncpy sizeofSunPath path).take k =
        (kernelAddress path).take k := by
    have hsizes : sizeofSockaddrUn = 2 + sizeofSunPath := rfl
    have hfamilyLength : afUnix.length = offsetofPath := rfl
    have hoffset : offsetofPath = 2 := rfl
    rw [hfamily, kernelAddress, List.append_assoc, List.take_append, List.take_append,
      take_strncpy (by omega) (by omega)]
  have hrun : guestGetname w m sockAddr size name =
      .ok (writeData (kernelGetname m sockAddr size name).1 sockAddr
          ((kernelAddress path).take (min size sizeofSockaddrUn)),
        if (kernelAddress path).length ≤ min size sizeofSockaddrUn then (kernelAddress path).length
        else min size sizeofSockaddrUn + 1) := by
    show translateSocketcallExit w (kernelGetname m sockAddr size name).1 sockAddr
      (kernelAddress name).length size = _
    rw [translateSocketcallExit, if_neg haddr]
    dsimp only
    rw [hread]
    dsimp only
    rw [hname]
    dsimp only [bind, Except.bind]
    rw [← hlength]
    by_cases hfit : (kernelAddress path).length ≤ min size sizeofSockaddrUn
    · rw [if_neg (by omega), if_pos hfit, hwritten _ hfit (le_refl _), List.take_length,
        List.take_of_length_le hfit]
      rfl
    · rw [if_pos (by omega), if_neg hfit, hwritten _ (le_refl _) (by omega)]
      rfl
  refine ⟨_, _, hrun, ?_, ?_, rfl⟩
  · rw [← List.length_take, readData_writeData (le_refl _), List.take_length]
  · intro a ha
    rw [writeData_outside, hkernel a ha]
    rw [List.length_take]
    omega

/-! ## The temporary binding -/

/-- What `mktemp(3)` promises, and where the name is: no binding has it yet, and it isn't in the
rootfs of the guest, unless this is the whole host. -/
structure TempName (t : Bindings) (temp : CString) : Prop where
  canonical : Canonical temp
  named : temp ≠ ['/']
  nul : '\x00' ∉ temp
  unused : ∀ b ∈ t.guest, b.host ≠ temp
  outside : getRoot t = ['/'] ∨ belongsToGuestfs t temp = false

section Temp

variable {t : Bindings} {host names : List Component}

theorem getRoot_insort3 (hsorted : t.Sorted) (hrooted : t.Rooted) :
    getRoot (insortBinding3 t (pathOf host) (pathOf names)) =
      if names = [] then pathOf host else getRoot t := by
  obtain ⟨hsorted', -, hguests, -⟩ := hsorted.insort3 ⟨host, rfl⟩ ⟨names, rfl⟩
  obtain ⟨root, hentry, hroot⟩ := tableOf_root hsorted hrooted
  obtain ⟨root', hentry', hroot'⟩ := tableOf_root hsorted' ((hguests _).mpr (.inr hrooted))
  rw [tableOf_insort3 hsorted, Function.update_apply] at hentry'
  rw [hroot', hroot]
  by_cases hnames : names = []
  · rw [if_pos hnames.symm, Option.some.injEq] at hentry'
    rw [if_pos hnames, hentry']
  · rw [if_neg (Ne.symm hnames), hentry, Option.some.injEq] at hentry'
    rw [if_neg hnames, hentry']

theorem hidden_temp (hsorted : t.Sorted) (hrooted : t.Rooted) (htemp : TempName t (pathOf host))
    (hhidden : Hidden (insortBinding3 t (pathOf host) (pathOf names)) .host (pathOf host)) :
    names = [] := by
  by_contra hnames
  obtain ⟨-, hroot, hbelongs⟩ := hhidden
  have hsame : getRoot (insortBinding3 t (pathOf host) (pathOf names)) = getRoot t := by
    rw [getRoot_insort3 hsorted hrooted, if_neg hnames]
  rw [hsame] at hroot
  unfold belongsToGuestfs at hbelongs
  rw [hsame] at hbelongs
  cases htemp.outside with
  | inl hslash =>
      apply hroot
      rw [hslash]
      rfl
  | inr houtside =>
      unfold belongsToGuestfs at houtside
      rw [hbelongs] at houtside
      cases houtside

theorem getBinding_temp (hsorted : t.Sorted) (hrooted : t.Rooted)
    (htemp : TempName t (pathOf host))
    (hshown : ¬ Hidden (insortBinding3 t (pathOf host) (pathOf names)) .host (pathOf host)) :
    getBinding (insortBinding3 t (pathOf host) (pathOf names)) .host (pathOf host) =
      some (newBindingOf t (pathOf host) (pathOf names)) := by
  obtain ⟨hsorted', -, hguests, -⟩ := hsorted.insort3 ⟨host, rfl⟩ ⟨names, rfl⟩
  have hrooted' := (hguests _).mpr (.inr hrooted)
  have hmem := @Bindings.Sorted.mem_insort3 t hsorted (pathOf host) (pathOf names) ⟨host, rfl⟩
    ⟨names, rfl⟩
  have hside : Side.host ≠ .pending := by decide
  have hnew := hmem.mpr (.inl rfl)
  obtain ⟨c, hget⟩ := getBinding_isSome hsorted' hside hnew (pathOf_ne_nil host) hshown
    (.refl _)
  obtain ⟨hc, -, -, hin, hdeepest⟩ := getBinding_some hsorted' hrooted' hside hget
  have hback := hdeepest _ hnew (.refl _)
  have hhost : c.host = pathOf host :=
    (hsorted'.clean c hc).host.tidy.stem_injective (pathOf_tidy host) (hin.antisymm hback)
  cases hmem.mp hc with
  | inl heq => rw [hget, heq]
  | inr hold => exact absurd hhost (htemp.unused c hold.1)

end Temp

/-- **The short name is brought back** to the guest path that it was bound to. -/
theorem detranslatePath_temp {t : Bindings} (hsorted : t.Sorted) (hrooted : t.Rooted)
    {temp guestPath : CString} (htemp : TempName t temp) (hshort : temp.length < pathMax)
    (hguest : Canonical guestPath) (hlength : guestPath.length < pathMax)
    (hw : w.tracee.bindings = insortBinding3 t temp guestPath) :
    ∃ status, detranslatePath w temp none = .ok (status, guestPath) := by
  obtain ⟨host, rfl⟩ := htemp.canonical
  obtain ⟨names, rfl⟩ := hguest
  obtain ⟨hsorted', -, hguests, -⟩ := hsorted.insort3 ⟨host, rfl⟩ ⟨names, rfl⟩
  have hrooted' := (hguests _).mpr (.inr hrooted)
  have habsolute : ¬ (pathOf host).head? ≠ some '/' := by simp [pathOf_head?]
  simp only [detranslatePath, if_neg (Nat.not_le.mpr hshort), if_neg habsolute, if_true, hw]
  by_cases hhidden : Hidden (insortBinding3 t (pathOf host) (pathOf names)) .host (pathOf host)
  · -- the rootfs itself was bound
    have hnames := hidden_temp hsorted hrooted htemp hhidden
    have hroot := @getRoot_insort3 t host names hsorted hrooted
    have hnone : getBinding (insortBinding3 t (pathOf host) (pathOf names)) .host (pathOf host) =
        none := by
      apply List.find?_eq_none.mpr
      intro c hc hcovers
      simp only [covers, decide_eq_true_eq] at hcovers
      exact hcovers.2 ⟨trivial, hhidden.2⟩
    rw [if_pos hnames] at hroot
    rw [substituteBinding_none hnone]
    obtain ⟨status, hremove⟩ := removeRoot_pathOf hroot [] true
    rw [List.append_nil] at hremove
    dsimp only
    rw [hremove, hnames]
    exact ⟨status, rfl⟩
  · have hget := @getBinding_temp t host names hsorted hrooted htemp hhidden
    have hfitting : Fitting (insortBinding3 t (pathOf host) (pathOf names)) .host (pathOf host) := by
      intro b hb _
      rw [hget, Option.some.injEq] at hb
      subst hb
      have hhost : (pathOf host).length ≠ 1 := by
        intro hone
        exact htemp.named ((pathOf_tidy host).length_eq_one.mp hone)
      show Fits (pathOf host) (pathOf names) (pathOf host)
      right
      rw [if_neg hhost]
      omega
    obtain ⟨ref, rev, more, substituted, href, hrev, hsplit, hsub⟩ :=
      substituteBinding_pathOf hsorted' hrooted' hget hfitting
    have href' : ref = host := pathOf_injective href.symm
    have hrev' : rev = names := pathOf_injective hrev.symm
    have hmore : more = [] := by
      rw [href'] at hsplit
      simpa using hsplit
    rw [hsub, hrev', hmore, List.append_nil]
    cases substituted with
    | false | true => exact ⟨_, rfl⟩

/-! ## The path that was bound -/

/-- The host path of a socket is given to the kernel, or a short name that is bound to its guest
name; either way the guest name of what the kernel gets is the one of the host path. -/
theorem translateSocketPath_named {w₁ w' : World} (hsorted : w.tracee.bindings.Sorted)
    (hrooted : w.tracee.bindings.Rooted) (hglue : w.tracee.glueType = none)
    {userPath h name : CString} {tempName : Option CString}
    (htemp : ∀ temp, tempName = some temp → TempName w.tracee.bindings temp)
    (htranslate : translatePath .cwd userPath true w = (.ok h, w₁)) (hcanon : Canonical h)
    (hnul : '\x00' ∉ h) {status : Nat}
    (hname : detranslatePath w h none = .ok (status, path)) (hlength : path.length < pathMax)
    (hrun : translateSocketPath userPath tempName w = (.ok name, w')) :
    (name = h ∨ tempName = some name) ∧ Canonical name ∧ '\x00' ∉ name ∧
      name.length ≤ sizeofSunPath ∧ ∃ status', detranslatePath w' name none = .ok (status', path) := by
  have hstill := (translatePath_still hglue .cwd userPath true).snd
  rw [htranslate] at hstill
  have hstill : w₁ = w := hstill
  subst hstill
  unfold translateSocketPath at hrun
  rw [Comp.bind_eq_ok] at hrun
  obtain ⟨h', w₂, hfirst, hrest⟩ := hrun
  rw [htranslate] at hfirst
  cases hfirst
  split at hrest
  · rename_i hshort
    cases hrest
    exact ⟨.inl rfl, hcanon, hnul, hshort, status, hname⟩
  · split at hrest
    · cases hrest
    · rename_i shorter
      split at hrest
      · cases hrest
      · rename_i hshort
        have hshorter := htemp shorter rfl
        rw [Comp.get_bind, hname] at hrest
        dsimp only at hrest
        cases hrest
        refine ⟨.inr rfl, hshorter.canonical, hshorter.nul, Nat.le_of_not_lt hshort, ?_⟩
        have hsmall : sizeofSunPath < pathMax := by decide
        apply detranslatePath_temp hsorted hrooted hshorter (by omega)
          (detranslatePath_canonical hsorted hrooted hcanon hname) hlength
        rfl

theorem translateSocketcallEnter_pushed {w' : World} {m : Memory} {address : Nat} {size : Int}
    {tempName : Option CString} {sockaddr : CString}
    (hrun : translateSocketcallEnter m address size tempName w = (.ok (some sockaddr), w')) :
    ∃ name, translateSocketPath (kernelName (readData m address size.toNat)) tempName w =
        (.ok name, w') ∧
      sockaddr = afUnix ++ strncpy sizeofSunPath name := by
  unfold translateSocketcallEnter at hrun
  by_cases haddr : address = 0
  · rw [if_pos haddr] at hrun
    cases hrun
  · rw [if_neg haddr] at hrun
    cases hread : readSockaddrUn m sizeofSockaddrUn address size with
    | none =>
        rw [hread] at hrun
        cases hrun
    | some read =>
        obtain ⟨sockaddr', userPath⟩ := read
        obtain ⟨hpath, -, hfamily⟩ := readSockaddrUn_path (le_refl _) hread
        rw [hread] at hrun
        dsimp only at hrun
        rw [Comp.bind_eq_ok] at hrun
        obtain ⟨name, w₁, htranslate, hpure⟩ := hrun
        obtain ⟨heq, rfl⟩ := Comp.pure_eq_ok.mp hpure
        cases heq
        rw [hpath] at htranslate
        exact ⟨name, htranslate, by rw [hfamily]⟩

/-- The canonical form of a path of the guest: the path that it leads to. -/
def LeadsTo (w : World) (userPath : CString) (names : List Component) : Prop :=
  ∃ base, basePath w .cwd userPath = .ok base ∧
    Resolves (guestView w) true (wantsDir (joined base userPath)) [] (stepsOf (joined base userPath))
      names

/-- A path of the guest that bind(2) or connect(2) accepts: it doesn't end with a slash or a dot,
and everything fits into the path buffers. -/
structure Bindable (w : World) (userPath h : CString) : Prop where
  ending : ∀ base, basePath w .cwd userPath = .ok base →
    endingOf (joined base userPath) = .finalNormal
  nul : '\x00' ∉ h
  guestFits : ∀ names, LeadsTo w userPath names → Fitting w.tracee.bindings .guest (pathOf names)
  hostFits : Fitting w.tracee.bindings .host h

/-- The host path of a socket, and its guest name: the canonical form of the path, if the binding by
which it is translated is the one that names the host path. -/
theorem bindable_named {w₁ : World} (hs : Silent w) (hlaws : HostLaws w)
    (hsorted : w.tracee.bindings.Sorted) (hrooted : w.tracee.bindings.Rooted)
    {userPath h : CString} (htranslate : translatePath .cwd userPath true w = (.ok h, w₁))
    (hbindable : Bindable w userPath h) :
    Canonical h ∧ ∃ names status path, LeadsTo w userPath names ∧
      detranslatePath w h none = .ok (status, path) ∧ path.length < pathMax ∧
      (namingBinding w.tracee.bindings h = getBinding w.tracee.bindings .guest (pathOf names) →
        path = pathOf names) := by
  have hwalk : Walkable w := ⟨hsorted.wellFormed hrooted, hs.toQuiet, hlaws⟩
  obtain ⟨base, names, substituted, hbase, -, hres, hlength, hsub⟩ :=
    translatePath_place hs hwalk htranslate
  have hleads : LeadsTo w userPath names := ⟨base, hbase, hres⟩
  rw [hbindable.ending base hbase] at hlength hsub
  have hlength : (pathOf names).length < pathMax := hlength
  have hsub : substituteBinding w.tracee.bindings .guest (pathOf names) = .ok (substituted, h) := hsub
  have hshort := (substituteBinding_ok hlength hsub).1
  obtain ⟨b, hget⟩ := getBinding_exists hwalk.bindings (pathOf_tidy names)
  obtain ⟨guest, host, more, _, hguest, hhost, hsplit, hsub'⟩ :=
    substituteBinding_pathOf hsorted hrooted hget (hbindable.guestFits names hleads)
  rw [hsub] at hsub'
  cases hsub'
  have hcovered : ∃ b ∈ w.tracee.bindings.guest,
      Within (stem b.host) (stem (pathOf (host ++ more))) := by
    refine ⟨b, (getBinding_spec hwalk.bindings hget).1, ?_⟩
    rw [show b.host = pathOf host from hhost, within_pathOf]
    exact List.prefix_append _ _
  obtain ⟨b', status, path, host', guest', more', hnaming, hdetranslate, hnames⟩ :=
    detranslatePath_names hsorted hrooted ⟨_, rfl⟩ hshort hbindable.hostFits hcovered
  refine ⟨⟨_, rfl⟩, names, status, path, hleads, hdetranslate,
    (detranslatePath_sized hdetranslate).1, ?_⟩
  intro hsame
  rw [hnaming, hget, Option.some.injEq] at hsame
  subst hsame
  have hhosts : host' = host := pathOf_injective (hnames.host.symm.trans hhost)
  have hguests : guest' = guest := pathOf_injective (hnames.guest.symm.trans hguest)
  have hmore := pathOf_injective hnames.hostPath
  rw [hhosts] at hmore
  rw [hnames.guestPath, hguests, hsplit, List.append_cancel_left hmore]

def mntAB : CString := mntA ++ ['/', 'b']

def socketWorld : World := ((rootNameSpace true).mountProc mntAB).world

def socketPath : CString := mntAB ++ ['/', 'x']
def socketHost : CString := ['/', 'p', 'r', 'o', 'c', '/', 'x']

def socketMemory : Memory := writeData (fun _ => 'z') 1 (afUnix ++ socketPath)

def pushedSockaddr : CString := afUnix ++ strncpy sizeofSunPath socketHost

theorem socketWorld_sorted :
    socketWorld.tracee.bindings.Sorted ∧ socketWorld.tracee.bindings.Rooted :=
  reached_sorted (mountProc_reached rootNameSpace_reached mntAB (by decide) (by decide) rfl rfl) rfl

theorem socketMemory_pushed : translateSocketcallEnter socketMemory 1 12 none socketWorld =
      (.ok (some pushedSockaddr), socketWorld) := by
  rfl

theorem socketWorld_silent : Silent socketWorld := ⟨⟨rfl, fun _ _ => rfl⟩, fun _ _ => rfl, fun _ => rfl⟩

theorem socketWorld_laws : HostLaws socketWorld := by
  refine ⟨⟨?_, ?_⟩, ?_, by decide⟩
  · intro path hlink
    cases hlink
  · intro pid k hknown
    cases hknown
  · intro path _ hlink
    cases hlink

theorem socketPath_leadsTo {names : List Component} (hleads : LeadsTo socketWorld socketPath names) :
    pathOf names = socketPath := by
  obtain ⟨base, hbase, hres⟩ := hleads
  cases hbase
  have hwalk : Walkable socketWorld :=
    ⟨socketWorld_sorted.1.wellFormed socketWorld_sorted.2, socketWorld_silent.toQuiet,
      socketWorld_laws⟩
  have hcanon : canonicalize (joined ['/'] socketPath) true ['/'] 0 socketWorld =
      (.ok socketPath, socketWorld) := rfl
  obtain ⟨-, place, hplace, hfound⟩ := canonicalize_finds hwalk (.inl rfl) hcanon
  have hending : endingOf (joined ['/'] socketPath) = .finalNormal := by decide
  rw [hending] at hplace
  rw [hres.functional hfound, hplace]
  rfl

theorem socketPath_bindable : Bindable socketWorld socketPath socketHost := by
  refine ⟨?_, by decide, ?_, ?_⟩
  · intro base hbase
    cases hbase
    decide
  · intro names hleads b hget _
    rw [socketPath_leadsTo hleads] at hget ⊢
    cases hget
    decide
  · intro b hget _
    cases hget
    decide

end Improot.Syscall
