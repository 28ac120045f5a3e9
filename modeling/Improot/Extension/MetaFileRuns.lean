import Improot.Extension.MetaFileSpec
import Improot.Lib.Except

/-!
# Ownership along a run

Every call whose step is sound keeps the side files right, hence every run of them.
-/

namespace Improot.Extension

open Improot.Path Lib

/-! ## Steps -/

variable {k : Entry} {kind : FileKind} {content : MetaText} {call : FileCall} {p : HostPath}
  {c : Caller} {writable : Bool} {m : MetaPath} {rel : Except Errno CString} {r : MetaRecord}

namespace FileState

variable {s : FileState} {e : FileEvent} {d d' : Disk}

theorem step_refuse {errno : Errno}
    (h : handleSysenterEnd s.disk e.caller e.writable e.call = (d, .refuse errno)) :
    s.step e = ⟨d, s.own⟩ := by
  unfold step
  rw [h]

theorem step_drop (h : handleSysenterEnd s.disk e.caller e.writable e.call = (d, .drop)) :
    s.step e = ⟨d, s.changed e⟩ := by
  unfold step
  rw [h]

theorem step_go (h : handleSysenterEnd s.disk e.caller e.writable e.call = (d, .go)) :
    (s.step e = ⟨d, s.own⟩ ∧ (e.granted = true → kernelCall d e.content e.call = none)) ∨
      ∃ d', e.granted = true ∧ kernelCall d e.content e.call = some d' ∧
        s.step e = ⟨d', s.completed e d d'⟩ := by
  unfold step
  rw [h]
  by_cases hgranted : e.granted = true
  · cases hk : kernelCall d e.content e.call with
    | none => exact .inl ⟨by simp [hgranted, hk], fun _ => rfl⟩
    | some d' => exact .inr ⟨d', hgranted, rfl, by simp [hgranted, hk]⟩
  · exact .inl ⟨by simp [hgranted], fun hgranted' => absurd hgranted' hgranted⟩

theorem changed_of_target (h : e.call.target s.disk = none) : s.changed e = s.own := by
  unfold changed
  rw [h]

theorem completed_same (h : e.call.target s.disk = none) (hnext : d'.next = d.next) :
    s.completed e d d' = s.own := by
  unfold completed
  rw [if_pos hnext, changed_of_target h]

theorem completed_create (h : d.create k kind content = some d') :
    s.completed e d d' = Function.update s.own d.next (newRecord e.caller e.call) := by
  have hnext : d'.next ≠ d.next := by
    rw [(Disk.create_spec h).2.2.2.2]
    exact Nat.succ_ne_self _
  unfold completed
  rw [if_neg hnext]

end FileState

/-! ## Files are made -/

/-- The path, the kind and the mode of the file that a call makes, if it is asked to. -/
structure Making where
  path : HostPath
  rel : Except Errno CString
  kind : FileKind
  asked : Bool
  mode : Mode

def FileCall.making : FileCall → Option Making
  | .openat p rel flags mode => some ⟨p, rel, .regular, creates flags, mode⟩
  | .mknod p rel kind mode => some ⟨p, rel, kind, true, mode⟩
  | _ => none

variable {mk : Making}

theorem FileCall.target_of_making (h : call.making = some mk) (d : Disk) :
    call.target d = none := by
  cases call with
  | openat | mknod => rfl
  | unlink | rename | renameat2 | chmod | chown => cases h

theorem newRecord_of_making (h : call.making = some mk) (c : Caller) :
    newRecord c call =
      if c.belongs mk.path then some ⟨creationMode c mk.mode, c.euid, c.egid⟩ else none := by
  cases call with
  | openat | mknod => cases h; rfl
  | unlink | rename | renameat2 | chmod | chown => cases h

theorem kernelCreate_eq_some {d d' : Disk} (h : kernelCreate d p kind content = some d') :
    ∃ k, p.entry d = some k ∧ d.create k kind content = some d' := by
  unfold kernelCreate at h
  split_ifs at h
  exact Option.bind_eq_some_iff.mp h

theorem kernelCreate_exists {d d' : Disk}
    (h : kernelCreate d p kind content = some d') : p.exists? d = false := by
  obtain ⟨k, hk, hcreate⟩ := kernelCreate_eq_some h
  by_contra hex
  exact HostPath.file_of_exists (by simpa using hex) hk (Disk.create_spec hcreate).1.1

theorem kernelCall_making (h : call.making = some mk) {d d' : Disk}
    (hk : kernelCall d content call = some d') :
    (mk.path.exists? d = true ∧ d' = d) ∨
      (mk.asked = true ∧ kernelCreate d mk.path mk.kind content = some d') := by
  cases call with
  | openat p rel flags mode =>
    cases h
    simp only [kernelCall] at hk
    split_ifs at hk with hex hcreates
    · exact .inl ⟨hex, (Option.some.inj hk).symm⟩
    · exact .inr ⟨hcreates, hk⟩
  | mknod p rel kind mode =>
    cases h
    exact .inr ⟨rfl, hk⟩
  | unlink | rename | renameat2 | chmod | chown => cases h

theorem kernelCall_of_create (h : call.making = some mk) {d d' : Disk} (hasked : mk.asked = true)
    (hk : kernelCreate d mk.path mk.kind content = some d') :
    kernelCall d content call = some d' := by
  have hex := kernelCreate_exists hk
  cases call with
  | openat p rel flags mode =>
    cases h
    have hcreates : creates flags = true := hasked
    simp only [kernelCall, hex, hcreates, if_true]
    exact hk
  | mknod p rel kind mode =>
    cases h
    exact hk
  | unlink | rename | renameat2 | chmod | chown => cases h

/-- What the handlers of the calls that make files do. -/
inductive MakeShape (d : Disk) (c : Caller) (writable : Bool) (mk : Making) : Disk × Verdict → Prop
  | refused (errno) : MakeShape d c writable mk (d, .refuse errno)
  | passed : (c.belongs mk.path = true → ¬ (mk.asked = true ∧ ¬ mk.path.exists? d = true)) →
      MakeShape d c writable mk (d, .go)
  | made {m d'} : c.belongs mk.path = true → mk.asked = true → ¬ mk.path.exists? d = true →
      createChecks d c mk.path mk.rel = .ok m →
      writeMetaFile d m ⟨creationMode c mk.mode, c.euid, c.egid⟩ writable = .ok d' →
      MakeShape d c writable mk (d', .go)

theorem makeMeta_shape {d : Disk} (mk : Making)
    (hbelongs : c.belongs mk.path = true) (hasked : mk.asked = true)
    (hex : ¬ mk.path.exists? d = true) (hchecks : createChecks d c mk.path mk.rel = .ok m) :
    MakeShape d c writable mk (makeMeta d c m mk.mode writable) := by
  unfold makeMeta
  cases hw : writeMetaFile d m ⟨creationMode c mk.mode, c.euid, c.egid⟩ writable with
  | error e => exact .refused e
  | ok d' => exact .made hbelongs hasked hex hchecks hw

theorem handleOpen_shape (d : Disk) (c : Caller) (p : HostPath) (rel : Except Errno CString)
    (flags : Option (BitVec 64)) (mode : Mode) (writable : Bool) :
    MakeShape d c writable ⟨p, rel, .regular, creates flags, mode⟩
      (handleOpen d c p rel flags mode writable) := by
  unfold handleOpen
  by_cases hbelongs : c.belongs p = true
  · rw [if_neg (not_not.mpr hbelongs)]
    cases hm : getMetaPath p with
    | error errno => exact .refused errno
    | ok m =>
      show MakeShape d c writable _ (if _ then _ else _)
      by_cases hidle : ¬ m.exists? d = true ∧ ¬ creates flags = true
      · rw [if_pos hidle]
        exact .passed fun _ h => hidle.2 h.1
      · rw [if_neg hidle]
        by_cases hmake : creates flags = true ∧ ¬ p.exists? d = true
        · rw [if_pos hmake]
          cases hchecks : createChecks d c p rel with
          | error errno => exact .refused errno
          | ok m =>
            exact makeMeta_shape ⟨p, rel, .regular, creates flags, mode⟩ hbelongs hmake.1
              hmake.2 hchecks
        · rw [if_neg hmake]
          cases rel with
          | error errno => exact .refused errno
          | ok rel =>
            dsimp only
            cases hchecks : openChecks d c p m rel flags with
            | error errno => exact .refused errno
            | ok u => exact .passed fun _ h => hmake h
  · rw [if_pos hbelongs]
    exact .passed fun h => absurd h hbelongs

theorem handleMk_shape (d : Disk) (c : Caller) (p : HostPath) (rel : Except Errno CString)
    (kind : FileKind) (mode : Mode) (writable : Bool) :
    MakeShape d c writable ⟨p, rel, kind, true, mode⟩ (handleMk d c p rel mode writable) := by
  unfold handleMk
  by_cases hbelongs : c.belongs p = true
  · rw [if_neg (not_not.mpr hbelongs)]
    by_cases hex : p.exists? d = true
    · rw [if_pos hex]
      exact .passed fun _ h => h.2 hex
    · rw [if_neg hex]
      cases hchecks : createChecks d c p rel with
      | error errno => exact .refused errno
      | ok m => exact makeMeta_shape ⟨p, rel, kind, true, mode⟩ hbelongs rfl hex hchecks
  · rw [if_pos hbelongs]
    exact .passed fun h => absurd h hbelongs

theorem createChecks_eq_ok {d : Disk}
    (h : createChecks d c p rel = .ok m) : getMetaPath p = .ok m := by
  obtain ⟨m', hm, h⟩ := bind_eq_ok.mp h
  obtain ⟨_, -, h⟩ := bind_eq_ok.mp h
  obtain ⟨_, -, h⟩ := bind_eq_ok.mp h
  cases h
  exact hm

theorem creationMode_lt (c : Caller) (mode : Mode) : (creationMode c mode).toNat < 8 ^ 9 := by
  unfold creationMode
  rw [BitVec.toNat_and]
  have hle : (mode &&& ~~~c.umask).toNat &&& (0o777 : Mode).toNat ≤ (0o777 : Mode).toNat :=
    Nat.and_le_right
  have h777 : (0o777 : Mode).toNat = 511 := rfl
  omega

theorem record_text (h : r.mode.toNat < 8 ^ 9) : r.text.record = r := by
  unfold MetaRecord.text MetaText.record
  rw [otod_dtoo h]

namespace FileState

variable {s : FileState} {e : FileEvent}

theorem Prepared.write {d d' : Disk} {side : Entry → Option MetaRecord} (h : s.Prepared d side)
    (hm : getMetaPath p = .ok m) (hguest : GuestName p.getName) (hr : r.mode.toNat < 8 ^ 9)
    (hw : writeMetaFile d m r writable = .ok d') :
    ∃ k, p.entry s.disk = some k ∧ GuestEntry k ∧
      s.Prepared d' (Function.update side k (some r)) := by
  obtain ⟨k', hk', hstep⟩ := writeMetaFile_sideStep h.neat.flat (getMetaPath_tagged hm) hw
  rw [getMetaPath_entry hm hguest, h.dirs.path, Option.map_eq_some_iff] at hk'
  obtain ⟨k, hk, rfl⟩ := hk'
  rw [record_text hr] at hstep
  exact ⟨k, hk, HostPath.entry_guest hguest hk, h.sideStep hstep⟩

theorem Prepared.write_junk {d d' : Disk} {side : Entry → Option MetaRecord} (h : s.Prepared d side)
    (hm : getMetaPath p = .ok m) (hguest : ¬ GuestName p.getName)
    (hw : writeMetaFile d m r writable = .ok d') :
    s.Prepared d' side := by
  obtain ⟨k, hk, hstep⟩ := writeMetaFile_sideStep h.neat.flat (getMetaPath_tagged hm) hw
  exact h.junk hstep (MetaPath.entry_tagged (getMetaPath_tagged hm) hk) (getMetaPath_junk hm hguest hk)

theorem writeMetaFile_writable {d d' : Disk}
    (hw : writeMetaFile d m r writable = .ok d') : writable = true := by
  unfold writeMetaFile at hw
  split_ifs at hw with h
  exact h

theorem kernelCreate_before {d d' d₂ : Disk} {v : MetaRecord}
    (hstep : d.SideStep d' k (some v)) (htag : metaTag <+: k.2)
    (h : kernelCreate d' p kind content = some d₂) :
    (kernelCreate d p kind content).isSome := by
  have hallows : p.allows kind = true := by
    unfold kernelCreate at h
    split_ifs at h with ha
    exact ha
  obtain ⟨j, hj, hcreate⟩ := kernelCreate_eq_some h
  obtain ⟨⟨hfree, hdir⟩, -⟩ := Disk.create_spec hcreate
  have hjk : j ≠ k := by
    rintro rfl
    -- the side file is there
    obtain ⟨n, hn⟩ := htag
    have hside := hstep.side (j.1, n)
    have heq : sideEntry (j.1, n) = j := Prod.ext rfl hn
    rw [if_pos heq] at hside
    simp [Disk.side, heq, hfree] at hside
  rw [hstep.name j hjk] at hfree
  rw [hstep.dirs.path] at hj
  obtain ⟨d₃, hd₃⟩ := Disk.create_isSome kind content hfree
    ((hstep.dirs.kind _).mp hdir)
  unfold kernelCreate
  rw [if_pos hallows, hj, Option.bind_some, hd₃]
  rfl

/-- What the kernel can make under a name of the guest's, it can make when the side file is there.
-/
theorem kernelCreate_prepared {d d₂ : Disk} {side : Entry → Option MetaRecord} (h : s.Prepared d side)
    (hk : p.entry s.disk = some k) (hguest : GuestEntry k)
    (hcreate : kernelCreate s.disk p kind content = some d₂) :
    ∃ d', d.create k kind content = some d' ∧ kernelCreate d p kind content = some d' := by
  have hallows : p.allows kind = true := by
    unfold kernelCreate at hcreate
    split_ifs at hcreate with ha
    exact ha
  obtain ⟨j, hj, hcreate⟩ := kernelCreate_eq_some hcreate
  rw [hk] at hj
  cases hj
  obtain ⟨⟨hfree, hdir⟩, -⟩ := Disk.create_spec hcreate
  obtain ⟨d', hd'⟩ := Disk.create_isSome kind content
    ((h.name k hguest).trans hfree) ((h.dirs.kind _).mpr hdir)
  refine ⟨d', hd', ?_⟩
  unfold kernelCreate
  rw [if_pos hallows, h.dirs.path, hk, Option.bind_some, hd']

/-- A file that is made gets a record of its own. -/
theorem orderly_create (hs : s.Orderly) (mk : Making) (hmk : e.call.making = some mk)
    (hshape : MakeShape s.disk e.caller e.writable mk
      (handleSysenterEnd s.disk e.caller e.writable e.call))
    (hsound : CreateSound s.disk e mk.path mk.rel mk.asked) : (s.step e).Orderly := by
  have htarget := FileCall.target_of_making hmk s.disk
  have hrecord := newRecord_of_making hmk e.caller
  generalize hresult : handleSysenterEnd s.disk e.caller e.writable e.call = result at hshape
  cases hshape with
  | refused errno =>
    rw [step_refuse hresult]
    exact hs
  | passed hpass =>
    rcases step_go hresult with ⟨hstep, -⟩ | ⟨d', hgranted, hkernel, hstep⟩
    · rw [hstep]
      exact hs
    · rw [hstep]
      rcases kernelCall_making hmk hkernel with ⟨-, rfl⟩ | ⟨hasked, hcreate⟩
      · -- the file is only opened
        rw [completed_same htarget rfl]
        exact hs
      · have hex := kernelCreate_exists hcreate
        obtain ⟨k, hk, hmade⟩ := kernelCreate_eq_some hcreate
        have houtside : ¬ e.caller.belongs mk.path = true := by
          intro hbelongs
          exact hpass hbelongs ⟨hasked, by simp [hex]⟩
        unfold CreateSound at hsound
        rw [if_pos houtside] at hsound
        rcases hsound ⟨hgranted, by rw [hkernel]; rfl⟩ with hex' | hunrecorded
        · rw [hex] at hex'
          cases hex'
        · obtain ⟨hguest, hside⟩ := hunrecorded k hk
          rw [completed_create hmade, hrecord, if_neg houtside]
          have hprepared : s.Prepared s.disk (Function.update s.disk.side k none) := by
            rw [← hside, Function.update_eq_self]
            exact hs.prepared
          exact Prepared.create hs hguest hprepared (fun _ h => by cases h) hmade
  | made hbelongs hasked hex hchecks hw =>
    rename_i m d
    have hm := createChecks_eq_ok hchecks
    obtain ⟨kₛ, hkₛ, hsideStep⟩ := writeMetaFile_sideStep hs.neat.flat (getMetaPath_tagged hm) hw
    unfold CreateSound at hsound
    rw [if_neg (not_not.mpr hbelongs), if_pos ⟨hasked, hex⟩, hchecks] at hsound
    have hsound := hsound (writeMetaFile_writable hw) (by rw [hkₛ]; rfl)
    by_cases hguest : GuestName mk.path.getName
    · rw [if_pos hguest] at hsound
      obtain ⟨hgranted, hkernel⟩ := hsound
      obtain ⟨k, hk, hk', hprepared⟩ :=
        hs.prepared.write hm hguest (creationMode_lt e.caller mk.mode) hw
      have hcreate : ∃ d₂, kernelCreate s.disk mk.path mk.kind e.content = some d₂ := by
        obtain ⟨d₂, hd₂⟩ := Option.isSome_iff_exists.mp hkernel
        rcases kernelCall_making hmk hd₂ with ⟨hex', -⟩ | ⟨-, hcreate⟩
        · exact absurd hex' hex
        · exact ⟨d₂, hcreate⟩
      obtain ⟨d₂, hcreate⟩ := hcreate
      obtain ⟨d', hmade, hcreate⟩ := kernelCreate_prepared hprepared hk hk' hcreate
      have hcall := kernelCall_of_create hmk hasked hcreate
      rcases step_go hresult with ⟨-, hnone⟩ | ⟨d₃, -, hd₃, hstep⟩
      · rw [hnone hgranted] at hcall
        cases hcall
      · rw [hd₃] at hcall
        cases hcall
        rw [hstep, completed_create hmade, hrecord, if_pos hbelongs]
        refine Prepared.create hs hk' hprepared ?_ hmade
        rintro r' h
        cases h
        exact creationMode_lt _ _
    · rw [if_neg hguest] at hsound
      have hprepared := hs.prepared.write_junk hm hguest hw
      rcases step_go hresult with ⟨hstep, -⟩ | ⟨d', hgranted, hkernel, hstep⟩
      · rw [hstep]
        exact hprepared.idle hs
      · rcases kernelCall_making hmk hkernel with ⟨-, rfl⟩ | ⟨-, hcreate⟩
        · rw [hstep, completed_same htarget rfl]
          exact hprepared.idle hs
        · have hbefore := kernelCreate_before hsideStep
            (MetaPath.entry_tagged (getMetaPath_tagged hm) hkₛ) hcreate
          obtain ⟨d₂, hd₂⟩ := Option.isSome_iff_exists.mp hbefore
          have hcall := kernelCall_of_create hmk hasked hd₂
          exact absurd ⟨hgranted, by rw [hcall]; rfl⟩ hsound

/-! ## Names are removed -/

theorem kernelUnlink_eq_some {d d' : Disk} (h : kernelUnlink d p = some d') :
    ∃ k id, p.entry d = some k ∧ d.entry k = some id ∧ p.allows (d.kind id) = true ∧
      d' = d.remove k := by
  unfold kernelUnlink at h
  split at h
  · rename_i k id hk hid
    split_ifs at h with hallows
    refine ⟨k, id, hk, ?_, hallows, (Option.some.inj h).symm⟩
    simpa [HostPath.file, hk] using hid
  · cases h

theorem kernelUnlink_of {d : Disk} {id : FileId} (hk : p.entry d = some k)
    (hid : d.entry k = some id) (hallows : p.allows (d.kind id) = true) :
    kernelUnlink d p = some (d.remove k) := by
  have hfile : p.file d = some id := by
    simp [HostPath.file, hk, hid]
  unfold kernelUnlink
  rw [hk, hfile]
  exact if_pos hallows

theorem allows_congr {kind' : FileKind}
    (h : kind' = .directory ↔ kind = .directory) : p.allows kind' = p.allows kind := by
  unfold HostPath.allows
  cases p.finality <;> simp [h]

theorem kernelUnlink_before {d d' : Disk} (hstep : d.SideStep d' k none)
    (htag : metaTag <+: k.2) (h : (kernelUnlink d' p).isSome) :
    (kernelUnlink d p).isSome := by
  obtain ⟨d₂, hd₂⟩ := Option.isSome_iff_exists.mp h
  obtain ⟨j, id, hj, hid, hallows, -⟩ := kernelUnlink_eq_some hd₂
  have hjk : j ≠ k := by
    rintro rfl
    -- the side file is gone
    obtain ⟨n, hn⟩ := htag
    have hside := hstep.side (j.1, n)
    have heq : sideEntry (j.1, n) = j := Prod.ext rfl hn
    rw [if_pos heq] at hside
    simp [Disk.side, heq, hid] at hside
  rw [hstep.name j hjk] at hid
  rw [hstep.dirs.path] at hj
  rw [allows_congr (hstep.dirs.kind id)] at hallows
  rw [kernelUnlink_of hj hid hallows]
  rfl

theorem completed_remove (h : e.call.target s.disk = none) (d : Disk) (k : Entry) :
    s.completed e d (d.remove k) = s.own :=
  completed_same h rfl

theorem orderly_remove_unrecorded (hs : s.Orderly) {d d' : Disk} (hprepared : s.Prepared d s.disk.side)
    (hunrecorded : Unrecorded s.disk p) (hkernel : kernelUnlink d p = some d') :
    (⟨d', s.own⟩ : FileState).Orderly := by
  obtain ⟨k, id, hk, -, -, rfl⟩ := kernelUnlink_eq_some hkernel
  rw [hprepared.dirs.path] at hk
  obtain ⟨hguest, hside⟩ := hunrecorded k hk
  refine Prepared.remove hs hguest ?_
  rw [← hside, Function.update_eq_self]
  exact hprepared

/-- A name that is removed takes its record with it. -/
theorem orderly_unlink (hs : s.Orderly)
    (hcall : e.call = .unlink p rel) (hsound : UnlinkSound s.disk e p rel) : (s.step e).Orderly := by
  have htarget : e.call.target s.disk = none := by
    rw [hcall]
    rfl
  have hkernelCall : ∀ d, kernelCall d e.content e.call = kernelUnlink d p := by
    intro d
    rw [hcall]
    rfl
  have hhandle : handleSysenterEnd s.disk e.caller e.writable e.call =
      handleUnlink s.disk e.caller p rel := by
    rw [hcall]
    rfl
  unfold UnlinkSound at hsound
  unfold FileEvent.Succeeds at hsound
  rw [hkernelCall] at hsound
  -- the part that all cases share: the handler removed no side file of the guest's
  have hplain : ∀ d, handleUnlink s.disk e.caller p rel = (d, .go) → s.Prepared d s.disk.side →
      (∀ d', e.granted = true → kernelUnlink d p = some d' → Unrecorded s.disk p) →
      (s.step e).Orderly := by
    intro d hresult hprepared hunrecorded
    rcases step_go (hhandle.trans hresult) with ⟨hstep, -⟩ | ⟨d', hgranted, hkernel, hstep⟩
    · rw [hstep]
      exact hprepared.idle hs
    · rw [hkernelCall] at hkernel
      obtain ⟨k, id, -, -, -, rfl⟩ := kernelUnlink_eq_some hkernel
      rw [hstep, completed_remove htarget]
      exact orderly_remove_unrecorded hs hprepared (hunrecorded _ hgranted hkernel) hkernel
  unfold handleUnlink at hhandle hplain
  by_cases hbelongs : e.caller.belongs p = true
  · rw [if_neg (not_not.mpr hbelongs)] at hhandle hplain hsound
    cases hchecks : createChecks s.disk e.caller p rel with
    | error errno =>
      rw [hchecks] at hhandle
      rw [step_refuse hhandle]
      exact hs
    | ok m =>
      simp only [hchecks] at hhandle hplain hsound
      have hm := createChecks_eq_ok hchecks
      have htagged := getMetaPath_tagged hm
      by_cases hex : m.exists? s.disk = true
      · rw [if_pos hex] at hhandle hplain
        obtain ⟨kₛ, idₛ, hkₛ, hidₛ⟩ := (MetaPath.exists?_iff hs.neat.flat htagged).mp hex
        have hstep := MetaPath.unlink_sideStep hs.neat.flat htagged hkₛ hidₛ
        by_cases hguest : GuestName p.getName
        · -- both are removed
          rw [if_pos ⟨hguest, hex⟩] at hsound
          obtain ⟨hgranted, hkernel⟩ := hsound
          obtain ⟨d₂, hd₂⟩ := Option.isSome_iff_exists.mp hkernel
          obtain ⟨k, id, hk, hid, -, -⟩ := kernelUnlink_eq_some hd₂
          have hk' := HostPath.entry_guest hguest hk
          rw [getMetaPath_entry hm hguest, hk, Option.map_some, Option.some.injEq] at hkₛ
          subst hkₛ
          have hprepared := hs.prepared.sideStep hstep
          have hremove : kernelUnlink (m.unlink s.disk) p = some ((m.unlink s.disk).remove k) :=
            kernelUnlink_of ((hstep.dirs.path p).trans hk) ((hprepared.name k hk').trans hid)
              (HostPath.allows_of_plain hguest.plain _)
          rcases step_go hhandle with ⟨-, hnone⟩ | ⟨d', -, hd', hdone⟩
          · have := hnone hgranted
            rw [hkernelCall, hremove] at this
            cases this
          · rw [hkernelCall, hremove, Option.some.injEq] at hd'
            subst hd'
            rw [hdone, completed_remove htarget]
            exact Prepared.remove hs hk' hprepared
        · rw [if_neg (fun h => hguest h.1)] at hsound
          have htag := MetaPath.entry_tagged htagged hkₛ
          refine hplain _ rfl (hs.prepared.junk hstep htag (getMetaPath_junk hm hguest hkₛ)) ?_
          intro d' hgranted hkernel
          exact hsound ⟨hgranted, kernelUnlink_before hstep htag (by rw [hkernel]; rfl)⟩
      · rw [if_neg hex] at hplain
        rw [if_neg (fun h => hex h.2)] at hsound
        exact hplain _ rfl hs.prepared fun d' hgranted hkernel =>
          hsound ⟨hgranted, by rw [hkernel]; rfl⟩
  · rw [if_pos hbelongs] at hplain hsound
    exact hplain _ rfl hs.prepared fun d' hgranted hkernel =>
      hsound ⟨hgranted, by rw [hkernel]; rfl⟩

/-! ## Files are renamed -/

variable {new old : HostPath} {fd : Option FileId}

theorem kernelRename_eq_some {d d' : Disk} (h : kernelRename d old new = some d') :
    ∃ k k' id, old.entry d = some k ∧ new.entry d = some k' ∧ d.entry k = some id ∧
      d.rename k k' = some d' := by
  unfold kernelRename at h
  split at h
  · rename_i k k' id hk hk' hid
    split_ifs at h
    refine ⟨k, k', id, hk, hk', ?_, h⟩
    simpa [HostPath.file, hk] using hid
  · cases h

theorem orderly_renameFree (hs : s.Orderly) (htarget : e.call.target s.disk = none)
    (hkernelCall : ∀ d, kernelCall d e.content e.call = kernelRename d old new)
    (hresult : handleSysenterEnd s.disk e.caller e.writable e.call = (s.disk, .go))
    (hsound : RenameFree s.disk e old new) : (s.step e).Orderly := by
  rcases step_go hresult with ⟨hstep, -⟩ | ⟨d', hgranted, hkernel, hstep⟩
  · rw [hstep]
    exact hs
  · have hsound := hsound ⟨hgranted, by rw [hkernel]; rfl⟩
    rw [hkernelCall] at hkernel
    obtain ⟨k, k', id, hk, hk', hid, hrename⟩ := kernelRename_eq_some hkernel
    obtain ⟨id', hid', hcase⟩ := Disk.rename_spec hrename
    rw [hid] at hid'
    cases hid'
    rcases hcase with ⟨-, rfl⟩ | ⟨⟨hne, -⟩, hentry, hkind, htext, hnext⟩
    · rw [hstep, completed_same htarget rfl]
      exact hs
    · rw [hstep, completed_same htarget hnext]
      rcases hsound with hsame | ⟨hold, hnew⟩
      · simp only [HostPath.file, hk, hk', Option.bind_some, hid] at hsame
        exact absurd hsame.symm hne
      · obtain ⟨hguest, hside⟩ := hold k hk
        obtain ⟨hguest', hside'⟩ := hnew k' hk'
        refine Prepared.rename hs hguest hguest' ?_ hid hentry hkind htext hnext
        have hsides : Function.update (Function.update s.disk.side k' (s.disk.side k)) k none =
            s.disk.side := by
          rw [hside, ← hside', Function.update_eq_self, hside', ← hside, Function.update_eq_self]
        rw [hsides]
        exact hs.prepared

theorem renameChecks_eq_ok {d : Disk} {oldRel newRel : Except Errno CString}
    (h : renameChecks d c old new oldRel newRel = .ok m) : getMetaPath old = .ok m := by
  obtain ⟨_, -, h⟩ := bind_eq_ok.mp h
  obtain ⟨_, -, h⟩ := bind_eq_ok.mp h
  obtain ⟨_, -, h⟩ := bind_eq_ok.mp h
  obtain ⟨_, -, h⟩ := bind_eq_ok.mp h
  exact h

theorem Orderly.recorded (hs : s.Orderly) (hm : getMetaPath p = .ok m)
    (hguest : GuestName p.getName) (hex : m.exists? s.disk = true) :
    ∃ k id r, p.entry s.disk = some k ∧ GuestEntry k ∧ m.entry s.disk = some (sideEntry k) ∧
      s.disk.entry k = some id ∧ s.own id = some r ∧ s.disk.side k = some r ∧
      ∀ c, readMetaFile s.disk c m = r := by
  obtain ⟨kₛ, idₛ, hkₛ, hidₛ⟩ := (MetaPath.exists?_iff hs.neat.flat (getMetaPath_tagged hm)).mp hex
  have hread := readMetaFile_eq hs.neat.flat (getMetaPath_tagged hm) hkₛ hidₛ
  have hentry := hkₛ
  rw [getMetaPath_entry hm hguest, Option.map_eq_some_iff] at hentry
  obtain ⟨k, hk, rfl⟩ := hentry
  have hk' := HostPath.entry_guest hguest hk
  have hside : s.disk.side k = some (s.disk.text idₛ).record := by
    unfold Disk.side
    rw [hidₛ, Option.map_some]
  have hfollows := hs.follows k hk'
  change s.disk.side k = (s.disk.entry k).bind s.own at hfollows
  rw [hside] at hfollows
  obtain ⟨id, hid, hown⟩ := Option.bind_eq_some_iff.mp hfollows.symm
  exact ⟨k, id, _, hk, hk', hkₛ, hid, hown, hside, hread⟩

theorem orderly_renameSame (hs : s.Orderly) {d : Disk} (htarget : e.call.target s.disk = none)
    (hkernelCall : ∀ d, kernelCall d e.content e.call = kernelRename d old new)
    (hresult : handleSysenterEnd s.disk e.caller e.writable e.call = (d, .go))
    (hprepared : s.Prepared d s.disk.side) (hk : old.entry s.disk = some k)
    (hk' : new.entry s.disk = some k) : (s.step e).Orderly := by
  rcases step_go hresult with ⟨hstep, -⟩ | ⟨d', -, hkernel, hstep⟩
  · rw [hstep]
    exact hprepared.idle hs
  · rw [hkernelCall] at hkernel
    obtain ⟨j, j', i, hj, hj', hi, hrename⟩ := kernelRename_eq_some hkernel
    rw [hprepared.dirs.path, hk] at hj
    rw [hprepared.dirs.path, hk'] at hj'
    cases hj
    cases hj'
    obtain ⟨i', hi', hcase⟩ := Disk.rename_spec hrename
    rcases hcase with ⟨-, rfl⟩ | ⟨⟨hne, -⟩, -⟩
    · rw [hstep, completed_same htarget rfl]
      exact hprepared.idle hs
    · exact absurd hi' hne

theorem orderly_renameBoth (hs : s.Orderly) {d : Disk} (htarget : e.call.target s.disk = none)
    (hkernelCall : ∀ d, kernelCall d e.content e.call = kernelRename d old new)
    (hresult : handleSysenterEnd s.disk e.caller e.writable e.call = (d, .go)) {k' : Entry}
    (hprepared : s.Prepared d
      (Function.update (Function.update s.disk.side k' (s.disk.side k)) k none))
    (hguest : GuestName old.getName ∧ GuestName new.getName) (hk : old.entry s.disk = some k)
    (hk' : new.entry s.disk = some k') {id : FileId} (hid : s.disk.entry k = some id)
    (hne : s.disk.entry k' ≠ some id) (hsucceeds : e.Succeeds s.disk) : (s.step e).Orderly := by
  have hgk := HostPath.entry_guest hguest.1 hk
  have hgk' := HostPath.entry_guest hguest.2 hk'
  obtain ⟨hgranted, hkernel⟩ := hsucceeds
  obtain ⟨d₂, hd₂⟩ := Option.isSome_iff_exists.mp hkernel
  rw [hkernelCall] at hd₂
  obtain ⟨j, j', i, hj, hj', -, hrename⟩ := kernelRename_eq_some hd₂
  rw [hk] at hj
  rw [hk'] at hj'
  cases hj
  cases hj'
  have hdir : s.disk.kind k'.1 = .directory := by
    obtain ⟨i, hi, hcase⟩ := Disk.rename_spec hrename
    rcases hcase with ⟨hsame, -⟩ | ⟨⟨-, hdir⟩, -⟩
    · rw [hid] at hi
      cases hi
      exact absurd hsame hne
    · exact hdir
  have hid' : d.entry k = some id := (hprepared.name k hgk).trans hid
  have hne' : d.entry k' ≠ some id := by
    rw [hprepared.name k' hgk']
    exact hne
  obtain ⟨d', hd'⟩ := Disk.rename_isSome hid' hne' ((hprepared.dirs.kind _).mpr hdir)
  have hrun : kernelRename d old new = some d' := by
    have hfile : old.file d = some id := by
      simp [HostPath.file, hprepared.dirs.path, hk, hid']
    unfold kernelRename
    rw [hfile, hprepared.dirs.path, hprepared.dirs.path, hk, hk']
    simp only [HostPath.allows_of_plain hguest.1.plain, HostPath.allows_of_plain hguest.2.plain,
      and_self, if_true]
    exact hd'
  rcases step_go hresult with ⟨-, hnone⟩ | ⟨d₃, -, hd₃, hstep⟩
  · have := hnone hgranted
    rw [hkernelCall, hrun] at this
    cases this
  · rw [hkernelCall, hrun, Option.some.injEq] at hd₃
    subst hd₃
    obtain ⟨i, hi, hcase⟩ := Disk.rename_spec hd'
    rw [hid'] at hi
    cases hi
    rcases hcase with ⟨hsame, -⟩ | ⟨-, hentry, hkind, htext, hnext⟩
    · exact absurd hsame hne'
    · rw [hstep, completed_same htarget hnext]
      exact Prepared.rename hs hgk hgk' hprepared hid' hentry hkind htext hnext

/-- A record moves with the name. -/
theorem orderly_rename (hs : s.Orderly) {oldRel newRel : Except Errno CString}
    (hcall : e.call = .rename old new oldRel newRel)
    (hsound : RenameSound s.disk e old new oldRel newRel) : (s.step e).Orderly := by
  have htarget : e.call.target s.disk = none := by
    rw [hcall]
    rfl
  have hkernelCall : ∀ d, kernelCall d e.content e.call = kernelRename d old new := by
    intro d
    rw [hcall]
    rfl
  have hhandle : handleSysenterEnd s.disk e.caller e.writable e.call =
      handleRename s.disk e.caller old new oldRel newRel e.writable := by
    rw [hcall]
    rfl
  unfold handleRename at hhandle
  unfold RenameSound at hsound
  by_cases hbelongs : e.caller.belongs old = true
  · rw [if_neg (not_not.mpr hbelongs)] at hhandle
    by_cases hbelongs' : e.caller.belongs new = true
    · rw [if_neg (not_not.mpr hbelongs')] at hhandle
      rw [if_neg (not_or.mpr ⟨not_not.mpr hbelongs, not_not.mpr hbelongs'⟩)] at hsound
      cases hchecks : renameChecks s.disk e.caller old new oldRel newRel with
      | error errno =>
        rw [hchecks] at hhandle
        rw [step_refuse hhandle]
        exact hs
      | ok m =>
        simp only [hchecks] at hhandle hsound
        have hm := renameChecks_eq_ok hchecks
        by_cases hex : m.exists? s.disk = true
        · rw [if_neg (not_not.mpr hex)] at hhandle hsound
          obtain ⟨⟨hguest, hguest'⟩, ⟨hwritable, m', hm', hdir⟩, hdone⟩ := hsound
          obtain ⟨k, id, r, hk, hgk, hkₛ, hid, hown, hside, hread⟩ := hs.recorded hm hguest hex
          obtain ⟨kₘ, hkₘ⟩ := Option.isSome_iff_exists.mp hdir
          -- the record is moved
          have hidₛ : ∃ i, s.disk.entry (sideEntry k) = some i := by
            obtain ⟨i, hi, -⟩ := Option.map_eq_some_iff.mp hside
            exact ⟨i, hi⟩
          obtain ⟨idₛ, hidₛ⟩ := hidₛ
          have hunlink := MetaPath.unlink_sideStep hs.neat.flat (getMetaPath_tagged hm) hkₛ hidₛ
          have hprepared := hs.prepared.sideStep hunlink
          have hkₘ' : m'.entry (m.unlink s.disk) = some kₘ := (hunlink.dirs.metaPath m').trans hkₘ
          obtain ⟨d, hw⟩ : ∃ d, writeMetaFile (m.unlink s.disk) m' r e.writable = .ok d := by
            rw [hwritable]
            exact writeMetaFile_isOk hprepared.neat.flat (getMetaPath_tagged hm') r hkₘ'
          obtain ⟨k', hk', hgk', hprepared⟩ :=
            hprepared.write hm' hguest' (hs.small k r hgk hside) hw
          rw [hread, hm'] at hhandle
          simp only [hw] at hhandle
          by_cases hkk : k = k'
          · subst hkk
            have hsides : Function.update (Function.update s.disk.side k none) k (some r) =
                s.disk.side := by
              rw [Function.update_idem, ← hside, Function.update_eq_self]
            rw [hsides] at hprepared
            exact orderly_renameSame hs htarget hkernelCall hhandle hprepared hk hk'
          · have hsides : Function.update (Function.update s.disk.side k none) k' (some r) =
                Function.update (Function.update s.disk.side k' (s.disk.side k)) k none := by
              rw [Function.update_comm (Ne.symm hkk), hside]
            rw [hsides] at hprepared
            have hsucceeds : e.Succeeds s.disk := by
              rcases hdone with hsucceeds | hsame
              · exact hsucceeds
              · rw [hk, hk', Option.some.injEq] at hsame
                exact absurd hsame hkk
            -- a recorded file has one name, so the names are those of two files
            have hne : s.disk.entry k' ≠ some id := by
              intro h
              exact hkk (hs.neat.once k k' id (by rw [hown]; exact nofun) hid h)
            exact orderly_renameBoth hs htarget hkernelCall hhandle hprepared ⟨hguest, hguest'⟩ hk hk'
              hid hne hsucceeds
        · rw [if_pos hex] at hhandle hsound
          exact orderly_renameFree hs htarget hkernelCall hhandle hsound
    · rw [if_pos hbelongs'] at hhandle
      rw [if_pos (.inr hbelongs')] at hsound
      exact orderly_renameFree hs htarget hkernelCall hhandle hsound
  · rw [if_pos hbelongs] at hhandle
    rw [if_pos (.inl hbelongs)] at hsound
    exact orderly_renameFree hs htarget hkernelCall hhandle hsound

/-! ## Records change -/

theorem orderly_unaffected (hs : s.Orderly) {d : Disk} (hprepared : s.Prepared d s.disk.side)
    (hunaffected : Unaffected s e) : (⟨d, s.changed e⟩ : FileState).Orderly := by
  unfold changed
  split
  · exact hprepared.idle hs
  · rename_i id htarget
    split
    · exact hprepared.idle hs
    · rename_i r' hr'
      obtain ⟨r, hown, hpermitted⟩ := Option.bind_eq_some_iff.mp hr'
      rcases hunaffected id r r' htarget hown hpermitted with rfl | hno
      · rw [← hown, Function.update_eq_self]
        exact hprepared.idle hs
      · exact Prepared.nameless hs hprepared (by rw [hown]; exact nofun) hno r'

theorem orderly_pass (hs : s.Orderly) (hkernelCall : ∀ d d', kernelCall d e.content e.call = some d' →
      d' = d)
    (hresult : handleSysenterEnd s.disk e.caller e.writable e.call = (s.disk, .go))
    (hsound : e.Succeeds s.disk → Unaffected s e) : (s.step e).Orderly := by
  rcases step_go hresult with ⟨hstep, -⟩ | ⟨d', hgranted, hkernel, hstep⟩
  · rw [hstep]
    exact hs
  · have hunaffected := hsound ⟨hgranted, by rw [hkernel]; rfl⟩
    obtain rfl := hkernelCall _ _ hkernel
    rw [hstep]
    unfold completed
    rw [if_pos rfl]
    exact orderly_unaffected hs hs.prepared hunaffected

theorem orderly_changed (hs : s.Orderly) {d : Disk}
    (htarget : e.call.target s.disk = (fd <|> s.disk.walk Disk.root p.names))
    (hfd : fd = none ∨ fd = p.file s.disk) {id : FileId} {w : MetaRecord}
    (hk : p.entry s.disk = some k) (hgk : GuestEntry k) (hid : s.disk.entry k = some id)
    (hown : s.own id = some r) (hprepared : s.Prepared d (Function.update s.disk.side k (some w)))
    (hw : w.mode.toNat < 8 ^ 9) (hexact : (permitted e.caller r e.call).getD r = w) :
    (⟨d, s.changed e⟩ : FileState).Orderly := by
  have hfile : p.file s.disk = some id := by
    simp [HostPath.file, hk, hid]
  have htarget : e.call.target s.disk = some id := by
    rw [htarget]
    rcases hfd with rfl | rfl
    · have hne : p.names ≠ [] := by
        intro hnil
        simp [HostPath.entry, hnil] at hk
      show s.disk.walk Disk.root p.names = some id
      rw [s.disk.walk_eq_file hne, hfile]
    · rw [hfile]
      rfl
  have hchanged : s.changed e = Function.update s.own id (some w) := by
    unfold changed
    simp only [htarget, hown, Option.bind_some]
    cases hpermitted : permitted e.caller r e.call with
    | none =>
      rw [hpermitted, Option.getD_none] at hexact
      rw [← hexact, ← hown, Function.update_eq_self]
    | some r' =>
      rw [hpermitted, Option.getD_some] at hexact
      rw [hexact]
  rw [hchanged]
  exact Prepared.change hs hgk hid (by rw [hown]; rintro ⟨⟩) hw hprepared

structure Checked (d : Disk) (c : Caller) (p : HostPath) (m : MetaPath) : Prop where
  metaPath : getMetaPath p = .ok m
  there : m.exists? d = true
  owner : c.euid = 0 ∨ c.euid = (readMetaFile d c m).owner

theorem chmodChecks_eq_ok {d : Disk}
    (h : chmodChecks d c p rel = .ok (some m)) : Checked d c p m := by
  unfold chmodChecks at h
  split at h
  · split_ifs at h
    · cases h
    · obtain ⟨_, -, h⟩ := bind_eq_ok.mp h
      obtain ⟨_, -, h⟩ := bind_eq_ok.mp h
      cases h
  · rename_i m' hm
    split_ifs at h with hex
    · obtain ⟨_, -, h⟩ := bind_eq_ok.mp h
      obtain ⟨_, -, h⟩ := bind_eq_ok.mp h
      dsimp only at h
      split_ifs at h with hother
      cases h
      refine ⟨hm, hex, ?_⟩
      by_cases hroot : c.euid = 0
      · exact .inl hroot
      · exact .inr (not_not.mp fun hne => hother ⟨hne, hroot⟩)
    · cases h

theorem chownChecks_eq_ok {d : Disk}
    (h : chownChecks d c p rel = .ok (some m)) : Checked d c p m := by
  unfold chownChecks at h
  obtain ⟨m', hm, h⟩ := bind_eq_ok.mp h
  split_ifs at h with hex
  · obtain ⟨_, -, h⟩ := bind_eq_ok.mp h
    obtain ⟨_, -, h⟩ := bind_eq_ok.mp h
    dsimp only at h
    split_ifs at h with hother
    cases h
    refine ⟨hm, hex, ?_⟩
    by_cases hroot : c.euid = 0
    · exact .inl hroot
    · exact .inr (not_not.mp fun hne => hother ⟨hroot, hne⟩)
  · cases h

theorem chownRecord_exact {owner group : Id} (howner : c.euid = 0 ∨ c.euid = r.owner)
    (hsound : ChownSound c r (.chown p fd rel owner group) owner group true) :
    (permitted c r (.chown p fd rel owner group)).getD r = chownRecord c r owner group := by
  unfold ChownSound at hsound
  rw [if_pos rfl] at hsound
  by_cases hroot : c.euid = 0
  · rw [if_pos hroot] at hsound
    have hgroup : Id.orElse group r.group = group := by
      unfold Id.orElse
      split_ifs with hunset
      · rw [hsound hunset, hunset]
      · rfl
    simp only [permitted, chownRecord, hroot, true_or, if_true, Option.getD_some,
      hgroup]
    rfl
  · rw [if_neg hroot] at hsound
    have heuid := howner.resolve_left hroot
    have hrecord : chownRecord c r owner group = ⟨r.mode, r.owner, group⟩ := if_neg hroot
    rw [hrecord]
    rcases hsound with rfl | ⟨hset, hgroup, howner'⟩
    · -- nothing changes
      have hkeep : Id.orElse r.group r.group = r.group := by
        unfold Id.orElse
        split_ifs <;> rfl
      simp only [permitted, hkeep, heuid, true_and, true_or, and_true]
      by_cases hkept : Id.orElse owner r.owner = r.owner
      · rw [if_pos (.inr hkept), Option.getD_some, hkept]
      · rw [if_neg (not_or.mpr ⟨fun h0 => hroot (heuid.trans h0), hkept⟩), Option.getD_none]
    · have hgroup' : Id.orElse group r.group = group := if_neg hset
      have hkept : Id.orElse owner r.owner = r.owner := by
        unfold Id.orElse
        rcases howner' with rfl | rfl
        · exact if_pos rfl
        · split_ifs <;> rfl
      simp only [permitted, hgroup', hkept]
      rw [if_pos (.inr ⟨heuid, trivial, .inr hgroup⟩), Option.getD_some]

/-- chmod(2) changes the mode of one record. -/
theorem orderly_chmod (hs : s.Orderly) {mode : Mode} (hcall : e.call = .chmod p fd rel mode)
    (hsound : ChangeSound s e p fd (chmodChecks s.disk e.caller p rel) fun _ =>
      e.writable = true → mode.toNat < 8 ^ 9) : (s.step e).Orderly := by
  have hkernelCall : ∀ d d', kernelCall d e.content e.call = some d' → d' = d := by
    intro d d' h
    rw [hcall] at h
    obtain ⟨id, -, rfl⟩ := Option.map_eq_some_iff.mp h
    rfl
  have hhandle : handleSysenterEnd s.disk e.caller e.writable e.call =
      handleChmod s.disk e.caller p rel mode e.writable := by
    rw [hcall]
    rfl
  unfold handleChmod at hhandle
  unfold ChangeSound at hsound
  by_cases hbelongs : e.caller.belongs p = true
  · rw [if_neg (not_not.mpr hbelongs)] at hhandle hsound
    cases hchecks : chmodChecks s.disk e.caller p rel with
    | error errno =>
      rw [hchecks] at hhandle
      rw [step_refuse hhandle]
      exact hs
    | ok checked =>
      cases checked with
      | none =>
        simp only [hchecks] at hhandle hsound
        exact orderly_pass hs hkernelCall hhandle hsound
      | some m =>
        simp only [hchecks] at hhandle hsound
        obtain ⟨hm, hex, howner⟩ := chmodChecks_eq_ok hchecks
        cases hw : writeMetaFile s.disk m
            { readMetaFile s.disk e.caller m with mode := mode } e.writable with
        | error errno =>
          rw [hw] at hhandle
          rw [step_refuse hhandle]
          exact hs
        | ok d =>
          rw [hw] at hhandle
          rw [step_drop hhandle]
          by_cases hguest : GuestName p.getName
          · rw [if_pos hguest] at hsound
            obtain ⟨hfd, hmode⟩ := hsound
            have hmode := hmode (writeMetaFile_writable hw)
            obtain ⟨k, id, r, hk, hgk, -, hid, hown, -, hread⟩ := hs.recorded hm hguest hex
            rw [hread] at hw howner
            obtain ⟨k', hk', -, hprepared⟩ := hs.prepared.write hm hguest hmode hw
            rw [hk] at hk'
            cases hk'
            refine orderly_changed hs ?_ hfd hk hgk hid hown hprepared hmode ?_
            · rw [hcall]
              rfl
            · rw [hcall]
              simp only [permitted, if_pos howner, Option.getD_some]
          · rw [if_neg hguest] at hsound
            exact orderly_unaffected hs (hs.prepared.write_junk hm hguest hw) hsound
  · rw [if_pos hbelongs] at hhandle hsound
    rw [step_drop hhandle]
    exact orderly_unaffected hs hs.prepared hsound

/-- chown(2) changes the owners of one record. -/
theorem orderly_chown (hs : s.Orderly)
    {owner group : Id} (hcall : e.call = .chown p fd rel owner group)
    (hsound : ChangeSound s e p fd (chownChecks s.disk e.caller p rel) fun m =>
      ChownSound e.caller (readMetaFile s.disk e.caller m) (.chown p fd rel owner group) owner group
        e.writable) :
    (s.step e).Orderly := by
  have hkernelCall : ∀ d d', kernelCall d e.content e.call = some d' → d' = d := by
    intro d d' h
    rw [hcall] at h
    obtain ⟨id, -, rfl⟩ := Option.map_eq_some_iff.mp h
    rfl
  have hhandle : handleSysenterEnd s.disk e.caller e.writable e.call =
      handleChown s.disk e.caller p rel owner group e.writable := by
    rw [hcall]
    rfl
  unfold handleChown at hhandle
  unfold ChangeSound at hsound
  by_cases hbelongs : e.caller.belongs p = true
  · rw [if_neg (not_not.mpr hbelongs)] at hhandle hsound
    cases hchecks : chownChecks s.disk e.caller p rel with
    | error errno =>
      rw [hchecks] at hhandle
      rw [step_refuse hhandle]
      exact hs
    | ok checked =>
      cases checked with
      | none =>
        simp only [hchecks] at hhandle hsound
        exact orderly_pass hs hkernelCall hhandle hsound
      | some m =>
        simp only [hchecks] at hhandle hsound
        obtain ⟨hm, hex, howner⟩ := chownChecks_eq_ok hchecks
        by_cases hguest : GuestName p.getName
        · rw [if_pos hguest] at hsound
          obtain ⟨hfd, hexact⟩ := hsound
          obtain ⟨k, id, r, hk, hgk, hkₛ, hid, hown, hside, hread⟩ := hs.recorded hm hguest hex
          rw [hread] at hhandle howner hexact
          have htarget : e.call.target s.disk = (fd <|> s.disk.walk Disk.root p.names) := by
            rw [hcall]
            rfl
          have hsmall := hs.small k r hgk hside
          cases hwritable : e.writable with
          | true =>
            obtain ⟨d, hw⟩ := writeMetaFile_isOk hs.neat.flat (getMetaPath_tagged hm)
              (chownRecord e.caller r owner group) hkₛ
            rw [← hwritable] at hw
            rw [hw] at hhandle
            rw [step_drop hhandle]
            have hmode : (chownRecord e.caller r owner group).mode.toNat < 8 ^ 9 := by
              have : (chownRecord e.caller r owner group).mode = r.mode := by
                unfold chownRecord
                dsimp only
                split_ifs <;> rfl
              rw [this]
              exact hsmall
            obtain ⟨k', hk', -, hprepared⟩ := hs.prepared.write hm hguest hmode hw
            rw [hk] at hk'
            cases hk'
            refine orderly_changed hs htarget hfd hk hgk hid hown hprepared hmode ?_
            rw [hwritable] at hexact
            rw [hcall]
            exact chownRecord_exact howner hexact
          | false =>
            -- the write fails, and nobody is told
            have hw : writeMetaFile s.disk m (chownRecord e.caller r owner group) e.writable =
                .error .eperm := by
              rw [hwritable]
              rfl
            rw [hw] at hhandle
            rw [step_drop hhandle]
            have hprepared : s.Prepared s.disk (Function.update s.disk.side k (some r)) := by
              rw [← hside, Function.update_eq_self]
              exact hs.prepared
            refine orderly_changed hs htarget hfd hk hgk hid hown hprepared hsmall ?_
            unfold ChownSound at hexact
            rw [if_neg (by rw [hwritable]; exact nofun)] at hexact
            cases hpermitted : permitted e.caller r e.call with
            | none => rfl
            | some r' =>
              rw [hcall] at hpermitted
              exact hexact r' hpermitted
        · rw [if_neg hguest] at hsound
          cases hw : writeMetaFile s.disk m
              (chownRecord e.caller (readMetaFile s.disk e.caller m) owner group) e.writable with
          | error errno =>
            rw [hw] at hhandle
            rw [step_drop hhandle]
            exact orderly_unaffected hs hs.prepared hsound
          | ok d =>
            rw [hw] at hhandle
            rw [step_drop hhandle]
            exact orderly_unaffected hs (hs.prepared.write_junk hm hguest hw) hsound
  · rw [if_pos hbelongs] at hhandle hsound
    rw [step_drop hhandle]
    exact orderly_unaffected hs hs.prepared hsound

theorem orderly_step (hs : s.Orderly) (hsound : s.Sound e) : (s.step e).Orderly := by
  unfold Sound at hsound
  cases hcall : e.call with
  | openat p rel flags mode =>
    rw [hcall] at hsound
    refine orderly_create hs ⟨p, rel, .regular, creates flags, mode⟩ ?_ ?_ hsound
    · rw [hcall]
      rfl
    · rw [hcall]
      exact handleOpen_shape _ _ _ _ _ _ _
  | mknod p rel kind mode =>
    rw [hcall] at hsound
    refine orderly_create hs ⟨p, rel, kind, true, mode⟩ ?_ ?_ hsound
    · rw [hcall]
      rfl
    · rw [hcall]
      exact handleMk_shape _ _ _ _ _ _ _
  | unlink p rel =>
    rw [hcall] at hsound
    exact orderly_unlink hs hcall hsound
  | rename old new oldRel newRel =>
    rw [hcall] at hsound
    exact orderly_rename hs hcall hsound
  | renameat2 old new =>
    rw [hcall] at hsound
    refine orderly_renameFree hs (by rw [hcall]; rfl) (fun d => by rw [hcall]; rfl) ?_ hsound
    rw [hcall]
    rfl
  | chmod p fd rel mode =>
    rw [hcall] at hsound
    exact orderly_chmod hs hcall hsound
  | chown p fd rel owner group =>
    rw [hcall] at hsound
    exact orderly_chown hs hcall hsound

end FileState

/-- **Ownership follows the files** along every run whose steps do not reach the defects: beside
every name stands the record of the file of that name, and a record changes by a permitted chmod(2)
or chown(2) only. -/
theorem ownership_follows {s : FileState} (h : fileSystem.Reach FileState.Sound s) : s.Follows := by
  have hstep : ∀ s e s', FileState.Orderly s → FileState.Sound s e → fileSystem.step s e = some s' →
      FileState.Orderly s' := by
    intro s e s' hs hsound hstep
    cases hstep
    exact FileState.orderly_step hs hsound
  have horderly : FileState.Orderly s := System.Reach.invariant (fun _ h => h) hstep h
  exact horderly.follows

/-! ## A small disk -/

def emptyDisk : Disk where
  entry _ := none
  kind id := if id = Disk.root then .directory else .regular
  text _ := ⟨0, 0, 0⟩
  next := 1
  bound := nofun
  fresh _ _ := rfl
  blank _ hid := if_neg (Nat.ne_of_gt hid)

def emptyState : FileState := ⟨emptyDisk, fun _ => none⟩

theorem emptyState_orderly : emptyState.Orderly where
  neat := ⟨⟨nofun, nofun⟩, nofun, fun _ h => absurd rfl h⟩
  follows _ _ := rfl
  small := nofun

def rootCaller : Caller where
  config := .initial 0 0
  umask := 0o022
  bindings := ⟨[], [⟨0, ['/'], ['/'], false⟩], [⟨0, ['/'], ['/'], false⟩], 1⟩

def pathA : HostPath := ⟨[⟨['a'], by decide, by decide, by decide⟩], .finalNormal⟩

def pathB : HostPath := ⟨[⟨['b'], by decide, by decide, by decide⟩], .finalNormal⟩

def creatA : FileEvent where
  caller := rootCaller
  call := .openat pathA (.ok ['/']) none 0o644
  granted := true
  writable := true
  content := ⟨0, 0, 0⟩

def unlinkA : FileEvent where
  caller := rootCaller
  call := .unlink pathA (.ok ['/'])
  granted := false
  writable := true
  content := ⟨0, 0, 0⟩

def renameA : FileEvent where
  caller := rootCaller
  call := .rename pathA pathB (.ok ['/']) (.ok ['/'])
  granted := true
  writable := true
  content := ⟨0, 0, 0⟩

theorem ownership_follows_rename : ((emptyState.step creatA).step renameA).Follows := by
  refine ownership_follows (.next (.next (.start emptyState_orderly) ?_ rfl) ?_ rfl)
  · show CreateSound emptyState.disk creatA pathA (.ok ['/']) true
    have hchecks : createChecks emptyState.disk creatA.caller pathA (.ok ['/']) =
        .ok ⟨[], metaTag ++ ['a']⟩ := by
      decide +kernel
    unfold CreateSound
    rw [if_neg (by decide +kernel), if_pos (by decide +kernel), hchecks]
    intro _ _
    rw [if_pos (by decide)]
    exact ⟨rfl, by decide +kernel⟩
  · show RenameSound (emptyState.step creatA).disk renameA pathA pathB (.ok ['/']) (.ok ['/'])
    have hchecks : renameChecks (emptyState.step creatA).disk renameA.caller pathA pathB
        (.ok ['/']) (.ok ['/']) = .ok ⟨[], metaTag ++ ['a']⟩ := by
      decide +kernel
    unfold RenameSound
    rw [if_neg (by decide +kernel), hchecks]
    show if _ then _ else _
    rw [if_neg (by decide +kernel)]
    exact ⟨by decide, ⟨rfl, ⟨[], metaTag ++ ['b']⟩, rfl, by decide +kernel⟩, .inl ⟨rfl, by decide +kernel⟩⟩

/-- The record of a file is lost when the file could not be removed. -/
theorem ownership_lost : ∃ s, fileSystem.Reach System.Always s ∧ ¬ s.Follows := by
  refine ⟨(emptyState.step creatA).step unlinkA,
    .next (.next (.start emptyState_orderly) trivial rfl) trivial rfl, ?_⟩
  intro h
  have hguest : GuestEntry (0, ['a']) := by decide
  have := h (0, ['a']) hguest
  revert this
  decide +kernel

end Improot.Extension
