import Improot.Extension.FdCache
import Improot.Extension.LinkSymlinkSpec

/-!
# The cache of descriptors never lies

Whatever happened since a name was remembered, it is given only if it leads to the file that the
descriptor was opened on.
-/

namespace Improot.Extension

open Lib (Inode)

/-! ## What the kernel reports -/

def deletedSuffix : CString := " (deleted)".toList

/-- What readlink(2) gives for a descriptor of a file: its name, or the one that it had; and its
content if it is a link, when the descriptor itself is read. -/
inductive KernelReads (d : LinkDisk) (file : Inode LinkKind) : CString → Prop
  | named {path : CString} : d.file path = some file → KernelReads d file path
  | deleted (path : CString) : (∀ p, d.file p ≠ some file) →
      KernelReads d file (path ++ deletedSuffix)
  | content {target : CString} : file.kind = .link target → KernelReads d file target

variable {l : Linker} {c : FdCache} {fd pid : Nat} {s : FdState} {entry : FdEntry}

theorem getLast?_of_isL2sFile {path : CString} (h : isL2sFile l path = true) :
    ∃ c, path.getLast? = some c ∧ c.isDigit = true := by
  obtain ⟨-, -, hlength, -, hdigits⟩ := of_decide_eq_true h
  have hsuffix : Linker.baseName path <:+ path := List.rtakeWhile_suffix _ _
  generalize Linker.baseName path = name at hlength hdigits hsuffix
  have hne : name ≠ [] := by
    intro hnil
    rw [hnil, List.length_nil] at hlength
    omega
  have hlast := List.getLast?_eq_some_getLast hne
  refine ⟨name.getLast hne, ?_, ?_⟩
  · obtain ⟨before, rfl⟩ := hsuffix
    rw [List.getLast?_append, hlast]
    rfl
  · apply List.all_eq_true.mp hdigits
    apply List.mem_of_getLast?
    rw [List.getLast?_drop, if_neg (by omega), hlast]

theorem isL2sFile_deleted (l : Linker) (path : CString) :
    isL2sFile l (path ++ deletedSuffix) = false := by
  rw [← Bool.not_eq_true]
  intro h
  obtain ⟨c, hlast, hdigit⟩ := getLast?_of_isL2sFile h
  have hparen : (path ++ deletedSuffix).getLast? = some ')' := by
    rw [List.getLast?_append]
    rfl
  rw [hparen] at hlast
  cases hlast
  revert hdigit
  decide

/-! ## One answer -/

theorem resolveFakedHardLink_eq_some {d : LinkDisk} {link final : CString}
    (h : resolveFakedHardLink l d link = some final) :
    ∃ intermediate, d.readlink link = some intermediate ∧ d.readlink intermediate = some final := by
  unfold resolveFakedHardLink at h
  split at h
  · cases h
  · rename_i intermediate hlink
    split at h
    · exact ⟨intermediate, hlink, h⟩
    · cases h

/-- **An answer** was checked: it leads to the name that the kernel reported. -/
theorem readlinkProcFd_eq_some {d : LinkDisk}
    {hostPath link : CString} (h : readlinkProcFd l d c pid fd hostPath = some link) :
    isL2sFile l hostPath = true ∧ c.recallFd pid fd = some link ∧
      resolveFakedHardLink l d link = some hostPath := by
  unfold readlinkProcFd at h
  split at h
  · cases h
  · rename_i hfile
    cases hrecall : c.recallFd pid fd with
    | none =>
        rw [hrecall] at h
        cases h
    | some link' =>
        rw [hrecall] at h
        simp only at h
        cases hresolve : resolveFakedHardLink l d link' with
        | none =>
            rw [hresolve] at h
            cases h
        | some final =>
            rw [hresolve] at h
            simp only at h
            split at h
            · rename_i hsame
              cases h
              exact ⟨by simpa using hfile, rfl, by rw [hresolve, hsame]⟩
            · cases h

theorem KernelReads.file_eq {d : LinkDisk} {file : Inode LinkKind} {report : CString}
    (h : KernelReads d file report) (hkind : ∀ target, file.kind ≠ .link target)
    (hl2s : isL2sFile l report = true) : d.file report = some file := by
  cases h with
  | named hnamed => exact hnamed
  | deleted path _ =>
      rw [isL2sFile_deleted] at hl2s
      cases hl2s
  | content hcontent => exact absurd hcontent (hkind _)

/-! ## Descriptors -/

/-- Does the event close this descriptor, or put another file in its place? -/
def FdEvent.Replaces (pid fd : Nat) : FdEvent → Prop
  | .openFile pid' fd' _ _ _ | .close pid' fd' | .duplicate _ _ pid' fd' => (pid', fd') = (pid, fd)
  | _ => False

/-- **One step** leaves the file of a descriptor as it is, unless it replaces the descriptor. -/
theorem step_descriptors {s' : FdState} {e : FdEvent}
    (h : s.step l e = some s') (hkeeps : ¬ e.Replaces pid fd) :
    s'.descriptors (pid, fd) = s.descriptors (pid, fd) := by
  cases e with
  | openFile pid' fd' skipped finalComponent hostPath =>
      have hne : (pid, fd) ≠ (pid', fd') := fun heq => hkeeps heq.symm
      simp only [FdState.step] at h
      split at h
      · cases h
        exact Function.update_of_ne hne ..
      · cases h
  | close pid' fd' =>
      have hne : (pid, fd) ≠ (pid', fd') := fun heq => hkeeps heq.symm
      cases h
      exact Function.update_of_ne hne ..
  | duplicate pid₀ fd₀ pid' fd' =>
      have hne : (pid, fd) ≠ (pid', fd') := fun heq => hkeeps heq.symm
      simp only [FdState.step] at h
      split at h
      · cases h
        exact Function.update_of_ne hne ..
      · cases h
  | link | unlink | rename | create | remove | move =>
      cases h
      rfl

/-- The file was opened, by this process or another one, in the run that led to this state. -/
def WasOpened (l : Linker) (s : FdState) (file : Inode LinkKind) : Prop :=
  ∃ (before after : FdState) (pid fd : Nat) (skipped : Bool) (finalComponent hostPath : CString),
    (fdSystem l).Reach Lib.System.Always before ∧
    before.step l (.openFile pid fd skipped finalComponent hostPath) = some after ∧
    before.disk.file (translatedPath l before.disk skipped finalComponent hostPath).1 = some file ∧
    (fdSystem l).Steps Lib.System.Always after s

theorem WasOpened.next {l : Linker} {s s' : FdState} {e : FdEvent} {file : Inode LinkKind}
    (h : WasOpened l s file) (hstep : s.step l e = some s') : WasOpened l s' file := by
  obtain ⟨before, after, pid, fd, skipped, component, path, hreach, hopen, hfile, hsteps⟩ := h
  exact ⟨before, after, pid, fd, skipped, component, path, hreach, hopen, hfile,
    .next hsteps trivial hstep⟩

theorem descriptors_opened (h : (fdSystem l).Reach Lib.System.Always s) :
    ∀ pid fd file, s.descriptors (pid, fd) = some file → WasOpened l s file := by
  induction h with
  | start hinit =>
      intro pid fd file hfile
      rw [hinit.1] at hfile
      cases hfile
  | @next s e s' hreach hok hstep ih =>
      intro pid fd file hfile
      have hstep' : s.step l e = some s' := hstep
      by_cases hreplaces : e.Replaces pid fd
      · cases e with
        | openFile pid' fd' skipped finalComponent hostPath =>
            have hsame : (pid', fd') = (pid, fd) := hreplaces
            simp only [fdSystem, FdState.step] at hstep
            split at hstep
            · rename_i file' hopened _
              cases hstep
              simp only [hsame, Function.update_self] at hfile
              cases hfile
              exact ⟨s, _, pid', fd', skipped, finalComponent, hostPath, hreach, hstep', hopened,
                .refl⟩
            · cases hstep
        | close pid' fd' =>
            have hsame : (pid', fd') = (pid, fd) := hreplaces
            cases hstep
            simp only [hsame, Function.update_self] at hfile
            cases hfile
        | duplicate pid₀ fd₀ pid' fd' =>
            have hsame : (pid', fd') = (pid, fd) := hreplaces
            simp only [fdSystem, FdState.step] at hstep
            split at hstep
            · rename_i file' hold
              cases hstep
              simp only [hsame, Function.update_self] at hfile
              cases hfile
              exact (ih _ _ _ hold).next hstep'
            · cases hstep
        | link | unlink | rename | create | remove | move => exact absurd hreplaces id
      · rw [step_descriptors hstep' hreplaces] at hfile
        exact (ih _ _ _ hfile).next hstep'

/-! ## Runs -/

/-- **A name that leads elsewhere is never given.** Whatever was opened, closed, duplicated, renamed
and counted before, a name that is given for a descriptor is a faked hard link, and it leads to the
very file that the descriptor was opened on. -/
theorem recalled_link_leads_to_file {l : Linker} {s : FdState} {pid fd : Nat}
    {file : Inode LinkKind} {report link : CString}
    (hreach : (fdSystem l).Reach Lib.System.Always s)
    (hfile : s.descriptors (pid, fd) = some file) (hkind : ∀ target, file.kind ≠ .link target)
    (hreport : KernelReads s.disk file report)
    (hanswer : readlinkProcFd l s.disk s.cache pid fd report = some link) :
    WasOpened l s file ∧
      ∃ intermediate final, s.disk.readlink link = some intermediate ∧
        s.disk.readlink intermediate = some final ∧ s.disk.file final = some file := by
  refine ⟨descriptors_opened hreach pid fd file hfile, ?_⟩
  obtain ⟨hl2s, -, hresolve⟩ := readlinkProcFd_eq_some hanswer
  obtain ⟨intermediate, hlink, hintermediate⟩ := resolveFakedHardLink_eq_some hresolve
  exact ⟨intermediate, report, hlink, hintermediate, hreport.file_eq hkind hl2s⟩

def plainLinker : Linker := ⟨false, none⟩

def oneFile : FdState where
  disk := Lib.Entries.empty.create "/f".toList .file
  descriptors _ := none
  cache := .empty

/-- A link is created, the file is opened, and a second link moves it: the name given is "/f". -/
def openThenLink : List FdEvent :=
  [.link (fun _ => none) "/f".toList "/g".toList,
    .openFile 1 3 false "/f".toList "/.l2s.f0001.0002".toList,
    .link (fun _ => none) "/g".toList "/h".toList]

theorem recalled_link_leads_to_file_moved :
    ∃ s, (fdSystem plainLinker).exec oneFile openThenLink = some s ∧
      readlinkProcFd plainLinker s.disk s.cache 1 3 "/.l2s.f0001.0003".toList =
        some "/f".toList ∧
      ∃ intermediate final, s.disk.readlink "/f".toList = some intermediate ∧
        s.disk.readlink intermediate = some final ∧ s.disk.file final = some ⟨0, .file⟩ := by
  have hrun : ((fdSystem plainLinker).exec oneFile openThenLink).any (fun s =>
      s.descriptors (1, 3) = some ⟨0, .file⟩ ∧
        s.disk.file "/.l2s.f0001.0003".toList = some ⟨0, .file⟩ ∧
        readlinkProcFd plainLinker s.disk s.cache 1 3 "/.l2s.f0001.0003".toList =
          some "/f".toList) = true := by
    decide +kernel
  obtain ⟨s, hexec, hs⟩ := (Option.any_eq_true _ _).mp hrun
  obtain ⟨hfile, hnamed, hanswer⟩ := of_decide_eq_true hs
  have hstart : (fdSystem plainLinker).Reach Lib.System.Always oneFile := .start ⟨rfl, rfl⟩
  have hreach := hstart.exec_of (fun _ _ _ => trivial) hexec
  refine ⟨s, hexec, hanswer, ?_⟩
  exact (recalled_link_leads_to_file hreach hfile (by simp) (.named hnamed) hanswer).2

/-! ## How long a name is kept -/

theorem recallFrom_eq {slots : List (Option FdEntry)}
    (hmem : some entry ∈ slots) (hof : FdEntry.isOf pid fd (some entry) = true)
    (hall : ∀ e, some e ∈ slots → FdEntry.isOf pid fd (some e) = true → e.link = entry.link)
    (fallback : Option CString) :
    FdCache.recallFrom pid fd fallback slots = some entry.link := by
  have hentry : entry.pid = pid ∧ entry.fd = fd := of_decide_eq_true hof
  induction slots generalizing fallback with
  | nil => cases hmem
  | cons slot slots ih =>
      have hall' (e : FdEntry) (he : some e ∈ slots) : FdEntry.isOf pid fd (some e) = true →
          e.link = entry.link := hall e (List.mem_cons_of_mem _ he)
      cases slot with
      | none =>
          cases List.mem_cons.mp hmem with
          | inl heq => cases heq
          | inr hrest => exact ih hrest hall' fallback
      | some e =>
          rw [FdCache.recallFrom]
          by_cases hfd : e.fd = fd
          · rw [if_neg (not_not_intro hfd)]
            by_cases hpid : e.pid = pid
            · rw [if_pos hpid, hall e List.mem_cons_self (decide_eq_true ⟨hpid, hfd⟩)]
            · rw [if_neg hpid]
              cases List.mem_cons.mp hmem with
              | inl heq =>
                  cases heq
                  exact absurd hentry.1 hpid
              | inr hrest => exact ih hrest hall' _
          · rw [if_pos hfd]
            cases List.mem_cons.mp hmem with
            | inl heq =>
                cases heq
                exact absurd hentry.2 hfd
            | inr hrest => exact ih hrest hall' fallback

theorem FdCache.recallFd_eq {slot : Nat} (hget : c.slots[slot]? = some (some entry)) :
    c.recallFd entry.pid entry.fd = some entry.link := by
  have hof : FdEntry.isOf entry.pid entry.fd (some entry) = true := decide_eq_true ⟨rfl, rfl⟩
  apply recallFrom_eq (List.mem_of_getElem? hget) hof
  intro e he hof'
  obtain ⟨j, hj⟩ := List.mem_iff_getElem?.mp he
  have hsame := c.unique _ _ slot j _ _ hget hj hof hof'
  subst hsame
  rw [hget] at hj
  cases hj
  rfl

/-- How many other names can be remembered before the one in a slot is overwritten. -/
def FdCache.left (c : FdCache) (slot : Nat) : Nat := (slot + fdCacheSize - c.index) % fdCacheSize

def FdCache.holds (c : FdCache) (pid fd : Nat) : Bool := c.slots.any (FdEntry.isOf pid fd)

/-- **A name that is remembered** takes the place of no entry but the oldest one, and of none if
the descriptor has an entry already. -/
theorem FdCache.rememberFd_keeps {slot n : Nat}
    (link : CString) (hget : c.slots[slot]? = some (some entry))
    (hother : FdEntry.isOf pid fd (some entry) = false)
    (hleft : (!c.holds pid fd).toNat + n ≤ c.left slot) :
    (c.rememberFd pid fd link).slots[slot]? = some (some entry) ∧
      n ≤ (c.rememberFd pid fd link).left slot := by
  have hslot : slot < fdCacheSize := c.sized ▸ (List.getElem?_eq_some_iff.mp hget).1
  have hinside := c.inside
  unfold FdCache.rememberFd
  split
  · rename_i reused hfound
    obtain ⟨hlt, hof, -⟩ := List.findIdx?_eq_some_iff_getElem.mp hfound
    have hne : reused ≠ slot := by
      rintro rfl
      rw [List.getElem?_eq_getElem hlt] at hget
      rw [Option.some.inj hget, hother] at hof
      cases hof
    exact ⟨by rw [List.getElem?_set_ne hne, hget], Nat.le_of_add_left_le hleft⟩
  · rename_i hnone
    have hnew : c.holds pid fd = false := by
      rw [FdCache.holds, ← List.findIdx?_isSome, hnone]
      rfl
    rw [hnew, Bool.not_false, Bool.toNat_true] at hleft
    have hne : c.index ≠ slot := by
      rintro rfl
      simp [FdCache.left] at hleft
    refine ⟨by rw [List.getElem?_set_ne hne, hget], ?_⟩
    simp only [FdCache.left, fdCacheSize] at *
    omega

/-- A descriptor without an entry gets the oldest one. -/
theorem FdCache.rememberFd_new (link : CString) (hnew : c.holds pid fd = false) :
    (c.rememberFd pid fd link).slots[c.index]? = some (some ⟨pid, fd, link⟩) ∧
      (c.rememberFd pid fd link).left c.index = fdCacheSize - 1 := by
  have hinside := c.inside
  rw [FdCache.holds, ← List.findIdx?_isSome] at hnew
  unfold FdCache.rememberFd
  split
  · rename_i slot hfound
    rw [hfound] at hnew
    cases hnew
  · refine ⟨List.getElem?_set_self (by rw [c.sized]; exact hinside), ?_⟩
    simp only [FdCache.left, fdCacheSize] at *
    omega

def FdEvent.opens : FdEvent → Option (Nat × Nat)
  | .openFile pid fd _ _ _ => some (pid, fd)
  | _ => none

/-- Does the event give an entry to a descriptor that had none? -/
def FdState.takesIn (l : Linker) (s : FdState) : FdEvent → Bool
  | .openFile pid fd skipped finalComponent hostPath =>
    (translatedPath l s.disk skipped finalComponent hostPath).2.isSome && !s.cache.holds pid fd
  | _ => false

/-- How many descriptors the cache takes in during a run. -/
def FdState.takenIn (l : Linker) : FdState → List FdEvent → Nat
  | _, [] => 0
  | s, e :: es =>
    (s.takesIn l e).toNat +
      match s.step l e with
      | none => 0
      | some s' => takenIn l s' es

theorem step_cache {s' : FdState} {e : FdEvent} (hstep : s.step l e = some s') :
    s'.cache = s.cache ∨ ∃ pid fd link, e.opens = some (pid, fd) ∧
      s'.cache = s.cache.rememberFd pid fd link ∧ s.takesIn l e = !s.cache.holds pid fd := by
  cases e with
  | openFile pid fd skipped finalComponent hostPath =>
      simp only [FdState.step] at hstep
      split at hstep
      · cases hstep
        cases hlink : (translatedPath l s.disk skipped finalComponent hostPath).2 with
        | none => exact .inl rfl
        | some link =>
            refine .inr ⟨pid, fd, link, rfl, rfl, ?_⟩
            rw [FdState.takesIn, hlink, Option.isSome_some, Bool.true_and]
      · cases hstep
  | duplicate =>
      simp only [FdState.step] at hstep
      split at hstep <;> cases hstep
      exact .inl rfl
  | close | link | unlink | rename | create | remove | move =>
      cases hstep
      exact .inl rfl

theorem exec_keeps {s' : FdState} {es : List FdEvent} {slot : Nat}
    (hget : s.cache.slots[slot]? = some (some entry))
    (hothers : ∀ e ∈ es, e.opens ≠ some (entry.pid, entry.fd))
    (hfew : s.takenIn l es ≤ s.cache.left slot)
    (hrun : (fdSystem l).exec s es = some s') : s'.cache.slots[slot]? = some (some entry) := by
  induction es generalizing s with
  | nil =>
      cases hrun
      exact hget
  | cons e es ih =>
      obtain ⟨t, hstep, hrun⟩ := Option.bind_eq_some_iff.mp hrun
      obtain ⟨hother, hothers⟩ := List.forall_mem_cons.mp hothers
      have hstep' : s.step l e = some t := hstep
      simp only [FdState.takenIn, hstep'] at hfew
      rcases step_cache hstep with hcache | ⟨pid, fd, link, hopens, hcache, htakes⟩
      · apply ih (hcache ▸ hget) hothers _ hrun
        rw [hcache]
        exact Nat.le_of_add_left_le hfew
      · have hof : FdEntry.isOf pid fd (some entry) = false := by
          apply decide_eq_false
          rintro ⟨rfl, rfl⟩
          exact hother hopens
        rw [htakes] at hfew
        obtain ⟨hkept, hleft⟩ := s.cache.rememberFd_keeps link hget hof hfew
        exact ih (hcache ▸ hkept) hothers (hcache ▸ hleft) hrun

end Improot.Extension
