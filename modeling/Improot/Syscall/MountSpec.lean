import Improot.Path.TranslateSpec
import Improot.Syscall.Mount

/-!
# Emulated mounts keep the tree sorted

Each of the operations on a running tracee keeps the invariant of the binding lists, as long as the
paths it chops, or doesn't chop, are canonical in the end.
-/

namespace Improot.Syscall

open Improot.Path

variable {glueType : Option FileType} {kept : Kept}

/-! ## Targets -/

/-- The canonical path of a target doesn't end with a dot of its own; and the target isn't empty
while glue would be built for it. -/
def ChopsWell (userPath : CString) (w : World) : Prop :=
  (userPath ≠ [] ∨ w.tracee.glueType = none) ∧
    (canonicalizeUser userPath).Yields w fun path _ => ¬ Mischopped path

theorem canonicalizeUser_sound {userPath : CString} (hempty : userPath ≠ [] ∨ glueType = none) :
    Comp.Spec (World.Sound glueType kept) (canonicalizeUser userPath) Ended := by
  refine Comp.Spec.bind .get fun w hw => ?_
  refine Comp.Spec.bind (Q := fun base => userPath.head? = some '/' ∨ Canonical base)
    (.lift fun base hbase => ?_) fun base hbase => canonicalize_sound true hbase hempty
  split_ifs at hbase with habs
  · exact .inl habs
  · unfold getcwd2 at hbase
    split_ifs at hbase
    cases hbase
    exact .inr hw.cwd

variable {w : World} {newRoot : CString} {t : Bindings}

theorem guestCanonicalize_after (hw : w.Sound glueType kept) {userPath : CString}
    (hchop : ChopsWell userPath w) :
    Comp.After (World.Sound glueType kept) (guestCanonicalize userPath) w
      fun path _ => Canonical path := by
  obtain ⟨hempty, hyields⟩ := hchop
  rw [hw.glueType] at hempty
  refine ((canonicalizeUser_sound hempty).after hw hyields).bind ?_
  rintro path w' hw' ⟨hended, hmis⟩
  exact .pure hw' (hended.chopFinality hmis)

theorem bindPaths_after (hw : w.Sound glueType kept) {hostPath guestPath : CString}
    (hhost : Canonical hostPath) (hguest : Canonical guestPath) :
    Comp.After (World.Sound glueType kept) (bindPaths hostPath guestPath) w fun _ _ => True :=
  ⟨hw.insort hhost hguest, fun _ _ _ => trivial⟩

/-! ## mount and umount -/

def TempPath (path : Option CString) : Prop := ∀ p, path = some p → Canonical p

theorem fstypePath_canonical {fstype path : CString} {tempDirectory : Option CString}
    (htemp : TempPath tempDirectory) (h : fstypePath fstype tempDirectory = some path) :
    Canonical path := by
  unfold fstypePath at h
  split_ifs at h
  all_goals first | exact htemp path h | (cases h; decide)

theorem mountSource_sound {srcUser fstype : CString} {flags : Nat}
    {tempDirectory : Option CString} (htemp : TempPath tempDirectory) :
    Comp.Spec (World.Sound glueType kept) (mountSource srcUser fstype flags tempDirectory)
      Ended := by
  unfold mountSource
  split_ifs
  · exact .fail _
  · exact translatePath_sound _ _ _
  · split
    · rename_i hpath
      exact .pure (fstypePath_canonical htemp hpath).ended
    · exact .fail _

def MountChopsWell (srcUser targetUser fstype : CString) (flags : Nat)
    (tempDirectory : Option CString) (w : World) : Prop :=
  (mountSource srcUser fstype flags tempDirectory).Yields w fun hostPath w' =>
    ¬ Mischopped hostPath ∧ ChopsWell targetUser w'

theorem emulateMount_after (hw : w.Sound glueType kept)
    {srcUser targetUser fstype : CString} {flags : Nat} {tempDirectory : Option CString}
    (htemp : TempPath tempDirectory)
    (hchop : MountChopsWell srcUser targetUser fstype flags tempDirectory w) :
    Comp.After (World.Sound glueType kept)
      (emulateMount srcUser targetUser fstype flags tempDirectory) w fun _ _ => True := by
  refine ((mountSource_sound htemp).after hw hchop).bind ?_
  rintro hostPath w₁ hw₁ ⟨hended, hmis, htarget⟩
  refine (guestCanonicalize_after hw₁ htarget).bind fun guestPath w₂ hw₂ hguest => ?_
  exact bindPaths_after hw₂ (hended.chopFinality hmis) hguest

/-- **umount(2)** keeps the tree sorted: it doesn't drop the binding of "/". -/
theorem emulateUmount_after (hw : w.Sound glueType kept) {targetUser : CString}
    (hchop : ChopsWell targetUser w) :
    Comp.After (World.Sound glueType kept) (emulateUmount targetUser) w fun _ _ => True := by
  refine (guestCanonicalize_after hw hchop).bind fun guestPath w' hw' hguest => ?_
  refine ⟨?_, fun _ _ _ => trivial⟩
  dsimp only
  split_ifs with hroot
  · exact hw'
  · split
    · exact hw'
    · rename_i b hget
      split_ifs with hne
      · exact hw'
      · refine hw'.remove fun x hx hnode => ?_
        have hmem : b ∈ w'.tracee.bindings.guest := (getBinding_spec hw'.wellFormed hget).1
        rw [hw'.sorted.node_injective hx hmem hnode, not_not.mp hne]
        exact hroot

/-! ## pivot_root -/

theorem below_of_next {names names' : List Component}
    (htake : (pathOf names').take (pathOf names).length = pathOf names)
    (hnext : (pathOf names')[(pathOf names).length]? = some '/') :
    names ≠ [] ∧ ∃ more, more ≠ [] ∧ names' = names ++ more := by
  obtain ⟨rest, hrest⟩ : ∃ rest, (pathOf names').drop (pathOf names).length = '/' :: rest := by
    rw [← List.head?_eq_some_iff, List.head?_drop]
    exact hnext
  have hsplit : pathOf names' = pathOf names ++ '/' :: rest := by
    rw [← hrest]
    conv_lhs => rw [← List.take_append_drop (pathOf names).length (pathOf names'), htake]
  have hn : names ≠ [] := by
    -- two separators cannot follow one another
    rintro rfl
    cases names' with
    | nil => simp at hsplit
    | cons n more =>
        rw [pathOf_cons, pathOf_nil, List.singleton_append, List.cons.injEq] at hsplit
        have hhead := n.head?_chars
        rw [← List.head?_append_of_ne_nil _ n.isName.1, hsplit.2] at hhead
        exact absurd rfl hhead
  have hin : Within (stem (pathOf names)) (stem (pathOf names')) := by
    have hne : names' ≠ [] := by
      rintro rfl
      have hlen := congrArg List.length hsplit
      have hpos := List.length_pos_of_ne_nil (pathOf_ne_nil names)
      simp only [pathOf_nil, List.length_append, List.length_cons, List.length_nil] at hlen
      omega
    rw [stem_pathOf hn, stem_pathOf hne, hsplit]
    exact within_iff.mpr ⟨_, rfl, .inr rfl⟩
  obtain ⟨more, rfl⟩ := within_pathOf.mp hin
  refine ⟨hn, more, ?_, rfl⟩
  rintro rfl
  simp at hsplit

theorem canonical_drop {path path' : CString} (hpath : Canonical path) (hpath' : Canonical path')
    (htake : path'.take path.length = path) (hnext : path'[path.length]? = some '/') :
    Canonical (path'.drop path.length) := by
  obtain ⟨names, rfl⟩ := hpath
  obtain ⟨names', rfl⟩ := hpath'
  obtain ⟨hn, more, hm, rfl⟩ := below_of_next htake hnext
  rw [pathOf_append hn hm, List.drop_left]
  exact ⟨more, rfl⟩

theorem canonical_append {path path' : CString} (hpath : Canonical path)
    (hpath' : Canonical path') (hne : path ≠ ['/']) (hne' : path' ≠ ['/']) :
    Canonical (path ++ path') := by
  obtain ⟨names, rfl⟩ := hpath
  obtain ⟨names', rfl⟩ := hpath'
  rw [ne_eq, pathOf_eq_root] at hne hne'
  rw [← pathOf_append hne hne']
  exact ⟨_, rfl⟩

theorem putOldAfter_canonical {putOld after : CString} (hnew : Canonical newRoot)
    (hold : Canonical putOld) (h : putOldAfter newRoot putOld = some after) :
    Canonical after ∧ after ≠ ['/'] := by
  simp only [putOldAfter] at h
  split at h
  · rename_i hcond
    obtain ⟨-, htake, hnext, -, hlong⟩ := hcond
    rw [Option.some.injEq] at h
    subst h
    refine ⟨?_, fun h => by simp [h] at hlong⟩
    unfold afterNewRoot
    split_ifs with hone
    · exact hold
    · refine canonical_drop hnew hold htake (hnext.resolve_right ?_)
      rintro rfl
      exact hone rfl
  · cases h

/-- What the loop of `emulate_pivot_root` keeps: the nodes are those of the snapshot `t₀`, or newer
ones. -/
structure Pivoted (kept : Kept) (t₀ t : Bindings) : Prop where
  sorted : t.Sorted
  rooted : t.Rooted
  kept : kept.holds t
  nodes : ∀ x ∈ t.guest, x ∈ t₀.guest ∨ t₀.nextNode ≤ x.node
  next : t₀.nextNode ≤ t.nextNode

theorem Pivoted.insort3 {t₀ t : Bindings} (h : Pivoted kept t₀ t) {hostPath guestPath : CString}
    (hhost : Canonical hostPath) (hguest : Canonical guestPath) :
    Pivoted kept t₀ (insortBinding3 t hostPath guestPath) := by
  obtain ⟨hsorted, hmem, hpaths, hnext⟩ := h.sorted.insort3 hhost hguest
  refine ⟨hsorted, (hpaths _).mpr (.inr h.rooted), kept.insort3 h.sorted hhost hguest h.kept,
    fun x hx => ?_, ?_⟩
  · rcases hmem x hx with ⟨hnode, -, -⟩ | hx
    · exact .inr (hnode ▸ h.next)
    · exact h.nodes x hx
  · rw [hnext]
    exact Nat.le_succ_of_le h.next

theorem Pivoted.remove {t₀ : Bindings} (h : Pivoted kept t₀ t) (h₀ : t₀.Sorted) {b : Binding}
    (hb : b ∈ t₀.guest) (hroot : b.guest ≠ ['/']) :
    Pivoted kept t₀ (removeBindingFromAllLists t b) := by
  refine ⟨h.sorted.remove b, ?_, kept.remove h.kept,
    fun x hx => h.nodes x (List.mem_of_mem_filter hx), h.next⟩
  obtain ⟨root, hmem, hguest⟩ := List.mem_map.mp h.rooted
  refine List.mem_map.mpr ⟨root, List.mem_filter.mpr ⟨hmem, ?_⟩, hguest⟩
  rw [decide_eq_true_eq]
  intro hnode
  rcases h.nodes root hmem with hold | hnew
  · rw [h₀.node_injective hold hb hnode] at hguest
    exact hroot hguest
  · have := h₀.fresh b hb
    omega

theorem pivotBinding_pivoted {t₀ : Bindings} (h : Pivoted kept t₀ t) (h₀ : t₀.Sorted)
    (hnew : Canonical newRoot) {after : Option CString}
    (hafter : ∀ a, after = some a → Canonical a ∧ a ≠ ['/']) (root : Binding) {b : Binding}
    (hb : b ∈ t₀.guest) : Pivoted kept t₀ (pivotBinding newRoot after root t b) := by
  obtain ⟨hhost, hguest⟩ := h₀.clean b hb
  unfold pivotBinding
  split_ifs with hskip hmoves
  · exact h
  · simp only [movesWith, Bool.decide_and, Bool.and_eq_true, decide_eq_true_eq] at hmoves
    have hcanon := canonical_drop hnew hguest hmoves.2.2.1 hmoves.2.2.2
    exact (h.insort3 hhost hcanon).remove h₀ hb fun h => hskip (.inr h)
  · split
    · exact h
    · rename_i a
      obtain ⟨hcanon, hne⟩ := hafter a rfl
      split_ifs
      · exact h
      · exact h
      · exact h.insort3 hhost (canonical_append hcanon hguest hne fun h => hskip (.inr h))

theorem foldl_pivotBinding_pivoted {t₀ : Bindings} (h₀ : t₀.Sorted)
    (hnew : Canonical newRoot) {after : Option CString}
    (hafter : ∀ a, after = some a → Canonical a ∧ a ≠ ['/']) (root : Binding)
    {snapshot : List Binding} (hsnapshot : ∀ b ∈ snapshot, b ∈ t₀.guest) (h : Pivoted kept t₀ t) :
    Pivoted kept t₀ (snapshot.foldl (pivotBinding newRoot after root) t) := by
  induction snapshot generalizing t with
  | nil => exact h
  | cons b snapshot ih =>
      obtain ⟨hb, hsnapshot⟩ := List.forall_mem_cons.mp hsnapshot
      exact ih hsnapshot (pivotBinding_pivoted h h₀ hnew hafter root hb)

/-- Where no freed binding is read, the snapshot may as well hold the bindings themselves. -/
theorem foldlM_pivotTurn {held : Nat → Bool} {after : Option CString}
    {root : Binding} {snapshot : List Binding} {t' : Bindings}
    (h : snapshot.foldlM (pivotTurn held newRoot after root) t = some t') :
    t' = snapshot.foldl (pivotBinding newRoot after root) t := by
  induction snapshot generalizing t with
  | nil => exact (Option.some.inj h).symm
  | cons b snapshot ih =>
      rw [List.foldlM_cons] at h
      obtain ⟨t₁, hturn, hrest⟩ := Option.bind_eq_some_iff.mp h
      unfold pivotTurn at hturn
      split_ifs at hturn
      cases hturn
      exact ih hrest

theorem pivotBindings_pivoted {held : Nat → Bool} {t' : Bindings} (h : t.Sorted)
    (hkept : kept.holds t) {newRootHost putOld : CString} (hhost : Canonical newRootHost)
    (hnew : Canonical newRoot) (hold : putOldAfter newRoot putOld ≠ none → Canonical putOld)
    {root : Binding} (hroot : root ∈ t.guest)
    (hpivot : pivotBindings held newRootHost newRoot putOld root t = some t') :
    Pivoted kept t t' := by
  have hafter : ∀ a, putOldAfter newRoot putOld = some a → Canonical a ∧ a ≠ ['/'] :=
    fun a ha => putOldAfter_canonical hnew (hold (by simp [ha])) ha
  have hremoved := h.remove root
  have hslash : Canonical ['/'] := ⟨[], rfl⟩
  obtain ⟨hsorted, hmem, hpaths, hnext⟩ := hremoved.insort3 hhost hslash
  have hfirst : Pivoted kept t
      (insortBinding3 (removeBindingFromAllLists t root) newRootHost ['/']) := by
    refine ⟨hsorted, (hpaths _).mpr (.inl rfl),
      kept.insort3 hremoved hhost ⟨[], rfl⟩ (kept.remove hkept), fun x hx => ?_, ?_⟩
    · rcases hmem x hx with ⟨hnode, -, -⟩ | hx
      · exact .inr (Nat.le_of_eq hnode.symm)
      · exact .inl (List.mem_of_mem_filter hx)
    · rw [hnext]
      exact Nat.le_succ _
  rw [foldlM_pivotTurn hpivot]
  refine foldl_pivotBinding_pivoted h hnew hafter root (fun _ => id) ?_
  unfold switchRoots
  split
  · rename_i a ha
    exact hfirst.insort3 (h.clean root hroot).host (hafter a ha).1
  · exact hfirst

/-- The new root chops well, and `put_old` needs no chopping where it is exposed. -/
def PivotChopsWell (newRootUser putOldUser : CString) (w : World) : Prop :=
  (translatePath .cwd newRootUser true).Yields w fun newRootHost w₁ =>
    ¬ Mischopped newRootHost ∧ ChopsWell newRootUser w₁ ∧
      (guestCanonicalize newRootUser).Yields w₁ fun newRoot w₂ =>
        (putOldUser ≠ [] ∨ w₂.tracee.glueType = none) ∧
          (canonicalizePutOld newRoot putOldUser).Yields w₂ fun putOld _ =>
            putOldAfter newRoot putOld ≠ none → Canonical putOld

theorem emulatePivotRoot_after (hw : w.Sound glueType kept) (held : Nat → Bool)
    {newRootUser putOldUser : CString} (hchop : PivotChopsWell newRootUser putOldUser w) :
    Comp.After (World.Sound glueType kept) (emulatePivotRoot held newRootUser putOldUser) w
      fun _ _ => True := by
  refine ((translatePath_sound _ _ _).after hw hchop).bind ?_
  rintro newRootHost w₁ hw₁ ⟨hended, hmis, htarget, hyields⟩
  have hguest := guestCanonicalize_after hw₁ htarget
  refine (hguest.and hyields).bind ?_
  rintro newRoot w₂ hw₂ ⟨hnew, hempty, hold⟩
  rw [hw₂.glueType] at hempty
  have hbase : putOldUser.head? = some '/' ∨
      Canonical (if putOldUser.head? = some '/' then ['/'] else newRoot) := by
    by_cases habs : putOldUser.head? = some '/'
    · exact .inl habs
    · rw [if_neg habs]
      exact .inr hnew
  refine ((canonicalize_sound true hbase hempty).after hw₂ hold).bind ?_
  rintro putOld w₃ hw₃ ⟨-, hputOld⟩
  refine ⟨?_, fun _ _ _ => trivial⟩
  dsimp only
  split
  · exact hw₃
  · rename_i root hget
    have hmem : root ∈ w₃.tracee.bindings.guest := (getBinding_spec hw₃.wellFormed hget).1
    split
    · exact hw₃
    · rename_i t hpivot
      have hpivoted := pivotBindings_pivoted hw₃.sorted hw₃.kept (hended.chopFinality hmis) hnew
        hputOld hmem hpivot
      exact { hw₃ with
        sorted := hpivoted.sorted
        rooted := hpivoted.rooted
        kept := hpivoted.kept }

/-! ## Temporary files -/

theorem procPidAuxv_eq (pid : Nat) :
    procPidAuxv pid = pathOf (procPidNames pid ++
      [⟨['a', 'u', 'x', 'v'], by decide, by decide, by decide⟩]) := by
  rw [pathOf_concat (procPidNames_ne_nil pid), pathOf_procPidNames]
  rfl

theorem procPidAuxv_canonical (pid : Nat) : Canonical (procPidAuxv pid) := ⟨_, procPidAuxv_eq pid⟩

theorem procPidAuxv_ne_root (pid : Nat) : procPidAuxv pid ≠ ['/'] := by
  rw [procPidAuxv_eq, ne_eq, pathOf_eq_root]
  exact List.append_ne_nil_of_right_ne_nil _ (List.cons_ne_nil _ _)

theorem removeBindingTo_sound (hw : w.Sound glueType kept) (pid : Nat) :
    World.Sound glueType kept { w with tracee := { w.tracee with
      bindings := removeBindingTo w.tracee.bindings (procPidAuxv pid) } } := by
  unfold removeBindingTo
  split
  · rename_i b hget
    split_ifs with hcmp
    · refine hw.remove fun x hx hnode => ?_
      have hmem : b ∈ w.tracee.bindings.guest := (getBinding_spec hw.wellFormed hget).1
      rw [hw.sorted.node_injective hx hmem hnode]
      have hguest := ((hw.sorted.clean b hmem).guest.tidy.comparePaths_eq_pathsAreEqual
        (procPidAuxv_canonical pid).tidy).mp hcmp
      rw [hguest]
      exact procPidAuxv_ne_root pid
    · exact hw
  · exact hw

theorem bindProcPidAuxv_after (hw : w.Sound glueType kept) {tempFile : Option CString}
    (htemp : TempPath tempFile) :
    Comp.After (World.Sound glueType kept) (bindProcPidAuxv tempFile) w fun _ _ => True := by
  refine ⟨?_, fun _ _ _ => trivial⟩
  have hremoved := removeBindingTo_sound hw w.tracee.pid
  unfold bindProcPidAuxv
  cases tempFile with
  | none => exact hremoved
  | some hostPath => exact hremoved.insort (htemp hostPath rfl) (procPidAuxv_canonical _)

/-- The host path of a socket has no ending when it is too long for `sun_path`. -/
def SocketChopsWell (userPath : CString) (w : World) : Prop :=
  (translatePath .cwd userPath true).Yields w fun hostPath _ =>
    hostPath.length > sizeofSunPath → Canonical hostPath

theorem translateSocketPath_after (hw : w.Sound glueType kept) {userPath : CString}
    {tempName : Option CString} (htemp : TempPath tempName) (hchop : SocketChopsWell userPath w) :
    Comp.After (World.Sound glueType kept) (translateSocketPath userPath tempName) w
      fun _ _ => True := by
  refine ((translatePath_sound _ _ _).after hw hchop).bind ?_
  rintro hostPath w' hw' ⟨-, hcanon⟩
  split_ifs with hlength
  · exact .pure hw' trivial
  · split
    · exact .fail hw'
    · rename_i shorter
      split_ifs
      · exact .fail hw'
      · refine ⟨?_, fun _ _ _ => trivial⟩
        rw [Comp.get_bind]
        cases hrun : detranslatePath w' hostPath none with
        | error e => exact hw'
        | ok r =>
            have hguest := detranslatePath_canonical hw'.sorted hw'.rooted (hcanon (by omega)) hrun
            have hbind := bindPaths_after hw' (htemp shorter rfl) hguest
            exact hbind.bind_world (fun _ h => h) fun _ _ h _ => h

end Improot.Syscall
