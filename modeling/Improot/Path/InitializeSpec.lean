import Improot.Path.CanonSpec
import Improot.Path.Initialize

/-!
# The initialization builds a sorted tree

The bindings of the command line are inserted one after the other, each after the canonicalization
of its guest path, which may insert glue of its own.  The nodes of the bindings to come stay unused
meanwhile.
-/

namespace Improot.Path

/-! ## Pending bindings -/

structure Binding.Waiting (b : Binding) : Prop where
  host : Canonical b.host
  absolute : b.guest.head? = some '/'

structure Bindings.Building (t : Bindings) : Prop where
  waiting : ∀ b ∈ t.pending, b.Waiting
  nodes : (t.pending.map (·.node)).Nodup
  allocated : ∀ b ∈ t.pending, b.node < t.nextNode
  guest : t.guest = []
  host : t.host = []

structure Launcher.Lawful (l : Launcher) : Prop where
  realpath : ∀ path result, l.realpath path = .ok result → Canonical result
  getcwd : ∀ cwd, l.getcwd = .ok cwd → Canonical cwd

theorem insertAt_perm (n : Nat) (b : Binding) (l : List Binding) :
    (insertAt n b l).Perm (b :: l) := by
  have hperm : (l.take n ++ b :: l.drop n).Perm (b :: (l.take n ++ l.drop n)) := List.perm_middle
  rwa [List.take_append_drop] at hperm

theorem insortBinding_pending (t : Bindings) (b : Binding) :
    ∃ l, l.Perm (b :: t.pending) ∧ (insortBinding t .pending b).pending.Sublist l ∧
      (insortBinding t .pending b).guest.Sublist t.guest ∧
      (insortBinding t .pending b).host.Sublist t.host := by
  simp only [insortBinding]
  split
  · rename_i i _
    refine ⟨_, insertAt_perm (i + 1) b t.pending, ?_⟩
    split
    · exact ⟨List.filter_sublist, List.filter_sublist, List.filter_sublist⟩
    · exact ⟨.refl _, .refl _, .refl _⟩
  · exact ⟨_, insertAt_perm _ b t.pending, .refl _, .refl _, .refl _⟩
  · exact ⟨_, .refl _, .refl _, .refl _, .refl _⟩

variable {b : Binding} {w : World}

theorem Bindings.Building.insort {t : Bindings} (h : t.Building) (hb : b.Waiting)
    (hnode : b.node = t.nextNode) :
    (insortBinding { t with nextNode := t.nextNode + 1 } .pending b).Building := by
  obtain ⟨l, hperm, hpending, hguest, hhost⟩ :=
    insortBinding_pending { t with nextNode := t.nextNode + 1 } b
  replace hguest := List.sublist_nil.mp (hguest.trans (List.sublist_nil.mpr h.guest))
  replace hhost := List.sublist_nil.mp (hhost.trans (List.sublist_nil.mpr h.host))
  have hmem : ∀ x ∈ (insortBinding { t with nextNode := t.nextNode + 1 } .pending b).pending,
      x = b ∨ x ∈ t.pending :=
    fun x hx => List.mem_cons.mp (hperm.mem_iff.mp (hpending.subset hx))
  refine ⟨fun x hx => ?_, ?_, fun x hx => ?_, hguest, hhost⟩
  · rcases hmem x hx with rfl | hx
    · exact hb
    · exact h.waiting x hx
  · refine .sublist (hpending.map _) ?_
    rw [(hperm.map _).nodup_iff, List.map_cons, List.nodup_cons]
    refine ⟨fun hused => ?_, h.nodes⟩
    obtain ⟨x, hx, heq⟩ := List.mem_map.mp hused
    exact absurd (h.allocated x hx) (by rw [heq, hnode]; exact Nat.lt_irrefl _)
  · rw [insortBinding_nextNode]
    rcases hmem x hx with rfl | hx
    · rw [hnode]
      exact Nat.lt_succ_self _
    · exact Nat.lt_succ_of_lt (h.allocated x hx)

theorem sanitizeGuest_absolute {l : Launcher} (hl : l.Lawful) {guest path : CString}
    (h : sanitizeGuest l guest = .ok path) : path.head? = some '/' := by
  rw [sanitizeGuest] at h
  by_cases habs : guest.head? = some '/'
  · rw [if_neg (not_not.mpr habs)] at h
    have hpath : path = joined ['/'] guest := joinPaths_ok h
    rw [hpath]
    exact joined_absolute rfl
  · rw [if_pos habs] at h
    cases hcwd : l.getcwd with
    | error e => simp [hcwd, bind, Except.bind] at h
    | ok cwd =>
        simp only [hcwd, bind, Except.bind] at h
        obtain ⟨names, rfl⟩ := hl.getcwd cwd hcwd
        rw [joinPaths_ok h]
        exact joined_absolute (pathOf_head? names)

/-- **`new_binding`** keeps the tree in order, unless it takes a path below "/proc/self" that isn't
canonical. -/
theorem newBinding_building {l : Launcher} (hl : l.Lawful) {t t' : Bindings} (h : t.Building)
    {host : CString} {guest : Option CString} (hself : isProcSelf host = true → Canonical host)
    (hrun : newBinding l t host guest = .ok t') : t'.Building := by
  unfold newBinding at hrun
  cases hhost : sanitizeHost l host with
  | error e => simp [hhost, bind, Except.bind] at hrun
  | ok hostPath =>
      cases hguest : sanitizeGuest l (guest.getD host) with
      | error e => simp [hhost, hguest, bind, Except.bind] at hrun
      | ok guestPath =>
          simp only [hhost, hguest, bind, Except.bind, Except.ok.injEq] at hrun
          rw [← hrun]
          refine h.insort ⟨?_, sanitizeGuest_absolute hl hguest⟩ rfl
          unfold sanitizeHost at hhost
          split_ifs at hhost with hproc hlong
          · cases hhost
            exact hself hproc
          · exact hl.realpath _ _ hhost

/-! ## The nodes of the bindings to come -/

def Kept.unused (nodes : List Nat) : Kept where
  holds t := ∀ n ∈ nodes, n ∉ t.guest.map (·.node) ∧ n < t.nextNode
  remove := by
    intro t b h n hn
    obtain ⟨hunused, hlt⟩ := h n hn
    exact ⟨fun hused => hunused ((List.filter_sublist.map Binding.node).subset hused), hlt⟩
  insort3 := by
    intro t hostPath guestPath hsorted hhost hguest h n hn
    obtain ⟨-, hmem, -, hnext⟩ := hsorted.insort3 hhost hguest
    obtain ⟨hunused, hlt⟩ := h n hn
    refine ⟨fun hused => ?_, by rw [hnext]; exact Nat.lt_succ_of_lt hlt⟩
    obtain ⟨x, hx, rfl⟩ := List.mem_map.mp hused
    rcases hmem x hx with ⟨hnode, -, -⟩ | hx
    · exact absurd hlt (by rw [hnode]; exact Nat.lt_irrefl _)
    · exact hunused (List.mem_map_of_mem hx)

/-- Some type is or isn't set for the glue, and these nodes are unused. -/
def World.Initialized (nodes : List Nat) (w : World) : Prop :=
  ∃ glueType, w.Sound glueType (.unused nodes)

theorem World.Initialized.sublist {nodes nodes' : List Nat}
    (h : w.Initialized nodes) (hsub : ∀ n ∈ nodes', n ∈ nodes) : w.Initialized nodes' := by
  obtain ⟨glueType, hw⟩ := h
  exact ⟨glueType, { hw with kept := fun n hn => hw.kept n (hsub n hn) }⟩

theorem World.Sound.setGlueType {glueType : Option FileType} {kept : Kept}
    (h : w.Sound glueType kept) (type : Option FileType) :
    (setGlueType type w).2.Sound type kept :=
  { h with glueType := rfl }

theorem insertBinding_initialized (hw : w.Regular) (hsorted : w.tracee.bindings.Sorted)
    {nodes : List Nat} (hb : b.Clean)
    (hunused : (Kept.unused (b.node :: nodes)).holds w.tracee.bindings) (hnew : b.node ∉ nodes)
    (hroot : b.guest = ['/'] ∨ w.tracee.bindings.Rooted) :
    (insertBinding b w).2.Initialized nodes := by
  obtain ⟨hnode, hlt⟩ := hunused b.node List.mem_cons_self
  obtain ⟨hsorted', hmem, hpaths, hnext⟩ := hsorted.insort ⟨hb, hnode, hlt⟩
  refine ⟨w.tracee.glueType, ⟨hw.cwd, hw.extensions, hw.glue, hw.temp, hw.links⟩, rfl, hsorted', ?_,
    fun n hn => ?_⟩
  · exact (hpaths _).mpr (hroot.imp_left Eq.symm)
  · obtain ⟨hunused', hlt'⟩ := hunused n (List.mem_cons_of_mem _ hn)
    refine ⟨fun hused => ?_, by rw [insertBinding]; exact hnext ▸ hlt'⟩
    obtain ⟨x, hx, rfl⟩ := List.mem_map.mp hused
    rcases hmem x hx with rfl | hx
    · exact hnew hn
    · exact hunused' (List.mem_map_of_mem hx)

/-! ## One binding -/

/-- The guest path, once it is canonicalized, doesn't end with a dot of its own. -/
def Binding.ChopsWell (w : World) (b : Binding) : Prop :=
  b.guest = ['/'] ∨ (canonicalizePending b).Yields w fun path _ => ¬ Mischopped path

theorem Binding.Waiting.userPath (h : b.Waiting) : b.userPath.head? = some '/' := by
  obtain ⟨rest, hrest⟩ := List.head?_eq_some_iff.mp h.absolute
  unfold Binding.userPath Binding.keepsLink
  split_ifs with hlast
  · rw [hrest] at hlast ⊢
    cases rest with
    | nil => simp at hlast
    | cons c rest => rfl
  · exact h.absolute

theorem Binding.Waiting.guest_eq_root (h : b.Waiting) :
    comparePaths b.guest ['/'] = .pathsAreEqual ↔ b.guest = ['/'] := by
  have hne : b.guest ≠ [] := by
    intro hnil
    have := h.absolute
    simp [hnil] at this
  rw [comparePaths_eq_pathsAreEqual hne (by simp)]
  constructor
  · intro hstem
    obtain ⟨rest, hrest⟩ := List.head?_eq_some_iff.mp h.absolute
    have hroot : stem b.guest = [] := hstem
    by_cases hlast : b.guest.getLast? = some '/'
    · rw [stem_append_slash hlast, hroot]
      rfl
    · rw [stem_eq_self hlast] at hroot
      exact absurd hroot hne
  · intro hroot
    rw [hroot]

/-- **A binding is initialized**: its node is used, the others that were unused still are. -/
theorem initializeBinding_initialized {nodes : List Nat}
    (hw : w.Initialized (b.node :: nodes)) (hb : b.Waiting) (hnew : b.node ∉ nodes)
    (hchop : b.ChopsWell w) : (initializeBinding b w).2.Initialized nodes := by
  obtain ⟨glueType, hw⟩ := hw
  unfold initializeBinding
  by_cases hcmp : comparePaths b.guest ['/'] = .pathsAreEqual
  · rw [if_neg (not_not.mpr hcmp)]
    have hroot := hb.guest_eq_root.mp hcmp
    exact insertBinding_initialized hw.toRegular hw.sorted ⟨hb.host, hroot ▸ ⟨[], rfl⟩⟩ hw.kept hnew
      (.inl hroot)
  · rw [if_pos hcmp]
    have hchop := hchop.resolve_left fun h => hcmp (hb.guest_eq_root.mpr h)
    have hne : b.userPath ≠ [] := by
      intro hnil
      have := hb.userPath
      simp [hnil] at this
    have hsound : Comp.Spec
        (World.Sound (some (glueTypeOf (w.host.lstat b.host))) (.unused (b.node :: nodes)))
        (canonicalize b.userPath (if w.host.lstat b.host = .ok .dir then false else !b.keepsLink)
          ['/'] 0) Ended :=
      canonicalize_sound _ (.inl hb.userPath) (.inl hne)
    have hcanon := hsound.after (hw.setGlueType _) hchop
    refine Comp.After.bind_world (x := canonicalizePending b) (w := w) hcanon ?_ ?_
    · intro w' hw'
      exact World.Initialized.sublist ⟨_, hw'⟩ fun n hn => List.mem_cons_of_mem _ hn
    · rintro path w' hw' ⟨hended, hmis⟩
      have hw' := hw'.setGlueType none
      exact insertBinding_initialized hw'.toRegular hw'.sorted ⟨hb.host, hended.chopFinality hmis⟩
        hw'.kept hnew (.inr hw'.rooted)

/-! ## All bindings -/

@[simp] theorem Comp.attempt_world (x : Comp Unit) (w : World) : (Comp.attempt x w).2 = (x w).2 := by
  unfold Comp.attempt
  split
  · rename_i h
    rw [h]
  · rfl

def ChopWell (w : World) (bs : List Binding) : Prop :=
  ∀ pre b post, bs = pre ++ b :: post → b.ChopsWell (initializeEach pre w).2

theorem initializeEach_cons (b : Binding) (bs : List Binding) (w : World) :
    initializeEach (b :: bs) w =
      match Comp.attempt (initializeBinding b) w with
      | (.ok _, w') => initializeEach bs w'
      | (.error e, w') => (.error e, w') := by
  rw [initializeEach, Comp.bind_run]
  rcases Comp.attempt (initializeBinding b) w with ⟨_ | _, _⟩ <;> rfl

theorem ChopWell.nil (w : World) : ChopWell w [] := by
  intro pre b post h
  cases pre <;> cases h

theorem ChopWell.cons {w w' : World} {b : Binding} {bs : List Binding} (hb : b.ChopsWell w)
    (hrun : Comp.attempt (initializeBinding b) w = (.ok (), w')) (hbs : ChopWell w' bs) :
    ChopWell w (b :: bs) := by
  intro pre b' post hsplit
  cases pre with
  | nil =>
      cases hsplit
      exact hb
  | cons c pre =>
      cases hsplit
      rw [initializeEach_cons, hrun]
      exact hbs pre b' post rfl

theorem ChopWell.tail {w' : World} {bs : List Binding} (h : ChopWell w (b :: bs))
    (hrun : Comp.attempt (initializeBinding b) w = (.ok (), w')) : ChopWell w' bs := by
  intro pre b' post hsplit
  have := h (b :: pre) b' post (by rw [hsplit, List.cons_append])
  rwa [initializeEach_cons, hrun] at this

theorem initializeEach_initialized {bs : List Binding}
    (hw : w.Initialized (bs.map (·.node))) (hbs : ∀ b ∈ bs, b.Waiting)
    (hnodes : (bs.map (·.node)).Nodup) (hchop : ChopWell w bs) :
    (initializeEach bs w).2.Initialized [] := by
  induction bs generalizing w with
  | nil => exact hw
  | cons b bs ih =>
      obtain ⟨hb, hbs⟩ := List.forall_mem_cons.mp hbs
      obtain ⟨hnew, hnodes⟩ := List.nodup_cons.mp hnodes
      have hstep := initializeBinding_initialized hw hb hnew (hchop [] b bs rfl)
      rw [← Comp.attempt_world] at hstep
      rw [initializeEach_cons]
      match hrun : Comp.attempt (initializeBinding b) w with
      | (.ok (), w') =>
          rw [hrun] at hstep
          exact ih hstep hbs hnodes (hchop.tail hrun)
      | (.error e, w') =>
          rw [hrun] at hstep
          exact hstep.sublist (by simp)

theorem Bindings.Building.sorted {t : Bindings} (h : t.Building) : t.Sorted := by
  obtain ⟨-, -, -, hguest, hhost⟩ := h
  refine ⟨?_, ?_, ?_, ?_, ?_, ?_, ?_, ?_⟩ <;>
    simp [hguest, hhost, Lib.DeepestFirst.nil]

/-- **The bindings are initialized**, one by one. -/
theorem initializeBindings_initialized {w' : World} (hw : w.Regular)
    (hbuilding : w.tracee.bindings.Building)
    (hchop : ChopWell w w.tracee.bindings.pending.reverse)
    (hrun : initializeBindings w = (.ok (), w')) : w'.Initialized [] := by
  unfold initializeBindings at hrun
  rw [Comp.get_bind] at hrun
  split at hrun
  · rename_i hcond
    rw [Comp.bind_eq_ok] at hrun
    obtain ⟨⟨⟩, v, hv, hfree⟩ := hrun
    obtain rfl : _ = w' := congrArg Prod.snd hfree
    suffices v.Initialized [] by
      obtain ⟨glueType, hv⟩ := this
      exact ⟨glueType, { hv with
        sorted := { hv.sorted with }
        rooted := hv.rooted
        kept := hv.kept }⟩
    -- the last binding is the one of "/"
    have hroot := hcond.1
    unfold Bindings.pendingRoot at hroot
    cases hlast : w.tracee.bindings.pending.getLast? with
    | none => simp [hlast] at hroot
    | some root =>
        simp only [hlast, decide_eq_true_eq] at hroot
        obtain ⟨init, hpending⟩ := List.getLast?_eq_some_iff.mp hlast
        rw [hpending, List.reverse_concat] at hv hchop
        have hrootWaiting := hbuilding.waiting root (List.mem_of_getLast? hlast)
        have hguest := hrootWaiting.guest_eq_root.mp hroot
        have hnodes : ((root :: init.reverse).map (·.node)).Nodup := by
          have hperm : (root :: init.reverse).Perm w.tracee.bindings.pending := by
            rw [hpending, ← List.reverse_concat]
            exact List.reverse_perm _
          rw [(hperm.map _).nodup_iff]
          exact hbuilding.nodes
        obtain ⟨hnew, hnodes⟩ := List.nodup_cons.mp hnodes
        have hunused : (Kept.unused (root.node :: init.reverse.map (·.node))).holds
            w.tracee.bindings := by
          intro n hn
          refine ⟨by simp [hbuilding.guest], ?_⟩
          obtain ⟨b, hb, rfl⟩ : ∃ b ∈ w.tracee.bindings.pending, b.node = n := by
            simpa [hpending, or_comm, or_and_right, exists_or, eq_comm] using hn
          exact hbuilding.allocated b hb
        have hfirst : (initializeBinding root w).2.Initialized (init.reverse.map (·.node)) := by
          unfold initializeBinding
          rw [if_neg (not_not.mpr hroot)]
          exact insertBinding_initialized hw hbuilding.sorted
            ⟨hrootWaiting.host, hguest ▸ ⟨[], rfl⟩⟩ hunused hnew (.inl hguest)
        rw [← Comp.attempt_world] at hfirst
        rw [initializeEach_cons] at hv
        match hrun : Comp.attempt (initializeBinding root) w with
        | (.error e, v') => simp [hrun] at hv
        | (.ok (), v') =>
            rw [hrun] at hv hfirst
            have hall := initializeEach_initialized hfirst (fun b hb => ?_) hnodes (hchop.tail hrun)
            · dsimp only at hv
              rwa [hv] at hall
            · exact hbuilding.waiting b (by simp [hpending, List.mem_reverse.mp hb])
  · cases hrun

end Improot.Path
