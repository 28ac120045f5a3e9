import Improot.Lib.PivotTable
import Improot.Path.GuestTable
import Improot.Syscall.MountUndo

/-!
# What pivot_root(2) makes of a name-space

The loop of `emulate_pivot_root` gives each former binding its turn. In between, the guest list
stands for the table of a pivot with these turns, and in the end for its view: what was below the
new root moves with it, everything else stays where it is and is seen again below `put_old`.
-/

namespace Improot.Syscall

open Improot.Path
open Lib (PrefixTable Pivot)
open Lib.PrefixTable

variable {kept : Kept}

/-! ## Names -/

variable {names : List Component} {b : Binding}

theorem movesWith_iff {names' : List Component} (hb : b.guest = pathOf names') :
    movesWith (pathOf names) b = true ↔ names ≠ [] ∧ names <+: names' ∧ names' ≠ names := by
  simp only [movesWith, Bool.decide_and, Bool.and_eq_true, decide_eq_true_eq, hb]
  constructor
  · rintro ⟨-, -, htake, hnext⟩
    obtain ⟨hn, more, hm, rfl⟩ := below_of_next htake hnext
    exact ⟨hn, List.prefix_append _ _, by simpa using hm⟩
  · rintro ⟨hn, ⟨more, rfl⟩, hne⟩
    have hm : more ≠ [] := by simpa using hne
    have hpos := List.length_pos_of_ne_nil (pathOf_ne_nil names)
    obtain ⟨n, rest, rfl⟩ := List.exists_cons_of_ne_nil hm
    rw [pathOf_append hn hm, List.length_append, List.take_left, List.getElem?_append_right
      (Nat.le_refl _), Nat.sub_self, pathOf_cons]
    exact ⟨hpos, by rw [List.length_cons]; omega, rfl, rfl⟩

theorem sitsUnder_iff {names' : List Component} (hn : names ≠ [])
    (hb : b.guest = pathOf names') : sitsUnder (pathOf names) b = true ↔ names <+: names' := by
  simp only [sitsUnder, Bool.decide_and, Bool.and_eq_true, decide_eq_true_eq, hb]
  constructor
  · rintro ⟨htake, hend | hnext⟩
    · have hsame : pathOf names' = pathOf names := by
        rw [← htake, List.take_of_length_le]
        exact List.getElem?_eq_none_iff.mp hend
      rw [pathOf_injective hsame]
    · obtain ⟨-, more, -, rfl⟩ := below_of_next htake hnext
      exact List.prefix_append _ _
  · rintro ⟨more, rfl⟩
    by_cases hm : more = []
    · subst hm
      simp
    · obtain ⟨n, rest, rfl⟩ := List.exists_cons_of_ne_nil hm
      rw [pathOf_append hn hm, List.take_left, List.getElem?_append_right (Nat.le_refl _),
        Nat.sub_self, pathOf_cons]
      exact ⟨rfl, .inr rfl⟩

/-- **The place of the previous root**, as names: what follows the new root in `put_old`. -/
theorem putOldAfter_names {putOld after : CString} (hold : Canonical putOld)
    (h : putOldAfter (pathOf names) putOld = some after) :
    ∃ more, more ≠ [] ∧ putOld = pathOf (names ++ more) ∧ after = pathOf more := by
  obtain ⟨names', rfl⟩ := hold
  simp only [putOldAfter] at h
  split at h
  next hcond =>
    obtain ⟨-, htake, hnext, hhead, hlong⟩ := hcond
    rw [Option.some.injEq] at h
    subst h
    by_cases hn : names = []
    · subst hn
      have hafter : afterNewRoot (pathOf []) (pathOf names') = pathOf names' := if_pos rfl
      rw [hafter] at hlong ⊢
      refine ⟨names', ?_, rfl, rfl⟩
      rintro rfl
      exact absurd hlong (by decide)
    · have hne : pathOf names ≠ ['/'] := fun heq => hn (pathOf_eq_root.mp heq)
      obtain ⟨-, more, hm, rfl⟩ := below_of_next htake (hnext.resolve_right hne)
      refine ⟨more, hm, rfl, ?_⟩
      have hlen : (pathOf names).length ≠ 1 := fun hone => hn (pathOf_length_eq_one.mp hone)
      rw [afterNewRoot, if_neg hlen, pathOf_append hn hm, List.drop_left]
  next => cases h

/-! ## The loop -/

/-- The pivot of `emulate_pivot_root`. -/
def pivotOf (newRoot : List Component) (after : Option CString) (newRootHost oldRootHost : CString) :
    Pivot Component where
  newRoot := newRoot
  putOld := after.map namesOf
  root := namesOf newRootHost
  oldRoot := namesOf oldRootHost
  -- `aliased` has `PATH_MAX` bytes
  fits := fun names => (pathOf names).length < pathMax

/-- The bindings `t` stand for a pivot of `t₀` in which the bindings of `D` had their turn. -/
structure Turned (kept : Kept) (v : Pivot Component) (t₀ t : Bindings) (D : List (List Component)) :
    Prop where
  pivoted : Pivoted kept t₀ t
  table : tableOf t = v.after (tableOf t₀) D
  same : ∀ b ∈ t₀.guest, ∀ names, b.guest = pathOf names →
    (b ∈ t.guest ↔ ¬ v.Touched (tableOf t₀) D names ∧ ¬ (v.moves names ∧ names ∈ D))

theorem tableOf_remove_of_not_mem {t : Bindings} (h : ∀ x ∈ t.guest, x.node ≠ b.node) :
    (removeBindingFromAllLists t b).guest = t.guest := by
  rw [removeBindingFromAllLists_guest, List.filter_eq_self]
  intro x hx
  simpa using h x hx

section Turn

variable {v : Pivot Component} {t₀ t : Bindings} {D : List (List Component)} {b : Binding}
  {names host : List Component}

theorem names_ne (h₀ : t₀.Sorted) (hb : b ∈ t₀.guest) (hguest : b.guest = pathOf names) {b' : Binding}
    (hb' : b' ∈ t₀.guest) {names' : List Component} (hguest' : b'.guest = pathOf names') :
    b' = b ↔ names' = names := by
  constructor
  · rintro rfl
    exact pathOf_injective (hguest'.symm.trans hguest)
  · rintro rfl
    exact List.inj_on_of_nodup_map h₀.distinct hb' hb (hguest'.trans hguest.symm)

/-- A binding below the new root moves with it. -/
theorem Turned.moves (h₀ : t₀.Sorted) (h : Turned kept v t₀ t D) (hfree : v.Free (tableOf t₀))
    (hnew : v.newRoot ≠ []) (hn : names ≠ []) (hb : b ∈ t₀.guest)
    (hguest : b.guest = pathOf (v.newRoot ++ names)) (hhost : b.host = pathOf host)
    (hturn : v.newRoot ++ names ∉ D) :
    Turned kept v t₀ (removeBindingFromAllLists (insortBinding3 t b.host (pathOf names)) b)
      ((v.newRoot ++ names) :: D) := by
  have hsorted := h.pivoted.sorted
  have hcanon : Canonical b.host := ⟨host, hhost⟩
  have hentry : tableOf t₀ (v.newRoot ++ names) = some host :=
    (tableOf_eq_some h₀).mpr ⟨b, hb, hguest, hhost⟩
  have hself : v.newRoot ++ names ≠ names := fun heq => hnew (List.append_left_eq_self.mp heq)
  have hinsert := h.pivoted.insort3 hcanon ⟨names, rfl⟩
  have hroot : b.guest ≠ ['/'] := by
    rw [hguest, ne_eq, pathOf_eq_root]
    simp [hn]
  -- which of the former bindings are still there
  have hmem : ∀ b' ∈ t₀.guest, b' ∈ (insortBinding3 t b.host (pathOf names)).guest ↔
      b' ∈ t.guest ∧ b'.guest ≠ pathOf names := by
    intro b' hb'
    rw [hsorted.mem_insort3 hcanon ⟨names, rfl⟩, or_iff_right]
    rintro rfl
    have hlt := h₀.fresh _ hb'
    have hle := h.pivoted.next
    exact absurd hlt (Nat.not_lt.mpr hle)
  have hhere : b ∈ (insortBinding3 t b.host (pathOf names)).guest ↔
      ¬ v.Touched (tableOf t₀) D (v.newRoot ++ names) := by
    rw [hmem b hb, h.same b hb _ hguest, hguest]
    constructor
    · exact fun hboth => hboth.1.1
    · intro htouched
      exact ⟨⟨htouched, fun hboth => hturn hboth.2⟩, fun heq => hself (pathOf_injective heq)⟩
  refine ⟨hinsert.remove h₀ hb hroot, ?_, ?_⟩
  · rw [Lib.Pivot.after_cons_moves hfree hnew hn hentry, ← h.table, ← tableOf_insort3 hsorted,
      ← hhost]
    split_ifs with htouched
    · -- what has come to its place isn't removed with it
      have hgone : ∀ x ∈ (insortBinding3 t b.host (pathOf names)).guest, x.node ≠ b.node := by
        intro x hx hnode
        rcases hinsert.nodes x hx with hold | hlater
        · rw [h₀.node_injective hold hb hnode] at hx
          exact hhere.mp hx htouched
        · have hlt := h₀.fresh b hb
          omega
      unfold tableOf
      rw [tableOf_remove_of_not_mem hgone]
    · exact tableOf_remove hinsert.sorted (hhere.mpr htouched) hguest
  · intro b' hb' names' hguest'
    have hmoves := Lib.Pivot.moves_append hnew hn
    rw [removeBindingFromAllLists_guest, List.mem_filter, hmem b' hb', h.same b' hb' names' hguest',
      Lib.Pivot.touched_cons_moves hnew hn hentry, hguest', List.mem_cons, decide_eq_true_eq]
    have hnode : b'.node = b.node ↔ names' = v.newRoot ++ names := by
      rw [← names_ne h₀ hb hguest hb' hguest']
      constructor
      · exact fun heq => h₀.node_injective hb' hb heq
      · rintro rfl
        rfl
    have hpath : pathOf names' = pathOf names ↔ names' = names :=
      ⟨fun heq => pathOf_injective heq, congrArg pathOf⟩
    rw [ne_eq, ne_eq, hnode, hpath]
    by_cases heq : names' = v.newRoot ++ names
    · subst heq
      simp [hmoves]
    · simp only [heq, not_false_eq_true, and_true, false_or]
      tauto

theorem Turned.exposes (h₀ : t₀.Sorted) (h : Turned kept v t₀ t D) (hfree : v.Free (tableOf t₀))
    {a : List Component} (ha : v.putOld = some a) (hexposes : v.exposes a names) (hb : b ∈ t₀.guest)
    (hguest : b.guest = pathOf names) (hhost : b.host = pathOf host) :
    Turned kept v t₀ (insortBinding3 t b.host (pathOf (a ++ names))) (names :: D) := by
  have hsorted := h.pivoted.sorted
  have hcanon : Canonical b.host := ⟨host, hhost⟩
  have hentry : tableOf t₀ names = some host := (tableOf_eq_some h₀).mpr ⟨b, hb, hguest, hhost⟩
  refine ⟨h.pivoted.insort3 hcanon ⟨_, rfl⟩, ?_, ?_⟩
  · rw [Lib.Pivot.after_cons_exposes hfree ha hexposes hentry, ← h.table, ← tableOf_insort3 hsorted,
      ← hhost]
  · intro b' hb' names' hguest'
    have hold : b' ≠ newBindingOf t b.host (pathOf (a ++ names)) := by
      rintro rfl
      have hlt := h₀.fresh _ hb'
      have hle := h.pivoted.next
      exact absurd hlt (Nat.not_lt.mpr hle)
    have hpath : pathOf names' = pathOf (a ++ names) ↔ names' = a ++ names :=
      ⟨fun heq => pathOf_injective heq, congrArg pathOf⟩
    have hturn : (v.moves names' ∧ names' ∈ names :: D) ↔ v.moves names' ∧ names' ∈ D := by
      refine and_congr_right fun hmoves => ?_
      rw [List.mem_cons, or_iff_right]
      rintro rfl
      exact hexposes.2.1 hmoves
    rw [hsorted.mem_insort3 hcanon ⟨_, rfl⟩, or_iff_right hold, h.same b' hb' names' hguest',
      Lib.Pivot.touched_cons_exposes ha hexposes hentry, hguest', ne_eq, hpath, hturn]
    tauto

theorem Turned.stays (h : Turned kept v t₀ t D) (hmoves : ¬ v.moves names)
    (hexposes : ∀ a, v.putOld = some a → ¬ v.exposes a names) : Turned kept v t₀ t (names :: D) := by
  refine ⟨h.pivoted, ?_, ?_⟩
  · rw [Lib.Pivot.after_cons_stays hmoves hexposes, ← h.table]
  · intro b' hb' names' hguest'
    have hturn : (v.moves names' ∧ names' ∈ names :: D) ↔ v.moves names' ∧ names' ∈ D := by
      refine and_congr_right fun hm => ?_
      rw [List.mem_cons, or_iff_right]
      rintro rfl
      exact hmoves hm
    rw [h.same b' hb' names' hguest', Lib.Pivot.touched_cons_stays hmoves hexposes, hturn]

end Turn

section Loop

variable {t₀ t : Bindings} {newRoot : List Component} {after : Option CString}
  {newRootHost oldRootHost : CString} {root : Binding} {D : List (List Component)}

/-- **A turn of the loop**, for a binding that has had none yet. -/
theorem pivotBinding_turned (h₀ : t₀.Sorted) (hroot : root ∈ t₀.guest) (hslash : root.guest = ['/'])
    (hafter : ∀ a, after = some a → ∃ more, more ≠ [] ∧ a = pathOf more)
    (hfree : (pivotOf newRoot after newRootHost oldRootHost).Free (tableOf t₀))
    (h : Turned kept (pivotOf newRoot after newRootHost oldRootHost) t₀ t D)
    (hb : b ∈ t₀.guest) (hguest : b.guest = pathOf names) (hturn : names ∉ D) :
    Turned kept (pivotOf newRoot after newRootHost oldRootHost) t₀
      (pivotBinding (pathOf newRoot) after root t b) (names :: D) := by
  obtain ⟨host, hhost⟩ := (h₀.clean b hb).host
  unfold pivotBinding
  by_cases hskip : b.node = root.node ∨ b.guest = ['/']
  · -- the binding of "/"
    rw [if_pos hskip]
    obtain rfl : names = [] := by
      rw [← pathOf_eq_root, ← hguest]
      rcases hskip with hnode | heq
      · rw [h₀.node_injective hb hroot hnode, hslash]
      · exact heq
    refine h.stays ?_ fun a _ hexposes => hexposes.1 rfl
    rintro ⟨hne, hpre, -⟩
    exact hne (List.prefix_nil.mp hpre)
  rw [if_neg hskip]
  have hn : names ≠ [] := by
    rintro rfl
    exact hskip (.inr hguest)
  by_cases hmoves : movesWith (pathOf newRoot) b = true
  · rw [if_pos hmoves]
    obtain ⟨hnew, ⟨q, rfl⟩, hne⟩ := (movesWith_iff hguest).mp hmoves
    have hq : q ≠ [] := by simpa using hne
    have hdrop : b.guest.drop (pathOf newRoot).length = pathOf q := by
      rw [hguest, pathOf_append hnew hq, List.drop_left]
    rw [hdrop]
    exact h.moves h₀ hfree hnew hq hb hguest hhost hturn
  rw [if_neg hmoves]
  have hstill : ¬ (pivotOf newRoot after newRootHost oldRootHost).moves names :=
    fun hm => hmoves ((movesWith_iff hguest).mpr hm)
  cases after with
  | none => exact h.stays hstill nofun
  | some a =>
      obtain ⟨more, hmore, rfl⟩ := hafter a rfl
      have hput : (pivotOf newRoot (some (pathOf more)) newRootHost oldRootHost).putOld = some more := by
        show some (namesOf (pathOf more)) = some more
        rw [namesOf_pathOf]
      have hjoined : pathOf more ++ b.guest = pathOf (more ++ names) := by
        rw [hguest, pathOf_append hmore hn]
      dsimp only
      split_ifs with hsits hlong
      · refine h.stays hstill fun a' ha' hexposes => ?_
        rw [hput, Option.some.injEq] at ha'
        exact hexposes.2.2.1 (ha' ▸ (sitsUnder_iff hmore hguest).mp hsits)
      · refine h.stays hstill fun a' ha' hexposes => ?_
        rw [hput, Option.some.injEq] at ha'
        have hfits := of_decide_eq_true hexposes.2.2.2
        rw [← ha', ← hjoined] at hfits
        omega
      · rw [hjoined]
        refine h.exposes h₀ hfree hput ⟨hn, hstill, ?_, ?_⟩ hb hguest hhost
        · exact fun hpre => hsits ((sitsUnder_iff hmore hguest).mpr hpre)
        · refine decide_eq_true ?_
          rw [← hjoined]
          omega

theorem foldl_pivotBinding_turned (h₀ : t₀.Sorted) (hroot : root ∈ t₀.guest)
    (hslash : root.guest = ['/'])
    (hafter : ∀ a, after = some a → ∃ more, more ≠ [] ∧ a = pathOf more)
    (hfree : (pivotOf newRoot after newRootHost oldRootHost).Free (tableOf t₀))
    {snapshot : List Binding} (hsnapshot : ∀ b ∈ snapshot, b ∈ t₀.guest)
    (hnodup : (snapshot.map (·.guest)).Nodup)
    (hturns : ∀ b ∈ snapshot, ∀ names ∈ D, b.guest ≠ pathOf names)
    (h : Turned kept (pivotOf newRoot after newRootHost oldRootHost) t₀ t D) :
    ∃ D', (∀ names ∈ D, names ∈ D') ∧ (∀ b ∈ snapshot, ∃ names ∈ D', b.guest = pathOf names) ∧
      Turned kept (pivotOf newRoot after newRootHost oldRootHost) t₀
        (snapshot.foldl (pivotBinding (pathOf newRoot) after root) t) D' := by
  induction snapshot generalizing t D with
  | nil => exact ⟨D, fun _ => id, nofun, h⟩
  | cons b rest ih =>
      obtain ⟨hb, hrest⟩ := List.forall_mem_cons.mp hsnapshot
      obtain ⟨hturn, hturns⟩ := List.forall_mem_cons.mp hturns
      rw [List.map_cons, List.nodup_cons] at hnodup
      obtain ⟨names, hguest⟩ := (h₀.clean b hb).guest
      have hnew : names ∉ D := fun hin => hturn names hin hguest
      have hnext := pivotBinding_turned h₀ hroot hslash hafter hfree h hb hguest hnew
      obtain ⟨D', hsub, hall, hfinal⟩ := ih hrest hnodup.2 (by
        intro b' hb' names' hin heq
        rcases List.mem_cons.mp hin with rfl | hin
        · exact hnodup.1 (List.mem_map.mpr ⟨b', hb', heq.trans hguest.symm⟩)
        · exact hturns b' hb' names' hin heq) hnext
      refine ⟨D', fun x hx => hsub x (List.mem_cons_of_mem _ hx), ?_, hfinal⟩
      intro b' hb'
      rcases List.mem_cons.mp hb' with rfl | hb'
      · exact ⟨names, hsub names (List.mem_cons_self ..), hguest⟩
      · exact hall b' hb'

/-- The two roots are in place before the loop. -/
theorem switchRoots_turned (h₀ : t₀.Sorted) (hkept : kept.holds t₀) (hroot : root ∈ t₀.guest)
    (hslash : root.guest = ['/']) (hhost : Canonical newRootHost)
    (hafter : ∀ a, after = some a → ∃ more, more ≠ [] ∧ a = pathOf more) :
    Turned kept (pivotOf newRoot after newRootHost root.host) t₀
      (switchRoots newRootHost after root t₀) [] := by
  have hcanonRoot := (h₀.clean root hroot).host
  have hremoved := h₀.remove root
  have hslashed : Canonical ['/'] := ⟨[], rfl⟩
  obtain ⟨hostNames, rfl⟩ := hhost
  have hfirst : Pivoted kept t₀
      (insortBinding3 (removeBindingFromAllLists t₀ root) (pathOf hostNames) ['/']) := by
    obtain ⟨hsorted, hmem, hpaths, hnext⟩ := @Bindings.Sorted.insort3 _ hremoved (pathOf hostNames)
      ['/'] ⟨hostNames, rfl⟩ hslashed
    refine ⟨hsorted, (hpaths _).mpr (.inl rfl),
      kept.insort3 hremoved ⟨hostNames, rfl⟩ hslashed (kept.remove hkept), fun x hx => ?_, ?_⟩
    · rcases hmem x hx with ⟨hnode, -, -⟩ | hx
      · exact .inr (Nat.le_of_eq hnode.symm)
      · exact .inl (List.mem_of_mem_filter hx)
    · rw [hnext]
      exact Nat.le_succ _
  have htable : tableOf (insortBinding3 (removeBindingFromAllLists t₀ root) (pathOf hostNames) ['/']) =
      Function.update (tableOf t₀) [] (some hostNames) := by
    have hinsert := tableOf_insort3 hremoved hostNames []
    rw [@tableOf_remove _ h₀ _ [] hroot hslash, Function.update_idem] at hinsert
    exact hinsert
  -- a new binding isn't one of the snapshot
  have hfresh : ∀ b ∈ t₀.guest, ∀ (t : Bindings) (hostPath guestPath : CString),
      t₀.nextNode ≤ t.nextNode → b ≠ newBindingOf t hostPath guestPath := by
    rintro b hb t hostPath guestPath hle rfl
    exact absurd (h₀.fresh _ hb) (Nat.not_lt.mpr hle)
  have hmem : ∀ b ∈ t₀.guest,
      b ∈ (insortBinding3 (removeBindingFromAllLists t₀ root) (pathOf hostNames) ['/']).guest ↔
        b.guest ≠ ['/'] := by
    intro b hb
    rw [hremoved.mem_insort3 ⟨hostNames, rfl⟩ hslashed,
      or_iff_right (hfresh b hb (removeBindingFromAllLists t₀ root) _ _ (Nat.le_refl _)),
      h₀.mem_remove hroot, hslash]
    tauto
  unfold switchRoots
  cases after with
  | none =>
      refine ⟨hfirst, ?_, ?_⟩
      · rw [Lib.Pivot.after_nil, htable]
        show _ = Function.update (tableOf t₀) [] (some (namesOf (pathOf hostNames)))
        rw [namesOf_pathOf]
      · intro b hb names hguest
        have hpath : pathOf names = ['/'] ↔ names = [] := pathOf_eq_root
        rw [hmem b hb, hguest, ne_eq, hpath]
        simp [Lib.Pivot.Touched, Lib.Pivot.moved_nil, Lib.Pivot.exposed_nil, pivotOf]
  | some a =>
      obtain ⟨more, hmore, rfl⟩ := hafter a rfl
      obtain ⟨rootNames, hrootNames⟩ := hcanonRoot
      refine ⟨hfirst.insort3 ⟨rootNames, hrootNames⟩ ⟨more, rfl⟩, ?_, ?_⟩
      · have hinsert := tableOf_insort3 hfirst.sorted rootNames more
        rw [← hrootNames, htable, Function.update_comm (Ne.symm hmore)] at hinsert
        rw [Lib.Pivot.after_nil]
        show _ = Function.update (Function.update (tableOf t₀) (namesOf (pathOf more)) (some (namesOf root.host)))
          [] (some (namesOf (pathOf hostNames)))
        rw [hrootNames, namesOf_pathOf, namesOf_pathOf, namesOf_pathOf, ← hrootNames]
        exact hinsert
      · intro b hb names hguest
        have hpath : pathOf names = ['/'] ↔ names = [] := pathOf_eq_root
        have hpath' : pathOf names = pathOf more ↔ names = more :=
          ⟨fun heq => pathOf_injective heq, congrArg pathOf⟩
        dsimp only
        rw [hfirst.sorted.mem_insort3 ⟨rootNames, hrootNames⟩ ⟨more, rfl⟩,
          or_iff_right (hfresh b hb _ _ _ hfirst.next), hmem b hb, hguest, ne_eq, ne_eq, hpath, hpath']
        simp [Lib.Pivot.Touched, Lib.Pivot.moved_nil, Lib.Pivot.exposed_nil, pivotOf, namesOf_pathOf,
          eq_comm]

/-- A binding of the snapshot is still in the lists at its turn unless something took its place. -/
theorem Turned.allocated_iff (h₀ : t₀.Sorted)
    (h : Turned kept (pivotOf newRoot after newRootHost oldRootHost) t₀ t D)
    (hb : b ∈ t₀.guest) (hguest : b.guest = pathOf names) (hturn : names ∉ D) (held : Nat → Bool) :
    Allocated held t b ↔ held b.node = true ∨
      ¬ (pivotOf newRoot after newRootHost oldRootHost).Touched (tableOf t₀) D names := by
  have hlisted : b.node ∈ t.guest.map (·.node) ↔ b ∈ t.guest := by
    refine ⟨fun hnode => ?_, fun hin => List.mem_map_of_mem hin⟩
    obtain ⟨x, hx, hsame⟩ := List.mem_map.mp hnode
    rcases h.pivoted.nodes x hx with hold | hlater
    · rwa [← h₀.node_injective hold hb hsame]
    · have hlt := h₀.fresh b hb
      omega
  have hboth : b.node ∈ t.host.map (·.node) ↔ b.node ∈ t.guest.map (·.node) :=
    (h.pivoted.sorted.same.map (·.node)).mem_iff.symm
  rw [Allocated, hboth, or_self_iff, hlisted, h.same b hb names hguest]
  simp [hturn]

theorem Turned.pivotTurn_isSome_iff (h₀ : t₀.Sorted) (hroot : root ∈ t₀.guest)
    (hslash : root.guest = ['/'])
    (h : Turned kept (pivotOf newRoot after newRootHost oldRootHost) t₀ t D)
    (hb : b ∈ t₀.guest) (hguest : b.guest = pathOf names) (hturn : names ∉ D) (held : Nat → Bool) :
    (pivotTurn held (pathOf newRoot) after root t b).isSome ↔ (b.guest ≠ ['/'] →
      held b.node = true ∨
        ¬ (pivotOf newRoot after newRootHost oldRootHost).Touched (tableOf t₀) D names) := by
  have hsame : b.node = root.node ↔ b.guest = ['/'] := by
    refine ⟨fun hnode => by rw [h₀.node_injective hb hroot hnode, hslash], fun heq => ?_⟩
    rw [List.inj_on_of_nodup_map h₀.distinct hb hroot (heq.trans hslash.symm)]
  have hallocated := h.allocated_iff h₀ hb hguest hturn held
  unfold pivotTurn
  split_ifs with hgo
  · refine iff_of_true rfl fun hne => hallocated.mp (hgo.resolve_left fun hnode => ?_)
    exact hne (hsame.mp hnode)
  · rw [not_or] at hgo
    refine iff_of_false Bool.false_ne_true fun hall => hgo.2 (hallocated.mpr ?_)
    exact hall fun heq => hgo.1 (hsame.mpr heq)

/-- **Which snapshots are read safely**: where a binding is in the way of an earlier turn, something
beside the lists has to hold it. -/
theorem foldlM_pivotTurn_isSome_iff (held : Nat → Bool) (h₀ : t₀.Sorted) (hroot : root ∈ t₀.guest)
    (hslash : root.guest = ['/'])
    (hafter : ∀ a, after = some a → ∃ more, more ≠ [] ∧ a = pathOf more)
    (hfree : (pivotOf newRoot after newRootHost oldRootHost).Free (tableOf t₀))
    {snapshot : List Binding} (hsnapshot : ∀ b ∈ snapshot, b ∈ t₀.guest)
    (hnodup : (snapshot.map (·.guest)).Nodup)
    (hturns : ∀ b ∈ snapshot, ∀ names ∈ D, b.guest ≠ pathOf names)
    (h : Turned kept (pivotOf newRoot after newRootHost oldRootHost) t₀ t D) :
    (snapshot.foldlM (pivotTurn held (pathOf newRoot) after root) t).isSome ↔
      ∀ earlier b later, snapshot = earlier ++ b :: later → b.guest ≠ ['/'] →
        held b.node = true ∨ ¬ (pivotOf newRoot after newRootHost oldRootHost).Touched (tableOf t₀)
          ((earlier.map (namesOf ·.guest)).reverse ++ D) (namesOf b.guest) := by
  induction snapshot generalizing t D with
  | nil => simp [Pure.pure]
  | cons b rest ih =>
      obtain ⟨hb, hrest⟩ := List.forall_mem_cons.mp hsnapshot
      obtain ⟨hturn, hturns⟩ := List.forall_mem_cons.mp hturns
      rw [List.map_cons, List.nodup_cons] at hnodup
      obtain ⟨names, hguest⟩ := (h₀.clean b hb).guest
      have hnames : namesOf b.guest = names := by rw [hguest, namesOf_pathOf]
      have hnew : names ∉ D := fun hin => hturn names hin hguest
      have hnext := pivotBinding_turned h₀ hroot hslash hafter hfree h hb hguest hnew
      have hothers : ∀ b' ∈ rest, ∀ names' ∈ names :: D, b'.guest ≠ pathOf names' := by
        intro b' hb' names' hin heq
        rcases List.mem_cons.mp hin with rfl | hin
        · exact hnodup.1 (List.mem_map.mpr ⟨b', hb', heq.trans hguest.symm⟩)
        · exact hturns b' hb' names' hin heq
      have hturned := h.pivotTurn_isSome_iff h₀ hroot hslash hb hguest hnew held
      -- the first binding and the others
      have hsplit : (∀ earlier b' later, b :: rest = earlier ++ b' :: later → b'.guest ≠ ['/'] →
          held b'.node = true ∨ ¬ (pivotOf newRoot after newRootHost oldRootHost).Touched
            (tableOf t₀) ((earlier.map (namesOf ·.guest)).reverse ++ D) (namesOf b'.guest)) ↔
          (pivotTurn held (pathOf newRoot) after root t b).isSome ∧
            (rest.foldlM (pivotTurn held (pathOf newRoot) after root)
              (pivotBinding (pathOf newRoot) after root t b)).isSome := by
        rw [hturned, ih hrest hnodup.2 hothers hnext]
        constructor
        · intro hall
          refine ⟨fun hne => ?_, fun earlier b' later heq hne => ?_⟩
          · simpa [hnames] using hall [] b rest rfl hne
          · have hlater := hall (b :: earlier) b' later (by rw [heq, List.cons_append]) hne
            simpa [hnames, List.append_assoc] using hlater
        · rintro ⟨hfirst, hlater⟩ earlier b' later heq hne
          cases earlier with
          | nil =>
              rw [List.nil_append, List.cons.injEq] at heq
              obtain ⟨rfl, rfl⟩ := heq
              simpa [hnames] using hfirst hne
          | cons x earlier =>
              rw [List.cons_append, List.cons.injEq] at heq
              obtain ⟨rfl, heq⟩ := heq
              simpa [hnames, List.append_assoc] using hlater earlier b' later heq hne
      rw [hsplit, List.foldlM_cons]
      unfold pivotTurn
      split_ifs <;> simp

section Pivot

variable {putOld : CString}

theorem putOldAfter_pathOf (hold : putOldAfter (pathOf newRoot) putOld ≠ none → Canonical putOld) :
    ∀ a, putOldAfter (pathOf newRoot) putOld = some a → ∃ more, more ≠ [] ∧ a = pathOf more := by
  intro a ha
  obtain ⟨more, hmore, -, rfl⟩ := putOldAfter_names (hold (by simp [ha])) ha
  exact ⟨more, hmore, rfl⟩

/-- The loop reads no freed binding if every one that something comes to the place of before its turn
is held by more than the lists, and only then. -/
theorem pivotBindings_isSome_iff (held : Nat → Bool) (h₀ : t₀.Sorted) (hkept : kept.holds t₀)
    (hroot : root ∈ t₀.guest) (hslash : root.guest = ['/']) (hhost : Canonical newRootHost)
    (hold : putOldAfter (pathOf newRoot) putOld ≠ none → Canonical putOld)
    (hfree : (pivotOf newRoot (putOldAfter (pathOf newRoot) putOld) newRootHost root.host).Free
      (tableOf t₀)) :
    (pivotBindings held newRootHost (pathOf newRoot) putOld root t₀).isSome ↔
      ∀ earlier b later, t₀.guest = earlier ++ b :: later → b.guest ≠ ['/'] →
        held b.node = true ∨
          ¬ (pivotOf newRoot (putOldAfter (pathOf newRoot) putOld) newRootHost root.host).Touched
            (tableOf t₀) (earlier.map (namesOf ·.guest)).reverse (namesOf b.guest) := by
  have hafter := putOldAfter_pathOf hold
  have hstart := @switchRoots_turned kept _ newRoot _ _ _ h₀ hkept hroot hslash hhost hafter
  have hiff := foldlM_pivotTurn_isSome_iff held h₀ hroot hslash hafter hfree (fun _ => id)
    h₀.distinct (by simp) hstart
  simp only [List.append_nil] at hiff
  exact hiff

theorem tableOf_pivotBindings {held : Nat → Bool} (h₀ : t₀.Sorted) (hkept : kept.holds t₀)
    (hroot : root ∈ t₀.guest) (hslash : root.guest = ['/']) (hhost : Canonical newRootHost)
    (hold : putOldAfter (pathOf newRoot) putOld ≠ none → Canonical putOld)
    (hfree : (pivotOf newRoot (putOldAfter (pathOf newRoot) putOld) newRootHost root.host).Free
      (tableOf t₀)) (hpivot : pivotBindings held newRootHost (pathOf newRoot) putOld root t₀ = some t) :
    tableOf t = (pivotOf newRoot (putOldAfter (pathOf newRoot) putOld) newRootHost root.host).view
      (tableOf t₀) := by
  have hafter := putOldAfter_pathOf hold
  have hstart := @switchRoots_turned kept _ newRoot _ _ _ h₀ hkept hroot hslash hhost hafter
  have hnone : ∀ b ∈ t₀.guest, ∀ names ∈ ([] : List (List Component)), b.guest ≠ pathOf names := by
    simp
  obtain ⟨D, -, hall, hturned⟩ := foldl_pivotBinding_turned h₀ hroot hslash hafter hfree
    (fun _ => id) h₀.distinct hnone hstart
  rw [foldlM_pivotTurn hpivot]
  have hdone := hturned.table
  rw [Lib.Pivot.after_all] at hdone
  · exact hdone
  · intro names hne
    obtain ⟨host, hentry⟩ := Option.ne_none_iff_exists'.mp hne
    obtain ⟨b, hb, hguest, -⟩ := (tableOf_eq_some h₀).mp hentry
    obtain ⟨names', hin, hguest'⟩ := hall b hb
    rwa [pathOf_injective (hguest.symm.trans hguest')]

end Pivot

end Loop

/-! ## The system call -/

variable {w : World}

theorem emulatePivotRoot_tree (hw : w.Sound none kept) {held : Nat → Bool}
    {newRootUser putOldUser newRootHost newRoot putOld : CString}
    (hok : (emulatePivotRoot held newRootUser putOldUser w).1 = .ok ())
    (hhost : (translatePath .cwd newRootUser true w).1 = .ok newRootHost)
    (hnew : (guestCanonicalize newRootUser w).1 = .ok newRoot)
    (hold : (canonicalizePutOld newRoot putOldUser w).1 = .ok putOld) :
    ∃ root ∈ w.tracee.bindings.guest, root.guest = ['/'] ∧ root.host = getRoot w.tracee.bindings ∧
      pivotBindings held (chopFinality newRootHost) newRoot putOld root w.tracee.bindings =
        some (emulatePivotRoot held newRootUser putOldUser w).2.tracee.bindings := by
  have hrunHost := Still.eq_ok (translatePath_still hw.glueType .cwd newRootUser true) hhost
  have hrunNew := Still.eq_ok (guestCanonicalize_still hw.glueType newRootUser) hnew
  have hrunOld := Still.eq_ok (canonicalize_still hw.glueType putOldUser true _ 0) hold
  obtain ⟨root, ref, rev, more, hget, href, -, hnames, -⟩ :=
    getBinding_resolve hw.sorted hw.rooted [] .finalNormal
  have hmem : root ∈ w.tracee.bindings.guest := (getBinding_spec hw.wellFormed hget).1
  have hslash : root.guest = ['/'] := by
    rw [href, (List.append_eq_nil_iff.mp hnames.symm).1]
    rfl
  refine ⟨root, hmem, hslash, ?_, ?_⟩
  · obtain ⟨last, hlast, hlastGuest⟩ := hw.sorted.root_last hw.rooted
    have hsame : root = last := List.inj_on_of_nodup_map hw.sorted.distinct hmem
      (List.mem_of_getLast? hlast) (hslash.trans hlastGuest.symm)
    rw [getRoot, hlast, hsame]
  · have hroot : getBinding w.tracee.bindings .guest ['/'] = some root := hget
    simp only [emulatePivotRoot, bind, hrunHost, hrunNew, canonicalizePutOld, hrunOld, hroot] at hok ⊢
    split at hok
    · cases hok
    · rename_i t hpivot
      simp only [hpivot]

/-- What hides that `q` is resolved as `q'` was: a former binding that stays there. -/
def Hides (v : Pivot Component) (T : PrefixTable Component) (q q' : List Component) : Prop :=
  T q ≠ none ∧ ¬ v.moves q ∧ T q' = none

def dirNew : CString := ['/', 'n', 'e', 'w']

def dirNewOld : CString := ['/', 'n', 'e', 'w', '/', 'o', 'l', 'd']

/-- Only the lists hold the binding of "/", given at start-up; the mount belongs to the name-space. -/
def heldMount (node : Nat) : Bool := node ≠ 0

def pivotedWorld : World := (emulatePivotRoot heldMount dirNew dirNewOld mountedNameSpace.world).2

end Improot.Syscall
