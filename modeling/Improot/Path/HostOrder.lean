import Improot.Path.GuestTable
import Improot.Path.SameTree

/-!
# The order of the host list

In the host list, bindings of one host path come in the order of their insertion. Trees with the
same pairs of paths translate every guest path alike, but a host path is brought back by the first
of its bindings: two such trees agree on it when they agree on which one is the first.
-/

namespace Improot.Path

open Lib (DeepestFirst)

/-! ## One insertion -/

variable {t : Bindings} {b : Binding} {path : CString}

theorem insortBinding_host (hb : b.Clean) (hclean : ∀ x ∈ t.host, x.Clean) :
    ∃ pre post, t.host = pre ++ post ∧ (insortBinding t .host b).host = pre ++ b :: post ∧
      ∀ y ∈ post, y.host ≠ b.host := by
  have hafter : ∀ y, y.Clean → ¬ b.precededBy .host y → y.host ≠ b.host :=
    fun y hy hnot heq => hnot ((hb.precededBy_iff hy .host).mpr (.inr ⟨rfl, heq.symm⟩))
  have hscan := insortScan_spec .host b (t.list .host) 0 none
  generalize hpoint : insortScan .host b 0 none (t.list .host) = point at hscan
  cases hscan with
  | replace _ hs _ => exact absurd rfl hs
  | @after pre it post hl _ hpost _ =>
      have hlist : t.host = pre ++ it :: post := hl
      refine ⟨pre ++ [it], post, by simp [hlist], ?_, fun y hy => ?_⟩
      · simp only [insortBinding, hpoint]
        show insertAt (0 + pre.length + 1) b t.host = _
        rw [hlist, insertAt_succ]
        simp
      · exact hafter y (hclean y (by simp [hlist, hy])) (hpost y hy)
  | nowhere hpost _ =>
      refine ⟨[], t.host, rfl, ?_, fun y hy => hafter y (hclean y hy) (hpost y hy)⟩
      simp only [insortBinding, hpoint]
      rfl

/-- **The host list** gets a new binding after all those with the same host path. -/
theorem Bindings.Sorted.insort3_host (h : t.Sorted) {hostPath guestPath : CString}
    (hhost : Canonical hostPath) (hguest : Canonical guestPath)
    (hfresh : ∀ b ∈ t.guest, b.guest ≠ guestPath) :
    ∃ pre post, t.host = pre ++ post ∧
      (insortBinding3 t hostPath guestPath).host = pre ++ newBindingOf t hostPath guestPath :: post ∧
      ∀ y ∈ post, y.host ≠ hostPath := by
  have hb : (newBindingOf t hostPath guestPath).Clean := ⟨hhost, hguest⟩
  let t₁ : Bindings := { t with nextNode := t.nextNode + 1 }
  -- the guest list has nothing to replace, so that the host list stays as it is
  have hcases := @insortBinding_cases t₁ .guest _ hb h.clean h.guestOrder
  obtain ⟨l', heq, -, -⟩ := hcases.resolve_left (by
    rintro ⟨pre, it, post, -, hl, hit, -⟩
    exact hfresh it (by rw [show t.guest = _ from hl]; simp) hit)
  have hsame : (insortBinding t₁ .guest (newBindingOf t hostPath guestPath)).host = t.host := by
    rw [heq]
    rfl
  have hclean : ∀ x ∈ (insortBinding t₁ .guest (newBindingOf t hostPath guestPath)).host,
      x.Clean := by
    rw [hsame]
    exact fun x hx => h.clean x (h.same.mem_iff.mpr hx)
  obtain ⟨pre, post, hlist, hinserted, hpost⟩ := insortBinding_host hb hclean
  exact ⟨pre, post, hsame.symm.trans hlist, hinserted, hpost⟩

/-! ## Many insertions -/

def Binding.paths (b : Binding) : CString × CString := (b.host, b.guest)

def ofHost (l : List Binding) (hostPath : CString) : List (CString × CString) :=
  (l.filter (·.host = hostPath)).map Binding.paths

/-- Bindings with guest paths of their own are inserted, in any order. -/
theorem foldl_insort3 {bs : List Binding} (h : t.Sorted) (hclean : ∀ b ∈ bs, b.Clean)
    (hdistinct : (bs.map (·.guest)).Nodup) (hfresh : ∀ b ∈ bs, ∀ x ∈ t.guest, x.guest ≠ b.guest) :
    (bs.foldl (fun t b => insortBinding3 t b.host b.guest) t).Sorted ∧
      (∀ paths, paths ∈ (bs.foldl (fun t b => insortBinding3 t b.host b.guest) t).guest.map
          Binding.paths ↔ paths ∈ t.guest.map Binding.paths ∨ paths ∈ bs.map Binding.paths) ∧
      ∀ hostPath, ofHost (bs.foldl (fun t b => insortBinding3 t b.host b.guest) t).host hostPath =
        ofHost t.host hostPath ++ ofHost bs hostPath := by
  induction bs generalizing t with
  | nil => exact ⟨h, by simp, by simp [ofHost]⟩
  | cons b bs ih =>
      obtain ⟨hb, hclean⟩ := List.forall_mem_cons.mp hclean
      obtain ⟨hbFresh, hfresh⟩ := List.forall_mem_cons.mp hfresh
      rw [List.map_cons, List.nodup_cons] at hdistinct
      obtain ⟨hbNew, hdistinct⟩ := hdistinct
      have hsorted := (h.insort3 hb.host hb.guest).1
      have hmem := fun x => @Bindings.Sorted.mem_insort3 t h _ _ hb.host hb.guest x
      have hfresh' : ∀ c ∈ bs, ∀ x ∈ (insortBinding3 t b.host b.guest).guest, x.guest ≠ c.guest := by
        intro c hc x hx
        rcases (hmem x).mp hx with rfl | ⟨hx, -⟩
        · exact fun heq => hbNew (List.mem_map.mpr ⟨c, hc, heq.symm⟩)
        · exact hfresh c hc x hx
      obtain ⟨hresult, hpaths, hhosts⟩ := ih hsorted hclean hdistinct hfresh'
      refine ⟨hresult, fun paths => ?_, fun hostPath => ?_⟩
      · rw [List.foldl_cons, hpaths, List.map_cons, List.mem_cons]
        have hstep : paths ∈ (insortBinding3 t b.host b.guest).guest.map Binding.paths ↔
            paths = b.paths ∨ paths ∈ t.guest.map Binding.paths := by
          simp only [List.mem_map, hmem]
          constructor
          · rintro ⟨x, rfl | ⟨hx, -⟩, rfl⟩
            · exact .inl rfl
            · exact .inr ⟨x, hx, rfl⟩
          · rintro (rfl | ⟨x, hx, rfl⟩)
            · exact ⟨_, .inl rfl, rfl⟩
            · exact ⟨x, .inr ⟨hx, hbFresh x hx⟩, rfl⟩
        rw [hstep]
        tauto
      · obtain ⟨pre, post, hlist, hinserted, hpost⟩ := h.insort3_host hb.host hb.guest hbFresh
        rw [List.foldl_cons, hhosts]
        have hstep : ofHost (insortBinding3 t b.host b.guest).host hostPath =
            ofHost t.host hostPath ++ ofHost [b] hostPath := by
          rw [hinserted, hlist]
          unfold ofHost
          by_cases heq : b.host = hostPath
          · subst heq
            have hnone : post.filter (·.host = b.host) = [] := by
              rw [List.filter_eq_nil_iff]
              exact fun y hy => by simpa using hpost y hy
            simp [List.filter_append, hnone, newBindingOf, Binding.flagged, Binding.paths]
          · simp [List.filter_append, heq, newBindingOf, Binding.flagged]
        have hcons : ofHost (b :: bs) hostPath = ofHost [b] hostPath ++ ofHost bs hostPath := by
          unfold ofHost
          rw [← List.map_append, ← List.filter_append, List.singleton_append]
        rw [hstep, hcons, List.append_assoc]

/-! ## The deepest binding, from both sides -/

section Deepest

variable {t t' : Bindings} {side : Side} {path : CString} {b : Binding}

theorem getBinding_eq_find (hs : side ≠ .pending) (t : Bindings) (path : CString) :
    getBinding t side path = (t.list side).find? (covers t side path) := by
  cases side with
  | guest | host => rfl
  | pending => exact absurd rfl hs

/-- The paths under the rootfs are not looked up from the host's point of view. -/
def Hidden (t : Bindings) (side : Side) (path : CString) : Prop :=
  side = .host ∧ comparePaths (getRoot t) ['/'] ≠ .pathsAreEqual ∧ belongsToGuestfs t path = true

theorem covers_iff (hb : (b.path side) ≠ []) (hpath : path ≠ []) :
    covers t side path b = true ↔ Within (stem (b.path side)) (stem path) ∧ ¬ Hidden t side path := by
  rw [← comparePaths_within hb hpath]
  simp only [covers, Hidden, decide_eq_true_eq]

theorem mem_list_iff (h : t.Sorted) (hs : side ≠ .pending) : b ∈ t.list side ↔ b ∈ t.guest := by
  cases side with
  | guest => rfl
  | host => exact h.same.mem_iff.symm
  | pending => exact absurd rfl hs

theorem getBinding_some (h : t.Sorted) (hroot : t.Rooted) (hs : side ≠ .pending)
    (hget : getBinding t side path = some b) :
    b ∈ t.guest ∧ path ≠ [] ∧ ¬ Hidden t side path ∧ Within (stem (b.path side)) (stem path) ∧
      ∀ c ∈ t.guest, Within (stem (c.path side)) (stem path) →
        Within (stem (c.path side)) (stem (b.path side)) := by
  obtain ⟨hmem, -, hpath, hin⟩ := getBinding_spec (h.wellFormed hroot) hget
  have hb := (mem_list_iff h hs).mp hmem
  have hne : ∀ c ∈ t.guest, c.path side ≠ [] := fun c hc => ((h.clean c hc).path side).tidy.ne_nil
  rw [getBinding_eq_find hs] at hget
  obtain ⟨-, hhidden⟩ := (covers_iff (hne b hb) hpath).mp (List.find?_some hget)
  refine ⟨hb, hpath, hhidden, hin, fun c hc hcov => ?_⟩
  have horder : DeepestFirst (Binding.above side) (t.list side) := by
    cases side with
    | guest => exact h.guestOrder
    | host => exact h.hostOrder
    | pending => exact absurd rfl hs
  have hcovers := (covers_iff (hne c hc) hpath).mpr ⟨hcov, hhidden⟩
  rcases horder.find?_deepest hget ((mem_list_iff h hs).mpr hc) hcovers with rfl | hnot
  · exact .refl _
  · rcases Within.total hcov hin with hcb | hbc
    · exact hcb
    · exact absurd hbc hnot

theorem getBinding_isSome (h : t.Sorted) (hs : side ≠ .pending) (hb : b ∈ t.guest)
    (hpath : path ≠ []) (hhidden : ¬ Hidden t side path)
    (hin : Within (stem (b.path side)) (stem path)) : ∃ c, getBinding t side path = some c := by
  rw [← Option.isSome_iff_exists, getBinding_eq_find hs, List.find?_isSome]
  refine ⟨b, (mem_list_iff h hs).mpr hb, (covers_iff ?_ hpath).mpr ⟨hin, hhidden⟩⟩
  exact ((h.clean b hb).path side).tidy.ne_nil

end Deepest

/-! ## Trees with the same bindings -/

structure SameBindings (t t' : Bindings) : Prop where
  sorted : t.Sorted
  sorted' : t'.Sorted
  rooted : t.Rooted
  rooted' : t'.Rooted
  paths : ∀ paths, paths ∈ t'.guest.map Binding.paths ↔ paths ∈ t.guest.map Binding.paths

namespace SameBindings

variable {t t' : Bindings} {side : Side} {path : CString} {b : Binding}

theorem symm (h : SameBindings t t') : SameBindings t' t :=
  ⟨h.sorted', h.sorted, h.rooted', h.rooted, fun paths => (h.paths paths).symm⟩

theorem counterpart (h : SameBindings t t') (hb : b ∈ t.guest) :
    ∃ b' ∈ t'.guest, b'.host = b.host ∧ b'.guest = b.guest := by
  obtain ⟨b', hb', hpaths⟩ := List.mem_map.mp ((h.paths _).mpr (List.mem_map_of_mem hb))
  exact ⟨b', hb', congrArg Prod.fst hpaths, congrArg Prod.snd hpaths⟩

theorem getRoot_eq (h : SameBindings t t') : getRoot t' = getRoot t := by
  have htable : tableOf t' = tableOf t := by
    refine tableOf_congr h.sorted h.sorted' fun host guest => ?_
    constructor
    · rintro ⟨b, hb, rfl, rfl⟩
      obtain ⟨c, hc, hhost, hguest⟩ := h.symm.counterpart hb
      exact ⟨c, hc, hguest, hhost⟩
    · rintro ⟨b, hb, rfl, rfl⟩
      obtain ⟨c, hc, hhost, hguest⟩ := h.counterpart hb
      exact ⟨c, hc, hguest, hhost⟩
  obtain ⟨root, hentry, hroot⟩ := tableOf_root h.sorted h.rooted
  obtain ⟨root', hentry', hroot'⟩ := tableOf_root h.sorted' h.rooted'
  rw [htable, hentry, Option.some.injEq] at hentry'
  rw [hroot, hroot', hentry']

theorem hidden_iff (h : SameBindings t t') : Hidden t' side path ↔ Hidden t side path := by
  unfold Hidden belongsToGuestfs
  rw [h.getRoot_eq]

theorem getBinding_some (h : SameBindings t t') (hs : side ≠ .pending)
    (hget : getBinding t side path = some b) :
    ∃ b', getBinding t' side path = some b' ∧ b'.path side = b.path side := by
  obtain ⟨hb, hpath, hhidden, hin, hdeep⟩ := Path.getBinding_some h.sorted h.rooted hs hget
  have hsame : ∀ {x y : Binding}, x.host = y.host → x.guest = y.guest → x.path side = y.path side := by
    intro x y hhost hguest
    cases side with
    | guest => exact hguest
    | host => exact hhost
    | pending => exact hguest
  obtain ⟨c, hc, hhost, hguest⟩ := h.counterpart hb
  have hcpath := hsame hhost hguest
  obtain ⟨b', hget'⟩ := getBinding_isSome h.sorted' hs hc hpath (fun hh => hhidden (h.hidden_iff.mp hh))
    (by rw [hcpath]; exact hin)
  obtain ⟨hb', -, -, hin', hdeep'⟩ := Path.getBinding_some h.sorted' h.rooted' hs hget'
  refine ⟨b', hget', ?_⟩
  obtain ⟨d, hd, hdHost, hdGuest⟩ := h.symm.counterpart hb'
  have hdpath := hsame hdHost hdGuest
  have hdown := hdeep d hd (by rw [hdpath]; exact hin')
  have hup := hdeep' c hc (by rw [hcpath]; exact hin)
  rw [hdpath] at hdown
  rw [hcpath] at hup
  exact ((h.sorted'.clean b' hb').path side).tidy.stem_injective
    ((h.sorted.clean b hb).path side).tidy (hdown.antisymm hup)

theorem getBinding_none (h : SameBindings t t') (hs : side ≠ .pending)
    (hget : getBinding t side path = none) : getBinding t' side path = none := by
  cases hget' : getBinding t' side path with
  | none => rfl
  | some b' =>
      obtain ⟨b, hsome, -⟩ := h.symm.getBinding_some hs hget'
      rw [hget] at hsome
      cases hsome

theorem needSubstitution_eq (h : SameBindings t t') {b' : Binding} (hb : b ∈ t.guest)
    (hb' : b' ∈ t'.guest) (hhost : b'.host = b.host) (hguest : b'.guest = b.guest) :
    b'.needSubstitution = b.needSubstitution := by
  rw [Bool.eq_iff_iff, h.sorted.need b hb, h.sorted'.need b' hb', hhost, hguest]

theorem substituteBinding_guest (h : SameBindings t t') (path : CString) :
    substituteBinding t' .guest path = substituteBinding t .guest path := by
  have hs : Side.guest ≠ .pending := nofun
  cases hget : getBinding t .guest path with
  | none => rw [substituteBinding_none hget, substituteBinding_none (h.getBinding_none hs hget)]
  | some b =>
      obtain ⟨b', hget', hguest⟩ := h.getBinding_some hs hget
      have hb := (Path.getBinding_some h.sorted h.rooted hs hget).1
      have hb' := (Path.getBinding_some h.sorted' h.rooted' hs hget').1
      obtain ⟨c, hc, hcHost, hcGuest⟩ := h.symm.counterpart hb'
      have hcb : c = b := List.inj_on_of_nodup_map h.sorted.distinct hc hb (hcGuest.trans hguest)
      subst hcb
      have hneed := h.needSubstitution_eq hb hb' hcHost.symm hguest
      simp only [substituteBinding, hget, hget', hneed, Binding.path, Binding.reversePath,
        hcHost, hcGuest]

end SameBindings

/-! ## The host's view -/

theorem host_ne_pending : Side.host ≠ .pending := nofun

def firstOf (l : List Binding) (hostPath : CString) : Option Binding :=
  l.find? (·.host = hostPath)

/-- A host path longer than the buffer allows is brought back as it is. -/
def TooLong (b : Binding) (path : CString) : Prop :=
  b.needSubstitution = true ∧ ¬ Fits b.host b.guest path

/-- Of the bindings of a host path that is looked up, the host list and the guest list have the same
one first, or one that does the same. -/
def HostOrderKept (t : Bindings) : Prop :=
  ∀ hostPath b c, hostPath.length < pathMax → ¬ Hidden t .host hostPath →
    firstOf t.host hostPath = some b → firstOf t.guest hostPath = some c →
    b = c ∨ TooLong b hostPath ∧ TooLong c hostPath

theorem firstOf_spec {l : List Binding} {hostPath : CString}
    (h : firstOf l hostPath = some b) : b ∈ l ∧ b.host = hostPath :=
  ⟨List.mem_of_find?_eq_some h, by simpa using List.find?_some h⟩

theorem firstOf_isSome {l : List Binding} (hb : b ∈ l) :
    ∃ c, firstOf l b.host = some c := by
  rw [← Option.isSome_iff_exists, firstOf, List.find?_isSome]
  exact ⟨b, hb, by simp⟩

theorem head?_ofHost (l : List Binding) (hostPath : CString) :
    (ofHost l hostPath).head? = (firstOf l hostPath).map Binding.paths := by
  rw [ofHost, List.head?_map, List.head?_filter, firstOf]

theorem firstOf_of_getBinding
    (hget : getBinding t .host path = some b) : firstOf t.host b.host = some b := by
  obtain ⟨hcov, pre, post, hlist, hpre⟩ := List.find?_eq_some_iff_append.mp hget
  change t.host = pre ++ b :: post at hlist
  refine List.find?_eq_some_iff_append.mpr ⟨by simp, pre, post, hlist, fun x hx => ?_⟩
  have hnot := hpre x hx
  by_contra hsame
  have hhost : x.host = b.host := by simpa using hsame
  have hsame : covers t .host path x = covers t .host path b := by
    simp only [covers, Binding.path, hhost]
  rw [hsame, hcov] at hnot
  cases hnot

theorem Fits.of_path {ref rev : CString} (hpath : path ≠ []) (h : Fits ref rev path) :
    Fits ref rev ref := by
  have hpos := List.length_pos_of_ne_nil hpath
  refine h.imp_right fun h => ?_
  split_ifs at h ⊢ with hone
  · omega
  · omega

theorem rebase_left_injective {ref rev rev' : CString} (hrev : Tidy rev) (hrev' : Tidy rev')
    (h : rebase ref rev path = rebase ref rev' path) : rev = rev' := by
  have hroot : ∀ {rev suffix : CString}, Tidy rev → attach ['/'] suffix = attach rev suffix →
      rev = ['/'] := by
    intro rev suffix hrev heq
    by_contra hne
    have hlong : rev.length ≠ 1 := fun hone => hne (hrev.length_eq_one.mp hone)
    have hpos := List.length_pos_of_ne_nil hrev.ne_nil
    have hlen := congrArg List.length heq
    unfold attach at hlen
    rw [if_pos rfl, if_neg hne, List.length_append] at hlen
    by_cases hs : suffix = []
    · rw [if_pos hs, hs] at hlen
      simp only [List.length_cons, List.length_nil] at hlen
      omega
    · rw [if_neg hs] at hlen
      omega
  unfold rebase at h
  by_cases hone : rev = ['/']
  · rw [hone] at h ⊢
    exact (hroot hrev' h).symm
  · by_cases hone' : rev' = ['/']
    · rw [hone'] at h ⊢
      exact hroot hrev h.symm
    · unfold attach at h
      rw [if_neg hone, if_neg hone'] at h
      exact List.append_cancel_right h

namespace SameBindings

variable {t t' : Bindings}

/-- Two bindings of one host path bring a path back to the same when they are of the same paths, or
both are of no use. -/
theorem substituteBinding_host_iff (h : SameBindings t t') {b' : Binding}
    (hget : getBinding t .host path = some b) (hget' : getBinding t' .host path = some b')
    (hhost : b'.host = b.host) :
    substituteBinding t' .host path = substituteBinding t .host path ↔
      b'.guest = b.guest ∨ TooLong b path ∧ TooLong b' path := by
  have hwf := h.sorted.wellFormed h.rooted
  have hwf' := h.sorted'.wellFormed h.rooted'
  have hs := host_ne_pending
  obtain ⟨hb, hpath, -, hin, -⟩ := Path.getBinding_some h.sorted h.rooted hs hget
  obtain ⟨hb', -, -, hin', -⟩ := Path.getBinding_some h.sorted' h.rooted' hs hget'
  have hclean := h.sorted.clean b hb
  have hclean' := h.sorted'.clean b' hb'
  have hneed := h.sorted.need b hb
  have hneed' := h.sorted'.need b' hb'
  constructor
  · intro heq
    rw [or_iff_not_imp_left]
    intro hguest
    -- a symmetric binding leaves the flag down
    have hflags : b.needSubstitution = true ∧ b'.needSubstitution = true := by
      cases hflag : b.needSubstitution with
      | true =>
          cases hflag' : b'.needSubstitution with
          | true => exact ⟨rfl, rfl⟩
          | false =>
              rw [substituteBinding_symmetric hget' hflag', substituteBinding, hget] at heq
              simp [hflag] at heq
      | false =>
          have hsame : b.host = b.guest := by
            by_contra hne
            rw [hneed.mpr hne] at hflag
            cases hflag
          have hflag' : b'.needSubstitution = true := by
            rw [hneed', hhost, hsame]
            exact fun hne => hguest hne.symm
          rw [substituteBinding_symmetric hget hflag, substituteBinding, hget'] at heq
          simp [hflag'] at heq
    obtain ⟨hflag, hflag'⟩ := hflags
    have hne : b.host ≠ b.guest := hneed.mp hflag
    have hne' : b'.host ≠ b'.guest := hneed'.mp hflag'
    by_cases hfits : Fits b.host b.guest path
    · rw [substituteBinding_of_fits hwf hget hflag hfits] at heq
      by_cases hfits' : Fits b'.host b'.guest path
      · rw [substituteBinding_of_fits hwf' hget' hflag' hfits'] at heq
        have hrebase := (Prod.mk.inj (Except.ok.inj heq)).2
        simp only [Binding.path, Binding.reversePath, hhost] at hrebase
        exact absurd (rebase_left_injective hclean'.guest.tidy hclean.guest.tidy hrebase) hguest
      · rw [substituteBinding_of_not_fits hget' hflag' hfits'] at heq
        exact absurd (Prod.mk.inj (Except.ok.inj heq)).2.symm
          (rebase_ne hclean.host.tidy hclean.guest.tidy hne hpath hin)
    · refine ⟨⟨hflag, hfits⟩, hflag', fun hfits' => ?_⟩
      rw [substituteBinding_of_not_fits hget hflag hfits,
        substituteBinding_of_fits hwf' hget' hflag' hfits'] at heq
      exact absurd (Prod.mk.inj (Except.ok.inj heq)).2
        (rebase_ne hclean'.host.tidy hclean'.guest.tidy hne' hpath hin')
  · rintro (hguest | ⟨⟨hflag, hfits⟩, hflag', hfits'⟩)
    · have hsame : b'.needSubstitution = b.needSubstitution := by
        rw [Bool.eq_iff_iff, hneed, hneed', hhost, hguest]
      simp only [substituteBinding, hget, hget', hsame, Binding.path, Binding.reversePath, hhost,
        hguest]
    · rw [substituteBinding_of_not_fits hget hflag hfits,
        substituteBinding_of_not_fits hget' hflag' hfits']

theorem detranslatePath_eq (h : SameBindings t t') {w : World}
    (hsub : ∀ path, path.length < pathMax →
      substituteBinding t' .host path = substituteBinding t .host path)
    (path : CString) (referrer : Option CString) :
    detranslatePath (w.withTree t') path referrer = detranslatePath (w.withTree t) path referrer := by
  have hremove : removeRoot t' = removeRoot t := by
    funext sanityCheck path
    unfold removeRoot
    rw [h.getRoot_eq]
  have hbelongs : ∀ path, belongsToGuestfs t' path = belongsToGuestfs t path := by
    intro path
    unfold belongsToGuestfs
    rw [h.getRoot_eq]
  have hbinding : ∀ path, getPathBinding t' .host path = getPathBinding t .host path := by
    intro path
    unfold getPathBinding
    cases hget : getBinding t .host path with
    | none => rw [h.getBinding_none host_ne_pending hget]
    | some b =>
        obtain ⟨b', hget', hpath⟩ := h.getBinding_some host_ne_pending hget
        rw [hget', Option.map_some, Option.map_some, hpath]
  have hproc : readlinkProc2 (w.withTree t') = readlinkProc2 (w.withTree t) := rfl
  unfold detranslatePath
  simp only [World.withTree_bindings, hproc]
  by_cases hlong : path.length ≥ pathMax
  · simp only [if_pos hlong]
  · simp only [if_neg hlong, hsub path (not_le.mp hlong), hremove, hbelongs, hbinding]
    rfl

/-- The bindings of a host path that the look-up finds, in a tree whose host list has the order of
the guest list of the other. -/
theorem firstOf_counterpart (h : SameBindings t t')
    (horder : ∀ hostPath, ofHost t'.host hostPath = ofHost t.guest hostPath)
    {b' : Binding} (hget : getBinding t .host path = some b)
    (hget' : getBinding t' .host path = some b') :
    b'.host = b.host ∧ firstOf t.host b.host = some b ∧
      ∃ c, firstOf t.guest b.host = some c ∧ c.host = b'.host ∧ c.guest = b'.guest := by
  obtain ⟨b'', hget'', hhost⟩ := h.getBinding_some host_ne_pending hget
  rw [hget', Option.some.injEq] at hget''
  subst hget''
  change b'.host = b.host at hhost
  refine ⟨hhost, firstOf_of_getBinding hget, ?_⟩
  obtain ⟨c, hc⟩ := firstOf_isSome (Path.getBinding_some h.sorted h.rooted host_ne_pending hget).1
  have hhead := congrArg List.head? (horder b.host)
  rw [head?_ofHost, head?_ofHost, hc, ← hhost, firstOf_of_getBinding hget', Option.map_some,
    Option.map_some, Option.some.injEq] at hhead
  exact ⟨c, hc, (congrArg Prod.fst hhead).symm, (congrArg Prod.snd hhead).symm⟩

/-- **The host's view** is the same exactly when the order in the host list is kept. -/
theorem detranslatePath_iff (h : SameBindings t t')
    (horder : ∀ hostPath, ofHost t'.host hostPath = ofHost t.guest hostPath) (w : World) :
    (∀ path referrer, detranslatePath (w.withTree t') path referrer =
      detranslatePath (w.withTree t) path referrer) ↔ HostOrderKept t := by
  constructor
  · intro hsame hostPath b c hlength hhidden hfirst hfirst'
    obtain ⟨hmem, hhost⟩ := firstOf_spec hfirst
    obtain ⟨hc, hcHost⟩ := firstOf_spec hfirst'
    have hb := h.sorted.same.mem_iff.mpr hmem
    have hclean := (h.sorted.clean b hb).host
    subst hhost
    have hin : Within (stem (b.path .host)) (stem b.host) := .refl _
    -- the binding found for the host path itself is its first one
    obtain ⟨x, hget⟩ :=
      getBinding_isSome h.sorted host_ne_pending hb hclean.tidy.ne_nil hhidden hin
    have hx : x = b := by
      obtain ⟨hx, -, -, hxIn, hdeep⟩ := Path.getBinding_some h.sorted h.rooted host_ne_pending hget
      have hxHost : x.host = b.host := (h.sorted.clean x hx).host.tidy.stem_injective hclean.tidy
        (hxIn.antisymm (hdeep b hb hin))
      have hxFirst := firstOf_of_getBinding hget
      rw [hxHost, hfirst, Option.some.injEq] at hxFirst
      exact hxFirst.symm
    subst hx
    obtain ⟨x', hget', -⟩ := h.getBinding_some host_ne_pending hget
    obtain ⟨hhost', -, d, hd, hdHost, hdGuest⟩ := h.firstOf_counterpart horder hget hget'
    rw [hfirst', Option.some.injEq] at hd
    subst hd
    have hsub : substituteBinding t' .host x.host = substituteBinding t .host x.host := by
      have hway := hsame x.host none
      have habs : x.host.head? = some '/' := hclean.tidy.absolute
      unfold detranslatePath at hway
      simp only [World.withTree_bindings, if_neg (not_le.mpr hlength), habs, ne_eq,
        not_true_eq_false, if_false, if_true] at hway
      unfold substituteBinding at hway ⊢
      simp only [hget, hget'] at hway ⊢
      cases hneed : x.needSubstitution with
      | false =>
          cases hneed' : x'.needSubstitution with
          | false => rfl
          | true => simp [hneed, hneed'] at hway
      | true =>
          cases hneed' : x'.needSubstitution with
          | false => simp [hneed, hneed'] at hway
          | true =>
              simp only [hneed, hneed', if_true, Except.ok.injEq, Prod.mk.injEq] at hway ⊢
              exact ⟨trivial, hway.2⟩
    rcases (h.substituteBinding_host_iff hget hget' hhost').mp hsub with hguest | ⟨hlong, hlong'⟩
    · exact .inl (List.inj_on_of_nodup_map h.sorted.distinct hb hc (hguest.symm.trans hdGuest.symm))
    · refine .inr ⟨hlong, ?_, ?_⟩
      · have hx' := (Path.getBinding_some h.sorted' h.rooted' host_ne_pending hget').1
        rw [← h.needSubstitution_eq hc hx' hdHost.symm hdGuest.symm]
        exact hlong'.1
      · rw [hdHost, hdGuest]
        exact hlong'.2
  · intro hkept
    refine h.detranslatePath_eq fun path hlength => ?_
    cases hget : getBinding t .host path with
    | none =>
        rw [substituteBinding_none hget, substituteBinding_none (h.getBinding_none host_ne_pending hget)]
    | some b =>
        obtain ⟨b', hget', -⟩ := h.getBinding_some host_ne_pending hget
        obtain ⟨hhost, hfirst, c, hfirst', hcHost, hcGuest⟩ :=
          h.firstOf_counterpart horder hget hget'
        obtain ⟨hb, hpath, hhidden, hin, -⟩ := Path.getBinding_some h.sorted h.rooted host_ne_pending hget
        obtain ⟨hb', -⟩ := Path.getBinding_some h.sorted' h.rooted' host_ne_pending hget'
        have hclean := (h.sorted.clean b hb).host.tidy
        -- what hides the host path hides what is below
        have hvisible : ¬ Hidden t .host b.host := by
          rintro ⟨-, hroot, hbelongs⟩
          refine hhidden ⟨rfl, hroot, ?_⟩
          have hrootNe : getRoot t ≠ [] := (getRoot_tidy (h.sorted.wellFormed h.rooted)).ne_nil
          unfold belongsToGuestfs at hbelongs ⊢
          rw [decide_eq_true_eq, comparePaths_within hrootNe hclean.ne_nil] at hbelongs
          rw [decide_eq_true_eq, comparePaths_within hrootNe hpath]
          exact hbelongs.trans hin
        have hshort : b.host.length < pathMax := by
          by_cases hroot : b.host = ['/']
          · rw [hroot]
            decide
          · obtain ⟨suffix, rfl, -⟩ := append_of_within hclean hroot hin
            rw [List.length_append] at hlength
            change b.host.length + _ < _ at hlength
            omega
        refine (h.substituteBinding_host_iff hget hget' hhost).mpr ?_
        rcases hkept b.host b c hshort hvisible hfirst hfirst' with rfl | ⟨hlong, hlong'⟩
        · exact .inl hcGuest.symm
        · obtain ⟨hc, -⟩ := firstOf_spec hfirst'
          refine .inr ⟨⟨hlong.1, fun hfits => hlong.2 (hfits.of_path hpath)⟩, ?_, fun hfits => ?_⟩
          · rw [h.needSubstitution_eq hc hb' hcHost.symm hcGuest.symm]
            exact hlong'.1
          · refine hlong'.2 ?_
            rw [hcGuest, ← hhost, hcHost]
            exact hfits.of_path hpath

end SameBindings

end Improot.Path
