import Mathlib.Data.List.Nodup
import Improot.Lib.Containment
import Improot.Path.Component

/-!
# The invariant of the binding lists

`get_binding` returns the first match of a list, which is the deepest one only as long as no binding
comes before one that lies strictly below it.  Here the invariant of both lists is stated, and
`insort_binding` and `remove_binding_from_all_lists` are shown to keep it.
-/

namespace Improot.Path

open Lib (DeepestFirst)

/-- `x` strictly contains `y`, from a point of view. -/
def Binding.above (side : Side) (x y : Binding) : Prop :=
  Below (stem (x.path side)) (stem (y.path side))

structure Binding.Clean (b : Binding) : Prop where
  host : Canonical b.host
  guest : Canonical b.guest

variable {b : Binding} {side : Side} {t : Bindings}

theorem Binding.Clean.path (h : b.Clean) (side : Side) : Canonical (b.path side) := by
  cases side
  · exact h.guest
  · exact h.host
  · exact h.guest

structure Bindings.Sorted (t : Bindings) : Prop where
  clean : ∀ b ∈ t.guest, b.Clean
  need : ∀ b ∈ t.guest, b.needSubstitution = true ↔ b.host ≠ b.guest
  distinct : (t.guest.map (·.guest)).Nodup
  guestOrder : DeepestFirst (Binding.above .guest) t.guest
  hostOrder : DeepestFirst (Binding.above .host) t.host
  same : t.guest.Perm t.host
  nodes : (t.guest.map (·.node)).Nodup
  fresh : ∀ b ∈ t.guest, b.node < t.nextNode

def Bindings.Rooted (t : Bindings) : Prop := ['/'] ∈ t.guest.map (·.guest)

/-- Some binding is to be inserted: its node isn't used yet. -/
structure Bindings.Accepts (t : Bindings) (b : Binding) : Prop where
  clean : b.Clean
  unused : b.node ∉ t.guest.map (·.node)
  allocated : b.node < t.nextNode

/-! ## The search loop -/

/-- The condition under which the loop of `insort_binding` moves `previous`. -/
def Binding.precededBy (side : Side) (b x : Binding) : Prop :=
  comparePaths (b.path side) (x.path side) = .path1IsPrefix ∨
    side = .host ∧ comparePaths (b.path side) (x.path side) = .pathsAreEqual

inductive Insorted (side : Side) (b : Binding) (i : Nat) (previous : Option Nat)
    (l : List Binding) : InsortPoint → Prop
  | replace {pre it post} : l = pre ++ it :: post → side ≠ .host →
      comparePaths (b.path side) (it.path side) = .pathsAreEqual →
      Insorted side b i previous l (.replace (i + pre.length))
  | after {pre it post} : l = pre ++ it :: post → b.precededBy side it →
      (∀ y ∈ post, ¬ b.precededBy side y) →
      (side ≠ .host → ∀ x ∈ l, comparePaths (b.path side) (x.path side) ≠ .pathsAreEqual) →
      Insorted side b i previous l (.after (i + pre.length))
  | nowhere : (∀ y ∈ l, ¬ b.precededBy side y) →
      (side ≠ .host → ∀ x ∈ l, comparePaths (b.path side) (x.path side) ≠ .pathsAreEqual) →
      Insorted side b i previous l
        (match previous with
        | some previous => .after previous
        | none => .first)

section Scan

variable {side : Side} {b it : Binding} {i : Nat} {previous : Option Nat} {l : List Binding}
  {point : InsortPoint}

theorem Insorted.cons {previous' : Option Nat}
    (hne : side ≠ .host → comparePaths (b.path side) (it.path side) ≠ .pathsAreEqual)
    (hit : b.precededBy side it ∧ previous' = some i ∨
      ¬ b.precededBy side it ∧ previous' = previous)
    (h : Insorted side b (i + 1) previous' l point) :
    Insorted side b i previous (it :: l) point := by
  have hall : (side ≠ .host → ∀ x ∈ l, comparePaths (b.path side) (x.path side) ≠ .pathsAreEqual) →
      side ≠ .host → ∀ x ∈ it :: l, comparePaths (b.path side) (x.path side) ≠ .pathsAreEqual :=
    fun hl hs => List.forall_mem_cons.mpr ⟨hne hs, hl hs⟩
  cases h with
  | @replace pre it' post hl hs heq =>
      have hcons : it :: l = (it :: pre) ++ it' :: post := by rw [hl, List.cons_append]
      have := @Insorted.replace side b i previous (it :: l) (it :: pre) it' post hcons hs heq
      rwa [List.length_cons, Nat.add_comm pre.length, ← Nat.add_assoc] at this
  | @after pre it' post hl hpre hpost hnone =>
      have hcons : it :: l = (it :: pre) ++ it' :: post := by rw [hl, List.cons_append]
      have := @Insorted.after side b i previous (it :: l) (it :: pre) it' post hcons hpre hpost
        (hall hnone)
      rwa [List.length_cons, Nat.add_comm pre.length, ← Nat.add_assoc] at this
  | nowhere hpost hnone =>
      rcases hit with ⟨hit, rfl⟩ | ⟨hit, rfl⟩
      · exact @Insorted.after side b i previous (it :: l) [] it l rfl hit hpost (hall hnone)
      · exact .nowhere (List.forall_mem_cons.mpr ⟨hit, hpost⟩) (hall hnone)

end Scan

theorem insortScan_spec (side : Side) (b : Binding) (l : List Binding) (i : Nat)
    (previous : Option Nat) : Insorted side b i previous l (insortScan side b i previous l) := by
  induction l generalizing i previous with
  | nil =>
      have := @Insorted.nowhere side b i previous [] (by simp) (by simp)
      cases previous <;> exact this
  | cons it l ih =>
      rw [insortScan]
      cases hcmp : comparePaths (b.path side) (it.path side) with
      | pathsAreEqual =>
          by_cases hs : side = .host
          · simp only [hs, if_true] at hcmp ih ⊢
            exact (ih _ _).cons (fun h => absurd rfl h) (.inl ⟨.inr ⟨rfl, hcmp⟩, rfl⟩)
          · simp only [hs, if_false]
            exact @Insorted.replace side b i previous (it :: l) [] it l rfl hs hcmp
      | path1IsPrefix => exact (ih _ _).cons (fun _ => by simp [hcmp]) (.inl ⟨.inl hcmp, rfl⟩)
      | path2IsPrefix | pathsAreNotComparable =>
          exact (ih _ _).cons (fun _ => by simp [hcmp])
            (.inr ⟨by simp [Binding.precededBy, hcmp], rfl⟩)

/-! ## Comparing bindings of canonical paths -/

theorem Binding.above.trans {side : Side} {x y z : Binding} (hxy : x.above side y)
    (hyz : y.above side z) : x.above side z := Below.trans hxy hyz

theorem Binding.above.irrefl (x : Binding) : ¬ x.above side x := Below.irrefl _

theorem Binding.Clean.path_eq_iff {x y : Binding} (hx : x.Clean) (hy : y.Clean) (side : Side) :
    comparePaths (x.path side) (y.path side) = .pathsAreEqual ↔ x.path side = y.path side :=
  (hx.path side).tidy.comparePaths_eq_pathsAreEqual (hy.path side).tidy

theorem Binding.Clean.precededBy_iff {x y : Binding} (hx : x.Clean) (hy : y.Clean) (side : Side) :
    x.precededBy side y ↔ x.above side y ∨ side = .host ∧ x.host = y.host := by
  rw [Binding.precededBy, hx.path_eq_iff hy,
    comparePaths_eq_path1IsPrefix (hx.path side).tidy.ne_nil (hy.path side).tidy.ne_nil]
  refine or_congr Iff.rfl (and_congr_right ?_)
  rintro rfl
  rfl

theorem Binding.above.of_precededBy {it z : Binding} (hb : b.Clean)
    (hit : it.Clean) (h : b.precededBy side it) (hz : z.above side b) : z.above side it := by
  rcases (hb.precededBy_iff hit side).mp h with hbelow | ⟨rfl, heq⟩
  · exact hz.trans hbelow
  · rw [Binding.above, Binding.path, Binding.path] at hz ⊢
    rwa [← heq]

/-! ## Insertion into one list -/

/-- `l'` is `l` with `b` at a place where the order allows it. -/
def Placed (side : Side) (b : Binding) (l l' : List Binding) : Prop :=
  ∃ pre post, l = pre ++ post ∧ l' = pre ++ b :: post ∧
    (∀ x ∈ pre, ¬ x.above side b) ∧ ∀ y ∈ post, ¬ b.above side y

theorem Placed.perm {l l' : List Binding} (h : Placed side b l l') :
    l'.Perm (b :: l) := by
  obtain ⟨pre, post, rfl, rfl, -, -⟩ := h
  exact List.perm_middle

theorem Placed.deepestFirst {l l' : List Binding}
    (h : Placed side b l l') (hl : DeepestFirst (Binding.above side) l) :
    DeepestFirst (Binding.above side) l' := by
  obtain ⟨pre, post, rfl, rfl, hpre, hpost⟩ := h
  exact hl.insert hpre hpost

theorem insertAt_length (pre post : List Binding) (b : Binding) :
    insertAt pre.length b (pre ++ post) = pre ++ b :: post := by
  simp [insertAt]

theorem insertAt_succ (pre post : List Binding) (it b : Binding) :
    insertAt (0 + pre.length + 1) b (pre ++ it :: post) = pre ++ it :: b :: post := by
  have := insertAt_length (pre ++ [it]) post b
  simpa [Nat.zero_add] using this

section List

variable {t : Bindings} {side : Side} {b : Binding} (hb : b.Clean)
  (hclean : ∀ x ∈ t.list side, x.Clean)
  (horder : DeepestFirst (Binding.above side) (t.list side))

include hb hclean horder

theorem insortBinding_cases : (∃ pre it post, side ≠ .host ∧ t.list side = pre ++ it :: post ∧
        it.path side = b.path side ∧
        insortBinding t side b =
          removeBindingFromAllLists (t.setList side (pre ++ it :: b :: post)) it) ∨
      ∃ l', insortBinding t side b = t.setList side l' ∧ Placed side b (t.list side) l' ∧
        (side ≠ .host → ∀ x ∈ t.list side, x.path side ≠ b.path side) := by
  have hne : (side ≠ .host → ∀ x ∈ t.list side,
        comparePaths (b.path side) (x.path side) ≠ .pathsAreEqual) →
      side ≠ .host → ∀ x ∈ t.list side, x.path side ≠ b.path side := by
    intro h hs x hx heq
    exact h hs x hx ((hb.path_eq_iff (hclean x hx) side).mpr heq.symm)
  have hnot : ∀ y, y.Clean → ¬ b.precededBy side y → ¬ b.above side y :=
    fun y hy h hab => h ((hb.precededBy_iff hy side).mpr (.inl hab))
  have hscan := insortScan_spec side b (t.list side) 0 none
  generalize hpoint : insortScan side b 0 none (t.list side) = point at hscan
  cases hscan with
  | @replace pre it post hl hs heq =>
      have hit := hclean it (by simp [hl])
      refine .inl ⟨pre, it, post, hs, hl, ((hb.path_eq_iff hit side).mp heq).symm, ?_⟩
      have hget : (t.list side)[0 + pre.length]? = some it := by simp [hl]
      simp only [insortBinding, hpoint, hget]
      rw [hl, insertAt_succ]
  | @after pre it post hl hpre hpost hnone =>
      have hit := hclean it (by simp [hl])
      refine .inr ⟨pre ++ it :: b :: post, ?_, ⟨pre ++ [it], post, ?_, ?_, ?_, ?_⟩, hne hnone⟩
      · simp only [insortBinding, hpoint]
        rw [hl, insertAt_succ]
      · simp [hl]
      · simp
      · refine DeepestFirst.not_above_of_last ?_ (Binding.above.irrefl it)
          fun z hz => hz.of_precededBy hb hit hpre
        exact horder.sublist (by simp [hl])
      · exact fun y hy => hnot y (hclean y (by simp [hl, hy])) (hpost y hy)
  | nowhere hpost hnone =>
      refine .inr ⟨b :: t.list side, ?_, ⟨[], t.list side, rfl, rfl, by simp, ?_⟩, hne hnone⟩
      · simp only [insortBinding, hpoint]
      · exact fun y hy => hnot y (hclean y hy) (hpost y hy)

end List

/-! ## Removal -/

theorem setList_nextNode (t : Bindings) (side : Side) (l : List Binding) :
    (t.setList side l).nextNode = t.nextNode := by
  cases side <;> rfl

theorem insortBinding_nextNode (t : Bindings) (side : Side) (b : Binding) :
    (insortBinding t side b).nextNode = t.nextNode := by
  simp only [insortBinding]
  split
  · split
    · exact setList_nextNode t side _
    · exact setList_nextNode t side _
  · exact setList_nextNode t side _
  · exact setList_nextNode t side _

@[simp] theorem removeBindingFromAllLists_guest (t : Bindings) (b : Binding) :
    (removeBindingFromAllLists t b).guest = t.guest.filter (·.node ≠ b.node) := rfl

@[simp] theorem removeBindingFromAllLists_host (t : Bindings) (b : Binding) :
    (removeBindingFromAllLists t b).host = t.host.filter (·.node ≠ b.node) := rfl

@[simp] theorem removeBindingFromAllLists_nextNode (t : Bindings) (b : Binding) :
    (removeBindingFromAllLists t b).nextNode = t.nextNode := rfl

theorem Bindings.Sorted.remove (h : t.Sorted) (b : Binding) :
    (removeBindingFromAllLists t b).Sorted where
  clean x hx := h.clean x (List.mem_of_mem_filter hx)
  need x hx := h.need x (List.mem_of_mem_filter hx)
  distinct := h.distinct.sublist (List.filter_sublist.map _)
  guestOrder := h.guestOrder.filter _
  hostOrder := h.hostOrder.filter _
  same := h.same.filter _
  nodes := h.nodes.sublist (List.filter_sublist.map _)
  fresh x hx := h.fresh x (List.mem_of_mem_filter hx)

theorem Bindings.Sorted.node_injective (h : t.Sorted) {x y : Binding}
    (hx : x ∈ t.guest) (hy : y ∈ t.guest) (hnode : x.node = y.node) : x = y :=
  List.inj_on_of_nodup_map h.nodes hx hy hnode

theorem filter_node {pre post : List Binding} {it : Binding}
    (h : ((pre ++ it :: post).map (·.node)).Nodup) :
    (pre ++ it :: post).filter (·.node ≠ it.node) = pre ++ post := by
  simp only [List.map_append, List.map_cons, List.nodup_append, List.nodup_cons,
    List.mem_map, List.mem_cons, not_exists, not_and] at h
  obtain ⟨-, ⟨hpost, -⟩, hpre⟩ := h
  have hl : pre.filter (·.node ≠ it.node) = pre := by
    refine List.filter_eq_self.mpr fun x hx => ?_
    simpa using hpre x.node ⟨x, hx, rfl⟩ it.node (.inl rfl)
  have hr : post.filter (·.node ≠ it.node) = post := by
    refine List.filter_eq_self.mpr fun x hx => ?_
    simpa using hpost x hx
  rw [List.filter_append, List.filter_cons_of_neg (by simp), hl, hr]

/-! ## Insertion into both lists -/

/-- What the first half of `insort_binding2` leads to: the guest list holds the new binding, the
host list doesn't yet. -/
structure HalfInserted (t : Bindings) (b : Binding) (t' : Bindings) : Prop where
  guest : ∀ x, x ∈ t'.guest → x = b ∨ x ∈ t.guest
  paths : ∀ g, g ∈ t'.guest.map (·.guest) ↔ g = b.guest ∨ g ∈ t.guest.map (·.guest)
  distinct : (t'.guest.map (·.guest)).Nodup
  guestOrder : DeepestFirst (Binding.above .guest) t'.guest
  hostOrder : DeepestFirst (Binding.above .host) t'.host
  same : t'.guest.Perm (b :: t'.host)
  nodes : (t'.guest.map (·.node)).Nodup
  nextNode : t'.nextNode = t.nextNode

theorem nodup_insert {pre post : List Binding}
    (h : ((pre ++ post).map (·.node)).Nodup) (hb : b.node ∉ (pre ++ post).map (·.node)) :
    ((pre ++ b :: post).map (·.node)).Nodup :=
  (List.perm_middle.map Binding.node).nodup_iff.mpr (List.nodup_cons.mpr ⟨hb, h⟩)

theorem HalfInserted.of_replace {t' : Bindings} (h : t.Sorted) {it : Binding}
    (hb : t.Accepts b) {pre post : List Binding} (hl : t.guest = pre ++ it :: post)
    (hit : it.guest = b.guest)
    (ht' : t' = removeBindingFromAllLists (t.setList .guest (pre ++ it :: b :: post)) it) :
    HalfInserted t b t' := by
  have hnodes : ((pre ++ it :: post).map (·.node)).Nodup := hl ▸ h.nodes
  have hnodes' : ((pre ++ it :: b :: post).map (·.node)).Nodup := by
    have hunused : b.node ∉ ((pre ++ [it]) ++ post).map (·.node) := by
      simpa [hl] using hb.unused
    simpa using nodup_insert (by simpa using hnodes) hunused
  have hguest : t'.guest = pre ++ b :: post := by
    rw [ht', removeBindingFromAllLists_guest]
    exact filter_node hnodes'
  have hhost : t'.host = t.host.filter (·.node ≠ it.node) := by
    rw [ht', removeBindingFromAllLists_host]
    rfl
  have horder : DeepestFirst (Binding.above .guest) (pre ++ it :: post) := hl ▸ h.guestOrder
  refine ⟨?_, ?_, ?_, ?_, ?_, ?_, ?_, by rw [ht']; rfl⟩
  · intro x hx
    rw [hguest] at hx
    rw [hl]
    simp only [List.mem_append, List.mem_cons] at hx ⊢
    tauto
  · intro g
    rw [hguest, hl]
    simp only [List.map_append, List.map_cons, List.mem_append, List.mem_cons, hit]
    tauto
  · have hsame : t'.guest.map (·.guest) = t.guest.map (·.guest) := by
      rw [hguest, hl]
      simp [hit]
    rw [hsame]
    exact h.distinct
  · rw [hguest]
    refine horder.replace (fun x hx => ?_) fun y hy => ?_
    · simpa [Binding.above, Binding.path, hit] using hx
    · simpa [Binding.above, Binding.path, hit] using hy
  · rw [hhost]
    exact h.hostOrder.filter _
  · rw [hguest, hhost]
    have hfilter := h.same.filter (·.node ≠ it.node)
    rw [hl, filter_node hnodes] at hfilter
    exact List.perm_middle.trans (hfilter.cons b)
  · rw [hguest]
    refine hnodes'.sublist (List.Sublist.map _ ?_)
    exact List.Sublist.append_left (List.sublist_cons_self it _) pre

theorem HalfInserted.of_placed {t' : Bindings} (h : t.Sorted) (hb : t.Accepts b)
    {l' : List Binding} (hplaced : Placed .guest b t.guest l')
    (hne : ∀ x ∈ t.guest, x.guest ≠ b.guest) (ht' : t' = t.setList .guest l') :
    HalfInserted t b t' := by
  have hguest : t'.guest = l' := by rw [ht']; rfl
  have hhost : t'.host = t.host := by rw [ht']; rfl
  have hperm := hplaced.perm
  refine ⟨?_, ?_, ?_, ?_, ?_, ?_, ?_, by rw [ht']; rfl⟩
  · intro x hx
    rw [hguest] at hx
    exact List.mem_cons.mp (hperm.mem_iff.mp hx)
  · intro g
    rw [hguest, (hperm.map _).mem_iff, List.map_cons, List.mem_cons]
  · rw [hguest, (hperm.map _).nodup_iff, List.map_cons, List.nodup_cons]
    refine ⟨fun hmem => ?_, h.distinct⟩
    obtain ⟨x, hx, heq⟩ := List.mem_map.mp hmem
    exact hne x hx heq
  · rw [hguest]
    exact hplaced.deepestFirst h.guestOrder
  · rw [hhost]
    exact h.hostOrder
  · rw [hguest, hhost]
    exact hperm.trans (h.same.cons b)
  · rw [hguest, (hperm.map _).nodup_iff, List.map_cons, List.nodup_cons]
    exact ⟨hb.unused, h.nodes⟩

theorem Bindings.Sorted.insort_guest (h : t.Sorted)
    (hb : t.Accepts b) : HalfInserted t b (insortBinding t .guest b) := by
  have hclean : ∀ x ∈ t.list .guest, x.Clean := h.clean
  rcases insortBinding_cases hb.clean hclean h.guestOrder with
    ⟨pre, it, post, -, hl, hit, heq⟩ | ⟨l', heq, hplaced, hne⟩
  · exact .of_replace h hb hl hit heq
  · exact .of_placed h hb hplaced (hne (by simp)) heq

theorem HalfInserted.insort_host {t' : Bindings} (h : t.Sorted)
    (hb : t.Accepts b) (hneed : b.needSubstitution = true ↔ b.host ≠ b.guest)
    (hhalf : HalfInserted t b t') :
    (insortBinding t' .host b).Sorted ∧ (insortBinding t' .host b).guest = t'.guest := by
  have hclean : ∀ x ∈ t'.guest, x.Clean := by
    intro x hx
    rcases hhalf.guest x hx with rfl | hx
    · exact hb.clean
    · exact h.clean x hx
  have hcleanHost : ∀ x ∈ t'.list .host, x.Clean :=
    fun x hx => hclean x (hhalf.same.mem_iff.mpr (List.mem_cons_of_mem _ hx))
  rcases insortBinding_cases hb.clean hcleanHost hhalf.hostOrder with
    ⟨_, _, _, hs, -⟩ | ⟨l', heq, hplaced, -⟩
  · exact absurd rfl hs
  · rw [heq]
    refine ⟨⟨hclean, ?_, hhalf.distinct, hhalf.guestOrder, ?_, ?_, hhalf.nodes, ?_⟩, rfl⟩
    · intro x hx
      rcases hhalf.guest x hx with rfl | hx
      · exact hneed
      · exact h.need x hx
    · exact hplaced.deepestFirst hhalf.hostOrder
    · exact hhalf.same.trans hplaced.perm.symm
    · intro x hx
      have hnext : (t'.setList .host l').nextNode = t.nextNode := hhalf.nextNode
      rw [hnext]
      rcases hhalf.guest x hx with rfl | hx
      · exact hb.allocated
      · exact h.fresh x hx

/-- `insort_binding2` sets the flag of the binding it inserts. -/
def Binding.flagged (b : Binding) : Binding :=
  { b with needSubstitution := comparePaths b.host b.guest ≠ .pathsAreEqual }

theorem Binding.Clean.flagged_need (h : b.Clean) :
    b.flagged.needSubstitution = true ↔ b.flagged.host ≠ b.flagged.guest := by
  simp [Binding.flagged, h.host.tidy.comparePaths_eq_pathsAreEqual h.guest.tidy]

theorem Bindings.Sorted.insort (h : t.Sorted) (hb : t.Accepts b) :
    (insortBinding2 t b).Sorted ∧
      (∀ x ∈ (insortBinding2 t b).guest, x = b.flagged ∨ x ∈ t.guest) ∧
      (∀ g, g ∈ (insortBinding2 t b).guest.map (·.guest) ↔
        g = b.guest ∨ g ∈ t.guest.map (·.guest)) ∧
      (insortBinding2 t b).nextNode = t.nextNode := by
  have hb' : t.Accepts b.flagged := ⟨⟨hb.clean.host, hb.clean.guest⟩, hb.unused, hb.allocated⟩
  have hhalf := h.insort_guest hb'
  obtain ⟨hsorted, hguest⟩ := hhalf.insort_host h hb' hb.clean.flagged_need
  have heq : insortBinding2 t b = insortBinding (insortBinding t .guest b.flagged) .host b.flagged :=
    rfl
  rw [heq]
  refine ⟨hsorted, ?_, ?_, ?_⟩
  · rw [hguest]
    exact hhalf.guest
  · rw [hguest]
    exact hhalf.paths
  · rw [insortBinding_nextNode, insortBinding_nextNode]

theorem Bindings.Sorted.insort3 {t : Bindings} (h : t.Sorted) {hostPath guestPath : CString}
    (hhost : Canonical hostPath) (hguest : Canonical guestPath) :
    (insortBinding3 t hostPath guestPath).Sorted ∧
      (∀ x ∈ (insortBinding3 t hostPath guestPath).guest,
        x.node = t.nextNode ∧ x.host = hostPath ∧ x.guest = guestPath ∨ x ∈ t.guest) ∧
      (∀ g, g ∈ (insortBinding3 t hostPath guestPath).guest.map (·.guest) ↔
        g = guestPath ∨ g ∈ t.guest.map (·.guest)) ∧
      (insortBinding3 t hostPath guestPath).nextNode = t.nextNode + 1 := by
  have hfresh : Bindings.Sorted { t with nextNode := t.nextNode + 1 } :=
    { h with fresh := fun x hx => Nat.lt_succ_of_lt (h.fresh x hx) }
  have haccepts : Bindings.Accepts { t with nextNode := t.nextNode + 1 }
      ⟨t.nextNode, hostPath, guestPath, false⟩ := by
    refine ⟨⟨hhost, hguest⟩, fun hmem => ?_, Nat.lt_succ_self _⟩
    obtain ⟨x, hx, heq⟩ := List.mem_map.mp hmem
    exact absurd (h.fresh x hx) (by rw [heq]; exact Nat.lt_irrefl _)
  obtain ⟨hsorted, hguests, hpaths, hnext⟩ := hfresh.insort haccepts
  refine ⟨hsorted, fun x hx => ?_, hpaths, hnext⟩
  rcases hguests x hx with rfl | hx
  · exact .inl ⟨rfl, rfl, rfl⟩
  · exact .inr hx

/-! ## The root -/

theorem Bindings.Sorted.root_last (h : t.Sorted) (hroot : t.Rooted) :
    ∃ b, t.guest.getLast? = some b ∧ b.guest = ['/'] := by
  obtain ⟨b, hb, hguest⟩ := List.mem_map.mp hroot
  obtain ⟨pre, post, hl⟩ := List.append_of_mem hb
  refine ⟨b, ?_, hguest⟩
  cases post with
  | nil => simp [hl]
  | cons x post =>
      have horder := h.guestOrder
      have hdistinct := h.distinct
      have hx := h.clean x (by simp [hl])
      rw [hl] at horder hdistinct
      have hnot : ¬ b.above .guest x :=
        (List.pairwise_cons.mp (List.pairwise_append.mp horder).2.1).1 x List.mem_cons_self
      have hne : x.guest ≠ ['/'] := by
        intro heq
        simp only [List.map_append, List.map_cons, List.nodup_append, List.nodup_cons] at hdistinct
        exact hdistinct.2.1.1 (by simp [heq, hguest])
      obtain ⟨names, hnames⟩ := hx.guest
      refine absurd ?_ hnot
      rw [Binding.above, Binding.path, Binding.path, hguest, hnames, ← pathOf_nil, below_pathOf]
      refine ⟨List.nil_prefix, ?_⟩
      rintro rfl
      exact hne hnames

theorem Bindings.Sorted.wellFormed (h : t.Sorted) (hroot : t.Rooted) :
    t.WellFormed := by
  have hwf : ∀ b ∈ t.guest, b.WellFormed :=
    fun b hb => ⟨(h.clean b hb).host.tidy, (h.clean b hb).guest.tidy, h.need b hb⟩
  exact ⟨hwf, fun b hb => hwf b (h.same.mem_iff.mpr hb), h.root_last hroot⟩

theorem Bindings.Sorted.clean_list (h : t.Sorted)
    (hs : side ≠ .pending) (hb : b ∈ t.list side) : b.Clean := by
  cases side with
  | guest => exact h.clean b hb
  | host => exact h.clean b (h.same.mem_iff.mpr hb)
  | pending => exact absurd rfl hs

/-- **The first match is the longest prefix.** Of all the bindings that contain a path, the one
`get_binding` finds lies below every other. -/
theorem getBinding_deepest (h : t.Sorted) (hroot : t.Rooted) {path : CString}
    {c : Binding} (hget : getBinding t .guest path = some b) (hc : c ∈ t.guest)
    (hin : covers t .guest path c = true) : Within (stem c.guest) (stem b.guest) := by
  obtain ⟨hmem, -, hpath, hb⟩ := getBinding_spec (h.wellFormed hroot) hget
  have hcov : Within (stem c.guest) (stem path) := by
    have htidy := (h.clean c hc).guest.tidy
    rw [← comparePaths_within htidy.ne_nil hpath]
    simpa [covers, Binding.path] using hin
  rcases h.guestOrder.find?_deepest hget hc hin with rfl | hnot
  · exact .refl _
  · rcases Within.total hcov hb with hcb | hbc
    · exact hcb
    · exact absurd hbc hnot

end Improot.Path
