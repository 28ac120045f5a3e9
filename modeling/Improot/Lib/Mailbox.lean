import Mathlib.Data.List.Nodup
import Mathlib.Data.List.Perm.Basic
import Mathlib.Order.Lattice

/-! # Mailboxes with selective receivers

Messages are sent to a mailbox, each with a stamp above the stamps before, and a receiver takes the
first message that its selector matches.  No message is lost or received twice, and those that a
selector matches are received in the order they were sent. -/

namespace Improot.Lib

/-- What was sent to a mailbox, what was received with the selector it was received by, and what is
still there; oldest first. -/
structure Mailbox (M S : Type*) where
  sent : List M
  received : List (S × M)
  queue : List M

namespace Mailbox

variable {M S T : Type*}

def send (b : Mailbox M S) (m : M) : Mailbox M S where
  sent := b.sent ++ [m]
  received := b.received
  queue := b.queue ++ [m]

def receive [BEq M] (b : Mailbox M S) (s : S) (m : M) : Mailbox M S where
  sent := b.sent
  received := b.received ++ [(s, m)]
  queue := b.queue.erase m

section Conserved

variable [LinearOrder T] (stamp : M → T) (selects : S → M → Bool)

/-- **What a mailbox guarantees.** -/
structure Conserved (b : Mailbox M S) : Prop where
  perm : b.sent.Perm (b.received.map Prod.snd ++ b.queue)
  sent : b.sent.Pairwise (stamp · < stamp ·)
  queue : b.queue.Pairwise (stamp · < stamp ·)
  selected : ∀ r ∈ b.received, selects r.1 r.2 = true
  fifo : ∀ pre s m post, b.received = pre ++ (s, m) :: post → ∀ y ∈ b.sent, stamp y < stamp m →
    selects s y = true → y ∈ pre.map Prod.snd

variable {stamp selects} {b : Mailbox M S}

theorem Conserved.empty : Conserved stamp selects (⟨[], [], []⟩ : Mailbox M S) := by
  refine ⟨.refl _, .nil, .nil, by simp, ?_⟩
  intro pre s m post h
  simp at h

theorem Conserved.send (h : b.Conserved stamp selects) {m : M}
    (hm : ∀ y ∈ b.sent, stamp y < stamp m) : (b.send m).Conserved stamp selects := by
  have hqueue : ∀ y ∈ b.queue, stamp y < stamp m :=
    fun y hy => hm y (h.perm.mem_iff.mpr (List.mem_append_right _ hy))
  constructor
  · show (b.sent ++ [m]).Perm (b.received.map Prod.snd ++ (b.queue ++ [m]))
    rw [← List.append_assoc]
    exact h.perm.append_right [m]
  · show (b.sent ++ [m]).Pairwise _
    rw [List.pairwise_append]
    exact ⟨h.sent, List.pairwise_singleton _ _, fun y hy z hz => List.mem_singleton.mp hz ▸ hm y hy⟩
  · show (b.queue ++ [m]).Pairwise _
    rw [List.pairwise_append]
    exact ⟨h.queue, List.pairwise_singleton _ _,
      fun y hy z hz => List.mem_singleton.mp hz ▸ hqueue y hy⟩
  · exact h.selected
  · intro pre s m' post hreceived y hy hlt hselects
    rcases List.mem_append.mp hy with hy | hy
    · exact h.fifo pre s m' post hreceived y hy hlt hselects
    · -- the new message comes after all that were received
      rw [List.mem_singleton.mp hy] at hlt
      have hmem : m' ∈ b.sent := by
        apply h.perm.mem_iff.mpr
        apply List.mem_append_left
        rw [show b.received = pre ++ (s, m') :: post from hreceived]
        simp
      exact absurd (hm m' hmem) (not_lt_of_gt hlt)

theorem Conserved.receive [BEq M] [LawfulBEq M] (h : b.Conserved stamp selects) {s : S} {m : M}
    (hfind : b.queue.find? (selects s) = some m) : (b.receive s m).Conserved stamp selects := by
  obtain ⟨hselects, before, after, hqueue, hbefore⟩ := List.find?_eq_some_iff_append.mp hfind
  have hmem : m ∈ b.queue := List.mem_of_find?_eq_some hfind
  constructor
  · show b.sent.Perm ((b.received ++ [(s, m)]).map Prod.snd ++ b.queue.erase m)
    rw [List.map_append, List.append_assoc]
    exact h.perm.trans ((List.perm_cons_erase hmem).append_left _)
  · exact h.sent
  · exact h.queue.sublist List.erase_sublist
  · intro r hr
    rcases List.mem_append.mp hr with hr | hr
    · exact h.selected r hr
    · rw [List.mem_singleton.mp hr]
      exact hselects
  · intro pre s' m' post hreceived y hy hlt hy_selects
    rcases List.eq_nil_or_concat' post with rfl | ⟨post, r, rfl⟩
    · -- the new message: an older one that the selector matches would have been found
      obtain ⟨rfl, heq⟩ := List.append_inj' hreceived rfl
      cases heq
      rcases List.mem_append.mp (h.perm.mem_iff.mp hy) with hy | hy
      · exact hy
      · exfalso
        have hsorted := h.queue
        rw [hqueue] at hy
        rw [hqueue, List.pairwise_append] at hsorted
        rcases List.mem_append.mp hy with hy | hy
        · simpa [hy_selects] using hbefore y hy
        · rcases List.mem_cons.mp hy with rfl | hy
          · exact lt_irrefl _ hlt
          · exact not_lt_of_gt hlt (List.rel_of_pairwise_cons hsorted.2.1 hy)
    · have hreceived : b.received ++ [(s, m)] = (pre ++ (s', m') :: post) ++ [r] := by
        rw [List.append_assoc]
        exact hreceived
      exact h.fifo pre s' m' post (List.append_inj' hreceived rfl).1 y hy hlt hy_selects

/-! ## What follows -/

theorem Conserved.stamps_nodup (h : b.Conserved stamp selects) : (b.sent.map stamp).Nodup := by
  rw [List.Nodup, List.pairwise_map]
  exact h.sent.imp ne_of_lt

/-- **No message is received twice**, and one that was received isn't there any more. -/
theorem Conserved.received_nodup (h : b.Conserved stamp selects) :
    (b.received.map Prod.snd).Nodup ∧ ∀ m ∈ b.received.map Prod.snd, m ∉ b.queue := by
  have hnodup := h.perm.nodup_iff.mp (List.Nodup.of_map stamp h.stamps_nodup)
  rw [List.nodup_append] at hnodup
  exact ⟨hnodup.1, fun m hm hq => hnodup.2.2 m hm m hq rfl⟩

/-- **The messages of a selector are received in the order they were sent.** -/
theorem Conserved.order (h : b.Conserved stamp selects) {pre mid post : List (S × M)} {s s' : S}
    {m m' : M} (hreceived : b.received = pre ++ (s, m) :: (mid ++ (s', m') :: post))
    (hselects : selects s m' = true) : stamp m < stamp m' := by
  have hmem : ∀ r ∈ b.received, r.2 ∈ b.sent := fun r hr =>
    h.perm.mem_iff.mpr (List.mem_append_left _ (List.mem_map_of_mem hr))
  have hm : (s, m) ∈ b.received := by simp [hreceived]
  have hm' : (s', m') ∈ b.received := by simp [hreceived]
  have hnodup := h.received_nodup.1
  simp only [hreceived, List.map_append, List.map_cons, List.nodup_append, List.nodup_cons,
    List.mem_append, List.mem_cons] at hnodup
  obtain ⟨-, ⟨hne, -⟩, hdisjoint⟩ := hnodup
  rcases lt_trichotomy (stamp m) (stamp m') with hlt | heq | hlt
  · exact hlt
  · have hsame := List.inj_on_of_nodup_map h.stamps_nodup (hmem _ hm) (hmem _ hm') heq
    exact absurd (.inr (.inl hsame)) hne
  · have hbefore := h.fifo pre s m _ hreceived m' (hmem _ hm') hlt hselects
    exact absurd rfl (hdisjoint m' hbefore m' (by simp))

end Conserved

end Mailbox

end Improot.Lib
