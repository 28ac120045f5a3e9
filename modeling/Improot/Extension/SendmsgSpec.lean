import Improot.Extension.Sendmsg

/-!
# How credentials are fixed

The loop against the walk of the kernel; the headers, with the layout of the tracee in PRoot's own
structure; and the copies.
-/

namespace Improot.Extension.Sendmsg

open Improot.Lib

variable {t : Tracer} {mode : Mode} {m : Memory}

/-! ## Messages in a buffer -/

variable {control k msg : Nat} {args buf : Bytes}

theorem readLe_congr {n i : Nat} {buf' : Bytes} (h : buf.drop k = buf'.drop k) (hki : k ≤ i) :
    readLe n i buf = readLe n i buf' := by
  have hdrop : buf.drop i = buf'.drop i := by
    rw [← Nat.add_sub_cancel' hki, ← List.drop_drop, ← List.drop_drop, h]
  unfold readLe
  rw [hdrop]

variable {pos : Nat} {ctl : Bytes}

theorem unpackCmsghdr_congr {buf' : Bytes} (h : buf.drop pos = buf'.drop pos) :
    unpackCmsghdr mode buf pos = unpackCmsghdr mode buf' pos := by
  unfold unpackCmsghdr
  rw [readLe_congr h (Nat.le_refl _), readLe_congr h (i := pos + mode.ptr) (by omega),
    readLe_congr h (i := pos + mode.ptr + 4) (by omega)]

theorem drop_next {buf' : Bytes} {next : Nat} (h : buf.drop pos = buf'.drop pos)
    (hle : pos ≤ next) : buf.drop next = buf'.drop next := by
  rw [← Nat.add_sub_cancel' hle, ← List.drop_drop, ← List.drop_drop, h]

/-! ## The walk of the kernel -/

section Walk

variable {ctl : Bytes} {pos : Nat}

theorem visits_end (h : ctl.length < pos + mode.cmsghdr) : visits mode ctl pos = [] := by
  unfold visits
  rw [if_pos h]

theorem Cmsghdr.Fits.header {c : Cmsghdr} (hpos : pos < ctl.length)
    (h : c.Fits mode (ctl.length - pos)) : ¬ ctl.length < pos + mode.cmsghdr := by
  have hlen := h.1
  have hleft := h.2
  omega

variable {c : Cmsghdr}

theorem visits_found (hc : unpackCmsghdr mode ctl pos = c) (hpos : pos < ctl.length)
    (hfits : c.Fits mode (ctl.length - pos)) (hcred : c.IsCredentials)
    (hlen : c.len = mode.cmsghdr + sizeofUcred) :
    visits mode ctl pos = pos :: visits mode ctl (nextCmsg mode pos c.len) := by
  subst hc
  conv_lhs => unfold visits
  rw [if_neg (hfits.header hpos)]
  dsimp only
  rw [dif_pos hfits, if_pos hcred, if_pos hlen]

theorem visits_other (hc : unpackCmsghdr mode ctl pos = c) (hpos : pos < ctl.length)
    (hfits : c.Fits mode (ctl.length - pos)) (hcred : ¬ c.IsCredentials) :
    visits mode ctl pos = visits mode ctl (nextCmsg mode pos c.len) := by
  subst hc
  conv_lhs => unfold visits
  rw [if_neg (hfits.header hpos)]
  dsimp only
  rw [dif_pos hfits, if_neg hcred]

/-- **The control data are messages, one after the other**: nothing is left over behind the last one,
and credentials have the size of credentials. -/
def complete (mode : Mode) (ctl : Bytes) (pos : Nat) : Bool :=
  if ctl.length ≤ pos then true
  else
    let c := unpackCmsghdr mode ctl pos
    if _hfits : c.Fits mode (ctl.length - pos) then
      if c.IsCredentials ∧ c.len ≠ mode.cmsghdr + sizeofUcred then false
      else complete mode ctl (nextCmsg mode pos c.len)
    else false
  termination_by ctl.length - pos
  decreasing_by
    have hlt : pos < nextCmsg mode pos (unpackCmsghdr mode ctl pos).len := lt_nextCmsg _hfits
    omega

theorem complete_end (h : ctl.length ≤ pos) : complete mode ctl pos = true := by
  unfold complete
  rw [if_pos h]

theorem complete_step (hc : unpackCmsghdr mode ctl pos = c) (hpos : pos < ctl.length)
    (hfits : c.Fits mode (ctl.length - pos))
    (hsize : ¬ (c.IsCredentials ∧ c.len ≠ mode.cmsghdr + sizeofUcred)) :
    complete mode ctl pos = complete mode ctl (nextCmsg mode pos c.len) := by
  subst hc
  conv_lhs => unfold complete
  rw [if_neg (by omega)]
  dsimp only
  rw [dif_pos hfits, if_neg hsize]

theorem complete_missized (hc : unpackCmsghdr mode ctl pos = c) (hpos : pos < ctl.length)
    (hsize : c.IsCredentials ∧ c.len ≠ mode.cmsghdr + sizeofUcred) :
    complete mode ctl pos = false := by
  subst hc
  unfold complete
  rw [if_neg (by omega)]
  dsimp only
  by_cases hfits : (unpackCmsghdr mode ctl pos).Fits mode (ctl.length - pos)
  · rw [dif_pos hfits, if_pos hsize]
  · rw [dif_neg hfits]

theorem complete_unfit (hc : unpackCmsghdr mode ctl pos = c)
    (hpos : pos < ctl.length) (hfits : ¬ c.Fits mode (ctl.length - pos)) :
    complete mode ctl pos = false := by
  subst hc
  unfold complete
  rw [if_neg (by omega)]
  dsimp only
  rw [dif_neg hfits]

theorem converts_of_complete (h : complete mode ctl pos = true) : converts mode ctl pos = true := by
  fun_induction complete mode ctl pos with
  | case1 pos hend =>
      unfold converts
      rw [if_pos hend]
  | case2 pos hend c hfits hsize => cases h
  | case3 pos hend c hfits hsize ih =>
      unfold converts
      rw [if_neg hend]
      dsimp only
      rw [dif_pos hfits]
      exact ih h
  | case4 pos hend c hfits => cases h

theorem visited_of_complete (h : complete mode ctl 0 = true) : visited mode ctl = visits mode ctl 0 := by
  unfold visited
  rw [if_neg]
  intro hconverts
  exact hconverts.2 (converts_of_complete h)

theorem visits_bounds {p : Nat} (h : p ∈ visits mode ctl pos) :
    pos ≤ p ∧ p + mode.cmsghdr + sizeofUcred ≤ ctl.length := by
  fun_induction visits mode ctl pos with
  | case1 => cases h
  | case2 pos hend c hfits hcred hlen ih =>
      have hpos := mode.cmsghdr_pos
      have hlt : pos < nextCmsg mode pos c.len := lt_nextCmsg hfits
      have hleft := hfits.2
      cases List.mem_cons.mp h with
      | inl heq => omega
      | inr hmem =>
          have hahead := ih hmem
          omega
  | case3 => cases h
  | case4 pos hend c hfits hcred ih =>
      have hlt : pos < nextCmsg mode pos c.len := lt_nextCmsg hfits
      have hahead := ih h
      omega
  | case5 => cases h

theorem visits_apart : (visits mode ctl pos).Pairwise fun p q => p + mode.cmsghdr + sizeofUcred ≤ q := by
  fun_induction visits mode ctl pos with
  | case1 => exact .nil
  | case2 pos hend c hfits hcred hlen ih =>
      refine .cons ?_ ih
      intro q hq
      have hahead := (visits_bounds hq).1
      have hle := le_nextCmsg mode pos c.len
      omega
  | case3 => exact .nil
  | case4 pos hend c hfits hcred ih => exact ih
  | case5 => exact .nil

end Walk

/-! ## The loop -/

theorem length_setIds (h : pos + t.mode.cmsghdr + sizeofUcred ≤ buf.length) :
    (t.setIds buf pos).length = buf.length := by
  apply patch_length
  rw [List.length_append, le_length, le_length]
  unfold sizeofUcred at h
  omega

theorem drop_setIds (h : pos + t.mode.cmsghdr + sizeofUcred ≤ buf.length)
    (hk : pos + t.mode.cmsghdr + sizeofUcred ≤ k) : (t.setIds buf pos).drop k = buf.drop k := by
  have hlength : (buf.take (pos + t.mode.cmsghdr + 4) ++ (le 4 t.getuid ++ le 4 t.getgid)).length =
      pos + t.mode.cmsghdr + sizeofUcred := by
    unfold sizeofUcred at h ⊢
    rw [List.length_append, List.length_take, List.length_append, le_length, le_length]
    omega
  have hend : pos + t.mode.cmsghdr + 4 + (le 4 t.getuid ++ le 4 t.getgid).length =
      pos + t.mode.cmsghdr + sizeofUcred := by
    rw [List.length_append, le_length, le_length]
    rfl
  apply drop_next _ hk
  unfold Tracer.setIds patch
  rw [List.drop_left' hlength, hend]

/-- **The loop fixes what the kernel visits**, if the control data are nothing but messages; and nothing
otherwise. -/
theorem fixup_eq (t : Tracer) {did : Bool}
    (hlength : buf.length = ctl.length) (hahead : buf.drop pos = ctl.drop pos) :
    t.fixup ctl.length buf pos did =
      if complete t.mode ctl pos then
        some ((visits t.mode ctl pos).foldl t.setIds buf,
          did || !(visits t.mode ctl pos).isEmpty)
      else none := by
  fun_induction Tracer.fixup t ctl.length buf pos did with
  | case1 buf pos did hpos hheader =>
      have hunfit : ¬ (unpackCmsghdr t.mode ctl pos).Fits t.mode (ctl.length - pos) := by
        intro hfits
        have hlen := hfits.1
        have hleft := hfits.2
        omega
      rw [complete_unfit rfl hpos hunfit]
      rfl
  | case2 buf pos did hpos hheader c hfits hcred hlen ih =>
      have hc : unpackCmsghdr t.mode ctl pos = c := (unpackCmsghdr_congr hahead).symm
      have hleft := hfits.2
      have hinside : pos + t.mode.cmsghdr + sizeofUcred ≤ buf.length := by omega
      have hle := le_nextCmsg t.mode pos c.len
      have hnext : (t.setIds buf pos).drop (nextCmsg t.mode pos c.len) =
          ctl.drop (nextCmsg t.mode pos c.len) := by
        rw [drop_setIds hinside (by omega)]
        exact drop_next hahead (by omega)
      rw [ih ((length_setIds hinside).trans hlength) hnext,
        complete_step hc hpos hfits (fun h => h.2 hlen), visits_found hc hpos hfits hcred hlen]
      simp
  | case3 buf pos did hpos hheader c hfits hcred hlen =>
      have hc : unpackCmsghdr t.mode ctl pos = c := (unpackCmsghdr_congr hahead).symm
      rw [complete_missized hc hpos ⟨hcred, hlen⟩]
      rfl
  | case4 buf pos did hpos hheader c hfits hcred ih =>
      have hc : unpackCmsghdr t.mode ctl pos = c := (unpackCmsghdr_congr hahead).symm
      have hnext := drop_next hahead (Nat.le_of_lt (lt_nextCmsg hfits))
      rw [ih hlength hnext, complete_step hc hpos hfits (fun h => hcred h.1),
        visits_other hc hpos hfits hcred]
  | case5 buf pos did hpos hheader c hfits =>
      have hc : unpackCmsghdr t.mode ctl pos = c := (unpackCmsghdr_congr hahead).symm
      rw [complete_unfit hc hpos hfits]
      rfl
  | case6 buf pos did hpos =>
      have hmode := t.mode.cmsghdr_pos
      rw [complete_end (by omega), visits_end (by omega)]
      simp

/-! ## Ids that are real already -/

def Tracer.RealIds (t : Tracer) (ctl : Bytes) (pos : Nat) : Prop :=
  (ctl.drop (pos + t.mode.cmsghdr + 4)).take 8 = le 4 t.getuid ++ le 4 t.getgid

theorem length_ids (t : Tracer) : (le 4 t.getuid ++ le 4 t.getgid).length = 8 := by
  rw [List.length_append, le_length, le_length]

theorem patch_same {bs : Bytes} {off : Nat} (h : (buf.drop off).take bs.length = bs) :
    patch buf off bs = buf := by
  calc patch buf off bs
      = buf.take off ++ ((buf.drop off).take bs.length ++ (buf.drop off).drop bs.length) := by
        rw [h, List.drop_drop]
        unfold patch
        rw [List.append_assoc]
    _ = buf := by rw [List.take_append_drop, List.take_append_drop]

theorem setIds_of_real (h : t.RealIds ctl pos) : t.setIds ctl pos = ctl := by
  apply patch_same
  rw [length_ids]
  exact h

theorem realIds_congr {ctl' : Bytes} (h : ctl.take (pos + t.mode.cmsghdr + sizeofUcred) =
      ctl'.take (pos + t.mode.cmsghdr + sizeofUcred)) : t.RealIds ctl pos ↔ t.RealIds ctl' pos := by
  have hsame := congrArg (List.drop (pos + t.mode.cmsghdr + 4)) h
  have height : pos + t.mode.cmsghdr + sizeofUcred - (pos + t.mode.cmsghdr + 4) = 8 := by
    unfold sizeofUcred
    omega
  rw [List.drop_take, List.drop_take, height] at hsame
  unfold Tracer.RealIds
  rw [hsame]

theorem realIds_setIds
    (h : pos + t.mode.cmsghdr + sizeofUcred ≤ ctl.length) : t.RealIds (t.setIds ctl pos) pos := by
  have hfits : pos + t.mode.cmsghdr + 4 + (le 4 t.getuid ++ le 4 t.getgid).length ≤ ctl.length := by
    rw [length_ids]
    unfold sizeofUcred at h
    omega
  have hwritten := (appends_patch hfits).written
  rw [length_ids] at hwritten
  exact hwritten

theorem take_setIds (hk : k ≤ pos)
    (h : pos + t.mode.cmsghdr + sizeofUcred ≤ ctl.length) : (t.setIds ctl pos).take k = ctl.take k := by
  unfold Tracer.setIds patch
  unfold sizeofUcred at h
  rw [List.append_assoc, List.take_append_of_le_length (by rw [List.length_take]; omega),
    List.take_take, Nat.min_eq_left (by omega)]

theorem length_foldl_setIds {ps : List Nat}
    (h : ∀ p ∈ ps, p + t.mode.cmsghdr + sizeofUcred ≤ ctl.length) :
    (ps.foldl t.setIds ctl).length = ctl.length := by
  induction ps generalizing ctl with
  | nil => rfl
  | cons p ps ih =>
      have hp := length_setIds (h p List.mem_cons_self)
      rw [List.foldl_cons, ih, hp]
      intro q hq
      rw [hp]
      exact h q (List.mem_cons_of_mem _ hq)

theorem take_foldl_setIds {ps : List Nat} (hk : ∀ p ∈ ps, k ≤ p)
    (h : ∀ p ∈ ps, p + t.mode.cmsghdr + sizeofUcred ≤ ctl.length) :
    (ps.foldl t.setIds ctl).take k = ctl.take k := by
  induction ps generalizing ctl with
  | nil => rfl
  | cons p ps ih =>
      have hp := h p List.mem_cons_self
      rw [List.foldl_cons, ih, take_setIds (hk p List.mem_cons_self) hp]
      · intro q hq
        exact hk q (List.mem_cons_of_mem _ hq)
      · intro q hq
        rw [length_setIds hp]
        exact h q (List.mem_cons_of_mem _ hq)

theorem foldl_setIds_eq_iff {ps : List Nat}
    (hapart : ps.Pairwise fun p q => p + t.mode.cmsghdr + sizeofUcred ≤ q)
    (h : ∀ p ∈ ps, p + t.mode.cmsghdr + sizeofUcred ≤ ctl.length) :
    ps.foldl t.setIds ctl = ctl ↔ ∀ p ∈ ps, t.RealIds ctl p := by
  induction ps with
  | nil => exact iff_of_true rfl fun p hp => absurd hp List.not_mem_nil
  | cons p ps ih =>
      obtain ⟨hp, hps⟩ := List.pairwise_cons.mp hapart
      have hinside := h p List.mem_cons_self
      have hrest : ∀ q ∈ ps, q + t.mode.cmsghdr + sizeofUcred ≤ ctl.length :=
        fun q hq => h q (List.mem_cons_of_mem _ hq)
      have ih := ih hps hrest
      constructor
      · intro heq
        rw [List.foldl_cons] at heq
        have hrest' : ∀ q ∈ ps, q + t.mode.cmsghdr + sizeofUcred ≤ (t.setIds ctl p).length := by
          intro q hq
          rw [length_setIds hinside]
          exact hrest q hq
        have htake := take_foldl_setIds hp hrest'
        rw [heq] at htake
        have hreal := (realIds_congr htake).mpr (realIds_setIds hinside)
        rw [setIds_of_real hreal] at heq
        intro q hq
        cases List.mem_cons.mp hq with
        | inl hq =>
            rw [hq]
            exact hreal
        | inr hq => exact ih.mp heq q hq
      · intro hreal
        rw [List.foldl_cons, setIds_of_real (hreal p List.mem_cons_self)]
        exact ih.mpr fun q hq => hreal q (List.mem_cons_of_mem _ hq)

theorem visited_spec (mode : Mode) (ctl : Bytes) :
    visited mode ctl = [] ∨ visited mode ctl = visits mode ctl 0 := by
  unfold visited
  split
  · exact .inl rfl
  · exact .inr rfl

theorem wanted_eq_iff : t.wanted ctl = ctl ↔ ∀ p ∈ visited t.mode ctl, t.RealIds ctl p := by
  unfold Tracer.wanted
  cases visited_spec t.mode ctl with
  | inl hnone =>
      rw [hnone]
      exact iff_of_true rfl fun p hp => absurd hp List.not_mem_nil
  | inr hall =>
      rw [hall]
      exact foldl_setIds_eq_iff visits_apart fun p hp => (visits_bounds hp).2

theorem length_wanted (ctl : Bytes) : (t.wanted ctl).length = ctl.length := by
  unfold Tracer.wanted
  cases visited_spec t.mode ctl with
  | inl hnone =>
      rw [hnone]
      rfl
  | inr hall =>
      rw [hall]
      exact length_foldl_setIds fun p hp => (visits_bounds hp).2

/-! ## Headers -/

theorem readLe_append {n i : Nat} {xs ys : Bytes} (h : i + n ≤ xs.length) :
    readLe n i (xs ++ ys) = readLe n i xs := by
  unfold readLe
  rw [List.drop_append_of_le_length (by omega),
    List.take_append_of_le_length (by rw [List.length_drop]; omega)]

theorem Mode.offsets (mode : Mode) :
    mode.controlOffset + mode.ptr = mode.controllenOffset ∧
      mode.controllenOffset + mode.ptr ≤ mode.msghdr ∧ mode.msghdr ≤ mode.ownMsghdr := by
  cases mode <;> decide

theorem ownHeader_eq {header : Bytes} (h : header.length = mode.msghdr) :
    ownHeader mode header = header ++ List.replicate (mode.ownMsghdr - mode.msghdr) 0 := by
  unfold ownHeader patch
  rw [List.take_zero, List.nil_append, Nat.zero_add, List.drop_replicate, h]

theorem unpack_ownHeader {header : Bytes} (h : header.length = mode.msghdr) :
    unpackControlAndLen mode (ownHeader mode header) = unpackControlAndLen mode header := by
  obtain ⟨hcontrol, hcontrollen, -⟩ := mode.offsets
  unfold unpackControlAndLen
  rw [ownHeader_eq h, readLe_append (by omega), readLe_append (by omega)]

/-- The size that is compared is the one of the guest, unless this is a tracee of 32 bits under a PRoot
of 64 bits: then it is zero. -/
theorem tooLong_iff {header : Bytes} (h : header.length = mode.msghdr) :
    TooLong mode header ↔
      mode ≠ .word32On64 ∧ maxControllen < (unpackControlAndLen mode header).2 := by
  unfold TooLong
  rw [ownHeader_eq h]
  cases mode with
  | word64 | word32 =>
      rw [readLe_append (Nat.le_trans (by decide) (Nat.le_of_eq h.symm))]
      exact (and_iff_right (by decide)).symm
  | word32On64 =>
      have hlength : header.length = 28 := h
      have hzero : readLe 8 40 (header ++ List.replicate 28 0) = 0 := by
        unfold readLe
        rw [List.drop_append, List.drop_eq_nil_of_le (by omega), hlength]
        rfl
      refine iff_of_false ?_ fun hne => hne.1 rfl
      show ¬ maxControllen < readLe 8 40 (header ++ List.replicate 28 0)
      rw [hzero]
      decide

theorem take_packControl {header : Bytes} (h : header.length = mode.msghdr) :
    (packControl mode (ownHeader mode header) control).take mode.msghdr =
      packControl mode header control := by
  obtain ⟨hcontrol, hcontrollen, -⟩ := mode.offsets
  have hfits : mode.controlOffset + mode.ptr ≤ header.length := by omega
  have hlength : (packControl mode header control).length = mode.msghdr := by
    unfold packControl
    rw [patch_length (by rw [le_length]; exact hfits), h]
  have hsplit : packControl mode (ownHeader mode header) control =
      packControl mode header control ++ List.replicate (mode.ownMsghdr - mode.msghdr) 0 := by
    rw [ownHeader_eq h]
    unfold packControl patch
    rw [le_length, List.take_append_of_le_length (by omega), List.drop_append_of_le_length hfits,
      List.append_assoc, List.append_assoc, List.append_assoc]
  rw [hsplit, List.take_left' hlength]

theorem length_packControl {header : Bytes} (h : header.length = mode.msghdr) :
    (packControl mode header control).length = mode.msghdr := by
  obtain ⟨hcontrol, hcontrollen, -⟩ := mode.offsets
  unfold packControl
  rw [patch_length (by rw [le_length]; omega), h]

theorem unpack_packControl {header : Bytes} (h : header.length = mode.msghdr)
    (hcontrol : control < 256 ^ mode.ptr) :
    unpackControlAndLen mode (packControl mode header control) =
      (control, (unpackControlAndLen mode header).2) := by
  obtain ⟨hoffset, hcontrollen, -⟩ := mode.offsets
  have hfits : mode.controlOffset + (le mode.ptr control).length ≤ header.length := by
    rw [le_length]
    omega
  have hpatch := appends_patch hfits
  have haddress : readLe mode.ptr mode.controlOffset (packControl mode header control) = control := by
    have hwritten := hpatch.written
    rw [le_length] at hwritten
    unfold readLe packControl
    rw [hwritten, ofLe_le_of_lt hcontrol]
  have hbehind : (packControl mode header control).drop mode.controllenOffset =
      header.drop mode.controllenOffset := by
    have hstart : (header.take mode.controlOffset ++ le mode.ptr control).length =
        mode.controllenOffset := by
      rw [List.length_append, List.length_take, le_length]
      omega
    unfold packControl patch
    rw [List.drop_left' hstart, le_length, hoffset]
  have hsize : readLe mode.ptr mode.controllenOffset (packControl mode header control) =
      readLe mode.ptr mode.controllenOffset header := readLe_congr hbehind (Nat.le_refl _)
  unfold unpackControlAndLen
  rw [haddress, hsize]

theorem packControl_packControl {header : Bytes} {control' : Nat}
    (h : header.length = mode.msghdr) :
    packControl mode (packControl mode header control) control' = packControl mode header control' := by
  obtain ⟨hoffset, hcontrollen, -⟩ := mode.offsets
  have htake : (header.take mode.controlOffset).length = mode.controlOffset := by
    rw [List.length_take]
    omega
  have hstart : (header.take mode.controlOffset ++ le mode.ptr control).length =
      mode.controlOffset + mode.ptr := by
    rw [List.length_append, htake, le_length]
  unfold packControl patch
  rw [le_length, le_length, List.drop_left' hstart,
    List.append_assoc (header.take mode.controlOffset) (le mode.ptr control), List.take_left' htake]

/-! ## What becomes of a message -/

structure Fixable (mode : Mode) (header ctl : Bytes) : Prop where
  control : HasControl mode header
  size : ¬ (mode ≠ .word32On64 ∧ maxControllen < (unpackControlAndLen mode header).2)
  complete : complete mode ctl 0 = true
  found : visits mode ctl 0 ≠ []

instance (mode : Mode) (header ctl : Bytes) : Decidable (Fixable mode header ctl) :=
  decidable_of_iff
    (HasControl mode header ∧
      ¬ (mode ≠ .word32On64 ∧ maxControllen < (unpackControlAndLen mode header).2) ∧
      Sendmsg.complete mode ctl 0 = true ∧ visits mode ctl 0 ≠ [])
    ⟨fun h => ⟨h.1, h.2.1, h.2.2.1, h.2.2.2⟩, fun h => ⟨h.control, h.size, h.complete, h.found⟩⟩

theorem handleMsg_eq {header : Bytes} (hheader : m.load msg t.mode.msghdr = some header)
    (hctl : m.load (unpackControlAndLen t.mode header).1 (unpackControlAndLen t.mode header).2 =
      some ctl) :
    t.handleMsg m msg =
      if Fixable t.mode header ctl then t.writeBack m (ownHeader t.mode header) (t.wanted ctl)
      else .kept := by
  have hlength := Memory.load_length hheader
  have hlength' := Memory.load_length hctl
  have hfixup : t.fixup ctl.length ctl 0 false = _ := fixup_eq t rfl rfl
  unfold Tracer.handleMsg
  rw [hheader]
  dsimp only
  rw [unpack_ownHeader hlength]
  by_cases hcontrol : HasControl t.mode header
  · rw [if_pos (show _ ≠ 0 ∧ _ ≠ 0 from hcontrol)]
    by_cases hlong : TooLong t.mode header
    · rw [if_pos hlong, if_neg fun h => h.size ((tooLong_iff hlength).mp hlong)]
    · rw [if_neg hlong, hctl]
      dsimp only
      rw [← hlength', hfixup]
      by_cases hcomplete : complete t.mode ctl 0 = true
      · rw [if_pos hcomplete]
        cases hfound : visits t.mode ctl 0 with
        | nil => rw [if_neg fun h : Fixable t.mode header ctl => h.found hfound]; rfl
        | cons p ps =>
            have hfixable : Fixable t.mode header ctl :=
              ⟨hcontrol, fun h => hlong ((tooLong_iff hlength).mpr h), hcomplete, by
                rw [hfound]
                exact List.cons_ne_nil p ps⟩
            rw [if_pos hfixable]
            unfold Tracer.wanted
            rw [visited_of_complete hcomplete, hfound]
            rfl
      · rw [if_neg hcomplete, if_neg fun h : Fixable t.mode header ctl => hcomplete h.complete]
  · rw [if_neg (show ¬ (_ ≠ 0 ∧ _ ≠ 0) from hcontrol), if_neg fun h => hcontrol h.control]

/-! ## What the kernel finds -/

theorem receive_of_load {header : Bytes} (hheader : m.load msg mode.msghdr = some header)
    (hctl : m.load (unpackControlAndLen mode header).1 (unpackControlAndLen mode header).2 =
      some ctl) :
    receive mode m args msg = some ⟨args, packControl mode header 0, ctl⟩ := by
  unfold receive
  rw [hheader]
  dsimp only
  rw [hctl]
  rfl

theorem receive_eq_some {r : Received} (h : receive mode m args msg = some r) :
    ∃ header ctl, m.load msg mode.msghdr = some header ∧
      m.load (unpackControlAndLen mode header).1 (unpackControlAndLen mode header).2 = some ctl ∧
      r = ⟨args, packControl mode header 0, ctl⟩ := by
  unfold receive at h
  cases hheader : m.load msg mode.msghdr with
  | none =>
      rw [hheader] at h
      cases h
  | some header =>
      rw [hheader] at h
      dsimp only at h
      rw [Option.map_eq_some_iff] at h
      obtain ⟨ctl, hctl, heq⟩ := h
      exact ⟨header, ctl, rfl, hctl, heq.symm⟩

theorem receive_congr {m' : Memory} (hheader : m'.load msg mode.msghdr = m.load msg mode.msghdr)
    (hctl : ∀ header, m.load msg mode.msghdr = some header →
      m'.load (unpackControlAndLen mode header).1 (unpackControlAndLen mode header).2 =
        m.load (unpackControlAndLen mode header).1 (unpackControlAndLen mode header).2) :
    receive mode m' args msg = receive mode m args msg := by
  unfold receive
  rw [hheader]
  cases hload : m.load msg mode.msghdr with
  | none => rfl
  | some header =>
      dsimp only
      rw [hctl header hload]

theorem receive_copies {m' : Memory} {addr : Nat} {header : Bytes}
    (hlength : header.length = mode.msghdr) (hcontrol : control < 256 ^ mode.ptr)
    (hsize : ctl.length = (unpackControlAndLen mode header).2)
    (hheader : m'.load addr mode.msghdr = some (packControl mode header control))
    (hctl : m'.load control ctl.length = some ctl) :
    receive mode m' args addr = some ⟨args, packControl mode header 0, ctl⟩ := by
  have hunpack := unpack_packControl hlength hcontrol
  have hpack : packControl mode (packControl mode header control) 0 = packControl mode header 0 :=
    packControl_packControl hlength
  rw [← hpack]
  apply receive_of_load hheader
  rw [hunpack, ← hsize]
  exact hctl

theorem handleMsg_of_unreadable (h : receive t.mode m args msg = none) :
    t.handleMsg m msg = .kept ∨ ∃ e, t.handleMsg m msg = .failed e := by
  unfold Tracer.handleMsg
  cases hheader : m.load msg t.mode.msghdr with
  | none => exact .inr ⟨.efault, rfl⟩
  | some header =>
      have hlength := Memory.load_length hheader
      have hctl : m.load (unpackControlAndLen t.mode header).1 (unpackControlAndLen t.mode header).2 =
          none := by
        cases hctl : m.load (unpackControlAndLen t.mode header).1
            (unpackControlAndLen t.mode header).2 with
        | none => rfl
        | some ctl =>
            rw [receive_of_load hheader hctl] at h
            cases h
      dsimp only
      rw [unpack_ownHeader hlength, hctl]
      split
      · split
        · exact .inl rfl
        · exact .inr ⟨.efault, rfl⟩
      · exact .inl rfl

/-! ## The copies -/

/-- Below the stack of the tracee there is room for the control data, for the header and for `extra`
bytes. -/
structure Tracer.Room (t : Tracer) (m : Memory) (controllen extra : Nat) : Prop where
  stack : controllen + t.redZone + t.mode.msghdr + extra < t.stack
  writable : m.Writable (t.stack - (controllen + t.redZone + t.mode.msghdr + extra))
    (extra + t.mode.msghdr + controllen)

def Tracer.controlAt (t : Tracer) (controllen : Nat) : Nat := t.stack - (controllen + t.redZone)

def Tracer.headerAt (t : Tracer) (controllen : Nat) : Nat := t.controlAt controllen - t.mode.msghdr

def Tracer.copies (t : Tracer) (m : Memory) (header ctl : Bytes) : Memory :=
  ((m.store (t.controlAt ctl.length) ctl).1.store (t.headerAt ctl.length)
    (packControl t.mode header (t.controlAt ctl.length))).1

section Copies

variable {header ctl : Bytes}

theorem Tracer.Room.copied {extra : Nat} (h : t.Room m ctl.length extra) :
    m.Writable (t.controlAt ctl.length) ctl.length ∧
      m.Writable (t.headerAt ctl.length) t.mode.msghdr := by
  have hstack := h.stack
  unfold Tracer.headerAt Tracer.controlAt
  exact ⟨h.writable.part (by omega) (by omega), h.writable.part (by omega) (by omega)⟩

theorem Tracer.Room.fewer {controllen extra : Nat} (h : t.Room m controllen extra) :
    t.Room m controllen 0 := by
  have hstack := h.stack
  exact ⟨by omega, h.writable.part (by omega) (by omega)⟩

theorem allocMem_of_lt {stack size : Nat} (h : size < stack) : allocMem stack size = some (stack - size) := by
  unfold allocMem
  rw [if_neg (by omega)]

theorem allocMem_of_le {stack size : Nat} (h : stack ≤ size) : allocMem stack size = none := by
  unfold allocMem
  rw [if_pos h]

theorem writeBack_of_room (hlength : header.length = t.mode.msghdr) (hroom : t.Room m ctl.length 0) :
    t.writeBack m (ownHeader t.mode header) ctl =
      .replaced (t.copies m header ctl) (t.headerAt ctl.length) (t.headerAt ctl.length) := by
  have hstack := hroom.stack
  obtain ⟨hcontrol, hheader⟩ := hroom.copied
  have hfirst := Memory.store_ok.mpr hcontrol
  have hsecond : ((m.store (t.controlAt ctl.length) ctl).1.store (t.headerAt ctl.length)
      (packControl t.mode header (t.controlAt ctl.length))).2 = true := by
    apply Memory.store_ok.mpr
    rw [length_packControl hlength]
    exact Memory.store_writable_iff.mpr hheader
  unfold Tracer.writeBack
  rw [allocMem_of_lt (by omega)]
  dsimp only
  rw [show t.stack - (ctl.length + t.redZone) = t.controlAt ctl.length from rfl]
  split
  · rename_i heq
    rw [heq] at hfirst
    cases hfirst
  · rename_i m₁ heq
    obtain rfl : m₁ = (m.store (t.controlAt ctl.length) ctl).1 := by rw [heq]
    have halloc : allocMem (t.controlAt ctl.length) t.mode.msghdr = some (t.headerAt ctl.length) := by
      apply allocMem_of_lt
      unfold Tracer.controlAt
      omega
    rw [halloc]
    dsimp only
    rw [take_packControl hlength]
    split
    · rename_i heq
      rw [heq] at hsecond
      cases hsecond
    · rename_i m₂ heq
      obtain rfl : m₂ = t.copies m header ctl := by
        unfold Tracer.copies
        rw [heq]
      rfl

theorem writeBack_of_no_room (hlength : header.length = t.mode.msghdr)
    (hroom : ¬ t.Room m ctl.length 0) :
    ∃ e, t.writeBack m (ownHeader t.mode header) ctl = .failed e := by
  unfold Tracer.writeBack
  by_cases hstack : ctl.length + t.redZone < t.stack
  · rw [allocMem_of_lt hstack]
    dsimp only
    split
    · exact ⟨_, rfl⟩
    · rename_i m₁ heq
      have hfirst : (m.store (t.stack - (ctl.length + t.redZone)) ctl).2 = true := by rw [heq]
      obtain rfl : m₁ = (m.store (t.stack - (ctl.length + t.redZone)) ctl).1 := by rw [heq]
      by_cases hstack' : t.mode.msghdr < t.stack - (ctl.length + t.redZone)
      · rw [allocMem_of_lt hstack']
        dsimp only
        rw [take_packControl hlength]
        split
        · exact ⟨_, rfl⟩
        · rename_i m₂ heq'
          have hsecond : ((m.store (t.stack - (ctl.length + t.redZone)) ctl).1.store
              (t.stack - (ctl.length + t.redZone) - t.mode.msghdr)
              (packControl t.mode header (t.stack - (ctl.length + t.redZone)))).2 = true := by
            rw [heq']
          have hcontrol := Memory.store_ok.mp hfirst
          have hheader := Memory.store_ok.mp hsecond
          rw [length_packControl hlength, Memory.store_writable_iff] at hheader
          refine absurd ⟨by omega, ?_⟩ hroom
          have hstart : t.stack - (ctl.length + t.redZone + t.mode.msghdr + 0) =
              t.stack - (ctl.length + t.redZone) - t.mode.msghdr := by omega
          rw [hstart, Nat.zero_add]
          apply Memory.writable_add.mpr
          refine ⟨hheader, ?_⟩
          rwa [show t.stack - (ctl.length + t.redZone) - t.mode.msghdr + t.mode.msghdr =
            t.stack - (ctl.length + t.redZone) by omega]
      · rw [allocMem_of_le (Nat.le_of_not_lt hstack')]
        exact ⟨_, rfl⟩
  · rw [allocMem_of_le (Nat.le_of_not_lt hstack)]
    exact ⟨_, rfl⟩

theorem load_copies (hlength : header.length = t.mode.msghdr) (hroom : t.Room m ctl.length 0) :
    (t.copies m header ctl).load (t.headerAt ctl.length) t.mode.msghdr =
        some (packControl t.mode header (t.controlAt ctl.length)) ∧
      (t.copies m header ctl).load (t.controlAt ctl.length) ctl.length = some ctl := by
  have hstack := hroom.stack
  obtain ⟨hcontrol, hheader⟩ := hroom.copied
  have hsecond : ((m.store (t.controlAt ctl.length) ctl).1.store (t.headerAt ctl.length)
      (packControl t.mode header (t.controlAt ctl.length))).2 = true := by
    apply Memory.store_ok.mpr
    rw [length_packControl hlength]
    exact Memory.store_writable_iff.mpr hheader
  unfold Tracer.copies
  constructor
  · have hload := Memory.load_store hsecond
    rwa [length_packControl hlength] at hload
  · rw [Memory.load_store_outside]
    · exact Memory.load_store (Memory.store_ok.mpr hcontrol)
    · rw [length_packControl hlength]
      unfold Tracer.headerAt Tracer.controlAt
      omega

theorem controlAt_lt (t : Tracer) (controllen : Nat) :
    t.controlAt controllen < 256 ^ t.mode.ptr := by
  have hfits := t.fits
  unfold Tracer.controlAt
  omega

theorem headerAt_lt (t : Tracer) (controllen : Nat) : t.headerAt controllen < 256 ^ t.mode.ptr := by
  have hcontrol := controlAt_lt t controllen
  unfold Tracer.headerAt
  omega

end Copies

end Improot.Extension.Sendmsg
