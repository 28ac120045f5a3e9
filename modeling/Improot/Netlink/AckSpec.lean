import Improot.Netlink.Ack

/-!
# The walk over the reply ends

The offset of the walk goes up by the length that each header tells, rounded up to four bytes.  The
rounding and the sum are computed with words, and the header is whatever was received: the walk is
bounded by the headers that fit into the reply exactly where neither wraps.
-/

namespace Improot.Netlink

open Lib

variable {w : Nat}

/-! ## Arithmetic of words -/

theorem nlmsgAlign_toNat (x : BitVec 32) : (nlmsgAlign x).toNat = align4 x.toNat % 2 ^ 32 := by
  have hdisjoint : nlmsgAlign x &&& ((x + 3) &&& 3) = 0 := by
    unfold nlmsgAlign
    rw [BitVec.and_assoc, ← BitVec.and_assoc (~~~3), BitVec.and_comm (~~~3), BitVec.and_assoc,
      BitVec.and_comm (~~~3), BitVec.and_not_self]
    simp
  have hparts : nlmsgAlign x + ((x + 3) &&& 3) = x + 3 := by
    rw [BitVec.add_eq_or_of_and_eq_zero _ _ hdisjoint]
    unfold nlmsgAlign
    rw [← BitVec.and_or_distrib_left, show ~~~3 ||| 3 = BitVec.allOnes 32 from rfl,
      BitVec.and_allOnes]
  have hlow : ((x + 3) &&& 3).toNat = (x + 3).toNat % 4 := by
    rw [BitVec.toNat_and]
    exact Nat.and_two_pow_sub_one_eq_mod (x + 3).toNat 2
  have hsum := BitVec.toNat_add_of_and_eq_zero hdisjoint
  rw [hparts, hlow, BitVec.toNat_add] at hsum
  have hthree : (3 : BitVec 32).toNat = 3 := rfl
  rw [hthree] at hsum
  unfold align4
  omega

/-! ## The condition -/

def Stack.told (stack : Stack w) (off : Nat) : Nat := (stack.nlmsgLen (BitVec.ofNat w off)).toNat

/-- The walk goes on behind a header that tells a whole message which isn't the answer. -/
def Stack.Passes (stack : Stack w) (seq off : Nat) : Prop :=
  nlmsgHdrlen ≤ stack.told off ∧ ¬ stack.answers seq (BitVec.ofNat w off)

def Fits (len off : Nat) : Prop := off + (nlmsgHdrlen + sizeofError) ≤ len

/-- The headers of the reply up to the answer, each behind the message of the former. -/
inductive Header (stack : Stack w) (seq len : Nat) : Nat → Prop
  | first : Fits len 0 → Header stack seq len 0
  | next {off : Nat} : Header stack seq len off → stack.Passes seq off →
      Fits len (off + align4 (stack.told off)) →
      Header stack seq len (off + align4 (stack.told off))

/-- No length that is passed wraps, neither when it is rounded up to four bytes nor when the next
header is measured by words of `w` bits. -/
def Measured (stack : Stack w) (seq len : Nat) : Prop :=
  ∀ off, Header stack seq len off → stack.Passes seq off →
    align4 (stack.told off) < 2 ^ 32 ∧
      off + align4 (stack.told off) + (nlmsgHdrlen + sizeofError) < 2 ^ w

/-! ## One turn -/

variable {stack : Stack w} {seq len : Nat}

theorem Header.fits {off : Nat} (h : Header stack seq len off) : Fits len off := by
  cases h with
  | first h => exact h
  | next _ _ h => exact h

theorem size_lt_word (hw : 32 ≤ w) : 2 ^ 32 ≤ 2 ^ w := Nat.pow_le_pow_right (by decide) hw

theorem enters_iff (hw : 32 ≤ w) {off : BitVec w} :
    (replyWalk stack seq len).enters off ↔
      (off.toNat + (nlmsgHdrlen + sizeofError)) % 2 ^ w ≤ len := by
  have hsize := size_lt_word hw
  have hhdr : (BitVec.ofNat w nlmsgHdrlen).toNat = nlmsgHdrlen := by
    rw [BitVec.toNat_ofNat]
    exact Nat.mod_eq_of_lt (by unfold nlmsgHdrlen; omega)
  have herr : (BitVec.ofNat w sizeofError).toNat = sizeofError := by
    rw [BitVec.toNat_ofNat]
    exact Nat.mod_eq_of_lt (by unfold sizeofError; omega)
  show decide _ = true ↔ _
  rw [decide_eq_true_iff, BitVec.toNat_add, BitVec.toNat_add, hhdr, herr, Nat.mod_add_mod,
    Nat.add_assoc]

theorem body_goes {off off' : BitVec w} :
    (replyWalk stack seq len).body off = .inl off' ↔
      stack.Passes seq off.toNat ∧ off' = off + (nlmsgAlign (stack.nlmsgLen off)).setWidth w := by
  unfold replyWalk Stack.Passes Stack.told
  rw [BitVec.ofNat_toNat, BitVec.setWidth_eq]
  dsimp only
  split_ifs with hshort hanswers herror
  · simp only [false_iff]
    intro h
    exact absurd h.1.1 (Nat.not_le.mpr hshort)
  · simp [hanswers]
  · simp [hanswers]
  · simp only [Sum.inl.injEq, Nat.not_lt.mp hshort, hanswers, true_and, Bool.false_eq_true,
      not_false_eq_true]
    exact eq_comm

theorem next_toNat (hw : 32 ≤ w) (off : BitVec w) :
    (off + (nlmsgAlign (stack.nlmsgLen off)).setWidth w).toNat =
      (off.toNat + align4 (stack.told off.toNat) % 2 ^ 32) % 2 ^ w := by
  have hsize := size_lt_word hw
  have hlt : align4 (stack.nlmsgLen off).toNat % 2 ^ 32 < 2 ^ 32 := Nat.mod_lt _ (by decide)
  rw [BitVec.toNat_add, BitVec.toNat_setWidth, nlmsgAlign_toNat, Stack.told, BitVec.ofNat_toNat,
    BitVec.setWidth_eq, Nat.mod_eq_of_lt (Nat.lt_of_lt_of_le hlt hsize)]

theorem enters_of_fits (hw : 32 ≤ w) (hlen : len ≤ sizeofReply) {off : BitVec w}
    (h : Fits len off.toNat) : (replyWalk stack seq len).enters off := by
  have hsize := size_lt_word hw
  unfold Fits at h
  unfold sizeofReply at hlen
  rw [enters_iff hw, Nat.mod_eq_of_lt (by omega)]
  exact h

/-! ## Runs -/

/-- What is promised of the offsets at which the body runs: there are no more than headers in what
was received, each is greater than the former, and nothing is read behind what was received. -/
structure Bounded (len : Nat) (visited : List (BitVec w)) : Prop where
  turns : visited.length ≤ len / nlmsgHdrlen
  increasing : visited.Pairwise (· < ·)
  inside : ∀ off ∈ visited, Fits len off.toNat

/-- Where each length is honest, the walk ends inside the reply. -/
theorem bounded_of_measured (hw : 32 ≤ w) (hfits : Fits len 0)
    (h : Measured stack seq len) :
    ∃ fuel visited found, (replyWalk stack seq len).run fuel 0 = some (visited, found) ∧
      Bounded len visited := by
  have hsize := size_lt_word hw
  have hzero : (0 : BitVec w).toNat = 0 := by simp
  -- the condition holds at the headers of the reply only
  let I (off : BitVec w) : Prop :=
    (replyWalk stack seq len).enters off → Header stack seq len off.toNat
  obtain ⟨fuel, visited, found, hrun, hturns, hsorted, hall⟩ :=
    @Loop.run_of_measure _ _ (replyWalk stack seq len) I (fun off => len - off.toNat) nlmsgHdrlen
      (by decide)
      (by
        intro off hI henters
        have := (hI henters).fits
        unfold Fits at this
        omega)
      (by
        intro off off' hI henters hgo
        have hheader := hI henters
        obtain ⟨hpasses, rfl⟩ := body_goes.mp hgo
        obtain ⟨hround, hsum⟩ := h _ hheader hpasses
        have hnext : (off + (nlmsgAlign (stack.nlmsgLen off)).setWidth w).toNat = _ := next_toNat hw off
        rw [Nat.mod_eq_of_lt hround, Nat.mod_eq_of_lt (by omega)] at hnext
        have hle := le_align4 (stack.told off.toNat)
        have hshort := hpasses.1
        have hfit := hheader.fits
        unfold Fits at hfit
        refine ⟨fun henters' => ?_, by omega⟩
        rw [enters_iff hw, hnext, Nat.mod_eq_of_lt hsum] at henters'
        rw [hnext]
        exact .next hheader hpasses henters')
      0 (fun _ => hzero ▸ .first hfits)
  have hinside : ∀ off ∈ visited, Fits len off.toNat := by
    intro off hoff
    obtain ⟨hI, henters, -⟩ := hall off hoff
    exact (hI henters).fits
  refine ⟨fuel, visited, found, hrun, ?_, ?_, hinside⟩
  · rw [Nat.le_div_iff_mul_le (by decide)]
    simpa using hturns
  · refine hsorted.imp_of_mem fun {a b} ha hb hless => ?_
    have hfita := hinside a ha
    have hfitb := hinside b hb
    unfold Fits at hfita hfitb
    rw [BitVec.lt_def]
    omega

/-- A walk that stays inside the reply has seen honest lengths only. -/
theorem measured_of_bounded (hw : 32 ≤ w) (hlen : len ≤ sizeofReply) {fuel : Nat}
    {visited : List (BitVec w)} {found : Option (Option (BitVec w))}
    (hrun : (replyWalk stack seq len).run fuel 0 = some (visited, found))
    (h : Bounded len visited) : Measured stack seq len := by
  have hsize := size_lt_word hw
  -- a header that the walk arrives at doesn't wrap, and the walk goes on to the next one
  have step : ∀ off : BitVec w, Loop.Reaches (replyWalk stack seq len) 0 off →
      Fits len off.toNat → stack.Passes seq off.toNat →
      align4 (stack.told off.toNat) < 2 ^ 32 ∧
        off.toNat + align4 (stack.told off.toNat) + (nlmsgHdrlen + sizeofError) < 2 ^ w := by
    intro off hreach hfits hpasses
    have henters : (replyWalk stack seq len).enters off := enters_of_fits hw hlen hfits
    obtain ⟨before, after, rfl, hafter⟩ := Loop.visited_of_reaches hrun hreach henters
    have hnext : (off + (nlmsgAlign (stack.nlmsgLen off)).setWidth w).toNat = _ := next_toNat hw off
    -- if the condition holds at the next offset, then it is greater and fits
    have hgoes : ∀ off' : BitVec w, off' = off + (nlmsgAlign (stack.nlmsgLen off)).setWidth w →
        (replyWalk stack seq len).enters off' → off < off' ∧ Fits len off'.toNat := by
      intro off' hoff' henters'
      have hmem := hafter off' (body_goes.mpr ⟨hpasses, hoff'⟩) henters'
      have hsorted := (List.pairwise_append.mp h.increasing).2.1
      exact ⟨(List.pairwise_cons.mp hsorted).1 off' hmem, h.inside off' (by simp [hmem])⟩
    have hout := hgoes _ rfl
    rw [enters_iff hw, BitVec.lt_def, hnext] at hout
    have htold : stack.told off.toNat < 2 ^ 32 := (stack.nlmsgLen _).isLt
    have hless := align4_lt (stack.told off.toNat)
    have hmod := align4_mod (stack.told off.toNat)
    have hoff := off.isLt
    unfold Fits sizeofReply nlmsgHdrlen sizeofError at *
    -- a length that is rounded up to 2 ^ 32 leads back to the same header
    have hround : align4 (stack.told off.toNat) < 2 ^ 32 := by
      rcases Nat.lt_or_ge (align4 (stack.told off.toNat)) (2 ^ 32) with hlt | hge
      · exact hlt
      · have hfull : align4 (stack.told off.toNat) = 2 ^ 32 := by omega
        have hsame : (off.toNat + 2 ^ 32 % 2 ^ 32) % 2 ^ w = off.toNat := by
          rw [Nat.mod_self]
          exact Nat.mod_eq_of_lt hoff
        rw [hfull, hsame, Nat.mod_eq_of_lt (show off.toNat + (16 + 4) < 2 ^ w by omega)] at hout
        exact absurd (hout hfits).1 (Nat.lt_irrefl _)
    refine ⟨hround, ?_⟩
    rw [Nat.mod_eq_of_lt hround] at hout
    -- a sum that wraps leads back, or makes the condition wrap
    rcases Nat.lt_or_ge (off.toNat + align4 (stack.told off.toNat)) (2 ^ w) with hlt | hge
    · rw [Nat.mod_eq_of_lt hlt] at hout
      rcases Nat.lt_or_ge (off.toNat + align4 (stack.told off.toNat) + (16 + 4)) (2 ^ w) with h | h
      · exact h
      · rw [Nat.mod_eq_sub_mod h, Nat.mod_eq_of_lt (by omega)] at hout
        have := (hout (by omega)).2
        omega
    · have hback : (off.toNat + align4 (stack.told off.toNat)) % 2 ^ w =
          off.toNat + align4 (stack.told off.toNat) - 2 ^ w := by
        rw [Nat.mod_eq_sub_mod hge]
        exact Nat.mod_eq_of_lt (by omega)
      rw [hback, Nat.mod_eq_of_lt (by omega)] at hout
      have := (hout (by omega)).1
      omega
  have reaches : ∀ off, Header stack seq len off →
      Loop.Reaches (replyWalk stack seq len) 0 (BitVec.ofNat w off) := by
    intro off hheader
    induction hheader with
    | first _ => exact .start
    | @next off hheader hpasses hfits ih =>
        have hfit := hheader.fits
        have hword : (BitVec.ofNat w off).toNat = off := by
          unfold Fits at hfit
          unfold sizeofReply at hlen
          rw [BitVec.toNat_ofNat]
          exact Nat.mod_eq_of_lt (by omega)
        rw [← hword] at hfit hpasses
        obtain ⟨hround, hsum⟩ := step _ ih hfit hpasses
        have hnext : BitVec.ofNat w (off + align4 (stack.told off)) = BitVec.ofNat w off +
            (nlmsgAlign (stack.nlmsgLen (BitVec.ofNat w off))).setWidth w := by
          apply BitVec.eq_of_toNat_eq
          rw [next_toNat hw, hword]
          rw [hword] at hround
          rw [Nat.mod_eq_of_lt hround, BitVec.toNat_ofNat]
        exact .next ih (enters_of_fits hw hlen hfit) (body_goes.mpr ⟨hpasses, hnext⟩)
  intro off hheader hpasses
  have hfit := hheader.fits
  have hword : (BitVec.ofNat w off).toNat = off := by
    unfold Fits at hfit
    unfold sizeofReply at hlen
    rw [BitVec.toNat_ofNat]
    exact Nat.mod_eq_of_lt (by omega)
  have hstep := step (BitVec.ofNat w off) (reaches off hheader)
  rw [hword] at hstep
  exact hstep hfit hpasses

/-! ## The handler -/

theorem walked_some {ack : NetlinkAck} {call : ReplyRead w} {base : BitVec w}
    (h : call.walked ack = some (base, len)) : len ≤ sizeofReply ∧ Fits len 0 := by
  unfold ReplyRead.walked at h
  split_ifs at h
  cases hbuffer : call.buffer with
  | none => simp [hbuffer] at h
  | some buffer =>
      rw [hbuffer] at h
      dsimp only at h
      split_ifs at h with hshort
      obtain ⟨-, rfl⟩ := Prod.mk.inj (Option.some.inj h)
      refine ⟨Nat.min_le_right _ _, ?_⟩
      unfold Fits
      rw [not_or, Nat.not_lt] at hshort
      rw [Nat.zero_add]
      exact hshort.2

def ReplyRead.received (call : ReplyRead w) (ack : NetlinkAck) : Nat :=
  ((call.walked ack).map Prod.snd).getD 0

def Ends (ack : NetlinkAck) (call : ReplyRead w) (copied : Option (Stack w)) : Prop :=
  ∃ fuel visited poked ack', handleNetlinkReplyExit ack call copied fuel =
    some (visited, poked, ack') ∧ Bounded (call.received ack) visited

theorem Bounded.nil (len : Nat) : Bounded len ([] : List (BitVec w)) :=
  ⟨Nat.zero_le _, .nil, by simp⟩

/-- **The walk over a reply ends** after as many turns as it has headers at most, going up within
what was received, if and only if no length that it passes wraps. -/
theorem handleNetlinkReplyExit_ends_iff (hw : 32 ≤ w) (ack : NetlinkAck) (call : ReplyRead w)
    (copied : Option (Stack w)) :
    Ends ack call copied ↔ ∀ base len stack, call.walked ack = some (base, len) →
      copied = some stack → Measured stack ack.seq len := by
  unfold Ends handleNetlinkReplyExit ReplyRead.received
  cases hwalked : call.walked ack with
  | none => exact ⟨by simp, fun _ => ⟨0, [], none, ack, rfl, .nil 0⟩⟩
  | some walked =>
      obtain ⟨base, len⟩ := walked
      obtain ⟨hlen, hfits⟩ := walked_some hwalked
      cases copied with
      | none => exact ⟨by simp, fun _ => ⟨0, [], none, ack, rfl, .nil len⟩⟩
      | some stack =>
          constructor
          · rintro ⟨fuel, visited, poked, ack', hrun, hbounded⟩ _ _ _ ⟨⟩ ⟨⟩
            obtain ⟨⟨visited', found⟩, hrun', heq⟩ := Option.map_eq_some_iff.mp hrun
            obtain ⟨rfl, -⟩ := Prod.mk.inj heq
            exact measured_of_bounded hw hlen hrun' hbounded
          · intro h
            obtain ⟨fuel, visited, found, hrun, hbounded⟩ :=
              bounded_of_measured hw hfits (h base len stack rfl rfl)
            exact ⟨fuel, visited, found.join.map (base + ·), _, by simp only [hrun]; rfl, hbounded⟩

/-- A reply of 20 bytes received at 0x1000 by `recvfrom(2)`. -/
def shortRead : ReplyRead 64 := ⟨true, 3, 0x1000, 64, 0, 20, 8, fun _ => none⟩

def shortReply : Stack 64 := fun off => if off = 0 then 20 else 0

theorem handleNetlinkReplyExit_ends_short : Ends ⟨true, 3, 7⟩ shortRead (some shortReply) := by
  apply (handleNetlinkReplyExit_ends_iff (by decide) ⟨true, 3, 7⟩ shortRead _).mpr
  rintro base len stack hwalked ⟨⟩ off hheader hpasses
  obtain ⟨-, rfl⟩ : (0x1000 : BitVec 64) = base ∧ 20 = len := by
    rw [show shortRead.walked ⟨true, 3, 7⟩ = some (0x1000, 20) by decide] at hwalked
    exact Prod.mk.inj (Option.some.inj hwalked)
  have hoff : off = 0 := by
    have hfits := hheader.fits
    unfold Fits nlmsgHdrlen sizeofError at hfits
    omega
  rw [hoff, show shortReply.told 0 = 20 by decide]
  decide

def longestReply : Stack 64 := fun off => if off < 4 then 0xff else 0

/-- **Some walk never ends**: rounded up to four bytes, the greatest length is 0. -/
theorem reply_walk_loops :
    (∀ fuel, handleNetlinkReplyExit ⟨true, 3, 7⟩ shortRead (some longestReply) fuel = none) ∧
      ¬ Ends ⟨true, 3, 7⟩ shortRead (some longestReply) := by
  have hwalked : shortRead.walked ⟨true, 3, 7⟩ = some (0x1000, 20) := by decide
  have henters : (replyWalk longestReply 7 20).enters 0 := by decide
  have hsame : (replyWalk longestReply 7 20).body 0 = .inl 0 := by decide
  have hrun : ∀ fuel, (replyWalk longestReply 7 20).run fuel 0 = none := by
    intro fuel
    induction fuel with
    | zero => exact if_pos henters
    | succ fuel ih =>
        rw [Loop.run_goes henters hsame, ih]
        rfl
  have hnone : ∀ fuel,
      handleNetlinkReplyExit ⟨true, 3, 7⟩ shortRead (some longestReply) fuel = none := by
    intro fuel
    unfold handleNetlinkReplyExit
    rw [hwalked]
    dsimp only
    rw [hrun]
    rfl
  refine ⟨hnone, ?_⟩
  rintro ⟨fuel, visited, poked, ack', hsome, -⟩
  rw [hnone] at hsome
  cases hsome

end Improot.Netlink
