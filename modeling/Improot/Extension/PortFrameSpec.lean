import Improot.Extension.PortFrame

/-!
# The port mapping leaves other addresses alone

The address that the kernel gets against the one that it is to get: both are the same, and PRoot's
structure is not overrun, if and only if the length is that of the structure, or it makes no
difference.
-/

namespace Improot.Extension.PortFrame

open Improot.Lib

variable {t : Tracer} {m : Memory}

/-! ## Sizes -/

variable {len size : BitVec 32} {bytes : Bytes} {args sockAddr : Nat}

theorem Tracer.asWord_of_nonneg (t : Tracer) (h : 0 ≤ size.toInt) :
    t.asWord size = size.toNat := by
  have hmsb : size.msb = false := BitVec.msb_eq_false_iff_two_mul_lt.mpr (by
    rw [BitVec.toInt_eq_toNat_cond] at h
    split at h <;> omega)
  have hwidth : 32 ≤ t.width := by
    unfold Tracer.width
    split <;> decide
  have hlt := size.isLt
  have hpow : 2 ^ 32 ≤ 2 ^ t.width := Nat.pow_le_pow_right (by decide) hwidth
  unfold Tracer.asWord
  rw [BitVec.toNat_signExtend, hmsb, BitVec.toNat_setWidth, Nat.mod_eq_of_lt (by omega)]
  rfl

theorem Tracer.asWord_of_neg (t : Tracer) (h : size.toInt < 0) :
    2 ^ 31 ≤ t.asWord size := by
  have hmsb : size.msb = true := BitVec.msb_eq_true_iff_two_mul_ge.mpr (by
    rw [BitVec.toInt_eq_toNat_cond] at h
    split at h <;> omega)
  have hge := BitVec.msb_eq_true_iff_two_mul_ge.mp hmsb
  have hlt := size.isLt
  unfold Tracer.asWord Tracer.width
  rw [BitVec.toNat_signExtend, hmsb, BitVec.toNat_setWidth]
  cases t.is64 with
  | true =>
      rw [if_pos rfl, if_pos rfl, Nat.mod_eq_of_lt (by omega)]
      omega
  | false =>
      rw [if_neg (by decide), if_pos rfl, Nat.mod_eq_of_lt (by omega)]
      omega

theorem toNat_of_nonneg (h : 0 ≤ size.toInt) : (size.toNat : Int) = size.toInt := by
  rw [BitVec.toInt_eq_toNat_cond] at h ⊢
  split at h <;> split <;> omega

theorem extent_le (m : Memory) (a n : Nat) : extent m a n ≤ n := by
  induction n generalizing a with
  | zero => exact Nat.le_refl _
  | succ n ih =>
      unfold extent
      split
      · exact Nat.succ_le_succ (ih _)
      · exact Nat.zero_le _

variable {a n : Nat}

theorem extent_of_load (h : m.load a n = some bytes) :
    extent m a n = n := by
  induction n generalizing a bytes with
  | zero => rfl
  | succ n ih =>
      obtain ⟨b, bs, hb, hbs, -⟩ := Memory.load_cons.mp h
      unfold extent
      rw [if_pos (by rw [hb]; rfl), ih hbs]

theorem copied_of_load (h : m.load a n = some bytes) :
    t.copied m a n = n := by
  unfold Tracer.copied
  rw [extent_of_load h, if_pos (.inr rfl)]

theorem extent_le_iff {k : Nat} :
    extent m a n ≤ k ↔ n ≤ k ∨ ∃ i, i ≤ k ∧ m.byte? (a + i) = none := by
  induction n generalizing a k with
  | zero => exact iff_of_true (Nat.zero_le k) (.inl (Nat.zero_le k))
  | succ n ih =>
      unfold extent
      cases hb : m.byte? a with
      | none =>
          rw [if_neg (by decide)]
          exact iff_of_true (Nat.zero_le k) (.inr ⟨0, Nat.zero_le k, hb⟩)
      | some b =>
          rw [if_pos (show (some b).isSome = true from rfl)]
          cases k with
          | zero =>
              have hnone : ¬ (n + 1 ≤ 0 ∨ ∃ i, i ≤ 0 ∧ m.byte? (a + i) = none) := by
                intro h
                obtain hle | ⟨i, hi, hnone⟩ := h
                · omega
                · obtain rfl := Nat.le_zero.mp hi
                  rw [Nat.add_zero, hb] at hnone
                  cases hnone
              exact iff_of_false (Nat.not_succ_le_zero _) hnone
          | succ k =>
              rw [Nat.succ_le_succ_iff, ih, Nat.succ_le_succ_iff]
              apply or_congr_right
              constructor
              · intro ⟨i, hi, hnone⟩
                refine ⟨i + 1, Nat.succ_le_succ hi, ?_⟩
                rwa [show a + (i + 1) = a + 1 + i by omega]
              · intro ⟨i, hi, hnone⟩
                cases i with
                | zero =>
                    rw [Nat.add_zero, hb] at hnone
                    cases hnone
                | succ i =>
                    refine ⟨i, Nat.le_of_succ_le_succ hi, ?_⟩
                    rwa [show a + 1 + i = a + (i + 1) by omega]

/-- Bytes that PRoot's structure can hold, or that have a hole soon enough. -/
def Tracer.Fits (t : Tracer) (m : Memory) (a n : Nat) : Prop :=
  n ≤ sizeofSockaddrUn ∨
    ∃ i, i ≤ (if n < 2 ^ (t.width - 1) then sizeofSockaddrUn else sizeofSockaddrUn + 1) ∧
      m.byte? (a + i) = none

theorem copied_le_iff : t.copied m a n ≤ sizeofSockaddrUn ↔ t.Fits m a n := by
  unfold Tracer.copied Tracer.Fits
  dsimp only
  by_cases hlt : n < 2 ^ (t.width - 1)
  · rw [if_pos (.inl hlt), if_pos hlt]
    exact extent_le_iff
  · rw [if_neg hlt]
    have hbig : 2 ^ 31 ≤ n := by
      have hle : 2 ^ 31 ≤ 2 ^ (t.width - 1) := Nat.pow_le_pow_right (by decide) (by
        unfold Tracer.width
        split <;> decide)
      omega
    have hextent := extent_le_iff (m := m) (a := a) (n := n) (k := sizeofSockaddrUn + 1)
    have hnot : ¬ n ≤ sizeofSockaddrUn := by
      unfold sizeofSockaddrUn
      omega
    have hnot' : ¬ n ≤ sizeofSockaddrUn + 1 := by
      unfold sizeofSockaddrUn
      omega
    rw [or_iff_right hnot'] at hextent
    rw [or_iff_right hnot, ← hextent]
    by_cases hall : extent m a n = n
    · rw [if_pos (.inr hall), hall]
      exact iff_of_false hnot hnot'
    · rw [if_neg (not_or.mpr ⟨hlt, hall⟩)]
      -- words that end at the structure's last byte but one
      unfold Tracer.width sizeofSockaddrUn
      cases t.is64 with
      | true =>
          rw [if_pos rfl]
          omega
      | false =>
          rw [if_neg (by decide)]
          omega

theorem copied_le (a n : Nat) : t.copied m a n ≤ n := by
  have hle := extent_le m a n
  unfold Tracer.copied
  dsimp only
  split
  · exact hle
  · exact Nat.le_trans (Nat.div_mul_le_self _ _) hle

theorem nonneg_of_copied {addr : Nat} (hload : m.load addr (t.asWord size) = some bytes)
    (hcopied : t.copied m addr (t.asWord size) ≤ sizeofSockaddrUn) :
    0 ≤ size.toInt ∧ t.asWord size = size.toNat ∧ bytes.length = size.toNat ∧
      size.toNat ≤ sizeofSockaddrUn := by
  rw [copied_of_load hload] at hcopied
  have hnonneg : 0 ≤ size.toInt := by
    by_contra hneg
    have := t.asWord_of_neg (Int.not_le.mp hneg)
    unfold sizeofSockaddrUn at hcopied
    omega
  have hword := t.asWord_of_nonneg hnonneg
  rw [hword] at hcopied hload
  exact ⟨hnonneg, hword, Memory.load_length hload, hcopied⟩

/-! ## Addresses -/

theorem moveAddr_eq_address (h : moveAddr m a len = .address bytes) : bytes.length = len.toNat := by
  unfold moveAddr at h
  split at h
  · cases h
  · split at h
    · cases h
    · rename_i bs hload
      cases h
      exact Memory.load_length hload

theorem moveAddr_of_load (hneg : 0 ≤ len.toInt)
    (hlen : len.toNat ≤ sizeofSockaddrUn) (hload : m.load a len.toNat = some bytes) :
    moveAddr m a len = .address bytes := by
  have hint := toNat_of_nonneg hneg
  unfold sizeofSockaddrUn at hlen
  unfold moveAddr sizeofStorage
  rw [if_neg (by omega), hload]

theorem moveAddr_of_unreadable (hload : m.load a (t.asWord len) = none) :
    moveAddr m a len =
      if len.toInt < 0 ∨ sizeofStorage < len.toInt then .refused .einval else .refused .efault := by
  unfold moveAddr
  by_cases h : len.toInt < 0 ∨ sizeofStorage < len.toInt
  · rw [if_pos h, if_pos h]
  · rw [t.asWord_of_nonneg (Int.not_lt.mp (not_or.mp h).1)] at hload
    rw [if_neg h, if_neg h, hload]

theorem length_sockaddrOf (h : bytes.length ≤ sizeofSockaddrUn) :
    (sockaddrOf bytes).length = sizeofSockaddrUn := by
  unfold sockaddrOf
  rw [patch_length (by simpa using h), List.length_replicate]

theorem length_withPort {sockaddr : Bytes} (h : sockaddr.length = sizeofSockaddrUn) (port : Port) :
    (withPort sockaddr port).length = sizeofSockaddrUn := by
  unfold withPort offsetofPort
  rw [patch_length (by rw [le_length, h]; decide), h]

theorem length_mapped (h : bytes.length ≤ sizeofSockaddrUn) :
    (t.mapped bytes).length = bytes.length := by
  unfold Tracer.mapped
  split
  · rfl
  · rw [List.length_take, length_withPort (length_sockaddrOf h)]
    exact Nat.min_eq_left h

/-! ## Calls with their arguments in registers -/

/-- **When the frame holds** for an address that is passed in registers. -/
structure Tracer.DirectSound (t : Tracer) (m : Memory) (sockAddr : Nat) (size : BitVec 32) : Prop where
  readable : ∀ bytes, m.load sockAddr (t.asWord size) = some bytes →
    size = sizeofSockaddrUn ∧
      (t.newPort (sockaddrOf bytes) ≠ none → m.Writable t.alloc sizeofSockaddrUn)
  unreadable : m.load sockAddr (t.asWord size) = none →
    0 ≤ size.toInt ∧ size.toInt ≤ sizeofStorage ∧ t.Fits m sockAddr (t.asWord size)

theorem translatePort_none (h : m.load sockAddr (t.asWord size) = none) :
    t.translatePort m sockAddr size = (m, .error .efault) := by
  unfold Tracer.translatePort
  rw [h]

theorem translatePort_kept (h : m.load sockAddr (t.asWord size) = some bytes)
    (hport : t.newPort (sockaddrOf bytes) = none) :
    t.translatePort m sockAddr size = (m, .ok sockAddr) := by
  unfold Tracer.translatePort
  rw [h]
  dsimp only
  rw [hport]

theorem translatePort_mapped {port : Port} (h : m.load sockAddr (t.asWord size) = some bytes)
    (hport : t.newPort (sockaddrOf bytes) = some port) :
    t.translatePort m sockAddr size =
      ((m.store t.alloc (withPort (sockaddrOf bytes) port)).1,
        if (m.store t.alloc (withPort (sockaddrOf bytes) port)).2 then .ok t.alloc
        else .error .efault) := by
  unfold Tracer.translatePort
  rw [h]
  dsimp only
  rw [hport]
  dsimp only
  split
  · rename_i heq
    rw [heq]
    rfl
  · rename_i heq
    rw [heq]
    rfl

theorem moveAddr_stored {sockaddr : Bytes} (hlength : sockaddr.length = sizeofSockaddrUn)
    (hstored : (m.store t.alloc sockaddr).2 = true) :
    moveAddr (m.store t.alloc sockaddr).1 t.alloc sizeofSockaddrUn = .address sockaddr := by
  apply moveAddr_of_load (by decide) (by decide)
  rw [show (BitVec.toNat (sizeofSockaddrUn : BitVec 32)) = sockaddr.length by rw [hlength]; rfl]
  exact Memory.load_store hstored

theorem wanted_of_load (hneg : 0 ≤ len.toInt)
    (hlen : len.toNat ≤ sizeofSockaddrUn) (hload : m.load a len.toNat = some bytes) :
    t.wanted (moveAddr m a len) = .address (t.mapped bytes) := by
  rw [moveAddr_of_load hneg hlen hload]
  rfl

theorem mapped_of_some {port : Port} (h : t.newPort (sockaddrOf bytes) = some port) :
    t.mapped bytes = (withPort (sockaddrOf bytes) port).take bytes.length := by
  unfold Tracer.mapped
  rw [h]

theorem mapped_of_none (h : t.newPort (sockaddrOf bytes) = none) :
    t.mapped bytes = bytes := by
  unfold Tracer.mapped
  rw [h]

theorem eq_sizeof (h : size.toNat = sizeofSockaddrUn) : size = sizeofSockaddrUn :=
  BitVec.eq_of_toNat_eq h

theorem direct_view_iff (hload : m.load sockAddr (t.asWord size) = some bytes)
    (hcopied : t.copied m sockAddr (t.asWord size) ≤ sizeofSockaddrUn) :
    t.direct m sockAddr size = .address (t.mapped bytes) ↔
      size = sizeofSockaddrUn ∧
        (t.newPort (sockaddrOf bytes) ≠ none → m.Writable t.alloc sizeofSockaddrUn) := by
  obtain ⟨hneg, hword, hlength, hsmall⟩ := nonneg_of_copied hload hcopied
  have hle : bytes.length ≤ sizeofSockaddrUn := Nat.le_trans (Nat.le_of_eq hlength) hsmall
  unfold Tracer.direct
  cases hport : t.newPort (sockaddrOf bytes) with
  | none =>
      rw [translatePort_kept hload hport, mapped_of_none hport]
      dsimp only
      constructor
      · intro hview
        have hlen := moveAddr_eq_address hview
        exact ⟨eq_sizeof (hlength.symm.trans hlen), fun hne => absurd rfl hne⟩
      · intro ⟨hsize, _⟩
        rw [hword, hsize] at hload
        exact moveAddr_of_load (by decide) (by decide) hload
  | some port =>
      have hstruct := length_withPort (length_sockaddrOf hle) port
      have hwritable : (m.store t.alloc (withPort (sockaddrOf bytes) port)).2 = true ↔
          m.Writable t.alloc sizeofSockaddrUn := by
        rw [Memory.store_ok, hstruct]
      rw [translatePort_mapped hload hport]
      by_cases hstored : (m.store t.alloc (withPort (sockaddrOf bytes) port)).2
      · rw [if_pos hstored]
        dsimp only
        constructor
        · intro hview
          have hlen := moveAddr_eq_address hview
          rw [length_mapped hle] at hlen
          exact ⟨eq_sizeof (hlength.symm.trans hlen), fun _ => hwritable.mp hstored⟩
        · intro ⟨hsize, _⟩
          have hall : bytes.length = sizeofSockaddrUn := by
            rw [hlength, hsize]
            rfl
          rw [mapped_of_some hport, hall, List.take_of_length_le (Nat.le_of_eq hstruct)]
          exact moveAddr_stored hstruct hstored
      · rw [if_neg hstored]
        refine iff_of_false ?_ ?_
        · intro hview
          cases hview
        · intro ⟨_, h⟩
          exact hstored (hwritable.mpr (h (Option.some_ne_none port)))

theorem framed_of_sockaddr {call : Call} (hargs : call.sockaddr? m = some (sockAddr, size)) :
    t.Framed m call ↔
      t.handle m call = t.wanted (call.plain m) ∧
        t.copied m sockAddr (t.asWord size) ≤ sizeofSockaddrUn := by
  constructor
  · intro h
    exact ⟨h.view, h.copied _ _ hargs⟩
  · intro ⟨hview, hcopied⟩
    refine ⟨hview, ?_⟩
    intro a s heq
    rw [hargs] at heq
    obtain ⟨rfl, rfl⟩ := Prod.mk.inj (Option.some.inj heq)
    exact hcopied

theorem direct_framed_iff (t : Tracer) (m : Memory) (sockAddr : Nat) (size : BitVec 32) :
    t.Framed m (.direct sockAddr size) ↔ t.DirectSound m sockAddr size := by
  rw [framed_of_sockaddr rfl]
  show t.direct m sockAddr size = t.wanted (moveAddr m sockAddr size) ∧ _ ↔ _
  cases hload : m.load sockAddr (t.asWord size) with
  | none =>
      unfold Tracer.direct
      rw [translatePort_none hload, moveAddr_of_unreadable hload, copied_le_iff]
      dsimp only
      by_cases hrange : size.toInt < 0 ∨ sizeofStorage < size.toInt
      · rw [if_pos hrange]
        refine iff_of_false ?_ ?_
        · intro ⟨hview, _⟩
          cases hview
        · intro h
          obtain ⟨hneg, hlarge, -⟩ := h.unreadable hload
          omega
      · rw [if_neg hrange]
        rw [not_or, Int.not_lt, Int.not_lt] at hrange
        constructor
        · intro ⟨_, hfits⟩
          refine ⟨?_, fun _ => ⟨hrange.1, hrange.2, hfits⟩⟩
          intro bytes hbytes
          rw [hload] at hbytes
          cases hbytes
        · intro h
          exact ⟨rfl, (h.unreadable hload).2.2⟩
  | some bytes =>
      have hwanted (hcopied : t.copied m sockAddr (t.asWord size) ≤ sizeofSockaddrUn) :
          t.wanted (moveAddr m sockAddr size) = .address (t.mapped bytes) := by
        obtain ⟨hneg, hword, -, hsmall⟩ := nonneg_of_copied hload hcopied
        rw [hword] at hload
        exact wanted_of_load hneg hsmall hload
      constructor
      · intro ⟨hview, hcopied⟩
        rw [hwanted hcopied, direct_view_iff hload hcopied] at hview
        constructor
        · intro bytes' hbytes
          rw [hload] at hbytes
          cases hbytes
          exact hview
        · intro hnone
          rw [hload] at hnone
          cases hnone
      · intro h
        have hsound := h.readable bytes hload
        have hcopied : t.copied m sockAddr (t.asWord size) ≤ sizeofSockaddrUn := by
          rw [hsound.1]
          exact Nat.le_trans (copied_le _ _) (Nat.le_of_eq (t.asWord_of_nonneg (by decide)))
        rw [hwanted hcopied]
        exact ⟨(direct_view_iff hload hcopied).mpr hsound, hcopied⟩

/-! ## Arguments in memory -/

theorem load_block : m.load args (3 * wordSize) =
      (m.load (sysargAddr args 1) wordSize).bind fun a =>
        (m.load (sysargAddr args 2) wordSize).bind fun b =>
          (m.load (sysargAddr args 3) wordSize).bind fun c => some (a ++ (b ++ c)) := by
  have h1 : sysargAddr args 1 = args := rfl
  have h2 : sysargAddr args 2 = args + wordSize := rfl
  have h3 : sysargAddr args 3 = args + wordSize + wordSize := rfl
  rw [h1, h2, h3, show 3 * wordSize = wordSize + (wordSize + wordSize) from rfl, Memory.load_add,
    Memory.load_add]
  cases m.load args wordSize with
  | none => rfl
  | some a =>
      cases m.load (args + wordSize) wordSize with
      | none => rfl
      | some b => cases m.load (args + wordSize + wordSize) wordSize <;> rfl

theorem peekWord_of_load (h : m.load a wordSize = some bytes) :
    peekWord m a = some (ofLe bytes) := by
  unfold peekWord
  rw [extent_of_load h]
  show (m.load a wordSize).map ofLe = _
  rw [h]
  rfl

theorem sockaddr?_socketcall (m : Memory) (args : Nat) :
    Call.sockaddr? m (.socketcall args) =
      (peekWord m (sysargAddr args 1)).bind fun _ =>
        (peekWord m (sysargAddr args 2)).bind fun sockAddr =>
          (peekWord m (sysargAddr args 3)).bind fun size =>
            some (sockAddr, BitVec.ofNat 32 size) := rfl

/-- The kernel can read the arguments. -/
def Whole (m : Memory) (args : Nat) : Prop := (m.load args (3 * wordSize)).isSome = true

theorem moveArgs_of_not_whole (h : ¬ Whole m args) :
    moveArgs m args = .refused .efault := by
  unfold moveArgs
  rw [Option.not_isSome_iff_eq_none.mp h]

structure Words (m : Memory) (args : Nat) (fd addr len : Bytes) : Prop where
  fd : m.load (sysargAddr args 1) wordSize = some fd
  addr : m.load (sysargAddr args 2) wordSize = some addr
  len : m.load (sysargAddr args 3) wordSize = some len

namespace Words

variable {args : Nat} {fd addr len : Bytes}

theorem sockaddr? (h : Words m args fd addr len) :
    Call.sockaddr? m (.socketcall args) = some (ofLe addr, BitVec.ofNat 32 (ofLe len)) := by
  rw [sockaddr?_socketcall, peekWord_of_load h.fd, peekWord_of_load h.addr, peekWord_of_load h.len]
  rfl

theorem moveArgs (h : Words m args fd addr len) :
    moveArgs m args = moveAddr m (ofLe addr) (BitVec.ofNat 32 (ofLe len)) := by
  have hfd := Memory.load_length h.fd
  have haddr := Memory.load_length h.addr
  have hlen := Memory.load_length h.len
  have hsecond : readLe wordSize wordSize (fd ++ (addr ++ len)) = ofLe addr := by
    unfold readLe
    rw [List.drop_left' hfd, List.take_left' haddr]
  have hthird : readLe wordSize (2 * wordSize) (fd ++ (addr ++ len)) = ofLe len := by
    unfold readLe
    rw [← List.append_assoc, List.drop_left' (by rw [List.length_append, hfd, haddr]; rfl),
      List.take_of_length_le (Nat.le_of_eq hlen)]
  unfold PortFrame.moveArgs
  rw [load_block, h.fd, h.addr, h.len]
  show moveAddr m (readLe wordSize wordSize (fd ++ (addr ++ len)))
    (BitVec.ofNat 32 (readLe wordSize (2 * wordSize) (fd ++ (addr ++ len)))) = _
  rw [hsecond, hthird]

theorem store_outside (h : Words m args fd addr len) {bs : Bytes}
    (hapart : args + 3 * wordSize ≤ a ∨ a + bs.length ≤ args) :
    Words (m.store a bs).1 args fd addr len := by
  unfold wordSize at hapart
  constructor
  · rw [Memory.load_store_outside (by unfold sysargAddr wordSize; omega)]
    exact h.fd
  · rw [Memory.load_store_outside (by unfold sysargAddr wordSize; omega)]
    exact h.addr
  · rw [Memory.load_store_outside (by unfold sysargAddr wordSize; omega)]
    exact h.len

theorem store_addr (h : Words m args fd addr len) {v : Bytes} (hv : v.length = wordSize)
    (hstored : (m.store (sysargAddr args 2) v).2 = true) :
    Words (m.store (sysargAddr args 2) v).1 args fd v len := by
  unfold wordSize at hv
  constructor
  · rw [Memory.load_store_outside (by unfold sysargAddr wordSize; omega)]
    exact h.fd
  · have hload := Memory.load_store hstored
    rwa [hv] at hload
  · rw [Memory.load_store_outside (by unfold sysargAddr wordSize; omega)]
    exact h.len

theorem store_len (h : Words m args fd addr len) {v : Bytes} (hv : v.length = wordSize)
    (hstored : (m.store (sysargAddr args 3) v).2 = true) :
    Words (m.store (sysargAddr args 3) v).1 args fd addr v := by
  unfold wordSize at hv
  constructor
  · rw [Memory.load_store_outside (by unfold sysargAddr wordSize; omega)]
    exact h.fd
  · rw [Memory.load_store_outside (by unfold sysargAddr wordSize; omega)]
    exact h.addr
  · have hload := Memory.load_store hstored
    rwa [hv] at hload

end Words

theorem Whole.words (h : Whole m args) : ∃ fd addr len, Words m args fd addr len := by
  obtain ⟨bytes, hbytes⟩ := Option.isSome_iff_exists.mp h
  rw [load_block] at hbytes
  simp only [Option.bind_eq_some_iff] at hbytes
  obtain ⟨fd, hfd, addr, haddr, len, hlen, -⟩ := hbytes
  exact ⟨fd, addr, len, hfd, haddr, hlen⟩

theorem words_of_sockaddr? (hwhole : Whole m args)
    (h : Call.sockaddr? m (.socketcall args) = some (sockAddr, size)) :
    sockAddr < 2 ^ 32 ∧
      ∃ fd, Words m args fd (le wordSize sockAddr) (le wordSize size.toNat) := by
  obtain ⟨fd, addr, len, hwords⟩ := hwhole.words
  rw [hwords.sockaddr?] at h
  cases h
  have hlt : ∀ {a : Nat} {bs : Bytes}, m.load a wordSize = some bs → ofLe bs < 2 ^ 32 := by
    intro a bs hload
    have := ofLe_lt bs
    rwa [Memory.load_length hload] at this
  have hsame : ∀ {a : Nat} {bs : Bytes}, m.load a wordSize = some bs → le wordSize (ofLe bs) = bs := by
    intro a bs hload
    rw [← Memory.load_length hload]
    exact le_ofLe bs
  refine ⟨hlt hwords.addr, fd, hwords.fd, ?_, ?_⟩
  · rw [hsame hwords.addr]
    exact hwords.addr
  · rw [BitVec.toNat_ofNat, Nat.mod_eq_of_lt (hlt hwords.len), hsame hwords.len]
    exact hwords.len

theorem pokeWord_eq (m : Memory) (a value : Nat) :
    pokeWord m a value =
      if (m.store a (le wordSize value)).2 then some (m.store a (le wordSize value)).1 else none := by
  unfold pokeWord
  split
  · rename_i heq
    rw [heq]
    rfl
  · rename_i heq
    rw [heq]
    rfl

def pokeArgs (m : Memory) (args sockAddr : Nat) : Memory :=
  match pokeWord m (sysargAddr args 2) sockAddr with
  | none => m
  | some m => (pokeWord m (sysargAddr args 3) sizeofSockaddrUn).getD m

theorem socketcallMemory_eq (t : Tracer) (m : Memory) (args : Nat) :
    t.socketcallMemory m args =
      match Call.sockaddr? m (.socketcall args) with
      | none => m
      | some (sockAddr, size) =>
        match t.translatePort m sockAddr size with
        | (m, .error _) => m
        | (m, .ok sockAddr) => pokeArgs m args sockAddr := by
  rw [sockaddr?_socketcall]
  unfold Tracer.socketcallMemory
  cases peekWord m (sysargAddr args 1) with
  | none => rfl
  | some fd =>
      cases peekWord m (sysargAddr args 2) with
      | none => rfl
      | some addr => cases peekWord m (sysargAddr args 3) <;> rfl

section Poked

variable {args : Nat} {fd addr len : Bytes} {sockAddr : Nat}

theorem pokeArgs_failed (h : ¬ m.Writable (sysargAddr args 2) wordSize) :
    pokeArgs m args sockAddr = m := by
  unfold pokeArgs
  rw [pokeWord_eq, if_neg fun hs => h (Memory.store_le_ok.mp hs)]

theorem pokeArgs_half (h : m.Writable (sysargAddr args 2) wordSize)
    (h' : ¬ m.Writable (sysargAddr args 3) wordSize) :
    pokeArgs m args sockAddr = (m.store (sysargAddr args 2) (le wordSize sockAddr)).1 := by
  unfold pokeArgs
  rw [pokeWord_eq, if_pos (Memory.store_le_ok.mpr h)]
  dsimp only
  rw [pokeWord_eq, if_neg fun hs => h' (Memory.store_writable_iff.mp (Memory.store_le_ok.mp hs))]
  rfl

theorem pokeArgs_both (h : m.Writable (sysargAddr args 2) wordSize)
    (h' : m.Writable (sysargAddr args 3) wordSize) :
    pokeArgs m args sockAddr =
      ((m.store (sysargAddr args 2) (le wordSize sockAddr)).1.store (sysargAddr args 3)
        (le wordSize sizeofSockaddrUn)).1 := by
  unfold pokeArgs
  rw [pokeWord_eq, if_pos (Memory.store_le_ok.mpr h)]
  dsimp only
  rw [pokeWord_eq, if_pos (Memory.store_le_ok.mpr (Memory.store_writable_iff.mpr h'))]
  rfl

end Poked

theorem whole_store {bs : Bytes} : Whole (m.store a bs).1 args ↔ Whole m args := by
  unfold Whole
  rw [Memory.store_load_isSome]

theorem whole_pokeArgs : Whole (pokeArgs m args sockAddr) args ↔ Whole m args := by
  by_cases haddr : m.Writable (sysargAddr args 2) wordSize
  · by_cases hlen : m.Writable (sysargAddr args 3) wordSize
    · rw [pokeArgs_both haddr hlen, whole_store, whole_store]
    · rw [pokeArgs_half haddr hlen, whole_store]
  · rw [pokeArgs_failed haddr]

theorem whole_translatePort : Whole (t.translatePort m sockAddr size).1 args ↔ Whole m args := by
  cases hload : m.load sockAddr (t.asWord size) with
  | none => rw [translatePort_none hload]
  | some bytes =>
      cases hport : t.newPort (sockaddrOf bytes) with
      | none => rw [translatePort_kept hload hport]
      | some port =>
          rw [translatePort_mapped hload hport]
          split <;> exact whole_store

theorem socketcall_of_not_whole (h : ¬ Whole m args) :
    t.socketcall m args = t.wanted (moveArgs m args) := by
  have hwhole : Whole (t.socketcallMemory m args) args ↔ Whole m args := by
    rw [socketcallMemory_eq]
    cases Call.sockaddr? m (.socketcall args) with
    | none => exact .rfl
    | some sockaddr =>
        obtain ⟨sockAddr, size⟩ := sockaddr
        have htranslate : Whole (t.translatePort m sockAddr size).1 args ↔ Whole m args :=
          whole_translatePort
        rw [← htranslate]
        dsimp only
        cases t.translatePort m sockAddr size with
        | mk m' result =>
            cases result with
            | error e => exact .rfl
            | ok sockAddr' => exact whole_pokeArgs
  unfold Tracer.socketcall
  rw [moveArgs_of_not_whole h, moveArgs_of_not_whole fun hafter => h (hwhole.mp hafter)]
  rfl

/-! ## Calls with their arguments in memory -/

/-- What `alloc_mem` gives is a word of the tracee, and the guest keeps nothing of the call there. -/
structure Tracer.Scratch (t : Tracer) (m : Memory) (args : Nat) : Prop where
  word : t.alloc < 2 ^ 32
  block : args + 3 * wordSize ≤ t.alloc ∨ t.alloc + sizeofSockaddrUn ≤ args
  address : ∀ sockAddr size, Call.sockaddr? m (.socketcall args) = some (sockAddr, size) →
    sockAddr + size.toNat ≤ t.alloc ∨ t.alloc + sizeofSockaddrUn ≤ sockAddr

/-- **When the frame holds** for an address that is passed through socketcall(2). -/
structure Tracer.SocketcallSound (t : Tracer) (m : Memory) (args sockAddr : Nat) (size : BitVec 32) :
    Prop where
  fits : t.Fits m sockAddr (t.asWord size)
  resized : Whole m args → ∀ bytes, m.load sockAddr (t.asWord size) = some bytes →
    (t.newPort (sockaddrOf bytes) ≠ none → m.Writable t.alloc sizeofSockaddrUn) →
      m.Writable (sysargAddr args 2) wordSize → m.Writable (sysargAddr args 3) wordSize →
        size = sizeofSockaddrUn
  unmapped : Whole m args → ∀ bytes, m.load sockAddr (t.asWord size) = some bytes →
    ¬ (m.Writable t.alloc sizeofSockaddrUn ∧ m.Writable (sysargAddr args 2) wordSize) →
      t.mapped bytes = bytes

section Views

variable {args sockAddr : Nat} {size : BitVec 32} {bytes : Bytes} {fd addr len : Bytes}

theorem ofNat_le_wordSize (n : BitVec 32) : BitVec.ofNat 32 (ofLe (le wordSize n.toNat)) = n := by
  rw [ofLe_le_of_lt n.isLt, BitVec.ofNat_toNat, BitVec.setWidth_eq]

theorem moveArgs_of_load (hwords : Words m args fd (le wordSize sockAddr) (le wordSize size.toNat))
    (hsock : sockAddr < 2 ^ 32) (hneg : 0 ≤ size.toInt) (hsmall : size.toNat ≤ sizeofSockaddrUn)
    (hload : m.load sockAddr size.toNat = some bytes) : moveArgs m args = .address bytes := by
  rw [hwords.moveArgs, ofLe_le_of_lt hsock, ofNat_le_wordSize]
  exact moveAddr_of_load hneg hsmall hload

theorem kept_view_iff (hwords : Words m args fd (le wordSize sockAddr) (le wordSize size.toNat))
    (hsock : sockAddr < 2 ^ 32) (hneg : 0 ≤ size.toInt) (hsmall : size.toNat ≤ sizeofSockaddrUn)
    (hload : m.load sockAddr size.toNat = some bytes) :
    moveArgs (pokeArgs m args sockAddr) args = .address bytes ↔
      (m.Writable (sysargAddr args 2) wordSize → m.Writable (sysargAddr args 3) wordSize →
        size = sizeofSockaddrUn) := by
  have hsame : (m.store (sysargAddr args 2) (le wordSize sockAddr)).1 = m :=
    Memory.store_load hwords.addr
  have hplain := moveArgs_of_load hwords hsock hneg hsmall hload
  by_cases haddr : m.Writable (sysargAddr args 2) wordSize
  · by_cases hlen : m.Writable (sysargAddr args 3) wordSize
    · rw [pokeArgs_both haddr hlen, hsame]
      constructor
      · intro hview _ _
        have hpoked := hwords.store_len (le_length wordSize sizeofSockaddrUn) (Memory.store_le_ok.mpr hlen)
        rw [hpoked.moveArgs] at hview
        have hlength := moveAddr_eq_address hview
        rw [Memory.load_length hload] at hlength
        exact eq_sizeof hlength
      · intro h
        rw [h haddr hlen] at hwords
        have hkept : (m.store (sysargAddr args 3) (le wordSize sizeofSockaddrUn)).1 = m :=
          Memory.store_load hwords.len
        rw [hkept]
        exact hplain
    · rw [pokeArgs_half haddr hlen, hsame]
      exact iff_of_true hplain fun _ h => absurd h hlen
  · rw [pokeArgs_failed haddr]
    exact iff_of_true hplain fun h => absurd h haddr

/-- When the kernel sees the words that were poked. -/
theorem poked_view_iff {alloc : Nat} {sockaddr : Bytes}
    (hwords : Words m args fd addr (le wordSize size.toNat)) (halloc : alloc < 2 ^ 32)
    (hapart : args + 3 * wordSize ≤ alloc ∨ alloc + sizeofSockaddrUn ≤ args)
    (hlength : sockaddr.length = sizeofSockaddrUn) (hload : m.load alloc sizeofSockaddrUn = some sockaddr)
    (hneg : 0 ≤ size.toInt) (hsmall : size.toNat ≤ sizeofSockaddrUn)
    (haddr : m.Writable (sysargAddr args 2) wordSize) :
    moveArgs (pokeArgs m args alloc) args = .address (sockaddr.take size.toNat) ↔
      (m.Writable (sysargAddr args 3) wordSize → size = sizeofSockaddrUn) := by
  have hpoked := hwords.store_addr (le_length wordSize alloc) (Memory.store_le_ok.mpr haddr)
  have hload₁ : (m.store (sysargAddr args 2) (le wordSize alloc)).1.load alloc sizeofSockaddrUn =
      some sockaddr := by
    rw [Memory.load_store_outside (by rw [le_length]; unfold sysargAddr; unfold wordSize at *; omega)]
    exact hload
  by_cases hlen : m.Writable (sysargAddr args 3) wordSize
  · rw [pokeArgs_both haddr hlen]
    have hpoked₂ := hpoked.store_len (le_length wordSize sizeofSockaddrUn)
      (Memory.store_le_ok.mpr (Memory.store_writable_iff.mpr hlen))
    have hload₂ : ((m.store (sysargAddr args 2) (le wordSize alloc)).1.store (sysargAddr args 3)
        (le wordSize sizeofSockaddrUn)).1.load alloc sizeofSockaddrUn = some sockaddr := by
      rw [Memory.load_store_outside (by rw [le_length]; unfold sysargAddr; unfold wordSize at *; omega)]
      exact hload₁
    have hview : moveArgs ((m.store (sysargAddr args 2) (le wordSize alloc)).1.store
        (sysargAddr args 3) (le wordSize sizeofSockaddrUn)).1 args = .address sockaddr :=
      moveArgs_of_load (show Words _ args fd (le wordSize alloc)
        (le wordSize (sizeofSockaddrUn : BitVec 32).toNat) from hpoked₂) halloc (by decide) (by decide)
        hload₂
    rw [hview]
    constructor
    · intro h _
      have heq := congrArg List.length (KernelView.address.inj h)
      rw [List.length_take, hlength, Nat.min_eq_left hsmall] at heq
      exact eq_sizeof heq.symm
    · intro h
      have htake : sockaddr.take (sizeofSockaddrUn : BitVec 32).toNat = sockaddr :=
        List.take_of_length_le (Nat.le_of_eq hlength)
      rw [h hlen, htake]
  · rw [pokeArgs_half haddr hlen]
    exact iff_of_true
      (moveArgs_of_load hpoked halloc hneg hsmall (Memory.load_take hload₁ hsmall))
      fun h => absurd h hlen

end Views

theorem socketcallSound_iff
    (hwhole : Whole m args) (hload : m.load sockAddr (t.asWord size) = some bytes)
    (hcopied : t.copied m sockAddr (t.asWord size) ≤ sizeofSockaddrUn) :
    t.SocketcallSound m args sockAddr size ↔
      ((t.newPort (sockaddrOf bytes) ≠ none → m.Writable t.alloc sizeofSockaddrUn) →
        m.Writable (sysargAddr args 2) wordSize → m.Writable (sysargAddr args 3) wordSize →
          size = sizeofSockaddrUn) ∧
      (¬ (m.Writable t.alloc sizeofSockaddrUn ∧ m.Writable (sysargAddr args 2) wordSize) →
        t.mapped bytes = bytes) := by
  constructor
  · intro h
    exact ⟨h.resized hwhole bytes hload, h.unmapped hwhole bytes hload⟩
  · intro ⟨hresized, hunmapped⟩
    constructor
    · exact copied_le_iff.mp hcopied
    · intro _ bs hbs
      rw [hload] at hbs
      cases hbs
      exact hresized
    · intro _ bs hbs
      rw [hload] at hbs
      cases hbs
      exact hunmapped

/-- When socketcall(2) passes the address on that it is to pass on. -/
theorem socketcall_view_iff (hapart : t.Scratch m args) (hwhole : Whole m args)
    (hargs : Call.sockaddr? m (.socketcall args) = some (sockAddr, size))
    (hload : m.load sockAddr (t.asWord size) = some bytes)
    (hcopied : t.copied m sockAddr (t.asWord size) ≤ sizeofSockaddrUn) :
    t.socketcall m args = .address (t.mapped bytes) ↔ t.SocketcallSound m args sockAddr size := by
  obtain ⟨hneg, hword, hlength, hsmall⟩ := nonneg_of_copied hload hcopied
  obtain ⟨hsock, fd, hwords⟩ := words_of_sockaddr? hwhole hargs
  have hload' := hload
  rw [hword] at hload'
  unfold Tracer.socketcall
  rw [socketcallMemory_eq, hargs, socketcallSound_iff hwhole hload hcopied]
  dsimp only
  cases hport : t.newPort (sockaddrOf bytes) with
  | none =>
      have hview := kept_view_iff hwords hsock hneg hsmall hload'
      rw [translatePort_kept hload hport, mapped_of_none hport]
      dsimp only
      rw [hview]
      constructor
      · intro h
        exact ⟨fun _ => h, fun _ => rfl⟩
      · intro h
        exact h.1 fun hne => absurd rfl hne
  | some port =>
      have hstruct := length_withPort
        (length_sockaddrOf (Nat.le_trans (Nat.le_of_eq hlength) hsmall)) port
      have hmapped := mapped_of_some hport
      rw [hlength] at hmapped
      rw [translatePort_mapped hload hport]
      generalize withPort (sockaddrOf bytes) port = sockaddr at hstruct hmapped ⊢
      have hwords₁ : Words (m.store t.alloc sockaddr).1 args fd (le wordSize sockAddr)
          (le wordSize size.toNat) :=
        hwords.store_outside (by rw [hstruct]; exact hapart.block)
      have hload₁ : (m.store t.alloc sockaddr).1.load sockAddr size.toNat = some bytes := by
        rw [Memory.load_store_outside (by rw [hstruct]; exact hapart.address _ _ hargs)]
        exact hload'
      have hplain := moveArgs_of_load hwords₁ hsock hneg hsmall hload₁
      have hstored : (m.store t.alloc sockaddr).2 = true ↔ m.Writable t.alloc sizeofSockaddrUn := by
        rw [← hstruct]
        exact Memory.store_ok
      have hkept : KernelView.address bytes = .address (t.mapped bytes) ↔ t.mapped bytes = bytes := by
        rw [KernelView.address.injEq, eq_comm]
      by_cases hw : m.Writable t.alloc sizeofSockaddrUn
      · rw [if_pos (hstored.mpr hw)]
        dsimp only
        by_cases haddr : m.Writable (sysargAddr args 2) wordSize
        · have hloaded := Memory.load_store (hstored.mpr hw)
          rw [hstruct] at hloaded
          rw [hmapped, poked_view_iff hwords₁ hapart.word hapart.block hstruct hloaded hneg hsmall
            (Memory.store_writable_iff.mpr haddr), Memory.store_writable_iff]
          constructor
          · intro h
            exact ⟨fun _ _ => h, fun hfailed => absurd ⟨hw, haddr⟩ hfailed⟩
          · intro h
            exact h.1 (fun _ => hw) haddr
        · rw [pokeArgs_failed fun h => haddr (Memory.store_writable_iff.mp h), hplain, hkept]
          constructor
          · intro h
            exact ⟨fun _ h => absurd h haddr, fun _ => h⟩
          · intro h
            exact h.2 fun hboth => haddr hboth.2
      · rw [if_neg (fun h => hw (hstored.mp h))]
        dsimp only
        rw [hplain, hkept]
        constructor
        · intro h
          exact ⟨fun hfails => absurd (hfails (Option.some_ne_none port)) hw, fun _ => h⟩
        · intro h
          exact h.2 fun hboth => hw hboth.1

/-- **The frame through socketcall(2)**, for every address that is passed. -/
theorem socketcall_framed_iff (hapart : t.Scratch m args) :
    t.Framed m (.socketcall args) ↔
      ∀ sockAddr size, Call.sockaddr? m (.socketcall args) = some (sockAddr, size) →
        t.SocketcallSound m args sockAddr size := by
  cases hargs : Call.sockaddr? m (.socketcall args) with
  | none =>
      have hnot : ¬ Whole m args := by
        intro hwhole
        obtain ⟨fd, addr, len, hwords⟩ := hwhole.words
        rw [hwords.sockaddr?] at hargs
        cases hargs
      have hframed : t.Framed m (.socketcall args) := by
        refine ⟨socketcall_of_not_whole hnot, fun sockAddr size hsome => ?_⟩
        rw [hargs] at hsome
        cases hsome
      refine iff_of_true hframed ?_
      intro sockAddr size hsome
      cases hsome
  | some sockaddr =>
      obtain ⟨sockAddr, size⟩ := sockaddr
      rw [framed_of_sockaddr hargs]
      show t.socketcall m args = t.wanted (moveArgs m args) ∧ _ ↔ _
      simp only [Option.some.injEq, Prod.mk.injEq, and_imp, forall_apply_eq_imp_iff, forall_eq']
      by_cases hwhole : Whole m args
      case neg =>
        rw [copied_le_iff, and_iff_right (socketcall_of_not_whole hwhole)]
        exact ⟨fun h => ⟨h, fun h' => absurd h' hwhole, fun h' => absurd h' hwhole⟩, fun h => h.fits⟩
      obtain ⟨hsock, fd, hwords⟩ := words_of_sockaddr? hwhole hargs
      have hmove : moveArgs m args = moveAddr m sockAddr size := by
        rw [hwords.moveArgs, ofLe_le_of_lt hsock, ofNat_le_wordSize]
      cases hload : m.load sockAddr (t.asWord size) with
      | none =>
          have hsame : t.socketcallMemory m args = m := by
            rw [socketcallMemory_eq, hargs]
            dsimp only
            rw [translatePort_none hload]
          have hplain : t.socketcall m args = t.wanted (moveArgs m args) := by
            unfold Tracer.socketcall
            rw [hsame, hmove, moveAddr_of_unreadable hload]
            split <;> rfl
          constructor
          · intro h
            refine ⟨copied_le_iff.mp h.2, fun _ bytes hsome => ?_, fun _ bytes hsome => ?_⟩
            · rw [hload] at hsome
              cases hsome
            · rw [hload] at hsome
              cases hsome
          · intro h
            exact ⟨hplain, copied_le_iff.mpr h.fits⟩
      | some bytes =>
          have hwanted : t.copied m sockAddr (t.asWord size) ≤ sizeofSockaddrUn →
              t.wanted (moveArgs m args) = .address (t.mapped bytes) := by
            intro hcopied
            obtain ⟨hneg, hword, -, hsmall⟩ := nonneg_of_copied hload hcopied
            rw [hword] at hload
            rw [hmove]
            exact wanted_of_load hneg hsmall hload
          constructor
          · intro h
            rw [hwanted h.2] at h
            exact (socketcall_view_iff hapart hwhole hargs hload h.2).mp h.1
          · intro h
            have hcopied := copied_le_iff.mpr h.fits
            rw [hwanted hcopied]
            exact ⟨(socketcall_view_iff hapart hwhole hargs hload hcopied).mpr h, hcopied⟩

/-! ## All calls -/

/-- **When the frame holds.** -/
def Tracer.CallSound (t : Tracer) (m : Memory) : Call → Prop
  | .direct sockAddr size => t.DirectSound m sockAddr size
  | .socketcall args =>
    ∀ sockAddr size, Call.sockaddr? m (.socketcall args) = some (sockAddr, size) →
      t.SocketcallSound m args sockAddr size

/-- The guest keeps what the call points to apart from where `alloc_mem` makes room for the structure,
below its stack. -/
def Tracer.Apart (t : Tracer) (m : Memory) : Call → Prop
  | .direct _ _ => True
  | .socketcall args => t.Scratch m args

/-- The kernel gets the address that it is to get, and no more is copied than there is room for, if
and only if the length makes no difference. -/
theorem framed_iff (t : Tracer) (m : Memory) (call : Call) (hapart : t.Apart m call) :
    t.Framed m call ↔ t.CallSound m call := by
  cases call with
  | direct sockAddr size => exact direct_framed_iff t m sockAddr size
  | socketcall args => exact socketcall_framed_iff hapart

def tracer8080 (isBind : Bool) : Tracer where
  is64 := true
  config := .initial [(0x901f, 0x8223)] false
  sockfd := 3
  isBind := isBind
  alloc := 1024

def connect8080 : Memory :=
  .ofBytes (le 4 3 ++ le 4 12 ++ le 4 110 ++ [2, 0, 0x1f, 0x90, 127, 0, 0, 1])

example : (tracer8080 false).newPort (sockaddrOf [2, 0, 0x1f, 0x90, 127, 0, 0, 1]) = some 0x8223 := by
  decide

theorem framed_connect8080 : (tracer8080 false).Framed connect8080 (.socketcall 0) := by
  have hargs : Call.sockaddr? connect8080 (.socketcall 0) = some (12, 110) := by decide
  apply (framed_iff (tracer8080 false) connect8080 (.socketcall 0) ?_).mpr
  · intro sockAddr size h
    rw [hargs] at h
    cases h
    constructor
    · exact .inl (by decide)
    · intro _ _ _ _ _ _
      rfl
    · intro _ _ _ h
      exact absurd ⟨fun _ _ => rfl, fun _ _ => rfl⟩ h
  · refine ⟨by decide, by decide, ?_⟩
    intro sockAddr size h
    rw [hargs] at h
    cases h
    decide

/-- bind(2) to an address of its own choice in the abstract namespace: the two bytes of `AF_UNIX` become
110 bytes; and with a length of 200 the structure is overrun. -/
theorem autobind_not_framed : ¬ (tracer8080 true).Framed (.ofBytes [1, 0]) (.direct 0 2) ∧
      ¬ (tracer8080 true).Framed (.ofBytes [1, 0]) (.direct 0 200) := by
  constructor
  · intro h
    have hlen : (2 : BitVec 32) = sizeofSockaddrUn :=
      (((direct_framed_iff _ _ _ _).mp h).readable [1, 0] rfl).1
    exact absurd hlen (by decide)
  · intro h
    obtain hle | ⟨i, -, hnone⟩ := copied_le_iff.mp (h.copied 0 200 rfl)
    · exact absurd hle (by decide)
    · cases hnone

end Improot.Extension.PortFrame
