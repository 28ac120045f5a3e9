import Improot.Tracee.Mem

/-!
# Word by word is byte by byte

The loops of `write_data` and `read_data` over words against transfers byte by byte: they agree, but
for the last word, which is read as a whole even where it begins in the range and ends outside of
it.
-/

namespace Improot.Tracee

open Improot.Lib

variable {w : Nat} {m : Memory}

/-! ## Full words -/

theorem pokeWords_eq (dest : Nat) (src : Bytes) (n : Nat) (h : n * w ≤ src.length) :
    pokeWords w m dest src n = m.store dest (src.take (n * w)) := by
  induction n generalizing m dest src with
  | zero => simp [pokeWords]
  | succ n ih =>
      have hmul : (n + 1) * w = w + n * w := by rw [Nat.succ_mul, Nat.add_comm]
      have hlen : (src.take w).length = w := by rw [List.length_take]; omega
      have hrest : n * w ≤ (src.drop w).length := by rw [List.length_drop]; omega
      rw [hmul, List.take_add, Memory.store_append, hlen, pokeWords]
      cases hstore : m.store dest (src.take w) with
      | mk m' ok =>
          cases ok with
          | false => rfl
          | true =>
              show pokeWords w m' (dest + w) (src.drop w) n = _
              rw [ih _ _ hrest]
              rfl

theorem patch_drop {dest bs : Bytes} {i k : Nat} (hi : i ≤ dest.length) (hk : i + bs.length ≤ k) :
    (patch dest i bs).drop k = dest.drop k := by
  have hlen : (dest.take i ++ bs).length = i + bs.length := by
    rw [List.length_append, List.length_take, Nat.min_eq_left hi]
  rw [patch, List.drop_append, hlen, List.drop_eq_nil_of_le (by omega), List.nil_append,
    List.drop_drop]
  congr 1
  omega

theorem patch_patch {dest xs ys : Bytes} {i : Nat} (h : i + xs.length ≤ dest.length) :
    patch (patch dest i xs) (i + xs.length) ys = patch dest i (xs ++ ys) := by
  have htake := (appends_patch h).take
  have hdrop : (patch dest i xs).drop (i + xs.length + ys.length) =
      dest.drop (i + xs.length + ys.length) := patch_drop (by omega) (by omega)
  rw [patch, htake, hdrop, patch, List.append_assoc (dest.take i), List.length_append,
    Nat.add_assoc i]

theorem peekWords_some {src i n : Nat} {dest bs : Bytes} (h : m.load src (n * w) = some bs)
    (hfits : i + n * w ≤ dest.length) :
    peekWords w m src dest i n = (patch dest i bs, true) := by
  induction n generalizing src i dest bs with
  | zero =>
      rw [Nat.zero_mul] at h
      cases h
      simp [peekWords, patch]
  | succ n ih =>
      have hmul : (n + 1) * w = w + n * w := by rw [Nat.succ_mul, Nat.add_comm]
      rw [hmul] at h hfits
      rw [Memory.load_add] at h
      obtain ⟨word, hword, h⟩ := Option.bind_eq_some_iff.mp h
      obtain ⟨rest, hrest, h⟩ := Option.bind_eq_some_iff.mp h
      cases h
      have hlen := Memory.load_length hword
      have hsize : (patch dest i word).length = dest.length := patch_length (by omega)
      simp only [peekWords, hword]
      rw [ih hrest (by omega)]
      conv_lhs => rw [← hlen]
      rw [patch_patch (by omega)]

theorem peekWords_none {src i n : Nat} {dest : Bytes} (h : m.load src (n * w) = none) :
    (peekWords w m src dest i n).2 = false := by
  induction n generalizing src i dest with
  | zero =>
      rw [Nat.zero_mul] at h
      cases h
  | succ n ih =>
      have hmul : (n + 1) * w = w + n * w := by rw [Nat.succ_mul, Nat.add_comm]
      rw [hmul, Memory.load_add] at h
      rw [peekWords]
      cases hword : m.load src w with
      | none => rfl
      | some word =>
          apply ih
          rw [hword] at h
          cases hrest : m.load (src + w) (n * w) with
          | none => rfl
          | some rest =>
              rw [hrest] at h
              cases h

theorem peekWords_frame (src i n : Nat) (dest : Bytes) (hfits : i + n * w ≤ dest.length) :
    (peekWords w m src dest i n).1.length = dest.length ∧
      (peekWords w m src dest i n).1.drop (i + n * w) = dest.drop (i + n * w) := by
  induction n generalizing src i dest with
  | zero => exact ⟨rfl, rfl⟩
  | succ n ih =>
      have hmul : i + (n + 1) * w = i + w + n * w := by rw [Nat.succ_mul]; omega
      rw [hmul] at hfits ⊢
      rw [peekWords]
      cases hword : m.load src w with
      | none => exact ⟨rfl, rfl⟩
      | some word =>
          have hlen := Memory.load_length hword
          have hsize : (patch dest i word).length = dest.length := patch_length (by omega)
          obtain ⟨hlength, hdrop⟩ := ih (src + w) (i + w) (patch dest i word) (by omega)
          refine ⟨hlength.trans hsize, hdrop.trans ?_⟩
          exact patch_drop (by omega) (by omega)

/-! ## The last word -/

/-- How many bytes of the last word lie behind a range of `size` bytes. -/
def bytesBehind (w size : Nat) : Nat := if size % w = 0 then 0 else w - size % w

theorem size_eq (w size : Nat) : (size - size % w) / w * w + size % w = size := by
  have hmod := Nat.mod_le size w
  rw [Nat.div_mul_cancel (Nat.dvd_sub_mod size)]
  omega

theorem store_lastWord {last : Nat} {tail word : Bytes} (hword : m.load last w = some word)
    (htail : tail.length ≤ w) :
    (m.store last (tail ++ word.drop tail.length)).1 = (m.store last tail).1 := by
  rw [Memory.store_append]
  split
  · apply Memory.store_load
    rw [Memory.load_store_outside (by omega)]
    exact Memory.load_drop hword htail
  · rfl

theorem store_lastWord_ok {last : Nat} {tail word : Bytes} (hword : m.load last w = some word)
    (htail : tail.length ≤ w) :
    (m.store last (tail ++ word.drop tail.length)).2 = true ↔ m.Writable last w := by
  have hlen := Memory.load_length hword
  rw [Memory.store_ok, List.length_append, List.length_drop, hlen, Nat.add_sub_cancel' htail]

/-- **Where the fallback of `write_data` gets through**: every byte of the words that the range
touches can be written; and the memory is then the one after a write byte by byte. -/
theorem writeDataFallback_ok (hw : 0 < w) (dest : Nat) (src : Bytes) :
    ((writeDataFallback w m dest src).2 = .ok () ↔
      m.Writable dest (src.length + bytesBehind w src.length)) ∧
    ((writeDataFallback w m dest src).2 = .ok () →
      (writeDataFallback w m dest src).1 = (m.store dest src).1) := by
  have hsize := size_eq w src.length
  have hfull := pokeWords_eq (m := m) (w := w) dest src ((src.length - src.length % w) / w)
    (by omega)
  simp only [writeDataFallback, hfull]
  generalize (src.length - src.length % w) / w * w = full at hsize ⊢
  have hlen : (src.take full).length = full := by rw [List.length_take]; omega
  have hok : (m.store dest (src.take full)).2 = true ↔ m.Writable dest (src.take full).length :=
    Memory.store_ok
  have hsplit := Memory.store_append (m := m) dest (src.take full) (src.drop full)
  have hwritable (n : Nat) : (m.store dest (src.take full)).1.Writable (dest + full) n ↔
    m.Writable (dest + full) n := Memory.store_writable_iff
  rw [List.take_append_drop] at hsplit
  rw [hlen] at hok hsplit
  generalize m.store dest (src.take full) = stored at hok hsplit hwritable ⊢
  obtain ⟨m', ok⟩ := stored
  cases ok with
  | false =>
      have hnot : ¬ m.Writable dest (src.length + bytesBehind w src.length) := by
        intro hall
        rw [show src.length + bytesBehind w src.length =
          full + (src.length % w + bytesBehind w src.length) by omega,
          Memory.writable_add] at hall
        exact Bool.false_ne_true (hok.mpr hall.1)
      constructor
      · exact ⟨fun hfault => (by cases hfault), fun hall => absurd hall hnot⟩
      · intro hfault
        cases hfault
  | true =>
      have hwords := hok.mp rfl
      rw [if_pos rfl] at hsplit
      by_cases hrest : src.length % w = 0
      · have hdrop : src.drop full = [] := List.drop_eq_nil_of_le (by omega)
        have hend : src.length = full := by omega
        rw [hdrop, Memory.store_nil] at hsplit
        simp only [hrest, if_true, hsplit, bytesBehind, Nat.add_zero, true_iff, implies_true,
          and_true]
        rw [hend]
        exact hwords
      · have hbehind : bytesBehind w src.length = w - src.length % w := if_neg hrest
        have hmod := Nat.mod_lt src.length hw
        have htail : (src.drop full).length = src.length % w := by rw [List.length_drop]; omega
        have hrange : m.Writable dest (src.length + bytesBehind w src.length) ↔
            m'.Writable (dest + full) w := by
          rw [hwritable, show src.length + bytesBehind w src.length = full + w by omega,
            Memory.writable_add]
          exact ⟨And.right, fun hlast => ⟨hwords, hlast⟩⟩
        rw [hrange]
        simp only [hrest, if_false]
        cases hload : m'.load (dest + full) w with
        | none =>
            constructor
            · refine ⟨fun hfault => (by cases hfault), ?_⟩
              intro hlast
              have hsome := Memory.load_of_writable hlast
              rw [hload] at hsome
              cases hsome
            · intro hfault
              cases hfault
        | some word =>
            have hmem := store_lastWord hload (show (src.drop full).length ≤ w by omega)
            have hlast := store_lastWord_ok hload (show (src.drop full).length ≤ w by omega)
            rw [htail] at hmem hlast
            rw [hsplit, ← hmem, ← hlast]
            simp only
            generalize m'.store (dest + full) (src.drop full ++ word.drop (src.length % w)) = last
            obtain ⟨m'', ok⟩ := last
            cases ok with
            | false | true => simp

/-- The memory after the fallback of `write_data`: a write byte by byte of the full words, or of all
bytes. -/
theorem writeDataFallback_memory (hw : 0 < w) (dest : Nat) (src : Bytes) :
    ∃ n, (writeDataFallback w m dest src).1 = (m.store dest (src.take n)).1 := by
  have hsize := size_eq w src.length
  have hfull := pokeWords_eq (m := m) (w := w) dest src ((src.length - src.length % w) / w)
    (by omega)
  simp only [writeDataFallback, hfull]
  generalize (src.length - src.length % w) / w * w = full at hsize ⊢
  have hlen : (src.take full).length = full := by rw [List.length_take]; omega
  have hsplit := Memory.store_append (m := m) dest (src.take full) (src.drop full)
  rw [List.take_append_drop, hlen] at hsplit
  cases hstored : m.store dest (src.take full) with
  | mk m' ok =>
      rw [hstored] at hsplit
      have hwords : m' = (m.store dest (src.take full)).1 := by rw [hstored]
      cases ok with
      | false => exact ⟨full, hwords⟩
      | true =>
          simp only
          split
          case isTrue => exact ⟨full, hwords⟩
          case isFalse hrest =>
            have hmod := Nat.mod_lt src.length hw
            have htail : (src.drop full).length = src.length % w := by
              rw [List.length_drop]; omega
            cases hload : m'.load (dest + full) w with
            | none => exact ⟨full, hwords⟩
            | some word =>
                have hmem := store_lastWord hload (show (src.drop full).length ≤ w by omega)
                rw [htail] at hmem
                refine ⟨src.length, ?_⟩
                rw [List.take_length, hsplit, if_pos rfl, ← hmem]
                simp only
                generalize
                  m'.store (dest + full) (src.drop full ++ word.drop (src.length % w)) = last
                obtain ⟨m'', ok⟩ := last
                cases ok <;> rfl

/-- **The frame of the fallback of `write_data`**: whatever fails, and wherever, the bytes outside
of the range stay. -/
theorem writeDataFallback_frame (hw : 0 < w) {dest a : Nat} {src : Bytes}
    (h : a < dest ∨ dest + src.length ≤ a) :
    (writeDataFallback w m dest src).1.byte? a = m.byte? a := by
  obtain ⟨n, hmem⟩ := writeDataFallback_memory (m := m) hw dest src
  rw [hmem]
  apply Memory.store_byte?_outside
  rw [List.length_take]
  omega

/-! ## Reading -/

/-- **Where the fallback of `read_data` gets through**: every byte of the words that the range
touches can be read; and the buffer then holds the bytes of the range. -/
theorem readDataFallback_ok (hw : 0 < w) {src size : Nat} {dest : Bytes}
    (hfits : size ≤ dest.length) :
    ((readDataFallback w m dest src size).2 = .ok () ↔
      (m.load src (size + bytesBehind w size)).isSome = true) ∧
    ∀ bs, m.load src (size + bytesBehind w size) = some bs →
      (readDataFallback w m dest src size).1 = bs.take size ++ dest.drop size := by
  have hsize := size_eq w size
  have hnone (h : m.load src ((size - size % w) / w * w) = none) :
    (peekWords w m src dest 0 ((size - size % w) / w)).2 = false := peekWords_none h
  have hsome (bs : Bytes) (h : m.load src ((size - size % w) / w * w) = some bs)
    (hwords : 0 + (size - size % w) / w * w ≤ dest.length) :
    peekWords w m src dest 0 ((size - size % w) / w) = (patch dest 0 bs, true) :=
      peekWords_some h hwords
  simp only [readDataFallback]
  generalize peekWords w m src dest 0 ((size - size % w) / w) = peeked at hnone hsome ⊢
  generalize (size - size % w) / w * w = full at hsize hnone hsome ⊢
  have hpatch (bs : Bytes) (hlen : bs.length = size) :
      patch dest 0 bs = bs ++ dest.drop size := by
    rw [patch, List.take_zero, List.nil_append, Nat.zero_add, hlen]
  cases hfull : m.load src full with
  | none =>
      have hrange : m.load src (size + bytesBehind w size) = none := by
        rw [show size + bytesBehind w size = full + (size % w + bytesBehind w size) by omega,
          Memory.load_add, hfull]
        rfl
      obtain ⟨dest', ok⟩ := peeked
      obtain rfl : ok = false := hnone hfull
      rw [hrange]
      simp
  | some xs =>
      have hxs := Memory.load_length hfull
      rw [hsome xs hfull (by omega)]
      by_cases hrest : size % w = 0
      · have hend : size = full := by omega
        simp only [hrest, if_true, bytesBehind, Nat.add_zero, true_iff]
        rw [hend, hfull]
        refine ⟨rfl, ?_⟩
        intro bs hbs
        obtain rfl := Option.some.inj hbs
        rw [hpatch xs (by omega), List.take_of_length_le (by omega), hend]
      · have hbehind : bytesBehind w size = w - size % w := if_neg hrest
        have hmod := Nat.mod_lt size hw
        have hrange : m.load src (size + bytesBehind w size) =
            (m.load (src + full) w).bind fun ys => some (xs ++ ys) := by
          rw [show size + bytesBehind w size = full + w by omega, Memory.load_add, hfull]
          rfl
        rw [hrange]
        simp only [hrest, if_false]
        cases hword : m.load (src + full) w with
        | none => simp
        | some word =>
            have hlen := Memory.load_length hword
            refine ⟨by simp, ?_⟩
            intro bs hbs
            obtain rfl := Option.some.inj hbs
            show patch (patch dest 0 xs) full (word.take (size % w)) = _
            have htwo : patch (patch dest 0 xs) full (word.take (size % w)) =
                patch dest 0 (xs ++ word.take (size % w)) := by
              rw [← patch_patch (show 0 + xs.length ≤ dest.length by omega), Nat.zero_add, hxs]
            have htake : (xs ++ word).take size = xs ++ word.take (size % w) := by
              rw [List.take_append, List.take_of_length_le (by omega)]
              congr 2
              omega
            rw [htwo, htake, hpatch]
            rw [List.length_append, List.length_take]
            omega

/-- **The frame of the fallback of `read_data`**: the buffer keeps its size and the bytes behind the
range. -/
theorem readDataFallback_frame (hw : 0 < w) {src size : Nat} {dest : Bytes}
    (hfits : size ≤ dest.length) :
    (readDataFallback w m dest src size).1.length = dest.length ∧
      (readDataFallback w m dest src size).1.drop size = dest.drop size := by
  have hsize := size_eq w size
  have hframe := peekWords_frame (m := m) (w := w) src 0 ((size - size % w) / w) dest (by omega)
  simp only [readDataFallback]
  generalize peekWords w m src dest 0 ((size - size % w) / w) = peeked at hframe ⊢
  generalize (size - size % w) / w * w = full at hsize hframe ⊢
  obtain ⟨dest', ok⟩ := peeked
  obtain ⟨hlength, hdrop⟩ := hframe
  rw [Nat.zero_add] at hdrop
  have hbehind : dest'.drop size = dest.drop size := by
    have := congrArg (List.drop (size - full)) hdrop
    rwa [List.drop_drop, List.drop_drop, Nat.add_sub_cancel' (by omega)] at this
  cases ok with
  | false => exact ⟨hlength, hbehind⟩
  | true =>
      simp only at hlength ⊢
      split
      case isTrue => exact ⟨hlength, hbehind⟩
      case isFalse hrest =>
        cases hword : m.load (src + full) w with
        | none => exact ⟨hlength, hbehind⟩
        | some word =>
            have hlen := Memory.load_length hword
            have hmod := Nat.mod_lt size hw
            have htail : (word.take (size % w)).length = size % w := by
              rw [List.length_take]; omega
            refine ⟨(patch_length (by omega)).trans hlength, ?_⟩
            exact (patch_drop (by omega) (by omega)).trans hbehind

/-! ## Transfers -/

/-- What is expected of the write of a block: it goes through where every byte of the range can be
written, the range then holds the block, which is read back, and no other byte ever changes. -/
structure WritesBlock (w : Nat) (m : Memory) (dest : Nat) (src : Bytes) : Prop where
  copies : m.Writable dest src.length → (writeDataFallback w m dest src).2 = .ok ()
  contents : (writeDataFallback w m dest src).2 = .ok () →
    (writeDataFallback w m dest src).1.load dest src.length = some src
  frame : ∀ a, a < dest ∨ dest + src.length ≤ a →
    (writeDataFallback w m dest src).1.byte? a = m.byte? a
  back : (writeDataFallback w m dest src).2 = .ok () → ∀ buf : Bytes, src.length ≤ buf.length →
    readDataFallback w (writeDataFallback w m dest src).1 buf dest src.length =
      (src ++ buf.drop src.length, .ok ())

/-- What is expected of the read of a block: it goes through where every byte of the range can be
read, the buffer then begins with the bytes of the range, and the rest of the buffer never changes.
-/
structure ReadsBlock (w : Nat) (m : Memory) (dest : Bytes) (src size : Nat) : Prop where
  copies : (m.load src size).isSome = true → (readDataFallback w m dest src size).2 = .ok ()
  contents : (readDataFallback w m dest src size).2 = .ok () →
    m.load src size = some ((readDataFallback w m dest src size).1.take size)
  frame : (readDataFallback w m dest src size).1.length = dest.length ∧
    (readDataFallback w m dest src size).1.drop size = dest.drop size

structure LastWord (w : Nat) (m : Memory) (address size : Nat) : Prop where
  writable : m.Writable address size → m.Writable address (size + bytesBehind w size)
  readable : (m.load address size).isSome = true →
    (m.load address (size + bytesBehind w size)).isSome = true

theorem readDataFallback_written (hw : 0 < w) {dest : Nat} {src buf : Bytes}
    (hok : (writeDataFallback w m dest src).2 = .ok ()) (hfits : src.length ≤ buf.length) :
    readDataFallback w (writeDataFallback w m dest src).1 buf dest src.length =
      (src ++ buf.drop src.length, .ok ()) := by
  obtain ⟨hall, hmem⟩ := writeDataFallback_ok (m := m) hw dest src
  have hwritable := hall.mp hok
  have hstored : (m.store dest src).2 = true :=
    Memory.store_ok.mpr (Memory.writable_add.mp hwritable).1
  rw [hmem hok]
  have hwords : ((m.store dest src).1.load dest
      (src.length + bytesBehind w src.length)).isSome = true :=
    Memory.load_of_writable (Memory.store_writable_iff.mpr hwritable)
  obtain ⟨bs, hbs⟩ := Option.isSome_iff_exists.mp hwords
  have hblock : bs.take src.length = src := by
    have htake := Memory.load_take hbs (Nat.le_add_right _ _)
    rw [Memory.load_store hstored] at htake
    exact (Option.some.inj htake).symm
  obtain ⟨hread, hbuf⟩ := @readDataFallback_ok w (m.store dest src).1 hw dest _ _ hfits
  refine Prod.ext ?_ (hread.mpr hwords)
  rw [hbuf bs hbs, hblock]

/-- **Word-wise transfers are byte-wise transfers** exactly where no range that is accessible ends
in a word that is not. -/
theorem transfers_iff (w : Nat) (m : Memory) (address : Nat) (block buf : Bytes) (hw : 0 < w)
    (hfits : block.length ≤ buf.length) :
    WritesBlock w m address block ∧ ReadsBlock w m buf address block.length ↔
      LastWord w m address block.length := by
  obtain ⟨hwrite, hmem⟩ := writeDataFallback_ok (m := m) hw address block
  obtain ⟨hread, hbuf⟩ := @readDataFallback_ok w m hw address _ _ hfits
  constructor
  · intro h
    exact ⟨fun hrange => hwrite.mp (h.1.copies hrange), fun hrange => hread.mp (h.2.copies hrange)⟩
  · intro h
    constructor
    · refine ⟨fun hrange => hwrite.mpr (h.writable hrange), ?_,
        fun a ha => writeDataFallback_frame hw ha,
        fun hok buf hbuf => readDataFallback_written hw hok hbuf⟩
      intro hok
      rw [hmem hok]
      exact Memory.load_store (Memory.store_ok.mpr (Memory.writable_add.mp (hwrite.mp hok)).1)
    · refine ⟨fun hrange => hread.mpr (h.readable hrange), ?_, readDataFallback_frame hw hfits⟩
      intro hok
      obtain ⟨bs, hbs⟩ := Option.isSome_iff_exists.mp (hread.mp hok)
      have hlen := Memory.load_length hbs
      rw [hbuf bs hbs, List.take_left' (by rw [List.length_take]; omega)]
      exact Memory.load_take hbs (Nat.le_add_right _ _)

/-- One page, at 4096; all of its bytes are 0. -/
def onePage : Memory where
  byte? a := if 4096 ≤ a ∧ a < 8192 then some 0 else none
  writable a := 4096 ≤ a ∧ a < 8192
  mapped := by
    intro a ha
    rw [if_pos (of_decide_eq_true ha)]
    rfl

/-- Three bytes in the middle of the page. -/
theorem transfers_middle :
    WritesBlock 8 onePage 5001 [1, 2, 3] ∧ ReadsBlock 8 onePage [9, 9, 9] 5001 3 := by
  refine (transfers_iff 8 onePage 5001 [1, 2, 3] [9, 9, 9] (by decide) (by decide)).mpr ⟨?_, ?_⟩
  · intro h i hi
    exact decide_eq_true (by simp [bytesBehind] at hi; omega)
  · intro h
    decide

/-- The last three bytes of the page can be written, but not with the words of a 64-bit tracer. -/
theorem not_transfers_endOfPage :
    ¬ (WritesBlock 8 onePage 8189 [1, 2, 3] ∧ ReadsBlock 8 onePage [9, 9, 9] 8189 3) := by
  intro h
  have hfault : (writeDataFallback 8 onePage 8189 [1, 2, 3]).2 = .error .efault := rfl
  have hrange : onePage.Writable 8189 3 := by
    intro i hi
    exact decide_eq_true (by omega)
  have hok := h.1.copies hrange
  rw [hfault] at hok
  cases hok

end Improot.Tracee
