import Improot.Tracee.MemSpec

/-!
# Strings of a tracee

The two paths of `read_string`, by chunks with process_vm_readv(2) and by words with ptrace(2),
against the walk over the string byte by byte.
-/

namespace Improot.Tracee

open Improot.Lib

variable {w : Nat} {m : Memory}

/-! ## Words -/

theorem scan_of_bytes {a n : Nat} {bs : Bytes} (h : m.load a n = some bs) :
    m.scan a n =
      match endOfString? bs with
      | some j => .ended (bs.take j)
      | none => .unended bs := by
  have hlen := Memory.load_length h
  cases hend : endOfString? bs with
  | none =>
      apply Memory.scan_of_load h
      intro hmem
      have := List.findIdx?_eq_none_iff.mp hend 0 hmem
      simp at this
  | some j =>
      obtain ⟨hj, hzero, hbefore⟩ := List.findIdx?_eq_some_iff_getElem.mp hend
      have hzero : bs[j] = 0 := of_decide_eq_true hzero
      have htake : (bs.take j).length = j := by rw [List.length_take]; omega
      apply Memory.scan_of_string
      · omega
      · intro hmem
        obtain ⟨i, hi, hbyte⟩ := List.mem_iff_getElem.mp hmem
        rw [List.getElem_take] at hbyte
        have hne := hbefore i (by omega)
        rw [hbyte] at hne
        simp at hne
      · rw [htake, Memory.load_take h (show j + 1 ≤ n by omega), List.take_succ_eq_append_getElem hj,
          hzero]

theorem endOfString?_lt {bs : Bytes} {j : Nat} (h : endOfString? bs = some j) : j < bs.length :=
  (List.findIdx?_eq_some_iff_getElem.mp h).1

theorem scan_of_load_none {a n : Nat} (h : m.load a n = none) :
    m.scan a n = .faulted ∨ ∃ bs, m.scan a n = .ended bs ∧ bs.length < n := by
  have hspec := m.scan_spec a n
  cases hscan : m.scan a n with
  | faulted => exact .inl rfl
  | ended bs =>
      rw [hscan] at hspec
      exact .inr ⟨bs, rfl, hspec.1⟩
  | unended bs =>
      rw [hscan] at hspec
      exact absurd (h.symm.trans hspec.1) (by simp)

def wordOf (w k : Nat) : Nat := k / w * w

theorem wordOf_of_lt {k : Nat} (h : k < w) : wordOf w k = 0 := by
  rw [wordOf, Nat.div_eq_of_lt h, Nat.zero_mul]

theorem wordOf_add (hw : 0 < w) (k : Nat) : wordOf w (w + k) = w + wordOf w k := by
  rw [wordOf, Nat.add_div_left k hw, Nat.succ_mul, Nat.add_comm]
  rfl

theorem wordOf_mul_add (q : Nat) {r : Nat} (h : r < w) : wordOf w (q * w + r) = q * w := by
  have hw : 0 < w := Nat.zero_lt_of_lt h
  rw [wordOf, Nat.mul_comm q w, Nat.mul_add_div hw, Nat.div_eq_of_lt h, Nat.add_zero, Nat.mul_comm]

def wordRead (w : Nat) (m : Memory) (src k : Nat) : Bool := (m.load (src + wordOf w k) w).isSome

theorem wordRead_add (hw : 0 < w) (src k : Nat) :
    wordRead w m src (w + k) = wordRead w m (src + w) k := by
  rw [wordRead, wordRead, wordOf_add hw, Nat.add_assoc]

/-- **What the first loop of the fallback returns**: the length of the string if the word with its
terminator can be read. -/
theorem stringWords_status (hw : 0 < w) (src : Nat) (dest : Bytes) (i n : Nat) :
    (stringWords w m src dest i n).2 =
      match m.scan src (n * w) with
      | .ended bs =>
        some (if wordRead w m src bs.length then .ok (i + bs.length + 1) else .error .efault)
      | .faulted => some (.error .efault)
      | .unended _ => none := by
  induction n generalizing src dest i with
  | zero =>
      rw [Nat.zero_mul]
      rfl
  | succ n ih =>
      rw [show (n + 1) * w = w + n * w by rw [Nat.succ_mul, Nat.add_comm], Memory.scan_add,
        stringWords]
      cases hload : m.load src w with
      | none =>
          cases scan_of_load_none hload with
          | inl hfault => rw [hfault]
          | inr hended =>
              obtain ⟨bs, hended, hlt⟩ := hended
              have hread : wordRead w m src bs.length = false := by
                rw [wordRead, wordOf_of_lt hlt, Nat.add_zero, hload]
                rfl
              simp [hended, hread]
      | some word =>
          have hlen := Memory.load_length hload
          rw [scan_of_bytes hload]
          cases hend : endOfString? word with
          | some j =>
              have hj := endOfString?_lt hend
              have htake : (word.take j).length = j := by rw [List.length_take]; omega
              have hread : wordRead w m src j = true := by
                rw [wordRead, wordOf_of_lt (by omega), Nat.add_zero, hload]
                rfl
              simp [hend, htake, hread]
          | none =>
              simp only [hend, ih]
              cases m.scan (src + w) (n * w) with
              | faulted | unended => rfl
              | ended bs =>
                  simp only [Memory.Scan.prepend, List.length_append, hlen, wordRead_add hw,
                    Nat.add_assoc]

/-- **What the fallback returns**: the last word decides, be it the one with the terminator or the
one behind the bytes that were asked for. -/
theorem readStringFallback_status (hw : 0 < w) (dest : Bytes) (src maxSize : Nat) :
    (readStringFallback w m dest src maxSize).2 =
      match m.scan src maxSize with
      | .ended bs => if wordRead w m src bs.length then .ok (bs.length + 1) else .error .efault
      | .faulted => .error .efault
      | .unended _ =>
        if wordRead w m src maxSize then .ok (maxSize + 1) else .error .efault := by
  have hsize := size_eq w maxSize
  have hmod := Nat.mod_lt maxSize hw
  have hwords := stringWords_status (m := m) hw src dest 0 ((maxSize - maxSize % w) / w)
  simp only [readStringFallback]
  generalize (maxSize - maxSize % w) / w = q at hsize hwords ⊢
  generalize stringWords w m src dest 0 q = walked at hwords ⊢
  obtain ⟨dest', status⟩ := walked
  have hscan := Memory.scan_add (m := m) src (q * w) (maxSize % w)
  rw [hsize] at hscan
  have hread (r : Nat) (hr : r < w) :
      wordRead w m src (q * w + r) = (m.load (src + q * w) w).isSome := by
    rw [wordRead, wordOf_mul_add q hr]
  rw [hscan]
  cases hfull : m.scan src (q * w) with
  | ended bs =>
      rw [hfull] at hwords
      obtain rfl : status = some _ := hwords
      simp
  | faulted =>
      rw [hfull] at hwords
      obtain rfl : status = some _ := hwords
      rfl
  | unended xs =>
      rw [hfull] at hwords
      obtain rfl : status = none := hwords
      have hspec := m.scan_spec src (q * w)
      rw [hfull] at hspec
      have hxs := Memory.load_length hspec.1
      have hmax : wordRead w m src maxSize = (m.load (src + q * w) w).isSome := by
        rw [← hread (maxSize % w) hmod, hsize]
      have hlast := m.scan_spec (src + q * w) (maxSize % w)
      cases hload : m.load (src + q * w) w with
      | none =>
          cases hrest : m.scan (src + q * w) (maxSize % w) with
          | faulted => rfl
          | unended bs => simp [Memory.Scan.prepend, hmax, hload]
          | ended bs =>
              rw [hrest] at hlast
              simp [Memory.Scan.prepend, hxs, hread bs.length (by omega), hload]
      | some word =>
          have hlen := Memory.load_length hload
          have htail := Memory.load_take hload (Nat.le_of_lt hmod)
          rw [scan_of_bytes htail] at hlast ⊢
          cases hend : endOfString? (word.take (maxSize % w)) with
          | none =>
              simp only [hend, Memory.Scan.prepend, hmax, hload, Option.isSome_some, if_true]
              rw [hsize]
          | some j =>
              have hj := endOfString?_lt hend
              rw [List.length_take] at hj
              have htake : ((word.take (maxSize % w)).take j).length = j := by
                rw [List.length_take, List.length_take]; omega
              simp only [hend, Memory.Scan.prepend, List.length_append, hxs, htake,
                hread j (by omega), hload, Option.isSome_some, if_true]

/-! ## The buffer -/

/-- What the first loop of the fallback leaves in the buffer: bytes of the tracee at its place, as
many as it has walked over. -/
theorem stringWords_dest (src : Nat) (dest : Bytes) (i n : Nat) (hfits : i + n * w ≤ dest.length) :
    ∃ bs, m.load src bs.length = some bs ∧ bs.length ≤ n * w ∧
      (stringWords w m src dest i n).1 = patch dest i bs ∧
      (∀ k, (stringWords w m src dest i n).2 = some (.ok k) → k ≤ i + bs.length) ∧
      ((stringWords w m src dest i n).2 = none → bs.length = n * w) := by
  induction n generalizing src dest i with
  | zero =>
      refine ⟨[], rfl, Nat.zero_le _, by simp [stringWords, patch], ?_, ?_⟩
      · intro k hk
        cases hk
      · intro h
        rw [Nat.zero_mul]
        rfl
  | succ n ih =>
      have hmul : (n + 1) * w = w + n * w := by rw [Nat.succ_mul, Nat.add_comm]
      rw [hmul] at hfits ⊢
      rw [stringWords]
      cases hload : m.load src w with
      | none =>
          refine ⟨[], rfl, Nat.zero_le _, by simp [patch], ?_, ?_⟩
          · intro k hk
            cases hk
          · intro h
            cases h
      | some word =>
          have hlen := Memory.load_length hload
          have hself : m.load src word.length = some word := by rw [hlen, hload]
          cases hend : endOfString? word with
          | some j =>
              have hj := endOfString?_lt hend
              refine ⟨word, hself, by omega, by simp only [hend], ?_, ?_⟩
              · intro k hk
                simp only [hend] at hk
                cases hk
                omega
              · intro h
                simp only [hend] at h
                cases h
          | none =>
              have hsize : (patch dest i word).length = dest.length := patch_length (by omega)
              obtain ⟨bs, hbs, hle, hdest, hstatus, hnone⟩ :=
                ih (src + w) (patch dest i word) (i + w) (by omega)
              simp only [hend]
              refine ⟨word ++ bs, ?_, by rw [List.length_append]; omega, ?_, ?_, ?_⟩
              · rw [List.length_append, Memory.load_add, hself, hlen]
                simp [hbs]
              · rw [hdest, ← patch_patch (by omega), hlen]
              · intro k hk
                have := hstatus k hk
                rw [List.length_append]
                omega
              · intro h
                rw [List.length_append, hlen, hnone h]

/-- The fallback copies what can be read, and counts no more. -/
theorem readStringFallback_dest (hw : 0 < w) {dest : Bytes} {src maxSize : Nat}
    (hfits : maxSize ≤ dest.length) :
    ∃ bs, m.load src bs.length = some bs ∧ bs.length ≤ maxSize ∧
      (readStringFallback w m dest src maxSize).1 = patch dest 0 bs ∧
      ∀ k, (readStringFallback w m dest src maxSize).2 = .ok k → k ≤ maxSize → k ≤ bs.length := by
  have hsize := size_eq w maxSize
  have hmod := Nat.mod_lt maxSize hw
  have hwords := stringWords_dest (m := m) (w := w) src dest 0 ((maxSize - maxSize % w) / w)
    (by omega)
  simp only [readStringFallback]
  generalize (maxSize - maxSize % w) / w = q at hsize hwords ⊢
  generalize stringWords w m src dest 0 q = walked at hwords ⊢
  obtain ⟨dest', status⟩ := walked
  obtain ⟨xs, hxs, hle, hdest, hstatus, hnone⟩ := hwords
  obtain rfl : dest' = patch dest 0 xs := hdest
  cases status with
  | some status =>
      refine ⟨xs, hxs, by omega, rfl, ?_⟩
      intro k hk hmax
      have := hstatus k (congrArg some hk)
      omega
  | none =>
      have hlen := hnone rfl
      have hpatch (ys : Bytes) : patch (patch dest 0 xs) (q * w) ys = patch dest 0 (xs ++ ys) := by
        rw [← patch_patch (by omega), Nat.zero_add, hlen]
      have hjoin (ys : Bytes) (h : m.load (src + q * w) ys.length = some ys) :
          m.load src (xs ++ ys).length = some (xs ++ ys) := by
        rw [List.length_append, Memory.load_add, hxs, hlen]
        simp [h]
      simp only
      cases hload : m.load (src + q * w) w with
      | none =>
          refine ⟨xs, hxs, by omega, rfl, ?_⟩
          intro k hk
          cases hk
      | some word =>
          have htail := Memory.load_take hload (Nat.le_of_lt hmod)
          have htlen := Memory.load_length htail
          cases hend : endOfString? (word.take (maxSize % w)) with
          | none =>
              simp only [hend]
              refine ⟨xs ++ word.take (maxSize % w), hjoin _ (by rwa [htlen]), ?_, hpatch _, ?_⟩
              · rw [List.length_append]
                omega
              · intro k hk hmax
                cases hk
                omega
          | some j =>
              have hj := endOfString?_lt hend
              have hstring := Memory.load_take htail (show j + 1 ≤ maxSize % w by omega)
              have hslen := Memory.load_length hstring
              simp only [hend]
              refine ⟨xs ++ (word.take (maxSize % w)).take (j + 1), hjoin _ (by rwa [hslen]), ?_,
                hpatch _, ?_⟩
              · rw [List.length_append]
                omega
              · intro k hk hmax
                cases hk
                rw [List.length_append]
                omega

/-! ## Chunks -/

/-- What process_vm_readv(2) transfers: bytes of the tracee, no more than asked for. -/
def Transfers (m : Memory) (readv : ProcessVmReadv) : Prop :=
  ∀ address size, (readv address size).length ≤ size ∧
    m.load address (readv address size).length = some (readv address size)

/-- **The chunks**: when a string is returned, it is the one that a walk finds, and it is in the
buffer. -/
theorem stringChunks_spec {readv : ProcessVmReadv} (hreadv : Transfers m readv) (pageSize : Nat)
    {src maxSize offset : Nat} {dest xs : Bytes} (hfits : maxSize ≤ dest.length)
    (hoffset : offset ≤ maxSize) (hxs : m.load src offset = some xs) (hzero : 0 ∉ xs) :
    ∃ bs, m.load src bs.length = some bs ∧ bs.length ≤ maxSize ∧
      (stringChunks readv pageSize src maxSize (patch dest 0 xs) offset).1 = patch dest 0 bs ∧
      ∀ n, (stringChunks readv pageSize src maxSize (patch dest 0 xs) offset).2 = some n →
        n ≤ bs.length ∧ ∃ s, m.scan src maxSize = .ended s ∧ n = s.length + 1 := by
  induction hk : maxSize - offset using Nat.strongRecOn generalizing offset xs with
  | ind k ih =>
      subst hk
      have hxlen := Memory.load_length hxs
      have hle := sizeOfChunk_le pageSize (src + offset) (maxSize - offset)
      have hpos : 0 < maxSize - offset →
        0 < sizeOfChunk pageSize (src + offset) (maxSize - offset) := sizeOfChunk_pos
      rw [stringChunks]
      generalize sizeOfChunk pageSize (src + offset) (maxSize - offset) = size at hle hpos ⊢
      obtain ⟨hshort, hbytes⟩ := hreadv (src + offset) size
      generalize readv (src + offset) size = bytes at hshort hbytes ⊢
      have hpatch : patch (patch dest 0 xs) offset bytes = patch dest 0 (xs ++ bytes) := by
        rw [← patch_patch (by omega), Nat.zero_add, hxlen]
      have hjoin : m.load src (offset + bytes.length) = some (xs ++ bytes) := by
        rw [Memory.load_add, hxs]
        simp [hbytes]
      have hjoinlen : (xs ++ bytes).length = offset + bytes.length := by
        rw [List.length_append, hxlen]
      rw [hpatch]
      by_cases hall : bytes.length = size
      · rw [if_neg (not_not.mpr hall)]
        cases hend : endOfString? bytes with
        | some j =>
            have hj := endOfString?_lt hend
            refine ⟨xs ++ bytes, by rwa [hjoinlen], by omega, rfl, ?_⟩
            intro n hn
            cases hn
            refine ⟨by omega, xs ++ bytes.take j, ?_, ?_⟩
            · have hrest : m.scan (src + offset) (maxSize - offset) = .ended (bytes.take j) := by
                rw [show maxSize - offset = bytes.length + (maxSize - offset - bytes.length) by omega,
                  Memory.scan_add, scan_of_bytes hbytes, hend]
              rw [show maxSize = offset + (maxSize - offset) by omega, Memory.scan_add,
                Memory.scan_of_load hxs hzero, hrest]
              rfl
            · rw [List.length_append, List.length_take, hxlen]
              omega
        | none =>
            have hnul : 0 ∉ bytes := by
              intro hmem
              have := List.findIdx?_eq_none_iff.mp hend 0 hmem
              simp at this
            have hnone : 0 ∉ xs ++ bytes := by
              intro hmem
              cases List.mem_append.mp hmem with
              | inl hmem => exact hzero hmem
              | inr hmem => exact hnul hmem
            simp only
            split
            case isTrue hmore =>
              rw [← hall] at hmore ⊢
              exact ih _ (by omega) (by omega) hjoin hnone rfl
            case isFalse =>
              refine ⟨xs ++ bytes, by rwa [hjoinlen], by omega, rfl, ?_⟩
              intro n hn
              cases hn
      · rw [if_pos hall]
        refine ⟨xs ++ bytes, by rwa [hjoinlen], by omega, rfl, ?_⟩
        intro n hn
        cases hn

/-! ## Strings -/

/-- What is expected of a read of a string: the bytes up to the first terminator and their number,
if it comes before the limit and before any hole; EFAULT exactly when a hole comes first; and no
byte of the buffer behind the limit changes. -/
structure ReadsString (m : Memory) (dest : Bytes) (src maxSize : Nat)
    (result : Bytes × Except Errno Nat) : Prop where
  string : ∀ bs : Bytes, 0 ∉ bs → bs.length < maxSize →
    m.load src (bs.length + 1) = some (bs ++ [0]) →
    result.2 = .ok (bs.length + 1) ∧ result.1.take (bs.length + 1) = bs ++ [0]
  fault : result.2 = .error .efault ↔
    ∃ i, i < maxSize ∧ m.byte? (src + i) = none ∧ ∀ j, j < i → m.byte? (src + j) ≠ some 0
  inside : result.1.length = dest.length ∧ result.1.drop maxSize = dest.drop maxSize

/-- The index at which a walk over the string ends without a fault: the one of the terminator, or
the limit. -/
def walkEnd? (m : Memory) (src maxSize : Nat) : Option Nat :=
  match m.scan src maxSize with
  | .ended bs => some bs.length
  | .faulted => none
  | .unended _ => some maxSize

def statusOf (maxSize : Nat) : Memory.Scan → Except Errno Nat
  | .ended bs => .ok (bs.length + 1)
  | .faulted => .error .efault
  | .unended _ => .ok (maxSize + 1)

/-- A status that follows the walk, and a buffer with the bytes of the tracee, are what is expected.
-/
theorem readsString_of_status {dest dest' : Bytes} {src maxSize : Nat}
    {result : Bytes × Except Errno Nat} (hstatus : result.2 = statusOf maxSize (m.scan src maxSize))
    (hfits : maxSize ≤ dest.length)
    (hframe : dest'.length = dest.length ∧ dest'.drop maxSize = dest.drop maxSize)
    (hdest : ∃ bs, m.load src bs.length = some bs ∧ bs.length ≤ maxSize ∧
      result.1 = patch dest' 0 bs ∧ ∀ k, result.2 = .ok k → k ≤ maxSize → k ≤ bs.length) :
    ReadsString m dest src maxSize result := by
  obtain ⟨xs, hxs, hle, hpatch, hlength⟩ := hdest
  refine ⟨?_, ?_, ?_⟩
  · intro bs hzero hlt hload
    rw [Memory.scan_of_string hlt hzero hload] at hstatus
    refine ⟨hstatus, ?_⟩
    have hcovered := hlength _ hstatus hlt
    have htake : (patch dest' 0 xs).take (bs.length + 1) = xs.take (bs.length + 1) := by
      rw [patch, List.take_zero, List.nil_append, List.take_append_of_le_length hcovered]
    rw [hpatch, htake]
    exact Option.some.inj ((Memory.load_take hxs hcovered).symm.trans hload)
  · rw [hstatus]
    constructor
    · intro hfault
      have hspec := m.scan_spec src maxSize
      cases hscan : m.scan src maxSize with
      | faulted =>
          rw [hscan] at hspec
          exact hspec
      | ended | unended =>
          rw [hscan] at hfault
          cases hfault
    · intro hhole
      obtain ⟨i, hi, hnone, hbefore⟩ := hhole
      rw [Memory.scan_of_hole hi hnone hbefore]
      rfl
  · rw [hpatch]
    exact ⟨(patch_length (by omega)).trans hframe.1,
      (patch_drop (by omega) (by omega)).trans hframe.2⟩

theorem readStringFallback_follows (hw : 0 < w) {src maxSize : Nat}
    (hlast : ∀ k, walkEnd? m src maxSize = some k → wordRead w m src k = true) (dest : Bytes) :
    (readStringFallback w m dest src maxSize).2 = statusOf maxSize (m.scan src maxSize) := by
  rw [readStringFallback_status hw]
  unfold walkEnd? at hlast
  cases hscan : m.scan src maxSize with
  | faulted => rfl
  | ended | unended =>
      rw [hscan] at hlast
      simp only [hlast _ rfl, if_true]
      rfl

/-- **Reads of strings are path-independent, and right,** exactly where the word in which the string
ends can be read as a whole. -/
theorem readString_iff (w pageSize : Nat) (m : Memory) (readv : ProcessVmReadv) (dest : Bytes)
    (src maxSize : Nat) (hw : 0 < w) (hreadv : Transfers m readv) (hfits : maxSize ≤ dest.length) :
    (ReadsString m dest src maxSize (readString w readv pageSize m dest src maxSize) ∧
      ReadsString m dest src maxSize (readStringFallback w m dest src maxSize) ∧
      (readString w readv pageSize m dest src maxSize).2 =
        (readStringFallback w m dest src maxSize).2) ↔
    ∀ k, walkEnd? m src maxSize = some k → (m.load (src + k / w * w) w).isSome = true := by
  show _ ↔ ∀ k, walkEnd? m src maxSize = some k → wordRead w m src k = true
  constructor
  · intro h k hk
    by_contra hread
    rw [Bool.not_eq_true] at hread
    have hstatus := readStringFallback_status (m := m) hw dest src maxSize
    have hspec := m.scan_spec src maxSize
    cases hscan : m.scan src maxSize with
    | faulted =>
        rw [walkEnd?, hscan] at hk
        cases hk
    | ended bs =>
        rw [walkEnd?, hscan] at hk
        cases hk
        rw [hscan] at hstatus hspec
        have hstring := (h.2.1.string bs hspec.2.1 hspec.1 hspec.2.2).1
        rw [hstatus] at hstring
        simp [hread] at hstring
    | unended bs =>
        rw [walkEnd?, hscan] at hk
        cases hk
        rw [hscan] at hstatus
        have hfault : (readStringFallback w m dest src maxSize).2 = .error .efault := by
          rw [hstatus, hread]
          rfl
        obtain ⟨i, hi, hnone, hbefore⟩ := h.2.1.fault.mp hfault
        rw [Memory.scan_of_hole hi hnone hbefore] at hscan
        cases hscan
  · intro hlast
    have hfallback (dest' : Bytes) := readStringFallback_follows (m := m) hw hlast dest'
    have hreads (dest' : Bytes) (hlength : dest'.length = dest.length)
        (hdrop : dest'.drop maxSize = dest.drop maxSize) :
        ReadsString m dest src maxSize (readStringFallback w m dest' src maxSize) :=
      readsString_of_status (hfallback dest') hfits ⟨hlength, hdrop⟩
        (readStringFallback_dest hw (by omega))
    obtain ⟨bs, hbs, hle, hdest, hstring⟩ := stringChunks_spec hreadv pageSize hfits
      (Nat.zero_le maxSize) (Memory.load_zero src) List.not_mem_nil
    have hnil : patch dest 0 [] = dest := by simp [patch]
    rw [hnil] at hdest hstring
    rw [readString]
    generalize stringChunks readv pageSize src maxSize dest 0 = chunks at hdest hstring ⊢
    obtain ⟨dest', size?⟩ := chunks
    obtain rfl : dest' = patch dest 0 bs := hdest
    have hlength : (patch dest 0 bs).length = dest.length := patch_length (by omega)
    have hdrop : (patch dest 0 bs).drop maxSize = dest.drop maxSize :=
      patch_drop (by omega) (by omega)
    cases size? with
    | none =>
        refine ⟨hreads _ hlength hdrop, hreads dest rfl rfl, ?_⟩
        simp only
        rw [hfallback, hfallback]
    | some n =>
        obtain ⟨hn, s, hscan, hs⟩ := hstring n rfl
        have hstatus : statusOf maxSize (m.scan src maxSize) = .ok n := by
          rw [hscan, hs]
          rfl
        refine ⟨?_, hreads dest rfl rfl, by rw [hfallback, hstatus]⟩
        apply readsString_of_status hstatus.symm hfits ⟨rfl, rfl⟩
        refine ⟨bs, hbs, hle, rfl, ?_⟩
        intro k hk hmax
        cases hk
        exact hn

def lettersPage : Memory where
  byte? a := if 4096 ≤ a ∧ a < 8192 then some (if a = 8191 then 0 else 97) else none
  writable a := 4096 ≤ a ∧ a < 8192
  mapped := by
    intro a ha
    rw [if_pos (of_decide_eq_true ha)]
    rfl

/-- process_vm_readv(2) on the page: all that is asked for, or nothing. -/
def lettersReadv : ProcessVmReadv := fun address size => (lettersPage.load address size).getD []

theorem transfers_lettersReadv : Transfers lettersPage lettersReadv := by
  intro address size
  unfold lettersReadv
  cases hload : lettersPage.load address size with
  | none => exact ⟨Nat.zero_le size, rfl⟩
  | some bs =>
      have hlen := Memory.load_length hload
      refine ⟨Nat.le_of_eq hlen, ?_⟩
      rw [Option.getD_some, hlen, hload]

/-- Seven letters that fill the last word of the page with their terminator. -/
theorem readString_lastWord :
    ReadsString lettersPage (List.replicate 16 0) 8184 16
        (readString 8 lettersReadv 4096 lettersPage (List.replicate 16 0) 8184 16) ∧
      ReadsString lettersPage (List.replicate 16 0) 8184 16
        (readStringFallback 8 lettersPage (List.replicate 16 0) 8184 16) ∧
      (readString 8 lettersReadv 4096 lettersPage (List.replicate 16 0) 8184 16).2 =
        (readStringFallback 8 lettersPage (List.replicate 16 0) 8184 16).2 := by
  apply (readString_iff 8 4096 lettersPage lettersReadv (List.replicate 16 0) 8184 16 (by decide)
    transfers_lettersReadv (by decide)).mpr
  intro k hk
  have hend : walkEnd? lettersPage 8184 16 = some 7 := by decide
  obtain rfl : 7 = k := Option.some.inj (hend.symm.trans hk)
  decide

/-- The last letter of the page and its terminator: the word that begins there ends in the hole. -/
theorem not_readString_lastLetter :
    ¬ (ReadsString lettersPage (List.replicate 16 0) 8190 16
        (readString 8 lettersReadv 4096 lettersPage (List.replicate 16 0) 8190 16) ∧
      ReadsString lettersPage (List.replicate 16 0) 8190 16
        (readStringFallback 8 lettersPage (List.replicate 16 0) 8190 16) ∧
      (readString 8 lettersReadv 4096 lettersPage (List.replicate 16 0) 8190 16).2 =
        (readStringFallback 8 lettersPage (List.replicate 16 0) 8190 16).2) := by
  intro h
  have hstring := (h.2.1.string [97] (by decide) (by decide) (by decide)).1
  have hfault : (readStringFallback 8 lettersPage (List.replicate 16 0) 8190 16).2 =
      .error .efault := by decide
  rw [hfault] at hstring
  cases hstring

end Improot.Tracee
