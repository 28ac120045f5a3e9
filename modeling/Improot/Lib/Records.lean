import Mathlib.Data.List.Basic
import Mathlib.Tactic.Ring
import Mathlib.Algebra.Order.Group.Nat

/-!
# Bytes, and aligned records

Numbers in little-endian order, and sequences of records as they are laid out in a message: each has
a header that starts with the length of the header and its payload, and is padded to a multiple of
four bytes. The walk over such a sequence gives back the records.
-/

namespace Improot.Lib

abbrev Bytes := List UInt8

/-! ## Numbers -/

/-- The `n` low bytes of a number, in little-endian order. -/
def le : Nat → Nat → Bytes
  | 0, _ => []
  | n + 1, x => UInt8.ofNat x :: le n (x / 256)

def ofLe : Bytes → Nat
  | [] => 0
  | b :: bs => b.toNat + 256 * ofLe bs

@[simp] theorem le_length (n x : Nat) : (le n x).length = n := by
  induction n generalizing x with
  | zero => rfl
  | succ n ih => simp [le, ih]

/-- The bytes of a number give it back, up to its size. -/
theorem ofLe_le (n x : Nat) : ofLe (le n x) = x % 256 ^ n := by
  induction n generalizing x with
  | zero => simp [le, ofLe, Nat.mod_one]
  | succ n ih =>
      rw [le, ofLe, ih, Nat.pow_succ, Nat.mul_comm (256 ^ n), Nat.mod_mul]
      simp

theorem ofLe_le_of_lt {n x : Nat} (h : x < 256 ^ n) : ofLe (le n x) = x := by
  rw [ofLe_le, Nat.mod_eq_of_lt h]

theorem ofLe_lt (bs : Bytes) : ofLe bs < 256 ^ bs.length := by
  induction bs with
  | nil => simp [ofLe]
  | cons b bs ih =>
      have hb := b.toNat_lt
      rw [ofLe, List.length_cons, Nat.pow_succ]
      omega

/-- The bytes that stand for a number are the ones of the number. -/
theorem le_ofLe (bs : Bytes) : le bs.length (ofLe bs) = bs := by
  induction bs with
  | nil => rfl
  | cons b bs ih =>
      have hb := b.toNat_lt
      have hhead : UInt8.ofNat (b.toNat + 256 * ofLe bs) = b := by
        apply UInt8.toNat_inj.mp
        rw [UInt8.toNat_ofNat']
        omega
      rw [ofLe, List.length_cons, le, hhead, show (b.toNat + 256 * ofLe bs) / 256 = ofLe bs by omega,
        ih]

def readLe (n off : Nat) (bs : Bytes) : Nat := ofLe ((bs.drop off).take n)

/-! ## Records -/

/-- `NLMSG_ALIGN` and `RTA_ALIGN`. -/
def align4 (n : Nat) : Nat := (n + 3) / 4 * 4

theorem le_align4 (n : Nat) : n ≤ align4 n := by
  unfold align4
  omega

theorem align4_lt (n : Nat) : align4 n < n + 4 := by
  unfold align4
  omega

theorem align4_mod (n : Nat) : align4 n % 4 = 0 := Nat.mul_mod_left _ _

theorem align4_of_mod {n : Nat} (h : n % 4 = 0) : align4 n = n := by
  unfold align4
  omega

/-- A format of records: the size of the length field, and the size of the header it starts. -/
structure RecordFormat where
  lengthSize : Nat
  headerSize : Nat
  length_le : lengthSize ≤ headerSize
  header_pos : 0 < headerSize

/-- A record: what follows the length field in its header, and its payload. -/
structure Record where
  rest : Bytes
  payload : Bytes
  deriving DecidableEq

namespace RecordFormat

variable (f : RecordFormat)

def lengthOf (r : Record) : Nat := f.headerSize + r.payload.length

/-- A record whose header has the right size and whose length fits its field. -/
structure Valid (r : Record) : Prop where
  rest : r.rest.length = f.headerSize - f.lengthSize
  length : f.lengthOf r < 256 ^ f.lengthSize

def bare (r : Record) : Bytes := le f.lengthSize (f.lengthOf r) ++ r.rest ++ r.payload

def encode (r : Record) : Bytes :=
  f.bare r ++ List.replicate (align4 (f.lengthOf r) - f.lengthOf r) 0

def encodeAll (rs : List Record) : Bytes := rs.flatMap f.encode

/-- The walk: the records of some bytes, up to the first one that is cut or has a wrong length. -/
def walk (bs : Bytes) : List Record :=
  if bs.length < f.headerSize then []
  else
    let len := ofLe (bs.take f.lengthSize)
    if len < f.headerSize ∨ bs.length < len then []
    else
      ⟨(bs.take f.headerSize).drop f.lengthSize, (bs.take len).drop f.headerSize⟩ ::
        walk (bs.drop (align4 len))
termination_by bs.length
decreasing_by
  have hpos := f.header_pos
  have hle := le_align4 (ofLe (bs.take f.lengthSize))
  rw [List.length_drop]
  omega

variable {f}

@[simp] theorem encodeAll_nil : f.encodeAll [] = [] := rfl

@[simp] theorem encodeAll_cons (r : Record) (rs : List Record) :
    f.encodeAll (r :: rs) = f.encode r ++ f.encodeAll rs := rfl

theorem encodeAll_append (rs rs' : List Record) :
    f.encodeAll (rs ++ rs') = f.encodeAll rs ++ f.encodeAll rs' := List.flatMap_append

variable {r : Record}

theorem bare_length (h : f.Valid r) : (f.bare r).length = f.lengthOf r := by
  have hle := f.length_le
  simp only [bare, List.length_append, le_length, h.rest, lengthOf]
  omega

theorem encode_length (h : f.Valid r) :
    (f.encode r).length = align4 (f.lengthOf r) := by
  have hle := le_align4 (f.lengthOf r)
  rw [encode, List.length_append, bare_length h, List.length_replicate]
  omega

theorem encode_ne_nil (h : f.Valid r) : f.encode r ≠ [] := by
  have hlen := encode_length h
  have hpos := f.header_pos
  have hle := le_align4 (f.lengthOf r)
  unfold lengthOf at hlen hle
  intro hnil
  rw [hnil, List.length_nil] at hlen
  omega

/-- The first bytes of a record are its length. -/
theorem encode_take_length {r : Record} (more : Bytes) :
    (f.encode r ++ more).take f.lengthSize = le f.lengthSize (f.lengthOf r) := by
  rw [encode, bare, List.append_assoc, List.append_assoc, List.append_assoc,
    List.take_append_of_le_length (by simp), List.take_of_length_le (by simp)]

theorem encode_take (h : f.Valid r) (more : Bytes) :
    (f.encode r ++ more).take (f.lengthOf r) = f.bare r := by
  rw [encode, List.append_assoc, List.take_append_of_le_length (by rw [bare_length h]),
    List.take_of_length_le (by rw [bare_length h])]

/-- **The walk reads a record back.** -/
theorem walk_encode_append (h : f.Valid r) (more : Bytes) :
    f.walk (f.encode r ++ more) = r :: f.walk more := by
  have hle := f.length_le
  have hlen := encode_length h
  have halign := le_align4 (f.lengthOf r)
  have htotal : f.headerSize ≤ f.lengthOf r := Nat.le_add_right _ _
  have htake := encode_take h more
  have hnum : ofLe ((f.encode r ++ more).take f.lengthSize) = f.lengthOf r := by
    rw [encode_take_length, ofLe_le_of_lt h.length]
  have hrest : ((f.encode r ++ more).take f.headerSize).drop f.lengthSize = r.rest := by
    have hheader : (f.encode r ++ more).take f.headerSize = (f.bare r).take f.headerSize := by
      rw [← htake, List.take_take, Nat.min_eq_left htotal]
    have hsize : (le f.lengthSize (f.lengthOf r) ++ r.rest).length = f.headerSize := by
      rw [List.length_append, le_length, h.rest]
      omega
    rw [hheader, bare, List.take_left' hsize, List.drop_left' (le_length _ _)]
  have hpayload : ((f.encode r ++ more).take (f.lengthOf r)).drop f.headerSize = r.payload := by
    rw [htake, bare]
    refine List.drop_left' ?_
    rw [List.length_append, le_length, h.rest]
    omega
  rw [walk, if_neg (by rw [List.length_append, hlen]; omega)]
  simp only [hnum]
  rw [if_neg (by rw [List.length_append, hlen]; omega), hrest, hpayload, ← hlen, List.drop_left]

/-- **The walk reads records back.** -/
theorem walk_encodeAll {rs : List Record} (h : ∀ r ∈ rs, f.Valid r) :
    f.walk (f.encodeAll rs) = rs := by
  induction rs with
  | nil =>
      have hpos : ([] : Bytes).length < f.headerSize := f.header_pos
      rw [encodeAll_nil, walk, if_pos hpos]
  | cons r rs ih =>
      obtain ⟨hr, hrs⟩ := List.forall_mem_cons.mp h
      rw [encodeAll_cons, walk_encode_append hr, ih hrs]

/-- What the walk reads is valid. -/
theorem valid_of_mem_walk {bs : Bytes} (h : r ∈ f.walk bs) : f.Valid r := by
  induction bs using walk.induct f with
  | case1 bs hshort =>
      rw [walk, if_pos hshort] at h
      cases h
  | case2 bs hlong len hbad =>
      rw [walk, if_neg hlong] at h
      simp only at h
      rw [if_pos hbad] at h
      cases h
  | case3 bs hlong len hgood ih =>
      rw [walk, if_neg hlong] at h
      simp only at h
      rw [if_neg hgood] at h
      have hle := f.length_le
      rcases List.mem_cons.mp h with rfl | h
      · have hlt := ofLe_lt (bs.take f.lengthSize)
        have hsize : (bs.take f.lengthSize).length = f.lengthSize := by
          rw [List.length_take]
          omega
        rw [hsize] at hlt
        have hlen : f.headerSize + ((bs.take len).drop f.headerSize).length = len := by
          rw [List.length_drop, List.length_take]
          omega
        refine ⟨?_, ?_⟩
        · rw [List.length_drop, List.length_take]
          omega
        · rw [lengthOf]
          exact lt_of_eq_of_lt hlen hlt
      · exact ih h

/-- Records take a multiple of four bytes. -/
theorem encodeAll_length_mod {rs : List Record} (h : ∀ r ∈ rs, f.Valid r) :
    (f.encodeAll rs).length % 4 = 0 := by
  induction rs with
  | nil => rfl
  | cons r rs ih =>
      obtain ⟨hr, hrs⟩ := List.forall_mem_cons.mp h
      have hmod := align4_mod (f.lengthOf r)
      have hrest := ih hrs
      rw [encodeAll_cons, List.length_append, encode_length hr]
      omega

end RecordFormat

end Improot.Lib
