import Improot.Lib.Records

/-!
# Writing into a buffer

A buffer of a fixed size is filled from its start: what counts is which bytes an operation appends
at an offset, whatever it writes after them and in whatever order.
-/

namespace Improot.Lib

/-- `memcpy` to an offset of a buffer. -/
def patch (buf : Bytes) (off : Nat) (bs : Bytes) : Bytes :=
  buf.take off ++ bs ++ buf.drop (off + bs.length)

/-- From `off` in `buf` to `off'` in `buf'`, exactly `bs` is appended. -/
structure Appends (buf : Bytes) (off : Nat) (buf' : Bytes) (off' : Nat) (bs : Bytes) : Prop where
  offset : off' = off + bs.length
  inside : off' ≤ buf.length
  size : buf'.length = buf.length
  before : buf'.take off = buf.take off
  written : (buf'.drop off).take bs.length = bs

namespace Appends

variable {buf buf' buf'' : Bytes} {off off' off'' : Nat} {bs bs' : Bytes}

theorem refl (h : off ≤ buf.length) : Appends buf off buf off [] :=
  ⟨rfl, h, rfl, rfl, rfl⟩

/-- All that the buffer holds up to the new offset. -/
theorem take (h : Appends buf off buf' off' bs) : buf'.take off' = buf.take off ++ bs := by
  rw [h.offset, List.take_add, h.before, h.written]

theorem of_take (hinside : off + bs.length ≤ buf.length) (hsize : buf'.length = buf.length)
    (htake : buf'.take (off + bs.length) = buf.take off ++ bs) :
    Appends buf off buf' (off + bs.length) bs := by
  have hlen : (buf.take off).length = off := by
    rw [List.length_take]
    omega
  have hbefore : buf'.take off = buf.take off := by
    have h := congrArg (List.take off) htake
    rw [List.take_take, Nat.min_eq_left (Nat.le_add_right _ _), List.take_left' hlen] at h
    exact h
  refine ⟨rfl, hinside, hsize, hbefore, ?_⟩
  rw [List.take_add, hbefore] at htake
  exact List.append_cancel_left htake

/-- What is appended after what was appended. -/
theorem trans (h : Appends buf off buf' off' bs) (h' : Appends buf' off' buf'' off'' bs') :
    Appends buf off buf'' off'' (bs ++ bs') := by
  obtain rfl : off'' = off + (bs ++ bs').length := by
    rw [h'.offset, h.offset, List.length_append, Nat.add_assoc]
  refine of_take ?_ (h'.size.trans h.size) ?_
  · rw [← h.size]
    exact h'.inside
  · rw [h'.take, h.take, List.append_assoc]

end Appends

theorem patch_length {buf bs : Bytes} {off : Nat} (h : off + bs.length ≤ buf.length) :
    (patch buf off bs).length = buf.length := by
  simp only [patch, List.length_append, List.length_take, List.length_drop]
  omega

/-- Bytes that are copied are appended. -/
theorem appends_patch {buf bs : Bytes} {off : Nat} (h : off + bs.length ≤ buf.length) :
    Appends buf off (patch buf off bs) (off + bs.length) bs := by
  refine .of_take h (patch_length h) ?_
  refine List.take_left' ?_
  rw [List.length_append, List.length_take]
  omega

/-- More bytes are copied behind what was appended. -/
theorem Appends.copy {buf buf' : Bytes} {off off' : Nat} {bs : Bytes}
    (h : Appends buf off buf' off' bs) (more : Bytes) (hinside : off' + more.length ≤ buf.length) :
    Appends buf off (patch buf' off' more) (off' + more.length) (bs ++ more) := by
  rw [← h.size] at hinside
  exact h.trans (appends_patch hinside)

/-- **A header filled in afterwards** comes before what was appended behind its place. -/
theorem Appends.header {buf buf' : Bytes} {off off' : Nat} {header body : Bytes}
    (h : Appends buf (off + header.length) buf' off' body) :
    Appends buf off (patch buf' off header) off' (header ++ body) := by
  have hinside := h.inside
  have hoffset := h.offset
  have hsize := h.size
  have hfits : off + header.length ≤ buf'.length := by omega
  have hpatch := appends_patch hfits
  obtain rfl : off' = off + (header ++ body).length := by
    rw [h.offset, List.length_append, Nat.add_assoc]
  refine .of_take hinside (hpatch.size.trans h.size) ?_
  have hbefore : buf'.take off = buf.take off := by
    have hb := congrArg (List.take off) h.before
    rwa [List.take_take, List.take_take, Nat.min_eq_left (Nat.le_add_right _ _)] at hb
  rw [List.length_append, ← Nat.add_assoc, List.take_add, hpatch.take, hbefore]
  have hrest : (patch buf' off header).drop (off + header.length) =
      buf'.drop (off + header.length) := by
    refine List.drop_left' ?_
    rw [List.length_append, List.length_take]
    omega
  rw [hrest, h.written, List.append_assoc]

end Improot.Lib
