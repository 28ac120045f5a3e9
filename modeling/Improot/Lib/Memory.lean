import Improot.Lib.Records

/-!
# Memory with holes

The bytes of an address space: some addresses have no byte, and some bytes can't be written.  A
transfer goes byte by byte and stops where it can't go on.
-/

namespace Improot.Lib

/-- What is at each address, and where it can be overwritten. -/
@[ext] structure Memory where
  byte? : Nat → Option UInt8
  writable : Nat → Bool
  mapped : ∀ a, writable a = true → (byte? a).isSome = true

namespace Memory

/-- An address space that starts with some bytes, and can be written everywhere. -/
def ofBytes (bytes : Bytes) : Memory where
  byte? a := some (bytes.getD a 0)
  writable _ := true
  mapped _ _ := rfl

variable {m : Memory}

/-! ## Reading -/

/-- The `n` bytes from an address on, if all of them can be read. -/
def load (m : Memory) : Nat → Nat → Option Bytes
  | _, 0 => some []
  | a, n + 1 => do
    let b ← m.byte? a
    let bs ← load m (a + 1) n
    return b :: bs

@[simp] theorem load_zero (a : Nat) : m.load a 0 = some [] := rfl

theorem load_succ (a n : Nat) :
    m.load a (n + 1) = (m.byte? a).bind fun b => (m.load (a + 1) n).bind fun bs => some (b :: bs) :=
  rfl

variable {a k n : Nat} {bs : Bytes}

theorem load_cons : m.load a (n + 1) = some bs ↔
      ∃ b bs', m.byte? a = some b ∧ m.load (a + 1) n = some bs' ∧ bs = b :: bs' := by
  rw [load_succ]
  cases m.byte? a with
  | none => simp
  | some b =>
      cases m.load (a + 1) n with
      | none => simp
      | some bs' => simp [eq_comm]

theorem load_length (h : m.load a n = some bs) : bs.length = n := by
  induction n generalizing a bs with
  | zero =>
      cases h
      rfl
  | succ n ih =>
      obtain ⟨b, bs', -, hbs, rfl⟩ := load_cons.mp h
      rw [List.length_cons, ih hbs]

/-- What is read at each address. -/
theorem load_eq_some :
    m.load a n = some bs ↔ bs.length = n ∧ ∀ i, i < n → m.byte? (a + i) = bs[i]? := by
  induction n generalizing a bs with
  | zero => cases bs <;> simp
  | succ n ih =>
      constructor
      · intro h
        obtain ⟨b, bs', hb, hbs, rfl⟩ := load_cons.mp h
        obtain ⟨hlength, hbytes⟩ := ih.mp hbs
        refine ⟨by rw [List.length_cons, hlength], ?_⟩
        intro i hi
        cases i with
        | zero => exact hb
        | succ i =>
            have heq := hbytes i (by omega)
            rwa [show a + 1 + i = a + (i + 1) by omega] at heq
      · intro h
        obtain ⟨hlength, hbytes⟩ := h
        cases bs with
        | nil => simp at hlength
        | cons b bs =>
            refine load_cons.mpr ⟨b, bs, hbytes 0 (by omega), ?_, rfl⟩
            refine ih.mpr ⟨by simpa using hlength, ?_⟩
            intro i hi
            have heq := hbytes (i + 1) (by omega)
            rwa [show a + (i + 1) = a + 1 + i by omega] at heq

/-- Bytes can be read when each of them can. -/
theorem load_isSome :
    (m.load a n).isSome = true ↔ ∀ i, i < n → (m.byte? (a + i)).isSome = true := by
  induction n generalizing a with
  | zero => simp
  | succ n ih =>
      have hrest : (∀ i, i < n + 1 → (m.byte? (a + i)).isSome = true) ↔
          (m.byte? a).isSome = true ∧ ∀ i, i < n → (m.byte? (a + 1 + i)).isSome = true := by
        constructor
        · intro h
          refine ⟨h 0 (by omega), fun i hi => ?_⟩
          rw [show a + 1 + i = a + (i + 1) by omega]
          exact h (i + 1) (by omega)
        · intro h i hi
          cases i with
          | zero => exact h.1
          | succ i =>
              rw [show a + (i + 1) = a + 1 + i by omega]
              exact h.2 i (by omega)
      rw [hrest, ← ih, load_succ]
      cases m.byte? a with
      | none => simp
      | some b => cases m.load (a + 1) n <;> simp

theorem load_add (a n k : Nat) :
    m.load a (n + k) = (m.load a n).bind fun xs => (m.load (a + n) k).bind fun ys =>
      some (xs ++ ys) := by
  induction n generalizing a with
  | zero =>
      rw [Nat.zero_add]
      cases m.load a k <;> simp
  | succ n ih =>
      rw [show n + 1 + k = (n + k) + 1 by omega, load_succ, load_succ, ih,
        show a + 1 + n = a + (n + 1) by omega]
      cases m.byte? a with
      | none => rfl
      | some b =>
          cases m.load (a + 1) n with
          | none => rfl
          | some xs => cases m.load (a + (n + 1)) k <;> rfl

/-- The first of the bytes that are read. -/
theorem load_take (h : m.load a n = some bs) (hk : k ≤ n) :
    m.load a k = some (bs.take k) := by
  obtain ⟨hlength, hbytes⟩ := load_eq_some.mp h
  refine load_eq_some.mpr ⟨by rw [List.length_take]; omega, ?_⟩
  intro i hi
  rw [hbytes i (by omega), List.getElem?_take_of_lt hi]

/-- The last of the bytes that are read. -/
theorem load_drop (h : m.load a n = some bs) (hk : k ≤ n) :
    m.load (a + k) (n - k) = some (bs.drop k) := by
  obtain ⟨hlength, hbytes⟩ := load_eq_some.mp h
  refine load_eq_some.mpr ⟨by rw [List.length_drop]; omega, ?_⟩
  intro i hi
  rw [List.getElem?_drop, Nat.add_assoc, hbytes (k + i) (by omega)]

/-- Bytes lie one after the other. -/
theorem load_append {xs ys : Bytes} :
    m.load a (xs ++ ys).length = some (xs ++ ys) ↔
      m.load a xs.length = some xs ∧ m.load (a + xs.length) ys.length = some ys := by
  constructor
  · intro h
    have htake := load_take h (k := xs.length) (by rw [List.length_append]; omega)
    have hdrop := load_drop h (k := xs.length) (by rw [List.length_append]; omega)
    rw [List.take_left] at htake
    rw [List.drop_left, List.length_append, Nat.add_sub_cancel_left] at hdrop
    exact ⟨htake, hdrop⟩
  · intro h
    rw [List.length_append, load_add, h.1, Option.bind_some, h.2]
    rfl

/-! ## Writing -/

def put (m : Memory) (a : Nat) (b : UInt8) : Memory where
  byte? x := if x = a then some b else m.byte? x
  writable := m.writable
  mapped := by
    intro x hx
    by_cases h : x = a
    · rw [if_pos h]
      rfl
    · rw [if_neg h]
      exact m.mapped x hx

@[simp] theorem put_writable (a : Nat) (b : UInt8) : (m.put a b).writable = m.writable := rfl

theorem put_byte? (a x : Nat) (b : UInt8) :
    (m.put a b).byte? x = if x = a then some b else m.byte? x := rfl

/-- **Writing byte by byte**, up to the first byte that can't be written: the memory after it, and
whether every byte was written. -/
def store (m : Memory) : Nat → Bytes → Memory × Bool
  | _, [] => (m, true)
  | a, b :: bs => if m.writable a then store (m.put a b) (a + 1) bs else (m, false)

@[simp] theorem store_nil (a : Nat) : m.store a [] = (m, true) := rfl

theorem store_cons (a : Nat) (b : UInt8) (bs : Bytes) :
    m.store a (b :: bs) =
      if m.writable a then (m.put a b).store (a + 1) bs else (m, false) := rfl

@[simp] theorem store_writable (a : Nat) (bs : Bytes) :
    (m.store a bs).1.writable = m.writable := by
  induction bs generalizing m a with
  | nil => rfl
  | cons b bs ih =>
      rw [store_cons]
      split
      · rw [ih, put_writable]
      · rfl

def Writable (m : Memory) (a n : Nat) : Prop := ∀ i, i < n → m.writable (a + i) = true

theorem writable_add : m.Writable a (n + k) ↔ m.Writable a n ∧ m.Writable (a + n) k := by
  constructor
  · intro h
    refine ⟨fun i hi => h i (by omega), fun i hi => ?_⟩
    rw [Nat.add_assoc]
    exact h (n + i) (by omega)
  · intro h i hi
    by_cases hin : i < n
    · exact h.1 i hin
    · have hbyte := h.2 (i - n) (by omega)
      rwa [show a + n + (i - n) = a + i by omega] at hbyte

/-- A part of what can be written. -/
theorem Writable.part {b : Nat} (h : m.Writable a n) (hstart : a ≤ b) (hend : b + k ≤ a + n) :
    m.Writable b k := by
  intro i hi
  have hbyte := h (b - a + i) (by omega)
  rwa [show a + (b - a + i) = b + i by omega] at hbyte

/-- Bytes are written when each of them can. -/
theorem store_ok : (m.store a bs).2 = true ↔ m.Writable a bs.length := by
  induction bs generalizing m a with
  | nil => simp [Writable]
  | cons b bs ih =>
      rw [store_cons]
      constructor
      · intro h i hi
        split at h
        case isTrue hw =>
          cases i with
          | zero => exact hw
          | succ i =>
              rw [show a + (i + 1) = a + 1 + i by omega]
              exact ih.mp h i (by simpa using hi)
        case isFalse hw => cases h
      · intro h
        have hw : m.writable a = true := h 0 (by simp)
        rw [if_pos hw]
        apply ih.mpr
        intro i hi
        rw [put_writable, show a + 1 + i = a + (i + 1) by omega]
        exact h (i + 1) (by simpa using hi)

theorem store_le_ok {width : Nat} :
    (m.store a (le width n)).2 = true ↔ m.Writable a width := by
  rw [store_ok, le_length]

/-- A write makes nothing readable. -/
theorem store_byte?_isSome (a x : Nat) (bs : Bytes) :
    ((m.store a bs).1.byte? x).isSome = (m.byte? x).isSome := by
  induction bs generalizing m a with
  | nil => rfl
  | cons b bs ih =>
      rw [store_cons]
      split
      case isTrue hw =>
        rw [ih, put_byte?]
        split
        case isTrue heq => rw [heq, m.mapped a hw, Option.isSome_some]
        case isFalse => rfl
      case isFalse => rfl

theorem store_load_isSome (a x n : Nat) (bs : Bytes) :
    ((m.store a bs).1.load x n).isSome = (m.load x n).isSome := by
  rw [Bool.eq_iff_iff, load_isSome, load_isSome]
  simp only [store_byte?_isSome]

/-- **The frame of a write**: no other byte changes, whether it succeeds or not. -/
theorem store_byte?_outside {x : Nat} (h : x < a ∨ a + bs.length ≤ x) :
    (m.store a bs).1.byte? x = m.byte? x := by
  induction bs generalizing m a with
  | nil => rfl
  | cons b bs ih =>
      rw [List.length_cons] at h
      rw [store_cons]
      split
      · rw [ih (by omega), put_byte?, if_neg (by omega)]
      · rfl

/-- What is at the addresses of a write that succeeds. -/
theorem store_byte?_inside {i : Nat} (h : (m.store a bs).2 = true)
    (hi : i < bs.length) : (m.store a bs).1.byte? (a + i) = bs[i]? := by
  induction bs generalizing m a i with
  | nil => simp at hi
  | cons b bs ih =>
      rw [store_cons] at h ⊢
      split at h
      case isTrue hw =>
        rw [if_pos hw]
        cases i with
        | zero =>
            rw [store_byte?_outside (by omega), put_byte?, if_pos (Nat.add_zero a)]
            rfl
        | succ i =>
            rw [show a + (i + 1) = a + 1 + i by omega, ih h (by simpa using hi)]
            rfl
      case isFalse hw => cases h

/-- What was written is read back. -/
theorem load_store (h : (m.store a bs).2 = true) :
    (m.store a bs).1.load a bs.length = some bs :=
  load_eq_some.mpr ⟨rfl, fun _ hi => store_byte?_inside h hi⟩

/-- The same for a number. -/
theorem load_store_le {width : Nat} (h : m.Writable a width) :
    (m.store a (le width n)).1.load a width = some (le width n) := by
  have hload := load_store (store_le_ok (n := n).mpr h)
  rwa [le_length] at hload

/-- What lies elsewhere is read as before. -/
theorem load_store_outside {x : Nat} (h : x + n ≤ a ∨ a + bs.length ≤ x) :
    (m.store a bs).1.load x n = m.load x n := by
  induction n generalizing x with
  | zero => rfl
  | succ n ih => rw [load_succ, load_succ, ih (by omega), store_byte?_outside (by omega)]

theorem store_append (a : Nat) (xs ys : Bytes) :
    m.store a (xs ++ ys) =
      if (m.store a xs).2 then (m.store a xs).1.store (a + xs.length) ys
      else ((m.store a xs).1, false) := by
  induction xs generalizing m a with
  | nil => rfl
  | cons x xs ih =>
      rw [List.cons_append, store_cons, store_cons]
      by_cases hw : m.writable a
      · rw [if_pos hw, if_pos hw, ih, List.length_cons, Nat.add_assoc, Nat.add_comm 1]
      · rw [if_neg hw, if_neg hw]
        rfl

/-- Writing what is there already changes nothing. -/
theorem store_load (h : m.load a n = some bs) :
    (m.store a bs).1 = m := by
  induction n generalizing a bs with
  | zero =>
      cases h
      rfl
  | succ n ih =>
      obtain ⟨b, bs', hb, hbs, rfl⟩ := load_cons.mp h
      rw [store_cons]
      split
      · have hput : m.put a b = m := by
          apply Memory.ext
          · funext x
            rw [put_byte?]
            split
            case isTrue hx => rw [hx, hb]
            case isFalse hx => rfl
          · rfl
        rw [hput]
        exact ih hbs
      · rfl

theorem store_writable_iff {x : Nat} :
    (m.store a bs).1.Writable x n ↔ m.Writable x n := by
  rw [Writable, Writable, store_writable]

/-- What can be written can be read. -/
theorem load_of_writable (h : m.Writable a n) :
    (m.load a n).isSome = true :=
  load_isSome.mpr fun i hi => m.mapped _ (h i hi)

/-! ## Strings -/

/-- What a walk from an address finds, over a number of bytes. -/
inductive Scan where
  | ended (bs : Bytes)
  | faulted
  | unended (bs : Bytes)
  deriving DecidableEq

def Scan.prepend (xs : Bytes) : Scan → Scan
  | .ended bs => .ended (xs ++ bs)
  | .faulted => .faulted
  | .unended bs => .unended (xs ++ bs)

/-- The walk over a string, up to its end, to a hole or to the limit. -/
def scan (m : Memory) : Nat → Nat → Scan
  | _, 0 => .unended []
  | a, n + 1 =>
    match m.byte? a with
    | none => .faulted
    | some b => if b = 0 then .ended [] else (scan m (a + 1) n).prepend [b]

theorem scan_succ (a n : Nat) :
    m.scan a (n + 1) =
      match m.byte? a with
      | none => .faulted
      | some b => if b = 0 then .ended [] else (m.scan (a + 1) n).prepend [b] := rfl

/-- **What a walk says about the memory**: a string lies there with its terminator, or a byte that
can't be read comes before any terminator, or the bytes up to the limit are no terminators. -/
theorem scan_spec (a n : Nat) :
    match m.scan a n with
    | .ended bs => bs.length < n ∧ 0 ∉ bs ∧ m.load a (bs.length + 1) = some (bs ++ [0])
    | .faulted => ∃ i, i < n ∧ m.byte? (a + i) = none ∧ ∀ j, j < i → m.byte? (a + j) ≠ some 0
    | .unended bs => m.load a n = some bs ∧ 0 ∉ bs := by
  induction n generalizing a with
  | zero => exact ⟨rfl, List.not_mem_nil⟩
  | succ n ih =>
      rw [scan_succ]
      cases hb : m.byte? a with
      | none => exact ⟨0, Nat.succ_pos n, hb, fun j hj => absurd hj (Nat.not_lt_zero j)⟩
      | some b =>
          by_cases hzero : b = 0
          · subst hzero
            exact ⟨Nat.succ_pos n, List.not_mem_nil, load_cons.mpr ⟨0, [], hb, rfl, rfl⟩⟩
          · have hrest := ih (a + 1)
            have hcons (bs : Bytes) (h : 0 ∉ bs) : 0 ∉ b :: bs := by
              intro hmem
              cases List.mem_cons.mp hmem with
              | inl heq => exact hzero heq.symm
              | inr hmem => exact h hmem
            simp only [if_neg hzero]
            cases hscan : m.scan (a + 1) n with
            | ended bs =>
                rw [hscan] at hrest
                refine ⟨Nat.succ_lt_succ hrest.1, hcons bs hrest.2.1, ?_⟩
                exact load_cons.mpr ⟨b, bs ++ [0], hb, hrest.2.2, rfl⟩
            | faulted =>
                rw [hscan] at hrest
                obtain ⟨i, hi, hnone, hbefore⟩ := hrest
                refine ⟨i + 1, Nat.succ_lt_succ hi, ?_, ?_⟩
                · rwa [show a + (i + 1) = a + 1 + i by omega]
                · intro j hj
                  cases j with
                  | zero =>
                      rw [Nat.add_zero, hb]
                      exact fun heq => hzero (Option.some.inj heq)
                  | succ j =>
                      rw [show a + (j + 1) = a + 1 + j by omega]
                      exact hbefore j (by omega)
            | unended bs =>
                rw [hscan] at hrest
                exact ⟨load_cons.mpr ⟨b, bs, hb, hrest.1, rfl⟩, hcons bs hrest.2⟩

/-- The string that a walk finds. -/
theorem scan_of_string (hlt : bs.length < n) (hbs : 0 ∉ bs)
    (h : m.load a (bs.length + 1) = some (bs ++ [0])) : m.scan a n = .ended bs := by
  induction bs generalizing a n with
  | nil =>
      obtain ⟨b, rest, hb, -, heq⟩ := load_cons.mp h
      obtain ⟨n, rfl⟩ := Nat.exists_eq_succ_of_ne_zero (Nat.ne_of_gt hlt)
      rw [scan_succ, hb]
      simp only
      rw [if_pos (List.head_eq_of_cons_eq heq).symm]
  | cons c bs ih =>
      obtain ⟨b, bs', hb, hrest, heq⟩ := load_cons.mp h
      cases heq
      obtain ⟨n, rfl⟩ := Nat.exists_eq_succ_of_ne_zero (Nat.ne_of_gt (Nat.zero_lt_of_lt hlt))
      have hne : c ≠ 0 := fun heq => hbs (heq ▸ List.mem_cons_self)
      rw [scan_succ, hb]
      simp only
      rw [if_neg hne, ih (by simpa using hlt) (fun hmem => hbs (List.mem_cons_of_mem _ hmem)) hrest]
      rfl

/-- The hole that a walk meets. -/
theorem scan_of_hole {i : Nat} (hi : i < n) (hnone : m.byte? (a + i) = none)
    (hbefore : ∀ j, j < i → m.byte? (a + j) ≠ some 0) : m.scan a n = .faulted := by
  induction i generalizing a n with
  | zero =>
      obtain ⟨n, rfl⟩ := Nat.exists_eq_succ_of_ne_zero (Nat.ne_of_gt hi)
      rw [scan_succ, show m.byte? a = none from hnone]
  | succ i ih =>
      obtain ⟨n, rfl⟩ := Nat.exists_eq_succ_of_ne_zero (Nat.ne_of_gt (Nat.zero_lt_of_lt hi))
      have hrest : m.scan (a + 1) n = .faulted := by
        apply ih (by omega)
        · rwa [show a + 1 + i = a + (i + 1) by omega]
        · intro j hj
          rw [show a + 1 + j = a + (j + 1) by omega]
          exact hbefore (j + 1) (by omega)
      rw [scan_succ]
      cases hb : m.byte? a with
      | none => rfl
      | some b =>
          have hne : b ≠ 0 := fun heq => hbefore 0 (Nat.succ_pos i) (heq ▸ hb)
          simp only
          rw [if_neg hne, hrest]
          rfl

/-- The bytes that are read and hold no terminator. -/
theorem scan_of_load (h : m.load a n = some bs) (hbs : 0 ∉ bs) :
    m.scan a n = .unended bs := by
  induction n generalizing a bs with
  | zero =>
      cases h
      rfl
  | succ n ih =>
      obtain ⟨b, bs', hb, hrest, rfl⟩ := load_cons.mp h
      have hne : b ≠ 0 := fun heq => hbs (heq ▸ List.mem_cons_self)
      rw [scan_succ, hb]
      simp only
      rw [if_neg hne, ih hrest (fun hmem => hbs (List.mem_cons_of_mem _ hmem))]
      rfl

/-- A walk goes on where it found no end. -/
theorem scan_add (a n k : Nat) :
    m.scan a (n + k) =
      match m.scan a n with
      | .unended bs => (m.scan (a + n) k).prepend bs
      | .ended bs => .ended bs
      | .faulted => .faulted := by
  induction n generalizing a with
  | zero =>
      rw [Nat.zero_add]
      show m.scan a k = (m.scan a k).prepend []
      cases m.scan a k <;> rfl
  | succ n ih =>
      rw [show n + 1 + k = (n + k) + 1 by omega, scan_succ, scan_succ, ih,
        show a + 1 + n = a + (n + 1) by omega]
      cases m.byte? a with
      | none => rfl
      | some b =>
          by_cases hzero : b = 0
          · simp only [if_pos hzero]
          · simp only [if_neg hzero]
            cases m.scan (a + 1) n with
            | ended | faulted => rfl
            | unended bs => cases m.scan (a + (n + 1)) k <;> rfl

end Memory

end Improot.Lib
