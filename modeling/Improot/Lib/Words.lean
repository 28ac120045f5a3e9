import Improot.Lib.Memory

/-!
# Words in memory

A memory that is read and written word by word, where a word is written whole or not at all.  A list
of words is written up to the first one that can't be.
-/

namespace Improot.Lib.Memory

variable {m m' : Memory} {w : Nat}

/-! ## One word -/

/-- The word of `w` bytes at an address. -/
def peek (m : Memory) (w a : Nat) : Option Nat := (m.load a w).map ofLe

/-- Writes the low `w` bytes of a number, or nothing. -/
def poke (m : Memory) (w a v : Nat) : Memory × Bool :=
  match m.store a (le w v) with
  | (m', true) => (m', true)
  | (_, false) => (m, false)

variable {a b v x : Nat} {vs : List Nat}

theorem peek_lt (h : m.peek w a = some v) : v < 256 ^ w := by
  obtain ⟨bs, hbs, rfl⟩ := Option.map_eq_some_iff.mp h
  have hlt := ofLe_lt bs
  rwa [load_length hbs] at hlt

theorem load_of_peek (h : m.peek w a = some v) : m.load a w = some (le w v) := by
  obtain ⟨bs, hbs, rfl⟩ := Option.map_eq_some_iff.mp h
  have hle := le_ofLe bs
  rw [load_length hbs] at hle
  rw [hbs, hle]

theorem poke_ok : (m.poke w a v).2 = true ↔ m.Writable a w := by
  rw [← store_le_ok (n := v)]
  unfold poke
  split
  case h_1 hstore => simp [hstore]
  case h_2 hstore => simp [hstore]

/-- A word that can be written. -/
theorem poke_eq_store (h : m.Writable a w) :
    m.poke w a v = ((m.store a (le w v)).1, true) := by
  have hok := store_le_ok (n := v) |>.mpr h
  unfold poke
  split
  case h_1 hstore => rw [hstore]
  case h_2 hstore =>
    rw [hstore] at hok
    cases hok

/-- A word that can't. -/
theorem poke_eq_self (h : ¬ m.Writable a w) : m.poke w a v = (m, false) := by
  have hfail := mt (store_le_ok (n := v)).mp h
  unfold poke
  split
  case h_1 hstore =>
    rw [hstore] at hfail
    exact absurd rfl hfail
  case h_2 => rfl

/-! ## Memories that agree -/

/-- Two memories have the same bytes from `a` up to `b`. -/
def SameOn (m m' : Memory) (a b : Nat) : Prop := ∀ x, a ≤ x → x < b → m'.byte? x = m.byte? x

theorem SameOn.load {n : Nat} (h : m.SameOn m' a b) (hstart : a ≤ x) (hend : x + n ≤ b) :
    m'.load x n = m.load x n := by
  induction n generalizing x with
  | zero => rfl
  | succ n ih => rw [load_succ, load_succ, h x hstart (by omega), ih (by omega) (by omega)]

/-- A store keeps what is elsewhere. -/
theorem sameOn_store {bs : Bytes} (h : b ≤ x ∨ x + bs.length ≤ a) :
    m.SameOn (m.store x bs).1 a b := fun y hy hyb => store_byte?_outside (by omega)

theorem SameOn.trans {m'' : Memory} {a b : Nat} (h : m.SameOn m' a b) (h' : m'.SameOn m'' a b) :
    m.SameOn m'' a b := fun x hx hxb => (h' x hx hxb).trans (h x hx hxb)

/-- Neither does it map or unmap anything. -/
theorem store_isSome {y : Nat} {bs : Bytes} :
    ((m.store x bs).1.byte? y).isSome = (m.byte? y).isSome := by
  induction bs generalizing m x with
  | nil => rfl
  | cons b bs ih =>
      rw [store_cons]
      split
      case isFalse => rfl
      case isTrue hw =>
        rw [ih, put_byte?]
        split
        case isTrue heq => rw [heq, m.mapped x hw, Option.isSome_some]
        case isFalse => rfl

/-! ## Lists of words -/

def Holds (m : Memory) (w : Nat) : Nat → List Nat → Prop
  | _, [] => True
  | a, v :: vs => m.peek w a = some v ∧ m.Holds w (a + w) vs

/-- Writes words up to the first one that can't be written; was every word written? -/
def pokeAll (m : Memory) (w : Nat) : Nat → List Nat → Memory × Bool
  | _, [] => (m, true)
  | a, v :: vs =>
    match m.poke w a v with
    | (m, false) => (m, false)
    | (m, true) => m.pokeAll w (a + w) vs

/-- The words up to the first one that can't be written are there already. -/
def Kept (m : Memory) (w : Nat) : Nat → List Nat → Prop
  | _, [] => True
  | a, v :: vs => m.Writable a w → m.peek w a = some (v % 256 ^ w) ∧ m.Kept w (a + w) vs

theorem holds_append {us : List Nat} :
    m.Holds w a (vs ++ us) ↔ m.Holds w a vs ∧ m.Holds w (a + w * vs.length) us := by
  induction vs generalizing a with
  | nil => simp [Holds]
  | cons v vs ih =>
      rw [List.cons_append, Holds, Holds, ih, and_assoc, List.length_cons, Nat.mul_succ,
        Nat.add_assoc, Nat.add_comm w]

theorem Holds.lt (h : m.Holds w a vs) : ∀ v ∈ vs, v < 256 ^ w := by
  induction vs generalizing a with
  | nil => exact fun _ hv => absurd hv List.not_mem_nil
  | cons v vs ih =>
      intro u hu
      rcases List.mem_cons.mp hu with rfl | hu
      · exact peek_lt h.1
      · exact ih h.2 u hu

theorem Holds.mapped (h : m.Holds w a vs) (hx : a ≤ x)
    (hend : x < a + w * vs.length) : (m.byte? x).isSome = true := by
  induction vs generalizing a with
  | nil => exact absurd hend (by simp; omega)
  | cons v vs ih =>
      rw [List.length_cons, Nat.mul_succ] at hend
      by_cases hin : x < a + w
      · have hload : (m.load a w).isSome = true := by rw [load_of_peek h.1]; rfl
        have hbyte := load_isSome.mp hload (x - a) (by omega)
        rwa [show a + (x - a) = x by omega] at hbyte
      · exact ih h.2 (by omega) (by omega)

theorem Holds.same {c : Nat} (h : m.Holds w a vs) (hsame : m.SameOn m' b c)
    (hstart : b ≤ a) (hend : a + w * vs.length ≤ c) : m'.Holds w a vs := by
  induction vs generalizing a with
  | nil => exact trivial
  | cons v vs ih =>
      rw [List.length_cons, Nat.mul_succ] at hend
      constructor
      · rw [peek, hsame.load hstart (by omega)]
        exact h.1
      · exact ih h.2 (by omega) (by omega)

/-- Words that are copied. -/
theorem Holds.copied {bs : Bytes} (h : m.Holds w a vs)
    (hload : m.load a (w * vs.length) = some bs) (hcopy : m'.load b (w * vs.length) = some bs) :
    m'.Holds w b vs := by
  induction vs generalizing a b bs with
  | nil => exact trivial
  | cons v vs ih =>
      rw [List.length_cons, Nat.mul_succ] at hload hcopy
      constructor
      · rw [peek, load_take hcopy (Nat.le_add_left w _),
          ← load_take hload (Nat.le_add_left w _)]
        exact h.1
      · apply ih h.2
        · have hdrop := load_drop hload (Nat.le_add_left w _)
          rwa [Nat.add_sub_cancel] at hdrop
        · have hdrop := load_drop hcopy (Nat.le_add_left w _)
          rwa [Nat.add_sub_cancel] at hdrop

theorem Holds.loads (h : m.Holds w a vs) :
    ∃ bs, m.load a (w * vs.length) = some bs :=
  Option.isSome_iff_exists.mp (load_isSome.mpr fun _ hi => h.mapped (by omega) (by omega))

/-! ## Writing a list of words -/

theorem pokeAll_cons : m.pokeAll w a (v :: vs) =
      if (m.poke w a v).2 then (m.poke w a v).1.pokeAll w (a + w) vs
      else ((m.poke w a v).1, false) := by
  rw [pokeAll]
  split
  case h_1 hpoke => simp [hpoke]
  case h_2 hpoke => simp [hpoke]

@[simp] theorem poke_writable : (m.poke w a v).1.writable = m.writable := by
  by_cases h : m.Writable a w
  · rw [poke_eq_store h, store_writable]
  · rw [poke_eq_self h]

@[simp] theorem pokeAll_writable : (m.pokeAll w a vs).1.writable = m.writable := by
  induction vs generalizing m a with
  | nil => rfl
  | cons v vs ih =>
      rw [pokeAll_cons]
      split
      · rw [ih, poke_writable]
      · exact poke_writable

theorem sameOn_poke (h : b ≤ x ∨ x + w ≤ a) : m.SameOn (m.poke w x v).1 a b := by
  by_cases hw : m.Writable x w
  · rw [poke_eq_store hw]
    exact sameOn_store (by rwa [le_length])
  · rw [poke_eq_self hw]
    exact fun _ _ _ => rfl

/-- **The frame.** -/
theorem sameOn_pokeAll (h : b ≤ x ∨ x + w * vs.length ≤ a) :
    m.SameOn (m.pokeAll w x vs).1 a b := by
  induction vs generalizing m x with
  | nil => exact fun _ _ _ => rfl
  | cons v vs ih =>
      rw [List.length_cons, Nat.mul_succ] at h
      have hfirst : m.SameOn (m.poke w x v).1 a b := sameOn_poke (by omega)
      rw [pokeAll_cons]
      split
      · exact hfirst.trans (ih (by omega))
      · exact hfirst

theorem pokeAll_byte?_outside (h : x < a ∨ a + w * vs.length ≤ x) :
    (m.pokeAll w a vs).1.byte? x = m.byte? x :=
  sameOn_pokeAll (a := x) (b := x + 1) (by omega) x (Nat.le_refl x) (Nat.lt_succ_self x)

theorem pokeAll_isSome : ((m.pokeAll w a vs).1.byte? x).isSome = (m.byte? x).isSome := by
  induction vs generalizing m a with
  | nil => rfl
  | cons v vs ih =>
      have hfirst : ((m.poke w a v).1.byte? x).isSome = (m.byte? x).isSome := by
        by_cases hw : m.Writable a w
        · rw [poke_eq_store hw]
          exact store_isSome
        · rw [poke_eq_self hw]
      rw [pokeAll_cons]
      split
      · rw [ih, hfirst]
      · exact hfirst

/-- Every word is written when each of them can. -/
theorem pokeAll_ok : (m.pokeAll w a vs).2 = true ↔ m.Writable a (w * vs.length) := by
  induction vs generalizing m a with
  | nil =>
      constructor
      · intro _ i hi
        exact absurd hi (by simp)
      · exact fun _ => rfl
  | cons v vs ih =>
      rw [pokeAll_cons, List.length_cons, Nat.mul_succ, Nat.add_comm (w * vs.length) w, writable_add]
      split
      case isTrue hok =>
        have hrest : (m.poke w a v).1.Writable (a + w) (w * vs.length) ↔
            m.Writable (a + w) (w * vs.length) := by rw [Writable, Writable, poke_writable]
        rw [ih, hrest]
        exact (and_iff_right (poke_ok.mp hok)).symm
      case isFalse hfail =>
        constructor
        · intro hno
          cases hno
        · intro hboth
          exact absurd (poke_ok.mpr hboth.1) hfail

/-- **What is read after it.** -/
theorem holds_pokeAll (h : m.Writable a (w * vs.length)) :
    (m.pokeAll w a vs).1.Holds w a (vs.map (· % 256 ^ w)) := by
  induction vs generalizing m a with
  | nil => exact trivial
  | cons v vs ih =>
      rw [List.length_cons, Nat.mul_succ, Nat.add_comm (w * vs.length) w, writable_add] at h
      rw [pokeAll_cons, if_pos (poke_ok.mpr h.1)]
      constructor
      · have hsame : (m.poke w a v).1.SameOn ((m.poke w a v).1.pokeAll w (a + w) vs).1 a (a + w) :=
          sameOn_pokeAll (.inl (Nat.le_refl _))
        rw [peek, hsame.load (Nat.le_refl a) (Nat.le_refl _), poke_eq_store h.1,
          load_store_le h.1, Option.map_some, ofLe_le]
      · apply ih
        rw [Writable, poke_writable]
        exact h.2

/-- **Nothing changes** when, and only when, what is written is there already. -/
theorem pokeAll_same_iff : (m.pokeAll w a vs).1 = m ↔ m.Kept w a vs := by
  induction vs generalizing a with
  | nil => exact ⟨fun _ => trivial, fun _ => rfl⟩
  | cons v vs ih =>
      rw [pokeAll_cons, Kept]
      by_cases hw : m.Writable a w
      · rw [if_pos (poke_ok.mpr hw)]
        have hself : m.peek w a = some (v % 256 ^ w) → (m.poke w a v).1 = m := by
          intro hthere
          have hload := load_of_peek hthere
          rw [poke_eq_store hw]
          apply store_load (n := w)
          rw [hload, ← ofLe_le w v]
          have hround := le_ofLe (le w v)
          rw [le_length] at hround
          rw [hround]
        constructor
        · intro hsame _
          have hthere : m.peek w a = some (v % 256 ^ w) := by
            have hframe : (m.poke w a v).1.SameOn ((m.poke w a v).1.pokeAll w (a + w) vs).1 a
                (a + w) := sameOn_pokeAll (.inl (Nat.le_refl _))
            rw [hsame] at hframe
            rw [peek, hframe.load (Nat.le_refl a) (Nat.le_refl _), poke_eq_store hw,
              load_store_le hw, Option.map_some, ofLe_le]
          rw [hself hthere] at hsame
          exact ⟨hthere, ih.mp hsame⟩
        · intro hkept
          obtain ⟨hthere, hrest⟩ := hkept hw
          rw [hself hthere]
          exact ih.mpr hrest
      · rw [if_neg (mt poke_ok.mp hw), poke_eq_self hw]
        exact ⟨fun _ hno => absurd hno hw, fun _ => rfl⟩

end Improot.Lib.Memory
