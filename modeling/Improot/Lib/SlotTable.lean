import Mathlib.Data.List.Basic
import Mathlib.Logic.Relation
import Mathlib.Order.Basic

/-! # Tables of slots with generations

An object is put into a slot of a table and is named by the slot with the slot's generation.  The
generation grows each time the slot is emptied, so that a name that is kept too long resolves to
nothing, and never to a later occupant. -/

namespace Improot.Lib

/-- A slot: how often it was emptied, and who is in it. -/
structure Slot (A : Type*) where
  generation : Nat
  occupant : Option A

abbrev SlotTable (A : Type*) := List (Slot A)

variable {A : Type*} [Preorder A]

/-! ## Ageing -/

/-- What time does to a slot: its generation grows, an occupant of the same generation stays, and
one that comes is not below `fresh`. -/
structure Slot.Ages (fresh : A) (s s' : Slot A) : Prop where
  generation : s.generation ≤ s'.generation
  came : ∀ b, s'.occupant = some b →
    (s.occupant = some b ∧ s'.generation = s.generation) ∨ fresh ≤ b
  stays : ∀ a, s.occupant = some a → s'.generation = s.generation → s'.occupant = some a

theorem Slot.Ages.refl (fresh : A) (s : Slot A) : s.Ages fresh s :=
  ⟨Nat.le_refl _, fun _ h => .inl ⟨h, rfl⟩, fun _ h _ => h⟩

theorem Slot.Ages.trans {fresh fresh' : A} {s₁ s₂ s₃ : Slot A} (hfresh : fresh ≤ fresh')
    (h : s₁.Ages fresh s₂) (h' : s₂.Ages fresh' s₃) : s₁.Ages fresh s₃ := by
  constructor
  · exact Nat.le_trans h.generation h'.generation
  · intro b hb
    rcases h'.came b hb with ⟨hb₂, heq₂⟩ | hb
    · rcases h.came b hb₂ with ⟨hb₁, heq₁⟩ | hb
      · exact .inl ⟨hb₁, heq₂.trans heq₁⟩
      · exact .inr hb
    · exact .inr (le_trans hfresh hb)
  · intro a ha heq
    have h₂ : s₂.generation = s₁.generation :=
      Nat.le_antisymm (heq ▸ h'.generation) h.generation
    exact h'.stays a (h.stays a ha h₂) (heq.trans h₂.symm)

namespace SlotTable

def Ages (fresh : A) (l l' : SlotTable A) : Prop :=
  ∀ (i : Nat) s, l[i]? = some s → ∃ s', l'[i]? = some s' ∧ s.Ages fresh s'

theorem Ages.refl (fresh : A) (l : SlotTable A) : Ages fresh l l :=
  fun _ s h => ⟨s, h, .refl fresh s⟩

theorem Ages.trans {fresh fresh' : A} {l₁ l₂ l₃ : SlotTable A} (hfresh : fresh ≤ fresh')
    (h : Ages fresh l₁ l₂) (h' : Ages fresh' l₂ l₃) : Ages fresh l₁ l₃ := by
  intro i s hs
  obtain ⟨s₂, hs₂, hages⟩ := h i s hs
  obtain ⟨s₃, hs₃, hages'⟩ := h' i s₂ hs₂
  exact ⟨s₃, hs₃, hages.trans hfresh hages'⟩

omit [Preorder A] in
/-- The slots of a table of which one is changed. -/
theorem getElem?_set_cases {l : SlotTable A} {i j : Nat} {s t : Slot A}
    (h : (l.set i t)[j]? = some s) : (j = i ∧ s = t) ∨ l[j]? = some s := by
  by_cases hij : i = j
  · subst hij
    rw [List.getElem?_set_self'] at h
    obtain ⟨_, -, rfl⟩ := Option.map_eq_some_iff.mp h
    exact .inl ⟨rfl, rfl⟩
  · rw [List.getElem?_set_ne hij] at h
    exact .inr h

theorem Ages.set {fresh : A} {l : SlotTable A} {i : Nat} {s s' : Slot A} (hs : l[i]? = some s)
    (hages : s.Ages fresh s') : Ages fresh l (l.set i s') := by
  intro j t ht
  by_cases hij : i = j
  · subst hij
    rw [hs] at ht
    cases ht
    exact ⟨s', List.getElem?_set_self (List.getElem?_eq_some_iff.mp hs).1, hages⟩
  · exact ⟨t, (List.getElem?_set_ne hij).trans ht, .refl fresh t⟩

/-! ## Steps -/

/-- What happens to a table, where an occupant comes to the slots that meet a condition on their
place and generation. -/
inductive Step (ok : Nat → Nat → Prop) (fresh fresh' : A) (l : SlotTable A) : SlotTable A → Prop
  | insert {i g a} : l[i]? = some ⟨g, none⟩ → ok i g → fresh ≤ a → a < fresh' →
      Step ok fresh fresh' l (l.set i ⟨g, some a⟩)
  | push {g o} : (∀ a, o = some a → ok l.length g ∧ fresh ≤ a ∧ a < fresh') →
      Step ok fresh fresh' l (l ++ [⟨g, o⟩])
  | remove {i g a} : l[i]? = some ⟨g, some a⟩ → Step ok fresh fresh' l (l.set i ⟨g + 1, none⟩)

abbrev Steps (ok : Nat → Nat → Prop) (fresh fresh' : A) : SlotTable A → SlotTable A → Prop :=
  Relation.ReflTransGen (Step ok fresh fresh')

variable {ok : Nat → Nat → Prop} {fresh fresh' : A} {l l' : SlotTable A}

theorem Step.ages (h : Step ok fresh fresh' l l') : Ages fresh l l' := by
  cases h with
  | insert hget _ hle _ =>
      apply Ages.set hget
      exact ⟨Nat.le_refl _, fun b hb => .inr (Option.some.inj hb ▸ hle),
        fun _ h _ => by cases h⟩
  | push =>
      intro i s hs
      have hlt := (List.getElem?_eq_some_iff.mp hs).1
      exact ⟨s, (List.getElem?_append_left hlt).trans hs, .refl fresh s⟩
  | remove hget =>
      apply Ages.set hget
      exact ⟨Nat.le_succ _, fun _ h => (by cases h), fun _ _ h => absurd h (Nat.succ_ne_self _)⟩

theorem Steps.ages (h : Steps ok fresh fresh' l l') : Ages fresh l l' := by
  induction h with
  | refl => exact .refl fresh l
  | tail _ hstep ih => exact ih.trans (le_refl fresh) hstep.ages

/-- Each slot that is occupied meets the condition, and the occupants are below `fresh`. -/
def Fits (ok : Nat → Nat → Prop) (fresh : A) (l : SlotTable A) : Prop :=
  ∀ (i : Nat) s a, l[i]? = some s → s.occupant = some a → ok i s.generation ∧ a < fresh

theorem Fits.mono (h : Fits ok fresh l) (hfresh : fresh ≤ fresh') : Fits ok fresh' l :=
  fun i s a hs ha => ⟨(h i s a hs ha).1, lt_of_lt_of_le (h i s a hs ha).2 hfresh⟩

theorem Step.fits (h : Step ok fresh fresh' l l') (hl : Fits ok fresh' l) :
    Fits ok fresh' l' := by
  cases h with
  | insert hget hok _ hlt =>
      intro i s a hs ha
      rcases getElem?_set_cases hs with ⟨rfl, rfl⟩ | hs
      · cases ha
        exact ⟨hok, hlt⟩
      · exact hl i s a hs ha
  | push hnew =>
      intro i s a hs ha
      by_cases hi : i < l.length
      · rw [List.getElem?_append_left hi] at hs
        exact hl i s a hs ha
      · rw [List.getElem?_append_right (by omega), List.getElem?_singleton] at hs
        split at hs
        · cases hs
          obtain ⟨hok, -, hlt⟩ := hnew a ha
          rw [show i = l.length by omega]
          exact ⟨hok, hlt⟩
        · cases hs
  | remove hget =>
      intro i s a hs ha
      rcases getElem?_set_cases hs with ⟨rfl, rfl⟩ | hs
      · cases ha
      · exact hl i s a hs ha

theorem Steps.fits (h : Steps ok fresh fresh' l l') (hl : Fits ok fresh' l) :
    Fits ok fresh' l' := by
  induction h with
  | refl => exact hl
  | tail _ hstep ih => exact hstep.fits ih

/-! ## Names -/

def occupant (l : SlotTable A) (i : Nat) : Option A := l[i]?.bind Slot.occupant

/-- What the name of slot `i` in generation `g` stands for. -/
def resolve (l : SlotTable A) (i g : Nat) : Option A :=
  l[i]?.bind fun s => if s.generation = g then s.occupant else none

/-- **A name stands for the occupant it was made for as long as it stays, and for nothing after
that.** -/
theorem Ages.resolve (h : Ages fresh l l') {i : Nat} {s : Slot A} {a : A} (hs : l[i]? = some s)
    (ha : s.occupant = some a) (hlt : a < fresh) :
    (l'.occupant i = some a → l'.resolve i s.generation = some a) ∧
      (l'.occupant i ≠ some a → l'.resolve i s.generation = none) := by
  obtain ⟨s', hs', hages⟩ := h i s hs
  simp only [SlotTable.occupant, SlotTable.resolve, hs', Option.bind_some]
  constructor
  · intro hstays
    rcases hages.came a hstays with ⟨-, heq⟩ | hle
    · rw [if_pos heq, hstays]
    · exact absurd hle (not_le_of_gt hlt)
  · intro hleft
    have hne : s'.generation ≠ s.generation := fun heq => hleft (hages.stays a ha heq)
    rw [if_neg hne]

end SlotTable

end Improot.Lib
