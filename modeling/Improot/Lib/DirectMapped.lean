import Mathlib.Data.List.Induction
import Mathlib.Data.List.Infix
import Mathlib.Logic.Function.Basic

/-!
# Direct-mapped caches

A cache with one entry for each slot, where every key has a slot of its own choice: storing a value
evicts whatever was in the slot.  An implementation may keep another pair than the one it was given,
or none.  It answers truthfully exactly as long as what it keeps is true when it is kept, since no
key can get another value without its slot being overwritten.
-/

namespace Improot.Lib

inductive CacheOp (K V : Type*) where
  | insert (key : K) (value : V)
  | clear

namespace CacheOp

variable {ι K V : Type*} [DecidableEq ι] [DecidableEq K]

/-! ## What was inserted last -/

/-- The table of the last insertion of each key since the last time it was cleared. -/
def record (t : K → Option V) : CacheOp K V → K → Option V
  | insert key value => Function.update t key (some value)
  | clear => fun _ => none

def last (ops : List (CacheOp K V)) : K → Option V := ops.foldl record fun _ => none

theorem last_concat (ops : List (CacheOp K V)) (op : CacheOp K V) :
    last (ops ++ [op]) = record (last ops) op := by
  rw [last, List.foldl_append]
  rfl

/-! ## The cache -/

variable (slot : K → ι) (keep : K → V → Option (K × V))

/-- The slots of the cache after an operation: an insertion overwrites the slot of its key with what
`keep` makes of it. -/
def store (c : ι → Option (K × V)) : CacheOp K V → ι → Option (K × V)
  | insert key value => Function.update c (slot key) (keep key value)
  | clear => fun _ => none

def find (c : ι → Option (K × V)) (key : K) : Option V :=
  match c (slot key) with
  | some (key', value) => if key' = key then some value else none
  | none => none

def Truthful (c : ι → Option (K × V)) (t : K → Option V) : Prop :=
  ∀ key value, find slot c key = some value → t key = some value

variable {slot keep} {c : ι → Option (K × V)} {t : K → Option V} {key : K} {value : V}

omit [DecidableEq ι] in
theorem find_eq_some : find slot c key = some value ↔ c (slot key) = some (key, value) := by
  unfold find
  constructor
  · intro h
    split at h
    · rename_i key' value' hentry
      split at h
      · rename_i hkey
        cases h
        rw [hentry, hkey]
      · cases h
    · cases h
  · intro h
    rw [h]
    exact if_pos rfl

/-- **A step keeps the cache truthful** if and only if what it keeps is true. -/
theorem truthful_store_iff (hkeep : ∀ key value key' value',
    keep key value = some (key', value') → slot key' = slot key) (h : Truthful slot c t)
    (op : CacheOp K V) :
    Truthful slot (store slot keep c op) (record t op) ↔
      ∀ key value, op = insert key value → ∀ entry ∈ keep key value,
        record t op entry.1 = some entry.2 := by
  cases op with
  | clear =>
      constructor
      · intro _ key value hop
        cases hop
      · intro _ key value hfind
        cases hfind
  | insert key value =>
      constructor
      · intro htrue key' value' hop entry hentry
        cases hop
        obtain ⟨kept, keptValue⟩ := entry
        apply htrue kept keptValue
        rw [find_eq_some]
        have hslot := hkeep _ _ _ _ hentry
        simpa [store, hslot] using hentry
      · intro hkept key' value' hfind
        rw [find_eq_some] at hfind
        by_cases hslot : slot key' = slot key
        · have hentry : keep key value = some (key', value') := by
            simpa [store, hslot] using hfind
          exact hkept key value rfl (key', value') hentry
        · -- another slot: the key isn't the one that was inserted
          have hne : key' ≠ key := by
            intro heq
            exact hslot (congrArg slot heq)
          show Function.update t key (some value) key' = some value'
          rw [Function.update_of_ne hne]
          apply h
          rw [find_eq_some]
          simpa [store, Function.update_of_ne hslot] using hfind

/-! ## Runs -/

variable (slot keep)

def stored (ops : List (CacheOp K V)) : ι → Option (K × V) :=
  ops.foldl (store slot keep) fun _ => none

variable {slot keep}

omit [DecidableEq K] in
theorem stored_concat (ops : List (CacheOp K V)) (op : CacheOp K V) :
    stored slot keep (ops ++ [op]) = store slot keep (stored slot keep ops) op := by
  rw [stored, List.foldl_append]
  rfl

/-- **A cache is truthful at every moment of a run** if and only if every entry that it keeps is
true when it is kept. -/
theorem truthful_stored_iff (hkeep : ∀ key value key' value',
    keep key value = some (key', value') → slot key' = slot key) (ops : List (CacheOp K V)) :
    (∀ before, before <+: ops → Truthful slot (stored slot keep before) (last before)) ↔
      ∀ before key value, before ++ [insert key value] <+: ops →
        ∀ entry ∈ keep key value, last (before ++ [insert key value]) entry.1 = some entry.2 := by
  induction ops using List.reverseRecOn with
  | nil =>
      constructor
      · intro _ before key value hprefix
        simp at hprefix
      · intro _ before hprefix
        obtain rfl := List.prefix_nil.mp hprefix
        intro key value hfind
        cases hfind
  | append_singleton ops op ih =>
      have hstep (h : Truthful slot (stored slot keep ops) (last ops)) :=
        truthful_store_iff hkeep h op
      rw [← stored_concat, ← last_concat] at hstep
      constructor
      · intro h before key value hprefix entry hentry
        have hops : ∀ before, before <+: ops →
            Truthful slot (stored slot keep before) (last before) :=
          fun before hbefore => h before (hbefore.trans (List.prefix_append _ _))
        rcases List.prefix_concat_iff.mp hprefix with hwhole | hpart
        · obtain ⟨rfl, hop⟩ := List.append_inj' hwhole rfl
          cases hop
          exact (hstep (hops before (List.prefix_refl _))).mp (h _ (List.prefix_refl _)) key value
            rfl entry hentry
        · exact ih.mp hops before key value hpart entry hentry
      · intro h before hprefix
        have hops := ih.mpr fun before key value hpart =>
          h before key value (hpart.trans (List.prefix_append _ _))
        rcases List.prefix_concat_iff.mp hprefix with rfl | hpart
        · refine (hstep (hops ops (List.prefix_refl _))).mpr ?_
          intro key value hop
          subst hop
          exact h ops key value (List.prefix_refl _)
        · exact hops before hpart

end CacheOp

end Improot.Lib
