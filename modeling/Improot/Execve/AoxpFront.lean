import Improot.Execve.AoxpSpec

/-!
# Replacing the first element of argv

Some strings of PRoot take the place of the first element of an array of the tracee; the others are
still the pointers of the tracee.
-/

namespace Improot.Execve

open Improot.Lib Improot.Tracee
open Improot.Path (Failure)

def localEntries (strings : List Str) : List XPointer := strings.map fun s => ⟨0, some s⟩

theorem filter_localEntries (strings : List Str) :
    ((localEntries strings).map XPointer.remote).filter (· ≠ 0) = [] := by
  rw [localEntries, List.map_map, List.filter_map, List.map_eq_nil_iff, List.filter_eq_nil_iff]
  intro s _
  simp

theorem localEntries_cached (strings : List Str) :
    (localEntries strings).map XPointer.cached = strings.map some := by
  rw [localEntries, List.map_map]
  rfl

theorem fetchedEntries_cached (pointers : List Nat) :
    (fetchedEntries pointers).map XPointer.cached = pointers.map fun _ => none := by
  rw [fetchedEntries, List.map_map]
  rfl

/-- `first` took the place of the first element of argv. -/
def Starts (pointers : List Nat) (first : List Str) (entries : List XPointer) : Prop :=
  ∃ front, entries = front ++ fetchedEntries pointers.tail ∧
    front.map XPointer.cached = first.map some ∧
    ((front.map XPointer.remote).filter (· ≠ 0)).Sublist (pointers.take 1)

section Array

variable {m : Memory} {pointers : List Nat} {first : List Str} {entries : List XPointer}

theorem forall₂_cached {front : List XPointer}
    (h : front.map XPointer.cached = first.map some) :
    List.Forall₂ (fun x s => x.cached = some s) front first := by
  have heq : List.Forall₂ Eq (front.map XPointer.cached) (first.map some) := by
    rw [List.forall₂_eq_eq_eq]
    exact h
  exact List.forall₂_map_right_iff.mp (List.forall₂_map_left_iff.mp heq)

theorem means_cached (m : Memory) {front : List XPointer}
    (h : front.map XPointer.cached = first.map some) :
    List.Forall₂ (XPointer.Means m) front (first.map some) := by
  apply List.forall₂_map_right_iff.mpr
  refine (forall₂_cached h).imp fun x s hx => ?_
  unfold XPointer.Means
  rw [hx]

theorem keeps_cached {front : List XPointer} (h : front.map XPointer.cached = first.map some) :
    List.Forall₂ XPointer.Keeps front (first.map fun _ => none) := by
  apply List.forall₂_map_right_iff.mpr
  refine (forall₂_cached h).imp fun x s hx => ?_
  intro q hq
  cases hq

/-- **The array stands for** what was put first, and the original strings but the first one. -/
theorem Starts.represents {strings : List (Option Str)} (h : Starts pointers first entries)
    (hstrings : List.Forall₂ (PointsTo m) pointers strings) :
    Represents m pointers entries (first.map some ++ strings.tail)
      (first.map (fun _ => none) ++ (pointers.map some).tail) := by
  obtain ⟨front, rfl, hcached, hremotes⟩ := h
  have htail : List.Forall₂ (PointsTo m) pointers.tail strings.tail := by
    cases hstrings with
    | nil => exact .nil
    | cons _ hrest => exact hrest
  have hrest := represents_fetched htail
  refine ⟨?_, ?_, ?_⟩
  · exact List.rel_append (means_cached m hcached) hrest.means
  · apply List.rel_append (keeps_cached hcached)
    rw [← List.map_tail]
    exact hrest.keeps
  · rw [List.map_append, List.filter_append]
    have hsplit : pointers.take 1 ++ pointers.tail = pointers := by
      rw [← List.drop_one, List.take_append_drop]
    conv => arg 2; rw [← hsplit]
    exact hremotes.append hrest.remotes

theorem Starts.cached (h : Starts pointers first entries) :
    entries.map XPointer.cached = first.map some ++ pointers.tail.map (fun _ => none) := by
  obtain ⟨front, rfl, hcached, -⟩ := h
  rw [List.map_append, hcached, fetchedEntries_cached]

theorem Starts.exists_cached (h : Starts pointers first entries) (hne : first ≠ []) :
    ∃ x ∈ entries, x.cached.isSome = true := by
  obtain ⟨front, rfl, hfront, -⟩ := h
  cases front with
  | nil => exact absurd (List.map_eq_nil_iff.mp hfront.symm) hne
  | cons y front =>
      refine ⟨y, List.mem_append_left _ List.mem_cons_self, ?_⟩
      obtain ⟨s, -, hs⟩ := List.mem_map.mp (hfront ▸ List.mem_map_of_mem List.mem_cons_self)
      rw [← hs]
      rfl

/-! ## Blocks -/

/-- The array whose block is pushed, when `first` takes the place of the first element. -/
def startingArray (first : List Str) (pointers : List Nat) : List XPointer :=
  localEntries first ++ fetchedEntries pointers.tail ++ [XPointer.null]

theorem pushedSize_congr (w : Nat) {array array' : List XPointer}
    (h : array.map XPointer.cached = array'.map XPointer.cached) :
    pushedSize w array = pushedSize w array' := by
  have hlength : array.length = array'.length := by
    have hcached := congrArg List.length h
    rwa [List.length_map, List.length_map] at hcached
  have hpointees (l : List XPointer) : modifiedPointees l =
      (l.map XPointer.cached).flatMap fun c => (c.map Str.stored).getD [] := by
    rw [List.flatMap_map]
    rfl
  rw [pushedSize, pushedSize, hlength, hpointees, hpointees, h]

theorem Starts.pushedSize (w : Nat) (h : Starts pointers first entries) :
    pushedSize w (entries ++ [.null]) = pushedSize w (startingArray first pointers) := by
  apply pushedSize_congr
  rw [startingArray, List.map_append, h.cached, List.map_append, List.map_append,
    localEntries_cached, fetchedEntries_cached]

theorem push_failure {m' : Memory} {w reg : Nat} {alloc : Nat → Option Nat}
    {array : List XPointer} {f : Failure}
    (h : pushArrayOfXpointers m w alloc reg array = (m', .error f)) :
    m' = m ∨ ∃ ptr bytes, alloc (pushedSize w array) = some ptr ∧
      bytes.length = pushedSize w array ∧ m' = (m.store ptr bytes).1 := by
  unfold pushArrayOfXpointers at h
  simp only at h
  split at h
  · cases h
  · split at h
    · cases h
      exact .inl rfl
    · cases halloc : alloc (pushedSize w array) with
      | none =>
          rw [halloc] at h
          cases h
          exact .inl rfl
      | some ptr =>
          right
          refine ⟨ptr, pushedBlock w ptr array, rfl, length_pushedBlock array, ?_⟩
          rw [halloc] at h
          simp only at h
          split at h
          · rename_i hstore
            cases h
            rw [pushedBlock, hstore]
          · cases h

/-! ## What is in the memory of the tracee -/

theorem PointsTo.store {pointer ptr : Nat} {v : Option Str} {bytes : Bytes}
    (h : PointsTo m pointer v)
    (hapart : ∀ s, v = some s → pointer + s.stored.length ≤ ptr ∨ ptr + bytes.length ≤ pointer) :
    PointsTo (m.store ptr bytes).1 pointer v := by
  cases v with
  | none => exact h
  | some s =>
      refine ⟨h.1, ?_⟩
      rw [Memory.load_store_outside (hapart s rfl)]
      exact h.2

theorem ArrayOf.store {w address ptr : Nat} {bytes : Bytes} (h : ArrayOf m w address pointers)
    (hapart : address + (tableBytes w (pointers ++ [0])).length ≤ ptr ∨
      ptr + bytes.length ≤ address) :
    ArrayOf (m.store ptr bytes).1 w address pointers := by
  refine ⟨?_, h.fits⟩
  rw [Memory.load_store_outside hapart]
  exact h.table

theorem readsBack_original {w reg : Nat} {strings : List (Option Str)}
    (harray : ArrayOf m w reg pointers) (hstrings : List.Forall₂ (PointsTo m) pointers strings) :
    ReadsBack m w reg strings (pointers.map some) := by
  have hsome : strings.takeWhile Option.isSome = strings := by
    have hpointers : pointers.takeWhile (· ≠ 0) = pointers :=
      List.takeWhile_eq_self_iff.mpr fun p hp => decide_eq_true (harray.fits p hp).1
    have hstarts := forall₂_takeWhile pointsTo_isSome hstrings
    rw [hpointers] at hstarts
    exact forall₂_pointsTo_unique hstarts hstrings
  refine ⟨pointers, harray, ?_, ?_⟩
  · rw [hsome]
    exact hstrings
  · rw [← List.map_take, List.take_length]
    apply List.forall₂_map_right_iff.mpr
    apply List.forall₂_same.mpr
    intro pointer _ q hq
    cases hq
    rfl

end Array

end Improot.Execve
