import Mathlib.Data.Finset.Card
import Improot.Extension.PortmapSpec

/-!
# The port map is a finite map

`add_entry` and `get_port` over all histories of calls: the probing ends within the table, an entry
is found again, and an entry is refused only when the table is full of other ones. Port 0 is the
mark of an unused entry, so it is no key: what was added for it is kept only until another key
takes its slot.
-/

namespace Improot.Extension

open Lib

/-! ## The loops of `get_index` -/

/-- What a loop of `get_index` does: the slots it reads, and its variables when it is left. -/
structure Probed where
  reads : List Nat
  index : Nat
  i : Nat
  deriving DecidableEq, Repr

/-- `while (inside && port_in != PORTMAP_DEFAULT_VALUE && port_in != key) { index++; i++; }`; none
if it isn't left within `fuel` turns. -/
def probeWhile (inside : Nat → Nat → Bool) (portmap : PortMap) (key : Port) :
    (fuel index i : Nat) → Option Probed
  | 0, index, i =>
    if inside index i ∧ portmap.key index ≠ portmapDefaultValue ∧ portmap.key index ≠ key then none
    else some ⟨if inside index i then [index] else [], index, i⟩
  | fuel + 1, index, i =>
    if inside index i ∧ portmap.key index ≠ portmapDefaultValue ∧ portmap.key index ≠ key then
      (probeWhile inside portmap key fuel (index + 1) (i + 1)).map fun p =>
        { p with reads := index :: p.reads }
    else some ⟨if inside index i then [index] else [], index, i⟩

/-- `get_index` as it is written: the slots it reads, and what it returns. -/
def getIndexProbed (portmap : PortMap) (key : Port) (fuel : Nat) : Option (List Nat × Nat) :=
  (probeWhile (fun index _ => index < portmapSize) portmap key fuel (probeStart key) 0).bind
    fun p =>
      -- if a good entry has been found, we can return it directly
      if p.index < portmapSize then some (p.reads, p.index)
      else
        -- otherwise, we loop back from the beginning
        (probeWhile (fun _ i => i < portmapSize) portmap key fuel 0 p.i).map fun q =>
          (p.reads ++ q.reads, if q.i < portmapSize then q.index else portmapSize)

/-- A search looks at so many slots at most, in order, each of them in the range. -/
theorem probeWhile_eq (inside : Nat → Nat → Bool) (portmap : PortMap) (key : Port)
    (fuel count index i : Nat) (hfuel : count ≤ fuel)
    (hinside : ∀ n, n < count → inside (index + n) (i + n))
    (hend : inside (index + count) (i + count) = false) :
    ∃ p, probeWhile inside portmap key fuel index i = some p ∧ p.reads.length ≤ count ∧
      (∀ r ∈ p.reads, index ≤ r ∧ r < index + count) ∧
      match probeLoop portmap key count index with
      | some found => p.index = found ∧ p.i = i + (found - index) ∧ index ≤ found ∧
          found < index + count
      | none => p.index = index + count ∧ p.i = i + count := by
  induction count generalizing fuel index i with
  | zero =>
      have hout : inside index i = false := hend
      refine ⟨⟨[], index, i⟩, ?_, Nat.le_refl _, by simp, rfl, rfl⟩
      cases fuel <;> simp [probeWhile, hout]
  | succ count ih =>
      obtain ⟨fuel, rfl⟩ := Nat.exists_eq_succ_of_ne_zero (show fuel ≠ 0 by omega)
      have hin : inside index i = true := hinside 0 (Nat.succ_pos _)
      rw [probeWhile, probeLoop]
      by_cases hgoes : portmap.key index ≠ portmapDefaultValue ∧ portmap.key index ≠ key
      · obtain ⟨p, hp, hlen, hreads, hmatch⟩ := ih fuel (index + 1) (i + 1) (by omega)
          (fun n hn => by
            have h := hinside (n + 1) (by omega)
            rwa [show index + 1 + n = index + (n + 1) by omega,
              show i + 1 + n = i + (n + 1) by omega])
          (by rwa [show index + 1 + count = index + (count + 1) by omega,
              show i + 1 + count = i + (count + 1) by omega])
        rw [if_pos ⟨hin, hgoes⟩, if_pos hgoes, hp]
        refine ⟨{ p with reads := index :: p.reads }, rfl, ?_, ?_, ?_⟩
        · show p.reads.length + 1 ≤ count + 1
          omega
        · intro r hr
          rcases List.mem_cons.mp hr with rfl | hr
          · omega
          · have := hreads r hr
            omega
        · cases hfound : probeLoop portmap key count (index + 1) with
          | none | some =>
              rw [hfound] at hmatch
              dsimp only at hmatch ⊢
              omega
      · have hstays : ¬ (inside index i = true ∧ portmap.key index ≠ portmapDefaultValue ∧
            portmap.key index ≠ key) := fun h => hgoes h.2
        rw [if_neg hstays, if_neg hgoes]
        refine ⟨⟨[index], index, i⟩, by rw [if_pos hin], by simp, ?_, ?_⟩
        · intro r hr
          obtain rfl := List.mem_singleton.mp hr
          omega
        · dsimp only
          omega

/-- **The probing ends** after at most as many steps as the table has slots, none of them outside of
the table. -/
theorem getIndexProbed_eq (portmap : PortMap) (key : Port) {fuel : Nat} (hfuel : portmapSize ≤ fuel) :
    ∃ reads, getIndexProbed portmap key fuel = some (reads, getIndex portmap key) ∧
      reads.length ≤ portmapSize ∧ ∀ r ∈ reads, r < portmapSize := by
  have hstart := probeStart_lt key
  obtain ⟨p, hp, hlen, hreads, hmatch⟩ := probeWhile_eq (fun index _ => index < portmapSize) portmap
    key fuel (portmapSize - probeStart key) (probeStart key) 0 (by omega)
    (fun n hn => by simp only [decide_eq_true_iff]; omega)
    (by simp only [decide_eq_false_iff_not]; omega)
  unfold getIndexProbed getIndex
  rw [hp]
  simp only [Option.bind_some]
  cases hfirst : probeLoop portmap key (portmapSize - probeStart key) (probeStart key) with
  | some found =>
      rw [hfirst] at hmatch
      dsimp only at hmatch ⊢
      refine ⟨p.reads, ?_, by omega, fun r hr => ?_⟩
      · rw [if_pos (by omega), hmatch.1]
      · have := hreads r hr
        omega
  | none =>
      rw [hfirst] at hmatch
      dsimp only at hmatch ⊢
      obtain ⟨q, hq, hlen', hreads', hmatch'⟩ := probeWhile_eq (fun _ i => i < portmapSize) portmap
        key fuel (probeStart key) 0 p.i (by omega)
        (fun n hn => by simp only [decide_eq_true_iff]; omega)
        (by simp only [decide_eq_false_iff_not]; omega)
      rw [if_neg (by omega), hq]
      refine ⟨p.reads ++ q.reads, ?_, ?_, ?_⟩
      · cases hsecond : probeLoop portmap key (probeStart key) 0 with
        | some found =>
            rw [hsecond] at hmatch'
            dsimp only at hmatch'
            rw [Option.map_some, if_pos (by omega), hmatch'.1]
        | none =>
            rw [hsecond] at hmatch'
            dsimp only at hmatch'
            rw [Option.map_some, if_neg (by omega)]
      · rw [List.length_append]
        omega
      · intro r hr
        rcases List.mem_append.mp hr with hr | hr
        · have := hreads r hr
          omega
        · have := hreads' r hr
          omega

/-! ## Histories -/

/-- The result of `add_entry`. -/
def addEntryResult (portmap : PortMap) (portIn : Port) : Int :=
  if getIndex portmap portIn = portmapSize then -1 else 0

/-- A call of `add_entry`, with the calls that succeeded before, the last one first. -/
def addAndRecord (s : PortMap × List (Port × Port)) (call : Port × Port) :
    PortMap × List (Port × Port) :=
  (addEntry s.1 call.1 call.2, if addEntryResult s.1 call.1 = 0 then call :: s.2 else s.2)

/-- The map after some calls of `add_entry`, with the ones that succeeded, the last one first. -/
def addEntries (calls : List (Port × Port)) : PortMap × List (Port × Port) :=
  calls.foldl addAndRecord (initializePortmap, [])

structure Recorded (portmap : PortMap) (added : List (Port × Port)) : Prop where
  sound : portmap.Sound
  /-- every entry is the last one that was added for its key -/
  entry : ∀ k, k ≠ portmapDefaultValue →
    portmap.lookup portmapDefaultValue probeOrder k = added.lookup k
  /-- an unused slot holds no port, but for the first one -/
  unused : ∀ i, portmap.key i = portmapDefaultValue → portmap.value i ≠ portmapDefaultValue →
    portmap.index portmapDefaultValue probeOrder portmapDefaultValue = some i ∧
      added.lookup portmapDefaultValue = some (portmap.value i)

theorem recorded_initial : Recorded initializePortmap [] where
  sound := ProbeTable.sound_of_vacant fun _ => rfl
  entry k hk := by
    unfold ProbeTable.lookup
    cases initializePortmap.index portmapDefaultValue probeOrder k with
    | none => rfl
    | some i =>
        have hne : initializePortmap.key i ≠ k := fun h => hk h.symm
        simp [hne]
  unused i _ hv := absurd rfl hv

theorem Recorded.set {portmap : PortMap} {added : List (Port × Port)} (h : Recorded portmap added)
    {k v : Port} {j : Nat} (hj : portmap.index portmapDefaultValue probeOrder k = some j) :
    Recorded (portmap.set j k v) ((k, v) :: added) where
  sound := ProbeTable.Sound.set h.sound hj
  entry k' hk' := by
    by_cases hne : k' = k
    · subst hne
      rw [ProbeTable.lookup_set_self hj, List.lookup_cons_self]
    · rw [ProbeTable.Sound.lookup_set_of_ne h.sound hj hk' hne, h.entry k' hk', List.lookup_cons,
        beq_false_of_ne hne]
  unused i hkey hvalue := by
    by_cases hij : i = j
    · -- the slot was written for port 0
      subst hij
      obtain rfl : k = portmapDefaultValue := by simpa [ProbeTable.set] using hkey
      refine ⟨ProbeTable.index_set_self hj, ?_⟩
      simp [ProbeTable.set]
    · have hkey' : portmap.key i = portmapDefaultValue := by
        simpa [ProbeTable.set, Function.update_of_ne hij] using hkey
      have hvalue' : (portmap.set j k v).value i = portmap.value i := by
        simp [ProbeTable.set, Function.update_of_ne hij]
      rw [hvalue'] at hvalue ⊢
      obtain ⟨hindex, hlast⟩ := h.unused i hkey' hvalue
      have hk : k ≠ portmapDefaultValue := by
        rintro rfl
        exact hij (Option.some.inj (hindex.symm.trans hj))
      refine ⟨ProbeTable.index_set_of_ne hindex hk hk.symm hij, ?_⟩
      rw [List.lookup_cons, beq_false_of_ne hk.symm]
      exact hlast

theorem recorded_addAndRecord {s : PortMap × List (Port × Port)} (h : Recorded s.1 s.2)
    (call : Port × Port) : Recorded (addAndRecord s call).1 (addAndRecord s call).2 := by
  unfold addAndRecord addEntryResult addEntry
  dsimp only
  by_cases hfull : getIndex s.1 call.1 = portmapSize
  · simpa [hfull] using h
  · simpa [hfull] using h.set (getIndex_ne hfull)

theorem recorded_addEntries (calls : List (Port × Port)) :
    Recorded (addEntries calls).1 (addEntries calls).2 := by
  have hfold : ∀ s : PortMap × List (Port × Port), Recorded s.1 s.2 →
      Recorded (calls.foldl addAndRecord s).1 (calls.foldl addAndRecord s).2 := by
    induction calls with
    | nil => exact fun _ h => h
    | cons call calls ih => exact fun s h => ih _ (recorded_addAndRecord h call)
  exact hfold _ recorded_initial

/-! ## A full table -/

theorem key_ne_of_full {portmap : PortMap} {k : Port} (hfull : getIndex portmap k = portmapSize)
    {i : Nat} (hi : i < portmapSize) : portmap.key i ≠ portmapDefaultValue ∧ portmap.key i ≠ k := by
  have hnone : portmap.index portmapDefaultValue probeOrder k = none := by
    rw [getIndex_eq] at hfull
    cases hindex : portmap.index portmapDefaultValue probeOrder k with
    | none => rfl
    | some j =>
        rw [hindex] at hfull
        exact absurd hfull (Nat.ne_of_lt (index_lt hindex))
  have hmem : i ∈ probeOrder k := by
    have hstart := probeStart_lt k
    unfold probeOrder
    rw [List.mem_append, List.mem_range'_1, List.mem_range'_1]
    omega
  have hgoes := List.find?_eq_none.mp hnone i hmem
  simpa [ProbeTable.stops] using hgoes

/-- **An entry is refused only when `PORTMAP_SIZE` other keys are there.** -/
theorem Recorded.full {portmap : PortMap} {added : List (Port × Port)} (h : Recorded portmap added)
    {k : Port} (hfull : getIndex portmap k = portmapSize) :
    ∃ keys : Finset Port, keys.card = portmapSize ∧
      ∀ k' ∈ keys, k' ≠ k ∧ k' ≠ portmapDefaultValue ∧ (added.lookup k').isSome := by
  -- a key is found in one slot only
  have hinj : Set.InjOn portmap.key (Finset.range portmapSize : Finset Nat) := by
    intro i hi j _ hij
    have hne := (key_ne_of_full hfull (Finset.mem_range.mp hi)).1
    have hi' := h.sound _ i hne rfl
    have hj' := h.sound _ j hne hij.symm
    exact Option.some.inj (hi'.symm.trans hj')
  refine ⟨(Finset.range portmapSize).image portmap.key, ?_, ?_⟩
  · rw [Finset.card_image_of_injOn hinj, Finset.card_range]
  · intro k' hk'
    obtain ⟨i, hi, rfl⟩ := Finset.mem_image.mp hk'
    obtain ⟨hne, hother⟩ := key_ne_of_full hfull (Finset.mem_range.mp hi)
    refine ⟨hother, hne, ?_⟩
    rw [← h.entry _ hne]
    unfold ProbeTable.lookup
    rw [h.sound _ i hne rfl]
    simp

/-! ## The finite map -/

/-- What `get_port` is to answer, by the calls that succeeded. -/
def lastAdded (added : List (Port × Port)) (k : Port) : Port :=
  (added.lookup k).getD portmapDefaultValue

/-- The law of a finite map for a key, after some calls of `add_entry`. -/
structure MapsKey (calls : List (Port × Port)) (k : Port) : Prop where
  /-- `get_port` gives the value that was added last, or that there is none -/
  get : getPort (addEntries calls).1 k = lastAdded (addEntries calls).2 k
  /-- another key that is added doesn't change it -/
  frame : ∀ k' v, k' ≠ k →
    getPort (addEntry (addEntries calls).1 k' v) k = getPort (addEntries calls).1 k

structure KeepsTable (calls : List (Port × Port)) (k : Port) : Prop where
  /-- a key is refused only when `PORTMAP_SIZE` other ones are there -/
  refuses : addEntryResult (addEntries calls).1 k ≠ 0 →
    ∃ keys : Finset Port, keys.card = portmapSize ∧
      ∀ k' ∈ keys, k' ≠ k ∧ ((addEntries calls).2.lookup k').isSome
  /-- the search for it ends within `PORTMAP_SIZE` steps, all of them inside the table -/
  probes : ∃ reads, getIndexProbed (addEntries calls).1 k portmapSize =
      some (reads, getIndex (addEntries calls).1 k) ∧
    reads.length ≤ portmapSize ∧ ∀ r ∈ reads, r < portmapSize

theorem keepsTable (calls : List (Port × Port)) (k : Port) : KeepsTable calls k where
  refuses hresult := by
    have hfull : getIndex (addEntries calls).1 k = portmapSize := by
      by_contra hroom
      exact hresult (if_neg hroom)
    obtain ⟨keys, hcard, hkeys⟩ := (recorded_addEntries calls).full hfull
    exact ⟨keys, hcard, fun k' hk' => ⟨(hkeys k' hk').1, (hkeys k' hk').2.2⟩⟩
  probes := getIndexProbed_eq _ k (Nat.le_refl _)

theorem mapsKey {k : Port} (hk : k ≠ portmapDefaultValue) (calls : List (Port × Port)) :
    MapsKey calls k where
  get := by
    rw [getPort_eq, (recorded_addEntries calls).entry k hk]
    rfl
  frame k' v hne :=
    getPort_addEntry_of_ne (recorded_addEntries calls).sound v hk hne.symm

theorem getPort_unused (calls : List (Port × Port)) :
    getPort (addEntries calls).1 portmapDefaultValue = portmapDefaultValue ∨
      getPort (addEntries calls).1 portmapDefaultValue =
        lastAdded (addEntries calls).2 portmapDefaultValue := by
  have h := recorded_addEntries calls
  rw [getPort_eq]
  unfold ProbeTable.lookup
  cases hindex : (addEntries calls).1.index portmapDefaultValue probeOrder portmapDefaultValue with
  | none => exact .inl rfl
  | some i =>
      dsimp only
      by_cases hkey : (addEntries calls).1.key i = portmapDefaultValue
      · rw [if_pos hkey]
        by_cases hvalue : (addEntries calls).1.value i = portmapDefaultValue
        · exact .inl hvalue
        · right
          rw [lastAdded, (h.unused i hkey hvalue).2, Option.getD_some]
      · rw [if_neg hkey]
        exact .inl rfl

/-- **The port map is a finite map** over the ports other than 0, whatever was added, port 0
included; its table is never left. -/
theorem portMap_finite (calls : List (Port × Port)) :
    (∀ k, KeepsTable calls k) ∧ (∀ k, k ≠ portmapDefaultValue → MapsKey calls k) ∧
      (getPort (addEntries calls).1 portmapDefaultValue = portmapDefaultValue ∨
        getPort (addEntries calls).1 portmapDefaultValue =
          lastAdded (addEntries calls).2 portmapDefaultValue) :=
  ⟨keepsTable calls, fun _ hk => mapsKey hk calls, getPort_unused calls⟩

/-- **What was added for port 0 is lost** when a key whose search starts at the same slot is added.
-/
theorem portMap_loses_zero :
    addEntryResult initializePortmap 0 = 0 ∧ getPort (addEntries [(0, 80)]).1 0 = 80 ∧
      ¬ MapsKey [(0, 80)] 0 ∧ ¬ MapsKey [(0, 80), (4096, 81)] 0 := by
  refine ⟨by decide, by decide, ?_, ?_⟩
  · intro h
    exact absurd (h.frame 4096 81 (by decide)) (by decide)
  · intro h
    exact absurd h.get (by decide)

end Improot.Extension
