import Improot.Lib.DirectMapped
import Improot.Lib.Records
import Mathlib.Data.List.TakeWhile

/-!
# The shared path cache

`jit/shm.c`, and the reader of `jit/jit_lib.c`: a cache of translated paths in memory that the
tracer shares with the library loaded in the tracees.  Both paths of an entry are cut to the size of
their array, which the cache takes for the paths themselves.
-/

namespace Improot.Jit

open Lib (Bytes CacheOp)

/-! ## C strings in arrays -/

abbrev CStr := { s : Bytes // (0 : UInt8) ∉ s }

theorem notMem_untilNul (chars : Bytes) : (0 : UInt8) ∉ chars.takeWhile (· ≠ 0) := by
  intro hmem
  simpa using List.mem_takeWhile_imp hmem

def untilNul (chars : Bytes) : CStr := ⟨chars.takeWhile (· ≠ 0), notMem_untilNul chars⟩

def strncpy (n : Nat) (src : CStr) : Bytes := src.1.take n ++ List.replicate (n - src.1.length) 0

def strcmp (s1 s2 : Bytes) : Int :=
  if untilNul s1 = untilNul s2 then 0
  else if (untilNul s1).1 < (untilNul s2).1 then -1 else 1

/-- `my_strcmp`; what follows an array is not read, it ends with a NUL. -/
def myStrcmp : Bytes → Bytes → Int
  | c1 :: s1, c2 :: s2 =>
    if c1 ≠ 0 ∧ c1 = c2 then myStrcmp s1 s2 else (c1.toNat : Int) - c2.toNat
  | c1 :: _, [] => c1.toNat
  | [], c2 :: _ => - (c2.toNat : Int)
  | [], [] => 0

/-! ## The shared memory -/

abbrev jitShmEntries : Nat := 1024

def jitShmPathMax : Nat := 256

structure JitShmEntry where
  active : UInt32
  hash : UInt32
  guestPath : Bytes
  hostPath : Bytes

structure JitShmHeader where
  seqlock : UInt32
  entries : Fin jitShmEntries → JitShmEntry

def hashStr (str : CStr) : UInt32 :=
  str.1.foldl (fun hash c => (hash ^^^ c.toUInt32) * 16777619) 2166136261

def jitShmInit : JitShmHeader where
  seqlock := 0
  entries := fun _ =>
    { active := 0, hash := 0, guestPath := List.replicate jitShmPathMax 0,
      hostPath := List.replicate jitShmPathMax 0 }

/-- `hash % JIT_SHM_ENTRIES`. -/
def indexOf (hash : UInt32) : Fin jitShmEntries :=
  ⟨hash.toNat % jitShmEntries, Nat.mod_lt _ (by decide)⟩

/-- `hash & (JIT_SHM_ENTRIES - 1)`. -/
def localIndexOf (hash : UInt32) : Fin jitShmEntries :=
  ⟨hash.toNat &&& (jitShmEntries - 1), Nat.and_lt_two_pow (n := 10) _ (by decide)⟩

def pathField (path : CStr) : Bytes := strncpy (jitShmPathMax - 1) path ++ [0]

/-- `jit_shm_insert`: overwrite whatever is there. -/
def jitShmInsert (hdr : JitShmHeader) (guestPath hostPath : CStr) : JitShmHeader :=
  let hash := hashStr guestPath
  let v := hdr.seqlock
  { seqlock := v + 2
    entries := Function.update hdr.entries (indexOf hash)
      { active := 1, hash, guestPath := pathField guestPath, hostPath := pathField hostPath } }

def jitShmClear (hdr : JitShmHeader) : JitShmHeader :=
  let v := hdr.seqlock
  { seqlock := v + 2, entries := fun i => { hdr.entries i with active := 0 } }

/-- The loop of the readers, with the number of times they may still look: an odd sequence number
is a writer at work.  No call runs during another one, so the number doesn't change meanwhile. -/
def readEntry (hdr : JitShmHeader) (idx : Fin jitShmEntries) : Nat → Option JitShmEntry
  | 0 => none
  | n + 1 => if hdr.seqlock &&& 1 ≠ 0 then readEntry hdr idx n else some (hdr.entries idx)

def lookupWith (index : UInt32 → Fin jitShmEntries) (compare : Bytes → Bytes → Int)
    (hdr : JitShmHeader) (guestPath : CStr) : Option CStr :=
  let hash := hashStr guestPath
  match readEntry hdr (index hash) 12 with
  | none => none
  | some entry =>
    if entry.active ≠ 0 ∧ entry.hash = hash ∧ compare entry.guestPath (guestPath.1 ++ [0]) = 0 then
      some (untilNul entry.hostPath)
    else none

def jitShmLookup : JitShmHeader → CStr → Option CStr := lookupWith indexOf strcmp

/-- `local_jit_shm_lookup`, in the library. -/
def localJitShmLookup : JitShmHeader → CStr → Option CStr := lookupWith localIndexOf myStrcmp

def shmStep (hdr : JitShmHeader) : CacheOp CStr CStr → JitShmHeader
  | .insert guestPath hostPath => jitShmInsert hdr guestPath hostPath
  | .clear => jitShmClear hdr

def shmAfter (ops : List (CacheOp CStr CStr)) : JitShmHeader := ops.foldl shmStep jitShmInit

/-! ## The two readers -/

theorem untilNul_terminated (path : CStr) (more : Bytes) : untilNul (path.1 ++ 0 :: more) = path := by
  apply Subtype.ext
  show (path.1 ++ 0 :: more).takeWhile (· ≠ 0) = path.1
  rw [List.takeWhile_append_of_pos]
  · simp
  · intro c hc
    have hne : c ≠ 0 := by
      rintro rfl
      exact path.2 hc
    simpa using hne

theorem strcmp_eq_zero {s1 s2 : Bytes} : strcmp s1 s2 = 0 ↔ untilNul s1 = untilNul s2 := by
  unfold strcmp
  split_ifs with heq hlt
  · simp [heq]
  · simp [heq]
  · simp [heq]

theorem untilNul_cons (c : UInt8) (s : Bytes) :
    (untilNul (c :: s)).1 = if c = 0 then [] else c :: (untilNul s).1 := by
  by_cases hc : c = 0
  · simp [untilNul, hc]
  · simp [untilNul, hc]

theorem myStrcmp_eq_zero {s1 s2 : Bytes} : myStrcmp s1 s2 = 0 ↔ untilNul s1 = untilNul s2 := by
  rw [Subtype.ext_iff]
  induction s1 generalizing s2 with
  | nil =>
      cases s2 with
      | nil => simp [myStrcmp]
      | cons c2 s2 =>
          rw [untilNul_cons]
          by_cases hc : c2 = 0
          · simp [myStrcmp, hc, untilNul]
          · have hnat : c2.toNat ≠ 0 := by simpa [← UInt8.toNat_inj] using hc
            simp [myStrcmp, hc, hnat, untilNul]
  | cons c1 s1 ih =>
      cases s2 with
      | nil =>
          rw [untilNul_cons]
          by_cases hc : c1 = 0
          · simp [myStrcmp, hc, untilNul]
          · have hnat : c1.toNat ≠ 0 := by simpa [← UInt8.toNat_inj] using hc
            simp [myStrcmp, hc, hnat, untilNul]
      | cons c2 s2 =>
          rw [untilNul_cons, untilNul_cons, myStrcmp]
          by_cases hsame : c1 = c2
          · subst hsame
            by_cases hc : c1 = 0
            · simp [hc]
            · simp [hc, ih]
          · have hnat : (c1.toNat : Int) - c2.toNat ≠ 0 := by
              intro hzero
              have : c1.toNat = c2.toNat := by omega
              exact hsame (UInt8.toNat_inj.mp this)
            rw [if_neg (fun h => hsame h.2)]
            refine iff_of_false hnat ?_
            by_cases hc1 : c1 = 0
            · have hc2 : c2 ≠ 0 := fun h => hsame (hc1.trans h.symm)
              simp [hc1, hc2]
            · by_cases hc2 : c2 = 0
              · simp [hc1, hc2]
              · simp [hc1, hc2, hsame]

theorem localIndexOf_eq (hash : UInt32) : localIndexOf hash = indexOf hash := by
  apply Fin.ext
  exact Nat.and_two_pow_sub_one_eq_mod hash.toNat 10

theorem localJitShmLookup_eq (hdr : JitShmHeader) (guestPath : CStr) :
    localJitShmLookup hdr guestPath = jitShmLookup hdr guestPath := by
  simp only [localJitShmLookup, jitShmLookup, lookupWith, localIndexOf_eq, myStrcmp_eq_zero,
    strcmp_eq_zero]

/-! ## What an entry answers -/

def cut (path : CStr) : CStr :=
  ⟨path.1.take (jitShmPathMax - 1), fun h => path.2 (List.mem_of_mem_take h)⟩

theorem untilNul_pathField (path : CStr) : untilNul (pathField path) = cut path := by
  have hsame : pathField path =
      (cut path).1 ++ (List.replicate (jitShmPathMax - 1 - path.1.length) 0 ++ [0]) := by
    simp [pathField, strncpy, cut]
  rw [hsame]
  cases hpad : jitShmPathMax - 1 - path.1.length with
  | zero => exact untilNul_terminated (cut path) []
  | succ n =>
      rw [List.replicate_succ, List.cons_append]
      exact untilNul_terminated (cut path) _

theorem cut_of_short {path : CStr} (h : path.1.length < jitShmPathMax) : cut path = path :=
  Subtype.ext (List.take_of_length_le (by omega))

theorem cut_ne_of_long {path : CStr} (h : jitShmPathMax ≤ path.1.length) : cut path ≠ path := by
  intro heq
  have hlen := congrArg (fun s : CStr => s.1.length) heq
  simp only [cut, List.length_take, jitShmPathMax] at hlen h
  omega

def slotOf (path : CStr) : Fin jitShmEntries := indexOf (hashStr path)

/-- The paths of an entry that answers: its hash is the one of the path that it holds. -/
def JitShmEntry.answer (entry : JitShmEntry) : Option (CStr × CStr) :=
  if entry.active ≠ 0 ∧ entry.hash = hashStr (untilNul entry.guestPath) then
    some (untilNul entry.guestPath, untilNul entry.hostPath)
  else none

/-- What an insertion leaves to answer: the paths cut to their arrays, when the hash of the whole
guest path is the one of what is left of it. -/
def kept (guestPath hostPath : CStr) : Option (CStr × CStr) :=
  if hashStr guestPath = hashStr (cut guestPath) then some (cut guestPath, cut hostPath) else none

theorem slotOf_kept (guestPath hostPath guestPath' hostPath' : CStr)
    (h : kept guestPath hostPath = some (guestPath', hostPath')) :
    slotOf guestPath' = slotOf guestPath := by
  unfold kept at h
  split at h
  · rename_i hhash
    cases h
    rw [slotOf, slotOf, hhash]
  · cases h

def Quiet (hdr : JitShmHeader) : Prop := hdr.seqlock &&& 1 = 0

theorem quiet_add_two {v : UInt32} (h : v &&& 1 = 0) : (v + 2) &&& 1 = 0 := by
  have hmod : ∀ w : UInt32, w &&& 1 = 0 ↔ w.toNat % 2 = 0 := by
    intro w
    rw [← UInt32.toNat_inj, UInt32.toNat_and]
    show w.toNat &&& (2 ^ 1 - 1) = 0 ↔ _
    rw [Nat.and_two_pow_sub_one_eq_mod]
  rw [hmod] at h ⊢
  rw [UInt32.toNat_add]
  show (v.toNat + 2) % 2 ^ 32 % 2 = 0
  omega

theorem quiet_shmStep {hdr : JitShmHeader} (h : Quiet hdr) (op : CacheOp CStr CStr) :
    Quiet (shmStep hdr op) := by
  cases op with
  | insert | clear => exact quiet_add_two h

theorem jitShmLookup_eq {hdr : JitShmHeader} (h : Quiet hdr) (guestPath : CStr) :
    jitShmLookup hdr guestPath =
      CacheOp.find slotOf (fun i => (hdr.entries i).answer) guestPath := by
  have hread : readEntry hdr (indexOf (hashStr guestPath)) 12 =
      some (hdr.entries (slotOf guestPath)) := by
    have hnot : ¬ (hdr.seqlock &&& 1 ≠ 0) := not_not_intro h
    rw [readEntry, if_neg hnot]
    rfl
  have hfound : jitShmLookup hdr guestPath =
      if (hdr.entries (slotOf guestPath)).active ≠ 0 ∧
          (hdr.entries (slotOf guestPath)).hash = hashStr guestPath ∧
          untilNul (hdr.entries (slotOf guestPath)).guestPath = guestPath then
        some (untilNul (hdr.entries (slotOf guestPath)).hostPath)
      else none := by
    simp only [jitShmLookup, lookupWith, hread, strcmp_eq_zero, untilNul_terminated guestPath []]
  rw [hfound, CacheOp.find]
  generalize hdr.entries (slotOf guestPath) = entry
  unfold JitShmEntry.answer
  by_cases hpath : untilNul entry.guestPath = guestPath
  · subst hpath
    by_cases hentry : entry.active ≠ 0 ∧ entry.hash = hashStr (untilNul entry.guestPath)
    · rw [if_pos ⟨hentry.1, hentry.2, rfl⟩, if_pos hentry]
      simp
    · rw [if_neg fun hall => hentry ⟨hall.1, hall.2.1⟩, if_neg hentry]
  · rw [if_neg fun hall => hpath hall.2.2]
    by_cases hentry : entry.active ≠ 0 ∧ entry.hash = hashStr (untilNul entry.guestPath)
    · rw [if_pos hentry]
      simp [hpath]
    · rw [if_neg hentry]

/-- **The memory is a direct-mapped cache** that keeps the paths cut to their arrays. -/
theorem answer_shmStep (hdr : JitShmHeader) (op : CacheOp CStr CStr) :
    (fun i => ((shmStep hdr op).entries i).answer) =
      CacheOp.store slotOf kept (fun i => (hdr.entries i).answer) op := by
  funext i
  cases op with
  | clear => rfl
  | insert guestPath hostPath =>
      simp only [shmStep, jitShmInsert, CacheOp.store]
      by_cases hi : i = slotOf guestPath
      · subst hi
        rw [Function.update_self]
        show (Function.update hdr.entries (slotOf guestPath) _ (slotOf guestPath)).answer = _
        rw [Function.update_self]
        simp [JitShmEntry.answer, kept, untilNul_pathField]
      · rw [Function.update_of_ne hi]
        show (Function.update hdr.entries (slotOf guestPath) _ i).answer = _
        rw [Function.update_of_ne hi]

theorem shmAfter_spec (ops : List (CacheOp CStr CStr)) :
    Quiet (shmAfter ops) ∧
      (fun i => ((shmAfter ops).entries i).answer) = CacheOp.stored slotOf kept ops := by
  induction ops using List.reverseRecOn with
  | nil => exact ⟨rfl, rfl⟩
  | append_singleton ops op ih =>
      have hstep : shmAfter (ops ++ [op]) = shmStep (shmAfter ops) op := by
        rw [shmAfter, List.foldl_append]
        rfl
      rw [hstep, CacheOp.stored_concat, answer_shmStep, ih.2]
      exact ⟨quiet_shmStep ih.1 op, rfl⟩

/-! ## No invented path -/

/-- After `ops`, both readers give the same answer, which is nothing or what was inserted last. -/
def NeverInvents (ops : List (CacheOp CStr CStr)) : Prop :=
  ∀ guestPath, localJitShmLookup (shmAfter ops) guestPath = jitShmLookup (shmAfter ops) guestPath ∧
    ∀ hostPath, jitShmLookup (shmAfter ops) guestPath = some hostPath →
      CacheOp.last ops guestPath = some hostPath

/-- An insertion after `before` that the arrays can't falsify: with a guest path that fits its array
the host path fits too, and a longer guest path either changes its hash when it is cut, or what is
left of both paths is what was inserted last for it anyway. -/
def Faithful (before : List (CacheOp CStr CStr)) (guestPath hostPath : CStr) : Prop :=
  (guestPath.1.length < jitShmPathMax → hostPath.1.length < jitShmPathMax) ∧
    (jitShmPathMax ≤ guestPath.1.length → hashStr guestPath = hashStr (cut guestPath) →
      CacheOp.last before (cut guestPath) = some (cut hostPath))

theorem neverInvents_iff (ops : List (CacheOp CStr CStr)) :
    NeverInvents ops ↔
      CacheOp.Truthful slotOf (CacheOp.stored slotOf kept ops) (CacheOp.last ops) := by
  obtain ⟨hquiet, hanswers⟩ := shmAfter_spec ops
  unfold NeverInvents CacheOp.Truthful
  simp only [localJitShmLookup_eq, jitShmLookup_eq hquiet, hanswers, true_and]

theorem faithful_iff (before : List (CacheOp CStr CStr)) (guestPath hostPath : CStr) :
    (∀ entry ∈ kept guestPath hostPath,
        CacheOp.last (before ++ [.insert guestPath hostPath]) entry.1 = some entry.2) ↔
      Faithful before guestPath hostPath := by
  have hkept : (∀ entry ∈ kept guestPath hostPath,
        CacheOp.last (before ++ [.insert guestPath hostPath]) entry.1 = some entry.2) ↔
      (hashStr guestPath = hashStr (cut guestPath) →
        Function.update (CacheOp.last before) guestPath (some hostPath) (cut guestPath) =
          some (cut hostPath)) := by
    rw [CacheOp.last_concat, kept]
    by_cases hhash : hashStr guestPath = hashStr (cut guestPath)
    · simp [hhash, CacheOp.record]
    · simp [hhash]
  rw [hkept, Faithful]
  rcases Nat.lt_or_ge guestPath.1.length jitShmPathMax with hshort | hlong
  · rw [cut_of_short hshort, Function.update_self]
    constructor
    · intro h
      refine ⟨fun _ => ?_, fun hlong => absurd hshort (Nat.not_lt.mpr hlong)⟩
      by_contra hhost
      exact cut_ne_of_long (Nat.le_of_not_lt hhost) (Option.some.inj (h rfl)).symm
    · intro h _
      rw [cut_of_short (h.1 hshort)]
  · rw [Function.update_of_ne (cut_ne_of_long hlong)]
    constructor
    · intro h
      exact ⟨fun hshort => absurd hshort (Nat.not_lt.mpr hlong), fun _ => h⟩
    · intro h
      exact h.2 hlong

/-- **The cache never invents a path** in a run if and only if every insertion of the run is
faithful. -/
theorem neverInvents_run_iff (ops : List (CacheOp CStr CStr)) :
    (∀ before, before <+: ops → NeverInvents before) ↔
      ∀ before guestPath hostPath, before ++ [.insert guestPath hostPath] <+: ops →
        Faithful before guestPath hostPath := by
  simp only [neverInvents_iff, ← faithful_iff]
  exact CacheOp.truthful_stored_iff slotOf_kept ops

theorem jitShmLookup_insert (before : List (CacheOp CStr CStr)) {guestPath : CStr}
    (hostPath : CStr) (hshort : guestPath.1.length < jitShmPathMax) :
    jitShmLookup (shmAfter (before ++ [.insert guestPath hostPath])) guestPath =
      some (cut hostPath) := by
  obtain ⟨hquiet, hanswers⟩ := shmAfter_spec (before ++ [.insert guestPath hostPath])
  rw [jitShmLookup_eq hquiet, hanswers, CacheOp.stored_concat, CacheOp.find_eq_some]
  simp [CacheOp.store, kept, cut_of_short hshort]

/-- "/a", and a host path of 300 bytes. -/
theorem shm_invents_path :
    let guestPath : CStr := ⟨[47, 97], by decide⟩
    let hostPath : CStr :=
      ⟨List.replicate 300 98, fun h => absurd (List.eq_of_mem_replicate h) (by decide)⟩
    jitShmLookup (shmAfter [.insert guestPath hostPath]) guestPath =
        some (untilNul (List.replicate 255 98)) ∧
      ¬ NeverInvents [.insert guestPath hostPath] := by
  intro guestPath hostPath
  have hfound := jitShmLookup_insert [] hostPath (show guestPath.1.length < jitShmPathMax by decide)
  have hcut : cut hostPath = untilNul (List.replicate 255 98) := by
    apply Subtype.ext
    show (List.replicate 300 (98 : UInt8)).take 255 =
      (List.replicate 255 (98 : UInt8)).takeWhile (· ≠ 0)
    rw [List.take_replicate, List.takeWhile_replicate]
    rfl
  refine ⟨hfound.trans (congrArg some hcut), ?_⟩
  intro h
  have hlast := (h guestPath).2 _ hfound
  have hsame : hostPath = cut hostPath := Option.some.inj hlast
  refine cut_ne_of_long ?_ hsame.symm
  show jitShmPathMax ≤ (List.replicate 300 98).length
  rw [List.length_replicate]
  decide

end Improot.Jit
