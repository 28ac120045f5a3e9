import Mathlib.Data.Nat.Digits.Lemmas
import Mathlib.Tactic.Ring
import Improot.Extension.MetaFile
import Improot.Lib.Ledger

/-!
# Side files on the disk

The numbers of a side file are read back as they were written.  What the operations on a disk change
is said per name: the file of the name, and what is recorded beside it.
-/

namespace Improot.Extension

open Improot.Path

/-! ## The numbers -/

theorem toNat_sdiv_small {n m : CInt} (hn : n.toNat < 2 ^ 31) (hm : m.toNat < 2 ^ 31) :
    (n.sdiv m).toNat = n.toNat / m.toNat := by
  have hn' : n.msb = false := BitVec.msb_eq_false_iff_two_mul_lt.mpr (by omega)
  have hm' : m.msb = false := BitVec.msb_eq_false_iff_two_mul_lt.mpr (by omega)
  rw [BitVec.sdiv_eq, hn', hm', BitVec.udiv_eq, BitVec.toNat_udiv]

theorem toNat_srem_small {n m : CInt} (hn : n.toNat < 2 ^ 31) (hm : m.toNat < 2 ^ 31) :
    (n.srem m).toNat = n.toNat % m.toNat := by
  have hn' : n.msb = false := BitVec.msb_eq_false_iff_two_mul_lt.mpr (by omega)
  have hm' : m.msb = false := BitVec.msb_eq_false_iff_two_mul_lt.mpr (by omega)
  rw [BitVec.srem_eq, hn', hm', BitVec.toNat_umod]

theorem digits_step (b : Nat) (hb : 1 < b) {n : Nat} (hn : n ≠ 0) (base : Nat) :
    Nat.ofDigits base (Nat.digits b n) = n % b + base * Nat.ofDigits base (Nat.digits b (n / b)) := by
  rw [Nat.digits_def' hb (Nat.pos_of_ne_zero hn), Nat.ofDigits_cons]

theorem dtooLoop_toNat (j : Nat) : ∀ (k fuel : Nat) (n i octal : CInt), k + j = 9 → j ≤ fuel →
    n.toNat < 8 ^ j → i.toNat = 10 ^ k → octal.toNat < 10 ^ k →
    (dtooLoop fuel n i octal).toNat =
      octal.toNat + 10 ^ k * Nat.ofDigits 10 (Nat.digits 8 n.toNat) := by
  induction j with
  | zero =>
    intro k fuel n i octal hk hfuel hn hi hoctal
    obtain rfl : n = 0 := BitVec.eq_of_toNat_eq (by simpa using hn)
    cases fuel <;> simp [dtooLoop]
  | succ j ih =>
    intro k fuel n i octal hk hfuel hn hi hoctal
    obtain ⟨fuel, rfl⟩ : ∃ f, fuel = f + 1 := ⟨fuel - 1, by omega⟩
    by_cases hzero : n = 0
    · subst hzero
      simp [dtooLoop]
    have hn31 : n.toNat < 2 ^ 31 := by
      have : 8 ^ (j + 1) ≤ 8 ^ 9 := Nat.pow_le_pow_right (by omega) (by omega)
      omega
    have hpow : 10 ^ k ≤ 10 ^ 8 := Nat.pow_le_pow_right (by omega) (by omega)
    have hdiv := toNat_sdiv_small (m := 8) hn31 (by decide)
    have hrem := toNat_srem_small (m := 8) hn31 (by decide)
    have h8 : (8 : CInt).toNat = 8 := rfl
    rw [h8] at hdiv hrem
    have hlt : n.toNat % 8 < 8 := Nat.mod_lt _ (by omega)
    have hprod : n.toNat % 8 * 10 ^ k ≤ 7 * 10 ^ k := Nat.mul_le_mul_right _ (by omega)
    have hi' : (i * 10).toNat = 10 ^ (k + 1) := by
      rw [BitVec.toNat_mul, hi, pow_succ]
      apply Nat.mod_eq_of_lt
      show 10 ^ k * 10 < _
      omega
    have hoctal' : (octal + n.srem 8 * i).toNat = octal.toNat + n.toNat % 8 * 10 ^ k := by
      rw [BitVec.toNat_add, BitVec.toNat_mul, hrem, hi,
        Nat.mod_eq_of_lt (a := n.toNat % 8 * 10 ^ k) (by omega), Nat.mod_eq_of_lt (by omega)]
    have hne : n.toNat ≠ 0 := by
      intro h
      exact hzero (BitVec.eq_of_toNat_eq h)
    unfold dtooLoop
    rw [if_neg hzero, ih (k + 1) fuel _ _ _ (by omega) (by omega) (by rw [hdiv]; omega) hi'
      (by rw [hoctal', pow_succ]; omega), hoctal', hdiv, digits_step 8 (by omega) hne 10, pow_succ]
    ring

theorem otodLoop_toNat (j : Nat) : ∀ (k fuel : Nat) (n decimal : CInt), k + j = 9 → j ≤ fuel →
    n.toNat < 10 ^ j → (∀ x ∈ Nat.digits 10 n.toNat, x < 8) → decimal.toNat < 8 ^ k →
    (otodLoop fuel n k decimal).toNat =
      decimal.toNat + 8 ^ k * Nat.ofDigits 8 (Nat.digits 10 n.toNat) := by
  induction j with
  | zero =>
    intro k fuel n decimal hk hfuel hn hdigits hdecimal
    obtain rfl : n = 0 := BitVec.eq_of_toNat_eq (by simpa using hn)
    cases fuel <;> simp [otodLoop]
  | succ j ih =>
    intro k fuel n decimal hk hfuel hn hdigits hdecimal
    obtain ⟨fuel, rfl⟩ : ∃ f, fuel = f + 1 := ⟨fuel - 1, by omega⟩
    by_cases hzero : n = 0
    · subst hzero
      simp [otodLoop]
    have hn31 : n.toNat < 2 ^ 31 := by
      have : 10 ^ (j + 1) ≤ 10 ^ 9 := Nat.pow_le_pow_right (by omega) (by omega)
      omega
    have hpow : 8 ^ k ≤ 8 ^ 8 := Nat.pow_le_pow_right (by omega) (by omega)
    have hdiv := toNat_sdiv_small (m := 10) hn31 (by decide)
    have hrem := toNat_srem_small (m := 10) hn31 (by decide)
    have h10 : (10 : CInt).toNat = 10 := rfl
    rw [h10] at hdiv hrem
    have hne : n.toNat ≠ 0 := by
      intro h
      exact hzero (BitVec.eq_of_toNat_eq h)
    rw [Nat.digits_def' (by omega) (Nat.pos_of_ne_zero hne)] at hdigits
    obtain ⟨hlt, hrest⟩ := List.forall_mem_cons.mp hdigits
    have hprod : n.toNat % 10 * 8 ^ k ≤ 7 * 8 ^ k := Nat.mul_le_mul_right _ (by omega)
    have hweight : ((8 : CInt) ^ k).toNat = 8 ^ k := by
      have : ∀ k < 9, ((8 : CInt) ^ k).toNat = 8 ^ k := by decide
      exact this k (by omega)
    have hdecimal' : (decimal + n.srem 10 * 8 ^ k).toNat =
        decimal.toNat + n.toNat % 10 * 8 ^ k := by
      rw [BitVec.toNat_add, BitVec.toNat_mul, hrem, hweight,
        Nat.mod_eq_of_lt (a := n.toNat % 10 * 8 ^ k) (by omega), Nat.mod_eq_of_lt (by omega)]
    unfold otodLoop
    rw [if_neg hzero, ih (k + 1) fuel _ _ (by omega) (by omega) (by rw [hdiv]; omega)
      (by rw [hdiv]; exact hrest) (by rw [hdecimal', pow_succ]; omega), hdecimal', hdiv,
      digits_step 10 (by omega) hne 8, pow_succ]
    ring

/-- **A mode is read back as it was written**, as long as its octal digits make an `int`. -/
theorem otod_dtoo {mode : Mode} (h : mode.toNat < 8 ^ 9) : otod (dtoo mode) = mode := by
  have hdtoo : (dtoo mode).toNat = Nat.ofDigits 10 (Nat.digits 8 mode.toNat) := by
    have := dtooLoop_toNat 9 0 11 mode 1 0 rfl (by omega) h rfl (by decide)
    simpa [dtoo] using this
  have hdigits : ∀ x ∈ Nat.digits 8 mode.toNat, x < 8 := fun x hx =>
    Nat.digits_lt_base (by omega) hx
  have hback : Nat.digits 10 (dtoo mode).toNat = Nat.digits 8 mode.toNat := by
    rw [hdtoo]
    apply Nat.digits_ofDigits 10 (by omega)
    · intro x hx
      have := hdigits x hx
      omega
    · intro hne
      exact Nat.getLast_digit_ne_zero 8 (by rintro hzero; simp [hzero] at hne)
  have hlt : (dtoo mode).toNat < 10 ^ 9 := by
    apply (Nat.digits_length_le_iff (by omega) _).mp
    rw [hback]
    exact (Nat.digits_length_le_iff (by omega) _).mpr h
  apply BitVec.eq_of_toNat_eq
  have := otodLoop_toNat 9 0 10 (dtoo mode) 0 rfl (by omega) hlt (by rw [hback]; exact hdigits)
    (by decide)
  rw [hback, Nat.ofDigits_digits] at this
  simpa [otod] using this

/-! ## Names -/

def sideEntry (k : Entry) : Entry := (k.1, metaTag ++ k.2)

variable {k : Entry} {d d' : Disk} {id : FileId} {m : MetaPath}

theorem sideEntry_injective {k' : Entry} (h : sideEntry k = sideEntry k') : k = k' := by
  obtain ⟨d, n⟩ := k
  obtain ⟨d', n'⟩ := k'
  simpa [sideEntry] using h

def GuestName (s : CString) : Prop := (∃ n : Component, n.chars = s) ∧ ¬ metaTag <+: s

theorem isSome_of?_iff (s : CString) : (Component.of? s).isSome ↔ ∃ n : Component, n.chars = s := by
  constructor
  · intro h
    unfold Component.of? at h
    split_ifs at h with hs
    · exact ⟨⟨s, hs.1, hs.2.1, hs.2.2⟩, rfl⟩
    · cases h
  · rintro ⟨n, rfl⟩
    rw [Component.of?_chars]
    rfl

instance (s : CString) : Decidable (GuestName s) :=
  decidable_of_iff ((Component.of? s).isSome ∧ ¬ metaTag <+: s) (and_congr_left' (isSome_of?_iff s))

def GuestEntry (k : Entry) : Prop := GuestName k.2

instance (k : Entry) : Decidable (GuestEntry k) := inferInstanceAs (Decidable (GuestName k.2))

theorem GuestEntry.ne_sideEntry (h : GuestEntry k) (k' : Entry) : k ≠ sideEntry k' := by
  rintro rfl
  exact h.2 (List.prefix_append _ _)

namespace Disk

def side (d : Disk) (k : Entry) : Option MetaRecord :=
  (d.entry (sideEntry k)).map fun id => (d.text id).record

/-- Side files are regular files, each with one name. -/
structure Flat (d : Disk) : Prop where
  regular : ∀ k id, metaTag <+: k.2 → d.entry k = some id → d.kind id = .regular
  alone : ∀ k k' id, metaTag <+: k.2 → d.entry k = some id → d.entry k' = some id → k = k'

/-! ## Paths to directories -/

structure SameDirs (d d' : Disk) : Prop where
  kind : ∀ id, d'.kind id = .directory ↔ d.kind id = .directory
  entry : ∀ k id, d.kind id = .directory → (d'.entry k = some id ↔ d.entry k = some id)

theorem SameDirs.refl (d : Disk) : SameDirs d d := ⟨fun _ => Iff.rfl, fun _ _ _ => Iff.rfl⟩

theorem SameDirs.trans {d d' d'' : Disk} (h : SameDirs d d') (h' : SameDirs d' d'') :
    SameDirs d d'' where
  kind id := (h'.kind id).trans (h.kind id)
  entry k id hid := (h'.entry k id ((h.kind id).mpr hid)).trans (h.entry k id hid)

theorem SameDirs.symm (h : SameDirs d d') : SameDirs d' d where
  kind id := (h.kind id).symm
  entry k id hid := (h.entry k id ((h.kind id).mp hid)).symm

theorem SameDirs.walk (h : SameDirs d d') {target : FileId}
    (htarget : d.kind target = .directory) (names : List Component) :
    ∀ id, d.walk id names = some target → d'.walk id names = some target := by
  induction names with
  | nil =>
    intro id hwalk
    exact hwalk
  | cons n names ih =>
    intro id hwalk
    simp only [Disk.walk, Option.ite_none_right_eq_some, Option.bind_eq_some_iff] at hwalk
    obtain ⟨hdir, next, hnext, hwalk⟩ := hwalk
    have hkind : d.kind next = .directory := by
      cases names with
      | nil =>
        cases hwalk
        exact htarget
      | cons m names =>
        simp only [Disk.walk, Option.ite_none_right_eq_some] at hwalk
        exact hwalk.1
    simp only [Disk.walk, Option.ite_none_right_eq_some, Option.bind_eq_some_iff]
    exact ⟨(h.kind id).mpr hdir, next, (h.entry _ next hkind).mpr hnext, ih next hwalk⟩

theorem dirAt_eq_some {names : List Component} :
    d.dirAt names = some id ↔ d.walk root names = some id ∧ d.kind id = .directory := by
  simp [dirAt, Option.filter_eq_some_iff]

theorem SameDirs.dirAt (h : SameDirs d d') (names : List Component) :
    d'.dirAt names = d.dirAt names := by
  apply Option.ext
  intro id
  simp only [dirAt_eq_some]
  constructor
  · intro hid
    have hkind := (h.kind id).mp hid.2
    exact ⟨h.symm.walk hid.2 names _ hid.1, hkind⟩
  · intro hid
    exact ⟨h.walk hid.2 names _ hid.1, (h.kind id).mpr hid.2⟩

theorem SameDirs.path (h : SameDirs d d') (p : HostPath) : p.entry d' = p.entry d := by
  simp only [HostPath.entry, h.dirAt]

theorem SameDirs.metaPath (h : SameDirs d d') (m : MetaPath) :
    m.entry d' = m.entry d := by
  simp only [MetaPath.entry, h.dirAt]

/-! ## What the operations change -/

variable {text : MetaText}

theorem create_spec {kind : FileKind} (h : d.create k kind text = some d') :
    (d.entry k = none ∧ d.kind k.1 = .directory) ∧
      d'.entry = Function.update d.entry k (some d.next) ∧
      d'.kind = Function.update d.kind d.next kind ∧
      d'.text = Function.update d.text d.next text ∧ d'.next = d.next + 1 := by
  unfold create at h
  split_ifs at h with hfree
  cases h
  exact ⟨hfree, rfl, rfl, rfl, rfl⟩

theorem create_isSome (kind : FileKind) (text : MetaText)
    (hfree : d.entry k = none) (hdir : d.kind k.1 = .directory) :
    ∃ d', d.create k kind text = some d' := by
  unfold create
  rw [dif_pos ⟨hfree, hdir⟩]
  exact ⟨_, rfl⟩

theorem rename_spec {k' : Entry} (h : d.rename k k' = some d') :
    ∃ id, d.entry k = some id ∧
      (d.entry k' = some id ∧ d' = d ∨
        (d.entry k' ≠ some id ∧ d.kind k'.1 = .directory) ∧
          d'.entry = Function.update (Function.update d.entry k' (some id)) k none ∧
          d'.kind = d.kind ∧ d'.text = d.text ∧ d'.next = d.next) := by
  unfold rename at h
  split at h
  · cases h
  · rename_i id hid
    refine ⟨id, hid, ?_⟩
    split_ifs at h with hsame hdir
    · cases h
      exact .inl ⟨hsame, rfl⟩
    · cases h
      exact .inr ⟨⟨hsame, hdir⟩, rfl, rfl, rfl, rfl⟩

theorem rename_isSome {k' : Entry} (hid : d.entry k = some id)
    (hne : d.entry k' ≠ some id) (hdir : d.kind k'.1 = .directory) :
    ∃ d', d.rename k k' = some d' := by
  unfold rename
  split
  · rename_i hnone
    rw [hid] at hnone
    cases hnone
  · rename_i i hi
    rw [hid] at hi
    cases hi
    rw [if_neg hne, dif_pos hdir]
    exact ⟨_, rfl⟩

theorem ne_next (h : d.entry k = some id) : id ≠ d.next :=
  Nat.ne_of_lt (d.bound k id h)

theorem side_create {kind : FileKind} (h : d.create k kind text = some d') (j : Entry) :
    d'.side j = if sideEntry j = k then some text.record else d.side j := by
  obtain ⟨-, hentry, -, htext, -⟩ := create_spec h
  unfold side
  rw [hentry, htext]
  by_cases hj : sideEntry j = k
  · rw [if_pos hj, hj, Function.update_self, Option.map_some, Function.update_self]
  · rw [Function.update_of_ne hj, if_neg hj]
    cases hid : d.entry (sideEntry j) with
    | none => rw [Option.map_none, Option.map_none]
    | some id => rw [Option.map_some, Option.map_some, Function.update_of_ne (ne_next hid)]

theorem side_remove (d : Disk) (k j : Entry) :
    (d.remove k).side j = if sideEntry j = k then none else d.side j := by
  show ((Function.update d.entry k none) (sideEntry j)).map _ = _
  by_cases hj : sideEntry j = k
  · subst hj
    simp
  · rw [Function.update_of_ne hj, if_neg hj]
    rfl

/-- **One side file changes**: the one of the entry `k`, that records `v` afterwards. -/
structure SideStep (d d' : Disk) (k : Entry) (v : Option MetaRecord) : Prop where
  name : ∀ j, j ≠ k → d'.entry j = d.entry j
  old : ∀ id, d'.entry k = some id → d.entry k = some id ∨ d.next ≤ id
  side : ∀ j, d'.side j = if sideEntry j = k then v else d.side j
  flat : d'.Flat
  dirs : SameDirs d d'
  next : d.next ≤ d'.next

theorem sideStep_remove (hflat : d.Flat) (htag : metaTag <+: k.2) :
    SideStep d (d.remove k) k none where
  name j hj := Function.update_of_ne hj _ _
  old id hid := by
    simp [remove] at hid
  side := side_remove d k
  flat :=
    { regular := by
        intro j id hj hid
        by_cases hjk : j = k
        · subst hjk
          simp [remove] at hid
        · rw [show (d.remove k).entry j = d.entry j from Function.update_of_ne hjk _ _] at hid
          exact hflat.regular j id hj hid
      alone := by
        intro j j' id hj hid hid'
        have hsub : ∀ i, (d.remove k).entry i = some id → d.entry i = some id := by
          intro i hi
          by_cases hik : i = k
          · subst hik
            simp [remove] at hi
          · rwa [show (d.remove k).entry i = d.entry i from Function.update_of_ne hik _ _] at hi
        exact hflat.alone j j' id hj (hsub j hid) (hsub j' hid') }
  dirs :=
    { kind := fun _ => Iff.rfl
      entry := by
        intro j id hid
        by_cases hjk : j = k
        · subst hjk
          -- a side file is no directory
          have hne : d.entry j ≠ some id := by
            intro h
            rw [hflat.regular j id htag h] at hid
            cases hid
          simp [remove, hne]
        · rw [show (d.remove k).entry j = d.entry j from Function.update_of_ne hjk _ _] }
  next := le_refl _

theorem sideStep_create (hflat : d.Flat)
    (htag : metaTag <+: k.2) (h : d.create k .regular text = some d') :
    SideStep d d' k (some text.record) where
  name j hj := by
    rw [(create_spec h).2.1, Function.update_of_ne hj]
  old id hid := by
    rw [(create_spec h).2.1, Function.update_self, Option.some.injEq] at hid
    exact .inr (le_of_eq hid)
  side := side_create h
  flat := by
    obtain ⟨-, hentry, hkind, -, -⟩ := create_spec h
    constructor
    · intro j id hj hid
      rw [hentry] at hid
      rw [hkind]
      by_cases hjk : j = k
      · subst hjk
        rw [Function.update_self, Option.some.injEq] at hid
        subst hid
        exact Function.update_self _ _ _
      · rw [Function.update_of_ne hjk] at hid
        rw [Function.update_of_ne (ne_next hid)]
        exact hflat.regular j id hj hid
    · intro j j' id hj hid hid'
      rw [hentry] at hid hid'
      by_cases hjk : j = k
      · by_cases hjk' : j' = k
        · rw [hjk, hjk']
        · subst hjk
          rw [Function.update_self, Option.some.injEq] at hid
          rw [Function.update_of_ne hjk'] at hid'
          exact absurd hid.symm (ne_next hid')
      · rw [Function.update_of_ne hjk] at hid
        by_cases hjk' : j' = k
        · subst hjk'
          rw [Function.update_self, Option.some.injEq] at hid'
          exact absurd hid'.symm (ne_next hid)
        · rw [Function.update_of_ne hjk'] at hid'
          exact hflat.alone j j' id hj hid hid'
  dirs := by
    obtain ⟨⟨hfree, -⟩, hentry, hkind, -, -⟩ := create_spec h
    constructor
    · intro id
      rw [hkind]
      by_cases hid : id = d.next
      · subst hid
        simp [d.blank d.next (le_refl _)]
      · rw [Function.update_of_ne hid]
    · intro j id hid
      rw [hentry]
      by_cases hjk : j = k
      · subst hjk
        have hne : d.next ≠ id := (Nat.ne_of_lt (d.lt_of_directory hid)).symm
        simp [hfree, hne]
      · rw [Function.update_of_ne hjk]
  next := by
    rw [(create_spec h).2.2.2.2]
    exact Nat.le_succ _

theorem sideStep_rewrite (hflat : d.Flat) (htag : metaTag <+: k.2) (h : d.entry k = some id) :
    SideStep d (d.rewrite id text) k (some text.record) where
  name _ _ := rfl
  old _ hid := .inl hid
  side j := by
    show (d.entry (sideEntry j)).map (fun i => (Function.update d.text id text i).record) = _
    by_cases hj : sideEntry j = k
    · subst hj
      simp [h]
    · rw [if_neg hj]
      cases hi : d.entry (sideEntry j) with
      | none => simp [side, hi]
      | some i =>
        have hne : i ≠ id := by
          rintro rfl
          exact hj (hflat.alone k _ i htag h hi).symm
        simp [side, hi, Function.update_of_ne hne]
  flat := ⟨hflat.regular, hflat.alone⟩
  dirs := ⟨fun _ => Iff.rfl, fun _ _ _ => Iff.rfl⟩
  next := le_refl _

end Disk

/-! ## The side files of the handlers -/

def MetaPath.Tagged (m : MetaPath) : Prop := metaTag <+: m.name

theorem getMetaPath_eq_ok {p : HostPath} (h : getMetaPath p = .ok m) :
    m = ⟨p.getDirPath, metaTag ++ p.getName⟩ := by
  unfold getMetaPath at h
  simp only at h
  split_ifs at h <;> exact (Except.ok.inj h).symm

theorem getMetaPath_tagged {p : HostPath} (h : getMetaPath p = .ok m) :
    m.Tagged := by
  rw [getMetaPath_eq_ok h]
  exact List.prefix_append _ _

theorem MetaPath.entry_tagged (h : m.Tagged) (hk : m.entry d = some k) : metaTag <+: k.2 := by
  simp only [MetaPath.entry, Option.map_eq_some_iff] at hk
  obtain ⟨id, -, rfl⟩ := hk
  exact h

theorem MetaPath.exists?_iff (hflat : d.Flat) (h : m.Tagged) :
    m.exists? d = true ↔ ∃ k id, m.entry d = some k ∧ d.entry k = some id := by
  unfold MetaPath.exists? MetaPath.file
  constructor
  · intro hex
    simp only [Option.any_eq_true, Option.bind_eq_some_iff] at hex
    obtain ⟨id, ⟨k, hk, hid⟩, -⟩ := hex
    exact ⟨k, id, hk, hid⟩
  · rintro ⟨k, id, hk, hid⟩
    have := hflat.regular k id (MetaPath.entry_tagged h hk) hid
    simp [hk, hid, this]

theorem readMetaFile_eq (hflat : d.Flat) (h : m.Tagged)
    (hk : m.entry d = some k) (hid : d.entry k = some id) (c : Caller) :
    readMetaFile d c m = (d.text id).record := by
  have hkind := hflat.regular k id (MetaPath.entry_tagged h hk) hid
  simp [readMetaFile, MetaPath.file, hk, hid, hkind]

theorem MetaPath.unlink_sideStep (hflat : d.Flat) (h : m.Tagged)
    (hk : m.entry d = some k) (hid : d.entry k = some id) :
    Disk.SideStep d (m.unlink d) k none := by
  have htag := MetaPath.entry_tagged h hk
  have hkind := hflat.regular k id htag hid
  have hunlink : m.unlink d = d.remove k := by
    simp [MetaPath.unlink, MetaPath.file, hk, hid, hkind]
  rw [hunlink]
  exact Disk.sideStep_remove hflat htag

theorem writeMetaFile_sideStep (hflat : d.Flat) (h : m.Tagged)
    {r : MetaRecord} {writable : Bool} (hw : writeMetaFile d m r writable = .ok d') :
    ∃ k, m.entry d = some k ∧ Disk.SideStep d d' k (some r.text.record) := by
  unfold writeMetaFile at hw
  split_ifs at hw
  split at hw
  · rename_i id hfile
    split_ifs at hw with hkind
    obtain ⟨k, hk, hid⟩ := Option.bind_eq_some_iff.mp hfile
    cases hw
    exact ⟨k, hk, Disk.sideStep_rewrite hflat (MetaPath.entry_tagged h hk) hid⟩
  · split at hw
    · rename_i d₁ hcreate
      cases hw
      obtain ⟨k, hk, hcreate⟩ := Option.bind_eq_some_iff.mp hcreate
      exact ⟨k, hk, Disk.sideStep_create hflat (MetaPath.entry_tagged h hk) hcreate⟩
    · cases hw

theorem writeMetaFile_isOk (hflat : d.Flat) (h : m.Tagged)
    (r : MetaRecord) (hk : m.entry d = some k) :
    ∃ d', writeMetaFile d m r true = .ok d' := by
  unfold writeMetaFile
  rw [if_neg (by simp)]
  cases hfile : m.file d with
  | some id =>
    have hid : d.entry k = some id := by
      simpa [MetaPath.file, hk] using hfile
    have hkind := hflat.regular k id (MetaPath.entry_tagged h hk) hid
    exact ⟨_, if_pos hkind⟩
  | none =>
    have hfree : d.entry k = none := by
      simpa [MetaPath.file, hk] using hfile
    have hdir : d.kind k.1 = .directory := by
      simp only [MetaPath.entry, Option.map_eq_some_iff] at hk
      obtain ⟨id, hid, rfl⟩ := hk
      exact (Disk.dirAt_eq_some.mp hid).2
    obtain ⟨d', hd'⟩ := Disk.create_isSome .regular r.text hfree hdir
    simp only [hk, Option.bind_some, hd']
    exact ⟨d', rfl⟩

end Improot.Extension
