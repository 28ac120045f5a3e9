import Mathlib.Tactic.NormNum
import Improot.Extension.MetaDisk
import Improot.Path.Straight

/-!
# Permissions on directories

The permission check of the emulated ownership against the one of POSIX.  The check of POSIX looks at
the bits of the recorded mode; `get_permissions` takes the mode apart in base ten.
-/

namespace Improot.Extension

open Improot.Path

/-! ## The digits of a mode -/

theorem dtoo_toNat {mode : Mode} (h : mode.toNat < 8 ^ 9) :
    (dtoo mode).toNat = Nat.ofDigits 10 (Nat.digits 8 mode.toNat) := by
  have := dtooLoop_toNat 9 0 11 mode 1 0 rfl (by omega) h rfl (by decide)
  simpa [dtoo] using this

variable {n : Nat} {d : Disk} {names root : List Component} {c : Caller}

theorem ofDigits_digits_lt {k : Nat} (h : n < 8 ^ k) :
    Nat.ofDigits 10 (Nat.digits 8 n) < 10 ^ k := by
  have hdigits : ∀ x ∈ Nat.digits 8 n, x < 10 := fun x hx =>
    Nat.lt_trans (Nat.digits_lt_base (by omega) hx) (by omega)
  have hlength : (Nat.digits 8 n).length ≤ k := (Nat.digits_length_le_iff (by omega) n).mpr h
  calc Nat.ofDigits 10 (Nat.digits 8 n) < 10 ^ (Nat.digits 8 n).length :=
        Nat.ofDigits_lt_base_pow_length (by omega) hdigits
    _ ≤ 10 ^ k := Nat.pow_le_pow_right (by omega) hlength

theorem ofDigits_digits_div (n : Nat) :
    Nat.ofDigits 10 (Nat.digits 8 n) / 10 = Nat.ofDigits 10 (Nat.digits 8 (n / 8)) := by
  by_cases hn : n = 0
  · subst hn
    rfl
  · rw [digits_step 8 (by omega) hn 10]
    omega

theorem ofDigits_digits_mod (n : Nat) : Nat.ofDigits 10 (Nat.digits 8 n) % 10 = n % 8 := by
  by_cases hn : n = 0
  · subst hn
    rfl
  · rw [digits_step 8 (by omega) hn 10]
    omega

/-- A number whose decimal digits are the octal ones of `n`. -/
def Coded (x : CInt) (n : Nat) : Prop :=
  x.toNat = Nat.ofDigits 10 (Nat.digits 8 n) ∧ n < 8 ^ 9

theorem Coded.toNat_lt {x : CInt} (h : Coded x n) : x.toNat < 2 ^ 31 := by
  rw [h.1]
  exact Nat.lt_trans (ofDigits_digits_lt h.2) (by norm_num)

theorem Coded.div {x : CInt} (h : Coded x n) : Coded (x.sdiv 10) (n / 8) := by
  refine ⟨?_, Nat.lt_of_le_of_lt (Nat.div_le_self _ _) h.2⟩
  rw [toNat_sdiv_small h.toNat_lt (by decide), h.1]
  exact ofDigits_digits_div n

theorem Coded.mod {x : CInt} (h : Coded x n) : (x.srem 10).toNat = n % 8 := by
  rw [toNat_srem_small h.toNat_lt (by decide), h.1]
  exact ofDigits_digits_mod n

/-! ## POSIX -/

namespace Posix

def classBits (r : MetaRecord) (uid gid : Id) : CInt :=
  (if uid = r.owner then r.mode >>> 6 else if gid = r.group then r.mode >>> 3 else r.mode) &&& 7

def permissions (r : MetaRecord) (uid gid : Id) : CInt :=
  if uid = 0 then 7 else classBits r uid gid

def search : CInt := 1

def write : CInt := 2

def Grants (r : MetaRecord) (uid gid : Id) (perm : CInt) : Prop :=
  permissions r uid gid &&& perm = perm

instance (r : MetaRecord) (uid gid : Id) (perm : CInt) : Decidable (Grants r uid gid perm) :=
  inferInstanceAs (Decidable (_ = _))

theorem grants_root (r : MetaRecord) (gid : Id) {perm : CInt} (h : perm = search ∨ perm = write) :
    Grants r 0 gid perm := by
  rcases h with rfl | rfl <;> simp [Grants, permissions, search, write]

end Posix

def dirRecord (d : Disk) (c : Caller) (names : List Component) : MetaRecord :=
  readMetaFile d c ⟨(dirPath names).getDirPath, metaTag ++ (dirPath names).getName⟩

/-- The caller has the permission on a directory, with the effective ids. -/
def DirGrants (d : Disk) (c : Caller) (names : List Component) (perm : CInt) : Prop :=
  Posix.Grants (dirRecord d c names) c.euid c.egid perm

instance (d : Disk) (c : Caller) (names : List Component) (perm : CInt) :
    Decidable (DirGrants d c names perm) :=
  inferInstanceAs (Decidable (Posix.Grants ..))

/-- **The check of POSIX**: each directory from the root of the guest to the parent may be searched,
and the parent may be written when a name is made or removed. -/
def PosixAllows (d : Disk) (c : Caller) (type : Access) (root names : List Component) : Prop :=
  (∀ k ≤ names.length, DirGrants d c (root ++ names.take k) Posix.search) ∧
    match type with
    | .r => True
    | .w => DirGrants d c (root ++ names) Posix.write

/-! ## What get_permissions answers -/

namespace Caller

/-- The user of `get_permissions`. -/
def uidOf (c : Caller) (usesReal : Bool) : Id := if usesReal then c.config.uid.r else c.euid

@[simp] theorem uidOf_false (c : Caller) : c.uidOf false = c.euid := rfl

def gidOf (c : Caller) (usesReal : Bool) : Id := if usesReal then c.config.gid.r else c.egid

end Caller

/-- `get_permissions`.  The `else` has no braces: the group is the effective one in any case. -/
def getPermissionsOf (d : Disk) (c : Caller) (m : MetaPath) (usesReal : Bool) : CInt :=
  let r := readMetaFile d c m
  let emulatedUid := c.uidOf usesReal
  let emulatedGid := c.egid
  let omode := dtoo r.mode
  let omode :=
    if emulatedUid = r.owner ∨ emulatedUid = 0 then (omode.sdiv 10).sdiv 10
    else if emulatedGid = r.group then omode.sdiv 10
    else omode
  let omode := omode.srem 10
  if emulatedUid = 0 then omode ||| 6 else omode

theorem getPermissions_eq (d : Disk) (c : Caller) (m : MetaPath) :
    getPermissions d c m = getPermissionsOf d c m false := rfl

/-- The modes on record are numbers that `dtoo` has digits for: beyond nine of them the `int`
overflows. -/
def Decodable (d : Disk) : Prop := ∀ id, (d.text id).record.mode.toNat < 8 ^ 9

theorem readMetaFile_decodable (h : Decodable d) (c : Caller) (m : MetaPath) :
    (readMetaFile d c m).mode.toNat < 8 ^ 9 := by
  unfold readMetaFile
  split
  · split_ifs
    · exact h _
    · show (otod 755).toNat < 8 ^ 9
      decide
  · show (otod 755).toNat < 8 ^ 9
    decide

theorem toNat_and_seven (x : CInt) : (x &&& 7).toNat = x.toNat % 8 := by
  rw [BitVec.toNat_and]
  exact Nat.and_two_pow_sub_one_eq_mod x.toNat 3

/-- The bits that root gets: those of the owner, and read and write. -/
def ownerSearch (r : MetaRecord) : Prop := (r.mode >>> 6) &&& 1 = 1

instance (r : MetaRecord) : Decidable (ownerSearch r) := inferInstanceAs (Decidable (_ = _))

/-- **What `get_permissions` answers**, in bits: the class is the one of the effective group. -/
theorem getPermissionsOf_bits (h : Decodable d) (c : Caller) (m : MetaPath) (usesReal : Bool) :
    getPermissionsOf d c m usesReal =
      if c.uidOf usesReal = 0 then ((readMetaFile d c m).mode >>> 6 &&& 7) ||| 6
      else Posix.classBits (readMetaFile d c m) (c.uidOf usesReal) c.egid := by
  have hcoded : Coded (dtoo (readMetaFile d c m).mode) (readMetaFile d c m).mode.toNat :=
    ⟨dtoo_toNat (readMetaFile_decodable h c m), readMetaFile_decodable h c m⟩
  unfold getPermissionsOf Posix.classBits
  dsimp only
  generalize readMetaFile d c m = r at hcoded ⊢
  have howner : (((dtoo r.mode).sdiv 10).sdiv 10).srem 10 = r.mode >>> 6 &&& 7 := by
    apply BitVec.eq_of_toNat_eq
    rw [hcoded.div.div.mod, toNat_and_seven, BitVec.toNat_ushiftRight, Nat.shiftRight_eq_div_pow]
    omega
  have hgroup : ((dtoo r.mode).sdiv 10).srem 10 = r.mode >>> 3 &&& 7 := by
    apply BitVec.eq_of_toNat_eq
    rw [hcoded.div.mod, toNat_and_seven, BitVec.toNat_ushiftRight, Nat.shiftRight_eq_div_pow]
  have hother : (dtoo r.mode).srem 10 = r.mode &&& 7 := by
    apply BitVec.eq_of_toNat_eq
    rw [hcoded.mod, toNat_and_seven]
  by_cases hroot : c.uidOf usesReal = 0
  · rw [if_pos (Or.inr hroot), if_pos hroot, if_pos hroot, howner]
  · rw [if_neg hroot, if_neg hroot]
    by_cases huser : c.uidOf usesReal = r.owner
    · rw [if_pos (Or.inl huser), if_pos huser, howner]
    · rw [if_neg (not_or.mpr ⟨huser, hroot⟩), if_neg huser]
      by_cases hegid : c.egid = r.group
      · rw [if_pos hegid, if_pos hegid, hgroup]
      · rw [if_neg hegid, if_neg hegid, hother]

theorem three_bits {p : CInt → Prop} (h : ∀ n < 8, p (BitVec.ofNat 32 n)) (x : CInt) :
    p (x &&& 7) := by
  have hx : x &&& 7 = BitVec.ofNat 32 (x.toNat % 8) := by
    apply BitVec.eq_of_toNat_eq
    rw [toNat_and_seven, BitVec.toNat_ofNat]
    omega
  rw [hx]
  exact h _ (Nat.mod_lt _ (by omega))

theorem and_seven_and_one (x : CInt) : (x &&& 7) &&& 1 = x &&& 1 := by
  rw [BitVec.and_assoc]
  rfl

theorem or_six_and_one (x : CInt) : ((x &&& 7) ||| 6) &&& 1 = x &&& 1 := by
  rw [← and_seven_and_one x]
  exact three_bits (p := fun y => (y ||| 6) &&& 1 = y &&& 1) (by decide) x

theorem or_six_eq_seven (x : CInt) : (x &&& 7) ||| 6 = 7 ↔ x &&& 1 = 1 := by
  rw [← and_seven_and_one x]
  exact three_bits (p := fun y => y ||| 6 = 7 ↔ y &&& 1 = 1) (by decide) x

theorem or_six_and_two (x : CInt) : ((x &&& 7) ||| 6) &&& 2 = 2 :=
  three_bits (p := fun y => (y ||| 6) &&& 2 = 2) (by decide) x

/-! ## One directory -/

def Fits (names : List Component) : Prop := (pathOf names).length + metaTag.length < pathMax

instance (names : List Component) : Decidable (Fits names) := inferInstanceAs (Decidable (_ < _))

theorem Fits.of_append {more : List Component} (h : Fits (names ++ more)) : Fits names :=
  Nat.lt_of_le_of_lt (Nat.add_le_add_right (pathOf_length_mono names more) _) h

theorem length_dirPath (names : List Component) :
    (if pathOf (dirPath names).getDirPath ≠ ['/'] then pathOf (dirPath names).getDirPath ++ ['/']
      else pathOf (dirPath names).getDirPath).length + (dirPath names).getName.length =
      (pathOf names).length := by
  rcases List.eq_nil_or_concat' names with rfl | ⟨init, n, rfl⟩
  · rfl
  · have hdir : (dirPath (init ++ [n])).getDirPath = init := List.dropLast_concat
    have hname : (dirPath (init ++ [n])).getName = n.chars := by
      show ((init ++ [n]).getLast?.map (·.chars)).getD [] = n.chars
      rw [List.getLast?_concat]
      rfl
    rw [hdir, hname]
    by_cases hinit : init = []
    · subst hinit
      rw [if_neg (by simp [pathOf_eq_root.mpr]), List.nil_append, pathOf_cons]
      simp [pathOf_eq_root.mpr, Nat.add_comm]
    · rw [if_pos (fun h => hinit (pathOf_eq_root.mp h)), pathOf_concat hinit]
      simp only [List.length_append, List.length_cons, List.length_nil]
      omega

theorem getMetaPath_dirPath (names : List Component) :
    getMetaPath (dirPath names) =
      if Fits names then .ok ⟨(dirPath names).getDirPath, metaTag ++ (dirPath names).getName⟩
      else .error .enametoolong := by
  unfold getMetaPath
  dsimp only
  rw [length_dirPath]
  by_cases h : Fits names
  · rw [if_pos h, if_neg (Nat.not_le.mpr h)]
  · rw [if_neg h, if_pos (Nat.not_lt.mp h)]

/-- The permission, as `get_permissions` tells it. -/
def Told (d : Disk) (c : Caller) (names : List Component) (perm : CInt) : Prop :=
  getPermissions d c ⟨(dirPath names).getDirPath, metaTag ++ (dirPath names).getName⟩ &&& perm = perm

theorem checkDir_eq_ok {perm : CInt} :
    checkDir d c names perm = .ok () ↔ Fits names ∧ Told d c names perm := by
  unfold checkDir
  rw [getMetaPath_dirPath]
  by_cases h : Fits names
  · rw [if_pos h]
    dsimp only
    by_cases htold : Told d c names perm
    · rw [if_neg fun hne => hne htold]
      exact iff_of_true rfl ⟨h, htold⟩
    · rw [if_pos (show getPermissions d c _ &&& perm ≠ perm from htold)]
      exact iff_of_false nofun fun h => htold h.2
  · rw [if_neg h]
    exact iff_of_false nofun fun h' => h h'.1

section Told

variable {d : Disk} (hmodes : Decodable d) {c : Caller} {names : List Component}
include hmodes

theorem told_user (huser : c.euid ≠ 0) (perm : CInt) :
    Told d c names perm ↔ DirGrants d c names perm := by
  unfold Told
  rw [getPermissions_eq, getPermissionsOf_bits hmodes, Caller.uidOf_false, if_neg huser]
  show _ ↔ (if c.euid = 0 then 7 else _) &&& perm = perm
  rw [if_neg huser]
  rfl

theorem told_root_search (hroot : c.euid = 0) :
    Told d c names Posix.search ↔ ownerSearch (dirRecord d c names) := by
  unfold Told
  rw [getPermissions_eq, getPermissionsOf_bits hmodes, Caller.uidOf_false, if_pos hroot]
  show _ &&& 1 = 1 ↔ _
  rw [or_six_and_one]
  rfl

theorem told_root_write (hroot : c.euid = 0) : Told d c names Posix.write := by
  unfold Told
  rw [getPermissions_eq, getPermissionsOf_bits hmodes, Caller.uidOf_false, if_pos hroot]
  exact or_six_and_two _

end Told

/-! ## The climb -/

/-- `check_dir_perms` goes up to this directory: the string of the one below is longer than the
second path. -/
def LookedAt (root names : List Component) (rel : CString) (k : Nat) : Prop :=
  k < names.length ∧ rel.length < (pathOf (root ++ names.take (k + 1))).length

instance (root names : List Component) (rel : CString) (k : Nat) :
    Decidable (LookedAt root names rel k) :=
  inferInstanceAs (Decidable (_ ∧ _))

theorem LookedAt.lt {rel : CString} {k : Nat}
    (h : LookedAt root names rel k) : rel.length < (pathOf (root ++ names)).length := by
  have hsplit : root ++ names = root ++ names.take (k + 1) ++ names.drop (k + 1) := by simp
  rw [hsplit]
  exact Nat.lt_of_lt_of_le h.2 (pathOf_length_mono _ _)

theorem lookedAt_concat {n : Component} {rel : CString}
    (h : rel.length < (pathOf (root ++ (names ++ [n]))).length) {k : Nat} :
    LookedAt root (names ++ [n]) rel k ↔ k = names.length ∨ LookedAt root names rel k := by
  have hlength : (names ++ [n]).length = names.length + 1 := by simp
  unfold LookedAt
  constructor
  · intro hk
    by_cases hlast : k = names.length
    · exact .inl hlast
    · have hlt : k < names.length := by omega
      rw [List.take_append_of_le_length hlt] at hk
      exact .inr ⟨hlt, hk.2⟩
  · intro hk
    rcases hk with rfl | ⟨hlt, hk⟩
    · rw [List.take_of_length_le (Nat.le_of_eq hlength)]
      exact ⟨by omega, h⟩
    · rw [List.take_append_of_le_length hlt]
      exact ⟨by omega, hk⟩

section Climb

variable {d : Disk} {c : Caller} {root : List Component} (hroot : getRoot c.bindings = pathOf root)
include hroot

theorem belongs_iff (names : List Component) : c.belongs (dirPath names) ↔ root <+: names := by
  show belongsToGuestfs c.bindings (pathOf names) ↔ _
  unfold belongsToGuestfs
  rw [hroot, decide_eq_true_iff, comparePaths_within (pathOf_ne_nil _) (pathOf_ne_nil _),
    within_pathOf]

/-- The climb succeeds if each directory that it looks at passes the check. -/
theorem climb_eq_ok (rel : CString) (names : List Component) :
    climb d c rel (root ++ names).reverse = .ok () ↔
      ∀ k, LookedAt root names rel k → checkDir d c (root ++ names.take k) 1 = .ok () := by
  induction names using List.reverseRecOn with
  | nil =>
      refine iff_of_true ?_ fun k h => absurd h.1 (Nat.not_lt_zero k)
      rw [List.append_nil]
      rcases List.eq_nil_or_concat' root with rfl | ⟨init, n, rfl⟩
      · rfl
      · have hout : ¬ c.belongs (dirPath init) := by
          rw [belongs_iff hroot]
          intro h
          have := h.length_le
          simp at this
        rw [List.reverse_append, List.reverse_singleton]
        show climb d c rel (n :: init.reverse) = _
        unfold climb
        rw [List.reverse_reverse]
        dsimp only
        split_ifs
        · rfl
        · rfl
  | append_singleton names n ih =>
      have hpath : (n :: (root ++ names).reverse).reverse = root ++ (names ++ [n]) := by simp
      have hin : c.belongs (dirPath (root ++ names)) :=
        (belongs_iff hroot _).mpr (List.prefix_append _ _)
      rw [show (root ++ (names ++ [n])).reverse = n :: (root ++ names).reverse by simp]
      unfold climb
      rw [hpath, List.reverse_reverse]
      dsimp only
      by_cases hrel : rel.length < (pathOf (root ++ (names ++ [n]))).length
      · have hgo : ¬ (pathOf (root ++ (names ++ [n])) = rel ∨
            (pathOf (root ++ (names ++ [n]))).length ≤ rel.length) := by
          rintro (rfl | h)
          · exact Nat.lt_irrefl _ hrel
          · exact Nat.not_le.mpr hrel h
        have htake : ∀ {k}, LookedAt root names rel k →
            (names ++ [n]).take k = names.take k := fun hk =>
          List.take_append_of_le_length (Nat.le_of_lt hk.1)
        have hdir : root ++ (names ++ [n]).take names.length = root ++ names := by simp
        rw [if_neg hgo, if_neg (not_not.mpr hin)]
        simp only [lookedAt_concat hrel, forall_eq_or_imp]
        rw [hdir]
        cases hcheck : checkDir d c (root ++ names) 1 with
        | error e => exact iff_of_false nofun fun h => nomatch h.1
        | ok u =>
            dsimp only
            rw [ih]
            constructor
            · intro h
              refine ⟨rfl, fun k hk => ?_⟩
              rw [htake hk]
              exact h k hk
            · intro h k hk
              rw [← htake hk]
              exact h.2 k hk
      · rw [if_pos (.inr (Nat.not_lt.mp hrel))]
        exact iff_of_true rfl fun k hk => absurd hk.lt hrel

end Climb

/-! ## The whole check -/

def Access.perm : Access → CInt
  | .r => Posix.search
  | .w => Posix.write

theorem checkDirPerms_eq_ok
    (hroot : getRoot c.bindings = pathOf root) (type : Access) (rel : CString) :
    checkDirPerms d c type (root ++ names) rel = .ok () ↔
      Fits (root ++ names) ∧ Told d c (root ++ names) type.perm ∧
        ∀ k, LookedAt root names rel k → Told d c (root ++ names.take k) Posix.search := by
  have hcheck : checkDirPerms d c type (root ++ names) rel =
      (checkDir d c (root ++ names) type.perm).bind
        fun _ => climb d c rel (root ++ names).reverse := by
    cases type with
    | r =>
        show checkDirPerms d c .r (root ++ names) rel = (checkDir d c (root ++ names) 1).bind _
        unfold checkDirPerms
        cases checkDir d c (root ++ names) 1 <;> rfl
    | w =>
        show checkDirPerms d c .w (root ++ names) rel = (checkDir d c (root ++ names) 2).bind _
        unfold checkDirPerms
        cases checkDir d c (root ++ names) 2 <;> rfl
  rw [hcheck]
  have hfirst : checkDir d c (root ++ names) type.perm = .ok () ↔ _ := checkDir_eq_ok
  cases hparent : checkDir d c (root ++ names) type.perm with
  | error e =>
      rw [hparent] at hfirst
      refine iff_of_false ?_ ?_
      · intro h
        cases h
      · intro h
        have hok := hfirst.mpr ⟨h.1, h.2.1⟩
        cases hok
  | ok u =>
      rw [hparent] at hfirst
      obtain ⟨hfits, htold⟩ := hfirst.mp rfl
      rw [Except.bind, climb_eq_ok hroot]
      constructor
      · intro h
        exact ⟨hfits, htold, fun k hk => (checkDir_eq_ok.mp (h k hk)).2⟩
      · intro h k hk
        -- a prefix of a path that fits
        have hsplit : root ++ names = root ++ names.take k ++ names.drop k := by simp
        rw [hsplit] at hfits
        exact checkDir_eq_ok.mpr ⟨hfits.of_append, h.2.2 k hk⟩

/-- **What the check sees of POSIX.**  Root needs the search bit of the owner on what is looked at,
and the side file of the parent must have a path.  For others the check asks for less: a parent that
is to be changed need not be searched, and what is not looked at is not asked. -/
structure SeenAsPosix (d : Disk) (c : Caller) (type : Access) (root names : List Component)
    (rel : CString) : Prop where
  superuser : c.euid = 0 → Fits (root ++ names) ∧
    (type = .r → ownerSearch (dirRecord d c (root ++ names))) ∧
      ∀ k, LookedAt root names rel k → ownerSearch (dirRecord d c (root ++ names.take k))
  long : c.euid ≠ 0 → ¬ Fits (root ++ names) →
    (∃ k ≤ names.length, ¬ DirGrants d c (root ++ names.take k) Posix.search) ∨
      ¬ DirGrants d c (root ++ names) type.perm
  unseen : c.euid ≠ 0 → Fits (root ++ names) → DirGrants d c (root ++ names) type.perm →
    (∀ k, LookedAt root names rel k → DirGrants d c (root ++ names.take k) Posix.search) →
      ∀ k ≤ names.length, ¬ LookedAt root names rel k →
        DirGrants d c (root ++ names.take k) Posix.search

/-- The ids of `get_permissions` select the class: the group is the effective one, even where the
user is the real one; and root needs the search bit of the owner. -/
structure ClassAsPosix (d : Disk) (c : Caller) (m : MetaPath) (usesReal : Bool) : Prop where
  superuser : c.uidOf usesReal = 0 → ownerSearch (readMetaFile d c m)
  group : usesReal → c.uidOf usesReal ≠ 0 → c.uidOf usesReal ≠ (readMetaFile d c m).owner →
    (c.egid = (readMetaFile d c m).group ↔ c.gidOf usesReal = (readMetaFile d c m).group) ∨
      (readMetaFile d c m).mode >>> 3 &&& 7 = (readMetaFile d c m).mode &&& 7

theorem posixAllows_iff {type : Access} :
    PosixAllows d c type root names ↔
      (∀ k ≤ names.length, DirGrants d c (root ++ names.take k) Posix.search) ∧
        DirGrants d c (root ++ names) type.perm := by
  cases type with
  | w => rfl
  | r =>
      refine and_congr_right fun h => iff_of_true trivial ?_
      have := h names.length (Nat.le_refl _)
      rwa [List.take_length] at this

theorem dirGrants_root (h : c.euid = 0) (names : List Component)
    (type : Access) : DirGrants d c names type.perm := by
  unfold DirGrants
  rw [h]
  apply Posix.grants_root
  cases type with
  | r => exact .inl rfl
  | w => exact .inr rfl

theorem checkDirPerms_agrees_iff (hmodes : Decodable d)
    (hroot : getRoot c.bindings = pathOf root) (type : Access) (rel : CString) :
    (checkDirPerms d c type (root ++ names) rel = .ok () ↔ PosixAllows d c type root names) ↔
      SeenAsPosix d c type root names rel := by
  rw [checkDirPerms_eq_ok hroot, posixAllows_iff]
  by_cases huser : c.euid = 0
  · have hposix : (∀ k ≤ names.length, DirGrants d c (root ++ names.take k) Posix.search) ∧
        DirGrants d c (root ++ names) type.perm :=
      ⟨fun k _ => dirGrants_root huser _ .r, dirGrants_root huser _ type⟩
    have hparent : Told d c (root ++ names) type.perm ↔
        (type = .r → ownerSearch (dirRecord d c (root ++ names))) := by
      cases type with
      | r => simp [Access.perm, told_root_search hmodes huser]
      | w => simp [Access.perm, told_root_write hmodes huser]
    rw [iff_true_right hposix, hparent]
    simp only [told_root_search hmodes huser]
    constructor
    · intro h
      exact ⟨fun _ => h, fun hne => absurd huser hne, fun hne => absurd huser hne⟩
    · intro h
      exact h.superuser huser
  · simp only [told_user hmodes huser]
    constructor
    · intro h
      refine ⟨fun h0 => absurd h0 huser, fun _ hlong => ?_, ?_⟩
      · by_contra hnone
        push Not at hnone
        exact hlong (h.mpr hnone).1
      · intro _ hfits hparent hlooked k hk _
        exact (h.mp ⟨hfits, hparent, hlooked⟩).1 k hk
    · intro h
      constructor
      · intro ⟨hfits, hparent, hlooked⟩
        refine ⟨fun k hk => ?_, hparent⟩
        by_cases hsees : LookedAt root names rel k
        · exact hlooked k hsees
        · exact h.unseen huser hfits hparent hlooked k hk hsees
      · intro ⟨hsearch, hparent⟩
        refine ⟨?_, hparent, fun k hk => hsearch k (Nat.le_of_lt hk.1)⟩
        by_contra hlong
        rcases h.long huser hlong with ⟨k, hk, hrefused⟩ | hrefused
        · exact hrefused (hsearch k hk)
        · exact hrefused hparent

theorem getPermissionsOf_agrees_iff (hmodes : Decodable d) (c : Caller) (m : MetaPath)
    (usesReal : Bool) :
    getPermissionsOf d c m usesReal =
        Posix.permissions (readMetaFile d c m) (c.uidOf usesReal) (c.gidOf usesReal) ↔
      ClassAsPosix d c m usesReal := by
  rw [getPermissionsOf_bits hmodes]
  unfold Posix.permissions
  by_cases hroot : c.uidOf usesReal = 0
  · rw [if_pos hroot, if_pos hroot, or_six_eq_seven]
    constructor
    · intro h
      exact ⟨fun _ => h, fun _ hne => absurd hroot hne⟩
    · intro h
      exact h.superuser hroot
  · rw [if_neg hroot, if_neg hroot]
    cases usesReal with
    | false => exact iff_of_true rfl ⟨fun h => absurd h hroot, nofun⟩
    | true =>
        unfold Posix.classBits
        constructor
        · intro h
          refine ⟨fun h => absurd h hroot, fun _ _ howner => ?_⟩
          rw [if_neg howner, if_neg howner] at h
          by_cases hegid : c.egid = (readMetaFile d c m).group
          · by_cases hgid : c.gidOf true = (readMetaFile d c m).group
            · exact .inl (iff_of_true hegid hgid)
            · rw [if_pos hegid, if_neg hgid] at h
              exact .inr h
          · by_cases hgid : c.gidOf true = (readMetaFile d c m).group
            · rw [if_neg hegid, if_pos hgid] at h
              exact .inr h.symm
            · exact .inl (iff_of_false hegid hgid)
        · intro h
          by_cases howner : c.uidOf true = (readMetaFile d c m).owner
          · rw [if_pos howner, if_pos howner]
          · rw [if_neg howner, if_neg howner]
            rcases h.group rfl hroot howner with hsame | hsame
            · simp only [hsame]
            · split_ifs
              · rfl
              · exact hsame
              · exact hsame.symm
              · rfl

/-- **The emulated permission check is the one of POSIX if and only if** what it leaves out does not
decide: on every chain of directories, for every record and every caller, `check_dir_perms` and
`get_permissions` answer as POSIX does exactly under the two conditions. -/
theorem dirPerms_posix_iff {d : Disk} (hmodes : Decodable d) {c : Caller}
    {root names : List Component} (hroot : getRoot c.bindings = pathOf root) (type : Access)
    (rel : CString) (m : MetaPath) (usesReal : Bool) :
    ((checkDirPerms d c type (root ++ names) rel = .ok () ↔ PosixAllows d c type root names) ∧
        getPermissionsOf d c m usesReal =
          Posix.permissions (readMetaFile d c m) (c.uidOf usesReal) (c.gidOf usesReal)) ↔
      SeenAsPosix d c type root names rel ∧ ClassAsPosix d c m usesReal :=
  and_congr (checkDirPerms_agrees_iff hmodes hroot type rel)
    (getPermissionsOf_agrees_iff hmodes c m usesReal)

/-! ## A directory with a record -/

/-- The directory "/a", of the user 1000 and the group 100, with these digits for a mode. -/
def dirDisk (mode : CInt) : Disk where
  entry k := if k = (0, ['a']) then some 1 else if k = (0, metaTag ++ ['a']) then some 2 else none
  kind id := if id ≤ 1 then .directory else .regular
  text _ := ⟨mode, 1000, 100⟩
  next := 3
  bound := by
    intro k id h
    split_ifs at h <;> cases h <;> decide
  fresh := by
    intro k hk
    have hne : ∀ n, k ≠ (0, n) := by
      rintro n rfl
      exact absurd (show 3 ≤ 0 from hk) (by decide)
    rw [if_neg (hne _), if_neg (hne _)]
  blank id hid := if_neg (Nat.not_le.mpr (Nat.lt_of_lt_of_le (by decide : 1 < 3) hid))

def namesA : List Component := namesOf ['/', 'a']

/-- A program of the user 1000 that 1001 has started: its real group is the one of "/a", its
effective group is not. -/
def setuidCaller : Caller where
  config := ⟨⟨1001, 1000, 1000, 1000⟩, ⟨100, 200, 200, 200⟩, false, false⟩
  umask := 0o022
  bindings := ⟨[], [⟨0, ['/'], ['/'], false⟩], [⟨0, ['/'], ['/'], false⟩], 1⟩

theorem dirPerms_posix_open :
    (checkDirPerms (dirDisk 755) setuidCaller .w ([] ++ namesA) ['/'] = .ok () ↔
        PosixAllows (dirDisk 755) setuidCaller .w [] namesA) ∧
      getPermissionsOf (dirDisk 755) setuidCaller ⟨[], metaTag ++ ['a']⟩ true =
        Posix.permissions (readMetaFile (dirDisk 755) setuidCaller ⟨[], metaTag ++ ['a']⟩)
          1001 100 := by
  have hmodes : Decodable (dirDisk 755) := by
    intro id
    have htext : (dirDisk 755).text id = ⟨755, 1000, 100⟩ := rfl
    rw [htext]
    decide
  refine (dirPerms_posix_iff hmodes rfl .w ['/'] ⟨[], metaTag ++ ['a']⟩ true).mpr
    ⟨⟨fun h => absurd h (by decide), fun _ hlong => absurd hlong (by decide), ?_⟩,
      ⟨fun h => absurd h (by decide), fun _ _ _ => .inr (by decide +kernel)⟩⟩
  intro _ _ _ _
  decide +kernel

/-- A name may be made in a directory that may be written but not searched, and a caller whose real
group has the permission is told the one of the others. -/
theorem dirPerms_not_posix :
    checkDirPerms (dirDisk 240) setuidCaller .w ([] ++ namesA) ['/'] = .ok () ∧
      ¬ PosixAllows (dirDisk 240) setuidCaller .w [] namesA ∧
        getPermissionsOf (dirDisk 240) setuidCaller ⟨[], metaTag ++ ['a']⟩ true ≠
          Posix.permissions (readMetaFile (dirDisk 240) setuidCaller ⟨[], metaTag ++ ['a']⟩)
            1001 100 := by
  refine ⟨by decide +kernel, fun h => ?_, by decide +kernel⟩
  exact absurd (h.1 1 (by decide)) (by decide +kernel)

end Improot.Extension
