import Improot.Extension.Groups
import Mathlib.Tactic.NormNum

/-!
# Groups that were set are got back

The configuration against the list as it is to be kept: every answer and every recorded list is the
same along a run, if and only if each step of the run meets a condition.
-/

namespace Improot.Extension

open Lib

variable {abi : GroupsAbi} {m : Memory}

/-! ## Elements -/

@[simp] theorem GroupsAbi.length_encode (abi : GroupsAbi) (g : Id) :
    (abi.encode g).length = abi.size := le_length _ _

/-- **An element gives its group back**, unless it has 16 bits only and the group needs more. -/
theorem GroupsAbi.decode_encode_iff (abi : GroupsAbi) (g : Id) :
    abi.decode (abi.encode g) = g ↔ (abi.is16bit → g.toNat < 0xffff ∨ g = -1) := by
  have hg := g.isLt
  unfold GroupsAbi.decode GroupsAbi.encode GroupsAbi.size
  rw [ofLe_le]
  cases h16 : abi.is16bit with
  | false =>
      refine iff_of_true ?_ nofun
      apply BitVec.eq_of_toNat_eq
      rw [if_neg Bool.false_ne_true, if_neg Bool.false_ne_true, BitVec.toNat_ofNat,
        show 256 ^ 4 = 2 ^ 32 by norm_num, Nat.mod_mod, Nat.mod_eq_of_lt hg]
  | true =>
      rw [if_pos rfl, if_pos rfl, forall_prop_of_true rfl]
      dsimp only
      have hlow : (BitVec.ofNat 16 (g.toNat % 256 ^ 2)).toNat = g.toNat % 65536 := by
        rw [BitVec.toNat_ofNat]
        norm_num
      have hunset : (-1 : BitVec 32).toNat = 0xffffffff := by decide
      have hlast : BitVec.ofNat 16 (g.toNat % 256 ^ 2) = -1 ↔ g.toNat % 65536 = 0xffff := by
        rw [← BitVec.toNat_inj, hlow]
        rfl
      have hall : g = -1 ↔ g.toNat = 0xffffffff := by
        rw [← BitVec.toNat_inj, hunset]
      by_cases hcond : g.toNat % 65536 = 0xffff
      · rw [if_pos (hlast.mpr hcond), eq_comm, hall]
        omega
      · rw [if_neg (fun h => hcond (hlast.mp h)), ← BitVec.toNat_inj, BitVec.toNat_setWidth, hlow,
          hall, Nat.mod_eq_of_lt (show g.toNat % 65536 < 2 ^ 32 by omega)]
        omega

/-! ## Reading a list -/

variable {listAddr : Nat}

theorem readGroups_take {stale : Nat → Id} {n i : Nat} {groups gs : List Id}
    (h : guestGroups abi m (listAddr + i * abi.size) n = some gs) (hfits : i + n ≤ groups.length) :
    (readGroups abi m listAddr stale n i groups).take (i + n) = groups.take i ++ gs := by
  induction n generalizing i groups gs with
  | zero =>
      obtain rfl : [] = gs := Option.some.inj h
      rw [readGroups, Nat.add_zero, List.append_nil]
  | succ n ih =>
      rw [guestGroups, Option.bind_eq_some_iff] at h
      obtain ⟨bs, hbs, hmap⟩ := h
      obtain ⟨rest, hrest, rfl⟩ := Option.map_eq_some_iff.mp hmap
      rw [show listAddr + i * abi.size + abi.size = listAddr + (i + 1) * abi.size by
        rw [Nat.succ_mul, Nat.add_assoc]] at hrest
      rw [readGroups, hbs]
      have hfits' : i + 1 + n ≤ (groups.set i (abi.decode bs)).length := by
        rw [List.length_set]
        omega
      have hset := ih hrest hfits'
      rw [show i + (n + 1) = i + 1 + n by omega, hset, List.take_add_one, List.take_set_of_le
        (Nat.le_refl i), List.getElem?_set_self (by omega)]
      simp

/-! ## Writing a list -/

theorem writeGroups_load_before {address x n : Nat} (gs : List Id) (h : x + n ≤ address) :
    (writeGroups abi m address gs).1.load x n = m.load x n := by
  induction gs generalizing m address with
  | nil => rfl
  | cons g gs ih =>
      have hstored : (m.store address (abi.encode g)).1.load x n = m.load x n :=
        Memory.load_store_outside (.inl h)
      rw [writeGroups]
      split
      case h_1 m' hstore =>
        rw [hstore] at hstored
        exact hstored
      case h_2 m' hstore =>
        rw [hstore] at hstored
        rw [ih (by omega)]
        exact hstored

theorem guestGroups_writeGroups {address : Nat} {gs : List Id}
    (h : (writeGroups abi m address gs).2 = true) :
    guestGroups abi (writeGroups abi m address gs).1 address gs.length =
      some (gs.map fun g => abi.decode (abi.encode g)) := by
  induction gs generalizing m address with
  | nil => rfl
  | cons g gs ih =>
      rw [writeGroups] at h ⊢
      cases hstore : m.store address (abi.encode g) with
      | mk m' ok =>
          rw [hstore] at h
          cases ok with
          | false => cases h
          | true =>
              dsimp only at h ⊢
              have hload : (writeGroups abi m' (address + abi.size) gs).1.load address abi.size =
                  some (abi.encode g) := by
                rw [writeGroups_load_before gs (Nat.le_refl _)]
                have hback : (m.store address (abi.encode g)).1.load address (abi.encode g).length =
                    some (abi.encode g) := Memory.load_store (by rw [hstore])
                rwa [hstore, abi.length_encode] at hback
              rw [List.length_cons, guestGroups, hload, Option.bind_some, ih h]
              rfl

/-! ## What a call asks -/

structure KeepsList (config : GroupsConfig) (list : GroupList) : Prop where
  egid : config.egid = list.egid
  capsActive : config.capsActive = list.capsActive
  groups : config.recorded = list.groups

theorem GroupsConfig.length_recorded (config : GroupsConfig) :
    config.recorded.length = config.ngroups := by
  have hle := config.ngroups_le
  have hlen := config.length_groups
  rw [recorded, List.length_take]
  omega

theorem KeepsList.length {config : GroupsConfig} {list : GroupList} (h : KeepsList config list) :
    list.groups.length = config.ngroups := by
  rw [← h.groups, config.length_recorded]

def GroupsConfig.Meets (config : GroupsConfig) : GroupsCall → Prop
  -- where nothing refuses the list, it can be read
  | .setgroups abi size listAddr m _ =>
    (config.egid = 0 ∨ config.capsActive) → 0 ≤ size → size ≤ 64 →
      (guestGroups abi m listAddr size.toNat).isSome
  -- it isn't root without groups that asks; and what is copied out as 16-bit groups fits these
  | .getgroups abi size listAddr m =>
    ¬ (config.ngroups = 0 ∧ config.egid = 0) ∧
      (size ≠ 0 → config.ngroups ≤ size → (writeGroups abi m listAddr config.recorded).2 →
        abi.is16bit → ∀ g ∈ config.recorded, g.toNat < 0xffff ∨ g = -1)
  | .credentials _ _ => True

theorem map_decode_encode_iff (abi : GroupsAbi) (gs : List Id) :
    gs.map (fun g => abi.decode (abi.encode g)) = gs ↔
      (abi.is16bit → ∀ g ∈ gs, g.toNat < 0xffff ∨ g = -1) := by
  constructor
  · intro h h16 g hg
    have hsame : gs.map (fun g => abi.decode (abi.encode g)) = gs.map id := by rw [h, List.map_id]
    exact (abi.decode_encode_iff g).mp (List.map_inj_left.mp hsame g hg) h16
  · intro h
    rw [← List.map_id gs, List.map_map]
    apply List.map_congr_left
    intro g hg
    exact (abi.decode_encode_iff g).mpr fun h16 => h h16 g hg

theorem GroupsConfig.recorded_record (config : GroupsConfig) {size : Nat} (hsize : size ≤ maxGroups)
    {stale : Nat → Id} {gs : List Id} (h : guestGroups abi m listAddr size = some gs) :
    (config.record abi size hsize listAddr m stale).recorded = gs := by
  have htake : (readGroups abi m listAddr stale size 0 config.groups).take (0 + size) =
      config.groups.take 0 ++ gs :=
    readGroups_take (by rwa [Nat.zero_mul, Nat.add_zero]) (by rw [config.length_groups]; omega)
  rw [Nat.zero_add] at htake
  exact htake

variable {config : GroupsConfig} {list : GroupList}

/-! ## What the kernel's list keeps -/

theorem GroupList.setgroups_failed {list' : GroupList} {size : Int} {e : Errno}
    (h : list.setgroups abi size listAddr m = (list', .error e)) : list' = list := by
  unfold GroupList.setgroups at h
  split_ifs at h
  · cases h
    rfl
  · cases h
    rfl
  · split at h <;> cases h
    rfl

/-- **What was set comes back**, with its length and whatever the ids. -/
theorem GroupList.getgroups_setgroups {list' : GroupList} {abi' : GroupsAbi} {m' : Memory}
    {size size' : Int} {listAddr' : Nat}
    (hset : list.setgroups abi size listAddr m = (list', .ok 0))
    (hroom : size' ≠ 0 ∧ list'.groups.length ≤ size')
    (hwrite : (writeGroups abi' m' listAddr' list'.groups).2 = true) :
    guestGroups abi m listAddr size.toNat = some list'.groups ∧
      list'.getgroups abi' size' listAddr' m' =
        (.ok list'.groups.length, some list'.groups) := by
  constructor
  · unfold GroupList.setgroups at hset
    split_ifs at hset
    · cases hset
    · cases hset
    · split at hset <;> cases hset
      assumption
  · rw [GroupList.getgroups, if_neg hroom.1, if_neg (not_lt_of_ge hroom.2), if_pos hwrite]

theorem GroupList.getgroups_einval_iff {size : Int} :
    (list.getgroups abi size listAddr m).1 = .error .einval ↔
      size ≠ 0 ∧ size < list.groups.length := by
  unfold GroupList.getgroups
  split_ifs <;> simp_all

/-! ## One call -/

theorem fakeGroups_setgroups (size : Int) (listAddr : Nat) (stale : Nat → Id) :
    (fakeGroups.step config (.setgroups abi size listAddr m stale)).2 =
      ⟨(config.setgroups abi size listAddr m stale).2, none,
        (config.setgroups abi size listAddr m stale).1.recorded⟩ := rfl

theorem groupList_setgroups (size : Int) (listAddr : Nat) (stale : Nat → Id) :
    (groupList.step list (.setgroups abi size listAddr m stale)).2 =
      ⟨(list.setgroups abi size listAddr m).2, none,
        (list.setgroups abi size listAddr m).1.groups⟩ := rfl

theorem KeepsList.setgroups (h : KeepsList config list) (size : Int) (listAddr : Nat)
    (stale : Nat → Id) :
    (fakeGroups.step config (.setgroups abi size listAddr m stale)).2 =
        (groupList.step list (.setgroups abi size listAddr m stale)).2 ↔
      config.Meets (.setgroups abi size listAddr m stale) := by
  rw [fakeGroups_setgroups, groupList_setgroups]
  unfold GroupsConfig.setgroups GroupList.setgroups GroupsConfig.Meets
  rw [← h.egid, ← h.capsActive]
  by_cases hperm : config.egid ≠ 0 ∧ ¬ config.capsActive
  · rw [if_pos hperm, if_pos hperm, ← h.groups]
    refine iff_of_true rfl fun hprivileged => ?_
    rcases hprivileged with hroot | hcaps
    · exact absurd hroot hperm.1
    · exact absurd hcaps hperm.2
  have hprivileged : config.egid = 0 ∨ config.capsActive := by
    rcases not_and_or.mp hperm with hroot | hcaps
    · exact .inl (not_not.mp hroot)
    · exact .inr (not_not.mp hcaps)
  by_cases hsize : size < 0 ∨ size > 64
  · rw [if_neg hperm, if_neg hperm, dif_pos hsize, if_pos hsize, ← h.groups]
    refine iff_of_true rfl fun _ hnonneg hle => ?_
    omega
  · rw [if_neg hperm, if_neg hperm, dif_neg hsize, if_neg hsize]
    cases hread : guestGroups abi m listAddr size.toNat with
    | none =>
        refine iff_of_false (fun heq => ?_) fun hmeets => ?_
        · cases congrArg GroupsSeen.result heq
        · have hsome := hmeets hprivileged (by omega) (by omega)
          rw [hread] at hsome
          cases hsome
    | some gs =>
        refine iff_of_true ?_ fun _ _ _ => by rw [hread]; rfl
        dsimp only
        rw [config.recorded_record _ hread]

theorem GroupsConfig.withRootGroup_of_not (h : ¬ (config.ngroups = 0 ∧ config.egid = 0)) :
    config.withRootGroup = config := if_neg h

theorem GroupsConfig.recorded_withRootGroup (h : config.ngroups = 0 ∧ config.egid = 0) :
    config.withRootGroup.recorded.length = 1 := by
  rw [length_recorded, withRootGroup, if_pos h]

theorem getgroups_config (size : Int) (listAddr : Nat) :
    (config.getgroups abi size listAddr m).1 = config.withRootGroup := by
  unfold GroupsConfig.getgroups
  dsimp only
  split_ifs
  · rfl
  · rfl
  · split <;> rfl

theorem fakeGroups_getgroups (size : Int) (listAddr : Nat) :
    (fakeGroups.step config (.getgroups abi size listAddr m)).2 =
      ⟨(config.getgroups abi size listAddr m).2.2,
        match (config.getgroups abi size listAddr m).2.2 with
        | .ok count =>
          if size = 0 then none
          else guestGroups abi (config.getgroups abi size listAddr m).2.1 listAddr count
        | .error _ => none,
        (config.getgroups abi size listAddr m).1.recorded⟩ := rfl

theorem groupList_getgroups (size : Int) (listAddr : Nat) :
    (groupList.step list (.getgroups abi size listAddr m)).2 =
      ⟨(list.getgroups abi size listAddr m).1, (list.getgroups abi size listAddr m).2,
        list.groups⟩ := rfl

theorem KeepsList.getgroups (h : KeepsList config list) (size : Int) (listAddr : Nat) :
    (fakeGroups.step config (.getgroups abi size listAddr m)).2 =
        (groupList.step list (.getgroups abi size listAddr m)).2 ↔
      config.Meets (.getgroups abi size listAddr m) := by
  rw [fakeGroups_getgroups, groupList_getgroups]
  unfold GroupsConfig.Meets
  by_cases hroot : config.ngroups = 0 ∧ config.egid = 0
  · -- a list of one group is recorded where there is none
    refine iff_of_false (fun heq => ?_) fun hmeets => hmeets.1 hroot
    have hrecorded : config.withRootGroup.recorded = list.groups := by
      rw [← getgroups_config size listAddr]
      exact congrArg GroupsSeen.recorded heq
    have hone := config.recorded_withRootGroup hroot
    rw [hrecorded, h.length, hroot.1] at hone
    cases hone
  · unfold GroupsConfig.getgroups GroupList.getgroups
    dsimp only
    rw [config.withRootGroup_of_not hroot, h.length, ← h.groups]
    by_cases hzero : size = 0
    · simpa [hzero] using hroot
    by_cases hsmall : size < config.ngroups
    · have hnot : ¬ (config.ngroups : Int) ≤ size := by omega
      simpa [hzero, hsmall, hnot] using hroot
    rw [if_neg hzero, if_neg hzero, if_neg hsmall, if_neg hsmall]
    have hfound : (writeGroups abi m listAddr config.recorded).2 = true → _ := guestGroups_writeGroups
    cases hwrite : writeGroups abi m listAddr config.recorded with
    | mk m' ok =>
        rw [hwrite] at hfound
        cases ok with
        | false => simpa using hroot
        | true =>
            rw [config.length_recorded] at hfound
            have hle : (config.ngroups : Int) ≤ size := by omega
            simp only [hfound rfl, hzero, if_false, if_true, GroupsSeen.mk.injEq, true_and,
              and_true, Option.some.injEq, map_decode_encode_iff, hroot, not_false_eq_true, ne_eq,
              hle, true_implies]

/-- **One call**: it is answered, and the list is recorded, as it is to be, if and only if the
condition is met. -/
theorem KeepsList.step (h : KeepsList config list) (call : GroupsCall) :
    (fakeGroups.step config call).2 = (groupList.step list call).2 ↔ config.Meets call := by
  cases call with
  | setgroups abi size listAddr m stale => exact h.setgroups size listAddr stale
  | getgroups abi size listAddr m => exact h.getgroups size listAddr
  | credentials egid capsActive =>
      refine iff_of_true ?_ trivial
      exact congrArg (GroupsSeen.mk (.ok 0) none) h.groups

theorem fakeGroups_credentials (config : GroupsConfig) (list : GroupList) (call : GroupsCall)
    (hegid : config.egid = list.egid) (hcaps : config.capsActive = list.capsActive) :
    (fakeGroups.step config call).1.egid = (groupList.step list call).1.egid ∧
      (fakeGroups.step config call).1.capsActive = (groupList.step list call).1.capsActive := by
  cases call with
  | setgroups abi size listAddr m stale =>
      have hfake : (config.setgroups abi size listAddr m stale).1.egid = config.egid ∧
          (config.setgroups abi size listAddr m stale).1.capsActive = config.capsActive := by
        unfold GroupsConfig.setgroups
        split_ifs <;> exact ⟨rfl, rfl⟩
      have hlist : (list.setgroups abi size listAddr m).1.egid = list.egid ∧
          (list.setgroups abi size listAddr m).1.capsActive = list.capsActive := by
        unfold GroupList.setgroups
        split_ifs
        · exact ⟨rfl, rfl⟩
        · exact ⟨rfl, rfl⟩
        · split <;> exact ⟨rfl, rfl⟩
      exact ⟨hfake.1.trans (hegid.trans hlist.1.symm), hfake.2.trans (hcaps.trans hlist.2.symm)⟩
  | getgroups abi size listAddr m =>
      show (config.getgroups abi size listAddr m).1.egid = list.egid ∧
        (config.getgroups abi size listAddr m).1.capsActive = list.capsActive
      rw [getgroups_config]
      unfold GroupsConfig.withRootGroup
      split_ifs
      · exact ⟨hegid, hcaps⟩
      · exact ⟨hegid, hcaps⟩
  | credentials egid capsActive => exact ⟨rfl, rfl⟩

theorem fakeGroups_recorded (config : GroupsConfig) (call : GroupsCall) :
    (fakeGroups.step config call).2.recorded = (fakeGroups.step config call).1.recorded := by
  cases call <;> rfl

theorem groupList_recorded (list : GroupList) (call : GroupsCall) :
    (groupList.step list call).2.recorded = (groupList.step list call).1.groups := by
  cases call <;> rfl

theorem KeepsList.next (h : KeepsList config list) {call : GroupsCall}
    (heq : (fakeGroups.step config call).2 = (groupList.step list call).2) :
    KeepsList (fakeGroups.step config call).1 (groupList.step list call).1 where
  egid := (fakeGroups_credentials config list call h.egid h.capsActive).1
  capsActive := (fakeGroups_credentials config list call h.egid h.capsActive).2
  groups := by
    rw [← fakeGroups_recorded, ← groupList_recorded, heq]

/-! ## Runs -/

def GroupList.initial (uid gid : Id) : GroupList := ⟨gid, uid = 0, if gid = 0 then [0] else []⟩

theorem keepsList_initial (uid gid : Id) : KeepsList (.initial uid gid) (.initial uid gid) where
  egid := rfl
  capsActive := rfl
  groups := by
    unfold GroupsConfig.recorded GroupsConfig.initial GroupList.initial
    dsimp only
    split <;> rfl

/-- **Groups round-trip**: over every run of setgroups and getgroups, and changes of credentials, a
tracee gets the answers of a list that is set as a whole or not at all, and this list is recorded, if
and only if every call meets the condition. -/
theorem groups_roundTrip_iff (uid gid : Id) (calls : List GroupsCall) :
    fakeGroups.trace (.initial uid gid) calls = groupList.trace (.initial uid gid) calls ↔
      fakeGroups.Along GroupsConfig.Meets (.initial uid gid) calls :=
  Machine.trace_eq_iff (fun _ _ call h => h.step call) (fun _ _ _ h heq => h.next heq)
    (keepsList_initial uid gid) calls

def groupsPage : Memory where
  byte? a := if 4096 ≤ a ∧ a < 4196 then some (if a = 4096 then 7 else 0) else none
  writable a := 4096 ≤ a ∧ a < 4196
  mapped a h := by
    have hin : 4096 ≤ a ∧ a < 4196 := by simpa using h
    simp [hin]

def groupsAbi64 : GroupsAbi := ⟨false, false, false, 8⟩

/-- **A list that can't be read is recorded** all the same, and root that has no groups gets one by
asking. -/
theorem groups_not_roundTrip :
    fakeGroups.trace (.initial 0 0) [.setgroups groupsAbi64 1 0 groupsPage fun _ => 3] =
      [⟨.ok 0, none, [3]⟩] ∧
    fakeGroups.trace (.initial 0 0) [.setgroups groupsAbi64 0 0 groupsPage fun _ => 3,
        .getgroups groupsAbi64 0 0 groupsPage] = [⟨.ok 0, none, []⟩, ⟨.ok 1, none, [0]⟩] ∧
    ¬ fakeGroups.trace (.initial 0 0) [.setgroups groupsAbi64 1 0 groupsPage fun _ => 3] =
      groupList.trace (.initial 0 0) [.setgroups groupsAbi64 1 0 groupsPage fun _ => 3] := by
  decide

example : fakeGroups.trace (.initial 0 0) [.setgroups groupsAbi64 1 4096 groupsPage fun _ => 3,
    .getgroups groupsAbi64 8 4100 groupsPage] = [⟨.ok 0, none, [7]⟩, ⟨.ok 1, some [7], [7]⟩] := by
  decide

end Improot.Extension
