import Improot.Extension.Credentials

/-!
# Fake credentials and the kernel's

A reference model of the credentials of a process, with the capabilities that its privilege is made
of, and the exact condition under which `fake_id0` follows it.
-/

namespace Improot.Extension

open Lib

/-! ## The reference -/

/-- The credentials of a process.  A set of capabilities is either full or empty. -/
structure Cred where
  uid : Ids
  gid : Ids
  keepCaps : Bool
  permitted : Bool
  effective : Bool
  deriving DecidableEq

def Cred.ids (cred : Cred) : Kind → Ids
  | .u => cred.uid
  | .g => cred.gid

def Cred.initial (uid gid : Id) : Cred where
  uid := ⟨uid, uid, uid, uid⟩
  gid := ⟨gid, gid, gid, gid⟩
  keepCaps := false
  permitted := uid = 0
  effective := uid = 0

def Ids.anyZero (ids : Ids) : Bool := ids.r = 0 ∨ ids.e = 0 ∨ ids.s = 0

/-- **The effect of user id changes on capabilities**: they are lost when no id is 0 any more, but
for the permitted ones that are kept; the effective ones go and come back with the effective user id
0. -/
def Cred.become (cred : Cred) : Kind → Ids → Cred
  | .g, ids => { cred with gid := ids }
  | .u, ids =>
    let dropped := cred.uid.anyZero ∧ ¬ ids.anyZero
    let permitted := if dropped then cred.permitted && cred.keepCaps else cred.permitted
    let effective :=
      if dropped ∨ (cred.uid.e = 0 ∧ ids.e ≠ 0) then false
      else if cred.uid.e ≠ 0 ∧ ids.e = 0 then permitted
      else cred.effective
    { cred with
      uid := ids
      permitted := permitted
      effective := effective }

def Id.orElse (id old : Id) : Id := if id = unsetId then old else id

namespace Cred

def setid (k : Kind) (cred : Cred) (id : Id) : Cred × Result :=
  let ids := cred.ids k
  if id = unsetId then (cred, .error einval)
  else if cred.effective then (cred.become k ⟨id, id, id, id⟩, .ok 0)
  else if id = ids.r ∨ id = ids.s then
    (cred.become k
      { ids with
        e := id
        fs := id }, .ok 0)
  else (cred, .error eperm)

def MaySetreid (ids : Ids) (rid eid : Id) : Prop :=
  (rid = unsetId ∨ rid = ids.r ∨ rid = ids.e) ∧
    (eid = unsetId ∨ eid = ids.r ∨ eid = ids.e ∨ eid = ids.s)

instance (ids : Ids) (rid eid : Id) : Decidable (MaySetreid ids rid eid) :=
  inferInstanceAs (Decidable (_ ∧ _))

def setreid (k : Kind) (cred : Cred) (rid eid : Id) : Cred × Result :=
  let ids := cred.ids k
  if cred.effective ∨ MaySetreid ids rid eid then
    let e := eid.orElse ids.e
    let s := if rid ≠ unsetId ∨ (eid ≠ unsetId ∧ eid ≠ ids.r) then e else ids.s
    (cred.become k ⟨rid.orElse ids.r, e, s, e⟩, .ok 0)
  else (cred, .error eperm)

def MaySetresid (ids : Ids) (rid eid sid : Id) : Prop :=
  ∀ id ∈ [rid, eid, sid], id = unsetId ∨ id = ids.r ∨ id = ids.e ∨ id = ids.s

instance (ids : Ids) (rid eid sid : Id) : Decidable (MaySetresid ids rid eid sid) :=
  inferInstanceAs (Decidable (∀ id ∈ [rid, eid, sid], _))

def setresid (k : Kind) (cred : Cred) (rid eid sid : Id) : Cred × Result :=
  let ids := cred.ids k
  if cred.effective ∨ MaySetresid ids rid eid sid then
    let e := eid.orElse ids.e
    (cred.become k ⟨rid.orElse ids.r, e, sid.orElse ids.s, e⟩, .ok 0)
  else (cred, .error eperm)

def setfsid (k : Kind) (cred : Cred) (id : Id) : Cred × Result :=
  let ids := cred.ids k
  let allowed := id ≠ unsetId ∧
    (cred.effective ∨ id = ids.r ∨ id = ids.e ∨ id = ids.s ∨ id = ids.fs)
  (if allowed then cred.become k { ids with fs := id } else cred, .ok ids.fs)

/-- The ids after an execve(2): the effective one is copied to the saved and the file-system one. -/
def execIds (ids : Ids) (setsId : Bool) : Ids :=
  let e := if setsId then 0 else ids.e
  ⟨ids.r, e, e, e⟩

def execve (cred : Cred) (setuid setgid : Bool) : Cred :=
  let uid := execIds cred.uid setuid
  { uid := uid
    gid := execIds cred.gid setgid
    keepCaps := false
    permitted := uid.r = 0 ∨ uid.e = 0
    effective := uid.e = 0 }

def call (cred : Cred) : Call → Cred × Result
  | .setid k id => setid k cred id
  | .setreid k rid eid => setreid k cred rid eid
  | .setresid k rid eid sid => setresid k cred rid eid sid
  | .setfsid k id => setfsid k cred id
  | .keepcaps arg =>
    match kernelKeepcaps arg with
    | .ok x => ({ cred with keepCaps := arg ≠ 0 }, .ok x)
    | .error errno => (cred, .error errno)
  | .execveFails errno => (cred, .error errno)
  | .execve setuid setgid _ => (cred.execve setuid setgid, .ok 0)

def kernel : Machine Cred Call Seen where
  step cred c :=
    let (cred, result) := cred.call c
    (cred, ⟨result, cred.uid, cred.gid⟩)

/-- The privilege of a process is the one of its effective user id: it is lost with it, and can be
regained as long as it is permitted. -/
structure Sound (cred : Cred) : Prop where
  effective : cred.effective = decide (cred.uid.e = 0)
  permitted : cred.uid.anyZero → cred.permitted

end Cred

/-! ## The condition -/

/-- An id stays in place where the kernel copies the effective one. -/
def Ids.keptBySetreid (ids : Ids) (rid eid : Id) : Prop :=
  eid = unsetId → ids.fs = ids.e ∧ (rid ≠ unsetId → ids.s = ids.e)

def Ids.rotates (ids : Ids) (rid eid : Id) : Prop :=
  rid = ids.e ∧ rid ≠ unsetId ∧ rid ≠ ids.r ∧
    eid = ids.s ∧ eid ≠ unsetId ∧ eid ≠ ids.r ∧ eid ≠ ids.e

def Ids.keptByExecve (ids : Ids) (setsId found : Bool) : Prop :=
  if found ∧ setsId then ids.fs = 0
  else (setsId → ids.e = 0) ∧ ids.s = ids.e ∧ ids.fs = ids.e

def Config.isRoot (config : Config) : Bool := config.uid.e = 0

/-- **Where `fake_id0` follows the kernel**, in the state before a call. -/
def Config.Follows (config : Config) : Call → Prop
  | .setid k id =>
    let ids := config.ids k
    id ≠ unsetId ∧ (config.isRoot ∨
      if config.capsActive then id = ids.r ∧ id = ids.s else id = ids.e → id = ids.r ∨ id = ids.s)
  | .setreid k rid eid =>
    let ids := config.ids k
    if config.isRoot then ids.keptBySetreid rid eid
    else if config.capsActive then Cred.MaySetreid ids rid eid ∧ ids.keptBySetreid rid eid
    else Cred.MaySetreid ids rid eid → ids.keptBySetreid rid eid ∧ ¬ ids.rotates rid eid
  | .setresid k rid eid sid =>
    let ids := config.ids k
    let kept := eid = unsetId → ids.fs = ids.e
    if config.isRoot then kept
    else if config.capsActive then Cred.MaySetresid ids rid eid sid ∧ kept
    else Cred.MaySetresid ids rid eid sid → kept
  | .setfsid k id =>
    let ids := config.ids k
    if id = unsetId then config.mayChange ∨ equalsAnyId id ids → ids.fs = unsetId
    else config.isRoot ∨ ¬ config.capsActive ∨ id = ids.fs ∨ equalsAnyId id ids
  | .keepcaps _ => True
  | .execveFails _ => True
  | .execve setuid setgid found =>
    config.uid.keptByExecve setuid found ∧ config.gid.keptByExecve setgid found

/-! ## What a call leaves alone -/

def Config.seen (config : Config) (result : Result) : Seen := ⟨result, config.uid, config.gid⟩

def Cred.seen (cred : Cred) (result : Result) : Seen := ⟨result, cred.uid, cred.gid⟩

@[simp] theorem maybeDropCaps_seen (p : Bool) (config : Config) (result : Result) :
    (maybeDropCaps p config).seen result = config.seen result := by
  unfold maybeDropCaps
  split_ifs <;> rfl

structure Agree (config : Config) (cred : Cred) : Prop where
  uid : config.uid = cred.uid
  gid : config.gid = cred.gid
  sound : cred.Sound

theorem seen_ne {config : Config} {cred : Cred} {a b : Result} (h : a ≠ b) :
    config.seen a ≠ cred.seen b := by
  intro hseen
  exact h (congrArg Seen.result hseen)

theorem mayChange_eq (config : Config) :
    config.mayChange = (config.isRoot || config.capsActive) := by
  simp [Config.mayChange, Config.isRoot]

/-! ## The checks and the changes -/

theorem setrexidAllowed_iff (ids : Ids) (rid eid : Id) :
    setrexidAllowed ids rid eid ↔ Cred.MaySetreid ids rid eid ∧ ¬ ids.rotates rid eid := by
  unfold setrexidAllowed unchangedId Cred.MaySetreid Ids.rotates
  grind

theorem setrexidIds_iff (ids : Ids) (rid eid : Id) :
    setrexidIds ids rid eid = ⟨rid.orElse ids.r, eid.orElse ids.e,
        if rid ≠ unsetId ∨ (eid ≠ unsetId ∧ eid ≠ ids.r) then eid.orElse ids.e else ids.s,
        eid.orElse ids.e⟩ ↔ ids.keptBySetreid rid eid := by
  unfold setrexidIds Id.orElse Ids.keptBySetreid
  rw [Ids.ext_iff]
  grind

theorem setresxidAllowed_iff (ids : Ids) (rid eid sid : Id) :
    setresxidAllowed ids rid eid sid ↔ Cred.MaySetresid ids rid eid sid := by
  unfold setresxidAllowed equalsAnyId Cred.MaySetresid
  simp

theorem setresxidIds_iff (ids : Ids) (rid eid sid : Id) :
    setresxidIds ids rid eid sid =
        ⟨rid.orElse ids.r, eid.orElse ids.e, sid.orElse ids.s, eid.orElse ids.e⟩ ↔
      (eid = unsetId → ids.fs = ids.e) := by
  unfold setresxidIds Id.orElse
  rw [Ids.ext_iff]
  grind

namespace Agree

variable {config : Config} {cred : Cred} (h : Agree config cred)

include h

theorem ids (k : Kind) : cred.ids k = config.ids k := by
  cases k with
  | u => exact h.uid.symm
  | g => exact h.gid.symm

theorem effective : cred.effective = config.isRoot := by
  rw [Config.isRoot, h.uid]
  exact h.sound.effective

theorem seen_same (a b : Result) : config.seen a = cred.seen b ↔ a = b := by
  simp [Config.seen, Cred.seen, h.uid, h.gid]

theorem seen_change (k : Kind) (ids ids' : Ids) (a b : Result) :
    (config.withIds k ids).seen a = (cred.become k ids').seen b ↔ a = b ∧ ids = ids' := by
  cases k with
  | u => simp [Config.seen, Cred.seen, Config.withIds, Cred.become, h.gid]
  | g => simp [Config.seen, Cred.seen, Config.withIds, Cred.become, h.uid]

theorem seen_left (k : Kind) (ids : Ids) (a b : Result) :
    (config.withIds k ids).seen a = cred.seen b ↔ a = b ∧ ids = config.ids k := by
  cases k with
  | u | g => simp [Config.seen, Cred.seen, Config.withIds, Config.ids, h.uid, h.gid]

theorem setid (k : Kind) (id : Id) :
    (setxid k config id).1.seen (setxid k config id).2 =
        (Cred.setid k cred id).1.seen (Cred.setid k cred id).2 ↔
      config.Follows (.setid k id) := by
  unfold setxid Cred.setid Config.Follows
  rw [h.ids, h.effective, mayChange_eq]
  dsimp only
  generalize config.ids k = ids
  by_cases hunset : id = unsetId
  · -- the kernel refuses -1, which is never checked
    simp only [hunset, ne_eq, not_true_eq_false, false_and, iff_false, if_true]
    split_ifs <;> exact seen_ne nofun
  cases hroot : config.isRoot with
  | true => simp [hunset, h.seen_change]
  | false =>
      cases hcaps : config.capsActive with
      | true =>
          by_cases hmay : id = ids.r ∨ id = ids.s
          · simp [hunset, hmay, h.seen_change]
          · have hnot : ¬ (id = ids.r ∧ id = ids.s) := fun hboth => hmay (.inl hboth.1)
            simp [hunset, hmay, hnot, seen_ne]
      | false =>
          by_cases hmay : id = ids.r ∨ id = ids.s
          · have hallowed : id = ids.r ∨ id = ids.e ∨ id = ids.s := by tauto
            simp [hunset, hmay, hallowed, h.seen_change]
          · by_cases heff : id = ids.e
            · subst heff
              simp [hunset, hmay, seen_ne]
            · rw [not_or] at hmay
              simp [hunset, hmay, heff, h.seen_same]

theorem setreid (k : Kind) (rid eid : Id) :
    (setrexid k config rid eid).1.seen (setrexid k config rid eid).2 =
        (Cred.setreid k cred rid eid).1.seen (Cred.setreid k cred rid eid).2 ↔
      config.Follows (.setreid k rid eid) := by
  unfold setrexid Cred.setreid Config.Follows
  rw [h.ids, h.effective, mayChange_eq]
  have hallowed := setrexidAllowed_iff (config.ids k) rid eid
  have hids := setrexidIds_iff (config.ids k) rid eid
  dsimp only
  generalize config.ids k = ids at *
  cases hroot : config.isRoot with
  | true => simp [h.seen_change, hids]
  | false =>
      cases hcaps : config.capsActive with
      | true =>
          by_cases hmay : Cred.MaySetreid ids rid eid
          · simp [hmay, h.seen_change, hids]
          · simp [hmay, seen_ne]
      | false =>
          by_cases hmay : Cred.MaySetreid ids rid eid
          · by_cases hrotates : ids.rotates rid eid
            · simp [hmay, hrotates, hallowed, seen_ne]
            · simp [hmay, hrotates, hallowed, h.seen_change, hids]
          · simp [hmay, hallowed, h.seen_same]

theorem setresid (k : Kind) (rid eid sid : Id) :
    (setresxid k config rid eid sid).1.seen (setresxid k config rid eid sid).2 =
        (Cred.setresid k cred rid eid sid).1.seen (Cred.setresid k cred rid eid sid).2 ↔
      config.Follows (.setresid k rid eid sid) := by
  unfold setresxid Cred.setresid Config.Follows
  rw [h.ids, h.effective, mayChange_eq]
  have hallowed := setresxidAllowed_iff (config.ids k) rid eid sid
  have hids := setresxidIds_iff (config.ids k) rid eid sid
  dsimp only
  generalize config.ids k = ids at *
  cases hroot : config.isRoot with
  | true => simp [h.seen_change, hids]
  | false =>
      by_cases hmay : Cred.MaySetresid ids rid eid sid
      · simp [hmay, hallowed, h.seen_change, hids]
      · cases hcaps : config.capsActive with
        | true => simp [hmay, seen_ne]
        | false => simp [hmay, hallowed, h.seen_same]

theorem setfsid (k : Kind) (id : Id) :
    (setfsxid k config id).1.seen (setfsxid k config id).2 =
        (Cred.setfsid k cred id).1.seen (Cred.setfsid k cred id).2 ↔
      config.Follows (.setfsid k id) := by
  unfold setfsxid Cred.setfsid Config.Follows
  rw [h.ids, h.effective, mayChange_eq]
  dsimp only
  have hleft := h.seen_left k
  generalize config.ids k = ids at *
  have hsame : ({ ids with fs := id } : Ids) = ids ↔ ids.fs = id := by
    rw [Ids.ext_iff]
    simp [eq_comm]
  by_cases hunset : id = unsetId
  · subst hunset
    by_cases hallowed : (config.isRoot || config.capsActive) ∨ unsetId = ids.fs ∨
        equalsAnyId unsetId ids
    · simp
      grind
    · have hnot : ¬ ((config.isRoot || config.capsActive) ∨ equalsAnyId unsetId ids) := by tauto
      simp only [hallowed, hnot, ne_eq, not_true_eq_false, false_and, if_false, if_true,
        false_implies, iff_true]
      exact (h.seen_same _ _).mpr rfl
  · by_cases hmember : id = ids.fs ∨ equalsAnyId id ids
    · have href : id = ids.r ∨ id = ids.e ∨ id = ids.s ∨ id = ids.fs := by
        simp only [equalsAnyId, decide_eq_true_iff] at hmember
        tauto
      simp [hunset, hmember, href, h.seen_change]
    · have href : ¬ (id = ids.r ∨ id = ids.e ∨ id = ids.s ∨ id = ids.fs) := by
        simp only [equalsAnyId, decide_eq_true_iff] at hmember
        tauto
      have hne : ids.fs ≠ id := fun heq => hmember (.inl heq.symm)
      cases hroot : config.isRoot with
      | true => simp [hunset, h.seen_change]
      | false =>
          cases hcaps : config.capsActive with
          | true => simp [hunset, hmember, href, hleft, hsame, hne]
          | false => simp [hunset, hmember, href, h.seen_same]

theorem execve (setuid setgid found : Bool) (result : Result) :
    (handleExecve config setuid setgid found).seen result =
        (cred.execve setuid setgid).seen result ↔
      config.Follows (.execve setuid setgid found) := by
  unfold handleExecve Cred.execve Cred.execIds Config.Follows Ids.keptByExecve Config.seen Cred.seen
  rw [← h.uid, ← h.gid, Seen.mk.injEq]
  cases setuid <;> cases setgid <;> cases found <;> simp [Ids.ext_iff] <;> grind

/-- **One call** looks the same if and only if `fake_id0` follows the kernel there. -/
theorem call (c : Call) :
    (fakeId0.step config c).2 = (Cred.kernel.step cred c).2 ↔ config.Follows c := by
  cases c with
  | setid k id => exact h.setid k id
  | setreid k rid eid => exact h.setreid k rid eid
  | setresid k rid eid sid => exact h.setresid k rid eid sid
  | setfsid k id => exact h.setfsid k id
  | keepcaps arg =>
      unfold fakeId0 Cred.kernel handleCall Cred.call
      dsimp only
      cases kernelKeepcaps arg with
      | ok | error => exact iff_true_intro ((h.seen_same _ _).mpr rfl)
  | execveFails errno => exact iff_true_intro ((h.seen_same _ _).mpr rfl)
  | execve setuid setgid found => exact h.execve setuid setgid found (.ok 0)

end Agree

/-! ## Runs -/

namespace Cred

variable {cred : Cred}

theorem Sound.become (h : cred.Sound) (k : Kind) (ids : Ids)
    (hzero : k = .u → cred.uid.e ≠ 0 → ids.anyZero → cred.uid.anyZero) :
    (cred.become k ids).Sound := by
  cases k with
  | g => exact ⟨h.effective, h.permitted⟩
  | u =>
      have hpermitted := h.permitted
      have heffective := h.effective
      have hold : cred.uid.e = 0 → cred.uid.anyZero := fun he => by simp [Ids.anyZero, he]
      have hnew : ids.e = 0 → ids.anyZero := fun he => by simp [Ids.anyZero, he]
      have hzero := hzero rfl
      unfold Cred.become
      constructor
      · grind
      · grind

theorem Sound.call (h : cred.Sound) (c : Call) : (cred.call c).1.Sound := by
  have heffective := h.effective
  cases c with
  | setid k id =>
      unfold Cred.call Cred.setid
      dsimp only
      split_ifs with hunset hprivileged hmay
      · exact h
      · refine h.become k _ fun hk he => ?_
        rw [heffective, decide_eq_true_iff] at hprivileged
        exact absurd hprivileged he
      · refine h.become k _ fun hk _ => ?_
        subst hk
        unfold Ids.anyZero Cred.ids at *
        grind
      · exact h
  | setreid k rid eid =>
      unfold Cred.call Cred.setreid
      by_cases hmay : cred.effective ∨ MaySetreid (cred.ids k) rid eid
      · simp only [hmay, if_true]
        refine h.become k _ fun hk he => ?_
        subst hk
        unfold Ids.anyZero Cred.ids Cred.MaySetreid Id.orElse at *
        grind
      · simp only [hmay, if_false]
        exact h
  | setresid k rid eid sid =>
      unfold Cred.call Cred.setresid
      dsimp only
      split_ifs with hmay
      · refine h.become k _ fun hk he => ?_
        subst hk
        unfold Cred.MaySetresid at hmay
        simp only [List.forall_mem_cons] at hmay
        unfold Ids.anyZero Cred.ids Id.orElse at *
        grind
      · exact h
  | setfsid k id =>
      unfold Cred.call Cred.setfsid
      dsimp only
      split_ifs with hmay
      · refine h.become k _ fun hk _ => ?_
        subst hk
        exact fun hany => hany
      · exact h
  | keepcaps arg =>
      unfold Cred.call
      dsimp only
      cases kernelKeepcaps arg with
      | ok x => exact ⟨h.effective, h.permitted⟩
      | error errno => exact h
  | execveFails errno => exact h
  | execve setuid setgid found =>
      refine ⟨rfl, fun hany => ?_⟩
      unfold Cred.call Cred.execve Cred.execIds Ids.anyZero at *
      grind

end Cred

theorem Agree.initial (uid gid : Id) : Agree (.initial uid gid) (.initial uid gid) :=
  ⟨rfl, rfl, rfl, fun h => by simpa [Cred.initial, Ids.anyZero] using h⟩

/-- **Fake credentials follow the kernel's** in a run, with every result and every id, if and only
if each call of the run meets the condition in the state before it. -/
theorem fakeId0_trace_iff (uid gid : Id) (calls : List Call) :
    fakeId0.trace (.initial uid gid) calls = Cred.kernel.trace (.initial uid gid) calls ↔
      fakeId0.Along Config.Follows (.initial uid gid) calls := by
  refine Machine.trace_eq_iff (fun config cred c h => h.call c) ?_ (Agree.initial uid gid) calls
  intro config cred c h heq
  exact ⟨congrArg Seen.uid heq, congrArg Seen.gid heq, h.sound.call c⟩

/-- Root lowers its effective id, sets its real id to it, and becomes root again. -/
def regain : List Call :=
  [.setresid .u unsetId 1000 unsetId, .setreid .u 1000 unsetId, .setid .u 0]

/-- **Some run doesn't follow the kernel**: the saved id isn't set with the real one, and root's is
regained. -/
theorem fakeId0_regains :
    fakeId0.trace (.initial 0 0) regain ≠ Cred.kernel.trace (.initial 0 0) regain ∧
      (fakeId0.trace (.initial 0 0) regain).map Seen.result = [.ok 0, .ok 0, .ok 0] ∧
      (Cred.kernel.trace (.initial 0 0) regain).map Seen.result =
        [.ok 0, .ok 0, .error eperm] := by
  decide

end Improot.Extension
