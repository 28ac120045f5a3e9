import Improot.Extension.Credentials
import Improot.Tracee.Statx

/-!
# The owners that stat and statx report

`fake_id0/stat.c`: a file that belongs to the user who runs PRoot is reported to belong to the fake
user, at the exit of the stat family and, in a function of its own, of statx(2).
-/

namespace Improot.Extension

open Lib Tracee

/-- `handle_stat_exit_end`, on the structure that the kernel has filled in; `getuid` and `getgid` are
PRoot's own ids. -/
def handleStatExitEnd (getuid getgid : Id) (config : Config) (result : Except Errno Stat) :
    Except Errno Stat :=
  match result with
  | .error errno => .error errno
  | .ok s =>
    .ok { s with
      uid := if s.uid = getuid then config.uid.s else s.uid
      gid := if s.gid = getgid then config.gid.s else s.gid }

/-- `fake_id0_handle_statx_syscall`: both ids are compared with the one of the user. -/
def fakeId0HandleStatxSyscall (getuid : Id) (config : Config) (state : StatxSyscallState) :
    StatxSyscallState :=
  let state :=
    if hasField state.statxBuf.stxMask .uid then
      if state.statxBuf.uid = getuid then
        { state with
          statxBuf := { state.statxBuf with uid := config.uid.s }
          updatedStats := true }
      else state
    else state
  if hasField state.statxBuf.stxMask .gid then
    if state.statxBuf.gid = getuid then
      { state with
        statxBuf := { state.statxBuf with gid := config.gid.s }
        updatedStats := true }
    else state
  else state

/-! ## Both rewritings -/

/-- The ids of `struct statx` afterwards. -/
def rewriteStatx (getuid : Id) (config : Config) (b : Statx) : Statx :=
  { b with
    uid := if hasField b.stxMask .uid ∧ b.uid = getuid then config.uid.s else b.uid
    gid := if hasField b.stxMask .gid ∧ b.gid = getuid then config.gid.s else b.gid }

variable {getuid getgid : Id} {config : Config}

theorem fakeId0HandleStatxSyscall_buf (state : StatxSyscallState) :
    (fakeId0HandleStatxSyscall getuid config state).statxBuf =
      rewriteStatx getuid config state.statxBuf := by
  unfold fakeId0HandleStatxSyscall rewriteStatx
  by_cases hmask : hasField state.statxBuf.stxMask .uid ∧ state.statxBuf.uid = getuid
  · by_cases hgroups : hasField state.statxBuf.stxMask .gid ∧ state.statxBuf.gid = getuid
    · simp only [if_pos hmask.1, if_pos hmask.2, if_pos hgroups.1, if_pos hgroups.2, if_pos hmask,
        if_pos hgroups]
    · simp only [if_pos hmask.1, if_pos hmask.2, if_pos hmask, if_neg hgroups]
      split_ifs with hgid hown
      · exact absurd ⟨hgid, hown⟩ hgroups
      · rfl
      · rfl
  · have hkept : (if hasField state.statxBuf.stxMask .uid then
        if state.statxBuf.uid = getuid then
          ({ state with
            statxBuf := { state.statxBuf with uid := config.uid.s }
            updatedStats := true } : StatxSyscallState)
        else state
      else state) = state := by
      split_ifs with huid hown
      · exact absurd ⟨huid, hown⟩ hmask
      · rfl
      · rfl
    simp only [hkept, if_neg hmask]
    by_cases hgroups : hasField state.statxBuf.stxMask .gid ∧ state.statxBuf.gid = getuid
    · simp only [if_pos hgroups.1, if_pos hgroups.2, if_pos hgroups]
    · simp only [if_neg hgroups]
      split_ifs with hgid hown
      · exact absurd ⟨hgid, hown⟩ hgroups
      · rfl
      · rfl

theorem fakeId0HandleStatxSyscall_kept {state : StatxSyscallState}
    (h : (fakeId0HandleStatxSyscall getuid config state).updatedStats = false) :
    (fakeId0HandleStatxSyscall getuid config state).statxBuf = state.statxBuf := by
  unfold fakeId0HandleStatxSyscall at h ⊢
  dsimp only at h ⊢
  split_ifs at h ⊢ <;> rfl

theorem fakeId0HandleStatxSyscall_updated {state : StatxSyscallState} (h : state.updatedStats) :
    (fakeId0HandleStatxSyscall getuid config state).updatedStats = true := by
  unfold fakeId0HandleStatxSyscall
  dsimp only
  split_ifs <;> first | rfl | exact h

def GroupAlike (getuid getgid : Id) (config : Config) (gid : Id) : Prop :=
  (gid = getuid ↔ gid = getgid) ∨ gid = config.gid.s

instance (gid : Id) : Decidable (GroupAlike getuid getgid config gid) := by
  unfold GroupAlike
  infer_instance

theorem groupAlike_iff {gid : Id} : GroupAlike getuid getgid config gid ↔
    (if gid = getuid then config.gid.s else gid) = if gid = getgid then config.gid.s else gid := by
  unfold GroupAlike
  grind

/-- **Both rewritings of one file**: they agree in the group only where the comparison with the user
id comes out as the one with the group id does. -/
theorem rewriteStatx_agrees_iff {b : Statx} {s s' : Stat} (h : b.Agrees s)
    (hs' : handleStatExitEnd getuid getgid config (.ok s) = .ok s') :
    (rewriteStatx getuid config b).Agrees s' ↔
      (hasField b.stxMask .gid → GroupAlike getuid getgid config s.gid) := by
  obtain rfl := (Except.ok.inj hs').symm
  rw [groupAlike_iff]
  constructor
  · intro hagrees hgid
    have hold := h .gid hgid _ rfl
    have hnew := hagrees .gid hgid _ rfl
    simp only [Statx.value, StatValue.number.injEq, BitVec.toNat_inj] at hold
    simp only [Statx.value, rewriteStatx, hgid, true_and, hold, StatValue.number.injEq,
      BitVec.toNat_inj] at hnew
    exact hnew
  · intro hgroup f hf v hv
    have hf' : hasField b.stxMask f := hf
    cases f with
    | uid =>
        have hold := h .uid hf' _ rfl
        obtain rfl := (Option.some.inj hv).symm
        simp only [Statx.value, StatValue.number.injEq, BitVec.toNat_inj] at hold
        simp [Statx.value, rewriteStatx, hf', hold]
    | gid =>
        have hold := h .gid hf' _ rfl
        obtain rfl := (Option.some.inj hv).symm
        simp only [Statx.value, StatValue.number.injEq, BitVec.toNat_inj] at hold
        simp only [Statx.value, rewriteStatx, hf', true_and, hold, hgroup hf']
    | _ => exact h _ hf' v hv

/-! ## The calls -/

/-- What the tracee finds in its buffer before the owners are rewritten. -/
def statxSource (call : StatxCall) (e : StatxExit) (s : Stat) : Statx :=
  if e.answered then e.buffer else statxOfStat call.mask s

/-- The fields that are reported: the kernel's choice, or what is made up from stat(2). -/
def reportedFields (call : StatxCall) (e : StatxExit) : BitVec 32 :=
  if e.answered then e.buffer.stxMask else call.mask &&& statxFields

theorem statxSource_mask (call : StatxCall) (e : StatxExit) (s : Stat) :
    (statxSource call e s).stxMask = reportedFields call e := by
  unfold statxSource reportedFields
  split <;> rfl

variable {h : StatHost} {call : StatxCall} {e : StatxExit}

theorem handleStatxSyscall_found {s : Stat} (hpath : (statxPath h call).isOk)
    (hstat : fstatat h call = .ok s) (haccess : e.accessible) :
    handleStatxSyscall h (fakeId0HandleStatxSyscall getuid config) call e =
      .ok (rewriteStatx getuid config (statxSource call e s)) := by
  cases hp : statxPath h call with
  | error errno => simp [hp, Except.isOk, Except.toBool] at hpath
  | ok target =>
      obtain ⟨hostPath, doFstat⟩ := target
      unfold handleStatxSyscall statxSource
      rw [hp]
      cases hanswered : e.answered with
      | true =>
          -- the answer of the kernel, which stays if no id is rewritten
          simp only [haccess, bind, Except.bind, pure, Except.pure, not_true, if_false,
            if_true, Bool.not_eq_true]
          rw [← fakeId0HandleStatxSyscall_buf ⟨hostPath, e.buffer, false⟩]
          split
          case isTrue hkept =>
            rw [fakeId0HandleStatxSyscall_kept hkept]
          case isFalse => rfl
      | false =>
          simp only [statxStat_eq hp, hstat, bind, Except.bind, pure, Except.pure, haccess,
            Bool.false_eq_true, not_false_eq_true, if_true, if_false,
            fakeId0HandleStatxSyscall_updated, not_true]
          rw [fakeId0HandleStatxSyscall_buf]

theorem found_of_handleStatxSyscall {b : Statx} (hhonest : e.Honest h call)
    (hb : handleStatxSyscall h (fakeId0HandleStatxSyscall getuid config) call e = .ok b) :
    (statxPath h call).isOk ∧ e.accessible ∧ ∃ s, fstatat h call = .ok s := by
  unfold handleStatxSyscall at hb
  cases hp : statxPath h call with
  | error errno => simp [hp, bind, Except.bind] at hb
  | ok target =>
      obtain ⟨hostPath, doFstat⟩ := target
      refine ⟨rfl, ?_⟩
      rw [hp] at hb
      cases hanswered : e.answered with
      | true =>
          obtain ⟨s, hs, -⟩ := hhonest hanswered
          refine ⟨?_, s, hs⟩
          by_contra haccess
          simp [hanswered, haccess, bind, Except.bind, throw, throwThe, MonadExceptOf.throw] at hb
      | false =>
          cases hstat : fstatat h call with
          | error errno =>
              simp [hanswered, statxStat_eq hp, hstat, bind, Except.bind] at hb
          | ok s =>
              refine ⟨?_, s, rfl⟩
              by_contra haccess
              simp [hanswered, statxStat_eq hp, hstat, haccess, bind, Except.bind, pure,
                Except.pure, throw, throwThe, MonadExceptOf.throw,
                fakeId0HandleStatxSyscall_updated] at hb

theorem statxSource_agrees {s : Stat} (hhonest : e.Honest h call)
    (hstat : fstatat h call = .ok s) : (statxSource call e s).Agrees s := by
  unfold statxSource
  split
  case isTrue hanswered =>
    obtain ⟨s', hs', hagrees⟩ := hhonest hanswered
    obtain rfl := Except.ok.inj (hstat.symm.trans hs')
    exact hagrees
  case isFalse => exact statxOfStat_agrees call.mask s

/-- **statx agrees with stat**: every field that statx(2) reports is the one that the stat family
reports for the same arguments. -/
def StatxAgrees (h : StatHost) (getuid getgid : Id) (config : Config) (call : StatxCall)
    (e : StatxExit) : Prop :=
  ∀ b, handleStatxSyscall h (fakeId0HandleStatxSyscall getuid config) call e = .ok b →
    ∃ s, handleStatExitEnd getuid getgid config (fstatat h call) = .ok s ∧ b.Agrees s

/-- **statx agrees with stat** if and only if the group of the file, where it is reported, is compared
with the user id as with the group id. -/
theorem statx_agrees_iff (h : StatHost) (getuid getgid : Id) (config : Config) (call : StatxCall)
    (e : StatxExit) (hhonest : e.Honest h call) :
    StatxAgrees h getuid getgid config call e ↔
      ∀ s, (statxPath h call).isOk → e.accessible → fstatat h call = .ok s →
        hasField (reportedFields call e) .gid → GroupAlike getuid getgid config s.gid := by
  constructor
  · intro hagrees s hpath haccess hstat hgid
    obtain ⟨s', hs', hb⟩ := hagrees _ (handleStatxSyscall_found hpath hstat haccess)
    rw [hstat] at hs'
    rw [rewriteStatx_agrees_iff (statxSource_agrees hhonest hstat) hs', statxSource_mask] at hb
    exact hb hgid
  · intro hgroup b hb
    obtain ⟨hpath, haccess, s, hstat⟩ := found_of_handleStatxSyscall hhonest hb
    rw [handleStatxSyscall_found hpath hstat haccess] at hb
    obtain rfl := Except.ok.inj hb
    rw [hstat]
    refine ⟨_, rfl, ?_⟩
    rw [rewriteStatx_agrees_iff (statxSource_agrees hhonest hstat) rfl, statxSource_mask]
    exact hgroup s hpath haccess hstat

def usersFile : Stat where
  mode := 0x81a4
  nlink := 1
  uid := 1000
  gid := 100
  ino := 7
  size := 0
  blocks := 0
  blksize := 4096
  atime := ⟨0, 0⟩
  mtime := ⟨0, 0⟩
  ctime := ⟨0, 0⟩
  rdevMajor := 0
  rdevMinor := 0

def usersHost : StatHost where
  translatePath _ path _ := .ok path
  readlinkProcPidFd _ := .error .ebadf
  stat _ := .ok usersFile
  lstat _ := .ok usersFile
  fstat _ := .error .ebadf

/-- `statx(AT_FDCWD, "/f", 0, STATX_BASIC_STATS, …)`. -/
def basicStatx : StatxCall := ⟨-100, .ok ['/', 'f'], 0, 0x7ff⟩

def refusedStatx : StatxExit := ⟨true, .error .enosys, statxOfStat 0 usersFile, true⟩

def answeredStatx : StatxExit := ⟨false, .ok (), statxOfStat 0x7ff usersFile, true⟩

theorem statx_agrees_equalIds : answeredStatx.answered = true ∧
    StatxAgrees usersHost 1000 1000 (.initial 0 0) basicStatx answeredStatx := by
  have hhonest : answeredStatx.Honest usersHost basicStatx := by
    intro _
    exact ⟨usersFile, rfl, statxOfStat_agrees _ _⟩
  refine ⟨rfl, ?_⟩
  apply (statx_agrees_iff usersHost 1000 1000 (.initial 0 0) basicStatx answeredStatx hhonest).mpr
  intro s _ _ hstat _
  obtain rfl : usersFile = s := Except.ok.inj hstat
  decide

/-- **The group of PRoot's user isn't recognized** by statx(2): stat(2) reports group 0, and
statx(2) reports 100. -/
theorem statx_misses_group :
    (∃ b, handleStatxSyscall usersHost (fakeId0HandleStatxSyscall 1000 (.initial 0 0)) basicStatx
      refusedStatx = .ok b ∧ b.uid = 0 ∧ b.gid = 100) ∧
    (∃ s, handleStatExitEnd 1000 100 (.initial 0 0) (fstatat usersHost basicStatx) = .ok s ∧
      s.uid = 0 ∧ s.gid = 0) ∧
    ¬ StatxAgrees usersHost 1000 100 (.initial 0 0) basicStatx refusedStatx := by
  refine ⟨⟨_, rfl, rfl, rfl⟩, ⟨_, rfl, rfl, rfl⟩, ?_⟩
  intro h
  obtain ⟨s, hs, hagrees⟩ := h _ rfl
  obtain rfl := (Except.ok.inj hs).symm
  exact absurd (hagrees .gid (by decide) _ rfl) (by decide)

end Improot.Extension
