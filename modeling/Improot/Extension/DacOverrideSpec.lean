import Improot.Extension.DacOverride

/-!
# What simulated CAP_DAC_OVERRIDE leaves behind

The exact condition under which a run restores all permissions, and a run that doesn't.
-/

namespace Improot.Extension

open Improot.Path Improot.Syscall Improot.Lib

/-! ## The condition -/

namespace OverrideState

def IsPending (s : OverrideState) (p : Pending) : Prop := ∃ t, p ∈ (s.tracee t).ctx

/-- **The kernel leaves alone what is to be restored**: the names of the files whose bits are forced
stay as they are, and only the call that a node was made for changes the bits of its file; the
directories on the way stay searchable. -/
structure KernelSound (s : OverrideState) (t : Nat) (find : CString → Option (List Inode × Inode))
    (chmod : Option (Inode × Perms)) : Prop where
  name : ∀ p, s.IsPending p → find p.node.path = s.fs.find p.node.path
  mode : ∀ i perms, chmod = some (i, perms) → ∀ p, s.IsPending p → p.file = i → p.node.mode = perms
  way : ∀ i perms, chmod = some (i, perms) → ∀ p, s.IsPending p → i ∈ s.fs.trail p.node.path →
    s.fs.searchable i perms = true
  asked : ∀ i perms, chmod = some (i, perms) → ∀ p ∈ (s.tracee t).ctx, p.asked = true → p.file = i

/-- **A destructor restores what the guest has, and shuts no way**: the chmod(2) that a node was
made for succeeded, and the other nodes are still reached without the bits that the file loses. -/
structure RestoreSound (s : OverrideState) (t : Nat) (p : Pending) (rest : List Pending) : Prop where
  asked : p.asked = true → (s.tracee t).changed = true
  way : ∀ q, (q ∈ rest ∨ ∃ u, u ≠ t ∧ q ∈ (s.tracee u).ctx) → p.file ∈ s.fs.trail q.node.path →
    s.fs.searchable p.file p.node.mode = true

/-- **The steps that do not reach the defects.** -/
def Sound (s : OverrideState) : OverrideEvent → Prop
  | .enter .. | .look .. | .patch .. => True
  | .kernel t find chmod => s.KernelSound t find chmod
  | .restore t => ∀ p rest, (s.tracee t).ctx = p :: rest → s.RestoreSound t p rest
  | .leave t reported => reported = true ∨ (s.tracee t).ctx = []

/-! ## The invariant -/

/-- A node of a tracee can restore its file, to the bits that the guest has, or asks for. -/
structure Restorable (s : OverrideState) (t : Nat) (p : Pending) : Prop where
  reach : s.fs.reach p.node.path = some p.file
  mode : p.node.mode = s.base p.file ∨ (p.asked = true ∧ (s.tracee t).changed = false)

def Wide (fs : HostFiles) (i : Inode) (perms : Perms) : Prop :=
  forced (fs.directory i) perms = perms &&& rwxBits

structure Inv (s : OverrideState) : Prop where
  pending : ∀ t, ∀ p ∈ (s.tracee t).ctx, s.Restorable t p
  /-- A file has its bits, or a destructor has it ahead. -/
  mode : ∀ i, s.fs.mode i = s.base i ∨
    (s.fs.mayChmod i = true ∧ Wide s.fs i (s.fs.mode i) ∧ ∃ p, s.IsPending p ∧ p.file = i)
  /-- The final chmod(2) that is ahead is about the newest node. -/
  patch : ∀ t path perms, (s.tracee t).patch = some (path, perms) →
    ∃ p ∈ (s.tracee t).ctx, p.node.path = path ∧
      ∃ old, perms = forced (s.fs.directory p.file) old
  idle : ∀ t, (s.tracee t).call = none → (s.tracee t).ctx = []

/-! ## Files and ways -/

end OverrideState

variable {path : CString} {i : Inode}

namespace HostFiles

variable {fs : HostFiles}

theorem reach_eq_some : fs.reach path = some i ↔
    ∃ dirs, fs.find path = some (dirs, i) ∧
      ∀ d ∈ dirs, fs.directory d = true ∧ fs.searchable d (fs.mode d) = true := by
  unfold reach
  rw [Option.bind_eq_some_iff]
  constructor
  · rintro ⟨⟨dirs, j⟩, hfind, hreach⟩
    simp only [Option.ite_none_right_eq_some, Option.some.injEq] at hreach
    obtain ⟨hdirs, rfl⟩ := hreach
    exact ⟨dirs, hfind, hdirs⟩
  · rintro ⟨dirs, hfind, hdirs⟩
    exact ⟨(dirs, i), hfind, if_pos hdirs⟩

/-- A file is still reached when the names are the same and the directories on the way can be
searched. -/
theorem reach_of {fs' : HostFiles} (h : fs.reach path = some i)
    (hfind : fs'.find path = fs.find path) (hdir : fs'.directory = fs.directory)
    (hway : ∀ d ∈ fs.trail path, fs.searchable d (fs.mode d) = true →
      fs'.searchable d (fs'.mode d) = true) : fs'.reach path = some i := by
  obtain ⟨dirs, hdirs, hall⟩ := reach_eq_some.mp h
  have htrail : fs.trail path = dirs := by
    simp [trail, hdirs]
  refine reach_eq_some.mpr ⟨dirs, hfind.trans hdirs, ?_⟩
  intro d hd
  rw [hdir]
  exact ⟨(hall d hd).1, hway d (htrail ▸ hd) (hall d hd).2⟩

theorem reach_directory {d : Inode} (h : fs.reach path = some i)
    (hd : d ∈ fs.trail path) : fs.directory d = true := by
  obtain ⟨dirs, hdirs, hall⟩ := reach_eq_some.mp h
  have htrail : fs.trail path = dirs := by
    simp [trail, hdirs]
  exact (hall d (htrail ▸ hd)).1

theorem chmod_of_reach (h : fs.reach path = some i) (perms : Perms) :
    fs.chmod path perms = if fs.mayChmod i then fs.setMode i perms else fs := by
  unfold chmod
  rw [h]

theorem reach_setMode {j : Inode} {perms : Perms} (h : fs.reach path = some i)
    (hway : j ∈ fs.trail path → fs.searchable j perms = true) :
    (fs.setMode j perms).reach path = some i := by
  refine reach_of h rfl rfl ?_
  intro d hd hsearch
  show fs.searchable d (Function.update fs.mode j perms d) = true
  by_cases hdj : d = j
  · subst hdj
    rw [Function.update_self]
    exact hway hd
  · rw [Function.update_of_ne hdj]
    exact hsearch

theorem searchable_forced (hmay : fs.mayChmod i = true) (old : Perms) :
    fs.searchable i (forced true old) = true := by
  unfold mayChmod at hmay
  unfold searchable
  cases hrights : fs.rights i with
  | user =>
    show decide ((old &&& rwxBits ||| 0o600 ||| 0o100) &&& 0o100 ≠ 0) = true
    rw [decide_eq_true_iff]
    intro h
    have hbit := congrArg (fun x : Perms => x.getLsbD 6) h
    simp [rwxBits] at hbit
  | group | other => simp [hrights] at hmay
  | root => rfl

end HostFiles

/-! ## Forced bits -/

def forcedBits (directory : Bool) : Perms := if directory then 0o700 else 0o600

theorem forced_eq (directory : Bool) (old : Perms) :
    forced directory old = old &&& rwxBits ||| forcedBits directory := by
  cases directory
  · rfl
  · show old &&& rwxBits ||| 0o600 ||| 0o100 = old &&& rwxBits ||| 0o700
    rw [BitVec.or_assoc]
    rfl

theorem forced_wide (directory : Bool) (old : Perms) :
    forced directory (forced directory old) = forced directory old &&& rwxBits := by
  have hbits : forcedBits directory &&& rwxBits = forcedBits directory := by
    cases directory <;> rfl
  rw [forced_eq, forced_eq]
  apply BitVec.eq_of_getLsbD_eq
  intro i _
  have hbit := congrArg (fun x : Perms => x.getLsbD i) hbits
  simp only [BitVec.getLsbD_and, BitVec.getLsbD_or] at hbit ⊢
  generalize old.getLsbD i = a
  generalize rwxBits.getLsbD i = b at hbit ⊢
  generalize (forcedBits directory).getLsbD i = c at hbit ⊢
  revert a b c
  decide

namespace OverrideState

variable {s s' : OverrideState} {t : Nat}

theorem setTracee_same {α : Type} (f : OverrideTracee → α) {tracee : OverrideTracee}
    (h : f tracee = f (s.tracee t)) (u : Nat) :
    f ((s.setTracee t tracee).tracee u) = f (s.tracee u) := by
  by_cases hu : u = t
  · subst hu
    simpa [setTracee] using h
  · simp [setTracee, Function.update_of_ne hu]

theorem Start.inv (h : s.Start) : s.Inv where
  pending u p hp := by
    rw [h.ctx u] at hp
    cases hp
  mode i := .inl (by rw [h.base])
  patch u path perms hpatch := by
    rw [h.patch u] at hpatch
    cases hpatch
  idle u _ := h.ctx u

theorem Inv.base_of_narrow (h : s.Inv) (hnarrow : ¬ Wide s.fs i (s.fs.mode i)) :
    s.fs.mode i = s.base i := by
  rcases h.mode i with hmode | ⟨-, hwide, -⟩
  · exact hmode
  · exact absurd hwide hnarrow

/-! ## Entering and leaving -/

theorem isPending_congr (h : ∀ u, (s'.tracee u).ctx = (s.tracee u).ctx) (p : Pending) :
    s'.IsPending p ↔ s.IsPending p := by
  unfold IsPending
  simp only [h]

theorem inv_enter (hinv : s.Inv) {euid : Id} {call : GuestCall} (h : s.enter t euid call = some s') :
    s'.Inv := by
  unfold enter at h
  simp only [Option.ite_none_right_eq_some, Option.some.injEq] at h
  obtain ⟨⟨-, hctx, -⟩, rfl⟩ := h
  have hctx : (s.tracee t).ctx = [] := List.isEmpty_iff.mp hctx
  have hsame : ∀ u, ((s.setTracee t ⟨euid, some call, [], none, false⟩).tracee u).ctx =
      (s.tracee u).ctx := setTracee_same (·.ctx) hctx.symm
  refine ⟨?_, ?_, ?_, ?_⟩
  · intro u p hp
    by_cases hu : u = t
    · subst hu
      rw [hsame, hctx] at hp
      cases hp
    · rw [hsame] at hp
      obtain ⟨hreach, hmode⟩ := hinv.pending u p hp
      refine ⟨hreach, ?_⟩
      simpa [setTracee, Function.update_of_ne hu] using hmode
  · intro i
    rcases hinv.mode i with hmode | ⟨hmay, hwide, p, hp, hfile⟩
    · exact .inl hmode
    · exact .inr ⟨hmay, hwide, p, (isPending_congr hsame p).mpr hp, hfile⟩
  · intro u path perms hpatch
    by_cases hu : u = t
    · subst hu
      simp [setTracee] at hpatch
    · simp only [setTracee, Function.update_of_ne hu] at hpatch
      rw [hsame]
      exact hinv.patch u path perms hpatch
  · intro u hcall
    by_cases hu : u = t
    · subst hu
      simp [setTracee] at hcall
    · rw [hsame]
      exact hinv.idle u (by simpa [setTracee, Function.update_of_ne hu] using hcall)

theorem inv_leave (hinv : s.Inv) {reported : Bool} (hsound : s.Sound (.leave t reported))
    (h : s.leave t reported = some s') : s'.Inv := by
  unfold leave at h
  simp only [Option.ite_none_right_eq_some, Option.some.injEq] at h
  obtain ⟨⟨-, -, hreported⟩, rfl⟩ := h
  have hctx : (s.tracee t).ctx = [] := by
    rcases hsound with hsound | hsound
    · exact List.isEmpty_iff.mp (hreported hsound)
    · exact hsound
  have hsame : ∀ u, ((s.setTracee t { s.tracee t with call := none }).tracee u).ctx =
      (s.tracee u).ctx := setTracee_same (·.ctx) rfl
  have hpatches : ∀ u, ((s.setTracee t { s.tracee t with call := none }).tracee u).patch =
      (s.tracee u).patch := setTracee_same (·.patch) rfl
  refine ⟨?_, ?_, ?_, ?_⟩
  · intro u p hp
    rw [hsame] at hp
    obtain ⟨hreach, hmode⟩ := hinv.pending u p hp
    refine ⟨hreach, ?_⟩
    by_cases hu : u = t
    · subst hu
      rw [hctx] at hp
      cases hp
    · simpa [setTracee, Function.update_of_ne hu] using hmode
  · intro i
    rcases hinv.mode i with hmode | ⟨hmay, hwide, p, hp, hfile⟩
    · exact .inl hmode
    · exact .inr ⟨hmay, hwide, p, (isPending_congr hsame p).mpr hp, hfile⟩
  · intro u path perms hpatch
    rw [hsame]
    exact hinv.patch u path perms ((hpatches u).symm.trans hpatch)
  · intro u hcall
    rw [hsame]
    by_cases hu : u = t
    · exact hu ▸ hctx
    · exact hinv.idle u (by simpa [setTracee, Function.update_of_ne hu] using hcall)

/-! ## Looking and forcing -/

/-- **The node of a file**: it was reached, its bits are not all there, and the node has its mode,
or the mode that the guest asks for. -/
theorem hostPath_eq_some {fs : HostFiles} {euid : Id} {call : GuestCall}
    {isFinal : Bool} {node : ModifiedNode} {newMode : Perms}
    (h : hostPath fs euid call path isFinal = some (node, newMode)) :
    ∃ i, fs.reach path = some i ∧ node.path = path ∧
      newMode = forced (fs.directory i) (fs.mode i) ∧ ¬ Wide fs i (fs.mode i) ∧
        (node.mode = fs.mode i ∨ (isFinal = true ∧ call.asks = true)) := by
  unfold hostPath overridePermissions at h
  split_ifs at h with heuid hskip
  unfold HostFiles.stat at h
  cases hreach : fs.reach path with
  | none =>
    rw [hreach] at h
    cases h
  | some i =>
    rw [hreach] at h
    simp only [Option.map_some] at h
    split_ifs at h with hwide
    obtain ⟨mode, hmode, hnode⟩ := Option.map_eq_some_iff.mp h
    cases hnode
    refine ⟨i, rfl, rfl, rfl, hwide, ?_⟩
    unfold restoredMode at hmode
    split_ifs at hmode with hfinal
    · by_cases hasks : call.asks = true
      · exact .inr ⟨hfinal, hasks⟩
      · unfold GuestCall.asks at hasks
        split at hmode
        · rename_i hsysnum
          simp [hsysnum] at hasks
        · rename_i hsysnum
          simp [hsysnum] at hasks
        all_goals first | exact .inl (Option.some.inj hmode).symm | cases hmode
    · exact .inl (Option.some.inj hmode).symm

theorem inv_look (hinv : s.Inv) {isFinal : Bool}
    (h : s.look t path isFinal = some s') : s'.Inv := by
  unfold look at h
  dsimp only at h
  split at h
  · rename_i call hcall hpatch
    split at h
    · rename_i node newMode i hnode hreach
      cases h
      obtain ⟨i', hreach', hpath, hnew, hnarrow, hmode⟩ := hostPath_eq_some hnode
      rw [hreach] at hreach'
      cases hreach'
      have hbase := hinv.base_of_narrow hnarrow
      refine ⟨?_, ?_, ?_, ?_⟩
      · intro u p hp
        by_cases hu : u = t
        · subst hu
          simp only [setTracee, Function.update_self, List.mem_cons] at hp
          rcases hp with rfl | hp
          · -- the new node
            refine ⟨hpath ▸ hreach, ?_⟩
            rcases hmode with hmode | ⟨hfinal, hasks⟩
            · exact .inl (hmode.trans hbase)
            · exact .inr ⟨by simp [hfinal, hasks], by simp [setTracee, hfinal, hasks]⟩
          · obtain ⟨hreach, hmode⟩ := hinv.pending u p hp
            refine ⟨hreach, ?_⟩
            rcases hmode with hmode | ⟨hasked, hchanged⟩
            · exact .inl hmode
            · exact .inr ⟨hasked, by simp [setTracee, hchanged]⟩
        · simp only [setTracee, Function.update_of_ne hu] at hp
          obtain ⟨hreach, hmode⟩ := hinv.pending u p hp
          exact ⟨hreach, by simpa [setTracee, Function.update_of_ne hu] using hmode⟩
      · intro j
        rcases hinv.mode j with hj | ⟨hmay, hwide, p, ⟨u, hp⟩, hfile⟩
        · exact .inl hj
        · refine .inr ⟨hmay, hwide, p, ⟨u, ?_⟩, hfile⟩
          by_cases hu : u = t
          · subst hu
            simp [setTracee, hp]
          · simpa [setTracee, Function.update_of_ne hu] using hp
      · intro u path' perms hpatch'
        by_cases hu : u = t
        · subst hu
          simp only [setTracee, Function.update_self, Option.some.injEq, Prod.mk.injEq] at hpatch' ⊢
          obtain ⟨rfl, rfl⟩ := hpatch'
          exact ⟨_, List.mem_cons_self, hpath, _, hnew⟩
        · simp only [setTracee, Function.update_of_ne hu] at hpatch' ⊢
          exact hinv.patch u path' perms hpatch'
      · intro u hcall'
        by_cases hu : u = t
        · subst hu
          simp [setTracee, hcall] at hcall'
        · simp only [setTracee, Function.update_of_ne hu] at hcall' ⊢
          exact hinv.idle u hcall'
    · cases h
      exact hinv
  · cases h

/-- The final chmod(2) of an override keeps the invariant. -/
theorem inv_patch (hinv : s.Inv) (h : s.patch t = some s') : s'.Inv := by
  unfold patch at h
  dsimp only at h
  split at h
  · rename_i path perms hpatch
    cases h
    obtain ⟨p, hp, rfl, old, rfl⟩ := hinv.patch t path perms hpatch
    obtain ⟨hreach, -⟩ := hinv.pending t p hp
    rw [HostFiles.chmod_of_reach hreach]
    have hctx : ∀ u, ((s.setTracee t { s.tracee t with patch := none }).tracee u).ctx =
        (s.tracee u).ctx := setTracee_same (·.ctx) rfl
    have hchanged : ∀ u, ((s.setTracee t { s.tracee t with patch := none }).tracee u).changed =
        (s.tracee u).changed := setTracee_same (·.changed) rfl
    have hcall : ∀ u, ((s.setTracee t { s.tracee t with patch := none }).tracee u).call =
        (s.tracee u).call := setTracee_same (·.call) rfl
    have hpatches : ∀ u path perms,
        ((s.setTracee t { s.tracee t with patch := none }).tracee u).patch = some (path, perms) →
          (s.tracee u).patch = some (path, perms) := by
      intro u path perms hu'
      by_cases hu : u = t
      · subst hu
        simp [setTracee] at hu'
      · simpa [setTracee, Function.update_of_ne hu] using hu'
    split_ifs with hmay
    · refine ⟨?_, ?_, ?_, ?_⟩
      · intro u q hq
        rw [hctx] at hq
        obtain ⟨hreach', hmode'⟩ := hinv.pending u q hq
        refine ⟨HostFiles.reach_setMode hreach' ?_, ?_⟩
        · intro hway
          -- a file on the way is a directory, which PRoot may search when its bits are forced
          rw [HostFiles.reach_directory hreach' hway]
          exact HostFiles.searchable_forced hmay old
        · rw [hchanged]
          exact hmode'
      · intro i
        by_cases hi : i = p.file
        · subst hi
          refine .inr ⟨hmay, ?_, p, ⟨t, ?_⟩, rfl⟩
          · show forced _ (Function.update s.fs.mode p.file _ p.file) =
              Function.update s.fs.mode p.file _ p.file &&& rwxBits
            rw [Function.update_self]
            exact forced_wide _ old
          · rw [hctx]
            exact hp
        · have hsame : Function.update s.fs.mode p.file (forced (s.fs.directory p.file) old) i =
              s.fs.mode i := Function.update_of_ne hi _ _
          rcases hinv.mode i with hmode' | ⟨hmay', hwide, q, ⟨u, hq⟩, hfile⟩
          · exact .inl (hsame.trans hmode')
          · refine .inr ⟨hmay', ?_, q, ⟨u, by rw [hctx]; exact hq⟩, hfile⟩
            show Wide _ i (Function.update s.fs.mode p.file _ i)
            rw [hsame]
            exact hwide
      · intro u path' perms' hu
        rw [hctx]
        exact hinv.patch u path' perms' (hpatches u path' perms' hu)
      · intro u hu
        rw [hctx]
        rw [hcall] at hu
        exact hinv.idle u hu
    · refine ⟨?_, ?_, ?_, ?_⟩
      · intro u q hq
        rw [hctx] at hq
        obtain ⟨hreach', hmode'⟩ := hinv.pending u q hq
        exact ⟨hreach', by rw [hchanged]; exact hmode'⟩
      · intro i
        rcases hinv.mode i with hmode' | ⟨hmay', hwide, q, ⟨u, hq⟩, hfile⟩
        · exact .inl hmode'
        · exact .inr ⟨hmay', hwide, q, ⟨u, by rw [hctx]; exact hq⟩, hfile⟩
      · intro u path' perms' hu
        rw [hctx]
        exact hinv.patch u path' perms' (hpatches u path' perms' hu)
      · intro u hu
        rw [hctx]
        rw [hcall] at hu
        exact hinv.idle u hu
  · cases h

/-! ## The kernel -/

/-- The kernel's work keeps the invariant. -/
theorem inv_kernel (hinv : s.Inv) {find : CString → Option (List Inode × Inode)}
    {chmod : Option (Inode × Perms)} (hsound : s.KernelSound t find chmod)
    (h : s.kernel t find chmod = some s') : s'.Inv := by
  unfold kernel at h
  dsimp only at h
  split at h
  · rename_i call hcall hpatch
    split at h
    · cases h
      refine ⟨?_, ?_, hinv.patch, hinv.idle⟩
      · intro u p hp
        obtain ⟨hreach, hmode⟩ := hinv.pending u p hp
        exact ⟨HostFiles.reach_of hreach (hsound.name p ⟨u, hp⟩) rfl fun _ _ h => h, hmode⟩
      · exact hinv.mode
    · rename_i i perms
      split_ifs at h with hchmod
      cases h
      have hctx : ∀ u, ((s.setTracee t { s.tracee t with changed := true }).tracee u).ctx =
          (s.tracee u).ctx := setTracee_same (·.ctx) rfl
      have hpatches : ∀ u, ((s.setTracee t { s.tracee t with changed := true }).tracee u).patch =
          (s.tracee u).patch := setTracee_same (·.patch) rfl
      have hcalls : ∀ u, ((s.setTracee t { s.tracee t with changed := true }).tracee u).call =
          (s.tracee u).call := setTracee_same (·.call) rfl
      refine ⟨?_, ?_, ?_, ?_⟩
      · intro u p hp
        rw [hctx] at hp
        obtain ⟨hreach, hmode⟩ := hinv.pending u p hp
        constructor
        · refine HostFiles.reach_of hreach (hsound.name p ⟨u, hp⟩) rfl ?_
          intro d hd hsearch
          show s.fs.searchable d (Function.update s.fs.mode i perms d) = true
          by_cases hdi : d = i
          · subst hdi
            rw [Function.update_self]
            exact hsound.way d perms rfl p ⟨u, hp⟩ hd
          · rw [Function.update_of_ne hdi]
            exact hsearch
        · show p.node.mode = Function.update s.base i perms p.file ∨ _
          by_cases hfile : p.file = i
          · rw [hfile, Function.update_self]
            exact .inl (hsound.mode i perms rfl p ⟨u, hp⟩ hfile)
          · rw [Function.update_of_ne hfile]
            rcases hmode with hmode | ⟨hasked, hchanged⟩
            · exact .inl hmode
            · by_cases hu : u = t
              · subst hu
                exact absurd (hsound.asked i perms rfl p hp hasked) hfile
              · exact .inr ⟨hasked, by simpa [setTracee, Function.update_of_ne hu] using hchanged⟩
      · intro j
        show Function.update s.fs.mode i perms j = Function.update s.base i perms j ∨ _
        by_cases hj : j = i
        · subst hj
          rw [Function.update_self, Function.update_self]
          exact .inl rfl
        · rw [Function.update_of_ne hj, Function.update_of_ne hj]
          rcases hinv.mode j with hmode | ⟨hmay, hwide, p, ⟨u, hp⟩, hfile⟩
          · exact .inl hmode
          · refine .inr ⟨hmay, ?_, p, ⟨u, by rw [hctx]; exact hp⟩, hfile⟩
            show Wide s.fs j (Function.update s.fs.mode i perms j)
            rw [Function.update_of_ne hj]
            exact hwide
      · intro u path perms' hu
        rw [hctx]
        exact hinv.patch u path perms' ((hpatches u).symm.trans hu)
      · intro u hu
        rw [hctx]
        exact hinv.idle u ((hcalls u).symm.trans hu)
  · cases h

/-! ## Restoring -/

/-- The destructors give the bits back. -/
theorem inv_restore (hinv : s.Inv) (hsound : s.Sound (.restore t)) (h : s.restore t = some s') :
    s'.Inv := by
  unfold restore at h
  dsimp only at h
  split at h
  · rename_i p rest hpatch hctx
    cases h
    have hsound := hsound p rest hctx
    have hp : p ∈ (s.tracee t).ctx := by
      rw [hctx]
      exact List.mem_cons_self
    obtain ⟨hreach, hmode⟩ := hinv.pending t p hp
    have hbase : p.node.mode = s.base p.file := by
      rcases hmode with hmode | ⟨hasked, hchanged⟩
      · exact hmode
      · rw [hsound.asked hasked] at hchanged
        cases hchanged
    -- the nodes that are left
    have hleft : ∀ u q, q ∈ ((s.setTracee t { s.tracee t with ctx := rest }).tracee u).ctx →
        q ∈ (s.tracee u).ctx ∧ (q ∈ rest ∨ ∃ u, u ≠ t ∧ q ∈ (s.tracee u).ctx) := by
      intro u q hq
      by_cases hu : u = t
      · subst hu
        simp only [setTracee, Function.update_self] at hq
        exact ⟨by rw [hctx]; exact List.mem_cons_of_mem _ hq, .inl hq⟩
      · simp only [setTracee, Function.update_of_ne hu] at hq
        exact ⟨hq, .inr ⟨u, hu, hq⟩⟩
    have hstay : ∀ u q, q ∈ (s.tracee u).ctx → q.file ≠ p.file →
        q ∈ ((s.setTracee t { s.tracee t with ctx := rest }).tracee u).ctx := by
      intro u q hq hne
      by_cases hu : u = t
      · subst hu
        simp only [setTracee, Function.update_self]
        rw [hctx, List.mem_cons] at hq
        rcases hq with rfl | hq
        · exact absurd rfl hne
        · exact hq
      · simpa only [setTracee, Function.update_of_ne hu] using hq
    have hchanged : ∀ u, ((s.setTracee t { s.tracee t with ctx := rest }).tracee u).changed =
        (s.tracee u).changed := setTracee_same (·.changed) rfl
    have hpatches : ∀ u path perms,
        ((s.setTracee t { s.tracee t with ctx := rest }).tracee u).patch = some (path, perms) →
          u ≠ t ∧ (s.tracee u).patch = some (path, perms) := by
      intro u path perms hu'
      by_cases hu : u = t
      · subst hu
        simp [setTracee, hpatch] at hu'
      · exact ⟨hu, by simpa [setTracee, Function.update_of_ne hu] using hu'⟩
    have hidle : ∀ u, ((s.setTracee t { s.tracee t with ctx := rest }).tracee u).call = none →
        ((s.setTracee t { s.tracee t with ctx := rest }).tracee u).ctx = [] := by
      intro u hu'
      by_cases hu : u = t
      · subst hu
        simp only [setTracee, Function.update_self] at hu'
        rw [hinv.idle u hu'] at hctx
        cases hctx
      · simp only [setTracee, Function.update_of_ne hu] at hu' ⊢
        exact hinv.idle u hu'
    unfold restoreMode
    rw [HostFiles.chmod_of_reach hreach]
    refine ⟨?_, ?_, ?_, hidle⟩
    · intro u q hq
      obtain ⟨hq, hother⟩ := hleft u q hq
      obtain ⟨hreach', hmode'⟩ := hinv.pending u q hq
      refine ⟨?_, by rw [hchanged]; exact hmode'⟩
      split_ifs with hmay
      · exact HostFiles.reach_setMode hreach' (hsound.way q hother)
      · exact hreach'
    · intro i
      by_cases hi : i = p.file
      · subst hi
        left
        split_ifs with hmay
        · show Function.update s.fs.mode p.file p.node.mode p.file = s.base p.file
          rw [Function.update_self, hbase]
        · rcases hinv.mode p.file with hmode' | ⟨hmay', -⟩
          · exact hmode'
          · exact absurd hmay' hmay
      · have hsame : (if s.fs.mayChmod p.file = true then s.fs.setMode p.file p.node.mode
            else s.fs).mode i = s.fs.mode i := by
          split_ifs
          · exact Function.update_of_ne hi _ _
          · rfl
        have hfiles : ∀ fs', fs' = (if s.fs.mayChmod p.file = true then
            s.fs.setMode p.file p.node.mode else s.fs) → fs'.mayChmod i = s.fs.mayChmod i ∧
              (Wide fs' i (fs'.mode i) ↔ Wide s.fs i (s.fs.mode i)) := by
          rintro fs' rfl
          unfold Wide
          rw [hsame]
          split_ifs <;> exact ⟨rfl, Iff.rfl⟩
        rcases hinv.mode i with hmode' | ⟨hmay', hwide, q, ⟨u, hq⟩, rfl⟩
        · exact .inl (hsame.trans hmode')
        · obtain ⟨hmay, hwide'⟩ := hfiles _ rfl
          exact .inr ⟨hmay.trans hmay', hwide'.mpr hwide, q, ⟨u, hstay u q hq hi⟩, rfl⟩
    · intro u path perms hu
      obtain ⟨hne, hu⟩ := hpatches u path perms hu
      obtain ⟨q, hq, hpath, old, hold⟩ := hinv.patch u path perms hu
      refine ⟨q, ?_, hpath, old, ?_⟩
      · simpa only [setTracee, Function.update_of_ne hne] using hq
      · rw [hold]
        split_ifs <;> rfl
  · cases h

theorem inv_step (hinv : s.Inv) {e : OverrideEvent} (hsound : s.Sound e) (h : s.step e = some s') :
    s'.Inv := by
  cases e with
  | enter t euid call => exact inv_enter hinv h
  | look t path isFinal => exact inv_look hinv h
  | patch t => exact inv_patch hinv h
  | kernel t find chmod => exact inv_kernel hinv hsound h
  | restore t => exact inv_restore hinv hsound h
  | leave t reported => exact inv_leave hinv hsound h

end OverrideState

/-- **No trace is left**: along every run whose steps do not reach the defects, whenever no call is
in progress every file has the bits that it had at the start, or since the last chmod(2) of a guest.
-/
theorem override_leaves_no_trace {s : OverrideState}
    (h : overrideSystem.Reach OverrideState.Sound s) (hidle : s.Idle) (i : Inode) :
    s.fs.mode i = s.base i := by
  have hinv : OverrideState.Inv s := System.Reach.invariant
    (fun _ hstart => OverrideState.Start.inv hstart)
    (fun _ _ _ hinv hsound hstep => OverrideState.inv_step hinv hsound hstep) h
  rcases hinv.mode i with hmode | ⟨-, -, p, ⟨t, hp⟩, -⟩
  · exact hmode
  · rw [hinv.idle t (hidle t)] at hp
    cases hp

/-! ## A small host -/

def smallHost : HostFiles where
  find path := if path = ['/', 'f'] then some ([0], 1) else none
  mode i := if i = 0 then 0o755 else 0o400
  directory i := i = 0
  rights _ := .user
  skipped _ := false

def smallState : OverrideState where
  fs := smallHost
  base := smallHost.mode
  tracee _ := ⟨0, none, [], none, false⟩

theorem smallState_start : smallState.Start := ⟨fun _ => rfl, fun _ => rfl, fun _ => rfl, rfl⟩

def afterEvents (events : List OverrideEvent) : OverrideState :=
  events.foldl (fun s e => (s.step e).getD s) smallState

def openEvents : List OverrideEvent :=
  [.enter 0 0 ⟨.PR_open, 0, 0⟩, .look 0 ['/', 'f'] true, .patch 0]

def openedEvents : List OverrideEvent :=
  openEvents ++ [.kernel 0 smallHost.find none, .restore 0, .leave 0 true]

theorem override_leaves_no_trace_open :
    (afterEvents openedEvents).fs.mode 1 = (afterEvents openedEvents).base 1 := by
  have hforced : overrideSystem.Reach OverrideState.Sound (afterEvents openEvents) :=
    System.Reach.exec_along (.start smallState_start)
      (show overrideSystem.Along OverrideState.Sound smallState openEvents from
        ⟨trivial, fun _ _ => ⟨trivial, fun _ _ => ⟨trivial, fun _ _ => trivial⟩⟩⟩) rfl
  have hkernel : overrideSystem.Reach OverrideState.Sound
      (afterEvents (openEvents ++ [.kernel 0 smallHost.find none])) :=
    System.Reach.next (e := .kernel 0 smallHost.find none) hforced
      (show OverrideState.KernelSound (afterEvents openEvents) 0 smallHost.find none from
        ⟨fun _ _ => rfl, nofun, nofun, nofun⟩) rfl
  have hrestored : overrideSystem.Reach OverrideState.Sound
      (afterEvents (openEvents ++ [.kernel 0 smallHost.find none, .restore 0])) := by
    refine System.Reach.next (e := .restore 0) hkernel ?_ rfl
    intro p rest hctx
    change [_] = p :: rest at hctx
    obtain ⟨rfl, rfl⟩ := List.cons_eq_cons.mp hctx
    refine ⟨nofun, ?_⟩
    rintro q (hq | ⟨u, hu, hq⟩)
    · cases hq
    · cases u with
      | zero => exact absurd rfl hu
      | succ u => cases hq
  have hdone : overrideSystem.Reach OverrideState.Sound (afterEvents openedEvents) := by
    refine System.Reach.next (e := .leave 0 true) hrestored ?_ rfl
    exact Or.inl rfl
  refine override_leaves_no_trace hdone ?_ 1
  intro t
  cases t with
  | zero | succ => rfl

def renamedEvents : List OverrideEvent :=
  [.enter 0 0 ⟨.PR_rename, 0, 0⟩, .look 0 ['/', 'f'] true, .patch 0,
    .kernel 0 (fun path => if path = ['/', 'g'] then some ([0], 1) else none) none, .restore 0,
    .leave 0 true]

/-- The file keeps the bits that were forced: its former name is not found any more. -/
theorem override_leaves_trace : ∃ s, overrideSystem.Reach System.Always s ∧ s.Idle ∧
    ∃ i, s.fs.mode i ≠ s.base i := by
  refine ⟨afterEvents renamedEvents, ?_, ?_, 1, by decide⟩
  · exact System.Reach.exec (.start smallState_start)
      (show overrideSystem.exec smallState renamedEvents = some _ from rfl)
  · intro t
    cases t with
    | zero | succ => rfl

end Improot.Extension
