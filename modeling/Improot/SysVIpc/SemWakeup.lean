import Improot.SysVIpc.Step

/-!
# Wake-ups of semaphores

A tracee that waits for a semaphore set should not be able to do its operations. Two steps can leave
one that could: `SETVAL` wakes nobody, and the loop of `sysvipc_semop` goes over the other tracees
once, so that a tracee it went past may be enabled by one that it wakes later. A run without such
steps loses no wake-up.
-/

namespace Improot.SysVIpc

/-! ## The invariant -/

def Executable (sems : List Nat) (sops : List Sembuf) : Prop :=
  ∃ sems', semCheck sems sops = .done sems'

def World.NoLostWakeup (w : World) : Prop :=
  ∀ t ∈ w.tracees, t.config.waitReason = .waitSemop →
    ∀ semaphore, w.semaphores[t.config.waitingObjectIndex]? = some semaphore →
      semaphore.valid = true → ¬ Executable semaphore.sems t.config.semopSops

def World.SetsLive (w : World) : Prop :=
  ∀ t ∈ w.tracees, t.config.waitReason = .waitSemop →
    ∃ semaphore, w.semaphores[t.config.waitingObjectIndex]? = some semaphore ∧
      semaphore.valid = true

/-! ## The loop of semop -/

def settle (pid index : Nat) : List Nat → List Tracee → List Nat
  | sems, [] => sems
  | sems, t :: ts =>
      if t.examined pid index then
        match semCheck sems t.config.semopSops with
        | .done sems => settle pid index sems ts
        | _ => settle pid index sems ts
      else settle pid index sems ts

/-- No tracee that the loop goes past is enabled by those that it wakes after it. -/
def Undisturbed (pid index : Nat) : List Nat → List Tracee → Prop
  | _, [] => True
  | sems, t :: ts =>
      if t.examined pid index then
        match semCheck sems t.config.semopSops with
        | .wait =>
            ¬ Executable (settle pid index sems ts) t.config.semopSops ∧ Undisturbed pid index sems ts
        | .failed _ => Undisturbed pid index sems ts
        | .done sems => Undisturbed pid index sems ts
      else Undisturbed pid index sems ts

def Tracee.Stuck (pid index : Nat) (sems : List Nat) (t : Tracee) : Prop :=
  t.examined pid index = true → ¬ Executable sems t.config.semopSops

/-- **The loop leaves the settled values**, and no tracee that waits could go on if and only if none
was disturbed. -/
theorem semopPass_spec {pid index : Nat} {sems sems' : List Nat} {ts ts' : List Tracee}
    (hphases : ∀ t ∈ ts, t.Phase) (h : semopPass pid index sems ts = .ok (sems', ts')) :
    sems' = settle pid index sems ts ∧
      (Undisturbed pid index sems ts ↔ ∀ t ∈ ts', t.Stuck pid index sems') := by
  induction ts generalizing sems ts' with
  | nil =>
      cases h
      exact ⟨rfl, by simp [Undisturbed]⟩
  | cons t ts ih =>
      have ih := fun sems ts' => @ih sems ts' fun t ht => hphases t (List.mem_cons_of_mem _ ht)
      rw [semopPass] at h
      rw [settle, Undisturbed]
      by_cases hex : t.examined pid index = true
      · obtain ⟨-, hwake⟩ := (hphases t List.mem_cons_self).of_examined hex
        -- a tracee that was woken isn't examined any more
        have hwoken : ∀ status sems, ({ t with config :=
            { t.config.woken .notChained status with semopSops := [] } } : Tracee).Stuck
              pid index sems := by
          intro status sems hex
          simp only [Tracee.examined, Bool.and_eq_true] at hex
          exact absurd (Config.waitsOn_kind hex.2).1 (by simp [Config.woken])
        rw [if_pos hex, if_pos hex]
        rw [if_pos hex] at h
        cases hcheck : semCheck sems t.config.semopSops with
        | wait =>
            simp only [hcheck, bind_eq_ok] at h
            obtain ⟨⟨_, _⟩, hrest, h⟩ := h
            cases h
            obtain ⟨hsettle, hiff⟩ := ih _ _ hrest
            refine ⟨hsettle, ?_⟩
            rw [List.forall_mem_cons, ← hiff, ← hsettle]
            exact and_congr_left fun _ => ⟨fun h _ => h, fun h => h hex⟩
        | failed | done =>
            simp only [hcheck, hwake, bind_eq_ok] at h
            obtain ⟨_, heq, ⟨_, _⟩, hrest, h⟩ := h
            cases heq
            cases h
            obtain ⟨hsettle, hiff⟩ := ih _ _ hrest
            refine ⟨hsettle, ?_⟩
            rw [List.forall_mem_cons, ← hiff]
            exact ⟨fun h => ⟨hwoken _ _, h⟩, And.right⟩
      · rw [if_neg hex, if_neg hex]
        rw [if_neg hex] at h
        simp only [bind_eq_ok] at h
        obtain ⟨⟨_, _⟩, hrest, h⟩ := h
        cases h
        obtain ⟨hsettle, hiff⟩ := ih _ _ hrest
        refine ⟨hsettle, ?_⟩
        rw [List.forall_mem_cons, ← hiff]
        exact ⟨fun h => ⟨fun h' => absurd h' hex, h⟩, And.right⟩

theorem settle_stuck {pid index : Nat} {sems : List Nat} {ts : List Tracee}
    (h : ∀ t ∈ ts, t.Stuck pid index sems) : settle pid index sems ts = sems := by
  induction ts with
  | nil => rfl
  | cons t ts ih =>
      obtain ⟨ht, hts⟩ := List.forall_mem_cons.mp h
      rw [settle]
      by_cases hex : t.examined pid index = true
      · rw [if_pos hex]
        cases hcheck : semCheck sems t.config.semopSops with
        | wait | failed => exact ih hts
        | done sems' => exact absurd ⟨sems', hcheck⟩ (ht hex)
      · rw [if_neg hex]
        exact ih hts

/-! ## The steps that keep it -/

def semopAccepts (m : GuestMemory) (semaphore : Semaphore) (ptr nsops : Word) (sops : List Sembuf) :
    Prop :=
  nsops.toNat ≤ maxNsops ∧ nsops.toNat ≠ 0 ∧ m.readSops ptr nsops.toNat = .ok sops ∧
    ∀ sop ∈ sops, sop.semNum.toNat < semaphore.nsems

def setvalAccepts (semaphore : Semaphore) (semnum cmd cmdarg : Word) : Prop :=
  int cmd &&& ~~~ipc64 = semSetval ∧ cmdarg.toNat ≤ maxSemval ∧
    0 ≤ (int semnum).toInt ∧ (int semnum).toInt < semaphore.nsems

/-- The condition on semctl(2): a value that `SETVAL` stores enables no tracee that waits. -/
def SetvalKeepsStuck (w : World) (id semnum cmd arg : Word) : Prop :=
  ∀ index semaphore, lookupIpcObject w.semaphores id = some (index, semaphore) →
    setvalAccepts semaphore semnum cmd arg →
    ∀ t ∈ w.tracees, t.config.waitsOn .waitSemop index = true →
      ¬ Executable (semaphore.sems.set (int semnum).toInt.toNat arg.toNat) t.config.semopSops

/-- The condition on semop(2): its loop disturbs no tracee that waits. -/
def SemopKeepsStuck (m : GuestMemory) (w : World) (pid : Nat) (id ptr nsops : Word) : Prop :=
  ∀ index semaphore sops, lookupIpcObject w.semaphores id = some (index, semaphore) →
    semopAccepts m semaphore ptr nsops sops →
    Undisturbed pid index ((semCheck semaphore.sems sops).values semaphore.sems) w.tracees

def Event.KeepsStuck (w : World) : Event → Prop
  | .call _ _ _ (.semctl id semnum cmd arg) => SetvalKeepsStuck w id semnum cmd arg
  | .call pid m _ (.semop id ptr nsops) => SemopKeepsStuck m w pid id ptr nsops
  | _ => True

structure World.SemInvariant (w : World) : Prop where
  noLostWakeup : w.NoLostWakeup
  setsLive : w.SetsLive

section Frame

variable {w w' : World}

theorem World.SemInvariant.frame (h : w.SemInvariant) (hsets : w'.semaphores = w.semaphores)
    (hwaiting : ∀ u ∈ w'.tracees, u.config.waitReason = .waitSemop →
      ∃ v ∈ w.tracees, v.SameWait u) : w'.SemInvariant := by
  constructor
  · intro u hu hreason semaphore hget hvalid
    obtain ⟨v, hv, hsame⟩ := hwaiting u hu hreason
    rw [hsame.waitingObjectIndex, hsets] at hget
    rw [hsame.semopSops]
    exact h.noLostWakeup v hv (hsame.waitReason ▸ hreason) semaphore hget hvalid
  · intro u hu hreason
    obtain ⟨v, hv, hsame⟩ := hwaiting u hu hreason
    rw [hsame.waitingObjectIndex, hsets]
    exact h.setsLive v hv (hsame.waitReason ▸ hreason)

theorem Turn.semInvariant {kind : Kind} {t t' : Tracee} (h : Turn kind w t t' w')
    (hkind : kind ≠ .semaphore) (ht : t ∈ w.tracees) (hw : w.SemInvariant) : w'.SemInvariant := by
  refine hw.frame (h.semaphores hkind) fun u hu hreason => ?_
  have hsem : u.config.waitReason.kind = some .semaphore := by rw [hreason]; rfl
  exact (h.waiting_before ht hu hsem).resolve_right fun h => hkind h.symm

end Frame

/-! ## The system calls on semaphores -/

section Calls

variable {m : GuestMemory} {w w₁ : World} {t t₁ t' : Tracee} {status : Status}

/-- Who waits for a set after a system call: the caller, or one who waited before and wasn't
woken. -/
theorem waiting_after (hhandled : Handled .semaphore w t t₁ w₁) (hsame : t₁.SameWait t')
    {u : Tracee} (hu : u ∈ (w₁.setTracee t').tracees) (hreason : u.config.waitReason = .waitSemop) :
    t₁.SameWait u ∧ u.pid = t'.pid ∨ u ∈ w.tracees ∧ u ∈ w₁.tracees ∧ u.pid ≠ t'.pid := by
  rcases mem_setTracee hu with rfl | ⟨hu, hpid⟩
  · exact .inl ⟨hsame, rfl⟩
  · exact .inr ⟨hhandled.tracees.waiting hu (by simp [hreason]), hu, hpid⟩

theorem World.SemInvariant.call_frame (hw : w.SemInvariant)
    (hhandled : Handled .semaphore w t t₁ w₁) (hsame : t₁.SameWait t')
    (hdone : t₁.config.waitReason = .notWaiting)
    (hsets : ∀ u ∈ w₁.tracees, u.config.waitReason = .waitSemop →
      w₁.semaphores[u.config.waitingObjectIndex]? = w.semaphores[u.config.waitingObjectIndex]?) :
    (w₁.setTracee t').SemInvariant := by
  have hwaits : ∀ u ∈ (w₁.setTracee t').tracees, u.config.waitReason = .waitSemop →
      u ∈ w.tracees ∧ u ∈ w₁.tracees := by
    intro u hu hreason
    rcases waiting_after hhandled hsame hu hreason with ⟨hsame, -⟩ | ⟨hu, hu₁, -⟩
    · rw [hsame.waitReason, hdone] at hreason
      cases hreason
    · exact ⟨hu, hu₁⟩
  constructor
  · intro u hu hreason semaphore hget hvalid
    obtain ⟨hu, hu₁⟩ := hwaits u hu hreason
    rw [show (w₁.setTracee t').semaphores = w₁.semaphores from rfl, hsets u hu₁ hreason] at hget
    exact hw.noLostWakeup u hu hreason semaphore hget hvalid
  · intro u hu hreason
    obtain ⟨hu, hu₁⟩ := hwaits u hu hreason
    rw [show (w₁.setTracee t').semaphores = w₁.semaphores from rfl, hsets u hu₁ hreason]
    exact hw.setsLive u hu hreason

theorem World.SemInvariant.call_same (hw : w.SemInvariant) (hhandled : Handled .semaphore w t t w)
    (hsame : t.SameWait t') (hdone : t.config.waitReason = .notWaiting) :
    (w.setTracee t').SemInvariant :=
  hw.call_frame hhandled hsame hdone fun _ _ _ => rfl

theorem semget_live {key nsems semflg : Word} {index : Nat} {semaphore : Semaphore}
    (hget : w.semaphores[index]? = some semaphore) (hvalid : semaphore.valid = true) :
    (semget w key nsems semflg).2.semaphores[index]? = some semaphore := by
  have hlt : index < w.semaphores.length := (List.getElem?_eq_some_iff.mp hget).1
  unfold semget semgetSlot
  dsimp only
  split <;> rename_i hslot <;> split at hslot <;> (try split at hslot) <;> (try split at hslot) <;>
    (try split at hslot) <;> (try split at hslot) <;> cases hslot <;> try exact hget
  · rename_i unused _ _ _ _ _ hunused
    obtain ⟨object, hobject, hinvalid⟩ := unusedSlot_some hunused
    have hne : unused ≠ index := by
      rintro rfl
      rw [hget] at hobject
      cases hobject
      rw [show semaphore.valid = false from hinvalid] at hvalid
      cases hvalid
    show (w.semaphores.set unused _)[index]? = _
    rw [List.getElem?_set_ne hne]
    exact hget
  · show (w.semaphores ++ [_])[index]? = _
    rw [List.getElem?_append_left hlt]
    exact hget

theorem semget_step (hw : w.SemInvariant) {key nsems semflg : Word} (ht : t.Calls)
    (hhandled : Handled .semaphore w t t (semget w key nsems semflg).2) (hsame : t.SameWait t') :
    ((semget w key nsems semflg).2.setTracee t').SemInvariant := by
  refine hw.call_frame hhandled hsame ht.waitReason fun u hu hreason => ?_
  have hu : u ∈ w.tracees := hhandled.tracees.waiting hu (by simp [hreason])
  obtain ⟨semaphore, hget, hvalid⟩ := hw.setsLive u hu hreason
  rw [hget, semget_live hget hvalid]

/-- `SETVAL` wakes nobody, which is right if nobody can go on. -/
theorem setval_step (hw : w.SemInvariant) (ht : t.Calls)
    (hstale : ∀ u ∈ w.tracees, u.pid = t.pid → u.config.waitReason = .notWaiting) {index : Nat}
    {semaphore : Semaphore} {sems : List Nat} (hget : w.semaphores[index]? = some semaphore)
    (hvalid : semaphore.valid = true) (hsame : t.SameWait t') (hpid : t'.pid = t.pid) :
    (({ w with semaphores := w.semaphores.set index { semaphore with sems } }).setTracee
        t').SetsLive ∧
      ((({ w with semaphores := w.semaphores.set index { semaphore with sems } }).setTracee
        t').NoLostWakeup ↔
        ∀ u ∈ w.tracees, u.config.waitsOn .waitSemop index = true →
          ¬ Executable sems u.config.semopSops) := by
  have hlt : index < w.semaphores.length := (List.getElem?_eq_some_iff.mp hget).1
  have hself : (w.semaphores.set index { semaphore with sems })[index]? =
      some { semaphore with sems } := List.getElem?_set_self hlt
  have hwaits : ∀ u ∈ (({ w with
      semaphores := w.semaphores.set index { semaphore with sems } } : World).setTracee t').tracees,
      u.config.waitReason = .waitSemop → u ∈ w.tracees := by
    intro u hu hreason
    rcases mem_setTracee hu with rfl | ⟨hu, -⟩
    · rw [hsame.waitReason, ht.waitReason] at hreason
      cases hreason
    · exact hu
  refine ⟨?_, ?_, ?_⟩
  · intro u hu hreason
    obtain ⟨s, hs, hlive⟩ := hw.setsLive u (hwaits u hu hreason) hreason
    by_cases hindex : u.config.waitingObjectIndex = index
    · rw [hindex]
      exact ⟨_, hself, hvalid⟩
    · refine ⟨s, ?_, hlive⟩
      show (w.semaphores.set index _)[_]? = _
      rw [List.getElem?_set_ne (Ne.symm hindex)]
      exact hs
  · intro hlost u hu hwaitsOn
    obtain ⟨hreason, hindex⟩ := Config.waitsOn_kind hwaitsOn
    have hne : u.pid ≠ t'.pid := by
      intro h
      rw [hstale u hu (h.trans hpid)] at hreason
      cases hreason
    exact hlost u (setTracee_mem_of_ne hu hne) hreason { semaphore with sems }
      (by rw [hindex]; exact hself) hvalid
  · intro hstuck u hu hreason s hs hlive
    have hu := hwaits u hu hreason
    by_cases hindex : u.config.waitingObjectIndex = index
    · rw [hindex] at hs
      cases hself.symm.trans hs
      exact hstuck u hu (by simp [Config.waitsOn, hreason, hindex])
    · rw [show (World.setTracee _ t').semaphores = w.semaphores.set index { semaphore with sems }
        from rfl, List.getElem?_set_ne (Ne.symm hindex)] at hs
      exact hw.noLostWakeup u hu hreason s hs hlive

/-- A semctl(2) keeps the invariant, but for a `SETVAL` that would unblock someone. -/
theorem semctl_step (hregular : w.Regular) (hw : w.SemInvariant) (ht : t.Calls)
    (hstale : ∀ u ∈ w.tracees, u.pid = t.pid → u.config.waitReason = .notWaiting)
    {id semnum cmd arg : Word} (h : semctl m w t id semnum cmd arg = .ok (status, t₁, w₁))
    (hhandled : Handled .semaphore w t t₁ w₁) (hsame : t₁.SameWait t') (hpid : t'.pid = t.pid) :
    (w₁.setTracee t').SetsLive ∧
      ((w₁.setTracee t').NoLostWakeup ↔ SetvalKeepsStuck w id semnum cmd arg) := by
  -- a call that doesn't store a value meets the condition
  have hother : (w₁.setTracee t').SemInvariant → SetvalKeepsStuck w id semnum cmd arg →
      (w₁.setTracee t').SetsLive ∧
        ((w₁.setTracee t').NoLostWakeup ↔ SetvalKeepsStuck w id semnum cmd arg) :=
    fun h hkeeps => ⟨h.setsLive, iff_of_true h.noLostWakeup hkeeps⟩
  unfold semctl at h
  split at h
  · rename_i hlookup
    cases h
    exact hother (hw.call_same hhandled hsame ht.waitReason) (by simp [SetvalKeepsStuck, hlookup])
  · rename_i index semaphore hlookup
    obtain ⟨hget, hvalid, -⟩ := lookupIpcObject_some hlookup
    have hkeeps : ¬ setvalAccepts semaphore semnum cmd arg →
        SetvalKeepsStuck w id semnum cmd arg := by
      intro hnot i s hi haccepts
      rw [hlookup] at hi
      cases hi
      exact absurd haccepts hnot
    have hcmd : int cmd &&& ~~~ipc64 ≠ semSetval → SetvalKeepsStuck w id semnum cmd arg :=
      fun hne => hkeeps fun h => hne h.1
    dsimp only at h
    split at h
    · rename_i heq
      have hkeeps := hcmd (by rw [heq]; decide)
      split at h <;> cases h <;> exact hother (hw.call_same hhandled hsame ht.waitReason) hkeeps
    split at h
    · rename_i heq
      split at h
      · rename_i hrange
        cases h
        exact hother (hw.call_same hhandled hsame ht.waitReason)
          (hkeeps fun h => absurd h.2.1 (by omega))
      rename_i hrange
      split at h
      · rename_i hnum
        cases h
        exact hother (hw.call_same hhandled hsame ht.waitReason)
          (hkeeps fun h => absurd h.2.2 (by omega))
      · rename_i hnum
        cases h
        obtain ⟨hlive, hiff⟩ := setval_step hw ht hstale hget hvalid hsame hpid
        refine ⟨hlive, hiff.trans ⟨?_, ?_⟩⟩
        · intro hstuck i s hi _
          rw [hlookup] at hi
          cases hi
          exact hstuck
        · intro hstuck
          exact hstuck index semaphore hlookup ⟨heq, by omega, by omega, by omega⟩
    rename_i hne
    have hkeeps := hcmd hne
    split at h
    · split at h <;> cases h <;> exact hother (hw.call_same hhandled hsame ht.waitReason) hkeeps
    split at h
    · obtain ⟨tracees, hwake, h⟩ := bind_eq_ok.mp h
      cases h
      have hwoken := (wakeEach_wakes .semaphore (fun c => waitsOn_reason_kind rfl) hregular.phases
        hwake).2
      refine hother (hw.call_frame hhandled hsame ht.waitReason fun u hu hreason => ?_) hkeeps
      -- whoever still waits, waits for another set
      have hindex : u.config.waitingObjectIndex ≠ index := by
        intro hindex
        rcases hwoken u hu with hfalse | hnone
        · simp [Config.waitsOn, hreason, hindex] at hfalse
        · rw [hnone] at hreason
          cases hreason
      show (w.semaphores.set index _)[_]? = _
      rw [List.getElem?_set_ne (Ne.symm hindex)]
    split at h
    · split at h <;> cases h <;> exact hother (hw.call_same hhandled hsame ht.waitReason) hkeeps
    · cases h
      exact hother (hw.call_same hhandled hsame ht.waitReason) hkeeps

/-- **semop(2)** loses a wake-up when its loop disturbs a tracee it went past. -/
theorem semop_step (hregular : w.Regular) (hw : w.SemInvariant) (ht : t.Calls)
    {id ptr nsops : Word} (h : semop m w t id ptr nsops = .ok (status, t₁, w₁))
    (hhandled : Handled .semaphore w t t₁ w₁) (hsame : t₁.SameWait t') (hpid : t'.pid = t.pid) :
    (w₁.setTracee t').SetsLive ∧
      ((w₁.setTracee t').NoLostWakeup ↔ SemopKeepsStuck m w t.pid id ptr nsops) := by
  have hother : w₁ = w ∧ t₁ = t → SemopKeepsStuck m w t.pid id ptr nsops →
      (w₁.setTracee t').SetsLive ∧
        ((w₁.setTracee t').NoLostWakeup ↔ SemopKeepsStuck m w t.pid id ptr nsops) := by
    rintro ⟨rfl, rfl⟩ hkeeps
    have h := hw.call_same hhandled hsame ht.waitReason
    exact ⟨h.setsLive, iff_of_true h.noLostWakeup hkeeps⟩
  unfold semop at h
  split at h
  · rename_i hlookup
    cases h
    exact hother ⟨rfl, rfl⟩ (by simp [SemopKeepsStuck, hlookup])
  rename_i index semaphore hlookup
  obtain ⟨hget, hvalid, -⟩ := lookupIpcObject_some hlookup
  have hlt : index < w.semaphores.length := (List.getElem?_eq_some_iff.mp hget).1
  have hkeeps : (∀ sops, ¬ semopAccepts m semaphore ptr nsops sops) →
      SemopKeepsStuck m w t.pid id ptr nsops := by
    intro hnot i s sops hi haccepts
    rw [hlookup] at hi
    cases hi
    exact absurd haccepts (hnot sops)
  split at h
  · cases h
    exact hother ⟨rfl, rfl⟩ (hkeeps fun _ h => absurd h.1 (by omega))
  split at h
  · rename_i hzero
    cases h
    exact hother ⟨rfl, rfl⟩ (hkeeps fun _ h => h.2.1 hzero)
  split at h
  · rename_i hread
    cases h
    refine hother ⟨rfl, rfl⟩ (hkeeps fun _ h => ?_)
    cases hread.symm.trans h.2.2.1
  rename_i sops hread
  split at h
  · rename_i hany
    cases h
    refine hother ⟨rfl, rfl⟩ (hkeeps fun sops' h => ?_)
    obtain ⟨-, -, hsops, hall⟩ := h
    cases hread.symm.trans hsops
    obtain ⟨sop, hsop, hge⟩ := List.any_eq_true.mp hany
    exact absurd (hall sop hsop) (by simpa using hge)
  rename_i hzero _ hany
  have haccepts : semopAccepts m semaphore ptr nsops sops := by
    refine ⟨by omega, hzero, hread, fun sop hsop => ?_⟩
    simp only [List.any_eq_true, not_exists, not_and, decide_eq_true_eq] at hany
    have := hany sop hsop
    omega
  obtain ⟨⟨sems, tracees⟩, hpass, h⟩ := bind_eq_ok.mp h
  obtain ⟨hsettle, hiff⟩ := semopPass_spec hregular.phases hpass
  have hcondition : SemopKeepsStuck m w t.pid id ptr nsops ↔
      Undisturbed t.pid index ((semCheck semaphore.sems sops).values semaphore.sems) w.tracees := by
    constructor
    · exact fun h => h index semaphore sops hlookup haccepts
    · intro h i s sops' hi haccepts'
      rw [hlookup] at hi
      cases hi
      cases haccepts.2.2.1.symm.trans haccepts'.2.2.1
      exact h
  rw [hcondition, hiff]
  simp only [Except.ok.injEq, Prod.mk.injEq] at h
  obtain ⟨-, rfl, rfl⟩ := h
  have hself : (w.semaphores.set index { semaphore with sems })[index]? =
      some { semaphore with sems } := List.getElem?_set_self hlt
  have hothers : ∀ i ≠ index, (w.semaphores.set index { semaphore with sems })[i]? =
      w.semaphores[i]? := fun i hi => List.getElem?_set_ne (Ne.symm hi)
  -- when the caller waits, the loop finds nobody who could go on
  have hcaller : (semopStatus t index semaphore sops (semCheck semaphore.sems sops)).2.config.waitReason
      = .waitSemop → semCheck semaphore.sems sops = .wait ∧ sems = semaphore.sems := by
    intro hreason
    cases hcheck : semCheck semaphore.sems sops with
    | failed | done =>
        rw [hcheck] at hreason
        cases ht.waitReason.symm.trans hreason
    | wait =>
        refine ⟨rfl, ?_⟩
        rw [hsettle, hcheck]
        refine settle_stuck fun u hu hex => ?_
        simp only [Tracee.examined, Bool.and_eq_true] at hex
        obtain ⟨hreason, hindex⟩ := Config.waitsOn_kind hex.2
        exact hw.noLostWakeup u hu hreason semaphore (by rw [hindex]; exact hget) hvalid
  have hstatus : ∀ u, (semopStatus t index semaphore sops (semCheck semaphore.sems sops)).2.SameWait u →
      u.config.waitReason = .waitSemop → u.config.waitingObjectIndex = index ∧
        u.config.semopSops = sops := by
    intro u hsame hreason
    rw [hsame.waitReason] at hreason
    rw [hsame.waitingObjectIndex, hsame.semopSops, (hcaller hreason).1]
    exact ⟨rfl, rfl⟩
  refine ⟨?_, ?_, ?_⟩
  · intro u hu hreason
    rcases waiting_after hhandled hsame hu hreason with ⟨hsame, -⟩ | ⟨hu, -⟩
    · rw [(hstatus u hsame hreason).1]
      exact ⟨_, hself, hvalid⟩
    · obtain ⟨s, hs, hlive⟩ := hw.setsLive u hu hreason
      by_cases hindex : u.config.waitingObjectIndex = index
      · rw [hindex]
        exact ⟨_, hself, hvalid⟩
      · exact ⟨s, (hothers _ hindex).trans hs, hlive⟩
  · intro hlost u hu hex
    simp only [Tracee.examined, Bool.and_eq_true, bne_iff_ne] at hex
    obtain ⟨hreason, hindex⟩ := Config.waitsOn_kind hex.2
    have hne : u.pid ≠ t'.pid := fun h => hex.1 (h.trans hpid)
    have hu' : u ∈ (({ w with
        semaphores := w.semaphores.set index { semaphore with sems }
        tracees } : World).setTracee t').tracees := setTracee_mem_of_ne hu hne
    exact hlost u hu' hreason { semaphore with sems } (by rw [hindex]; exact hself) hvalid
  · intro hstuck u hu hreason s hs hlive
    rcases waiting_after hhandled hsame hu hreason with ⟨hsame, -⟩ | ⟨hu, hu₁, hne⟩
    · obtain ⟨hindex, hsops⟩ := hstatus u hsame hreason
      rw [hsame.waitReason] at hreason
      obtain ⟨hcheck, hsems⟩ := hcaller hreason
      rw [hindex] at hs
      cases hself.symm.trans hs
      rw [hsops, hsems]
      rintro ⟨sems', hdone⟩
      rw [hcheck] at hdone
      cases hdone
    · by_cases hindex : u.config.waitingObjectIndex = index
      · rw [hindex] at hs
        cases hself.symm.trans hs
        refine hstuck u hu₁ ?_
        simp [Tracee.examined, Config.waitsOn, hreason, hindex, ← hpid, hne]
      · exact hw.noLostWakeup u hu hreason s ((hothers _ hindex).symm.trans hs) hlive

end Calls

/-! ## Runs -/

section Runs

variable {w w' : World} {e : Event}

theorem process_frame {t : Tracee} (hprocess : e.isProcess = true) (h : e.run w t = .ok w') :
    w'.semaphores = w.semaphores ∧
      ∀ u ∈ w'.tracees, u.config.waitReason = .waitSemop → ∃ v ∈ w.tracees, v.SameWait u := by
  have hsame : ∀ u : Tracee, u.SameWait u := fun u => ⟨rfl, rfl, rfl, rfl, rfl, rfl, rfl, rfl⟩
  cases e with
  | clone pid child thread vm =>
      cases h
      obtain ⟨u, hu, -, htracees, -, hsets, -⟩ := clone_spec w t child thread vm
      refine ⟨hsets, fun v hv hreason => ?_⟩
      rw [htracees] at hv
      rcases List.mem_cons.mp hv with rfl | hv
      · rw [hu.waitReason] at hreason
        cases hreason
      · exact ⟨v, hv, hsame v⟩
  | execve pid success =>
      have honly := execve_only h
      refine ⟨honly.semaphores, fun v hv _ => ?_⟩
      rw [honly.tracees] at hv
      exact ⟨v, hv, hsame v⟩
  | death pid =>
      have honly := death_only h
      refine ⟨honly.semaphores, fun v hv _ => ?_⟩
      rw [honly.tracees] at hv
      exact ⟨v, List.mem_of_mem_filter hv, hsame v⟩
  | _ => cases hprocess

theorem step_noLostWakeup (hregular : w.Regular) (hw : w.SemInvariant)
    (h : step (.ok w) e = some (.ok w')) :
    w'.SetsLive ∧ (w'.NoLostWakeup ↔ e.KeepsStuck w) := by
  have hkept : w'.SemInvariant → e.KeepsStuck w →
      w'.SetsLive ∧ (w'.NoLostWakeup ↔ e.KeepsStuck w) :=
    fun h hkeeps => ⟨h.setsLive, iff_of_true h.noLostWakeup hkeeps⟩
  rcases step_cases h with ⟨rfl, helper, -, rfl⟩ | ⟨t, ht, hpid, henabled, hrun⟩
  · exact hkept ⟨hw.noLostWakeup, hw.setsLive⟩ trivial
  by_cases hprocess : e.isProcess = true
  · obtain ⟨hsets, hwaiting⟩ := process_frame hprocess hrun
    refine hkept (hw.frame hsets hwaiting) ?_
    cases e with
    | call => cases hprocess
    | _ => trivial
  have hprocess : e.isProcess = false := by simpa using hprocess
  by_cases hkind : e.kind = .semaphore
  · cases e with
    | call pid m fromSigsys c =>
        cases hpid
        simp only [Event.enabled, Bool.and_eq_true] at henabled
        obtain ⟨status, t₁, w₁, t', hhandle, hhandled, hsame, rfl, hturn⟩ :=
          call_turn hregular ht henabled.1 hrun
        obtain ⟨hreason, hstate, hchain, -⟩ := (hregular.phases t ht).of_idle henabled.1
        have hcalls : ({ t with asked := .nothing } : Tracee).Calls :=
          ⟨hreason, hstate, hchain, rfl⟩
        have hstale : ∀ u ∈ w.tracees, u.pid = t.pid → u.config.waitReason = .notWaiting := by
          intro u hu hpid
          rw [hregular.pid_injective hu ht hpid]
          exact hreason
        cases c with
        | semget key nsems semflg =>
            cases hhandle
            exact hkept (semget_step hw hcalls { hhandled with } hsame) trivial
        | semop id sops nsops =>
            exact semop_step hregular hw hcalls hhandle { hhandled with } hsame hturn.pid
        | semctl id semnum cmd arg =>
            exact semctl_step hregular hw hcalls hstale hhandle { hhandled with } hsame hturn.pid
        | _ => cases hkind
    | _ => cases hkind
  · obtain ⟨t', hturn⟩ := run_turn hregular ht henabled hprocess hrun
    refine hkept (hturn.semInvariant hkind ht hw) ?_
    cases e with
    | call pid m fromSigsys c =>
        cases c with
        | semop | semctl => exact absurd rfl hkind
        | _ => trivial
    | _ => trivial

def KeepsStuck : Session → Event → Prop
  | .ok w, e => e.KeepsStuck w
  | .error _, _ => True

theorem reach_semInvariant (h : system.Reach KeepsStuck (.ok w)) : w.SemInvariant := by
  apply reach_world _ _ h
  · intro pid
    refine ⟨?_, ?_⟩ <;>
    · intro t ht hreason
      cases List.mem_singleton.mp ht
      cases hreason
  · intro w e w' hregular hw hkeeps hstep
    obtain ⟨hlive, hiff⟩ := step_noLostWakeup hregular hw hstep
    exact ⟨hiff.mpr hkeeps, hlive⟩

/-- **Semaphores lose no wake-up** in the runs whose steps meet the condition, and the first step
that doesn't meet it loses one. -/
theorem semaphores_noLostWakeup (w : World) (h : system.Reach KeepsStuck (.ok w)) :
    w.NoLostWakeup ∧
    ∀ e w', step (.ok w) e = some (.ok w') → (w'.NoLostWakeup ↔ e.KeepsStuck w) := by
  constructor
  · exact (reach_semInvariant h).noLostWakeup
  · intro e w' hstep
    exact (step_noLostWakeup (reach_regular h) (reach_semInvariant h) hstep).2

/-- What a tracee finds in its memory, where all addresses hold some operations. -/
def GuestMemory.holding (sops : List Sembuf) : GuestMemory where
  readLong _ := .ok 0
  readBytes _ size := .ok (List.replicate size 0)
  readSops _ _ := .ok sops
  write _ _ := .ok ()

/-- A set of two semaphores, on which the tracee 2 does some operations, and then another one. -/
def semaphoreRun (waiter : List Sembuf) (last : Event) : List Event := [
  .call 1 (.holding []) false (.semget 0 2 (ipcCreat.setWidth 64)),
  .exitStart 1 (.holding []) .eintr,
  .clone 1 2 false false,
  .call 2 (.holding waiter) false (.semop 1 0 waiter.length),
  last]

theorem semaphoreRun_reached {waiter : List Sembuf} {last : Event} {w : World}
    (h : system.exec (.ok (.initial 1)) (semaphoreRun waiter last) = some (.ok w)) :
    system.Reach Lib.System.Always (.ok w) :=
  .exec (.start ⟨1, rfl⟩) h

/-- **A wake-up that is lost**: the tracee 2 waits to decrement a semaphore that is 0, and `SETVAL`
makes it 1. -/
theorem semaphores_lostWakeup :
    ¬ ∀ w, system.Reach Lib.System.Always (.ok w) → w.NoLostWakeup := by
  intro h
  have hrun : ∃ w, system.exec (.ok (.initial 1)) (semaphoreRun [⟨0, -1, 0⟩]
      (.call 1 (.holding []) false (.semctl 1 0 16 1))) = some (.ok w) ∧
      ∃ t ∈ w.tracees, t.config.waitReason = .waitSemop ∧ t.config.waitingObjectIndex = 0 ∧
        t.config.semopSops = [⟨0, -1, 0⟩] ∧
        ∃ semaphore, w.semaphores[0]? = some semaphore ∧ semaphore.valid = true ∧
          semaphore.sems = [1, 0] := by
    refine ⟨_, rfl, _, List.mem_cons_self, rfl, rfl, rfl, _, rfl, rfl, rfl⟩
  obtain ⟨w, hexec, t, ht, hreason, hindex, hsops, semaphore, hget, hvalid, hsems⟩ := hrun
  refine h w (semaphoreRun_reached hexec) t ht hreason semaphore (by rw [hindex, hget]) hvalid ?_
  rw [hsops, hsems]
  exact ⟨[0, 0], by decide⟩

/-- Before the value is stored, the tracee waits and could not go on. -/
theorem semaphores_noLostWakeup_waiting :
    ∃ w, system.Reach KeepsStuck (.ok w) ∧
      (∃ t ∈ w.tracees, t.config.waitReason = .waitSemop) ∧ w.NoLostWakeup ∧
      ∀ w', step (.ok w) (.call 1 (.holding []) false (.semctl 1 0 16 1)) = some (.ok w') →
        (w'.NoLostWakeup ↔ SetvalKeepsStuck w 1 0 16 1) := by
  have hreach : ∃ w, system.Reach KeepsStuck (.ok w) ∧
      ∃ t ∈ w.tracees, t.config.waitReason = .waitSemop := by
    have hinitial : system.Reach KeepsStuck (.ok (.initial 1)) := .start ⟨1, rfl⟩
    have hget := Lib.System.Reach.next hinitial
      (show KeepsStuck (.ok (.initial 1))
        (.call 1 (.holding []) false (.semget 0 2 (ipcCreat.setWidth 64))) from trivial) rfl
    have hexit := Lib.System.Reach.next hget
      (show KeepsStuck _ (.exitStart 1 (.holding []) .eintr) from trivial) rfl
    have hclone := Lib.System.Reach.next hexit
      (show KeepsStuck _ (.clone 1 2 false false) from trivial) rfl
    refine ⟨_, Lib.System.Reach.next hclone
      (show KeepsStuck _ (.call 2 (.holding [⟨0, -1, 0⟩]) false (.semop 1 0 1)) from ?_) rfl, _,
      List.mem_cons_self, rfl⟩
    intro index semaphore sops hlookup haccepts
    cases hlookup
    cases haccepts.2.2.1
    exact trivial
  obtain ⟨w, hreach, hwaits⟩ := hreach
  obtain ⟨hnone, hnext⟩ := semaphores_noLostWakeup w hreach
  exact ⟨w, hreach, hwaits, hnone, hnext _⟩

end Runs

end Improot.SysVIpc
