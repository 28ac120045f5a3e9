import Improot.SysVIpc.Identifier

/-!
# What the steps do to the slots

Each step of a session inserts an object into a slot, removes some, or leaves the slots as they are.
-/

namespace Improot.SysVIpc

def SlotFits {α : Type} [IpcObject α] (objects : List α) : Prop :=
  let index := (unusedSlot objects).getD objects.length
  Nameable index ((objects[index]?.map IpcObject.generation).getD 0).toNat

/-- The condition on a system call: where it makes an object, its slot can be named. -/
def Syscall.FitsSlots (w : World) : Syscall → Prop
  | .msgget key msgflg =>
      findKey w.queues key = none → has (int msgflg) ipcCreat = true → SlotFits w.queues
  | .semget key nsems semflg =>
      0 < (int nsems).toInt → (int nsems).toInt ≤ maxNsems → findKey w.semaphores key = none →
        has (int semflg) ipcCreat = true → SlotFits w.semaphores
  | .shmget key _ shmflg allocation =>
      findKey w.shms key = none → has (int shmflg) ipcCreat = true → 0 ≤ allocation.answer →
        SlotFits w.shms
  | _ => True

/-- The steps of a table between two values of `nextAddress`. -/
abbrev TableSteps (fresh fresh' : Nat) := @Lib.SlotTable.Steps Nat _ Nameable fresh fresh'

section Objects

variable {α : Type} [IpcObject α] {objects : List α} {fresh fresh' : Nat}

theorem insert_steps {index : Nat} {object : α} (hfits : SlotFits objects)
    (hunused : unusedSlot objects = some index) (hvalid : IpcObject.valid object = true)
    (hfresh : fresh ≤ IpcObject.address object) (hlt : IpcObject.address object < fresh')
    (hgeneration : IpcObject.generation object =
      (objects[index]?.map IpcObject.generation).getD 0) :
    TableSteps fresh fresh' (slotTable objects) (slotTable (objects.set index object)) := by
  obtain ⟨hindex, hinvalid, -⟩ := List.findIdx?_eq_some_iff_getElem.mp hunused
  have hget : objects[index]? = some objects[index] := List.getElem?_eq_getElem hindex
  have hinvalid : IpcObject.valid objects[index] = false := by simpa using hinvalid
  simp only [SlotFits, hunused, Option.getD_some, ← hgeneration] at hfits
  rw [hget] at hgeneration
  apply Relation.ReflTransGen.single
  rw [slotTable_set, slotOf_valid hvalid]
  apply Lib.SlotTable.Step.insert _ hfits hfresh hlt
  rw [slotTable_getElem?, hget, Option.map_some, slotOf_invalid hinvalid, hgeneration]
  rfl

theorem push_steps {object : α} (hfits : SlotFits objects) (hunused : unusedSlot objects = none)
    (hfresh : fresh ≤ IpcObject.address object) (hlt : IpcObject.address object < fresh')
    (hgeneration : IpcObject.generation object = 0) :
    TableSteps fresh fresh' (slotTable objects) (slotTable (objects ++ [object])) := by
  simp only [SlotFits, hunused, Option.getD_none, List.getElem?_length] at hfits
  apply Relation.ReflTransGen.single
  rw [slotTable, slotTable, List.map_append]
  apply @Lib.SlotTable.Step.push _ _ _ _ _ _ (slotOf object).generation (slotOf object).occupant
  intro a ha
  rw [List.length_map, show (slotOf object).generation = 0 by simp [slotOf, hgeneration]]
  by_cases hvalid : IpcObject.valid object = true
  · rw [slotOf_valid hvalid] at ha
    cases ha
    exact ⟨hfits, hfresh, hlt⟩
  · rw [slotOf_invalid (by simpa using hvalid)] at ha
    cases ha

theorem remove_steps {index : Nat} {object object' : α} (hget : objects[index]? = some object)
    (hvalid : IpcObject.valid object = true) (hinvalid : IpcObject.valid object' = false)
    (hgeneration : (IpcObject.generation object').toNat =
      (IpcObject.generation object).toNat + 1) :
    TableSteps fresh fresh' (slotTable objects) (slotTable (objects.set index object')) := by
  apply Relation.ReflTransGen.single
  rw [slotTable_set, slotOf_invalid hinvalid, hgeneration]
  apply Lib.SlotTable.Step.remove
  rw [slotTable_getElem?, hget, Option.map_some, slotOf_valid hvalid]

theorem same_steps {index : Nat} {object object' : α} (hget : objects[index]? = some object)
    (hsame : slotOf object' = slotOf object) :
    TableSteps fresh fresh' (slotTable objects) (slotTable (objects.set index object')) := by
  rw [slotTable_set_same hget hsame]

theorem generation_succ {g : BitVec 16} (h : g.toNat < 2 ^ 15) : (g + 1).toNat = g.toNat + 1 := by
  rw [BitVec.toNat_add]
  simp
  omega

theorem fits_generation (hfits : (slotTable objects).Fits Nameable fresh) {index : Nat} {object : α}
    (hget : objects[index]? = some object) (hvalid : IpcObject.valid object = true) :
    Nameable index (IpcObject.generation object).toNat := by
  have hslot : (slotTable objects)[index]? = some (slotOf object) := by
    rw [slotTable_getElem?, hget]
    rfl
  rw [slotOf_valid hvalid] at hslot
  exact (hfits index _ _ hslot rfl).1

end Objects

/-! ## Getting a slot -/

section Gets

variable {α : Type} [IpcObject α]

/-- What the `*get` functions do: they fail, find the object that has the key, or make an object in
an unused slot or in a new one. -/
inductive Gets (objects : List α) (key : Word) (creat : Bool) (fresh fresh' : Nat) :
    Except Errno Nat → List α → Prop
  | failed {e objects'} : TableSteps fresh fresh' (slotTable objects) (slotTable objects') →
      Gets objects key creat fresh fresh' (.error e) objects'
  | found {index} : findKey objects key = some index →
      Gets objects key creat fresh fresh' (.ok index) objects
  | reused {index object} : findKey objects key = none → creat = true →
      unusedSlot objects = some index → IpcObject.valid object = true →
      IpcObject.address object = fresh → fresh < fresh' →
      IpcObject.generation object = (objects[index]?.map IpcObject.generation).getD 0 →
      Gets objects key creat fresh fresh' (.ok index) (objects.set index object)
  | pushed {object} : findKey objects key = none → creat = true → unusedSlot objects = none →
      IpcObject.valid object = true → IpcObject.address object = fresh → fresh < fresh' →
      IpcObject.generation object = 0 →
      Gets objects key creat fresh fresh' (.ok objects.length) (objects ++ [object])

variable {objects objects' : List α} {key : Word} {creat : Bool} {fresh fresh' : Nat}

theorem Gets.steps {result : Except Errno Nat}
    (h : Gets objects key creat fresh fresh' result objects')
    (hfits : findKey objects key = none → creat = true → SlotFits objects) :
    TableSteps fresh fresh' (slotTable objects) (slotTable objects') := by
  cases h with
  | failed hsteps => exact hsteps
  | found => exact .refl
  | reused hkey hcreat hunused hvalid haddress hlt hgeneration =>
      exact insert_steps (hfits hkey hcreat) hunused hvalid haddress.ge (haddress ▸ hlt) hgeneration
  | pushed hkey hcreat hunused _ haddress hlt hgeneration =>
      exact push_steps (hfits hkey hcreat) hunused haddress.ge (haddress ▸ hlt) hgeneration

theorem Gets.live {index : Nat} (h : Gets objects key creat fresh fresh' (.ok index) objects') :
    ∃ object, objects'[index]? = some object ∧ IpcObject.valid object = true := by
  cases h with
  | found hkey =>
      obtain ⟨hlt, hfound, -⟩ := List.findIdx?_eq_some_iff_getElem.mp hkey
      simp only [Bool.and_eq_true] at hfound
      exact ⟨objects[index], List.getElem?_eq_getElem hlt, hfound.1.1⟩
  | reused _ _ hunused hvalid =>
      obtain ⟨hlt, -⟩ := List.findIdx?_eq_some_iff_getElem.mp hunused
      exact ⟨_, List.getElem?_set_self hlt, hvalid⟩
  | pushed _ _ _ hvalid =>
      exact ⟨_, by rw [List.getElem?_append_right (Nat.le_refl _), Nat.sub_self]; rfl, hvalid⟩

theorem Gets.fits {index : Nat} (h : Gets objects key creat fresh fresh' (.ok index) objects')
    {object : α} (hget : objects'[index]? = some object)
    (hname : Nameable index (IpcObject.generation object).toNat)
    (hkey : findKey objects key = none) : SlotFits objects := by
  cases h with
  | found hfound =>
      rw [hkey] at hfound
      cases hfound
  | reused _ _ hunused _ _ _ hgeneration =>
      obtain ⟨hlt, -⟩ := List.findIdx?_eq_some_iff_getElem.mp hunused
      rw [List.getElem?_set_self hlt] at hget
      cases hget
      simpa only [SlotFits, hunused, Option.getD_some, ← hgeneration] using hname
  | pushed _ _ hunused _ _ _ hgeneration =>
      rw [List.getElem?_append_right (Nat.le_refl _), Nat.sub_self] at hget
      cases hget
      rw [hgeneration] at hname
      simpa only [SlotFits, hunused, Option.getD_none, List.getElem?_length, Option.map_none]
        using hname

end Gets

section Handlers

variable {m : GuestMemory} {w w' : World} {t t' : Tracee} {status : Status}
  {result : Except Errno Nat}

theorem msggetSlot_gets {key msgflg : Word} (h : msggetSlot w key msgflg = (result, w')) :
    Gets w.queues key (has (int msgflg) ipcCreat) w.nextAddress w'.nextAddress result
      w'.queues := by
  unfold msggetSlot at h
  split at h
  · rename_i hkey
    split at h
    · cases h
      exact .failed .refl
    · cases h
      exact .found hkey
  · rename_i hkey
    split at h
    · cases h
      exact .failed .refl
    · rename_i hcreat
      split at h
      · rename_i hunused
        cases h
        exact .reused hkey (not_not.mp hcreat) hunused rfl rfl (Nat.lt_succ_self _) rfl
      · rename_i hunused
        cases h
        exact .pushed hkey (not_not.mp hcreat) hunused rfl rfl (Nat.lt_succ_self _) rfl

theorem semgetSlot_gets {key nsems semflg : Word} (h : semgetSlot w key nsems semflg = (result, w')) :
    Gets w.semaphores key (has (int semflg) ipcCreat) w.nextAddress w'.nextAddress result
      w'.semaphores := by
  unfold semgetSlot at h
  dsimp only at h
  split at h
  · cases h
    exact .failed .refl
  split at h
  · rename_i hkey
    split at h
    · cases h
      exact .failed .refl
    split at h
    · cases h
      exact .failed .refl
    · cases h
      exact .found hkey
  · rename_i hkey
    split at h
    · cases h
      exact .failed .refl
    · rename_i hcreat
      split at h
      · rename_i hunused
        cases h
        exact .reused hkey (not_not.mp hcreat) hunused rfl rfl (Nat.lt_succ_self _) rfl
      · rename_i hunused
        split at h
        · cases h
          exact .failed .refl
        · cases h
          exact .pushed hkey (not_not.mp hcreat) hunused rfl rfl (Nat.lt_succ_self _) rfl

theorem shmgetSlot_gets {pgid : Nat} {key size shmflg : Word} {allocation : Allocation}
    (h : shmgetSlot w pgid key size shmflg allocation = (result, w')) :
    Gets w.shms key (has (int shmflg) ipcCreat && decide (0 ≤ allocation.answer)) w.nextAddress
      w'.nextAddress result w'.shms := by
  unfold shmgetSlot at h
  split at h
  · rename_i hkey
    dsimp only at h
    split at h
    · cases h
      exact .failed .refl
    split at h
    · cases h
      exact .failed .refl
    · cases h
      exact .found hkey
  rename_i hkey
  split at h
  · cases h
    exact .failed .refl
  rename_i hcreat
  cases hunused : unusedSlot w.shms with
  | some index =>
      obtain ⟨hlt, hinvalid, -⟩ := List.findIdx?_eq_some_iff_getElem.mp hunused
      have hget : w.shms[index]? = some w.shms[index] := List.getElem?_eq_getElem hlt
      simp only [hunused, Option.getD_some, if_pos hlt, hget] at h
      split at h
      · cases h
        exact .failed (same_steps hget rfl)
      · rename_i hfd
        cases h
        refine .reused hkey (by simp [not_not.mp hcreat]; omega) hunused rfl rfl
          (Nat.lt_succ_self _) ?_
        rw [hget]
        rfl
  | none =>
      simp only [hunused, Option.getD_none, if_neg (Nat.lt_irrefl _), List.set_append_right _ _
        (Nat.le_refl _), Nat.sub_self, List.set_cons_zero] at h
      split at h
      · cases h
        apply Gets.failed
        apply Relation.ReflTransGen.single
        show Lib.SlotTable.Step _ _ _ _ (slotTable (w.shms ++ [_]))
        rw [slotTable, slotTable, List.map_append]
        exact .push fun _ h => by
          have hnone : (w.shms ++ [SharedMem.zero])[w.shms.length]? = some .zero := by simp
          rw [hnone] at h
          cases h
      · rename_i hfd
        cases h
        refine .pushed hkey (by simp [not_not.mp hcreat]; omega) hunused rfl rfl
          (Nat.lt_succ_self _) ?_
        have hzero : (w.shms ++ [SharedMem.zero])[w.shms.length]? = some .zero := by simp
        rw [hzero]
        rfl

theorem msgget_steps {key msgflg : Word} (hfits : (Syscall.msgget key msgflg).FitsSlots w) :
    TableSteps w.nextAddress (msgget w key msgflg).2.nextAddress (slotTable w.queues)
      (slotTable (msgget w key msgflg).2.queues) := by
  rcases hslot : msggetSlot w key msgflg with ⟨result, w'⟩
  have hsteps := (msggetSlot_gets hslot).steps hfits
  simp only [msgget, hslot]
  cases result <;> exact hsteps

theorem semget_steps {key nsems semflg : Word}
    (hfits : (Syscall.semget key nsems semflg).FitsSlots w) :
    TableSteps w.nextAddress (semget w key nsems semflg).2.nextAddress (slotTable w.semaphores)
      (slotTable (semget w key nsems semflg).2.semaphores) := by
  by_cases hcount : (int nsems).toInt ≤ 0 ∨ (int nsems).toInt > maxNsems
  · simp only [semget, semgetSlot, if_pos hcount]
    exact .refl
  · rcases hslot : semgetSlot w key nsems semflg with ⟨result, w'⟩
    have hsteps := (semgetSlot_gets hslot).steps (hfits (by omega) (by omega))
    simp only [semget, hslot]
    cases result <;> exact hsteps

theorem shmget_steps {key size shmflg : Word} {allocation : Allocation}
    (hfits : (Syscall.shmget key size shmflg allocation).FitsSlots w) :
    TableSteps w.nextAddress (shmget w t key size shmflg allocation).2.nextAddress
      (slotTable w.shms) (slotTable (shmget w t key size shmflg allocation).2.shms) := by
  rcases hslot : shmgetSlot w (((w.process? t.config.process).map (·.pgid)).getD 0) key size shmflg
    allocation with ⟨result, w'⟩
  have hsteps := (shmgetSlot_gets hslot).steps fun hkey hcreat => by
    simp only [Bool.and_eq_true, decide_eq_true_eq] at hcreat
    exact hfits hkey hcreat.1 hcreat.2
  simp only [shmget, hslot]
  cases result <;> exact hsteps

/-! ## Queues and semaphores -/

section Steps

variable {fresh : Nat}

theorem msgsnd_steps {id msgp msgsz : Word} {fresh' : Nat}
    (h : msgsnd m w t id msgp msgsz = .ok (status, t', w')) :
    TableSteps fresh fresh' (slotTable w.queues) (slotTable w'.queues) := by
  unfold msgsnd at h
  split at h
  · cases h
    exact .refl
  rename_i hlookup
  repeat' split at h
  all_goals try (cases h; exact .refl)
  obtain ⟨tracees, -, h⟩ := bind_eq_ok.mp h
  cases h
  exact same_steps (lookupIpcObject_some hlookup).1 rfl

theorem msgDeliver_slot {queue queue' : MsgQueue} {msg : MsgQueueItem}
    (h : msgDeliver m t queue msg = (status, queue')) : slotOf queue' = slotOf queue := by
  simp only [msgDeliver] at h
  repeat' split at h
  all_goals
    cases h
    rfl

theorem doMsgrcv_slot {index : Nat} {queue queue' : MsgQueue}
    (h : doMsgrcv m t index queue = (status, t', queue')) : slotOf queue' = slotOf queue := by
  simp only [doMsgrcv] at h
  split at h
  · cases h
    rfl
  split at h
  · cases h
    rfl
  split at h
  · cases h
    rfl
  split at h
  · split at h <;> cases h <;> rfl
  · rename_i item _
    rcases hdeliver : msgDeliver m t queue item with ⟨delivered, queue₁⟩
    rw [hdeliver] at h
    have hslot := msgDeliver_slot hdeliver
    cases delivered with
    | error e =>
        cases h
        exact hslot
    | ok size =>
        dsimp only at h
        split at h
        · cases h
          exact hslot
        · cases h
          exact hslot

theorem msgrcv_steps {id msgp msgsz msgtyp msgflg : Word} {fresh' : Nat}
    (h : msgrcv m w t id msgp msgsz msgtyp msgflg = (status, t', w')) :
    TableSteps fresh fresh' (slotTable w.queues) (slotTable w'.queues) := by
  unfold msgrcv at h
  split at h
  · cases h
    exact .refl
  · rename_i hlookup
    cases h
    exact same_steps (lookupIpcObject_some hlookup).1 (doMsgrcv_slot rfl)

theorem msgctl_steps {id cmd buf : Word} {fresh' : Nat}
    (hfits : (slotTable w.queues).Fits Nameable fresh')
    (h : msgctl m w t id cmd buf = .ok (status, t', w')) :
    TableSteps fresh fresh' (slotTable w.queues) (slotTable w'.queues) := by
  unfold msgctl at h
  split at h
  · cases h
    exact .refl
  rename_i hlookup
  dsimp only at h
  split at h
  · obtain ⟨tracees, -, h⟩ := bind_eq_ok.mp h
    cases h
    obtain ⟨hget, hvalid, -⟩ := lookupIpcObject_some hlookup
    exact remove_steps hget hvalid rfl (generation_succ (fits_generation hfits hget hvalid).2)
  split at h
  · split at h <;> cases h <;> exact .refl
  · cases h
    exact .refl

theorem resume_steps {fresh' : Nat} (h : resume m w t = .ok (status, t', w')) :
    TableSteps fresh fresh' (slotTable w.queues) (slotTable w'.queues) := by
  unfold resume at h
  split at h
  · simp only [msgrcvRetry] at h
    split at h
    · split at h
      · cases h
      rename_i queue hget
      split at h
      · cases h
      split at h <;> cases h <;> exact same_steps hget (doMsgrcv_slot rfl)
    · cases h
      exact .refl
  · cases h
    exact .refl

theorem semop_steps {id sops nsops : Word} {fresh' : Nat}
    (h : semop m w t id sops nsops = .ok (status, t', w')) :
    TableSteps fresh fresh' (slotTable w.semaphores) (slotTable w'.semaphores) := by
  unfold semop at h
  split at h
  · cases h
    exact .refl
  rename_i hlookup
  repeat' split at h
  all_goals try (cases h; exact .refl)
  obtain ⟨⟨sems, tracees⟩, -, h⟩ := bind_eq_ok.mp h
  cases h
  exact same_steps (lookupIpcObject_some hlookup).1 rfl

theorem semctl_steps {id semnum cmd arg : Word} {fresh' : Nat}
    (hfits : (slotTable w.semaphores).Fits Nameable fresh')
    (h : semctl m w t id semnum cmd arg = .ok (status, t', w')) :
    TableSteps fresh fresh' (slotTable w.semaphores) (slotTable w'.semaphores) := by
  unfold semctl at h
  split at h
  · cases h
    exact .refl
  rename_i hlookup
  obtain ⟨hget, hvalid, -⟩ := lookupIpcObject_some hlookup
  dsimp only at h
  split at h
  · split at h <;> cases h <;> exact .refl
  split at h
  · split at h
    · cases h
      exact .refl
    split at h
    · cases h
      exact .refl
    · cases h
      exact same_steps hget rfl
  split at h
  · split at h <;> cases h <;> exact .refl
  split at h
  · obtain ⟨tracees, -, h⟩ := bind_eq_ok.mp h
    cases h
    exact remove_steps hget hvalid rfl (generation_succ (fits_generation hfits hget hvalid).2)
  split at h
  · split at h <;> cases h <;> exact .refl
  · cases h
    exact .refl

end Steps

end Handlers

/-! ## Segments -/

/-- What is known of the segments: one that is to be removed lives, and no generation of one that
lives is negative. -/
structure SegmentsFit (shms : List SharedMem) : Prop where
  pending : ∀ shm ∈ shms, shm.rmidPending = true → shm.valid = true
  generation : ∀ shm ∈ shms, shm.valid = true → shm.generation.toNat < 2 ^ 15

def SegmentsAge (shms shms' : List SharedMem) : Prop :=
  SegmentsFit shms → SegmentsFit shms' ∧
    ∀ fresh fresh', TableSteps fresh fresh' (slotTable shms) (slotTable shms')

theorem SegmentsAge.refl (shms : List SharedMem) : SegmentsAge shms shms :=
  fun h => ⟨h, fun _ _ => .refl⟩

theorem SegmentsAge.trans {shms₁ shms₂ shms₃ : List SharedMem} (h : SegmentsAge shms₁ shms₂)
    (h' : SegmentsAge shms₂ shms₃) : SegmentsAge shms₁ shms₃ := by
  intro hfit
  obtain ⟨hfit₂, hsteps⟩ := h hfit
  obtain ⟨hfit₃, hsteps'⟩ := h' hfit₂
  exact ⟨hfit₃, fun fresh fresh' => (hsteps fresh fresh').trans (hsteps' fresh fresh')⟩

theorem SegmentsFit.set {shms : List SharedMem} (h : SegmentsFit shms) {index : Nat}
    {shm : SharedMem} (hpending : shm.rmidPending = true → shm.valid = true)
    (hgeneration : shm.valid = true → shm.generation.toNat < 2 ^ 15) :
    SegmentsFit (shms.set index shm) := by
  constructor
  · intro u hu
    rcases List.mem_or_eq_of_mem_set hu with hu | rfl
    · exact h.pending u hu
    · exact hpending
  · intro u hu
    rcases List.mem_or_eq_of_mem_set hu with hu | rfl
    · exact h.generation u hu
    · exact hgeneration

section Segments

variable {m : GuestMemory} {w w' : World} {t t' : Tracee} {status : Status}

theorem doRmid_ages {index : Nat} (hvalid : ∀ shm, w.shms[index]? = some shm → shm.valid = true)
    (h : doRmid w index = .ok w') : SegmentsAge w.shms w'.shms := by
  intro hfit
  unfold doRmid at h
  split at h
  · cases h
  rename_i shm hget
  split at h
  · cases h
  cases h
  refine ⟨hfit.set (fun h => by cases h) (fun h => by cases h), fun _ _ => ?_⟩
  have hlive := hvalid shm hget
  exact remove_steps hget hlive rfl
    (generation_succ (hfit.generation shm (List.mem_of_getElem? hget) hlive))

theorem memmapDestructor_ages {mapping : SharedMemMap} (h : memmapDestructor w mapping = .ok w') :
    SegmentsAge w.shms w'.shms := by
  intro hfit
  unfold memmapDestructor at h
  split at h
  · cases h
  rename_i shm hget
  split at h
  · rename_i hlast
    refine doRmid_ages (fun shm' hget' => ?_) h hfit
    rw [hget] at hget'
    cases hget'
    exact hfit.pending shm (List.mem_of_getElem? hget) hlast.2
  · cases h
    exact SegmentsAge.refl _ hfit

theorem freeMapping_ages {p : Process} {which : SharedMemMap → Bool}
    (h : freeMapping w p which = .ok w') : SegmentsAge w.shms w'.shms := by
  unfold freeMapping at h
  split at h
  · cases h
    exact .refl _
  · exact @memmapDestructor_ages (w.setProcess _) w' _ h

theorem removeMappingsFromProcess_ages {p : Process} {mappings : List SharedMemMap}
    (h : removeMappingsFromProcess w p mappings = .ok w') : SegmentsAge w.shms w'.shms := by
  induction mappings generalizing w p with
  | nil =>
      cases h
      exact .refl _
  | cons mapping mappings ih =>
      obtain ⟨w₁, hdestroy, h⟩ := bind_eq_ok.mp h
      have hages := @memmapDestructor_ages (w.setProcess _) w₁ _ hdestroy
      exact hages.trans (ih h)

theorem addMapping_shms (w : World) (process : Nat) (mapping : SharedMemMap) :
    (w.addMapping process mapping).shms = w.shms := by
  unfold World.addMapping
  split <;> rfl

theorem shmat_shms {id : Word} (h : shmat w t id = (status, t', w')) : w'.shms = w.shms := by
  unfold shmat at h
  split at h
  · cases h
    rfl
  · dsimp only at h
    split at h <;> cases h <;> exact addMapping_shms w _ _

theorem shmdt_ages {addr : Word} (h : shmdt w t addr = .ok (status, t', w')) :
    SegmentsAge w.shms w'.shms := by
  unfold shmdt at h
  split at h
  · cases h
    exact .refl _
  split at h
  · cases h
    exact .refl _
  · obtain ⟨w₁, hfree, h⟩ := bind_eq_ok.mp h
    cases h
    exact @freeMapping_ages (w.munmapped _ _) w' _ _ hfree

theorem shmctl_ages {id cmd buf : Word} (h : shmctl m w t id cmd buf = .ok (status, t', w')) :
    SegmentsAge w.shms w'.shms := by
  unfold shmctl at h
  split at h
  · cases h
    exact .refl _
  rename_i hlookup
  obtain ⟨hget, hvalid, -⟩ := lookupIpcObject_some hlookup
  dsimp only at h
  split at h
  · split at h
    · obtain ⟨w₁, hrmid, h⟩ := bind_eq_ok.mp h
      cases h
      refine doRmid_ages (fun shm' hget' => ?_) hrmid
      rw [hget] at hget'
      cases hget'
      exact hvalid
    · cases h
      intro hfit
      have hgeneration := hfit.generation _ (List.mem_of_getElem? hget) hvalid
      exact ⟨hfit.set (fun _ => hvalid) fun _ => hgeneration, fun _ _ => same_steps hget rfl⟩
  split at h
  · split at h <;> cases h <;> exact .refl _
  · cases h
    exact .refl _

theorem leaveChain_ages {mapped : Option (Word × Word)} (h : leaveChain w t mapped = .ok w') :
    SegmentsAge w.shms w'.shms := by
  obtain ⟨p, w₁, -, -, hwake, hmapping⟩ := leaveChain_spec h
  obtain ⟨tracees, -, hwake⟩ := bind_eq_ok.mp hwake
  cases hwake
  cases mapped with
  | none => exact @freeMapping_ages (w.setTracee t.leave) w₁ _ _ hmapping
  | some r =>
      rw [hmapping]
      exact .refl _

theorem chain_ages {e : Event} (hkind : e.kind = .segment) (hprocess : e.isProcess = false)
    (hcall : ∀ pid m fromSigsys c, e ≠ .call pid m fromSigsys c) (h : e.run w t = .ok w') :
    SegmentsAge w.shms w'.shms := by
  cases e with
  | call pid m fromSigsys c => exact absurd rfl (hcall pid m fromSigsys c)
  | enterStart | exitStart => cases hkind
  | clone | execve | death => cases hprocess
  | chainedEnter pid =>
      simp only [Event.run, chainedEnter] at h
      split at h <;> cases h <;> exact .refl _
  | chainedExit pid =>
      simp only [Event.run, chainedExit] at h
      split at h <;> cases h
      exact .refl _
  | connect | helper =>
      cases h
      exact .refl _
  | socketDone | connectDone | recvmsgDone =>
      obtain ⟨_, -, h⟩ := bind_eq_ok.mp h
      split at h
      · exact leaveChain_ages h
      split at h
      · exact leaveChain_ages h
      · cases h
        exact .refl _
  | mmapDone pid addr =>
      obtain ⟨_, -, h⟩ := bind_eq_ok.mp h
      obtain ⟨spaces, hspaces⟩ := mmapped_only w t addr
      rw [hspaces] at h
      exact @leaveChain_ages { w with spaces } w' _ _ h

theorem process_ages {e : Event} (hprocess : e.isProcess = true) (h : e.run w t = .ok w') :
    SegmentsAge w.shms w'.shms := by
  cases e with
  | clone pid child thread vm =>
      cases h
      unfold clone
      cases thread with
      | true => exact .refl _
      | false =>
          cases w.process? t.config.process with
          | none | some => exact .refl _
  | execve pid success =>
      simp only [Event.run, execve] at h
      split at h
      · cases h
        exact .refl _
      · obtain ⟨w₁, hremove, h⟩ := bind_eq_ok.mp h
        have hages := removeMappingsFromProcess_ages hremove
        split at h <;> cases h <;> exact hages
  | death pid =>
      simp only [Event.run, death] at h
      split at h
      · cases h
        exact .refl _
      split at h
      · cases h
        exact .refl _
      · obtain ⟨w₁, hremove, h⟩ := bind_eq_ok.mp h
        cases h
        exact @removeMappingsFromProcess_ages
          { w with tracees := w.tracees.filter (·.pid ≠ t.pid) } w₁ _ _ hremove
  | _ => cases hprocess

theorem shmget_pending {key size shmflg : Word} {allocation : Allocation}
    (hpending : ∀ shm ∈ w.shms, shm.rmidPending = true → shm.valid = true) :
    ∀ shm ∈ (shmget w t key size shmflg allocation).2.shms,
      shm.rmidPending = true → shm.valid = true := by
  have hset : ∀ (shms : List SharedMem) (index : Nat) (shm : SharedMem),
      (∀ u ∈ shms, u.rmidPending = true → u.valid = true) →
      (shm.rmidPending = true → shm.valid = true) →
      ∀ u ∈ shms.set index shm, u.rmidPending = true → u.valid = true := by
    intro shms index shm hshms hshm u hu
    rcases List.mem_or_eq_of_mem_set hu with hu | rfl
    · exact hshms u hu
    · exact hshm
  have hpushed : ∀ u ∈ w.shms ++ [SharedMem.zero], u.rmidPending = true → u.valid = true := by
    intro u hu
    rcases List.mem_append.mp hu with hu | hu
    · exact hpending u hu
    · rw [List.mem_singleton.mp hu]
      intro h
      cases h
  have hgetD : ∀ (shms : List SharedMem) (index : Nat),
      (∀ u ∈ shms, u.rmidPending = true → u.valid = true) →
      ((shms[index]?).getD .zero).rmidPending = true →
      ((shms[index]?).getD .zero).valid = true := by
    intro shms index hshms h
    cases hget : shms[index]? with
    | none =>
        rw [hget] at h
        cases h
    | some shm =>
        rw [hget] at h
        exact hshms shm (List.mem_of_getElem? hget) h
  rcases hslot : shmgetSlot w (((w.process? t.config.process).map (·.pgid)).getD 0) key size shmflg
    allocation with ⟨result, w'⟩
  have hshms : (shmget w t key size shmflg allocation).2.shms = w'.shms := by
    simp only [shmget, hslot]
    cases result <;> rfl
  rw [hshms]
  unfold shmgetSlot at hslot
  split at hslot
  · dsimp only at hslot
    repeat' split at hslot
    all_goals
      cases hslot
      exact hpending
  split at hslot
  · cases hslot
    exact hpending
  dsimp only at hslot
  have htable : ∀ u ∈ (if (unusedSlot w.shms).getD w.shms.length < w.shms.length then w.shms
      else w.shms ++ [SharedMem.zero]), u.rmidPending = true → u.valid = true := by
    split
    · exact hpending
    · exact hpushed
  split at hslot
  · cases hslot
    exact hset _ _ _ htable (hgetD _ _ htable)
  · cases hslot
    exact hset _ _ _ htable fun _ => rfl

end Segments

end Improot.SysVIpc
