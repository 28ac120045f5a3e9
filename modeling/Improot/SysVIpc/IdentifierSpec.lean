import Improot.SysVIpc.SlotSteps

/-!
# What identifiers name

The identifier that a `*get` call returns names its object as long as it lives, and nothing after
that, provided that no object is made in a slot past the 4095th or in one whose generation became
negative.
-/

namespace Improot.SysVIpc

def World.slots (w : World) : Kind → Lib.SlotTable Nat
  | .queue => slotTable w.queues
  | .semaphore => slotTable w.semaphores
  | .segment => slotTable w.shms

def World.lookup (w : World) (id : Word) : Kind → Option (Nat × Nat)
  | .queue => lookupSlot w.queues id
  | .semaphore => lookupSlot w.semaphores id
  | .segment => lookupSlot w.shms id

def liveId {α : Type} [IpcObject α] (objects : List α) (index : Nat) : Option Int :=
  objects[index]?.bind fun object =>
    if IpcObject.valid object then some (ipcObjectId index object).toInt else none

def World.liveId (w : World) (index : Nat) : Kind → Option Int
  | .queue => SysVIpc.liveId w.queues index
  | .semaphore => SysVIpc.liveId w.semaphores index
  | .segment => SysVIpc.liveId w.shms index

/-- The slot that a `*get` call returns, and the identifier. -/
def Syscall.got (w : World) (t : Tracee) : Syscall → Option (Kind × Nat × Int)
  | .msgget key msgflg =>
      match msggetSlot w key msgflg with
      | (.ok index, w) => some (.queue, index, slotId w.queues index)
      | _ => none
  | .semget key nsems semflg =>
      match semgetSlot w key nsems semflg with
      | (.ok index, w) => some (.semaphore, index, slotId w.semaphores index)
      | _ => none
  | .shmget key size shmflg allocation =>
      match shmgetSlot w (((w.process? t.config.process).map (·.pgid)).getD 0) key size shmflg
        allocation with
      | (.ok index, w) => some (.segment, index, slotId w.shms index)
      | _ => none
  | _ => none

def Event.FitsSlots (w : World) : Event → Prop
  | .call _ _ _ c => c.FitsSlots w
  | _ => True

def FitsSlots : Session → Event → Prop
  | .ok w, e => e.FitsSlots w
  | .error _, _ => True

/-- **What an identifier is for**: it isn't negative, it is looked up as the object of some slot and
address as long as this object lives, it is not the identifier of another object, and it is refused
once the object was removed. -/
structure World.Identifies (w : World) (kind : Kind) (index address : Nat) (id : Int) : Prop where
  nonneg : 0 ≤ id
  found : (w.slots kind).occupant index = some address →
    ∀ word, (int word).toInt = id → w.lookup word kind = some (index, address)
  distinct : ∀ other, w.liveId other kind = some id →
    other = index ∧ (w.slots kind).occupant index = some address
  refused : (w.slots kind).occupant index ≠ some address →
    ∀ word, (int word).toInt = id → w.lookup word kind = none

/-! ## The tables of a run -/

structure World.SlotInvariant (w : World) : Prop where
  fits : ∀ kind, (w.slots kind).Fits Nameable w.nextAddress
  pending : ∀ shm ∈ w.shms, shm.rmidPending = true → shm.valid = true

structure SlotsStep (w w' : World) : Prop where
  nextAddress : w.nextAddress ≤ w'.nextAddress
  steps : ∀ kind, TableSteps w.nextAddress w'.nextAddress (w.slots kind) (w'.slots kind)
  pending : ∀ shm ∈ w'.shms, shm.rmidPending = true → shm.valid = true

theorem SlotsStep.invariant {w w' : World} (h : SlotsStep w w') (hw : w.SlotInvariant) :
    w'.SlotInvariant :=
  ⟨fun kind => (h.steps kind).fits ((hw.fits kind).mono h.nextAddress), h.pending⟩

theorem World.SlotInvariant.segments {w : World} (h : w.SlotInvariant) : SegmentsFit w.shms := by
  refine ⟨h.pending, ?_⟩
  intro shm hshm hvalid
  obtain ⟨index, hindex⟩ := List.mem_iff_getElem?.mp hshm
  exact (fits_generation (h.fits .segment) hindex hvalid).2

section Steps

variable {w w' : World} {t : Tracee} {e : Event}

theorem SlotsStep.of_segments (hw : w.SlotInvariant) (hnext : w.nextAddress ≤ w'.nextAddress)
    (hqueues : w'.queues = w.queues) (hsemaphores : w'.semaphores = w.semaphores)
    (hages : SegmentsAge w.shms w'.shms) : SlotsStep w w' := by
  obtain ⟨hfit, hsteps⟩ := hages hw.segments
  refine ⟨hnext, ?_, hfit.pending⟩
  intro kind
  cases kind with
  | queue =>
      rw [World.slots, World.slots, hqueues]
  | semaphore =>
      rw [World.slots, World.slots, hsemaphores]
  | segment => exact hsteps _ _

theorem SlotsStep.of_queues (hw : w.SlotInvariant) (hnext : w.nextAddress ≤ w'.nextAddress)
    (hsemaphores : w'.semaphores = w.semaphores) (hshms : w'.shms = w.shms)
    (hsteps : TableSteps w.nextAddress w'.nextAddress (slotTable w.queues) (slotTable w'.queues)) :
    SlotsStep w w' := by
  refine ⟨hnext, ?_, hshms ▸ hw.pending⟩
  intro kind
  cases kind with
  | queue => exact hsteps
  | semaphore => rw [World.slots, World.slots, hsemaphores]
  | segment => rw [World.slots, World.slots, hshms]

theorem SlotsStep.of_semaphores (hw : w.SlotInvariant) (hnext : w.nextAddress ≤ w'.nextAddress)
    (hqueues : w'.queues = w.queues) (hshms : w'.shms = w.shms)
    (hsteps : TableSteps w.nextAddress w'.nextAddress (slotTable w.semaphores)
      (slotTable w'.semaphores)) : SlotsStep w w' := by
  refine ⟨hnext, ?_, hshms ▸ hw.pending⟩
  intro kind
  cases kind with
  | queue => rw [World.slots, World.slots, hqueues]
  | semaphore => exact hsteps
  | segment => rw [World.slots, World.slots, hshms]

theorem handle_slots {m : GuestMemory} {t' : Tracee} {c : Syscall} {status : Status}
    (hw : w.SlotInvariant) (hhandled : Handled c.kind w t t' w') (hfits : c.FitsSlots w)
    (h : c.handle m w t = .ok (status, t', w')) : SlotsStep w w' := by
  have hnext := hhandled.nextAddress
  have hqueue : c.kind = .queue → TableSteps w.nextAddress w'.nextAddress (slotTable w.queues)
      (slotTable w'.queues) → SlotsStep w w' := by
    intro hkind hsteps
    rw [hkind] at hhandled
    exact .of_queues hw hnext (hhandled.semaphores nofun) (hhandled.segments nofun).1 hsteps
  have hsemaphore : c.kind = .semaphore → TableSteps w.nextAddress w'.nextAddress
      (slotTable w.semaphores) (slotTable w'.semaphores) → SlotsStep w w' := by
    intro hkind hsteps
    rw [hkind] at hhandled
    exact .of_semaphores hw hnext (hhandled.queues nofun) (hhandled.segments nofun).1 hsteps
  have hsegment : c.kind = .segment → SegmentsAge w.shms w'.shms → SlotsStep w w' := by
    intro hkind hages
    rw [hkind] at hhandled
    exact .of_segments hw hnext (hhandled.queues nofun) (hhandled.semaphores nofun) hages
  cases c with
  | msgget key msgflg =>
      cases h
      exact hqueue rfl (msgget_steps hfits)
  | msgsnd => exact hqueue rfl (msgsnd_steps h)
  | msgrcv => exact hqueue rfl (msgrcv_steps (Except.ok.inj h))
  | msgctl => exact hqueue rfl (msgctl_steps ((hw.fits .queue).mono hnext) h)
  | semget key nsems semflg =>
      cases h
      exact hsemaphore rfl (semget_steps hfits)
  | semop => exact hsemaphore rfl (semop_steps h)
  | semctl => exact hsemaphore rfl (semctl_steps ((hw.fits .semaphore).mono hnext) h)
  | shmget key size shmflg allocation =>
      cases h
      refine ⟨hnext, ?_, shmget_pending hw.pending⟩
      intro kind
      cases kind with
      | queue => rw [World.slots, World.slots, hhandled.queues nofun]
      | semaphore => rw [World.slots, World.slots, hhandled.semaphores nofun]
      | segment => exact shmget_steps hfits
  | shmat id => exact hsegment rfl (shmat_shms (Except.ok.inj h) ▸ .refl _)
  | shmdt => exact hsegment rfl (shmdt_ages h)
  | shmctl => exact hsegment rfl (shmctl_ages h)

/-- **A step of the extension**, as steps of the three tables of slots. -/
theorem step_slots (hregular : w.Regular) (hw : w.SlotInvariant) (hfits : e.FitsSlots w)
    (h : step (.ok w) e = some (.ok w')) : SlotsStep w w' := by
  rcases step_cases h with ⟨rfl, helper, -, rfl⟩ | ⟨t, ht, -, henabled, hrun⟩
  · exact .of_segments hw (Nat.le_refl _) rfl rfl (.refl _)
  by_cases hprocess : e.isProcess = true
  · have hages := process_ages hprocess hrun
    cases e with
    | clone pid child thread vm =>
        cases hrun
        obtain ⟨_, -, -, -, hqueues, hsemaphores, hnext⟩ := clone_spec w t child thread vm
        exact .of_segments hw hnext hqueues hsemaphores hages
    | execve pid success =>
        have honly := execve_only hrun
        exact .of_segments hw honly.nextAddress honly.queues honly.semaphores hages
    | death pid =>
        have honly := death_only hrun
        exact .of_segments hw honly.nextAddress honly.queues honly.semaphores hages
    | _ => cases hprocess
  have hprocess : e.isProcess = false := by simpa using hprocess
  obtain ⟨t', hturn⟩ := run_turn hregular ht henabled hprocess hrun
  cases e with
  | call pid m fromSigsys c =>
      simp only [Event.enabled, Bool.and_eq_true] at henabled
      obtain ⟨status, t₁, w₁, t', hhandle, hhandled, -, rfl, -⟩ :=
        call_turn hregular ht henabled.1 hrun
      have hstep : SlotsStep w w₁ := by
        apply handle_slots hw _ hfits hhandle
        exact { hhandled with }
      exact ⟨hstep.nextAddress, hstep.steps, hstep.pending⟩
  | enterStart pid m =>
      obtain ⟨hshms, -⟩ := hturn.segments (by rintro ⟨⟩)
      refine .of_queues hw hturn.nextAddress (hturn.semaphores (by rintro ⟨⟩)) hshms ?_
      simp only [Event.run, enterStart] at hrun
      split at hrun
      · cases hrun
        exact .refl
      · obtain ⟨⟨status, t₁, w₁⟩, hresume, hrun⟩ := bind_eq_ok.mp hrun
        cases hrun
        show TableSteps _ _ _ (slotTable w₁.queues)
        exact resume_steps hresume
      · cases hrun
  | exitStart pid m ppollStatus =>
      obtain ⟨hshms, -⟩ := hturn.segments (by rintro ⟨⟩)
      refine .of_queues hw hturn.nextAddress (hturn.semaphores (by rintro ⟨⟩)) hshms ?_
      simp only [Event.run, exitStart] at hrun
      split at hrun
      · split at hrun
        · cases hrun
        · cases hrun
          exact .refl
      · split at hrun
        · cases hrun
        · obtain ⟨⟨status, t₁, w₁⟩, hresume, hrun⟩ := bind_eq_ok.mp hrun
          cases hrun
          show TableSteps _ _ _ (slotTable w₁.queues)
          exact resume_steps hresume
      · split at hrun
        · cases hrun
        · obtain ⟨⟨status, t₁, w₁⟩, hresume, hrun⟩ := bind_eq_ok.mp hrun
          cases hrun
          show TableSteps _ _ _ (slotTable w₁.queues)
          exact resume_steps hresume
      · cases hrun
        exact .refl
      · cases hrun
  | clone | execve | death => cases hprocess
  | _ =>
      exact .of_segments hw hturn.nextAddress (hturn.queues (by rintro ⟨⟩))
        (hturn.semaphores (by rintro ⟨⟩)) (chain_ages rfl hprocess (by simp) hrun)

end Steps

/-! ## Runs -/

section Runs

variable {w w₁ : World}

theorem reach_slotInvariant (h : system.Reach FitsSlots (.ok w)) : w.SlotInvariant := by
  apply reach_world _ _ h
  · intro pid
    refine ⟨?_, by simp [World.initial]⟩
    intro kind i s a hs
    cases kind <;> simp [World.slots, World.initial, slotTable] at hs
  · intro w e w' hregular hw hfits hstep
    exact (step_slots hregular hw hfits hstep).invariant hw

theorem steps_age (h : system.Reach FitsSlots (.ok w₁))
    (hsteps : system.Steps FitsSlots (.ok w₁) (.ok w)) (kind : Kind) :
    Lib.SlotTable.Ages w₁.nextAddress (w₁.slots kind) (w.slots kind) := by
  have hall : ∀ s, system.Steps FitsSlots (.ok w₁) s → ∀ w, s = .ok w →
      w₁.nextAddress ≤ w.nextAddress ∧
        Lib.SlotTable.Ages w₁.nextAddress (w₁.slots kind) (w.slots kind) := by
    intro s hs
    induction hs with
    | refl =>
        intro w hw
        cases hw
        exact ⟨Nat.le_refl _, .refl _ _⟩
    | @next s e s' hs hfits hstep ih =>
        intro w hw
        subst hw
        cases s with
        | error a => cases hstep
        | ok v =>
            obtain ⟨hle, hages⟩ := ih v rfl
            have hv := h.steps hs
            have hslots := step_slots (reach_regular hv) (reach_slotInvariant hv) hfits hstep
            exact ⟨hle.trans hslots.nextAddress, hages.trans hle (hslots.steps kind).ages⟩
  exact (hall _ hsteps w rfl).2

variable {index : Nat} {id : Int} {kind : Kind}

theorem World.lookup_eq_resolve {generation : Nat} (h : Nameable index generation) {id : Word}
    (hid : (int id).toNat = index + 1 + generation * 4096) (kind : Kind) :
    w.lookup id kind = ((w.slots kind).resolve index generation).map (index, ·) := by
  cases kind <;> exact lookupSlot_eq_resolve h hid

theorem toInt_of_nameable {generation : Nat} (h : Nameable index generation) {id : BitVec 32}
    (hid : id.toNat = index + 1 + generation * 4096) :
    id.toInt = index + 1 + generation * 4096 := by
  obtain ⟨hindex, hgeneration⟩ := h
  rw [BitVec.toInt_eq_toNat_cond, if_pos (by omega), hid]
  omega

theorem toNat_of_toInt {generation : Nat} (h : Nameable index generation) {id : BitVec 32}
    (hid : id.toInt = index + 1 + generation * 4096) :
    id.toNat = index + 1 + generation * 4096 := by
  obtain ⟨hindex, hgeneration⟩ := h
  have := id.isLt
  rw [BitVec.toInt_eq_toNat_cond] at hid
  split at hid <;> omega

theorem liveId_eq_some {α : Type} [IpcObject α] {objects : List α} {fresh : Nat}
    (hfits : (slotTable objects).Fits Nameable fresh) (h : liveId objects index = some id) :
    ∃ s a, (slotTable objects)[index]? = some s ∧ s.occupant = some a ∧
      Nameable index s.generation ∧ id = index + 1 + s.generation * 4096 := by
  obtain ⟨object, hget, hlive⟩ := Option.bind_eq_some_iff.mp h
  split at hlive
  · rename_i hvalid
    cases hlive
    have hname := fits_generation hfits hget hvalid
    refine ⟨slotOf object, IpcObject.address object, ?_, ?_, hname, ?_⟩
    · rw [slotTable_getElem?, hget]
      rfl
    · rw [slotOf_valid hvalid]
    · exact toInt_of_nameable hname (ipcObjectId_toNat hname)
  · cases hlive

theorem World.liveId_eq_some (hw : w.SlotInvariant) (h : w.liveId index kind = some id) :
    ∃ s a, (w.slots kind)[index]? = some s ∧ s.occupant = some a ∧
      Nameable index s.generation ∧ id = index + 1 + s.generation * 4096 := by
  have hfits := hw.fits kind
  cases kind <;> exact SysVIpc.liveId_eq_some hfits h

/-- **A live object and its identifier**, in the state where the identifier is made and in every
later state. -/
theorem liveId_identifies (h : system.Reach FitsSlots (.ok w₁))
    (hid : w₁.liveId index kind = some id) :
    ∃ address, (w₁.slots kind).occupant index = some address ∧
      ∀ w, system.Steps FitsSlots (.ok w₁) (.ok w) → w.Identifies kind index address id := by
  have hw₁ := reach_slotInvariant h
  obtain ⟨s, address, hs, hoccupant, hname, hid⟩ := World.liveId_eq_some hw₁ hid
  have hlt : address < w₁.nextAddress := (hw₁.fits kind index s address hs hoccupant).2
  refine ⟨address, by simp [Lib.SlotTable.occupant, hs, hoccupant], ?_⟩
  intro w hsteps
  have hages := steps_age h hsteps kind
  obtain ⟨hstays, hleft⟩ := hages.resolve hs hoccupant hlt
  have hlookup : ∀ word, (int word).toInt = id →
      w.lookup word kind = ((w.slots kind).resolve index s.generation).map (index, ·) := by
    intro word hword
    exact World.lookup_eq_resolve hname (toNat_of_toInt hname (hword.trans hid)) kind
  constructor
  · omega
  · intro hlives word hword
    rw [hlookup word hword, hstays hlives]
    rfl
  · intro other hother
    obtain ⟨s', a, hs', hoccupant', ⟨hother_lt, -⟩, hid'⟩ :=
      World.liveId_eq_some (reach_slotInvariant (h.steps hsteps)) hother
    have hindex : other = index := by
      obtain ⟨hindex, -⟩ := hname
      omega
    subst hindex
    have hgeneration : s'.generation = s.generation := by omega
    refine ⟨rfl, ?_⟩
    obtain ⟨s'', hs'', hslot⟩ := hages other s hs
    rw [hs'] at hs''
    cases hs''
    simpa [Lib.SlotTable.occupant, hs'] using hslot.stays address hoccupant hgeneration
  · intro hremoved word hword
    rw [hlookup word hword, hleft hremoved]
    rfl

/-! ## The identifiers that are returned -/

theorem Gets.liveId {α : Type} [IpcObject α] {objects objects' : List α} {key : Word} {creat : Bool}
    {fresh fresh' : Nat} (h : Gets objects key creat fresh fresh' (.ok index) objects') :
    liveId objects' index = some (slotId objects' index) := by
  obtain ⟨object, hget, hvalid⟩ := h.live
  simp [SysVIpc.liveId, slotId, hget, hvalid]

theorem Gets.fits_of_lookup {α : Type} [IpcObject α] {objects objects' : List α} {key : Word}
    {creat : Bool} {fresh fresh' address : Nat}
    (h : Gets objects key creat fresh fresh' (.ok index) objects')
    (hlookup : ∀ word, (int word).toInt = slotId objects' index →
      lookupSlot objects' word = some (index, address))
    (hkey : findKey objects key = none) : SlotFits objects := by
  obtain ⟨object, hget, -⟩ := h.live
  have hid : (int ((ipcObjectId index object).setWidth 64)).toInt = slotId objects' index := by
    rw [slotId, hget, int, BitVec.setWidth_setWidth_of_le _ (by omega), BitVec.setWidth_eq]
    rfl
  exact h.fits hget (lookupSlot_nameable (hlookup _ hid) hget) hkey

/-- **A `*get` call** that succeeds returns the identifier of a live object, and when the identifier
is worth something the slot met the condition. -/
theorem got_spec (m : GuestMemory) {t : Tracee} {c : Syscall}
    (h : c.got w t = some (kind, index, id)) :
    ∃ w', c.handle m w t = .ok (.ok id, t, w') ∧ w'.liveId index kind = some id ∧
      ∀ address, (w'.slots kind).occupant index = some address →
        w'.Identifies kind index address id → c.FitsSlots w := by
  cases c with
  | msgget key msgflg =>
      simp only [Syscall.got] at h
      split at h
      · rename_i index' w' hslot
        cases h
        have hgets := msggetSlot_gets hslot
        refine ⟨w', by simp only [Syscall.handle, msgget, hslot], hgets.liveId, ?_⟩
        intro address hlives hid hkey _
        exact hgets.fits_of_lookup (hid.found hlives) hkey
      · cases h
  | semget key nsems semflg =>
      simp only [Syscall.got] at h
      split at h
      · rename_i index' w' hslot
        cases h
        have hgets := semgetSlot_gets hslot
        refine ⟨w', by simp only [Syscall.handle, semget, hslot], hgets.liveId, ?_⟩
        intro address hlives hid _ _ hkey _
        exact hgets.fits_of_lookup (hid.found hlives) hkey
      · cases h
  | shmget key size shmflg allocation =>
      simp only [Syscall.got] at h
      split at h
      · rename_i index' w' hslot
        cases h
        have hgets := shmgetSlot_gets hslot
        refine ⟨w', by simp only [Syscall.handle, shmget, hslot], hgets.liveId, ?_⟩
        intro address hlives hid hkey _ _
        exact hgets.fits_of_lookup (hid.found hlives) hkey
      · cases h
  | _ => cases h

theorem got_step {m : GuestMemory} {pid : Nat} {fromSigsys : Bool} {c : Syscall} {t : Tracee}
    (hregular : w.Regular)
    (hstep : step (.ok w) (.call pid m fromSigsys c) = some (.ok w₁)) (ht : w.tracee? pid = some t)
    (h : c.got w t = some (kind, index, id)) :
    w₁.liveId index kind = some id ∧
      ∀ address, (w₁.slots kind).occupant index = some address →
        w₁.Identifies kind index address id → c.FitsSlots w := by
  rcases step_cases hstep with ⟨he, -⟩ | ⟨u, hu, hpid, henabled, hrun⟩
  · cases he
  cases hpid
  obtain ⟨hmem, hpid⟩ := tracee?_mem ht
  cases hregular.pid_injective hmem hu hpid
  simp only [Event.enabled, Bool.and_eq_true] at henabled
  obtain ⟨status, t₁, w', t', hhandle, -, -, rfl, -⟩ := call_turn hregular hmem henabled.1 hrun
  have h' : c.got w { t with asked := .nothing } = some (kind, index, id) := by
    cases c <;> exact h
  obtain ⟨w'', hhandle', hlive, hfits⟩ := got_spec m h'
  rw [hhandle] at hhandle'
  cases hhandle'
  refine ⟨by cases kind <;> exact hlive, ?_⟩
  intro address hlives hid
  refine hfits address (by cases kind <;> exact hlives) ?_
  exact ⟨hid.nonneg, by cases kind <;> exact hid.found, by cases kind <;> exact hid.distinct,
    by cases kind <;> exact hid.refused⟩

/-- **Identifiers name objects** in the runs whose steps meet the condition: the identifier that a
`*get` call returns is for the object in some slot, and it identifies this object in every later
state.  A `*get` call that doesn't meet the condition returns one that isn't worth anything. -/
theorem identifiers_identify {w w₁ : World} {pid : Nat} {m : GuestMemory} {fromSigsys : Bool}
    {c : Syscall} {t : Tracee} {kind : Kind} {index : Nat} {id : Int}
    (h : system.Reach FitsSlots (.ok w))
    (hstep : step (.ok w) (.call pid m fromSigsys c) = some (.ok w₁))
    (ht : w.tracee? pid = some t) (hgot : c.got w t = some (kind, index, id)) :
    (FitsSlots (.ok w) (.call pid m fromSigsys c) →
      ∃ address, (w₁.slots kind).occupant index = some address ∧
        ∀ w₂, system.Steps FitsSlots (.ok w₁) (.ok w₂) → w₂.Identifies kind index address id) ∧
    ((∃ address, (w₁.slots kind).occupant index = some address ∧
        w₁.Identifies kind index address id) ↔ c.FitsSlots w) := by
  obtain ⟨hlive, honly⟩ := got_step (reach_regular h) hstep ht hgot
  have hfirst : FitsSlots (.ok w) (.call pid m fromSigsys c) →
      ∃ address, (w₁.slots kind).occupant index = some address ∧
        ∀ w₂, system.Steps FitsSlots (.ok w₁) (.ok w₂) → w₂.Identifies kind index address id := by
    intro hfits
    exact liveId_identifies (.next h hfits hstep) hlive
  refine ⟨hfirst, ?_⟩
  constructor
  · rintro ⟨address, hlives, hid⟩
    exact honly address hlives hid
  · intro hfits
    obtain ⟨address, hlives, hid⟩ := hfirst hfits
    exact ⟨address, hlives, hid w₁ .refl⟩

def GuestMemory.unused : GuestMemory where
  readLong _ := .error .efault
  readBytes _ _ := .error .efault
  readSops _ _ := .error .efault
  write _ _ := .error .efault

def makeQueue : Event := .call 1 .unused true (.msgget ipcPrivate (ipcCreat.setWidth 64))

theorem findKey_private {α : Type} [IpcObject α] (objects : List α) :
    findKey objects ipcPrivate = none := by
  simp [findKey, List.findIdx?_eq_none_iff]

theorem unusedSlot_valid {α : Type} [IpcObject α] {objects : List α}
    (h : ∀ object ∈ objects, IpcObject.valid object = true) : unusedSlot objects = none := by
  simp only [unusedSlot, List.findIdx?_eq_none_iff]
  intro object hobject
  rw [h object hobject]
  rfl

theorem makeQueue_step {t : Tracee} (htracees : w.tracees = [t]) (hpid : t.pid = 1)
    (hidle : t.config.idle = true) (hcalls : t.config.waitReason = .notWaiting)
    (hvalid : ∀ queue ∈ w.queues, queue.valid = true) :
    step (.ok w) makeQueue = some (.ok ({ w with
      queues := w.queues ++ [.create 0 0 w.nextAddress]
      nextAddress := w.nextAddress + 1
      tracees := [{ t with
        asked := .nothing
        result := .ok (slotId (w.queues ++ [.create 0 0 w.nextAddress]) w.queues.length) }] })) := by
  have hunused : unusedSlot w.queues = none := unusedSlot_valid hvalid
  have hfind : w.tracee? 1 = some t := by simp [World.tracee?, htracees, hpid]
  obtain ⟨hstate, hchain⟩ := by
    simpa only [Config.idle, Bool.and_eq_true, decide_eq_true_eq] using hidle
  have hslot : msggetSlot w ipcPrivate (ipcCreat.setWidth 64) =
      (.ok w.queues.length, { w with
        queues := w.queues ++ [.create 0 0 w.nextAddress]
        nextAddress := w.nextAddress + 1 }) := by
    have hcreat : has (int (ipcCreat.setWidth 64)) ipcCreat = true := by decide
    simp [msggetSlot, findKey_private, hcreat, hunused]
    rfl
  simp [step, makeQueue, Event.pid, hfind, Event.enabled, hidle, Syscall.answered, Event.run, call,
    Syscall.handle, msgget, hslot, syscallCommon, hchain, hcalls, World.setTracee, htracees, bind,
    Except.bind]

theorem queues_reached (n : Nat) :
    ∃ w t, system.Reach Lib.System.Always (.ok w) ∧ w.queues.length = n ∧
      (∀ queue ∈ w.queues, queue.valid = true) ∧ w.tracees = [t] ∧ t.pid = 1 ∧
      t.config.idle = true ∧ t.config.waitReason = .notWaiting := by
  induction n with
  | zero => exact ⟨.initial 1, _, .start ⟨1, rfl⟩, rfl, by simp [World.initial], rfl, rfl, rfl, rfl⟩
  | succ n ih =>
      obtain ⟨w, t, hreach, hlength, hvalid, htracees, hpid, hidle, hcalls⟩ := ih
      have hstep : system.step (.ok w) makeQueue = some (.ok _) :=
        makeQueue_step htracees hpid hidle hcalls hvalid
      refine ⟨_, _, .next hreach trivial hstep, ?_, ?_, rfl, hpid, hidle, hcalls⟩
      · simp [hlength]
      · intro queue hqueue
        rcases List.mem_append.mp hqueue with hqueue | hqueue
        · exact hvalid queue hqueue
        · rw [List.mem_singleton.mp hqueue]
          rfl

/-- **An identifier that names nothing**: the 4096th queue. -/
theorem identifiers_not_identify :
    ¬ ∀ w w₁ pid m fromSigsys c t kind index id, system.Reach Lib.System.Always (.ok w) →
      step (.ok w) (.call pid m fromSigsys c) = some (.ok w₁) → w.tracee? pid = some t →
      c.got w t = some (kind, index, id) →
      ∃ address, (w₁.slots kind).occupant index = some address ∧
        ∀ w₂, system.Steps Lib.System.Always (.ok w₁) (.ok w₂) →
          w₂.Identifies kind index address id := by
  intro h
  obtain ⟨w, t, hreach, hlength, hvalid, htracees, hpid, hidle, hcalls⟩ := queues_reached 4095
  have hstep := makeQueue_step htracees hpid hidle hcalls hvalid
  have hfind : w.tracee? 1 = some t := by simp [World.tracee?, htracees, hpid]
  have hunused : unusedSlot w.queues = none := unusedSlot_valid hvalid
  have hgot : ∃ id, (Syscall.msgget ipcPrivate (ipcCreat.setWidth 64)).got w t =
      some (.queue, 4095, id) := by
    have hcreat : has (int (ipcCreat.setWidth 64)) ipcCreat = true := by decide
    simp [Syscall.got, msggetSlot, findKey_private, hcreat, hunused, hlength]
  obtain ⟨id, hgot⟩ := hgot
  obtain ⟨address, hlives, hid⟩ := h _ _ _ _ _ _ _ _ _ _ hreach hstep hfind hgot
  have hfits := (got_step (reach_regular hreach) hstep hfind hgot).2 address hlives (hid _ .refl)
  have hslot := hfits (findKey_private _) (by decide)
  simp [SlotFits, hunused, hlength, Nameable] at hslot

def removeQueue : Event := .call 1 .unused true (.msgctl 1 (ipcRmid.setWidth 64) 0)

/-- A queue is made in the slot of one that was removed: it has an identifier of its own, and the
one of the first is refused. -/
theorem identifiers_identify_queue :
    ∃ w w₁ address, system.exec (.ok (.initial 1)) [makeQueue, removeQueue] = some (.ok w) ∧
      step (.ok w) makeQueue = some (.ok w₁) ∧ w₁.lookup 1 .queue = none ∧
      ((w₁.slots .queue).occupant 0 = some address ∧ w₁.Identifies .queue 0 address 4097) := by
  obtain ⟨w, hexec, w₁, t, hstep, hlookup, ht, hgot⟩ :
      ∃ w, system.exec (.ok (.initial 1)) [makeQueue, removeQueue] = some (.ok w) ∧
        ∃ w₁ t, step (.ok w) makeQueue = some (.ok w₁) ∧ w₁.lookup 1 .queue = none ∧
          w.tracee? 1 = some t ∧
          (Syscall.msgget ipcPrivate (ipcCreat.setWidth 64)).got w t = some (.queue, 0, 4097) :=
    ⟨_, rfl, _, _, rfl, rfl, rfl, rfl⟩
  have hfirst : FitsSlots (.ok (.initial 1)) makeQueue := fun _ _ => ⟨by decide, by decide⟩
  have hremove (s : Session) : FitsSlots s removeQueue := by cases s <;> trivial
  have halong : system.Along FitsSlots (.ok (.initial 1)) [makeQueue, removeQueue] :=
    ⟨hfirst, fun s _ => ⟨hremove s, fun _ _ => trivial⟩⟩
  have hreach : system.Reach FitsSlots (.ok w) := .exec_along (.start ⟨1, rfl⟩) halong hexec
  have hfits : FitsSlots (.ok w) makeQueue := by
    cases hexec
    exact fun _ _ => ⟨by decide, by decide⟩
  obtain ⟨address, hlives, hid⟩ := (identifiers_identify hreach hstep ht hgot).1 hfits
  exact ⟨w, w₁, address, hexec, hstep, hlookup, hlives, hid w₁ .refl⟩

end Runs

end Improot.SysVIpc
