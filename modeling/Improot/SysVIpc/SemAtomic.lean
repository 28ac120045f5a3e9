import Mathlib.Algebra.Ring.Int.Defs
import Improot.SysVIpc.SemWakeup

/-!
# semop(2) is all or nothing

What a list of operations means is said without running it: the value that a semaphore has after
some operations is the one before plus their sum.  A check of the list stores these values if every
operation can be done after the ones before it, and changes nothing otherwise; the loop of
`sysvipc_semop` does the same on behalf of the tracees that are blocked.
-/

namespace Improot.SysVIpc

/-! ## What a list of operations means -/

/-- The value of the semaphore `i` after some operations. -/
def after (sems : List Nat) (sops : List Sembuf) (i : Nat) : Int :=
  sems.getD i 0 + ((sops.filter (·.semNum.toNat = i)).map (·.semOp.toInt)).sum

def Sembuf.Meets (sop : Sembuf) (value : Int) : Prop :=
  if sop.semOp.toInt = 0 then value = 0
  else 0 ≤ value + sop.semOp.toInt ∧ value + sop.semOp.toInt ≤ maxSemval

def Performable (sems : List Nat) (sops : List Sembuf) : Prop :=
  ∀ before sop rest, sops = before ++ sop :: rest → sop.Meets (after sems before sop.semNum.toNat)

def InRange (sems : List Nat) : Prop := ∀ value ∈ sems, value ≤ maxSemval

structure Completes (sems : List Nat) (sops : List Sembuf) (sems' : List Nat) : Prop where
  performable : Performable sems sops
  length : sems'.length = sems.length
  values : ∀ i < sems.length, (sems'.getD i 0 : Int) = after sems sops i

def Fit (nsems : Nat) (sops : List Sembuf) : Prop := ∀ sop ∈ sops, sop.semNum.toNat < nsems

@[simp] theorem after_nil (sems : List Nat) (i : Nat) : after sems [] i = sems.getD i 0 := by
  simp [after]

theorem after_cons {sems : List Nat} {sop : Sembuf} {value : Nat}
    (hfit : sop.semNum.toNat < sems.length)
    (hvalue : (value : Int) = sems.getD sop.semNum.toNat 0 + sop.semOp.toInt)
    (sops : List Sembuf) (i : Nat) :
    after sems (sop :: sops) i = after (sems.set sop.semNum.toNat value) sops i := by
  unfold after
  by_cases hi : sop.semNum.toNat = i
  · subst hi
    have hget : (sems.set sop.semNum.toNat value).getD sop.semNum.toNat 0 = value := by
      simp [List.getD, hfit]
    rw [List.filter_cons_of_pos (by simp), List.map_cons, List.sum_cons, hget, hvalue]
    omega
  · have hget : (sems.set sop.semNum.toNat value).getD i 0 = sems.getD i 0 := by
      simp [List.getD, List.getElem?_set_ne hi]
    rw [List.filter_cons_of_neg (by simpa using hi), hget]

theorem after_cons_zero {sop : Sembuf} (hop : sop.semOp.toInt = 0) (sems : List Nat)
    (sops : List Sembuf) (i : Nat) : after sems (sop :: sops) i = after sems sops i := by
  unfold after
  by_cases hi : sop.semNum.toNat = i
  · rw [List.filter_cons_of_pos (by simpa using hi), List.map_cons, List.sum_cons, hop, Int.zero_add]
  · rw [List.filter_cons_of_neg (by simpa using hi)]

theorem performable_nil (sems : List Nat) : Performable sems [] := by
  intro before sop rest h
  simp at h

theorem performable_cons {sems sems' : List Nat} {sop : Sembuf} {sops : List Sembuf}
    (h : ∀ before i, after sems (sop :: before) i = after sems' before i) :
    Performable sems (sop :: sops) ↔
      sop.Meets (sems.getD sop.semNum.toNat 0) ∧ Performable sems' sops := by
  constructor
  · intro hall
    refine ⟨?_, ?_⟩
    · have hfirst := hall [] sop sops rfl
      rwa [after_nil] at hfirst
    · rintro before last rest rfl
      have hlast := hall (sop :: before) last rest rfl
      rwa [h] at hlast
  · rintro ⟨hfirst, hrest⟩ before last rest heq
    cases before with
    | nil =>
        cases heq
        rwa [after_nil]
    | cons first before =>
        simp only [List.cons_append, List.cons.injEq] at heq
        obtain ⟨rfl, rfl⟩ := heq
        rw [h]
        exact hrest before last rest rfl

/-! ## One check -/

def Atomic (sems : List Nat) (sops : List Sembuf) : SemCheck → Prop
  | .done sems' => Completes sems sops sems' ∧ InRange sems'
  | .wait | .failed _ => ¬ Performable sems sops

theorem InRange.set {sems : List Nat} (h : InRange sems) {i value : Nat} (hvalue : value ≤ maxSemval) :
    InRange (sems.set i value) := by
  intro v hv
  rcases List.mem_or_eq_of_mem_set hv with hv | rfl
  · exact h v hv
  · exact hvalue

/-- **A check is atomic**, by induction on the list: the values so far are the ones after the
operations so far. -/
theorem semCheck_atomic {sems : List Nat} {sops : List Sembuf} (hrange : InRange sems)
    (hfit : Fit sems.length sops) : Atomic sems sops (semCheck sems sops) := by
  induction sops generalizing sems with
  | nil => exact ⟨⟨performable_nil sems, rfl, fun i _ => (after_nil sems i).symm⟩, hrange⟩
  | cons sop sops ih =>
      obtain ⟨hfirst, hrest⟩ := List.forall_mem_cons.mp hfit
      -- an operation that can't be done ends the check
      have hstop : ∀ check : SemCheck, (∀ sems', check ≠ .done sems') →
          ¬ sop.Meets (sems.getD sop.semNum.toNat 0) → Atomic sems (sop :: sops) check := by
        intro check hcheck hmeets
        have hnot : ¬ Performable sems (sop :: sops) := by
          intro hall
          have hhead := hall [] sop sops rfl
          rw [after_nil] at hhead
          exact hmeets hhead
        cases check with
        | done sems' => exact absurd rfl (hcheck sems')
        | wait | failed => exact hnot
      -- the rest of the check goes on with other values
      have hgo : ∀ sems', InRange sems' → sems'.length = sems.length →
          (∀ before i, after sems (sop :: before) i = after sems' before i) →
          sop.Meets (sems.getD sop.semNum.toNat 0) →
          Atomic sems (sop :: sops) (semCheck sems' sops) := by
        intro sems' hrange' hlength hafter hmeets
        have hatomic := ih hrange' (hlength ▸ hrest)
        have hiff := @performable_cons sems sems' sop sops hafter
        cases hcheck : semCheck sems' sops with
        | done sems'' =>
            rw [hcheck] at hatomic
            obtain ⟨hcompletes, hrange''⟩ := hatomic
            refine ⟨⟨hiff.mpr ⟨hmeets, hcompletes.performable⟩, hcompletes.length.trans hlength, ?_⟩,
              hrange''⟩
            intro i hi
            rw [hafter]
            exact hcompletes.values i (hlength ▸ hi)
        | wait | failed =>
            rw [hcheck] at hatomic
            exact fun h => hatomic (hiff.mp h).2
      rw [semCheck]
      by_cases hop : sop.semOp.toInt = 0
      · simp only [hop, if_true]
        by_cases hvalue : sems.getD sop.semNum.toNat 0 = 0
        · rw [if_neg (not_not.mpr hvalue)]
          refine hgo sems hrange rfl (after_cons_zero hop sems) ?_
          rw [Sembuf.Meets, if_pos hop, hvalue]
          rfl
        · rw [if_pos hvalue]
          have hmeets : ¬ sop.Meets (sems.getD sop.semNum.toNat 0) := by
            rw [Sembuf.Meets, if_pos hop]
            exact_mod_cast hvalue
          split
          · exact hstop _ (by simp) hmeets
          · exact hstop _ (by simp) hmeets
      · simp only [hop, if_false]
        by_cases hneg : (sems.getD sop.semNum.toNat 0 : Int) + sop.semOp.toInt < 0
        · have hmeets : ¬ sop.Meets (sems.getD sop.semNum.toNat 0) := by
            rw [Sembuf.Meets, if_neg hop]
            omega
          rw [if_pos hneg]
          split
          · exact hstop _ (by simp) hmeets
          · exact hstop _ (by simp) hmeets
        · rw [if_neg hneg]
          by_cases hbig : (sems.getD sop.semNum.toNat 0 : Int) + sop.semOp.toInt > maxSemval
          · rw [if_pos hbig]
            refine hstop _ (by simp) ?_
            rw [Sembuf.Meets, if_neg hop]
            omega
          · rw [if_neg hbig]
            refine hgo _ (hrange.set (by omega)) (by simp) (fun before i => ?_) ?_
            · exact after_cons hfirst (by omega) before i
            · rw [Sembuf.Meets, if_neg hop]
              omega

/-! ## The loop over the other tracees -/

def Tracee.AnsweredBy (t t' : Tracee) (status : Status) : Prop :=
  t'.pid = t.pid ∧ t'.config.waitReason = .notWaiting ∧ t'.config.statusAfterWait = status

/-- What the loop of `sysvipc_semop` makes of the values and of the tracees: each one that is
blocked on the set completes its operations, or changes no value. -/
inductive Settles (pid index : Nat) :
    List Nat → List Tracee → List Nat → List Tracee → Prop
  | nil {sems} : Settles pid index sems [] sems []
  | past {sems sems' t ts ts'} : t.examined pid index = false →
      Settles pid index sems ts sems' ts' → Settles pid index sems (t :: ts) sems' (t :: ts')
  | blocked {sems sems' t ts ts'} : t.examined pid index = true →
      ¬ Performable sems t.config.semopSops →
      Settles pid index sems ts sems' ts' → Settles pid index sems (t :: ts) sems' (t :: ts')
  | failed {sems sems' t t' ts ts' e} : t.examined pid index = true →
      ¬ Performable sems t.config.semopSops → t.AnsweredBy t' (.error e) →
      Settles pid index sems ts sems' ts' → Settles pid index sems (t :: ts) sems' (t' :: ts')
  | completed {sems mid sems' t t' ts ts'} : t.examined pid index = true →
      Completes sems t.config.semopSops mid → t.AnsweredBy t' (.ok 0) →
      Settles pid index mid ts sems' ts' → Settles pid index sems (t :: ts) sems' (t' :: ts')

/-- The loop over the other tracees completes lists or leaves them alone. -/
theorem semopPass_settles {pid index : Nat} {sems sems' : List Nat} {ts ts' : List Tracee}
    (hphases : ∀ t ∈ ts, t.Phase) (hrange : InRange sems)
    (hfit : ∀ t ∈ ts, t.examined pid index = true → Fit sems.length t.config.semopSops)
    (h : semopPass pid index sems ts = .ok (sems', ts')) :
    Settles pid index sems ts sems' ts' ∧ InRange sems' ∧ sems'.length = sems.length := by
  induction ts generalizing sems ts' with
  | nil =>
      cases h
      exact ⟨.nil, hrange, rfl⟩
  | cons t ts ih =>
      have ih := fun sems ts' => @ih sems ts' fun t ht => hphases t (List.mem_cons_of_mem _ ht)
      have hrest : ∀ u ∈ ts, u.examined pid index = true → Fit sems.length u.config.semopSops :=
        fun u hu => hfit u (List.mem_cons_of_mem _ hu)
      rw [semopPass] at h
      by_cases hex : t.examined pid index = true
      · obtain ⟨-, hwake⟩ := (hphases t List.mem_cons_self).of_examined hex
        have hatomic := semCheck_atomic hrange (hfit t List.mem_cons_self hex)
        rw [if_pos hex] at h
        cases hcheck : semCheck sems t.config.semopSops with
        | wait =>
            rw [hcheck] at hatomic
            simp only [hcheck, bind_eq_ok] at h
            obtain ⟨⟨_, _⟩, hpass, h⟩ := h
            cases h
            obtain ⟨hsettles, hrange', hlength⟩ := ih _ _ hrange hrest hpass
            exact ⟨.blocked hex hatomic hsettles, hrange', hlength⟩
        | failed e =>
            rw [hcheck] at hatomic
            simp only [hcheck, hwake, bind_eq_ok] at h
            obtain ⟨_, heq, ⟨_, _⟩, hpass, h⟩ := h
            cases heq
            cases h
            obtain ⟨hsettles, hrange', hlength⟩ := ih _ _ hrange hrest hpass
            exact ⟨.failed hex hatomic ⟨rfl, rfl, rfl⟩ hsettles, hrange', hlength⟩
        | done mid =>
            rw [hcheck] at hatomic
            obtain ⟨hcompletes, hmid⟩ := hatomic
            simp only [hcheck, hwake, bind_eq_ok] at h
            obtain ⟨_, heq, ⟨_, _⟩, hpass, h⟩ := h
            cases heq
            cases h
            obtain ⟨hsettles, hrange', hlength⟩ :=
              ih _ _ hmid (hcompletes.length ▸ hrest) hpass
            exact ⟨.completed hex hcompletes ⟨rfl, rfl, rfl⟩ hsettles, hrange',
              hlength.trans hcompletes.length⟩
      · rw [if_neg hex] at h
        simp only [bind_eq_ok] at h
        obtain ⟨⟨_, _⟩, hpass, h⟩ := h
        cases h
        obtain ⟨hsettles, hrange', hlength⟩ := ih _ _ hrange hrest hpass
        exact ⟨.past (by simpa using hex) hsettles, hrange', hlength⟩

/-! ## The call -/

/-- The call succeeds and stores the values after its operations, or it fails or blocks and changes
no value. -/
inductive Outcome (sems : List Nat) (sops : List Sembuf) : Status → Tracee → List Nat → Prop
  | succeeds {t' sems'} : Completes sems sops sems' → t'.config.waitReason = .notWaiting →
      Outcome sems sops (.ok 0) t' sems'
  | fails {t' e} : ¬ Performable sems sops → t'.config.waitReason = .notWaiting →
      Outcome sems sops (.error e) t' sems
  | blocks {t'} : ¬ Performable sems sops → t'.config.waitReason = .waitSemop →
      t'.config.semopSops = sops → Outcome sems sops (.ok 0) t' sems

inductive SemopRefuses (m : GuestMemory) (w : World) (id ptr nsops : Word) : Errno → Prop
  | unknown : lookupIpcObject w.semaphores id = none → SemopRefuses m w id ptr nsops .einval
  | tooMany : maxNsops < nsops.toNat → SemopRefuses m w id ptr nsops .e2big
  | empty : nsops.toNat = 0 → SemopRefuses m w id ptr nsops .einval
  | unread {e} : m.readSops ptr nsops.toNat = .error e → SemopRefuses m w id ptr nsops e
  | outside {index semaphore sops} : lookupIpcObject w.semaphores id = some (index, semaphore) →
      m.readSops ptr nsops.toNat = .ok sops →
      (∃ sop ∈ sops, semaphore.nsems ≤ sop.semNum.toNat) → SemopRefuses m w id ptr nsops .efbig

/-- What semop(2) does: it refuses its arguments, or has an outcome of its own before it looks at
the tracees that are blocked on the set. -/
inductive SemopDoes (m : GuestMemory) (w : World) (t : Tracee) (id ptr nsops : Word) :
    Status → Tracee → World → Prop
  | refused {e} : SemopRefuses m w id ptr nsops e → SemopDoes m w t id ptr nsops (.error e) t w
  | ran {index semaphore sops status t' sems sems' tracees} :
      lookupIpcObject w.semaphores id = some (index, semaphore) →
      semopAccepts m semaphore ptr nsops sops →
      Outcome semaphore.sems sops status t' sems →
      Settles t.pid index sems w.tracees sems' tracees → InRange sems' →
      SemopDoes m w t id ptr nsops status t'
        { w with semaphores := w.semaphores.set index { semaphore with sems := sems' }, tracees }

structure World.SemsSound (w : World) : Prop where
  sets : ∀ s ∈ w.semaphores, s.valid = true → s.sems.length = s.nsems ∧ InRange s.sems
  waiters : ∀ t ∈ w.tracees, t.config.waitReason = .waitSemop →
    ∃ s, w.semaphores[t.config.waitingObjectIndex]? = some s ∧ s.valid = true ∧
      Fit s.nsems t.config.semopSops

section Calls

variable {m : GuestMemory} {w w' : World} {t t' : Tracee} {status : Status}
  {id ptr nsops : Word}

theorem semop_cases (h : semop m w t id ptr nsops = .ok (status, t', w')) :
    (∃ e, SemopRefuses m w id ptr nsops e ∧ status = .error e ∧ t' = t ∧ w' = w) ∨
    ∃ index semaphore sops sems tracees,
      lookupIpcObject w.semaphores id = some (index, semaphore) ∧
      semopAccepts m semaphore ptr nsops sops ∧
      semopPass t.pid index ((semCheck semaphore.sems sops).values semaphore.sems) w.tracees =
        .ok (sems, tracees) ∧
      (status, t') = semopStatus t index semaphore sops (semCheck semaphore.sems sops) ∧
      w' = { w with semaphores := w.semaphores.set index { semaphore with sems }, tracees } := by
  unfold semop at h
  split at h
  · rename_i hunknown
    cases h
    exact .inl ⟨_, .unknown hunknown, rfl, rfl, rfl⟩
  rename_i index semaphore hlookup
  split at h
  · rename_i hbig
    cases h
    exact .inl ⟨_, .tooMany hbig, rfl, rfl, rfl⟩
  split at h
  · rename_i hzero
    cases h
    exact .inl ⟨_, .empty hzero, rfl, rfl, rfl⟩
  split at h
  · rename_i hread
    cases h
    exact .inl ⟨_, .unread hread, rfl, rfl, rfl⟩
  rename_i hbig hzero _ sops hread
  split at h
  · rename_i hany
    cases h
    exact .inl ⟨_, .outside hlookup hread (by simpa using hany), rfl, rfl, rfl⟩
  rename_i hany
  obtain ⟨⟨sems, tracees⟩, hpass, h⟩ := bind_eq_ok.mp h
  simp only [Except.ok.injEq, Prod.mk.injEq] at h
  obtain ⟨hstatus, ht', rfl⟩ := h
  refine .inr ⟨index, semaphore, sops, sems, tracees, hlookup, ⟨by omega, hzero, hread, ?_⟩, hpass,
    by rw [← hstatus, ← ht'], rfl⟩
  intro sop hsop
  simp only [List.any_eq_true, not_exists, not_and, decide_eq_true_eq] at hany
  have := hany sop hsop
  omega

theorem Atomic.values {sems : List Nat} {sops : List Sembuf} {check : SemCheck}
    (h : Atomic sems sops check) (hrange : InRange sems) :
    InRange (check.values sems) ∧ (check.values sems).length = sems.length := by
  cases check with
  | done sems' => exact ⟨h.2, h.1.length⟩
  | wait | failed => exact ⟨hrange, rfl⟩

theorem World.SemsSound.settles (hregular : w.Regular) (hw : w.SemsSound) {pid index : Nat}
    {semaphore : Semaphore} {sems sems' : List Nat} {tracees : List Tracee}
    (hget : w.semaphores[index]? = some semaphore) (hrange : InRange sems)
    (hlength : sems.length = semaphore.nsems)
    (hpass : semopPass pid index sems w.tracees = .ok (sems', tracees)) :
    Settles pid index sems w.tracees sems' tracees ∧ InRange sems' ∧
      sems'.length = sems.length := by
  refine semopPass_settles hregular.phases hrange (fun u hu hex => ?_) hpass
  simp only [Tracee.examined, Bool.and_eq_true] at hex
  obtain ⟨hreason, hindex⟩ := Config.waitsOn_kind hex.2
  obtain ⟨s, hs, -, hfit⟩ := hw.waiters u hu hreason
  rw [hindex, hget] at hs
  cases hs
  exact hlength ▸ hfit

theorem semop_does (hregular : w.Regular) (hw : w.SemsSound)
    (hidle : t.config.waitReason = .notWaiting)
    (h : semop m w t id ptr nsops = .ok (status, t', w')) :
    SemopDoes m w t id ptr nsops status t' w' := by
  rcases semop_cases h with ⟨e, hrefuses, rfl, rfl, rfl⟩ |
    ⟨index, semaphore, sops, sems, tracees, hlookup, haccepts, hpass, hstatus, rfl⟩
  · exact .refused hrefuses
  obtain ⟨hget, hvalid, -⟩ := lookupIpcObject_some hlookup
  obtain ⟨hlength, hrange⟩ := hw.sets semaphore (List.mem_of_getElem? hget) hvalid
  have hatomic := semCheck_atomic hrange (hlength ▸ haccepts.2.2.2)
  obtain ⟨hrange', hlength'⟩ := hatomic.values hrange
  obtain ⟨hsettles, hrange'', -⟩ := hw.settles hregular hget hrange' (hlength'.trans hlength) hpass
  refine .ran hlookup haccepts ?_ hsettles hrange''
  cases hcheck : semCheck semaphore.sems sops with
  | wait =>
      rw [hcheck] at hatomic hstatus
      cases hstatus
      exact .blocks hatomic rfl rfl
  | failed e =>
      rw [hcheck] at hatomic hstatus
      cases hstatus
      exact .fails hatomic hidle
  | done sems' =>
      rw [hcheck] at hatomic hstatus
      cases hstatus
      exact .succeeds hatomic.1 hidle

/-! ## What every step keeps -/

theorem World.SemsSound.frame (h : w.SemsSound) (hsets : w'.semaphores = w.semaphores)
    (hwaiting : ∀ u ∈ w'.tracees, u.config.waitReason = .waitSemop →
      ∃ v ∈ w.tracees, v.SameWait u) : w'.SemsSound := by
  constructor
  · rw [hsets]
    exact h.sets
  · intro u hu hreason
    obtain ⟨v, hv, hsame⟩ := hwaiting u hu hreason
    rw [hsame.waitingObjectIndex, hsame.semopSops, hsets]
    exact h.waiters v hv (hsame.waitReason ▸ hreason)

theorem Turn.semsSound {kind : Kind} (h : Turn kind w t t' w') (hkind : kind ≠ .semaphore)
    (ht : t ∈ w.tracees) (hw : w.SemsSound) : w'.SemsSound := by
  refine hw.frame (h.semaphores hkind) fun u hu hreason => ?_
  have hsem : u.config.waitReason.kind = some .semaphore := by rw [hreason]; rfl
  exact (h.waiting_before ht hu hsem).resolve_right fun h => hkind h.symm

/-- A system call on sets: what it makes of the sets is sound, and fits the caller, if it waits, and
those who still wait. -/
theorem World.SemsSound.call {t₁ : Tracee} {w₁ : World}
    (hhandled : Handled .semaphore w t t₁ w₁) (hsame : t₁.SameWait t')
    (hsets : ∀ s ∈ w₁.semaphores, s.valid = true → s.sems.length = s.nsems ∧ InRange s.sems)
    (hcaller : t₁.config.waitReason = .waitSemop →
      ∃ s, w₁.semaphores[t₁.config.waitingObjectIndex]? = some s ∧ s.valid = true ∧
        Fit s.nsems t₁.config.semopSops)
    (hothers : ∀ u ∈ w.tracees, u ∈ w₁.tracees → u.config.waitReason = .waitSemop →
      ∃ s, w₁.semaphores[u.config.waitingObjectIndex]? = some s ∧ s.valid = true ∧
        Fit s.nsems u.config.semopSops) : (w₁.setTracee t').SemsSound := by
  refine ⟨hsets, ?_⟩
  intro u hu hreason
  rcases waiting_after hhandled hsame hu hreason with ⟨hsame, -⟩ | ⟨hu, hu₁, -⟩
  · rw [hsame.waitingObjectIndex, hsame.semopSops]
    exact hcaller (hsame.waitReason ▸ hreason)
  · exact hothers u hu hu₁ hreason

theorem World.SemsSound.call_same (hw : w.SemsSound) (hhandled : Handled .semaphore w t t w)
    (hsame : t.SameWait t') (hdone : t.config.waitReason = .notWaiting) :
    (w.setTracee t').SemsSound := by
  refine .call hhandled hsame hw.sets ?_ fun u hu _ hreason => hw.waiters u hu hreason
  intro hreason
  rw [hdone] at hreason
  cases hreason

theorem World.SemsSound.sets_set (hw : w.SemsSound) {index : Nat} {new : Semaphore}
    (hnew : new.valid = true → new.sems.length = new.nsems ∧ InRange new.sems) :
    ∀ s ∈ w.semaphores.set index new, s.valid = true →
      s.sems.length = s.nsems ∧ InRange s.sems := by
  intro s hs hvalid
  rcases List.mem_or_eq_of_mem_set hs with hs | rfl
  · exact hw.sets s hs hvalid
  · exact hnew hvalid

theorem World.SemsSound.waiters_set (hw : w.SemsSound) {index : Nat} {semaphore : Semaphore}
    (hget : w.semaphores[index]? = some semaphore) (sems : List Nat) {u : Tracee}
    (hu : u ∈ w.tracees) (hreason : u.config.waitReason = .waitSemop) :
    ∃ s, (w.semaphores.set index { semaphore with sems })[u.config.waitingObjectIndex]? = some s ∧
      s.valid = true ∧ Fit s.nsems u.config.semopSops := by
  obtain ⟨s, hs, hvalid, hfit⟩ := hw.waiters u hu hreason
  by_cases hindex : u.config.waitingObjectIndex = index
  · rw [hindex] at hs ⊢
    cases hget.symm.trans hs
    exact ⟨_, List.getElem?_set_self (List.getElem?_eq_some_iff.mp hget).1, hvalid, hfit⟩
  · exact ⟨s, (List.getElem?_set_ne (Ne.symm hindex)).trans hs, hvalid, hfit⟩

theorem create_sound (key : BitVec 32) (generation : BitVec 16) (address nsems : Nat) :
    (Semaphore.create key generation address nsems).sems.length = nsems ∧
      InRange (Semaphore.create key generation address nsems).sems := by
  refine ⟨List.length_replicate, ?_⟩
  intro value hvalue
  rw [List.eq_of_mem_replicate hvalue]
  exact Nat.zero_le _

theorem semget_sets (hw : w.SemsSound) {key nsems semflg : Word} :
    ∀ s ∈ (semget w key nsems semflg).2.semaphores, s.valid = true →
      s.sems.length = s.nsems ∧ InRange s.sems := by
  unfold semget semgetSlot
  dsimp only
  split <;> rename_i hslot <;> split at hslot <;> (try split at hslot) <;> (try split at hslot) <;>
    (try split at hslot) <;> (try split at hslot) <;> cases hslot <;> try exact hw.sets
  · exact hw.sets_set fun _ => create_sound ..
  · intro s hs hvalid
    rcases List.mem_append.mp hs with hs | hs
    · exact hw.sets s hs hvalid
    · cases List.mem_singleton.mp hs
      exact create_sound ..

theorem semget_semsSound (hw : w.SemsSound) (ht : t.Calls) {key nsems semflg : Word}
    (hhandled : Handled .semaphore w t t (semget w key nsems semflg).2) (hsame : t.SameWait t') :
    ((semget w key nsems semflg).2.setTracee t').SemsSound := by
  refine .call hhandled hsame (semget_sets hw) ?_ ?_
  · intro hreason
    rw [ht.waitReason] at hreason
    cases hreason
  · intro u hu _ hreason
    obtain ⟨s, hs, hvalid, hfit⟩ := hw.waiters u hu hreason
    exact ⟨s, semget_live hs hvalid, hvalid, hfit⟩

theorem semop_semsSound {t₁ : Tracee} {w₁ : World} (hregular : w.Regular) (hw : w.SemsSound)
    (ht : t.Calls) (h : semop m w t id ptr nsops = .ok (status, t₁, w₁))
    (hhandled : Handled .semaphore w t t₁ w₁) (hsame : t₁.SameWait t') :
    (w₁.setTracee t').SemsSound := by
  rcases semop_cases h with ⟨e, -, rfl, rfl, rfl⟩ |
    ⟨index, semaphore, sops, sems, tracees, hlookup, haccepts, hpass, hstatus, rfl⟩
  · exact hw.call_same hhandled hsame ht.waitReason
  obtain ⟨hget, hvalid, -⟩ := lookupIpcObject_some hlookup
  obtain ⟨hlength, hrange⟩ := hw.sets semaphore (List.mem_of_getElem? hget) hvalid
  have hatomic := semCheck_atomic hrange (hlength ▸ haccepts.2.2.2)
  obtain ⟨hvalues, hsame'⟩ := hatomic.values hrange
  obtain ⟨-, hrange', hlength'⟩ := hw.settles hregular hget hvalues (hsame'.trans hlength) hpass
  refine .call hhandled hsame (hw.sets_set fun _ => ⟨?_, hrange'⟩) ?_ ?_
  · exact hlength'.trans (hsame'.trans hlength)
  · intro hreason
    cases hcheck : semCheck semaphore.sems sops with
    | wait =>
        rw [hcheck] at hstatus
        cases hstatus
        exact ⟨_, List.getElem?_set_self (List.getElem?_eq_some_iff.mp hget).1, hvalid,
          haccepts.2.2.2⟩
    | failed | done =>
        rw [hcheck] at hstatus
        cases hstatus
        cases ht.waitReason.symm.trans hreason
  · intro u hu _ hreason
    exact hw.waiters_set hget sems hu hreason

theorem semctl_semsSound {t₁ : Tracee} {w₁ : World} (hregular : w.Regular) (hw : w.SemsSound)
    (ht : t.Calls) {semnum cmd arg : Word}
    (h : semctl m w t id semnum cmd arg = .ok (status, t₁, w₁))
    (hhandled : Handled .semaphore w t t₁ w₁) (hsame : t₁.SameWait t') :
    (w₁.setTracee t').SemsSound := by
  have hdone : ∀ {P : Prop}, t.config.waitReason = .waitSemop → P := by
    intro P hreason
    cases ht.waitReason.symm.trans hreason
  unfold semctl at h
  split at h
  · cases h
    exact hw.call_same hhandled hsame ht.waitReason
  rename_i index semaphore hlookup
  obtain ⟨hget, hvalid, -⟩ := lookupIpcObject_some hlookup
  obtain ⟨hlength, hrange⟩ := hw.sets semaphore (List.mem_of_getElem? hget) hvalid
  dsimp only at h
  split at h
  · split at h <;> cases h <;> exact hw.call_same hhandled hsame ht.waitReason
  split at h
  · split at h
    · cases h
      exact hw.call_same hhandled hsame ht.waitReason
    rename_i hbig
    split at h
    · cases h
      exact hw.call_same hhandled hsame ht.waitReason
    · cases h
      refine .call hhandled hsame (hw.sets_set fun _ => ⟨?_, hrange.set (by omega)⟩) hdone ?_
      · exact List.length_set.trans hlength
      · intro u hu _ hreason
        exact hw.waiters_set hget _ hu hreason
  split at h
  · split at h <;> cases h <;> exact hw.call_same hhandled hsame ht.waitReason
  split at h
  · obtain ⟨tracees, hwake, h⟩ := bind_eq_ok.mp h
    cases h
    have hwoken := (wakeEach_wakes .semaphore (fun c => waitsOn_reason_kind rfl) hregular.phases
      hwake).2
    refine .call hhandled hsame (hw.sets_set fun hvalid => by cases hvalid) hdone ?_
    intro u hu hu₁ hreason
    -- whoever still waits, waits for another set
    have hindex : u.config.waitingObjectIndex ≠ index := by
      intro hindex
      rcases hwoken u hu₁ with hfalse | hnone
      · simp [Config.waitsOn, hreason, hindex] at hfalse
      · rw [hnone] at hreason
        cases hreason
    obtain ⟨s, hs, hlive, hfit⟩ := hw.waiters u hu hreason
    exact ⟨s, (List.getElem?_set_ne (Ne.symm hindex)).trans hs, hlive, hfit⟩
  split at h
  · split at h <;> cases h <;> exact hw.call_same hhandled hsame ht.waitReason
  · cases h
    exact hw.call_same hhandled hsame ht.waitReason

end Calls

/-! ## Runs -/

section Runs

variable {w w' : World} {e : Event}

theorem step_semsSound (hregular : w.Regular) (hw : w.SemsSound)
    (h : step (.ok w) e = some (.ok w')) : w'.SemsSound := by
  rcases step_cases h with ⟨rfl, helper, -, rfl⟩ | ⟨t, ht, hpid, henabled, hrun⟩
  · exact ⟨hw.sets, hw.waiters⟩
  by_cases hprocess : e.isProcess = true
  · obtain ⟨hsets, hwaiting⟩ := process_frame hprocess hrun
    exact hw.frame hsets hwaiting
  have hprocess : e.isProcess = false := by simpa using hprocess
  by_cases hkind : e.kind = .semaphore
  · cases e with
    | call pid m fromSigsys c =>
        simp only [Event.enabled, Bool.and_eq_true] at henabled
        obtain ⟨status, t₁, w₁, t', hhandle, hhandled, hsame, rfl, hturn⟩ :=
          call_turn hregular ht henabled.1 hrun
        obtain ⟨hreason, hstate, hchain, -⟩ := (hregular.phases t ht).of_idle henabled.1
        have hcalls : ({ t with asked := .nothing } : Tracee).Calls :=
          ⟨hreason, hstate, hchain, rfl⟩
        cases c with
        | semget key nsems semflg =>
            cases hhandle
            exact semget_semsSound hw hcalls { hhandled with } hsame
        | semop id sops nsops =>
            exact semop_semsSound hregular hw hcalls hhandle { hhandled with } hsame
        | semctl id semnum cmd arg =>
            exact semctl_semsSound hregular hw hcalls hhandle { hhandled with } hsame
        | _ => cases hkind
    | _ => cases hkind
  · obtain ⟨t', hturn⟩ := run_turn hregular ht henabled hprocess hrun
    exact hturn.semsSound hkind ht hw

theorem reach_semsSound (h : system.Reach Lib.System.Always (.ok w)) : w.SemsSound := by
  refine reach_world (fun pid => ⟨?_, ?_⟩) (fun w e w' hregular hw _ hstep =>
    step_semsSound hregular hw hstep) h
  · intro s hs
    cases hs
  · intro t ht hreason
    cases List.mem_singleton.mp ht
    cases hreason

/-- **semop(2) is all or nothing.**  A check of a list, on behalf of the caller or of a tracee that
is blocked, completes it or changes nothing; so does the call in every state reached, where the
values of the sets stay in their range. -/
theorem semop_atomic :
    (∀ sems sops, InRange sems → Fit sems.length sops →
      Atomic sems sops (semCheck sems sops)) ∧
    (∀ w m t id ptr nsops status t' w', system.Reach Lib.System.Always (.ok w) → t ∈ w.tracees →
      t.config.idle = true → semop m w t id ptr nsops = .ok (status, t', w') →
      SemopDoes m w t id ptr nsops status t' w') ∧
    (∀ w, system.Reach Lib.System.Always (.ok w) →
      ∀ s ∈ w.semaphores, s.valid = true → InRange s.sems) := by
  refine ⟨fun sems sops hrange hfit => semCheck_atomic hrange hfit, ?_, ?_⟩
  · intro w m t id ptr nsops status t' w' hreach ht hidle hrun
    have hregular := reach_regular hreach
    obtain ⟨hreason, -⟩ := (hregular.phases t ht).of_idle hidle
    exact semop_does hregular (reach_semsSound hreach) hreason hrun
  · intro w hreach s hs hvalid
    exact ((reach_semsSound hreach).sets s hs hvalid).2

/-- Two operations on one semaphore: the second one sees what the first one did. -/
theorem semop_atomic_pair :
    Atomic [1, 5] [⟨0, 2, 0⟩, ⟨0, -3, 0⟩] (.done [0, 5]) :=
  semop_atomic.1 [1, 5] [⟨0, 2, 0⟩, ⟨0, -3, 0⟩] (by simp [InRange, maxSemval]) (by simp [Fit])

/-- Nothing is changed when the last operation can't be done. -/
example : semCheck [1, 5] [⟨0, -1, 0⟩, ⟨1, 0, 0x800⟩] = .failed .eagain := by decide

end Runs

end Improot.SysVIpc
