import Improot.Lib.Transition
import Mathlib.Data.List.Perm.Basic

/-!
# Shadows of pipes

`syscall/pipe_shadow.c`, and the loop of `tracee/event.c` that drives it: PRoot keeps the read end
of a pipe that a tracee closes, so that a writer which lost the race doesn't get EPIPE, but only as
long as this can help.
-/

namespace Improot.Syscall.PipeShadow

/-! ## Time -/

/-- `struct timespec`, a reading of the monotonic clock. -/
structure Timespec where
  sec : Int
  nsec : Int
  deriving DecidableEq

def Timespec.ns (t : Timespec) : Int := t.sec * 1000000000 + t.nsec

def elapsedMs (since now : Timespec) : Int :=
  (now.sec - since.sec) * 1000 + (now.nsec - since.nsec).tdiv 1000000

def shadowMaxAgeMs : Int := 1000

def shadowTimerMs : Int := 50

def shadowReapIntervalMs : Int := shadowTimerMs / 2

/-- What passed is less than what is compared with `elapsed_ms`. -/
theorem ns_lt_of_elapsedMs {since now : Timespec} {ms : Int} (h : elapsedMs since now < ms) :
    now.ns - since.ns < ms * 1000000 := by
  have hdiv := Int.mul_tdiv_add_tmod (now.nsec - since.nsec) 1000000
  have hmod := Int.tmod_lt_of_pos (now.nsec - since.nsec) (show (0 : Int) < 1000000 by decide)
  simp only [elapsedMs, Timespec.ns] at *
  omega

/-! ## Shadows -/

structure Shadow where
  fd : Int
  birth : Timespec
  deriving DecidableEq

def maxShadowPipes : Nat := 32

/-- The static variables, and the descriptors of shadows that PRoot has open. -/
structure State where
  shadows : List Shadow
  initialised : Bool
  held : Int
  lastReap : Timespec
  armed : Bool
  opened : List Int

def State.ensureInit (s : State) : State :=
  if s.initialised then s
  else
    { s with
      shadows := s.shadows.map fun shadow => { shadow with fd := -1 }
      initialised := true }

def State.releaseShadow (s : State) (slot : Nat) (shadow : Shadow) : State :=
  { s with
    shadows := s.shadows.set slot { shadow with fd := -1 }
    held := s.held - 1
    opened := s.opened.erase shadow.fd }

/-- What the kernel tells of a pipe: POLLHUP, `F_GETPIPE_SZ` and `FIONREAD`; and the time then. -/
structure Probe where
  hup : Bool
  capacity : Int
  buffered : Option Int
  now : Timespec

def pipeBuf : Int := 4096

def Probe.writerWouldBlock (p : Probe) : Bool :=
  if p.capacity ≤ 0 then false
  else
    match p.buffered with
    | none => false
    | some buffered => buffered > (if p.capacity > pipeBuf then p.capacity - pipeBuf else 0)

def Shadow.useless (shadow : Shadow) (p : Probe) : Bool :=
  p.hup || p.writerWouldBlock || decide (shadowMaxAgeMs ≤ elapsedMs shadow.birth p.now)

def State.reapSlot (probe : Nat → Probe) (s : State) (slot : Nat) : State :=
  match s.shadows[slot]? with
  | none => s
  | some shadow =>
      if shadow.fd < 0 then s
      else if shadow.useless (probe slot) then s.releaseShadow slot shadow
      else s

/-- `shadow_pipes_reap`, which reads the clock twice before the loop. -/
def State.reap (s : State) (now reaped : Timespec) (probe : Nat → Probe) : State :=
  if s.held = 0 then s
  else if elapsedMs s.lastReap now < shadowReapIntervalMs then s
  else (List.range maxShadowPipes).foldl (reapSlot probe) { s with lastReap := reaped }

def State.shadowsHeld (s : State) : Bool := s.held > 0

def State.setTimer (s : State) (enabled fails : Bool) : State :=
  if !enabled && !s.armed then s
  else if fails then s
  else { s with armed := enabled }

/-- What PRoot finds out about a descriptor that a tracee closes: where it leads, the flags of its
`fdinfo`, if there are any, the descriptor that open(2) gives, and the time. -/
structure ReadEnd where
  link : Option (List Char)
  fdinfo : Option (Option Nat)
  fd : Int
  now : Timespec

def State.shadowPipeReadEnd (s : State) (r : ReadEnd) : State :=
  let s := s.ensureInit
  match r.link with
  | none => s
  | some link =>
    if ¬ "pipe:[".toList.isPrefixOf link then s
    else
      match r.fdinfo with
      | none => s
      | some flags =>
        -- `O_ACCMODE` and `O_RDONLY`
        if flags.getD 1 % 4 ≠ 0 then s
        else
          match s.shadows.findIdx? (·.fd = -1) with
          | none => s
          | some slot =>
            if r.fd < 0 then s
            else
              { s with
                shadows := s.shadows.set slot ⟨r.fd, r.now⟩
                held := s.held + 1
                opened := r.fd :: s.opened }

/-! ## Runs -/

/-- A turn of the event loop up to waitpid(2), the return of waitpid(2), or a tracee that closes a
descriptor. -/
inductive Event where
  | turn (now reaped : Timespec) (probe : Nat → Probe) (fails : Bool)
  | woken (fails : Bool)
  | close (r : ReadEnd)

structure World extends State where
  time : Timespec

/-- Whether the clock and the kernel can answer so: time passes, and a new descriptor is new. -/
def Event.Possible (w : World) : Event → Prop
  | .turn now reaped probe _ => w.time.ns ≤ now.ns ∧ now.ns ≤ reaped.ns ∧
      ∀ slot < maxShadowPipes, reaped.ns ≤ (probe slot).now.ns
  | .woken _ => True
  | .close r => w.time.ns ≤ r.now.ns ∧ r.fd ∉ w.opened

instance (w : World) : (e : Event) → Decidable (e.Possible w)
  | .turn .. => inferInstanceAs (Decidable (_ ∧ _))
  | .woken _ => inferInstanceAs (Decidable True)
  | .close _ => inferInstanceAs (Decidable (_ ∧ _))

def Event.run (w : World) : Event → World
  | .turn now reaped probe fails =>
      let s := w.toState.reap now reaped probe
      { s.setTimer s.shadowsHeld fails with time := reaped }
  | .woken fails => { w.toState.setTimer false fails with time := w.time }
  | .close r => { w.toState.shadowPipeReadEnd r with time := r.now }

def system : Lib.System World Event where
  init w := w.shadows = List.replicate maxShadowPipes ⟨0, ⟨0, 0⟩⟩ ∧ w.initialised = false ∧
    w.held = 0 ∧ w.lastReap = ⟨0, 0⟩ ∧ w.armed = false ∧ w.opened = [] ∧ 0 ≤ w.time.ns
  step w e := if e.Possible w then some (e.run w) else none

/-! ## The descriptors -/

/-- The descriptors in the slots, of which the free ones have none. -/
def heldFds (shadows : List Shadow) : List Int := (shadows.map (·.fd)).filter (0 ≤ ·)

def State.fds (s : State) : List Int := if s.initialised then heldFds s.shadows else []

structure State.Sound (s : State) : Prop where
  size : s.shadows.length = maxShadowPipes
  held : s.held = s.opened.length
  nodup : s.opened.Nodup
  opened : s.opened.Perm s.fds

def State.Holds (s : State) (slot : Nat) (shadow : Shadow) : Prop :=
  s.initialised = true ∧ s.shadows[slot]? = some shadow ∧ 0 ≤ shadow.fd

variable {s : State} {slot : Nat} {shadow : Shadow}

/-- **One slot changes**: the others hold the same descriptors. -/
theorem heldFds_set {shadows : List Shadow} (new : Shadow) (h : shadows[slot]? = some shadow) :
    ∃ rest, (heldFds shadows).Perm ([shadow.fd].filter (0 ≤ ·) ++ rest) ∧
      (heldFds (shadows.set slot new)).Perm ([new.fd].filter (0 ≤ ·) ++ rest) := by
  obtain ⟨hlt, rfl⟩ := List.getElem?_eq_some_iff.mp h
  refine ⟨heldFds (shadows.eraseIdx slot), ?_, ?_⟩
  · have hperm := (List.getElem_cons_eraseIdx_perm hlt).symm
    have hfds := (hperm.map (·.fd)).filter (0 ≤ ·)
    rwa [List.map_cons, ← List.singleton_append, List.filter_append] at hfds
  · have hperm := List.set_perm_cons_eraseIdx hlt new
    have hfds := (hperm.map (·.fd)).filter (0 ≤ ·)
    rwa [List.map_cons, ← List.singleton_append, List.filter_append] at hfds

theorem State.Sound.ensureInit (h : s.Sound) : s.ensureInit.Sound := by
  unfold State.ensureInit
  split
  · exact h
  · rename_i hfirst
    refine ⟨(List.length_map _).trans h.size, h.held, h.nodup, h.opened.trans ?_⟩
    rw [State.fds, if_neg hfirst, State.fds, if_pos rfl, heldFds, List.map_map]
    rw [List.filter_eq_nil_iff.mpr]
    intro fd hfd
    obtain ⟨a, -, rfl⟩ := List.mem_map.mp hfd
    simp

theorem ensureInit_holds {i : Nat} {a : Shadow} (h : s.ensureInit.Holds i a) : s.Holds i a := by
  unfold State.ensureInit at h
  split at h
  · exact h
  · obtain ⟨-, hget, hfd⟩ := h
    rw [List.getElem?_map] at hget
    obtain ⟨b, -, rfl⟩ := Option.map_eq_some_iff.mp hget
    exact absurd hfd (by decide : ¬ (0 : Int) ≤ -1)

theorem ensureInit_same : s.ensureInit.initialised = true ∧ s.ensureInit.opened = s.opened ∧
    s.ensureInit.lastReap = s.lastReap := by
  unfold State.ensureInit
  split
  · exact ⟨‹_›, rfl, rfl⟩
  · exact ⟨rfl, rfl, rfl⟩

theorem State.Sound.perm (h : s.Sound) (hinit : s.initialised = true) :
    s.opened.Perm (heldFds s.shadows) := by
  have hopened := h.opened
  rwa [State.fds, if_pos hinit] at hopened

theorem State.Sound.release (h : s.Sound) (hholds : s.Holds slot shadow) :
    (s.releaseShadow slot shadow).Sound := by
  obtain ⟨hinit, hget, hfd⟩ := hholds
  obtain ⟨rest, hbefore, hafter⟩ := heldFds_set { shadow with fd := -1 } hget
  have hrest : s.opened.Perm (shadow.fd :: rest) := by
    simpa [hfd] using (h.perm hinit).trans hbefore
  refine ⟨List.length_set.trans h.size, ?_, h.nodup.erase _, ?_⟩
  · show s.held - 1 = ((s.opened.erase shadow.fd).length : Int)
    rw [(hrest.erase _).length_eq, h.held, hrest.length_eq, List.erase_cons_head, List.length_cons]
    omega
  · show (s.opened.erase shadow.fd).Perm (if s.initialised then _ else _)
    rw [if_pos hinit]
    have herased := hrest.erase shadow.fd
    rw [List.erase_cons_head] at herased
    exact herased.trans hafter.symm

/-- **A shadow is opened** in a free slot. -/
theorem State.Sound.shadowPipeReadEnd {r : ReadEnd} (h : s.Sound) (hnew : r.fd ∉ s.opened) :
    (s.shadowPipeReadEnd r).Sound ∧ (s.shadowPipeReadEnd r).lastReap = s.lastReap ∧
      ∀ i a, (s.shadowPipeReadEnd r).Holds i a → s.Holds i a ∨ a.birth = r.now := by
  obtain ⟨hinit, hopened, hreap⟩ := @ensureInit_same s
  have hsound := h.ensureInit
  have hnothing : s.ensureInit.Sound ∧ s.ensureInit.lastReap = s.lastReap ∧
      ∀ i a, s.ensureInit.Holds i a → s.Holds i a ∨ a.birth = r.now :=
    ⟨hsound, hreap, fun i a ha => .inl (ensureInit_holds ha)⟩
  unfold State.shadowPipeReadEnd
  dsimp only
  repeat' split
  any_goals exact hnothing
  rename_i free hfree hopen
  obtain ⟨hlt, hfd, -⟩ := List.findIdx?_eq_some_iff_getElem.mp hfree
  have hget := List.getElem?_eq_getElem hlt
  have hsome : 0 ≤ r.fd := Int.not_lt.mp hopen
  obtain ⟨rest, hbefore, hafter⟩ := heldFds_set ⟨r.fd, r.now⟩ hget
  have hrest : s.ensureInit.opened.Perm rest := by
    simpa [of_decide_eq_true hfd] using (hsound.perm hinit).trans hbefore
  refine ⟨⟨List.length_set.trans hsound.size, ?_, ?_, ?_⟩, hreap, ?_⟩
  · show s.ensureInit.held + 1 = ((r.fd :: s.ensureInit.opened).length : Int)
    rw [hsound.held, List.length_cons]
    rfl
  · exact List.nodup_cons.mpr ⟨hopened ▸ hnew, hsound.nodup⟩
  · show (r.fd :: s.ensureInit.opened).Perm (if s.ensureInit.initialised then _ else _)
    rw [if_pos hinit]
    refine List.Perm.trans ?_ hafter.symm
    simpa [hsome] using hrest
  · rintro i a ⟨-, hi, ha⟩
    by_cases heq : free = i
    · subst heq
      rw [List.getElem?_set_self hlt] at hi
      exact .inr (congrArg Shadow.birth (Option.some.inj hi).symm)
    · rw [List.getElem?_set_ne heq] at hi
      exact .inl (ensureInit_holds ⟨hinit, hi, ha⟩)

/-! ## The loop -/

theorem State.Sound.reapSlot {probe : Nat → Probe} (h : s.Sound) (hinit : s.initialised = true)
    (slot : Nat) :
    (s.reapSlot probe slot).Sound ∧ (s.reapSlot probe slot).initialised = true ∧
      (s.reapSlot probe slot).lastReap = s.lastReap ∧
      ∀ i a, (s.reapSlot probe slot).Holds i a →
        s.Holds i a ∧ (i = slot → a.useless (probe i) = false) := by
  have hsame (huseful : ∀ a, s.Holds slot a → a.useless (probe slot) = false) :
      s.Sound ∧ s.initialised = true ∧ s.lastReap = s.lastReap ∧
        ∀ i a, s.Holds i a → s.Holds i a ∧ (i = slot → a.useless (probe i) = false) :=
    ⟨h, hinit, rfl, fun i a ha => ⟨ha, fun hi => hi ▸ huseful a (hi ▸ ha)⟩⟩
  unfold State.reapSlot
  split
  · rename_i hnone
    exact hsame fun a ha => nomatch hnone.symm.trans ha.2.1
  rename_i shadow hget
  have hself (a : Shadow) (ha : s.Holds slot a) : a = shadow :=
    Option.some.inj (ha.2.1.symm.trans hget)
  split
  · rename_i hfree
    exact hsame fun a ha => absurd (hself a ha ▸ ha.2.2) (Int.not_le.mpr hfree)
  rename_i hfd
  split
  · refine ⟨h.release ⟨hinit, hget, Int.not_lt.mp hfd⟩, hinit, rfl, ?_⟩
    rintro i a ⟨-, hi, ha⟩
    by_cases heq : slot = i
    · subst heq
      rw [State.releaseShadow, List.getElem?_set_self (List.getElem?_eq_some_iff.mp hget).1] at hi
      obtain rfl := Option.some.inj hi
      exact absurd ha (by simp)
    · rw [State.releaseShadow, List.getElem?_set_ne heq] at hi
      exact ⟨⟨hinit, hi, ha⟩, fun hi => absurd hi.symm heq⟩
  · rename_i huseful
    exact hsame fun a ha => hself a ha ▸ by simpa using huseful

/-- **The loop keeps the shadows that can help.** -/
theorem State.Sound.reapLoop {probe : Nat → Probe} (slots : List Nat) (h : s.Sound)
    (hinit : s.initialised = true) :
    (slots.foldl (State.reapSlot probe) s).Sound ∧
      (slots.foldl (State.reapSlot probe) s).lastReap = s.lastReap ∧
      ∀ i a, (slots.foldl (State.reapSlot probe) s).Holds i a →
        s.Holds i a ∧ (i ∈ slots → a.useless (probe i) = false) := by
  induction slots generalizing s with
  | nil => exact ⟨h, rfl, fun _ _ ha => ⟨ha, nofun⟩⟩
  | cons slot slots ih =>
      obtain ⟨hone, hinit', hreap, hfirst⟩ := @State.Sound.reapSlot s probe h hinit slot
      obtain ⟨hall, hreap', hrest⟩ := ih hone hinit'
      refine ⟨hall, hreap'.trans hreap, fun i a ha => ?_⟩
      obtain ⟨hmid, huseful⟩ := hrest i a ha
      obtain ⟨hold, huseful'⟩ := hfirst i a hmid
      exact ⟨hold, fun hi => (List.mem_cons.mp hi).elim huseful' huseful⟩

theorem State.Sound.pos (h : s.Sound) {i : Nat} {a : Shadow} (ha : s.Holds i a) : 0 < s.held := by
  have hmem : a.fd ∈ s.fds := by
    rw [State.fds, if_pos ha.1]
    exact List.mem_filter.mpr
      ⟨List.mem_map_of_mem (List.mem_of_getElem? ha.2.1), decide_eq_true ha.2.2⟩
  have hlength := List.length_pos_of_mem (h.opened.mem_iff.mpr hmem)
  rw [h.held]
  omega

/-- **A round**, unless it is skipped. -/
theorem State.Sound.reap {now reaped : Timespec} {probe : Nat → Probe} (h : s.Sound) :
    (s.reap now reaped probe).Sound ∧
      ((s.reap now reaped probe).lastReap = s.lastReap ∨
        (s.reap now reaped probe).lastReap = reaped) ∧
      ∀ i a, (s.reap now reaped probe).Holds i a → s.Holds i a ∧
        ((elapsedMs s.lastReap now < shadowReapIntervalMs ∧
            (s.reap now reaped probe).lastReap = s.lastReap) ∨
          ((s.reap now reaped probe).lastReap = reaped ∧ a.useless (probe i) = false)) := by
  unfold State.reap
  split
  · rename_i hnone
    exact ⟨h, .inl rfl, fun i a ha => absurd (h.pos ha) (by rw [hnone]; decide)⟩
  rename_i hsome
  split
  · rename_i hskipped
    exact ⟨h, .inl rfl, fun i a ha => ⟨ha, .inl ⟨hskipped, rfl⟩⟩⟩
  have hinit : s.initialised = true := by
    by_contra hfirst
    have hnil := h.opened
    rw [State.fds, if_neg hfirst] at hnil
    rw [h.held, hnil.length_eq] at hsome
    exact hsome rfl
  have h' : ({ s with lastReap := reaped } : State).Sound := ⟨h.size, h.held, h.nodup, h.opened⟩
  obtain ⟨hsound, hreap, hholds⟩ :=
    @State.Sound.reapLoop _ probe (List.range maxShadowPipes) h' hinit
  refine ⟨hsound, .inr hreap, fun i a ha => ?_⟩
  obtain ⟨hold, huseful⟩ := hholds i a ha
  have hi : i < maxShadowPipes := h.size ▸ (List.getElem?_eq_some_iff.mp hold.2.1).1
  exact ⟨hold, .inr ⟨hreap, huseful (List.mem_range.mpr hi)⟩⟩

theorem setTimer_only (enabled fails : Bool) :
    ∃ armed, s.setTimer enabled fails = { s with armed } := by
  unfold State.setTimer
  repeat' split
  all_goals exact ⟨_, rfl⟩

/-! ## What holds in every run -/

/-- The descriptors are those of the slots, and no shadow was old in the last round. -/
structure World.Sound (w : World) : Prop where
  state : w.toState.Sound
  lastReap : w.lastReap.ns ≤ w.time.ns
  young : ∀ i a, w.Holds i a → w.lastReap.ns - a.birth.ns < 1000 * 1000000

structure Turned (w w' : World) (now : Timespec) (probe : Nat → Probe) : Prop where
  /-- no shadow is older than one second and the interval between two rounds -/
  young : ∀ i a, w'.Holds i a → now.ns - a.birth.ns < 1025 * 1000000
  /-- unless the round is skipped, each shadow can still help -/
  useful : shadowReapIntervalMs ≤ elapsedMs w.lastReap now →
    ∀ i a, w'.Holds i a → a.useless (probe i) = false

theorem World.Sound.turn {w : World} {now reaped : Timespec} {probe : Nat → Probe} {fails : Bool}
    (h : w.Sound) (hpossible : (Event.turn now reaped probe fails).Possible w) :
    ((Event.turn now reaped probe fails).run w).Sound ∧
      Turned w ((Event.turn now reaped probe fails).run w) now probe := by
  obtain ⟨htime, hnow, hprobe⟩ := hpossible
  obtain ⟨hsound, hreap, hholds⟩ := @State.Sound.reap w.toState now reaped probe h.state
  obtain ⟨armed, harmed⟩ := @setTimer_only (w.toState.reap now reaped probe)
    (w.toState.reap now reaped probe).shadowsHeld fails
  have hrun : (Event.turn now reaped probe fails).run w =
      { { w.toState.reap now reaped probe with armed } with time := reaped } := by
    simp only [Event.run, harmed]
  generalize w.toState.reap now reaped probe = s at *
  have hbound (i : Nat) (a : Shadow) (ha : s.Holds i a) :
      s.lastReap.ns - a.birth.ns < 1000 * 1000000 ∧ now.ns - a.birth.ns < 1025 * 1000000 := by
    obtain ⟨hold, ⟨hskipped, heq⟩ | ⟨heq, huseful⟩⟩ := hholds i a ha
    · have hyoung := h.young i a hold
      have hshort := ns_lt_of_elapsedMs hskipped
      rw [heq]
      simp only [shadowReapIntervalMs, shadowTimerMs] at hshort
      omega
    · have hi : i < maxShadowPipes := h.state.size ▸ (List.getElem?_eq_some_iff.mp hold.2.1).1
      simp only [Shadow.useless, Bool.or_eq_false_iff, decide_eq_false_iff_not, Int.not_le]
        at huseful
      have hage := ns_lt_of_elapsedMs huseful.2
      have hlater := hprobe i hi
      rw [heq]
      simp only [shadowMaxAgeMs] at hage
      omega
  rw [hrun]
  refine ⟨⟨⟨hsound.size, hsound.held, hsound.nodup, hsound.opened⟩, ?_, ?_⟩, ?_, ?_⟩
  · have hlast := h.lastReap
    rcases hreap with heq | heq <;> simp only [heq] <;> omega
  · exact fun i a ha => (hbound i a ha).1
  · exact fun i a ha => (hbound i a ha).2
  · intro hround i a ha
    rcases (hholds i a ha).2 with ⟨hskipped, -⟩ | ⟨-, huseful⟩
    · exact absurd hskipped (Int.not_lt.mpr hround)
    · exact huseful

/-- **Every event keeps the invariant.** -/
theorem World.Sound.step {w w' : World} {e : Event} (h : w.Sound)
    (hstep : system.step w e = some w') : w'.Sound := by
  simp only [system] at hstep
  split at hstep
  · rename_i hpossible
    cases hstep
    cases e with
    | turn now reaped probe fails => exact (h.turn hpossible).1
    | woken fails =>
        obtain ⟨armed, harmed⟩ := @setTimer_only w.toState false fails
        simp only [Event.run, harmed]
        exact ⟨⟨h.state.size, h.state.held, h.state.nodup, h.state.opened⟩, h.lastReap, h.young⟩
    | close r =>
        obtain ⟨hsound, hreap, hholds⟩ := h.state.shadowPipeReadEnd hpossible.2
        refine ⟨hsound, ?_, fun i a ha => ?_⟩
        · exact hreap ▸ Int.le_trans h.lastReap hpossible.1
        · show (w.toState.shadowPipeReadEnd r).lastReap.ns - a.birth.ns < _
          rw [hreap]
          rcases hholds i a ha with hold | hbirth
          · exact h.young i a hold
          · have hlast := h.lastReap
            have htime := hpossible.1
            rw [hbirth]
            omega
  · cases hstep

/-- **Shadows are bounded.** In every run of the event loop, whatever the tracees close and the
kernel answers: PRoot holds the descriptors of the slots and no others, each once, and knows their
number; and after a turn none is older than a second and the interval between two rounds, and unless
the round was skipped, none belongs to a pipe that has no writer or that is full. -/
theorem shadows_bounded {w : World} (h : system.Reach Lib.System.Always w) :
    (w.opened.Nodup ∧ w.opened.Perm w.fds ∧ w.held = w.opened.length) ∧
      ∀ now reaped probe fails w', system.step w (.turn now reaped probe fails) = some w' →
        Turned w w' now probe := by
  have hsound : w.Sound := by
    refine h.invariant ?_ fun _ _ _ hw _ hstep => hw.step hstep
    rintro w ⟨hshadows, hinit, hheld, hreap, -, hopened, htime⟩
    have hnone (i : Nat) (a : Shadow) : ¬ w.Holds i a := fun ha =>
      Bool.noConfusion (hinit.symm.trans ha.1)
    refine ⟨⟨?_, ?_, ?_, ?_⟩, ?_, fun i a ha => absurd ha (hnone i a)⟩
    · rw [hshadows, List.length_replicate]
    · rw [hheld, hopened]
      rfl
    · rw [hopened]
      exact List.nodup_nil
    · rw [hopened, State.fds, hinit]
      exact List.Perm.refl _
    · rw [hreap]
      simpa [Timespec.ns] using htime
  refine ⟨⟨hsound.state.nodup, hsound.state.opened, hsound.state.held⟩, ?_⟩
  intro now reaped probe fails w' hstep
  simp only [system] at hstep
  split at hstep
  · rename_i hpossible
    cases hstep
    exact (hsound.turn hpossible).2
  · cases hstep

def World.start : World where
  shadows := List.replicate maxShadowPipes ⟨0, ⟨0, 0⟩⟩
  initialised := false
  held := 0
  lastReap := ⟨0, 0⟩
  armed := false
  opened := []
  time := ⟨1, 0⟩

/-- A tracee closes the read end of a pipe. -/
theorem shadows_bounded_pipe :
    ∃ w, system.exec .start [.close ⟨some "pipe:[1]".toList, some (some 0), 7, ⟨2, 0⟩⟩] = some w ∧
      w.opened = [7] ∧ w.opened.Perm w.fds ∧
      ∀ now reaped probe fails w', system.step w (.turn now reaped probe fails) = some w' →
        Turned w w' now probe := by
  have hrun : (system.exec .start
      [.close ⟨some "pipe:[1]".toList, some (some 0), 7, ⟨2, 0⟩⟩]).any (·.opened = [7]) = true := by
    decide +kernel
  obtain ⟨w, hexec, hopened⟩ := (Option.any_eq_true _ _).mp hrun
  have hreach : system.Reach Lib.System.Always w :=
    .exec (.start ⟨rfl, rfl, rfl, rfl, rfl, rfl, by decide⟩) hexec
  obtain ⟨⟨-, hfds, -⟩, hturn⟩ := shadows_bounded hreach
  exact ⟨w, hexec, of_decide_eq_true hopened, hfds, hturn⟩

end Improot.Syscall.PipeShadow
