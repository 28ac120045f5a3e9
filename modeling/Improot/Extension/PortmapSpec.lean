import Improot.Extension.Portmap

/-!
# Which socket gets an entry

The flag, the port and the descriptor number of the configuration stand for one socket that was
bound through a rewritten port and hasn't listened yet. As long as they really do, at every step of
every tracee, the map is right.
-/

namespace Improot.Extension

open Lib

/-! ## The map -/

/-- The slots that `get_index` looks at. -/
def probeOrder (key : Port) : List Nat :=
  List.range' (probeStart key) (portmapSize - probeStart key) ++ List.range' 0 (probeStart key)

theorem probeLoop_eq (portmap : PortMap) (key : Port) (count index : Nat) :
    probeLoop portmap key count index =
      (List.range' index count).find? (portmap.stops portmapDefaultValue key) := by
  induction count generalizing index with
  | zero => rfl
  | succ count ih =>
      rw [probeLoop, List.range'_succ, List.find?_cons, ih]
      by_cases hstop : portmap.key index = portmapDefaultValue ∨ portmap.key index = key
      · have hnot : ¬ (portmap.key index ≠ portmapDefaultValue ∧ portmap.key index ≠ key) := by tauto
        simp [ProbeTable.stops, hstop, hnot]
      · have hgoes : portmap.key index ≠ portmapDefaultValue ∧ portmap.key index ≠ key := by tauto
        simp [ProbeTable.stops, hgoes]

theorem getIndex_eq (portmap : PortMap) (key : Port) :
    getIndex portmap key =
      (portmap.index portmapDefaultValue probeOrder key).getD portmapSize := by
  unfold getIndex ProbeTable.index probeOrder
  rw [List.find?_append]
  dsimp only
  rw [probeLoop_eq, probeLoop_eq]
  cases (List.range' (probeStart key) (portmapSize - probeStart key)).find?
      (portmap.stops portmapDefaultValue key) with
  | some index => rfl
  | none =>
      cases (List.range' 0 (probeStart key)).find? (portmap.stops portmapDefaultValue key) with
      | some | none => rfl

theorem probeStart_lt (key : Port) : probeStart key < portmapSize := by
  have := @Nat.and_le_right key.toNat (portmapSize - 1)
  unfold probeStart
  unfold portmapSize at *
  omega

variable {portmap : PortMap}

theorem index_lt {key : Port} {i : Nat}
    (h : portmap.index portmapDefaultValue probeOrder key = some i) : i < portmapSize := by
  have hmem := List.mem_of_find?_eq_some h
  have hstart := probeStart_lt key
  unfold probeOrder at hmem
  rw [List.mem_append, List.mem_range'_1, List.mem_range'_1] at hmem
  omega

def PortMap.Sound (portmap : PortMap) : Prop := ProbeTable.Sound portmapDefaultValue probeOrder portmap

theorem getIndex_ne {key : Port} (h : getIndex portmap key ≠ portmapSize) :
    portmap.index portmapDefaultValue probeOrder key = some (getIndex portmap key) := by
  rw [getIndex_eq] at h ⊢
  cases hindex : portmap.index portmapDefaultValue probeOrder key with
  | none => exact absurd (by rw [hindex]; rfl) h
  | some i => rfl

theorem getPort_eq (portmap : PortMap) (key : Port) :
    getPort portmap key =
      (portmap.lookup portmapDefaultValue probeOrder key).getD portmapDefaultValue := by
  unfold getPort ProbeTable.lookup
  rw [getIndex_eq]
  dsimp only
  cases hindex : portmap.index portmapDefaultValue probeOrder key with
  | none => simp
  | some i =>
      have hlt := index_lt hindex
      simp only [Option.getD_some, Nat.ne_of_lt hlt, if_false]
      split_ifs <;> rfl

theorem sound_addEntry (h : portmap.Sound) (k v : Port) :
    PortMap.Sound (addEntry portmap k v) := by
  unfold addEntry
  dsimp only
  split_ifs with hfull
  · exact h
  · exact ProbeTable.Sound.set h (getIndex_ne hfull)

theorem sound_initial (entries : List (Port × Port)) (netcoop : Bool) :
    (PortConfig.initial entries netcoop).portmap.Sound := by
  have hfold : ∀ (portmap : PortMap), portmap.Sound →
      PortMap.Sound (entries.foldl (fun portmap entry => addEntry portmap entry.1 entry.2)
        portmap) := by
    induction entries with
    | nil => exact fun _ h => h
    | cons entry entries ih => exact fun portmap h => ih _ (sound_addEntry h entry.1 entry.2)
  exact hfold _ (ProbeTable.sound_of_vacant fun _ => rfl)

theorem getPort_addEntry {k : Port} (v : Port)
    (h : getIndex portmap k ≠ portmapSize) : getPort (addEntry portmap k v) k = v := by
  rw [getPort_eq, addEntry, if_neg h, ProbeTable.lookup_set_self (getIndex_ne h)]
  rfl

theorem getPort_addEntry_of_ne (hsound : portmap.Sound) {k k' : Port} (v : Port)
    (hk' : k' ≠ 0) (hne : k' ≠ k) : getPort (addEntry portmap k v) k' = getPort portmap k' := by
  unfold addEntry
  dsimp only
  split_ifs with hfull
  · rfl
  · rw [getPort_eq, getPort_eq]
    rw [ProbeTable.Sound.lookup_set_of_ne hsound (getIndex_ne hfull) hk' hne]

/-! ## When the map is right, and what each call has to meet for it -/

namespace NetState

/-- An entry was added for a socket and the port of the guest that it was bound for. -/
def Credited (s : NetState) (x : Socket × Port) : Prop :=
  ∃ a ∈ s.added, (a.socket, a.guest) = x

def InFlight (s : NetState) (t : Nat) : Prop := ∃ fd g, s.phase t = .binding fd (some g)

/-- **The port map is right.** -/
structure Correct (s : NetState) : Prop where
  /-- every entry is the kernel's answer for a socket that was bound for this port of the guest -/
  own : ∀ a ∈ s.added, (a.socket, a.guest) ∈ s.rewritten ∧ a.real = s.port a.socket
  /-- every socket that was bound through a rewritten port and has listened has its entry -/
  entry : ∀ x ∈ s.listened, s.Credited x ∧ (x.2 ≠ 0 → getPort s.config.portmap x.2 = s.port x.1)
  /-- a port without an entry is rewritten, unless a bind(2) with a rewritten port is in flight or its
  socket hasn't got its entry yet -/
  rewrites : s.config.netcoopMode → ∀ p, getPort s.config.portmap p = portmapDefaultValue →
    s.config.rewrites p ∨ s.waiting.isSome ∨ ∃ t, s.InFlight t

def Meets (s : NetState) : NetEvent → Prop
  -- a bind(2) with a rewritten port doesn't fail
  | .bind _ _ read written =>
    ∀ addr ∈ read, addr.family.hasPort → s.config.rewrites addr.port → written
  | .bindDone t assigned => s.InFlight t → assigned.isSome
  -- the waiting socket listens under the descriptor it was bound with
  | .listenDone t ok => ok → ∀ fd chained x, s.phase t = .listening fd chained →
    s.waiting = some x → s.socketOf t fd = some x.1 → chained ∧ fd = s.config.sockfd
  -- it is the one that the descriptor still stands for, it has a port, and the map isn't full
  | .answer t family => ∀ fd owed, s.phase t = .answering fd owed →
    (s.config.adds fd (s.answered t fd family) →
      ∃ x, s.waiting = some x ∧ s.socketOf t fd = some x.1 ∧
        getIndex s.config.portmap x.2 ≠ portmapSize) ∧
    (∀ x ∈ owed, s.waiting = some x → ∃ addr ∈ s.answered t fd family, addr.family.hasPort)
  | _ => True

/-! ## The invariant -/

structure Inv (s : NetState) : Prop where
  sound : s.config.portmap.Sound
  added : ∀ a ∈ s.added, (a.socket, a.guest) ∈ s.rewritten ∧ a.real = s.port a.socket ∧
    (a.guest ≠ 0 → getPort s.config.portmap a.guest = a.real)
  rewritten : ∀ x ∈ s.rewritten, s.port x.1 ≠ 0 ∧ (s.Credited x ∨ s.waiting = some x)
  waiting : ∀ x, s.waiting = some x →
    x ∈ s.rewritten ∧ s.config.needToCheckNewPort ∧ s.config.oldPort = x.2
  inFlight : ∀ t fd g, s.phase t = .binding fd (some g) → s.waiting = none ∧
    s.config.needToCheckNewPort ∧ s.config.oldPort = g ∧ ∀ t', s.InFlight t' → t' = t
  flag : s.config.needToCheckNewPort → (s.waiting.isSome ∨ ∃ t, s.InFlight t) ∧
    (s.config.oldPort ≠ 0 → getPort s.config.portmap s.config.oldPort = portmapDefaultValue)
  owed : ∀ t fd owed, s.phase t = .answering fd owed → ∀ x ∈ owed, x ∈ s.rewritten ∧
    (s.waiting = some x → fd = s.config.sockfd)
  listened : ∀ x ∈ s.listened, s.Credited x

theorem Inv.correct {s : NetState} (h : s.Inv) : s.Correct where
  own a ha := ⟨(h.added a ha).1, (h.added a ha).2.1⟩
  entry x hx := by
    obtain ⟨a, ha, rfl⟩ := h.listened x hx
    obtain ⟨-, hreal, hport⟩ := h.added a ha
    exact ⟨⟨a, ha, rfl⟩, fun hguest => (hport hguest).trans hreal⟩
  rewrites hnetcoop p hp := by
    cases hflag : s.config.needToCheckNewPort with
    | true => exact .inr (h.flag hflag).1
    | false => exact .inl (by simp [PortConfig.rewrites, hp, hnetcoop, hflag])

/-! ## Steps -/

variable {s s' : NetState}

theorem Inv.port_ne_zero (h : s.Inv) {x : Socket × Port} (hx : x ∈ s.rewritten) : s.port x.1 ≠ 0 :=
  (h.rewritten x hx).1

variable {t : Nat} {fd : Fd}

theorem Inv.setPhase (h : s.Inv) {phase : CallPhase} (ht : ¬ s.InFlight t)
    (hbinding : ∀ fd g, phase ≠ .binding fd (some g))
    (howed : ∀ fd owed, phase = .answering fd owed → ∀ x ∈ owed, x ∈ s.rewritten ∧
      (s.waiting = some x → fd = s.config.sockfd)) : (s.setPhase t phase).Inv := by
  have hphase : ∀ t', t' ≠ t → (s.setPhase t phase).phase t' = s.phase t' :=
    fun t' hne => Function.update_of_ne hne _ _
  have hself : (s.setPhase t phase).phase t = phase := Function.update_self _ _ _
  have hflight : ∀ t', (s.setPhase t phase).InFlight t' ↔ s.InFlight t' := by
    intro t'
    by_cases hne : t' = t
    · subst hne
      refine iff_of_false ?_ ht
      rintro ⟨fd, g, hbind⟩
      exact hbinding fd g (hself.symm.trans hbind)
    · unfold InFlight
      rw [hphase t' hne]
  refine ⟨h.sound, h.added, h.rewritten, h.waiting, ?_, ?_, ?_, h.listened⟩
  · intro t' fd g hbind
    obtain ⟨hwaiting, hflag, hold, hunique⟩ : s.waiting = none ∧ s.config.needToCheckNewPort ∧
        s.config.oldPort = g ∧ ∀ t'', s.InFlight t'' → t'' = t' := by
      have hne : t' ≠ t := by
        rintro rfl
        exact hbinding fd g (hself.symm.trans hbind)
      rw [hphase t' hne] at hbind
      exact h.inFlight t' fd g hbind
    exact ⟨hwaiting, hflag, hold, fun t'' ht'' => hunique t'' ((hflight t'').mp ht'')⟩
  · intro hflag
    obtain ⟨hwaits, hport⟩ := h.flag hflag
    refine ⟨hwaits.imp id ?_, hport⟩
    rintro ⟨t', ht'⟩
    exact ⟨t', (hflight t').mpr ht'⟩
  · intro t' fd owed hans
    by_cases hne : t' = t
    · subst hne
      exact howed fd owed (hself.symm.trans hans)
    · rw [hphase t' hne] at hans
      exact h.owed t' fd owed hans

theorem Inv.idle (h : s.Inv) (ht : ¬ s.InFlight t) : (s.setPhase t .idle).Inv :=
  h.setPhase ht nofun nofun

theorem Inv.setPort (h : s.Inv) {sock : Socket} {p : Port} (hsock : s.port sock = 0) :
    ({ s with port := Function.update s.port sock p } : NetState).Inv := by
  have hport : ∀ x ∈ s.rewritten, Function.update s.port sock p x.1 = s.port x.1 := by
    intro x hx
    apply Function.update_of_ne
    intro heq
    exact h.port_ne_zero hx (heq ▸ hsock)
  refine ⟨h.sound, ?_, ?_, h.waiting, h.inFlight, h.flag, h.owed, h.listened⟩
  · intro a ha
    obtain ⟨hmem, hreal, hget⟩ := h.added a ha
    exact ⟨hmem, hreal.trans (hport _ hmem).symm, hget⟩
  · intro x hx
    show Function.update s.port sock p x.1 ≠ 0 ∧ _
    rw [hport x hx]
    exact h.rewritten x hx

theorem translatePort_config {config : PortConfig} {read : Option SockAddr}
    {written isBind : Bool} (h : ∀ addr ∈ read, isBind → addr.family.hasPort → ¬ config.rewrites addr.port) :
    (translatePort config fd read written isBind).1 = config := by
  unfold translatePort changeSocketPort
  cases read with
  | none => rfl
  | some addr =>
      have haddr := h addr rfl
      unfold PortConfig.rewrites at haddr
      dsimp only
      split_ifs with hfamily hdefault hnew
      · exfalso
        simp_all
      · rfl
      · rfl
      · rfl

theorem not_inFlight_of_idle (h : s.phase t = .idle) : ¬ s.InFlight t := by
  rintro ⟨fd, g, hbind⟩
  rw [h] at hbind
  cases hbind

theorem Inv.connect (h : s.Inv) (t : Nat) (fd : Fd) (read : Option SockAddr) (written : Bool) :
    (s.enter t fd read written false).Inv := by
  have hconfig : (translatePort s.config fd read written false).1 = s.config :=
    translatePort_config nofun
  unfold enter
  simp only [hconfig, Bool.false_eq_true, and_false, if_false]
  exact h

theorem Inv.rewrite (h : s.Inv) (ht : s.phase t = .idle) (fd : Fd) {g : Port}
    (hg : s.config.rewrites g) :
    ({ s with
        config := { s.config with
          oldPort := g
          needToCheckNewPort := true
          sockfd := fd }
        phase := Function.update s.phase t (.binding fd (some g)) } : NetState).Inv := by
  simp only [PortConfig.rewrites, decide_eq_true_iff, Bool.not_eq_true] at hg
  obtain ⟨hport, -, hflag⟩ := hg
  have hwaiting : s.waiting = none := by
    cases hw : s.waiting with
    | none => rfl
    | some x => exact absurd (h.waiting x hw).2.1 (by simp [hflag])
  have hflight : ∀ t', ¬ s.InFlight t' := by
    rintro t' ⟨fd', g', hbind⟩
    exact absurd (h.inFlight t' fd' g' hbind).2.1 (by simp [hflag])
  have hphase : ∀ t', t' ≠ t →
      Function.update s.phase t (.binding fd (some g)) t' = s.phase t' :=
    fun t' hne => Function.update_of_ne hne _ _
  have hself : Function.update s.phase t (.binding fd (some g)) t = .binding fd (some g) :=
    Function.update_self _ _ _
  have hthis : ∀ t' fd' g',
      Function.update s.phase t (.binding fd (some g)) t' = .binding fd' (some g') →
        t' = t ∧ g' = g := by
    intro t' fd' g' hbind
    by_cases hne : t' = t
    · subst hne
      rw [hself] at hbind
      cases hbind
      exact ⟨rfl, rfl⟩
    · rw [hphase t' hne] at hbind
      exact absurd ⟨fd', g', hbind⟩ (hflight t')
  refine ⟨h.sound, h.added, h.rewritten, ?_, ?_, ?_, ?_, h.listened⟩
  · intro x hx
    rw [hwaiting] at hx
    cases hx
  · intro t' fd' g' hbind
    obtain ⟨rfl, rfl⟩ := hthis t' fd' g' hbind
    refine ⟨hwaiting, rfl, rfl, ?_⟩
    rintro t'' ⟨fd'', g'', hbind'⟩
    exact (hthis t'' fd'' g'' hbind').1
  · intro _
    exact ⟨.inr ⟨t, fd, g, hself⟩, fun _ => hport⟩
  · intro t' fd' owed hans x hx
    have hne : t' ≠ t := by
      rintro rfl
      cases hself.symm.trans hans
    replace hans := (hphase t' hne).symm.trans hans
    refine ⟨(h.owed t' fd' owed hans x hx).1, fun hw => ?_⟩
    rw [hwaiting] at hw
    cases hw

theorem Inv.bind (h : s.Inv) (ht : s.phase t = .idle) {read : Option SockAddr}
    {written : Bool} (hmeets : s.Meets (.bind t fd read written)) :
    (s.enter t fd read written true).Inv := by
  by_cases hrewrites : ∃ addr ∈ read, addr.family.hasPort ∧ s.config.rewrites addr.port
  · obtain ⟨addr, rfl, hfamily, hport⟩ := hrewrites
    obtain rfl : written = true := hmeets addr rfl hfamily hport
    have hsaved := h.rewrite ht fd hport
    have hchange : changeSocketPort s.config fd addr.port true =
        ({ s.config with
          oldPort := addr.port
          needToCheckNewPort := true
          sockfd := fd }, some 0) := by
      have hwhen := hport
      simp only [PortConfig.rewrites, decide_eq_true_iff] at hwhen
      unfold changeSocketPort
      dsimp only
      rw [if_pos hwhen.1, if_pos ⟨rfl, hwhen.2⟩]
    have htranslate : translatePort s.config fd (some addr) true true =
        ({ s.config with
          oldPort := addr.port
          needToCheckNewPort := true
          sockfd := fd }, true) := by
      unfold translatePort
      simp only [hfamily, hchange, if_true]
    unfold enter
    simp only [htranslate, hfamily, hport, Option.bind_some, and_self, if_true]
    exact hsaved
  · have hnot : ∀ addr ∈ read, ¬ (addr.family.hasPort ∧ s.config.rewrites addr.port) :=
      fun addr haddr hboth => hrewrites ⟨addr, haddr, hboth⟩
    have hconfig : (translatePort s.config fd read written true).1 = s.config :=
      translatePort_config fun addr haddr _ hfamily hport => hnot addr haddr ⟨hfamily, hport⟩
    have hguest : (read.bind fun addr =>
        if addr.family.hasPort ∧ s.config.rewrites addr.port then some addr.port else none) =
          none := by
      cases read with
      | none => rfl
      | some addr => exact if_neg (hnot addr rfl)
    unfold enter
    simp only [hconfig, hguest]
    split_ifs
    · exact h.setPhase (not_inFlight_of_idle ht) nofun nofun
    · exact h

theorem Inv.wait (h : s.Inv) {g p : Port} {sock : Socket}
    (hbind : s.phase t = .binding fd (some g)) (hsock : s.port sock = 0) (hp : p ≠ 0) :
    ({ s.setPhase t .idle with
        port := Function.update s.port sock p
        rewritten := (sock, g) :: s.rewritten
        waiting := some (sock, g) } : NetState).Inv := by
  obtain ⟨hwaiting, hflag, hold, hunique⟩ := h.inFlight t fd g hbind
  have hport : ∀ x ∈ s.rewritten, Function.update s.port sock p x.1 = s.port x.1 := by
    intro x hx
    apply Function.update_of_ne
    intro heq
    exact h.port_ne_zero hx (heq ▸ hsock)
  have hself : Function.update s.phase t .idle t = .idle := Function.update_self _ _ _
  refine ⟨h.sound, ?_, ?_, ?_, ?_, ?_, ?_, h.listened⟩
  · intro a ha
    obtain ⟨hmem, hreal, hget⟩ := h.added a ha
    exact ⟨List.mem_cons_of_mem _ hmem, hreal.trans (hport _ hmem).symm, hget⟩
  · intro x hx
    rcases List.mem_cons.mp hx with rfl | hx
    · refine ⟨?_, .inr rfl⟩
      show Function.update s.port sock p sock ≠ 0
      rwa [Function.update_self]
    · obtain ⟨hne, hcredit | hw⟩ := h.rewritten x hx
      · exact ⟨(hport x hx).trans_ne hne, .inl hcredit⟩
      · rw [hwaiting] at hw
        cases hw
  · rintro x ⟨⟩
    exact ⟨List.mem_cons_self, hflag, hold⟩
  · -- no other bind(2) with a rewritten port is in flight
    intro t' fd' g' hbind'
    by_cases hne : t' = t
    · subst hne
      cases hself.symm.trans hbind'
    · have hphase : s.phase t' = .binding fd' (some g') :=
        (Function.update_of_ne hne _ _).symm.trans hbind'
      exact absurd (hunique t' ⟨fd', g', hphase⟩) hne
  · exact fun hflag' => ⟨.inl rfl, (h.flag hflag').2⟩
  · intro t' fd' owed hans x hx
    have hne : t' ≠ t := by
      rintro rfl
      cases hself.symm.trans hans
    have hphase : s.phase t' = .answering fd' owed :=
      (Function.update_of_ne hne _ _).symm.trans hans
    obtain ⟨hmem, -⟩ := h.owed t' fd' owed hphase x hx
    refine ⟨List.mem_cons_of_mem _ hmem, ?_⟩
    rintro ⟨⟩
    exact absurd hsock (h.port_ne_zero hmem)

theorem Inv.bindDone (h : s.Inv) {assigned : Option Port}
    (hmeets : s.Meets (.bindDone t assigned)) (hstep : s.bindDone t assigned = some s') :
    s'.Inv := by
  unfold NetState.bindDone at hstep
  cases hphase : s.phase t with
  | idle | listening | answering => simp [hphase] at hstep
  | binding fd guest =>
      rw [hphase] at hstep
      cases assigned with
      | none =>
          obtain rfl := Option.some.inj hstep
          have hnot : ¬ s.InFlight t := fun hflight => by simpa using hmeets hflight
          exact h.idle hnot
      | some p =>
          dsimp only at hstep
          cases hsock : s.socketOf t fd with
          | none => simp [hsock] at hstep
          | some sock =>
              rw [hsock] at hstep
              dsimp only at hstep
              split_ifs at hstep with hrefused
              rw [not_or, not_not] at hrefused
              cases guest with
              | none =>
                  obtain rfl := Option.some.inj hstep
                  have hnot : ¬ s.InFlight t := by
                    rintro ⟨fd', g, hbind⟩
                    rw [hphase] at hbind
                    cases hbind
                  exact (h.idle hnot).setPort hrefused.1
              | some g =>
                  obtain rfl := Option.some.inj hstep
                  exact h.wait hphase hrefused.1 fun hp => hrefused.2 ⟨rfl, hp⟩

theorem Inv.listen (h : s.Inv) (ht : s.phase t = .idle) (fd : Fd) (allocated : Bool) :
    (s.listen t fd allocated).Inv := by
  have hlistening : ∀ chained, (s.setPhase t (.listening fd chained)).Inv :=
    fun chained => h.setPhase (not_inFlight_of_idle ht) nofun nofun
  unfold NetState.listen
  by_cases hchecks : s.config.checks fd
  · cases allocated with
    | true => simpa [hchecks] using hlistening true
    | false => simpa [hchecks] using h
  · simpa [hchecks] using hlistening false

theorem Inv.listenDone (h : s.Inv) {ok : Bool} (hmeets : s.Meets (.listenDone t ok))
    (hstep : s.listenDone t ok = some s') : s'.Inv := by
  unfold NetState.listenDone at hstep
  cases hphase : s.phase t with
  | idle | binding | answering => simp [hphase] at hstep
  | listening fd chained =>
      rw [hphase] at hstep
      dsimp only at hstep
      generalize howed : (if ok then s.rewritten.filter fun x => s.socketOf t fd = some x.1 else []) =
        owed at hstep
      -- what is owed is the socket that listens
      have hmem : ∀ x ∈ owed, x ∈ s.rewritten ∧ ok ∧ s.socketOf t fd = some x.1 := by
        subst howed
        intro x hx
        split_ifs at hx with hok
        · obtain ⟨hx, heq⟩ := List.mem_filter.mp hx
          exact ⟨hx, hok, of_decide_eq_true heq⟩
        · cases hx
      have hlistens : ∀ x ∈ owed, s.waiting = some x → chained ∧ fd = s.config.sockfd :=
        fun x hx hw => hmeets (hmem x hx).2.1 fd chained x hphase hw (hmem x hx).2.2
      have hnot : ¬ s.InFlight t := by
        rintro ⟨fd', g, hbind⟩
        rw [hphase] at hbind
        cases hbind
      split_ifs at hstep with hbad hchained
      · obtain rfl := Option.some.inj hstep
        refine h.setPhase hnot nofun ?_
        rintro fd' owed' ⟨⟩ x hx
        exact ⟨(hmem x hx).1, fun hw => (hlistens x hx hw).2⟩
      · obtain rfl := Option.some.inj hstep
        have hidle := h.idle hnot
        refine { hidle with listened := ?_ }
        intro x hx
        rcases List.mem_append.mp hx with hx | hx
        · rcases (h.rewritten x (hmem x hx).1).2 with hcredit | hw
          · exact hcredit
          · exact absurd (hlistens x hx hw).1 hchained
        · exact h.listened x hx

/-- A socket that listens gets its entry. -/
theorem Inv.credit (h : s.Inv) {owed : List (Socket × Port)}
    {x : Socket × Port} (hans : s.phase t = .answering fd owed) (hw : s.waiting = some x)
    (hroom : getIndex s.config.portmap x.2 ≠ portmapSize) :
    ({ s.setPhase t .idle with
        config := { s.config with
          portmap := addEntry s.config.portmap s.config.oldPort (s.port x.1)
          needToCheckNewPort := false
          sockfd := 0 }
        listened := owed ++ s.listened
        added := ⟨x.1, s.config.oldPort, s.port x.1⟩ :: s.added
        waiting := none } : NetState).Inv := by
  obtain ⟨hmem, hflag, hold⟩ := h.waiting x hw
  rw [← hold] at hroom
  have hnew : ∀ y, s.Credited y ∨ s.waiting = some y →
      ∃ a ∈ (⟨x.1, s.config.oldPort, s.port x.1⟩ : Added) :: s.added, (a.socket, a.guest) = y := by
    rintro y (⟨a, ha, heq⟩ | hy)
    · exact ⟨a, List.mem_cons_of_mem _ ha, heq⟩
    · obtain rfl := Option.some.inj (hw.symm.trans hy)
      exact ⟨_, List.mem_cons_self, by rw [hold]⟩
  have hflight : ∀ t', ¬ s.InFlight t' := by
    rintro t' ⟨fd', g, hbind⟩
    rw [(h.inFlight t' fd' g hbind).1] at hw
    cases hw
  refine ⟨sound_addEntry h.sound _ _, ?_, ?_, nofun, ?_, nofun, ?_, ?_⟩
  · intro a ha
    rcases List.mem_cons.mp ha with rfl | ha
    · exact ⟨by rw [hold]; exact hmem, rfl, fun _ => getPort_addEntry _ hroom⟩
    · obtain ⟨hold', hreal, hget⟩ := h.added a ha
      refine ⟨hold', hreal, fun hguest => ?_⟩
      have hne : a.guest ≠ s.config.oldPort := by
        -- a port that is bound through a rewritten one has no entry
        intro heq
        have hnone := (h.flag hflag).2 (heq ▸ hguest)
        rw [← heq, hget hguest, hreal] at hnone
        exact h.port_ne_zero hold' hnone
      exact (getPort_addEntry_of_ne h.sound _ hguest hne).trans (hget hguest)
  · intro y hy
    exact ⟨(h.rewritten y hy).1, .inl (hnew y (h.rewritten y hy).2)⟩
  · intro t' fd' g hbind
    by_cases hne : t' = t
    · subst hne
      have hself : Function.update s.phase t' .idle t' = .idle := Function.update_self _ _ _
      cases hself.symm.trans hbind
    · have hphase : s.phase t' = .binding fd' (some g) :=
        (Function.update_of_ne hne _ _).symm.trans hbind
      exact absurd ⟨fd', g, hphase⟩ (hflight t')
  · intro t' fd' owed' hans' y hy
    have hne : t' ≠ t := by
      rintro rfl
      have hself : Function.update s.phase t' .idle t' = .idle := Function.update_self _ _ _
      cases hself.symm.trans hans'
    have hphase : s.phase t' = .answering fd' owed' :=
      (Function.update_of_ne hne _ _).symm.trans hans'
    exact ⟨(h.owed t' fd' owed' hphase y hy).1, nofun⟩
  · intro y hy
    rcases List.mem_append.mp hy with hy | hy
    · exact hnew y (h.rewritten y (h.owed t fd owed hans y hy).1).2
    · exact hnew y (.inl (h.listened y hy))

theorem Inv.unanswered (h : s.Inv) {owed : List (Socket × Port)}
    (hans : s.phase t = .answering fd owed) (howed : ∀ x ∈ owed, s.waiting ≠ some x) :
    ({ s.setPhase t .idle with listened := owed ++ s.listened } : NetState).Inv := by
  have hnot : ¬ s.InFlight t := by
    rintro ⟨fd', g, hbind⟩
    rw [hans] at hbind
    cases hbind
  refine { h.idle hnot with listened := ?_ }
  intro x hx
  rcases List.mem_append.mp hx with hx | hx
  · rcases (h.rewritten x (h.owed t fd owed hans x hx).1).2 with hcredit | hw
    · exact hcredit
    · exact absurd hw (howed x hx)
  · exact h.listened x hx

theorem addChangedPortAsEntry_of_adds {config : PortConfig} {addr : SockAddr}
    (h : config.adds fd (some addr)) : addChangedPortAsEntry config fd (some addr) =
      { config with
        portmap := addEntry config.portmap config.oldPort addr.port
        needToCheckNewPort := false
        sockfd := 0 } := by
  simp only [PortConfig.adds, decide_eq_true_iff, Option.mem_some_iff, exists_eq_left'] at h
  unfold addChangedPortAsEntry
  simp [h]

theorem addChangedPortAsEntry_of_not_adds {config : PortConfig} {answer : Option SockAddr}
    (h : ¬ config.adds fd answer) : addChangedPortAsEntry config fd answer = config := by
  cases answer with
  | none => rfl
  | some addr =>
      simp only [PortConfig.adds, decide_eq_true_iff, Option.mem_some_iff, exists_eq_left'] at h
      unfold addChangedPortAsEntry
      dsimp only
      split_ifs with hother hfamily
      · rfl
      · exfalso
        rw [not_or, not_not, not_not] at hother
        exact h ⟨hother.1, hother.2, hfamily⟩
      · rfl

theorem Inv.answer (h : s.Inv) {family : Option Family}
    (hmeets : s.Meets (.answer t family)) (hstep : s.answer t family = some s') : s'.Inv := by
  unfold NetState.answer at hstep
  cases hphase : s.phase t with
  | idle | binding | listening => simp [hphase] at hstep
  | answering fd owed =>
      rw [hphase] at hstep
      dsimp only at hstep
      obtain ⟨hright, hanswers⟩ := hmeets fd owed hphase
      by_cases hadds : s.config.adds fd (s.answered t fd family)
      · obtain ⟨x, hw, hsock, hroom⟩ := hright hadds
        obtain ⟨addr, haddr, hport⟩ : ∃ addr, s.answered t fd family = some addr ∧
            addr.port = s.port x.1 := by
          cases family with
          | none =>
              simp [answered, hsock, PortConfig.adds] at hadds
          | some family => exact ⟨⟨family, s.port x.1⟩, by simp [answered, hsock], rfl⟩
        have hroom' := hroom
        rw [← (h.waiting x hw).2.2] at hroom'
        rw [haddr] at hadds hstep
        rw [hsock] at hstep
        simp only [hadds, hroom', addChangedPortAsEntry_of_adds hadds, hport, ne_eq,
          not_false_eq_true, and_self, if_true] at hstep
        obtain rfl := Option.some.inj hstep
        exact h.credit hphase hw hroom
      · have howed : ∀ x ∈ owed, s.waiting ≠ some x := by
          intro x hx hw
          apply hadds
          obtain ⟨addr, haddr, hfamily⟩ := hanswers x hx hw
          have hfd := (h.owed t fd owed hphase x hx).2 hw
          have hflag := (h.waiting x hw).2.1
          simp only [PortConfig.adds, decide_eq_true_iff]
          exact ⟨hflag, hfd, addr, haddr, hfamily⟩
        have hs' : s' = { s.setPhase t .idle with listened := owed ++ s.listened } := by
          rw [addChangedPortAsEntry_of_not_adds hadds] at hstep
          cases hsock : s.socketOf t fd with
          | none =>
              rw [hsock] at hstep
              exact (Option.some.inj hstep).symm
          | some sock =>
              rw [hsock] at hstep
              simp only [hadds, Bool.false_eq_true, false_and, if_false] at hstep
              exact (Option.some.inj hstep).symm
        rw [hs']
        exact h.unanswered hphase howed

theorem Inv.step (h : s.Inv) {e : NetEvent} (hmeets : s.Meets e) (hstep : s.step e = some s') :
    s'.Inv := by
  cases e with
  | connect t fd read written =>
      cases hphase : s.phase t with
      | idle =>
          simp only [NetState.step, hphase] at hstep
          obtain rfl := Option.some.inj hstep
          exact h.connect t fd read written
      | _ => simp [NetState.step, hphase] at hstep
  | bind t fd read written =>
      cases hphase : s.phase t with
      | idle =>
          simp only [NetState.step, hphase] at hstep
          obtain rfl := Option.some.inj hstep
          exact h.bind hphase hmeets
      | _ => simp [NetState.step, hphase] at hstep
  | bindDone t assigned => exact h.bindDone hmeets hstep
  | listen t fd allocated =>
      cases hphase : s.phase t with
      | idle =>
          simp only [NetState.step, hphase] at hstep
          obtain rfl := Option.some.inj hstep
          exact h.listen hphase fd allocated
      | _ => simp [NetState.step, hphase] at hstep
  | listenDone t ok => exact h.listenDone hmeets hstep
  | answer t family => exact h.answer hmeets hstep
  | descriptors socketOf =>
      obtain rfl := Option.some.inj hstep
      exact ⟨h.sound, h.added, h.rewritten, h.waiting, h.inFlight, h.flag, h.owed, h.listened⟩
  | autobind sock p =>
      simp only [NetState.step] at hstep
      split_ifs at hstep with hsock
      obtain rfl := Option.some.inj hstep
      exact h.setPort hsock

theorem Inv.initial (entries : List (Port × Port)) (netcoop : Bool)
    (socketOf : Nat → Fd → Option Socket) (port : Socket → Port) :
    (NetState.initial (.initial entries netcoop) socketOf port).Inv where
  sound := sound_initial entries netcoop
  added := nofun
  rewritten := nofun
  waiting := nofun
  inFlight := nofun
  flag := nofun
  owed := nofun
  listened := nofun

end NetState

/-! ## Runs -/

/-- **The port map is right in every run** whose steps meet the condition. -/
theorem network_correct {s : NetState} (h : network.Reach NetState.Meets s) : s.Correct := by
  have hinv : s.Inv := by
    refine h.invariant ?_ fun s e s' hinv hmeets hstep => hinv.step hmeets hstep
    rintro s ⟨entries, netcoop, socketOf, port, rfl⟩
    exact .initial entries netcoop socketOf port
  exact hinv.correct

def twoTracees : NetState :=
  .initial (.initial [] true) (fun t fd => if fd = 3 then some t else none) fun _ => 0

def bindAndListen : List NetEvent :=
  [.bind 1 3 (some ⟨.inet, 80⟩) true, .bindDone 1 (some 5001), .listen 1 3 true,
    .listenDone 1 true, .answer 1 (some .inet)]

theorem network_correct_run : ∃ s, network.exec twoTracees bindAndListen = some s ∧ s.Correct ∧
    s.added = [⟨1, 80, 5001⟩] := by
  have hmeets : network.Along NetState.Meets twoTracees bindAndListen := by
    refine ⟨fun _ _ _ _ => rfl, ?_⟩
    rintro _ ⟨⟩
    refine ⟨fun _ => rfl, ?_⟩
    rintro _ ⟨⟩
    refine ⟨trivial, ?_⟩
    rintro _ ⟨⟩
    refine ⟨?_, ?_⟩
    · rintro - fd chained x ⟨⟩ - -
      exact ⟨rfl, rfl⟩
    · rintro _ ⟨⟩
      refine ⟨?_, fun _ _ => trivial⟩
      rintro fd owed ⟨⟩
      exact ⟨fun _ => ⟨(1, 80), rfl, rfl, by decide⟩, fun _ _ _ => ⟨⟨.inet, 5001⟩, rfl, rfl⟩⟩
  obtain ⟨s, hs, hadded⟩ : ∃ s, network.exec twoTracees bindAndListen = some s ∧
      s.added = [⟨1, 80, 5001⟩] := ⟨_, rfl, by decide⟩
  have hstart : network.Reach NetState.Meets twoTracees := .start ⟨[], true, _, _, rfl⟩
  exact ⟨s, hs, network_correct (hstart.exec_along hmeets hs), hadded⟩

/-- The other one, which is bound to a port of its own in between, listens first. -/
def otherListens : List NetEvent :=
  [.bind 1 3 (some ⟨.inet, 80⟩) true, .bindDone 1 (some 5001),
    .bind 2 3 (some ⟨.inet, 8080⟩) true, .bindDone 2 (some 8080),
    .listen 2 3 true, .listenDone 2 true, .answer 2 (some .inet),
    .listen 1 3 true, .listenDone 1 true]

def bindFails : List NetEvent := [.bind 1 3 (some ⟨.inet, 80⟩) true, .bindDone 1 none]

/-- **Some run credits the wrong socket**, and after a failed bind(2) no port is rewritten. -/
theorem network_incorrect :
    (∃ s, network.exec twoTracees otherListens = some s ∧ s.added = [⟨2, 80, 8080⟩] ∧
      s.rewritten = [(1, 80)] ∧ s.listened = [(1, 80)] ∧ ¬ s.Correct) ∧
    ∃ s, network.exec twoTracees bindFails = some s ∧ s.config.rewrites 443 = false ∧
      ¬ s.Correct := by
  constructor
  · refine ⟨_, rfl, ?_, ?_, ?_, ?_⟩
    · decide
    · decide
    · decide
    · intro hcorrect
      have hown := hcorrect.own ⟨2, 80, 8080⟩ (by decide)
      exact absurd hown.1 (by decide)
  · refine ⟨_, rfl, ?_, ?_⟩
    · decide
    · intro hcorrect
      rcases hcorrect.rewrites rfl 443 (by decide) with hrewrites | hw | ⟨t, fd, g, hbind⟩
      · exact absurd hrewrites (by decide)
      · exact absurd hw (by decide)
      · have hidle : ∀ p : CallPhase, Function.update
            (Function.update (fun _ => CallPhase.idle) 1 p) 1 CallPhase.idle t = CallPhase.idle := by
          intro p
          rw [Function.update_idem]
          exact congrFun (Function.update_eq_self 1 fun _ => CallPhase.idle) t
        cases (hidle _).symm.trans hbind

end Improot.Extension
