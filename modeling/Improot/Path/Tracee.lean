import Improot.Path.Binding

/-!
# What the translation of a path reads and changes

The part of `struct tracee` and of the host that canonicalization looks at, and the computations
over it: a computation may fail, and keeps the changes it made before it failed.
-/

namespace Improot.Path

/-- The file types `lstat(2)` reports. -/
inductive FileType where
  | fifo | chr | dir | blk | reg | lnk | sock
  deriving DecidableEq, Repr

/-- How a computation ends early: it returns `-errno`, or an assertion fails. -/
inductive Failure where
  | errno (e : Errno)
  | abort
  deriving DecidableEq, Repr

/-- The three path events of an extension.  A callback may rewrite the path it is given; its status
is negative (an errno), null, or positive. -/
structure Extension where
  guestPath : (base userPath : CString) → Except Errno (Nat × CString)
  hostPath : (path : CString) → (isFinal : Bool) → Except Errno (Nat × CString)
  translatedPath : (path : CString) → Except Errno (Nat × CString)

/-- `notify_extensions`: the first status that is not null ends the loop. -/
def notifyExtensions (event : Extension → CString → Except Errno (Nat × CString)) :
    List Extension → CString → Except Errno (Nat × CString)
  | [], path => .ok (0, path)
  | e :: es, path =>
    match event e path with
    | .error errno => .error errno
    | .ok (0, path) => notifyExtensions event es path
    | .ok (status + 1, path) => .ok (status + 1, path)

/-- What `/proc/<pid>` shows of a monitored process. -/
structure KnownTracee where
  exe : CString
  cwd : CString
  root : CString
  deriving DecidableEq, Repr

structure Host where
  lstat : CString → Except Errno FileType
  readlink : CString → Except Errno CString
  /-- the value of `/proc/<pid>/fd/<fd>` for the descriptors of the tracee -/
  fdPath : Int → Except Errno CString
  skipped : CString → Bool
  /-- what `mkdir(2)` or `mknod(2)` answers -/
  make : CString → FileType → Except Errno Unit
  /-- `create_temp_directory` for the glue -/
  tempDirectory : Option CString
  dontPollute : Bool
  getTracee : Int → Option KnownTracee

/-- The part of `struct tracee` used here. -/
structure Tracee where
  pid : Nat
  bindings : Bindings
  cwd : CString
  /-- the type of the final component while a binding is initialized -/
  glueType : Option FileType
  /-- the directory that holds the glue -/
  glue : Option CString
  extensions : List Extension

structure World where
  tracee : Tracee
  host : Host

def Comp (α : Type) : Type := World → Except Failure α × World

namespace Comp

variable {α β : Type}

instance : Monad Comp where
  pure a := fun w => (.ok a, w)
  bind x f := fun w =>
    match x w with
    | (.ok a, w') => f a w'
    | (.error e, w') => (.error e, w')

def fail (e : Failure) : Comp α := fun w => (.error e, w)

def get : Comp World := fun w => (.ok w, w)

def lift (x : Except Errno α) : Comp α := fun w =>
  match x with
  | .ok a => (.ok a, w)
  | .error e => (.error (.errno e), w)

@[simp] theorem pure_run (a : α) (w : World) : (pure a : Comp α) w = (.ok a, w) := rfl

@[simp] theorem fail_run (e : Failure) (w : World) : (fail e : Comp α) w = (.error e, w) := rfl

@[simp] theorem get_run (w : World) : get w = (.ok w, w) := rfl

@[simp] theorem lift_ok (a : α) (w : World) : lift (.ok a) w = (.ok a, w) := rfl

@[simp] theorem lift_error (e : Errno) (w : World) :
    (lift (.error e) : Comp α) w = (.error (.errno e), w) := rfl

theorem bind_run (x : Comp α) (f : α → Comp β) (w : World) :
    (x >>= f) w =
      match x w with
      | (.ok a, w') => f a w'
      | (.error e, w') => (.error e, w') := rfl

theorem bind_assoc {γ : Type} (x : Comp α) (f : α → Comp β) (g : β → Comp γ) :
    x >>= f >>= g = x >>= fun a => f a >>= g := by
  funext w
  rw [bind_run, bind_run, bind_run]
  match x w with
  | (.ok a, w') => rfl
  | (.error e, w') => rfl

theorem pure_bind (a : α) (f : α → Comp β) : (pure a >>= f) = f a := rfl

variable {x : Comp α} {f : α → Comp β} {w' : World} {a : α}

theorem bind_eq_ok {w : World} {b : β} :
    (x >>= f) w = (.ok b, w') ↔ ∃ a v, x w = (.ok a, v) ∧ f a v = (.ok b, w') := by
  rw [bind_run]
  match hx : x w with
  | (.ok a, v) =>
      constructor
      · intro h
        exact ⟨a, v, rfl, h⟩
      · rintro ⟨a', v', h, hf⟩
        cases h
        exact hf
  | (.error e, v) =>
      constructor
      · intro h
        cases h
      · rintro ⟨a', v', h, -⟩
        cases h

theorem lift_eq_ok {x : Except Errno α} {w : World} :
    lift x w = (.ok a, w') ↔ x = .ok a ∧ w' = w := by
  cases x with
  | error e => simp [lift]
  | ok b =>
      simp only [lift, Prod.mk.injEq, Except.ok.injEq]
      exact and_congr_right fun _ => eq_comm

theorem lift_bind_eq_ok {x : Except Errno α} {w : World} {b : β} :
    (lift x >>= f) w = (.ok b, w') ↔ ∃ a, x = .ok a ∧ f a w = (.ok b, w') := by
  rw [bind_eq_ok]
  constructor
  · rintro ⟨a, v, hlift, hf⟩
    obtain ⟨hx, rfl⟩ := lift_eq_ok.mp hlift
    exact ⟨a, hx, hf⟩
  · rintro ⟨a, hx, hf⟩
    exact ⟨a, w, lift_eq_ok.mpr ⟨hx, rfl⟩, hf⟩

@[simp] theorem get_bind (f : World → Comp β) (w : World) : (get >>= f) w = f w w := rfl

theorem pure_eq_ok {b : α} {w : World} :
    (pure a : Comp α) w = (.ok b, w') ↔ a = b ∧ w' = w := by
  simp only [pure_run, Prod.mk.injEq, Except.ok.injEq]
  exact and_congr_right fun _ => eq_comm

/-! ## What a computation keeps -/

/-- `x` keeps `I`, whether it succeeds or fails, and what it returns satisfies `Q`. -/
def Spec (I : World → Prop) (x : Comp α) (Q : α → Prop) : Prop :=
  ∀ w, I w → I (x w).2 ∧ ∀ a, (x w).1 = .ok a → Q a

variable {I : World → Prop} {Q : α → Prop} {R : β → Prop}

theorem Spec.pure (h : Q a) : Spec I (Pure.pure a : Comp α) Q := by
  intro w hw
  refine ⟨hw, fun b hb => ?_⟩
  cases hb
  exact h

theorem Spec.fail (e : Failure) : Spec I (fail e : Comp α) Q := fun _ hw => ⟨hw, nofun⟩

theorem Spec.get : Spec I get I := by
  intro w hw
  refine ⟨hw, fun v hv => ?_⟩
  cases hv
  exact hw

theorem Spec.lift {x : Except Errno α} (h : ∀ a, x = .ok a → Q a) : Spec I (lift x) Q := by
  intro w hw
  cases x with
  | error e => exact ⟨hw, nofun⟩
  | ok a =>
      refine ⟨hw, fun b hb => ?_⟩
      cases hb
      exact h a rfl

theorem Spec.bind (hx : Spec I x Q) (hf : ∀ a, Q a → Spec I (f a) R) : Spec I (x >>= f) R := by
  intro w hw
  obtain ⟨hkeep, hq⟩ := hx w hw
  rw [bind_run]
  match hrun : x w with
  | (.ok a, w') =>
      rw [hrun] at hkeep hq
      exact hf a (hq a rfl) w' hkeep
  | (.error e, w') =>
      rw [hrun] at hkeep
      exact ⟨hkeep, nofun⟩

theorem Spec.mono {Q' : α → Prop} (hx : Spec I x Q) (h : ∀ a, Q a → Q' a) :
    Spec I x Q' :=
  fun w hw => ⟨(hx w hw).1, fun a ha => h a ((hx w hw).2 a ha)⟩

theorem Spec.ok {w : World} (hx : Spec I x Q) (hw : I w) (h : x w = (.ok a, w')) : I w' ∧ Q a := by
  have := hx w hw
  rw [h] at this
  exact ⟨this.1, this.2 a rfl⟩

/-! ## From one world -/

/-- What `x` returns in `w`, if it does, satisfies `Q`. -/
def Yields (x : Comp α) (w : World) (Q : α → World → Prop) : Prop :=
  ∀ a w', x w = (.ok a, w') → Q a w'

/-- From `w`, the computation keeps `I` whether it succeeds or fails, and what it returns satisfies
`Q`. -/
def After (I : World → Prop) (x : Comp α) (w : World) (Q : α → World → Prop) : Prop :=
  I (x w).2 ∧ x.Yields w Q

variable {w : World} {P Q' : α → World → Prop} {R' : β → World → Prop}

theorem Spec.after {x : Comp α} (hx : Spec I x Q) (hw : I w) (hy : x.Yields w P) :
    After I x w fun a w' => Q a ∧ P a w' :=
  ⟨(hx w hw).1, fun a w' h => ⟨(hx.ok hw h).2, hy a w' h⟩⟩

theorem After.and (hx : After I x w P) (hy : x.Yields w Q') :
    After I x w fun a w' => P a w' ∧ Q' a w' :=
  ⟨hx.1, fun a w' h => ⟨hx.2 a w' h, hy a w' h⟩⟩

theorem After.bind (hx : After I x w Q')
    (hf : ∀ a w', I w' → Q' a w' → After I (f a) w' R') : After I (x >>= f) w R' := by
  obtain ⟨hkeep, hyields⟩ := hx
  unfold After Yields
  rw [bind_run]
  match hrun : x w with
  | (.ok a, w') =>
      rw [hrun] at hkeep
      exact hf a w' hkeep (hyields a w' hrun)
  | (.error e, w') =>
      rw [hrun] at hkeep
      exact ⟨hkeep, nofun⟩

theorem After.bind_world {J : World → Prop} (hx : After I x w Q')
    (herror : ∀ w', I w' → J w') (hf : ∀ a w', I w' → Q' a w' → J (f a w').2) :
    J ((x >>= f) w).2 := by
  obtain ⟨hkeep, hyields⟩ := hx
  rw [bind_run]
  match hrun : x w with
  | (.ok a, w') =>
      rw [hrun] at hkeep
      exact hf a w' hkeep (hyields a w' hrun)
  | (.error e, w') =>
      rw [hrun] at hkeep
      exact herror w' hkeep

theorem After.pure (hw : I w) (h : Q' a w) : After I (Pure.pure a : Comp α) w Q' := by
  refine ⟨hw, fun b w' hb => ?_⟩
  cases hb
  exact h

theorem After.fail {e : Failure} (hw : I w) : After I (fail e : Comp α) w Q' := ⟨hw, nofun⟩

end Comp

end Improot.Path
