import Improot.Path.Substitute
import Improot.Path.Translate

/-!
# Confinement of the translation

A substitution that is reported exchanges the reference of the binding for its reverse reference,
as long as the result fits the path buffer.  `substitute_binding` does not look at the length
error of `substitute_path_prefix`, so that beyond this bound it reports a substitution and leaves
the guest path in the buffer.
-/

namespace Improot.Path

/-- What `substitute_binding` promises: an error, or 0 and the path as it was, or 1 and the path
rebased from the reference of the binding to its reverse reference; and never 1 with the path as
it was. -/
def Confined (t : Bindings) (side : Side) (path : CString) : Prop :=
  match substituteBinding t side path with
  | .error _ => True
  | .ok (false, result) => result = path
  | .ok (true, result) =>
    result ≠ path ∧
      ∃ b, getBinding t side path = some b ∧
        result = rebase (b.path side) (b.reversePath side) path

/-- The substitution that `path` asks for, if it asks for one, fits the path buffer. -/
def Fitting (t : Bindings) (side : Side) (path : CString) : Prop :=
  ∀ b, getBinding t side path = some b → b.needSubstitution = true →
    Fits (b.path side) (b.reversePath side) path

theorem confined_iff {t : Bindings} (hwf : t.WellFormed) (side : Side) (path : CString) :
    Confined t side path ↔ Fitting t side path := by
  cases hget : getBinding t side path with
  | none => simp [Confined, Fitting, substituteBinding_none hget, hget]
  | some b =>
      obtain ⟨-, hb, hpath, hin⟩ := getBinding_spec hwf hget
      cases hneed : b.needSubstitution with
      | false =>
          simp only [Confined, substituteBinding_symmetric hget hneed, true_iff]
          intro b' hget' hneed'
          rw [hget, Option.some.injEq] at hget'
          subst hget'
          rw [hneed] at hneed'
          cases hneed'
      | true =>
          have hfitting : Fitting t side path ↔ Fits (b.path side) (b.reversePath side) path := by
            constructor
            · intro h
              exact h b hget hneed
            · intro h b' hget' _
              rw [hget, Option.some.injEq] at hget'
              exact hget' ▸ h
          rw [hfitting]
          by_cases hfits : Fits (b.path side) (b.reversePath side) path
          · simp only [Confined, substituteBinding_of_fits hwf hget hneed hfits, hfits, iff_true]
            exact ⟨rebase_ne (hb.path side) (hb.reversePath side) (hb.path_ne side hneed) hpath hin,
              b, hget, rfl⟩
          · simp [Confined, substituteBinding_of_not_fits hget hneed hfits, hfits]

theorem substituteBinding_within {t : Bindings} (hwf : t.WellFormed) {side : Side}
    {path result : CString} {substituted : Bool}
    (h : substituteBinding t side path = .ok (substituted, result))
    (hfitting : Fitting t side path) :
    ∃ b, getBinding t side path = some b ∧ b ∈ t.list side ∧
      Within (stem (b.reversePath side)) result := by
  cases hget : getBinding t side path with
  | none =>
      rw [substituteBinding_none hget] at h
      cases h
  | some b =>
      obtain ⟨hmem, hb, hpath, hin⟩ := getBinding_spec hwf hget
      refine ⟨b, rfl, hmem, ?_⟩
      cases hneed : b.needSubstitution with
      | false =>
          rw [substituteBinding_symmetric hget hneed] at h
          cases h
          have hsame : b.reversePath side = b.path side := by
            have heq : b.host = b.guest := by
              by_contra hne
              rw [hb.need.mpr hne] at hneed
              cases hneed
            cases side <;> simp [Binding.path, Binding.reversePath, heq]
          rw [hsame]
          obtain ⟨rest, hrest⟩ := stem_isInitial path
          by_cases hlast : path.getLast? = some '/'
          · rw [stem_append_slash hlast]
            exact hin.trans (.inr ⟨[], by simp⟩)
          · rwa [stem_eq_self hlast] at hin
      | true =>
          rw [substituteBinding_of_fits hwf hget hneed (hfitting b hget hneed)] at h
          cases h
          exact within_rebase (hb.path side) (hb.reversePath side) (hb.path_ne side hneed) hpath hin

/-! ## The translation -/

/-- A successful translation is a canonicalization and a substitution, unless an extension has
answered; the extensions see the result last. -/
theorem translatePath_ok {dirFd : DirFd} {userPath h : CString} {derefFinal : Bool} {w w' : World}
    (hrun : translatePath dirFd userPath derefFinal w = (.ok h, w')) :
    ∃ h₀ status, notifyExtensions (fun e path => e.translatedPath path) w.tracee.extensions h₀ =
        .ok (status, h) ∧
      ((∃ base status, notifyExtensions (fun e base => e.guestPath base userPath)
          w.tracee.extensions base = .ok (status, h₀) ∧ 0 < status) ∨
        ∃ joined g substituted, canonicalize joined derefFinal ['/'] 0 w = (.ok g, w') ∧
          substituteBinding w'.tracee.bindings .guest g = .ok (substituted, h₀)) := by
  simp only [translatePath, Comp.bind_eq_ok, Comp.get_run, Prod.mk.injEq, Except.ok.injEq,
    Comp.lift_eq_ok, Comp.pure_eq_ok, Prod.exists] at hrun
  obtain ⟨_, _, ⟨rfl, rfl⟩, base, w₁, hbase, status, base', w₂, ⟨hguest, rfl⟩, h₀, w₃, hres, status',
    h', w₄, ⟨htrans, rfl⟩, rfl, rfl⟩ := hrun
  obtain ⟨-, rfl⟩ := Prod.mk.injEq _ _ _ _ ▸ hbase
  refine ⟨h₀, status', htrans, ?_⟩
  by_cases hstatus : status > 0
  · rw [translateUnlessAnswered, if_pos hstatus, Comp.pure_eq_ok] at hres
    obtain ⟨rfl, rfl⟩ := hres
    exact .inl ⟨base, status, hguest, hstatus⟩
  · rw [translateUnlessAnswered, if_neg hstatus, translateCanonical] at hres
    split_ifs at hres with habs
    · simp at hres
    · simp only [Comp.bind_eq_ok, Comp.get_run, Prod.mk.injEq, Except.ok.injEq,
        Comp.lift_eq_ok, Comp.pure_eq_ok, Prod.exists] at hres
      obtain ⟨joined, w₄, ⟨-, rfl⟩, g, w₅, hcanon, _, _, ⟨rfl, rfl⟩, substituted, h₁, w₆,
        ⟨hsub, rfl⟩, rfl, rfl⟩ := hres
      exact .inr ⟨joined, g, substituted, hcanon, hsub⟩

/-- **Confinement.** `substitute_binding` keeps its promise exactly when the result fits the path
buffer; and what `translate_path` returns lies under the host side of a binding, up to what the
extensions make of it, when the substitution of the canonical guest path fits. -/
theorem substituteBinding_confined_iff_fitting {t : Bindings} (hwf : t.WellFormed) :
    (∀ side path, path.length < pathMax → (Confined t side path ↔ Fitting t side path)) ∧
      ∀ dirFd userPath derefFinal h w w', w'.tracee.bindings = t →
        translatePath dirFd userPath derefFinal w = (.ok h, w') →
        (∃ base status h₀, notifyExtensions (fun e base => e.guestPath base userPath)
          w.tracee.extensions base = .ok (status, h₀) ∧ 0 < status) ∨
        ∃ joined g, canonicalize joined derefFinal ['/'] 0 w = (.ok g, w') ∧
          (Fitting t .guest g →
            ∃ b ∈ t.guest, ∃ h₀ status, Within (stem b.host) h₀ ∧
              notifyExtensions (fun e path => e.translatedPath path) w.tracee.extensions h₀ =
                .ok (status, h)) := by
  refine ⟨fun side path _ => confined_iff hwf side path, ?_⟩
  intro dirFd userPath derefFinal h w w' ht hrun
  obtain ⟨h₀, status, htrans, hcase⟩ := translatePath_ok hrun
  rcases hcase with ⟨base, s, hguest, hs⟩ | ⟨joined, g, substituted, hcanon, hsub⟩
  · exact .inl ⟨base, s, h₀, hguest, hs⟩
  · refine .inr ⟨joined, g, hcanon, fun hfitting => ?_⟩
    rw [ht] at hsub
    obtain ⟨b, -, hmem, hin⟩ := substituteBinding_within hwf hsub hfitting
    exact ⟨b, hmem, h₀, status, hin, htrans⟩

/-! ## A rootfs that leaves no room -/

/-- The binding of a rootfs whose host path has `n + 1` characters. -/
def longRoot (n : Nat) : Binding := ⟨0, '/' :: List.replicate n 'r', ['/'], true⟩

/-- The binding tree of `proot -r` with that rootfs. -/
def longRootTree (n : Nat) : Bindings := ⟨[], [longRoot n], [longRoot n], 1⟩

theorem longRoot_host_length (n : Nat) : (longRoot n).host.length = n + 1 := by simp [longRoot]

theorem longRoot_wellFormed {n : Nat} (hpos : 0 < n) : (longRoot n).WellFormed := by
  have hlast : (longRoot n).host.getLast? ≠ some '/' := by
    simp only [longRoot, List.getLast?_cons, List.getLast?_replicate]
    rw [if_neg (by omega)]
    decide
  have hne : (longRoot n).host ≠ ['/'] := fun h => hlast (by rw [h]; rfl)
  exact ⟨⟨rfl, .inr hlast⟩, ⟨rfl, .inl rfl⟩, ⟨fun _ => hne, fun _ => rfl⟩⟩

theorem longRootTree_wellFormed {n : Nat} (hpos : 0 < n) : (longRootTree n).WellFormed := by
  have hb := longRoot_wellFormed hpos
  exact ⟨by simpa [longRootTree] using hb, by simpa [longRootTree] using hb, longRoot n, rfl, rfl⟩

def etc : CString := ['/', 'e', 't', 'c']

theorem getBinding_etc (n : Nat) : getBinding (longRootTree n) .guest etc = some (longRoot n) := rfl

theorem etc_not_fits {n : Nat} (hge : pathMax ≤ n + 5) :
    ¬ Fits (longRoot n).guest (longRoot n).host etc := by
  have hn : n ≠ 0 := by
    unfold pathMax at hge
    omega
  simp only [Fits, longRoot, etc, List.length_cons, List.length_replicate, List.length_nil,
    if_true]
  omega

def longRootWorld (n : Nat) : World where
  tracee := ⟨1, longRootTree n, ['/'], none, none, []⟩
  host := ⟨fun _ => .ok .dir, fun _ => .error .einval, fun _ => .error .enoent, fun _ => false,
    fun _ _ => .error .eacces, none, false, fun _ => none⟩

theorem substituteBinding_etc {n : Nat} (hge : pathMax ≤ n + 5) :
    substituteBinding (longRootTree n) .guest etc = .ok (true, etc) :=
  substituteBinding_of_not_fits (getBinding_etc n) rfl (etc_not_fits hge)

/-- Under a rootfs of seven characters, "/etc" is confined. -/
theorem substituteBinding_confined_short_root :
    Confined (longRootTree 6) .guest etc ∧ Fits (longRoot 6).guest (longRoot 6).host etc := by
  have hfits : Fits (longRoot 6).guest (longRoot 6).host etc := by decide
  refine ⟨((substituteBinding_confined_iff_fitting
    (longRootTree_wellFormed (by decide))).1 .guest etc (by decide)).mpr ?_, hfits⟩
  intro b hget _
  rw [getBinding_etc, Option.some.injEq] at hget
  exact hget ▸ hfits

theorem translatePath_etc {n : Nat} (hge : pathMax ≤ n + 5) :
    (translatePath .cwd etc true (longRootWorld n)).1 = .ok etc := by
  have hsub : substituteBinding (longRootWorld n).tracee.bindings .guest etc = .ok (true, etc) :=
    substituteBinding_etc hge
  have hjoin : joinPaths [some ['/'], some etc] = .ok etc := rfl
  have hcanon : canonicalize etc true ['/'] 0 (longRootWorld n) = (.ok etc, longRootWorld n) := rfl
  have htrans : translateCanonical ['/'] etc true (longRootWorld n) =
      (.ok etc, longRootWorld n) := by
    rw [translateCanonical, if_neg (by decide)]
    simp only [hjoin, Comp.bind_run, Comp.lift_ok, hcanon, Comp.get_run, hsub, Comp.pure_run]
  have hunless : translateUnlessAnswered 0 ['/'] etc true (longRootWorld n) =
      (.ok etc, longRootWorld n) := htrans
  have hbase : basePath (longRootWorld n) .cwd etc = .ok ['/'] := rfl
  have hext : (longRootWorld n).tracee.extensions = [] := rfl
  simp only [translatePath, Comp.bind_run, Comp.get_run, Comp.liftFailure, hbase, hext,
    notifyExtensions, Comp.lift_ok, hunless, Comp.pure_run]

/-- Under a rootfs of 4093 characters, "/etc" is reported as substituted but remains the guest
path, and `translate_path` succeeds with "/etc" of the host, which no binding covers. -/
theorem substituteBinding_not_confined :
    (longRootTree 4092).WellFormed ∧ (longRoot 4092).host.length < pathMax ∧
      etc.length < pathMax ∧
      ¬ Confined (longRootTree 4092) .guest etc ∧
      (translatePath .cwd etc true (longRootWorld 4092)).1 = .ok etc ∧
      ∀ b ∈ (longRootTree 4092).guest, ¬ Within (stem b.host) etc := by
  refine ⟨longRootTree_wellFormed (by decide), by rw [longRoot_host_length]; decide,
    by decide, ?_,
    translatePath_etc (by decide), ?_⟩
  · simp [Confined, substituteBinding_etc (n := 4092) (by decide)]
  · intro b hb hin
    obtain rfl : b = longRoot 4092 := List.mem_singleton.mp hb
    have hroot := longRoot_wellFormed (n := 4092) (by decide)
    have hlen : (stem (longRoot 4092).host).length ≤ etc.length := by
      rcases hin with h | h
      · exact Nat.le_of_eq (congrArg _ h)
      · exact Nat.le_of_lt h.length_lt
    rw [hroot.host.stem_of_ne (hroot.need.mp rfl)] at hlen
    simp only [longRoot, List.length_cons, List.length_replicate] at hlen
    exact absurd hlen (by decide)

end Improot.Path
