import Improot.Lib.Except
import Improot.Path.Terminates

/-!
# Nothing exceeds the buffers

What the functions of `path/` leave in a buffer of `PATH_MAX` bytes fits it, with its terminator.
-/

namespace Improot.Path

/-! ## Substitution and detranslation -/

theorem length_substitutePathPrefix {path newPrefix : CString} {oldLength newLength : Nat}
    (h : path.length < pathMax) :
    (substitutePathPrefix path oldLength newPrefix newLength).2.length < pathMax := by
  have hone : (1 : Nat) < pathMax := by decide
  have htake : (newPrefix.take newLength).length ≤ newLength := List.length_take_le _ _
  unfold substitutePathPrefix
  split_ifs
  · rw [List.length_drop]
    omega
  · exact hone
  · exact h
  · rw [List.length_append]
    omega
  · show (newPrefix.take newLength).length < pathMax
    omega
  · exact h
  · rw [List.length_append, List.length_drop]
    omega

variable {g result : CString} {w : World}

theorem substituteBinding_ok {t : Bindings} {side : Side} {path : CString}
    {substituted : Bool} (hlength : path.length < pathMax)
    (h : substituteBinding t side path = .ok (substituted, result)) :
    result.length < pathMax ∧ (substituted = false → result = path) := by
  unfold substituteBinding at h
  split at h
  · cases h
  · split at h
    · cases h
      exact ⟨length_substitutePathPrefix hlength, nofun⟩
    · cases h
      exact ⟨hlength, fun _ => rfl⟩

/-- The status of `detranslate_path`: the size of what it left in the buffer, or zero. -/
def Sized (path : CString) (status : Nat) (result : CString) : Prop :=
  result.length < pathMax ∧ (status = 0 ∧ result = path ∨ status = result.length + 1)

theorem removeRoot_sized {t : Bindings} {sanityCheck : Bool} {path : CString}
    {status : Nat} (hlength : path.length < pathMax)
    (h : removeRoot t sanityCheck path = .ok (status, result)) : Sized path status result := by
  unfold removeRoot at h
  split at h
  · cases h
    refine ⟨?_, .inr rfl⟩
    rw [List.length_drop]
    omega
  · cases h
    exact ⟨by decide, .inr rfl⟩
  · split at h
    · cases h
    · cases h
      exact ⟨hlength, .inl ⟨rfl, rfl⟩⟩

/-- What `readlink_proc` makes up fits. -/
def Action.Fitting : Action → Prop
  | .default => True
  | .canonicalize result | .dontCanonicalize result => result.length < pathMax

theorem fitting_fits {action : CString → Action} {path : CString} {r : Action}
    (haction : path.length < pathMax → (action path).Fitting)
    (h : fitting action path = .ok r) : r.Fitting := by
  unfold fitting at h
  split at h
  · cases h
  · rename_i hlength
    cases h
    exact haction (Nat.lt_of_not_le hlength)

theorem readlinkProc_fits {base component : CString} {comparison : Comparison}
    {r : Action} (h : readlinkProc w base component comparison = .ok r) : r.Fitting := by
  have hcanonicalize : ∀ path, fitting .canonicalize path = .ok r → r.Fitting := by
    intro path
    exact fitting_fits fun hlength => hlength
  have hpinned : ∀ path, fitting .dontCanonicalize path = .ok r → r.Fitting := by
    intro path
    exact fitting_fits fun hlength => hlength
  have hdefault : Except.ok Action.default = (.ok r : Except Errno Action) → r.Fitting := by
    intro hr
    cases hr
    trivial
  unfold readlinkProc at h
  grind

theorem readlinkProc2_length {referer : CString}
    (h : readlinkProc2 w referer = .ok (some result)) : result.length < pathMax := by
  simp only [readlinkProc2] at h
  split at h
  · cases h
  split at h
  · cases h
  split at h
  · rename_i hlink
    split at h
    · cases h
    · cases h
      exact readlinkProc_fits hlink
  · cases h

theorem detranslatePath_sized {path : CString} {referrer : Option CString}
    {status : Nat} (h : detranslatePath w path referrer = .ok (status, result)) :
    Sized path status result := by
  obtain ⟨hlength, ⟨rfl, rfl⟩ | ⟨rfl, r, -, hlink⟩ | ⟨sanityCheck, followBinding, h⟩⟩ :=
    detranslatePath_cases h
  · exact ⟨hlength, .inl ⟨rfl, rfl⟩⟩
  · exact ⟨readlinkProc2_length hlink, .inr rfl⟩
  · unfold detranslated at h
    split at h
    · split at h
      · rename_i hsubst
        cases h
        obtain ⟨hresult, hsame⟩ := substituteBinding_ok hlength hsubst
        exact ⟨hresult, .inl ⟨rfl, hsame rfl⟩⟩
      · rename_i hsubst
        cases h
        exact ⟨(substituteBinding_ok hlength hsubst).1, .inr rfl⟩
      · exact removeRoot_sized hlength h
    · exact removeRoot_sized hlength h

/-! ## Canonicalization -/

theorem joinPath_length {path s : CString} (h : joinPath result path = .ok s) :
    s.length + 1 < pathMax := by
  unfold joinPath at h
  split_ifs at h with hsep hlong hsame hlong' hlong''
  · cases h
    rw [List.length_append, List.length_cons]
    omega
  · cases h
    rw [List.length_append, List.length_tail]
    have hpos : 0 < path.length := by
      refine List.length_pos_of_ne_nil ?_
      rintro rfl
      cases hsame.2.2
    omega
  · cases h
    rw [List.length_append]
    omega

theorem joinPaths_length {path path' s : CString}
    (h : joinPaths [some path, some path'] = .ok s) : s.length + 1 < pathMax := by
  simp only [joinPaths, List.foldlM_cons, List.foldlM_nil] at h
  rw [Lib.bind_eq_ok] at h
  obtain ⟨first, -, h⟩ := h
  rw [Lib.bind_eq_ok] at h
  obtain ⟨second, hsecond, h⟩ := h
  cases h
  exact joinPath_length hsecond

theorem popComponent_length (path : CString) : (popComponent path).length ≤ path.length := by
  unfold popComponent
  dsimp only
  split
  · exact Nat.le_refl _
  · exact List.length_take_le' ..

def Turned.path : Turned → CString
  | .done _ path => path
  | .again _ path => path
  | .follow _ _ _ path => path

theorem turned_path (finality : Finality) (cursor path : CString) :
    (turned finality cursor path).path = path := by
  unfold turned
  split <;> rfl

theorem dereference_pinned_length {finality : Finality} {path component hostPath : CString}
    (h : dereference w finality path component hostPath = .ok (.pinned result)) :
    result.length < pathMax := by
  unfold dereference at h
  dsimp only at h
  split at h
  · cases h
  · cases h
  · rename_i hlink
    split at h
    · cases h
      exact readlinkProc_fits hlink
    · cases hread : readlinkHost w hostPath <;> simp [hread, Except.map] at h
  · cases hread : readlinkHost w hostPath <;> simp [hread, Except.map] at h

section

variable {α : Type}

theorem Comp.Spec.any (x : Comp α) : Comp.Spec (fun _ => True) x fun _ => True :=
  fun _ _ => ⟨trivial, fun _ _ => trivial⟩

end

theorem joinPaths_spec (path path' : CString) :
    Comp.Spec (fun _ => True) (Comp.lift (joinPaths [some path, some path']))
      fun s => s.length < pathMax :=
  .lift fun _ h => Nat.lt_of_succ_lt (joinPaths_length h)

theorem canonicalizeTurn_length (derefFinal : Bool) (level : Nat) (cursor : CString)
    (hg : g.length < pathMax) :
    Comp.Spec (fun _ => True) (canonicalizeTurn derefFinal level cursor g)
      fun r => r.path.length < pathMax := by
  have hpop : (popComponent g).length < pathMax := Nat.lt_of_le_of_lt (popComponent_length g) hg
  have hgoes : ∀ (finality ending : Finality) rest path, path.length < pathMax →
      Comp.Spec (fun _ => True)
        (pure (if finality.isFinal = true then .done ending path else .again rest path))
        fun r : Turned => r.path.length < pathMax := by
    intro finality ending rest path hpath
    refine .pure ?_
    split
    · exact hpath
    · exact hpath
  unfold canonicalizeTurn
  refine (Comp.Spec.any _).bind ?_
  rintro ⟨finality, component, rest⟩ -
  dsimp only
  split
  · exact hgoes _ _ _ _ hg
  split
  · exact hgoes _ _ _ _ hpop
  refine (Comp.Spec.any _).bind ?_
  rintro scratch -
  refine (Comp.Spec.any _).bind ?_
  rintro ⟨isLink, hostPath⟩ -
  dsimp only
  split
  · refine (joinPaths_spec _ _).bind fun path hpath => .pure ?_
    rwa [turned_path]
  · refine (Comp.Spec.any _).bind fun w _ => ?_
    refine Comp.Spec.bind (.liftFailure fun referee href => href) ?_
    intro referee href
    cases referee with
    | pinned result => exact .pure (dereference_pinned_length href)
    | path target => exact .pure hg

theorem canonicalizeReturn_length (level : Nat) (finality : Finality) (cursor : CString)
    (hg : g.length < pathMax) :
    Comp.Spec (fun _ => True) (canonicalizeReturn level finality cursor g)
      fun r => r.path.length < pathMax := by
  unfold canonicalizeReturn
  refine (Comp.Spec.any _).bind ?_
  rintro ⟨isLink, hostPath⟩ -
  dsimp only
  split
  · exact .fail _
  · refine .pure ?_
    rwa [turned_path]

theorem canonicalizeLoop_length {recurse : CString → CString → Nat → Comp CString}
    (hrec : ∀ target base level,
      Comp.Spec (fun _ => True) (recurse target base level) fun g => g.length < pathMax)
    (derefFinal : Bool) (level fuel : Nat) (cursor : CString) (hg : g.length < pathMax) (n : Nat) :
    Comp.Spec (fun _ => True) (canonicalizeLoop recurse derefFinal level fuel cursor g n)
      fun r => r.2.length < pathMax := by
  induction fuel generalizing cursor g n with
  | zero => exact .fail _
  | succ fuel ih =>
      rw [canonicalizeLoop_eq]
      refine (canonicalizeTurn_length derefFinal level cursor hg).bind fun r hr => ?_
      cases r with
      | done finality path => exact .pure hr
      | again rest path => exact ih rest hr n
      | follow finality rest target path =>
          refine (hrec target path _).bind fun result hresult => ?_
          refine (canonicalizeReturn_length level finality rest hresult).bind fun r hr => ?_
          cases r with
          | done finality path => exact .pure hr
          | again rest path => exact ih rest hr (n + 1)
          | follow finality rest target path => exact ih rest hr (n + 1)

theorem appendFinality_length {level : Nat} {finality : Finality} {path : CString}
    (hpath : path.length < pathMax) (h : appendFinality level finality path = .ok g) :
    g.length < pathMax := by
  unfold appendFinality at h
  split at h
  · split at h
    · exact Nat.lt_of_succ_lt (joinPaths_length h)
    · exact Nat.lt_of_succ_lt (joinPaths_length h)
    · cases h
      exact hpath
  · cases h
    exact hpath

theorem canonicalizeAt_length (budget : Nat) (userPath : CString) (derefFinal : Bool)
    (base : CString) (level : Nat) :
    Comp.Spec (fun _ => True) (canonicalizeAt budget userPath derefFinal base level)
      fun g => g.length < pathMax := by
  induction budget generalizing userPath derefFinal base level with
  | zero => exact .fail _
  | succ budget ih =>
      rw [canonicalizeAt]
      split_ifs with hlevel hlong hrelative hrelative'
      · exact .fail _
      · exact .fail _
      · exact .fail _
      · refine (canonicalizeLoop_length (fun target base level => ih target true base level)
          derefFinal level _ userPath (Nat.lt_of_not_le hlong) 0).bind ?_
        rintro ⟨finality, path⟩ hpath
        exact .lift fun g hg => appendFinality_length hpath hg
      · refine (canonicalizeLoop_length (fun target base level => ih target true base level)
          derefFinal level _ userPath (by decide) 0).bind ?_
        rintro ⟨finality, path⟩ hpath
        exact .lift fun g hg => appendFinality_length hpath hg

theorem canonicalize_length {userPath base : CString} {derefFinal : Bool} {level : Nat}
    {w' : World} (h : canonicalize userPath derefFinal base level w = (.ok g, w')) :
    g.length < pathMax :=
  ((canonicalizeAt_length _ userPath derefFinal base level).ok trivial h).2

end Improot.Path
