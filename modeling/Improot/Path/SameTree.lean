import Improot.Path.TranslateSpec

/-!
# Trees that translate alike

Path translation reads the bindings through two functions only: the substitution of a guest path,
and the way back of a host path. Two trees for which these are the same translate every path alike.
-/

namespace Improot.Path

def World.withTree (w : World) (t : Bindings) : World :=
  { w with tracee := { w.tracee with bindings := t } }

@[simp] theorem World.withTree_bindings (w : World) (t : Bindings) :
    (w.withTree t).tracee.bindings = t := rfl

/-- Two worlds that differ in their trees, which nothing can tell apart. -/
structure SameTree (w w' : World) : Prop where
  glueType : w.tracee.glueType = none
  rest : ∃ t, w' = w.withTree t
  guest : ∀ path, substituteBinding w'.tracee.bindings .guest path =
    substituteBinding w.tracee.bindings .guest path
  host : ∀ path referrer, detranslatePath w' path referrer = detranslatePath w path referrer

/-- Two computations, each in its world, give the same and change nothing. -/
def Comp.Same {α : Type} (w w' : World) (x x' : Comp α) : Prop :=
  ∃ result, x w = (result, w) ∧ x' w' = (result, w')

namespace Comp.Same

variable {α β : Type} {w w' : World}

theorem bind {x x' : Comp α} {f f' : α → Comp β} (hx : Same w w' x x')
    (hf : ∀ a, Same w w' (f a) (f' a)) : Same w w' (x >>= f) (x' >>= f') := by
  obtain ⟨result, hrun, hrun'⟩ := hx
  cases result with
  | error e => exact ⟨.error e, by rw [Comp.bind_run, hrun], by rw [Comp.bind_run, hrun']⟩
  | ok a =>
      obtain ⟨result, hf, hf'⟩ := hf a
      exact ⟨result, by rw [Comp.bind_run, hrun]; exact hf, by rw [Comp.bind_run, hrun']; exact hf'⟩

theorem get_bind {f f' : World → Comp β} (h : Same w w' (f w) (f' w')) :
    Same w w' (Comp.get >>= f) (Comp.get >>= f') := h

theorem pure (a : α) : Same w w' (Pure.pure a : Comp α) (Pure.pure a) := ⟨.ok a, rfl, rfl⟩

theorem fail (e : Failure) : Same w w' (Comp.fail e : Comp α) (Comp.fail e) := ⟨.error e, rfl, rfl⟩

theorem lift {x x' : Except Errno α} (h : x' = x) : Same w w' (Comp.lift x) (Comp.lift x') := by
  rw [h]
  cases x with
  | error e => exact ⟨.error (.errno e), rfl, rfl⟩
  | ok a => exact ⟨.ok a, rfl, rfl⟩

theorem liftFailure {x x' : Except Failure α} (h : x' = x) :
    Same w w' (Comp.liftFailure x) (Comp.liftFailure x') := by
  rw [h]
  exact ⟨x, rfl, rfl⟩

theorem fst {x x' : Comp α} (h : Same w w' x x') : (x' w').1 = (x w).1 := by
  obtain ⟨result, hrun, hrun'⟩ := h
  rw [hrun, hrun']

end Comp.Same

/-! ## What is the same -/

section SameTree

variable {w w' : World} (h : SameTree w w')

include h

theorem SameTree.worlds : w'.host = w.host ∧ w'.tracee.pid = w.tracee.pid ∧
    w'.tracee.cwd = w.tracee.cwd ∧ w'.tracee.glueType = w.tracee.glueType ∧
    w'.tracee.extensions = w.tracee.extensions := by
  obtain ⟨t, rfl⟩ := h.rest
  exact ⟨rfl, rfl, rfl, rfl, rfl⟩

theorem substituteBindingStat_same (finality : Finality) (level : Nat) (guestPath : CString) :
    Comp.Same w w' (substituteBindingStat finality level guestPath)
      (substituteBindingStat finality level guestPath) := by
  obtain ⟨hhost, -, -, hglue, hextensions⟩ := h.worlds
  refine .get_bind (.bind (.lift (h.guest _)) fun r => ?_)
  refine .bind (.lift ?_) fun hostPath => .bind ?_ fun type => .bind (.lift rfl) fun _ => .pure _
  · unfold notifyHostPath
    rw [hglue, hextensions]
  · unfold statOrGlue
    dsimp only [Comp.Same]
    rw [hglue, hhost, h.glueType]
    cases hostStat w.host hostPath with
    | ok | error => exact ⟨_, rfl, rfl⟩

theorem dereference_same (finality : Finality) (guestPath component hostPath : CString) :
    dereference w' finality guestPath component hostPath =
      dereference w finality guestPath component hostPath := by
  obtain ⟨hhost, hpid, -⟩ := h.worlds
  have hbase : procBase w' guestPath = procBase w guestPath := by
    unfold procBase
    rw [h.guest]
  have hproc : ∀ base comparison, readlinkProc w' base component comparison =
      readlinkProc w base component comparison := by
    intro base comparison
    unfold readlinkProc
    rw [hpid, hhost]
  have hlink : readlinkHost w' hostPath = readlinkHost w hostPath := by
    unfold readlinkHost
    simp only [hhost, h.host]
  unfold dereference
  simp only [hbase, hproc, hlink]

theorem canonicalizeLoop_same {recurse : CString → CString → Nat → Comp CString}
    (hrec : ∀ target base level,
      Comp.Same w w' (recurse target base level) (recurse target base level))
    (derefFinal : Bool) (level fuel : Nat) (cursor guestPath : CString) (symlinksFollowed : Nat) :
    Comp.Same w w' (canonicalizeLoop recurse derefFinal level fuel cursor guestPath symlinksFollowed)
      (canonicalizeLoop recurse derefFinal level fuel cursor guestPath symlinksFollowed) := by
  induction fuel generalizing cursor guestPath symlinksFollowed with
  | zero => exact .fail _
  | succ fuel ih =>
      rw [canonicalizeLoop]
      refine .bind (.lift rfl) ?_
      rintro ⟨finality, component, rest⟩
      -- where a turn leads, and the rest of the loop from there
      have hgo : ∀ (ending : Finality) next sf,
          Comp.Same w w' (if finality.isFinal = true then pure (ending, next)
            else canonicalizeLoop recurse derefFinal level fuel rest next sf)
          (if finality.isFinal = true then pure (ending, next)
            else canonicalizeLoop recurse derefFinal level fuel rest next sf) := by
        intro ending next sf
        split_ifs
        · exact .pure _
        · exact ih _ _ _
      dsimp only
      by_cases hdot : component = ['.']
      · simp only [if_pos hdot]
        exact hgo _ _ _
      simp only [if_neg hdot]
      by_cases hdots : component = ['.', '.']
      · simp only [if_pos hdots]
        exact hgo _ _ _
      simp only [if_neg hdots]
      refine .bind (.lift rfl) fun scratch => ?_
      refine .bind (substituteBindingStat_same h _ _ _) ?_
      rintro ⟨isLink, hostPath⟩
      dsimp only
      split
      · exact .bind (.lift rfl) fun _ => hgo _ _ _
      · refine .get_bind (.bind (.liftFailure (dereference_same h _ _ _ _)) fun referee => ?_)
        cases referee with
        | pinned result => exact .pure _
        | path target =>
            refine .bind (hrec _ _ _) fun next => ?_
            refine .bind (substituteBindingStat_same h _ _ _) ?_
            rintro ⟨isLink', hostPath'⟩
            dsimp only
            split
            · exact .fail _
            · exact hgo _ _ _

theorem canonicalize_same (userPath : CString) (derefFinal : Bool) (base : CString) (level : Nat) :
    Comp.Same w w' (canonicalize userPath derefFinal base level)
      (canonicalize userPath derefFinal base level) := by
  unfold canonicalize
  generalize maxSymlinks + 2 = budget
  induction budget generalizing userPath base derefFinal level with
  | zero => exact .fail _
  | succ budget ih =>
      rw [canonicalizeAt]
      split_ifs
      · exact .fail _
      · exact .fail _
      · exact .fail _
      · exact .bind (canonicalizeLoop_same h (fun _ _ _ => ih _ _ _ _) _ _ _ _ _ _)
          fun _ => .lift rfl
      · exact .bind (canonicalizeLoop_same h (fun _ _ _ => ih _ _ _ _) _ _ _ _ _ _)
          fun _ => .lift rfl

theorem basePath_same (dirFd : DirFd) (userPath : CString) :
    basePath w' dirFd userPath = basePath w dirFd userPath := by
  obtain ⟨hhost, -, hcwd, -⟩ := h.worlds
  unfold basePath readlinkProcPidFd getcwd2
  simp only [hhost, hcwd, h.host]

theorem translatePath_same (dirFd : DirFd) (userPath : CString) (derefFinal : Bool) :
    Comp.Same w w' (translatePath dirFd userPath derefFinal)
      (translatePath dirFd userPath derefFinal) := by
  obtain ⟨-, -, -, -, hextensions⟩ := h.worlds
  unfold translatePath
  refine .get_bind (.bind (.liftFailure (basePath_same h _ _)) fun base => ?_)
  refine .bind (.lift (by rw [hextensions])) fun answer => ?_
  refine .bind ?_ fun result => .bind (.lift (by rw [hextensions])) fun _ => .pure _
  unfold translateUnlessAnswered translateCanonical
  split_ifs
  · exact .pure _
  · exact .fail _
  · refine .bind (.lift rfl) fun _ => .bind (canonicalize_same h _ _ _ _) fun _ => ?_
    exact .get_bind (.bind (.lift (h.guest _)) fun _ => .pure _)

end SameTree

end Improot.Path
