import Improot.Path.Canon

/-!
# Canonicalization ends

The loop of `canonicalize` and its recursion, as a relation that nothing bounds: a run is a finite
derivation, which counts the links that are nested in one another.  Every call has a run, and it is
what `canonicalize` computes.  Each turn eats up a part of the path, and each link that is followed
raises the level of the recursion, which ends the run beyond `MAXSYMLINKS`.
-/

namespace Improot.Path

/-! ## A turn of the loop -/

inductive Turned where
  /-- the loop is over -/
  | done (finality : Finality) (guestPath : CString)
  /-- the loop goes on -/
  | again (cursor guestPath : CString)
  /-- the target of a link is to be canonicalized from `guestPath` -/
  | follow (finality : Finality) (cursor target guestPath : CString)

def turned (finality : Finality) (cursor guestPath : CString) : Turned :=
  if finality.isFinal then .done finality guestPath else .again cursor guestPath

def canonicalizeTurn (derefFinal : Bool) (level : Nat) (cursor guestPath : CString) :
    Comp Turned := do
  let (finality, component, cursor) ← Comp.lift (nextComponent cursor)
  if component = ['.'] then
    pure (if finality.isFinal then .done .finalDot guestPath else .again cursor guestPath)
  else if component = ['.', '.'] then
    let guestPath := popComponent guestPath
    pure (if finality.isFinal then .done .finalSlash guestPath else .again cursor guestPath)
  else
    let scratchPath ← Comp.lift (joinPaths [some guestPath, some component])
    let (isLink, hostPath) ← substituteBindingStat finality level scratchPath
    if ¬ isLink ∨ (finality = .finalNormal ∧ ¬ derefFinal) then
      let guestPath ← Comp.lift (joinPaths [some guestPath, some component])
      pure (turned finality cursor guestPath)
    else
      let w ← Comp.get
      let referee ← Comp.liftFailure (dereference w finality guestPath component hostPath)
      match referee with
      | .pinned result => pure (.done finality result)
      | .path target => pure (.follow finality cursor target guestPath)

/-- The rest of the turn, when the recursion came back with `guestPath`. -/
def canonicalizeReturn (level : Nat) (finality : Finality) (cursor guestPath : CString) :
    Comp Turned := do
  let (isLink, _) ← substituteBindingStat finality level guestPath
  if isLink ∧ ¬ isFdLink guestPath then Comp.fail .abort
  else pure (turned finality cursor guestPath)

/-- What `canonicalize` checks first: the path it starts from, or its error. -/
def canonicalizeEntry (userPath guestPath : CString) (level : Nat) : Except Errno CString :=
  if level > maxSymlinks then .error .eloop
  else if guestPath.length ≥ pathMax then .error .enametoolong
  else if userPath.head? ≠ some '/' ∧ guestPath.head? ≠ some '/' then .error .einval
  else .ok (if userPath.head? ≠ some '/' then guestPath else ['/'])

abbrev Walked := Except Failure (Finality × CString) × World

/-! ## Runs -/

/-- **The runs of the loop**, with the number of links that are nested in one another. -/
inductive Walks : (derefFinal : Bool) → (level : Nat) → (cursor guestPath : CString) →
    (symlinksFollowed : Nat) → World → (nested : Nat) → Walked → Prop
  | failed {derefFinal level cursor g n w w' e} :
      canonicalizeTurn derefFinal level cursor g w = (.error e, w') →
      Walks derefFinal level cursor g n w 0 (.error e, w')
  | done {derefFinal level cursor g n w w' finality result} :
      canonicalizeTurn derefFinal level cursor g w = (.ok (.done finality result), w') →
      Walks derefFinal level cursor g n w 0 (.ok (finality, result), w')
  | again {derefFinal level cursor cursor' g g' n w w' nested r} :
      canonicalizeTurn derefFinal level cursor g w = (.ok (.again cursor' g'), w') →
      Walks derefFinal level cursor' g' n w' nested r →
      Walks derefFinal level cursor g n w nested r
  /-- the recursion doesn't start -/
  | refused {derefFinal level cursor cursor' g g' n w w' finality target e} :
      canonicalizeTurn derefFinal level cursor g w = (.ok (.follow finality cursor' target g'), w') →
      canonicalizeEntry target g' (level + (n + 1)) = .error e →
      Walks derefFinal level cursor g n w 1 (.error (.errno e), w')
  /-- the recursion fails -/
  | lost {derefFinal level cursor cursor' g g' n w w₁ w₂ finality target base nested e} :
      canonicalizeTurn derefFinal level cursor g w = (.ok (.follow finality cursor' target g'), w₁) →
      canonicalizeEntry target g' (level + (n + 1)) = .ok base →
      Walks true (level + (n + 1)) target base 0 w₁ nested (.error e, w₂) →
      Walks derefFinal level cursor g n w (nested + 1) (.error e, w₂)
  /-- what the recursion came back with is no good -/
  | stray {derefFinal level cursor cursor' g g' n w w₁ w₂ w₃ finality target base nested ending
      result e} :
      canonicalizeTurn derefFinal level cursor g w = (.ok (.follow finality cursor' target g'), w₁) →
      canonicalizeEntry target g' (level + (n + 1)) = .ok base →
      Walks true (level + (n + 1)) target base 0 w₁ nested (.ok (ending, result), w₂) →
      canonicalizeReturn level finality cursor' result w₂ = (.error e, w₃) →
      Walks derefFinal level cursor g n w (nested + 1) (.error e, w₃)
  | last {derefFinal level cursor cursor' g g' n w w₁ w₂ w₃ finality target base nested ending
      result finality' result'} :
      canonicalizeTurn derefFinal level cursor g w = (.ok (.follow finality cursor' target g'), w₁) →
      canonicalizeEntry target g' (level + (n + 1)) = .ok base →
      Walks true (level + (n + 1)) target base 0 w₁ nested (.ok (ending, result), w₂) →
      canonicalizeReturn level finality cursor' result w₂ = (.ok (.done finality' result'), w₃) →
      Walks derefFinal level cursor g n w (nested + 1) (.ok (finality', result'), w₃)
  | onward {derefFinal level cursor cursor' cursor'' g g' n w w₁ w₂ w₃ finality target base nested
      nested' ending result result' r} :
      canonicalizeTurn derefFinal level cursor g w = (.ok (.follow finality cursor' target g'), w₁) →
      canonicalizeEntry target g' (level + (n + 1)) = .ok base →
      Walks true (level + (n + 1)) target base 0 w₁ nested (.ok (ending, result), w₂) →
      canonicalizeReturn level finality cursor' result w₂ = (.ok (.again cursor'' result'), w₃) →
      Walks derefFinal level cursor'' result' (n + 1) w₃ nested' r →
      Walks derefFinal level cursor g n w (max (nested + 1) nested') r

/-- A run of `canonicalize`. -/
inductive Canonicalizes (userPath : CString) (derefFinal : Bool) (guestPath : CString)
    (level : Nat) (w : World) : (nested : Nat) → Except Failure CString × World → Prop
  | refused {e} : canonicalizeEntry userPath guestPath level = .error e →
      Canonicalizes userPath derefFinal guestPath level w 0 (.error (.errno e), w)
  | failed {base nested e w'} : canonicalizeEntry userPath guestPath level = .ok base →
      Walks derefFinal level userPath base 0 w nested (.error e, w') →
      Canonicalizes userPath derefFinal guestPath level w nested (.error e, w')
  | walked {base nested finality path w'} : canonicalizeEntry userPath guestPath level = .ok base →
      Walks derefFinal level userPath base 0 w nested (.ok (finality, path), w') →
      Canonicalizes userPath derefFinal guestPath level w nested
        (Comp.lift (appendFinality level finality path) w')

/-! ## Each turn eats up a part of the path -/

variable {cursor g userPath : CString} {finality : Finality} {derefFinal : Bool}
  {level nested : Nat} {w w' : World}

theorem nextComponent_eats {component rest : CString}
    (h : nextComponent cursor = .ok (finality, component, rest)) :
    ∃ eaten, cursor = eaten ++ rest ∧ (cursor ≠ [] → eaten ≠ []) := by
  unfold nextComponent at h
  dsimp only at h
  split at h
  · cases h
  simp only [Except.ok.injEq, Prod.mk.injEq] at h
  obtain ⟨-, -, rfl⟩ := h
  have hfirst := List.takeWhile_append_dropWhile (p := (· = '/')) (l := cursor)
  have hsecond := List.takeWhile_append_dropWhile (p := (· ≠ '/'))
    (l := cursor.dropWhile (· = '/'))
  have hthird := List.takeWhile_append_dropWhile (p := (· = '/'))
    (l := (cursor.dropWhile (· = '/')).dropWhile (· ≠ '/'))
  refine ⟨cursor.takeWhile (· = '/') ++ ((cursor.dropWhile (· = '/')).takeWhile (· ≠ '/') ++
    ((cursor.dropWhile (· = '/')).dropWhile (· ≠ '/')).takeWhile (· = '/')), ?_, ?_⟩
  · rw [List.append_assoc, List.append_assoc, hthird, hsecond, hfirst]
  · intro hne
    obtain ⟨c, cs, rfl⟩ := List.exists_cons_of_ne_nil hne
    by_cases hc : c = '/'
    · simp [hc]
    · simp [hc]

theorem nextComponent_rest {component rest : CString}
    (h : nextComponent cursor = .ok (finality, component, rest)) (hfinal : finality.isFinal = false) :
    rest ≠ [] := by
  unfold nextComponent at h
  dsimp only at h
  split at h
  · cases h
  simp only [Except.ok.injEq, Prod.mk.injEq] at h
  obtain ⟨hfinality, -, rfl⟩ := h
  intro hrest
  rw [if_pos hrest] at hfinality
  split at hfinality <;> subst hfinality <;> cases hfinal

/-- What a turn leaves of the path, with the ending of the component that it took. -/
def Turned.rest : Turned → Option (Finality × CString)
  | .done _ _ => none
  | .again cursor _ => some (.notFinal, cursor)
  | .follow finality cursor _ _ => some (finality, cursor)

theorem turned_rest {ending : Finality} {guestPath rest : CString}
    (h : (turned finality cursor guestPath).rest = some (ending, rest)) :
    (ending, rest) = (finality, cursor) := by
  unfold turned at h
  cases finality with
  | notFinal => exact (Option.some.inj h).symm
  | finalNormal | finalSlash | finalDot => cases h

theorem canonicalizeTurn_rest {rest : CString} {r : Turned} {ending : Finality}
    (h : canonicalizeTurn derefFinal level cursor g w = (.ok r, w'))
    (hrest : r.rest = some (ending, rest)) :
    ∃ component, nextComponent cursor = .ok (ending, component, rest) := by
  rw [canonicalizeTurn, Comp.lift_bind_eq_ok] at h
  obtain ⟨⟨finality, component, left⟩, hnext, h⟩ := h
  have hleft : (ending, rest) = (finality, left) := by
    dsimp only at h
    split at h
    · cases h
      cases finality with
      | notFinal => exact (Option.some.inj hrest).symm
      | finalNormal | finalSlash | finalDot => cases hrest
    split at h
    · cases h
      cases finality with
      | notFinal => exact (Option.some.inj hrest).symm
      | finalNormal | finalSlash | finalDot => cases hrest
    rw [Comp.lift_bind_eq_ok] at h
    obtain ⟨scratch, -, h⟩ := h
    rw [Comp.bind_eq_ok] at h
    obtain ⟨⟨isLink, hostPath⟩, w₁, -, h⟩ := h
    dsimp only at h
    split at h
    · rw [Comp.lift_bind_eq_ok] at h
      obtain ⟨path, -, h⟩ := h
      cases h
      exact turned_rest hrest
    · rw [Comp.bind_eq_ok] at h
      obtain ⟨w₂, w₃, -, h⟩ := h
      rw [Comp.liftFailure_bind_eq_ok] at h
      obtain ⟨referee, -, h⟩ := h
      cases referee with
      | pinned result =>
          cases h
          cases hrest
      | path target =>
          cases h
          exact (Option.some.inj hrest).symm
  cases hleft
  exact ⟨component, hnext⟩

theorem canonicalizeTurn_shorter {rest : CString} {r : Turned}
    (h : canonicalizeTurn derefFinal level cursor g w = (.ok r, w'))
    (hrest : r.rest = some (.notFinal, rest)) : rest.length < cursor.length := by
  obtain ⟨component, hnext⟩ := canonicalizeTurn_rest h hrest
  obtain ⟨eaten, rfl, heaten⟩ := nextComponent_eats hnext
  have hne : rest ≠ [] := nextComponent_rest hnext rfl
  have hpos : 0 < eaten.length :=
    List.length_pos_of_ne_nil (heaten (List.append_ne_nil_of_right_ne_nil eaten hne))
  rw [List.length_append]
  omega

/-! ## The loop in turns -/

theorem canonicalizeReturn_ok {result : CString} {r : Turned}
    (h : canonicalizeReturn level finality cursor result w = (.ok r, w')) :
    r = turned finality cursor result := by
  rw [canonicalizeReturn, Comp.bind_eq_ok] at h
  obtain ⟨⟨isLink, hostPath⟩, w₁, -, h⟩ := h
  dsimp only at h
  split at h
  · cases h
  · cases h
    rfl

def afterTurn (recurse : CString → CString → Nat → Comp CString) (derefFinal : Bool)
    (level fuel symlinksFollowed : Nat) : Turned → Comp (Finality × CString)
  | .done finality result => pure (finality, result)
  | .again cursor guestPath =>
    canonicalizeLoop recurse derefFinal level fuel cursor guestPath symlinksFollowed
  | .follow finality cursor target guestPath => do
    let guestPath ← recurse target guestPath (level + (symlinksFollowed + 1))
    let turned ← canonicalizeReturn level finality cursor guestPath
    match turned with
    | .done finality result => pure (finality, result)
    | .again cursor guestPath | .follow _ cursor _ guestPath =>
      canonicalizeLoop recurse derefFinal level fuel cursor guestPath (symlinksFollowed + 1)

theorem canonicalizeLoop_eq (recurse : CString → CString → Nat → Comp CString) (derefFinal : Bool)
    (level fuel : Nat) (cursor g : CString) (n : Nat) :
    canonicalizeLoop recurse derefFinal level (fuel + 1) cursor g n =
      (canonicalizeTurn derefFinal level cursor g >>=
        afterTurn recurse derefFinal level fuel n) := by
  rw [canonicalizeLoop, canonicalizeTurn, Comp.bind_assoc]
  congr 1
  funext next
  obtain ⟨finality, component, rest⟩ := next
  dsimp only
  by_cases hdot : component = ['.']
  · rw [if_pos hdot, if_pos hdot, Comp.pure_bind]
    cases hfinal : finality.isFinal <;> rfl
  rw [if_neg hdot, if_neg hdot]
  by_cases hdots : component = ['.', '.']
  · rw [if_pos hdots, if_pos hdots, Comp.pure_bind]
    cases hfinal : finality.isFinal <;> rfl
  rw [if_neg hdots, if_neg hdots, Comp.bind_assoc]
  congr 1
  funext scratch
  rw [Comp.bind_assoc]
  congr 1
  funext stat
  obtain ⟨isLink, hostPath⟩ := stat
  dsimp only
  split
  · rw [Comp.bind_assoc]
    congr 1
    funext path
    rw [Comp.pure_bind, turned]
    cases hfinal : finality.isFinal <;> rfl
  · rw [Comp.bind_assoc]
    congr 1
    funext w
    rw [Comp.bind_assoc]
    congr 1
    funext referee
    cases referee with
    | pinned result => rfl
    | path target =>
        dsimp only
        rw [Comp.pure_bind, afterTurn]
        congr 1
        funext result
        rw [canonicalizeReturn, Comp.bind_assoc]
        congr 1
        funext stat
        obtain ⟨isLink, hostPath⟩ := stat
        dsimp only
        split
        · rfl
        · rw [Comp.pure_bind, turned]
          cases hfinal : finality.isFinal <;> rfl

/-! ## Every call has a run -/

theorem appendFinality_nested (h : 0 < level) (finality : Finality)
    (path : CString) : appendFinality level finality path = .ok path := by
  unfold appendFinality
  rw [if_neg (Nat.ne_of_gt h)]

/-- **A run of the loop**, whose fuel the length of the path is enough for. -/
theorem canonicalizeLoop_walks {recurse : CString → CString → Nat → Comp CString}
    (hrec : ∀ target base deeper w, level < deeper →
      ∃ nested, Canonicalizes target true base deeper w nested (recurse target base deeper w))
    (derefFinal : Bool) {fuel : Nat} (hfuel : cursor.length < fuel)
    (g : CString) (n : Nat) (w : World) :
    ∃ nested, Walks derefFinal level cursor g n w nested
      (canonicalizeLoop recurse derefFinal level fuel cursor g n w) := by
  -- on the fuel: a turn that isn't the last one leaves a shorter path
  induction fuel generalizing cursor g n w with
  | zero => omega
  | succ fuel ih =>
      rw [canonicalizeLoop_eq, Comp.bind_run]
      rcases hturn : canonicalizeTurn derefFinal level cursor g w with ⟨e | r, w₁⟩
      · exact ⟨0, .failed hturn⟩
      dsimp only
      cases r with
      | done finality result => exact ⟨0, .done hturn⟩
      | again cursor' g' =>
          have hshorter := canonicalizeTurn_shorter hturn rfl
          have hfuel' : cursor'.length < fuel := by omega
          obtain ⟨nested, hwalks⟩ := ih hfuel' g' n w₁
          exact ⟨nested, .again hturn hwalks⟩
      | follow finality cursor' target g' =>
          have hdeeper : level < level + (n + 1) := by omega
          rw [afterTurn, Comp.bind_run]
          obtain ⟨nested, hrun⟩ := hrec target g' (level + (n + 1)) w₁ hdeeper
          generalize hresult : recurse target g' (level + (n + 1)) w₁ = result at hrun
          cases hrun with
          | refused hentry => exact ⟨1, .refused hturn hentry⟩
          | failed hentry hwalks => exact ⟨nested + 1, .lost hturn hentry hwalks⟩
          | walked hentry hwalks =>
              rename_i base ending path w₂
              rw [appendFinality_nested (by omega), Comp.lift_ok]
              dsimp only
              rw [Comp.bind_run]
              rcases hreturn : canonicalizeReturn level finality cursor' path w₂ with ⟨e | r, w₃⟩
              · exact ⟨nested + 1, .stray hturn hentry hwalks hreturn⟩
              have hr := canonicalizeReturn_ok hreturn
              dsimp only
              cases r with
              | done finality' result' => exact ⟨nested + 1, .last hturn hentry hwalks hreturn⟩
              | again cursor'' result' =>
                  obtain ⟨rfl, rfl⟩ : finality = .notFinal ∧ cursor'' = cursor' := by
                    have hrest := turned_rest (congrArg Turned.rest hr).symm
                    rw [Prod.mk.injEq] at hrest
                    exact ⟨hrest.1.symm, hrest.2⟩
                  have hshorter := canonicalizeTurn_shorter hturn rfl
                  have hfuel' : cursor''.length < fuel := by omega
                  obtain ⟨nested', hwalks'⟩ := ih hfuel' result' (n + 1) w₃
                  exact ⟨_, .onward hturn hentry hwalks hreturn hwalks'⟩
              | follow finality' cursor'' target' result' =>
                  unfold turned at hr
                  split at hr <;> cases hr

/-- **Every call has a run**: the recursion spends its budget only beyond `MAXSYMLINKS`. -/
theorem canonicalizeAt_canonicalizes {budget : Nat} (userPath : CString) (derefFinal : Bool)
    (g : CString) (hbudget : maxSymlinks + 1 < level + budget) (w : World) :
    ∃ nested, Canonicalizes userPath derefFinal g level w nested
      (canonicalizeAt budget userPath derefFinal g level w) := by
  induction budget generalizing userPath derefFinal g level w with
  | zero =>
      have hlevel : level > maxSymlinks := by omega
      refine ⟨0, .refused ?_⟩
      rw [canonicalizeEntry, if_pos hlevel]
  | succ budget ih =>
      rw [canonicalizeAt]
      by_cases hlevel : level > maxSymlinks
      · rw [if_pos hlevel]
        refine ⟨0, .refused ?_⟩
        rw [canonicalizeEntry, if_pos hlevel]
      rw [if_neg hlevel]
      by_cases hlong : g.length ≥ pathMax
      · rw [if_pos hlong]
        refine ⟨0, .refused ?_⟩
        rw [canonicalizeEntry, if_neg hlevel, if_pos hlong]
      rw [if_neg hlong]
      by_cases hrelative : userPath.head? ≠ some '/' ∧ g.head? ≠ some '/'
      · rw [if_pos hrelative]
        refine ⟨0, .refused ?_⟩
        rw [canonicalizeEntry, if_neg hlevel, if_neg hlong, if_pos hrelative]
      rw [if_neg hrelative]
      have hentry : canonicalizeEntry userPath g level =
          .ok (if userPath.head? ≠ some '/' then g else ['/']) := by
        rw [canonicalizeEntry, if_neg hlevel, if_neg hlong, if_neg hrelative]
      have hrec : ∀ target base deeper v, level < deeper →
          ∃ nested, Canonicalizes target true base deeper v nested
            (canonicalizeAt budget target true base deeper v) := by
        intro target base deeper v hdeeper
        exact ih target true base (by omega) v
      obtain ⟨nested, hwalks⟩ := canonicalizeLoop_walks hrec derefFinal
        (Nat.lt_succ_self userPath.length)
        (if userPath.head? ≠ some '/' then g else ['/']) 0 w
      refine ⟨nested, ?_⟩
      rw [Comp.bind_run]
      generalize canonicalizeLoop _ _ _ _ _ _ _ w = result at hwalks ⊢
      rcases result with ⟨e | ⟨finality, path⟩, w'⟩
      · exact .failed hentry hwalks
      · exact .walked hentry hwalks

theorem Walks.unique {n nested' : Nat}
    {r r' : Walked} (h : Walks derefFinal level cursor g n w nested r)
    (h' : Walks derefFinal level cursor g n w nested' r') : nested = nested' ∧ r = r' := by
  induction h generalizing nested' r' with
  | failed | done | again | refused | lost | stray | last | onward => cases h' <;> grind

theorem Canonicalizes.unique {nested' : Nat} {r r' : Except Failure CString × World}
    (h : Canonicalizes userPath derefFinal g level w nested r)
    (h' : Canonicalizes userPath derefFinal g level w nested' r') : nested = nested' ∧ r = r' := by
  cases h with
  | refused hentry => cases h' <;> grind
  | failed | walked =>
      cases h' with
      | refused hentry' => grind
      | failed | walked => grind [Walks.unique]

/-! ## Links that are nested in one another -/

theorem canonicalizeEntry_ok {base : CString}
    (h : canonicalizeEntry userPath g level = .ok base) : level ≤ maxSymlinks := by
  rw [canonicalizeEntry] at h
  split at h
  · cases h
  · omega

theorem canonicalizeEntry_deep (h : maxSymlinks < level) :
    canonicalizeEntry userPath g level = .error .eloop := by
  rw [canonicalizeEntry, if_pos h]

/-- **The links of a run**: each one raises the level at least by one, and one that is too deep
ends the run. -/
theorem Walks.nested_le {n : Nat} {r : Walked} (h : Walks derefFinal level cursor g n w nested r)
    (hlevel : level ≤ maxSymlinks) :
    level + nested ≤ maxSymlinks ∨
      level + nested = maxSymlinks + 1 ∧ r.1 = .error (.errno .eloop) := by
  induction h with
  | failed | done => exact .inl hlevel
  | again hturn hwalks ih => exact ih hlevel
  | @refused derefFinal level cursor cursor' g g' n w w' finality target e hturn hentry =>
      rcases Nat.lt_or_ge level maxSymlinks with hlt | hge
      · exact .inl hlt
      · rw [canonicalizeEntry_deep (by omega), Except.error.injEq] at hentry
        subst hentry
        exact .inr ⟨by omega, rfl⟩
  | @lost derefFinal level cursor cursor' g g' n w w₁ w₂ finality target base nested e hturn hentry
      hwalks ih =>
      have hdeeper := canonicalizeEntry_ok hentry
      rcases ih hdeeper with hle | ⟨heq, hloop⟩
      · exact .inl (by omega)
      · by_cases hfirst : n = 0
        · exact .inr ⟨by omega, hloop⟩
        · exact .inl (by omega)
  | stray hturn hentry hwalks hreturn ih =>
      have hdeeper := canonicalizeEntry_ok hentry
      rcases ih hdeeper with hle | ⟨heq, hloop⟩
      · exact .inl (by omega)
      · cases hloop
  | last hturn hentry hwalks hreturn ih =>
      have hdeeper := canonicalizeEntry_ok hentry
      rcases ih hdeeper with hle | ⟨heq, hloop⟩
      · exact .inl (by omega)
      · cases hloop
  | onward hturn hentry hwalks hreturn hrest ih ihrest =>
      have hdeeper := canonicalizeEntry_ok hentry
      rcases ih hdeeper with hle | ⟨heq, hloop⟩
      · rcases ihrest hlevel with hle' | ⟨heq', hloop⟩
        · exact .inl (by omega)
        · exact .inr ⟨by omega, hloop⟩
      · cases hloop

/-- Walks that lead back to themselves: each of their turns goes on, or follows a link, and what
comes next is one of them again. -/
def Endless (S : Bool → CString → CString → World → Prop) : Prop :=
  ∀ derefFinal level cursor g w, S derefFinal cursor g w →
    (∃ cursor' g' w', canonicalizeTurn derefFinal level cursor g w = (.ok (.again cursor' g'), w') ∧
      S derefFinal cursor' g' w') ∨
    ∃ finality cursor' target g' w',
      canonicalizeTurn derefFinal level cursor g w =
        (.ok (.follow finality cursor' target g'), w') ∧
      ∀ deeper ≤ maxSymlinks, ∃ base, canonicalizeEntry target g' deeper = .ok base ∧
        S true target base w'

theorem Endless.follow {S : Bool → CString → CString → World → Prop} (hS : Endless S)
    {deeper : Nat} {cursor' g' target base : CString} (hin : S derefFinal cursor g w)
    (hturn : canonicalizeTurn derefFinal level cursor g w =
      (.ok (.follow finality cursor' target g'), w'))
    (hentry : canonicalizeEntry target g' deeper = .ok base) : S true target base w' := by
  rcases hS derefFinal level cursor g w hin with
    ⟨cursor', g', v, hgoes, -⟩ | ⟨finality, cursor', target, g', v, hgoes, hnext⟩
  · cases hturn.symm.trans hgoes
  · cases hturn.symm.trans hgoes
    obtain ⟨base', hbase, hS'⟩ := hnext deeper (canonicalizeEntry_ok hentry)
    cases hentry.symm.trans hbase
    exact hS'

theorem Endless.eloop {S : Bool → CString → CString → World → Prop} (hS : Endless S)
    {n : Nat} {r : Walked}
    (h : Walks derefFinal level cursor g n w nested r) (hin : S derefFinal cursor g w) :
    r.1 = .error (.errno .eloop) := by
  induction h with
  | @failed derefFinal level cursor g n w w' e hturn =>
      rcases hS derefFinal level cursor g w hin with
        ⟨cursor', g', v, hgoes, -⟩ | ⟨finality, cursor', target, g', v, hgoes, -⟩
      · cases hturn.symm.trans hgoes
      · cases hturn.symm.trans hgoes
  | @done derefFinal level cursor g n w w' finality result hturn =>
      rcases hS derefFinal level cursor g w hin with
        ⟨cursor', g', v, hgoes, -⟩ | ⟨finality, cursor', target, g', v, hgoes, -⟩
      · cases hturn.symm.trans hgoes
      · cases hturn.symm.trans hgoes
  | @again derefFinal level cursor cursor' g g' n w w' nested r hturn hwalks ih =>
      rcases hS derefFinal level cursor g w hin with
        ⟨cursor', g', v, hgoes, hnext⟩ | ⟨finality, cursor', target, g', v, hgoes, -⟩
      · cases hturn.symm.trans hgoes
        exact ih hnext
      · cases hturn.symm.trans hgoes
  | @refused derefFinal level cursor cursor' g g' n w w' finality target e hturn hentry =>
      rcases hS derefFinal level cursor g w hin with
        ⟨cursor', g', v, hgoes, -⟩ | ⟨finality, cursor', target, g', v, hgoes, hnext⟩
      · cases hturn.symm.trans hgoes
      · cases hturn.symm.trans hgoes
        rcases Nat.lt_or_ge maxSymlinks (level + (n + 1)) with hdeep | hle
        · rw [canonicalizeEntry_deep hdeep] at hentry
          cases hentry
          rfl
        · obtain ⟨base, hbase, -⟩ := hnext _ hle
          cases hentry.symm.trans hbase
  | lost hturn hentry hwalks ih => exact ih (hS.follow hin hturn hentry)
  | stray hturn hentry hwalks hreturn ih => cases ih (hS.follow hin hturn hentry)
  | last hturn hentry hwalks hreturn ih => cases ih (hS.follow hin hturn hentry)
  | onward hturn hentry hwalks hreturn hrest ih ihrest => cases ih (hS.follow hin hturn hentry)

theorem Canonicalizes.nested_le {r : Except Failure CString × World}
    (h : Canonicalizes userPath derefFinal g 0 w nested r) :
    nested ≤ maxSymlinks ∨ nested = maxSymlinks + 1 ∧ r.1 = .error (.errno .eloop) := by
  cases h with
  | refused hentry => exact .inl (Nat.zero_le _)
  | failed hentry hwalks =>
      rcases hwalks.nested_le (Nat.zero_le _) with hle | ⟨heq, hloop⟩
      · exact .inl (by omega)
      · cases hloop
        exact .inr ⟨by omega, rfl⟩
  | walked hentry hwalks =>
      rcases hwalks.nested_le (Nat.zero_le _) with hle | ⟨heq, hloop⟩
      · exact .inl (by omega)
      · cases hloop

theorem Canonicalizes.eloop {S : Bool → CString → CString → World → Prop} (hS : Endless S)
    {base : CString} {r : Except Failure CString × World}
    (h : Canonicalizes userPath derefFinal g level w nested r)
    (hentry : canonicalizeEntry userPath g level = .ok base) (hin : S derefFinal userPath base w) :
    r.1 = .error (.errno .eloop) := by
  cases h with
  | refused herror => cases hentry.symm.trans herror
  | failed hbase hwalks =>
      cases hentry.symm.trans hbase
      cases hS.eloop hwalks hin
      rfl
  | walked hbase hwalks =>
      cases hentry.symm.trans hbase
      cases hS.eloop hwalks hin

/-! ## The result -/

/-- **`canonicalize` ends**: it computes the one run of the call.  No more than `MAXSYMLINKS` links
are followed along a chain of nested links: one link more, or a cycle, is `ELOOP`.  Each turn takes
a component from the path, which eats up a part of a path that isn't empty; a turn that follows
another one doesn't see an empty path. -/
theorem canonicalize_terminates (userPath g : CString) (derefFinal : Bool) (w : World) :
    (∃ nested, Canonicalizes userPath derefFinal g 0 w nested
        (canonicalize userPath derefFinal g 0 w) ∧
      (∀ nested' r, Canonicalizes userPath derefFinal g 0 w nested' r →
        nested' = nested ∧ r = canonicalize userPath derefFinal g 0 w) ∧
      (nested ≤ maxSymlinks ∨ nested = maxSymlinks + 1 ∧
        (canonicalize userPath derefFinal g 0 w).1 = .error (.errno .eloop))) ∧
    (∀ S base, Endless S → canonicalizeEntry userPath g 0 = .ok base →
      S derefFinal userPath base w →
      (canonicalize userPath derefFinal g 0 w).1 = .error (.errno .eloop)) ∧
    (∀ cursor finality component rest, nextComponent cursor = .ok (finality, component, rest) →
      cursor ≠ [] → ∃ eaten, eaten ≠ [] ∧ cursor = eaten ++ rest) ∧
    ∀ deref level cursor g' v turn v', canonicalizeTurn deref level cursor g' v = (.ok turn, v') →
      ∀ ending left, turn.rest = some (ending, left) →
        (∃ component, nextComponent cursor = .ok (ending, component, left)) ∧
        (ending = .notFinal → left ≠ []) := by
  have hbudget : maxSymlinks + 1 < 0 + (maxSymlinks + 2) := by omega
  obtain ⟨nested, hrun⟩ := canonicalizeAt_canonicalizes userPath derefFinal g hbudget w
  rw [← canonicalize] at hrun
  refine ⟨⟨nested, hrun, ?_, ?_⟩, ?_, ?_, ?_⟩
  · intro nested' r h
    exact h.unique hrun
  · exact hrun.nested_le
  · intro S base hS hentry hin
    exact hrun.eloop hS hentry hin
  · intro cursor finality component rest hnext hne
    obtain ⟨eaten, heq, heaten⟩ := nextComponent_eats hnext
    exact ⟨eaten, heaten hne, heq⟩
  · intro deref level cursor g' v turn v' hturn ending left hleft
    obtain ⟨component, hnext⟩ := canonicalizeTurn_rest hturn hleft
    refine ⟨⟨component, hnext⟩, ?_⟩
    rintro rfl
    exact nextComponent_rest hnext rfl

/-- The loop starts on an empty path, which it can't eat anything of. -/
theorem canonicalize_empty_eats_nothing :
    ∃ finality component rest, canonicalizeEntry [] ['/'] 0 = .ok ['/'] ∧
      nextComponent [] = .ok (finality, component, rest) ∧
      ¬ ∃ eaten, eaten ≠ [] ∧ ([] : CString) = eaten ++ rest := by
  refine ⟨.finalNormal, [], [], by decide, by decide, ?_⟩
  rintro ⟨eaten, hne, heq⟩
  exact hne (List.append_eq_nil_iff.mp heq.symm).1

end Improot.Path
