import Improot.Lib.PrefixTable

/-!
# A table seen from another root

The entries of a table are moved, one by one, as the root of what the table describes is changed:
those below the new root move with it, all the others stay and are seen a second time below the
place where the previous root is put. The table in between is known for each set of entries that had
their turn, so their order doesn't matter.
-/

namespace Improot.Lib

open PrefixTable

structure Pivot (α : Type*) where
  newRoot : List α
  /-- where the previous root is put, from the new one, if anywhere -/
  putOld : Option (List α)
  /-- the replacement of the new root -/
  root : List α
  /-- the replacement of the previous root -/
  oldRoot : List α
  /-- the places where an entry can be seen a second time -/
  fits : List α → Bool

namespace Pivot

variable {α : Type*} [DecidableEq α] (v : Pivot α) (T : PrefixTable α)

def moves (q : List α) : Prop := v.newRoot ≠ [] ∧ v.newRoot <+: q ∧ q ≠ v.newRoot

instance (q : List α) : Decidable (v.moves q) := inferInstanceAs (Decidable (_ ∧ _))

/-- Is the entry of `r` seen a second time, at `a ++ r`? -/
def exposes (a r : List α) : Prop := r ≠ [] ∧ ¬ v.moves r ∧ ¬ a <+: r ∧ v.fits (a ++ r) = true

instance (a r : List α) : Decidable (v.exposes a r) := inferInstanceAs (Decidable (_ ∧ _))

section Turns

variable (D : List (List α))

def moved (q : List α) : Option (List α) :=
  if v.newRoot ≠ [] ∧ v.newRoot ++ q ∈ D then T (v.newRoot ++ q) else none

def exposed (q : List α) : Option (List α) :=
  match v.putOld with
  | none => none
  | some a =>
    if a <+: q ∧ v.exposes a (q.drop a.length) ∧ q.drop a.length ∈ D then T (q.drop a.length) else none

def stays (q : List α) : Option (List α) := if v.moves q ∧ q ∈ D then none else T q

/-- The table once the entries of `D` had their turn. -/
def after : PrefixTable α := fun q =>
  if q = [] then some v.root
  else if v.putOld = some q then some v.oldRoot
  else (v.moved T D q).or ((v.exposed T D q).or (v.stays T D q))

def Touched (q : List α) : Prop :=
  q = [] ∨ v.putOld = some q ∨ v.moved T D q ≠ none ∨ v.exposed T D q ≠ none

instance (q : List α) : Decidable (v.Touched T D q) := inferInstanceAs (Decidable (_ ∨ _))

end Turns

/-- What is seen at a place in the end: first what moves there, then what is seen there for the
second time, then what stays there. -/
def view : PrefixTable α := fun q =>
  if q = [] then some v.root
  else if v.putOld = some q then some v.oldRoot
  else (if v.newRoot ≠ [] then T (v.newRoot ++ q) else none).or
    ((match v.putOld with
      | none => none
      | some a => if a <+: q ∧ v.exposes a (q.drop a.length) then T (q.drop a.length) else none).or
    (if v.moves q then none else T q))

/-- Nothing is mounted on the place of the previous root, or below. -/
def Free : Prop := ∀ a, v.putOld = some a → ∀ s, T (v.newRoot ++ (a ++ s)) = none

variable {v T} {D : List (List α)} {g q : List α} {h : List α}

omit [DecidableEq α] in
theorem moves_append (hne : v.newRoot ≠ []) (hq : q ≠ []) : v.moves (v.newRoot ++ q) :=
  ⟨hne, List.prefix_append _ _, by simpa using hq⟩

/-! ## Turns -/

theorem moved_cons_self (hne : v.newRoot ≠ []) : v.moved T ((v.newRoot ++ q) :: D) q = T (v.newRoot ++ q) :=
  if_pos ⟨hne, List.mem_cons_self ..⟩

theorem moved_cons_of_ne (h : v.newRoot = [] ∨ v.newRoot ++ q ≠ g) :
    v.moved T (g :: D) q = v.moved T D q := by
  unfold moved
  rcases h with h | h
  · simp [h]
  · simp [h]

theorem exposed_cons_self {a : List α} (ha : v.putOld = some a) (hg : v.exposes a g) :
    v.exposed T (g :: D) (a ++ g) = T g := by
  unfold exposed
  rw [ha]
  dsimp only
  rw [List.drop_left, if_pos ⟨List.prefix_append _ _, hg, List.mem_cons_self ..⟩]

theorem exposed_cons_of_ne (h : ∀ a, v.putOld = some a → v.exposes a g → q ≠ a ++ g) :
    v.exposed T (g :: D) q = v.exposed T D q := by
  unfold exposed
  cases ha : v.putOld with
  | none => rfl
  | some a =>
      dsimp only
      refine if_congr (and_congr_right fun hpre => and_congr_right fun hexp => ?_) rfl rfl
      obtain ⟨r, rfl⟩ := hpre
      rw [List.drop_left] at hexp ⊢
      rw [List.mem_cons, or_iff_right]
      rintro rfl
      exact h a ha hexp rfl

theorem stays_cons_self (hg : v.moves g) : v.stays T (g :: D) g = none :=
  if_pos ⟨hg, List.mem_cons_self ..⟩

theorem stays_cons_of_ne (h : v.moves g → q ≠ g) : v.stays T (g :: D) q = v.stays T D q := by
  unfold stays
  refine if_congr (and_congr_right fun hmoves => ?_) rfl rfl
  rw [List.mem_cons, or_iff_right]
  rintro rfl
  exact h hmoves rfl

theorem moved_nil : v.moved T [] q = none := if_neg (by simp)

theorem exposed_nil : v.exposed T [] q = none := by
  unfold exposed
  cases v.putOld with
  | none => rfl
  | some a => exact if_neg (by simp)

theorem stays_nil : v.stays T [] q = T q := if_neg (by simp)

/-- Before all turns: the two roots are in place. -/
theorem after_nil :
    v.after T [] = Function.update
      (match v.putOld with
        | some a => Function.update T a (some v.oldRoot)
        | none => T) [] (some v.root) := by
  funext q
  rw [after, moved_nil, exposed_nil, stays_nil, Option.none_or, Option.none_or, Function.update_apply]
  refine if_congr Iff.rfl rfl ?_
  cases v.putOld with
  | none => rfl
  | some a =>
      dsimp only
      rw [Function.update_apply]
      refine if_congr ?_ rfl rfl
      rw [Option.some.injEq]
      exact eq_comm

/-- When all entries had their turn. -/
theorem after_all (h : ∀ q, T q ≠ none → q ∈ D) : v.after T D = v.view T := by
  -- what had no turn is no entry
  have hturn : ∀ q, q ∉ D → T q = none := by
    intro q hq
    by_contra hne
    exact hq (h q hne)
  funext q
  have hmoved : v.moved T D q = if v.newRoot ≠ [] then T (v.newRoot ++ q) else none := by
    unfold moved
    by_cases hq : v.newRoot ++ q ∈ D
    · simp [hq]
    · simp [hq, hturn _ hq]
  have hexposed : v.exposed T D q = match v.putOld with
      | none => none
      | some a => if a <+: q ∧ v.exposes a (q.drop a.length) then T (q.drop a.length) else none := by
    unfold exposed
    cases v.putOld with
    | none => rfl
    | some a =>
        dsimp only
        by_cases hq : q.drop a.length ∈ D
        · simp [hq]
        · simp [hq, hturn _ hq]
  have hstays : v.stays T D q = if v.moves q then none else T q := by
    unfold stays
    by_cases hq : q ∈ D
    · simp [hq]
    · simp [hq, hturn _ hq]
  rw [after, hmoved, hexposed, hstays]
  rfl

/-- **An entry below the new root** moves, and leaves its place, unless something new has come
there. -/
theorem after_cons_moves (hfree : v.Free T) (hne : v.newRoot ≠ []) (hq : q ≠ [])
    (hentry : T (v.newRoot ++ q) = some h) :
    v.after T ((v.newRoot ++ q) :: D) =
      if v.Touched T D (v.newRoot ++ q) then Function.update (v.after T D) q (some h)
      else Function.update (Function.update (v.after T D) q (some h)) (v.newRoot ++ q) none := by
  have hmoves := moves_append hne hq
  have hput : ∀ a, v.putOld = some a → q ≠ a := by
    rintro a ha rfl
    have hnone := hfree q ha []
    rw [List.append_nil, hentry] at hnone
    cases hnone
  -- it isn't exposed
  have hexposed : ∀ x, v.exposed T ((v.newRoot ++ q) :: D) x = v.exposed T D x :=
    fun x => exposed_cons_of_ne fun a _ hexp => absurd hmoves hexp.2.1
  -- what the table is elsewhere
  have helse : ∀ x, x ≠ q → x ≠ v.newRoot ++ q →
      v.after T ((v.newRoot ++ q) :: D) x = v.after T D x := by
    intro x hx hx'
    unfold after
    rw [hexposed, stays_cons_of_ne fun _ => hx', moved_cons_of_ne (.inr fun heq => hx ?_)]
    exact List.append_cancel_left heq
  have hplace : v.after T ((v.newRoot ++ q) :: D) q = some h := by
    unfold after
    rw [if_neg hq, if_neg fun ha => hput q ha rfl, moved_cons_self hne, hentry, Option.some_or]
  have hself : v.newRoot ++ q ≠ q := fun heq => hne (List.append_left_eq_self.mp heq)
  have hmoved : v.moved T ((v.newRoot ++ q) :: D) (v.newRoot ++ q) = v.moved T D (v.newRoot ++ q) :=
    moved_cons_of_ne (.inr fun heq => hself (List.append_cancel_left heq))
  have hleft : ∀ x, x = v.newRoot ++ q → v.after T ((v.newRoot ++ q) :: D) x =
      if v.Touched T D x then v.after T D x else none := by
    rintro x rfl
    have hroot : v.newRoot ++ q ≠ [] := by simp [hq]
    unfold after Touched
    rw [if_neg hroot, if_neg hroot, hmoved, hexposed, stays_cons_self hmoves]
    by_cases ha : v.putOld = some (v.newRoot ++ q)
    · simp [ha]
    · simp only [ha, hroot, if_false, false_or]
      cases v.moved T D (v.newRoot ++ q) with
      | some x => simp
      | none =>
          cases v.exposed T D (v.newRoot ++ q) with
          | some | none => simp
  split_ifs with htouched
  · funext x
    by_cases hx : x = q
    · rw [hx, hplace, Function.update_self]
    · rw [Function.update_of_ne hx]
      by_cases hx' : x = v.newRoot ++ q
      · rw [hleft x hx', hx', if_pos htouched]
      · exact helse x hx hx'
  · funext x
    by_cases hx' : x = v.newRoot ++ q
    · rw [hleft x hx', hx', if_neg htouched, Function.update_self]
    · rw [Function.update_of_ne hx']
      by_cases hx : x = q
      · rw [hx, hplace, Function.update_self]
      · rw [Function.update_of_ne hx]
        exact helse x hx hx'

/-- **An entry that is exposed** is seen again, and stays. -/
theorem after_cons_exposes (hfree : v.Free T) {a : List α} (ha : v.putOld = some a)
    (hg : v.exposes a g) (hentry : T g = some h) :
    v.after T (g :: D) = Function.update (v.after T D) (a ++ g) (some h) := by
  have ⟨hne, hmoves, _, _⟩ := hg
  -- it comes from nowhere below the new root
  have hmoved : ∀ x, x ≠ [] → v.moved T (g :: D) x = v.moved T D x := by
    intro x hx
    apply moved_cons_of_ne
    by_cases hroot : v.newRoot = []
    · exact .inl hroot
    · right
      rintro rfl
      exact hmoves (moves_append hroot hx)
  funext x
  by_cases hx : x = a ++ g
  · subst hx
    have hnone : v.moved T D (a ++ g) = none := by
      unfold moved
      rw [hfree a ha g]
      exact ite_self _
    have hlong : a ++ g ≠ [] := by simp [hne]
    have hput : v.putOld ≠ some (a ++ g) := by
      rw [ha, ne_eq, Option.some.injEq, List.self_eq_append_right]
      exact hne
    rw [Function.update_self]
    unfold after
    rw [if_neg hlong, if_neg hput, hmoved _ hlong, hnone, exposed_cons_self ha hg, hentry]
    rfl
  · rw [Function.update_of_ne hx]
    unfold after
    by_cases hroot : x = []
    · rw [if_pos hroot, if_pos hroot]
    · rw [if_neg hroot, if_neg hroot, hmoved x hroot, stays_cons_of_ne fun hm => absurd hm hmoves,
        exposed_cons_of_ne]
      intro a' ha' _
      rw [ha, Option.some.injEq] at ha'
      rwa [← ha']

/-- Any other entry stays. -/
theorem after_cons_stays (hmoves : ¬ v.moves g) (hexposes : ∀ a, v.putOld = some a → ¬ v.exposes a g) :
    v.after T (g :: D) = v.after T D := by
  funext x
  unfold after
  by_cases hroot : x = []
  · rw [if_pos hroot, if_pos hroot]
  · rw [stays_cons_of_ne fun hm => absurd hm hmoves,
      exposed_cons_of_ne fun a ha hexp => absurd hexp (hexposes a ha), moved_cons_of_ne]
    by_cases hnew : v.newRoot = []
    · exact .inl hnew
    · right
      rintro rfl
      exact hmoves (moves_append hnew hroot)

/-! ## Where something new has come -/

theorem touched_cons_moves (hne : v.newRoot ≠ []) (hq : q ≠ []) (hentry : T (v.newRoot ++ q) = some h)
    (x : List α) : v.Touched T ((v.newRoot ++ q) :: D) x ↔ x = q ∨ v.Touched T D x := by
  have hmoves := moves_append hne hq
  have hexposed : v.exposed T ((v.newRoot ++ q) :: D) x = v.exposed T D x :=
    exposed_cons_of_ne fun a _ hexp => absurd hmoves hexp.2.1
  unfold Touched
  rw [hexposed]
  by_cases hx : x = q
  · subst hx
    rw [moved_cons_self hne, hentry]
    simp
  · rw [moved_cons_of_ne (.inr fun heq => hx (List.append_cancel_left heq))]
    simp [hx]

theorem touched_cons_exposes {a : List α} (ha : v.putOld = some a) (hg : v.exposes a g)
    (hentry : T g = some h) (x : List α) :
    v.Touched T (g :: D) x ↔ x = a ++ g ∨ v.Touched T D x := by
  have ⟨hne, hmoves, _, _⟩ := hg
  unfold Touched
  by_cases hroot : x = []
  · simp [hroot]
  · have hmoved : v.moved T (g :: D) x = v.moved T D x := by
      apply moved_cons_of_ne
      by_cases hnew : v.newRoot = []
      · exact .inl hnew
      · right
        rintro rfl
        exact hmoves (moves_append hnew hroot)
    rw [hmoved]
    by_cases hx : x = a ++ g
    · subst hx
      rw [exposed_cons_self ha hg, hentry]
      simp
    · rw [exposed_cons_of_ne]
      · simp [hx]
      · intro a' ha' _
        rw [ha, Option.some.injEq] at ha'
        rwa [← ha']

theorem touched_cons_stays (hmoves : ¬ v.moves g)
    (hexposes : ∀ a, v.putOld = some a → ¬ v.exposes a g) (x : List α) :
    v.Touched T (g :: D) x ↔ v.Touched T D x := by
  unfold Touched
  by_cases hroot : x = []
  · simp [hroot]
  · rw [exposed_cons_of_ne fun a ha hexp => absurd hexp (hexposes a ha), moved_cons_of_ne]
    by_cases hnew : v.newRoot = []
    · exact .inl hnew
    · right
      rintro rfl
      exact hmoves (moves_append hnew hroot)

/-! ## Resolution -/

/-- **From the new root**, a word is resolved as it was below it, as far as nothing that stays hides
that. -/
theorem view_resolve_root {p : List α} (hput : ∀ a, v.putOld = some a → ¬ a <+: p)
    (hstays : ∀ q, q ≠ [] → q <+: p → T q ≠ none → v.moves q ∨ T (v.newRoot ++ q) ≠ none) :
    resolve (v.view T) p = resolve (Function.update T v.newRoot (some v.root)) (v.newRoot ++ p) := by
  have hroot : resolve (v.view T) [] =
      resolve (Function.update T v.newRoot (some v.root)) v.newRoot := by
    rw [resolve_nil, resolve_of_some (Function.update_self ..)]
    exact if_pos rfl
  refine resolve_shift (a := []) hroot fun q hne hq => ?_
  have hold : v.putOld ≠ some q := fun ha => hput q ha hq
  have hexposed : (match v.putOld with
      | none => none
      | some a => if a <+: q ∧ v.exposes a (q.drop a.length) then T (q.drop a.length) else none) =
      none := by
    cases ha : v.putOld with
    | none => rfl
    | some a => exact if_neg fun hboth => hput a ha (hboth.1.trans hq)
  have hdeep : v.newRoot ++ q ≠ v.newRoot := fun heq => hne (List.append_right_eq_self.mp heq)
  rw [List.nil_append, Function.update_of_ne hdeep, view, if_neg hne, if_neg hold, hexposed,
    Option.none_or]
  cases hentry : T (v.newRoot ++ q) with
  | some h =>
      by_cases hnew : v.newRoot = []
      · rw [hnew, List.nil_append] at hentry
        have hnot : ¬ v.moves q := fun hm => hm.1 hnew
        simp [hnew, hnot, hentry]
      · simp [hnew]
  | none =>
      have hgone : (if v.moves q then none else T q) = none := by
        split
        · rfl
        next hnot =>
          by_contra hsome
          exact (hstays q hne hq hsome).elim hnot fun h => h hentry
      rw [hgone, ite_self]
      rfl

/-- **From the previous root**, below its place, a word is resolved as it was, as far as nothing
that stays hides that. -/
theorem view_resolve_putOld (hfree : v.Free T) {a p : List α} (ha : v.putOld = some a) (hne : a ≠ [])
    (hroot : T [] = some v.oldRoot) (hunder : ¬ a <+: p)
    (hstays : ∀ q, q ≠ [] → q <+: p → ¬ v.moves q ∧ (T q ≠ none → v.fits (a ++ q) = true) ∧
      (T (a ++ q) ≠ none → v.moves (a ++ q) ∨ T q ≠ none)) :
    resolve (v.view T) (a ++ p) = resolve T p := by
  have hplace : resolve (v.view T) a = resolve T [] := by
    rw [resolve_nil, hroot]
    apply resolve_of_some
    rw [view, if_neg hne, if_pos ha]
  refine resolve_shift (b := []) hplace fun q hq hpre => ?_
  obtain ⟨hmoves, hfits, hhidden⟩ := hstays q hq hpre
  have hlong : a ++ q ≠ [] := by simp [hne]
  have hput : v.putOld ≠ some (a ++ q) := by
    rw [ha, ne_eq, Option.some.injEq, List.self_eq_append_right]
    exact hq
  have hapart : ¬ a <+: q := fun hin => hunder (hin.trans hpre)
  rw [List.nil_append, view, if_neg hlong, if_neg hput, hfree a ha q, ite_self, Option.none_or, ha]
  dsimp only
  rw [List.drop_left]
  cases hentry : T q with
  | some h =>
      rw [if_pos ⟨List.prefix_append _ _, hq, hmoves, hapart, hfits (by simp [hentry])⟩]
      rfl
  | none =>
      rw [ite_self, Option.none_or]
      split
      · rfl
      next hnot =>
        by_contra hsome
        exact (hhidden hsome).elim hnot fun h => h hentry

end Pivot

end Improot.Lib
