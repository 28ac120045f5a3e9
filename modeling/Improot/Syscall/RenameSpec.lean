import Improot.Syscall.Rename
import Improot.Syscall.TranslateParent

/-!
# The working directory keeps its name

The guest name that a directory has after a rename is that of the moved file followed by what it was
below it.  The exit of the system call finds this name exactly when PRoot sees the old and the new
path under the names they were given by, both are written with the same separators, and the result
fits.
-/

namespace Improot.Syscall

open Improot.Path
open Lib (pieces Resolves)

/-! ## Paths with a separator -/

def written (names : List Component) (slash : Bool) : CString :=
  withEnding names (if slash then .finalSlash else .finalNormal)

@[simp] theorem written_false (names : List Component) : written names false = pathOf names := rfl

@[simp] theorem written_nil (slash : Bool) : written [] slash = ['/'] := by cases slash <;> rfl

variable {names : List Component} {w : World}

theorem written_true (h : names ≠ []) :
    written names true = pathOf names ++ ['/'] := withEnding_eq h .finalSlash

theorem written_ne_nil (names : List Component) (slash : Bool) : written names slash ≠ [] :=
  Ended.ne_nil ⟨names, _, rfl⟩

theorem stem_written (names : List Component) (slash : Bool) :
    stem (written names slash) = stem (pathOf names) := by
  cases slash with
  | false => rfl
  | true =>
      by_cases hn : names = []
      · subst hn
        rfl
      · rw [written_true hn, stem, if_pos (by simp), List.dropLast_concat,
          stem_eq_self (pathOf_getLast? hn)]

def marked (names : List Component) (slash : Bool) : Bool := slash && names ≠ []

theorem written_eq (names : List Component) (slash : Bool) :
    written names slash = pathOf names ++ if marked names slash then ['/'] else [] := by
  cases slash with
  | false => simp [marked]
  | true =>
      by_cases hn : names = []
      · simp [hn, marked]
      · simp [hn, marked, written_true]

theorem written_marked (names : List Component) (slash : Bool) :
    written names (marked names slash) = written names slash := by
  rw [written_eq, written_eq, marked, marked]
  simp

/-! ## The way back -/

theorem removeRoot_written {t : Bindings} (h : t.Sorted) (hroot : t.Rooted) {sanityCheck : Bool}
    {slash : Bool} {result : CString} {status : Nat}
    (hrun : removeRoot t sanityCheck (written names slash) = .ok (status, result)) :
    (∃ names' slash', result = written names' slash') ∧
      (status = 0 ∨ status = result.length + 1) := by
  obtain ⟨root, hrootHost⟩ : ∃ root, getRoot t = pathOf root := by
    obtain ⟨b, hlast, -⟩ := h.root_last hroot
    obtain ⟨root, hhost⟩ := (h.clean b (List.mem_of_getLast? hlast)).host
    exact ⟨root, by rw [getRoot, hlast]; exact hhost⟩
  have hkeep : (if sanityCheck = true then Except.error (Failure.errno Errno.eperm)
      else .ok (0, written names slash)) = .ok (status, result) →
      (∃ names' slash', result = written names' slash') ∧
        (status = 0 ∨ status = result.length + 1) := by
    intro hres
    split_ifs at hres
    cases hres
    exact ⟨⟨names, slash, rfl⟩, .inl rfl⟩
  unfold removeRoot at hrun
  split at hrun
  · rename_i hcmp
    rw [hrootHost, comparePaths_eq_path1IsPrefix (pathOf_ne_nil _) (written_ne_nil _ _),
      stem_written, below_pathOf] at hcmp
    obtain ⟨⟨more, rfl⟩, hne⟩ := hcmp
    have hmore : more ≠ [] := by
      rintro rfl
      exact hne (by simp)
    dsimp only at hrun
    cases hrun
    refine ⟨⟨more, slash, ?_⟩, .inr rfl⟩
    rw [hrootHost]
    by_cases hr : root = []
    · subst hr
      rfl
    · have hlen : (pathOf root).length ≠ 1 :=
        fun hone => hr (pathOf_eq_root.mp ((pathOf_tidy root).length_eq_one.mp hone))
      have hmarked : marked (root ++ more) slash = marked more slash := by simp [marked, hr, hmore]
      rw [if_neg hlen, written_eq, hmarked, pathOf_append hr hmore, List.append_assoc,
        List.drop_left, ← written_eq]
  · cases hrun
    exact ⟨⟨[], false, rfl⟩, .inr rfl⟩
  · exact hkeep hrun

theorem detranslatePath_written (h : w.tracee.bindings.Sorted)
    (hroot : w.tracee.bindings.Rooted) {slash : Bool} {result : CString}
    {status : Nat} (hrun : detranslatePath w (written names slash) none = .ok (status, result)) :
    (∃ names' slash', result = written names' slash') ∧
      (status = 0 ∨ status = result.length + 1) := by
  obtain ⟨-, ⟨rfl, rfl⟩ | ⟨-, r, hr, -⟩ | ⟨sanityCheck, followBinding, hrun⟩⟩ :=
    detranslatePath_cases hrun
  · exact ⟨⟨names, slash, rfl⟩, .inl rfl⟩
  · cases hr
  · have hsubst : ∀ {substituted path}, substituteBinding w.tracee.bindings .host
        (written names slash) = .ok (substituted, path) → ∃ names' slash',
          path = written names' slash' := by
      intro substituted path hsub
      obtain ⟨names', finality', rfl, hfinality⟩ := substituteBinding_withEnding h hroot hsub
      rcases hfinality with rfl | rfl
      · exact ⟨names', slash, rfl⟩
      · exact ⟨names', false, rfl⟩
    unfold detranslated at hrun
    split at hrun
    · split at hrun
      · rename_i hsub
        cases hrun
        exact ⟨hsubst hsub, .inl rfl⟩
      · rename_i hsub
        cases hrun
        exact ⟨hsubst hsub, .inr rfl⟩
      · exact removeRoot_written h hroot hrun
    · exact removeRoot_written h hroot hrun

theorem detranslatedLength_eq {status : Nat} {path : CString}
    (h : status = 0 ∨ status = path.length + 1) : detranslatedLength status path = path.length := by
  unfold detranslatedLength
  rcases h with rfl | rfl
  · rfl
  · rw [if_pos (Nat.succ_pos _), Nat.add_sub_cancel]

/-- The guest path as which PRoot sees a host path: its components, and whether a separator is
behind it. -/
def seen (w : World) (hostPath : CString) : Option (List Component × Bool) :=
  match detranslatePath w hostPath none with
  | .error _ => none
  | .ok (_, path) => some (namesOf path, path ≠ ['/'] ∧ path.getLast? = some '/')

theorem namesOf_written (names : List Component) (slash : Bool) :
    namesOf (written names slash) = names := namesOf_withEnding names _

theorem written_slash (names : List Component) (slash : Bool) :
    (decide (written names slash ≠ ['/'] ∧ (written names slash).getLast? = some '/')) =
      marked names slash := by
  by_cases hn : names = []
  · simp [hn, marked]
  · cases slash with
    | false => simp [marked, pathOf_getLast? hn]
    | true => simp [marked, written_true hn, hn, pathOf_ne_nil]

theorem seen_cases (h : w.tracee.bindings.Sorted) (hroot : w.tracee.bindings.Rooted)
    (names : List Component) (slash : Bool) :
    (∃ e, detranslatePath w (written names slash) none = .error e ∧
      seen w (written names slash) = none) ∨
    ∃ status names' slash', (slash' = true → names' ≠ []) ∧
      detranslatePath w (written names slash) none = .ok (status, written names' slash') ∧
      detranslatedLength status (written names' slash') = (written names' slash').length ∧
      seen w (written names slash) = some (names', slash') := by
  cases hrun : detranslatePath w (written names slash) none with
  | error e => exact .inl ⟨e, rfl, by rw [seen, hrun]⟩
  | ok answer =>
      obtain ⟨status, path⟩ := answer
      obtain ⟨⟨names', slash', rfl⟩, hstatus⟩ := detranslatePath_written h hroot hrun
      refine .inr ⟨status, names', marked names' slash', ?_, ?_, ?_, ?_⟩
      · intro hmarked
        simp only [marked, Bool.and_eq_true, decide_eq_true_eq] at hmarked
        exact hmarked.2
      · rw [written_marked]
      · rw [written_marked, detranslatedLength_eq hstatus]
      · rw [seen, hrun]
        dsimp only
        rw [namesOf_written, written_slash]

/-! ## Exchanging the prefix -/

def glue (a b : Component) : Component where
  chars := a.chars ++ b.chars
  isName := by
    refine ⟨by simp [a.isName.1], ?_⟩
    simp [a.isName.2, b.isName.2]
  notDot := by
    intro h
    have hlen := congrArg List.length h
    have ha := List.length_pos_of_ne_nil a.isName.1
    have hb := List.length_pos_of_ne_nil b.isName.1
    simp only [List.length_append, List.length_singleton] at hlen
    omega
  notDotDot := by
    intro h
    have hlen := congrArg List.length h
    have ha := List.length_pos_of_ne_nil a.isName.1
    have hb := List.length_pos_of_ne_nil b.isName.1
    simp only [List.length_append, List.length_cons, List.length_nil] at hlen
    obtain ⟨c, hc⟩ := List.length_eq_one_iff.mp (show a.chars.length = 1 by omega)
    rw [hc, List.singleton_append] at h
    exact a.notDot (by rw [hc, (List.cons.inj h).1])

def glued (names : List Component) (c : Component) : List Component :=
  names.dropLast ++ (names.getLast?.map (glue · c)).toList

/-- When a new prefix in the place of the old one makes the path `moved`: neither of them has a
separator behind it, or both have one and something follows; "/" isn't exchanged for itself.  Where
only the old prefix has one, two components are glued together. -/
def Joins (old new : List Component) (oldSlash newSlash : Bool) (cwd moved : List Component) :
    Prop :=
  match oldSlash, newSlash, cwd.drop old.length with
  | false, false, rest => (old = [] → new = [] → rest = []) ∧ moved = new ++ rest
  | true, true, c :: rest => moved = new ++ c :: rest
  | true, false, c :: rest => new ≠ [] ∧ moved = glued new c ++ rest
  | _, _, _ => False

def following (names : List Component) : CString := if names = [] then [] else pathOf names

theorem pathOf_append_following (h : names ≠ []) (more : List Component) :
    pathOf (names ++ more) = pathOf names ++ following more := by
  by_cases hm : more = []
  · simp [following, hm]
  · rw [following, if_neg hm, pathOf_append h hm]

theorem following_cons (c : Component) (rest : List Component) :
    following (c :: rest) = '/' :: (c.chars ++ following rest) := by
  rw [following, if_neg (List.cons_ne_nil c rest), pathOf_cons, following]

theorem pathOf_glued (h : names ≠ []) (c : Component) (rest : List Component) :
    pathOf (glued names c ++ rest) = pathOf names ++ (c.chars ++ following rest) := by
  obtain ⟨init, n, rfl⟩ := (List.eq_nil_or_concat' names).resolve_left h
  have hglued : glued (init ++ [n]) c = init ++ [glue n c] := by simp [glued]
  rw [hglued, pathOf_append_following (by simp), ← List.append_assoc]
  congr 1
  by_cases hi : init = []
  · subst hi
    simp [pathOf_cons, glue]
  · rw [pathOf_concat hi, pathOf_concat hi, glue, List.append_assoc, List.cons_append]

theorem pathOf_ne_doubled {moved : List Component} (h : names ≠ []) (more : List Component) :
    pathOf names ++ '/' :: following more ≠ pathOf moved := by
  intro heq
  have hnames := congrArg namesOf heq
  have hpieces : Lib.pieces '/' (following more) = more.map (·.chars) := by
    by_cases hm : more = []
    · simp [following, hm]
    · rw [following, if_neg hm, pieces_pathOf]
  have hback : namesOf (pathOf names ++ '/' :: following more) = names ++ more := by
    have hboth := namesOf_pathOf (names ++ more)
    rw [namesOf, pieces_pathOf, List.map_append] at hboth
    rw [namesOf, Lib.pieces_append_sep, hpieces, pieces_pathOf]
    exact hboth
  rw [hback, namesOf_pathOf] at hnames
  rw [← hnames, pathOf_append_following h] at heq
  have hlen := congrArg List.length heq
  simp at hlen

theorem chars_ne_pathOf (c : Component) (more : CString) (moved : List Component) :
    c.chars ++ more ≠ pathOf moved := by
  intro heq
  have hhead := congrArg List.head? heq
  rw [pathOf_head?, List.head?_append_of_ne_nil _ c.isName.1] at hhead
  exact c.head?_chars hhead

theorem set_pathOf_iff {moved : List Component} :
    CwdUpdate.set (pathOf names) = .set (pathOf moved) ↔ moved = names := by
  rw [CwdUpdate.set.injEq]
  exact ⟨fun h => (pathOf_injective h).symm, fun h => h ▸ rfl⟩

section Exchange

variable {old new rest moved : List Component} {oldSlash newSlash : Bool}

theorem written_length (names : List Component) {slash : Bool} (h : slash = true → names ≠ []) :
    (written names slash).length = (pathOf names).length + if slash then 1 else 0 := by
  cases slash with
  | false => rfl
  | true => simp [written_true (h rfl)]

theorem pathOf_append_length (h : old ≠ []) (rest : List Component) :
    (pathOf (old ++ rest)).length = (pathOf old).length + (following rest).length := by
  rw [pathOf_append_following h, List.length_append]

/-- The substitution when the old path was written with a separator. -/
theorem substituteCwd_slash (hold : old ≠ []) (hnew : newSlash = true → new ≠ []) :
    substituteCwd (pathOf (old ++ rest)) (written old true).length (written new newSlash)
        (written new newSlash).length = .set (pathOf moved) ↔
      Fits (written old true) (written new newSlash) (pathOf (old ++ rest)) ∧
        Joins old new true newSlash (old ++ rest) moved := by
  have hlen := pathOf_append_length hold rest
  have hpos := List.length_pos_of_ne_nil (pathOf_ne_nil old)
  have holdLength : (written old true).length = (pathOf old).length + 1 :=
    written_length old fun _ => hold
  unfold Joins
  rw [List.drop_left]
  cases rest with
  | nil =>
      -- a length is negative
      have hover : (pathOf (old ++ [])).length < (written old true).length := by
        rw [List.append_nil, holdLength]
        omega
      rw [substituteCwd, if_pos hover]
      refine iff_of_false (by rintro ⟨⟩) ?_
      cases newSlash <;> exact fun h => h.2
  | cons c rest =>
      have hfollowing := following_cons c rest
      have hdrop : (pathOf (old ++ c :: rest)).drop (written old true).length =
          c.chars ++ following rest := by
        have hsplit : pathOf old ++ '/' :: (c.chars ++ following rest) =
            written old true ++ (c.chars ++ following rest) := by simp [written_true hold]
        rw [pathOf_append_following hold, hfollowing, hsplit, List.drop_left]
      have hshort : ¬ (pathOf (old ++ c :: rest)).length < (written old true).length := by
        rw [hlen, hfollowing, holdLength, List.length_cons]
        omega
      have hrest : (pathOf (old ++ c :: rest)).length - (written old true).length ≠ 0 := by
        have hc := List.length_pos_of_ne_nil c.isName.1
        rw [hlen, hfollowing, holdLength, List.length_cons, List.length_append]
        omega
      rw [substituteCwd, if_neg hshort]
      unfold substitutePathPrefix
      by_cases hn : new = []
      · -- the new path is "/"
        subst hn
        have hslash : newSlash = false := by
          by_contra hslash
          exact hnew (by simpa using hslash) rfl
        subst hslash
        rw [if_pos (show (written [] false).length = 1 from rfl), if_pos hrest]
        dsimp only
        rw [hdrop, CwdUpdate.set.injEq]
        exact iff_of_false (chars_ne_pathOf c _ moved) (by rintro ⟨-, h, -⟩; exact h rfl)
      · have hone : (written new newSlash).length ≠ 1 := by
          have hlong : (pathOf new).length ≠ 1 := mt pathOf_length_eq_one.mp hn
          have hpos := List.length_pos_of_ne_nil (pathOf_ne_nil new)
          rw [written_length new hnew]
          split <;> omega
        have hone' : (written old true).length ≠ 1 := by omega
        rw [if_neg hone, if_neg hone', Fits, if_neg hone', or_iff_right hone]
        by_cases hfits : (pathOf (old ++ c :: rest)).length - (written old true).length +
            (written new newSlash).length ≥ pathMax
        · rw [if_pos hfits]
          exact iff_of_false (by rintro ⟨⟩) fun h => Nat.not_lt.mpr hfits h.1
        · rw [if_neg hfits]
          dsimp only
          rw [List.take_length, hdrop, and_iff_right (Nat.lt_of_not_le hfits)]
          cases newSlash with
          | true =>
              dsimp only
              rw [written_true hn, List.append_assoc, List.singleton_append, ← hfollowing,
                ← pathOf_append_following hn, set_pathOf_iff]
          | false =>
              dsimp only
              rw [written_false, ← pathOf_glued hn, and_iff_right hn, set_pathOf_iff]

theorem drop_pathOf (h : old ≠ []) (rest : List Component) :
    (pathOf (old ++ rest)).drop (pathOf old).length = following rest := by
  rw [pathOf_append_following h, List.drop_left]

theorem substituteCwd_root :
    substituteCwd (pathOf (old ++ rest)) (pathOf old).length ['/'] 1 = .set (pathOf moved) ↔
      (old = [] → rest = []) ∧ moved = rest := by
  have hshort : ¬ (pathOf (old ++ rest)).length < (pathOf old).length := by
    have := pathOf_length_mono old rest
    omega
  rw [substituteCwd, if_neg hshort, substitutePathPrefix, if_pos rfl]
  by_cases ho : old = []
  · subst ho
    cases rest with
    | nil =>
        rw [if_neg (by simp), and_iff_right fun _ => rfl]
        show CwdUpdate.set (pathOf []) = .set (pathOf moved) ↔ moved = []
        exact set_pathOf_iff
    | cons c rest =>
        -- the separator in front goes, too
        have hdrop : (pathOf ([] ++ c :: rest)).drop (pathOf []).length =
            c.chars ++ following rest := by
          rw [List.nil_append, pathOf_cons]
          rfl
        have hlong : (pathOf ([] ++ c :: rest)).length - (pathOf []).length ≠ 0 := by
          have hpos := List.length_pos_of_ne_nil c.isName.1
          rw [← List.length_drop, hdrop, List.length_append]
          omega
        rw [if_pos hlong]
        dsimp only
        rw [hdrop, CwdUpdate.set.injEq]
        exact iff_of_false (chars_ne_pathOf c _ moved) fun h => by simpa using h.1 rfl
  · have hdrop := drop_pathOf ho rest
    have hlength : (pathOf (old ++ rest)).length - (pathOf old).length = (following rest).length := by
      rw [pathOf_append_length ho, Nat.add_sub_cancel_left]
    rw [hlength, hdrop]
    have hfirst : (old = [] → rest = []) := fun h => absurd h ho
    rw [and_iff_right hfirst]
    cases rest with
    | nil =>
        rw [if_neg (by simp [following])]
        show CwdUpdate.set (pathOf []) = .set (pathOf moved) ↔ moved = []
        exact set_pathOf_iff
    | cons c rest =>
        have hlong : (following (c :: rest)).length ≠ 0 := by simp [following_cons]
        rw [if_pos hlong]
        dsimp only
        rw [following, if_neg (List.cons_ne_nil c rest), set_pathOf_iff]

/-- The substitution when the old path was written without. -/
theorem substituteCwd_plain (hn : new ≠ []) :
    substituteCwd (pathOf (old ++ rest)) (pathOf old).length (written new newSlash)
        (written new newSlash).length = .set (pathOf moved) ↔
      Fits (pathOf old) (written new newSlash) (pathOf (old ++ rest)) ∧ newSlash = false ∧
        moved = new ++ rest := by
  have hlength := @written_length new newSlash fun _ => hn
  have hone : (written new newSlash).length ≠ 1 := by
    have hlong : (pathOf new).length ≠ 1 := mt pathOf_length_eq_one.mp hn
    have hpos := List.length_pos_of_ne_nil (pathOf_ne_nil new)
    rw [hlength]
    split <;> omega
  -- the new path with what follows the old one behind it
  have hset : CwdUpdate.set (written new newSlash ++ following rest) = .set (pathOf moved) ↔
      newSlash = false ∧ moved = new ++ rest := by
    cases newSlash with
    | false => rw [written_false, ← pathOf_append_following hn, and_iff_right rfl, set_pathOf_iff]
    | true =>
        rw [CwdUpdate.set.injEq, written_true hn, List.append_assoc, List.singleton_append]
        exact iff_of_false (pathOf_ne_doubled hn rest) (by rintro ⟨⟨⟩, -⟩)
  have hshort : ¬ (pathOf (old ++ rest)).length < (pathOf old).length := by
    have := pathOf_length_mono old rest
    omega
  rw [substituteCwd, if_neg hshort, substitutePathPrefix, if_neg hone, Fits, or_iff_right hone,
    ← hset]
  by_cases ho : old = []
  · subst ho
    rw [if_pos (show (pathOf []).length = 1 from rfl), if_pos (show (pathOf []).length = 1 from rfl)]
    by_cases hfits : (written new newSlash).length + (pathOf ([] ++ rest)).length ≥ pathMax
    · rw [if_pos hfits]
      exact iff_of_false (by rintro ⟨⟩) fun h => Nat.not_lt.mpr hfits h.1
    · rw [if_neg hfits, and_iff_right (Nat.lt_of_not_le hfits)]
      cases rest with
      | nil =>
          rw [if_neg (show ¬ (pathOf ([] ++ [])).length > 1 by decide)]
          dsimp only
          rw [List.take_length, following, if_pos rfl, List.append_nil]
      | cons c rest =>
          have hlong : (pathOf ([] ++ c :: rest)).length > 1 := by
            have hne : (pathOf (c :: rest)).length ≠ 1 :=
              mt pathOf_length_eq_one.mp (List.cons_ne_nil c rest)
            have hpos := List.length_pos_of_ne_nil (pathOf_ne_nil (c :: rest))
            rw [List.nil_append]
            omega
          rw [if_pos hlong]
          dsimp only
          rw [List.take_length, following, if_neg (List.cons_ne_nil c rest), List.nil_append]
  · have hone' : (pathOf old).length ≠ 1 := mt pathOf_length_eq_one.mp ho
    rw [if_neg hone', if_neg hone', drop_pathOf ho]
    by_cases hfits : (pathOf (old ++ rest)).length - (pathOf old).length +
        (written new newSlash).length ≥ pathMax
    · rw [if_pos hfits]
      exact iff_of_false (by rintro ⟨⟩) fun h => Nat.not_lt.mpr hfits h.1
    · rw [if_neg hfits, and_iff_right (Nat.lt_of_not_le hfits)]
      dsimp only
      rw [List.take_length]

/-- **The prefix is exchanged** as it should be if and only if the result fits and the separators
join. -/
theorem substituteCwd_iff (hold : oldSlash = true → old ≠ []) (hnew : newSlash = true → new ≠ []) :
    substituteCwd (pathOf (old ++ rest)) (written old oldSlash).length (written new newSlash)
        (written new newSlash).length = .set (pathOf moved) ↔
      Fits (written old oldSlash) (written new newSlash) (pathOf (old ++ rest)) ∧
        Joins old new oldSlash newSlash (old ++ rest) moved := by
  cases oldSlash with
  | true => exact substituteCwd_slash (hold rfl) hnew
  | false =>
      rw [written_false]
      by_cases hn : new = []
      · subst hn
        have hslash : newSlash = false := by
          by_contra hslash
          exact hnew (by simpa using hslash) rfl
        subst hslash
        have hfits : Fits (pathOf old) (written [] false) (pathOf (old ++ rest)) := .inl rfl
        rw [and_iff_right hfits, Joins, List.drop_left]
        exact substituteCwd_root.trans (by simp)
      · rw [substituteCwd_plain hn]
        cases newSlash with
        | false => simp [Joins, hn]
        | true => simp [Joins]

end Exchange

/-! ## The name after the rename -/

/-- The guest name that a directory has once `old` is moved to `new`, or exchanged with it. -/
def movedTo (exchange : Bool) (old new names : List Component) : List Component :=
  if old <+: names then new ++ names.drop old.length
  else if exchange ∧ new <+: names then old ++ names.drop new.length
  else names

/-- `fs->cwd` is the name of the moved directory, and no length is negative or too big. -/
def CwdUpdate.Tracks (u : CwdUpdate) (cwd moved : List Component) : Prop :=
  match u with
  | .failed _ | .kept => moved = cwd
  | .set path => path = pathOf moved
  | .tooLong | .overrun => False

/-- When the exit of a rename finds the name `moved`: PRoot sees the old path in the working
directory or above it, and the prefixes join to this name; or it sees it elsewhere, and this is the
name already. -/
def Follows (w : World) (oldPath newPath : CString) (cwd moved : List Component) : Prop :=
  match seen w oldPath with
  | none => moved = cwd
  | some (old, oldSlash) =>
    if old <+: cwd then
      match seen w newPath with
      | none => moved = cwd
      | some (new, newSlash) =>
        Fits (written old oldSlash) (written new newSlash) (pathOf cwd) ∧
          Joins old new oldSlash newSlash cwd moved
    else moved = cwd

def RenameCall.Follows (call : RenameCall) (w : World) (oldPath newPath : CString)
    (cwd moved : List Component) : Prop :=
  match call with
  | .rename | .renameat => Syscall.Follows w oldPath newPath cwd moved
  | .renameat2 _ => moved = cwd

def RenameCall.exchange : RenameCall → Bool
  | .rename | .renameat => false
  | .renameat2 exchange => exchange

theorem substituteCwd_tracks {u : CwdUpdate} {cwd moved : List Component} {oldLength newLength : Nat}
    {path newPath : CString} (h : substituteCwd path oldLength newPath newLength = u) :
    u.Tracks cwd moved ↔ u = .set (pathOf moved) := by
  unfold substituteCwd at h
  split at h
  · subst h
    exact iff_of_false id (by rintro ⟨⟩)
  · split at h
    · subst h
      rw [CwdUpdate.set.injEq]
      rfl
    · subst h
      exact iff_of_false id (by rintro ⟨⟩)

theorem renameExit_tracks (hsorted : w.tracee.bindings.Sorted)
    (hrooted : w.tracee.bindings.Rooted) {cwd : List Component} (hcwd : w.tracee.cwd = pathOf cwd)
    (hlength : w.tracee.cwd.length < pathMax) (old new : List Component) (oldSlash newSlash : Bool)
    (moved : List Component) :
    (renameExit w (written old oldSlash) (written new newSlash)).Tracks cwd moved ↔
      Follows w (written old oldSlash) (written new newSlash) cwd moved := by
  unfold renameExit Follows
  rcases seen_cases hsorted hrooted old oldSlash with ⟨e, hfail, hseen⟩ |
    ⟨status, old', oldSlash', hold, hrun, holdLength, hseen⟩
  · rw [hfail, hseen]
    exact Iff.rfl
  rw [hrun, hseen]
  dsimp only
  have hwithin : (comparePaths (written old' oldSlash') w.tracee.cwd ≠ .path1IsPrefix ∧
      comparePaths (written old' oldSlash') w.tracee.cwd ≠ .pathsAreEqual) ↔ ¬ old' <+: cwd := by
    rw [← not_or, Or.comm, comparePaths_within (written_ne_nil _ _) (hcwd ▸ pathOf_ne_nil _),
      stem_written, hcwd, within_pathOf]
  by_cases hpre : old' <+: cwd
  swap
  · rw [if_pos (hwithin.mpr hpre), if_neg hpre]
    exact Iff.rfl
  rw [if_neg (mt hwithin.mp (not_not.mpr hpre)), if_pos hpre]
  rcases seen_cases hsorted hrooted new newSlash with ⟨e, hfail, hseen'⟩ |
    ⟨status', new', newSlash', hnew, hrun', hnewLength, hseen'⟩
  · rw [hfail, hseen']
    exact Iff.rfl
  rw [hrun', hseen']
  dsimp only
  rw [if_neg (Nat.not_le.mpr hlength), holdLength, hnewLength, hcwd]
  obtain ⟨rest, rfl⟩ := hpre
  exact (substituteCwd_tracks rfl).trans (substituteCwd_iff hold hnew)

/-! ## The system calls -/

/-- The kernel has renamed these paths: it refuses a last component that is a dot. -/
def Renamable (hostPath : CString) : Prop := (pieces '/' hostPath).getLast? ≠ some ['.']

instance (hostPath : CString) : Decidable (Renamable hostPath) :=
  inferInstanceAs (Decidable (_ ≠ _))

theorem written_of_renamable {finality : Finality}
    (h : Renamable (withEnding names finality)) : ∃ slash, withEnding names finality =
      written names slash := by
  cases finality with
  | notFinal | finalNormal => exact ⟨false, rfl⟩
  | finalSlash => exact ⟨true, rfl⟩
  | finalDot =>
      refine absurd ?_ h
      rw [pieces_withEnding]
      simp

/-- The canonical guest name of a path argument, whose last component isn't followed. -/
def GuestName (w : World) (dirFd : DirFd) (path : CString) (names : List Component) : Prop :=
  ∃ base, basePath w dirFd path = .ok base ∧
    Resolves (guestView w) false (wantsDir (joined base path)) [] (stepsOf (joined base path)) names

theorem translatePath_renamable {w' : World} (hs : Silent w) (hwalk : Walkable w)
    (hsorted : w.tracee.bindings.Sorted) (hrooted : w.tracee.bindings.Rooted) {dirFd : DirFd}
    {path hostPath : CString} (h : translatePath dirFd path false w = (.ok hostPath, w'))
    (hrenamed : Renamable hostPath) :
    w' = w ∧ (∃ names, GuestName w dirFd path names) ∧
      ∃ names slash, hostPath = written names slash := by
  obtain ⟨base, names, substituted, hbase, -, hres, -, hsub⟩ := translatePath_place hs hwalk h
  have hstill := (translatePath_still hs.glue dirFd path false).snd
  rw [h] at hstill
  refine ⟨hstill, ⟨names, base, hbase, hres⟩, ?_⟩
  obtain ⟨names', finality', rfl, -⟩ := substituteBinding_withEnding hsorted hrooted hsub
  obtain ⟨slash, hslash⟩ := written_of_renamable hrenamed
  exact ⟨names', slash, hslash⟩

/-- **`fs->cwd` follows a rename** if and only if PRoot sees the old path where it is and the
prefixes join. The moved directory is the guest name of the old path, as the bindings show it. -/
theorem rename_tracks_iff {call : RenameCall} {w w₁ w₂ : World} (hs : Silent w)
    (hlaws : HostLaws w) (hsorted : w.tracee.bindings.Sorted)
    (hrooted : w.tracee.bindings.Rooted) {cwd : List Component} (hcwd : w.tracee.cwd = pathOf cwd)
    (hlength : w.tracee.cwd.length < pathMax) {oldDir newDir : DirFd}
    {oldPath newPath oldHost newHost : CString}
    (hold : translatePath oldDir oldPath false w = (.ok oldHost, w₁))
    (hnew : translatePath newDir newPath false w₁ = (.ok newHost, w₂))
    (holdRenamed : Renamable oldHost) (hnewRenamed : Renamable newHost) :
    w₂ = w ∧ ∃ old new, GuestName w oldDir oldPath old ∧ GuestName w newDir newPath new ∧
      ((call.exit w oldHost newHost).Tracks cwd (movedTo call.exchange old new cwd) ↔
        call.Follows w oldHost newHost cwd (movedTo call.exchange old new cwd)) := by
  have hwalk : Walkable w := ⟨hsorted.wellFormed hrooted, hs.toQuiet, hlaws⟩
  obtain ⟨rfl, ⟨old, holdName⟩, oldNames, oldSlash, rfl⟩ :=
    translatePath_renamable hs hwalk hsorted hrooted hold holdRenamed
  obtain ⟨rfl, ⟨new, hnewName⟩, newNames, newSlash, rfl⟩ :=
    translatePath_renamable hs hwalk hsorted hrooted hnew hnewRenamed
  refine ⟨rfl, old, new, holdName, hnewName, ?_⟩
  cases call with
  | rename | renameat =>
      exact renameExit_tracks hsorted hrooted hcwd hlength oldNames newNames oldSlash newSlash _
  | renameat2 exchange => exact Iff.rfl

def nestedWorld : World :=
  { mountedNameSpace.world with
    tracee := { mountedNameSpace.world.tracee with cwd := "/a/b".toList } }

theorem nestedWorld_silent : Silent nestedWorld where
  glue := rfl
  hostPath _ _ := rfl
  guestPath _ _ := rfl
  translatedPath _ := rfl

theorem nestedWorld_laws : HostLaws nestedWorld := by
  refine ⟨⟨nofun, nofun⟩, ?_, by decide⟩
  intro path _ hlink
  cases hlink

theorem rename_tracks_parent : ∃ old new, GuestName nestedWorld .cwd "/a".toList old ∧
      GuestName nestedWorld .cwd "/c".toList new ∧
      ((RenameCall.rename.exit nestedWorld "/a".toList "/c".toList).Tracks (namesOf "/a/b".toList)
          (movedTo false old new (namesOf "/a/b".toList)) ↔
        RenameCall.rename.Follows nestedWorld "/a".toList "/c".toList (namesOf "/a/b".toList)
          (movedTo false old new (namesOf "/a/b".toList))) := by
  obtain ⟨hsorted, hrooted⟩ := reached_sorted mountedNameSpace_reached rfl
  have hold : translatePath .cwd "/a".toList false nestedWorld = (.ok "/a".toList, nestedWorld) := rfl
  have hnew : translatePath .cwd "/c".toList false nestedWorld = (.ok "/c".toList, nestedWorld) := rfl
  exact (@rename_tracks_iff .rename _ _ _ nestedWorld_silent nestedWorld_laws hsorted hrooted
    (namesOf "/a/b".toList) rfl (by decide) _ _ _ _ _ _ hold hnew (by decide) (by decide)).2

/-- The working directory itself is moved, with a separator behind its name: the length of what
follows it is negative. -/
theorem rename_overruns :
    translatePath .cwd "/a/b/".toList false nestedWorld = (.ok "/a/b/".toList, nestedWorld) ∧
      translatePath .cwd "/c".toList false nestedWorld = (.ok "/c".toList, nestedWorld) ∧
      RenameCall.rename.exit nestedWorld "/a/b/".toList "/c".toList = .overrun ∧
      ¬ (RenameCall.rename.exit nestedWorld "/a/b/".toList "/c".toList).Tracks
        (namesOf "/a/b".toList) (movedTo false (namesOf "/a/b".toList) (namesOf "/c".toList)
          (namesOf "/a/b".toList)) := by
  have hexit : RenameCall.rename.exit nestedWorld "/a/b/".toList "/c".toList = .overrun := rfl
  refine ⟨rfl, rfl, hexit, ?_⟩
  rw [hexit]
  exact id

end Improot.Syscall
