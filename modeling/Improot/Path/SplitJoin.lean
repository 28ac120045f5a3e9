import Improot.Path.Length
import Improot.Path.Straight

/-!
# Splitting and joining

`next_component` called over and over lists the names of a path, `join_paths` puts them together
again, and `pop_component` takes the last one away.  The length that `next_component` accepts is
one short of what a name may have.
-/

namespace Improot.Path

open Lib (pieces render IsName)

/-! ## All the components -/

/-- The calls of `next_component` up to a final component or an error: what they yield, and the
error that ended them.  `none` is a run that has not ended yet. -/
def nextComponents : Nat → CString → Option (List (Finality × CString) × Option Errno)
  | 0, _ => none
  | fuel + 1, cursor =>
    match nextComponent cursor with
    | .error e => some ([], some e)
    | .ok (finality, component, cursor) =>
      if finality.isFinal then some ([(finality, component)], none)
      else
        (nextComponents fuel cursor).map fun (yielded, error) =>
          ((finality, component) :: yielded, error)

/-- The components joined one by one onto `base`. -/
def joinOnto (base : CString) (components : List CString) : Except Errno CString :=
  components.foldlM (fun base component => joinPaths [some base, some component]) base

/-- The buffer of `join_paths` when it returns, whatever its status: a path that doesn't fit is not
copied at all, so the buffer only grows and this is all that was written but the NUL. -/
def joinedBuffer : CString → List (Option CString) → CString
  | result, [] => result
  | result, none :: paths => joinedBuffer result paths
  | result, some path :: paths =>
    match joinPath result path with
    | .error _ => result
    | .ok result => joinedBuffer result paths

/-! ## What is expected of them -/

/-- The names of a path, of which the last one ends as `last`. -/
def endings (last : Finality) : List CString → List (Finality × CString)
  | [] => []
  | [name] => [(last, name)]
  | name :: more => (.notFinal, name) :: endings last more

def lastEnding (path : CString) : Finality :=
  if path.getLast? = some '/' then .finalSlash else .finalNormal

/-- The names of a path up to the first one longer than `limit`, which is an error. -/
def splitUpTo (limit : Nat) (path : CString) : List (Finality × CString) × Option Errno :=
  let all := endings (lastEnding path) (pieces '/' path)
  (all.takeWhile (·.2.length ≤ limit),
    if ∀ name ∈ pieces '/' path, name.length ≤ limit then none else some .enametoolong)

/-- **Splitting and joining are inverse** on a path of which `next_component` yielded `yielded`
and then possibly `error`. -/
structure SplitsAndJoins (path : CString) (yielded : List (Finality × CString))
    (error : Option Errno) : Prop where
  /-- The names, each with its ending, as far as they are not too long.  The empty component of a
  path without names is not one. -/
  splits : (yielded.filter (·.2 ≠ []), error) = splitUpTo nameMax path
  /-- Joined, they are the names with single separators, when that fits. -/
  joins : ∀ k ≤ yielded.length,
    joinOnto ['/'] ((yielded.map (·.2)).take k) =
      if (render '/' ((pieces '/' path).take k)).length + 1 < pathMax then
        .ok (render '/' ((pieces '/' path).take k))
      else .error .enametoolong
  /-- No join writes past the buffer. -/
  fits : ∀ base, ∀ name ∈ yielded.map (·.2),
    (joinedBuffer [] [some base, some name]).length < pathMax
  /-- Popping gives the path before the last join. -/
  undoes : ∀ k < yielded.length, ∀ path', joinOnto ['/'] ((yielded.map (·.2)).take (k + 1)) =
    .ok path' → joinOnto ['/'] ((yielded.map (·.2)).take k) = .ok (popComponent path')

/-! ## Splitting -/

variable {cursor path : CString}

theorem nextComponent_error {e : Errno} (h : nextComponent cursor = .error e) :
    e = .enametoolong ∧ ∃ name more, pieces '/' cursor = name :: more ∧ nameMax ≤ name.length := by
  simp only [nextComponent] at h
  split at h
  · rename_i hlong
    cases h
    refine ⟨rfl, ?_⟩
    have hne : cursor.dropWhile (· = '/') ≠ [] := by
      intro hnil
      rw [hnil] at hlong
      simp [nameMax] at hlong
    have hcons := Lib.pieces_eq_cons hne (head?_dropWhile_slash cursor)
    rw [Lib.pieces_dropWhile] at hcons
    exact ⟨_, _, hcons, hlong⟩
  · cases h

theorem nextComponent_length {component rest : CString} {finality : Finality}
    (h : nextComponent cursor = .ok (finality, component, rest)) : component.length < nameMax := by
  simp only [nextComponent] at h
  split at h
  · cases h
  · rename_i hshort
    cases h
    exact Nat.lt_of_not_le hshort

theorem nextComponent_shorter {component rest : CString} {finality : Finality}
    (h : nextComponent cursor = .ok (finality, component, rest)) (hne : cursor ≠ []) :
    rest.length < cursor.length := by
  obtain ⟨eaten, rfl, heaten⟩ := nextComponent_eats h
  have := List.length_pos_of_ne_nil (heaten hne)
  rw [List.length_append]
  omega

theorem nextComponents_run {fuel : Nat} (hfuel : cursor.length < fuel)
    (hnames : pieces '/' cursor ≠ []) :
    nextComponents fuel cursor = some (splitUpTo (nameMax - 1) cursor) := by
  induction fuel generalizing cursor with
  | zero => omega
  | succ fuel ih =>
      rw [nextComponents]
      cases hread : nextComponent cursor with
      | error e =>
          obtain ⟨rfl, name, more, hpieces, hlong⟩ := nextComponent_error hread
          have hnot : ¬ name.length ≤ nameMax - 1 := by
            simp only [nameMax] at hlong ⊢
            omega
          show some ([], some Errno.enametoolong) = _
          cases more <;> simp [splitUpTo, hpieces, endings, hnot]
      | ok r =>
          obtain ⟨finality, component, rest⟩ := r
          have hshort : component.length ≤ nameMax - 1 := by
            have := nextComponent_length hread
            simp only [nameMax] at this ⊢
            omega
          have hne : cursor ≠ [] := by
            rintro rfl
            exact hnames Lib.pieces_nil
          have hrest := nextComponent_shorter hread hne
          show (if finality.isFinal then some ([(finality, component)], none)
            else (nextComponents fuel rest).map fun (yielded, error) =>
              ((finality, component) :: yielded, error)) = _
          cases nextComponent_ok hread with
          | nothing hnil => exact absurd hnil hnames
          | last hone =>
              have hfinal : (lastEnding cursor).isFinal = true := by
                unfold lastEnding
                split <;> rfl
              rw [← lastEnding, if_pos hfinal]
              simp [splitUpTo, hone, endings, hshort]
          | more hcons hmore hsame =>
              have hending : lastEnding cursor = lastEnding rest := by
                rw [lastEnding, lastEnding, hsame]
              rw [if_neg (by simp [Finality.isFinal]), ih (by omega) hmore]
              obtain ⟨next, others, hothers⟩ := List.exists_cons_of_ne_nil hmore
              simp [splitUpTo, hcons, hothers, hending, endings, hshort]

theorem nextComponents_nameless {fuel : Nat} (hfuel : 0 < fuel) (hnames : pieces '/' cursor = []) :
    nextComponents fuel cursor = some ([(.finalNormal, [])], none) := by
  obtain ⟨fuel, rfl⟩ := Nat.exists_eq_succ_of_ne_zero (Nat.ne_of_gt hfuel)
  have hread : nextComponent cursor = .ok (.finalNormal, [], []) := by
    rw [nextComponent, pieces_eq_nil_iff.mp hnames]
    rfl
  rw [nextComponents, hread]
  rfl

/-! ## The limit -/

/-- Two tests of which one is weaker take the same elements when the first element that the other
one stops at stops both. -/
theorem takeWhile_eq_iff {α : Type*} {p q : α → Bool} (hpq : ∀ a, p a = true → q a = true)
    (l : List α) :
    l.takeWhile p = l.takeWhile q ↔ ∀ a ∈ l.find? (fun a => !p a), q a = false := by
  induction l with
  | nil => simp
  | cons a l ih =>
      by_cases hp : p a = true
      · rw [List.takeWhile_cons_of_pos hp, List.takeWhile_cons_of_pos (hpq a hp),
          List.find?_cons_of_neg (by simp [hp])]
        simpa using ih
      · rw [List.takeWhile_cons_of_neg hp, List.find?_cons_of_pos (by simp [hp])]
        cases hq : q a <;> simp [hq]

theorem map_endings (last : Finality) (names : List CString) :
    (endings last names).map (·.2) = names := by
  induction names with
  | nil => rfl
  | cons name more ih =>
      cases more with
      | nil => rfl
      | cons next more =>
          show name :: (endings last (next :: more)).map (·.2) = _
          rw [ih]

theorem map_splitUpTo (limit : Nat) (path : CString) :
    (splitUpTo limit path).1.map (·.2) = (pieces '/' path).takeWhile (·.length ≤ limit) := by
  conv_rhs => rw [← map_endings (lastEnding path) (pieces '/' path)]
  rw [List.takeWhile_map]
  rfl

/-- **The limit matters** only where the first name that exceeds the smaller one doesn't exceed the
larger one. -/
theorem splitUpTo_eq_iff {limit limit' : Nat} (hle : limit ≤ limit') (path : CString) :
    splitUpTo limit path = splitUpTo limit' path ↔
      ∀ name ∈ (pieces '/' path).find? (limit < ·.length), limit' < name.length := by
  have hmono : ∀ name : CString, decide (name.length ≤ limit) = true →
      decide (name.length ≤ limit') = true := by
    intro name hname
    simp only [decide_eq_true_eq] at hname ⊢
    omega
  have hnames := takeWhile_eq_iff hmono (pieces '/' path)
  have hneg : (fun name : CString => !decide (name.length ≤ limit)) =
      fun name => decide (limit < name.length) := by
    funext name
    simp only [← decide_not, Nat.not_le]
  rw [hneg] at hnames
  simp only [decide_eq_false_iff_not, Nat.not_le] at hnames
  rw [← hnames]
  constructor
  · intro heq
    rw [← map_splitUpTo, ← map_splitUpTo, heq]
  · intro htake
    have hall : (∀ name ∈ pieces '/' path, name.length ≤ limit) ↔
        ∀ name ∈ pieces '/' path, name.length ≤ limit' := by
      constructor
      · intro h name hname
        exact Nat.le_trans (h name hname) hle
      · intro h
        have hwhole : (pieces '/' path).takeWhile (·.length ≤ limit) = pieces '/' path := by
          rw [htake, List.takeWhile_eq_self_iff]
          simpa using h
        rw [List.takeWhile_eq_self_iff] at hwhole
        simpa using hwhole
    have hyields : (endings (lastEnding path) (pieces '/' path)).takeWhile (·.2.length ≤ limit) =
        (endings (lastEnding path) (pieces '/' path)).takeWhile (·.2.length ≤ limit') := by
      have hlen := congrArg List.length htake
      rw [← map_splitUpTo, ← map_splitUpTo, List.length_map, List.length_map] at hlen
      exact (List.prefix_of_prefix_length_le (List.takeWhile_prefix _) (List.takeWhile_prefix _)
        (Nat.le_of_eq hlen)).eq_of_length hlen
    simp only [splitUpTo, hyields, hall]

/-! ## Joining -/

theorem joinPaths_eq {base : CString} (hbase : base.length + 1 < pathMax) :
    joinPaths [some base, some path] =
      if (joined base path).length + 1 < pathMax then .ok (joined base path)
      else .error .enametoolong := by
  by_cases hfits : (joined base path).length + 1 < pathMax
  · rw [if_pos hfits]
    exact joinPaths_of_fits hbase hfits
  · rw [if_neg hfits]
    have hfirst : joinPath [] base = .ok base := by
      simp only [joinPath]
      rw [if_neg (by simp), if_neg (by simp), if_neg (by simp; omega)]
      simp
    cases hsecond : joinPath base path with
    | ok s =>
        obtain rfl := joinPath_ok hsecond
        exact absurd (joinPath_length hsecond) hfits
    | error e =>
        have he : e = .enametoolong := by
          unfold joinPath at hsecond
          split_ifs at hsecond <;> cases hsecond <;> rfl
        simp [joinPaths, hfirst, hsecond, he, bind, Except.bind]

theorem joined_render {names : List CString} (hnames : ∀ n ∈ names, IsName '/' n) {name : CString}
    (hname : IsName '/' name) :
    joined (render '/' names) name = render '/' (names ++ [name]) := by
  have hhead : name.head? ≠ some '/' := by
    intro hsep
    obtain ⟨rest, rfl⟩ := List.head?_eq_some_iff.mp hsep
    exact hname.2 List.mem_cons_self
  by_cases hnil : names = []
  · subst hnil
    simp [joined, hhead, Lib.render_singleton]
  · rw [Lib.render_concat hnil]
    simp [joined, hhead, Lib.render_cons_ne_nil, Lib.render_getLast? hnames hnil]

theorem length_render_concat (names : List CString) {name : CString} (hname : name ≠ []) :
    (render '/' names).length < (render '/' (names ++ [name])).length := by
  have := List.length_pos_of_ne_nil hname
  by_cases hnil : names = []
  · subst hnil
    rw [List.nil_append, Lib.render_singleton, Lib.render_nil]
    simpa using this
  · rw [Lib.render_concat hnil, List.length_append, List.length_cons]
    omega

theorem joinOnto_concat (base : CString) (names : List CString) (name : CString) :
    joinOnto base (names ++ [name]) =
      (joinOnto base names).bind fun path => joinPaths [some path, some name] := by
  rw [joinOnto, List.foldlM_append]
  simp only [List.foldlM_cons, List.foldlM_nil]
  show (joinOnto base names).bind _ = _
  cases joinOnto base names with
  | error e => rfl
  | ok path => cases hjoin : joinPaths [some path, some name] <;> simp [Except.bind, hjoin, bind, pure, Except.pure]

theorem joinOnto_eq {names : List CString} (hnames : ∀ n ∈ names, IsName '/' n) :
    joinOnto ['/'] names =
      if (render '/' names).length + 1 < pathMax then .ok (render '/' names)
      else .error .enametoolong := by
  induction names using List.reverseRecOn with
  | nil => rfl
  | append_singleton names name ih =>
      have hname := hnames name (by simp)
      have hnames' : ∀ n ∈ names, IsName '/' n := fun n hn => hnames n (by simp [hn])
      have hlonger := length_render_concat names hname.1
      rw [joinOnto_concat, ih hnames']
      by_cases hfits : (render '/' names).length + 1 < pathMax
      · rw [if_pos hfits]
        show joinPaths [some (render '/' names), some name] = _
        rw [joinPaths_eq hfits, joined_render hnames' hname]
      · rw [if_neg hfits, if_neg (by omega)]
        rfl

theorem popComponent_render (names : List CString) {name : CString} (hname : IsName '/' name) :
    popComponent (render '/' (names ++ [name])) = render '/' names := by
  by_cases hnil : names = []
  · subst hnil
    have := @popComponent_append [] _ hname
    simpa [Lib.render_singleton] using this
  · rw [Lib.render_concat hnil, popComponent_append hname, if_neg (Lib.render_cons_ne_nil _)]

theorem joinedBuffer_length {result : CString} (h : result.length < pathMax)
    (paths : List (Option CString)) : (joinedBuffer result paths).length < pathMax := by
  induction paths generalizing result with
  | nil => exact h
  | cons path paths ih =>
      cases path with
      | none => exact ih h
      | some path =>
          rw [joinedBuffer]
          cases hjoin : joinPath result path with
          | error e => exact h
          | ok s => exact ih (Nat.lt_of_succ_lt (joinPath_length hjoin))

/-! ## The round trip -/

theorem take_names {k : Nat} (hk : k ≤ (splitUpTo (nameMax - 1) path).1.length) :
    ((splitUpTo (nameMax - 1) path).1.map (·.2)).take k = (pieces '/' path).take k := by
  rw [map_splitUpTo]
  have hlen : k ≤ ((pieces '/' path).takeWhile (·.length ≤ nameMax - 1)).length := by
    rwa [← map_splitUpTo, List.length_map]
  obtain ⟨rest, hrest⟩ := List.takeWhile_prefix (l := pieces '/' path) (·.length ≤ nameMax - 1)
  conv_rhs => rw [← hrest, List.take_append_of_le_length hlen]

theorem filter_splitUpTo (limit : Nat) (path : CString) :
    (splitUpTo limit path).1.filter (·.2 ≠ []) = (splitUpTo limit path).1 := by
  rw [List.filter_eq_self]
  rintro ⟨finality, name⟩ hmem
  have hname : name ∈ (splitUpTo limit path).1.map (·.2) := List.mem_map.mpr ⟨_, hmem, rfl⟩
  rw [map_splitUpTo] at hname
  have hpiece := (List.takeWhile_prefix _).subset hname
  simpa using (Lib.isName_of_mem_pieces hpiece).1

theorem joinOnto_take (path : CString) (k : Nat) :
    joinOnto ['/'] ((pieces '/' path).take k) =
      if (render '/' ((pieces '/' path).take k)).length + 1 < pathMax then
        .ok (render '/' ((pieces '/' path).take k))
      else .error .enametoolong :=
  joinOnto_eq fun _ hn => Lib.isName_of_mem_pieces (List.take_subset k _ hn)

theorem joinOnto_undone {path' : CString} {k : Nat} (hk : k < (pieces '/' path).length)
    (h : joinOnto ['/'] ((pieces '/' path).take (k + 1)) = .ok path') :
    joinOnto ['/'] ((pieces '/' path).take k) = .ok (popComponent path') := by
  have hname := Lib.isName_of_mem_pieces (List.getElem_mem hk)
  have hsnoc := List.take_succ_eq_append_getElem hk
  have hlonger := length_render_concat ((pieces '/' path).take k) hname.1
  rw [joinOnto_take, hsnoc] at h
  rw [joinOnto_take]
  split at h
  · rename_i hfits
    cases h
    rw [if_pos (by omega), popComponent_render _ hname]
  · cases h

theorem splitsAndJoins_iff (path : CString) :
    SplitsAndJoins path (splitUpTo (nameMax - 1) path).1 (splitUpTo (nameMax - 1) path).2 ↔
      splitUpTo (nameMax - 1) path = splitUpTo nameMax path := by
  constructor
  · intro h
    have hsplits := h.splits
    rwa [filter_splitUpTo] at hsplits
  · intro h
    have hlen : (splitUpTo (nameMax - 1) path).1.length ≤ (pieces '/' path).length := by
      rw [← List.length_map (·.2), map_splitUpTo]
      exact (List.takeWhile_prefix _).length_le
    refine ⟨?splits, ?joins, ?fits, ?undoes⟩
    case splits =>
      rw [filter_splitUpTo]
      exact h
    case joins =>
      intro k hk
      rw [take_names hk, joinOnto_take]
    case fits =>
      intro base name _
      exact joinedBuffer_length (by decide) _
    case undoes =>
      intro k hk path' hjoin
      rw [take_names hk] at hjoin
      rw [take_names (Nat.le_of_lt hk)]
      exact joinOnto_undone (Nat.lt_of_lt_of_le hk hlen) hjoin

theorem splitsAndJoins_nameless (hnames : pieces '/' path = []) :
    SplitsAndJoins path [(.finalNormal, [])] none := by
  have hroot : ∀ k, joinOnto ['/'] (([(Finality.finalNormal, ([] : CString))].map (·.2)).take k) =
      .ok ['/'] := by
    intro k
    cases k with
    | zero => rfl
    | succ k =>
        rw [List.take_of_length_le (by simp)]
        rfl
  refine ⟨?splits, ?joins, ?fits, ?undoes⟩
  case splits => simp [splitUpTo, hnames, endings]
  case joins =>
    intro k _
    rw [hroot, hnames, List.take_nil]
    rfl
  case fits =>
    intro base name _
    exact joinedBuffer_length (by decide) _
  case undoes =>
    intro k _ path' hjoin
    rw [hroot] at hjoin
    cases hjoin
    rw [hroot]
    rfl

/-- **Splitting a path and joining it again** is exact, if and only if the first name of `NAME_MAX`
bytes or more, if there is one, has more than that: `next_component` refuses a name of exactly
`NAME_MAX` bytes.  The calls end, and a path without names yields an empty last one. -/
theorem split_join_iff (path : CString) :
    ∃ yielded error, (∀ fuel, path.length < fuel →
        nextComponents fuel path = some (yielded, error)) ∧
      (SplitsAndJoins path yielded error ↔
        ∀ name ∈ (pieces '/' path).find? (nameMax ≤ ·.length), nameMax < name.length) ∧
      ((.finalNormal, []) ∈ yielded ↔ pieces '/' path = []) ∧
      (pieces '/' path = [] → yielded = [(.finalNormal, [])] ∧ error = none) := by
  by_cases hnames : pieces '/' path = []
  · refine ⟨_, _, fun fuel hfuel => nextComponents_nameless (by omega) hnames, ?_, ?_, ?_⟩
    · simp [splitsAndJoins_nameless hnames, hnames]
    · simp [hnames]
    · exact fun _ => ⟨rfl, rfl⟩
  · refine ⟨(splitUpTo (nameMax - 1) path).1, (splitUpTo (nameMax - 1) path).2,
      fun fuel hfuel => nextComponents_run hfuel hnames, ?_, ?_, ?_⟩
    · rw [splitsAndJoins_iff, splitUpTo_eq_iff (Nat.sub_le _ _)]
      have hsame : ∀ name : CString,
          decide (nameMax - 1 < name.length) = decide (nameMax ≤ name.length) := fun _ => rfl
      simp only [hsame]
    · refine iff_of_false ?_ hnames
      rw [← filter_splitUpTo]
      simp
    · exact fun hnil => absurd hnil hnames

/-- A name of 255 bytes, which any directory may hold, is refused. -/
theorem split_refuses_longest_name : (List.replicate nameMax 'a').length = nameMax ∧
      nextComponents (nameMax + 1) (List.replicate nameMax 'a') = some ([], some .enametoolong) ∧
      ¬ SplitsAndJoins (List.replicate nameMax 'a') [] (some .enametoolong) := by
  have hlength : (List.replicate nameMax 'a').length = nameMax := List.length_replicate
  have hname : IsName '/' (List.replicate nameMax 'a') := by
    refine ⟨List.ne_nil_of_length_pos (by rw [hlength]; decide), ?_⟩
    intro hmem
    exact absurd (List.eq_of_mem_replicate hmem) (by decide)
  generalize List.replicate nameMax 'a' = name at hlength hname
  have hpieces := Lib.pieces_name hname
  have hsplit : splitUpTo (nameMax - 1) name = ([], some .enametoolong) := by
    simp [splitUpTo, hpieces, endings, hlength, nameMax]
  refine ⟨hlength, ?_, ?_⟩
  · rw [nextComponents_run (by omega) (by simp [hpieces]), hsplit]
  · intro h
    have hsplits := h.splits
    simp [splitUpTo, hpieces, endings, hlength] at hsplits

end Improot.Path
