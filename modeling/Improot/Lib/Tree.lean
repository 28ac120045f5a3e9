import Improot.Lib.Resolve

/-!
# Trees of directories

Nodes with entries under names, among them links.  A path is walked through links, of which a bounded
number is followed, or plainly.  A tree grows by new nodes and shrinks by the removal of entries.
A walk that succeeds still does in a tree that has grown, and a place that is reached plainly in a
tree that has shrunk was there before.
-/

namespace Improot.Lib

/-- Nodes, of which those from `next` on are unused, and the entries of the directories. -/
structure Tree (Name : Type) where
  root : Nat
  next : Nat
  entries : Nat → List (Name × Nat)
  parent : Nat → Nat
  link : Nat → Option (Route Name)
  root_lt : root < next
  entries_lt : ∀ d e, e ∈ entries d → e.2 < next
  parent_lt : ∀ d, d < next → parent d < next
  /-- A link holds no entries, and neither does an unused node. -/
  link_entries : ∀ i, link i ≠ none → entries i = []
  unused : ∀ i, next ≤ i → entries i = []

namespace Tree

variable {Name : Type} [DecidableEq Name] {t t' : Tree Name}

/-! ## Looking up -/

def entry (t : Tree Name) (d : Nat) (n : Name) : Option Nat :=
  ((t.entries d).find? fun e => e.1 = n).map (·.2)

variable {i links : Nat} {path : List Name}

variable {d : Nat} {n : Name}

theorem entry_mem (h : t.entry d n = some i) : (n, i) ∈ t.entries d := by
  obtain ⟨e, he, rfl⟩ := Option.map_eq_some_iff.mp h
  have hname := List.find?_some he
  rw [decide_eq_true_iff] at hname
  rw [← hname]
  exact List.mem_of_find?_eq_some he

theorem entry_isSome {e : Name × Nat} (h : e ∈ t.entries d) :
    ∃ i, t.entry d e.1 = some i := by
  unfold entry
  cases hfind : (t.entries d).find? fun e' => e'.1 = e.1 with
  | none => exact absurd (decide_eq_true rfl) (List.find?_eq_none.mp hfind e h)
  | some e' => exact ⟨e'.2, rfl⟩

theorem entry_lt (h : t.entry d n = some i) : i < t.next :=
  t.entries_lt d _ (entry_mem h)

/-- A node that has entries is no link. -/
theorem link_eq_none (h : t.entry d n = some i) : t.link d = none := by
  by_contra hlink
  have hmem := entry_mem h
  rw [t.link_entries d hlink] at hmem
  cases hmem

def plain (t : Tree Name) : Nat → List Name → Option Nat
  | d, [] => some d
  | d, n :: ns => (t.entry d n).bind fun i => t.plain i ns

/-- Walks up to the first link, which `follow` goes on from. -/
def walkWith (t : Tree Name) (follow : Nat → List (Step Name) → Option Nat) :
    Nat → List (Step Name) → Option Nat
  | d, [] => some d
  | d, .parent :: steps => t.walkWith follow (t.parent d) steps
  | d, .name n :: steps =>
    (t.entry d n).bind fun i =>
      (t.link i).elim (t.walkWith follow i steps) fun route =>
        follow (if route.absolute then t.root else d) (route.steps ++ steps)

/-- Walks through links, of which it follows `links` at most. -/
def walk (t : Tree Name) : (links : Nat) → Nat → List (Step Name) → Option Nat
  | 0 => t.walkWith fun _ _ => none
  | links + 1 => t.walkWith (t.walk links)

/-- The directory and the name that a path ends in; the root has none. -/
def locate (t : Tree Name) (links : Nat) (path : List Name) : Option (Nat × Name) :=
  path.getLast?.bind fun n =>
    (t.walk links t.root (path.dropLast.map .name)).map fun d => (d, n)

/-- The node a path leads to, where a link at the end isn't followed. -/
def find (t : Tree Name) (links : Nat) (path : List Name) : Option Nat :=
  (t.locate links path).bind fun place => t.entry place.1 place.2

/-! ## Walks -/

theorem plain_append (d : Nat) (ns ms : List Name) :
    t.plain d (ns ++ ms) = (t.plain d ns).bind fun i => t.plain i ms := by
  induction ns generalizing d with
  | nil => rfl
  | cons n ns ih =>
      show (t.entry d n).bind _ = ((t.entry d n).bind _).bind _
      rw [Option.bind_assoc]
      congr 1
      funext i
      exact ih i

theorem plain_concat (d : Nat) (ns : List Name) (n : Name) :
    t.plain d (ns ++ [n]) = (t.plain d ns).bind fun i => t.entry i n := by
  rw [plain_append]
  congr 1
  funext i
  exact Option.bind_fun_some (t.entry i n)

/-- **A plain walk to a directory** is what a walk through links does. -/
theorem walkWith_of_plain {follow : Nat → List (Step Name) → Option Nat}
    {ns : List Name} (h : t.plain d ns = some i) (hlink : t.link i = none) :
    t.walkWith follow d (ns.map .name) = some i := by
  induction ns generalizing d with
  | nil => exact h
  | cons n ns ih =>
      obtain ⟨j, hj, hrest⟩ := Option.bind_eq_some_iff.mp h
      have hnone : t.link j = none := by
        cases ns with
        | nil =>
            cases hrest
            exact hlink
        | cons m ns =>
            obtain ⟨k, hk, -⟩ := Option.bind_eq_some_iff.mp hrest
            exact link_eq_none hk
      show (t.entry d n).bind _ = _
      rw [hj, Option.bind_some, hnone]
      exact ih hrest

theorem walk_of_plain {ns : List Name} (h : t.plain d ns = some i)
    (hlink : t.link i = none) : t.walk links d (ns.map .name) = some i := by
  cases links with
  | zero | succ => exact walkWith_of_plain h hlink

/-- A place that is reached plainly is found. -/
theorem locate_of_plain (hd : t.plain t.root path = some d) (hi : t.entry d n = some i) :
    t.locate links (path ++ [n]) = some (d, n) := by
  rw [locate, List.getLast?_concat, List.dropLast_concat, Option.bind_some,
    walk_of_plain hd (link_eq_none hi)]
  rfl

theorem walkWith_append {follow : Nat → List (Step Name) → Option Nat}
    {ys : List (Step Name)} (hwalk : ∃ links, t.walk links = t.walkWith follow)
    (hfollow : ∀ d xs, follow d (xs ++ ys) = some i →
      ∃ links j, follow d xs = some j ∧ t.walk links j ys = some i)
    {xs : List (Step Name)} (h : t.walkWith follow d (xs ++ ys) = some i) :
    ∃ links j, t.walkWith follow d xs = some j ∧ t.walk links j ys = some i := by
  induction xs generalizing d with
  | nil =>
      obtain ⟨links, hsame⟩ := hwalk
      rw [← hsame] at h
      exact ⟨links, d, rfl, h⟩
  | cons x xs ih =>
      cases x with
      | parent => exact ih h
      | name n =>
          obtain ⟨j, hj, h⟩ := Option.bind_eq_some_iff.mp h
          have hnext : ∃ links k, (t.link j).elim (t.walkWith follow j xs) (fun route =>
              follow (if route.absolute then t.root else d) (route.steps ++ xs)) = some k ∧
                t.walk links k ys = some i := by
            cases hlink : t.link j with
            | none =>
                rw [hlink] at h
                exact ih h
            | some route =>
                rw [hlink] at h
                change follow _ (route.steps ++ (xs ++ ys)) = some i at h
                rw [← List.append_assoc] at h
                exact hfollow _ _ h
          obtain ⟨links, k, hk, hrest⟩ := hnext
          refine ⟨links, k, ?_, hrest⟩
          show (t.entry d n).bind _ = _
          rw [hj]
          exact hk

/-- A walk goes through the places before its end. -/
theorem walk_append {xs ys : List (Step Name)} (h : t.walk links d (xs ++ ys) = some i) :
    ∃ links' j, t.walk links d xs = some j ∧ t.walk links' j ys = some i := by
  induction links generalizing d xs with
  | zero => exact walkWith_append ⟨0, rfl⟩ (fun _ _ hnone => by cases hnone) h
  | succ links ih => exact walkWith_append ⟨links + 1, rfl⟩ (fun _ _ h => ih h) h

/-- **What a path leads through can be found.** -/
theorem find_of_append {more : List Name}
    (h : t.find links (path ++ [n] ++ more) = some i) (hmore : more ≠ []) :
    ∃ j, t.find links (path ++ [n]) = some j := by
  obtain ⟨⟨d, m⟩, hplace, -⟩ := Option.bind_eq_some_iff.mp h
  obtain ⟨m', -, hplace⟩ := Option.bind_eq_some_iff.mp hplace
  obtain ⟨d', hwalk, -⟩ := Option.map_eq_some_iff.mp hplace
  rw [List.dropLast_append_of_ne_nil hmore, List.map_append, List.map_append, List.append_assoc]
    at hwalk
  obtain ⟨links', k, hk, hrest⟩ := walk_append hwalk
  have hentry : ∃ j, t.entry k n = some j := by
    cases links' with
    | zero | succ =>
        obtain ⟨j, hj, -⟩ := Option.bind_eq_some_iff.mp hrest
        exact ⟨j, hj⟩
  obtain ⟨j, hj⟩ := hentry
  refine ⟨j, ?_⟩
  rw [find, locate, List.getLast?_concat, List.dropLast_concat, Option.bind_some, hk,
    Option.map_some, Option.bind_some]
  exact hj

/-! ## Growing -/

/-- A tree has grown to another one: what was there still is. -/
structure Grows (t t' : Tree Name) : Prop where
  root : t'.root = t.root
  next : t.next ≤ t'.next
  entry : ∀ d n i, t.entry d n = some i → t'.entry d n = some i
  link : ∀ i, i < t.next → t'.link i = t.link i
  parent : ∀ d, d < t.next → t'.parent d = t.parent d

theorem Grows.refl (t : Tree Name) : Grows t t :=
  ⟨rfl, Nat.le_refl _, fun _ _ _ h => h, fun _ _ => rfl, fun _ _ => rfl⟩

theorem Grows.walkWith (h : Grows t t') {follow follow' : Nat → List (Step Name) → Option Nat}
    (hfollow : ∀ d steps i, d < t.next → follow d steps = some i → follow' d steps = some i)
    {steps : List (Step Name)} (hd : d < t.next)
    (hwalk : t.walkWith follow d steps = some i) : t'.walkWith follow' d steps = some i := by
  induction steps generalizing d with
  | nil => exact hwalk
  | cons step steps ih =>
      cases step with
      | parent =>
          show t'.walkWith follow' (t'.parent d) steps = some i
          rw [h.parent d hd]
          exact ih (t.parent_lt d hd) hwalk
      | name n =>
          obtain ⟨j, hj, hwalk⟩ := Option.bind_eq_some_iff.mp hwalk
          have hlt := entry_lt hj
          show (t'.entry d n).bind _ = _
          rw [h.entry d n j hj, Option.bind_some, h.link j hlt]
          cases hlink : t.link j with
          | none =>
              rw [hlink] at hwalk
              exact ih hlt hwalk
          | some route =>
              rw [hlink] at hwalk
              show follow' (if route.absolute then t'.root else d) _ = some i
              rw [h.root]
              refine hfollow _ _ _ ?_ hwalk
              split
              · exact t.root_lt
              · exact hd

/-- A walk in a tree that has grown. -/
theorem Grows.walk (h : Grows t t') {steps : List (Step Name)}
    (hd : d < t.next) (hwalk : t.walk links d steps = some i) : t'.walk links d steps = some i := by
  induction links generalizing d i steps with
  | zero => exact h.walkWith (fun _ _ _ _ hnone => hnone) hd hwalk
  | succ links ih => exact h.walkWith (fun _ _ _ hd hwalk => ih hd hwalk) hd hwalk

/-- Paths end in the same place in a tree that has grown. -/
theorem Grows.locate (h : Grows t t') {place : Nat × Name}
    (hplace : t.locate links path = some place) : t'.locate links path = some place := by
  obtain ⟨m, hlast, hplace⟩ := Option.bind_eq_some_iff.mp hplace
  obtain ⟨d, hwalk, hsame⟩ := Option.map_eq_some_iff.mp hplace
  rw [Tree.locate, hlast, Option.bind_some, h.root, h.walk t.root_lt hwalk, Option.map_some, hsame]

/-- **What is found is found in a tree that has grown.** -/
theorem Grows.find (h : Grows t t')
    (hfind : t.find links path = some i) : t'.find links path = some i := by
  obtain ⟨place, hplace, hentry⟩ := Option.bind_eq_some_iff.mp hfind
  rw [Tree.find, h.locate hplace, Option.bind_some]
  exact h.entry place.1 place.2 i hentry

/-- A new node `n` in the directory `d`. -/
def make (t : Tree Name) (d : Nat) (n : Name) (hd : d < t.next) (hlink : t.link d = none) :
    Tree Name where
  root := t.root
  next := t.next + 1
  entries other :=
    if other = d then t.entries d ++ [(n, t.next)] else t.entries other
  parent other := if other = t.next then d else t.parent other
  link other := if other = t.next then none else t.link other
  root_lt := Nat.lt_succ_of_lt t.root_lt
  entries_lt other e he := by
    split at he
    · rcases List.mem_append.mp he with he | he
      · exact Nat.lt_succ_of_lt (t.entries_lt d e he)
      · rw [List.mem_singleton.mp he]
        exact Nat.lt_succ_self t.next
    · exact Nat.lt_succ_of_lt (t.entries_lt other e he)
  parent_lt other hother := by
    split
    · exact Nat.lt_succ_of_lt hd
    · exact Nat.lt_succ_of_lt (t.parent_lt other (by omega))
  link_entries other hother := by
    split at hother
    · exact absurd rfl hother
    · split
      case isTrue heq =>
        rw [heq] at hother
        exact absurd hlink hother
      case isFalse hne => exact t.link_entries other hother
  unused other hother := by
    rw [if_neg (by omega)]
    exact t.unused other (by omega)

section Make

variable {d : Nat} {n : Name} (hd : d < t.next) (hlink : t.link d = none)

include hd hlink

/-- The new entry. -/
theorem entry_make_self (hnew : t.entry d n = none) :
    (t.make d n hd hlink).entry d n = some t.next := by
  show ((if d = d then _ else _ : List (Name × Nat)).find? _).map _ = _
  rw [if_pos rfl, List.find?_append]
  have hnone : (t.entries d).find? (fun e => e.1 = n) = none := Option.map_eq_none_iff.mp hnew
  rw [hnone, Option.none_or, List.find?_cons_of_pos (by rw [decide_eq_true_iff])]
  rfl

/-- The other entries. -/
theorem entry_make_of_ne {other : Nat} {m : Name} (h : other ≠ d ∨ m ≠ n) :
    (t.make d n hd hlink).entry other m = t.entry other m := by
  show ((if other = d then _ else _ : List (Name × Nat)).find? _).map _ = _
  split
  case isFalse hne => rfl
  case isTrue heq =>
    subst heq
    have hm : ¬ n = m := fun hm => h.elim (fun hne => hne rfl) fun hne => hne hm.symm
    rw [List.find?_append, List.find?_cons_of_neg (by rw [decide_eq_true_iff]; exact hm),
      List.find?_nil, Option.or_none]
    rfl

theorem grows_make (hnew : t.entry d n = none) : Grows t (t.make d n hd hlink) where
  root := rfl
  next := Nat.le_succ t.next
  entry other m i hi := by
    rw [entry_make_of_ne hd hlink]
    · exact hi
    · by_contra hsame
      simp only [not_or, not_not] at hsame
      rw [hsame.1, hsame.2, hnew] at hi
      cases hi
  link i hi := if_neg (Nat.ne_of_lt hi)
  parent other hother := if_neg (Nat.ne_of_lt hother)

end Make

/-! ## Shrinking -/

def remove (t : Tree Name) (d : Nat) (n : Name) : Tree Name where
  root := t.root
  next := t.next
  entries other :=
    if other = d then (t.entries d).filter fun e => e.1 ≠ n else t.entries other
  parent := t.parent
  link := t.link
  root_lt := t.root_lt
  entries_lt other e he := by
    split at he
    · exact t.entries_lt d e (List.mem_of_mem_filter he)
    · exact t.entries_lt other e he
  parent_lt := t.parent_lt
  link_entries other hother := by
    split
    case isTrue heq =>
      rw [← heq, t.link_entries other hother]
      rfl
    case isFalse hne => exact t.link_entries other hother
  unused other hother := by
    split
    case isTrue heq =>
      rw [← heq, t.unused other hother]
      rfl
    case isFalse hne => exact t.unused other hother

theorem entry_remove_self (t : Tree Name) (d : Nat) (n : Name) :
    (t.remove d n).entry d n = none := by
  show ((if d = d then _ else _ : List (Name × Nat)).find? _).map _ = _
  rw [if_pos rfl, Option.map_eq_none_iff, List.find?_eq_none]
  intro e he hname
  have hne := List.of_mem_filter he
  rw [decide_eq_true_iff] at hname hne
  exact hne hname

theorem entry_remove_of_ne {other : Nat} {m : Name} (h : other ≠ d ∨ m ≠ n) :
    (t.remove d n).entry other m = t.entry other m := by
  show ((if other = d then _ else _ : List (Name × Nat)).find? _).map _ = _
  split
  case isFalse hne => rfl
  case isTrue heq =>
    subst heq
    have hm : m ≠ n := h.elim (fun hne => absurd rfl hne) id
    rw [entry, List.find?_filter]
    congr 2
    funext e
    by_cases he : e.1 = m
    · simp [he, hm]
    · simp [he]

structure Shrinks (t t' : Tree Name) : Prop where
  root : t'.root = t.root
  entry : ∀ d n i, t'.entry d n = some i → t.entry d n = some i

theorem Shrinks.refl (t : Tree Name) : Shrinks t t := ⟨rfl, fun _ _ _ h => h⟩

theorem Shrinks.trans {t'' : Tree Name} (h : Shrinks t t') (h' : Shrinks t' t'') :
    Shrinks t t'' :=
  ⟨h'.root.trans h.root, fun d n i hi => h.entry d n i (h'.entry d n i hi)⟩

theorem shrinks_remove (t : Tree Name) (d : Nat) (n : Name) : Shrinks t (t.remove d n) where
  root := rfl
  entry other m i hi := by
    by_cases hsame : other = d ∧ m = n
    · rw [hsame.1, hsame.2, entry_remove_self] at hi
      cases hi
    · rwa [entry_remove_of_ne (not_and_or.mp hsame)] at hi

/-- What is reached plainly in a tree that has shrunk. -/
theorem Shrinks.plain (h : Shrinks t t') {ns : List Name}
    (hplain : t'.plain d ns = some i) : t.plain d ns = some i := by
  induction ns generalizing d with
  | nil => exact hplain
  | cons n ns ih =>
      obtain ⟨j, hj, hrest⟩ := Option.bind_eq_some_iff.mp hplain
      show (t.entry d n).bind _ = _
      rw [h.entry d n j hj, Option.bind_some]
      exact ih hrest

end Tree

end Improot.Lib
