import Mathlib.Data.List.Basic
import Mathlib.Data.List.Flatten
import Mathlib.Data.List.TakeWhile

/-!
# Texts of lines

A text that is read line by line: each line is ended by a terminator and gives one item.  And a line
that is read field by field, between blanks.
-/

namespace Improot.Lib

variable {α β : Type*}

/-! ## Fields -/

def fields (blank : α → Bool) (s : List α) : List (List α) :=
  (s.splitOnP blank).filter fun f => !f.isEmpty

structure IsField (blank : α → Bool) (f : List α) : Prop where
  ne_nil : f ≠ []
  plain : ∀ c ∈ f, blank c = false

variable {s : List α}

section Fields

variable {blank : α → Bool}

@[simp] theorem fields_nil : fields blank [] = [] := rfl

theorem fields_append_cons (s : List α) {b : α} (hb : blank b) (t : List α) :
    fields blank (s ++ b :: t) = fields blank s ++ fields blank t := by
  unfold fields
  rw [List.splitOnP_append_cons s t hb, List.filter_append]

variable {f : List α}

theorem isField_of_all (hne : f ≠ []) (h : f.all (fun c => !blank c) = true) :
    IsField blank f := by
  refine ⟨hne, ?_⟩
  intro c hc
  have hc := List.all_eq_true.mp h c hc
  simpa using hc

theorem fields_of_isField (h : IsField blank f) : fields blank f = [f] := by
  unfold fields
  rw [List.splitOnP_eq_singleton h.plain]
  simp [h.ne_nil]

/-- The first field of a text that starts with one. -/
theorem fields_cons (h : IsField blank f) {b : α} (hb : blank b) (t : List α) :
    fields blank (f ++ b :: t) = f :: fields blank t := by
  rw [fields_append_cons f hb, fields_of_isField h, List.singleton_append]

/-- A field is no longer than the text, and shorter when there is a blank. -/
theorem length_le_of_mem_fields (h : f ∈ fields blank s) :
    f.length ≤ s.length ∧ ((∃ c ∈ s, blank c) → f.length < s.length) := by
  induction hn : s.length using Nat.strongRecOn generalizing s with
  | ind n ih =>
    subst hn
    by_cases hblank : ∃ c ∈ s, blank c
    · obtain ⟨b, hmem, hb⟩ := hblank
      obtain ⟨pre, post, rfl⟩ := List.append_of_mem hmem
      rw [fields_append_cons pre hb, List.mem_append] at h
      have hlength : (pre ++ b :: post).length = pre.length + post.length + 1 := by
        rw [List.length_append, List.length_cons]
        omega
      have hlt : f.length < (pre ++ b :: post).length := by
        rcases h with h | h
        · have := (ih _ (by omega) h rfl).1
          omega
        · have := (ih _ (by omega) h rfl).1
          omega
      exact ⟨Nat.le_of_lt hlt, fun _ => hlt⟩
    · have hplain : ∀ c ∈ s, blank c = false := by
        intro c hc
        by_contra hne
        exact hblank ⟨c, hc, by simpa using hne⟩
      unfold fields at h
      rw [List.splitOnP_eq_singleton hplain] at h
      obtain rfl := List.mem_singleton.mp (List.mem_of_mem_filter h)
      exact ⟨Nat.le_refl _, fun hb => absurd hb hblank⟩

end Fields

/-! ## Lines -/

section Lines

def unlines (nl : α) (lines : List (List α)) : List α := lines.flatMap (· ++ [nl])

theorem unlines_cons (nl : α) (s : List α) (lines : List (List α)) :
    unlines nl (s :: lines) = s ++ nl :: unlines nl lines := by
  simp [unlines]

variable [DecidableEq α] (nl : α) (p : List α → Option β)

/-- Reads the items of a text, behind the part `line` of its first line. -/
def parseLines (line : List α) : List α → Option (List β)
  | [] => if line.isEmpty then some [] else none
  | c :: cs =>
    if c = nl then (p line).bind fun b => (parseLines [] cs).map (b :: ·)
    else parseLines (line ++ [c]) cs

variable {nl p}

@[simp] theorem parseLines_nil : parseLines nl p [] [] = some [] := rfl

/-- What has no terminator belongs to the first line. -/
theorem parseLines_append {line : List α} (h : nl ∉ s) (rest : List α) :
    parseLines nl p line (s ++ rest) = parseLines nl p (line ++ s) rest := by
  induction s generalizing line with
  | nil => simp
  | cons c s ih =>
      rw [List.mem_cons, not_or] at h
      rw [List.cons_append, parseLines, if_neg (Ne.symm h.1), ih h.2]
      simp

theorem parseLines_line (h : nl ∉ s) (rest : List α) :
    parseLines nl p [] (s ++ nl :: rest) =
      (p s).bind fun b => (parseLines nl p [] rest).map (b :: ·) := by
  rw [parseLines_append h, List.nil_append, parseLines, if_pos rfl]

/-- A text without a terminator gives no item. -/
theorem parseLines_unended (h : nl ∉ s) (hs : s ≠ []) :
    parseLines nl p [] s = none := by
  have hread : parseLines nl p [] (s ++ []) = parseLines nl p ([] ++ s) [] := parseLines_append h []
  rw [List.append_nil, List.nil_append] at hread
  rw [hread, parseLines]
  simp [hs]

/-- A text is cut at its first terminator. -/
theorem exists_takeWhile_append (h : nl ∈ s) :
    ∃ after, s = s.takeWhile (· ≠ nl) ++ nl :: after := by
  induction s with
  | nil => cases h
  | cons c s ih =>
      by_cases hc : c = nl
      · subst hc
        exact ⟨s, by simp⟩
      · obtain ⟨after, hafter⟩ := ih ((List.mem_cons.mp h).resolve_left (Ne.symm hc))
        refine ⟨after, ?_⟩
        rw [List.takeWhile_cons_of_pos (by simpa using hc), List.cons_append, ← hafter]

/-- The first line of a text that may be cut. -/
theorem parseLines_take_eq_cons (h : nl ∉ s) (rest : List α) (n : Nat) {b : β} {items : List β} :
    parseLines nl p [] ((s ++ nl :: rest).take n) = some (b :: items) ↔
      s.length < n ∧ p s = some b ∧
        parseLines nl p [] (rest.take (n - s.length - 1)) = some items := by
  by_cases hn : s.length < n
  · obtain ⟨k, rfl⟩ : ∃ k, n = s.length + 1 + k := ⟨n - s.length - 1, by omega⟩
    have htake : (s ++ nl :: rest).take (s.length + 1 + k) = s ++ nl :: rest.take k := by
      rw [Nat.add_assoc, List.take_length_add_append, Nat.add_comm 1 k, List.take_succ_cons]
    rw [htake, parseLines_line h, show s.length + 1 + k - s.length - 1 = k by omega]
    rw [eq_true hn, true_and]
    cases p s with
    | none => simp
    | some b' => cases parseLines nl p [] (rest.take k) <;> simp
  · rw [List.take_append_of_le_length (Nat.not_lt.mp hn)]
    refine iff_of_false ?_ fun h' => hn h'.1
    intro hread
    have hplain : nl ∉ s.take n := fun hmem => h (List.mem_of_mem_take hmem)
    by_cases hnil : s.take n = []
    · rw [hnil] at hread
      cases hread
    · rw [parseLines_unended hplain hnil] at hread
      cases hread

/-- **What is read back of a text that may be cut.**  Where the first line of each text gives the item
of the text only if it is the whole text, the items are read back if and only if each text is one
line that gives its item, and nothing is cut. -/
theorem parseLines_take_iff {texts : List (List α)} {items : List β}
    (hfirst : List.Forall₂ (fun s b => p (s.takeWhile (· ≠ nl)) = some b → nl ∉ s) texts items)
    (n : Nat) :
    parseLines nl p [] ((unlines nl texts).take n) = some items ↔
      List.Forall₂ (fun s b => nl ∉ s ∧ p s = some b) texts items ∧ (unlines nl texts).length ≤ n := by
  induction hfirst generalizing n with
  | nil => exact iff_of_true (by simp [unlines]) ⟨.nil, Nat.zero_le n⟩
  | @cons s b texts items hs _ ih =>
      rw [unlines_cons, List.forall₂_cons]
      by_cases hmem : nl ∈ s
      · -- the first line is not the whole text
        refine iff_of_false ?_ fun h => h.1.1.1 hmem
        obtain ⟨after, hsplit⟩ : ∃ after, s = s.takeWhile (· ≠ nl) ++ nl :: after :=
          exists_takeWhile_append hmem
        have hplain : nl ∉ s.takeWhile (· ≠ nl) := fun h => by
          simpa using List.mem_takeWhile_imp h
        intro hread
        rw [hsplit, List.append_assoc, List.cons_append, parseLines_take_eq_cons hplain] at hread
        exact hs hread.2.1 hmem
      · rw [parseLines_take_eq_cons hmem, ih]
        have hlength : (s ++ nl :: unlines nl texts).length =
            s.length + 1 + (unlines nl texts).length := by
          rw [List.length_append, List.length_cons]
          omega
        rw [hlength]
        constructor
        · intro ⟨hn, hread, hrest, hfits⟩
          exact ⟨⟨⟨hmem, hread⟩, hrest⟩, by omega⟩
        · intro ⟨⟨⟨_, hread⟩, hrest⟩, hfits⟩
          exact ⟨by omega, hread, hrest, by omega⟩

end Lines

end Improot.Lib
