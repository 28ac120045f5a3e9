import Improot.Extension.Mountinfo
import Mathlib.Data.List.Forall2

/-!
# The mount table reads back

What the file in place of a mount table is read as: the lines that are kept of the real one, and one
entry for each binding, if and only if the paths of the bindings need no escapes.
-/

namespace Improot.Extension

open Improot.Lib Improot.Path

/-! ## Escapes -/

def HasEscape (s : CString) : Prop :=
  ∃ before a b c after, s = before ++ '\\' :: a :: b :: c :: after ∧ (escape? a b c).isSome

variable {f s : CString}

theorem hasEscape_cons {c : Char} :
    HasEscape (c :: s) ↔
      (c = '\\' ∧ ∃ x y z rest, s = x :: y :: z :: rest ∧ (escape? x y z).isSome) ∨ HasEscape s := by
  constructor
  · intro ⟨before, x, y, z, after, heq, hesc⟩
    cases before with
    | nil =>
        obtain ⟨rfl, rfl⟩ := List.cons.inj heq
        exact .inl ⟨rfl, x, y, z, after, rfl, hesc⟩
    | cons c' before =>
        obtain ⟨-, rfl⟩ := List.cons.inj heq
        exact .inr ⟨before, x, y, z, after, rfl, hesc⟩
  · intro h
    rcases h with ⟨rfl, x, y, z, rest, rfl, hesc⟩ | ⟨before, x, y, z, after, rfl, hesc⟩
    · exact ⟨[], x, y, z, rest, rfl, hesc⟩
    · exact ⟨c :: before, x, y, z, after, rfl, hesc⟩

/-- **Decoding shortens what it changes**: a string with an escape gets shorter, another one stays. -/
theorem unescape_cases (s : CString) :
    (HasEscape s ∧ (unescape s).length < s.length) ∨ ¬ HasEscape s ∧ unescape s = s := by
  -- a character that starts no escape is kept
  have hkeep : ∀ (c : Char) (s : CString),
      ¬ (c = '\\' ∧ ∃ x y z rest, s = x :: y :: z :: rest ∧ (escape? x y z).isSome) →
      unescape (c :: s) = c :: unescape s →
      (HasEscape s ∧ (unescape s).length < s.length ∨ ¬ HasEscape s ∧ unescape s = s) →
      HasEscape (c :: s) ∧ (unescape (c :: s)).length < (c :: s).length ∨
        ¬ HasEscape (c :: s) ∧ unescape (c :: s) = c :: s := by
    intro c s hhead heq ih
    rw [hasEscape_cons, heq, List.length_cons, List.length_cons]
    rcases ih with ⟨hesc, hlt⟩ | ⟨hesc, hsame⟩
    · exact .inl ⟨.inr hesc, Nat.succ_lt_succ hlt⟩
    · exact .inr ⟨not_or.mpr ⟨hhead, hesc⟩, by rw [hsame]⟩
  induction s using unescape.induct with
  | case1 =>
      refine .inr ⟨?_, rfl⟩
      intro ⟨before, x, y, z, after, h, _⟩
      simp at h
  | case2 a b c rest char hesc ih =>
      have hisSome : (escape? a b c).isSome := by rw [hesc]; rfl
      refine .inl ⟨⟨[], a, b, c, rest, rfl, hisSome⟩, ?_⟩
      rw [unescape, hesc]
      simp only [List.length_cons]
      rcases ih with ⟨-, h⟩ | ⟨-, h⟩
      · omega
      · rw [h]
        omega
  | case3 a b c rest hesc ih =>
      apply hkeep _ _ ?_ (by rw [unescape, hesc]) ih
      intro ⟨_, x, y, z, rest', heq, hsome⟩
      simp only [List.cons.injEq] at heq
      obtain ⟨rfl, rfl, rfl, -⟩ := heq
      rw [hesc] at hsome
      cases hsome
  | case4 c rest hc ih =>
      apply hkeep _ _ ?_ (by rw [unescape]; exact hc) ih
      intro ⟨heq, x, y, z, rest', hrest, _⟩
      exact hc x y z rest' heq hrest

theorem unescape_length_le (s : CString) : (unescape s).length ≤ s.length := by
  rcases unescape_cases s with ⟨-, h⟩ | ⟨-, h⟩
  · exact Nat.le_of_lt h
  · rw [h]

theorem unescape_eq_self_iff : unescape s = s ↔ ¬ HasEscape s := by
  rcases unescape_cases s with ⟨hesc, h⟩ | ⟨hesc, h⟩
  · refine iff_of_false (fun heq => ?_) (not_not.mpr hesc)
    rw [heq] at h
    exact Nat.lt_irrefl _ h
  · exact iff_of_true h hesc

/-- **A path that needs no escapes**: it isn't empty, and has no blank, no newline and nothing that is
read as an escape. -/
structure Plain (path : CString) : Prop where
  isField : IsField blank path
  oneLine : '\n' ∉ path
  noEscape : ¬ HasEscape path

theorem plain_of_field (hf : f ∈ fields blank s) (h : unescape f = s) :
    IsField blank s ∧ ¬ HasEscape s ∧ f = s := by
  have hle := unescape_length_le f
  rw [h] at hle
  obtain ⟨-, hlt⟩ := length_le_of_mem_fields hf
  have hplain : ∀ c ∈ s, blank c = false := by
    intro c hc
    by_contra hne
    have := hlt ⟨c, hc, by simpa using hne⟩
    omega
  have hne : s ≠ [] := by
    rintro rfl
    cases hf
  have hfs : f = s := by
    rw [fields_of_isField ⟨hne, hplain⟩] at hf
    exact List.mem_singleton.mp hf
  subst hfs
  exact ⟨⟨hne, hplain⟩, unescape_eq_self_iff.mp h, rfl⟩

theorem unescape_ne_of_newline (hs : '\n' ∈ s)
    (hf : f ∈ fields blank (s.takeWhile (· ≠ '\n'))) : unescape f ≠ s := by
  intro h
  obtain ⟨after, hafter⟩ := exists_takeWhile_append hs
  have hlength := congrArg List.length hafter
  rw [List.length_append, List.length_cons] at hlength
  have hle := unescape_length_le f
  have hfield := (length_le_of_mem_fields hf).1
  rw [h] at hle
  omega

/-! ## Lines -/

@[simp] theorem joinFields_cons_cons (f g : CString) (gs : List CString) :
    joinFields (f :: g :: gs) = f ++ ' ' :: joinFields (g :: gs) := rfl

theorem fields_joinFields {fs : List CString} (h : ∀ f ∈ fs, IsField blank f) :
    fields blank (joinFields fs) = fs := by
  induction fs with
  | nil => rfl
  | cons f fs ih =>
      rw [List.forall_mem_cons] at h
      cases fs with
      | nil => exact fields_of_isField h.1
      | cons g gs =>
          rw [joinFields_cons_cons, fields_cons h.1 (by decide), ih h.2]

theorem newline_not_mem_joinFields {fs : List CString} (h : ∀ f ∈ fs, '\n' ∉ f) :
    '\n' ∉ joinFields fs := by
  induction fs with
  | nil => exact List.not_mem_nil
  | cons f fs ih =>
      rw [List.forall_mem_cons] at h
      cases fs with
      | nil => exact h.1
      | cons g gs =>
          rw [joinFields_cons_cons, List.mem_append, List.mem_cons]
          intro hmem
          rcases hmem with hmem | hmem | hmem
          · exact h.1 hmem
          · exact absurd hmem (by decide)
          · exact ih h.2 hmem

namespace MountLine

def columns (l : MountLine) : List CString :=
  l.id.chars :: l.parent.chars :: l.dev.chars :: l.root.chars :: l.mountPoint.chars :: l.more

theorem isField_columns (l : MountLine) : ∀ f ∈ l.columns, IsField blank f ∧ '\n' ∉ f := by
  have hsep : IsField blank separator ∧ '\n' ∉ separator :=
    ⟨isField_of_all (by decide) (by decide), by decide⟩
  have hfield : ∀ f : MountField, IsField blank f.chars ∧ '\n' ∉ f.chars := fun f =>
    ⟨f.isField, f.oneLine⟩
  intro f hf
  simp only [columns, more, List.mem_cons, List.mem_append, List.mem_map, List.not_mem_nil,
    or_false] at hf
  rcases hf with rfl | rfl | rfl | rfl | rfl | rfl | ⟨g, -, rfl⟩ | rfl | rfl | rfl | rfl
  all_goals first | exact hsep | exact hfield _

theorem newline_not_mem_text (l : MountLine) : '\n' ∉ l.text :=
  newline_not_mem_joinFields fun f hf => (l.isField_columns f hf).2

theorem parseMount_text (l : MountLine) : parseMount l.text = some l.entry := by
  have hfields : fields blank l.text = l.columns :=
    fields_joinFields fun f hf => (l.isField_columns f hf).1
  have hoptional : ∀ f ∈ l.optional.map (·.chars), (f ≠ separator : Bool) = true := by
    intro f hf
    obtain ⟨g, hg, rfl⟩ := List.mem_map.mp hf
    simpa using l.optional_ne g hg
  unfold parseMount
  rw [hfields]
  unfold columns more
  dsimp only
  rw [List.dropWhile_append_of_pos hoptional, List.takeWhile_append_of_pos hoptional]
  simp [entry, separator]

end MountLine

/-! ## Columns -/

theorem space_not_mem (h : IsField blank f) : ∀ c ∈ f, (c ≠ ' ' : Bool) = true := by
  intro c hc
  have hplain := h.plain c hc
  simp only [blank, decide_eq_false_iff_not, not_or] at hplain
  simpa using hplain.1

theorem skipColumns_field (h : IsField blank f) (n : Nat) (rest : CString) :
    skipColumns (n + 1) (f ++ ' ' :: rest) =
      (skipColumns n rest).map fun (before, chunk) => (f ++ ' ' :: before, chunk) := by
  have hne : f ++ ' ' :: rest ≠ [] := by simp
  have hspace := space_not_mem h
  have hdrop : toSpace (f ++ ' ' :: rest) = ' ' :: rest := by
    unfold toSpace
    rw [List.dropWhile_append_of_pos hspace]
    rfl
  have htake : (f ++ ' ' :: rest).takeWhile (· ≠ ' ') = f := by
    rw [List.takeWhile_append_of_pos hspace]
    simp
  rw [skipColumns, if_neg hne, hdrop]
  dsimp only
  rw [htake]

namespace MountLine

def head (l : MountLine) (rest : CString) : CString :=
  l.id.chars ++ ' ' :: (l.parent.chars ++ ' ' :: (l.dev.chars ++ ' ' :: (l.root.chars ++ ' ' :: rest)))

theorem text_eq (l : MountLine) :
    l.text = l.head (l.mountPoint.chars ++ ' ' :: joinFields l.more) := rfl

theorem mountPointColumn_text (l : MountLine) :
    mountPointColumn (l.text ++ ['\n']) =
      some (l.head [], l.mountPoint.chars, ' ' :: joinFields l.more ++ ['\n']) := by
  have hspace := space_not_mem l.mountPoint.isField
  have hskip : skipColumns 4 (l.text ++ ['\n']) =
      some (l.head [], l.mountPoint.chars ++ ' ' :: (joinFields l.more ++ ['\n'])) := by
    rw [text_eq, head]
    simp only [List.append_assoc, List.cons_append]
    rw [skipColumns_field l.id.isField, skipColumns_field l.parent.isField,
      skipColumns_field l.dev.isField, skipColumns_field l.root.isField]
    rfl
  unfold mountPointColumn
  rw [hskip]
  dsimp only
  have hdrop : toSpace (l.mountPoint.chars ++ ' ' :: (joinFields l.more ++ ['\n'])) =
      ' ' :: (joinFields l.more ++ ['\n']) := by
    unfold toSpace
    rw [List.dropWhile_append_of_pos hspace]
    rfl
  rw [hdrop]
  dsimp only
  rw [List.takeWhile_append_of_pos hspace]
  simp

def rootField : MountField := ⟨['/'], isField_of_all (by decide) (by decide), by decide⟩

def asRoot (l : MountLine) : MountLine := { l with mountPoint := rootField }

theorem rootLine_text (l : MountLine) :
    rootLine (l.text ++ ['\n']) =
      if l.mountPoint.chars = "/data".toList then some (l.asRoot.text ++ ['\n']) else none := by
  unfold rootLine
  rw [mountPointColumn_text]
  dsimp only
  by_cases h : l.mountPoint.chars = "/data".toList
  · rw [if_pos h, if_pos h, h, text_eq]
    simp [asRoot, rootField, head, more]
  · rw [if_neg h, if_neg h]

theorem isStandardLine_text (l : MountLine) :
    isStandardLine (l.text ++ ['\n']) = standard l.mountPoint.chars := by
  unfold isStandardLine
  rw [mountPointColumn_text]

end MountLine

/-- **The lines that are kept** of the real table: all of them, or with a root on Android's "/data"
the line of "/data", that is the one of "/", and the standard mounts. -/
def retained (t : MountTarget) (table : List MountLine) : Option (List MountLine) :=
  if t.isAndroidData then
    (table.find? fun l => l.mountPoint.chars = "/data".toList).map fun l =>
      l.asRoot :: table.filter fun l => standard l.mountPoint.chars
  else some table

theorem flatten_lines (table : List MountLine) :
    (table.map fun l => l.text ++ ['\n']).flatten = unlines '\n' (table.map MountLine.text) := by
  simp [unlines, List.flatMap_def, List.map_map, Function.comp_def]

theorem writtenLines_eq (t : MountTarget) (table : List MountLine) :
    writtenLines t (table.map fun l => l.text ++ ['\n']) =
      (retained t table).map fun lines => unlines '\n' (lines.map MountLine.text) := by
  unfold writtenLines retained
  cases t.isAndroidData with
  | false => simp [flatten_lines]
  | true =>
      simp only [if_true, Option.map_map]
      have hfind : (table.map fun l => l.text ++ ['\n']).findSome? rootLine =
          (table.find? fun l => l.mountPoint.chars = "/data".toList).map
            fun l => l.asRoot.text ++ ['\n'] := by
        induction table with
        | nil => rfl
        | cons l table ih =>
            rw [List.map_cons, List.findSome?_cons, MountLine.rootLine_text, List.find?_cons]
            by_cases h : l.mountPoint.chars = "/data".toList
            · simp [h]
            · rw [if_neg h, decide_eq_false h]
              exact ih
      have hfilter : ((table.map fun l => l.text ++ ['\n']).filter isStandardLine) =
          (table.filter fun l => standard l.mountPoint.chars).map fun l => l.text ++ ['\n'] := by
        rw [List.filter_map]
        congr 1
        apply List.filter_congr
        intro l _
        exact MountLine.isStandardLine_text l
      rw [hfind, hfilter, flatten_lines, Option.map_map]
      congr 1

/-! ## Bindings -/

def bindingEntry (id : Nat) (b : Binding) : MountEntry where
  id := Nat.toDigits 10 id
  parent := ['1']
  dev := "0:1".toList
  root := ['/']
  mountPoint := b.guest
  options := "rw,relatime".toList
  optional := []
  fstype := "bind".toList
  source := b.host
  superOptions := "rw,relatime".toList

def bindingHead (id : Nat) : CString := Nat.toDigits 10 id ++ " 1 0:1 / ".toList

def bindingMiddle : CString := "rw,relatime - bind ".toList

theorem isField_rw : IsField blank "rw,relatime".toList := isField_of_all (by decide) (by decide)

theorem isField_dev : IsField blank "0:1".toList := isField_of_all (by decide) (by decide)

theorem isField_bind : IsField blank "bind".toList := isField_of_all (by decide) (by decide)

theorem isField_separator : IsField blank separator := isField_of_all (by decide) (by decide)

theorem isField_one : IsField blank ['1'] := isField_of_all (by decide) (by decide)

theorem isField_slash : IsField blank ['/'] := isField_of_all (by decide) (by decide)

theorem blank_space : blank ' ' = true := rfl

theorem isField_digits (id : Nat) : IsField blank (Nat.toDigits 10 id) := by
  refine ⟨Nat.toDigits_ne_nil, fun c hc => ?_⟩
  have hdigit := Nat.isDigit_of_mem_toDigits (by decide) (by decide) hc
  by_contra hblank
  simp only [blank, Bool.not_eq_false, decide_eq_true_iff] at hblank
  rcases hblank with rfl | rfl
  · exact absurd hdigit (by decide)
  · exact absurd hdigit (by decide)

theorem newline_not_mem_digits (id : Nat) : '\n' ∉ Nat.toDigits 10 id := by
  intro hmem
  have hdigit := Nat.isDigit_of_mem_toDigits (by decide) (by decide) hmem
  exact absurd hdigit (by decide)

theorem bindingText_eq (id : Nat) (b : Binding) :
    bindingText id b =
      bindingHead id ++ (b.guest ++ ' ' :: (bindingMiddle ++ (b.host ++ ' ' :: "rw,relatime".toList))) := by
  unfold bindingText bindingHead bindingMiddle
  simp

theorem fields_bindingHead (id : Nat) (rest : CString) :
    fields blank (bindingHead id ++ rest) =
      Nat.toDigits 10 id :: ['1'] :: "0:1".toList :: ['/'] :: fields blank rest := by
  have hhead : bindingHead id ++ rest =
      Nat.toDigits 10 id ++ ' ' :: (['1'] ++ ' ' :: ("0:1".toList ++ ' ' :: (['/'] ++ ' ' :: rest))) := by
    unfold bindingHead
    simp
  rw [hhead, fields_cons (isField_digits id) blank_space, fields_cons isField_one blank_space,
    fields_cons isField_dev blank_space, fields_cons isField_slash blank_space]

theorem fields_bindingMiddle (rest : CString) :
    fields blank (bindingMiddle ++ rest) =
      "rw,relatime".toList :: separator :: "bind".toList :: fields blank rest := by
  have hmiddle : bindingMiddle ++ rest =
      "rw,relatime".toList ++ ' ' :: (separator ++ ' ' :: ("bind".toList ++ ' ' :: rest)) := by
    unfold bindingMiddle separator
    simp
  rw [hmiddle, fields_cons isField_rw blank_space, fields_cons isField_separator blank_space,
    fields_cons isField_bind blank_space]

theorem parseMount_bindingHead {id : Nat} {rest : CString} {b : Binding}
    (h : parseMount (bindingHead id ++ rest) = some (bindingEntry id b)) :
    ∃ mountPoint options more x y z, fields blank rest = mountPoint :: options :: more ∧
      more.dropWhile (· ≠ separator) = [x, y, z, "rw,relatime".toList] ∧
        unescape mountPoint = b.guest ∧ unescape z = b.host := by
  unfold parseMount at h
  rw [fields_bindingHead] at h
  cases hfields : fields blank rest with
  | nil => simp [hfields] at h
  | cons mountPoint rest' =>
      cases rest' with
      | nil => simp [hfields] at h
      | cons options more =>
          simp only [hfields] at h
          split at h
          · rename_i x fstype source superOptions hmore
            have hentry := Option.some.inj h
            simp only [bindingEntry, MountEntry.mk.injEq] at hentry
            obtain ⟨-, -, -, -, hguest, -, -, -, hhost, hsuper⟩ := hentry
            subst hsuper
            exact ⟨mountPoint, options, more, x, fstype, source, rfl, hmore, hguest, hhost⟩
          · cases h

theorem takeWhile_append_line (h : '\n' ∉ s) (t : CString) :
    (s ++ t).takeWhile (· ≠ '\n') = s ++ t.takeWhile (· ≠ '\n') := by
  apply List.takeWhile_append_of_pos
  intro c hc
  have hne : c ≠ '\n' := fun heq => h (heq ▸ hc)
  simpa using hne

theorem takeWhile_append_newline (h : '\n' ∈ s) (t : CString) :
    (s ++ t).takeWhile (· ≠ '\n') = s.takeWhile (· ≠ '\n') := by
  obtain ⟨after, hafter⟩ := exists_takeWhile_append h
  conv_lhs => rw [hafter, List.append_assoc]
  rw [takeWhile_append_line (fun hmem => by simpa using List.mem_takeWhile_imp hmem)]
  simp

theorem rw_takeWhile : "rw,relatime".toList.takeWhile (· ≠ '\n') = "rw,relatime".toList := by simp

/-- A line that is read back holds plain paths. -/
theorem plain_of_parseMount (id : Nat) {b : Binding}
    (h : parseMount ((bindingText id b).takeWhile (· ≠ '\n')) = some (bindingEntry id b)) :
    Plain b.guest ∧ Plain b.host := by
  have hhead : '\n' ∉ bindingHead id := by
    unfold bindingHead
    rw [List.mem_append, not_or]
    exact ⟨newline_not_mem_digits id, by decide⟩
  rw [bindingText_eq, takeWhile_append_line hhead] at h
  obtain ⟨mountPoint, options, more, x, y, z, hfields, hmore, hguest, hhost⟩ :=
    parseMount_bindingHead h
  by_cases hnl : '\n' ∈ b.guest
  · -- the line ends in the guest path
    rw [takeWhile_append_newline hnl] at hfields
    refine absurd hguest (unescape_ne_of_newline hnl ?_)
    rw [hfields]
    exact List.mem_cons_self
  rw [takeWhile_append_line hnl, List.takeWhile_cons_of_pos (by decide),
    takeWhile_append_line (by decide), fields_append_cons _ blank_space, fields_bindingMiddle]
    at hfields
  have hmem : mountPoint ∈ fields blank b.guest := by
    cases hparts : fields blank b.guest with
    | nil =>
        rw [hparts, List.nil_append] at hfields
        obtain ⟨rfl, -⟩ := List.cons.inj hfields
        rw [← hguest] at hparts
        exact absurd hparts (by decide)
    | cons f fs =>
        rw [hparts, List.cons_append] at hfields
        obtain ⟨rfl, -⟩ := List.cons.inj hfields
        exact List.mem_cons_self
  obtain ⟨hfield, hescape, rfl⟩ := plain_of_field hmem hguest
  refine ⟨⟨hfield, hnl, hescape⟩, ?_⟩
  rw [fields_of_isField hfield, List.singleton_append] at hfields
  obtain ⟨-, hrest⟩ := List.cons.inj hfields
  obtain ⟨-, rfl⟩ := List.cons.inj hrest
  have hdrop : ∀ fs : List CString, (separator :: fs).dropWhile (· ≠ separator) = separator :: fs :=
    fun fs => List.dropWhile_cons_of_neg (by simp)
  rw [hdrop] at hmore
  obtain ⟨-, htail⟩ := List.cons.inj hmore
  obtain ⟨-, hsource⟩ := List.cons.inj htail
  by_cases hnl' : '\n' ∈ b.host
  · -- the line ends in the host path
    rw [takeWhile_append_newline hnl'] at hsource
    refine absurd hhost (unescape_ne_of_newline hnl' ?_)
    rw [hsource]
    exact List.mem_cons_self
  rw [takeWhile_append_line hnl', List.takeWhile_cons_of_pos (by decide), rw_takeWhile,
    fields_append_cons _ blank_space, fields_of_isField isField_rw] at hsource
  have hparts : fields blank b.host = [z] :=
    List.append_cancel_right (show _ ++ ["rw,relatime".toList] = _ ++ ["rw,relatime".toList] from hsource)
  have hmem' : z ∈ fields blank b.host := by
    rw [hparts]
    exact List.mem_singleton_self z
  obtain ⟨hfield', hescape', -⟩ := plain_of_field hmem' hhost
  exact ⟨hfield', hnl', hescape'⟩

theorem parseMount_of_plain {b : Binding} (hguest : Plain b.guest) (hhost : Plain b.host) (id : Nat) :
    '\n' ∉ bindingText id b ∧ parseMount (bindingText id b) = some (bindingEntry id b) := by
  constructor
  · unfold bindingText
    simp [newline_not_mem_digits, hguest.oneLine, hhost.oneLine]
  · unfold parseMount
    rw [bindingText_eq, fields_bindingHead, fields_cons hguest.isField blank_space,
      fields_bindingMiddle, fields_cons hhost.isField blank_space, fields_of_isField isField_rw]
    simp [bindingEntry, unescape_eq_self_iff.mpr hguest.noEscape,
      unescape_eq_self_iff.mpr hhost.noEscape, unescape]

/-! ## The file -/

theorem forall₂_append_iff {α β : Type*} {R : α → β → Prop} {as : List α} {bs : List β}
    (h : List.Forall₂ R as bs) {as' : List α} {bs' : List β} :
    List.Forall₂ R (as ++ as') (bs ++ bs') ↔ List.Forall₂ R as' bs' := by
  induction h with
  | nil => rfl
  | cons hab _ ih => rw [List.cons_append, List.cons_append, List.forall₂_cons, ih, and_iff_right hab]

theorem forall₂_numbered {α β : Type} {R : α → β → Prop} {P : Binding → Prop}
    {f : Nat → Binding → α} {g : Nat → Binding → β} (h : ∀ id b, R (f id b) (g id b) ↔ P b)
    (id : Nat) (bs : List Binding) :
    List.Forall₂ R (numbered f id bs) (numbered g id bs) ↔ ∀ b ∈ bs, P b := by
  induction bs generalizing id with
  | nil => simp [numbered]
  | cons b bs ih => rw [numbered, numbered, List.forall₂_cons, h, ih, List.forall_mem_cons]

def tableTexts (t : MountTarget) (lines : List MountLine) : List CString :=
  lines.map MountLine.text ++ numbered bindingText 1000000 t.extra

/-- **What the table is to say**: the lines that are kept, and an entry for each binding. -/
def tableEntries (t : MountTarget) (lines : List MountLine) : List MountEntry :=
  lines.map MountLine.entry ++ numbered bindingEntry 1000000 t.extra

/-- **The table reads back if and only if the paths are plain and the file is complete.** -/
theorem parseTable_take_iff (t : MountTarget) (lines : List MountLine) (room : Nat) :
    parseTable ((unlines '\n' (tableTexts t lines)).take room) = some (tableEntries t lines) ↔
      (∀ b ∈ t.extra, Plain b.guest ∧ Plain b.host) ∧
        (unlines '\n' (tableTexts t lines)).length ≤ room := by
  have hlines : List.Forall₂ (fun s e => '\n' ∉ s ∧ parseMount s = some e)
      (lines.map MountLine.text) (lines.map MountLine.entry) := by
    rw [List.forall₂_map_left_iff, List.forall₂_map_right_iff, List.forall₂_same]
    exact fun l _ => ⟨l.newline_not_mem_text, l.parseMount_text⟩
  have hbinding : ∀ id b, ('\n' ∉ bindingText id b ∧
      parseMount (bindingText id b) = some (bindingEntry id b)) ↔ Plain b.guest ∧ Plain b.host := by
    intro id b
    constructor
    · intro ⟨hline, hread⟩
      apply plain_of_parseMount id
      rwa [← List.append_nil (bindingText id b), takeWhile_append_line hline, List.takeWhile_nil,
        List.append_nil]
    · intro h
      exact parseMount_of_plain h.1 h.2 id
  have hfirst : List.Forall₂
      (fun s e => parseMount (s.takeWhile (· ≠ '\n')) = some e → '\n' ∉ s)
      (tableTexts t lines) (tableEntries t lines) := by
    have hreal : List.Forall₂
        (fun s e => parseMount (s.takeWhile (· ≠ '\n')) = some e → '\n' ∉ s)
        (lines.map MountLine.text) (lines.map MountLine.entry) :=
      hlines.imp fun _ _ h _ => h.1
    have hadded : ∀ id b,
        (parseMount ((bindingText id b).takeWhile (· ≠ '\n')) = some (bindingEntry id b) →
          '\n' ∉ bindingText id b) ↔ True :=
      fun id b => iff_true_intro fun hread => ((hbinding id b).mpr (plain_of_parseMount _ hread)).1
    apply (forall₂_append_iff hreal).mpr
    exact (forall₂_numbered (P := fun _ => True)
      (R := fun s e => parseMount (s.takeWhile (· ≠ '\n')) = some e → '\n' ∉ s)
      (f := bindingText) (g := bindingEntry) hadded _ _).mpr fun _ _ => trivial
  unfold parseTable
  rw [parseLines_take_iff hfirst]
  have hbindings := forall₂_numbered (R := fun s e => '\n' ∉ s ∧ parseMount s = some e)
    (f := bindingText) (g := bindingEntry) hbinding 1000000 t.extra
  exact and_congr_left fun _ => (forall₂_append_iff hlines).trans hbindings

namespace MountWorld

/-- The open of a path is one of the table of `t`, of which `lines` are kept. -/
structure Asks (w : MountWorld) (path : CString) (t : MountTarget) (lines : List MountLine) :
    Prop where
  target : (mountinfoPid? path).bind w.target? = some t
  wanted : t.isAndroidData ∨ t.extra ≠ []
  kept : (w.real? path).bind (retained t) = some lines

theorem Asks.unique {w : MountWorld} {path : CString} {t t' : MountTarget}
    {lines lines' : List MountLine} (h : w.Asks path t lines) (h' : w.Asks path t' lines') :
    t = t' ∧ lines = lines' := by
  obtain rfl := Option.some.inj (h.target.symm.trans h'.target)
  exact ⟨rfl, Option.some.inj (h.kept.symm.trans h'.kept)⟩

theorem checkOpenPath_eq_some {w : MountWorld} {path newPath content : CString} :
    w.checkOpenPath path = some (newPath, content) ↔
      ∃ t lines, w.Asks path t lines ∧ w.temp? = some newPath ∧
        content = (unlines '\n' (tableTexts t lines)).take w.room := by
  have htext : ∀ t lines, unlines '\n' (lines.map MountLine.text) ++ appendRuntimeBindingLines t =
      unlines '\n' (tableTexts t lines) := by
    intro t lines
    unfold appendRuntimeBindingLines tableTexts unlines
    rw [List.flatMap_append]
  unfold checkOpenPath
  constructor
  · intro h
    simp only [Option.bind_eq_bind, Option.bind_eq_some_iff] at h
    obtain ⟨pid, hpid, t, ht, h⟩ := h
    split at h
    · cases h
    · rename_i hwanted
      simp only [Option.bind_eq_some_iff, writtenLines_eq, Option.map_eq_some_iff] at h
      obtain ⟨table, htable, path', hpath', written, ⟨lines, hlines, rfl⟩, h⟩ := h
      obtain ⟨rfl, rfl⟩ := Prod.mk.inj (Option.some.inj h)
      refine ⟨t, lines, ⟨?_, ?_, ?_⟩, hpath', by rw [htext]⟩
      · rw [hpid]
        exact ht
      · by_contra hnot
        exact hwanted ⟨fun h => hnot (.inl h), by_contra fun h => hnot (.inr h)⟩
      · rw [htable]
        exact hlines
  · intro ⟨t, lines, hasks, htemp, hcontent⟩
    obtain ⟨pid, hpid, ht⟩ := Option.bind_eq_some_iff.mp hasks.target
    obtain ⟨table, htable, hlines⟩ := Option.bind_eq_some_iff.mp hasks.kept
    have hwanted : ¬ (¬ t.isAndroidData ∧ t.extra = []) := by
      intro ⟨hroot, hextra⟩
      rcases hasks.wanted with h | h
      · exact hroot h
      · exact h hextra
    simp only [hpid, ht, Option.bind_eq_bind, Option.bind_some, if_neg hwanted, htable, htemp,
      writtenLines_eq, hlines, Option.map_some, htext, hcontent]
    rfl

/-- **The table parses back**: the file that an open is redirected to says what it is to say, and an
open for which the real table or a file can't be had stays where it is. -/
structure ParsesBack (w : MountWorld) (path : CString) : Prop where
  served : ∀ newPath content, w.checkOpenPath path = some (newPath, content) →
    ∃ t lines, w.Asks path t lines ∧ parseTable content = some (tableEntries t lines)
  unserved : w.real? path = none ∨ w.temp? = none → w.checkOpenPath path = none

/-- **The table parses back if and only if** the paths of the bindings need no escapes and the file is
complete, for each open that is redirected. -/
theorem parsesBack_iff (w : MountWorld) (path : CString) :
    w.ParsesBack path ↔
      ∀ t lines, w.Asks path t lines → w.temp? ≠ none →
        (∀ b ∈ t.extra, Plain b.guest ∧ Plain b.host) ∧
          (unlines '\n' (tableTexts t lines)).length ≤ w.room := by
  constructor
  · intro h t lines hasks htemp
    obtain ⟨newPath, hnew⟩ := Option.ne_none_iff_exists'.mp htemp
    obtain ⟨t', lines', hasks', hread⟩ :=
      h.served newPath _ (checkOpenPath_eq_some.mpr ⟨t, lines, hasks, hnew, rfl⟩)
    obtain ⟨rfl, rfl⟩ := hasks.unique hasks'
    exact (parseTable_take_iff t lines w.room).mp hread
  · intro h
    constructor
    · intro newPath content hopen
      obtain ⟨t, lines, hasks, hnew, rfl⟩ := checkOpenPath_eq_some.mp hopen
      refine ⟨t, lines, hasks, (parseTable_take_iff t lines w.room).mpr (h t lines hasks ?_)⟩
      rw [hnew]
      exact Option.some_ne_none newPath
    · intro hnone
      by_contra hopen
      obtain ⟨⟨newPath, content⟩, hsome⟩ := Option.ne_none_iff_exists'.mp hopen
      obtain ⟨t, lines, hasks, hnew, -⟩ := checkOpenPath_eq_some.mp hsome
      rcases hnone with hreal | htemp
      · have hkept := hasks.kept
        rw [hreal] at hkept
        cases hkept
      · rw [htemp] at hnew
        cases hnew

def spacedTarget : MountTarget := ⟨['/'], [⟨0, "/h".toList, "/a b".toList, true⟩]⟩

def spacedWorld : MountWorld := ⟨fun _ => some spacedTarget, fun _ => some [], some "/tmp/x".toList, 4096⟩

/-- The mount point of a path with a space is read as another one. -/
theorem spaced_path_lost : ¬ spacedWorld.ParsesBack "/proc/1/mountinfo".toList := by
  intro h
  have hpid : mountinfoPid? "/proc/1/mountinfo".toList = some 1 := by decide +kernel
  have hroot : spacedTarget.isAndroidData = false := by decide +kernel
  have hasks : spacedWorld.Asks "/proc/1/mountinfo".toList spacedTarget [] := by
    refine ⟨by rw [hpid]; rfl, .inr (by decide +kernel), ?_⟩
    show retained spacedTarget [] = some []
    unfold retained
    rw [hroot]
    rfl
  obtain ⟨t, lines, hasks', hread⟩ :=
    h.served _ _ (checkOpenPath_eq_some.mpr ⟨spacedTarget, [], hasks, rfl, rfl⟩)
  obtain ⟨rfl, rfl⟩ := hasks.unique hasks'
  have hplain := ((parseTable_take_iff spacedTarget [] _).mp hread).1
    ⟨0, "/h".toList, "/a b".toList, true⟩ (by decide +kernel)
  have hblank := hplain.1.isField.plain ' ' (by decide +kernel)
  cases hblank

end MountWorld

end Improot.Extension
