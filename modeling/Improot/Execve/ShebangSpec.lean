import Improot.Execve.Shebang

/-!
# What both read

The automaton and the rule of the kernel only depend on the text after the leading blanks, up to the
limit, and on what comes past it.  They are compared component by component: the interpreter, the
character that ends it, the argument and the end of the line.
-/

namespace Improot.Execve

/-! ## The condition -/

/-- What comes past the limit: some characters are missing up to it, or there is one more. -/
inductive Past where
  | eof (missing : Nat)
  | more (next : Char)
  deriving DecidableEq, Repr

def Past.of (limit : Nat) (text : CString) : Past :=
  match text[limit]? with
  | none => .eof (limit - text.length)
  | some next => .more next

def Past.isEof : Past → Bool
  | .eof _ => true
  | .more _ => false

def ordinary (c : Char) : Bool := ¬ isTerminator c ∧ ¬ endsLine c

/-- No argument is read from `text`, which comes after a name and its blanks. -/
def NoArgument (past : Past) (text : CString) : Prop :=
  ∀ c ∈ text.head?, endsLine c ∨ c = nul ∨ (past.isEof ∧ ∀ c ∈ text, ¬ endsLine c)

/-- The automaton looks for an argument after a terminator in the file, and the kernel doesn't. -/
def AlikeAfterNul (past : Past) (name rest : CString) : Prop :=
  if name = [] then
    match rest.dropWhile ordinary with
    | [] => True
    | c :: rest => endsLine c ∨ NoArgument past (rest.dropWhile isBlank)
  else NoArgument past (rest.dropWhile isBlank)

/-- The argument `text` ends alike. -/
def AlikeArgument (past : Past) (text : CString) : Prop :=
  match text.dropWhile (¬ endsLine ·) with
  | [] => past.isEof = false ∧ (nul ∈ text ∨ ∀ c ∈ text.getLast?, ¬ isBlank c)
  | c :: _ => c = '\n' ∨ nul ∈ text.takeWhile (¬ endsLine ·)

/-- Both read the same in `text`, which starts after the leading blanks. -/
def Alike (past : Past) (text : CString) : Prop :=
  match text.dropWhile ordinary with
  | [] =>
    if text = [] then past = .eof 0
    else ∃ next, past = .more next ∧ (next = '\n' ∨ isTerminator next)
  | c :: rest =>
    if c = '\n' then text.takeWhile ordinary ≠ []
    else if c = '\r' then False
    else if c = nul then AlikeAfterNul past (text.takeWhile ordinary) rest
    else
      match rest.dropWhile isBlank with
      | [] => ∀ missing, past ≠ .eof (missing + 1)
      | d :: argument =>
        d = '\n' ∨ (d ≠ '\r' ∧ d ≠ nul ∧ AlikeArgument past (d :: argument))

/-! ## The automaton, on what it processes -/

def scanArgument (userPath : CString) : (argument : CString) → CString → Bool → Shebang
  | argument, [], eof => .script (cString userPath) (if eof then [] else cString argument)
  | argument, c :: text, eof =>
    if endsLine c then .script (cString userPath) (cString (removeTrailing argument))
    else scanArgument userPath (argument ++ [c]) text eof

def scanPath : (userPath : CString) → CString → Bool → Shebang
  | userPath, [], eof => .script (cString (if eof then userPath.dropLast else userPath)) []
  | userPath, c :: text, eof =>
    if endsLine c then .script (cString userPath) []
    else if ¬ isBlank c ∧ userPath.length > 1 ∧ userPath.getLast? = some nul then
      scanArgument userPath [] (c :: text) eof
    else scanPath (userPath ++ [if isBlank c then nul else c]) text eof

theorem slurpArgument_eq (size : Nat) (userPath : CString) (length : Nat) (argument : CString)
    (tmp : Char) (file : CString) :
    slurpArgument size userPath length argument tmp file =
      scanArgument userPath argument ((tmp :: file).take (size - length))
        (decide ((tmp :: file).length ≤ size - length)) := by
  induction file generalizing length argument tmp with
  | nil =>
      unfold slurpArgument
      by_cases hroom : length < size
      · obtain ⟨room, hroom'⟩ : ∃ room, size - length = room + 1 := ⟨size - length - 1, by omega⟩
        rw [hroom', if_neg (not_not.mpr hroom), List.take_succ_cons, List.take_nil]
        simp [scanArgument]
      · rw [if_pos hroom, show size - length = 0 by omega]
        simp [scanArgument]
  | cons next file ih =>
      unfold slurpArgument
      by_cases hroom : length < size
      · obtain ⟨room, hroom'⟩ : ∃ room, size - length = room + 1 := ⟨size - length - 1, by omega⟩
        rw [hroom', if_neg (not_not.mpr hroom), List.take_succ_cons, scanArgument]
        split
        · rfl
        · dsimp only
          rw [ih, show size - (length + 1) = room by omega]
          simp
      · rw [if_pos hroom, show size - length = 0 by omega]
        simp [scanArgument]

theorem slurpPath_eq (size length : Nat) (userPath : CString) (tmp : Char) (file : CString) :
    slurpPath size length userPath tmp file =
      scanPath userPath ((tmp :: file).take (size - length))
        (decide ((tmp :: file).length ≤ size - length)) := by
  induction file generalizing length userPath tmp with
  | nil =>
      unfold slurpPath
      by_cases hroom : length < size
      · obtain ⟨room, hroom'⟩ : ∃ room, size - length = room + 1 := ⟨size - length - 1, by omega⟩
        rw [if_neg (not_not.mpr hroom), slurpArgument_eq, hroom', List.take_succ_cons,
          List.take_nil, scanPath]
        simp [scanPath]
      · rw [if_pos hroom, show size - length = 0 by omega]
        simp [scanPath]
  | cons next file ih =>
      unfold slurpPath
      by_cases hroom : length < size
      · obtain ⟨room, hroom'⟩ : ∃ room, size - length = room + 1 := ⟨size - length - 1, by omega⟩
        rw [if_neg (not_not.mpr hroom), slurpArgument_eq, hroom', List.take_succ_cons, scanPath]
        split
        · rfl
        split
        · rfl
        · dsimp only
          rw [ih, show size - (length + 1) = room by omega]
          simp
      · rw [if_pos hroom, show size - length = 0 by omega]
        simp [scanPath]

def scan (past : Past) (text : CString) : Shebang :=
  if text = [] then (if past.isEof then .noexec else .script [] [])
  else scanPath [] text past.isEof

theorem skipLeading_scan {size length room : Nat} (hroom : size = length + 1 + room)
    (file : CString) :
    (match skipLeading size length file with
      | none => Shebang.noexec
      | some (tmp, file, length) => slurpPath size length [] tmp file) =
      scan (Past.of room file) ((file.take room).dropWhile isBlank) := by
  have hpast : ∀ (room : Nat) (file : CString),
      (Past.of room file).isEof = decide (file.length ≤ room) := by
    intro room file
    unfold Past.of
    rcases Nat.lt_or_ge room file.length with hlt | hge
    · rw [List.getElem?_eq_getElem hlt]
      simp [Past.isEof, hlt]
    · rw [List.getElem?_eq_none hge]
      simp [Past.isEof, hge]
  unfold scan
  rw [hpast]
  induction file generalizing length room with
  | nil => simp [skipLeading]
  | cons tmp file ih =>
      rw [skipLeading]
      cases room with
      | zero =>
          rw [if_neg (by omega)]
          dsimp only
          rw [slurpPath_eq, show size - (length + 1) = 0 by omega]
          simp [scanPath, cString]
      | succ room =>
          rw [List.take_succ_cons]
          by_cases hblank : isBlank tmp = true
          · rw [if_pos ⟨hblank, by omega⟩, List.dropWhile_cons_of_pos hblank,
              ih (by omega : size = length + 1 + 1 + room)]
            simp
          · rw [if_neg (fun h => hblank h.1), List.dropWhile_cons_of_neg hblank]
            dsimp only
            rw [slurpPath_eq, show size - (length + 1) = room + 1 by omega, List.take_succ_cons,
              if_neg (by simp)]

/-! ## Strings in a buffer -/

variable {c : Char} {before name rest s text : CString} {past : Past}

theorem cString_cons (h : c ≠ nul) (s : CString) : cString (c :: s) = c :: cString s :=
  List.takeWhile_cons_of_pos (by simpa using h)

@[simp] theorem cString_nul (s : CString) : cString (nul :: s) = [] :=
  List.takeWhile_cons_of_neg (by simp)

theorem cString_of_not_mem (h : nul ∉ s) : cString s = s := by
  refine List.takeWhile_eq_self_iff.mpr fun c hc => ?_
  rw [decide_eq_true_eq]
  rintro rfl
  exact h hc

theorem takeWhile_ne_append (h : c ∈ s) (t : CString) :
    (s ++ t).takeWhile (· ≠ c) = s.takeWhile (· ≠ c) := by
  induction s with
  | nil => cases h
  | cons d s ih =>
      by_cases hd : d = c
      · rw [List.cons_append, List.takeWhile_cons_of_neg (by simp [hd]),
          List.takeWhile_cons_of_neg (by simp [hd])]
      · have hmem := (List.mem_cons.mp h).resolve_left (Ne.symm hd)
        rw [List.cons_append, List.takeWhile_cons_of_pos (by simp [hd]),
          List.takeWhile_cons_of_pos (by simp [hd]), ih hmem]

theorem takeWhile_ne (h : c ∉ s) (t : CString) :
    (s ++ t).takeWhile (· ≠ c) = s ++ t.takeWhile (· ≠ c) := by
  refine List.takeWhile_append_of_pos fun d hd => ?_
  rw [decide_eq_true_eq]
  rintro rfl
  exact h hd

theorem cString_append_of_not_mem (h : nul ∉ s) (t : CString) :
    cString (s ++ t) = s ++ cString t := takeWhile_ne h t

theorem cString_append (h : nul ∈ s) (t : CString) :
    cString (s ++ t) = cString s := takeWhile_ne_append h t

theorem cString_append_nul (s : CString) : cString (s ++ [nul]) = cString s := by
  by_cases h : nul ∈ s
  · exact cString_append h _
  · rw [cString_append_of_not_mem h, cString_nul, List.append_nil, cString_of_not_mem h]

theorem not_ordinary_nul (h : ∀ c ∈ name, ordinary c = true) : nul ∉ name :=
  fun hmem => absurd (h nul hmem) (by decide)

/-! ## The stages of the automaton -/

def argumentOf (text : CString) (eof : Bool) : CString :=
  match text.dropWhile (¬ endsLine ·) with
  | [] => if eof then [] else cString text
  | _ :: _ => cString (removeTrailing (text.takeWhile (¬ endsLine ·)))

theorem scanArgument_eq (userPath argument text : CString) (eof : Bool) :
    scanArgument userPath argument text eof =
      .script (cString userPath)
        (match text.dropWhile (¬ endsLine ·) with
          | [] => if eof then [] else cString (argument ++ text)
          | _ :: _ => cString (removeTrailing (argument ++ text.takeWhile (¬ endsLine ·)))) := by
  induction text generalizing argument with
  | nil => simp [scanArgument]
  | cons c text ih =>
      rw [scanArgument]
      by_cases hend : endsLine c = true
      · rw [if_pos hend, List.dropWhile_cons_of_neg (by simpa using hend),
          List.takeWhile_cons_of_neg (by simpa using hend), List.append_nil]
      · rw [if_neg hend, ih, List.dropWhile_cons_of_pos (by simpa using hend),
          List.takeWhile_cons_of_pos (by simpa using hend)]
        simp

theorem scanArgument_nil (userPath text : CString) (eof : Bool) :
    scanArgument userPath [] text eof = .script (cString userPath) (argumentOf text eof) := by
  rw [scanArgument_eq]
  rfl

theorem scanPath_ordinary (hname : ∀ c ∈ name, ordinary c = true)
    {userPath : CString} (hlast : userPath.getLast? ≠ some nul) (text : CString) (eof : Bool) :
    scanPath userPath (name ++ text) eof = scanPath (userPath ++ name) text eof := by
  induction name generalizing userPath with
  | nil => rw [List.nil_append, List.append_nil]
  | cons c name ih =>
      obtain ⟨hc, hname⟩ := List.forall_mem_cons.mp hname
      have hend : ¬ endsLine c = true := fun h => by simp [ordinary, h] at hc
      have hterminator : ¬ isTerminator c = true := fun h => by simp [ordinary, h] at hc
      have hblank : ¬ isBlank c = true := fun h => hterminator (by simp [isTerminator, h])
      have hnul : c ≠ nul := fun h => hterminator (by simp [isTerminator, h])
      rw [List.cons_append, scanPath, if_neg hend, if_neg (fun h => hlast h.2.2), if_neg hblank,
        ih hname (by simpa using hnul), List.append_assoc, List.singleton_append]

theorem scanPath_blanks {userPath : CString} (hlength : userPath.length > 1)
    (hlast : userPath.getLast? = some nul) (text : CString) (eof : Bool) :
    scanPath userPath text eof =
      .script (cString userPath) (argumentOf (text.dropWhile isBlank) eof) := by
  have hmem : nul ∈ userPath := List.mem_of_getLast? hlast
  induction text generalizing userPath with
  | nil =>
      obtain ⟨front, rfl⟩ := List.getLast?_eq_some_iff.mp hlast
      have hnone : argumentOf [] eof = [] := by
        cases eof <;> rfl
      rw [scanPath, List.dropWhile_nil, hnone]
      cases eof with
      | true => rw [if_pos rfl, List.dropLast_concat, cString_append_nul]
      | false => rfl
  | cons c text ih =>
      rw [scanPath]
      by_cases hend : endsLine c = true
      · have hblank : ¬ isBlank c = true := by
          intro hblank
          simp only [isBlank, endsLine, decide_eq_true_eq] at hblank hend
          rcases hblank with rfl | rfl <;> simp at hend
        rw [if_pos hend, List.dropWhile_cons_of_neg hblank, argumentOf,
          List.dropWhile_cons_of_neg (by simpa using hend),
          List.takeWhile_cons_of_neg (by simpa using hend)]
        rfl
      rw [if_neg hend]
      by_cases hblank : isBlank c = true
      · rw [if_neg (fun h => h.1 hblank), if_pos hblank, List.dropWhile_cons_of_pos hblank,
          ih (by rw [List.length_append]; omega) (by simp) (by simp), cString_append hmem]
      · rw [if_pos ⟨hblank, hlength, hlast⟩, List.dropWhile_cons_of_neg hblank, scanArgument_nil]

theorem dropWhile_head {p : Char → Bool} (h : text.dropWhile p = c :: rest) : p c = false := by
  have hhead := List.head?_dropWhile_not p text
  rw [h] at hhead
  exact hhead

theorem head_dropWhile (text : CString) :
    ∀ c ∈ (text.dropWhile isBlank).head?, isBlank c = false := by
  intro c hc
  cases htext : text.dropWhile isBlank with
  | nil => simp [htext] at hc
  | cons d rest =>
      rw [htext] at hc
      cases hc
      exact dropWhile_head htext

theorem ordinary_takeWhile (text : CString) : ∀ c ∈ text.takeWhile ordinary, ordinary c = true :=
  fun _ hc => List.mem_takeWhile_imp hc

theorem scanPath_name (hrest : text.dropWhile ordinary = c :: rest) (eof : Bool) :
    scanPath [] text eof =
      if endsLine c then .script (text.takeWhile ordinary) []
      else scanPath (text.takeWhile ordinary ++ [nul]) rest eof := by
  have hname := ordinary_takeWhile text
  have hc : ordinary c = false := dropWhile_head hrest
  have hsplit : text.takeWhile ordinary ++ c :: rest = text := by
    rw [← hrest, List.takeWhile_append_dropWhile]
  conv_lhs => rw [← hsplit]
  rw [scanPath_ordinary hname (by simp), List.nil_append, scanPath]
  by_cases hend : endsLine c = true
  · rw [if_pos hend, if_pos hend, cString_of_not_mem (not_ordinary_nul hname)]
  rw [if_neg hend, if_neg hend, if_neg]
  · congr 2
    by_cases hblank : isBlank c = true
    · rw [if_pos hblank]
    · rw [if_neg hblank]
      simpa [ordinary, isTerminator, hend, hblank] using hc
  · rintro ⟨-, -, hlast⟩
    exact not_ordinary_nul hname (List.mem_of_getLast? hlast)

/-! ## Trimming -/

theorem rdropWhile_append_of_ne {a b : CString} (h : b.rdropWhile isBlank ≠ []) :
    (a ++ b).rdropWhile isBlank = a ++ b.rdropWhile isBlank := by
  have hne : (b.reverse.dropWhile isBlank).isEmpty = false := by
    rw [List.isEmpty_eq_false_iff]
    intro hnil
    exact h (by rw [List.rdropWhile, hnil, List.reverse_nil])
  rw [List.rdropWhile, List.reverse_append, List.dropWhile_append, hne, if_neg (by simp),
    List.reverse_append, List.reverse_reverse, List.rdropWhile]

theorem rdropWhile_append_of_nil {a b : CString} (h : b.rdropWhile isBlank = []) :
    (a ++ b).rdropWhile isBlank = a.rdropWhile isBlank := by
  have hnil : (b.reverse.dropWhile isBlank).isEmpty = true := by
    rw [List.isEmpty_iff, ← List.reverse_eq_nil_iff]
    exact h
  rw [List.rdropWhile, List.reverse_append, List.dropWhile_append, hnil, if_pos rfl,
    List.rdropWhile]

theorem rdropWhile_cons (h : isBlank c = false) (s : CString) :
    (c :: s).rdropWhile isBlank = c :: s.rdropWhile isBlank := by
  rw [← List.singleton_append]
  by_cases hs : s.rdropWhile isBlank = []
  · rw [rdropWhile_append_of_nil hs, hs, List.rdropWhile_singleton, h]
    rfl
  · rw [rdropWhile_append_of_ne hs]
    rfl

theorem trim_blanks (hbefore : ∀ c ∈ before, isBlank c = true)
    (htext : ∀ c ∈ text.head?, isBlank c = false) :
    ((before ++ text).rdropWhile isBlank).dropWhile isBlank = text.rdropWhile isBlank := by
  cases text with
  | nil =>
      have hnil : before.rdropWhile isBlank = [] := List.rdropWhile_eq_nil_iff.mpr hbefore
      rw [List.append_nil, hnil]
      rfl
  | cons c text =>
      have hc := htext c rfl
      rw [rdropWhile_append_of_ne, rdropWhile_cons hc, List.dropWhile_append_of_pos hbefore,
        List.dropWhile_cons_of_neg (by simp [hc])]
      rw [rdropWhile_cons hc]
      exact List.cons_ne_nil _ _

theorem rdropWhile_ordinary (h : ∀ c ∈ name, ordinary c = true) :
    name.rdropWhile isBlank = name := by
  refine List.rdropWhile_eq_self_iff.mpr fun hne hblank => ?_
  have hlast := h _ (List.getLast_mem hne)
  simp [ordinary, isTerminator, hblank] at hlast

/-! ## The rule of the kernel, on the same text -/

def kernelLine (past : Past) (text : CString) : Option CString :=
  if '\n' ∈ text then some (text.takeWhile (· ≠ '\n'))
  else
    match past with
    | .eof missing => some (text ++ List.replicate missing nul)
    | .more next =>
      if next = '\n' ∨ text.any isTerminator ∨ isTerminator next then some text else none

def kernelScan (past : Past) (text : CString) : Decision :=
  match kernelLine past text with
  | none => .noexec
  | some line => scriptLine (line.rdropWhile isBlank)

theorem buffer_text (limit : Nat) (body : CString) :
    (body ++ List.replicate (limit + 3) nul).take (limit + 1) =
      match Past.of limit body with
      | .eof missing => body.take limit ++ List.replicate missing nul ++ [nul]
      | .more next => body.take limit ++ [next] := by
  unfold Past.of
  rcases Nat.lt_or_ge limit body.length with hlt | hge
  · rw [List.getElem?_eq_getElem hlt]
    dsimp only
    rw [List.take_append_of_le_length (by omega), List.take_add_one, List.getElem?_eq_getElem hlt]
    rfl
  · rw [List.getElem?_eq_none hge]
    dsimp only
    rw [List.take_of_length_le hge, List.take_append, List.take_of_length_le (by omega),
      List.take_replicate, List.append_assoc, ← List.replicate_succ']
    congr 2
    omega

theorem not_blank_newline (h : ∀ c ∈ before, isBlank c = true) :
    '\n' ∉ before := fun hmem => absurd (h _ hmem) (by decide)

theorem takeWhile_newline (h : ∀ c ∈ before, isBlank c = true) (text : CString) :
    (before ++ text).takeWhile (· ≠ '\n') = before ++ text.takeWhile (· ≠ '\n') :=
  takeWhile_ne (not_blank_newline h) text

theorem head_takeWhile (h : ∀ c ∈ text.head?, isBlank c = false) :
    ∀ c ∈ (text.takeWhile (· ≠ '\n')).head?, isBlank c = false := by
  cases text with
  | nil => nofun
  | cons d text =>
      intro c hc
      rw [List.takeWhile_cons] at hc
      split at hc
      · exact h c hc
      · cases hc

theorem head_padded (h : ∀ c ∈ text.head?, isBlank c = false) (missing : Nat) :
    ∀ c ∈ (text ++ List.replicate missing nul).head?, isBlank c = false := by
  cases text with
  | nil =>
      intro c hc
      have hnul : c = nul := List.eq_of_mem_replicate (List.mem_of_mem_head? hc)
      rw [hnul]
      rfl
  | cons d text => exact h

/-- The kernel's reading of a script, as a scan of its first line. -/
theorem binfmtScript_eq (limit : Nat) (body : CString) :
    binfmtScript (limit + 3) ('#' :: '!' :: body) =
      kernelScan (Past.of limit body) ((body.take limit).dropWhile isBlank) := by
  unfold binfmtScript
  rw [List.cons_append, List.cons_append, show limit + 3 = (limit + 1) + 1 + 1 from rfl,
    List.take_succ_cons, List.take_succ_cons]
  rw [show limit + 1 + 1 + 1 = limit + 3 from rfl, buffer_text]
  dsimp only
  rw [if_neg (by simp), List.drop_succ_cons, List.drop_succ_cons, List.drop_zero]
  generalize hfront : body.take limit = front
  have hsplit := List.takeWhile_append_dropWhile (p := isBlank) (l := front)
  have hbefore : ∀ c ∈ front.takeWhile isBlank, isBlank c = true :=
    fun _ hc => List.mem_takeWhile_imp hc
  have hhead := head_dropWhile front
  generalize front.takeWhile isBlank = before at hsplit hbefore
  generalize front.dropWhile isBlank = text at hsplit hhead ⊢
  subst hsplit
  unfold kernelScan kernelLine
  by_cases hline : '\n' ∈ text
  · have hmem : '\n' ∈ before ++ text := List.mem_append_right _ hline
    rw [if_pos hline]
    dsimp only
    rw [← trim_blanks hbefore (head_takeWhile hhead), ← takeWhile_newline hbefore]
    cases Past.of limit body with
    | eof missing =>
        dsimp only
        rw [if_pos (List.mem_append_left _ (List.mem_append_left _ hmem)), List.append_assoc,
          takeWhile_ne_append hmem]
    | more next =>
        dsimp only
        rw [if_pos (List.mem_append_left _ hmem), takeWhile_ne_append hmem]
  have hnot : '\n' ∉ before ++ text := by
    rw [List.mem_append]
    exact not_or.mpr ⟨not_blank_newline hbefore, hline⟩
  rw [if_neg hline]
  cases Past.of limit body with
  | eof missing =>
      have hnewline : '\n' ∉ before ++ text ++ List.replicate missing nul ++ [nul] := by
        have hnul : ('\n' : Char) ≠ nul := by decide
        simp [not_blank_newline hbefore, hline, hnul]
      have hany : ((before ++ text ++ List.replicate missing nul ++ [nul]).dropWhile isBlank).any
          isTerminator = true := by
        rw [List.any_eq_true]
        refine ⟨nul, ?_, by decide⟩
        rw [List.dropWhile_append]
        split
        · rw [List.dropWhile_cons_of_neg (by decide)]
          exact List.mem_singleton_self _
        · exact List.mem_append_right _ (List.mem_singleton_self _)
      dsimp only
      rw [if_neg hnewline, if_pos hany, List.dropLast_concat, List.append_assoc before,
        trim_blanks hbefore (head_padded hhead missing)]
  | more next =>
      dsimp only
      by_cases hnext : next = '\n'
      · subst hnext
        rw [if_pos (by simp), if_pos (.inl rfl), takeWhile_ne hnot,
          List.takeWhile_cons_of_neg (by simp), List.append_nil, trim_blanks hbefore hhead]
      · have hnewline : '\n' ∉ before ++ text ++ [next] := by
          simp [not_blank_newline hbefore, hline, Ne.symm hnext]
        have hdrop : (before ++ text ++ [next]).dropWhile isBlank =
            (text ++ [next]).dropWhile isBlank := by
          rw [List.append_assoc, List.dropWhile_append_of_pos hbefore]
        rw [if_neg hnewline, List.dropLast_concat, trim_blanks hbefore hhead]
        simp only [hdrop, hnext, false_or]
        cases htext : text with
        | nil =>
            -- nothing but blanks: there is no interpreter in any case
            have hnoexec : scriptLine (List.rdropWhile isBlank []) = .noexec := rfl
            rw [hnoexec, ite_self]
            by_cases hany : ([] : CString).any isTerminator = true ∨ isTerminator next = true
            · rw [if_pos hany]
              rfl
            · rw [if_neg hany]
        | cons c text' =>
            have hc := hhead c (by rw [htext]; rfl)
            rw [List.cons_append, List.dropWhile_cons_of_neg (by simp [hc]), ← List.cons_append,
              ← htext, List.any_append]
            by_cases hany : text.any isTerminator = true ∨ isTerminator next = true
            · rw [if_pos hany, if_pos]
              simpa using hany
            · rw [if_neg hany, if_neg]
              simpa using hany

/-! ## Lines of the kernel -/

theorem ordinary_not_terminator (h : ∀ c ∈ name, ordinary c = true) :
    ∀ c ∈ name, decide (¬ isTerminator c = true) = true := by
  intro c hc
  have hordinary := h c hc
  simp only [ordinary, Bool.decide_and, Bool.and_eq_true, decide_eq_true_eq] at hordinary
  exact decide_eq_true hordinary.1

theorem scriptLine_name (h : ∀ c ∈ name, ordinary c = true) (hne : name ≠ []) :
    scriptLine name = .script name none := by
  have hname := ordinary_not_terminator h
  have hdrop : name.dropWhile (fun c => decide (¬ isTerminator c = true)) = [] :=
    List.dropWhile_eq_nil_iff.mpr hname
  unfold scriptLine
  rw [if_neg hne, hdrop, List.takeWhile_eq_self_iff.mpr hname]

theorem scriptLine_terminator (h : ∀ c ∈ name, ordinary c = true) (hc : isTerminator c = true) :
    scriptLine (name ++ c :: rest) =
      if isBlank c then .script name (some (cString (rest.dropWhile isBlank)))
      else .script name none := by
  have hname := ordinary_not_terminator h
  unfold scriptLine
  rw [if_neg (by simp), List.takeWhile_append_of_pos hname, List.dropWhile_append_of_pos hname,
    List.takeWhile_cons_of_neg (by simp [hc]), List.dropWhile_cons_of_neg (by simp [hc]),
    List.append_nil]

theorem scriptLine_return (h : ∀ c ∈ name, ordinary c = true) (rest : CString) :
    ∃ more argument,
      scriptLine (name ++ '\r' :: rest) = .script (name ++ '\r' :: more) argument := by
  have hname := ordinary_not_terminator h
  unfold scriptLine
  rw [if_neg (by simp), List.takeWhile_append_of_pos hname, List.dropWhile_append_of_pos hname,
    List.takeWhile_cons_of_pos (by decide), List.dropWhile_cons_of_pos (by decide)]
  split
  · exact ⟨_, _, rfl⟩
  · dsimp only
    split
    · exact ⟨_, _, rfl⟩
    · exact ⟨_, _, rfl⟩

def kernelRest (past : Past) (rest : CString) : CString :=
  if '\n' ∈ rest then rest.takeWhile (· ≠ '\n')
  else
    match past with
    | .eof missing => rest ++ List.replicate missing nul
    | .more _ => rest

theorem ordinary_not_newline (h : ∀ c ∈ name, ordinary c = true) :
    '\n' ∉ name := fun hmem => absurd (h _ hmem) (by decide)

theorem kernelLine_append (past : Past)
    (h : ∀ c ∈ name, ordinary c = true) (hc : c ≠ '\n') (rest : CString) :
    kernelLine past (name ++ c :: rest) = some (name ++ c :: kernelRest past rest) ∨
      isTerminator c = false ∧ kernelLine past (name ++ c :: rest) = none := by
  have hmem : '\n' ∈ name ++ c :: rest ↔ '\n' ∈ rest := by
    simp [ordinary_not_newline h, Ne.symm hc]
  unfold kernelLine kernelRest
  by_cases hline : '\n' ∈ rest
  · rw [if_pos (hmem.mpr hline), if_pos hline, takeWhile_ne (ordinary_not_newline h),
      List.takeWhile_cons_of_pos (by simp [hc])]
    exact .inl rfl
  rw [if_neg (mt hmem.mp hline), if_neg hline]
  cases past with
  | eof missing => exact .inl (by simp)
  | more next =>
      dsimp only
      split
      · exact .inl rfl
      · rename_i hnone
        refine .inr ⟨?_, rfl⟩
        rw [← Bool.not_eq_true]
        intro hterminator
        exact hnone (.inr (.inl (by simp [hterminator])))

theorem kernelLine_newline (past : Past)
    (h : ∀ c ∈ name, ordinary c = true) (rest : CString) : kernelLine past (name ++ '\n' :: rest) = some name := by
  unfold kernelLine
  rw [if_pos (by simp), takeWhile_ne (ordinary_not_newline h),
    List.takeWhile_cons_of_neg (by simp), List.append_nil]

theorem kernelRest_dropWhile (past : Past) (rest : CString) :
    (kernelRest past rest).dropWhile isBlank = kernelRest past (rest.dropWhile isBlank) := by
  have hsplit := List.takeWhile_append_dropWhile (p := isBlank) (l := rest)
  have hbefore : ∀ c ∈ rest.takeWhile isBlank, isBlank c = true :=
    fun _ hc => List.mem_takeWhile_imp hc
  have hhead := head_dropWhile rest
  have hstays : ∀ text : CString, (∀ c ∈ text.head?, isBlank c = false) →
      text.dropWhile isBlank = text := by
    intro text htext
    cases text with
    | nil => rfl
    | cons c text => exact List.dropWhile_cons_of_neg (by simp [htext c rfl])
  generalize rest.takeWhile isBlank = before at hsplit hbefore
  generalize rest.dropWhile isBlank = text at hsplit hhead ⊢
  subst hsplit
  have hmem : '\n' ∈ before ++ text ↔ '\n' ∈ text := by
    simp [not_blank_newline hbefore]
  unfold kernelRest
  by_cases hline : '\n' ∈ text
  · rw [if_pos (hmem.mpr hline), if_pos hline, takeWhile_newline hbefore,
      List.dropWhile_append_of_pos hbefore, hstays _ (head_takeWhile hhead)]
  rw [if_neg (mt hmem.mp hline), if_neg hline]
  cases past with
  | eof missing =>
      dsimp only
      rw [List.append_assoc, List.dropWhile_append_of_pos hbefore,
        hstays _ (head_padded hhead missing)]
  | more next =>
      dsimp only
      rw [List.dropWhile_append_of_pos hbefore, hstays _ hhead]

theorem scriptLine_blank (h : ∀ c ∈ name, ordinary c = true)
    (hne : name ≠ []) (hc : isBlank c = true) :
    scriptLine ((name ++ c :: rest).rdropWhile isBlank) =
      .script name (if rest.dropWhile isBlank = [] then none
        else some (cString ((rest.dropWhile isBlank).rdropWhile isBlank))) := by
  have hsplit := List.takeWhile_append_dropWhile (p := isBlank) (l := rest)
  have hbefore : ∀ c ∈ rest.takeWhile isBlank, isBlank c = true :=
    fun _ hc => List.mem_takeWhile_imp hc
  cases hrest : rest.dropWhile isBlank with
  | nil =>
      have hall : (c :: rest).rdropWhile isBlank = [] := by
        rw [List.rdropWhile_eq_nil_iff]
        exact List.forall_mem_cons.mpr ⟨hc, List.dropWhile_eq_nil_iff.mp hrest⟩
      rw [rdropWhile_append_of_nil hall, rdropWhile_ordinary h, scriptLine_name h hne, if_pos rfl]
  | cons d text =>
      have hd : isBlank d = false := dropWhile_head hrest
      have hkept : (c :: rest).rdropWhile isBlank =
          c :: (rest.takeWhile isBlank ++ d :: text.rdropWhile isBlank) := by
        conv_lhs => rw [← hsplit, hrest, ← List.cons_append]
        rw [rdropWhile_append_of_ne, rdropWhile_cons hd, List.cons_append]
        rw [rdropWhile_cons hd]
        exact List.cons_ne_nil _ _
      rw [rdropWhile_append_of_ne (by rw [hkept]; exact List.cons_ne_nil _ _), hkept,
        scriptLine_terminator h (by simp [isTerminator, hc]), if_pos hc,
        List.dropWhile_append_of_pos hbefore, List.dropWhile_cons_of_neg (by simp [hd]),
        rdropWhile_cons hd, if_neg (List.cons_ne_nil _ _)]

theorem kernelRest_append (past : Past) (h : '\n' ∉ before) (hc : c ≠ '\n') :
    kernelRest past (before ++ c :: rest) = before ++ c :: kernelRest past rest := by
  have hmem : '\n' ∈ before ++ c :: rest ↔ '\n' ∈ rest := by
    simp [h, Ne.symm hc]
  unfold kernelRest
  by_cases hline : '\n' ∈ rest
  · rw [if_pos (hmem.mpr hline), if_pos hline, takeWhile_ne h,
      List.takeWhile_cons_of_pos (by simp [hc])]
  · rw [if_neg (mt hmem.mp hline), if_neg hline]
    cases past with
    | eof missing => simp
    | more next => rfl

/-! ## Arguments -/

theorem cString_rdropWhile (h : nul ∈ text) :
    cString (text.rdropWhile isBlank) = cString text := by
  obtain ⟨before, after, rfl⟩ := List.append_of_mem h
  have hkept : (nul :: after).rdropWhile isBlank = nul :: after.rdropWhile isBlank :=
    rdropWhile_cons rfl after
  have hmem : nul ∈ before ++ [nul] := by simp
  rw [rdropWhile_append_of_ne (by rw [hkept]; exact List.cons_ne_nil _ _), hkept,
    List.append_cons, List.append_cons before nul after, cString_append hmem, cString_append hmem]

theorem removeTrailing_eq (h : isBlank c = false) (text : CString) :
    removeTrailing (c :: text) = (c :: text).rdropWhile isBlank := by
  rw [removeTrailing, rdropWhile_cons h]

theorem endsLine_or (h : endsLine c = true) : c = '\n' ∨ c = '\r' := by
  simpa [endsLine] using h

theorem argumentOf_eq_nil_iff (past : Past) (hhead : ∀ c ∈ text.head?, isBlank c = false) :
    argumentOf text past.isEof = [] ↔ NoArgument past text := by
  unfold NoArgument
  cases text with
  | nil =>
      refine ⟨fun _ => nofun, fun _ => ?_⟩
      cases past <;> rfl
  | cons c text =>
      simp only [List.head?_cons, Option.mem_def, Option.some.injEq, forall_eq']
      by_cases hend : endsLine c = true
      · refine ⟨fun _ => .inl hend, fun _ => ?_⟩
        rw [argumentOf, List.dropWhile_cons_of_neg (by simp [hend]),
          List.takeWhile_cons_of_neg (by simp [hend])]
        rfl
      have htake : (c :: text).takeWhile (fun c => decide (¬ endsLine c = true)) =
          c :: text.takeWhile (fun c => decide (¬ endsLine c = true)) :=
        List.takeWhile_cons_of_pos (by simp [hend])
      unfold argumentOf
      rw [htake]
      by_cases hnul : c = nul
      · subst hnul
        refine ⟨fun _ => .inr (.inl rfl), fun _ => ?_⟩
        split
        · split
          · rfl
          · exact cString_nul _
        · exact cString_nul _
      · cases hrest : (c :: text).dropWhile (fun c => decide (¬ endsLine c = true)) with
        | nil =>
            have hall := List.dropWhile_eq_nil_iff.mp hrest
            simp only [decide_eq_true_eq] at hall
            cases past with
            | eof missing =>
                exact ⟨fun _ => .inr (.inr ⟨rfl, hall⟩), fun _ => rfl⟩
            | more next =>
                dsimp only
                rw [if_neg (by simp [Past.isEof]), cString_cons hnul]
                simp [hend, hnul, Past.isEof]
        | cons d rest =>
            dsimp only
            rw [removeTrailing, cString_cons hnul]
            have hd := dropWhile_head hrest
            have hmem : d ∈ c :: text := by
              rw [← List.takeWhile_append_dropWhile (p := fun c => decide (¬ endsLine c = true))
                (l := c :: text), hrest]
              simp
            refine ⟨nofun, ?_⟩
            rintro (hline | hzero | ⟨-, hall⟩)
            · exact absurd hline hend
            · exact absurd hzero hnul
            · exact absurd (hall d hmem) (by simpa using hd)

/-- When the two read the same argument. -/
theorem argumentOf_eq_iff (hblank : isBlank c = false)
    (hnul : c ≠ nul) (hend : endsLine c = false) :
    (if argumentOf (c :: text) past.isEof = [] then none
      else some (argumentOf (c :: text) past.isEof)) =
        some (cString ((kernelRest past (c :: text)).rdropWhile isBlank)) ↔
      AlikeArgument past (c :: text) := by
  have hhead : ∀ d ∈ (c :: text).head?, isBlank d = false := by
    rintro d ⟨⟩
    exact hblank
  have hkept := List.takeWhile_append_dropWhile (p := fun c => decide (¬ endsLine c = true))
    (l := c :: text)
  have hall : ∀ d ∈ (c :: text).takeWhile (fun c => decide (¬ endsLine c = true)),
      ¬ endsLine d = true := by
    intro d hd
    simpa using List.mem_takeWhile_imp hd
  have hfront : (c :: text).takeWhile (fun c => decide (¬ endsLine c = true)) =
      c :: text.takeWhile (fun c => decide (¬ endsLine c = true)) :=
    List.takeWhile_cons_of_pos (by simp [hend])
  unfold AlikeArgument argumentOf
  cases hrest : (c :: text).dropWhile (fun c => decide (¬ endsLine c = true)) with
  | nil =>
      dsimp only
      rw [hrest, List.append_nil] at hkept
      rw [hkept] at hall
      have hline : '\n' ∉ c :: text := fun hmem => hall _ hmem rfl
      cases past with
      | eof missing => simp [Past.isEof]
      | more next =>
          have hnonempty : cString (c :: text) ≠ [] := by
            rw [cString_cons hnul]
            exact List.cons_ne_nil _ _
          simp only [Past.isEof, Bool.false_eq_true, if_false, hnonempty, kernelRest, hline,
            Option.some.injEq, true_and]
          by_cases hmem : nul ∈ c :: text
          · rw [cString_rdropWhile hmem]
            exact ⟨fun _ => .inl hmem, fun _ => rfl⟩
          · have hmem' : nul ∉ (c :: text).rdropWhile isBlank :=
              fun h => hmem ((List.rdropWhile_prefix isBlank _).subset h)
            rw [cString_of_not_mem hmem, cString_of_not_mem hmem', eq_comm,
              List.rdropWhile_eq_self_iff]
            constructor
            · intro hlast
              refine .inr fun d hd => ?_
              rw [List.getLast?_eq_some_getLast (List.cons_ne_nil _ _)] at hd
              cases hd
              exact hlast _
            · rintro (h | hlast) hne
              · exact absurd h hmem
              · exact hlast _ (List.getLast?_eq_some_getLast hne)
  | cons d rest =>
      dsimp only
      rw [hrest] at hkept
      have hd : endsLine d = true := by simpa using dropWhile_head hrest
      generalize (c :: text).takeWhile (fun c => decide (¬ endsLine c = true)) = argument
        at hkept hall hfront ⊢
      subst hfront
      have hline : '\n' ∉ c :: text.takeWhile (fun c => decide (¬ endsLine c = true)) :=
        fun hmem => hall _ hmem rfl
      have hnonempty : cString (removeTrailing
          (c :: text.takeWhile (fun c => decide (¬ endsLine c = true)))) ≠ [] := by
        rw [removeTrailing, cString_cons hnul]
        exact List.cons_ne_nil _ _
      rw [if_neg hnonempty, Option.some.injEq, removeTrailing_eq hblank, ← hkept]
      generalize c :: text.takeWhile (fun c => decide (¬ endsLine c = true)) = argument
        at hline
      rcases endsLine_or hd with rfl | rfl
      · have hrest : kernelRest past (argument ++ '\n' :: rest) = argument := by
          unfold kernelRest
          rw [if_pos (by simp), takeWhile_ne hline, List.takeWhile_cons_of_neg (by simp),
            List.append_nil]
        rw [hrest]
        exact ⟨fun _ => .inl rfl, fun _ => rfl⟩
      · -- the kernel goes on after a carriage return
        have hreturn : isBlank '\r' = false := by decide
        rw [kernelRest_append past hline (by decide), rdropWhile_append_of_ne (by
          rw [rdropWhile_cons hreturn]
          exact List.cons_ne_nil _ _), rdropWhile_cons hreturn]
        constructor
        · intro heq
          refine .inr ?_
          by_contra hmem
          have hmem' : nul ∉ argument.rdropWhile isBlank :=
            fun h => hmem ((List.rdropWhile_prefix isBlank _).subset h)
          have hlength := (List.rdropWhile_prefix isBlank argument).length_le
          rw [cString_of_not_mem hmem', cString_append_of_not_mem hmem,
            cString_cons (by decide)] at heq
          have hlonger := congrArg List.length heq
          rw [List.length_append, List.length_cons] at hlonger
          omega
        · rintro (h | hmem)
          · exact absurd h (by decide)
          · rw [cString_rdropWhile hmem, cString_append hmem]

/-! ## Case by case -/

/-- When they agree on a line that holds a name only. -/
theorem alike_name (hrest : text.dropWhile ordinary = []) (hne : text ≠ []) :
    (scan past text).decision = kernelScan past text ↔
      ∃ next, past = .more next ∧ (next = '\n' ∨ isTerminator next) := by
  have hname : ∀ c ∈ text, ordinary c = true := List.dropWhile_eq_nil_iff.mp hrest
  have hscan : scan past text = .script (if past.isEof then text.dropLast else text) [] := by
    have hpath := scanPath_ordinary hname (show ([] : CString).getLast? ≠ some nul by simp) [] past.isEof
    rw [List.append_nil, List.nil_append] at hpath
    rw [scan, if_neg hne, hpath, scanPath, cString_of_not_mem]
    split
    · exact fun h => not_ordinary_nul hname ((List.dropLast_subset text) h)
    · exact not_ordinary_nul hname
  have hline : '\n' ∉ text := ordinary_not_newline hname
  have hany : ¬ text.any isTerminator = true := by
    rw [List.any_eq_true]
    rintro ⟨c, hc, hterminator⟩
    have hordinary := hname c hc
    simp [ordinary, hterminator] at hordinary
  unfold kernelScan kernelLine
  rw [if_neg hline]
  cases past with
  | eof missing =>
      -- the automaton drops the last character of the name
      have hkernel : scriptLine ((text ++ List.replicate missing nul).rdropWhile isBlank) =
          .script text none := by
        cases missing with
        | zero => rw [List.replicate_zero, List.append_nil, rdropWhile_ordinary hname,
            scriptLine_name hname hne]
        | succ missing =>
            have hnul : isBlank nul = false := by decide
            rw [List.replicate_succ, rdropWhile_append_of_ne (by
              rw [rdropWhile_cons hnul]
              exact List.cons_ne_nil _ _), rdropWhile_cons hnul,
              scriptLine_terminator hname (by decide), hnul, if_neg Bool.false_ne_true]
      dsimp only
      rw [hkernel, hscan]
      constructor
      · intro heq
        simp only [Shebang.decision, Past.isEof, if_true, Decision.script.injEq] at heq
        have hlength := congrArg List.length heq.1
        have hpositive := List.length_pos_iff.mpr hne
        rw [List.length_dropLast] at hlength
        omega
      · rintro ⟨next, h, -⟩
        cases h
  | more next =>
      dsimp only
      by_cases hnext : next = '\n' ∨ isTerminator next = true
      · rw [if_pos (by tauto)]
        dsimp only
        rw [rdropWhile_ordinary hname, scriptLine_name hname hne, hscan]
        exact ⟨fun _ => ⟨next, rfl, hnext⟩, fun _ => rfl⟩
      · rw [if_neg (by tauto), hscan]
        constructor
        · intro h
          cases h
        · rintro ⟨next', h, hend⟩
          cases h
          exact absurd hend hnext

theorem scanPath_afterNul (rest : CString) (eof : Bool) :
    scanPath [nul] rest eof =
      .script []
        (match rest.dropWhile ordinary with
          | [] => []
          | c :: rest =>
            if endsLine c then [] else argumentOf (rest.dropWhile isBlank) eof) := by
  have hname := ordinary_takeWhile rest
  have hsplit := List.takeWhile_append_dropWhile (p := ordinary) (l := rest)
  -- the first character is not taken for the one of an argument
  have hslurp : ∀ text, scanPath [nul] (rest.takeWhile ordinary ++ text) eof =
      scanPath (nul :: rest.takeWhile ordinary) text eof := by
    intro text
    cases hfront : rest.takeWhile ordinary with
    | nil => rfl
    | cons c name =>
        rw [hfront] at hname
        obtain ⟨hc, hname⟩ := List.forall_mem_cons.mp hname
        have hend : ¬ endsLine c = true := fun h => by simp [ordinary, h] at hc
        have hterminator : ¬ isTerminator c = true := fun h => by simp [ordinary, h] at hc
        have hblank : ¬ isBlank c = true := fun h => hterminator (by simp [isTerminator, h])
        have hnul : c ≠ nul := fun h => hterminator (by simp [isTerminator, h])
        rw [List.cons_append, scanPath, if_neg hend, if_neg (by simp), if_neg hblank,
          scanPath_ordinary hname (by simpa using hnul)]
        rfl
  conv_lhs => rw [← hsplit]
  rw [hslurp]
  cases hrest : rest.dropWhile ordinary with
  | nil =>
      rw [scanPath]
      split
      · cases rest.takeWhile ordinary with
        | nil => rfl
        | cons c name => rw [List.dropLast_cons_cons, cString_nul]
      · rw [cString_nul]
  | cons c rest' =>
      have hc : ordinary c = false := dropWhile_head hrest
      rw [scanPath]
      by_cases hend : endsLine c = true
      · rw [if_pos hend, cString_nul]
        simp [hend]
      have hlast : ¬ (¬ isBlank c = true ∧ (nul :: rest.takeWhile ordinary).length > 1 ∧
          (nul :: rest.takeWhile ordinary).getLast? = some nul) := by
        rintro ⟨-, hlength, hlast⟩
        cases hfront : rest.takeWhile ordinary with
        | nil => simp [hfront] at hlength
        | cons d name =>
            rw [hfront, List.getLast?_cons_cons, ← hfront] at hlast
            exact not_ordinary_nul hname (List.mem_of_getLast? hlast)
      have hwritten : (if isBlank c = true then nul else c) = nul := by
        by_cases hblank : isBlank c = true
        · rw [if_pos hblank]
        · rw [if_neg hblank]
          simpa [ordinary, isTerminator, hend, hblank] using hc
      rw [if_neg hend, if_neg hlast, hwritten, scanPath_blanks (by simp)
        (by rw [List.getLast?_concat]), List.cons_append, cString_nul]
      simp [hend]

theorem alike_terminator (hrest : text.dropWhile ordinary = nul :: rest) :
    (scan past text).decision = kernelScan past text ↔
      AlikeAfterNul past (text.takeWhile ordinary) rest := by
  have hname := ordinary_takeWhile text
  have hne : text ≠ [] := by
    rintro rfl
    cases hrest
  have hsplit : text = text.takeWhile ordinary ++ nul :: rest := by
    rw [← hrest, List.takeWhile_append_dropWhile]
  have hnul : isBlank nul = false := by decide
  have hkernel : kernelScan past text = .script (text.takeWhile ordinary) none := by
    have hline := kernelLine_append past hname (show nul ≠ '\n' by decide) rest
    rw [← hsplit] at hline
    rcases hline with hline | ⟨h, -⟩
    · rw [kernelScan, hline]
      dsimp only
      rw [rdropWhile_append_of_ne (by
        rw [rdropWhile_cons hnul]
        exact List.cons_ne_nil _ _), rdropWhile_cons hnul,
        scriptLine_terminator hname (by decide), hnul, if_neg Bool.false_ne_true]
    · cases h
  rw [hkernel, scan, if_neg hne, scanPath_name hrest, if_neg (by decide)]
  unfold AlikeAfterNul
  by_cases hempty : text.takeWhile ordinary = []
  · rw [if_pos hempty, hempty, List.nil_append, scanPath_afterNul]
    cases rest.dropWhile ordinary with
    | nil => simp [Shebang.decision]
    | cons c after =>
        dsimp only
        rw [← argumentOf_eq_nil_iff past (head_dropWhile after)]
        by_cases hend : endsLine c = true
        · simp [Shebang.decision, hend]
        · simp [Shebang.decision, hend]
  · have hlength := List.length_pos_iff.mpr hempty
    rw [if_neg hempty, ← argumentOf_eq_nil_iff past (head_dropWhile rest),
      scanPath_blanks (by simp; omega) (by simp), cString_append_nul,
      cString_of_not_mem (not_ordinary_nul hname)]
    simp [Shebang.decision]

/-- When they agree on a name that blanks follow. -/
theorem alike_blank (hrest : text.dropWhile ordinary = c :: rest) (hc : isBlank c = true)
    (hname : text.takeWhile ordinary ≠ []) :
    (scan past text).decision = kernelScan past text ↔
      match rest.dropWhile isBlank with
      | [] => ∀ missing, past ≠ .eof (missing + 1)
      | d :: argument =>
        d = '\n' ∨ (d ≠ '\r' ∧ d ≠ nul ∧ AlikeArgument past (d :: argument)) := by
  have hordinary := ordinary_takeWhile text
  have hne : text ≠ [] := by
    rintro rfl
    cases hrest
  have hsplit : text = text.takeWhile ordinary ++ c :: rest := by
    rw [← hrest, List.takeWhile_append_dropWhile]
  have hend : ¬ endsLine c = true := by
    intro hend
    rcases endsLine_or hend with rfl | rfl
    · exact absurd hc (by decide)
    · exact absurd hc (by decide)
  have hline : kernelLine past text =
      some (text.takeWhile ordinary ++ c :: kernelRest past rest) := by
    have hline := kernelLine_append past hordinary
      (show c ≠ '\n' from fun h => hend (by rw [h]; rfl)) rest
    rw [← hsplit] at hline
    rcases hline with hline | ⟨h, -⟩
    · exact hline
    · simp [isTerminator, hc] at h
  have hlength := List.length_pos_iff.mpr hname
  rw [kernelScan, hline]
  dsimp only
  rw [scriptLine_blank hordinary hname hc, kernelRest_dropWhile, scan, if_neg hne,
    scanPath_name hrest, if_neg hend, scanPath_blanks (by simp; omega) (by simp),
    cString_append_nul, cString_of_not_mem (not_ordinary_nul hordinary), Shebang.decision,
    Decision.script.injEq]
  have hhead := head_dropWhile rest
  cases htext : rest.dropWhile isBlank with
  | nil =>
      have hnone : argumentOf [] past.isEof = [] := by
        cases past <;> rfl
      rw [hnone]
      cases past with
      | eof missing =>
          cases missing with
          | zero => simp [kernelRest]
          | succ missing => simp [kernelRest, List.replicate_succ]
      | more next => simp [kernelRest]
  | cons d argument =>
      have hd : isBlank d = false := hhead d (by rw [htext]; rfl)
      rw [htext] at hhead
      have hnone := argumentOf_eq_nil_iff past hhead
      by_cases hnewline : d = '\n'
      · subst hnewline
        rw [hnone.mpr (by rintro _ ⟨⟩; exact .inl rfl)]
        simp [kernelRest]
      have hkept : kernelRest past (d :: argument) = d :: kernelRest past argument :=
        kernelRest_append past (show '\n' ∉ ([] : CString) by simp) hnewline
      rw [hkept, if_neg (List.cons_ne_nil _ _), ← hkept]
      by_cases hreturn : d = '\r'
      · rw [hnone.mpr (by rintro _ ⟨⟩; rw [hreturn]; exact .inl rfl)]
        simp [hreturn]
      by_cases hnul : d = nul
      · rw [hnone.mpr (by rintro _ ⟨⟩; exact .inr (.inl hnul))]
        have hne : nul ≠ '\n' := by decide
        simp [hnul, hne]
      have hline' : endsLine d = false := by simp [endsLine, hnewline, hreturn]
      rw [argumentOf_eq_iff hd hnul hline']
      simp [hnewline, hreturn, hnul]

/-- **When the automaton reads what the kernel reads**, after the leading blanks. -/
theorem alike_iff (hhead : ∀ c ∈ text.head?, isBlank c = false) :
    (scan past text).decision = kernelScan past text ↔ Alike past text := by
  have hordinary := ordinary_takeWhile text
  unfold Alike
  cases hrest : text.dropWhile ordinary with
  | nil =>
      dsimp only
      by_cases hempty : text = []
      · subst hempty
        rw [if_pos rfl]
        cases past with
        | eof missing =>
            cases missing with
            | zero => simp [scan, Past.isEof, kernelScan, kernelLine, scriptLine, Shebang.decision]
            | succ missing =>
                have hkernel : kernelScan (.eof (missing + 1)) [] = .script [] none := by
                  have hnul : isBlank nul = false := by decide
                  unfold kernelScan kernelLine
                  rw [if_neg (by simp)]
                  dsimp only
                  rw [List.nil_append, List.replicate_succ, rdropWhile_cons hnul, ← List.nil_append
                    (nul :: _), scriptLine_terminator (by simp) (by decide), hnul,
                    if_neg Bool.false_ne_true]
                rw [hkernel]
                simp [scan, Past.isEof, Shebang.decision]
        | more next =>
            have hkernel : kernelScan (.more next) [] = .noexec := by
              unfold kernelScan kernelLine
              rw [if_neg (by simp)]
              dsimp only
              by_cases hnext : next = '\n' ∨ ([] : CString).any isTerminator ∨ isTerminator next
              · rw [if_pos hnext]
                rfl
              · rw [if_neg hnext]
            rw [hkernel]
            simp [scan, Past.isEof, Shebang.decision]
      · rw [if_neg hempty]
        exact alike_name hrest hempty
  | cons c rest =>
      have hne : text ≠ [] := by
        rintro rfl
        cases hrest
      have hsplit : text = text.takeWhile ordinary ++ c :: rest := by
        rw [← hrest, List.takeWhile_append_dropWhile]
      have hc : ordinary c = false := dropWhile_head hrest
      dsimp only
      by_cases hnewline : c = '\n'
      · subst hnewline
        have hline := kernelLine_newline past hordinary rest
        rw [← hsplit] at hline
        rw [if_pos rfl, scan, if_neg hne, scanPath_name hrest, if_pos (by decide), kernelScan,
          hline]
        dsimp only
        rw [rdropWhile_ordinary hordinary]
        by_cases hempty : text.takeWhile ordinary = []
        · rw [hempty]
          simp [scriptLine, Shebang.decision]
        · rw [scriptLine_name hordinary hempty]
          simp [Shebang.decision, hempty]
      rw [if_neg hnewline]
      by_cases hreturn : c = '\r'
      · subst hreturn
        have hline := kernelLine_append past hordinary hnewline rest
        rw [← hsplit] at hline
        rw [if_pos rfl, scan, if_neg hne, scanPath_name hrest, if_pos (by decide), kernelScan,
          iff_false]
        rcases hline with hline | ⟨-, hline⟩
        · rw [hline]
          have hblank : isBlank '\r' = false := by decide
          dsimp only
          rw [rdropWhile_append_of_ne (by
            rw [rdropWhile_cons hblank]
            exact List.cons_ne_nil _ _), rdropWhile_cons hblank]
          obtain ⟨more, argument, hread⟩ := scriptLine_return
            hordinary ((kernelRest past rest).rdropWhile isBlank)
          rw [hread]
          intro heq
          rw [Shebang.decision, Decision.script.injEq] at heq
          have hlength := congrArg List.length heq.1
          rw [List.length_append, List.length_cons] at hlength
          omega
        · rw [hline]
          intro heq
          cases heq
      rw [if_neg hreturn]
      by_cases hnul : c = nul
      · subst hnul
        rw [if_pos rfl]
        exact alike_terminator hrest
      rw [if_neg hnul]
      have hblank : isBlank c = true := by
        simpa [ordinary, isTerminator, endsLine, hnewline, hreturn, hnul] using hc
      refine alike_blank hrest hblank fun hempty => ?_
      rw [hempty, List.nil_append] at hsplit
      have hfirst := hhead c (by rw [hsplit]; rfl)
      rw [hblank] at hfirst
      cases hfirst

/-! ## Files -/

/-- The first line of `content` is one of those that both read alike. -/
def ReadsAlike (limit : Nat) (content : CString) : Prop :=
  match content with
  | '#' :: '!' :: body => Alike (Past.of limit body) ((body.take limit).dropWhile isBlank)
  | _ => True

theorem reads_notScript {size : Nat} (hsize : 2 ≤ size) {content : CString}
    (h : ∀ body, content ≠ '#' :: '!' :: body) :
    (extractShebang size content).decision = .notScript ∧
      binfmtScript size content = .notScript := by
  obtain ⟨room, rfl⟩ := Nat.exists_eq_add_of_le' hsize
  constructor
  · show (extractShebang (room + 2) content).decision = .notScript
    unfold extractShebang
    split
    · exact absurd rfl (h _)
    · rfl
  · have hbuffer : ((content ++ List.replicate (room + 2) nul).take (room + 2)).take 2 ≠
        ['#', '!'] := by
      rw [List.take_take, show min 2 (room + 2) = 2 by omega]
      match content with
      | [] =>
          intro heq
          simp only [List.replicate_succ, List.nil_append, List.take_succ_cons,
            List.cons.injEq] at heq
          exact absurd heq.1 (by decide)
      | [c] =>
          intro heq
          simp only [List.replicate_succ, List.cons_append, List.nil_append, List.take_succ_cons,
            List.cons.injEq] at heq
          exact absurd heq.2.1 (by decide)
      | c :: d :: body =>
          intro heq
          simp only [List.cons_append, List.take_succ_cons, List.take_zero, List.cons.injEq,
            and_true] at heq
          exact h body (by rw [heq.1, heq.2])
    unfold binfmtScript
    rw [if_pos hbuffer]

/-- **What `extract_shebang` reads is what the kernel reads**, if and only if the first line is one
of those that both read alike. -/
theorem extractShebang_reads_iff {size : Nat} (hsize : 3 ≤ size) (content : CString) :
    (extractShebang size content).decision = binfmtScript size content ↔
      ReadsAlike (size - 3) content := by
  obtain ⟨limit, rfl⟩ := Nat.exists_eq_add_of_le' hsize
  by_cases hscript : ∃ body, content = '#' :: '!' :: body
  · obtain ⟨body, rfl⟩ := hscript
    have hread : extractShebang (limit + 3) ('#' :: '!' :: body) =
        scan (Past.of limit body) ((body.take limit).dropWhile isBlank) := by
      rw [extractShebang]
      exact skipLeading_scan (by omega) body
    rw [hread, binfmtScript_eq, alike_iff (head_dropWhile _), Nat.add_sub_cancel]
    rfl
  · obtain ⟨hcode, hkernel⟩ := reads_notScript (by omega : 2 ≤ limit + 3)
      (fun body hbody => hscript ⟨body, hbody⟩)
    rw [hcode, hkernel]
    refine iff_of_true rfl ?_
    unfold ReadsAlike
    split
    · exact absurd ⟨_, rfl⟩ hscript
    · trivial

/-- An interpreter with an argument, on a line that is shorter than the limit. -/
theorem extractShebang_reads_env :
    (extractShebang 256 "#! /usr/bin/env  -S sh \n".toList).decision =
      binfmtScript 256 "#! /usr/bin/env  -S sh \n".toList := by
  refine (extractShebang_reads_iff (by decide) _).mpr ?_
  refine .inr ⟨by decide, by decide, ?_⟩
  exact .inl rfl

/-- The end of the file takes the place of the last character of the interpreter. -/
theorem extractShebang_loses_last :
    ¬ ∀ content, (extractShebang 256 content).decision = binfmtScript 256 content := by
  intro h
  have hread := h "#!/bin/sh".toList
  revert hread
  decide +kernel

end Improot.Execve
