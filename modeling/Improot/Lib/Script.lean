import Improot.Lib.Shell

/-!
# The words of a shell script

A script is read one character at a time, as a command string is, but expansions are kept: a word is
a list of characters and of expansions, each of them between quotes or not. What `${...}` and
`$(...)` hold is kept as it stands, with the quotes and the expansions inside. Backquotes,
redirections and a `$` that starts no expansion aren't read.
-/

namespace Improot.Lib.Script

open Shell (escapable)

inductive Part where
  /-- quotes, which make a field even if nothing is inside; the first ones of a word are kept -/
  | quotes
  | char (c : Char) (quoted : Bool)
  | parameter (name : List Char) (quoted : Bool)
  /-- `$` followed by a special parameter, by `{...}`, or by `(...)` -/
  | expansion (text : List Char) (quoted : Bool)
  deriving DecidableEq

-- a name for the instance, which the tests for operators below share
local instance lawfulText : LawfulBEq (List Char) := inferInstance

abbrev Word := List Part

def chars (text : List Char) : Word := text.map fun c => .char c true

def literal (text : List Char) : Word := .quotes :: chars text

def bare (text : List Char) : Word := text.map fun c => .char c false

inductive Token where
  | word (word : Word)
  | operator (text : List Char)
  deriving DecidableEq

inductive Nest where
  | brace | paren | single | double
  deriving DecidableEq

inductive Before where
  | nothing | dollar | backslash
  deriving DecidableEq

/-- What the next character is read as; `inside` is for "between double quotes". -/
inductive Mode where
  | plain | escaped | single | double | doubleEscaped | comment
  | dollar (inside : Bool)
  | name (name : List Char) (inside : Bool)
  | expansion (text : List Char) (nests : List Nest) (before : Before) (inside : Bool)
  deriving DecidableEq

inductive Current where
  | nothing
  | word (word : Word)
  | operator (text : List Char)
  deriving DecidableEq

structure Reader where
  tokens : List Token
  current : Current
  mode : Mode
  deriving DecidableEq

/-! ## Names -/

def isNameStart (c : Char) : Bool := c.isAlpha || c = '_'

def isNameChar (c : Char) : Bool := c.isAlphanum || c = '_'

def isName : List Char → Bool
  | [] => false
  | c :: rest => isNameStart c && rest.all isNameChar

def isSpecial (c : Char) : Bool := c.isDigit || c ∈ ['@', '*', '#', '?', '-', '$', '!']

/-- The operators; redirections aren't read. -/
def operators : List (List Char) :=
  [['&'], ['|'], [';'], ['('], [')'], ['&', '&'], ['|', '|'], [';', ';']]

/-! ## The reader -/

namespace Reader

/-- The reader before the first character, or between two commands. -/
def start : Reader := ⟨[], .nothing, .plain⟩

def delimit (r : Reader) : Reader :=
  match r.current with
  | .nothing => r
  | .operator text => { r with tokens := r.tokens ++ [.operator text], current := .nothing }
  | .word word => { r with tokens := r.tokens ++ [.word word], current := .nothing }

def push (r : Reader) (parts : Word) : Reader :=
  match r.current with
  | .nothing => { r with current := .word parts }
  | .word before => { r with current := .word (before ++ parts) }
  | .operator text =>
    { r with tokens := r.tokens ++ [.operator text], current := .word parts }

def openQuotes (r : Reader) : Reader :=
  match r.current with
  | .word word => if .quotes ∈ word then r else r.push [.quotes]
  | _ => r.push [.quotes]

def goto (r : Reader) (mode : Mode) : Reader := { r with mode := mode }

def inWord (r : Reader) : Bool :=
  match r.current with
  | .word _ => true
  | _ => false

def goesOn (r : Reader) (c : Char) : Option (List Char) :=
  match r.current with
  | .operator text => if text ++ [c] ∈ operators then some (text ++ [c]) else none
  | _ => none

def endLine (r : Reader) : Reader :=
  { r.delimit with tokens := r.delimit.tokens ++ [.operator ['\n']], mode := .plain }

def stepPlain (r : Reader) (c : Char) : Option Reader :=
  match r.goesOn c with
  | some text => some { r with current := .operator text }
  | none =>
    if c = '\\' then some (r.goto .escaped)
    else if c = '\'' then some (r.openQuotes.goto .single)
    else if c = '"' then some (r.openQuotes.goto .double)
    else if c = '$' then some (r.goto (.dollar false))
    else if c = '\x60' ∨ c = '<' ∨ c = '>' then none
    else if c = '\n' then some r.endLine
    else if [c] ∈ operators then some { r.delimit with current := .operator [c] }
    else if c = ' ' ∨ c = '\t' then some r.delimit
    else if c = '#' && !r.inWord then some (r.delimit.goto .comment)
    else some (r.push [.char c false])

def stepDouble (r : Reader) (c : Char) : Option Reader :=
  if c = '"' then some (r.goto .plain)
  else if c = '\\' then some (r.goto .doubleEscaped)
  else if c = '$' then some (r.goto (.dollar true))
  else if c = '\x60' then none
  else some (r.push [.char c true])

def leave (r : Reader) (inside : Bool) : Reader := r.goto (if inside then .double else .plain)

/-- The character after a `$`. -/
def stepDollar (r : Reader) (inside : Bool) (c : Char) : Option Reader :=
  if isNameStart c then some (r.goto (.name [c] inside))
  else if isSpecial c then some ((r.push [.expansion [c] inside]).leave inside)
  else if c = '{' then some (r.goto (.expansion [c] [.brace] .nothing inside))
  else if c = '(' then some (r.goto (.expansion [c] [.paren] .nothing inside))
  else none

/-- A character inside an expansion: the nests it leaves open, and what it is for the next one. -/
def nest (nests : List Nest) (before : Before) (c : Char) : List Nest × Before :=
  match before, nests with
  | .backslash, _ => (nests, .nothing)
  | _, [] => ([], .nothing)
  | _, .single :: outer => if c = '\'' then (outer, .nothing) else (nests, .nothing)
  | before, inner :: outer =>
    if c = '\\' then (nests, .backslash)
    else if c = '$' then (nests, .dollar)
    else if before = .dollar ∧ c = '{' then (.brace :: nests, .nothing)
    else if before = .dollar ∧ c = '(' then (.paren :: nests, .nothing)
    else match inner with
      | .double => if c = '"' then (outer, .nothing) else (nests, .nothing)
      | .brace =>
        if c = '}' then (outer, .nothing)
        else if c = '"' then (.double :: nests, .nothing)
        else if c = '\'' then (.single :: nests, .nothing)
        else (nests, .nothing)
      | _ =>
        if c = ')' then (outer, .nothing)
        else if c = '(' then (.paren :: nests, .nothing)
        else if c = '"' then (.double :: nests, .nothing)
        else if c = '\'' then (.single :: nests, .nothing)
        else (nests, .nothing)

def step (r : Reader) (c : Char) : Option Reader :=
  match r.mode with
  | .plain => r.stepPlain c
  | .escaped =>
    if c = '\n' then some (r.goto .plain) else some ((r.push [.char c true]).goto .plain)
  | .single => if c = '\'' then some (r.goto .plain) else some (r.push [.char c true])
  | .double => r.stepDouble c
  | .doubleEscaped =>
    if c = '\n' then some (r.goto .double)
    else if escapable c then some ((r.push [.char c true]).goto .double)
    else some ((r.push [.char '\\' true, .char c true]).goto .double)
  | .comment => if c = '\n' then some r.endLine else some r
  | .dollar inside => r.stepDollar inside c
  | .name name inside =>
    if isNameChar c then some (r.goto (.name (name ++ [c]) inside))
    else
      let r := r.push [.parameter name inside]
      if inside then (r.goto .double).stepDouble c else (r.goto .plain).stepPlain c
  | .expansion text nests before inside =>
    match nest nests before c with
    | ([], _) => some ((r.push [.expansion (text ++ [c]) inside]).leave inside)
    | (nests, before) => some (r.goto (.expansion (text ++ [c]) nests before inside))

def run (r : Reader) (text : List Char) : Option Reader := text.foldlM step r

end Reader

/-- The text is read as these tokens, between two commands or two words of one. -/
def Reads (text : List Char) (tokens : List Token) : Prop :=
  Reader.start.run text = some ⟨tokens, .nothing, .plain⟩

instance (text : List Char) (tokens : List Token) : Decidable (Reads text tokens) :=
  inferInstanceAs (Decidable (_ = _))

example : Reads "a='b c' \"$d.e\" \\\n $\x7b1+\"$@\"\x7d $(f \")\" $0)/g || h # i\n".toList
    [.word (bare "a=".toList ++ literal "b c".toList),
      .word ([.quotes, .parameter "d".toList true] ++ chars ".e".toList),
      .word [.expansion "\x7b1+\"$@\"\x7d".toList false],
      .word (.expansion "(f \")\" $0)".toList false :: bare "/g".toList),
      .operator "||".toList, .word (bare "h".toList), .operator "\n".toList] := by
  decide

namespace Reader

theorem run_append (r : Reader) (a b : List Char) :
    r.run (a ++ b) = (r.run a).bind fun r' => r'.run b := List.foldlM_append

theorem run_cons (r : Reader) (c : Char) (text : List Char) :
    r.run (c :: text) = (r.step c).bind fun r' => r'.run text := rfl

@[simp] theorem run_nil (r : Reader) : r.run [] = some r := rfl

/-! ## What was read before -/

def after (before : List Token) (r : Reader) : Reader := { r with tokens := before ++ r.tokens }

variable (before : List Token) (r : Reader)

@[simp] theorem after_nil : r.after [] = r := rfl

@[simp] theorem after_current : (r.after before).current = r.current := rfl

@[simp] theorem after_mode : (r.after before).mode = r.mode := rfl

@[simp] theorem delimit_after : (r.after before).delimit = r.delimit.after before := by
  unfold delimit
  rw [after_current]
  cases r.current <;> simp [after, List.append_assoc]

@[simp] theorem push_after (parts : Word) :
    (r.after before).push parts = (r.push parts).after before := by
  unfold push
  rw [after_current]
  cases r.current <;> simp [after, List.append_assoc]

@[simp] theorem openQuotes_after : (r.after before).openQuotes = r.openQuotes.after before := by
  unfold openQuotes
  rw [after_current, push_after]
  cases r.current with
  | nothing | operator => rfl
  | word word =>
      dsimp only
      split_ifs <;> rfl

@[simp] theorem goto_after (mode : Mode) :
    (r.after before).goto mode = (r.goto mode).after before := rfl

@[simp] theorem leave_after (inside : Bool) :
    (r.after before).leave inside = (r.leave inside).after before := rfl

@[simp] theorem inWord_after : (r.after before).inWord = r.inWord := rfl

@[simp] theorem goesOn_after (c : Char) : (r.after before).goesOn c = r.goesOn c := rfl

@[simp] theorem endLine_after : (r.after before).endLine = r.endLine.after before := by
  unfold endLine
  rw [delimit_after]
  simp [after, List.append_assoc]

theorem stepPlain_after (c : Char) :
    (r.after before).stepPlain c = (r.stepPlain c).map (after before) := by
  unfold stepPlain
  rw [goesOn_after]
  cases r.goesOn c with
  | some text => rfl
  | none =>
      simp only [push_after, openQuotes_after, goto_after, endLine_after, delimit_after,
        inWord_after, apply_ite (Option.map (after before)), Option.map_some, Option.map_none]
      rfl

theorem stepDouble_after (c : Char) :
    (r.after before).stepDouble c = (r.stepDouble c).map (after before) := by
  unfold stepDouble
  simp only [push_after, goto_after]
  split_ifs <;> rfl

theorem stepDollar_after (inside : Bool) (c : Char) :
    (r.after before).stepDollar inside c = (r.stepDollar inside c).map (after before) := by
  unfold stepDollar
  simp only [push_after, goto_after, leave_after]
  split_ifs <;> rfl

/-- A step is the same, whatever was read before. -/
theorem step_after (c : Char) : (r.after before).step c = (r.step c).map (after before) := by
  unfold step
  rw [after_mode]
  cases r.mode with
  | plain => exact stepPlain_after before r c
  | double => exact stepDouble_after before r c
  | dollar inside => exact stepDollar_after before r inside c
  | escaped | single | doubleEscaped =>
      simp only [push_after, goto_after]
      split_ifs <;> rfl
  | comment =>
      simp only [endLine_after]
      split_ifs <;> rfl
  | name name inside =>
      simp only [push_after, goto_after]
      split_ifs
      · rfl
      · exact stepDouble_after before _ c
      · exact stepPlain_after before _ c
  | expansion text nests last inside =>
      simp only [push_after, goto_after, leave_after]
      split <;> rfl

/-- **A text is read the same, whatever was read before.** -/
theorem run_after (text : List Char) :
    (r.after before).run text = (r.run text).map (after before) := by
  induction text generalizing r with
  | nil => rfl
  | cons c text ih =>
      rw [run_cons, run_cons, step_after]
      cases r.step c with
      | none => rfl
      | some r' => exact ih r'

end Reader

theorem Reads.append {a b : List Char} {ta tb : List Token} (ha : Reads a ta) (hb : Reads b tb) :
    Reads (a ++ b) (ta ++ tb) := by
  unfold Reads at ha hb ⊢
  have hafter : (⟨ta, .nothing, .plain⟩ : Reader) = Reader.start.after ta := by
    simp [Reader.start, Reader.after]
  rw [Reader.run_append, ha, Option.bind_some, hafter, Reader.run_after, hb]
  rfl

theorem Reads.nil : Reads [] [] := rfl

/-- Texts read one after the other. -/
theorem Reads.flatMap {α : Type*} {text : α → List Char} {tokens : α → List Token} {l : List α}
    (h : ∀ a ∈ l, Reads (text a) (tokens a)) : Reads (l.flatMap text) (l.flatMap tokens) := by
  induction l with
  | nil => exact .nil
  | cons a l ih =>
      obtain ⟨ha, hl⟩ := List.forall_mem_cons.mp h
      exact .append ha (ih hl)

/-! ## A word that is one literal piece -/

open Reader

/-- Other quotes were opened before. -/
theorem openQuotes_of_mem {tokens : List Token} {word : Word} {mode : Mode} (h : .quotes ∈ word) :
    (⟨tokens, .word word, mode⟩ : Reader).openQuotes = ⟨tokens, .word word, mode⟩ := if_pos h

/-- The text starts a word that stands for another text, and nothing of the word is left to read. -/
def ReadsWord (text : List Char) (word : Word) : Prop :=
  start.run text = some ⟨[], .word word, .plain⟩

variable {text : List Char} {c : Char}

/-- A word, and the blanks and the escaped newline after it. -/
theorem ReadsWord.line {word : Word} (h : ReadsWord text word)
    {blanks : List Char} (hblanks : blanks = [' '] ∨ blanks = [' ', ' ']) :
    Reads (text ++ blanks ++ ['\\', '\n']) [.word word] := by
  unfold Reads
  rw [Reader.run_append, Reader.run_append, h]
  rcases hblanks with rfl | rfl <;> rfl

/-- What is read in a mode that keeps every character of a text. -/
theorem run_single (h : '\'' ∉ text) (r : Reader) (hmode : r.mode = .single) :
    ∀ word, r.current = .word word →
      r.run text = some { r with current := .word (word ++ chars text) } := by
  induction text generalizing r with
  | nil =>
      intro word hword
      cases r
      cases hword
      simp [chars]
  | cons c text ih =>
      intro word hword
      obtain ⟨hc, htext⟩ := not_or.mp (mt List.mem_cons.mpr h)
      have hstep : r.step c = some (r.push [.char c true]) := by
        simp [step, hmode, Ne.symm hc]
      rw [run_cons, hstep, Option.bind_some,
        ih htext _ (by simp [push, hword, hmode]) (word ++ [.char c true]) (by simp [push, hword])]
      simp [push, hword, chars]

/-- Single quotes around a text without single quotes. -/
theorem readsWord_single (h : '\'' ∉ text) :
    ReadsWord ('\'' :: (text ++ ['\''])) (literal text) := by
  have hstart : start.step '\'' = some ⟨[], .word [.quotes], .single⟩ := rfl
  unfold ReadsWord
  rw [run_cons, hstart, Option.bind_some, run_append, run_single h _ rfl [.quotes] rfl]
  rfl

/-- Double quotes around a text that they leave alone; the flag says that a backslash comes before.
-/
theorem run_double {escaped : Bool} (h : Shell.inert escaped text = true)
    (word : Word) (rest : List Char) :
    (⟨[], .word word, if escaped then .doubleEscaped else .double⟩ : Reader).run (text ++ '"' :: rest) =
      (⟨[], .word (word ++ chars (if escaped then '\\' :: text else text)), .plain⟩ : Reader).run rest := by
  induction text generalizing word escaped with
  | nil =>
      cases escaped with
      | false => simp [chars, run_cons, step, stepDouble, goto]
      | true => simp [Shell.inert] at h
  | cons c text ih =>
      rw [List.cons_append, run_cons]
      cases escaped with
      | false =>
          by_cases hc : c = '\\'
          · subst hc
            have hrest : Shell.inert true text = true := by simpa [Shell.inert] using h
            exact ih hrest word
          · simp only [Shell.inert, hc, if_false, Bool.and_eq_true, Bool.not_eq_true',
              decide_eq_true_eq, Shell.expands, Bool.or_eq_false_iff, decide_eq_false_iff_not] at h
            obtain ⟨⟨⟨hdollar, hback⟩, hquote⟩, hrest⟩ := h
            have hstep : (⟨[], .word word, .double⟩ : Reader).step c =
                some ⟨[], .word (word ++ [.char c true]), .double⟩ := by
              simp [step, stepDouble, push, hc, hquote, hdollar, hback]
            have hih := ih hrest (word ++ [.char c true])
            rw [if_neg Bool.false_ne_true] at hih ⊢
            rw [hstep, Option.bind_some, hih]
            simp [chars]
      | true =>
          simp only [Shell.inert, Bool.and_eq_true, Bool.not_eq_true'] at h
          obtain ⟨hesc, hrest⟩ := h
          have hnewline : c ≠ '\n' := by
            intro hc
            simp [hc, escapable] at hesc
          have hstep : (⟨[], .word word, .doubleEscaped⟩ : Reader).step c =
              some ⟨[], .word (word ++ [.char '\\' true, .char c true]), .double⟩ := by
            simp [step, push, goto, hnewline, hesc]
          have hih := ih hrest (word ++ [.char '\\' true, .char c true])
          rw [if_neg Bool.false_ne_true] at hih
          rw [if_pos rfl, hstep, Option.bind_some, hih]
          simp [chars]

/-- **Double quotes around an inert text.** -/
theorem readsWord_double (h : Shell.inert false text = true) :
    ReadsWord ('"' :: (text ++ ['"'])) (literal text) := by
  have hstart : start.step '"' = some ⟨[], .word [.quotes], .double⟩ := rfl
  unfold ReadsWord
  rw [run_cons, hstart, Option.bind_some]
  exact run_double h [.quotes] []

/-- The characters of a name that is read. -/
theorem run_name {name more : List Char} (h : more.all isNameChar = true) (inside : Bool) (word : Word) :
    (⟨[], .word word, .name name inside⟩ : Reader).run more =
      some ⟨[], .word word, .name (name ++ more) inside⟩ := by
  induction more generalizing name with
  | nil => simp
  | cons c more ih =>
      rw [List.all_cons, Bool.and_eq_true] at h
      have hstep : (⟨[], .word word, .name name inside⟩ : Reader).step c =
          some ⟨[], .word word, .name (name ++ [c]) inside⟩ := by
        simp [step, h.1, goto]
      rw [run_cons, hstep, Option.bind_some, ih h.2]
      simp

/-- A parameter between double quotes, and what comes after its name. -/
theorem run_parameter {name : List Char} (hname : isName name = true) {d : Char}
    (hd : isNameChar d = false) (word : Word) (rest : List Char) :
    (⟨[], .word word, .double⟩ : Reader).run ('$' :: (name ++ d :: rest)) =
      (⟨[], .word (word ++ [.parameter name true]), .double⟩ : Reader).run (d :: rest) := by
  obtain ⟨c, more, rfl⟩ : ∃ c more, name = c :: more := by
    cases name with
    | nil => cases hname
    | cons c more => exact ⟨c, more, rfl⟩
  rw [isName, Bool.and_eq_true] at hname
  have hdollar : (⟨[], .word word, .double⟩ : Reader).step '$' =
      some ⟨[], .word word, .dollar true⟩ := rfl
  have hfirst : (⟨[], .word word, .dollar true⟩ : Reader).step c =
      some ⟨[], .word word, .name [c] true⟩ := by
    simp [step, stepDollar, hname.1, goto]
  rw [run_cons, hdollar, Option.bind_some, List.cons_append, run_cons, hfirst, Option.bind_some,
    run_append, run_name hname.2, Option.bind_some, run_cons, run_cons]
  simp [step, hd, push, goto]

/-! ## How much of a text reaches a word -/

def Token.parts : Token → Word
  | word parts => parts
  | operator text => bare text

def Current.parts : Current → Word
  | nothing => []
  | word parts => parts
  | operator text => bare text

def Reader.contents (r : Reader) : Word := r.tokens.flatMap Token.parts ++ r.current.parts

def Part.solid (p : Part) : Bool := p ≠ .quotes

def weight (parts : Word) : Nat := parts.countP Part.solid

/-- What a mode owes: what is put off until the end of an escape or of an expansion. -/
def Mode.cost : Mode → Nat
  | plain | single | double | comment => 1
  | _ => 2

def Mode.expanding : Mode → Bool
  | dollar _ | name _ _ | expansion _ _ _ _ => true
  | _ => false

def Part.expands : Part → Bool
  | parameter _ _ | expansion _ _ => true
  | _ => false

def Part.proper : Part → Bool
  | parameter text _ => isName text
  | _ => true

def Mode.proper : Mode → Bool
  | name text _ => isName text
  | _ => true

structure Reader.Grows (r r' : Reader) (consumed : Nat) (more : Word) : Prop where
  contents : r'.contents = r.contents ++ more
  weight : weight more + r'.mode.cost ≤ r.mode.cost + consumed
  expanding : r.mode.expanding = true → r'.mode.expanding = true ∨ ∃ p ∈ more, p.expands = true
  proper : r.mode.proper = true → r'.mode.proper = true ∧ ∀ p ∈ more, p.proper = true

@[simp] theorem weight_append (a b : Word) : weight (a ++ b) = weight a + weight b :=
  List.countP_append

@[simp] theorem weight_nil : weight [] = 0 := rfl

@[simp] theorem weight_chars (text : List Char) : weight (chars text) = text.length := by
  simp [weight, chars, Part.solid, List.countP_map, Function.comp_def]

@[simp] theorem weight_bare (text : List Char) : weight (bare text) = text.length := by
  simp [weight, bare, Part.solid, List.countP_map, Function.comp_def]

@[simp] theorem delimit_contents (r : Reader) : r.delimit.contents = r.contents := by
  unfold delimit
  cases hcurrent : r.current <;>
    simp [Reader.contents, hcurrent, Token.parts, Current.parts]

@[simp] theorem delimit_current (r : Reader) : r.delimit.current = .nothing := by
  unfold delimit
  cases hcurrent : r.current <;> simp [hcurrent]

@[simp] theorem delimit_mode (r : Reader) : r.delimit.mode = r.mode := by
  unfold delimit
  cases r.current <;> rfl

@[simp] theorem push_contents (r : Reader) (parts : Word) :
    (r.push parts).contents = r.contents ++ parts := by
  unfold push
  cases hcurrent : r.current <;>
    simp [Reader.contents, hcurrent, Token.parts, Current.parts]

@[simp] theorem push_mode (r : Reader) (parts : Word) : (r.push parts).mode = r.mode := by
  unfold push
  cases r.current <;> rfl

@[simp] theorem goto_contents (r : Reader) (mode : Mode) : (r.goto mode).contents = r.contents := rfl

@[simp] theorem goto_mode (r : Reader) (mode : Mode) : (r.goto mode).mode = mode := rfl

@[simp] theorem leave_contents (r : Reader) (inside : Bool) :
    (r.leave inside).contents = r.contents := rfl

@[simp] theorem leave_cost (r : Reader) (inside : Bool) : (r.leave inside).mode.cost = 1 := by
  cases inside <;> rfl

@[simp] theorem leave_proper (r : Reader) (inside : Bool) : (r.leave inside).mode.proper = true := by
  cases inside <;> rfl

/-- Quotes weigh nothing. -/
theorem openQuotes_contents (r : Reader) :
    r.openQuotes.contents = r.contents ∨ r.openQuotes.contents = r.contents ++ [.quotes] := by
  unfold openQuotes
  split
  · split_ifs
    · exact .inl rfl
    · exact .inr (push_contents r _)
  · exact .inr (push_contents r _)

namespace Reader.Grows

variable {r r' r'' : Reader} {a b : Nat} {more more' : Word}

theorem trans (h : Grows r r' a more) (h' : Grows r' r'' b more') :
    Grows r r'' (a + b) (more ++ more') where
  contents := by rw [h'.contents, h.contents, List.append_assoc]
  weight := by
    have := h.weight
    have := h'.weight
    rw [weight_append]
    omega
  expanding := by
    intro hexp
    rcases h.expanding hexp with hexp' | ⟨p, hp, hpe⟩
    · rcases h'.expanding hexp' with hexp'' | ⟨p, hp, hpe⟩
      · exact .inl hexp''
      · exact .inr ⟨p, List.mem_append_right _ hp, hpe⟩
    · exact .inr ⟨p, List.mem_append_left _ hp, hpe⟩
  proper := by
    intro hprop
    obtain ⟨hmode, hparts⟩ := h.proper hprop
    obtain ⟨hmode', hparts'⟩ := h'.proper hmode
    refine ⟨hmode', fun p hp => ?_⟩
    rcases List.mem_append.mp hp with hp | hp
    · exact hparts p hp
    · exact hparts' p hp

/-- A step outside expansions. -/
theorem of_plain (hmode : r.mode.expanding = false) (hcontents : r'.contents = r.contents ++ more)
    (hweight : Script.weight more + r'.mode.cost ≤ r.mode.cost + a)
    (hproper : r'.mode.proper = true) (hparts : ∀ p ∈ more, p.proper = true) : Grows r r' a more where
  contents := hcontents
  weight := hweight
  expanding := by simp [hmode]
  proper := fun _ => ⟨hproper, hparts⟩

end Reader.Grows

variable {r r' : Reader}

theorem stepPlain_grows (hmode : r.mode = .plain)
    (h : r.stepPlain c = some r') : ∃ more, Grows r r' 1 more := by
  have hexp : r.mode.expanding = false := by rw [hmode]; rfl
  have hcost : r.mode.cost = 1 := by rw [hmode]; rfl
  have hopen : ∀ mode : Mode, mode.cost = 1 → mode.proper = true →
      ∃ more, Grows r (r.openQuotes.goto mode) 1 more := by
    intro mode hmode' hprop
    rcases openQuotes_contents r with hc | hc
    · exact ⟨[], .of_plain hexp (by simp [hc]) (by simp [hmode', hcost]) hprop (by simp)⟩
    · refine ⟨[.quotes], .of_plain hexp (by simp [hc]) ?_ hprop (by simp [Part.proper])⟩
      rw [goto_mode, hmode', hcost]
      decide
  unfold stepPlain at h
  split at h
  · rename_i text hgoes
    cases h
    obtain ⟨before, hcurrent, rfl⟩ : ∃ before, r.current = .operator before ∧ text = before ++ [c] := by
      unfold goesOn at hgoes
      split at hgoes
      · rename_i before hcurrent
        split_ifs at hgoes
        cases hgoes
        exact ⟨before, hcurrent, rfl⟩
      · cases hgoes
    refine ⟨bare [c], .of_plain hexp ?_ (by simp [hmode, Mode.cost]) (by simp [hmode, Mode.proper])
      (by simp [bare, Part.proper])⟩
    simp [Reader.contents, hcurrent, Current.parts, bare]
  · by_cases hback : c = '\\'
    · rw [if_pos hback] at h
      cases h
      exact ⟨[], .of_plain hexp (by simp) (by simp [hmode, Mode.cost]) rfl (by simp)⟩
    rw [if_neg hback] at h
    by_cases hsingle : c = '\''
    · rw [if_pos hsingle] at h
      cases h
      exact hopen _ rfl rfl
    rw [if_neg hsingle] at h
    by_cases hdouble : c = '"'
    · rw [if_pos hdouble] at h
      cases h
      exact hopen _ rfl rfl
    rw [if_neg hdouble] at h
    by_cases hdollar : c = '$'
    · rw [if_pos hdollar] at h
      cases h
      exact ⟨[], .of_plain hexp (by simp) (by simp [hmode, Mode.cost]) rfl (by simp)⟩
    rw [if_neg hdollar] at h
    by_cases htick : c = '\x60' ∨ c = '<' ∨ c = '>'
    · rw [if_pos htick] at h
      cases h
    rw [if_neg htick] at h
    by_cases hline : c = '\n'
    · rw [if_pos hline] at h
      cases h
      refine ⟨bare ['\n'], .of_plain hexp ?_ (by simp [hmode, endLine, Mode.cost]) rfl
        (by simp [bare, Part.proper])⟩
      have hdelimit := delimit_contents r
      rw [Reader.contents, delimit_current] at hdelimit
      rw [← hdelimit]
      simp [endLine, Reader.contents, Token.parts, Current.parts]
    rw [if_neg hline] at h
    by_cases hop : [c] ∈ operators
    · rw [if_pos hop] at h
      cases h
      refine ⟨bare [c], .of_plain hexp ?_ (by simp [hmode, Mode.cost]) (by simp [hmode, Mode.proper])
        (by simp [bare, Part.proper])⟩
      have hdelimit := delimit_contents r
      rw [Reader.contents, delimit_current] at hdelimit
      rw [← hdelimit]
      simp [Reader.contents, Current.parts]
    rw [if_neg hop] at h
    by_cases hblank : c = ' ' ∨ c = '\t'
    · rw [if_pos hblank] at h
      cases h
      exact ⟨[], .of_plain hexp (by simp) (by simp) (by simp [hmode, Mode.proper]) (by simp)⟩
    rw [if_neg hblank] at h
    by_cases hcomment : (c = '#' && !r.inWord) = true
    · rw [if_pos hcomment] at h
      cases h
      exact ⟨[], .of_plain hexp (by simp) (by simp [hmode, Mode.cost]) rfl (by simp)⟩
    rw [if_neg hcomment] at h
    cases h
    exact ⟨bare [c], .of_plain hexp (by simp [bare]) (by simp [Nat.add_comm])
      (by simp [hmode, Mode.proper]) (by simp [bare, Part.proper])⟩

theorem stepDouble_grows (hmode : r.mode = .double)
    (h : r.stepDouble c = some r') : ∃ more, Grows r r' 1 more := by
  have hexp : r.mode.expanding = false := by rw [hmode]; rfl
  unfold stepDouble at h
  split_ifs at h
  · cases h
    exact ⟨[], .of_plain hexp (by simp) (by simp [hmode, Mode.cost]) rfl (by simp)⟩
  · cases h
    exact ⟨[], .of_plain hexp (by simp) (by simp [hmode, Mode.cost]) rfl (by simp)⟩
  · cases h
    exact ⟨[], .of_plain hexp (by simp) (by simp [hmode, Mode.cost]) rfl (by simp)⟩
  · cases h
    exact ⟨chars [c], .of_plain hexp (by simp [chars]) (by simp [Nat.add_comm])
      (by simp [hmode, Mode.proper]) (by simp [chars, Part.proper])⟩

/-- A step inside an expansion that goes on. -/
theorem Reader.Grows.of_expanding (hcontents : r'.contents = r.contents)
    (hcost : r'.mode.cost ≤ r.mode.cost + 1) (hexp : r'.mode.expanding = true)
    (hproper : r.mode.proper = true → r'.mode.proper = true) : Grows r r' 1 [] where
  contents := by simp [hcontents]
  weight := by simpa using hcost
  expanding := fun _ => .inl hexp
  proper := fun hprop => ⟨hproper hprop, by simp⟩

/-- The end of an expansion. -/
theorem Reader.Grows.of_part {part : Part}
    (hcontents : r'.contents = r.contents ++ [part]) (hpart : part.expands = true)
    (hproper : r.mode.proper = true → part.proper = true) (hcost : r'.mode.cost = 1)
    (hprop : r'.mode.proper = true) (hr : r.mode.cost = 2) :
    Grows r r' 0 [part] where
  contents := hcontents
  weight := by
    have : Script.weight [part] ≤ 1 := List.countP_le_length
    omega
  expanding := fun _ => .inr ⟨part, List.mem_singleton_self _, hpart⟩
  proper := fun h => ⟨hprop, fun p hp => List.mem_singleton.mp hp ▸ hproper h⟩

theorem Reader.Grows.mono {a b : Nat} {more : Word} (h : Grows r r' a more)
    (hle : a ≤ b) : Grows r r' b more :=
  { h with weight := Nat.le_trans h.weight (Nat.add_le_add_left hle _) }

theorem stepDollar_grows {inside : Bool} (hmode : r.mode = .dollar inside)
    (h : r.stepDollar inside c = some r') : ∃ more, Grows r r' 1 more := by
  have hexp : r.mode.expanding = true := by rw [hmode]; rfl
  have hcost : r.mode.cost = 2 := by rw [hmode]; rfl
  unfold stepDollar at h
  split_ifs at h with hname
  · cases h
    refine ⟨[], .of_expanding rfl (by simp [hmode, Mode.cost]) rfl fun _ => ?_⟩
    simp [Mode.proper, isName, hname]
  · cases h
    have hleft : Grows r ((r.push [.expansion [c] inside]).leave inside) 0 [.expansion [c] inside] :=
      .of_part (by simp) rfl (fun _ => rfl) (by simp) (by simp) hcost
    exact ⟨_, hleft.mono (Nat.zero_le 1)⟩
  · cases h
    exact ⟨[], .of_expanding rfl (by simp [hmode, Mode.cost]) rfl fun _ => rfl⟩
  · cases h
    exact ⟨[], .of_expanding rfl (by simp [hmode, Mode.cost]) rfl fun _ => rfl⟩

/-- **What one character adds.** -/
theorem step_grows (h : r.step c = some r') : ∃ more, Grows r r' 1 more := by
  unfold step at h
  cases hmode : r.mode with
  | plain =>
      rw [hmode] at h
      exact stepPlain_grows hmode h
  | double =>
      rw [hmode] at h
      exact stepDouble_grows hmode h
  | dollar inside =>
      rw [hmode] at h
      exact stepDollar_grows hmode h
  | escaped =>
      simp only [hmode] at h
      have hexp : r.mode.expanding = false := by rw [hmode]; rfl
      split_ifs at h
      · cases h
        exact ⟨[], .of_plain hexp (by simp) (by simp [hmode, Mode.cost]) rfl (by simp)⟩
      · cases h
        exact ⟨chars [c], .of_plain hexp (by simp [chars]) (by simp [hmode, Mode.cost]) rfl
          (by simp [chars, Part.proper])⟩
  | single =>
      simp only [hmode] at h
      have hexp : r.mode.expanding = false := by rw [hmode]; rfl
      split_ifs at h
      · cases h
        exact ⟨[], .of_plain hexp (by simp) (by simp [hmode, Mode.cost]) rfl (by simp)⟩
      · cases h
        exact ⟨chars [c], .of_plain hexp (by simp [chars]) (by simp [hmode, Mode.cost])
          (by simp [hmode, Mode.proper]) (by simp [chars, Part.proper])⟩
  | doubleEscaped =>
      simp only [hmode] at h
      have hexp : r.mode.expanding = false := by rw [hmode]; rfl
      split_ifs at h
      · cases h
        exact ⟨[], .of_plain hexp (by simp) (by simp [hmode, Mode.cost]) rfl (by simp)⟩
      · cases h
        exact ⟨chars [c], .of_plain hexp (by simp [chars]) (by simp [hmode, Mode.cost]) rfl
          (by simp [chars, Part.proper])⟩
      · cases h
        exact ⟨chars ['\\', c], .of_plain hexp (by simp [chars]) (by simp [hmode, Mode.cost]) rfl
          (by simp [chars, Part.proper])⟩
  | comment =>
      simp only [hmode] at h
      have hexp : r.mode.expanding = false := by rw [hmode]; rfl
      split_ifs at h
      · cases h
        refine ⟨bare ['\n'], .of_plain hexp ?_ (by simp [hmode, endLine, Mode.cost]) rfl
          (by simp [bare, Part.proper])⟩
        have hdelimit := delimit_contents r
        rw [Reader.contents, delimit_current] at hdelimit
        rw [← hdelimit]
        simp [endLine, Reader.contents, Token.parts, Current.parts]
      · cases h
        exact ⟨[], .of_plain hexp (by simp) (by simp) (by simp [hmode, Mode.proper]) (by simp)⟩
  | name text inside =>
      simp only [hmode] at h
      have hexp : r.mode.expanding = true := by rw [hmode]; rfl
      have hcost : r.mode.cost = 2 := by rw [hmode]; rfl
      split_ifs at h with hc hinside
      · cases h
        refine ⟨[], .of_expanding rfl (by simp [hmode, Mode.cost]) rfl ?_⟩
        rw [hmode, goto_mode]
        cases text with
        | nil => simp [Mode.proper, isName]
        | cons d text =>
            intro hprop
            simp only [Mode.proper, isName, List.cons_append, List.all_append, Bool.and_eq_true] at hprop ⊢
            exact ⟨hprop.1, hprop.2, by simp [hc]⟩
      · -- the parameter, and then the character between double quotes
        have hpart : Grows r ((r.push [.parameter text inside]).goto .double) 0
            [.parameter text inside] :=
          .of_part (by simp) rfl (fun hprop => by rwa [hmode] at hprop) rfl rfl hcost
        obtain ⟨more, hmore⟩ := stepDouble_grows (by rfl) h
        exact ⟨_, hpart.trans hmore⟩
      · have hpart : Grows r ((r.push [.parameter text inside]).goto .plain) 0
            [.parameter text inside] :=
          .of_part (by simp) rfl (fun hprop => by rwa [hmode] at hprop) rfl rfl hcost
        obtain ⟨more, hmore⟩ := stepPlain_grows (by rfl) h
        exact ⟨_, hpart.trans hmore⟩
  | expansion text nests before inside =>
      simp only [hmode] at h
      have hexp : r.mode.expanding = true := by rw [hmode]; rfl
      have hcost : r.mode.cost = 2 := by rw [hmode]; rfl
      split at h
      · cases h
        have hleft : Grows r ((r.push [.expansion (text ++ [c]) inside]).leave inside) 0
            [.expansion (text ++ [c]) inside] :=
          .of_part (by simp) rfl (fun _ => rfl) (by simp) (by simp) hcost
        exact ⟨_, hleft.mono (Nat.zero_le 1)⟩
      · cases h
        exact ⟨[], .of_expanding rfl (by simp [hmode, Mode.cost]) rfl fun _ => rfl⟩

/-- **What a text adds.** -/
theorem run_grows (h : r.run text = some r') :
    ∃ more, Grows r r' text.length more := by
  induction text generalizing r with
  | nil =>
      cases h
      exact ⟨[], by simp, by simp, .inl, fun hprop => ⟨hprop, by simp⟩⟩
  | cons c text ih =>
      rw [run_cons, Option.bind_eq_some_iff] at h
      obtain ⟨t, hstep, hrun⟩ := h
      obtain ⟨more, hmore⟩ := step_grows hstep
      obtain ⟨more', hmore'⟩ := ih hrun
      have hboth := hmore.trans hmore'
      rw [Nat.add_comm] at hboth
      exact ⟨_, hboth⟩

/-! ## Texts that quotes do not leave alone -/

/-- What a literal word holds. -/
theorem chars_inert {p : Part} (h : p ∈ chars text) : p.expands = false := by
  obtain ⟨c, -, rfl⟩ := List.mem_map.mp h
  rfl

/-- A text that isn't inert loses a character, escapes the quote that is to close it, or expands. -/
theorem run_not_inert {escaped : Bool}
    (h : Shell.inert escaped text = false) (hmode : r.mode = if escaped then .doubleEscaped else .double)
    (hrun : r.run text = some r') :
    r'.mode = .doubleEscaped ∨ ∃ more, r'.contents = r.contents ++ more ∧
      (r'.mode.expanding = true ∨ (∃ p ∈ more, p.expands = true) ∨
        weight more + r'.mode.cost < r.mode.cost + text.length) := by
  induction text generalizing r escaped with
  | nil =>
      cases hrun
      left
      cases escaped with
      | false => simp [Shell.inert] at h
      | true => simpa using hmode
  | cons c text ih =>
      rw [run_cons, Option.bind_eq_some_iff] at hrun
      obtain ⟨t, hstep, hrun⟩ := hrun
      obtain ⟨later, hlater⟩ := run_grows hrun
      rw [List.length_cons]
      -- a step that loses its character leaves the whole text one short
      have hlost : t.contents = r.contents → t.mode.cost ≤ r.mode.cost →
          r'.mode = .doubleEscaped ∨ ∃ more, r'.contents = r.contents ++ more ∧
            (r'.mode.expanding = true ∨ (∃ p ∈ more, p.expands = true) ∨
              weight more + r'.mode.cost < r.mode.cost + (text.length + 1)) := by
        intro hcontents hcost
        have := hlater.weight
        exact .inr ⟨later, by rw [hlater.contents, hcontents], .inr (.inr (by omega))⟩
      -- a step that keeps its character leaves the rest to the induction
      have hkept : ∀ parts escaped', t.contents = r.contents ++ parts →
          weight parts + t.mode.cost = r.mode.cost + 1 → Shell.inert escaped' text = false →
          (t.mode = if escaped' then .doubleEscaped else .double) →
          r'.mode = .doubleEscaped ∨ ∃ more, r'.contents = r.contents ++ more ∧
            (r'.mode.expanding = true ∨ (∃ p ∈ more, p.expands = true) ∨
              weight more + r'.mode.cost < r.mode.cost + (text.length + 1)) := by
        intro parts escaped' hcontents hcost hinert hmode'
        rcases ih hinert hmode' hrun with hdone | ⟨more, hmore, hcase⟩
        · exact .inl hdone
        · refine .inr ⟨parts ++ more, by rw [hmore, hcontents, List.append_assoc], ?_⟩
          refine hcase.imp_right (Or.imp ?_ ?_)
          · rintro ⟨p, hp, hexp⟩
            exact ⟨p, List.mem_append_right _ hp, hexp⟩
          · intro hlt
            rw [weight_append]
            omega
      cases escaped with
      | false =>
          have hmode' : r.mode = .double := hmode
          have hcost : r.mode.cost = 1 := by rw [hmode']; rfl
          simp only [step, hmode', stepDouble] at hstep
          split_ifs at hstep with hquote hback hdollar htick
          · cases hstep
            exact hlost rfl (by rw [hcost, goto_mode]; decide)
          · cases hstep
            refine hkept [] true (by simp) (by rw [hcost, goto_mode]; rfl) ?_ rfl
            simpa [Shell.inert, hback] using h
          · cases hstep
            refine .inr ⟨later, by rw [hlater.contents, goto_contents], ?_⟩
            exact (hlater.expanding rfl).imp_right .inl
          · cases hstep
            refine hkept (chars [c]) false (by simp [chars]) ?_ ?_ (by simp [hmode'])
            · rw [push_mode, weight_chars, Nat.add_comm]
              rfl
            · have hexp : Shell.expands c = false := by simp [Shell.expands, hdollar, htick]
              simpa [Shell.inert, hback, hquote, hexp] using h
      | true =>
          have hmode' : r.mode = .doubleEscaped := hmode
          have hcost : r.mode.cost = 2 := by rw [hmode']; rfl
          simp only [step, hmode'] at hstep
          split_ifs at hstep with hnewline hesc
          · cases hstep
            exact hlost rfl (by rw [hcost, goto_mode]; decide)
          · -- the backslash is lost
            cases hstep
            have hweight := hlater.weight
            rw [goto_mode] at hweight
            have hdouble : Mode.double.cost = 1 := rfl
            have hone : weight [Part.char c true] = 1 := rfl
            refine .inr ⟨[.char c true] ++ later, ?_, .inr (.inr ?_)⟩
            · rw [hlater.contents, goto_contents, push_contents, List.append_assoc]
            · rw [weight_append]
              omega
          · cases hstep
            refine hkept (chars ['\\', c]) false (by simp [chars]) ?_ ?_ rfl
            · rw [goto_mode, hcost]
              rfl
            · simpa [Shell.inert, hesc] using h

/-- A quote after which nothing is open closes quotes, or was escaped. -/
theorem step_quote (hc : c = '"' ∨ c = '\'') (h : r.step c = some r')
    (hplain : r'.mode = .plain) (hexp : r.mode.expanding = false) :
    ∃ last, r'.contents = r.contents ++ last ∧ weight last + 1 ≤ r.mode.cost := by
  have hnotOperator : ∀ text : List Char, text ++ [c] ∉ operators := by
    intro text htext
    have hlast : ∀ op ∈ operators, op.getLast? ≠ some '"' ∧ op.getLast? ≠ some '\'' := by decide
    have := hlast _ htext
    rcases hc with rfl | rfl <;> simp at this
  have hgoes : r.goesOn c = none := by
    unfold goesOn
    split
    · exact if_neg (hnotOperator _)
    · rfl
  cases hmode : r.mode with
  | plain =>
      rcases hc with rfl | rfl <;>
        (simp [step, hmode, stepPlain, hgoes] at h; subst h; cases hplain)
  | escaped =>
      refine ⟨chars [c], ?_, Nat.le_refl 2⟩
      rcases hc with rfl | rfl <;>
        (simp [step, hmode] at h; subst h; simp [chars])
  | single =>
      rcases hc with rfl | rfl
      · simp [step, hmode] at h
        subst h
        rw [push_mode, hmode] at hplain
        cases hplain
      · simp [step, hmode] at h
        subst h
        exact ⟨[], by simp, by decide⟩
  | double =>
      rcases hc with rfl | rfl
      · simp [step, hmode, stepDouble] at h
        subst h
        exact ⟨[], by simp, by decide⟩
      · simp [step, hmode, stepDouble] at h
        subst h
        rw [push_mode, hmode] at hplain
        cases hplain
  | doubleEscaped =>
      rcases hc with rfl | rfl <;>
        (simp [step, hmode, escapable, Shell.expands] at h; subst h; cases hplain)
  | comment =>
      rcases hc with rfl | rfl <;>
        (simp [step, hmode] at h; subst h; rw [hmode] at hplain; cases hplain)
  | dollar inside | name text inside | expansion text nests before inside =>
      rw [hmode] at hexp
      cases hexp

/-- After the text a double quote, and the word is there: the text is inert. -/
theorem inert_of_run {text : List Char} {word : Word}
    (h : (⟨[], .word word, .double⟩ : Reader).run (text ++ ['"']) =
      some ⟨[], .word (word ++ chars text), .plain⟩) : Shell.inert false text = true := by
  by_contra hinert
  rw [Bool.not_eq_true] at hinert
  rw [run_append, Option.bind_eq_some_iff] at h
  obtain ⟨r, hrun, hquote⟩ := h
  rw [run_cons, Option.bind_eq_some_iff] at hquote
  obtain ⟨r', hstep, hend⟩ := hquote
  cases hend
  rcases run_not_inert hinert rfl hrun with hmode | ⟨more, hcontents, hcase⟩
  · simp [step, hmode, escapable, goto] at hstep
  · obtain ⟨last, hlast⟩ := step_grows hstep
    have hparts : chars text = more ++ last := by
      have hall := hlast.contents
      rw [hcontents] at hall
      simpa [Reader.contents, Current.parts] using hall
    have hnone : ∀ p ∈ more ++ last, p.expands = false := fun p hp => chars_inert (hparts ▸ hp)
    have hexpanding : r.mode.expanding = false := by
      by_contra hexp
      rcases hlast.expanding (by simpa using hexp) with hcontra | ⟨p, hp, hpe⟩
      · cases hcontra
      · rw [hnone p (List.mem_append_right _ hp)] at hpe
        cases hpe
    rcases hcase with hexp | ⟨p, hp, hexp⟩ | hlt
    · rw [hexpanding] at hexp
      cases hexp
    · rw [hnone p (List.mem_append_left _ hp)] at hexp
      cases hexp
    · obtain ⟨last', hlast', hweight⟩ := step_quote (.inl rfl) hstep rfl hexpanding
      obtain rfl : last' = last := List.append_cancel_left (hlast'.symm.trans hlast.contents)
      have hlength := congrArg weight hparts
      rw [weight_chars, weight_append] at hlength
      have hstart : Mode.double.cost = 1 := rfl
      dsimp only at hlt
      omega

/-- **Double quotes around an inert text, and no other.** -/
theorem readsWord_double_iff :
    ReadsWord ('"' :: (text ++ ['"'])) (literal text) ↔ Shell.inert false text = true := by
  refine ⟨fun h => ?_, readsWord_double⟩
  have hstart : start.step '"' = some ⟨[], .word [.quotes], .double⟩ := rfl
  unfold ReadsWord at h
  rw [run_cons, hstart, Option.bind_some] at h
  exact inert_of_run h

/-- **Single quotes around a text without single quotes, and no other.** -/
theorem readsWord_single_iff :
    ReadsWord ('\'' :: (text ++ ['\''])) (literal text) ↔ '\'' ∉ text := by
  refine ⟨fun h hquote => ?_, readsWord_single⟩
  -- the text up to its first quote
  obtain ⟨before, later, rfl, hbefore⟩ := List.eq_append_cons_of_mem hquote
  have hstart : start.step '\'' = some ⟨[], .word [.quotes], .single⟩ := rfl
  have hclose : (⟨[], .word ([.quotes] ++ chars before), .single⟩ : Reader).step '\'' =
      some ⟨[], .word ([.quotes] ++ chars before), .plain⟩ := rfl
  have hopen : (⟨[], .word [.quotes], .single⟩ : Reader).run before =
      some ⟨[], .word ([.quotes] ++ chars before), .single⟩ := run_single hbefore _ rfl _ rfl
  have hlater : ('\'' :: later) ++ ['\''] = '\'' :: (later ++ ['\'']) := rfl
  unfold ReadsWord at h
  rw [run_cons, hstart, Option.bind_some, List.append_assoc, run_append, hopen, Option.bind_some,
    hlater, run_cons, hclose, Option.bind_some, run_append, Option.bind_eq_some_iff] at h
  obtain ⟨r, hrun, hend⟩ := h
  rw [run_cons, Option.bind_eq_some_iff] at hend
  obtain ⟨r', hstep, hend⟩ := hend
  cases hend
  obtain ⟨more, hmore⟩ := run_grows hrun
  obtain ⟨last, hlast⟩ := step_grows hstep
  have hparts : chars ('\'' :: later) = more ++ last := by
    have hall := hlast.contents
    rw [hmore.contents] at hall
    simpa [Reader.contents, Current.parts, literal, chars] using hall
  have hnone : ∀ p ∈ more ++ last, p.expands = false := fun p hp => chars_inert (hparts ▸ hp)
  have hexpanding : r.mode.expanding = false := by
    by_contra hexp
    rcases hlast.expanding (by simpa using hexp) with hcontra | ⟨p, hp, hpe⟩
    · cases hcontra
    · rw [hnone p (List.mem_append_right _ hp)] at hpe
      cases hpe
  obtain ⟨last', hlast', hweight⟩ := step_quote (.inr rfl) hstep rfl hexpanding
  obtain rfl : last' = last := List.append_cancel_left (hlast'.symm.trans hlast.contents)
  have hlength := congrArg weight hparts
  rw [weight_chars, weight_append, List.length_cons] at hlength
  have hmoreWeight := hmore.weight
  have hplain : Mode.plain.cost = 1 := rfl
  dsimp only at hmoreWeight
  omega

/-- **A parameter in front of a text between double quotes.** -/
theorem readsWord_parameter_iff {name : List Char}
    (hnext : ∀ c ∈ text.head?, isNameChar c = false) :
    ReadsWord ('"' :: '$' :: (name ++ (text ++ ['"'])))
        (.quotes :: .parameter name true :: chars text) ↔
      isName name = true ∧ Shell.inert false text = true := by
  have hstart : start.step '"' = some ⟨[], .word [.quotes], .double⟩ := rfl
  -- what comes after the name, if it is one
  have hrest : isName name = true →
      start.run ('"' :: '$' :: (name ++ (text ++ ['"']))) =
        (⟨[], .word [.quotes, .parameter name true], .double⟩ : Reader).run (text ++ ['"']) := by
    intro hname
    rw [run_cons, hstart, Option.bind_some]
    cases text with
    | nil => exact run_parameter hname rfl [.quotes] []
    | cons d text => exact run_parameter hname (hnext d rfl) [.quotes] (text ++ ['"'])
  constructor
  · intro h
    have hname : isName name = true := by
      obtain ⟨more, hmore⟩ := run_grows h
      obtain ⟨-, hparts⟩ := hmore.proper rfl
      have hcontents : .quotes :: .parameter name true :: chars text = more := by
        simpa [Reader.contents, Current.parts, start] using hmore.contents
      refine hparts (.parameter name true) ?_
      rw [← hcontents]
      simp
    refine ⟨hname, @inert_of_run text [.quotes, .parameter name true] ?_⟩
    rw [← hrest hname]
    exact h
  · rintro ⟨hname, htext⟩
    unfold ReadsWord
    rw [hrest hname]
    exact run_double htext [.quotes, .parameter name true] []

/-! ## Text without any quoting -/

def tame (c : Char) : Bool :=
  c ∉ ['\\', '\'', '"', '$', '\x60', '<', '>', '\n', ' ', '\t', '#'] && [c] ∉ operators

theorem stepPlain_tame {r : Reader} {c : Char} (hc : tame c = true) (hgoes : r.goesOn c = none) :
    r.stepPlain c = some (r.push [.char c false]) := by
  simp only [tame, Bool.and_eq_true, decide_eq_true_eq, List.mem_cons, List.not_mem_nil, or_false,
    not_or] at hc
  obtain ⟨⟨h1, h2, h3, h4, h5, h6, h7, h8, h9, h10, h11⟩, hop⟩ := hc
  simp [stepPlain, hgoes, h1, h2, h3, h4, h5, h6, h7, h8, h9, h10, h11, hop]

theorem run_tame (h : ∀ c ∈ text, tame c = true) (word : Word) :
    (⟨[], .word word, .plain⟩ : Reader).run text = some ⟨[], .word (word ++ bare text), .plain⟩ := by
  induction text generalizing word with
  | nil => simp [bare]
  | cons c text ih =>
      obtain ⟨hc, htext⟩ := List.forall_mem_cons.mp h
      have hstep : (⟨[], .word word, .plain⟩ : Reader).step c =
          some ⟨[], .word (word ++ [.char c false]), .plain⟩ :=
        @stepPlain_tame ⟨[], .word word, .plain⟩ c hc rfl
      rw [run_cons, hstep, Option.bind_some, ih htext]
      simp [bare]

/-- A bare word. -/
theorem readsWord_bare (hne : text ≠ []) (h : ∀ c ∈ text, tame c = true) :
    ReadsWord text (bare text) := by
  obtain ⟨c, text, rfl⟩ := List.exists_cons_of_ne_nil hne
  obtain ⟨hc, htext⟩ := List.forall_mem_cons.mp h
  have hstep : start.step c = some ⟨[], .word [.char c false], .plain⟩ :=
    @stepPlain_tame start c hc rfl
  unfold ReadsWord
  rw [run_cons, hstep, Option.bind_some]
  exact run_tame htext _

/-! ## The fields of a word -/

structure Values where
  /-- the text that an expansion between double quotes is replaced with -/
  text : Part → List Char
  /-- the fields that an expansion without quotes is split into -/
  fields : Part → List (List Char)

/-- `$\x7b1+"$@"\x7d`: the arguments, each of them one field. -/
def allArguments : Part := .expansion "\x7b1+\"$@\"\x7d".toList false

abbrev Fields := List (List Char) × Option (List Char)

def Fields.extend (f : Fields) (text : List Char) : Fields := (f.1, some (f.2.getD [] ++ text))

/-- Goes on with fields: the first one is joined to the one that isn't complete. -/
def Fields.join (f : Fields) : List (List Char) → Fields
  | [] => f
  | first :: more =>
    let all := (f.2.getD [] ++ first) :: more
    (f.1 ++ all.dropLast, all.getLast?)

def Values.expand (v : Values) (arguments : List (List Char)) (f : Fields) (p : Part) : Fields :=
  match p with
  | .quotes => f.extend []
  | .char c _ => f.extend [c]
  | .parameter _ quoted | .expansion _ quoted =>
    if quoted then f.extend (v.text p)
    else if p = allArguments then f.join arguments
    else f.join (v.fields p)

def Values.fieldsOf (v : Values) (arguments : List (List Char)) (word : Word) : List (List Char) :=
  let f := word.foldl (v.expand arguments) ([], none)
  f.1 ++ f.2.toList

variable {v : Values} {arguments : List (List Char)}

theorem foldl_chars (text : List Char) (f : Fields) (hf : f.2 ≠ none) :
    (chars text).foldl (v.expand arguments) f = f.extend text := by
  induction text generalizing f with
  | nil =>
      obtain ⟨done, current⟩ := f
      obtain ⟨text, rfl⟩ := Option.ne_none_iff_exists'.mp hf
      simp [chars, Fields.extend]
  | cons c text ih =>
      have hih := ih (f.extend [c]) (by simp [Fields.extend])
      simp only [chars] at hih ⊢
      rw [List.map_cons, List.foldl_cons]
      simp only [Values.expand]
      rw [hih]
      simp [Fields.extend]

theorem foldl_bare (text : List Char) (f : Fields) (hf : f.2 ≠ none) :
    (bare text).foldl (v.expand arguments) f = f.extend text := by
  induction text generalizing f with
  | nil =>
      obtain ⟨done, current⟩ := f
      obtain ⟨text, rfl⟩ := Option.ne_none_iff_exists'.mp hf
      simp [bare, Fields.extend]
  | cons c text ih =>
      have hih := ih (f.extend [c]) (by simp [Fields.extend])
      simp only [bare] at hih ⊢
      rw [List.map_cons, List.foldl_cons]
      simp only [Values.expand]
      rw [hih]
      simp [Fields.extend]

/-- **A literal word is one field.** -/
theorem fieldsOf_literal (text : List Char) : v.fieldsOf arguments (literal text) = [text] := by
  unfold Values.fieldsOf literal
  rw [List.foldl_cons, foldl_chars text _ (by simp [Values.expand, Fields.extend])]
  simp [Values.expand, Fields.extend]

theorem fieldsOf_bare (hne : text ≠ []) :
    v.fieldsOf arguments (bare text) = [text] := by
  obtain ⟨c, text, rfl⟩ := List.exists_cons_of_ne_nil hne
  have hcons : bare (c :: text) = .char c false :: bare text := rfl
  unfold Values.fieldsOf
  rw [hcons, List.foldl_cons, foldl_bare text _ (by simp [Values.expand, Fields.extend])]
  simp [Values.expand, Fields.extend]

theorem join_none (fields : List (List Char)) :
    (Fields.join ([], none) fields).1 ++ (Fields.join ([], none) fields).2.toList = fields := by
  cases fields with
  | nil => rfl
  | cons first more =>
      simp only [Fields.join, Option.getD_none, List.nil_append]
      rw [List.getLast?_eq_some_getLast (List.cons_ne_nil first more), Option.toList_some]
      exact List.dropLast_append_getLast _

/-- The arguments are passed on. -/
theorem fieldsOf_allArguments : v.fieldsOf arguments [allArguments] = arguments := by
  have hexpand : v.expand arguments ([], none) allArguments = Fields.join ([], none) arguments := by
    change (if false = true then Fields.extend ([], none) (v.text allArguments)
      else if allArguments = allArguments then Fields.join ([], none) arguments
      else Fields.join ([], none) (v.fields allArguments)) = _
    rw [if_neg Bool.false_ne_true, if_pos rfl]
  unfold Values.fieldsOf
  rw [List.foldl_cons, List.foldl_nil, hexpand]
  exact join_none arguments

/-- A variable without quotes is split. -/
theorem fieldsOf_parameter (name : List Char) :
    v.fieldsOf arguments [.parameter name false] = v.fields (.parameter name false) := by
  have hexpand : v.expand arguments ([], none) (.parameter name false) =
      Fields.join ([], none) (v.fields (.parameter name false)) := by
    change (if false = true then Fields.extend ([], none) (v.text (.parameter name false))
      else if Part.parameter name false = allArguments then Fields.join ([], none) arguments
      else Fields.join ([], none) (v.fields (.parameter name false))) = _
    rw [if_neg Bool.false_ne_true, if_neg nofun]
  unfold Values.fieldsOf
  rw [List.foldl_cons, List.foldl_nil, hexpand]
  exact join_none _

/-- An expansion between double quotes, and a text around it. -/
theorem fieldsOf_quoted {part : Part} (hpart : ∀ f, v.expand arguments f part = f.extend (v.text part))
    {before : List Char} {front : Word} (hfront : front.foldl (v.expand arguments) ([], none) = ([], some before))
    (later : List Char) :
    v.fieldsOf arguments (front ++ part :: chars later) = [before ++ v.text part ++ later] := by
  unfold Values.fieldsOf
  rw [List.foldl_append, hfront, List.foldl_cons, hpart,
    foldl_chars later _ (by simp [Fields.extend])]
  simp [Fields.extend]

end Improot.Lib.Script
