import Mathlib.Algebra.BigOperators.Group.List.Basic
import Mathlib.Algebra.GroupWithZero.Nat

/-!
# The token recognition of a POSIX shell

A command string is read one character at a time, by the rules for token recognition and for
quoting of the shell command language.  A word keeps for each of its characters whether it was
quoted: a word whose characters all are is passed on as it stands.  An expansion (`$` or a
backquote where they are special) isn't followed: the string then has no tokens here.
-/

namespace Improot.Lib.Shell

/-- A character of a word after quote removal, and whether it was quoted. -/
structure Letter where
  char : Char
  quoted : Bool
  deriving DecidableEq

def quoted (text : List Char) : List Letter := text.map fun c => ⟨c, true⟩

def bare (text : List Char) : List Letter := text.map fun c => ⟨c, false⟩

inductive Token where
  | word (letters : List Letter)
  | ioNumber (digits : List Char)
  | operator (text : List Char)
  deriving DecidableEq

inductive Mode where
  | plain | escaped | single | double | doubleEscaped | comment
  deriving DecidableEq

inductive Current where
  | nothing
  | word (letters : List Letter)
  | operator (text : List Char)
  deriving DecidableEq

def Current.isWord : Current → Bool
  | word _ => true
  | _ => false

structure Scan where
  tokens : List Token
  current : Current
  mode : Mode
  deriving DecidableEq

def operators : List (List Char) :=
  [['&'], ['|'], [';'], ['<'], ['>'], ['('], [')'], ['\n'], ['&', '&'], ['|', '|'], [';', ';'],
   ['<', '<'], ['>', '>'], ['<', '&'], ['>', '&'], ['<', '>'], ['<', '<', '-'], ['>', '|']]

def expands (c : Char) : Bool := c = '$' || c = '\x60'

def escapable (c : Char) : Bool := expands c || c = '"' || c = '\\' || c = '\n'

def ioNumber (letters : List Letter) (next : Char) : Bool :=
  letters ≠ [] && letters.all (fun l => !l.quoted && l.char.isDigit) && (next = '<' || next = '>')

namespace Scan

def start : Scan := ⟨[], .nothing, .plain⟩

/-- Ends the current token; `next` is the character that ends it, if there is one. -/
def delimit (s : Scan) (next : Option Char) : Scan :=
  match s.current with
  | .nothing => s
  | .operator text => { s with tokens := s.tokens ++ [.operator text], current := .nothing }
  | .word letters =>
    let token := match next with
      | some c => if ioNumber letters c then .ioNumber (letters.map (·.char)) else .word letters
      | none => .word letters
    { s with tokens := s.tokens ++ [token], current := .nothing }

def push (s : Scan) (letters : List Letter) : Scan :=
  match s.current with
  | .nothing => { s with current := .word letters }
  | .word before => { s with current := .word (before ++ letters) }
  | .operator text =>
    { s with tokens := s.tokens ++ [.operator text], current := .word letters }

def goto (s : Scan) (mode : Mode) : Scan := { s with mode := mode }

def stepPlain (s : Scan) (c : Char) : Option Scan :=
  if c = '\\' then some (s.goto .escaped)
  else if c = '\'' then some ((s.push []).goto .single)
  else if c = '"' then some ((s.push []).goto .double)
  else if expands c then none
  else if [c] ∈ operators then some { s.delimit (some c) with current := .operator [c] }
  else if c = ' ' ∨ c = '\t' then some (s.delimit none)
  else if c = '#' && !s.current.isWord then some ((s.delimit none).goto .comment)
  else some (s.push [⟨c, false⟩])

def step (s : Scan) (c : Char) : Option Scan :=
  match s.mode with
  | .plain =>
    match s.current with
    | .operator text =>
      if text ++ [c] ∈ operators then some { s with current := .operator (text ++ [c]) }
      else s.stepPlain c
    | _ => s.stepPlain c
  | .escaped =>
    if c = '\n' then some (s.goto .plain) else some ((s.push [⟨c, true⟩]).goto .plain)
  | .single => if c = '\'' then some (s.goto .plain) else some (s.push [⟨c, true⟩])
  | .double =>
    if c = '"' then some (s.goto .plain)
    else if c = '\\' then some (s.goto .doubleEscaped)
    else if expands c then none
    else some (s.push [⟨c, true⟩])
  | .doubleEscaped =>
    if c = '\n' then some (s.goto .double)
    else if escapable c then some ((s.push [⟨c, true⟩]).goto .double)
    else some ((s.push [⟨'\\', true⟩, ⟨c, true⟩]).goto .double)
  | .comment =>
    if c = '\n' then some { s.delimit none with current := .operator ['\n'], mode := .plain }
    else some s

def run (s : Scan) (text : List Char) : Option Scan := text.foldlM step s

/-- The tokens at the end of the input; quotes must be closed. -/
def finish (s : Scan) : Option (List Token) :=
  match s.mode with
  | .plain | .comment => some (s.delimit none).tokens
  | _ => none

end Scan

def tokenize (text : List Char) : Option (List Token) :=
  (Scan.start.run text).bind Scan.finish

example : tokenize "cp 'a b' \"c\\\"\"d 2>&1;x".toList =
    some [.word (bare "cp".toList), .word (quoted "a b".toList),
      .word (quoted "c\"".toList ++ bare "d".toList), .ioNumber "2".toList,
      .operator ">&".toList, .word (bare "1".toList), .operator ";".toList,
      .word (bare "x".toList)] := by
  decide

theorem Scan.run_append (s : Scan) (a b : List Char) :
    s.run (a ++ b) = (s.run a).bind fun s' => s'.run b := List.foldlM_append

theorem Scan.run_cons (s : Scan) (c : Char) (text : List Char) :
    s.run (c :: text) = (s.step c).bind fun s' => s'.run text := rfl

/-! ## Texts that double quotes leave alone -/

/-- Between double quotes the text stands for itself: it has no double quote and starts no
expansion, and no backslash of it is followed by a character it escapes, nor by the closing quote.
The flag says that a backslash comes right before. -/
def inert : Bool → List Char → Bool
  | escaped, [] => !escaped
  | false, c :: rest =>
    if c = '\\' then inert true rest else !expands c && c ≠ '"' && inert false rest
  | true, c :: rest => !escapable c && inert false rest

def Scan.inside (tokens : List Token) (letters : List Letter) (escaped : Bool) : Scan :=
  ⟨tokens, .word letters, if escaped then .doubleEscaped else .double⟩

variable {tokens : List Token} {text : List Char} {letters : List Letter} {s s' : Scan} {c : Char}

/-- **An inert text is one quoted piece of its word.** -/
theorem run_inert {rest : List Char} {escaped : Bool} (h : inert escaped text = true) :
    (Scan.inside tokens letters escaped).run (text ++ '"' :: rest) =
      Scan.run ⟨tokens, .word (letters ++ quoted (if escaped then '\\' :: text else text)), .plain⟩
        rest := by
  induction text generalizing letters escaped with
  | nil =>
      cases escaped with
      | false => simp [Scan.inside, Scan.run, Scan.step, Scan.goto, quoted]
      | true => simp [inert] at h
  | cons c text ih =>
      rw [List.cons_append, Scan.run_cons]
      cases escaped with
      | false =>
          by_cases hc : c = '\\'
          · subst hc
            have hrest : inert true text = true := by simpa [inert] using h
            have hstep : (Scan.inside tokens letters false).step '\\' =
                some (Scan.inside tokens letters true) := rfl
            rw [hstep, Option.bind_some, ih hrest]
            rfl
          · simp only [inert, hc, if_false, Bool.and_eq_true, Bool.not_eq_true',
              decide_eq_true_eq] at h
            obtain ⟨⟨hexp, hquote⟩, hrest⟩ := h
            have hstep : (Scan.inside tokens letters false).step c =
                some (Scan.inside tokens (letters ++ [⟨c, true⟩]) false) := by
              simp [Scan.inside, Scan.step, Scan.push, hc, hexp, hquote]
            rw [hstep, Option.bind_some, ih hrest]
            simp [quoted]
      | true =>
          simp only [inert, Bool.and_eq_true, Bool.not_eq_true'] at h
          obtain ⟨hesc, hrest⟩ := h
          have hnewline : c ≠ '\n' := by
            intro hc
            simp [hc, escapable] at hesc
          have hstep : (Scan.inside tokens letters true).step c =
              some (Scan.inside tokens (letters ++ [⟨'\\', true⟩, ⟨c, true⟩]) false) := by
            simp [Scan.inside, Scan.step, Scan.push, Scan.goto, hnewline, hesc]
          rw [hstep, Option.bind_some, ih hrest]
          simp [quoted]

/-- A word that is one inert piece. -/
theorem run_quoted {rest : List Char} (h : inert false text = true) :
    (Scan.inside tokens [] false).run (text ++ '"' :: rest) =
      Scan.run ⟨tokens, .word (quoted text), .plain⟩ rest := run_inert h

theorem inert_append {a b : List Char} {escaped : Bool} (ha : inert escaped a = true)
    (hb : inert false b = true) : inert escaped (a ++ b) = true := by
  induction a generalizing escaped with
  | nil =>
      cases escaped with
      | false => exact hb
      | true => simp [inert] at ha
  | cons c a ih =>
      cases escaped with
      | false =>
          by_cases hc : c = '\\'
          · simp only [inert, hc, if_true, List.cons_append] at ha ⊢
            exact ih ha
          · simp only [inert, hc, if_false, List.cons_append, Bool.and_eq_true] at ha ⊢
            exact ⟨ha.1, ih ha.2⟩
      | true =>
          simp only [inert, List.cons_append, Bool.and_eq_true] at ha ⊢
          exact ⟨ha.1, ih ha.2⟩

/-! ## How much of the input reaches the tokens -/

def Token.weight : Token → Nat
  | word letters => letters.length
  | ioNumber digits => digits.length
  | operator text => text.length

def weight (tokens : List Token) : Nat := (tokens.map Token.weight).sum

def Current.weight : Current → Nat
  | nothing => 0
  | word letters => letters.length
  | operator text => text.length

def Scan.weight (s : Scan) : Nat := Shell.weight s.tokens + s.current.weight

@[simp] theorem weight_append (a b : List Token) : weight (a ++ b) = weight a + weight b := by
  simp [weight]

@[simp] theorem weight_single (t : Token) : weight [t] = t.weight := by simp [weight]

/-- What a mode owes: a backslash between double quotes may still be kept, one outside them is
lost already. -/
def Mode.cost : Mode → Nat
  | escaped | doubleEscaped => 2
  | _ => 1

def Scan.potential (s : Scan) : Nat := s.weight + s.mode.cost

@[simp] theorem Scan.delimit_weight (s : Scan) (next : Option Char) :
    (s.delimit next).weight = s.weight := by
  unfold Scan.delimit
  split
  · rfl
  · rename_i text h
    simp [Scan.weight, h, Token.weight, Current.weight]
  · rename_i letters h
    have htoken : Token.weight (match next with
        | some c => if ioNumber letters c then .ioNumber (letters.map (·.char)) else .word letters
        | none => .word letters) = letters.length := by
      cases next with
      | none => rfl
      | some c =>
          simp only
          split <;> simp [Token.weight]
    simp [Scan.weight, h, Current.weight, htoken]

@[simp] theorem Scan.delimit_current (s : Scan) (next : Option Char) :
    (s.delimit next).current = .nothing := by
  unfold Scan.delimit
  split
  · assumption
  · rfl
  · rfl

@[simp] theorem Scan.delimit_mode (s : Scan) (next : Option Char) :
    (s.delimit next).mode = s.mode := by
  unfold Scan.delimit
  split <;> rfl

@[simp] theorem Scan.push_weight (s : Scan) (letters : List Letter) :
    (s.push letters).weight = s.weight + letters.length := by
  unfold Scan.push
  split <;> (simp_all [Scan.weight, Current.weight, Token.weight]; try omega)

@[simp] theorem Scan.push_mode (s : Scan) (letters : List Letter) :
    (s.push letters).mode = s.mode := by
  unfold Scan.push
  split <;> rfl

@[simp] theorem Scan.goto_weight (s : Scan) (mode : Mode) : (s.goto mode).weight = s.weight := rfl

@[simp] theorem Scan.goto_mode (s : Scan) (mode : Mode) : (s.goto mode).mode = mode := rfl

theorem Scan.startOperator_weight (s : Scan) (next : Option Char) (text : List Char) :
    Scan.weight { s.delimit next with current := .operator text } = s.weight + text.length := by
  have h := s.delimit_weight next
  simp only [Scan.weight, Scan.delimit_current, Current.weight] at h ⊢
  omega

/-- A character without quoting gains one at most. -/
theorem Scan.stepPlain_potential (hmode : s.mode = .plain)
    (h : s.stepPlain c = some s') : s'.potential ≤ s.potential + 1 := by
  unfold Scan.stepPlain at h
  simp only [Scan.potential, hmode]
  split at h
  · cases h
    simp [Mode.cost]
  split at h
  · cases h
    simp [Mode.cost]
  split at h
  · cases h
    simp [Mode.cost]
  split at h
  · cases h
  split at h
  · cases h
    have hweight := s.startOperator_weight (some c) [c]
    simp only [hmode, Scan.delimit_mode, Mode.cost, List.length_singleton] at hweight ⊢
    omega
  split at h
  · cases h
    simp [hmode]
  split at h
  · cases h
    simp [Mode.cost]
  · cases h
    simp [hmode, Mode.cost]

/-- **No character is kept twice.** -/
theorem Scan.step_potential (h : s.step c = some s') :
    s'.potential ≤ s.potential + 1 := by
  unfold Scan.step at h
  cases hmode : s.mode with
  | plain =>
      simp only [hmode] at h
      split at h
      · rename_i text hcurrent
        split at h
        · cases h
          simp [Scan.potential, Scan.weight, hcurrent, hmode, Current.weight, Mode.cost]
          omega
        · exact Scan.stepPlain_potential hmode h
      · exact Scan.stepPlain_potential hmode h
  | escaped | single =>
      simp only [hmode] at h
      split at h <;> cases h <;> simp [Scan.potential, hmode, Mode.cost]
  | double =>
      simp only [hmode] at h
      split at h
      · cases h
        simp [Scan.potential, hmode, Mode.cost]
      split at h
      · cases h
        simp [Scan.potential, hmode, Mode.cost]
      split at h
      · cases h
      · cases h
        simp [Scan.potential, hmode, Mode.cost]
  | doubleEscaped =>
      simp only [hmode] at h
      split at h
      · cases h
        simp [Scan.potential, hmode, Mode.cost]
      split at h <;> cases h <;> simp [Scan.potential, hmode, Mode.cost]
  | comment =>
      simp only [hmode] at h
      split at h
      · cases h
        have hweight := s.startOperator_weight none ['\n']
        simp only [Scan.potential, hmode, Mode.cost, Scan.weight, List.length_singleton] at hweight ⊢
        omega
      · cases h
        simp [Scan.potential]

theorem Scan.run_potential (h : s.run text = some s') :
    s'.potential ≤ s.potential + text.length := by
  induction text generalizing s with
  | nil =>
      cases h
      exact Nat.le_refl _
  | cons c text ih =>
      rw [Scan.run_cons, Option.bind_eq_some_iff] at h
      obtain ⟨t, hstep, hrun⟩ := h
      have h1 := Scan.step_potential hstep
      have h2 := ih hrun
      rw [List.length_cons]
      omega

/-! ## Texts that double quotes do not leave alone -/

/-- A text that isn't inert loses a character, or escapes the quote that is to close it. -/
theorem run_not_inert {escaped : Bool} (h : inert escaped text = false)
    (hrun : (Scan.inside tokens letters escaped).run text = some s) :
    s.mode = .doubleEscaped ∨
      s.potential < (Scan.inside tokens letters escaped).potential + text.length := by
  induction text generalizing letters escaped with
  | nil =>
      cases hrun
      left
      cases escaped with
      | false => simp [inert] at h
      | true => rfl
  | cons c text ih =>
      rw [Scan.run_cons, Option.bind_eq_some_iff] at hrun
      obtain ⟨t, hstep, hrun⟩ := hrun
      have hlater := Scan.run_potential hrun
      rw [List.length_cons]
      -- a step that loses its character leaves the whole text one short
      have hlost : t.potential ≤ (Scan.inside tokens letters escaped).potential →
          s.mode = .doubleEscaped ∨ s.potential <
            (Scan.inside tokens letters escaped).potential + (text.length + 1) := by
        intro hle
        right
        omega
      cases escaped with
      | false =>
          by_cases hc : c = '\\'
          · subst hc
            have ht : t = Scan.inside tokens letters true := by
              simpa [Scan.inside, Scan.step, Scan.goto] using hstep.symm
            subst ht
            have hpotential : (Scan.inside tokens letters true).potential =
                (Scan.inside tokens letters false).potential + 1 := rfl
            refine (ih (by simpa [inert] using h) hrun).imp id ?_
            intro hlt
            omega
          · by_cases hquote : c = '"'
            · subst hquote
              apply hlost
              have ht : t = ⟨tokens, .word letters, .plain⟩ := by
                simpa [Scan.inside, Scan.step, Scan.goto] using hstep.symm
              subst ht
              exact Nat.le_refl _
            · cases hexp : expands c with
              | true => simp [Scan.inside, Scan.step, hc, hquote, hexp] at hstep
              | false =>
                  have ht : t = Scan.inside tokens (letters ++ [⟨c, true⟩]) false := by
                    simpa [Scan.inside, Scan.step, Scan.push, hc, hquote, hexp] using hstep.symm
                  subst ht
                  have hpotential :
                      (Scan.inside tokens (letters ++ [⟨c, true⟩]) false).potential =
                        (Scan.inside tokens letters false).potential + 1 := by
                    simp [Scan.inside, Scan.potential, Scan.weight, Current.weight, Mode.cost]
                    omega
                  refine (ih (by simpa [inert, hc, hquote, hexp] using h) hrun).imp id ?_
                  intro hlt
                  omega
      | true =>
          by_cases hnewline : c = '\n'
          · subst hnewline
            apply hlost
            have ht : t = Scan.inside tokens letters false := by
              simpa [Scan.inside, Scan.step, Scan.goto] using hstep.symm
            subst ht
            simp [Scan.inside, Scan.potential, Scan.weight, Mode.cost]
          · cases hesc : escapable c with
            | true =>
                apply hlost
                have ht : t = Scan.inside tokens (letters ++ [⟨c, true⟩]) false := by
                  simpa [Scan.inside, Scan.step, Scan.push, Scan.goto, hnewline, hesc] using
                    hstep.symm
                subst ht
                simp [Scan.inside, Scan.potential, Scan.weight, Current.weight, Mode.cost]
                omega
            | false =>
                have ht : t = Scan.inside tokens (letters ++ [⟨'\\', true⟩, ⟨c, true⟩]) false := by
                  simpa [Scan.inside, Scan.step, Scan.push, Scan.goto, hnewline, hesc] using
                    hstep.symm
                subst ht
                have hpotential :
                    (Scan.inside tokens (letters ++ [⟨'\\', true⟩, ⟨c, true⟩]) false).potential =
                      (Scan.inside tokens letters true).potential + 1 := by
                  simp [Scan.inside, Scan.potential, Scan.weight, Current.weight, Mode.cost]
                  omega
                refine (ih (by simpa [inert, hesc] using h) hrun).imp id ?_
                intro hlt
                omega

/-! ## What follows a quoted piece -/

/-- A character that neither quotes nor expands nor ends a command. -/
def bland (c : Char) : Bool := c ≠ '"' && c ≠ '\'' && c ≠ '\\' && !expands c && c ≠ '\n'

def dark (c : Char) : Bool := c ≠ ' ' && c ≠ '\t'

theorem operators_dark : ∀ text ∈ operators, ∀ c ∈ text, dark c = true := by
  have hall : operators.all (·.all dark) = true := by decide
  exact fun text htext => List.all_eq_true.mp (List.all_eq_true.mp hall text htext)

/-- A quote that is open stays open. -/
theorem Scan.step_bland_open (hc : bland c = true)
    (hmode : s.mode = .single ∨ s.mode = .double) (h : s.step c = some s') :
    s'.mode = .single ∨ s'.mode = .double := by
  simp only [bland, Bool.and_eq_true, decide_eq_true_eq, Bool.not_eq_true'] at hc
  obtain ⟨⟨⟨⟨hdouble, hsingle⟩, hback⟩, hexp⟩, -⟩ := hc
  rcases hmode with hmode | hmode
  · simp only [Scan.step, hmode, hsingle, if_false, Option.some.injEq] at h
    subst h
    exact .inl (by simpa using hmode)
  · simp only [Scan.step, hmode, hdouble, hback, hexp, if_false, Bool.false_eq_true,
      Option.some.injEq] at h
    subst h
    exact .inr (by simpa using hmode)

/-- Outside quotes a blank is lost, and no quote is opened. -/
theorem Scan.step_bland_closed (hc : bland c = true)
    (hmode : s.mode = .plain ∨ s.mode = .comment) (h : s.step c = some s') :
    (s'.mode = .plain ∨ s'.mode = .comment) ∧
      s'.weight ≤ s.weight + if dark c then 1 else 0 := by
  simp only [bland, Bool.and_eq_true, decide_eq_true_eq, Bool.not_eq_true'] at hc
  obtain ⟨⟨⟨⟨hdouble, hsingle⟩, hback⟩, hexp⟩, hnewline⟩ := hc
  have hplain : ∀ {s'}, s.mode = .plain → s.stepPlain c = some s' →
      (s'.mode = .plain ∨ s'.mode = .comment) ∧
        s'.weight ≤ s.weight + if dark c then 1 else 0 := by
    intro s' hmode h
    simp only [Scan.stepPlain, hback, hsingle, hdouble, hexp, if_false, Bool.false_eq_true] at h
    split at h
    · rename_i hop
      cases h
      have hdark := operators_dark _ hop c (by simp)
      have hweight := s.startOperator_weight (some c) [c]
      rw [if_pos hdark]
      exact ⟨.inl (by simpa using hmode), Nat.le_of_eq hweight⟩
    split at h
    · cases h
      exact ⟨.inl (by simpa using hmode), by simp⟩
    · rename_i hblank
      have hdark : dark c = true := by
        simp only [dark, Bool.and_eq_true, decide_eq_true_eq]
        exact not_or.mp hblank
      rw [if_pos hdark]
      split at h
      · cases h
        exact ⟨.inr rfl, by simp⟩
      · cases h
        exact ⟨.inl (by simpa using hmode), by simp⟩
  rcases hmode with hmode | hmode
  · simp only [Scan.step, hmode] at h
    split at h
    · rename_i text hcurrent
      split at h
      · rename_i hop
        cases h
        refine ⟨.inl rfl, ?_⟩
        have hdark := operators_dark _ hop c (by simp)
        simp [Scan.weight, hcurrent, Current.weight, hdark]
        omega
      · exact hplain hmode h
    · exact hplain hmode h
  · simp only [Scan.step, hmode, hnewline, if_false, Option.some.injEq] at h
    subst h
    exact ⟨.inr hmode, by simp⟩

theorem Scan.run_bland_open (htext : ∀ c ∈ text, bland c = true)
    (hmode : s.mode = .single ∨ s.mode = .double) (h : s.run text = some s') :
    s'.mode = .single ∨ s'.mode = .double := by
  induction text generalizing s with
  | nil =>
      cases h
      exact hmode
  | cons c text ih =>
      rw [Scan.run_cons, Option.bind_eq_some_iff] at h
      obtain ⟨t, hstep, hrun⟩ := h
      obtain ⟨hc, htext⟩ := List.forall_mem_cons.mp htext
      exact ih htext (Scan.step_bland_open hc hmode hstep) hrun

theorem Scan.run_bland_closed
    (htext : ∀ c ∈ text, bland c = true) (hmode : s.mode = .plain ∨ s.mode = .comment)
    (h : s.run text = some s') : s'.weight ≤ s.weight + text.countP dark := by
  induction text generalizing s with
  | nil =>
      cases h
      exact Nat.le_refl _
  | cons c text ih =>
      rw [Scan.run_cons, Option.bind_eq_some_iff] at h
      obtain ⟨t, hstep, hrun⟩ := h
      obtain ⟨hc, htext⟩ := List.forall_mem_cons.mp htext
      obtain ⟨hmode', hweight⟩ := Scan.step_bland_closed hc hmode hstep
      have := ih htext hmode' hrun
      rw [List.countP_cons]
      omega

theorem Scan.finish_weight (h : s.finish = some tokens) :
    Shell.weight tokens = s.weight ∧ (s.mode = .plain ∨ s.mode = .comment) := by
  have hweight : Shell.weight (s.delimit none).tokens = s.weight := by
    have := s.delimit_weight none
    simpa [Scan.weight, Current.weight] using this
  unfold Scan.finish at h
  split at h
  · rename_i hmode
    cases h
    exact ⟨hweight, .inl hmode⟩
  · rename_i hmode
    cases h
    exact ⟨hweight, .inr hmode⟩
  · cases h

theorem operators_unquoted : ∀ text ∈ operators, ∀ c ∈ text, c ≠ '"' := by
  have hall : operators.all (·.all fun c => c ≠ '"') = true := by decide
  intro text htext c hc
  simpa using List.all_eq_true.mp (List.all_eq_true.mp hall text htext) c hc

/-- A double quote closes a quote, opens one, or loses a character already lost. -/
theorem Scan.step_quote (h : s.step '"' = some s') :
    (s'.mode = .single ∨ s'.mode = .double) ∨
      (s'.mode = .plain ∨ s'.mode = .comment) ∧ s'.weight + 1 ≤ s.potential ∧
        s.mode ≠ .doubleEscaped := by
  have hplain : s.mode = .plain → s.stepPlain '"' = some s' → s'.mode = .double := by
    intro _ h
    have : s' = (s.push []).goto .double := by simpa [Scan.stepPlain] using h.symm
    rw [this, Scan.goto_mode]
  unfold Scan.step at h
  cases hmode : s.mode with
  | plain =>
      simp only [hmode] at h
      split at h
      · rename_i text _
        split at h
        · rename_i hop
          exact absurd rfl (operators_unquoted _ hop '"' (by simp))
        · exact .inl (.inr (hplain hmode h))
      · exact .inl (.inr (hplain hmode h))
  | escaped =>
      have : s' = (s.push [⟨'"', true⟩]).goto .plain := by simpa [hmode] using h.symm
      subst this
      right
      simp [Scan.potential, hmode, Mode.cost]
  | single =>
      have : s' = s.push [⟨'"', true⟩] := by simpa [hmode] using h.symm
      subst this
      exact .inl (.inl (by simpa using hmode))
  | double =>
      have : s' = s.goto .plain := by simpa [hmode] using h.symm
      subst this
      right
      simp [Scan.potential, hmode, Mode.cost]
  | doubleEscaped =>
      have : s' = (s.push [⟨'"', true⟩]).goto .double := by
        simpa [hmode, escapable] using h.symm
      subst this
      exact .inl (.inr (by simp))
  | comment =>
      have : s' = s := by simpa [hmode] using h.symm
      subst this
      right
      simp [Scan.potential, hmode, Mode.cost]

/-- **A text that isn't inert does not come through.** Whatever such a text between double quotes
is read as, fewer characters are kept than it has. -/
theorem close_not_inert {before : List Token} {tail : List Char}
    (h : inert false text = false) (htail : ∀ c ∈ tail, bland c = true)
    (hread : ((Scan.inside before letters false).run (text ++ '"' :: tail)).bind Scan.finish =
      some tokens) :
    weight tokens < weight before + letters.length + text.length + tail.countP dark := by
  rw [Option.bind_eq_some_iff] at hread
  obtain ⟨last, hrun, hfinish⟩ := hread
  rw [Scan.run_append, Option.bind_eq_some_iff] at hrun
  obtain ⟨s, hrun, hclose⟩ := hrun
  rw [Scan.run_cons, Option.bind_eq_some_iff] at hclose
  obtain ⟨t, hquote, htailrun⟩ := hclose
  obtain ⟨hweight, hmode⟩ := Scan.finish_weight hfinish
  rcases Scan.step_quote hquote with hopen | ⟨hclosed, hless, hnot⟩
  · -- a quote that is open at the end leaves no tokens
    have := Scan.run_bland_open htail hopen htailrun
    rcases hmode with hmode | hmode <;> simp [hmode] at this
  · have hkept := Scan.run_bland_closed htail hclosed htailrun
    have hlost := (run_not_inert h hrun).resolve_left hnot
    have hstart : (Scan.inside before letters false).potential =
        weight before + letters.length + 1 := rfl
    omega

/-- **Double quotes around an inert text, and no other.** A command string with one piece between
double quotes, ordinary text before and after it, is read as meant if and only if the piece is
inert. -/
theorem tokenize_iff {before tail : List Char} {meaning : List Token}
    (hbefore : Scan.start.run before = some (Scan.inside tokens letters false))
    (htail : ∀ c ∈ tail, bland c = true)
    (hmeaning : (Scan.run ⟨tokens, .word (letters ++ quoted text), .plain⟩ tail).bind
      Scan.finish = some meaning)
    (hweight : weight meaning =
      weight tokens + letters.length + text.length + tail.countP dark) :
    tokenize (before ++ (text ++ '"' :: tail)) = some meaning ↔ inert false text = true := by
  unfold tokenize
  rw [Scan.run_append, hbefore, Option.bind_some]
  constructor
  · intro hread
    by_contra hnot
    have := close_not_inert (by simpa using hnot) htail hread
    omega
  · intro hinert
    rw [run_inert hinert]
    exact hmeaning

/-! ## Strings that are cut short -/

theorem Scan.stepPlain_weight (h : s.stepPlain c = some s') :
    s.weight ≤ s'.weight := by
  unfold Scan.stepPlain at h
  split at h
  · cases h
    simp
  split at h
  · cases h
    simp
  split at h
  · cases h
    simp
  split at h
  · cases h
  split at h
  · cases h
    have := s.startOperator_weight (some c) [c]
    omega
  split at h
  · cases h
    simp
  split at h
  · cases h
    simp
  · cases h
    simp

/-- What was kept stays kept. -/
theorem Scan.step_weight (h : s.step c = some s') :
    s.weight ≤ s'.weight := by
  unfold Scan.step at h
  cases hmode : s.mode with
  | plain =>
      simp only [hmode] at h
      split at h
      · rename_i text hcurrent
        split at h
        · cases h
          simp [Scan.weight, hcurrent, Current.weight]
        · exact Scan.stepPlain_weight h
      · exact Scan.stepPlain_weight h
  | escaped | single =>
      simp only [hmode] at h
      split at h <;> cases h <;> simp
  | double =>
      simp only [hmode] at h
      split at h
      · cases h
        simp
      split at h
      · cases h
        simp
      split at h
      · cases h
      · cases h
        simp
  | doubleEscaped =>
      simp only [hmode] at h
      split at h
      · cases h
        simp
      split at h <;> cases h <;> simp
  | comment =>
      simp only [hmode] at h
      split at h
      · cases h
        have := s.startOperator_weight none ['\n']
        simp only [Scan.weight] at this ⊢
        omega
      · cases h
        exact Nat.le_refl _

theorem Scan.run_weight (h : s.run text = some s') :
    s.weight ≤ s'.weight := by
  induction text generalizing s with
  | nil =>
      cases h
      exact Nat.le_refl _
  | cons c text ih =>
      rw [Scan.run_cons, Option.bind_eq_some_iff] at h
      obtain ⟨t, hstep, hrun⟩ := h
      exact Nat.le_trans (Scan.step_weight hstep) (ih hrun)

/-- A string that ends with the last character of a word means something else when it is cut
short. -/
theorem tokenize_cut {cut rest : List Char} {c : Char} {tokens : List Token} {s : Scan}
    (hrun : Scan.start.run (cut ++ rest) = some s) (hlast : s.step c = some (s.push [⟨c, false⟩]))
    (h : tokenize (cut ++ (rest ++ [c])) = some tokens) : tokenize cut ≠ some tokens := by
  intro hcut
  unfold tokenize at h hcut
  rw [← List.append_assoc, Scan.run_append, hrun, Option.bind_some, Scan.run_cons, hlast] at h
  have hfull := (Scan.finish_weight (by simpa [Scan.run] using h)).1
  rw [Option.bind_eq_some_iff] at hcut
  obtain ⟨t, ht, hfinish⟩ := hcut
  have hshort := (Scan.finish_weight hfinish).1
  rw [Scan.run_append, ht, Option.bind_some] at hrun
  have := Scan.run_weight hrun
  rw [Scan.push_weight, List.length_singleton] at hfull
  omega

end Improot.Lib.Shell
