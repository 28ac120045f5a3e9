import Mathlib.Data.List.TakeWhile
import Improot.Extension.ReExecute

/-!
# The script reproduces the recorded command

Each recorded string becomes one word of the script. Which strings its quotes leave alone is settled
for each way of quoting; what PRoot is then run with is read off the tokens of the whole script.
-/

namespace Improot.Extension

open Improot.Path Lib Lib.Script

/-! ## The words -/

def Care.envarWord (care : Care) (e : EnvVar) : Word :=
  match care.findVolatileEnvar e.text with
  | some name => literal name ++ [.char '=' false, .parameter name true]
  | none => literal e.text

def VolatilePath.front (p : VolatilePath) : CString := p.name.tail.takeWhile isNameChar

def VolatilePath.behind (p : VolatilePath) : CString :=
  p.name.tail.dropWhile isNameChar ++ ':' :: p.load

def VolatilePath.bindingWord (p : VolatilePath) : Word :=
  if p.name.head? = some '$' then .quotes :: .parameter p.front true :: chars p.behind
  else literal p.load

/-- The binding is left alone by double quotes, but for the variable in front. -/
def VolatilePath.Printable (p : VolatilePath) : Prop :=
  if p.name.head? = some '$' then isName p.front = true ∧ Shell.inert false p.behind = true
  else Shell.inert false p.load = true

/-- **The strings that the script reproduces.** -/
structure Care.Printable (care : Care) : Prop where
  command : ∀ argument ∈ care.command, '\'' ∉ argument
  volatileEnvars : ∀ e ∈ care.environ, ∀ name, care.findVolatileEnvar e.text = some name →
    isName name = true
  volatilePaths : ∀ p ∈ care.volatilePaths, p.Printable
  uname : ∀ utsname, care.uname = some utsname →
    ∀ field ∈ utsname.fields, '\'' ∉ field ∧ '\\' ∉ field
  initialCwd : '\'' ∉ care.initialCwd

/-- Each recorded string is one literal word of the script, and the fields of the kernel's name are
parsed back. -/
structure Care.Literal (care : Care) : Prop where
  command : ∀ argument ∈ care.command, ReadsWord (singleQuoted argument) (literal argument)
  environ : ∀ e ∈ care.environ, ReadsWord (care.envarText e) (care.envarWord e)
  volatilePaths : ∀ p ∈ care.volatilePaths, ReadsWord p.bindingText p.bindingWord
  uname : ∀ utsname, care.uname = some utsname →
    ReadsWord (singleQuoted utsname.text) (literal utsname.text) ∧
      ∀ actual, parseUtsname actual utsname.text = some (utsname, 0)
  initialCwd : ReadsWord (singleQuoted care.initialCwd) (literal care.initialCwd)

theorem run_escapeQuote (text : CString) (word : Word) (hword : .quotes ∈ word) :
    (⟨[], .word word, .single⟩ : Reader).run (escapeQuote text) =
      some ⟨[], .word (word ++ chars text), .single⟩ := by
  induction text generalizing word with
  | nil => simp [escapeQuote, chars]
  | cons c text ih =>
      have hrest := ih (word ++ [.char c true]) (List.mem_append_left _ hword)
      have hcons : escapeQuote (c :: text) =
          (if c = '\'' then ['\'', '\\', '\'', '\''] else [c]) ++ escapeQuote text := rfl
      have hstep : (⟨[], .word word, .single⟩ : Reader).run
          (if c = '\'' then ['\'', '\\', '\'', '\''] else [c]) =
            some ⟨[], .word (word ++ [.char c true]), .single⟩ := by
        split_ifs with hc
        · subst hc
          -- the quotes are closed, one is escaped, and they are opened again
          have hlast : (⟨[], .word (word ++ [.char '\'' true]), .plain⟩ : Reader).step '\'' =
              some ⟨[], .word (word ++ [.char '\'' true]), .single⟩ := by
            change some (Reader.goto (Reader.openQuotes _) .single) = _
            rw [openQuotes_of_mem (List.mem_append_left _ hword)]
            rfl
          change ((⟨[], .word (word ++ [.char '\'' true]), .plain⟩ : Reader).step '\'').bind
            (fun r => r.run []) = _
          rw [hlast]
          rfl
        · rw [Reader.run_cons]
          simp [Reader.step, Reader.push, hc]
      rw [hcons, Reader.run_append, hstep, Option.bind_some, hrest]
      simp [chars]

theorem readsWord_escapeQuote (text : CString) :
    ReadsWord (singleQuoted (escapeQuote text)) (literal text) := by
  have hstart : Reader.start.step '\'' = some ⟨[], .word [.quotes], .single⟩ := rfl
  unfold ReadsWord singleQuoted
  rw [Reader.run_cons, hstart, Option.bind_some, Reader.run_append,
    run_escapeQuote text _ (List.mem_singleton_self _)]
  rfl

theorem nameChar_of_isName {name : CString} (h : isName name = true) :
    ∀ c ∈ name, isNameChar c = true := by
  cases name with
  | nil => cases h
  | cons c rest =>
      rw [isName, Bool.and_eq_true, List.all_eq_true] at h
      have hfirst : isNameChar c = true := by
        have hstart := h.1
        simp only [isNameStart, isNameChar, Bool.or_eq_true, Char.isAlphanum] at hstart ⊢
        exact hstart.imp_left .inl
      exact List.forall_mem_cons.mpr ⟨hfirst, h.2⟩

theorem readsWord_volatileEnvar {name : CString} :
    ReadsWord (singleQuoted name ++ '=' :: doubleQuoted ('$' :: name))
        (literal name ++ [.char '=' false, .parameter name true]) ↔ isName name = true := by
  constructor
  · intro h
    obtain ⟨more, hmore⟩ := run_grows h
    obtain ⟨-, hparts⟩ := hmore.proper rfl
    have hcontents : literal name ++ [.char '=' false, .parameter name true] = more := by
      simpa [Reader.contents, Current.parts, Reader.start] using hmore.contents
    refine hparts (.parameter name true) ?_
    rw [← hcontents]
    simp
  · intro hname
    have hquote : '\'' ∉ name := fun hmem => absurd (nameChar_of_isName hname _ hmem) (by decide)
    have hfirst : Reader.start.run (singleQuoted name) = some ⟨[], .word (literal name), .plain⟩ :=
      readsWord_single hquote
    have hequal : (⟨[], .word (literal name), .plain⟩ : Reader).run ['=', '"'] =
        some ⟨[], .word (literal name ++ [.char '=' false]), .double⟩ := by
      have hmem : .quotes ∈ literal name ++ [.char '=' false] :=
        List.mem_append_left _ List.mem_cons_self
      change some (Reader.goto (Reader.openQuotes
        ⟨[], .word (literal name ++ [.char '=' false]), .plain⟩) .double) = _
      rw [openQuotes_of_mem hmem]
      rfl
    have htext : singleQuoted name ++ '=' :: doubleQuoted ('$' :: name) =
        singleQuoted name ++ (['=', '"'] ++ '$' :: (name ++ '"' :: [])) := by
      simp [doubleQuoted]
    unfold ReadsWord
    rw [htext, Reader.run_append, hfirst, Option.bind_some, Reader.run_append, hequal,
      Option.bind_some, run_parameter hname rfl _ []]
    simp [Reader.run_cons, Reader.step, Reader.stepDouble, Reader.goto]

variable {care : Care} {text : List Char}

theorem readsWord_envar (e : EnvVar) :
    ReadsWord (care.envarText e) (care.envarWord e) ↔
      ∀ name, care.findVolatileEnvar e.text = some name → isName name = true := by
  unfold Care.envarText Care.envarWord
  cases hfind : care.findVolatileEnvar e.text with
  | none => simp [readsWord_escapeQuote]
  | some name => simp [readsWord_volatileEnvar]

theorem readsWord_binding (p : VolatilePath) :
    ReadsWord p.bindingText p.bindingWord ↔ p.Printable := by
  unfold VolatilePath.bindingText VolatilePath.bindingWord VolatilePath.Printable
  split_ifs with hname
  · obtain ⟨s, hs⟩ : ∃ s, p.name = '$' :: s := by
      cases hp : p.name with
      | nil => simp [hp] at hname
      | cons c s => exact ⟨s, by simpa [hp] using hname⟩
    have htext : doubleQuoted (p.name ++ ':' :: p.load) =
        '"' :: '$' :: (p.front ++ (p.behind ++ ['"'])) := by
      have hsplit : p.front ++ p.behind = s ++ ':' :: p.load := by
        unfold VolatilePath.front VolatilePath.behind
        rw [hs, List.tail_cons, ← List.append_assoc, List.takeWhile_append_dropWhile]
      rw [← List.append_assoc, hsplit, doubleQuoted, hs]
      simp
    rw [htext]
    refine readsWord_parameter_iff ?_
    intro c hc
    unfold VolatilePath.behind at hc
    cases hdrop : p.name.tail.dropWhile isNameChar with
    | nil =>
        rw [hdrop] at hc
        cases hc
        rfl
    | cons d rest =>
        rw [hdrop] at hc
        cases hc
        have := List.head?_dropWhile_not isNameChar p.name.tail
        rw [hdrop] at this
        simpa using this
  · exact readsWord_double_iff

/-! ## The name of the kernel -/

theorem parseField_append (field : UtsField) (h : '\\' ∉ field.val) (rest : CString) :
    parseField (field.val ++ '\\' :: rest) = some (field, rest) := by
  have hall : ∀ c ∈ field.val, decide (c ≠ '\\') = true := by
    intro c hc
    rw [decide_eq_true_eq]
    rintro rfl
    exact h hc
  have hdrop : (field.val ++ '\\' :: rest).dropWhile (· ≠ '\\') = '\\' :: rest := by
    rw [List.dropWhile_append_of_pos hall]
    simp
  have htake : (field.val ++ '\\' :: rest).takeWhile (· ≠ '\\') = field.val := by
    rw [List.takeWhile_append_of_pos hall]
    simp
  have hshort : field.val.take 64 = field.val :=
    List.take_of_length_le (Nat.le_of_lt_succ field.property)
  unfold parseField
  rw [hdrop]
  simp only [htake, hshort]

theorem parseField_clean {string rest : CString} {field : UtsField}
    (h : parseField string = some (field, rest)) : '\\' ∉ field.val := by
  unfold parseField at h
  split at h
  · cases h
  · cases h
    intro hmem
    have := List.mem_takeWhile_imp (List.mem_of_mem_take hmem)
    simp at this

/-- **The name of the kernel is parsed back** if no field of it has a backslash. -/
theorem parseUtsname_text (actual u : Utsname) :
    parseUtsname actual u.text = some (u, 0) ↔ ∀ field ∈ u.fields, '\\' ∉ field := by
  have htext : u.text = '\\' :: (u.sysname.val ++ '\\' :: (u.nodename.val ++ '\\' :: (u.release.val ++
      '\\' :: (u.version.val ++ '\\' :: (u.machine.val ++ '\\' :: (u.domainname.val ++
        '\\' :: ['0', '\\'])))))) := by
    simp [Utsname.text, Utsname.fields]
  constructor
  · intro h field hfield
    unfold parseUtsname at h
    rw [if_pos (by rw [htext]; rfl)] at h
    simp only [Option.bind_eq_bind, Option.bind_eq_some_iff, Prod.exists] at h
    obtain ⟨sysname, _, h1, nodename, _, h2, release, _, h3, version, _, h4, machine, _, h5,
      domainname, _, h6, hwcap, _, -, hlast⟩ := h
    split_ifs at hlast
    simp only [Option.some.injEq, Prod.mk.injEq] at hlast
    obtain ⟨rfl, -⟩ := hlast
    simp only [Utsname.fields, List.mem_cons, List.not_mem_nil, or_false] at hfield
    rcases hfield with rfl | rfl | rfl | rfl | rfl | rfl
    · exact parseField_clean h1
    · exact parseField_clean h2
    · exact parseField_clean h3
    · exact parseField_clean h4
    · exact parseField_clean h5
    · exact parseField_clean h6
  · intro h
    simp only [Utsname.fields, List.forall_mem_cons] at h
    obtain ⟨h1, h2, h3, h4, h5, h6, -⟩ := h
    have hnumber : strtolHex ['0', '\\'] = some (0, ['\\']) := by decide
    unfold parseUtsname
    rw [if_pos (by rw [htext]; rfl), htext, List.tail_cons]
    simp only [Option.bind_eq_bind, parseField_append _ h1, parseField_append _ h2,
      parseField_append _ h3, parseField_append _ h4, parseField_append _ h5,
      parseField_append _ h6, hnumber, Option.bind_some]
    rfl

theorem quote_mem_text (u : Utsname) : '\'' ∈ u.text ↔ ∃ field ∈ u.fields, '\'' ∈ field := by
  simp [Utsname.text]

theorem literal_iff_printable (care : Care) : care.Literal ↔ care.Printable := by
  have huname : ∀ u : Utsname, (ReadsWord (singleQuoted u.text) (literal u.text) ∧
      ∀ actual, parseUtsname actual u.text = some (u, 0)) ↔
        ∀ field ∈ u.fields, '\'' ∉ field ∧ '\\' ∉ field := by
    intro u
    have hread : ReadsWord (singleQuoted u.text) (literal u.text) ↔ ∀ field ∈ u.fields, '\'' ∉ field := by
      rw [singleQuoted, readsWord_single_iff, quote_mem_text]
      push Not
      rfl
    rw [hread]
    constructor
    · rintro ⟨hquote, hparse⟩ field hfield
      exact ⟨hquote field hfield, (parseUtsname_text u u).mp (hparse u) field hfield⟩
    · intro h
      exact ⟨fun field hfield => (h field hfield).1, fun actual =>
        (parseUtsname_text actual u).mpr fun field hfield => (h field hfield).2⟩
  constructor
  · intro h
    exact
      { command := fun argument hmem => readsWord_single_iff.mp (h.command argument hmem)
        volatileEnvars := fun e hmem => (readsWord_envar e).mp (h.environ e hmem)
        volatilePaths := fun p hmem => (readsWord_binding p).mp (h.volatilePaths p hmem)
        uname := fun u hu => (huname u).mp (h.uname u hu)
        initialCwd := readsWord_single_iff.mp h.initialCwd }
  · intro h
    exact
      { command := fun argument hmem => readsWord_single_iff.mpr (h.command argument hmem)
        environ := fun e hmem => (readsWord_envar e).mpr (h.volatileEnvars e hmem)
        volatilePaths := fun p hmem => (readsWord_binding p).mpr (h.volatilePaths p hmem)
        uname := fun u hu => (huname u).mpr (h.uname u hu)
        initialCwd := readsWord_single_iff.mpr h.initialCwd }

/-! ## The tokens of the script -/

def tokensOf (text : List Char) : List Token :=
  ((Reader.start.run text).map (·.tokens)).getD []

theorem tokensOf_eq {tokens : List Token} (h : Reads text tokens) :
    tokensOf text = tokens := by
  unfold Reads at h
  rw [tokensOf, h]
  rfl

/-- A fact about the reader at the end of a text, which ends with a token. -/
def endsWith (text : List Char) (p : List Token → Bool) : Bool :=
  (Reader.start.run text).any fun r => r.current = .nothing && r.mode = .plain && p r.tokens

theorem endsWith_spec {text : List Char} {p : List Token → Bool} (h : endsWith text p = true) :
    Reads text (tokensOf text) ∧ p (tokensOf text) = true := by
  obtain ⟨⟨tokens, current, mode⟩, hrun, hend⟩ := (Option.any_eq_true _ _).mp h
  simp only [Bool.and_eq_true, decide_eq_true_eq] at hend
  obtain ⟨⟨rfl, rfl⟩, hp⟩ := hend
  have hreads : Reads text tokens := hrun
  rw [tokensOf_eq hreads]
  exact ⟨hreads, hp⟩

def words (l : List Word) : List Token := l.map .word

theorem formatInt_tame (n : Int) : ∀ c ∈ formatInt n, tame c = true := by
  have hdigit : ∀ c : Char, c.isDigit = true → tame c = true := by
    intro c hc
    have hnot : ['\\', '\'', '"', '$', '\x60', '<', '>', '\n', ' ', '\t', '#', '&', '|', ';', '(',
        ')'].all (!·.isDigit) = true := by decide
    have hne : ∀ d ∈ ['\\', '\'', '"', '$', '\x60', '<', '>', '\n', ' ', '\t', '#', '&', '|', ';',
        '(', ')'], c ≠ d := by
      rintro d hd rfl
      have hdigit := List.all_eq_true.mp hnot c hd
      rw [hc] at hdigit
      cases hdigit
    simp only [List.forall_mem_cons] at hne
    simp [tame, operators, hne]
  intro c hc
  unfold formatInt at hc
  split_ifs at hc
  · rcases List.mem_cons.mp hc with rfl | hc
    · decide
    · exact hdigit c (Nat.isDigit_of_mem_toDigits (by decide) (by decide) hc)
  · exact hdigit c (Nat.isDigit_of_mem_toDigits (by decide) (by decide) hc)

theorem formatInt_ne_nil (n : Int) : formatInt n ≠ [] := by
  unfold formatInt
  split_ifs
  · simp
  · exact Nat.toDigits_ne_nil

theorem reads_lineC {word : Word} (h : ReadsWord text word) :
    Reads (lineC text) [.word word] := by
  have := h.line (.inl rfl)
  rwa [List.append_assoc] at this

theorem reads_lineC_blank {word : Word} (h : ReadsWord text word) :
    Reads (lineC (text ++ [' '])) [.word word] := by
  have := h.line (.inr rfl)
  simpa [lineC] using this

theorem reads_option {option : List Char} {word : Word} {o : Word}
    (ho : Reads option [.word o]) (h : Reads (lineC text) [.word word]) :
    Reads (lineC (option ++ text)) (words [o, word]) := by
  unfold lineC at h ⊢
  rw [List.append_assoc]
  exact ho.append h

def Care.setWords (care : Care) : List Word :=
  [bare "set".toList, bare "--".toList] ++ care.command.map literal

def guardWords : List Word :=
  [bare "[".toList, [.parameter "nbargs".toList false], bare "-ne".toList, bare "0".toList,
    bare "]".toList]

theorem reads_set (h : care.Printable) : Reads care.setText
    (words guardWords ++ [.operator "||".toList] ++ words care.setWords ++ [.operator ['\n']]) := by
  have hfirst : Reads (lineC "[ $nbargs -ne 0 ] || set --".toList) (words guardWords ++
      [.operator "||".toList] ++ words [bare "set".toList, bare "--".toList]) := by decide +kernel
  have hcommand : Reads (care.command.flatMap fun argument => lineC (singleQuoted argument))
      (care.command.flatMap fun argument => [.word (literal argument)]) :=
    Reads.flatMap fun argument hmem => reads_lineC (readsWord_single (h.command argument hmem))
  have hlast : Reads (lineN []) [.operator ['\n']] := by decide
  have hall := (hfirst.append hcommand).append hlast
  simpa [Care.setText, Care.setWords, words, ← List.map_eq_flatMap, Function.comp_def] using hall

def prootWord : Word := [.quotes, .expansion "{PROOT-$(dirname $0)/proot}".toList true]

def rootfsWord : Word :=
  [.quotes, .expansion "(dirname $0)".toList true] ++ chars "/rootfs".toList

def Care.kompatWords (care : Care) : List Word :=
  match care.uname with
  | none => [bare "-k".toList, bare "3.17.0".toList]
  | some utsname => [bare "-k".toList, literal utsname.text]

def Care.envWords (care : Care) : List Word :=
  [bare "env".toList, bare "--ignore-environment".toList,
    bare "PROOT_IGNORE_MISSING_BINDINGS=1".toList, [.parameter "PROOT_NO_SECCOMP".toList false]] ++
  care.environ.map care.envarWord ++ [prootWord] ++
  care.volatilePaths.flatMap (fun p => [bare "-b".toList, p.bindingWord]) ++ care.kompatWords ++
  [bare "-i".toList, bare (formatInt care.uid ++ ':' :: formatInt care.gid)] ++
  [bare "-w".toList, literal care.initialCwd] ++
  [bare "-r".toList, rootfsWord, bare "-b".toList, rootfsWord, [allArguments]]

theorem reads_kompat (h : care.Printable) :
    Reads (lineC care.kompatText) (words care.kompatWords) := by
  unfold Care.kompatText Care.kompatWords
  cases huname : care.uname with
  | none =>
      dsimp only
      decide +kernel
  | some utsname =>
      have hquote : '\'' ∉ utsname.text := by
        rw [quote_mem_text]
        rintro ⟨field, hfield, hmem⟩
        exact (h.uname utsname huname field hfield).1 hmem
      have hoption : Reads "-k ".toList [.word (bare "-k".toList)] := by decide
      have := reads_option hoption (reads_lineC_blank (readsWord_single hquote))
      rwa [← List.append_assoc] at this

/-- The shell reads the environment of the script as its words. -/
theorem reads_env (h : care.Printable) :
    Reads care.envText (words care.envWords ++ [.operator ['\n'], .operator ['\n']]) := by
  have hfirst : Reads (lineC "env --ignore-environment".toList ++
      lineC "PROOT_IGNORE_MISSING_BINDINGS=1".toList ++ lineC "$PROOT_NO_SECCOMP".toList)
      (words [bare "env".toList, bare "--ignore-environment".toList,
        bare "PROOT_IGNORE_MISSING_BINDINGS=1".toList,
        [.parameter "PROOT_NO_SECCOMP".toList false]]) := by decide +kernel
  have henviron : Reads (care.environ.flatMap fun e => lineC (care.envarText e ++ [' ']))
      (care.environ.flatMap fun e => [.word (care.envarWord e)]) :=
    Reads.flatMap fun e hmem =>
      reads_lineC_blank ((readsWord_envar e).mpr (h.volatileEnvars e hmem))
  have hproot : Reads (lineC "\"${PROOT-$(dirname $0)/proot}\"".toList) (words [prootWord]) := by
    decide +kernel
  have hbind : Reads "-b ".toList [.word (bare "-b".toList)] := by decide
  have hpaths : Reads (care.volatilePaths.flatMap fun p =>
      lineC ("-b ".toList ++ p.bindingText ++ [' ']))
      (care.volatilePaths.flatMap fun p => words [bare "-b".toList, p.bindingWord]) := by
    refine Reads.flatMap fun p hmem => ?_
    have := reads_option hbind
      (reads_lineC_blank ((readsWord_binding p).mpr (h.volatilePaths p hmem)))
    rwa [← List.append_assoc] at this
  have hids : Reads (lineC ("-i ".toList ++ formatInt care.uid ++ ':' :: formatInt care.gid))
      (words [bare "-i".toList, bare (formatInt care.uid ++ ':' :: formatInt care.gid)]) := by
    have hoption : Reads "-i ".toList [.word (bare "-i".toList)] := by decide
    have htame : ∀ c ∈ formatInt care.uid ++ ':' :: formatInt care.gid, tame c = true := by
      intro c hc
      rcases List.mem_append.mp hc with hc | hc
      · exact formatInt_tame _ c hc
      · rcases List.mem_cons.mp hc with rfl | hc
        · decide
        · exact formatInt_tame _ c hc
    have := reads_option hoption (reads_lineC (readsWord_bare (by simp) htame))
    rwa [← List.append_assoc] at this
  have hcwd : Reads (lineC ("-w ".toList ++ singleQuoted care.initialCwd ++ [' ']))
      (words [bare "-w".toList, literal care.initialCwd]) := by
    have hoption : Reads "-w ".toList [.word (bare "-w".toList)] := by decide
    have := reads_option hoption (reads_lineC_blank (readsWord_single h.initialCwd))
    rwa [← List.append_assoc] at this
  have hlast : Reads (lineC "-r \"$(dirname $0)/rootfs\"".toList ++
      lineC "-b \"$(dirname $0)/rootfs\"".toList ++ lineN "$\x7b1+\"$@\"\x7d".toList ++ lineN [])
      (words [bare "-r".toList, rootfsWord, bare "-b".toList, rootfsWord, [allArguments]] ++
        [.operator ['\n'], .operator ['\n']]) := by decide +kernel
  have hall := ((((((hfirst.append henviron).append hproot).append hpaths).append
    (reads_kompat h)).append hids).append hcwd).append hlast
  simpa [Care.envText, Care.envWords, words, ← List.map_eq_flatMap, Function.comp_def,
    List.map_flatMap] using hall

/-! ## The run -/

def harmless (command : List Word) : Bool := !isSet command && !isEnv command

def calm : List Word → List Token → Bool
  | _, [] => true
  | command, .word word :: tokens => calm (command ++ [word]) tokens
  | command, .operator _ :: tokens => harmless command && calm [] tokens

def pending : List Word → List Token → List Word
  | command, [] => command
  | command, .word word :: tokens => pending (command ++ [word]) tokens
  | _, .operator _ :: tokens => pending [] tokens

variable {v : Values}

theorem exec_append (s : Run) (a b : List Token) : s.exec v (a ++ b) = (s.exec v a).exec v b :=
  List.foldl_append

theorem exec_words (s : Run) (l : List Word) :
    s.exec v (words l) = { s with command := s.command ++ l } := by
  induction l generalizing s with
  | nil => simp [words, Run.exec]
  | cons word l ih =>
      have hcons : s.exec v (words (word :: l)) =
          ({ s with command := s.command ++ [word] } : Run).exec v (words l) := rfl
      rw [hcons, ih]
      simp

theorem exec_calm {tokens : List Token} {s : Run} (h : calm s.command tokens = true) :
    s.exec v tokens = ⟨s.arguments, pending s.command tokens, s.invoked⟩ := by
  induction tokens generalizing s with
  | nil => rfl
  | cons token tokens ih =>
      cases token with
      | word word => exact @ih { s with command := s.command ++ [word] } h
      | operator text =>
          rw [calm, harmless, Bool.and_eq_true, Bool.and_eq_true, Bool.not_eq_true',
            Bool.not_eq_true'] at h
          obtain ⟨⟨hset, henv⟩, hcalm⟩ := h
          have hfinish : s.finish v = ⟨s.arguments, [], s.invoked⟩ := by
            simp [Run.finish, hset, henv]
          have hcons : s.exec v (.operator text :: tokens) = (s.finish v).exec v tokens := rfl
          rw [hcons, hfinish, ih hcalm]
          rfl

theorem exec_harmless {tokens : List Token} (h : calm [] tokens = true ∧ pending [] tokens = [])
    (arguments : List (List Char)) (invoked : List (List (List Char))) :
    (⟨arguments, [], invoked⟩ : Run).exec v tokens = ⟨arguments, [], invoked⟩ := by
  rw [@exec_calm v tokens ⟨arguments, [], invoked⟩ h.1, h.2]

theorem calm_append (command : List Word) (a b : List Token) :
    calm command (a ++ b) = (calm command a && calm (pending command a) b) := by
  induction a generalizing command with
  | nil => rfl
  | cons token a ih =>
      cases token with
      | word word => exact ih _
      | operator text => simp [calm, pending, ih, Bool.and_assoc]

theorem exec_command (s : Run) (hs : s.command = []) (l : List Word) (text : List Char) :
    s.exec v (words l ++ [.operator text]) = ({ s with command := l } : Run).finish v := by
  rw [exec_append, exec_words, hs]
  rfl

def complete (tokens : List Token) : Bool := calm [] tokens && pending [] tokens = []

theorem head_complete : endsWith headText complete = true := by decide +kernel

theorem search_complete : endsWith searchText complete = true := by decide +kernel

theorem exec_complete (h : endsWith text complete = true)
    (arguments : List (List Char)) (invoked : List (List (List Char))) :
    (⟨arguments, [], invoked⟩ : Run).exec v (tokensOf text) = ⟨arguments, [], invoked⟩ := by
  obtain ⟨-, hcomplete⟩ := endsWith_spec h
  simp only [complete, Bool.and_eq_true, decide_eq_true_eq] at hcomplete
  exact exec_harmless hcomplete arguments invoked

theorem calm_words (command l : List Word) (tokens : List Token) :
    calm command (words l ++ tokens) = calm (command ++ l) tokens := by
  induction l generalizing command with
  | nil => simp [words]
  | cons word l ih =>
      have hcons : calm command (words (word :: l) ++ tokens) =
          calm (command ++ [word]) (words l ++ tokens) := rfl
      rw [hcons, ih, List.append_assoc, List.singleton_append]

theorem calm_congr (a b : Word) (more more' : List Word) (tokens : List Token) :
    calm (a :: b :: more) tokens = calm (a :: b :: more') tokens := by
  induction tokens generalizing more more' with
  | nil => rfl
  | cons token tokens ih =>
      cases token with
      | word word => exact ih (more ++ [word]) (more' ++ [word])
      | operator text => rfl

def beforeStatus : List Char := lineN "status=$?".toList ++ "if [ $status -ne ".toList

def afterStatus : List Char :=
  lineN "] && [ $nbargs -eq 0 ]; then".toList ++
  lineN "echo \"care: The reproduced execution didn't return the same exit status as the\"".toList ++
  lineN "echo \"care: original execution.  If it is unexpected, please report this bug\"".toList ++
  lineN "echo \"care: to CARE/PRoot developers:\"".toList ++
  lineN "echo \"care:     * mailing list: reproducible@googlegroups.com; or\"".toList ++
  lineN ("echo \"care:     * forum: ".toList ++
    "https://groups.google.com/forum/?fromgroups#!forum/reproducible; or\"".toList) ++
  lineN ("echo \"care:     * issue tracker: ".toList ++
    "https://github.com/cedric-vincent/PRoot/issues/\"".toList) ++
  lineN "fi".toList ++ lineN [] ++
  lineN "exit $status".toList

theorem statusText_eq (care : Care) :
    care.statusText = beforeStatus ++ ((formatInt care.lastExitStatus ++ [' ']) ++ afterStatus) := by
  have hblank : " ] && [ $nbargs -eq 0 ]; then".toList =
      [' '] ++ "] && [ $nbargs -eq 0 ]; then".toList := by decide
  unfold Care.statusText beforeStatus afterStatus
  rw [hblank]
  simp only [lineN, List.append_assoc]

theorem reads_status (care : Care) :
    ∃ tokens, Reads care.statusText tokens ∧ calm [] tokens = true := by
  obtain ⟨hbefore, hfirst⟩ : Reads beforeStatus (tokensOf beforeStatus) ∧
      (calm [] (tokensOf beforeStatus) && pending [] (tokensOf beforeStatus) =
        [bare "if".toList, bare "[".toList, [.parameter "status".toList false],
          bare "-ne".toList]) = true :=
    @endsWith_spec _ (fun tokens => calm [] tokens && pending [] tokens =
      [bare "if".toList, bare "[".toList, [.parameter "status".toList false],
        bare "-ne".toList]) (by decide +kernel)
  obtain ⟨hafter, hlast⟩ : Reads afterStatus (tokensOf afterStatus) ∧
      calm [bare "if".toList, bare "[".toList] (tokensOf afterStatus) = true :=
    endsWith_spec (by decide +kernel)
  have hstatus : Reads (formatInt care.lastExitStatus ++ [' '])
      (words [bare (formatInt care.lastExitStatus)]) := by
    have hword := readsWord_bare (formatInt_ne_nil _) (formatInt_tame care.lastExitStatus)
    unfold Reads
    rw [Reader.run_append, hword]
    rfl
  refine ⟨tokensOf beforeStatus ++
    (words [bare (formatInt care.lastExitStatus)] ++ tokensOf afterStatus), ?_, ?_⟩
  · rw [statusText_eq]
    exact hbefore.append (hstatus.append hafter)
  · simp only [Bool.and_eq_true, decide_eq_true_eq] at hfirst
    have hmore := calm_congr (bare "if".toList) (bare "[".toList)
      ([[.parameter "status".toList false], bare "-ne".toList] ++
        [bare (formatInt care.lastExitStatus)]) [] (tokensOf afterStatus)
    rw [calm_append, hfirst.1, hfirst.2, Bool.true_and, calm_words]
    exact hmore.trans hlast

/-! ## What PRoot is run with -/

/-- The variable that the current environment gives for a recorded one. -/
def Care.envarField (care : Care) (v : Values) (e : EnvVar) : CString :=
  match care.findVolatileEnvar e.text with
  | some name => name ++ '=' :: v.text (.parameter name true)
  | none => e.text

def VolatilePath.field (p : VolatilePath) (v : Values) : CString :=
  if p.name.head? = some '$' then v.text (.parameter p.front true) ++ p.behind else p.load

/-- The assignments of "env": PRoot's own, and the recorded environment. -/
def Care.assignments (care : Care) (v : Values) : List CString :=
  "PROOT_IGNORE_MISSING_BINDINGS=1".toList :: v.fields (.parameter "PROOT_NO_SECCOMP".toList false) ++
    care.environ.map (care.envarField v)

def prootField (v : Values) : CString := v.text (.expansion "{PROOT-$(dirname $0)/proot}".toList true)

def rootfsField (v : Values) : CString :=
  v.text (.expansion "(dirname $0)".toList true) ++ "/rootfs".toList

def Care.prootCommand (care : Care) (v : Values) : List CString :=
  prootField v :: care.volatilePaths.flatMap (fun p => ["-b".toList, p.field v]) ++
  ["-k".toList, (care.uname.map Utsname.text).getD "3.17.0".toList] ++
  ["-i".toList, formatInt care.uid ++ ':' :: formatInt care.gid] ++
  ["-w".toList, care.initialCwd] ++
  ["-r".toList, rootfsField v, "-b".toList, rootfsField v] ++ care.command

variable {arguments : List (List Char)}

theorem fieldsOf_envarWord (care : Care) (e : EnvVar) :
    v.fieldsOf arguments (care.envarWord e) = [care.envarField v e] := by
  unfold Care.envarWord Care.envarField
  cases care.findVolatileEnvar e.text with
  | none => exact fieldsOf_literal _
  | some name =>
      have hfront : (literal name ++ [Part.char '=' false]).foldl (v.expand arguments) ([], none) =
          ([], some (name ++ ['='])) := by
        have hquotes : v.expand arguments ([], none) .quotes = ([], some []) := rfl
        have hname : (literal name).foldl (v.expand arguments) ([], none) = ([], some name) := by
          rw [literal, List.foldl_cons, hquotes, foldl_chars name _ (Option.some_ne_none [])]
          rfl
        rw [List.foldl_append, hname]
        rfl
      have := @fieldsOf_quoted v arguments (.parameter name true) (fun _ => rfl) _ _ hfront []
      simpa [chars] using this

theorem fieldsOf_bindingWord (p : VolatilePath) :
    v.fieldsOf arguments p.bindingWord = [p.field v] := by
  unfold VolatilePath.bindingWord VolatilePath.field
  split_ifs
  · exact @fieldsOf_quoted v arguments (.parameter p.front true) (fun _ => rfl) [] [.quotes] rfl
      p.behind
  · exact fieldsOf_literal _

theorem fieldsOf_prootWord : v.fieldsOf arguments prootWord = [prootField v] := by
  have := @fieldsOf_quoted v arguments (.expansion "{PROOT-$(dirname $0)/proot}".toList true)
    (fun _ => rfl) [] [.quotes] rfl []
  rwa [List.append_nil] at this

theorem fieldsOf_rootfsWord : v.fieldsOf arguments rootfsWord = [rootfsField v] :=
  @fieldsOf_quoted v arguments (.expansion "(dirname $0)".toList true) (fun _ => rfl) [] [.quotes] rfl
    "/rootfs".toList

theorem fieldsOf_kompatWords (care : Care) :
    care.kompatWords.flatMap (v.fieldsOf arguments) =
      ["-k".toList, (care.uname.map Utsname.text).getD "3.17.0".toList] := by
  have hoption : v.fieldsOf arguments (bare "-k".toList) = ["-k".toList] := fieldsOf_bare (by decide)
  have hdefault : v.fieldsOf arguments (bare "3.17.0".toList) = ["3.17.0".toList] :=
    fieldsOf_bare (by decide)
  unfold Care.kompatWords
  cases care.uname with
  | none =>
      dsimp only
      rw [List.flatMap_cons, List.flatMap_cons, hoption, hdefault]
      rfl
  | some utsname =>
      dsimp only
      rw [List.flatMap_cons, List.flatMap_cons, hoption, fieldsOf_literal]
      rfl

theorem fieldsOf_envWords (care : Care) :
    care.envWords.flatMap (v.fieldsOf care.command) =
      "env".toList :: "--ignore-environment".toList :: care.assignments v ++ care.prootCommand v := by
  have hbare : ∀ text : List Char, text ≠ [] → v.fieldsOf care.command (bare text) = [text] :=
    fun text hne => fieldsOf_bare hne
  have henviron : (care.environ.map care.envarWord).flatMap (v.fieldsOf care.command) =
      care.environ.map (care.envarField v) := by
    rw [List.flatMap_map, List.map_eq_flatMap]
    simp only [fieldsOf_envarWord]
  have hpaths : (care.volatilePaths.flatMap fun p => [bare "-b".toList, p.bindingWord]).flatMap
      (v.fieldsOf care.command) =
        care.volatilePaths.flatMap fun p => ["-b".toList, p.field v] := by
    rw [List.flatMap_assoc]
    refine List.flatMap_congr fun p _ => ?_
    rw [List.flatMap_cons, List.flatMap_cons, hbare _ (by decide), fieldsOf_bindingWord]
    rfl
  unfold Care.envWords
  simp only [List.flatMap_append, List.flatMap_cons, List.flatMap_nil, henviron, hpaths,
    fieldsOf_kompatWords, fieldsOf_prootWord, fieldsOf_rootfsWord, fieldsOf_literal,
    fieldsOf_parameter, fieldsOf_allArguments]
  rw [hbare "env".toList (by decide), hbare "--ignore-environment".toList (by decide),
    hbare "PROOT_IGNORE_MISSING_BINDINGS=1".toList (by decide), hbare "-i".toList (by decide),
    hbare "-w".toList (by decide), hbare "-r".toList (by decide), hbare "-b".toList (by decide),
    hbare (formatInt care.uid ++ ':' :: formatInt care.gid) (by simp)]
  simp only [Care.assignments, Care.prootCommand, List.append_assoc, List.cons_append,
    List.nil_append, List.append_nil]

theorem fieldsOf_setWords (care : Care) :
    care.setWords.flatMap (v.fieldsOf arguments) =
      "set".toList :: "--".toList :: care.command := by
  have hliteral : (care.command.map literal).flatMap (v.fieldsOf arguments) = care.command := by
    rw [List.flatMap_map]
    simp only [fieldsOf_literal]
    exact List.flatMap_singleton' _
  have hset : v.fieldsOf arguments (bare "set".toList) = ["set".toList] := fieldsOf_bare (by decide)
  have hdash : v.fieldsOf arguments (bare "--".toList) = ["--".toList] := fieldsOf_bare (by decide)
  unfold Care.setWords
  rw [List.flatMap_append, List.flatMap_cons, List.flatMap_cons, hset, hdash, hliteral]
  rfl

theorem exec_set (care : Care) :
    (⟨[], [], []⟩ : Run).exec v (words guardWords ++ [.operator "||".toList] ++ words care.setWords ++
      [.operator ['\n']]) = ⟨care.command, [], []⟩ := by
  have hguard : calm [] (words guardWords ++ [.operator "||".toList]) = true ∧
      pending [] (words guardWords ++ [.operator "||".toList]) = [] := by decide
  have hset : isSet care.setWords = true := by
    unfold isSet Care.setWords
    exact decide_eq_true rfl
  rw [List.append_assoc, exec_append, exec_harmless hguard, exec_command ⟨[], [], []⟩ rfl]
  unfold Run.finish
  rw [if_pos hset, fieldsOf_setWords]
  rfl

theorem exec_env (care : Care) :
    (⟨care.command, [], []⟩ : Run).exec v
      (words care.envWords ++ [.operator ['\n'], .operator ['\n']]) =
        ⟨care.command, [], ["env".toList :: "--ignore-environment".toList :: care.assignments v ++
          care.prootCommand v]⟩ := by
  have hnotSet : ¬ isSet care.envWords = true := by
    obtain ⟨more, hmore⟩ : ∃ more, care.envWords =
        bare "env".toList :: bare "--ignore-environment".toList :: more := ⟨_, rfl⟩
    rw [hmore]
    change ¬ decide ([bare "env".toList, bare "--ignore-environment".toList] =
      [bare "set".toList, bare "--".toList]) = true
    decide
  have hisEnv : isEnv care.envWords = true := by
    unfold isEnv Care.envWords
    exact decide_eq_true rfl
  have hsplit : words care.envWords ++ [Token.operator ['\n'], .operator ['\n']] =
      (words care.envWords ++ [.operator ['\n']]) ++ [.operator ['\n']] := by simp
  rw [hsplit, exec_append, exec_command ⟨care.command, [], []⟩ rfl]
  unfold Run.finish
  rw [if_neg hnotSet, if_pos hisEnv, fieldsOf_envWords]
  rfl

/-- **The script runs PRoot once**, with the recorded command and environment. -/
theorem exec_script (h : care.Printable) (v : Values) :
    ∃ tokens, Reads care.script tokens ∧ (Run.start.exec v tokens).invoked =
      ["env".toList :: "--ignore-environment".toList :: care.assignments v ++ care.prootCommand v] := by
  obtain ⟨status, hstatus, hcalm⟩ := reads_status care
  have hset := reads_set h
  have hexecSet := @exec_set v care
  have henv := reads_env h
  have hexecEnv := @exec_env v care
  generalize words guardWords ++ [.operator "||".toList] ++ words care.setWords ++
    [.operator ['\n']] = setTokens at hset hexecSet
  generalize words care.envWords ++ [.operator ['\n'], .operator ['\n']] = envTokens at henv hexecEnv
  have hhead := (endsWith_spec head_complete).1
  have hsearch := (endsWith_spec search_complete).1
  refine ⟨_, (((hhead.append hset).append hsearch).append henv).append hstatus, ?_⟩
  have hstart : Run.start.exec v (tokensOf headText) = ⟨[], [], []⟩ :=
    exec_complete head_complete [] []
  rw [exec_append, exec_append, exec_append, exec_append, hstart, hexecSet,
    exec_complete search_complete, hexecEnv, exec_calm hcalm]

theorem envUtility_fields (care : Care) (hproot : '=' ∉ prootField v)
    (hseccomp : ∀ field ∈ v.fields (.parameter "PROOT_NO_SECCOMP".toList false), '=' ∈ field) :
    envUtility ("env".toList :: "--ignore-environment".toList :: care.assignments v ++
      care.prootCommand v) = (care.assignments v, care.prootCommand v) := by
  have hassign : ∀ field ∈ care.assignments v, '=' ∈ field := by
    intro field hfield
    rcases List.mem_append.mp hfield with hfield | hfield
    · rcases List.mem_cons.mp hfield with rfl | hfield
      · decide
      · exact hseccomp field hfield
    · obtain ⟨e, -, rfl⟩ := List.mem_map.mp hfield
      unfold Care.envarField
      cases care.findVolatileEnvar e.text <;> simp [EnvVar.text]
  have hfirst : ∃ more, care.prootCommand v = prootField v :: more := ⟨_, rfl⟩
  obtain ⟨more, hmore⟩ := hfirst
  have hpos : ∀ field ∈ care.assignments v, decide ('=' ∈ field) = true :=
    fun field hfield => decide_eq_true (hassign field hfield)
  have hstop : decide ('=' ∈ prootField v) = false := decide_eq_false hproot
  unfold envUtility
  rw [List.span_eq_takeWhile_dropWhile]
  change ((care.assignments v ++ care.prootCommand v).takeWhile _,
    (care.assignments v ++ care.prootCommand v).dropWhile _) = _
  rw [List.takeWhile_append_of_pos hpos, List.dropWhile_append_of_pos hpos, hmore,
    List.takeWhile_cons, List.dropWhile_cons, hstop]
  simp

/-- The script, read and run without arguments, runs PRoot with what was recorded, each string being
one literal word of it. -/
structure Care.Reproduced (care : Care) : Prop where
  literal : care.Literal
  run : ∀ v : Values, ∃ tokens, Reads care.script tokens ∧ (Run.start.exec v tokens).invoked =
    ["env".toList :: "--ignore-environment".toList :: care.assignments v ++ care.prootCommand v]
  environment : ∀ v : Values, '=' ∉ prootField v →
    (∀ field ∈ v.fields (.parameter "PROOT_NO_SECCOMP".toList false), '=' ∈ field) →
    envUtility ("env".toList :: "--ignore-environment".toList :: care.assignments v ++
      care.prootCommand v) = (care.assignments v, care.prootCommand v)

def quotedCare : Care where
  command := ["a''b".toList]
  environ := []
  volatileEnvars := []
  volatilePaths := []
  initialCwd := ['/']
  uname := none
  uid := 0
  gid := 0
  lastExitStatus := 0

def unset : Values := ⟨fun _ => [], fun _ => []⟩

theorem Run.eq_of_command {s : Run} {arguments : List (List Char)}
    (h : s.arguments = arguments ∧ s.command = []) : s = ⟨arguments, [], s.invoked⟩ := by
  obtain ⟨rfl, hcommand⟩ := h
  rw [← hcommand]

end Improot.Extension
