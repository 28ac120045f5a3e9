import Mathlib.Data.List.DropRight
import Improot.Path.Basic

/-!
# The first line of a script

`extract_shebang` of `execve/shebang.c` reads the interpreter and its argument character by
character, up to `BINPRM_BUF_SIZE` bytes.  The kernel looks at the same bytes as a whole.
-/

namespace Improot.Execve

/-! ## Characters -/

abbrev nul : Char := '\x00'

def isBlank (c : Char) : Bool := c = ' ' ∨ c = '\t'

/-- An end of line, for `extract_shebang`. -/
def endsLine (c : Char) : Bool := c = '\n' ∨ c = '\r'

def cString (buffer : CString) : CString := buffer.takeWhile (· ≠ nul)

/-! ## The automaton -/

/-- What `extract_shebang` returns: 0, `-ENOEXEC`, or 1 with `user_path` and `argument`. -/
inductive Shebang where
  | notScript
  | noexec
  | script (userPath argument : CString)
  deriving DecidableEq, Repr

/-- Skip leading spaces: the character after them, what remains to be read, and the current length;
nothing at the end of the file. -/
def skipLeading (size : Nat) : (currentLength : Nat) → (file : CString) →
    Option (Char × CString × Nat)
  | _, [] => none
  | currentLength, tmp :: file =>
    if isBlank tmp ∧ currentLength + 1 < size then skipLeading size (currentLength + 1) file
    else some (tmp, file, currentLength + 1)

/-- Remove trailing spaces; the first character is not looked at. -/
def removeTrailing : CString → CString
  | [] => []
  | c :: argument => c :: argument.rdropWhile isBlank

def slurpArgument (size : Nat) (userPath : CString) : (currentLength : Nat) →
    (argument : CString) → (tmp : Char) → (file : CString) → Shebang
  | currentLength, argument, tmp, file =>
    if ¬ currentLength < size then
      -- the argument is too long, truncate it
      .script (cString userPath) (cString argument)
    else if endsLine tmp then .script (cString userPath) (cString (removeTrailing argument))
    else
      match file with
      | [] => .script (cString userPath) []
      | next :: file =>
        slurpArgument size userPath (currentLength + 1) (argument ++ [tmp]) next file
  termination_by structural _ _ _ file => file

/-- Slurp the interpreter path until the first space or end-of-line.  Spaces are replaced by the
end of the string. -/
def slurpPath (size : Nat) : (currentLength : Nat) → (userPath : CString) → (tmp : Char) →
    (file : CString) → Shebang
  | currentLength, userPath, tmp, file =>
    if ¬ currentLength < size then
      -- the interpreter path is too long, truncate it
      .script (cString userPath) []
    else if endsLine tmp then .script (cString userPath) []
    else if ¬ isBlank tmp ∧ userPath.length > 1 ∧ userPath.getLast? = some nul then
      -- there is an argument
      slurpArgument size userPath currentLength [] tmp file
    else
      match file with
      -- the end of the string takes the place of the last character
      | [] => .script (cString userPath) []
      | next :: file =>
        slurpPath size (currentLength + 1) (userPath ++ [if isBlank tmp then nul else tmp]) next
          file
  termination_by structural _ _ _ file => file

def extractShebang (size : Nat) : (content : CString) → Shebang
  | '#' :: '!' :: file =>
    match skipLeading size 2 file with
    | none => .noexec
    | some (tmp, file, currentLength) => slurpPath size currentLength [] tmp file
  | _ => .notScript

/-! ## The rule of the kernel -/

/-- What is decided about a file: the argument is optional. -/
inductive Decision where
  | notScript
  | noexec
  | script (interpreter : CString) (argument : Option CString)
  deriving DecidableEq, Repr

def Shebang.decision : Shebang → Decision
  | .notScript => .notScript
  | .noexec => .noexec
  | .script userPath argument => .script userPath (if argument = [] then none else some argument)

def isTerminator (c : Char) : Bool := isBlank c ∨ c = nul

def scriptLine (line : CString) : Decision :=
  if line = [] then .noexec
  else
    let name := line.takeWhile (¬ isTerminator ·)
    match line.dropWhile (¬ isTerminator ·) with
    | [] => .script name none
    | c :: rest =>
      if isBlank c then .script name (some (cString (rest.dropWhile isBlank)))
      else .script name none

/-- The rule of the kernel: the first bytes of the file are in a buffer that is padded with zeros.
Without newline in the buffer, the interpreter has to end before the end of the buffer. -/
def binfmtScript (size : Nat) (content : CString) : Decision :=
  let buffer := (content ++ List.replicate size nul).take size
  if buffer.take 2 ≠ ['#', '!'] then .notScript
  else
    let text := buffer.drop 2
    if '\n' ∈ text then
      scriptLine (((text.takeWhile (· ≠ '\n')).rdropWhile isBlank).dropWhile isBlank)
    else if (text.dropWhile isBlank).any isTerminator then
      scriptLine ((text.dropLast.rdropWhile isBlank).dropWhile isBlank)
    else .noexec

end Improot.Execve
