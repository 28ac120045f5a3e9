import Improot.Lib.Script
import Improot.Path.Proc

/-!
# Re-executing a recorded command

`care/final.c`: the script "re-execute.sh" of an archive sets the recorded command as its arguments,
and runs PRoot with the recorded environment, bindings and options. `parse_utsname` of
`kompat/kompat.c` reads the argument of the option "-k" back.
-/

namespace Improot.Extension

open Improot.Path Lib.Script

/-! ## What is recorded -/

structure EnvVar where
  name : CString
  value : CString
  wellFormed : '=' ∉ name

def EnvVar.text (e : EnvVar) : CString := e.name ++ '=' :: e.value

abbrev UtsField := { field : CString // field.length < 65 }

structure Utsname where
  sysname : UtsField
  nodename : UtsField
  release : UtsField
  version : UtsField
  machine : UtsField
  domainname : UtsField

def Utsname.fields (u : Utsname) : List CString :=
  [u.sysname.val, u.nodename.val, u.release.val, u.version.val, u.machine.val, u.domainname.val]

/-- A volatile path, and the name of its item: the path before the variable in front was expanded,
if there is one. -/
structure VolatilePath where
  name : CString
  load : CString

structure Care where
  command : List CString
  environ : List EnvVar
  volatileEnvars : List CString
  volatilePaths : List VolatilePath
  initialCwd : CString
  uname : Option Utsname
  uid : Int
  gid : Int
  lastExitStatus : Int

/-! ## The text of the script -/

def escapeQuote (input : CString) : CString :=
  input.flatMap fun c => if c = '\'' then ['\'', '\\', '\'', '\''] else [c]

def isEnvName (variable_ name : CString) : Bool :=
  variable_.head? = name.head? ∧ name.length < variable_.length ∧ variable_[name.length]? = some '=' ∧
    variable_.take name.length = name

def Care.findVolatileEnvar (care : Care) (envar : CString) : Option CString :=
  care.volatileEnvars.find? fun name => isEnvName envar name

def lineN (text : List Char) : List Char := text ++ ['\n']

/-- `C`: a line that goes on. -/
def lineC (text : List Char) : List Char := text ++ [' ', '\\', '\n']

/-- `'%s'`. -/
def singleQuoted (text : List Char) : List Char := '\'' :: (text ++ ['\''])

/-- `"%s"`. -/
def doubleQuoted (text : List Char) : List Char := '"' :: (text ++ ['"'])

def Care.envarText (care : Care) (e : EnvVar) : List Char :=
  match care.findVolatileEnvar e.text with
  | some name => singleQuoted name ++ '=' :: doubleQuoted ('$' :: name)
  | none => singleQuoted (escapeQuote e.text)

/-- The binding of a volatile path: an asymmetric one, if there is a variable in front. -/
def VolatilePath.bindingText (p : VolatilePath) : List Char :=
  doubleQuoted (if p.name.head? = some '$' then p.name ++ ':' :: p.load else p.load)

def Utsname.text (u : Utsname) : CString :=
  u.fields.flatMap (fun field => '\\' :: field) ++ ['\\', '0', '\\']

def Care.kompatText (care : Care) : List Char :=
  match care.uname with
  | none => "-k 3.17.0".toList
  | some utsname => "-k ".toList ++ singleQuoted utsname.text ++ [' ']

def headText : List Char :=
  lineN "#! /bin/sh".toList ++ lineN [] ++
  lineN "export XAUTHORITY=\"${XAUTHORITY:-$HOME/.Xauthority}\"".toList ++
  lineN "export ICEAUTHORITY=\"${ICEAUTHORITY:-$HOME/.ICEauthority}\"".toList ++ lineN [] ++
  lineN "nbargs=$#".toList

def Care.setText (care : Care) : List Char :=
  lineC "[ $nbargs -ne 0 ] || set --".toList ++
  care.command.flatMap (fun argument => lineC (singleQuoted argument)) ++ lineN []

def searchText : List Char :=
  lineN "PROOT=\"${PROOT-$(dirname $0)/proot}\"".toList ++ lineN [] ++
  lineN "if [ ! -e ${PROOT} ]; then".toList ++
  lineN "    PROOT=$(which proot)".toList ++
  lineN "fi".toList ++ lineN [] ++
  lineN "if [ -z ${PROOT} ]; then".toList ++
  lineN "    echo '**********************************************************************'".toList ++
  lineN ("    echo '\"proot\" command not found, please get it from ".toList ++
    "https://proot-me.github.io'".toList) ++
  lineN "    echo '**********************************************************************'".toList ++
  lineN "    exit 1".toList ++
  lineN "fi".toList ++ lineN [] ++
  lineN "if [ x$PROOT_NO_SECCOMP != x ]; then".toList ++
  lineN "    PROOT_NO_SECCOMP=\"PROOT_NO_SECCOMP=$PROOT_NO_SECCOMP\"".toList ++
  lineN "fi".toList ++ lineN []

def Care.envText (care : Care) : List Char :=
  lineC "env --ignore-environment".toList ++
  lineC "PROOT_IGNORE_MISSING_BINDINGS=1".toList ++
  lineC "$PROOT_NO_SECCOMP".toList ++
  care.environ.flatMap (fun e => lineC (care.envarText e ++ [' '])) ++
  lineC "\"${PROOT-$(dirname $0)/proot}\"".toList ++
  care.volatilePaths.flatMap (fun p => lineC ("-b ".toList ++ p.bindingText ++ [' '])) ++
  lineC care.kompatText ++
  lineC ("-i ".toList ++ formatInt care.uid ++ ':' :: formatInt care.gid) ++
  lineC ("-w ".toList ++ singleQuoted care.initialCwd ++ [' ']) ++
  lineC "-r \"$(dirname $0)/rootfs\"".toList ++
  lineC "-b \"$(dirname $0)/rootfs\"".toList ++
  lineN "$\x7b1+\"$@\"\x7d".toList ++ lineN []

def Care.statusText (care : Care) : List Char :=
  lineN "status=$?".toList ++
  lineN ("if [ $status -ne ".toList ++ formatInt care.lastExitStatus ++
    " ] && [ $nbargs -eq 0 ]; then".toList) ++
  lineN "echo \"care: The reproduced execution didn't return the same exit status as the\"".toList ++
  lineN "echo \"care: original execution.  If it is unexpected, please report this bug\"".toList ++
  lineN "echo \"care: to CARE/PRoot developers:\"".toList ++
  lineN "echo \"care:     * mailing list: reproducible@googlegroups.com; or\"".toList ++
  lineN ("echo \"care:     * forum: ".toList ++
    "https://groups.google.com/forum/?fromgroups#!forum/reproducible; or\"".toList) ++
  lineN ("echo \"care:     * issue tracker: ".toList ++
    "https://github.com/cedric-vincent/PRoot/issues/\"".toList) ++
  lineN "fi".toList ++ lineN [] ++
  lineN "exit $status".toList

/-- The file written by `archive_re_execute_sh`. -/
def Care.script (care : Care) : List Char :=
  headText ++ care.setText ++ searchText ++ care.envText ++ care.statusText

/-! ## Running it -/

structure Run where
  arguments : List (List Char)
  command : List Word
  /-- the fields of each "env" command that was run -/
  invoked : List (List (List Char))

def Run.start : Run := ⟨[], [], []⟩

def isSet (command : List Word) : Bool :=
  command.take 2 = [bare "set".toList, bare "--".toList]

def isEnv (command : List Word) : Bool := command.head? = some (bare "env".toList)

/-- The end of a command. The conditions only choose the value of $PROOT, and `$nbargs` is 0: "set"
is run, and so is "env" when PRoot was found. -/
def Run.finish (v : Values) (s : Run) : Run :=
  let fields := s.command.flatMap (v.fieldsOf s.arguments)
  if isSet s.command then ⟨fields.drop 2, [], s.invoked⟩
  else if isEnv s.command then ⟨s.arguments, [], s.invoked ++ [fields]⟩
  else ⟨s.arguments, [], s.invoked⟩

def Run.step (v : Values) (s : Run) : Token → Run
  | .word word => { s with command := s.command ++ [word] }
  | .operator _ => s.finish v

def Run.exec (v : Values) (s : Run) (tokens : List Token) : Run := tokens.foldl (Run.step v) s

/-- env(1) with "--ignore-environment": the assignments, and the command that is run with them. -/
def envUtility (fields : List (List Char)) : List (List Char) × List (List Char) :=
  (fields.drop 2).span fun field => '=' ∈ field

/-! ## The option "-k" -/

def isSpace (c : Char) : Bool := c ∈ [' ', '\t', '\n', '\x0b', '\x0c', '\x0d']

def hexDigit (c : Char) : Option Nat :=
  if c.isDigit then some (c.toNat - '0'.toNat)
  else if 'a' ≤ c ∧ c ≤ 'f' then some (c.toNat - 'a'.toNat + 10)
  else if 'A' ≤ c ∧ c ≤ 'F' then some (c.toNat - 'A'.toNat + 10)
  else none

def hexDigits (value : Nat) : List Char → Nat × List Char
  | [] => (value, [])
  | c :: rest =>
    match hexDigit c with
    | some digit => hexDigits (value * 16 + digit) rest
    | none => (value, c :: rest)

/-- The number without its sign: the prefix "0x" counts if a digit follows. -/
def hexNumber : List Char → Option (Nat × List Char)
  | '0' :: x :: d :: rest =>
    if (x = 'x' ∨ x = 'X') ∧ (hexDigit d).isSome then some (hexDigits 0 (d :: rest))
    else some (hexDigits 0 ('0' :: x :: d :: rest))
  | c :: rest => if (hexDigit c).isSome then some (hexDigits 0 (c :: rest)) else none
  | [] => none

/-- `strtol` with base 16: the value and what comes after it, nothing if it is out of range. -/
def strtolHex (string : List Char) : Option (Int × List Char) :=
  let trimmed := string.dropWhile isSpace
  let (negative, digits) := match trimmed with
    | '-' :: rest => (true, rest)
    | '+' :: rest => (false, rest)
    | _ => (false, trimmed)
  match hexNumber digits with
  | none => some (0, string)
  | some (n, rest) =>
    let value : Int := if negative then -n else n
    if -2 ^ 63 ≤ value ∧ value < 2 ^ 63 then some (value, rest) else none

/-- `PARSE`: the field up to the next backslash, and what comes after it. -/
def parseField (string : CString) : Option (UtsField × CString) :=
  match string.dropWhile (· ≠ '\\') with
  | [] => none
  | _ :: rest =>
    some (⟨(string.takeWhile (· ≠ '\\')).take 64,
      Nat.lt_succ_of_le (List.length_take_le 64 _)⟩, rest)

/-- `parse_utsname`: the fields and the hardware capabilities of the emulated kernel, given what
uname(2) says of the actual one. -/
def parseUtsname (utsname : Utsname) (string : CString) : Option (Utsname × BitVec 64) :=
  if string.head? = some '\\' then do
    let (sysname, rest) ← parseField string.tail
    let (nodename, rest) ← parseField rest
    let (release, rest) ← parseField rest
    let (version, rest) ← parseField rest
    let (machine, rest) ← parseField rest
    let (domainname, rest) ← parseField rest
    let (hwcap, rest) ← strtolHex rest
    if rest.head? = some '\\' then
      some (⟨sysname, nodename, release, version, machine, domainname⟩, BitVec.ofInt 64 hwcap)
    else none
  else
    let release := string.take 64
    some ({ utsname with release := ⟨release, Nat.lt_succ_of_le (List.length_take_le 64 _)⟩ }, -1)

end Improot.Extension
