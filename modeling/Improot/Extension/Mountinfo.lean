import Improot.Lib.Lines
import Improot.Path.Proc

/-!
# The mount table

The extension `mountinfo`: a tracee that opens /proc/<pid>/mountinfo gets a temporary file, with lines
of the real table and a line for each binding.  And the format of the table, as it is read.
-/

namespace Improot.Extension

open Improot.Lib Improot.Path

/-! ## The format -/

def blank (c : Char) : Bool := c = ' ' ∨ c = '\t'

def escape? (a b c : Char) : Option Char :=
  if '0' ≤ a ∧ a ≤ '3' ∧ '0' ≤ b ∧ b ≤ '7' ∧ '0' ≤ c ∧ c ≤ '7' then
    some (Char.ofNat (64 * (a.toNat - 48) + 8 * (b.toNat - 48) + (c.toNat - 48)))
  else none

def unescape : CString → CString
  | [] => []
  | '\\' :: a :: b :: c :: rest =>
    match escape? a b c with
    | some char => char :: unescape rest
    | none => '\\' :: unescape (a :: b :: c :: rest)
  | c :: rest => c :: unescape rest

/-- A line of the table, as it is read: the root, the mount point and the source are decoded. -/
structure MountEntry where
  id : CString
  parent : CString
  dev : CString
  root : CString
  mountPoint : CString
  options : CString
  optional : List CString
  fstype : CString
  source : CString
  superOptions : CString
  deriving DecidableEq

def separator : CString := ['-']

def parseMount (line : CString) : Option MountEntry :=
  match fields blank line with
  | id :: parent :: dev :: root :: mountPoint :: options :: rest =>
    match rest.dropWhile (· ≠ separator) with
    | [_, fstype, source, superOptions] =>
      some ⟨id, parent, dev, unescape root, unescape mountPoint, options,
        rest.takeWhile (· ≠ separator), fstype, unescape source, superOptions⟩
    | _ => none
  | _ => none

def parseTable (text : CString) : Option (List MountEntry) := parseLines '\n' parseMount [] text

/-! ## The real table -/

/-- A field of the real table: the kernel has escaped blanks and newlines. -/
structure MountField where
  chars : CString
  isField : IsField blank chars
  oneLine : '\n' ∉ chars

structure MountLine where
  id : MountField
  parent : MountField
  dev : MountField
  root : MountField
  mountPoint : MountField
  options : MountField
  optional : List MountField
  fstype : MountField
  source : MountField
  superOptions : MountField
  optional_ne : ∀ f ∈ optional, f.chars ≠ separator

def joinFields : List CString → CString
  | [] => []
  | [f] => f
  | f :: fs => f ++ ' ' :: joinFields fs

namespace MountLine

def more (l : MountLine) : List CString :=
  l.options.chars :: (l.optional.map (·.chars) ++
    [separator, l.fstype.chars, l.source.chars, l.superOptions.chars])

def text (l : MountLine) : CString :=
  joinFields (l.id.chars :: l.parent.chars :: l.dev.chars :: l.root.chars :: l.mountPoint.chars ::
    l.more)

def entry (l : MountLine) : MountEntry where
  id := l.id.chars
  parent := l.parent.chars
  dev := l.dev.chars
  root := unescape l.root.chars
  mountPoint := unescape l.mountPoint.chars
  options := l.options.chars
  optional := l.optional.map (·.chars)
  fstype := l.fstype.chars
  source := unescape l.source.chars
  superOptions := l.superOptions.chars

end MountLine

/-! ## mountinfo_check_open_path -/

/-- `strchr` for a space. -/
def toSpace (s : CString) : CString := s.dropWhile (· ≠ ' ')

/-- Skips columns: what is skipped, and what comes after; none when `strchr` finds nothing. -/
def skipColumns : Nat → CString → Option (CString × CString)
  | 0, chunk => some ([], chunk)
  | n + 1, chunk =>
    -- `chunk - line < line_len`
    if chunk = [] then some ([], [])
    else
      match toSpace chunk with
      | [] => none
      | c :: rest =>
        (skipColumns n rest).map fun (before, chunk') =>
          (chunk.takeWhile (· ≠ ' ') ++ c :: before, chunk')

/-- What is before the mount point, the mount point and what comes after it, to the end of the line
that `getline` returns. -/
def mountPointColumn (line : CString) : Option (CString × CString × CString) :=
  match skipColumns 4 line with
  | none => none
  | some (before, chunk) =>
    match toSpace chunk with
    | [] => none
    | chunkEnd => some (before, chunk.takeWhile (· ≠ ' '), chunkEnd)

/-- The line of "/data", as the one of "/": only the first character of the column is kept. -/
def rootLine (line : CString) : Option CString :=
  match mountPointColumn line with
  | none => none
  | some (before, mountPoint, chunkEnd) =>
    if mountPoint = "/data".toList then some (before ++ mountPoint.take 1 ++ chunkEnd) else none

def standard (mountPoint : CString) : Bool :=
  mountPoint = "/dev".toList ∨ "/dev/".toList <+: mountPoint ∨ mountPoint = "/proc".toList ∨
    mountPoint = "/sys".toList ∨ "/sys/".toList <+: mountPoint ∨ mountPoint = "/tmp".toList

def isStandardLine (line : CString) : Bool :=
  match mountPointColumn line with
  | none => false
  | some (_, mountPoint, _) => standard mountPoint

/-- A tracee whose table is asked for: the host path of its root, as `translate_path` tells it, and
its guest bindings. -/
structure MountTarget where
  root : CString
  guest : List Binding

namespace MountTarget

def isAndroidData (t : MountTarget) : Bool :=
  comparePaths t.root "/data".toList = .path2IsPrefix ∨
    comparePaths t.root "/data".toList = .pathsAreEqual

def extra (t : MountTarget) : List Binding := t.guest.filter (·.guest ≠ ['/'])

end MountTarget

def bindingText (id : Nat) (b : Binding) : CString :=
  Nat.toDigits 10 id ++ " 1 0:1 / ".toList ++ b.guest ++ " rw,relatime - bind ".toList ++ b.host ++
    " rw,relatime".toList

/-- The ids from `next_id` on. -/
def numbered {α : Type} (f : Nat → Binding → α) : Nat → List Binding → List α
  | _, [] => []
  | id, b :: bs => f id b :: numbered f (id + 1) bs

def appendRuntimeBindingLines (t : MountTarget) : CString :=
  unlines '\n' (numbered bindingText 1000000 t.extra)

/-- The lines of the real table that are written; none when the one of "/data" isn't found. -/
def writtenLines (t : MountTarget) (lines : List CString) : Option CString :=
  if t.isAndroidData then
    (lines.findSome? rootLine).map fun line => line ++ (lines.filter isStandardLine).flatten
  else some lines.flatten

/-- What the extension finds: the tracees by pid, the real tables, the path of a temporary file that
it can write to, and how many bytes there is room for. -/
structure MountWorld where
  target? : Nat → Option MountTarget
  real? : CString → Option (List MountLine)
  temp? : Option CString
  room : Nat

def strtol (s : CString) : Int × CString := (scanInt s).getD (0, s)

def mountinfoPid? (path : CString) : Option Nat :=
  let len := path.length
  if len > 6 + 10 ∧ path.take 6 = "/proc/".toList ∧ path.drop (len - 10) = "/mountinfo".toList then
    let (pid, pathEnd) := strtol (path.drop 6)
    if pathEnd ≠ path.drop (len - 10) ∨ pid ≤ 0 ∨ pid > 2 ^ 31 - 1 then none else some pid.toNat
  else none

namespace MountWorld

/-- `mountinfo_check_open_path`: the path that is opened in place of the real one, and what is in the
file; none when the open stays on the real file. -/
def checkOpenPath (w : MountWorld) (path : CString) : Option (CString × CString) := do
  let pid ← mountinfoPid? path
  let target ← w.target? pid
  if ¬ target.isAndroidData ∧ target.extra = [] then none
  else
    let table ← w.real? path
    let newPath ← w.temp?
    -- each line as `getline` returns it
    let written ← writtenLines target (table.map fun l => l.text ++ ['\n'])
    return (newPath, (written ++ appendRuntimeBindingLines target).take w.room)

end MountWorld

end Improot.Extension
