import Improot.Lib.Entries
import Improot.Path.Basic
import Mathlib.Data.List.DropRight

/-!
# Faked hard links

`link2symlink` makes a symbolic link where the guest wants a hard link: the file is moved to a
*final* name, an *intermediate* link leads to it, and the names of the guest are links to the
intermediate one.  The final name ends with the number of links.
-/

namespace Improot.Extension

/-! ## Files -/

inductive LinkKind where
  | file
  | directory
  | link (target : CString)
  deriving DecidableEq

abbrev LinkDisk := Lib.Entries CString LinkKind

namespace LinkDisk

variable (d : LinkDisk)

/-- `my_readlink`. -/
def readlink (path : CString) : Option CString :=
  match d.file path with
  | some ⟨_, .link target⟩ => some target
  | _ => none

/-- `l2s_rename`, or nothing when it fails: on its own, because the file is not there, or because a
directory and another file are in each other's way. -/
def rename (fails : Option Errno) (old new : CString) : Option LinkDisk :=
  match fails, d.file old, d.file new with
  | some _, _, _ => none
  | none, none, _ => none
  | none, some _, none => some (d.move old new)
  | none, some f, some g =>
    if f.kind = .directory ↔ g.kind = .directory then some (d.move old new) else none

/-- `l2s_unlink`. -/
def unlink (fails : Option Errno) (path : CString) : Option LinkDisk :=
  match fails, d.file path with
  | some _, _ => none
  | none, none => none
  | none, some f => if f.kind = .directory then none else some (d.remove path)

def symlink (fails : Option Errno) (target path : CString) : Except Errno LinkDisk :=
  match fails, d.file path with
  | some e, _ => .error e
  | none, some _ => .error .eexist
  | none, none => .ok (d.create path (.link target))

/-- `l2s_symlink`: an existing entry is removed first, so that a failure may leave another disk. -/
def replaceLink (unlinkFails fails : Option Errno) (target path : CString) :
    Except LinkDisk LinkDisk :=
  let d := (d.unlink unlinkFails path).getD d
  match d.symlink fails target path with
  | .error _ => .error d
  | .ok d => .ok d

end LinkDisk

/-! ## Names -/

/-- How the extension is configured: with `USERLAND`, and with `PROOT_L2S_DIR`. -/
structure Linker where
  userland : Bool
  directory : Option CString

namespace Linker

/-- `PREFIX`. -/
def hiddenTag (l : Linker) : CString := if l.userland then ".proot.l2s.".toList else ".l2s.".toList

def baseName (path : CString) : CString := path.rtakeWhile (· ≠ '/')

/-- A name that starts with `PREFIX`. -/
def isHidden (l : Linker) (path : CString) : Bool := l.hiddenTag.isPrefixOf (baseName path)

/-- What `"%04d"` prints. -/
def print04 (n : Int) : CString :=
  match n with
  | .ofNat n => (Nat.toDigits 10 n).leftpad 4 '0'
  | .negSucc n => '-' :: (Nat.toDigits 10 (n + 1)).leftpad 3 '0'

def digitsValue (s : CString) : Nat := Nat.ofDigitChars 10 (s.takeWhile (·.isDigit)) 0

def isSpace (c : Char) : Bool := c = ' ' ∨ (9 ≤ c.toNat ∧ c.toNat ≤ 13)

def atoi (s : CString) : Int :=
  match s.dropWhile isSpace with
  | '-' :: s => - digitsValue s
  | '+' :: s => digitsValue s
  | s => digitsValue s

def linkCount (final : CString) : Int := atoi (final.drop (final.length - 4))

def withCount (final : CString) (count : Int) : CString :=
  final.take (final.length - 4) ++ print04 count

def stem (l : Linker) (original : CString) : CString :=
  match l.directory with
  | some directory => directory ++ '/' :: l.hiddenTag ++ baseName original
  | none => original.rdropWhile (· ≠ '/') ++ l.hiddenTag ++ baseName original

def intermediate (l : Linker) (original : CString) (n : Nat) : CString :=
  l.stem original ++ print04 n

def firstFinal (intermediate : CString) : CString := intermediate ++ ".0002".toList

def tooLong (l : Linker) (original : CString) : Bool :=
  match l.directory with
  | some directory =>
    directory.length + l.hiddenTag.length + (baseName original).length + 11 ≥ pathMax
  | none => l.hiddenTag.length + original.length + 5 ≥ pathMax

end Linker

/-! ## The calls, and how they fail -/

/-- The calls of `decrement_link_count`. -/
inductive DecrementCall where
  | stat
  | rename
  | renameNotify
  | unlinkIntermediate
  | replaceIntermediate
  | symlinkIntermediate
  | unlinkFinal
  | unlinkNotify
  deriving DecidableEq

/-- The calls of `move_and_symlink_path`; `replaceIntermediate` is the removal that `l2s_symlink`
starts with, the last four undo what was done. -/
inductive LinkCall where
  | targetStat
  | originalStat
  | openDirectory
  | intermediateStat (n : Nat)
  | finalStat (n : Nat)
  | rename
  | renameNotify
  | unlinkIntermediate
  | replaceIntermediate
  | symlinkIntermediate
  | symlinkOriginal
  | symlinkTarget
  | restoreUnlink
  | restoreRename
  | restoreIntermediate
  | decrement (call : DecrementCall)
  deriving DecidableEq

inductive LinkOutcome where
  | failed (e : Errno)
  | done
  | overrun
  deriving DecidableEq

/-- `original` leads to an intermediate, and that to a final name. -/
def convertedTo (l : Linker) (d : LinkDisk) (original : CString) : Option (CString × CString) :=
  match d.readlink original with
  | none => none
  | some intermediate =>
    if l.isHidden intermediate then (d.readlink intermediate).map (intermediate, ·) else none

/-! ## Removing a link -/

/-- `decrement_link_count`, with one link left. -/
def renumber (fails : DecrementCall → Option Errno) (d : LinkDisk)
    (intermediate final newFinal : CString) : LinkOutcome × LinkDisk :=
  match d.rename (fails .rename) final newFinal with
  | none => (.failed .eperm, d)
  | some d =>
    match fails .renameNotify with
    | some e => (.failed e, d)
    | none =>
      match d.unlink (fails .unlinkIntermediate) intermediate with
      | none => (.failed .eperm, d)
      | some d =>
        match d.replaceLink (fails .replaceIntermediate) (fails .symlinkIntermediate) newFinal
            intermediate with
        | .error d => (.failed .eperm, d)
        | .ok d => (.done, d)

/-- `decrement_link_count`, with the last link. -/
def removeLast (fails : DecrementCall → Option Errno) (d : LinkDisk)
    (intermediate final : CString) : LinkOutcome × LinkDisk :=
  match d.unlink (fails .unlinkIntermediate) intermediate with
  | none => (.failed .eperm, d)
  | some d =>
    match d.unlink (fails .unlinkFinal) final with
    | none => (.failed .eperm, d)
    | some d =>
      match fails .unlinkNotify with
      | some e => (.failed e, d)
      | none => (.done, d)

def decrementLinkCount (l : Linker) (fails : DecrementCall → Option Errno) (d : LinkDisk)
    (original : CString) : LinkOutcome × LinkDisk :=
  if original.length + 1 ≥ pathMax then (.failed .enametoolong, d)
  else if (fails .stat).isSome then (.done, d)
  else
    match convertedTo l d original with
    | none => (.done, d)
    | some (intermediate, final) =>
      if final.length < 4 then (.overrun, d)
      else
        let count := Linker.linkCount final - 1
        if count > 0 then
          renumber fails d intermediate final (Linker.withCount final count)
        else removeLast fails d intermediate final

/-! ## Adding a link -/

/-- The search of a free number: the last one is taken in any case. -/
def searchNumber (occupied : Nat → Bool) : (more : Nat) → (n : Nat) → Nat
  | 0, n => n
  | more + 1, n => if occupied n then searchNumber occupied more (n + 1) else n

def occupied (l : Linker) (fails : LinkCall → Option Errno) (d : LinkDisk) (original : CString)
    (n : Nat) : Bool :=
  ((fails (.intermediateStat n)).isNone ∧ (d.file (l.intermediate original n)).isSome) ∨
    ((fails (.finalStat n)).isNone ∧
      (d.file (Linker.firstFinal (l.intermediate original n))).isSome)

def linkFirst (fails : LinkCall → Option Errno) (d : LinkDisk)
    (original target intermediate final : CString) : LinkOutcome × LinkDisk :=
  match d.rename (fails .rename) original final with
  | none => (.failed .eperm, d)
  | some d =>
    match fails .renameNotify with
    | some e => (.failed e, d)
    | none =>
      match d.replaceLink (fails .replaceIntermediate) (fails .symlinkIntermediate) final
          intermediate with
      | .error d => (.failed .eperm, d)
      | .ok d =>
        match d.symlink (fails .symlinkOriginal) intermediate original with
        | .error _ => (.failed .eperm, d)
        | .ok d =>
          match d.symlink (fails .symlinkTarget) intermediate target with
          | .error e =>
            -- what was done is undone, and nothing is said when that fails
            let d := (d.unlink (fails .restoreUnlink) original).getD d
            let d := (d.rename (fails .restoreRename) final original).getD d
            let d := (d.unlink (fails .restoreIntermediate) intermediate).getD d
            (.failed e, d)
          | .ok d => (.done, d)

def linkAgain (l : Linker) (fails : LinkCall → Option Errno) (d : LinkDisk)
    (original target intermediate final newFinal : CString) : LinkOutcome × LinkDisk :=
  match d.rename (fails .rename) final newFinal with
  | none => (.failed .eperm, d)
  | some d =>
    match fails .renameNotify with
    | some e => (.failed e, d)
    | none =>
      match d.unlink (fails .unlinkIntermediate) intermediate with
      | none => (.failed .eperm, d)
      | some d =>
        match d.replaceLink (fails .replaceIntermediate) (fails .symlinkIntermediate) newFinal
            intermediate with
        | .error d => (.failed .eperm, d)
        | .ok d =>
          match d.symlink (fails .symlinkTarget) intermediate target with
          | .error e =>
            (.failed e, (decrementLinkCount l (fun call => fails (.decrement call)) d original).2)
          | .ok d => (.done, d)

/-- `move_and_symlink_path`, for the paths that the two arguments hold. -/
def moveAndSymlinkPath (l : Linker) (fails : LinkCall → Option Errno) (d : LinkDisk)
    (original target : CString) : LinkOutcome × LinkDisk :=
  if original.length + 1 ≥ pathMax then (.failed .enametoolong, d)
  else if target.length + 1 ≥ pathMax then (.failed .enametoolong, d)
  else if (fails .targetStat).isNone ∧ (d.file target).isSome then (.failed .eexist, d)
  else
    match fails .originalStat, d.file original with
    | some e, _ => (.failed e, d)
    | none, none => (.failed .enoent, d)
    | none, some f =>
      if f.kind = .directory then (.failed .eperm, d)
      else
        match convertedTo l d original with
        | some (intermediate, final) =>
          if final.length < 4 then (.overrun, d)
          else
            let newFinal := Linker.withCount final (Linker.linkCount final + 1)
            if newFinal.length ≥ pathMax then (.overrun, d)
            else linkAgain l fails d original target intermediate final newFinal
        | none =>
          if l.tooLong original then (.failed .enametoolong, d)
          else
            match (if l.directory.isSome then fails .openDirectory else none) with
            | some e => (.failed e, d)
            | none =>
              let n := searchNumber (occupied l fails d original) 9998 1
              let intermediate := l.intermediate original n
              let final := Linker.firstFinal intermediate
              if final.length ≥ pathMax then (.overrun, d)
              else linkFirst fails d original target intermediate final

end Improot.Extension
