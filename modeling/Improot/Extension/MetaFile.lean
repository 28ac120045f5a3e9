import Improot.Extension.Credentials
import Improot.Path.Ending

/-!
# Emulated ownership in side files

With `USERLAND`, `fake_id0` keeps the mode, the owner and the group of a file in a side file, whose
name is the one of the file behind a tag.  The handlers read, write, move and remove the side files
when a call is entered; the call itself comes after.
-/

namespace Improot.Extension

open Improot.Path

/-- A `mode_t`. -/
abbrev Mode := BitVec 32

/-- An `int`. -/
abbrev CInt := BitVec 32

/-! ## Octal numbers in decimal digits -/

/-- The loop of `dtoo`.  An `int` has at most eleven octal digits. -/
def dtooLoop : Nat → CInt → CInt → CInt → CInt
  | 0, _, _, octal => octal
  | fuel + 1, n, i, octal =>
    if n = 0 then octal else dtooLoop fuel (n.sdiv 8) (i * 10) (octal + n.srem 8 * i)

/-- `dtoo`: the octal digits of a number, read in base ten. -/
def dtoo (n : CInt) : CInt := dtooLoop 11 n 1 0

/-- The loop of `otod`.  An `int` has at most ten decimal digits. -/
def otodLoop : Nat → CInt → Nat → CInt → CInt
  | 0, _, _, decimal => decimal
  | fuel + 1, n, i, decimal =>
    if n = 0 then decimal
    else otodLoop fuel (n.sdiv 10) (i + 1) (decimal + n.srem 10 * 8 ^ i)

/-- `otod`: the decimal digits of a number, read in base eight. -/
def otod (n : CInt) : CInt := otodLoop 10 n 0 0

/-! ## The disk -/

abbrev FileId := Nat

inductive FileKind where
  | regular
  | directory
  /-- A symbolic link to nothing. -/
  | dangling
  deriving DecidableEq

structure MetaText where
  mode : CInt
  owner : Id
  group : Id
  deriving DecidableEq

abbrev Entry := FileId × CString

/-- **The files of the host.**  `text` is what `fscanf` finds in a file, and `next` the first inode
that is not in use. -/
structure Disk where
  entry : Entry → Option FileId
  kind : FileId → FileKind
  text : FileId → MetaText
  next : FileId
  bound : ∀ k id, entry k = some id → id < next
  fresh : ∀ k, next ≤ k.1 → entry k = none
  blank : ∀ id, next ≤ id → kind id = .regular

namespace Disk

theorem lt_of_directory (d : Disk) {id : FileId} (h : d.kind id = .directory) : id < d.next := by
  by_contra hlt
  rw [d.blank id (Nat.le_of_not_lt hlt)] at h
  cases h

def walk (d : Disk) (id : FileId) : List Component → Option FileId
  | [] => some id
  | n :: names =>
    if d.kind id = .directory then (d.entry (id, n.chars)).bind fun id => d.walk id names else none

def root : FileId := 0

def dirAt (d : Disk) (names : List Component) : Option FileId :=
  (d.walk root names).filter fun id => d.kind id = .directory

def create (d : Disk) (k : Entry) (kind : FileKind) (text : MetaText) : Option Disk :=
  if h : d.entry k = none ∧ d.kind k.1 = .directory then
    some
      { entry := Function.update d.entry k (some d.next)
        kind := Function.update d.kind d.next kind
        text := Function.update d.text d.next text
        next := d.next + 1
        bound := by
          intro j id hj
          by_cases hjk : j = k
          · subst hjk
            simp only [Function.update_self, Option.some.injEq] at hj
            exact hj ▸ Nat.lt_succ_self _
          · rw [Function.update_of_ne hjk] at hj
            exact Nat.lt_succ_of_lt (d.bound j id hj)
        fresh := by
          intro j hj
          have hjk : j ≠ k := by
            rintro rfl
            exact Nat.not_le.mpr (d.lt_of_directory h.2) (Nat.le_of_succ_le hj)
          rw [Function.update_of_ne hjk]
          exact d.fresh j (Nat.le_of_succ_le hj)
        blank := by
          intro id hid
          rw [Function.update_of_ne (Nat.ne_of_gt hid)]
          exact d.blank id (Nat.le_of_succ_le hid) }
  else none

def remove (d : Disk) (k : Entry) : Disk :=
  { d with
    entry := Function.update d.entry k none
    bound := by
      intro j id hj
      by_cases hjk : j = k
      · subst hjk
        simp at hj
      · rw [Function.update_of_ne hjk] at hj
        exact d.bound j id hj
    fresh := by
      intro j hj
      by_cases hjk : j = k
      · subst hjk
        simp
      · rw [Function.update_of_ne hjk]
        exact d.fresh j hj }

/-- A file gets another name, in place of the file of that name: rename(2).  Nothing happens when
both names are already those of one file. -/
def rename (d : Disk) (k k' : Entry) : Option Disk :=
  match hk : d.entry k with
  | none => none
  | some id =>
    if d.entry k' = some id then some d
    else if h : d.kind k'.1 = .directory then
      some
        { d with
          entry := Function.update (Function.update d.entry k' (some id)) k none
          bound := by
            intro j id' hj
            by_cases hjk : j = k
            · subst hjk
              simp at hj
            · rw [Function.update_of_ne hjk] at hj
              by_cases hjk' : j = k'
              · subst hjk'
                simp only [Function.update_self, Option.some.injEq] at hj
                exact hj ▸ d.bound k id hk
              · rw [Function.update_of_ne hjk'] at hj
                exact d.bound j id' hj
          fresh := by
            intro j hj
            by_cases hjk : j = k
            · subst hjk
              simp
            · have hjk' : j ≠ k' := by
                rintro rfl
                exact Nat.not_le.mpr (d.lt_of_directory h) hj
              rw [Function.update_of_ne hjk, Function.update_of_ne hjk']
              exact d.fresh j hj }
    else none

def rewrite (d : Disk) (id : FileId) (text : MetaText) : Disk :=
  { d with text := Function.update d.text id text }

end Disk

/-! ## Paths -/

/-- A translated path: `canonicalize` remembers how the user's path ended. -/
structure HostPath where
  names : List Component
  finality : Finality
  deriving DecidableEq

namespace HostPath

def text (p : HostPath) : CString := withEnding p.names p.finality

/-- `get_dir_path`: what comes before the last component, where a final "." counts as one. -/
def getDirPath (p : HostPath) : List Component :=
  match p.finality with
  | .finalDot => p.names
  | .notFinal | .finalNormal | .finalSlash => p.names.dropLast

/-- `get_name`: what comes after the last slash. -/
def getName (p : HostPath) : CString :=
  match p.finality with
  | .finalDot => ['.']
  | .finalSlash => []
  | .notFinal | .finalNormal => (p.names.getLast?.map (·.chars)).getD []

def entry (p : HostPath) (d : Disk) : Option Entry :=
  p.names.getLast?.bind fun n => (d.dirAt p.names.dropLast).map fun id => (id, n.chars)

/-- `path_exists`: access(2) follows symbolic links, and takes a trailing slash for a directory. -/
def exists? (p : HostPath) (d : Disk) : Bool :=
  match d.walk Disk.root p.names with
  | none => false
  | some id =>
    match p.finality with
    | .finalDot | .finalSlash => d.kind id = .directory
    | .notFinal | .finalNormal => d.kind id ≠ .dangling

end HostPath

/-- The path of a directory, as `get_dir_path` leaves it. -/
def dirPath (names : List Component) : HostPath := ⟨names, .finalNormal⟩

/-! ## Side files -/

def metaTag : CString := ".proot-meta-file.".toList

/-- The path of a side file: its directory and its name. -/
structure MetaPath where
  dir : List Component
  name : CString
  deriving DecidableEq

def getMetaPath (p : HostPath) : Except Errno MetaPath :=
  let dir := pathOf p.getDirPath
  let dir := if dir ≠ ['/'] then dir ++ ['/'] else dir
  if dir.length + p.getName.length + metaTag.length ≥ pathMax then .error .enametoolong
  else .ok ⟨p.getDirPath, metaTag ++ p.getName⟩

namespace MetaPath

def entry (m : MetaPath) (d : Disk) : Option Entry := (d.dirAt m.dir).map fun id => (id, m.name)

def file (m : MetaPath) (d : Disk) : Option FileId := (m.entry d).bind d.entry

/-- `path_exists`, of a side file. -/
def exists? (m : MetaPath) (d : Disk) : Bool := (m.file d).any fun id => d.kind id ≠ .dangling

def unlink (m : MetaPath) (d : Disk) : Disk :=
  match m.entry d, m.file d with
  | some k, some id => if d.kind id ≠ .directory then d.remove k else d
  | _, _ => d

end MetaPath

structure MetaRecord where
  mode : Mode
  owner : Id
  group : Id
  deriving DecidableEq

/-- The record in the numbers of a side file: the scan of `read_meta_file`. -/
def MetaText.record (t : MetaText) : MetaRecord := ⟨otod t.mode, t.owner, t.group⟩

/-- The numbers that record it: the print of `write_meta_file`. -/
def MetaRecord.text (r : MetaRecord) : MetaText := ⟨dtoo r.mode, r.owner, r.group⟩

structure Caller where
  config : Config
  umask : Mode
  bindings : Bindings

namespace Caller

def euid (c : Caller) : Id := c.config.uid.e

def egid (c : Caller) : Id := c.config.gid.e

def belongs (c : Caller) (p : HostPath) : Bool := belongsToGuestfs c.bindings p.text

end Caller

def readMetaFile (d : Disk) (c : Caller) (m : MetaPath) : MetaRecord :=
  match m.file d with
  | some id => if d.kind id ≠ .dangling then (d.text id).record else ⟨otod 755, c.euid, c.egid⟩
  | none => ⟨otod 755, c.euid, c.egid⟩

/-- The mode that `write_meta_file` records for a new file. -/
def creationMode (c : Caller) (mode : Mode) : Mode := mode &&& ~~~c.umask &&& 0o777

/-- `write_meta_file`: `fopen` may fail for reasons of the host, `writable` tells. -/
def writeMetaFile (d : Disk) (m : MetaPath) (r : MetaRecord) (writable : Bool) :
    Except Errno Disk :=
  if ¬ writable then .error .eperm
  else
    match m.file d with
    | some id => if d.kind id = .regular then .ok (d.rewrite id r.text) else .error .eperm
    | none =>
      match (m.entry d).bind fun k => d.create k .regular r.text with
      | some d => .ok d
      | none => .error .eperm

/-! ## Permissions -/

/-- `get_permissions`, with the effective ids. -/
def getPermissions (d : Disk) (c : Caller) (m : MetaPath) : CInt :=
  let r := readMetaFile d c m
  let omode := dtoo r.mode
  let omode :=
    if c.euid = r.owner ∨ c.euid = 0 then (omode.sdiv 10).sdiv 10
    else if c.egid = r.group then omode.sdiv 10
    else omode
  let omode := omode.srem 10
  if c.euid = 0 then omode ||| 6 else omode

def checkDir (d : Disk) (c : Caller) (names : List Component) (perm : CInt) : Except Errno Unit :=
  match getMetaPath (dirPath names) with
  | .error e => .error e
  | .ok m => if getPermissions d c m &&& perm ≠ perm then .error .eacces else .ok ()

/-- The loop of `check_dir_perms`, over the components from the last one: up to the directory `rel`,
or until the path leaves the root of the guest.  `rel` is never empty, so "/" ends the loop. -/
def climb (d : Disk) (c : Caller) (rel : CString) : List Component → Except Errno Unit
  | [] => .ok ()
  | n :: up =>
    let shorten := pathOf (n :: up).reverse
    if shorten = rel ∨ shorten.length ≤ rel.length then .ok ()
    else if ¬ c.belongs (dirPath up.reverse) then .ok ()
    else
      match checkDir d c up.reverse 1 with
      | .error e => .error e
      | .ok () => climb d c rel up

/-- The types of `check_dir_perms`. -/
inductive Access where
  | r
  | w

/-- `check_dir_perms`, of a path in the directory `dir`. -/
def checkDirPerms (d : Disk) (c : Caller) (type : Access) (dir : List Component) (rel : CString) :
    Except Errno Unit :=
  match checkDir d c dir (match type with | .w => 2 | .r => 1) with
  | .error e => .error e
  | .ok () => climb d c rel dir.reverse

/-! ## The handlers -/

/-- What becomes of the call: it goes on, it is replaced with getuid(2), or it is refused. -/
inductive Verdict where
  | go
  | drop
  | refuse (errno : Errno)
  deriving DecidableEq

def oCreat : BitVec 64 := 0o100

def oAccmode : BitVec 64 := 3

/-- The flags ask for a new file; creat(2) has none, and does. -/
def creates (flags : Option (BitVec 64)) : Bool := flags.getD oCreat &&& oCreat = oCreat

def createChecks (d : Disk) (c : Caller) (p : HostPath) (rel : Except Errno CString) :
    Except Errno MetaPath := do
  let m ← getMetaPath p
  let rel ← rel
  checkDirPerms d c .w p.getDirPath rel
  return m

def makeMeta (d : Disk) (c : Caller) (m : MetaPath) (mode : Mode) (writable : Bool) :
    Disk × Verdict :=
  match writeMetaFile d m ⟨creationMode c mode, c.euid, c.egid⟩ writable with
  | .error e => (d, .refuse e)
  | .ok d => (d, .go)

def openChecks (d : Disk) (c : Caller) (p : HostPath) (m : MetaPath) (rel : CString)
    (flags : Option (BitVec 64)) : Except Errno Unit := do
  checkDirPerms d c .r p.getDirPath rel
  let perms := getPermissions d c m
  let mode := flags.getD oCreat &&& oAccmode
  if (mode = 1 ∧ perms &&& 2 ≠ 2) ∨ (mode = 0 ∧ perms &&& 4 ≠ 4) ∨ (mode = 2 ∧ perms &&& 6 ≠ 6) then
    throw .eacces

def handleOpen (d : Disk) (c : Caller) (p : HostPath) (rel : Except Errno CString)
    (flags : Option (BitVec 64)) (mode : Mode) (writable : Bool) : Disk × Verdict :=
  if ¬ c.belongs p then (d, .go)
  else
    match getMetaPath p with
    | .error e => (d, .refuse e)
    | .ok m =>
      if ¬ m.exists? d ∧ ¬ creates flags then (d, .go)
      else if creates flags ∧ ¬ p.exists? d then
        match createChecks d c p rel with
        | .error e => (d, .refuse e)
        | .ok m => makeMeta d c m mode writable
      else
        match rel with
        | .error e => (d, .refuse e)
        | .ok rel =>
          match openChecks d c p m rel flags with
          | .error e => (d, .refuse e)
          | .ok () => (d, .go)

def handleMk (d : Disk) (c : Caller) (p : HostPath) (rel : Except Errno CString) (mode : Mode)
    (writable : Bool) : Disk × Verdict :=
  if ¬ c.belongs p then (d, .go)
  else if p.exists? d then (d, .go)
  else
    match createChecks d c p rel with
    | .error e => (d, .refuse e)
    | .ok m => makeMeta d c m mode writable

def handleUnlink (d : Disk) (c : Caller) (p : HostPath) (rel : Except Errno CString) :
    Disk × Verdict :=
  if ¬ c.belongs p then (d, .go)
  else
    match createChecks d c p rel with
    | .error e => (d, .refuse e)
    | .ok m => (if m.exists? d then m.unlink d else d, .go)

/-- What `handle_rename_enter_end` asks for. -/
def renameChecks (d : Disk) (c : Caller) (old new : HostPath) (oldRel newRel : Except Errno CString) :
    Except Errno MetaPath := do
  let oldRel ← oldRel
  let newRel ← newRel
  checkDirPerms d c .w old.getDirPath oldRel
  checkDirPerms d c .w new.getDirPath newRel
  getMetaPath old

def handleRename (d : Disk) (c : Caller) (old new : HostPath) (oldRel newRel : Except Errno CString)
    (writable : Bool) : Disk × Verdict :=
  if ¬ c.belongs old then (d, .go)
  else if ¬ c.belongs new then (d, .go)
  else
    match renameChecks d c old new oldRel newRel with
    | .error e => (d, .refuse e)
    | .ok m =>
      if ¬ m.exists? d then (d, .go)
      else
        let r := readMetaFile d c m
        let d := m.unlink d
        match getMetaPath new with
        | .error e => (d, .refuse e)
        | .ok m' =>
          match writeMetaFile d m' r writable with
          | .error e => (d, .refuse e)
          | .ok d => (d, .go)

/-- What `handle_chmod_enter_end` asks for, with the side file that is there to change.  A path that
is too long is not reported: what stands for the side file is then the directory, which exists but
cannot be written, whoever its owner is taken for. -/
def chmodChecks (d : Disk) (c : Caller) (p : HostPath) (rel : Except Errno CString) :
    Except Errno (Option MetaPath) :=
  match getMetaPath p with
  | .error _ =>
    if (d.dirAt p.getDirPath).isNone then .ok none
    else do
      let rel ← rel
      checkDirPerms d c .r p.getDirPath rel
      throw .eperm
  | .ok m =>
    if ¬ m.exists? d then .ok none
    else do
      let rel ← rel
      checkDirPerms d c .r p.getDirPath rel
      let r := readMetaFile d c m
      if c.euid ≠ r.owner ∧ c.euid ≠ 0 then throw .eperm else return some m

def handleChmod (d : Disk) (c : Caller) (p : HostPath) (rel : Except Errno CString) (mode : Mode)
    (writable : Bool) : Disk × Verdict :=
  if ¬ c.belongs p then (d, .drop)
  else
    match chmodChecks d c p rel with
    | .error e => (d, .refuse e)
    | .ok none => (d, .go)
    | .ok (some m) =>
      let r := readMetaFile d c m
      match writeMetaFile d m { r with mode := mode } writable with
      | .error e => (d, .refuse e)
      | .ok d => (d, .drop)

/-- What `handle_chown_enter_end` asks for, with the side file that is there to change. -/
def chownChecks (d : Disk) (c : Caller) (p : HostPath) (rel : Except Errno CString) :
    Except Errno (Option MetaPath) := do
  let m ← getMetaPath p
  if ¬ m.exists? d then return none
  else
    let rel ← rel
    checkDirPerms d c .r p.getDirPath rel
    let r := readMetaFile d c m
    if c.euid ≠ 0 ∧ c.euid ≠ r.owner then throw .eperm else return some m

/-- The record that `handle_chown_enter_end` writes: only the owner may be left out. -/
def chownRecord (c : Caller) (r : MetaRecord) (owner group : Id) : MetaRecord :=
  let owner := if owner = unsetId then r.owner else owner
  if c.euid = 0 then ⟨r.mode, owner, group⟩ else ⟨r.mode, r.owner, group⟩

/-- `handle_chown_enter_end`: the result of the write is not looked at. -/
def handleChown (d : Disk) (c : Caller) (p : HostPath) (rel : Except Errno CString)
    (owner group : Id) (writable : Bool) : Disk × Verdict :=
  if ¬ c.belongs p then (d, .drop)
  else
    match chownChecks d c p rel with
    | .error e => (d, .refuse e)
    | .ok none => (d, .go)
    | .ok (some m) =>
      match writeMetaFile d m (chownRecord c (readMetaFile d c m) owner group) writable with
      | .error _ => (d, .drop)
      | .ok d => (d, .drop)

/-! ## Calls -/

/-- A call that `handle_sysenter_end` has a case for, and renameat2(2), that it has none for. A
directory that the path is relative to comes as its path, a file that is changed through a
descriptor with its inode. -/
inductive FileCall where
  | openat (path : HostPath) (rel : Except Errno CString) (flags : Option (BitVec 64)) (mode : Mode)
  | mknod (path : HostPath) (rel : Except Errno CString) (kind : FileKind) (mode : Mode)
  | unlink (path : HostPath) (rel : Except Errno CString)
  | rename (old new : HostPath) (oldRel newRel : Except Errno CString)
  | renameat2 (old new : HostPath)
  | chmod (path : HostPath) (fd : Option FileId) (rel : Except Errno CString) (mode : Mode)
  | chown (path : HostPath) (fd : Option FileId) (rel : Except Errno CString) (owner group : Id)

def handleSysenterEnd (d : Disk) (c : Caller) (writable : Bool) : FileCall → Disk × Verdict
  | .openat p rel flags mode => handleOpen d c p rel flags mode writable
  | .mknod p rel _ mode => handleMk d c p rel mode writable
  | .unlink p rel => handleUnlink d c p rel
  | .rename old new oldRel newRel => handleRename d c old new oldRel newRel writable
  | .renameat2 _ _ => (d, .go)
  | .chmod p _ rel mode => handleChmod d c p rel mode writable
  | .chown p _ rel owner group => handleChown d c p rel owner group writable

end Improot.Extension
