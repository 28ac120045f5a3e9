import Improot.Path.Proc

/-!
# Canonicalization

`path/canon.c` and the part of `path/glue.c` it calls: the guest path is walked component by
component, every prefix is looked up on the host through the bindings, and symbolic links are
replaced by their targets.
-/

namespace Improot.Path

/-! ## Components -/

inductive Finality where
  | notFinal | finalNormal | finalSlash | finalDot
  deriving DecidableEq, Repr

def Finality.isFinal (f : Finality) : Bool := f ≠ .notFinal

/-- `while (offset > 1 && p(path[offset])) offset--;` -/
def skipBack (p : Char → Bool) (path : CString) : Nat → Nat
  | 0 => 0
  | 1 => 1
  | offset + 2 =>
    match path[offset + 2]? with
    | some c => if p c then skipBack p path (offset + 1) else offset + 2
    | none => offset + 2

def popComponent (path : CString) : CString :=
  let offset := path.length - 1
  -- don't pop over "/"
  if offset = 0 then path
  else
    let offset := skipBack (· = '/') path offset
    let offset := skipBack (· ≠ '/') path offset
    path.take offset

/-- `next_component`: the first component of the string under the cursor, how it ends, and the
cursor for a further call. -/
def nextComponent (cursor : CString) : Except Errno (Finality × CString × CString) :=
  let start := cursor.dropWhile (· = '/')
  let component := start.takeWhile (· ≠ '/')
  let rest := start.dropWhile (· ≠ '/')
  if component.length ≥ nameMax then .error .enametoolong
  else
    let wantDir := rest.head? = some '/'
    let rest := rest.dropWhile (· = '/')
    let finality :=
      if rest = [] then (if wantDir then .finalSlash else .finalNormal) else .notFinal
    .ok (finality, component, rest)

/-! ## Glue -/

/-- The host after a successful `mkdir(2)` or `mknod(2)`. -/
def Host.created (h : Host) (path : CString) (type : FileType) : Host :=
  { h with lstat := fun p => if p = path then .ok type else h.lstat p }

/-- The tail of `build_glue`: bind `guestPath` to the glue directory. -/
def bindGlue (glue guestPath : CString) (type : FileType) : Comp (Option FileType) := fun w =>
  if glue.length ≥ pathMax ∨ guestPath.length ≥ pathMax then (.ok none, w)
  else
    (.ok (some type),
      { w with tracee := { w.tracee with
          bindings := insortBinding3 w.tracee.bindings glue guestPath } })

/-- `build_glue`, once the directory `glue` exists. -/
def buildGlueIn (glue guestPath hostPath : CString) (finality : Finality) (glueType : FileType) :
    Comp (Option FileType) := fun w =>
  let belongsToGluefs := comparePaths glue hostPath = .pathsAreEqual ∨
    comparePaths glue hostPath = .path1IsPrefix
  let type := if finality.isFinal then glueType else .dir
  if w.host.dontPollute ∧ ¬ belongsToGluefs then bindGlue glue guestPath type w
  else
    match w.host.make hostPath type with
    | .ok () => (.ok (some type), { w with host := w.host.created hostPath type })
    | .error e =>
      if e = .eexist ∨ finality.isFinal then (.ok (some type), w)
      else if belongsToGluefs then (.ok none, w)
      else bindGlue glue guestPath type w

/-- `build_glue`: make up the component `hostPath`, which does not exist; the type it now has, or
nothing when it could not be made. -/
def buildGlue (guestPath hostPath : CString) (finality : Finality) (glueType : FileType) :
    Comp (Option FileType) := fun w =>
  -- the temporary directory where the "glue" rootfs will lie
  match w.tracee.glue.orElse fun _ => w.host.tempDirectory with
  | none => (.ok none, w)
  | some glue =>
    buildGlueIn glue guestPath hostPath finality glueType
      { w with tracee := { w.tracee with glue := some glue } }

/-! ## Looking up a component -/

def linkerconfig : CString := ['/', 'l', 'i', 'n', 'k', 'e', 'r', 'c', 'o', 'n', 'f', 'i', 'g']

/-- The file type of a host path, with the two exceptions of `substitute_binding_stat`. -/
def hostStat (h : Host) (path : CString) : Except Errno FileType :=
  if h.skipped path then .error .enoent
  else
    match h.lstat path with
    | .error .eacces => if path = linkerconfig then .ok .dir else .error .eacces
    | r => r

def FileType.isDirOrLink (type : FileType) : Bool := type = .dir ∨ type = .lnk

/-- The host path the extensions make of `hostPath`; they are not notified during the
initialization of a binding. -/
def notifyHostPath (w : World) (isFinal : Bool) (hostPath : CString) : Except Errno CString :=
  match w.tracee.glueType with
  | some _ => .ok hostPath
  | none =>
    (notifyExtensions (fun e path => e.hostPath path isFinal) w.tracee.extensions hostPath).map
      (·.2)

/-- The type of `hostPath`; the glue is built while a binding is initialized. -/
def statOrGlue (guestPath hostPath : CString) (finality : Finality) :
    Comp (Option FileType) := fun w =>
  match hostStat w.host hostPath, w.tracee.glueType with
  | .ok type, _ => (.ok (some type), w)
  | .error _, none => (.ok none, w)
  | .error _, some glueType => buildGlue guestPath hostPath finality glueType w

/-- Is it a symlink?  An error if a non-final component isn't a directory nor a symlink. -/
def checkType (finality : Finality) : Option FileType → Except Errno Bool
  | some type =>
    if ¬ finality.isFinal ∧ ¬ type.isDirOrLink then .error .enotdir else .ok (type = .lnk)
  | none => if ¬ finality.isFinal then .error .enoent else .ok false

/-- `substitute_binding_stat`: whether `guestPath` is a symlink, and its host path. -/
def substituteBindingStat (finality : Finality) (recursionLevel : Nat) (guestPath : CString) :
    Comp (Bool × CString) := do
  let w ← Comp.get
  let (_, hostPath) ← Comp.lift (substituteBinding w.tracee.bindings .guest guestPath)
  let hostPath ← Comp.lift
    (notifyHostPath w (finality.isFinal ∧ recursionLevel = 0) hostPath)
  let type ← statOrGlue guestPath hostPath finality
  let isLink ← Comp.lift (checkType finality type)
  pure (isLink, hostPath)

/-! ## Dereferencing a link -/

/-- `sscanf(path, "/proc/%*d/fd/%d", …) == 1` -/
def isFdLink (path : CString) : Bool :=
  if path.take 6 = procDir ++ ['/'] then
    match scanInt (path.drop 6) with
    | none => false
    | some (_, rest) =>
      rest.take 4 = ['/', 'f', 'd', '/'] ∧ (scanInt (rest.drop 4)).isSome
  else false

/-- Where to look for an emulated link: `guestPath`, or the path it is an alias of when that lies
in "/proc" and `guestPath` doesn't. -/
def procBase (w : World) (guestPath : CString) : CString × Comparison :=
  let comparison := comparePaths procDir guestPath
  if comparison ≠ .pathsAreEqual ∧ comparison ≠ .path1IsPrefix then
    match substituteBinding w.tracee.bindings .guest guestPath with
    | .ok (_, aliasBase) =>
      if aliasBase ≠ guestPath then (aliasBase, comparePaths procDir aliasBase)
      else (guestPath, comparison)
    | .error _ => (guestPath, comparison)
  else (guestPath, comparison)

inductive Referee where
  /-- the string to canonicalize in place of the link -/
  | path (target : CString)
  /-- the result of the canonicalization, as it is -/
  | pinned (result : CString)
  deriving DecidableEq, Repr

/-- `readlink(2)` of the host path, detranslated. -/
def readlinkHost (w : World) (hostPath : CString) : Except Failure CString :=
  match w.host.readlink hostPath with
  | .error e => .error (.errno e)
  | .ok target =>
    if target.length ≥ pathMax then .error (.errno .enametoolong)
    else (detranslatePath w target (some hostPath)).map (·.2)

/-- The part of the loop of `canonicalize` that dereferences the link `component` of the directory
`guestPath`. -/
def dereference (w : World) (finality : Finality) (guestPath component hostPath : CString) :
    Except Failure Referee :=
  let (base, comparison) := procBase w guestPath
  -- `readlinkProc` leaves the links that are not below "/proc" alone
  match readlinkProc w base component comparison with
  | .error e => .error (.errno e)
  | .ok (.canonicalize result) => .ok (.path result)
  | .ok (.dontCanonicalize result) =>
    if finality = .finalNormal then .ok (.pinned result)
    else (readlinkHost w hostPath).map .path
  | .ok .default => (readlinkHost w hostPath).map .path

def Comp.liftFailure {α : Type} (x : Except Failure α) : Comp α := fun w => (x, w)

theorem Comp.liftFailure_bind_eq_ok {α β : Type} {x : Except Failure α} {f : α → Comp β}
    {w w' : World} {b : β} :
    (Comp.liftFailure x >>= f) w = (.ok b, w') ↔ ∃ a, x = .ok a ∧ f a w = (.ok b, w') := by
  rw [Comp.bind_run, Comp.liftFailure]
  cases x <;> simp

theorem Comp.Spec.liftFailure {α : Type} {I : World → Prop} {Q : α → Prop} {x : Except Failure α}
    (h : ∀ a, x = .ok a → Q a) : Comp.Spec I (Comp.liftFailure x) Q :=
  fun _ hw => ⟨hw, h⟩

/-! ## The walk -/

/-- The loop of `canonicalize`: how the last component ends, and the guest path.  `recurse` is the
recursive call; `fuel` bounds the number of components, which the length of the cursor does. -/
def canonicalizeLoop (recurse : CString → CString → Nat → Comp CString) (derefFinal : Bool)
    (level : Nat) : (fuel : Nat) → (cursor guestPath : CString) → (symlinksFollowed : Nat) →
    Comp (Finality × CString)
  | 0, _, _, _ => Comp.fail .abort
  | fuel + 1, cursor, guestPath, symlinksFollowed => do
    let (finality, component, cursor) ← Comp.lift (nextComponent cursor)
    if component = ['.'] then
      if finality.isFinal then pure (.finalDot, guestPath)
      else canonicalizeLoop recurse derefFinal level fuel cursor guestPath symlinksFollowed
    else if component = ['.', '.'] then
      let guestPath := popComponent guestPath
      if finality.isFinal then pure (.finalSlash, guestPath)
      else canonicalizeLoop recurse derefFinal level fuel cursor guestPath symlinksFollowed
    else
      let scratchPath ← Comp.lift (joinPaths [some guestPath, some component])
      let (isLink, hostPath) ← substituteBindingStat finality level scratchPath
      if ¬ isLink ∨ (finality = .finalNormal ∧ ¬ derefFinal) then
        let guestPath ← Comp.lift (joinPaths [some guestPath, some component])
        if finality.isFinal then pure (finality, guestPath)
        else canonicalizeLoop recurse derefFinal level fuel cursor guestPath symlinksFollowed
      else
        let w ← Comp.get
        let referee ← Comp.liftFailure (dereference w finality guestPath component hostPath)
        match referee with
        | .pinned result => pure (finality, result)
        | .path target =>
          let guestPath ← recurse target guestPath (level + (symlinksFollowed + 1))
          let (isLink, _) ← substituteBindingStat finality level guestPath
          -- shouldn't be a symlink anymore, unless it is a named file descriptor
          if isLink ∧ ¬ isFdLink guestPath then Comp.fail .abort
          else if finality.isFinal then pure (finality, guestPath)
          else
            canonicalizeLoop recurse derefFinal level fuel cursor guestPath (symlinksFollowed + 1)

/-- The exit stage of the first level of recursion: keep the initial semantic of the user path. -/
def appendFinality (level : Nat) (finality : Finality) (guestPath : CString) :
    Except Errno CString :=
  if level = 0 then
    match finality with
    | .finalSlash => joinPaths [some guestPath, some []]
    | .finalDot => joinPaths [some guestPath, some ['.']]
    | _ => .ok guestPath
  else .ok guestPath

/-- `canonicalize`, where `budget` exceeds the number of recursion levels that remain. -/
def canonicalizeAt : (budget : Nat) → (userPath : CString) → (derefFinal : Bool) →
    (guestPath : CString) → (recursionLevel : Nat) → Comp CString
  | 0, _, _, _, _ => Comp.fail (.errno .eloop)
  | budget + 1, userPath, derefFinal, guestPath, level => do
    if level > maxSymlinks then Comp.fail (.errno .eloop)
    else if guestPath.length ≥ pathMax then Comp.fail (.errno .enametoolong)
    else if userPath.head? ≠ some '/' ∧ guestPath.head? ≠ some '/' then
      Comp.fail (.errno .einval)
    else
      let guestPath := if userPath.head? ≠ some '/' then guestPath else ['/']
      let (finality, guestPath) ←
        canonicalizeLoop (fun target base => canonicalizeAt budget target true base)
          derefFinal level (userPath.length + 1) userPath guestPath 0
      Comp.lift (appendFinality level finality guestPath)

/-- `canonicalize`: the canonicalization of `userPath`, which is absolute or relative to
`guestPath`.  Each recursion raises the level, so that the budget is spent only above
`MAXSYMLINKS`, where the answer is `-ELOOP` anyway. -/
def canonicalize (userPath : CString) (derefFinal : Bool) (guestPath : CString)
    (recursionLevel : Nat) : Comp CString :=
  canonicalizeAt (maxSymlinks + 2) userPath derefFinal guestPath recursionLevel

end Improot.Path
