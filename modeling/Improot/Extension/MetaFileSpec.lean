import Improot.Extension.CredentialsSpec
import Improot.Extension.MetaDisk
import Improot.Lib.Transition

/-!
# Emulated ownership follows the files

The kernel's side of the calls, a reference that keeps a record with every file, and the exact
condition under which a run leaves the side files with the records of the files.
-/

namespace Improot.Extension

open Improot.Path Lib

/-! ## The kernel -/

def HostPath.plain (p : HostPath) : Bool :=
  match p.finality with
  | .notFinal | .finalNormal => true
  | .finalSlash | .finalDot => false

/-- A trailing slash asks for a directory, and a final "." is no name to work on. -/
def HostPath.allows (p : HostPath) (kind : FileKind) : Bool :=
  match p.finality with
  | .notFinal | .finalNormal => true
  | .finalSlash => kind = .directory
  | .finalDot => false

def HostPath.file (p : HostPath) (d : Disk) : Option FileId := (p.entry d).bind d.entry

def kernelCreate (d : Disk) (p : HostPath) (kind : FileKind) (content : MetaText) : Option Disk :=
  if p.allows kind then (p.entry d).bind fun k => d.create k kind content else none

def kernelUnlink (d : Disk) (p : HostPath) : Option Disk :=
  match p.entry d, p.file d with
  | some k, some id => if p.allows (d.kind id) then some (d.remove k) else none
  | _, _ => none

def kernelRename (d : Disk) (old new : HostPath) : Option Disk :=
  match old.entry d, new.entry d, old.file d with
  | some k, some k', some id =>
    if old.allows (d.kind id) ∧ new.allows (d.kind id) then d.rename k k' else none
  | _, _, _ => none

/-- The file whose record a call changes: the one of the descriptor, or of the path. -/
def FileCall.target (d : Disk) : FileCall → Option FileId
  | .chmod p fd _ _ | .chown p fd _ _ _ => fd <|> d.walk Disk.root p.names
  | _ => none

/-- **What the kernel can do for a call**, if nothing is against it. `content` is what a new file is
taken to hold. -/
def kernelCall (d : Disk) (content : MetaText) (call : FileCall) : Option Disk :=
  match call with
  | .openat p _ flags _ =>
    if p.exists? d then some d
    else if creates flags then kernelCreate d p .regular content
    else none
  | .mknod p _ kind _ => kernelCreate d p kind content
  | .unlink p _ => kernelUnlink d p
  | .rename old new _ _ | .renameat2 old new => kernelRename d old new
  | .chmod .. | .chown .. => (call.target d).map fun _ => d

/-! ## The reference -/

/-- The files, and a record with every file that has one. -/
structure FileState where
  disk : Disk
  own : FileId → Option MetaRecord

/-- A call of a guest. `granted` is the kernel's answer, `writable` the host's when a side file is
opened for writing. -/
structure FileEvent where
  caller : Caller
  call : FileCall
  granted : Bool
  writable : Bool
  content : MetaText

/-- The record that a permitted chmod(2) or chown(2) leaves, of a file with the record `r`: root may
change everything; the owner may change the mode, and may give the file to the group of its own. -/
def permitted (c : Caller) (r : MetaRecord) : FileCall → Option MetaRecord
  | .chmod _ _ _ mode => if c.euid = 0 ∨ c.euid = r.owner then some { r with mode := mode } else none
  | .chown _ _ _ owner group =>
    let owner := owner.orElse r.owner
    let group := group.orElse r.group
    if c.euid = 0 ∨ (c.euid = r.owner ∧ owner = r.owner ∧ (group = r.group ∨ group = c.egid)) then
      some ⟨r.mode, owner, group⟩
    else none
  | _ => none

def newRecord (c : Caller) : FileCall → Option MetaRecord
  | .openat p _ _ mode | .mknod p _ _ mode =>
    if c.belongs p then some ⟨creationMode c mode, c.euid, c.egid⟩ else none
  | _ => none

def FileState.changed (s : FileState) (e : FileEvent) : FileId → Option MetaRecord :=
  match e.call.target s.disk with
  | none => s.own
  | some id =>
    match (s.own id).bind fun r => permitted e.caller r e.call with
    | none => s.own
    | some r => Function.update s.own id (some r)

/-- The records after the kernel did its work: a file that it made gets its own. -/
def FileState.completed (s : FileState) (e : FileEvent) (d d' : Disk) : FileId → Option MetaRecord :=
  if d'.next = d.next then s.changed e
  else Function.update s.own d.next (newRecord e.caller e.call)

/-- **A call**: the handler first, then the kernel, if the call goes on. -/
def FileState.step (s : FileState) (e : FileEvent) : FileState :=
  match handleSysenterEnd s.disk e.caller e.writable e.call with
  | (d, .refuse _) => ⟨d, s.own⟩
  | (d, .drop) => ⟨d, s.changed e⟩
  | (d, .go) =>
    match (if e.granted then kernelCall d e.content e.call else none) with
    | none => ⟨d, s.own⟩
    | some d' => ⟨d', s.completed e d d'⟩

/-! ## The property -/

/-- The names, what is recorded beside them, and the records of the files. -/
def FileState.ledger (s : FileState) : Ledger Entry FileId MetaRecord := ⟨s.disk.entry, s.disk.side, s.own⟩

/-- **Ownership follows the files**: beside every name stands the record of the file of that name.
-/
def FileState.Follows (s : FileState) : Prop := s.ledger.Follows GuestEntry

/-- The files with a record exist, and have one name. -/
structure Neat (d : Disk) (own : FileId → Option MetaRecord) : Prop where
  flat : d.Flat
  once : ∀ k k' id, own id ≠ none → d.entry k = some id → d.entry k' = some id → k = k'
  born : ∀ id, own id ≠ none → id < d.next

/-- The states that runs start from: everything recorded is right, and its modes can be printed. -/
structure FileState.Orderly (s : FileState) : Prop where
  neat : Neat s.disk s.own
  follows : s.Follows
  small : ∀ k r, GuestEntry k → s.disk.side k = some r → r.mode.toNat < 8 ^ 9

def fileSystem : System FileState FileEvent where
  init := FileState.Orderly
  step s e := some (s.step e)

/-! ## The condition -/

def FileEvent.Succeeds (e : FileEvent) (d : Disk) : Prop :=
  e.granted = true ∧ (kernelCall d e.content e.call).isSome

def Unrecorded (d : Disk) (p : HostPath) : Prop :=
  ∀ k, p.entry d = some k → GuestEntry k ∧ d.side k = none

/-- **A file is made**: with a side file only if the kernel makes it under the same name. -/
def CreateSound (d : Disk) (e : FileEvent) (p : HostPath) (rel : Except Errno CString) (asked : Bool) :
    Prop :=
  if ¬ e.caller.belongs p then e.Succeeds d → p.exists? d = true ∨ Unrecorded d p
  else if asked ∧ ¬ p.exists? d then
    match createChecks d e.caller p rel with
    | .error _ => True
    | .ok m =>
      e.writable = true → (m.entry d).isSome →
        if GuestName p.getName then e.Succeeds d else ¬ e.Succeeds d
  else True

/-- **A name is removed**: with its side file only if the kernel removes it. -/
def UnlinkSound (d : Disk) (e : FileEvent) (p : HostPath) (rel : Except Errno CString) : Prop :=
  if ¬ e.caller.belongs p then e.Succeeds d → Unrecorded d p
  else
    match createChecks d e.caller p rel with
    | .error _ => True
    | .ok m =>
      if GuestName p.getName ∧ m.exists? d then e.Succeeds d else e.Succeeds d → Unrecorded d p

/-- A file is renamed without its side file: neither name has one, or both are names of one file. -/
def RenameFree (d : Disk) (e : FileEvent) (old new : HostPath) : Prop :=
  e.Succeeds d → old.file d = new.file d ∨ (Unrecorded d old ∧ Unrecorded d new)

/-- **A file is renamed**: with its side file only if that can be written and the kernel renames the
file. -/
def RenameSound (d : Disk) (e : FileEvent) (old new : HostPath) (oldRel newRel : Except Errno CString) :
    Prop :=
  if ¬ e.caller.belongs old ∨ ¬ e.caller.belongs new then RenameFree d e old new
  else
    match renameChecks d e.caller old new oldRel newRel with
    | .error _ => True
    | .ok m =>
      if ¬ m.exists? d then RenameFree d e old new
      else
        (GuestName old.getName ∧ GuestName new.getName) ∧
          (e.writable = true ∧ ∃ m', getMetaPath new = .ok m' ∧ (m'.entry d).isSome) ∧
            (e.Succeeds d ∨ old.entry d = new.entry d)

def Unaffected (s : FileState) (e : FileEvent) : Prop :=
  ∀ id r r', e.call.target s.disk = some id → s.own id = some r → permitted e.caller r e.call = some r' →
    r' = r ∨ ∀ k, GuestEntry k → s.disk.entry k ≠ some id

/-- A change that is written is one that is permitted and leaves out what is -1. -/
def ChownSound (c : Caller) (r : MetaRecord) (call : FileCall) (owner group : Id) (writable : Bool) :
    Prop :=
  if writable then
    if c.euid = 0 then group = unsetId → r.group = unsetId
    else
      group = r.group ∨ (group ≠ unsetId ∧ group = c.egid ∧ (owner = unsetId ∨ owner = r.owner))
  else ∀ r', permitted c r call = some r' → r' = r

/-- **A record changes**: the one beside the name of the file that the call is about. -/
def ChangeSound (s : FileState) (e : FileEvent) (p : HostPath) (fd : Option FileId)
    (checks : Except Errno (Option MetaPath)) (exact : MetaPath → Prop) : Prop :=
  if ¬ e.caller.belongs p then Unaffected s e
  else
    match checks with
    | .error _ => True
    | .ok none => e.Succeeds s.disk → Unaffected s e
    | .ok (some m) =>
      if GuestName p.getName then (fd = none ∨ fd = p.file s.disk) ∧ exact m else Unaffected s e

/-- **The steps that do not reach the defects.** -/
def FileState.Sound (s : FileState) (e : FileEvent) : Prop :=
  match e.call with
  | .openat p rel flags _ => CreateSound s.disk e p rel (creates flags)
  | .mknod p rel _ _ => CreateSound s.disk e p rel true
  | .unlink p rel => UnlinkSound s.disk e p rel
  | .rename old new oldRel newRel => RenameSound s.disk e old new oldRel newRel
  | .renameat2 old new => RenameFree s.disk e old new
  | .chmod p fd rel mode =>
    ChangeSound s e p fd (chmodChecks s.disk e.caller p rel) fun _ =>
      e.writable = true → mode.toNat < 8 ^ 9
  | .chown p fd rel owner group =>
    ChangeSound s e p fd (chownChecks s.disk e.caller p rel) fun m =>
      ChownSound e.caller (readMetaFile s.disk e.caller m) e.call owner group e.writable

/-! ## Names of paths -/

variable {p : HostPath} {k : Entry} {own : FileId → Option MetaRecord} {id : FileId}

theorem GuestName.plain (h : GuestName p.getName) : p.plain = true := by
  obtain ⟨⟨n, hn⟩, -⟩ := h
  unfold HostPath.getName at hn
  unfold HostPath.plain
  cases hf : p.finality with
  | notFinal | finalNormal => rfl
  | finalSlash =>
    simp only [hf] at hn
    exact absurd hn n.isName.1
  | finalDot =>
    simp only [hf] at hn
    exact absurd hn n.notDot

theorem HostPath.allows_of_plain (h : p.plain = true) (kind : FileKind) :
    p.allows kind = true := by
  unfold HostPath.plain at h
  unfold HostPath.allows
  cases hf : p.finality <;> simp [hf] at h ⊢

theorem HostPath.getName_of_plain (h : p.plain = true) :
    p.getDirPath = p.names.dropLast ∧ p.getName = (p.names.getLast?.map (·.chars)).getD [] := by
  unfold HostPath.plain at h
  unfold HostPath.getDirPath HostPath.getName
  cases hf : p.finality <;> simp [hf] at h ⊢

variable {d : Disk}

theorem MetaPath.entry_name {m : MetaPath} (h : m.entry d = some k) :
    k.2 = m.name := by
  simp only [MetaPath.entry, Option.map_eq_some_iff] at h
  obtain ⟨id, -, rfl⟩ := h
  rfl

theorem getMetaPath_entry {m : MetaPath} (h : getMetaPath p = .ok m)
    (hguest : GuestName p.getName) (d : Disk) : m.entry d = (p.entry d).map sideEntry := by
  rw [getMetaPath_eq_ok h]
  obtain ⟨hdir, hname⟩ := HostPath.getName_of_plain hguest.plain
  unfold MetaPath.entry HostPath.entry
  cases hlast : p.names.getLast? with
  | none =>
    obtain ⟨⟨n, hn⟩, -⟩ := hguest
    rw [hname, hlast] at hn
    exact absurd hn n.isName.1
  | some n =>
    simp only [hdir, hname, hlast, Option.map_some, Option.getD_some, Option.bind_some,
      Option.map_map]
    rfl

theorem HostPath.entry_guest (hguest : GuestName p.getName)
    (h : p.entry d = some k) : GuestEntry k := by
  obtain ⟨-, hname⟩ := HostPath.getName_of_plain hguest.plain
  simp only [HostPath.entry, Option.bind_eq_some_iff, Option.map_eq_some_iff] at h
  obtain ⟨n, hlast, id, -, rfl⟩ := h
  rw [hlast] at hname
  rw [hname] at hguest
  exact hguest

theorem getMetaPath_junk {m : MetaPath} (h : getMetaPath p = .ok m)
    (hguest : ¬ GuestName p.getName) (hk : m.entry d = some k) :
    ∀ j, GuestEntry j → sideEntry j ≠ k := by
  rintro j hj rfl
  have hname := MetaPath.entry_name hk
  rw [getMetaPath_eq_ok h] at hname
  have : j.2 = p.getName := List.append_cancel_left hname
  exact hguest (this ▸ hj)

namespace Disk

theorem walk_concat (d : Disk) (names : List Component) (n : Component) : ∀ id,
    d.walk id (names ++ [n]) =
      ((d.walk id names).filter fun id => d.kind id = .directory).bind fun id =>
        d.entry (id, n.chars) := by
  induction names with
  | nil =>
    intro id
    by_cases h : d.kind id = .directory
    · simp [Disk.walk, Option.filter, h]
    · simp [Disk.walk, Option.filter, h]
  | cons m names ih =>
    intro id
    simp only [List.cons_append, Disk.walk]
    by_cases h : d.kind id = .directory
    · rw [if_pos h, if_pos h]
      cases d.entry (id, m.chars) with
      | none => rfl
      | some next => exact ih next
    · rw [if_neg h, if_neg h]
      rfl

theorem walk_eq_file (d : Disk) (h : p.names ≠ []) :
    d.walk root p.names = p.file d := by
  unfold HostPath.file HostPath.entry
  rw [List.getLast?_eq_getLast_of_ne_nil h, Option.bind_some]
  conv => lhs; rw [← List.dropLast_append_getLast h, walk_concat]
  unfold dirAt
  cases (d.walk root p.names.dropLast).filter fun id => d.kind id = .directory <;> rfl

end Disk

theorem HostPath.file_of_exists (h : p.exists? d = true)
    (hk : p.entry d = some k) : d.entry k ≠ none := by
  have hne : p.names ≠ [] := by
    intro hnil
    simp [HostPath.entry, hnil] at hk
  unfold HostPath.exists? at h
  rw [d.walk_eq_file hne] at h
  intro hnone
  simp [HostPath.file, hk, hnone] at h

/-! ## What keeps the records in order -/

theorem Neat.sideStep {d' : Disk} (h : Neat d own)
    {v : Option MetaRecord} (hstep : d.SideStep d' k v) : Neat d' own where
  flat := hstep.flat
  once := by
    have hback : ∀ j id, own id ≠ none → d'.entry j = some id → d.entry j = some id := by
      intro j id hown hj
      by_cases hjk : j = k
      · subst hjk
        cases hstep.old id hj with
        | inl hold => exact hold
        | inr hnew => exact absurd (h.born id hown) (Nat.not_lt.mpr hnew)
      · rwa [hstep.name j hjk] at hj
    intro j j' id hown hj hj'
    exact h.once j j' id hown (hback j id hown hj) (hback j' id hown hj')
  born id hown := Nat.lt_of_lt_of_le (h.born id hown) hstep.next

theorem Neat.create {d' : Disk} (h : Neat d own)
    (hk : GuestEntry k) {kind : FileKind} {content : MetaText}
    (hcreate : d.create k kind content = some d') (r : Option MetaRecord) :
    Neat d' (Function.update own d.next r) := by
  obtain ⟨-, hentry, hkind, -, hnext⟩ := Disk.create_spec hcreate
  have hold : ∀ j id, id ≠ d.next → d'.entry j = some id → d.entry j = some id := by
    intro j id hid hj
    rw [hentry] at hj
    by_cases hjk : j = k
    · subst hjk
      rw [Function.update_self, Option.some.injEq] at hj
      exact absurd hj.symm hid
    · rwa [Function.update_of_ne hjk] at hj
  have hnew : ∀ j, d'.entry j = some d.next → j = k := by
    intro j hj
    by_contra hjk
    rw [hentry, Function.update_of_ne hjk] at hj
    exact Disk.ne_next hj rfl
  refine ⟨⟨?_, ?_⟩, ?_, ?_⟩
  · intro j id hj hid
    have hne : id ≠ d.next := by
      rintro rfl
      exact hk.2 (hnew j hid ▸ hj)
    rw [hkind, Function.update_of_ne hne]
    exact h.flat.regular j id hj (hold j id hne hid)
  · intro j j' id hj hid hid'
    by_cases hne : id = d.next
    · subst hne
      rw [hnew j hid, hnew j' hid']
    · exact h.flat.alone j j' id hj (hold j id hne hid) (hold j' id hne hid')
  · intro j j' id hown hid hid'
    by_cases hne : id = d.next
    · subst hne
      rw [hnew j hid, hnew j' hid']
    · rw [Function.update_of_ne hne] at hown
      exact h.once j j' id hown (hold j id hne hid) (hold j' id hne hid')
  · intro id hown
    rw [hnext]
    by_cases hne : id = d.next
    · exact hne ▸ Nat.lt_succ_self _
    · rw [Function.update_of_ne hne] at hown
      exact Nat.lt_succ_of_lt (h.born id hown)

theorem Neat.remove (h : Neat d own) (k : Entry) :
    Neat (d.remove k) own := by
  have hold : ∀ j id, (d.remove k).entry j = some id → d.entry j = some id := by
    intro j id hj
    by_cases hjk : j = k
    · subst hjk
      simp [Disk.remove] at hj
    · rwa [show (d.remove k).entry j = d.entry j from Function.update_of_ne hjk _ _] at hj
  refine ⟨⟨?_, ?_⟩, ?_, h.born⟩
  · intro j id hj hid
    exact h.flat.regular j id hj (hold j id hid)
  · intro j j' id hj hid hid'
    exact h.flat.alone j j' id hj (hold j id hid) (hold j' id hid')
  · intro j j' id hown hid hid'
    exact h.once j j' id hown (hold j id hid) (hold j' id hid')

theorem Neat.rename {d' : Disk} (h : Neat d own)
    {k' : Entry} (hk : GuestEntry k) (hk' : GuestEntry k') (hid : d.entry k = some id)
    (hentry : d'.entry = Function.update (Function.update d.entry k' (some id)) k none)
    (hkind : d'.kind = d.kind) (hnext : d'.next = d.next) : Neat d' own := by
  -- a name that is in use is an old one, or the new one
  have hold : ∀ j i, d'.entry j = some i → j ≠ k ∧ ((j = k' ∧ i = id) ∨ d.entry j = some i) := by
    intro j i hj
    have hjk : j ≠ k := by
      rintro rfl
      rw [hentry, Function.update_self] at hj
      cases hj
    refine ⟨hjk, ?_⟩
    rw [hentry, Function.update_of_ne hjk] at hj
    by_cases hjk' : j = k'
    · subst hjk'
      rw [Function.update_self, Option.some.injEq] at hj
      exact .inl ⟨rfl, hj.symm⟩
    · rw [Function.update_of_ne hjk'] at hj
      exact .inr hj
  refine ⟨⟨?_, ?_⟩, ?_, fun i hi => hnext ▸ h.born i hi⟩
  · intro j i hj hi
    rw [hkind]
    rcases (hold j i hi).2 with ⟨rfl, -⟩ | hi
    · exact absurd hj hk'.2
    · exact h.flat.regular j i hj hi
  · intro j j' i hj hi hi'
    rcases (hold j i hi).2 with ⟨rfl, -⟩ | hi
    · exact absurd hj hk'.2
    · rcases (hold j' i hi').2 with ⟨rfl, rfl⟩ | hi'
      · -- the file renamed is no side file
        have := h.flat.alone j k i hj hi hid
        exact absurd (this ▸ hj) hk.2
      · exact h.flat.alone j j' i hj hi hi'
  · intro j j' i hown hi hi'
    obtain ⟨hjk, hj⟩ := hold j i hi
    obtain ⟨hjk', hj'⟩ := hold j' i hi'
    rcases hj with ⟨rfl, rfl⟩ | hj
    · rcases hj' with ⟨rfl, -⟩ | hj'
      · rfl
      · exact absurd (h.once j' k i hown hj' hid) hjk'
    · rcases hj' with ⟨rfl, rfl⟩ | hj'
      · exact absurd (h.once j k i hown hj hid) hjk
      · exact h.once j j' i hown hj hj'

theorem Neat.update (h : Neat d own)
    (hid : own id ≠ none) (r : MetaRecord) : Neat d (Function.update own id (some r)) := by
  have hsame : ∀ i, Function.update own id (some r) i ≠ none → own i ≠ none := by
    intro i hi
    by_cases hne : i = id
    · exact hne ▸ hid
    · rwa [Function.update_of_ne hne] at hi
  exact ⟨h.flat, fun j j' i hi => h.once j j' i (hsame i hi), fun i hi => h.born i (hsame i hi)⟩

/-! ## What keeps the side files right -/

/-- The handler is done: under the guest's names the files are the same, and `side` is recorded. -/
structure FileState.Prepared (s : FileState) (d : Disk) (side : Entry → Option MetaRecord) : Prop where
  neat : Neat d s.own
  name : ∀ j, GuestEntry j → d.entry j = s.disk.entry j
  side : ∀ j, GuestEntry j → d.side j = side j
  dirs : Disk.SameDirs s.disk d
  next : s.disk.next ≤ d.next

namespace FileState

variable {s : FileState} {d d' : Disk} {side : Entry → Option MetaRecord}

theorem Orderly.prepared (h : s.Orderly) : s.Prepared s.disk s.disk.side where
  neat := h.neat
  name _ _ := rfl
  side _ _ := rfl
  dirs := .refl _
  next := le_refl _

theorem Prepared.sideStep (h : s.Prepared d side) {v : Option MetaRecord}
    (hstep : d.SideStep d' (sideEntry k) v) : s.Prepared d' (Function.update side k v) where
  neat := h.neat.sideStep hstep
  name j hj := (hstep.name j (hj.ne_sideEntry k)).trans (h.name j hj)
  side j hj := by
    rw [hstep.side j]
    by_cases hjk : j = k
    · rw [hjk, if_pos rfl, Function.update_self]
    · rw [if_neg (fun heq => hjk (sideEntry_injective heq)), Function.update_of_ne hjk, h.side j hj]
  dirs := h.dirs.trans hstep.dirs
  next := le_trans h.next hstep.next

theorem Prepared.junk (h : s.Prepared d side) {v : Option MetaRecord}
    (hstep : d.SideStep d' k v) (htag : metaTag <+: k.2)
    (hjunk : ∀ j, GuestEntry j → sideEntry j ≠ k) : s.Prepared d' side where
  neat := h.neat.sideStep hstep
  name j hj := by
    have hjk : j ≠ k := by
      rintro rfl
      exact hj.2 htag
    exact (hstep.name j hjk).trans (h.name j hj)
  side j hj := by
    rw [hstep.side j, if_neg (hjunk j hj), h.side j hj]
  dirs := h.dirs.trans hstep.dirs
  next := le_trans h.next hstep.next

theorem Orderly.of_ledger {l : Ledger Entry FileId MetaRecord} (hl : l.Follows GuestEntry)
    (hneat : Neat s.disk s.own) (hname : ∀ j, GuestEntry j → s.disk.entry j = l.name j)
    (hside : ∀ j, GuestEntry j → s.disk.side j = l.side j) (hown : s.own = l.own)
    (hsmall : ∀ k r, GuestEntry k → l.side k = some r → r.mode.toNat < 8 ^ 9) : s.Orderly where
  neat := hneat
  follows := hl.congr hname hside (fun _ _ _ _ => by rw [← hown]; rfl)
  small k r hk hr := hsmall k r hk (hside k hk ▸ hr)

theorem Prepared.idle (hs : s.Orderly) (h : s.Prepared d s.disk.side) :
    (⟨d, s.own⟩ : FileState).Orderly :=
  Orderly.of_ledger hs.follows h.neat h.name h.side rfl hs.small

theorem Prepared.create (hs : s.Orderly) (hk : GuestEntry k) {r : Option MetaRecord}
    (h : s.Prepared d (Function.update s.disk.side k r))
    (hr : ∀ r', r = some r' → r'.mode.toNat < 8 ^ 9) {kind : FileKind} {content : MetaText}
    (hcreate : d.create k kind content = some d') :
    (⟨d', Function.update s.own d.next r⟩ : FileState).Orderly := by
  have hfresh : ∀ j, GuestEntry j → s.ledger.name j ≠ some d.next := by
    intro j _ hj
    exact Nat.not_lt.mpr h.next (s.disk.bound j d.next hj)
  refine Orderly.of_ledger (Ledger.Follows.create hs.follows hfresh k r)
    (h.neat.create hk hcreate r) ?_ ?_ rfl ?_
  · intro j hj
    show d'.entry j = Function.update s.disk.entry k (some d.next) j
    rw [(Disk.create_spec hcreate).2.1]
    by_cases hjk : j = k
    · subst hjk
      rw [Function.update_self, Function.update_self]
    · rw [Function.update_of_ne hjk, Function.update_of_ne hjk, h.name j hj]
  · intro j hj
    show d'.side j = _
    rw [Disk.side_create hcreate j, if_neg (hk.ne_sideEntry j).symm, h.side j hj]
    rfl
  · intro j r' hj hr'
    change Function.update s.disk.side k r j = some r' at hr'
    by_cases hjk : j = k
    · subst hjk
      rw [Function.update_self] at hr'
      exact hr r' hr'
    · rw [Function.update_of_ne hjk] at hr'
      exact hs.small j r' hj hr'

theorem Prepared.remove (hs : s.Orderly) (hk : GuestEntry k)
    (h : s.Prepared d (Function.update s.disk.side k none)) :
    (⟨d.remove k, s.own⟩ : FileState).Orderly := by
  refine Orderly.of_ledger (Ledger.Follows.remove hs.follows k) (h.neat.remove k) ?_ ?_ rfl ?_
  · intro j hj
    show Function.update d.entry k none j = Function.update s.disk.entry k none j
    by_cases hjk : j = k
    · subst hjk
      rw [Function.update_self, Function.update_self]
    · rw [Function.update_of_ne hjk, Function.update_of_ne hjk, h.name j hj]
  · intro j hj
    show (d.remove k).side j = _
    rw [Disk.side_remove, if_neg (hk.ne_sideEntry j).symm, h.side j hj]
    rfl
  · intro j r' hj hr'
    change Function.update s.disk.side k none j = some r' at hr'
    by_cases hjk : j = k
    · subst hjk
      rw [Function.update_self] at hr'
      cases hr'
    · rw [Function.update_of_ne hjk] at hr'
      exact hs.small j r' hj hr'

theorem Prepared.rename (hs : s.Orderly) {k' : Entry} (hk : GuestEntry k) (hk' : GuestEntry k')
    (h : s.Prepared d
      (Function.update (Function.update s.disk.side k' (s.disk.side k)) k none))
    (hid : d.entry k = some id)
    (hentry : d'.entry = Function.update (Function.update d.entry k' (some id)) k none)
    (hkind : d'.kind = d.kind) (htext : d'.text = d.text) (hnext : d'.next = d.next) :
    (⟨d', s.own⟩ : FileState).Orderly := by
  refine Orderly.of_ledger (Ledger.Follows.move hs.follows hk k')
    (h.neat.rename hk hk' hid hentry hkind hnext) ?_ ?_ rfl ?_
  · intro j hj
    show d'.entry j = Function.update (Function.update s.disk.entry k' (s.disk.entry k)) k none j
    rw [hentry, ← h.name k hk, hid]
    by_cases hjk : j = k
    · subst hjk
      rw [Function.update_self, Function.update_self]
    · rw [Function.update_of_ne hjk, Function.update_of_ne hjk]
      by_cases hjk' : j = k'
      · subst hjk'
        rw [Function.update_self, Function.update_self]
      · rw [Function.update_of_ne hjk', Function.update_of_ne hjk', h.name j hj]
  · intro j hj
    have hside : d'.side j = d.side j := by
      unfold Disk.side
      rw [hentry, htext, Function.update_of_ne (hk.ne_sideEntry j).symm,
        Function.update_of_ne (hk'.ne_sideEntry j).symm]
    show d'.side j = _
    rw [hside, h.side j hj]
    rfl
  · intro j r' hj hr'
    change Function.update (Function.update s.disk.side k' (s.disk.side k)) k none j = some r' at hr'
    by_cases hjk : j = k
    · subst hjk
      rw [Function.update_self] at hr'
      cases hr'
    · rw [Function.update_of_ne hjk] at hr'
      by_cases hjk' : j = k'
      · subst hjk'
        rw [Function.update_self] at hr'
        exact hs.small k r' hk hr'
      · rw [Function.update_of_ne hjk'] at hr'
        exact hs.small j r' hj hr'

theorem Prepared.change (hs : s.Orderly) {k : Entry} (hk : GuestEntry k) {id : FileId}
    (hid : s.disk.entry k = some id) (hown : s.own id ≠ none) {r : MetaRecord}
    (hr : r.mode.toNat < 8 ^ 9) (h : s.Prepared d (Function.update s.disk.side k (some r))) :
    (⟨d, Function.update s.own id (some r)⟩ : FileState).Orderly := by
  refine Orderly.of_ledger
    (Ledger.Follows.change hs.follows (k := k) (f := id) hid
      (fun j _ hj => hs.neat.once j k id hown hj hid) r)
    (h.neat.update hown r) h.name h.side rfl ?_
  intro j r' hj hr'
  change Function.update s.disk.side k (some r) j = some r' at hr'
  by_cases hjk : j = k
  · subst hjk
    rw [Function.update_self] at hr'
    cases hr'
    exact hr
  · rw [Function.update_of_ne hjk] at hr'
    exact hs.small j r' hj hr'

theorem Prepared.nameless (hs : s.Orderly) (h : s.Prepared d s.disk.side)
    (hown : s.own id ≠ none) (hno : ∀ k, GuestEntry k → s.disk.entry k ≠ some id) (r : MetaRecord) :
    (⟨d, Function.update s.own id (some r)⟩ : FileState).Orderly where
  neat := h.neat.update hown r
  follows := by
    refine Ledger.Follows.congr hs.follows h.name h.side ?_
    intro k hk f hf
    have hne : f ≠ id := by
      rintro rfl
      exact hno k hk hf
    exact Function.update_of_ne hne _ _
  small k r' hk hr' := hs.small k r' hk (h.side k hk ▸ hr')

end FileState

end Improot.Extension
