import Improot.Extension.LinkSymlink

/-!
# A link that fails

What a failing link(2) leaves behind.  The file is moved first, and each call after that may fail;
only the last one has something that undoes what was done.
-/

namespace Improot.Extension

/-! ## The calls -/

variable {i p path : CString} {l : Linker} {d : LinkDisk}

namespace LinkDisk

variable {d : LinkDisk} {p q old new target : CString}

/-- `rename` succeeds. -/
def Renames (d : LinkDisk) (fails : Option Errno) (old new : CString) : Prop :=
  fails = none ∧ ∃ f, d.file old = some f ∧
    ∀ g, d.file new = some g → (f.kind = .directory ↔ g.kind = .directory)

/-- `unlink` succeeds. -/
def Unlinks (d : LinkDisk) (fails : Option Errno) (p : CString) : Prop :=
  fails = none ∧ ∃ f, d.file p = some f ∧ f.kind ≠ .directory

theorem rename_cases (d : LinkDisk) (fails : Option Errno) (old new : CString) :
    d.rename fails old new = none ∧ ¬ d.Renames fails old new ∨
      d.rename fails old new = some (d.move old new) ∧ d.Renames fails old new := by
  unfold rename Renames
  split
  · exact .inl ⟨rfl, by simp⟩
  · rename_i hold
    exact .inl ⟨rfl, by simp [hold]⟩
  · rename_i hold hnew
    exact .inr ⟨rfl, rfl, _, hold, by simp [hnew]⟩
  · rename_i f g hold hnew
    by_cases hkind : f.kind = .directory ↔ g.kind = .directory
    · rw [if_pos hkind]
      exact .inr ⟨rfl, rfl, f, hold, by simpa [hnew] using hkind⟩
    · rw [if_neg hkind]
      exact .inl ⟨rfl, by simpa [hold, hnew] using hkind⟩

theorem unlink_cases (d : LinkDisk) (fails : Option Errno) (p : CString) :
    d.unlink fails p = none ∧ ¬ d.Unlinks fails p ∨
      d.unlink fails p = some (d.remove p) ∧ d.Unlinks fails p := by
  unfold unlink Unlinks
  split
  · exact .inl ⟨rfl, by simp⟩
  · rename_i hp
    exact .inl ⟨rfl, by simp [hp]⟩
  · rename_i f hp
    by_cases hkind : f.kind = .directory
    · rw [if_pos hkind]
      exact .inl ⟨rfl, by simp [hp, hkind]⟩
    · rw [if_neg hkind]
      exact .inr ⟨rfl, rfl, f, hp, hkind⟩

theorem symlink_cases (d : LinkDisk) (fails : Option Errno) (target p : CString) :
    (∃ e, d.symlink fails target p = .error e) ∧ ¬ (fails = none ∧ d.file p = none) ∨
      d.symlink fails target p = .ok (d.create p (.link target)) ∧
        fails = none ∧ d.file p = none := by
  unfold symlink
  split
  · exact .inl ⟨⟨_, rfl⟩, by simp⟩
  · rename_i hp
    exact .inl ⟨⟨_, rfl⟩, by simp [hp]⟩
  · rename_i hp
    exact .inr ⟨rfl, rfl, hp⟩

theorem replaceLink_of_free (h : d.file p = none) (unlinkFails fails : Option Errno)
    (target : CString) :
    d.replaceLink unlinkFails fails target p =
      if fails = none then .ok (d.create p (.link target)) else .error d := by
  have hunlink : (d.unlink unlinkFails p).getD d = d := by
    rcases unlink_cases d unlinkFails p with ⟨hnone, -⟩ | ⟨-, -, f, hf, -⟩
    · rw [hnone]
      rfl
    · rw [h] at hf
      cases hf
  unfold replaceLink
  dsimp only
  rw [hunlink]
  rcases symlink_cases d fails target p with ⟨⟨e, he⟩, hfails⟩ | ⟨hok, hfails, -⟩
  · rw [he, if_neg (fun hnone => hfails ⟨hnone, h⟩)]
  · rw [hok, if_pos hfails]

theorem file_unlink_getD (d : LinkDisk) (fails : Option Errno) (h : q ≠ p) :
    ((d.unlink fails p).getD d).file q = d.file q := by
  rcases unlink_cases d fails p with ⟨hnone, -⟩ | ⟨hsome, -⟩
  · rw [hnone]
    rfl
  · rw [hsome]
    exact Lib.Entries.file_remove_of_ne d h

theorem file_rename_getD (d : LinkDisk) (fails : Option Errno) (hold : q ≠ old) (hnew : q ≠ new) :
    ((d.rename fails old new).getD d).file q = d.file q := by
  rcases rename_cases d fails old new with ⟨hnone, -⟩ | ⟨hsome, -⟩
  · rw [hnone]
    rfl
  · rw [hsome]
    exact Lib.Entries.file_move_of_ne d hold hnew

/-! A file without a name doesn't get one. -/

variable {d' : LinkDisk} {number : Nat} {fails : Option Errno}

theorem gone_of_rename (hgone : d.Gone number) (h : d.rename fails old new = some d') :
    d'.Gone number := by
  rcases rename_cases d fails old new with ⟨hnone, -⟩ | ⟨hsome, -⟩
  · rw [hnone] at h
    cases h
  · rw [hsome] at h
    cases h
    exact hgone.move old new

theorem gone_of_unlink (hgone : d.Gone number) (h : d.unlink fails p = some d') :
    d'.Gone number := by
  rcases unlink_cases d fails p with ⟨hnone, -⟩ | ⟨hsome, -⟩
  · rw [hnone] at h
    cases h
  · rw [hsome] at h
    cases h
    exact hgone.remove p

theorem gone_of_symlink (hgone : d.Gone number) (h : d.symlink fails target p = .ok d') :
    d'.Gone number := by
  rcases symlink_cases d fails target p with ⟨⟨e, he⟩, -⟩ | ⟨hok, -⟩
  · rw [he] at h
    cases h
  · rw [hok] at h
    cases h
    exact hgone.create p _

theorem gone_unlink_getD (hgone : d.Gone number) (fails : Option Errno) (p : CString) :
    ((d.unlink fails p).getD d).Gone number := by
  cases h : d.unlink fails p with
  | none => exact hgone
  | some d' => exact gone_of_unlink hgone h

theorem gone_rename_getD (hgone : d.Gone number) (fails : Option Errno) (old new : CString) :
    ((d.rename fails old new).getD d).Gone number := by
  cases h : d.rename fails old new with
  | none => exact hgone
  | some d' => exact gone_of_rename hgone h

theorem gone_of_replaceLink {unlinkFails : Option Errno} (hgone : d.Gone number)
    (h : d.replaceLink unlinkFails fails target p = .ok d' ∨
      d.replaceLink unlinkFails fails target p = .error d') : d'.Gone number := by
  have hremoved := gone_unlink_getD hgone unlinkFails p
  unfold replaceLink at h
  dsimp only at h
  split at h
  · rcases h with h | h
    · cases h
    · cases h
      exact hremoved
  · rename_i hsymlink
    rcases h with h | h
    · cases h
      exact gone_of_symlink hremoved hsymlink
    · cases h

theorem readlink_eq_some : d.readlink p = some i ↔ ∃ n, d.file p = some ⟨n, .link i⟩ := by
  unfold readlink
  split
  · rename_i n t hp
    simp [hp]
  · rename_i hno
    constructor
    · nofun
    · rintro ⟨n, hp⟩
      exact absurd hp (hno n i)

theorem replaceLink_of_taken {f : Lib.Inode LinkKind} (h : d.file p = some f)
    (unlinkFails fails : Option Errno) (target : CString) :
    d.replaceLink unlinkFails fails target p = .error d ∨
      ∀ d', d.replaceLink unlinkFails fails target p = .ok d' ∨
        d.replaceLink unlinkFails fails target p = .error d' → d'.Gone f.number := by
  unfold replaceLink
  dsimp only
  rcases unlink_cases d unlinkFails p with ⟨hnone, -⟩ | ⟨hsome, -⟩
  · rw [hnone, Option.getD_none]
    rcases symlink_cases d fails target p with ⟨⟨e, he⟩, -⟩ | ⟨-, -, hfree⟩
    · rw [he]
      exact .inl rfl
    · rw [h] at hfree
      cases hfree
  · rw [hsome, Option.getD_some]
    refine .inr fun d' hd' => ?_
    have hgone := Lib.Entries.gone_remove h
    split at hd'
    · rcases hd' with hd' | hd'
      · cases hd'
      · cases hd'
        exact hgone
    · rename_i hsymlink
      rcases hd' with hd' | hd'
      · cases hd'
        exact gone_of_symlink hgone hsymlink
      · cases hd'

end LinkDisk

/-! ## What a link(2) keeps -/

/-- What the guest finds under a name: the file behind its two links, or else the entry itself. -/
def guestFile (l : Linker) (d : LinkDisk) (path : CString) : Option (Lib.Inode LinkKind) :=
  ((convertedTo l d path).bind fun names => d.file names.2).or (d.file path)

def HiddenFile (l : Linker) (d : LinkDisk) (p : CString) : Prop :=
  l.isHidden p = true ∨ ∃ intermediate final, l.isHidden intermediate = true ∧
    d.readlink intermediate = some final ∧ final.take (final.length - 4) <+: p

/-- The hidden names of the file itself, which follow its number of links. -/
def OwnFile (l : Linker) (d : LinkDisk) (original p : CString) : Prop :=
  match convertedTo l d original with
  | some (intermediate, final) => p = intermediate ∨ p = final
  | none => p = original

/-- **A link(2) is atomic**: when it fails, the guest finds under the original path what it found
before, and in any case no hidden file is overwritten or out of reach. -/
structure AtomicLink (l : Linker) (d : LinkDisk) (original : CString)
    (run : LinkOutcome × LinkDisk) : Prop where
  no_overrun : run.1 ≠ .overrun
  found : ∀ e, run.1 = .failed e → guestFile l run.2 original = guestFile l d original
  kept : ∀ p f, HiddenFile l d p → ¬ OwnFile l d original p → d.file p = some f →
    run.2.file p = some f
  reachable : ∀ intermediate final, convertedTo l d original = some (intermediate, final) →
    run.2.file intermediate = d.file intermediate ∧ run.2.file final = d.file final ∨
      ∃ final', final' ≠ intermediate ∧ run.2.readlink intermediate = some final' ∧
        run.2.file final' = d.file final

theorem AtomicLink.of_unchanged {original : CString}
    {outcome : LinkOutcome} (h : outcome ≠ .overrun) :
    AtomicLink l d original (outcome, d) :=
  ⟨h, fun _ _ => rfl, fun _ _ _ _ hp => hp, fun _ _ _ => .inl ⟨rfl, rfl⟩⟩

theorem guestFile_of_not_converted
    (h : convertedTo l d path = none) : guestFile l d path = d.file path := by
  rw [guestFile, h]
  rfl

theorem convertedTo_of_file_eq_none (h : d.file path = none) : convertedTo l d path = none := by
  have hlink : d.readlink path = none := by
    rw [LinkDisk.readlink, h]
  rw [convertedTo, hlink]

theorem convertedTo_eq_some {f : CString} :
    convertedTo l d path = some (i, f) ↔
      d.readlink path = some i ∧ l.isHidden i = true ∧ d.readlink i = some f := by
  unfold convertedTo
  split
  · rename_i h
    simp [h]
  · rename_i i' h
    by_cases hhidden : l.isHidden i' = true
    · rw [if_pos hhidden, h]
      constructor
      · intro hf
        obtain ⟨f', hf', heq⟩ := Option.map_eq_some_iff.mp hf
        cases heq
        exact ⟨rfl, hhidden, hf'⟩
      · rintro ⟨⟨⟩, -, hf⟩
        rw [hf]
        rfl
    · rw [if_neg hhidden, h]
      constructor
      · nofun
      · rintro ⟨⟨⟩, hhidden', -⟩
        exact absurd hhidden' hhidden

/-! ## The first link -/

/-- When the first link to a file is atomic: nothing is moved; or the two hidden names are free and
no call fails, except the last one, which is undone. -/
def LinksFirst (fails : LinkCall → Option Errno) (d : LinkDisk)
    (original target intermediate final : CString) : Prop :=
  ¬ d.Renames (fails .rename) original final ∨
    (d.file final = none ∧ d.file intermediate = none ∧ fails .renameNotify = none ∧
      fails .symlinkIntermediate = none ∧ fails .symlinkOriginal = none ∧
      ((fails .symlinkTarget = none ∧ d.file target = none ∧ target ≠ intermediate ∧
          target ≠ final) ∨
        fails .restoreRename = none ∨
        (fails .restoreUnlink ≠ none ∧ fails .restoreIntermediate ≠ none)))

theorem linkFirst_gone {fails : LinkCall → Option Errno} {d₁ : LinkDisk}
    {original target intermediate final : CString} {number : Nat}
    (hmoved : d.rename (fails .rename) original final = some d₁)
    (hnotify : fails .renameNotify ≠ none → d₁.Gone number)
    (hreplaced : ∀ d₂, d₁.replaceLink (fails .replaceIntermediate) (fails .symlinkIntermediate)
        final intermediate = .ok d₂ ∨
      d₁.replaceLink (fails .replaceIntermediate) (fails .symlinkIntermediate) final
        intermediate = .error d₂ → d₂.Gone number) :
    (linkFirst fails d original target intermediate final).2.Gone number := by
  unfold linkFirst
  rw [hmoved]
  dsimp only
  split
  · rename_i hfails
    exact hnotify (by rw [hfails]; nofun)
  split
  · rename_i hreplace
    exact hreplaced _ (.inr hreplace)
  rename_i hreplace
  have hgone := hreplaced _ (.inl hreplace)
  split
  · exact hgone
  rename_i hsymlink
  have hgone := LinkDisk.gone_of_symlink hgone hsymlink
  split
  · exact LinkDisk.gone_unlink_getD (LinkDisk.gone_rename_getD (LinkDisk.gone_unlink_getD hgone
      _ _) _ _ _) _ _
  · rename_i htarget
    exact LinkDisk.gone_of_symlink hgone htarget

theorem LinkDisk.unlink_getD_of {fails : Option Errno}
    (h : d.Unlinks fails p) : (d.unlink fails p).getD d = d.remove p := by
  rcases LinkDisk.unlink_cases d fails p with ⟨-, hnot⟩ | ⟨hsome, -⟩
  · exact absurd h hnot
  · rw [hsome]
    rfl

theorem LinkDisk.unlink_getD_of_fails {fails : Option Errno}
    (h : fails ≠ none) : (d.unlink fails p).getD d = d := by
  rcases LinkDisk.unlink_cases d fails p with ⟨hnone, -⟩ | ⟨-, hfails, -⟩
  · rw [hnone]
    rfl
  · exact absurd hfails h

/-- A file that was moved to its final name, with its two links: from the original name to the
intermediate one, and from there to the file. -/
structure LinkedTwice (d d₃ : LinkDisk) (original intermediate final : CString)
    (f : Lib.Inode LinkKind) : Prop where
  fromOriginal : ∃ n, d.next ≤ n ∧ d₃.file original = some ⟨n, .link intermediate⟩
  fromIntermediate : ∃ m, d₃.file intermediate = some ⟨m, .link final⟩
  moved : d₃.file final = some f
  others : ∀ p, p ≠ original → p ≠ intermediate → p ≠ final → d₃.file p = d.file p

theorem linkedTwice_of_moved {original intermediate final : CString}
    {f : Lib.Inode LinkKind} (hfile : d.file original = some f) (hio : intermediate ≠ original)
    (hfo : final ≠ original) (hif : intermediate ≠ final) :
    LinkedTwice d
      (((d.move original final).create intermediate (.link final)).create original
        (.link intermediate)) original intermediate final f := by
  refine ⟨⟨d.next + 1, Nat.le_succ _, ?_⟩, ⟨d.next, ?_⟩, ?_, ?_⟩
  · rw [Lib.Entries.file_create_self]
    rfl
  · rw [Lib.Entries.file_create_of_ne _ hio, Lib.Entries.file_create_self]
    rfl
  · rw [Lib.Entries.file_create_of_ne _ hfo, Lib.Entries.file_create_of_ne _ (Ne.symm hif),
      Lib.Entries.file_move_new, hfile]
  · intro p hpo hpi hpf
    rw [Lib.Entries.file_create_of_ne _ hpo, Lib.Entries.file_create_of_ne _ hpi,
      Lib.Entries.file_move_of_ne d hpo hpf]

theorem guestFile_of_linked {f : CString}
    (hlink : d.readlink path = some i) (hhidden : l.isHidden i = true)
    (hnext : d.readlink i = some f) : guestFile l d path = (d.file f).or (d.file path) := by
  rw [guestFile, convertedTo_eq_some.mpr ⟨hlink, hhidden, hnext⟩]
  rfl

theorem guestFile_of_dangling (hlink : d.readlink path = some i) (hnext : d.readlink i = none) :
    guestFile l d path = d.file path := by
  apply guestFile_of_not_converted
  cases hconv : convertedTo l d path with
  | none => rfl
  | some names =>
      obtain ⟨i', f'⟩ := names
      obtain ⟨hlink', -, hnext'⟩ := convertedTo_eq_some.mp hconv
      rw [hlink] at hlink'
      cases hlink'
      rw [hnext] at hnext'
      cases hnext'

/-- **A file that is back under its name** is found there again, whatever became of the name of the
intermediate. -/
theorem guestFile_of_restored {l : Linker} {d d' : LinkDisk} {original intermediate final : CString}
    {f : Lib.Inode LinkKind} (hconverted : convertedTo l d original = none)
    (hfile : d.file original = some f) (horiginal : d'.file original = some f)
    (hfinal : d'.file final = none)
    (hintermediate : ∀ f', d'.readlink intermediate = some f' → f' = final)
    (hothers : ∀ p, p ≠ original → p ≠ intermediate → p ≠ final → d'.file p = d.file p) :
    guestFile l d' original = some f := by
  cases hconv : convertedTo l d' original with
  | none => rw [guestFile_of_not_converted hconv, horiginal]
  | some names =>
      obtain ⟨i', f'⟩ := names
      obtain ⟨hi', hhidden, hf'⟩ := convertedTo_eq_some.mp hconv
      have hi : d.readlink original = some i' := by
        rw [← hi', LinkDisk.readlink, LinkDisk.readlink, hfile, horiginal]
      have hno : ∀ f', d.readlink i' ≠ some f' := by
        intro f'' hf''
        have hcontra := convertedTo_eq_some.mpr ⟨hi, hhidden, hf''⟩
        rw [hconverted] at hcontra
        cases hcontra
      -- the file is itself a link to the name of the intermediate
      have hsame : i' = intermediate := by
        by_contra hne
        by_cases hio : i' = original
        · subst hio
          exact hno _ hi
        by_cases hif : i' = final
        · rw [hif, LinkDisk.readlink, hfinal] at hf'
          cases hf'
        · refine hno f' ?_
          rw [← hf', LinkDisk.readlink, LinkDisk.readlink, hothers i' hio hne hif]
      subst hsame
      have hff := hintermediate f' hf'
      subst hff
      rw [guestFile, hconv, Option.bind_some, hfinal, horiginal]
      rfl

/-! What undoing the first link leaves: the original name is removed, the file is moved back, and
the intermediate is removed, each of them unless its call fails. -/

def undoFirst (fails : LinkCall → Option Errno) (d : LinkDisk)
    (original intermediate final : CString) : LinkDisk :=
  let d := (d.unlink (fails .restoreUnlink) original).getD d
  let d := (d.rename (fails .restoreRename) final original).getD d
  (d.unlink (fails .restoreIntermediate) intermediate).getD d

section Undo

variable {l : Linker} {fails : LinkCall → Option Errno} {d d₃ : LinkDisk}
  {original intermediate final : CString} {f : Lib.Inode LinkKind}

theorem file_undoFirst (hpo : p ≠ original) (hpi : p ≠ intermediate)
    (hpf : p ≠ final) : (undoFirst fails d₃ original intermediate final).file p = d₃.file p := by
  rw [undoFirst, LinkDisk.file_unlink_getD _ _ hpi, LinkDisk.file_rename_getD _ _ hpf hpo,
    LinkDisk.file_unlink_getD _ _ hpo]

/-- What is read from the intermediate is the final name, unless it was removed. -/
theorem readlink_undone (d : LinkDisk) (fails : Option Errno) {m : Nat} {f' : CString}
    (hlink : d.file intermediate = some ⟨m, .link final⟩)
    (h : ((d.unlink fails intermediate).getD d).readlink intermediate = some f') : f' = final := by
  obtain ⟨k, hk⟩ := LinkDisk.readlink_eq_some.mp h
  rcases LinkDisk.unlink_cases d fails intermediate with ⟨hnone, -⟩ | ⟨hsome, -⟩
  · rw [hnone, Option.getD_none, hlink] at hk
    cases hk
    rfl
  · rw [hsome, Option.getD_some, Lib.Entries.file_remove_self] at hk
    cases hk

/-- **The file is back under its name** once it could be moved. -/
theorem guestFile_undoFirst (hconverted : convertedTo l d original = none)
    (hfile : d.file original = some f) (hkind : f.kind ≠ .directory) (hio : intermediate ≠ original)
    (hfo : final ≠ original) (hif : intermediate ≠ final)
    (hlinked : LinkedTwice d d₃ original intermediate final f)
    (hrename : fails .restoreRename = none) :
    guestFile l (undoFirst fails d₃ original intermediate final) original = some f := by
  obtain ⟨⟨n, -, horiginal⟩, ⟨m, hintermediate⟩, hfinal, hothers⟩ := hlinked
  have hunlinked (p : CString) (hp : p ≠ original) :=
    LinkDisk.file_unlink_getD d₃ (fails .restoreUnlink) hp
  have hlink : ∀ g, ((d₃.unlink (fails .restoreUnlink) original).getD d₃).file original = some g →
      g.kind ≠ .directory := by
    intro g hg
    rcases LinkDisk.unlink_cases d₃ (fails .restoreUnlink) original with ⟨hnone, -⟩ | ⟨hsome, -⟩
    · rw [hnone, Option.getD_none, horiginal] at hg
      cases hg
      nofun
    · rw [hsome, Option.getD_some, Lib.Entries.file_remove_self] at hg
      cases hg
  refine @guestFile_of_restored l d _ original intermediate final f hconverted hfile ?_ ?_ ?_
    fun p hpo hpi hpf => (file_undoFirst hpo hpi hpf).trans (hothers p hpo hpi hpf)
  all_goals
    unfold undoFirst
    dsimp only
    generalize (d₃.unlink (fails .restoreUnlink) original).getD d₃ = d₄ at hunlinked hlink ⊢
    have hfinal₄ : d₄.file final = some f := (hunlinked final hfo).trans hfinal
    have hmoved : d₄.rename (fails .restoreRename) final original = some (d₄.move final original) :=
      (LinkDisk.rename_cases d₄ _ final original).elim (fun h => absurd
        ⟨hrename, f, hfinal₄, fun g hg => iff_of_false hkind (hlink g hg)⟩ h.2) And.left
    rw [hmoved, Option.getD_some]
  · rw [LinkDisk.file_unlink_getD _ _ (Ne.symm hio), Lib.Entries.file_move_new, hfinal₄]
  · rw [LinkDisk.file_unlink_getD _ _ (Ne.symm hif), Lib.Entries.file_move_old d₄ hfo]
  · intro f' hf'
    refine readlink_undone _ _ (m := m) ?_ hf'
    rw [Lib.Entries.file_move_of_ne d₄ hif hio, hunlinked _ hio, hintermediate]

/-- **The file stays under its final name** when it couldn't be moved: it is found through its two
links, if they are both left. -/
theorem guestFile_undoFirst_iff (hfile : d.file original = some f)
    (hhidden : l.isHidden intermediate = true) (hio : intermediate ≠ original)
    (hlinked : LinkedTwice d d₃ original intermediate final f)
    (hrename : fails .restoreRename ≠ none) :
    guestFile l (undoFirst fails d₃ original intermediate final) original = some f ↔
      fails .restoreUnlink ≠ none ∧ fails .restoreIntermediate ≠ none := by
  obtain ⟨⟨n, hn, horiginal⟩, ⟨m, hintermediate⟩, hfinal, -⟩ := hlinked
  have hsame (d₄ : LinkDisk) : (d₄.rename (fails .restoreRename) final original).getD d₄ = d₄ :=
    (LinkDisk.rename_cases d₄ (fails .restoreRename) final original).elim
      (fun h => by rw [h.1, Option.getD_none]) fun h => absurd h.2.1 hrename
  simp only [undoFirst, hsame]
  by_cases hunlink : fails .restoreUnlink = none
  · -- nothing is left under the original name
    refine iff_of_false ?_ fun h => h.1 hunlink
    have hnone : (((d₃.unlink (fails .restoreUnlink) original).getD d₃).unlink
        (fails .restoreIntermediate) intermediate |>.getD
          ((d₃.unlink (fails .restoreUnlink) original).getD d₃)).file original = none := by
      rw [LinkDisk.file_unlink_getD _ _ (Ne.symm hio),
        LinkDisk.unlink_getD_of ⟨hunlink, _, horiginal, nofun⟩, Lib.Entries.file_remove_self]
    rw [guestFile_of_not_converted (convertedTo_of_file_eq_none hnone), hnone]
    nofun
  rw [LinkDisk.unlink_getD_of_fails hunlink]
  have hstays : ((d₃.unlink (fails .restoreIntermediate) intermediate).getD d₃).file original =
      some ⟨n, .link intermediate⟩ := by
    rw [LinkDisk.file_unlink_getD _ _ (Ne.symm hio), horiginal]
  have hlink := LinkDisk.readlink_eq_some.mpr ⟨n, hstays⟩
  by_cases hlast : fails .restoreIntermediate = none
  · -- the link leads nowhere
    refine iff_of_false ?_ fun h => h.2 hlast
    have hnone : ((d₃.unlink (fails .restoreIntermediate) intermediate).getD d₃).readlink
        intermediate = none := by
      rw [LinkDisk.unlink_getD_of ⟨hlast, _, hintermediate, nofun⟩, LinkDisk.readlink,
        Lib.Entries.file_remove_self]
    rw [guestFile_of_dangling hlink hnone, hstays]
    intro heq
    cases heq
    exact absurd (d.fresh hfile) (Nat.not_lt.mpr hn)
  · refine iff_of_true ?_ ⟨hunlink, hlast⟩
    rw [LinkDisk.unlink_getD_of_fails hlast] at hlink ⊢
    rw [guestFile_of_linked hlink hhidden (LinkDisk.readlink_eq_some.mpr ⟨m, hintermediate⟩),
      hfinal]
    rfl

theorem undoFirst_atomic_iff {e : Errno}
    (hconverted : convertedTo l d original = none) (hfile : d.file original = some f)
    (hkind : f.kind ≠ .directory) (hhidden : l.isHidden intermediate = true)
    (hio : intermediate ≠ original) (hfo : final ≠ original) (hif : intermediate ≠ final)
    (hfreeI : d.file intermediate = none) (hfreeF : d.file final = none)
    (hlinked : LinkedTwice d d₃ original intermediate final f) :
    AtomicLink l d original (.failed e, undoFirst fails d₃ original intermediate final) ↔
      fails .restoreRename = none ∨
        (fails .restoreUnlink ≠ none ∧ fails .restoreIntermediate ≠ none) := by
  have hguest := guestFile_of_not_converted hconverted
  rw [hfile] at hguest
  have hkept : ∀ p g, HiddenFile l d p → ¬ OwnFile l d original p → d.file p = some g →
      (undoFirst fails d₃ original intermediate final).file p = some g := by
    intro p g _ hp hg
    rw [OwnFile, hconverted] at hp
    have hpi : p ≠ intermediate := by
      rintro rfl
      rw [hfreeI] at hg
      cases hg
    have hpf : p ≠ final := by
      rintro rfl
      rw [hfreeF] at hg
      cases hg
    rw [file_undoFirst hp hpi hpf, hlinked.others p hp hpi hpf, hg]
  have hatomic : AtomicLink l d original
        (.failed e, undoFirst fails d₃ original intermediate final) ↔
      guestFile l (undoFirst fails d₃ original intermediate final) original = some f := by
    constructor
    · intro h
      rw [h.found e rfl, hguest]
    · intro h
      refine ⟨nofun, fun _ _ => h.trans hguest.symm, hkept, ?_⟩
      intro _ _ hsome
      rw [hconverted] at hsome
      cases hsome
  rw [hatomic]
  by_cases hrename : fails .restoreRename = none
  · exact iff_of_true
      (guestFile_undoFirst hconverted hfile hkind hio hfo hif hlinked hrename) (.inl hrename)
  · rw [guestFile_undoFirst_iff hfile hhidden hio hlinked hrename, or_iff_right hrename]

end Undo

section First

variable {l : Linker} {fails : LinkCall → Option Errno} {d : LinkDisk}
  {original intermediate final : CString} {f : Lib.Inode LinkKind}

/-- The original path is missing in the end. -/
theorem not_atomic_of_vanished {e : Errno} {d' : LinkDisk}
    (hconverted : convertedTo l d original = none) (hfile : d.file original = some f)
    (hnone : d'.file original = none) : ¬ AtomicLink l d original (.failed e, d') := by
  intro h
  have hfound := h.found e rfl
  rw [guestFile_of_not_converted (convertedTo_of_file_eq_none hnone), hnone,
    guestFile_of_not_converted hconverted, hfile] at hfound
  cases hfound

/-- A hidden file is replaced. -/
theorem not_atomic_of_replaced {run : LinkOutcome × LinkDisk}
    {g : Lib.Inode LinkKind} (hconverted : convertedTo l d original = none)
    (hg : d.file p = some g) (hp : l.isHidden p = true) (hpo : p ≠ original)
    (hgone : run.2.Gone g.number) : ¬ AtomicLink l d original run := by
  intro h
  refine hgone.file_ne (h.kept p g (.inl hp) ?_ hg)
  rw [OwnFile, hconverted]
  exact hpo

/-- One of the hidden names is taken. -/
theorem linkFirst_not_atomic_of_taken {target : CString}
    (hconverted : convertedTo l d original = none) (hfile : d.file original = some f)
    (hintermediate : l.isHidden intermediate = true) (hfinal : l.isHidden final = true)
    (hio : intermediate ≠ original) (hfo : final ≠ original) (hif : intermediate ≠ final)
    (hmoved : d.rename (fails .rename) original final = some (d.move original final))
    (htaken : d.file final ≠ none ∨ d.file intermediate ≠ none) :
    ¬ AtomicLink l d original (linkFirst fails d original target intermediate final) := by
  cases hfreeF : d.file final with
  | some g =>
      have hgone := Lib.Entries.gone_move hfreeF (Ne.symm hfo)
      exact not_atomic_of_replaced hconverted hfreeF hfinal hfo
        (linkFirst_gone hmoved (fun _ => hgone) fun _ => LinkDisk.gone_of_replaceLink hgone)
  | none =>
    obtain ⟨g, hg⟩ := Option.ne_none_iff_exists'.mp (htaken.resolve_left fun h => h hfreeF)
    have hmovedO := Lib.Entries.file_move_old d (Ne.symm hfo)
    have hmovedI := (Lib.Entries.file_move_of_ne d hio hif).trans hg
    cases hnotify : fails .renameNotify with
    | some e =>
        rw [linkFirst, hmoved]
        dsimp only
        rw [hnotify]
        exact not_atomic_of_vanished hconverted hfile hmovedO
    | none =>
      rcases LinkDisk.replaceLink_of_taken hmovedI (fails .replaceIntermediate)
          (fails .symlinkIntermediate) final with herror | hgone
      · rw [linkFirst, hmoved]
        dsimp only
        rw [hnotify, herror]
        exact not_atomic_of_vanished hconverted hfile hmovedO
      · exact not_atomic_of_replaced hconverted hg hintermediate hio
          (linkFirst_gone hmoved (fun h => absurd hnotify h) hgone)

/-- **The last step**: the target is linked, or everything is undone. -/
theorem linkTarget_atomic_iff {d₃ : LinkDisk} {target : CString}
    (hconverted : convertedTo l d original = none) (hfile : d.file original = some f)
    (hkind : f.kind ≠ .directory) (hhidden : l.isHidden intermediate = true)
    (hio : intermediate ≠ original) (hfo : final ≠ original) (hif : intermediate ≠ final)
    (hfreeI : d.file intermediate = none) (hfreeF : d.file final = none)
    (hlinked : LinkedTwice d d₃ original intermediate final f) :
    AtomicLink l d original (match d₃.symlink (fails .symlinkTarget) intermediate target with
      | .error e => (.failed e, undoFirst fails d₃ original intermediate final)
      | .ok d => (.done, d)) ↔
      (fails .symlinkTarget = none ∧ d.file target = none ∧ target ≠ intermediate ∧
          target ≠ final) ∨
        fails .restoreRename = none ∨
        (fails .restoreUnlink ≠ none ∧ fails .restoreIntermediate ≠ none) := by
  have hothers := hlinked.others
  rcases LinkDisk.symlink_cases d₃ (fails .symlinkTarget) intermediate target with
    ⟨⟨e, he⟩, hnot⟩ | ⟨hok, hdone, hfree⟩
  · rw [he]
    dsimp only
    rw [undoFirst_atomic_iff hconverted hfile hkind hhidden hio hfo hif hfreeI hfreeF hlinked]
    refine (or_iff_right ?_).symm
    rintro ⟨h, hfree, hti, htf⟩
    refine hnot ⟨h, ?_⟩
    rw [hothers target ?_ hti htf, hfree]
    rintro rfl
    rw [hfile] at hfree
    cases hfree
  rw [hok]
  obtain ⟨⟨n, -, horiginal⟩, ⟨m, hintermediate⟩, hfinal, -⟩ := hlinked
  have hto : target ≠ original := by
    rintro rfl
    rw [horiginal] at hfree
    cases hfree
  have hti : target ≠ intermediate := by
    rintro rfl
    rw [hintermediate] at hfree
    cases hfree
  have htf : target ≠ final := by
    rintro rfl
    rw [hfinal] at hfree
    cases hfree
  rw [hothers target hto hti htf] at hfree
  refine iff_of_true ⟨nofun, nofun, ?_, ?_⟩ (.inl ⟨hdone, hfree, hti, htf⟩)
  · intro p g _ hp hg
    rw [OwnFile, hconverted] at hp
    have hpt : p ≠ target := by
      rintro rfl
      rw [hfree] at hg
      cases hg
    have hpi : p ≠ intermediate := by
      rintro rfl
      rw [hfreeI] at hg
      cases hg
    have hpf : p ≠ final := by
      rintro rfl
      rw [hfreeF] at hg
      cases hg
    exact (Lib.Entries.file_create_of_ne _ hpt _).trans ((hothers p hp hpi hpf).trans hg)
  · intro _ _ hsome
    rw [hconverted] at hsome
    cases hsome

/-- **The first link** to a file: when it is made or leaves no trace. -/
theorem linkFirst_atomic_iff (hconverted : convertedTo l d original = none)
    (hfile : d.file original = some f) (hkind : f.kind ≠ .directory)
    (hintermediate : l.isHidden intermediate = true) (hfinal : l.isHidden final = true)
    (hio : intermediate ≠ original) (hfo : final ≠ original) (hif : intermediate ≠ final)
    (target : CString) :
    AtomicLink l d original (linkFirst fails d original target intermediate final) ↔
      LinksFirst fails d original target intermediate final := by
  rcases LinkDisk.rename_cases d (fails .rename) original final with
    ⟨hnone, hnot⟩ | ⟨hmoved, hrenames⟩
  · rw [linkFirst, hnone]
    exact iff_of_true (.of_unchanged nofun) (.inl hnot)
  unfold LinksFirst
  rw [or_iff_right (not_not.mpr hrenames)]
  by_cases htaken : d.file final ≠ none ∨ d.file intermediate ≠ none
  · refine iff_of_false (linkFirst_not_atomic_of_taken hconverted hfile hintermediate hfinal hio
      hfo hif hmoved htaken) fun h => ?_
    exact htaken.elim (fun hf => hf h.1) fun hi => hi h.2.1
  obtain ⟨hfreeF, hfreeI⟩ := by simpa only [not_or, not_not] using htaken
  have hmovedO : (d.move original final).file original = none :=
    Lib.Entries.file_move_old d (Ne.symm hfo)
  have hmovedI : (d.move original final).file intermediate = none :=
    (Lib.Entries.file_move_of_ne d hio hif).trans hfreeI
  unfold linkFirst
  rw [hmoved]
  dsimp only
  rw [LinkDisk.replaceLink_of_free hmovedI]
  simp only [hfreeF, hfreeI, true_and]
  cases hnotify : fails .renameNotify with
  | some e => exact iff_of_false (not_atomic_of_vanished hconverted hfile hmovedO) (by simp)
  | none =>
    dsimp only
    by_cases hsymlink : fails .symlinkIntermediate = none
    swap
    · rw [if_neg hsymlink]
      exact iff_of_false (not_atomic_of_vanished hconverted hfile hmovedO)
        fun h => hsymlink h.2.1
    rw [if_pos hsymlink]
    dsimp only
    have hO₂ : ((d.move original final).create intermediate (.link final)).file original = none :=
      (Lib.Entries.file_create_of_ne _ (Ne.symm hio) _).trans hmovedO
    rcases LinkDisk.symlink_cases ((d.move original final).create intermediate (.link final))
        (fails .symlinkOriginal) intermediate original with ⟨⟨e, he⟩, hfails⟩ | ⟨hok, hfails, -⟩
    · rw [he]
      exact iff_of_false (not_atomic_of_vanished hconverted hfile hO₂)
        fun h => hfails ⟨h.2.2.1, hO₂⟩
    · rw [hok]
      simp only [hsymlink, hfails, true_and]
      exact linkTarget_atomic_iff hconverted hfile hkind hintermediate hio hfo hif hfreeI hfreeF
        (linkedTwice_of_moved hfile hio hfo hif)

end First

end Improot.Extension
