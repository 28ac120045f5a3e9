import Improot.Extension.LinkSymlinkSpec

/-!
# Another link to the same file

The final file gets another count in its name, and its intermediate is made again; a link(2) that
fails after that takes the count back.  Together with the first link: when a link(2) is atomic.
-/

namespace Improot.Extension

/-! ## Counts -/

variable {final intermediate newFinal original p : CString} {fails : DecrementCall → Option Errno}
  {d : LinkDisk} {f : Lib.Inode LinkKind} {l : Linker}

namespace Linker

theorem digitsValue_of_digits {s : CString} (h : ∀ c ∈ s, c.isDigit = true) :
    digitsValue s = Nat.ofDigitChars 10 s 0 := by
  rw [digitsValue, List.takeWhile_eq_self_iff.mpr h]

theorem leftpad_digits (n width : Nat) :
    ∀ c ∈ (Nat.toDigits 10 n).leftpad width '0', c.isDigit = true := by
  intro c hc
  rw [List.leftpad, List.mem_append] at hc
  rcases hc with hc | hc
  · rw [List.eq_of_mem_replicate hc]
    rfl
  · exact Nat.isDigit_of_mem_toDigits (by decide : 0 < 10) (by decide : 10 ≤ 10) hc

theorem digitsValue_leftpad (n width : Nat) :
    digitsValue ((Nat.toDigits 10 n).leftpad width '0') = n := by
  rw [digitsValue_of_digits (leftpad_digits n width), List.leftpad, Nat.ofDigitChars_append,
    Nat.ofDigitChars_replicate_zero, Nat.mul_zero, Nat.ofDigitChars_ten_toDigits]

theorem atoi_digits {s : CString} (h : ∀ c ∈ s, c.isDigit = true) : atoi s = digitsValue s := by
  unfold atoi
  cases s with
  | nil => rfl
  | cons c s =>
      have hc := h c List.mem_cons_self
      have hspace : isSpace c = false := by
        simp only [isSpace, decide_eq_false_iff_not]
        simp only [Char.isDigit, Bool.and_eq_true, decide_eq_true_eq] at hc
        have hge : 48 ≤ c.toNat := by simpa [UInt32.le_iff_toNat_le] using hc.1
        rintro (rfl | ⟨-, hle⟩)
        · exact absurd hge (by decide)
        · omega
      rw [List.dropWhile_cons_of_neg (by simp [hspace])]
      split
      · rename_i heq
        cases heq
        exact absurd hc (by decide)
      · rename_i heq
        cases heq
        exact absurd hc (by decide)
      · rfl

theorem atoi_print04 (n : Int) : atoi (print04 n) = n := by
  unfold print04
  cases n with
  | ofNat n =>
      dsimp only
      rw [atoi_digits (leftpad_digits n 4), digitsValue_leftpad]
      rfl
  | negSucc n =>
      dsimp only
      have hspace : ¬ isSpace '-' = true := by decide
      rw [atoi, List.dropWhile_cons_of_neg hspace]
      show - ((digitsValue _ : Nat) : Int) = _
      rw [digitsValue_leftpad]
      rfl

theorem print04_length (n : Int) : 4 ≤ (print04 n).length := by
  unfold print04
  cases n with
  | ofNat n =>
      dsimp only
      rw [List.length_leftpad]
      exact Nat.le_max_left ..
  | negSucc n =>
      dsimp only
      rw [List.length_cons, List.length_leftpad]
      have := Nat.le_max_left 3 (Nat.toDigits 10 (n + 1)).length
      omega

theorem withCount_eq_self {count : Int} (h : withCount final count = final) :
    count = linkCount final := by
  have hsplit := List.take_append_drop (final.length - 4) final
  rw [withCount] at h
  conv_rhs at h => rw [← hsplit]
  have hprint := List.append_cancel_left h
  rw [linkCount, ← hprint, atoi_print04]

theorem withCount_succ_ne (final : CString) : withCount final (linkCount final + 1) ≠ final := by
  intro h
  have := withCount_eq_self h
  omega

theorem withCount_pred_ne (final : CString) : withCount final (linkCount final - 1) ≠ final := by
  intro h
  have := withCount_eq_self h
  omega

theorem length_withCount (final : CString) (count : Int) : 4 ≤ (withCount final count).length := by
  have := print04_length count
  rw [withCount, List.length_append]
  omega

end Linker

/-! ## Changing the count -/

def Renumbers (fails : DecrementCall → Option Errno) (d : LinkDisk) (newFinal : CString) : Prop :=
  d.file newFinal = none ∧ fails .renameNotify = none ∧ fails .unlinkIntermediate = none ∧
    fails .symlinkIntermediate = none

theorem renumber_gone {number : Nat} (h : d.Gone number) :
    (renumber fails d intermediate final newFinal).2.Gone number := by
  unfold renumber
  split
  · exact h
  rename_i hrename
  have h := LinkDisk.gone_of_rename h hrename
  split
  · exact h
  split
  · exact h
  rename_i hunlink
  have h := LinkDisk.gone_of_unlink h hunlink
  split
  · rename_i hreplace
    exact LinkDisk.gone_of_replaceLink h (.inr hreplace)
  · rename_i hreplace
    exact LinkDisk.gone_of_replaceLink h (.inl hreplace)

def Broken (d e : LinkDisk) (intermediate final : CString) (f : Lib.Inode LinkKind) : Prop :=
  (∀ p, p ≠ intermediate → e.file p ≠ some f) ∨ e.file intermediate = none ∨
    (e.file intermediate = d.file intermediate ∧ e.file final = none)

/-- **What changing the count does**: nothing; or a file that is in the way is lost; or the link is
broken; or the intermediate leads to the new name. -/
theorem renumber_cases (fails : DecrementCall → Option Errno)
    (hlink : d.readlink intermediate = some final) (hfile : d.file final = some f)
    (hfi : final ≠ intermediate) (hnew : newFinal ≠ final) :
    (¬ d.Renames (fails .rename) final newFinal ∧
      renumber fails d intermediate final newFinal = (.failed .eperm, d)) ∨
    (d.Renames (fails .rename) final newFinal ∧ ¬ Renumbers fails d newFinal ∧
      ((∃ h, (renumber fails d intermediate final newFinal).2.Gone h.number ∧
          (h = f ∨ (newFinal ≠ intermediate ∧ d.file newFinal = some h))) ∨
        ∃ e d', renumber fails d intermediate final newFinal = (.failed e, d') ∧
          Broken d d' intermediate final f)) ∨
    (d.Renames (fails .rename) final newFinal ∧ Renumbers fails d newFinal ∧
      renumber fails d intermediate final newFinal =
        (.done, ((d.move final newFinal).remove intermediate).create intermediate
          (.link newFinal))) := by
  obtain ⟨n, hn⟩ := LinkDisk.readlink_eq_some.mp hlink
  rcases LinkDisk.rename_cases d (fails .rename) final newFinal with
    ⟨hnone, hnot⟩ | ⟨hmoved, hrenames⟩
  · exact .inl ⟨hnot, by rw [renumber, hnone]⟩
  refine .inr ?_
  have hnewFile : (d.move final newFinal).file newFinal = some f := by
    rw [Lib.Entries.file_move_new, hfile]
  cases htaken : d.file newFinal with
  | some h =>
      refine .inl ⟨hrenames, by simp [Renumbers, htaken], ?_⟩
      by_cases hni : newFinal = intermediate
      · -- the final file takes the place of the intermediate, which is removed after that
        subst hni
        have honly : ∀ p, p ≠ newFinal → (d.move final newFinal).file p ≠ some f :=
          fun p hp hpf => hp ((d.move final newFinal).distinct hpf hnewFile rfl)
        unfold renumber
        rw [hmoved]
        dsimp only
        cases hnotify : fails .renameNotify with
        | some e => exact .inr ⟨_, _, rfl, .inl honly⟩
        | none =>
          dsimp only
          rcases LinkDisk.unlink_cases (d.move final newFinal) (fails .unlinkIntermediate)
              newFinal with ⟨hnone, -⟩ | ⟨hsome, -⟩
          · rw [hnone]
            exact .inr ⟨_, _, rfl, .inl honly⟩
          · rw [hsome]
            have hgone := Lib.Entries.gone_remove hnewFile
            refine .inl ⟨f, ?_, .inl rfl⟩
            dsimp only
            split
            · rename_i hreplace
              exact LinkDisk.gone_of_replaceLink hgone (.inr hreplace)
            · rename_i hreplace
              exact LinkDisk.gone_of_replaceLink hgone (.inl hreplace)
      · have hgone := Lib.Entries.gone_move htaken (Ne.symm hnew)
        refine .inl ⟨h, ?_, .inr ⟨hni, rfl⟩⟩
        unfold renumber
        rw [hmoved]
        dsimp only
        split
        · exact hgone
        split
        · exact hgone
        rename_i hunlink
        have hgone := LinkDisk.gone_of_unlink hgone hunlink
        split
        · rename_i hreplace
          exact LinkDisk.gone_of_replaceLink hgone (.inr hreplace)
        · rename_i hreplace
          exact LinkDisk.gone_of_replaceLink hgone (.inl hreplace)
  | none =>
      have hni : intermediate ≠ newFinal := by
        rintro rfl
        rw [hn] at htaken
        cases htaken
      have hintermediate : (d.move final newFinal).file intermediate = d.file intermediate :=
        Lib.Entries.file_move_of_ne d (Ne.symm hfi) hni
      have hfinal : (d.move final newFinal).file final = none :=
        Lib.Entries.file_move_old d (Ne.symm hnew)
      unfold renumber Renumbers
      rw [hmoved]
      dsimp only
      cases hnotify : fails .renameNotify with
      | some e =>
          exact .inl ⟨hrenames, by simp, .inr ⟨_, _, rfl, .inr (.inr ⟨hintermediate, hfinal⟩)⟩⟩
      | none =>
        dsimp only
        rcases LinkDisk.unlink_cases (d.move final newFinal) (fails .unlinkIntermediate)
            intermediate with ⟨hnone, hnot⟩ | ⟨hsome, hunlinks⟩
        · rw [hnone]
          refine .inl ⟨hrenames, ?_, .inr ⟨_, _, rfl, .inr (.inr ⟨hintermediate, hfinal⟩)⟩⟩
          rintro ⟨-, -, h, -⟩
          exact hnot ⟨h, _, hintermediate.trans hn, nofun⟩
        · rw [hsome]
          dsimp only
          rw [LinkDisk.replaceLink_of_free (Lib.Entries.file_remove_self _ _)]
          by_cases hsymlink : fails .symlinkIntermediate = none
          · rw [if_pos hsymlink]
            exact .inr ⟨hrenames, ⟨htaken, rfl, hunlinks.1, hsymlink⟩, rfl⟩
          · rw [if_neg hsymlink]
            refine .inl ⟨hrenames, fun h => hsymlink h.2.2.2, .inr ⟨_, _, rfl, .inr (.inl ?_)⟩⟩
            exact Lib.Entries.file_remove_self _ _

/-! ## Another link -/

def countCalls (fails : LinkCall → Option Errno) : DecrementCall → Option Errno
  | .rename => fails .rename
  | .renameNotify => fails .renameNotify
  | .unlinkIntermediate => fails .unlinkIntermediate
  | .replaceIntermediate => fails .replaceIntermediate
  | .symlinkIntermediate => fails .symlinkIntermediate
  | _ => none

def finishLink (l : Linker) (fails : LinkCall → Option Errno)
    (original target intermediate : CString) : LinkOutcome × LinkDisk → LinkOutcome × LinkDisk
  | (.done, d) =>
    match d.symlink (fails .symlinkTarget) intermediate target with
    | .error e =>
      (.failed e, (decrementLinkCount l (fun call => fails (.decrement call)) d original).2)
    | .ok d => (.done, d)
  | run => run

theorem linkAgain_eq (l : Linker) (fails : LinkCall → Option Errno) (d : LinkDisk)
    (original target intermediate final newFinal : CString) :
    linkAgain l fails d original target intermediate final newFinal =
      finishLink l fails original target intermediate
        (renumber (countCalls fails) d intermediate final newFinal) := by
  unfold linkAgain renumber
  simp only [countCalls]
  cases d.rename (fails .rename) final newFinal with
  | none => rfl
  | some d =>
    dsimp only
    cases fails .renameNotify with
    | some e => rfl
    | none =>
      dsimp only
      cases d.unlink (fails .unlinkIntermediate) intermediate with
      | none => rfl
      | some d =>
        dsimp only
        cases d.replaceLink (fails .replaceIntermediate) (fails .symlinkIntermediate) newFinal
            intermediate with
        | error d => rfl
        | ok d => rfl

theorem decrementLinkCount_gone {number : Nat} (h : d.Gone number) :
    (decrementLinkCount l fails d original).2.Gone number := by
  unfold decrementLinkCount
  split
  · exact h
  split
  · exact h
  split
  · exact h
  split
  · exact h
  dsimp only
  split
  · exact renumber_gone h
  · unfold removeLast
    split
    · exact h
    rename_i hunlink
    have h := LinkDisk.gone_of_unlink h hunlink
    split
    · exact h
    rename_i hunlink
    have h := LinkDisk.gone_of_unlink h hunlink
    split
    · exact h
    · exact h

theorem finishLink_gone (l : Linker) (fails : LinkCall → Option Errno)
    (original target intermediate : CString) {run : LinkOutcome × LinkDisk} {number : Nat}
    (h : run.2.Gone number) :
    (finishLink l fails original target intermediate run).2.Gone number := by
  obtain ⟨outcome, d⟩ := run
  cases outcome with
  | done =>
      unfold finishLink
      dsimp only
      split
      · exact decrementLinkCount_gone h
      · rename_i hsymlink
        exact LinkDisk.gone_of_symlink h hsymlink
  | failed | overrun => exact h

/-- When undoing keeps the file: it does nothing; or it gives the file a free name again and no call
fails; or it would remove the file, and fails to. -/
def Undoes (fails : DecrementCall → Option Errno) (d : LinkDisk) (final newFinal : CString) :
    Prop :=
  fails .stat ≠ none ∨
    if Linker.linkCount newFinal - 1 > 0 then
      let oldFinal := Linker.withCount newFinal (Linker.linkCount newFinal - 1)
      fails .rename ≠ none ∨
        (oldFinal ≠ final ∧ ∃ f g, d.file final = some f ∧ d.file oldFinal = some g ∧
          ¬ (f.kind = .directory ↔ g.kind = .directory)) ∨
        ((oldFinal = final ∨ d.file oldFinal = none) ∧ fails .renameNotify = none ∧
          fails .unlinkIntermediate = none ∧ fails .symlinkIntermediate = none)
    else fails .unlinkIntermediate ≠ none

/-- When another link to a file is atomic: nothing is moved; or the new name is free and no call
fails, except the last one, which is undone. -/
def LinksAgain (fails : LinkCall → Option Errno) (d : LinkDisk)
    (original target intermediate final newFinal : CString) : Prop :=
  ¬ d.Renames (fails .rename) final newFinal ∨
    (final ≠ intermediate ∧ d.file newFinal = none ∧ fails .renameNotify = none ∧
      fails .unlinkIntermediate = none ∧ fails .symlinkIntermediate = none ∧
      ((fails .symlinkTarget = none ∧ (target = final ∨ d.file target = none) ∧
          target ≠ newFinal) ∨
        (final ≠ original ∧ Undoes (fun call => fails (.decrement call)) d final newFinal)))

section Again

variable {l : Linker} {fails : LinkCall → Option Errno} {d : LinkDisk}
  {original target intermediate final newFinal : CString} {f : Lib.Inode LinkKind}
  {run : LinkOutcome × LinkDisk}
  (hconverted : convertedTo l d original = some (intermediate, final))

include hconverted

theorem not_atomic_of_broken (hfile : d.file final = some f)
    (hbroken : ∀ f', f' ≠ intermediate → run.2.readlink intermediate = some f' →
      run.2.file f' ≠ some f)
    (hchanged : run.2.file intermediate ≠ d.file intermediate ∨ run.2.file final ≠ some f) :
    ¬ AtomicLink l d original run := by
  intro h
  rcases h.reachable intermediate final hconverted with ⟨hsame, hsame'⟩ | ⟨f', hne, hlink, hf'⟩
  · rw [hfile] at hsame'
    rcases hchanged with hchanged | hchanged
    · exact hchanged hsame
    · exact hchanged hsame'
  · rw [hfile] at hf'
    exact hbroken f' hne hlink hf'

theorem not_atomic_of_gone
    (hfile : d.file final = some f) (hgone : run.2.Gone f.number) : ¬ AtomicLink l d original run :=
  not_atomic_of_broken hconverted hfile (fun _ _ _ => hgone.file_ne) (.inr hgone.file_ne)

theorem not_atomic_of_missing
    (hfile : d.file final = some f) (hmissing : run.2.file intermediate = none) :
    ¬ AtomicLink l d original run := by
  obtain ⟨-, -, hlink⟩ := convertedTo_eq_some.mp hconverted
  obtain ⟨n, hn⟩ := LinkDisk.readlink_eq_some.mp hlink
  refine not_atomic_of_broken hconverted hfile (fun f' _ hf' => ?_) (.inl ?_)
  · rw [LinkDisk.readlink, hmissing] at hf'
    cases hf'
  · rw [hmissing, hn]
    rintro ⟨⟩

theorem not_atomic_of_dangling
    (hfile : d.file final = some f) {q : CString} (hlink : run.2.readlink intermediate = some q)
    (hnone : run.2.file q = none) : ¬ AtomicLink l d original run := by
  obtain ⟨-, -, hfinal⟩ := convertedTo_eq_some.mp hconverted
  refine not_atomic_of_broken hconverted hfile (fun f' _ hf' => ?_) ?_
  · rw [hlink] at hf'
    cases hf'
    rw [hnone]
    rintro ⟨⟩
  · by_cases hq : q = final
    · right
      rw [← hq, hnone]
      rintro ⟨⟩
    · left
      intro hsame
      rw [LinkDisk.readlink, hsame, ← LinkDisk.readlink, hfinal] at hlink
      exact hq (Option.some.inj hlink).symm

theorem not_atomic_of_broken_count {d₁ d' : LinkDisk} {q : CString} {outcome : LinkOutcome}
   
    (hfile : d.file final = some f) (hfi : final ≠ intermediate)
    (hlink : d₁.readlink intermediate = some q) (hbroken : Broken d₁ d' intermediate q f) :
    ¬ AtomicLink l d original (outcome, d') := by
  rcases hbroken with hunnamed | hmissing | ⟨hsame, hnone⟩
  · exact not_atomic_of_broken hconverted hfile (fun f' hne _ => hunnamed f' hne)
      (.inr (hunnamed final hfi))
  · exact not_atomic_of_missing hconverted hfile hmissing
  · refine not_atomic_of_dangling hconverted hfile ?_ hnone
    rw [← hlink, LinkDisk.readlink, LinkDisk.readlink, hsame]

theorem hiddenFile_of_stem (h : final.take (final.length - 4) <+: p) : HiddenFile l d p := by
  obtain ⟨-, hhidden, hlink⟩ := convertedTo_eq_some.mp hconverted
  exact .inr ⟨intermediate, final, hhidden, hlink, h⟩

theorem not_atomic_of_lost {h : Lib.Inode LinkKind} (hp : d.file p = some h)
    (hstem : final.take (final.length - 4) <+: p) (hpi : p ≠ intermediate) (hpf : p ≠ final)
    (hgone : run.2.Gone h.number) : ¬ AtomicLink l d original run := by
  intro hatomic
  refine hgone.file_ne (hatomic.kept p h (hiddenFile_of_stem hconverted hstem) ?_ hp)
  rw [OwnFile, hconverted]
  rintro (hown | hown)
  · exact hpi hown
  · exact hpf hown

theorem converted_files : (∃ n, d.file original = some ⟨n, .link intermediate⟩) ∧
      (∃ n, d.file intermediate = some ⟨n, .link final⟩) ∧ l.isHidden intermediate = true ∧
      (final ≠ intermediate → original ≠ intermediate) := by
  obtain ⟨horiginal, hhidden, hlink⟩ := convertedTo_eq_some.mp hconverted
  refine ⟨LinkDisk.readlink_eq_some.mp horiginal, LinkDisk.readlink_eq_some.mp hlink, hhidden, ?_⟩
  rintro hne rfl
  rw [hlink] at horiginal
  exact hne (Option.some.inj horiginal)

theorem atomic_of_chain {outcome : LinkOutcome} {d' : LinkDisk} {final' : CString}
   
    (hfile : d.file final = some f) (hne : final ≠ intermediate) (hne' : final' ≠ intermediate)
    (hlink : d'.readlink intermediate = some final') (hfile' : d'.file final' = some f)
    (hkept : ∀ p h, d.file p = some h → p ≠ intermediate → p ≠ final → d'.file p = some h)
    (hoverrun : outcome ≠ .overrun)
    (hfailed : ∀ e, outcome = .failed e → final ≠ original) :
    AtomicLink l d original (outcome, d') := by
  obtain ⟨⟨n, horiginal⟩, -, hhidden, hoi⟩ := converted_files hconverted
  refine ⟨hoverrun, fun e he => ?_, fun p h _ hown hp => ?_, ?_⟩
  · have horiginal' := hkept original _ horiginal (hoi hne) (Ne.symm (hfailed e he))
    have hconverted' : convertedTo l d' original = some (intermediate, final') :=
      convertedTo_eq_some.mpr ⟨LinkDisk.readlink_eq_some.mpr ⟨n, horiginal'⟩, hhidden, hlink⟩
    rw [guestFile, guestFile, hconverted, hconverted', Option.bind_some, Option.bind_some, hfile,
      hfile']
    rfl
  · rw [OwnFile, hconverted] at hown
    exact hkept p h hp (fun hpi => hown (.inl hpi)) (fun hpf => hown (.inr hpf))
  · intro i' f' hsome
    rw [hconverted] at hsome
    cases hsome
    exact .inr ⟨final', hne', hlink, hfile'.trans hfile.symm⟩

end Again

def renumbered (d : LinkDisk) (intermediate final newFinal : CString) : LinkDisk :=
  ((d.move final newFinal).remove intermediate).create intermediate (.link newFinal)

section Renumbered

variable {d : LinkDisk} {intermediate final newFinal : CString}

theorem renumbered_intermediate (d : LinkDisk) (intermediate final newFinal : CString) :
    (renumbered d intermediate final newFinal).file intermediate =
      some ⟨d.next, .link newFinal⟩ := Lib.Entries.file_create_self ..

theorem renumbered_final (hnew : newFinal ≠ intermediate) :
    (renumbered d intermediate final newFinal).file newFinal = d.file final := by
  rw [renumbered, Lib.Entries.file_create_of_ne _ hnew, Lib.Entries.file_remove_of_ne _ hnew,
    Lib.Entries.file_move_new]

theorem renumbered_old (hfi : final ≠ intermediate) (hnew : final ≠ newFinal) :
    (renumbered d intermediate final newFinal).file final = none := by
  rw [renumbered, Lib.Entries.file_create_of_ne _ hfi, Lib.Entries.file_remove_of_ne _ hfi,
    Lib.Entries.file_move_old d hnew]

theorem renumbered_of_ne (hpi : p ≠ intermediate) (hpf : p ≠ final)
    (hpn : p ≠ newFinal) : (renumbered d intermediate final newFinal).file p = d.file p := by
  rw [renumbered, Lib.Entries.file_create_of_ne _ hpi, Lib.Entries.file_remove_of_ne _ hpi,
    Lib.Entries.file_move_of_ne d hpf hpn]

theorem renumbered_kept (hfree : d.file newFinal = none) {h : Lib.Inode LinkKind}
    (hp : d.file p = some h) (hpi : p ≠ intermediate) (hpf : p ≠ final) :
    (renumbered d intermediate final newFinal).file p = some h := by
  rw [renumbered_of_ne hpi hpf, hp]
  rintro rfl
  rw [hfree] at hp
  cases hp

theorem renumbered_free_iff {fi : Lib.Inode LinkKind} (hintermediate : d.file intermediate = some fi)
    (hfile : d.file final = some f) (hfi : final ≠ intermediate) (hfree : d.file newFinal = none)
    (hpn : p ≠ newFinal) :
    (renumbered d intermediate final newFinal).file p = none ↔
      p = final ∨ d.file p = none := by
  constructor
  · intro hnone
    by_contra hnot
    obtain ⟨hpf, hsome⟩ := not_or.mp hnot
    obtain ⟨h, hh⟩ := Option.ne_none_iff_exists'.mp hsome
    by_cases hpi : p = intermediate
    · rw [hpi, renumbered_intermediate] at hnone
      cases hnone
    · rw [renumbered_kept hfree hh hpi hpf] at hnone
      cases hnone
  · rintro (rfl | hnone)
    · exact renumbered_old hfi hpn
    · rw [renumbered_of_ne ?_ ?_ hpn, hnone]
      · rintro rfl
        rw [hintermediate] at hnone
        cases hnone
      · rintro rfl
        rw [hfile] at hnone
        cases hnone

theorem renumbered_renames_iff {m : Nat} {oldFinal : CString}
    (fails : Option Errno) (hm : d.file intermediate = some ⟨m, .link final⟩)
    (hfile : d.file final = some f) (hfi : final ≠ intermediate) (hfree : d.file newFinal = none)
    (hni : newFinal ≠ intermediate) (hold : oldFinal ≠ newFinal) :
    (renumbered d intermediate final newFinal).Renames fails newFinal oldFinal ↔
      fails = none ∧ ¬ (oldFinal ≠ final ∧ ∃ f g, d.file final = some f ∧
        d.file oldFinal = some g ∧ ¬ (f.kind = .directory ↔ g.kind = .directory)) := by
  have hR : (renumbered d intermediate final newFinal).file newFinal = some f := by
    rw [renumbered_final hni, hfile]
  have hRi := renumbered_intermediate d intermediate final newFinal
  have hlinks : ∀ {a b : Nat} {p q : CString},
      ((⟨a, .link p⟩ : Lib.Inode LinkKind).kind = .directory ↔
        (⟨b, .link q⟩ : Lib.Inode LinkKind).kind = .directory) :=
    iff_of_false (by rintro ⟨⟩) (by rintro ⟨⟩)
  refine and_congr_right fun _ => ⟨?_, fun h => ⟨f, hR, fun g hg => ?_⟩⟩
  · rintro ⟨f', hf', hkinds⟩ ⟨hof, f'', g, hf'', hg, hblocked⟩
    rw [hR] at hf'
    cases hf'
    rw [hfile] at hf''
    cases hf''
    by_cases hoi : oldFinal = intermediate
    · rw [hoi, hm] at hg
      cases hg
      have hkinds := hkinds ⟨d.next, .link newFinal⟩ (by rw [hoi, hRi])
      exact hblocked (hkinds.trans hlinks)
    · exact hblocked (hkinds g (renumbered_kept hfree hg hoi hof))
  · by_contra hblocked
    by_cases hoi : oldFinal = intermediate
    · rw [hoi, hRi] at hg
      cases hg
      refine h ⟨fun hof => hfi (hof.symm.trans hoi), f, _, hfile, by rw [hoi, hm], ?_⟩
      intro hkinds
      exact hblocked (hkinds.trans hlinks)
    · have hof : oldFinal ≠ final := by
        rintro rfl
        rw [renumbered_old hfi hold] at hg
        cases hg
      rw [renumbered_of_ne hoi hof hold] at hg
      exact h ⟨hof, f, g, hfile, hg, hblocked⟩

end Renumbered

/-- When undoing the new number leaves no trace. -/
theorem renumber_undo_iff {oldFinal : CString} {e : Errno}
    (hconverted : convertedTo l d original = some (intermediate, final))
    (hfile : d.file final = some f) (hfi : final ≠ intermediate) (hfo : final ≠ original)
    (hfree : d.file newFinal = none) (hni : newFinal ≠ intermediate) (hold : oldFinal ≠ newFinal)
    (hstem : final.take (final.length - 4) <+: oldFinal) :
    AtomicLink l d original (.failed e,
      (renumber fails (renumbered d intermediate final newFinal) intermediate newFinal
        oldFinal).2) ↔
      fails .rename ≠ none ∨
        (oldFinal ≠ final ∧ ∃ f g, d.file final = some f ∧ d.file oldFinal = some g ∧
          ¬ (f.kind = .directory ↔ g.kind = .directory)) ∨
        ((oldFinal = final ∨ d.file oldFinal = none) ∧ fails .renameNotify = none ∧
          fails .unlinkIntermediate = none ∧ fails .symlinkIntermediate = none) := by
  obtain ⟨⟨n, horiginal⟩, ⟨m, hm⟩, hhidden, hoi⟩ := converted_files hconverted
  have hnf : final ≠ newFinal := by
    rintro rfl
    rw [hfree] at hfile
    cases hfile
  have hR : (renumbered d intermediate final newFinal).file newFinal = some f := by
    rw [renumbered_final hni, hfile]
  have hRi := renumbered_intermediate d intermediate final newFinal
  have hlink : (renumbered d intermediate final newFinal).readlink intermediate = some newFinal :=
    LinkDisk.readlink_eq_some.mpr ⟨_, hRi⟩
  have hkept : ∀ p h, d.file p = some h → p ≠ intermediate → p ≠ final →
      (renumbered d intermediate final newFinal).file p = some h :=
    fun _ _ => renumbered_kept hfree
  have hsame : ∀ h, oldFinal ≠ intermediate →
      (renumbered d intermediate final newFinal).file oldFinal = some h →
        oldFinal ≠ final ∧ d.file oldFinal = some h := by
    intro h hoi hg
    have hof : oldFinal ≠ final := by
      rintro rfl
      rw [renumbered_old hfi hnf] at hg
      cases hg
    exact ⟨hof, by rwa [renumbered_of_ne hoi hof hold] at hg⟩
  have hfreeR := renumbered_free_iff hm hfile hfi hfree hold
  have hrenames := renumbered_renames_iff (fails .rename) hm hfile hfi hfree hni hold
  rcases renumber_cases fails hlink hR hni hold with ⟨hnot, hrun⟩ | ⟨hren, hnot, hlost⟩ |
    ⟨hren, hnum, hrun⟩
  · -- nothing is undone
    rw [hrun]
    refine iff_of_true (atomic_of_chain hconverted hfile hfi hni hlink hR hkept (by rintro ⟨⟩)
      fun _ _ => hfo) ?_
    rw [hrenames] at hnot
    by_cases hfails : fails .rename = none
    · refine .inr (.inl ?_)
      by_contra hblocked
      exact hnot ⟨hfails, hblocked⟩
    · exact .inl hfails
  · refine iff_of_false ?_ ?_
    · rcases hlost with ⟨h, hgone, rfl | ⟨hoi, hh⟩⟩ | ⟨e', d', hrun, hbroken⟩
      · exact not_atomic_of_gone hconverted hfile hgone
      · obtain ⟨hof, hg⟩ := hsame h hoi hh
        exact not_atomic_of_lost hconverted hg hstem hoi hof hgone
      · rw [hrun]
        exact not_atomic_of_broken_count hconverted hfile hfi hlink hbroken
    · rw [hrenames] at hren
      rintro (h | h | h)
      · exact h hren.1
      · exact hren.2 h
      · exact hnot ⟨hfreeR.mpr h.1, h.2⟩
  · rw [hrun]
    refine iff_of_true ?_ (.inr (.inr ⟨hfreeR.mp hnum.1, hnum.2⟩))
    have hoi : oldFinal ≠ intermediate := by
      intro heq
      have hnone := hnum.1
      rw [heq, hRi] at hnone
      cases hnone
    refine atomic_of_chain hconverted hfile hfi hoi (LinkDisk.readlink_eq_some.mpr
      ⟨_, renumbered_intermediate ..⟩) ((renumbered_final hoi).trans hR) ?_ (by rintro ⟨⟩)
      fun _ _ => hfo
    intro p h hp hpi hpf
    have hp' := hkept p h hp hpi hpf
    rw [← hp']
    refine renumbered_of_ne hpi ?_ ?_
    · rintro rfl
      rw [hfree] at hp
      cases hp
    · rintro rfl
      rw [hnum.1] at hp'
      cases hp'

/-- When lowering the count again leaves no trace. -/
theorem decrement_atomic_iff {e : Errno} (hlength : original.length + 1 < pathMax)
    (hconverted : convertedTo l d original = some (intermediate, final))
    (hfile : d.file final = some f) (hfi : final ≠ intermediate) (hfo : final ≠ original)
    (hnew : newFinal ≠ final) (hfree : d.file newFinal = none) (hfour : 4 ≤ newFinal.length)
    (hstem : final.take (final.length - 4) <+: newFinal.take (newFinal.length - 4)) :
    AtomicLink l d original (.failed e,
      (decrementLinkCount l fails (renumbered d intermediate final newFinal) original).2) ↔
      Undoes fails d final newFinal := by
  obtain ⟨⟨n, horiginal⟩, ⟨m, hm⟩, hhidden, hoi⟩ := converted_files hconverted
  have hni : newFinal ≠ intermediate := by
    rintro rfl
    rw [hm] at hfree
    cases hfree
  have hno : original ≠ newFinal := by
    rintro rfl
    rw [horiginal] at hfree
    cases hfree
  have hkept : ∀ p h, d.file p = some h → p ≠ intermediate → p ≠ final →
      (renumbered d intermediate final newFinal).file p = some h :=
    fun _ _ => renumbered_kept hfree
  have hlink : (renumbered d intermediate final newFinal).readlink intermediate = some newFinal :=
    LinkDisk.readlink_eq_some.mpr ⟨_, renumbered_intermediate ..⟩
  have hfile' : (renumbered d intermediate final newFinal).file newFinal = some f := by
    rw [renumbered_final hni, hfile]
  have hconverted' : convertedTo l (renumbered d intermediate final newFinal) original =
      some (intermediate, newFinal) :=
    convertedTo_eq_some.mpr ⟨LinkDisk.readlink_eq_some.mpr
      ⟨n, hkept original _ horiginal (hoi hfi) (Ne.symm hfo)⟩, hhidden, hlink⟩
  have hatomic : AtomicLink l d original
      (.failed e, renumbered d intermediate final newFinal) :=
    atomic_of_chain hconverted hfile hfi hni hlink hfile' hkept nofun fun _ _ => hfo
  unfold decrementLinkCount Undoes
  rw [if_neg (by omega)]
  cases hstat : fails .stat with
  | some e => exact iff_of_true hatomic (.inl nofun)
  | none =>
    rw [if_neg (by simp), hconverted']
    simp only [ne_eq, not_true_eq_false, false_or]
    rw [if_neg (by omega)]
    by_cases hcount : Linker.linkCount newFinal - 1 > 0
    · rw [if_pos hcount, if_pos hcount]
      have holdFinal := Linker.withCount_pred_ne newFinal
      have hstem' : final.take (final.length - 4) <+:
          Linker.withCount newFinal (Linker.linkCount newFinal - 1) :=
        hstem.trans (List.prefix_append _ _)
      generalize Linker.withCount newFinal (Linker.linkCount newFinal - 1) = oldFinal
        at holdFinal hstem'
      exact renumber_undo_iff hconverted hfile hfi hfo hfree hni holdFinal hstem'
    · rw [if_neg hcount, if_neg hcount, removeLast]
      rcases LinkDisk.unlink_cases (renumbered d intermediate final newFinal)
          (fails .unlinkIntermediate) intermediate with ⟨hnone, hnot⟩ | ⟨hsome, hunlinks⟩
      · rw [hnone]
        exact iff_of_true hatomic fun h => hnot ⟨h, _, renumbered_intermediate .., nofun⟩
      · rw [hsome]
        refine iff_of_false (not_atomic_of_missing hconverted hfile ?_) fun h => h hunlinks.1
        dsimp only
        rcases LinkDisk.unlink_cases
            ((renumbered d intermediate final newFinal).remove intermediate) (fails .unlinkFinal)
            newFinal with ⟨hnone, -⟩ | ⟨hsome, -⟩
        · rw [hnone]
          exact Lib.Entries.file_remove_self _ _
        · rw [hsome]
          have hremoved : (((renumbered d intermediate final newFinal).remove intermediate).remove
              newFinal).file intermediate = none := by
            rw [Lib.Entries.file_remove_of_ne _ (Ne.symm hni), Lib.Entries.file_remove_self]
          dsimp only
          split
          · exact hremoved
          · exact hremoved

theorem renumber_self (calls : DecrementCall → Option Errno)
    (hrenames : d.Renames (calls .rename) final newFinal) (hnew : final ≠ newFinal) :
    ∃ e, renumber calls d final final newFinal = (.failed e, d.move final newFinal) := by
  unfold renumber
  rcases LinkDisk.rename_cases d (calls .rename) final newFinal with ⟨-, h⟩ | ⟨hmoved, -⟩
  · exact absurd hrenames h
  rw [hmoved]
  dsimp only
  cases calls .renameNotify with
  | some e => exact ⟨e, rfl⟩
  | none =>
    dsimp only
    rcases LinkDisk.unlink_cases (d.move final newFinal) (calls .unlinkIntermediate) final with
      ⟨hnone, -⟩ | ⟨-, -, g, hg, -⟩
    · rw [hnone]
      exact ⟨_, rfl⟩
    · rw [Lib.Entries.file_move_old d hnew] at hg
      cases hg

theorem not_atomic_of_original {e : Errno} (hlength : original.length + 1 < pathMax)
    (hconverted : convertedTo l d original = some (intermediate, original))
    (hfile : d.file original = some f)
    (hmissing : (renumbered d intermediate original newFinal).file original = none) :
    ¬ AtomicLink l d original (.failed e,
      (decrementLinkCount l fails (renumbered d intermediate original newFinal) original).2) := by
  have hnothing : (decrementLinkCount l fails (renumbered d intermediate original newFinal)
      original).2 = renumbered d intermediate original newFinal := by
    unfold decrementLinkCount
    rw [if_neg (by omega), convertedTo_of_file_eq_none hmissing]
    split
    · rfl
    · rfl
  rw [hnothing]
  intro h
  have hfound := h.found e rfl
  rw [guestFile_of_not_converted (convertedTo_of_file_eq_none hmissing), hmissing, guestFile,
    hconverted, Option.bind_some, hfile] at hfound
  cases hfound

/-- The last step, once the count has changed: the symlink to the target. -/
theorem finishLink_atomic_iff {fails : LinkCall → Option Errno} {target : CString}
    (hlength : original.length + 1 < pathMax)
    (hconverted : convertedTo l d original = some (intermediate, final))
    (hfile : d.file final = some f) (hfi : final ≠ intermediate)
    (hnew : newFinal ≠ final) (hfree : d.file newFinal = none) (hfour : 4 ≤ newFinal.length)
    (hstem : final.take (final.length - 4) <+: newFinal.take (newFinal.length - 4)) :
    AtomicLink l d original (finishLink l fails original target intermediate
        (.done, renumbered d intermediate final newFinal)) ↔
      (fails .symlinkTarget = none ∧ (target = final ∨ d.file target = none) ∧
          target ≠ newFinal) ∨
        (final ≠ original ∧ Undoes (fun call => fails (.decrement call)) d final newFinal) := by
  obtain ⟨-, ⟨m, hm⟩, -, -⟩ := converted_files hconverted
  rw [finishLink]
  have hni : newFinal ≠ intermediate := by
    rintro rfl
    rw [hm] at hfree
    cases hfree
  have hRi := renumbered_intermediate d intermediate final newFinal
  have hRf : (renumbered d intermediate final newFinal).file newFinal = some f := by
    rw [renumbered_final hni, hfile]
  have hRo : (renumbered d intermediate final newFinal).file final = none :=
    renumbered_old hfi (Ne.symm hnew)
  have htarget : (renumbered d intermediate final newFinal).file target = none ↔
      (target = final ∨ d.file target = none) ∧ target ≠ newFinal := by
    by_cases htn : target = newFinal
    · subst htn
      rw [hRf]
      exact iff_of_false (by rintro ⟨⟩) fun h => h.2 rfl
    · rw [renumbered_free_iff hm hfile hfi hfree htn]
      exact (and_iff_left htn).symm
  rcases LinkDisk.symlink_cases (renumbered d intermediate final newFinal)
      (fails .symlinkTarget) intermediate target with ⟨⟨e, he⟩, hnot⟩ | ⟨hok, hdone, hfreeT⟩
  · rw [he, or_iff_right fun h => hnot ⟨h.1, htarget.mpr h.2⟩]
    by_cases hfo : final = original
    · -- the file was under the original path itself
      refine iff_of_false ?_ fun h => h.1 hfo
      subst hfo
      exact not_atomic_of_original hlength hconverted hfile hRo
    · rw [and_iff_right hfo]
      exact decrement_atomic_iff hlength hconverted hfile hfi hfo hnew hfree hfour hstem
  · rw [hok]
    refine iff_of_true ?_ (.inl ⟨hdone, htarget.mp hfreeT⟩)
    have hti : intermediate ≠ target := by
      rintro rfl
      rw [hRi] at hfreeT
      cases hfreeT
    refine atomic_of_chain hconverted hfile hfi hni (LinkDisk.readlink_eq_some.mpr
      ⟨d.next, ?_⟩) ?_ ?_ (by rintro ⟨⟩) (by rintro _ ⟨⟩)
    · rw [Lib.Entries.file_create_of_ne _ hti, hRi]
    · rw [Lib.Entries.file_create_of_ne _ (Ne.symm (htarget.mp hfreeT).2), hRf]
    · intro p h hp hpi hpf
      have hp' := renumbered_kept hfree hp hpi hpf
      rw [Lib.Entries.file_create_of_ne, hp']
      rintro rfl
      rw [hfreeT] at hp'
      cases hp'

/-- **Another link**: when it is made or leaves no trace. -/
theorem linkAgain_atomic_iff {fails : LinkCall → Option Errno} {target : CString}
    (hlength : original.length + 1 < pathMax)
    (hconverted : convertedTo l d original = some (intermediate, final))
    (hnew : newFinal ≠ final) (hfour : 4 ≤ newFinal.length)
    (hstem : final.take (final.length - 4) <+: newFinal.take (newFinal.length - 4)) :
    AtomicLink l d original (linkAgain l fails d original target intermediate final newFinal) ↔
      LinksAgain fails d original target intermediate final newFinal := by
  obtain ⟨-, hm, -, -⟩ := converted_files hconverted
  have hlinkI : d.readlink intermediate = some final := LinkDisk.readlink_eq_some.mpr hm
  rw [linkAgain_eq]
  unfold LinksAgain
  by_cases hrenames : d.Renames (fails .rename) final newFinal
  swap
  · -- nothing is moved
    have hrun : renumber (countCalls fails) d intermediate final newFinal =
        (.failed .eperm, d) := by
      rcases LinkDisk.rename_cases d (fails .rename) final newFinal with ⟨hnone, -⟩ | ⟨-, h⟩
      · simp only [renumber, countCalls, hnone]
      · exact absurd h hrenames
    rw [hrun]
    have hnothing : AtomicLink l d original (.failed .eperm, d) := .of_unchanged (by rintro ⟨⟩)
    exact iff_of_true hnothing (.inl hrenames)
  rw [or_iff_right (not_not.mpr hrenames)]
  obtain ⟨f, hfile, -⟩ := hrenames.2
  by_cases hfi : final = intermediate
  · -- the intermediate leads to itself, and is moved
    refine iff_of_false ?_ fun h => h.1 hfi
    subst hfi
    have hmissing : (d.move final newFinal).file final = none :=
      Lib.Entries.file_move_old d (Ne.symm hnew)
    obtain ⟨e, hrun⟩ := renumber_self (countCalls fails) hrenames (Ne.symm hnew)
    rw [hrun]
    exact not_atomic_of_missing hconverted hfile hmissing
  rcases renumber_cases (countCalls fails) hlinkI hfile hfi hnew with
    ⟨hnot, -⟩ | ⟨-, hnot, hlost⟩ | ⟨-, hnum, hrun⟩
  · exact absurd hrenames hnot
  · refine iff_of_false ?_ fun h => hnot ⟨h.2.1, h.2.2.1, h.2.2.2.1, h.2.2.2.2.1⟩
    rcases hlost with ⟨h, hgone, hwhich⟩ | ⟨e, d', hrun, hbroken⟩
    · -- a file is lost, whatever comes next
      have hgone' := finishLink_gone l fails original target intermediate hgone
      rcases hwhich with rfl | ⟨hni, hh⟩
      · exact not_atomic_of_gone hconverted hfile hgone'
      · exact not_atomic_of_lost hconverted hh (hstem.trans (List.take_prefix _ _)) hni hnew hgone'
    · rw [hrun]
      exact not_atomic_of_broken_count hconverted hfile hfi hlinkI hbroken
  · -- the count has changed
    obtain ⟨hfree, hnotify, hunlink, hsymlink⟩ := hnum
    rw [hrun, ← renumbered,
      finishLink_atomic_iff hlength hconverted hfile hfi hnew hfree hfour hstem]
    exact ⟨fun h => ⟨hfi, hfree, hnotify, hunlink, hsymlink, h⟩, fun h => h.2.2.2.2.2⟩

/-! ## The hidden names -/

namespace Linker

theorem baseName_append {before name : CString} (hname : '/' ∉ name)
    (hbefore : before = [] ∨ before.getLast? = some '/') : baseName (before ++ name) = name := by
  have hall : ∀ c ∈ name.reverse, decide (c ≠ '/') = true := by
    intro c hc
    rw [decide_eq_true_eq]
    rintro rfl
    exact hname (List.mem_reverse.mp hc)
  have hnone : before.reverse.takeWhile (fun c => decide (c ≠ '/')) = [] := by
    rcases hbefore with rfl | hlast
    · rfl
    · obtain ⟨front, rfl⟩ := List.getLast?_eq_some_iff.mp hlast
      rw [List.reverse_append, List.reverse_singleton, List.singleton_append,
        List.takeWhile_cons_of_neg (by simp)]
  rw [baseName, List.rtakeWhile, List.reverse_append, List.takeWhile_append_of_pos hall, hnone,
    List.append_nil, List.reverse_reverse]

theorem not_slash_print04 (n : Int) : '/' ∉ print04 n := by
  unfold print04
  cases n with
  | ofNat n =>
      dsimp only
      intro hmem
      exact absurd (leftpad_digits n 4 _ hmem) (by decide)
  | negSucc n =>
      dsimp only
      rw [List.mem_cons]
      rintro (h | hmem)
      · exact absurd h (by decide)
      · exact absurd (leftpad_digits (n + 1) 3 _ hmem) (by decide)

theorem not_slash_baseName (path : CString) : '/' ∉ baseName path := by
  intro hmem
  rw [baseName, List.rtakeWhile, List.mem_reverse] at hmem
  exact absurd (List.mem_takeWhile_imp hmem) (by decide)

theorem not_slash_hiddenTag (l : Linker) : '/' ∉ l.hiddenTag := by
  unfold hiddenTag
  split
  · decide
  · decide

theorem baseName_stem_append (l : Linker) (original : CString) {suffix : CString}
    (h : '/' ∉ suffix) :
    baseName (l.stem original ++ suffix) = l.hiddenTag ++ (baseName original ++ suffix) := by
  have hname : '/' ∉ l.hiddenTag ++ (baseName original ++ suffix) := by
    simp [not_slash_hiddenTag, not_slash_baseName, h]
  unfold stem
  split
  · rename_i directory _
    have hsplit : directory ++ '/' :: l.hiddenTag ++ baseName original ++ suffix =
        (directory ++ ['/']) ++ (l.hiddenTag ++ (baseName original ++ suffix)) := by
      simp
    rw [hsplit]
    exact baseName_append hname (.inr List.getLast?_concat)
  · rw [List.append_assoc, List.append_assoc]
    refine baseName_append hname ?_
    by_cases hempty : original.rdropWhile (fun c => decide (c ≠ '/')) = []
    · exact .inl hempty
    · refine .inr ?_
      have hlast := List.rdropWhile_last_not (fun c => decide (c ≠ '/')) original hempty
      rw [List.getLast?_eq_some_getLast hempty]
      congr 1
      simpa using hlast

theorem isHidden_of_baseName {path name : CString}
    (h : baseName path = l.hiddenTag ++ name) : l.isHidden path = true := by
  rw [isHidden, h, List.isPrefixOf_iff_prefix]
  exact List.prefix_append _ _

theorem firstNames (l : Linker) (original : CString) (n : Nat) :
    l.isHidden (l.intermediate original n) = true ∧
      l.isHidden (firstFinal (l.intermediate original n)) = true ∧
      l.intermediate original n ≠ original ∧ firstFinal (l.intermediate original n) ≠ original ∧
      l.intermediate original n ≠ firstFinal (l.intermediate original n) := by
  have hfour := print04_length n
  have hintermediate := l.baseName_stem_append original (not_slash_print04 n)
  have hslash : '/' ∉ print04 n ++ ".0002".toList := by
    rw [List.mem_append]
    exact not_or.mpr ⟨not_slash_print04 n, by decide⟩
  have hfinal := l.baseName_stem_append original hslash
  rw [← List.append_assoc] at hfinal
  refine ⟨isHidden_of_baseName hintermediate, isHidden_of_baseName hfinal, ?_, ?_, ?_⟩
  · intro heq
    rw [← intermediate, heq] at hintermediate
    have hlength := congrArg List.length hintermediate
    simp only [List.length_append] at hlength
    omega
  · intro heq
    rw [← intermediate, ← firstFinal, heq] at hfinal
    have hlength := congrArg List.length hfinal
    simp only [List.length_append] at hlength
    omega
  · intro heq
    have hlength := congrArg List.length heq
    rw [firstFinal, List.length_append] at hlength
    simp at hlength

end Linker

/-! ## Every link(2) -/

def LinksAtomically (l : Linker) (fails : LinkCall → Option Errno) (d : LinkDisk)
    (original target : CString) : Prop :=
  pathMax ≤ original.length + 1 ∨ pathMax ≤ target.length + 1 ∨
    (fails .targetStat = none ∧ d.file target ≠ none) ∨ fails .originalStat ≠ none ∨
    (∀ f, d.file original = some f → f.kind = .directory) ∨
    match convertedTo l d original with
    | some (intermediate, final) =>
      let newFinal := Linker.withCount final (Linker.linkCount final + 1)
      4 ≤ final.length ∧ newFinal.length < pathMax ∧
        LinksAgain fails d original target intermediate final newFinal
    | none =>
      l.tooLong original = true ∨ (l.directory.isSome ∧ fails .openDirectory ≠ none) ∨
        let intermediate :=
          l.intermediate original (searchNumber (occupied l fails d original) 9998 1)
        let final := Linker.firstFinal intermediate
        final.length < pathMax ∧ LinksFirst fails d original target intermediate final

theorem not_atomic_overrun {d' : LinkDisk} :
    ¬ AtomicLink l d original (.overrun, d') := fun h => h.no_overrun rfl

/-- **A link(2) is atomic** if and only if the condition `LinksAtomically` holds. -/
theorem moveAndSymlinkPath_atomic_iff (l : Linker) (fails : LinkCall → Option Errno) (d : LinkDisk)
    (original target : CString) :
    AtomicLink l d original (moveAndSymlinkPath l fails d original target) ↔
      LinksAtomically l fails d original target := by
  unfold moveAndSymlinkPath LinksAtomically
  by_cases horiginal : original.length + 1 ≥ pathMax
  · rw [if_pos horiginal]
    exact iff_of_true (.of_unchanged nofun) (.inl horiginal)
  rw [if_neg horiginal, or_iff_right horiginal]
  by_cases htarget : target.length + 1 ≥ pathMax
  · rw [if_pos htarget]
    exact iff_of_true (.of_unchanged nofun) (.inl htarget)
  rw [if_neg htarget, or_iff_right htarget]
  by_cases hexists : fails .targetStat = none ∧ d.file target ≠ none
  · rw [if_pos (by simpa [Option.isSome_iff_ne_none] using hexists)]
    exact iff_of_true (.of_unchanged nofun) (.inl hexists)
  rw [if_neg (by simpa [Option.isSome_iff_ne_none] using hexists), or_iff_right hexists]
  cases hstat : fails .originalStat with
  | some e => exact iff_of_true (.of_unchanged nofun) (.inl nofun)
  | none =>
    rw [or_iff_right (by simp)]
    cases hfile : d.file original with
    | none => exact iff_of_true (.of_unchanged nofun) (.inl nofun)
    | some f =>
      dsimp only
      by_cases hkind : f.kind = .directory
      · rw [if_pos hkind]
        refine iff_of_true (.of_unchanged nofun) (.inl ?_)
        rintro g ⟨⟩
        exact hkind
      rw [if_neg hkind, or_iff_right fun h => hkind (h f rfl)]
      cases hconverted : convertedTo l d original with
      | some names =>
        obtain ⟨intermediate, final⟩ := names
        dsimp only
        by_cases hfour : final.length < 4
        · rw [if_pos hfour]
          exact iff_of_false not_atomic_overrun fun h => absurd h.1 (by omega)
        rw [if_neg hfour, and_iff_right (by omega)]
        have hnew := Linker.withCount_succ_ne final
        have hlength := Linker.length_withCount final (Linker.linkCount final + 1)
        have hstem : final.take (final.length - 4) <+:
            (Linker.withCount final (Linker.linkCount final + 1)).take
              ((Linker.withCount final (Linker.linkCount final + 1)).length - 4) := by
          have hprint := Linker.print04_length (Linker.linkCount final + 1)
          rw [Linker.withCount, List.length_append, Nat.add_sub_assoc hprint,
            List.take_length_add_append]
          exact List.prefix_append _ _
        generalize Linker.withCount final (Linker.linkCount final + 1) = newFinal
          at hnew hlength hstem ⊢
        by_cases hlong : newFinal.length ≥ pathMax
        · rw [if_pos hlong]
          exact iff_of_false not_atomic_overrun fun h => absurd h.1 (by omega)
        · rw [if_neg hlong, and_iff_right (by omega)]
          exact linkAgain_atomic_iff (by omega) hconverted hnew hlength hstem
      | none =>
        dsimp only
        by_cases hlong : l.tooLong original = true
        · rw [if_pos hlong]
          exact iff_of_true (.of_unchanged nofun) (.inl hlong)
        rw [if_neg hlong, or_iff_right hlong]
        obtain ⟨hi, hf, hio, hfo, hif⟩ :=
          l.firstNames original (searchNumber (occupied l fails d original) 9998 1)
        generalize l.intermediate original (searchNumber (occupied l fails d original) 9998 1) =
          intermediate at hi hf hio hfo hif ⊢
        by_cases hopen : l.directory.isSome = true ∧ fails .openDirectory ≠ none
        · obtain ⟨e, he⟩ := Option.ne_none_iff_exists'.mp hopen.2
          rw [if_pos hopen.1, he]
          exact iff_of_true (.of_unchanged nofun) (.inl ⟨hopen.1, nofun⟩)
        have hnone : (if l.directory.isSome then fails .openDirectory else none) = none := by
          split
          · rename_i hsome
            by_contra h
            exact hopen ⟨hsome, h⟩
          · rfl
        rw [hnone, or_iff_right hopen]
        dsimp only
        by_cases hfit : (Linker.firstFinal intermediate).length ≥ pathMax
        · rw [if_pos hfit]
          exact iff_of_false not_atomic_overrun fun h => absurd h.1 (by omega)
        · rw [if_neg hfit, and_iff_right (by omega)]
          exact linkFirst_atomic_iff hconverted hfile hkind hi hf hio hfo hif target

def diskFull : LinkCall → Option Errno
  | .symlinkIntermediate => some .enospc
  | _ => none

/-- The file is left under its hidden name. -/
theorem moveAndSymlinkPath_loses_file :
    ¬ ∀ (l : Linker) (fails : LinkCall → Option Errno) (d : LinkDisk) (original target : CString),
      AtomicLink l d original (moveAndSymlinkPath l fails d original target) := by
  intro h
  let d : LinkDisk := Lib.Entries.empty.create "/a".toList .file
  have hrun : (moveAndSymlinkPath ⟨false, none⟩ diskFull d "/a".toList "/b".toList).1 =
      .failed .eperm := by decide +kernel
  have hfound := (h ⟨false, none⟩ diskFull d "/a".toList "/b".toList).found .eperm hrun
  have hbefore : guestFile ⟨false, none⟩ d "/a".toList = some ⟨0, .file⟩ := by decide +kernel
  have hafter : guestFile ⟨false, none⟩
      (moveAndSymlinkPath ⟨false, none⟩ diskFull d "/a".toList "/b".toList).2 "/a".toList =
        none := by decide +kernel
  rw [hbefore, hafter] at hfound
  cases hfound

end Improot.Extension
