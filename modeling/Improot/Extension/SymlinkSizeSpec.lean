import Improot.Extension.SymlinkSize
import Improot.Syscall.ReadlinkSpec
import Improot.Tracee.MemSpec

/-!
# When the size is the length

The size that lstat(2) reports against the number that readlink(2) returns: they are the same, and
nothing else changes, where the structure has the layout that PRoot takes it to have and the content of
the link is not made longer or shorter for the guest.
-/

namespace Improot.Extension.SymlinkSize

open Improot.Lib Improot.Path Improot.Syscall

variable {m : Space} {arch : Arch} {call : LstatCall} {exit : LstatExit arch} {w : World}
  {extensions : ReadlinkProcFd} {path target : CString}

/-! ## The structure -/

variable {a n word : Nat} {bytes : Bytes}

theorem readable_of_load (h : m.load a n = some bytes) :
    readable m a n = bytes := by
  induction n generalizing a bytes with
  | zero =>
      cases h
      rfl
  | succ n ih =>
      obtain ⟨b, bs, hb, hbs, rfl⟩ := Memory.load_cons.mp h
      unfold readable
      rw [hb]
      dsimp only
      rw [ih hbs]

theorem readData_of_load {dest : Bytes} (h : m.load a n = some bytes)
    (hdest : dest.length = n) : (Tracee.readData word (readable m) m dest a n).1 = bytes := by
  have hlength := Memory.load_length h
  unfold Tracee.readData
  rw [readable_of_load h]
  dsimp only
  rw [if_pos hlength]
  show patch dest 0 bytes = bytes
  unfold patch
  rw [List.take_zero, List.nil_append, List.drop_eq_nil_of_le (by omega), List.append_nil]

theorem store_patch {off : Nat} {field : Bytes} (h : m.load a bytes.length = some bytes)
    (hfits : off + field.length ≤ bytes.length) (hw : m.Writable a bytes.length) :
    (m.store a (patch bytes off field)).1 = (m.store (a + off) field).1 := by
  have hstart : (bytes.take off).length = off := by
    rw [List.length_take]
    omega
  have hbefore : (m.store a (bytes.take off)).1 = m :=
    Memory.store_load (Memory.load_take h (by omega))
  have hbefore' : (m.store a (bytes.take off)).2 = true := by
    apply Memory.store_ok.mpr
    intro i hi
    exact hw i (by omega)
  have hfield : (m.store (a + off) field).2 = true := by
    apply Memory.store_ok.mpr
    intro i hi
    rw [Nat.add_assoc]
    exact hw _ (by omega)
  have hbehind : (m.store (a + off) field).1.load (a + off + field.length)
      (bytes.length - (off + field.length)) = some (bytes.drop (off + field.length)) := by
    rw [Memory.load_store_outside (.inr (Nat.le_refl _)), Nat.add_assoc]
    exact Memory.load_drop h hfits
  unfold patch
  rw [List.append_assoc, Memory.store_append, if_pos hbefore', hbefore, hstart, Memory.store_append,
    if_pos hfield]
  exact Memory.store_load hbehind

theorem writeData_ok (h : m.Writable a bytes.length) :
    writeData word m a bytes = ((m.store a bytes).1, .ok ()) := by
  have hstored := Memory.store_ok.mpr h
  unfold writeData
  split
  · rename_i heq
    rw [heq]
  · rename_i heq
    rw [heq] at hstored
    cases hstored

theorem writeData_failed (hword : 0 < word)
    (h : ¬ m.Writable a bytes.length) : (writeData word m a bytes).2 ≠ .ok () := by
  have hstored : ¬ (m.store a bytes).2 = true := fun hok => h (Memory.store_ok.mp hok)
  unfold writeData
  split
  · rename_i heq
    rw [heq] at hstored
    exact absurd rfl hstored
  · rename_i m' heq
    intro hok
    -- what was written until then is not unmapped
    have hwritable := ((Tracee.writeDataFallback_ok hword a bytes).1.mp hok)
    have hsame : m'.writable = m.writable := by
      have hmem := Memory.store_writable (m := m) a bytes
      rwa [heq] at hmem
    apply h
    intro i hi
    have := (Memory.writable_add.mp hwritable).1 i hi
    rwa [hsame] at this

theorem Arch.wordSize_pos (arch : Arch) : 0 < arch.wordSize := by
  cases arch <;> decide

theorem Arch.stat_fits (arch : Arch) : arch.stat.offset + arch.stat.width ≤ arch.stat.size := by
  cases arch <;> decide

theorem handleSysexitEnd_eq (h : Lstats w call exit m path target) :
    handleSysexitEnd w exit m =
      ((writeData arch.wordSize m exit.buf (patch (Tracee.readData arch.wordSize (readable m) m
          exit.statl exit.buf arch.stat.size).1 arch.stat.offset
          (le arch.stat.width target.length))).2,
        (writeData arch.wordSize m exit.buf (patch (Tracee.readData arch.wordSize (readable m) m
          exit.statl exit.buf arch.stat.size).1 arch.stat.offset
          (le arch.stat.width target.length))).1) := by
  have hfits := h.fits
  have hmin : min target.length pathMax = target.length := Nat.min_eq_left (Nat.le_of_lt h.short)
  unfold handleSysexitEnd
  rw [h.result, h.original]
  dsimp only
  rw [if_neg (by omega), h.link]
  dsimp only
  rw [if_neg (fun hne => hne rfl), h.content]
  dsimp only
  rw [hmin]

theorem handleSysexitEnd_writable (h : Lstats w call exit m path target)
    (hw : m.Writable exit.buf arch.stat.size) :
    handleSysexitEnd w exit m =
      (.ok (), (m.store (exit.buf + arch.stat.offset) (le arch.stat.width target.length)).1) := by
  obtain ⟨bytes, hload⟩ := Option.isSome_iff_exists.mp (Memory.load_of_writable hw)
  have hlength := Memory.load_length hload
  have hfits : arch.stat.offset + (le arch.stat.width target.length).length ≤ bytes.length := by
    rw [le_length, hlength]
    exact arch.stat_fits
  rw [handleSysexitEnd_eq h, readData_of_load hload exit.sized,
    writeData_ok (by rw [patch_length hfits, hlength]; exact hw)]
  rw [← hlength] at hload hw
  rw [store_patch hload hfits hw]

theorem length_readable (m : Space) (a n : Nat) : (readable m a n).length ≤ n := by
  induction n generalizing a with
  | zero => exact Nat.le_refl 0
  | succ n ih =>
      unfold readable
      cases m.byte? a with
      | none => exact Nat.zero_le _
      | some b => exact Nat.succ_le_succ (ih (a + 1))

theorem length_readData {dest : Bytes} (hword : 0 < word) (hdest : dest.length = n) :
    (Tracee.readData word (readable m) m dest a n).1.length = n := by
  have hpatch : (patch dest 0 (readable m a n)).length = n := by
    rw [patch_length (by rw [Nat.zero_add, hdest]; exact length_readable m a n), hdest]
  unfold Tracee.readData
  dsimp only
  split
  · exact hpatch
  · rw [(Tracee.readDataFallback_frame hword (Nat.le_of_eq hpatch.symm)).1, hpatch]

theorem handleSysexitEnd_failed (h : Lstats w call exit m path target)
    (hw : ¬ m.Writable exit.buf arch.stat.size) : (handleSysexitEnd w exit m).1 ≠ .ok () := by
  have hlength := length_readData (m := m) (a := exit.buf) arch.wordSize_pos exit.sized
  have hfits : arch.stat.offset + (le arch.stat.width target.length).length ≤
      (Tracee.readData arch.wordSize (readable m) m exit.statl exit.buf arch.stat.size).1.length := by
    rw [le_length, hlength]
    exact arch.stat_fits
  rw [handleSysexitEnd_eq h]
  apply writeData_failed arch.wordSize_pos
  rw [patch_length hfits, hlength]
  exact hw

/-! ## What the guest reads -/

def told (target : CString) : Option (Nat × CString) → Nat
  | none => target.length
  | some (status, referee) => if status < pathMax then referee.length else pathMax

theorem told_le {referer : CString}
    {procFd : Option (Int × Int)} {answer : Option (Nat × CString)} (hshort : target.length < pathMax)
    (h : guestReferee w extensions referer procFd target = .ok answer) :
    told target answer ≤ pathMax := by
  cases answer with
  | none => exact Nat.le_of_lt hshort
  | some answer =>
      obtain ⟨status, referee⟩ := answer
      show (if status < pathMax then referee.length else pathMax) ≤ pathMax
      split
      · exact Nat.le_of_lt (guestReferee_sized h).2
      · exact Nat.le_refl _

theorem readlinkExit_large (h : Lstats w call exit m path target) {readlink : ReadlinkCall}
    {m' : Syscall.Memory} (hread : Reads readlink path target m') :
    (readlinkExit w extensions readlink m').1 =
      (guestReferee w extensions path (procFd? path) target).map (told target) := by
  have hpathMax : 0 < pathMax := by decide
  have hlarge := hread.large
  have hshort := h.short
  have hfits := h.fits
  have hpath : path.length ≠ 0 := fun hzero => h.absolute (List.length_eq_zero_iff.mp hzero)
  have hmax : min readlink.maxSize pathMax = pathMax := Nat.min_eq_right hread.large
  have hreferer : readlink.referer w = .ok (path, procFd? path) := by
    unfold ReadlinkCall.referer
    rw [hread.input]
    dsimp only
    rw [if_neg (by omega), if_neg (by omega)]
  unfold readlinkExit
  rw [hread.kernel]
  dsimp only
  rw [hmax, if_neg (Nat.ne_of_gt hpathMax), hreferer, hread.stored]
  dsimp only
  rw [if_neg (Nat.ne_of_lt hshort)]
  cases hguest : guestReferee w extensions path (procFd? path) target with
  | error e => rfl
  | ok answer =>
      cases answer with
      | none => rfl
      | some answer =>
          obtain ⟨status, referee⟩ := answer
          obtain ⟨rfl, -⟩ := guestReferee_sized hguest
          show Except.ok (overwritePath m' readlink.output pathMax (referee.length + 1) referee).1 =
            Except.ok (if referee.length + 1 < pathMax then referee.length else pathMax)
          unfold overwritePath
          split <;> rfl

/-! ## The fields -/

theorem le_inj {width x y : Nat} (hx : x < 256 ^ width) (hy : y < 256 ^ width)
    (h : le width x = le width y) : x = y := by
  rw [← ofLe_le_of_lt hx, h, ofLe_le_of_lt hy]

theorem le_upper (h : n < 256 ^ 4) : (le 8 n).drop 4 = le 4 0 := by
  have hzero : n / 256 / 256 / 256 / 256 = 0 := by omega
  show le 4 (n / 256 / 256 / 256 / 256) = le 4 0
  rw [hzero]

theorem same_field_iff {width x y : Nat} (hw : m.Writable a width) (hx : x < 256 ^ width)
    (hy : y < 256 ^ width) :
    (m.store a (le width x)).1 = (m.store a (le width y)).1 ↔ x = y := by
  constructor
  · intro h
    have hloadx := Memory.load_store_le (n := x) hw
    have hloady := Memory.load_store_le (n := y) hw
    rw [h, hloady] at hloadx
    exact (le_inj hy hx (Option.some.inj hloadx)).symm
  · intro h
    rw [h]

theorem half_field {x y : Nat} (hw : m.Writable (a + 4) 8) (hw' : m.Writable a 8)
    (hx : x < 256 ^ 4) (hy : y < 256 ^ 4)
    (h : (m.store (a + 4) (le 8 x)).1 = (m.store a (le 8 y)).1) : x = 0 := by
  have hloadx := Memory.load_store_le (n := x) hw
  have hloady := Memory.load_store_le (n := y) hw'
  rw [h] at hloadx
  have hlower := Memory.load_take hloadx (show 4 ≤ 8 by decide)
  have hupper := Memory.load_drop hloady (show 4 ≤ 8 by decide)
  rw [le_upper hy] at hupper
  rw [show 8 - 4 = 4 from rfl, hlower] at hupper
  have htake : (le 8 x).take 4 = le 4 x := rfl
  rw [htake] at hupper
  exact le_inj hx (by decide) (Option.some.inj hupper)

theorem apart_fields_iff {b : Nat} {xs ys : Bytes} (hxs : m.Writable a xs.length)
    (hys : m.Writable b ys.length) (hapart : b + ys.length ≤ a) :
    (m.store a xs).1 = (m.store b ys).1 ↔
      m.load a xs.length = some xs ∧ m.load b ys.length = some ys := by
  constructor
  · intro h
    have hloadx := Memory.load_store (Memory.store_ok.mpr hxs)
    have hloady := Memory.load_store (Memory.store_ok.mpr hys)
    rw [h, Memory.load_store_outside (.inr hapart)] at hloadx
    rw [← h, Memory.load_store_outside (.inl hapart)] at hloady
    exact ⟨hloadx, hloady⟩
  · intro h
    rw [Memory.store_load h.1, Memory.store_load h.2]

/-! ## The condition -/

/-- **When the size is the length**: there is room for PRoot's structure, and readlink(2) succeeds.
Where `st_size` has the place that it has in PRoot, the content of the link is as long for the guest as
it is on the host.  In the oldest structure, with fields that lie apart, both already hold what they are
to hold. -/
def SizeSound (w : World) (extensions : ReadlinkProcFd) {arch : Arch} (call : LstatCall)
    (exit : LstatExit arch) (m : Space) (path target : CString) : Prop :=
  m.Writable exit.buf arch.stat.size ∧
    ∃ answer, guestReferee w extensions path (procFd? path) target = .ok answer ∧
      if call = .lstat32Bit then
        m.load (exit.buf + arch.stat.offset) arch.stat.width =
            some (le arch.stat.width target.length) ∧
          m.load (exit.buf + call.stat.offset) call.stat.width =
            some (le call.stat.width (told target answer))
      else
        call.stat.offset = arch.stat.offset ∧
          ∀ status referee, answer = some (status, referee) →
            status < pathMax ∧ referee.length = target.length

theorem told_eq_iff {answer : Option (Nat × CString)} (hshort : target.length < pathMax) :
    target.length = told target answer ↔
      ∀ status referee, answer = some (status, referee) →
        status < pathMax ∧ referee.length = target.length := by
  cases answer with
  | none =>
      refine iff_of_true rfl ?_
      intro status referee h
      cases h
  | some answer =>
      obtain ⟨status, referee⟩ := answer
      simp only [Option.some.injEq, Prod.mk.injEq, and_imp, forall_apply_eq_imp_iff, forall_eq']
      show target.length = (if status < pathMax then referee.length else pathMax) ↔ _
      by_cases hstatus : status < pathMax
      · rw [if_pos hstatus, eq_comm]
        exact (and_iff_right hstatus).symm
      · rw [if_neg hstatus]
        refine iff_of_false (Nat.ne_of_lt hshort) ?_
        intro h
        exact hstatus h.1

theorem Arch.layouts (h : call ∈ arch.calls) :
    arch.stat.width = 8 ∧
      if call = .lstat32Bit then call.stat.offset + call.stat.width ≤ arch.stat.offset
      else call.stat.width = 8 ∧
        (call.stat.offset = arch.stat.offset ∨ call.stat.offset + 4 = arch.stat.offset) := by
  revert h
  cases arch <;> cases call <;> decide

theorem LstatCall.stat_fits (call : LstatCall) :
    call.stat.offset + call.stat.width ≤ call.stat.size := by
  cases call <;> decide

/-- When the size that is written is the one that readlink(2) returns. -/
theorem memory_iff (h : Lstats w call exit m path target) (hw : m.Writable exit.buf arch.stat.size)
    {answer : Option (Nat × CString)} (htold : told target answer ≤ pathMax) :
    (m.store (exit.buf + arch.stat.offset) (le arch.stat.width target.length)).1 =
        (m.store (exit.buf + call.stat.offset) (le call.stat.width (told target answer))).1 ↔
      if call = .lstat32Bit then
        m.load (exit.buf + arch.stat.offset) arch.stat.width =
            some (le arch.stat.width target.length) ∧
          m.load (exit.buf + call.stat.offset) call.stat.width =
            some (le call.stat.width (told target answer))
      else
        call.stat.offset = arch.stat.offset ∧
          ∀ status referee, answer = some (status, referee) →
            status < pathMax ∧ referee.length = target.length := by
  have hshort := h.short
  have hfits := arch.stat_fits
  have hfits' := call.stat_fits
  have hown : m.Writable (exit.buf + arch.stat.offset) arch.stat.width :=
    hw.part (by omega) (by omega)
  have hguest : m.Writable (exit.buf + call.stat.offset) call.stat.width :=
    h.filled.part (by omega) (by omega)
  obtain ⟨hwidth, hlayout⟩ := Arch.layouts h.handled
  have hsmall : pathMax < 256 ^ 4 := by decide
  have hsmall' : pathMax < 256 ^ 8 := by decide
  by_cases hold : call = .lstat32Bit
  · rw [if_pos hold] at hlayout
    rw [if_pos hold]
    have hiff : (m.store (exit.buf + arch.stat.offset) (le arch.stat.width target.length)).1 =
        (m.store (exit.buf + call.stat.offset) (le call.stat.width (told target answer))).1 ↔ _ :=
      apart_fields_iff (by rwa [le_length]) (by rwa [le_length]) (by rw [le_length]; omega)
    rw [le_length, le_length] at hiff
    exact hiff
  · rw [if_neg hold] at hlayout
    rw [if_neg hold]
    obtain ⟨hwidth', hplace | hplace⟩ := hlayout
    · rw [hwidth] at hown
      rw [hplace, hwidth, hwidth', same_field_iff hown (by omega) (by omega), told_eq_iff hshort]
      exact (and_iff_right rfl).symm
    · rw [hwidth, hwidth', ← hplace, ← Nat.add_assoc]
      rw [hwidth, ← hplace, ← Nat.add_assoc] at hown
      rw [hwidth'] at hguest
      constructor
      · intro heq
        have hzero := half_field hown hguest (by omega) (by omega) heq
        exact absurd (List.length_eq_zero_iff.mp hzero) h.nonempty
      · intro ⟨hsame, _⟩
        omega

theorem exists_reads (path target : CString) : ∃ readlink m', Reads readlink path target m' := by
  refine ⟨⟨.readlink, .ok target.length, 0, pathMax, path, 0⟩,
    Syscall.writeData (fun _ => ' ') 0 target, ⟨rfl, rfl, Nat.le_refl _, rfl, ?_⟩⟩
  rw [readData_writeData (Nat.le_refl _), List.take_length]

theorem SizeIsLength.sound (hsize : SizeIsLength w extensions call exit m path target)
    (h : Lstats w call exit m path target) : SizeSound w extensions call exit m path target := by
  obtain ⟨readlink, m', hread⟩ := exists_reads path target
  obtain ⟨size, hlength, hreports⟩ := hsize readlink m' hread
  have hw : m.Writable exit.buf arch.stat.size := by
    by_contra hw
    exact handleSysexitEnd_failed h hw hreports.result
  rw [readlinkExit_large h hread] at hlength
  cases hguest : guestReferee w extensions path (procFd? path) target with
  | error e =>
      rw [hguest] at hlength
      cases hlength
  | ok answer =>
      rw [hguest] at hlength
      cases hlength
      have hmemory := hreports.memory
      rw [handleSysexitEnd_writable h hw] at hmemory
      exact ⟨hw, answer, hguest, (memory_iff h hw (told_le h.short hguest)).mp hmemory⟩

theorem SizeSound.sizeIsLength (hsound : SizeSound w extensions call exit m path target)
    (h : Lstats w call exit m path target) : SizeIsLength w extensions call exit m path target := by
  obtain ⟨hw, answer, hguest, hfields⟩ := hsound
  intro readlink m' hread
  refine ⟨told target answer, ?_, ?_⟩
  · rw [readlinkExit_large h hread, hguest]
    rfl
  · rw [handleSysexitEnd_writable h hw]
    exact ⟨rfl, (memory_iff h hw (told_le h.short hguest)).mpr hfields⟩

/-- The size of a link is the number that readlink(2) returns, and nothing else changes, if and only if
the layouts and the lengths are the same. -/
theorem sizeIsLength_iff (extensions : ReadlinkProcFd) (h : Lstats w call exit m path target) :
    SizeIsLength w extensions call exit m path target ↔
      SizeSound w extensions call exit m path target :=
  ⟨fun hsize => hsize.sound h, fun hsound => hsound.sizeIsLength h⟩

def zeros : Space := .ofBytes []

def relativeWorld : World where
  tracee := linkWorld.tracee
  host := { linkWorld.host with readlink := fun _ => .ok ['a', 'b', 'c'] }

def lstatLinkL : LstatExit .x86_64 where
  result := .ok ()
  original := .ok linkL
  buf := 4096
  statl := List.replicate 144 0
  sized := List.length_replicate

theorem relative_lstats (call : LstatCall) (h : call ∈ Arch.x86_64.calls) :
    Lstats relativeWorld call lstatLinkL zeros linkL ['a', 'b', 'c'] :=
  ⟨h, rfl, rfl, by decide, by decide, rfl, rfl, by decide, by decide, fun _ _ => rfl⟩

/-- A relative content stays as it is. -/
theorem sizeIsLength_relative :
    SizeIsLength relativeWorld noReadlinkProcFd .lstat64Bit lstatLinkL zeros linkL ['a', 'b', 'c'] := by
  apply (sizeIsLength_iff noReadlinkProcFd (relative_lstats .lstat64Bit (by decide))).mpr
  refine ⟨fun _ _ => rfl, none, rfl, rfl, ?_⟩
  intro status referee h
  cases h

/-- "/r/abc" is "/abc" for the guest, and its size is reported as 6; and with the structure of i386,
the size of a relative link comes out wrong. -/
theorem not_sizeIsLength :
    ¬ SizeIsLength linkWorld noReadlinkProcFd .lstat64Bit lstatLinkL zeros linkL linkTarget ∧
      ¬ SizeIsLength relativeWorld noReadlinkProcFd .lstat64 lstatLinkL zeros linkL
        ['a', 'b', 'c'] := by
  constructor
  · intro h
    have hlstats : Lstats linkWorld .lstat64Bit lstatLinkL zeros linkL linkTarget :=
      ⟨by decide, rfl, rfl, by decide, by decide, rfl, rfl, by decide, by decide, fun _ _ => rfl⟩
    obtain ⟨-, answer, hguest, hfields⟩ := h.sound hlstats
    have hanswer : guestReferee linkWorld noReadlinkProcFd linkL (procFd? linkL) linkTarget =
        .ok (some (5, ['/', 'a', 'b', 'c'])) := rfl
    rw [hanswer] at hguest
    cases hguest
    have hlength := (hfields.2 5 ['/', 'a', 'b', 'c'] rfl).2
    exact absurd hlength (by decide)
  · intro h
    obtain ⟨-, answer, -, hfields⟩ := h.sound (relative_lstats .lstat64 (by decide))
    exact absurd hfields.1 (by decide)

end Improot.Extension.SymlinkSize
