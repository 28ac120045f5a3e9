import Improot.Lib.Records
import Improot.Path.Basic
import Mathlib.Data.List.TakeWhile
import Mathlib.Tactic.NormNum

/-!
# The envelope of CARE's archives

`extension/care/final.c` ends an archive that comes after something else (the "RAW" marker or the
program itself) with a trailer, which holds its size.  The callbacks of `extension/care/extract.c`
find the archive again from that trailer, and take a file without it for a bare archive.
-/

namespace Improot.Extension.Care

open Lib (Bytes le ofLe)

/-! ## The trailer -/

def autoextractSignature : Bytes := [73, 95, 76, 79, 86, 69, 95, 80, 73, 90, 90, 65]

/-- `sizeof(AutoExtractInfo)`: the signature, its NUL and a number. -/
def infoSize : Nat := 21

def htobe64 (n : Nat) : Bytes := (le 8 n).reverse

def be64toh (bytes : Bytes) : Nat := ofLe bytes.reverse

def autoExtractInfo (size : Nat) : Bytes := autoextractSignature ++ 0 :: htobe64 size

/-! ## Writing -/

inductive Special where
  | notSpecial
  | raw
  /-- a copy of the running program, which isn't empty -/
  | selfExtracting (exe : Bytes) (h : exe ≠ [])

/-- What `new_archive` writes; its length is the offset that it remembers.  Nothing is remembered
about a bare archive, which has no descriptor either. -/
def Special.start : Special → Bytes
  | notSpecial => []
  | raw => [82, 65, 87]
  | selfExtracting exe _ => exe

/-- `finalize_care`: the file, once the archive is complete.  `none` is a failed assertion. -/
def finalizeCare (special : Special) (archive : Bytes) : Option Bytes :=
  let offset := special.start.length
  if 0 < offset then
    let position := (special.start ++ archive).length
    if offset < position then
      some (special.start ++ archive ++ autoExtractInfo (position - offset))
    else none
  else some (special.start ++ archive)

/-! ## Reading -/

/-- The file system: the largest size of a file, which is the largest offset too. -/
structure FileSystem where
  maxBytes : Nat
  maxBytes_lt : maxBytes < 2 ^ 63

abbrev File (fs : FileSystem) := { bytes : Bytes // bytes.length ≤ fs.maxBytes }

/-- `lseek(fd, offset, SEEK_SET)`. -/
def FileSystem.lseek (fs : FileSystem) (offset : Int) : Option Nat :=
  if offset < 0 ∨ fs.maxBytes < offset then none else some offset.toNat

/-- What the callbacks share: where the file is read next, and `size_remaining`. -/
structure Reader where
  offset : Nat
  sizeRemaining : Nat

def sizeMax : Nat := 2 ^ 64 - 1

def procSelfExe : CString :=
  ['/', 'p', 'r', 'o', 'c', '/', 's', 'e', 'l', 'f', '/', 'e', 'x', 'e']

def lastBytes (file : Bytes) : Bytes := file.drop (file.length - infoSize)

def isSigned (info : Bytes) : Bool := info.takeWhile (· ≠ 0) = autoextractSignature

/-- The size in an `AutoExtractInfo`. -/
def recordedSize (info : Bytes) : Nat := be64toh (info.drop 13)

/-- `open_callback`; `none` is `ARCHIVE_FATAL`.  The structure comes zeroed from its allocation. -/
def openCallback (fs : FileSystem) (path : CString) (file : Bytes) : Option Reader :=
  if file.length < infoSize then some { offset := 0, sizeRemaining := 0 }
  else
    let info := lastBytes file
    if isSigned info then
      let sizeRemaining := recordedSize info
      -- unsigned arithmetic, put into a signed number
      let offset := ((file.length : Int) - sizeRemaining - infoSize).bmod (2 ^ 64)
      (fs.lseek offset).map fun offset => { offset, sizeRemaining }
    else if path = procSelfExe then none
    else (fs.lseek 0).map fun offset => { offset, sizeRemaining := sizeMax }

/-- `sizeof(data->buffer)`. -/
def bufferSize : Nat := 4096

/-- `read_callback`, when the kernel grants `granted` bytes at most (one, at least): the bytes that
were read, none at the end.  `none` is a failed assertion. -/
def readCallback (file : Bytes) (granted : Nat) (r : Reader) : Option (Bytes × Reader) :=
  let size := if bufferSize > r.sizeRemaining then r.sizeRemaining else bufferSize
  if bufferSize > r.sizeRemaining ∧ size = 0 then some ([], r)
  else
    let bytes := (file.drop r.offset).take (min size (max 1 granted))
    if bytes.length ≤ r.sizeRemaining then
      some (bytes, ⟨r.offset + bytes.length, r.sizeRemaining - bytes.length⟩)
    else none

/-- All that `read_callback` delivers until it comes to the end.  `none` is a failed assertion, or a
run that isn't over. -/
def deliver (file : Bytes) (granted : Nat → Nat) : Nat → Reader → Option Bytes
  | 0, _ => none
  | fuel + 1, r =>
    match readCallback file (granted fuel) r with
    | none => none
    | some (bytes, r) =>
      if bytes = [] then some [] else (deliver file granted fuel r).map (bytes ++ ·)

/-! ## What is expected -/

/-- Opening the file at `path` and reading it gives `bytes`, however the reads are cut. -/
def Delivers (fs : FileSystem) (path : CString) (file bytes : Bytes) : Prop :=
  ∃ r, openCallback fs path file = some r ∧
    ∀ granted fuel, file.length < fuel → deliver file granted fuel r = some bytes

def HasTrailer (file : Bytes) : Prop := infoSize ≤ file.length ∧ isSigned (lastBytes file) = true

/-- An archive to be written on a file system, with the trailer that may come after it. -/
structure Envelope (fs : FileSystem) where
  special : Special
  archive : Bytes
  fits : special.start.length + archive.length + infoSize ≤ fs.maxBytes

/-- The archive is what is read from its file.  Only a self-extracting one is opened as the program
itself. -/
def Envelope.RoundTrips {fs : FileSystem} (e : Envelope fs) : Prop :=
  ∀ path, (path = procSelfExe → e.special ≠ .notSpecial) →
    ∃ file, finalizeCare e.special e.archive = some file ∧ Delivers fs path file e.archive

/-- A trailer can't be mistaken: after something else, there is an archive; a bare archive is empty
or has the size of a trailer without looking like one. -/
def Envelope.Recoverable {fs : FileSystem} (e : Envelope fs) : Prop :=
  match e.special with
  | .notSpecial => e.archive = [] ∨ infoSize ≤ e.archive.length ∧ ¬ HasTrailer e.archive
  | _ => e.archive ≠ []

/-! ## Reading it all -/

/-- **The assertion of `read_callback` never fails**, and what it reads comes next in the file. -/
theorem readCallback_eq (file : Bytes) (granted : Nat) (r : Reader) :
    ∃ n, readCallback file granted r =
        some ((file.drop r.offset).take n, ⟨r.offset + ((file.drop r.offset).take n).length,
          r.sizeRemaining - ((file.drop r.offset).take n).length⟩) ∧
      n ≤ r.sizeRemaining ∧ (n = 0 → r.sizeRemaining = 0) := by
  unfold readCallback
  dsimp only
  by_cases hend : bufferSize > r.sizeRemaining ∧ r.sizeRemaining = 0
  · refine ⟨0, ?_, Nat.zero_le _, fun _ => hend.2⟩
    rw [if_pos (by simp [hend, bufferSize])]
    simp
  · have hsize : ¬ (bufferSize > r.sizeRemaining ∧
        (if bufferSize > r.sizeRemaining then r.sizeRemaining else bufferSize) = 0) := by
      rintro ⟨hlt, hzero⟩
      rw [if_pos hlt] at hzero
      exact hend ⟨hlt, hzero⟩
    rw [if_neg hsize]
    have hbound : (if bufferSize > r.sizeRemaining then r.sizeRemaining else bufferSize) ≤
        r.sizeRemaining := by
      split <;> omega
    have hpos : 0 < (if bufferSize > r.sizeRemaining then r.sizeRemaining else bufferSize) := by
      unfold bufferSize at hend ⊢
      split <;> omega
    generalize (if bufferSize > r.sizeRemaining then r.sizeRemaining else bufferSize) = size
      at hbound hpos
    refine ⟨min size (max 1 granted), ?_, by omega, by omega⟩
    rw [if_pos]
    rw [List.length_take]
    omega

theorem deliver_eq (file : Bytes) (granted : Nat → Nat) {fuel : Nat} {r : Reader}
    (hfuel : (file.drop r.offset).length < fuel) :
    deliver file granted fuel r = some ((file.drop r.offset).take r.sizeRemaining) := by
  induction fuel generalizing r with
  | zero => omega
  | succ fuel ih =>
      obtain ⟨n, hread, hn, hzero⟩ := readCallback_eq file (granted fuel) r
      rw [deliver, hread]
      generalize hbytes : (file.drop r.offset).take n = bytes
      have hlength : bytes.length = min n (file.drop r.offset).length := by
        rw [← hbytes, List.length_take]
      show (if bytes = [] then some [] else
        (deliver file granted fuel ⟨r.offset + bytes.length, r.sizeRemaining - bytes.length⟩).map
          (bytes ++ ·)) = _
      by_cases hnil : bytes = []
      · rw [if_pos hnil]
        subst hnil
        rcases List.take_eq_nil_iff.mp hbytes with hn0 | hdrop
        · rw [hzero hn0, List.take_zero]
        · rw [hdrop, List.take_nil]
      · rw [if_neg hnil]
        have hpos := List.length_pos_of_ne_nil hnil
        have hrest : file.drop (r.offset + bytes.length) =
            (file.drop r.offset).drop bytes.length := by rw [List.drop_drop]
        have hfirst : (file.drop r.offset).take bytes.length = bytes := by
          rw [hlength, ← List.take_eq_take_min, hbytes]
        rw [ih (by rw [hrest, List.length_drop]; omega), Option.map_some, hrest]
        congr 1
        conv_rhs => rw [← Nat.add_sub_cancel' (show bytes.length ≤ r.sizeRemaining by omega), List.take_add, hfirst]

variable {fs : FileSystem} {path : CString} {file : Bytes} {size : Nat}

theorem delivers_iff {bytes : Bytes} :
    Delivers fs path file bytes ↔
      ∃ r, openCallback fs path file = some r ∧
        (file.drop r.offset).take r.sizeRemaining = bytes := by
  have hrun : ∀ r granted fuel, file.length < fuel →
      deliver file granted fuel r = some ((file.drop r.offset).take r.sizeRemaining) := by
    intro r granted fuel hfuel
    apply deliver_eq
    rw [List.length_drop]
    omega
  constructor
  · rintro ⟨r, hopen, hdeliver⟩
    refine ⟨r, hopen, ?_⟩
    have hdelivered := hdeliver id (file.length + 1) (Nat.lt_succ_self _)
    rw [hrun r id _ (Nat.lt_succ_self _)] at hdelivered
    exact Option.some.inj hdelivered
  · rintro ⟨r, hopen, hbytes⟩
    refine ⟨r, hopen, fun granted fuel hfuel => ?_⟩
    rw [hrun r granted fuel hfuel, hbytes]

/-! ## Opening -/

theorem lseek_of_le {offset : Nat} (h : offset ≤ fs.maxBytes) :
    fs.lseek offset = some offset := by
  unfold FileSystem.lseek
  rw [if_neg (by omega), Int.toNat_natCast]

theorem openCallback_short (fs : FileSystem) (path : CString)
    (h : file.length < infoSize) : openCallback fs path file = some ⟨0, 0⟩ := by
  rw [openCallback, if_pos h]

theorem openCallback_bare (fs : FileSystem)
    (h : infoSize ≤ file.length) (hbare : ¬ HasTrailer file) :
    openCallback fs path file = if path = procSelfExe then none else some ⟨0, sizeMax⟩ := by
  have hsigned : ¬ isSigned (lastBytes file) = true := fun hsigned => hbare ⟨h, hsigned⟩
  have hseek : fs.lseek (0 : Nat) = some 0 := lseek_of_le (Nat.zero_le fs.maxBytes)
  rw [openCallback, if_neg (Nat.not_lt.mpr h)]
  show (if isSigned (lastBytes file) = true then _ else _) = _
  rw [if_neg hsigned]
  split
  · rfl
  · show (fs.lseek (0 : Nat)).map _ = _
    rw [hseek]
    rfl

theorem openCallback_signed (fs : FileSystem) (path : CString) (h : HasTrailer file) :
    openCallback fs path file =
      (fs.lseek (((file.length : Int) - recordedSize (lastBytes file) - infoSize).bmod (2 ^ 64))).map
        fun offset => ⟨offset, recordedSize (lastBytes file)⟩ := by
  rw [openCallback, if_neg (Nat.not_lt.mpr h.1)]
  show (if isSigned (lastBytes file) = true then _ else _) = _
  rw [if_pos h.2]

theorem recordedSize_lt (h : infoSize ≤ file.length) :
    recordedSize (lastBytes file) < 2 ^ 64 := by
  have hlen : ((lastBytes file).drop 13).reverse.length = 8 := by
    rw [List.length_reverse, List.length_drop, lastBytes, List.length_drop]
    simp only [infoSize] at h ⊢
    omega
  have hlt := Lib.ofLe_lt ((lastBytes file).drop 13).reverse
  rw [hlen] at hlt
  exact hlt

theorem bmod_of_le {n : Nat} (hn : n < 2 ^ 63) (h : size + infoSize ≤ n) :
    ((n : Int) - size - infoSize).bmod (2 ^ 64) = ((n - size - infoSize : Nat) : Int) := by
  simp only [Int.bmod, infoSize] at h ⊢
  norm_num at hn ⊢
  split <;> omega

/-- The offset, when the recorded size is too large: it exceeds the end of the file by what is
missing to the size for it to wrap, unless this isn't a positive number any more. -/
theorem bmod_of_gt {n k : Nat} (hn : n < 2 ^ 63) (h : n < size + infoSize)
    (hk : size + infoSize + k = 2 ^ 64) :
    ((n : Int) - size - infoSize).bmod (2 ^ 64) =
      if n + k < 2 ^ 63 then ((n + k : Nat) : Int) else (n : Int) - size - infoSize := by
  simp only [Int.bmod, infoSize] at h hk ⊢
  norm_num at hn hk ⊢
  split <;> split <;> omega

theorem bmod_of_wrap {n j : Nat} (hn : n < 2 ^ 63) (hj : size + infoSize = 2 ^ 64 + j)
    (hjn : j ≤ n) : ((n : Int) - size - infoSize).bmod (2 ^ 64) = ((n - j : Nat) : Int) := by
  simp only [Int.bmod, infoSize] at hj ⊢
  norm_num at hn hj ⊢
  split <;> omega

/-! ## The trailer that is written -/

@[simp] theorem autoExtractInfo_length (size : Nat) : (autoExtractInfo size).length = infoSize := by
  simp [autoExtractInfo, autoextractSignature, htobe64, infoSize]

theorem isSigned_autoExtractInfo (size : Nat) : isSigned (autoExtractInfo size) = true := by
  simp [isSigned, autoExtractInfo, autoextractSignature]

theorem recordedSize_autoExtractInfo (h : size < 2 ^ 64) :
    recordedSize (autoExtractInfo size) = size := by
  have hdrop : (autoExtractInfo size).drop 13 = htobe64 size := rfl
  rw [recordedSize, hdrop, be64toh, htobe64, List.reverse_reverse]
  exact Lib.ofLe_le_of_lt h

theorem lastBytes_append (contents : Bytes) (size : Nat) :
    lastBytes (contents ++ autoExtractInfo size) = autoExtractInfo size := by
  rw [lastBytes, List.length_append, autoExtractInfo_length, Nat.add_sub_cancel, List.drop_left]

theorem delivers_trailer (fs : FileSystem) (path : CString) {start archive : Bytes}
    (hfits : start.length + archive.length + infoSize ≤ fs.maxBytes) :
    Delivers fs path (start ++ archive ++ autoExtractInfo archive.length) archive := by
  have hmax := fs.maxBytes_lt
  have hlen : (start ++ archive ++ autoExtractInfo archive.length).length =
      start.length + archive.length + infoSize := by
    rw [List.length_append, List.length_append, autoExtractInfo_length]
  have htrailer : HasTrailer (start ++ archive ++ autoExtractInfo archive.length) := by
    refine ⟨by omega, ?_⟩
    rw [lastBytes_append]
    exact isSigned_autoExtractInfo _
  rw [delivers_iff, openCallback_signed fs path htrailer, lastBytes_append,
    recordedSize_autoExtractInfo (by omega), hlen, bmod_of_le (by omega) (by omega),
    lseek_of_le (by omega)]
  refine ⟨_, rfl, ?_⟩
  have hoffset : start.length + archive.length + infoSize - archive.length - infoSize =
      start.length := by omega
  show (List.drop (_ - _ - _) _).take archive.length = archive
  rw [hoffset, List.append_assoc, List.drop_left, List.take_left]

/-! ## Bare archives -/

theorem delivers_short {bytes : Bytes}
    (h : file.length < infoSize) : Delivers fs path file bytes ↔ bytes = [] := by
  rw [delivers_iff, openCallback_short fs path h]
  constructor
  · rintro ⟨r, hr, hbytes⟩
    cases hr
    simpa using hbytes.symm
  · rintro rfl
    exact ⟨_, rfl, rfl⟩

theorem delivers_bare {bytes : Bytes}
    (hfile : file.length ≤ fs.maxBytes) (h : infoSize ≤ file.length) (hbare : ¬ HasTrailer file)
    (hpath : path ≠ procSelfExe) : Delivers fs path file bytes ↔ bytes = file := by
  have hmax := fs.maxBytes_lt
  have hwhole : (file.drop 0).take sizeMax = file := by
    rw [List.drop_zero, List.take_of_length_le]
    unfold sizeMax
    omega
  rw [delivers_iff, openCallback_bare fs h hbare, if_neg hpath]
  constructor
  · rintro ⟨r, hr, hbytes⟩
    cases hr
    exact hbytes.symm.trans hwhole
  · rintro rfl
    exact ⟨_, rfl, hwhole⟩

/-- **A file without a trailer is delivered whole** if and only if it isn't shorter than one. -/
theorem delivers_whole_iff (file : File fs)
    (hbare : ¬ HasTrailer file.1) (hpath : path ≠ procSelfExe) :
    Delivers fs path file.1 file.1 ↔ file.1 = [] ∨ infoSize ≤ file.1.length := by
  rcases Nat.lt_or_ge file.1.length infoSize with hshort | hlong
  · rw [delivers_short hshort]
    exact ⟨.inl, fun h => h.resolve_right (Nat.not_le.mpr hshort)⟩
  · rw [delivers_bare file.2 hlong hbare hpath]
    exact iff_of_true rfl (.inr hlong)

theorem not_delivers_whole (file : File fs)
    (h : HasTrailer file.1) : ¬ Delivers fs path file.1 file.1 := by
  have hmax := fs.maxBytes_lt
  have hfile := file.2
  have hsize := recordedSize_lt h.1
  rw [delivers_iff, openCallback_signed fs path h]
  rintro ⟨r, hopen, hbytes⟩
  obtain ⟨offset, hseek, rfl⟩ := Option.map_eq_some_iff.mp hopen
  have hlen := congrArg List.length hbytes
  simp only [List.length_take, List.length_drop] at hlen
  generalize recordedSize (lastBytes file.1) = size at hseek hlen hsize
  have hlong := h.1
  have hpos : 0 < file.1.length := by
    unfold infoSize at hlong
    omega
  have hzero : offset = 0 := by omega
  subst hzero
  unfold FileSystem.lseek at hseek
  split at hseek
  · cases hseek
  · rename_i hinside
    have hoffset := Option.some.inj hseek
    -- the recorded size is at least the one of the file, so the offset isn't its start
    have hbmod : ((file.1.length : Int) - size - infoSize).bmod (2 ^ 64) = 0 := by omega
    simp only [Int.bmod, infoSize] at hbmod hlong
    norm_num at hbmod hmax hsize
    split at hbmod <;> omega

/-! ## The start offset -/

def StartsInside (fs : FileSystem) (path : CString) (file : Bytes) : Prop :=
  ∀ r, openCallback fs path file = some r → r.offset ≤ file.length

/-- The recorded size and the one of the trailer are, as a signed number, `-k`: they lead `k` bytes
beyond the end of the file, where the file system still lets one seek. -/
def Overshoots (fs : FileSystem) (file : Bytes) : Prop :=
  HasTrailer file ∧ ∃ k, 1 ≤ k ∧ recordedSize (lastBytes file) + infoSize + k = 2 ^ 64 ∧
    file.length + k ≤ fs.maxBytes

/-- The archive starts inside the file, or the recorded size leads beyond it. -/
theorem startsInside_iff (path : CString) (file : File fs) :
    StartsInside fs path file.1 ↔ ¬ Overshoots fs file.1 := by
  have hmax := fs.maxBytes_lt
  have hfile := file.2
  by_cases htrailer : HasTrailer file.1
  swap
  · refine iff_of_true ?_ fun h => htrailer h.1
    intro r hopen
    rcases Nat.lt_or_ge file.1.length infoSize with hshort | hlong
    · rw [openCallback_short fs path hshort] at hopen
      cases hopen
      exact Nat.zero_le _
    · rw [openCallback_bare fs hlong htrailer] at hopen
      split at hopen
      · cases hopen
      · cases hopen
        exact Nat.zero_le _
  have hsize := recordedSize_lt htrailer.1
  have hlong := htrailer.1
  have hseek : StartsInside fs path file.1 ↔ ∀ offset,
      fs.lseek (((file.1.length : Int) - recordedSize (lastBytes file.1) - infoSize).bmod (2 ^ 64)) =
        some offset → offset ≤ file.1.length := by
    unfold StartsInside
    rw [openCallback_signed fs path htrailer]
    constructor
    · intro h offset hoffset
      exact h ⟨offset, _⟩ (by rw [hoffset]; rfl)
    · rintro h r hr
      obtain ⟨offset, hoffset, rfl⟩ := Option.map_eq_some_iff.mp hr
      exact h offset hoffset
  rw [hseek, Overshoots]
  simp only [htrailer, true_and]
  generalize recordedSize (lastBytes file.1) = size at hsize
  generalize file.1.length = n at hfile hlong
  rcases Nat.lt_or_ge n (size + infoSize) with hgt | hle
  · rcases Nat.lt_or_ge (size + infoSize) (2 ^ 64) with hk | hwrap
    · -- a negative size
      obtain ⟨k, hk⟩ := Nat.exists_eq_add_of_lt hk
      rw [Nat.add_assoc] at hk
      rw [bmod_of_gt (by omega) hgt hk.symm]
      split
      · rename_i hsmall
        constructor
        · intro h
          rintro ⟨k', hk', hsum, hfits⟩
          obtain rfl : k' = k + 1 := by omega
          have hbeyond := h _ (lseek_of_le hfits)
          omega
        · intro h offset hoffset
          unfold FileSystem.lseek at hoffset
          split at hoffset
          · cases hoffset
          · refine absurd ⟨k + 1, by omega, hk.symm, by omega⟩ h
      · rename_i hlarge
        refine iff_of_true ?_ ?_
        · intro offset hoffset
          rw [FileSystem.lseek, if_pos (by omega)] at hoffset
          cases hoffset
        · rintro ⟨k', hk', hsum, hfits⟩
          omega
    · -- the trailer itself
      obtain ⟨j, hj⟩ := Nat.exists_eq_add_of_le hwrap
      have hjn : j ≤ n := by omega
      rw [bmod_of_wrap (by omega) hj hjn, lseek_of_le (by omega)]
      refine iff_of_true ?_ ?_
      · intro offset hoffset
        cases hoffset
        exact Nat.sub_le _ _
      · rintro ⟨k', hk', hsum, -⟩
        omega
  · rw [bmod_of_le (by omega) hle, lseek_of_le (by omega)]
    refine iff_of_true ?_ ?_
    · intro offset hoffset
      cases hoffset
      omega
    · rintro ⟨k', hk', hsum, hfits⟩
      omega

/-! ## The envelope -/

theorem finalizeCare_marked {special : Special} (hspecial : special ≠ .notSpecial)
    (archive : Bytes) :
    finalizeCare special archive =
      if archive = [] then none
      else some (special.start ++ archive ++ autoExtractInfo archive.length) := by
  have hstart : 0 < special.start.length := by
    cases special with
    | notSpecial => exact absurd rfl hspecial
    | raw => exact Nat.succ_pos _
    | selfExtracting exe h => exact List.length_pos_of_ne_nil h
  unfold finalizeCare
  dsimp only
  rw [if_pos hstart, List.length_append, Nat.add_sub_cancel_left]
  by_cases hnil : archive = []
  · subst hnil
    rw [if_pos rfl, if_neg (by simp)]
  · have hpos := List.length_pos_of_ne_nil hnil
    rw [if_neg hnil, if_pos (by omega)]

/-- **The archive is found again** if and only if no trailer can be mistaken. -/
theorem roundTrips_iff (e : Envelope fs) : e.RoundTrips ↔ e.Recoverable := by
  obtain ⟨special, archive, hfits⟩ := e
  by_cases hspecial : special = .notSpecial
  · subst hspecial
    show (∀ path, (path = procSelfExe → Special.notSpecial ≠ .notSpecial) →
        ∃ file, some archive = some file ∧ Delivers fs path file archive) ↔
      (archive = [] ∨ infoSize ≤ archive.length ∧ ¬ HasTrailer archive)
    have hfile : archive.length ≤ fs.maxBytes := by omega
    have hany : (∀ path, (path = procSelfExe → Special.notSpecial ≠ .notSpecial) →
        ∃ file, some archive = some file ∧ Delivers fs path file archive) ↔
        ∀ path, path ≠ procSelfExe → Delivers fs path archive archive := by
      constructor
      · intro h path hpath
        obtain ⟨file, hfile, hdelivers⟩ := h path fun heq => absurd heq hpath
        cases hfile
        exact hdelivers
      · intro h path hpath
        exact ⟨archive, rfl, h path fun heq => hpath heq rfl⟩
    rw [hany]
    by_cases htrailer : HasTrailer archive
    · refine iff_of_false ?_ ?_
      · intro h
        exact not_delivers_whole ⟨archive, hfile⟩ htrailer (h [] (by decide))
      · rintro (rfl | ⟨-, hnot⟩)
        · exact absurd htrailer.1 (by decide)
        · exact hnot htrailer
    · constructor
      · intro h
        have hwhole := (delivers_whole_iff ⟨archive, hfile⟩ htrailer (by decide)).mp (h [] (by decide))
        exact hwhole.imp_right fun hlong => ⟨hlong, htrailer⟩
      · intro h path hpath
        exact (delivers_whole_iff ⟨archive, hfile⟩ htrailer hpath).mpr (h.imp_right And.left)
  · have hrecoverable : (Envelope.mk special archive hfits : Envelope fs).Recoverable ↔
        archive ≠ [] := by
      cases special with
      | notSpecial => exact absurd rfl hspecial
      | raw | selfExtracting => exact Iff.rfl
    rw [hrecoverable]
    unfold Envelope.RoundTrips
    rw [finalizeCare_marked hspecial]
    constructor
    · intro h hnil
      obtain ⟨file, hfile, -⟩ := h [] fun _ => hspecial
      rw [if_pos hnil] at hfile
      cases hfile
    · intro h path _
      rw [if_neg h]
      exact ⟨_, rfl, delivers_trailer fs path hfits⟩

/-- **The envelope.** An archive is found again exactly when no trailer can be mistaken; a file
without a trailer is delivered whole exactly when it is empty or not shorter than one; the start is
inside the file exactly when the recorded size doesn't lead beyond its end; and the assertion of
`read_callback` never fails. -/
theorem care_envelope_iff (fs : FileSystem) :
    (∀ e : Envelope fs, e.RoundTrips ↔ e.Recoverable) ∧
      (∀ (file : File fs) path, ¬ HasTrailer file.1 → path ≠ procSelfExe →
        (Delivers fs path file.1 file.1 ↔ file.1 = [] ∨ infoSize ≤ file.1.length)) ∧
      (∀ (file : File fs) path, StartsInside fs path file.1 ↔ ¬ Overshoots fs file.1) ∧
      ∀ (file : File fs) granted r, readCallback file.1 granted r ≠ none := by
  refine ⟨roundTrips_iff, ?_, ?_, ?_⟩
  · intro file path hbare hpath
    exact delivers_whole_iff file hbare hpath
  · intro file path
    exact startsInside_iff path file
  · intro file granted r
    obtain ⟨n, hread, -⟩ := readCallback_eq file.1 granted r
    rw [hread]
    exact Option.some_ne_none _

/-- A file of one byte is delivered empty. -/
theorem care_loses_short_file :
    ∃ fs : FileSystem, ∃ file : File fs, file.1 = [97] ∧ ¬ HasTrailer file.1 ∧
      Delivers fs ['a'] file.1 [] ∧ ¬ Delivers fs ['a'] file.1 file.1 := by
  refine ⟨⟨4096, by norm_num⟩, ⟨[97], by simp⟩, rfl, ?_, ?_, ?_⟩
  · intro h
    exact absurd h.1 (by decide)
  · exact (delivers_short (by decide)).mpr rfl
  · intro h
    exact absurd ((delivers_short (by decide)).mp h) (by simp)

end Improot.Extension.Care
