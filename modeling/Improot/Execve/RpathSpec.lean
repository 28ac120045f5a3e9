import Improot.Execve.Rpath
import Mathlib.Data.List.TakeWhile
import Mathlib.Tactic.NormNum

/-!
# What is read as RPATH and RUNPATH

The loops of `read_ldso_rpaths` against what is in the file: they agree as long as nothing is used
that the file doesn't have, and as long as the segment that the search ends with is the one that
contains the string table.
-/

namespace Improot.Execve

open Lib (Bytes readLe)

variable {file : File} {errno : Option Errno} {header : ElfHeader} {dynamic : ProgramHeader}

/-! ## The search among the program headers -/

variable {address count i tag : Nat}

theorem searchHeaders_found {type : Nat} {rest : Bytes} {data : Option ProgramHeader}
    {ph : ProgramHeader}
    (h : (headersIn header count rest).find? (fun ph =>
      ph.type = type ∧ ph.matches address = true) = some ph) :
    searchHeaders header type address count rest data = .ok (true, some ph) := by
  induction count generalizing rest data with
  | zero => cases h
  | succ count ih =>
      rw [headersIn] at h
      rw [searchHeaders]
      split at h
      · cases h
      · rename_i hlong
        rw [if_neg (by rw [List.length_take]; omega)]
        rw [List.find?_cons] at h
        split at h
        · rename_i hfirst
          cases h
          simp only [decide_eq_true_eq] at hfirst
          simp only [hfirst.1, hfirst.2, if_true]
        · rename_i hfirst
          simp only [decide_eq_false_iff_not, not_and] at hfirst
          by_cases htype : (ProgramHeader.read header.class64 rest).type = type
          · simp only [htype, hfirst htype, if_true]
            exact ih h
          · simp only [htype, if_false]
            exact ih h

theorem searchHeaders_missed {type : Nat} {rest : Bytes} {data : Option ProgramHeader}
    (h : (headersIn header count rest).find? (fun ph =>
      ph.type = type ∧ ph.matches address = true) = none) :
    searchHeaders header type address count rest data =
      if (headersIn header count rest).length < count then .error (.fails .enotsup)
      else .ok (false,
        (((headersIn header count rest).filter (·.type = type)).getLast?).or data) := by
  induction count generalizing rest data with
  | zero => rfl
  | succ count ih =>
      rw [headersIn] at h ⊢
      rw [searchHeaders]
      by_cases hshort : rest.length < header.phentsize
      · rw [if_pos hshort, if_pos (by rw [List.length_take]; omega), if_pos (by simp)]
      · rw [if_neg hshort] at h ⊢
        rw [if_neg (by rw [List.length_take]; omega)]
        rw [List.find?_cons] at h
        split at h
        · cases h
        · rename_i hfirst
          simp only [decide_eq_false_iff_not, not_and] at hfirst
          simp only [List.length_cons, Nat.add_lt_add_iff_right]
          by_cases htype : (ProgramHeader.read header.class64 rest).type = type
          · rw [List.filter_cons_of_pos (by simpa using htype)]
            simp only [htype, hfirst htype, if_true, ih h]
            cases (headersIn header count (rest.drop header.phentsize)).filter _ with
            | nil => simp
            | cons o os => simp [List.getLast?_cons]
          · rw [List.filter_cons_of_neg (by simpa using htype)]
            simp only [htype, if_false, ih h]

/-! ## Blocks -/

theorem readBlocks_eq (rest : Bytes) :
    readBlocks rest = if 0 ∈ rest then .ok (rest.takeWhile (· ≠ 0)) else .error .unread := by
  induction hlen : rest.length using Nat.strongRecOn generalizing rest with
  | ind n ih =>
      rw [readBlocks]
      have hsplit := List.take_append_drop 1024 rest
      by_cases hnul : (0 : UInt8) ∈ rest.take 1024
      · have hmem : (0 : UInt8) ∈ rest := List.mem_of_mem_take hnul
        rw [if_pos hnul, if_pos hmem]
        conv_rhs => rw [← hsplit]
        rw [List.takeWhile_append]
        split
        · rename_i hwhole
          exfalso
          have hall := List.takeWhile_eq_self_iff.mp
            ((List.takeWhile_prefix _).eq_of_length hwhole)
          simpa using hall 0 hnul
        · rfl
      · rw [if_neg hnul]
        have hwhole : (rest.take 1024).takeWhile (· ≠ 0) = rest.take 1024 := by
          rw [List.takeWhile_eq_self_iff]
          intro b hb
          have hne : b ≠ 0 := fun heq => hnul (heq ▸ hb)
          simpa using hne
        by_cases hshort : (rest.take 1024).length < 1024
        · rw [dif_pos hshort, if_neg]
          rw [List.length_take] at hshort
          rwa [List.take_of_length_le (by omega)] at hnul
        · rw [dif_neg hshort]
          rw [List.length_take] at hshort
          rw [ih (rest.drop 1024).length (by rw [List.length_drop]; omega) _ rfl]
          have hmem : (0 : UInt8) ∈ rest ↔ 0 ∈ rest.drop 1024 := by
            conv_lhs => rw [← hsplit, List.mem_append]
            exact or_iff_right hnul
          by_cases hlater : (0 : UInt8) ∈ rest.drop 1024
          · rw [if_pos hlater, if_pos (hmem.mpr hlater)]
            show Except.ok _ = Except.ok _
            conv_rhs => rw [← hsplit]
            rw [List.takeWhile_append, hwhole, if_pos rfl]
          · rw [if_neg hlater, if_neg fun h => hlater (hmem.mp h)]

/-! ## Looks into the file -/

/-- A look into the file: where, whether what is used from there on is in the file, and the tag and
the string if it is for a path. -/
structure Look where
  offset : Nat
  held : Bool
  path : Option (Nat × Bytes)

/-- `lseek` refuses the position, or its status is a negative `int` and there is an `errno`. -/
def refused (file : File) (errno : Option Errno) (offset : Nat) : Bool :=
  2 ^ 63 ≤ offset ∨ file.maxOffset < offset ∨ (wrapped offset = true ∧ errno.isSome = true)

/-- The status of `lseek` is a negative `int`, and `errno` is zero. -/
def silent (errno : Option Errno) (offset : Nat) : Bool := wrapped offset && errno.isNone

/-- This is the last look: it is refused, or what it uses isn't in the file.  At a silent position
the function returns, but a string there is only passed over. -/
def Look.stops (file : File) (errno : Option Errno) (look : Look) : Bool :=
  refused file errno look.offset ||
    if silent errno look.offset then look.path.isNone else !look.held

def heard (file : File) (errno : Option Errno) (looks : List Look) : List Look :=
  looks.takeWhile fun look => !look.stops file errno

/-- The strings that looks find for the paths of a tag. -/
def told (errno : Option Errno) (tag : Nat) : List Look → List Bytes
  | [] => []
  | look :: looks =>
    match look.path with
    | some (tag', s) =>
      if tag' = tag ∧ silent errno look.offset = false then s :: told errno tag looks
      else told errno tag looks
    | none => told errno tag looks

/-- What the first look that stops means: nothing more is asked if it is refused. -/
def Settled (file : File) (errno : Option Errno) (looks : List Look) (quiet fine : Prop) : Prop :=
  match looks.find? (·.stops file errno) with
  | none => fine
  | some look =>
    refused file errno look.offset = true ∨ (silent errno look.offset = true ∧ quiet)

/-- A run makes these looks: it ends as `quiet` at a silent one, as `fine` after all of them. -/
def Follows {α : Type} (file : File) (errno : Option Errno) (looks : List Look)
    (run quiet fine : Except Stop α) : Prop :=
  match looks.find? (·.stops file errno) with
  | none => run = fine
  | some look =>
    if refused file errno look.offset then ∃ fault, run = .error (.fails fault)
    else if silent errno look.offset then run = quiet
    else run = .error .unread

section Follows

variable {α β : Type} {run quiet fine : Except Stop α} {look : Look} {looks : List Look}

theorem follows_refused {fault : Fault} (h : refused file errno look.offset = true) :
    Follows file errno (look :: looks) (.error (.fails fault)) quiet fine := by
  have hstops : look.stops file errno = true := by simp [Look.stops, h]
  rw [Follows, List.find?_cons_of_pos hstops]
  simp only [h, if_true]
  exact ⟨fault, rfl⟩

theorem follows_quiet (hlook : refused file errno look.offset = false)
    (h : silent errno look.offset = true) (hpath : look.path = none) :
    Follows file errno (look :: looks) quiet quiet fine := by
  have hstops : look.stops file errno = true := by simp [Look.stops, h, hpath]
  rw [Follows, List.find?_cons_of_pos hstops]
  simp [hlook, h]

theorem follows_unread (hlook : refused file errno look.offset = false)
    (hsilent : silent errno look.offset = false) (h : look.held = false) :
    Follows file errno (look :: looks) (.error .unread) quiet fine := by
  have hstops : look.stops file errno = true := by simp [Look.stops, hsilent, h]
  rw [Follows, List.find?_cons_of_pos hstops]
  simp [hlook, hsilent]

theorem follows_cons (h : look.stops file errno = false) :
    Follows file errno (look :: looks) run quiet fine ↔
      Follows file errno looks run quiet fine := by
  rw [Follows, List.find?_cons_of_neg (by simp [h])]
  rfl

/-- **What comes after a run** keeps its faults and what it didn't read. -/
theorem Follows.andThen {next : Except Stop α → Except Stop β}
    (hfails : ∀ fault, next (.error (.fails fault)) = .error (.fails fault))
    (hunread : next (.error .unread) = .error .unread)
    (h : Follows file errno looks run quiet fine) :
    Follows file errno looks (next run) (next quiet) (next fine) := by
  unfold Follows at h ⊢
  split at h
  · rw [h]
  · rename_i look _
    by_cases hrefused : refused file errno look.offset = true
    · simp only [hrefused, if_true] at h ⊢
      obtain ⟨fault, rfl⟩ := h
      exact ⟨fault, hfails fault⟩
    by_cases hsilent : silent errno look.offset = true
    · simp only [hrefused, hsilent, if_false, if_true, Bool.false_eq_true] at h ⊢
      rw [h]
    · simp only [hrefused, hsilent, if_false, Bool.false_eq_true] at h ⊢
      rw [h, hunread]

/-- **One run after the other**: the second makes its looks if none of the first stops. -/
theorem Follows.append {first second : List Look} {quiet' mid : Except Stop α}
    (h : Follows file errno first run quiet mid)
    (hquiet : ∀ look, first.find? (·.stops file errno) = some look → quiet = quiet')
    (hnext : (∀ look ∈ first, look.stops file errno = false) →
      Follows file errno second mid quiet' fine) :
    Follows file errno (first ++ second) run quiet' fine := by
  unfold Follows at h
  rw [Follows, List.find?_append]
  cases hfind : first.find? (·.stops file errno) with
  | none =>
      rw [hfind] at h
      rw [h, Option.none_or]
      exact hnext fun look hlook => by simpa using List.find?_eq_none.mp hfind look hlook
  | some look =>
      rw [hfind] at h
      rw [Option.some_or, ← hquiet look hfind]
      exact h

/-- The run fails, or ends with this result. -/
def Agrees (result : α) (run : Except Stop α) : Prop :=
  (∃ fault, run = .error (.fails fault)) ∨ run = .ok result

variable {result : α}

theorem agrees_fails (fault : Fault) : Agrees result (.error (.fails fault)) :=
  .inl ⟨fault, rfl⟩

theorem not_agrees_unread : ¬ Agrees result (.error .unread) := by
  rintro (⟨fault, h⟩ | h) <;> cases h

theorem agrees_ok {value : α} : Agrees result (.ok value) ↔ value = result := by
  constructor
  · rintro (⟨fault, h⟩ | h)
    · cases h
    · exact Except.ok.inj h
  · rintro rfl
    exact .inr rfl

/-- **A run that follows looks** agrees with a result if and only if they settle it. -/
theorem Follows.agrees_iff (h : Follows file errno looks run quiet fine) :
    Agrees result run ↔ Settled file errno looks (Agrees result quiet) (Agrees result fine) := by
  unfold Follows at h
  unfold Settled
  split at h
  · rw [h]
  · rename_i look _
    by_cases hrefused : refused file errno look.offset = true
    · simp only [hrefused, if_true] at h
      obtain ⟨fault, rfl⟩ := h
      exact iff_of_true (agrees_fails fault) (.inl hrefused)
    by_cases hsilent : silent errno look.offset = true
    · simp only [hrefused, hsilent, if_false, if_true, Bool.false_eq_true] at h
      rw [h]
      exact ⟨fun hq => .inr ⟨hsilent, hq⟩, fun hq => (hq.resolve_left hrefused).2⟩
    · simp only [hrefused, hsilent, if_false, Bool.false_eq_true] at h
      rw [h]
      refine iff_of_false not_agrees_unread ?_
      rintro (hr | ⟨hs, -⟩)
      · exact hrefused hr
      · exact hsilent hs

end Follows

variable {looks : List Look}

theorem Settled.congr {quiet quiet' fine fine' : Prop}
    (hquiet : quiet ↔ quiet') (hfine : (∀ look ∈ looks, look.stops file errno = false) →
      (fine ↔ fine')) :
    Settled file errno looks quiet fine ↔ Settled file errno looks quiet' fine' := by
  unfold Settled
  split
  · rename_i hnone
    rw [List.find?_eq_none] at hnone
    exact hfine fun look hlook => by simpa using hnone look hlook
  · rw [hquiet]

theorem seek_cases (file : File) (errno : Option Errno) (offset : Nat) :
    (refused file errno offset = true ∧
        ∃ fault, seek file errno offset = .error (.fails fault)) ∨
      (refused file errno offset = false ∧ silent errno offset = true ∧
        seek file errno offset = .error .returned) ∨
      (refused file errno offset = false ∧ silent errno offset = false ∧
        seek file errno offset = .ok () ∧ offset < 2 ^ 63) := by
  unfold seek
  by_cases hinvalid : 2 ^ 63 ≤ offset ∨ file.maxOffset < offset
  · rw [if_pos hinvalid]
    refine .inl ⟨?_, _, rfl⟩
    rw [refused, decide_eq_true_eq, ← or_assoc]
    exact .inl hinvalid
  · rw [if_neg hinvalid]
    have hrefused : refused file errno offset = (wrapped offset && errno.isSome) := by
      rw [Bool.eq_iff_iff, refused, decide_eq_true_eq, ← or_assoc, or_iff_right hinvalid,
        Bool.and_eq_true]
    rw [hrefused, silent]
    have hsmall : offset < 2 ^ 63 := Nat.lt_of_not_le fun h => hinvalid (.inl h)
    cases wrapped offset with
    | false => exact .inr (.inr ⟨rfl, rfl, rfl, hsmall⟩)
    | true =>
        cases errno with
        | none => exact .inr (.inl ⟨rfl, rfl, rfl⟩)
        | some e => exact .inl ⟨rfl, _, rfl⟩

/-! ## An entry -/

instance (file : File) (header : ElfHeader) (dynamic : ProgramHeader) (i : Nat) :
    Decidable (TagInFile file header dynamic i) := inferInstanceAs (Decidable (_ ≤ _))

def entryLook (file : File) (header : ElfHeader) (dynamic : ProgramHeader) (tag i : Nat) :
    Look where
  offset := entryOffset header dynamic i
  held := TagInFile file header dynamic i ∧
    (entryTag file header dynamic i = tag → EntryInFile file header dynamic i)
  path := none

theorem fieldSize_pos (header : ElfHeader) : 0 < header.fieldSize := by
  unfold ElfHeader.fieldSize
  split <;> decide

theorem entrySize_le (header : ElfHeader) : header.entrySize ≤ 16 := by
  unfold ElfHeader.entrySize ElfHeader.fieldSize
  split <;> decide

/-- **A turn of the loops**: its position is refused or silent, its entry is cut by the end of the
file before its value, or its fields are those in the file. -/
theorem dynamicEntry_cases (file : File) (errno : Option Errno)
    (hoffset : entryOffset header dynamic i < 2 ^ 64) :
    let offset := entryOffset header dynamic i
    (refused file errno offset = true ∧
        ∃ fault, dynamicEntry file errno header dynamic i = .error (.fails fault)) ∨
      (refused file errno offset = false ∧ silent errno offset = true ∧
        dynamicEntry file errno header dynamic i = .error .returned) ∨
      (refused file errno offset = false ∧ silent errno offset = false ∧
        ¬ TagInFile file header dynamic i ∧
        dynamicEntry file errno header dynamic i = .error .unread) ∨
      (refused file errno offset = false ∧ silent errno offset = false ∧
        TagInFile file header dynamic i ∧
        dynamicEntry file errno header dynamic i =
          .ok (entryTag file header dynamic i,
            if EntryInFile file header dynamic i then some (entryValue file header dynamic i)
            else none) ∧
        entryOffset header dynamic (i + 1) < 2 ^ 64) := by
  have hmod : (dynamic.offset + i * header.entrySize) % 2 ^ 64 = entryOffset header dynamic i :=
    Nat.mod_eq_of_lt hoffset
  unfold dynamicEntry
  simp only [hmod]
  rcases seek_cases file errno (entryOffset header dynamic i) with
    ⟨hlook, fault, hseek⟩ | ⟨hlook, hsilent, hseek⟩ | ⟨hlook, hsilent, hseek, hsmall⟩
  · rw [hseek]
    exact .inl ⟨hlook, fault, rfl⟩
  · rw [hseek]
    exact .inr (.inl ⟨hlook, hsilent, rfl⟩)
  rw [hseek]
  refine .inr (.inr ?_)
  have hpos := fieldSize_pos header
  have hdouble : header.entrySize = 2 * header.fieldSize := rfl
  have hnext : entryOffset header dynamic (i + 1) =
      entryOffset header dynamic i + header.entrySize := by
    unfold entryOffset
    rw [Nat.add_mul, Nat.one_mul, Nat.add_assoc]
  have hle := entrySize_le header
  have hlen : ((file.content.drop (entryOffset header dynamic i)).take header.entrySize).length =
      min header.entrySize (file.content.length - entryOffset header dynamic i) := by
    rw [List.length_take, List.length_drop]
  by_cases htag : TagInFile file header dynamic i
  · have hin : entryOffset header dynamic i + header.fieldSize ≤ file.content.length := htag
    have hread : readLe header.fieldSize 0
          ((file.content.drop (entryOffset header dynamic i)).take header.entrySize) =
        entryTag file header dynamic i := by
      rw [entryTag, readLe, readLe, List.drop_zero, List.take_take, Nat.min_eq_left (by omega)]
    have hvalue : readLe header.fieldSize header.fieldSize
          ((file.content.drop (entryOffset header dynamic i)).take header.entrySize) =
        entryValue file header dynamic i := by
      rw [entryValue, readLe, readLe, List.drop_take, List.drop_drop, List.take_take,
        Nat.min_eq_left (by omega)]
    refine .inr ⟨hlook, hsilent, htag, ?_, by omega⟩
    simp only
    rw [if_neg (by omega), hread, hvalue]
    by_cases hentry : EntryInFile file header dynamic i
    · have hentry' : entryOffset header dynamic i + header.entrySize ≤ file.content.length := hentry
      rw [if_pos hentry, if_neg (by omega)]
    · have hentry' : ¬ entryOffset header dynamic i + header.entrySize ≤ file.content.length :=
        hentry
      rw [if_neg hentry, if_pos (by omega)]
  · have hout : ¬ entryOffset header dynamic i + header.fieldSize ≤ file.content.length := htag
    refine .inl ⟨hlook, hsilent, htag, ?_⟩
    simp only
    rw [if_pos (by omega)]

theorem entryLook_passes (hlook : refused file errno (entryOffset header dynamic i) = false)
    (hsilent : silent errno (entryOffset header dynamic i) = false)
    (htag : TagInFile file header dynamic i)
    (hvalue : entryTag file header dynamic i = tag → EntryInFile file header dynamic i) :
    (entryLook file header dynamic tag i).stops file errno = false := by
  have hheld : (entryLook file header dynamic tag i).held = true := decide_eq_true ⟨htag, hvalue⟩
  have hoffset : (entryLook file header dynamic tag i).offset = entryOffset header dynamic i := rfl
  simp [Look.stops, hoffset, hlook, hsilent, hheld]

theorem entryLook_held (h : (entryLook file header dynamic tag i).stops file errno = false) :
    TagInFile file header dynamic i ∧
      (entryTag file header dynamic i = tag → EntryInFile file header dynamic i) := by
  have hheld : (entryLook file header dynamic tag i).held = true := by
    rw [Look.stops, Bool.or_eq_false_iff] at h
    obtain ⟨-, h⟩ := h
    split at h
    · cases h
    · simpa using h
  exact of_decide_eq_true hheld

/-! ## The string table -/

/-- The looks of the first loop, at the `count` entries from `i` on. -/
def tableLooks (file : File) (header : ElfHeader) (dynamic : ProgramHeader) :
    (count i : Nat) → List Look
  | 0, _ => []
  | count + 1, i =>
    entryLook file header dynamic dtStrtab i ::
      if entryTag file header dynamic i = dtStrtab then []
      else tableLooks file header dynamic count (i + 1)

def tableAddress (file : File) (header : ElfHeader) (dynamic : ProgramHeader) :
    (count i : Nat) → Option Nat
  | 0, _ => none
  | count + 1, i =>
    if entryTag file header dynamic i = dtStrtab then some (entryValue file header dynamic i)
    else tableAddress file header dynamic count (i + 1)

/-- **The first loop** looks at the entries up to the one for a string table. -/
theorem strtabAddress_follows (file : File) (errno : Option Errno) {count i : Nat}
    (hoffset : entryOffset header dynamic i < 2 ^ 64) :
    Follows file errno (tableLooks file header dynamic count i)
      (strtabAddress file errno header dynamic count i) (.error .returned)
      (.ok ((tableAddress file header dynamic count i).getD noAddress)) := by
  induction count generalizing i with
  | zero => rfl
  | succ count ih =>
      rw [strtabAddress, tableLooks, tableAddress]
      rcases dynamicEntry_cases file errno hoffset with
        ⟨hlook, fault, hentry⟩ | ⟨hlook, hsilent, hentry⟩ | ⟨hlook, hsilent, hcut, hentry⟩ |
          ⟨hlook, hsilent, htag, hentry, hnext⟩
      · rw [hentry]
        exact follows_refused hlook
      · rw [hentry]
        exact follows_quiet hlook hsilent rfl
      · rw [hentry]
        exact follows_unread hlook hsilent (decide_eq_false fun h => hcut h.1)
      rw [hentry]
      by_cases hstrtab : entryTag file header dynamic i = dtStrtab
      · simp only [hstrtab, ne_eq, not_true_eq_false, if_false, if_true]
        by_cases hwhole : EntryInFile file header dynamic i
        · rw [if_pos hwhole, follows_cons (entryLook_passes hlook hsilent htag fun _ => hwhole)]
          rfl
        · rw [if_neg hwhole]
          exact follows_unread hlook hsilent (decide_eq_false fun h => hwhole (h.2 hstrtab))
      · simp only [ne_eq, hstrtab, not_false_eq_true, if_true, if_false]
        rw [follows_cons (entryLook_passes hlook hsilent htag (absurd · hstrtab))]
        exact ih hnext

/-- Once these looks are made, the table is the one that the dynamic linker finds. -/
theorem tableAddress_eq
    (h : ∀ look ∈ tableLooks file header dynamic count i, look.stops file errno = false) :
    (entriesOf file header dynamic count i).find? (·.1 = dtStrtab) =
      (tableAddress file header dynamic count i).map fun a => (dtStrtab, a) := by
  induction count generalizing i with
  | zero => rfl
  | succ count ih =>
      rw [tableLooks, List.forall_mem_cons] at h
      obtain ⟨hfirst, hrest⟩ := h
      rw [entriesOf, tableAddress]
      by_cases htag : entryTag file header dynamic i = dtStrtab
      · rw [if_pos ((entryLook_held hfirst).2 htag), if_pos htag,
          List.find?_cons_of_pos (by simpa using htag), htag]
        rfl
      · rw [if_neg htag] at hrest
        rw [if_neg htag, ← ih hrest]
        split
        · rw [List.find?_cons_of_neg (by simpa using htag)]
        · rfl

/-! ## The paths -/

def stringLook (file : File) (header : ElfHeader) (dynamic : ProgramHeader) (offset tag i : Nat) :
    Look where
  offset := offset + entryValue file header dynamic i
  held := 0 ∈ file.content.drop (offset + entryValue file header dynamic i)
  path := some (tag, stringAt file (offset + entryValue file header dynamic i))

/-- The looks of a loop for the paths of a tag, at the `count` entries from `i` on, with the string
table at this offset. -/
def pathLooks (file : File) (header : ElfHeader) (dynamic : ProgramHeader) (offset tag : Nat) :
    (count i : Nat) → List Look
  | 0, _ => []
  | count + 1, i =>
    entryLook file header dynamic tag i ::
      if entryTag file header dynamic i = tag then
        stringLook file header dynamic offset tag i ::
          pathLooks file header dynamic offset tag count (i + 1)
      else pathLooks file header dynamic offset tag count (i + 1)

def addStrings (xpaths : Option Bytes) (strings : List Bytes) : Option Bytes :=
  strings.foldl addPaths xpaths

theorem addStrings_some (xpaths : Bytes) (strings : List Bytes) :
    addStrings (some xpaths) strings = some (xpaths ++ strings.flatMap (58 :: ·)) := by
  induction strings generalizing xpaths with
  | nil => simp [addStrings]
  | cons s ss ih =>
      show addStrings (addPaths (some xpaths) s) ss = _
      rw [addPaths, ih]
      simp

theorem addStrings_none (strings : List Bytes) : addStrings none strings = colonJoined strings := by
  cases strings with
  | nil => rfl
  | cons s ss => exact addStrings_some s ss

theorem heard_cons {look : Look} (h : look.stops file errno = false) :
    heard file errno (look :: looks) = look :: heard file errno looks :=
  List.takeWhile_cons_of_pos (by simp [h])

theorem heard_stops {look : Look} (h : look.stops file errno = true) :
    heard file errno (look :: looks) = [] :=
  List.takeWhile_cons_of_neg (by simp [h])

/-- **A loop over the paths** adds the strings of its looks. -/
theorem addEntries_follows (file : File) (errno : Option Errno) {offset : Nat} (tag : Nat)
    {count i : Nat} (xpaths : Option Bytes) (hoffset : entryOffset header dynamic i < 2 ^ 64) :
    let looks := pathLooks file header dynamic offset tag count i
    let strings := told errno tag (heard file errno looks)
    Follows file errno looks (addEntries file errno header dynamic offset tag count i xpaths)
      (.ok (addStrings xpaths strings, true)) (.ok (addStrings xpaths strings, false)) := by
  induction count generalizing i xpaths with
  | zero => rfl
  | succ count ih =>
      dsimp only at ih ⊢
      rw [addEntries, pathLooks]
      rcases dynamicEntry_cases file errno hoffset with
        ⟨hlook, fault, hentry⟩ | ⟨hlook, hsilent, hentry⟩ | ⟨hlook, hsilent, hcut, hentry⟩ |
          ⟨hlook, hsilent, htag, hentry, hnext⟩
      · rw [hentry]
        exact follows_refused hlook
      · have hstops : (entryLook file header dynamic tag i).stops file errno = true := by
          simp [Look.stops, entryLook, hsilent]
        rw [hentry, heard_stops hstops]
        exact follows_quiet hlook hsilent rfl
      · rw [hentry]
        exact follows_unread hlook hsilent (decide_eq_false fun h => hcut h.1)
      rw [hentry]
      by_cases hsame : entryTag file header dynamic i = tag
      swap
      · have hpass := entryLook_passes hlook hsilent htag (absurd · hsame)
        simp only [hsame, ne_eq, not_false_eq_true, if_true, if_false]
        rw [follows_cons hpass, heard_cons hpass]
        exact ih xpaths hnext
      simp only [hsame, ne_eq, not_true_eq_false, if_false, if_true]
      by_cases hwhole : EntryInFile file header dynamic i
      swap
      · rw [if_neg hwhole]
        exact follows_unread hlook hsilent (decide_eq_false fun h => hwhole (h.2 hsame))
      have hpass := entryLook_passes hlook hsilent htag fun (_ : _ = tag) => hwhole
      rw [if_pos hwhole, follows_cons hpass, heard_cons hpass]
      -- the string
      have hplace : (stringLook file header dynamic offset tag i).offset =
          offset + entryValue file header dynamic i := rfl
      simp only
      split
      · rename_i hover
        refine follows_refused ?_
        rw [refused, decide_eq_true_eq, hplace]
        omega
      unfold addXpaths
      rcases seek_cases file errno (offset + entryValue file header dynamic i) with
        ⟨hstring, fault, hseek⟩ | ⟨hstring, hquiet, hseek⟩ | ⟨hstring, hquiet, hseek, -⟩
      · rw [hseek]
        exact follows_refused hstring
      · have hover : (stringLook file header dynamic offset tag i).stops file errno = false := by
          simp [Look.stops, stringLook, hstring, hquiet]
        rw [hseek, follows_cons hover, heard_cons hover]
        simp only [told, entryLook, stringLook, hquiet, Bool.true_eq_false, and_false, if_false]
        exact ih xpaths hnext
      rw [hseek]
      simp only [readBlocks_eq]
      by_cases hnul : 0 ∈ file.content.drop (offset + entryValue file header dynamic i)
      · have hover : (stringLook file header dynamic offset tag i).stops file errno = false := by
          simp [Look.stops, stringLook, hstring, hquiet, hnul]
        simp only [hnul, if_true]
        rw [follows_cons hover, heard_cons hover]
        simp only [told, entryLook, stringLook, hquiet, and_self, if_true]
        exact ih (addPaths xpaths _) hnext
      · simp only [hnul, if_false]
        exact follows_unread hstring hquiet (decide_eq_false hnul)
theorem heard_all (h : ∀ look ∈ looks, look.stops file errno = false) :
    heard file errno looks = looks :=
  List.takeWhile_eq_self_iff.mpr fun look hlook => by simp [h look hlook]

theorem heard_append {first : List Look} (second : List Look)
    (h : ∀ look ∈ first, look.stops file errno = false) :
    heard file errno (first ++ second) = first ++ heard file errno second :=
  List.takeWhile_append_of_pos fun look hlook => by simp [h look hlook]

theorem heard_append_stops {first : List Look} {look : Look} (second : List Look)
    (h : first.find? (·.stops file errno) = some look) :
    heard file errno (first ++ second) = heard file errno first := by
  rw [heard, heard, List.takeWhile_append, if_neg]
  intro hwhole
  have hall := List.takeWhile_eq_self_iff.mp ((List.takeWhile_prefix _).eq_of_length hwhole)
  have hpass := hall look (List.mem_of_find?_eq_some h)
  simp [List.find?_some h] at hpass

theorem told_append (tag : Nat) (first second : List Look) :
    told errno tag (first ++ second) = told errno tag first ++ told errno tag second := by
  induction first with
  | nil => rfl
  | cons look looks ih =>
      rw [List.cons_append, told, told]
      split
      · split
        · rw [ih, List.cons_append]
        · exact ih
      · exact ih

/-- The looks of a loop tell nothing for another tag. -/
theorem told_other (file : File) (errno : Option Errno) (header : ElfHeader)
    (dynamic : ProgramHeader) (offset count i : Nat) {tag' : Nat} (hne : tag' ≠ tag) :
    told errno tag (heard file errno (pathLooks file header dynamic offset tag' count i)) = [] := by
  have hall (looks : List Look) (h : ∀ look ∈ looks, ∀ s, look.path ≠ some (tag, s)) :
      told errno tag looks = [] := by
    induction looks with
    | nil => rfl
    | cons look looks ih =>
        obtain ⟨hlook, hlooks⟩ := List.forall_mem_cons.mp h
        rw [told]
        split
        · rename_i tag'' s hpath
          rw [if_neg fun hsame : tag'' = tag ∧ _ => hlook s (hsame.1 ▸ hpath)]
          exact ih hlooks
        · exact ih hlooks
  refine hall _ fun look hlook => ?_
  replace hlook := (List.takeWhile_sublist _).mem hlook
  induction count generalizing i with
  | zero => cases hlook
  | succ count ih =>
      rw [pathLooks] at hlook
      rcases List.mem_cons.mp hlook with rfl | hlook
      · exact fun s h => by cases h
      split at hlook
      · rcases List.mem_cons.mp hlook with rfl | hlook
        · intro s h
          exact hne (congrArg Prod.fst (Option.some.inj h))
        · exact ih (i + 1) hlook
      · exact ih (i + 1) hlook

def allLooks (file : File) (header : ElfHeader) (dynamic : ProgramHeader) (offset : Nat) :
    List Look :=
  pathLooks file header dynamic offset dtRpath (header.entryCount dynamic) 0 ++
    pathLooks file header dynamic offset dtRunpath (header.entryCount dynamic) 0

def pathsTold (file : File) (errno : Option Errno) (looks : List Look) :
    Option Bytes × Option Bytes :=
  (colonJoined (told errno dtRpath (heard file errno looks)),
    colonJoined (told errno dtRunpath (heard file errno looks)))

def withRunpaths (rpaths : Option Bytes) :
    Except Stop (Option Bytes × Bool) → Except Stop (Option Bytes × Option Bytes)
  | .error stop => .error stop
  | .ok (runpaths, _) => .ok (rpaths, runpaths)

/-- What `readPaths` does after its first loop. -/
def withRpaths (file : File) (errno : Option Errno) (header : ElfHeader) (dynamic : ProgramHeader)
    (offset : Nat) : Except Stop (Option Bytes × Bool) → Except Stop (Option Bytes × Option Bytes)
  | .error stop => .error stop
  | .ok (rpaths, true) => .ok (rpaths, none)
  | .ok (rpaths, false) =>
    withRunpaths rpaths (addEntries file errno header dynamic offset dtRunpath
      (header.entryCount dynamic) 0 none)

theorem readPaths_follows (file : File) (errno : Option Errno) {offset : Nat}
    (hoffset : dynamic.offset < 2 ^ 64) :
    let looks := allLooks file header dynamic offset
    Follows file errno looks (readPaths file errno header dynamic offset)
      (.ok (pathsTold file errno looks)) (.ok (pathsTold file errno looks)) := by
  have hstart : entryOffset header dynamic 0 < 2 ^ 64 := by
    rw [entryOffset, Nat.zero_mul]
    exact hoffset
  have hloop (tag : Nat) :=
    @addEntries_follows header dynamic file errno offset tag (header.entryCount dynamic) 0 none
      hstart
  simp only [addStrings_none] at hloop
  have hother {tag tag' : Nat} (hne : tag' ≠ tag) :=
    told_other file errno header dynamic offset (header.entryCount dynamic) 0 hne
  have hrpath := @Follows.andThen file errno _ _ _ _ _ _ (withRpaths file errno header dynamic offset)
    (fun _ => rfl) rfl (hloop dtRpath)
  simp only [pathsTold, allLooks]
  refine hrpath.append (fun look hfind => ?_) fun hpass => ?_
  · rw [heard_append_stops _ hfind, @hother dtRunpath dtRpath (by decide)]
    rfl
  · rw [heard_append _ hpass, told_append, told_append]
    have hnone := @hother dtRunpath dtRpath (by decide)
    rw [heard_all hpass] at hnone ⊢
    rw [@hother dtRpath dtRunpath (by decide), hnone, List.append_nil, List.nil_append]
    exact @Follows.andThen file errno _ _ _ _ _ _ (withRunpaths _) (fun _ => rfl) rfl
      (hloop dtRunpath)

/-! ## The segments -/

theorem readLe_lt (n off : Nat) (bs : Bytes) : readLe n off bs < 256 ^ n := by
  have hlt := Lib.ofLe_lt ((bs.drop off).take n)
  have hle : ((bs.drop off).take n).length ≤ n := List.length_take_le _ _
  exact Nat.lt_of_lt_of_le hlt (Nat.pow_le_pow_right (by decide) hle)

theorem ProgramHeader.read_lt (class64 : Bool) (bytes : Bytes) :
    (ProgramHeader.read class64 bytes).offset < 2 ^ 64 ∧
      (ProgramHeader.read class64 bytes).vaddr < 2 ^ 64 := by
  cases class64 with
  | true => exact ⟨readLe_lt 8 8 bytes, readLe_lt 8 16 bytes⟩
  | false =>
      have hoffset := readLe_lt 4 4 bytes
      have hvaddr := readLe_lt 4 8 bytes
      norm_num at hoffset hvaddr ⊢
      simp only [ProgramHeader.read]
      exact ⟨by simp; omega, by simp; omega⟩

theorem headersIn_lt {rest : Bytes} {ph : ProgramHeader}
    (h : ph ∈ headersIn header count rest) : ph.offset < 2 ^ 64 ∧ ph.vaddr < 2 ^ 64 := by
  induction count generalizing rest with
  | zero => cases h
  | succ count ih =>
      rw [headersIn] at h
      split at h
      · cases h
      · rcases List.mem_cons.mp h with rfl | h
        · exact ProgramHeader.read_lt _ _
        · exact ih h

/-- The segment that the search ends with: the first one that reaches the address, or else the last
one. -/
def picked (headers : List ProgramHeader) (address : Nat) : Option ProgramHeader :=
  (headers.find? fun ph => ph.type = ptLoad ∧ ph.matches address = true).or
    (headers.filter (·.type = ptLoad)).getLast?

/-- What is refused before the program headers are read. -/
def HeadersRefused (file : File) (errno : Option Errno) (header : ElfHeader) : Prop :=
  header.phnum ≥ 0xffff ∨ ¬ header.knownPhentsize ∨ refused file errno header.phoff = true

/-- The file ends within the program headers, and none of them is the one that is searched. -/
def HeadersCut (file : File) (header : ElfHeader) (type address : Nat) : Prop :=
  (completeHeaders file header).length < header.phnum ∧
    ∀ ph ∈ completeHeaders file header, ¬ (ph.type = type ∧ ph.matches address = true)

theorem searchProgramHeaders_refused (type address : Nat) (h : HeadersRefused file errno header) :
    ∃ fault, searchProgramHeaders file errno header type address = .error (.fails fault) := by
  unfold searchProgramHeaders
  split
  · exact ⟨_, rfl⟩
  split
  · exact ⟨_, rfl⟩
  rename_i hphnum hsize
  rcases seek_cases file errno header.phoff with ⟨-, fault, hseek⟩ | ⟨hok, -⟩ | ⟨hok, -⟩
  · rw [hseek]
    exact ⟨fault, rfl⟩
  all_goals
    have hposition := (h.resolve_left hphnum).resolve_left hsize
    simp [hok] at hposition

theorem searchProgramHeaders_silent (type address : Nat)
    (hrefused : ¬ HeadersRefused file errno header) (h : silent errno header.phoff = true) :
    searchProgramHeaders file errno header type address = .ok (false, none) := by
  obtain ⟨hphnum, hsize, hposition⟩ := by simpa only [HeadersRefused, not_or] using hrefused
  unfold searchProgramHeaders
  rw [if_neg hphnum, if_neg hsize]
  rcases seek_cases file errno header.phoff with ⟨hr, -⟩ | ⟨-, -, hseek⟩ | ⟨-, hs, -⟩
  · exact absurd hr hposition
  · rw [hseek]
  · simp [h] at hs

/-- **The search among the program headers**, once it starts. -/
theorem searchProgramHeaders_started (type address : Nat)
    (hrefused : ¬ HeadersRefused file errno header) (hsilent : silent errno header.phoff = false) :
    (HeadersCut file header type address ∧
        searchProgramHeaders file errno header type address = .error (.fails .enotsup)) ∨
      (¬ HeadersCut file header type address ∧
        searchProgramHeaders file errno header type address =
          let found := (completeHeaders file header).find? fun ph =>
            ph.type = type ∧ ph.matches address = true
          .ok (found.isSome,
            found.or ((completeHeaders file header).filter (·.type = type)).getLast?)) := by
  obtain ⟨hphnum, hsize, hposition⟩ := by simpa only [HeadersRefused, not_or] using hrefused
  have hstart : seek file errno header.phoff = .ok () := by
    rcases seek_cases file errno header.phoff with ⟨h, -⟩ | ⟨-, h, -⟩ | ⟨-, -, hseek, -⟩
    · exact absurd h hposition
    · simp [hsilent] at h
    · exact hseek
  unfold searchProgramHeaders
  rw [if_neg hphnum, if_neg hsize, hstart]
  cases hfind : (completeHeaders file header).find? fun ph =>
      ph.type = type ∧ ph.matches address = true with
  | some ph =>
      refine .inr ⟨fun hcut => ?_, searchHeaders_found hfind⟩
      have hph := List.find?_some hfind
      exact hcut.2 ph (List.mem_of_find?_eq_some hfind) (by simpa using hph)
  | none =>
      have hnone : ∀ ph ∈ completeHeaders file header,
          ¬ (ph.type = type ∧ ph.matches address = true) := fun ph hph => by
        simpa using List.find?_eq_none.mp hfind ph hph
      simp only
      rw [searchHeaders_missed hfind]
      split
      · rename_i hshort
        exact .inl ⟨⟨hshort, hnone⟩, rfl⟩
      · rename_i hlong
        refine .inr ⟨fun hcut => hlong hcut.1, ?_⟩
        rw [Option.or_none]
        rfl

theorem matches_noAddress (ph : ProgramHeader) : ph.matches noAddress = true := by
  rw [ProgramHeader.matches, if_pos rfl]

theorem not_contains_noAddress (ph : ProgramHeader) : ¬ ph.Contains noAddress := by
  unfold ProgramHeader.Contains noAddress
  omega

/-! ## What is read -/

/-- The string table is at this address: the looks through the segment that is picked tell the
strings that the dynamic linker finds, unless they are refused. -/
def TableRight (file : File) (errno : Option Errno) (header : ElfHeader) (dynamic : ProgramHeader)
    (address : Nat) : Prop :=
  HeadersCut file header ptLoad address ∨
    ∃ segment, picked (completeHeaders file header) address = some segment ∧
      let looks := allLooks file header dynamic (strtabOffsetIn segment address)
      let same := pathsTold file errno looks = linkerPaths file header
      Settled file errno looks same same

/-- The file is well read with this `errno`: where the last look isn't refused, there is nothing
to find for the dynamic linker, or the right strings are told. -/
def PathsRight (file : File) (errno : Option Errno) (header : ElfHeader) : Prop :=
  ∀ dynamic, (completeHeaders file header).find? (·.type = ptDynamic) = some dynamic →
    HeadersRefused file errno header ∨
      let nothing := linkerPaths file header = (none, none)
      if silent errno header.phoff then nothing
      else
        dynamic.filesz % header.entrySize = 0 →
          Settled file errno (tableLooks file header dynamic (header.entryCount dynamic) 0) nothing
            (∀ address, tableAddress file header dynamic (header.entryCount dynamic) 0 =
              some address → address ≠ noAddress → TableRight file errno header dynamic address)

/-- With an `errno`, looks that are all made tell every string of the tag. -/
theorem told_pathLooks (herrno : errno.isSome = true) {offset : Nat}
    (h : ∀ look ∈ pathLooks file header dynamic offset tag count i, look.stops file errno = false) :
    told errno tag (pathLooks file header dynamic offset tag count i) =
      ((entriesOf file header dynamic count i).filter (·.1 = tag)).map fun entry =>
        stringAt file (offset + entry.2) := by
  have hloud (position : Nat) : silent errno position = false := by
    obtain ⟨e, rfl⟩ := Option.isSome_iff_exists.mp herrno
    exact Bool.and_false _
  induction count generalizing i with
  | zero => rfl
  | succ count ih =>
      rw [pathLooks] at h ⊢
      obtain ⟨hentry, hrest⟩ := List.forall_mem_cons.mp h
      have hwhole := (entryLook_held hentry).2
      rw [entriesOf, told]
      by_cases htag : entryTag file header dynamic i = tag
      · rw [if_pos htag, List.forall_mem_cons] at hrest
        rw [if_pos htag, if_pos (hwhole htag), List.filter_cons_of_pos (by simpa using htag),
          List.map_cons, ← ih hrest.2]
        simp [told, entryLook, stringLook, hloud]
      · rw [if_neg htag] at hrest
        rw [if_neg htag]
        simp only [entryLook]
        rw [ih hrest]
        split
        · rw [List.filter_cons_of_neg (by simpa using htag)]
        · rfl

/-- **A string table in the segment that is picked** is well read, with an `errno`, if the looks are
all made, or the last one is refused. -/
theorem tableRight_of_contains {segment : ProgramHeader} (herrno : errno.isSome = true)
    (hdynamic : (completeHeaders file header).find? (·.type = ptDynamic) = some dynamic)
    (htable : (entriesOf file header dynamic (header.entryCount dynamic) 0).find?
      (·.1 = dtStrtab) = some (dtStrtab, address))
    (hpicked : picked (completeHeaders file header) address = some segment)
    (hload : (completeHeaders file header).find? (fun ph => ph.type = ptLoad ∧ ph.Contains address) =
      some segment)
    (hwrap : segment.offset + (address - segment.vaddr) < 2 ^ 64)
    (hlooks : ∀ look, (allLooks file header dynamic (strtabOffsetIn segment address)).find?
      (·.stops file errno) = some look → refused file errno look.offset = true) :
    TableRight file errno header dynamic address := by
  have hcontains : segment.Contains address := by
    have hsome := List.find?_some hload
    simp only [decide_eq_true_eq] at hsome
    exact hsome.2
  have hoffset : strtabOffsetIn segment address = segment.offset + (address - segment.vaddr) := by
    have hle := hcontains.1
    rw [strtabOffsetIn, show segment.offset + (address + 2 ^ 64 - segment.vaddr) =
      segment.offset + (address - segment.vaddr) + 2 ^ 64 by omega, Nat.add_mod_right,
      Nat.mod_eq_of_lt hwrap]
  refine .inr ⟨segment, hpicked, ?_⟩
  unfold Settled
  dsimp only
  split
  · rename_i hnone
    have hpass (look : Look) (hlook : look ∈ allLooks file header dynamic
        (strtabOffsetIn segment address)) : look.stops file errno = false := by
      simpa using List.find?_eq_none.mp hnone look hlook
    obtain ⟨hrpath, hrunpath⟩ := List.forall_mem_append.mp hpass
    have hother {tag tag' : Nat} (hne : tag' ≠ tag) := told_other file errno header dynamic
      (strtabOffsetIn segment address) (header.entryCount dynamic) 0 hne
    have hnorun := @hother dtRunpath dtRpath (by decide)
    have hnor := @hother dtRpath dtRunpath (by decide)
    rw [heard_all hrpath] at hnorun
    rw [heard_all hrunpath] at hnor
    rw [pathsTold, heard_all hpass, allLooks, told_append, told_append, hnorun, hnor,
      told_pathLooks herrno hrpath, told_pathLooks herrno hrunpath, List.append_nil, List.nil_append,
      linkerPaths, hdynamic]
    simp only [htable]
    rw [hload, hoffset]
    rfl
  · rename_i look hfind
    exact .inl (hlooks look hfind)

def Fails (file : File) (errno : Option Errno) (header : ElfHeader) : Prop :=
  ∃ fault, readLdsoRpaths file errno header = .error (.fails fault)

/-- **RPATH and RUNPATH are read as the dynamic linker reads them**, or the function fails. -/
def ReadsAsLinker (file : File) (errno : Option Errno) (header : ElfHeader) : Prop :=
  Fails file errno header ∨ readLdsoRpaths file errno header = .ok (linkerPaths file header)

theorem readFrom_iff (hoffset : dynamic.offset < 2 ^ 64)
    (hrefused : ¬ HeadersRefused file errno header)
    (hsilent : silent errno header.phoff = false) :
    Agrees (linkerPaths file header) (readFrom file errno header dynamic address) ↔
      TableRight file errno header dynamic address := by
  unfold readFrom TableRight
  rcases searchProgramHeaders_started ptLoad address hrefused hsilent with
    ⟨hcut, hsearch⟩ | ⟨hwhole, hsearch⟩
  · rw [hsearch]
    exact iff_of_true (agrees_fails _) (.inl hcut)
  replace hsearch : searchProgramHeaders file errno header ptLoad address =
    .ok (_, picked (completeHeaders file header) address) := hsearch
  rw [hsearch, or_iff_right hwhole]
  cases hsegment : picked (completeHeaders file header) address with
  | none =>
      refine iff_of_false not_agrees_unread ?_
      rintro ⟨segment, hsome, -⟩
      cases hsome
  | some segment =>
      simp only [Option.some.injEq, exists_eq_left']
      rw [(readPaths_follows file errno hoffset).agrees_iff, agrees_ok]

/-- Without a string table that is in a segment, the dynamic linker finds nothing. -/
theorem linkerPaths_none {address : Option Nat}
    (hdynamic : (completeHeaders file header).find? (·.type = ptDynamic) = some dynamic)
    (hentry : (entriesOf file header dynamic (header.entryCount dynamic) 0).find?
      (·.1 = dtStrtab) = address.map fun a => (dtStrtab, a))
    (hnone : address.getD noAddress = noAddress) : linkerPaths file header = (none, none) := by
  rw [linkerPaths, hdynamic]
  simp only [hentry]
  cases address with
  | none => rfl
  | some a =>
      obtain rfl : a = noAddress := hnone
      have hload : (completeHeaders file header).find?
          (fun ph => ph.type = ptLoad ∧ ph.Contains noAddress) = none := by
        rw [List.find?_eq_none]
        intro ph _
        simp [not_contains_noAddress ph]
      simp only [Option.map_some]
      rw [hload]

/-- What `readDynamic` does with the address of the string table. -/
def withTable (file : File) (errno : Option Errno) (header : ElfHeader) (dynamic : ProgramHeader) :
    Except Stop Nat → Except Stop (Option Bytes × Option Bytes)
  | .error .returned => .ok (none, none)
  | .error stop => .error stop
  | .ok address =>
    if address = noAddress then .ok (none, none)
    else readFrom file errno header dynamic address

/-- **The condition on the looks**, once the headers were read. -/
theorem readDynamic_iff
    (hdynamic : (completeHeaders file header).find? (·.type = ptDynamic) = some dynamic)
    (hrefused : ¬ HeadersRefused file errno header)
    (hsilent : silent errno header.phoff = false) :
    Agrees (linkerPaths file header) (readDynamic file errno header dynamic) ↔
      (dynamic.filesz % header.entrySize = 0 →
        Settled file errno (tableLooks file header dynamic (header.entryCount dynamic) 0)
          (linkerPaths file header = (none, none))
          (∀ address, tableAddress file header dynamic (header.entryCount dynamic) 0 =
            some address → address ≠ noAddress →
              TableRight file errno header dynamic address)) := by
  have hoffset := (headersIn_lt (List.mem_of_find?_eq_some hdynamic)).1
  have hstart : entryOffset header dynamic 0 < 2 ^ 64 := by
    rw [entryOffset, Nat.zero_mul]
    exact hoffset
  unfold readDynamic
  by_cases hsize : dynamic.filesz % header.entrySize = 0
  swap
  · rw [if_pos hsize]
    exact iff_of_true (agrees_fails _) (absurd · hsize)
  rw [if_neg (not_not_intro hsize)]
  simp only [hsize, true_imp_iff]
  have hloop :=
    @strtabAddress_follows header dynamic file errno (header.entryCount dynamic) 0 hstart
  have hfollows := @Follows.andThen file errno _ _ _ _ _ _ (withTable file errno header dynamic)
    (fun _ => rfl) rfl hloop
  refine hfollows.agrees_iff.trans (Settled.congr ?_ fun hpass => ?_)
  · rw [eq_comm]
    exact agrees_ok
  have hentry := tableAddress_eq hpass
  cases haddress : tableAddress file header dynamic (header.entryCount dynamic) 0 with
  | none =>
      rw [haddress] at hentry
      refine iff_of_true ?_ (fun a ha => by cases ha)
      rw [linkerPaths_none hdynamic hentry rfl]
      exact .inr rfl
  | some a =>
      rw [haddress] at hentry
      by_cases hno : a = noAddress
      · refine iff_of_true ?_ (fun a' ha hne => absurd (Option.some.inj ha ▸ hno) hne)
        rw [linkerPaths_none hdynamic hentry hno, Option.getD_some]
        show Agrees _ (if a = noAddress then _ else _)
        rw [if_pos hno]
        exact .inr rfl
      · have hnext : withTable file errno header dynamic (.ok a) =
            readFrom file errno header dynamic a := if_neg hno
        rw [Option.getD_some, hnext, readFrom_iff hoffset hrefused hsilent]
        constructor
        · intro hright a' ha _
          cases ha
          exact hright
        · exact fun hright => hright a rfl hno

/-- A 32-bit file with a segment of 16 bytes at address 0, a dynamic segment with a string table at
address 144 and a DT_RPATH entry, and "/x" at offset 144. -/
def strayTable : File where
  content := [0x7f, 0x45, 0x4c, 0x46, 1] ++ List.replicate 23 0 ++ [64, 0, 0, 0] ++
    List.replicate 10 0 ++ [32, 0, 2, 0] ++ List.replicate 18 0 ++
    ([1, 0, 0, 0] ++ List.replicate 16 0 ++ [16, 0, 0, 0] ++ List.replicate 8 0) ++
    ([2, 0, 0, 0, 128, 0, 0, 0] ++ List.replicate 8 0 ++ [16, 0, 0, 0] ++ List.replicate 12 0) ++
    [5, 0, 0, 0, 144, 0, 0, 0, 15, 0, 0, 0, 0, 0, 0, 0] ++ [47, 120, 0]
  maxOffset := 4096

def strayHeader : ElfHeader := ⟨false, 0, 0, 64, 32, 2⟩

end Improot.Execve
