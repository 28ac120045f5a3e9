import Improot.Execve.Elf

/-!
# RPATH and RUNPATH

`execve/ldso.c`: the paths that an ELF file gives to the dynamic linker.  The program headers are
searched for the dynamic segment, its entries for the string table and for the paths, and the
program headers again for the segment where the string table is.
-/

namespace Improot.Execve

open Lib (Bytes readLe)

inductive Stop where
  | fails (fault : Fault)
  /-- memory is looked at that nothing was read into -/
  | unread
  /-- `return -errno` although no call failed, and `errno` is zero -/
  | returned

/-- `lseek(fd, offset, SEEK_SET)` and the test of its status, which is an `int`. -/
def seek (file : File) (errno : Option Errno) (offset : Nat) : Except Stop Unit :=
  if 2 ^ 63 ≤ offset ∨ file.maxOffset < offset then .error (.fails (.errno .einval))
  else if wrapped offset then
    match errno with
    | some e => .error (.fails (.errno e))
    | none => .error .returned
  else .ok ()

/-! ## Program headers -/

def ptDynamic : Nat := 2

/-- `(uint64_t) -1`. -/
def noAddress : Nat := 2 ^ 64 - 1

/-- Does `find_program_header` stop at this header, which has the type that is searched? -/
def ProgramHeader.matches (address : Nat) (ph : ProgramHeader) : Bool :=
  if address = noAddress then true
  else
    let start := ph.vaddr
    let stop := (start + ph.memsz) % 2 ^ 64
    start < stop ∧ start ≤ address ∧ address ≤ stop

/-- `iterate_program_headers` with `find_program_header`: whether it stopped, and the header that it
copied last. -/
def searchHeaders (header : ElfHeader) (type address : Nat) :
    (count : Nat) → (rest : Bytes) → (data : Option ProgramHeader) →
      Except Stop (Bool × Option ProgramHeader)
  | 0, _, data => .ok (false, data)
  | count + 1, rest, data =>
    if (rest.take header.phentsize).length ≠ header.phentsize then .error (.fails .enotsup)
    else
      let ph := ProgramHeader.read header.class64 rest
      if ph.type = type then
        if ph.matches address then .ok (true, some ph)
        else searchHeaders header type address count (rest.drop header.phentsize) (some ph)
      else searchHeaders header type address count (rest.drop header.phentsize) data

/-- The same, with what `iterate_program_headers` checks first. -/
def searchProgramHeaders (file : File) (errno : Option Errno) (header : ElfHeader)
    (type address : Nat) : Except Stop (Bool × Option ProgramHeader) :=
  if header.phnum ≥ 0xffff then .error (.fails .enotsup)
  else if ¬ header.knownPhentsize then .error (.fails .enotsup)
  else
    match seek file errno header.phoff with
    | .error .returned => .ok (false, none)
    | .error stop => .error stop
    | .ok () =>
      searchHeaders header type address header.phnum (file.content.drop header.phoff) none

/-! ## Dynamic entries -/

def dtStrtab : Nat := 5

def dtRpath : Nat := 15

def dtRunpath : Nat := 29

/-- The size of a field of a `DynamicEntry`. -/
def ElfHeader.fieldSize (header : ElfHeader) : Nat := if header.class64 then 8 else 4

/-- `sizeof_dynamic_entry`. -/
def ElfHeader.entrySize (header : ElfHeader) : Nat := 2 * header.fieldSize

def ElfHeader.entryCount (header : ElfHeader) (dynamic : ProgramHeader) : Nat :=
  dynamic.filesz / header.entrySize

/-- A turn of `FOREACH_DYNAMIC_ENTRY`: the tag of the entry, and its value if it was read. -/
def dynamicEntry (file : File) (errno : Option Errno) (header : ElfHeader)
    (dynamic : ProgramHeader) (i : Nat) : Except Stop (Nat × Option Nat) :=
  let offset := (dynamic.offset + i * header.entrySize) % 2 ^ 64
  match seek file errno offset with
  | .error stop => .error stop
  | .ok () =>
    let entry := (file.content.drop offset).take header.entrySize
    if entry.length < header.fieldSize then .error .unread
    else
      .ok (readLe header.fieldSize 0 entry,
        if entry.length < header.entrySize then none
        else some (readLe header.fieldSize header.fieldSize entry))

/-- The address of the *first* string table, in the `count` entries from `i` on. -/
def strtabAddress (file : File) (errno : Option Errno) (header : ElfHeader)
    (dynamic : ProgramHeader) : (count i : Nat) → Except Stop Nat
  | 0, _ => .ok noAddress
  | count + 1, i =>
    match dynamicEntry file errno header dynamic i with
    | .error stop => .error stop
    | .ok (tag, value) =>
      if tag ≠ dtStrtab then strtabAddress file errno header dynamic count (i + 1)
      else
        match value with
        | none => .error .unread
        | some value => .ok value

/-! ## Paths -/

/-- The loop of `add_xpaths`: blocks are read until one of them has a NUL.  After the last byte of
the file `strnlen` looks at what was in the memory before. -/
def readBlocks (rest : Bytes) : Except Stop Bytes :=
  let block := rest.take 1024
  if 0 ∈ block then .ok (block.takeWhile (· ≠ 0))
  else if _h : block.length < 1024 then .error .unread
  else
    match readBlocks (rest.drop 1024) with
    | .error stop => .error stop
    | .ok paths => .ok (block ++ paths)
termination_by rest.length
decreasing_by
  simp only [block, List.length_take] at _h
  rw [List.length_drop]
  omega

def addPaths (xpaths : Option Bytes) (paths : Bytes) : Option Bytes :=
  match xpaths with
  | none => some paths
  | some xpaths => some (xpaths ++ 58 :: paths)

def addXpaths (file : File) (errno : Option Errno) (offset : Nat) (xpaths : Option Bytes) :
    Except Stop (Option Bytes) :=
  match seek file errno offset with
  | .error .returned => .ok xpaths
  | .error stop => .error stop
  | .ok () =>
    match readBlocks (file.content.drop offset) with
    | .error stop => .error stop
    | .ok paths => .ok (addPaths xpaths paths)

/-- The paths of the `count` entries from `i` on with this tag, and whether `read_ldso_rpaths`
returns before the last of them. -/
def addEntries (file : File) (errno : Option Errno) (header : ElfHeader) (dynamic : ProgramHeader)
    (strtabOffset tag : Nat) :
    (count i : Nat) → (xpaths : Option Bytes) → Except Stop (Option Bytes × Bool)
  | 0, _, xpaths => .ok (xpaths, false)
  | count + 1, i, xpaths =>
    match dynamicEntry file errno header dynamic i with
    | .error .returned => .ok (xpaths, true)
    | .error stop => .error stop
    | .ok (tag', value) =>
      if tag' ≠ tag then addEntries file errno header dynamic strtabOffset tag count (i + 1) xpaths
      else
        match value with
        | none => .error .unread
        | some value =>
          -- `strtab_offset` is signed
          if 2 ^ 63 ≤ strtabOffset ∨ 2 ^ 64 - 1 - value < strtabOffset then
            .error (.fails .enoexec)
          else
            match addXpaths file errno (strtabOffset + value) xpaths with
            | .error stop => .error stop
            | .ok xpaths =>
              addEntries file errno header dynamic strtabOffset tag count (i + 1) xpaths

/-- `strtab_offset`, in unsigned arithmetic. -/
def strtabOffsetIn (segment : ProgramHeader) (address : Nat) : Nat :=
  (segment.offset + (address + 2 ^ 64 - segment.vaddr)) % 2 ^ 64

def readPaths (file : File) (errno : Option Errno) (header : ElfHeader) (dynamic : ProgramHeader)
    (strtabOffset : Nat) : Except Stop (Option Bytes × Option Bytes) :=
  let count := header.entryCount dynamic
  match addEntries file errno header dynamic strtabOffset dtRpath count 0 none with
  | .error stop => .error stop
  | .ok (rpaths, true) => .ok (rpaths, none)
  | .ok (rpaths, false) =>
    match addEntries file errno header dynamic strtabOffset dtRunpath count 0 none with
    | .error stop => .error stop
    | .ok (runpaths, _) => .ok (rpaths, runpaths)

/-- The rest of `read_ldso_rpaths`, with the address of the string table. -/
def readFrom (file : File) (errno : Option Errno) (header : ElfHeader) (dynamic : ProgramHeader)
    (address : Nat) : Except Stop (Option Bytes × Option Bytes) :=
  match searchProgramHeaders file errno header ptLoad address with
  | .error stop => .error stop
  | .ok (_, none) => .error .unread
  | .ok (_, some segment) =>
    readPaths file errno header dynamic (strtabOffsetIn segment address)

def readDynamic (file : File) (errno : Option Errno) (header : ElfHeader)
    (dynamic : ProgramHeader) : Except Stop (Option Bytes × Option Bytes) :=
  if dynamic.filesz % header.entrySize ≠ 0 then .error (.fails .enoexec)
  else
    match strtabAddress file errno header dynamic (header.entryCount dynamic) 0 with
    | .error .returned => .ok (none, none)
    | .error stop => .error stop
    | .ok address =>
      if address = noAddress then .ok (none, none)
      else readFrom file errno header dynamic address

def readLdsoRpaths (file : File) (errno : Option Errno) (header : ElfHeader) :
    Except Stop (Option Bytes × Option Bytes) :=
  match searchProgramHeaders file errno header ptDynamic noAddress with
  | .error stop => .error stop
  | .ok (false, _) => .ok (none, none)
  | .ok (true, none) => .error .unread
  | .ok (true, some dynamic) => readDynamic file errno header dynamic

/-! ## What the dynamic linker reads -/

def headersIn (header : ElfHeader) : (count : Nat) → (rest : Bytes) → List ProgramHeader
  | 0, _ => []
  | count + 1, rest =>
    if rest.length < header.phentsize then []
    else
      ProgramHeader.read header.class64 rest ::
        headersIn header count (rest.drop header.phentsize)

def completeHeaders (file : File) (header : ElfHeader) : List ProgramHeader :=
  headersIn header header.phnum (file.content.drop header.phoff)

/-- The segment contains an address; no segment goes to the very end of the addresses. -/
def ProgramHeader.Contains (ph : ProgramHeader) (address : Nat) : Prop :=
  ph.vaddr ≤ address ∧ address < ph.vaddr + ph.memsz ∧ ph.vaddr + ph.memsz < 2 ^ 64

instance (ph : ProgramHeader) (address : Nat) : Decidable (ph.Contains address) :=
  inferInstanceAs (Decidable (_ ∧ _ ∧ _))

def entryOffset (header : ElfHeader) (dynamic : ProgramHeader) (i : Nat) : Nat :=
  dynamic.offset + i * header.entrySize

def entryTag (file : File) (header : ElfHeader) (dynamic : ProgramHeader) (i : Nat) : Nat :=
  readLe header.fieldSize (entryOffset header dynamic i) file.content

def entryValue (file : File) (header : ElfHeader) (dynamic : ProgramHeader) (i : Nat) : Nat :=
  readLe header.fieldSize (entryOffset header dynamic i + header.fieldSize) file.content

def TagInFile (file : File) (header : ElfHeader) (dynamic : ProgramHeader) (i : Nat) : Prop :=
  entryOffset header dynamic i + header.fieldSize ≤ file.content.length

def EntryInFile (file : File) (header : ElfHeader) (dynamic : ProgramHeader) (i : Nat) : Prop :=
  entryOffset header dynamic i + header.entrySize ≤ file.content.length

instance (file : File) (header : ElfHeader) (dynamic : ProgramHeader) (i : Nat) :
    Decidable (EntryInFile file header dynamic i) := inferInstanceAs (Decidable (_ ≤ _))

/-- The tags and values of the entries that are in the file, among the `count` ones from `i` on. -/
def entriesOf (file : File) (header : ElfHeader) (dynamic : ProgramHeader) :
    (count i : Nat) → List (Nat × Nat)
  | 0, _ => []
  | count + 1, i =>
    if EntryInFile file header dynamic i then
      (entryTag file header dynamic i, entryValue file header dynamic i) ::
        entriesOf file header dynamic count (i + 1)
    else entriesOf file header dynamic count (i + 1)

/-- The string at an offset: up to a NUL, or to the end of the file. -/
def stringAt (file : File) (offset : Nat) : Bytes := (file.content.drop offset).takeWhile (· ≠ 0)

def colonJoined : List Bytes → Option Bytes
  | [] => none
  | s :: ss => some (s ++ ss.flatMap (58 :: ·))

def joinedAt (file : File) (offset tag : Nat) (entries : List (Nat × Nat)) : Option Bytes :=
  colonJoined ((entries.filter (·.1 = tag)).map fun entry => stringAt file (offset + entry.2))

def linkerPaths (file : File) (header : ElfHeader) : Option Bytes × Option Bytes :=
  match (completeHeaders file header).find? (·.type = ptDynamic) with
  | none => (none, none)
  | some dynamic =>
    let entries := entriesOf file header dynamic (header.entryCount dynamic) 0
    match entries.find? (·.1 = dtStrtab) with
    | none => (none, none)
    | some (_, address) =>
      match (completeHeaders file header).find?
        fun ph => ph.type = ptLoad ∧ ph.Contains address with
      | none => (none, none)
      | some segment =>
        let offset := segment.offset + (address - segment.vaddr)
        (joinedAt file offset dtRpath entries, joinedAt file offset dtRunpath entries)

end Improot.Execve
