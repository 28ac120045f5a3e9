import Improot.Lib.Words

/-!
# Auxiliary vectors

`execve/auxv.c`, and the two extensions that edit the vectors when execve(2) has succeeded: kompat
and fake_id0.  The stack holds argc, argv, envp and the vectors, each list with its terminator.
-/

namespace Improot.Execve

open Improot.Lib

/-! ## The vectors -/

structure ElfAuxVector where
  type : Nat
  value : Nat
  deriving DecidableEq, Repr

def atNull : Nat := 0
def atIgnore : Nat := 1
def atUid : Nat := 11
def atEuid : Nat := 12
def atGid : Nat := 13
def atEgid : Nat := 14
def atHwcap : Nat := 16
def atRandom : Nat := 25
def atSysinfo : Nat := 32
def atSysinfoEhdr : Nat := 33

/-- What the extensions are run with: the size of a word of the tracee, one more than the greatest
`word_t`, and whether Talloc can allocate a number of bytes. -/
structure Platform where
  word : Nat
  wordEnd : Nat
  allocates : Nat → Bool
  word_eq : word = 4 ∨ word = 8
  wordEnd_eq : wordEnd = 2 ^ 64 ∨ wordEnd = 2 ^ 32 ∧ word = 4

structure Stack where
  memory : Memory
  pointer : Nat

variable (p : Platform)

/-- `add_elf_aux_vector`. The sentinel of an array isn't in the list. -/
def addElfAuxVector (vectors : List ElfAuxVector) (type value : Nat) : Option (List ElfAuxVector) :=
  if p.allocates (16 * (vectors.length + 2)) then some (vectors ++ [⟨type, value⟩]) else none

/-- The loop that skips envp: the address after the first word that is null. No loop reads more
words than there are addresses. -/
def skipEnvp (m : Memory) : (turns : Nat) → (address : Nat) → Option Nat
  | 0, _ => none
  | turns + 1, address =>
    match m.peek p.word address with
    | none => none
    | some data =>
      if data = 0 then some ((address + p.word) % p.wordEnd)
      else skipEnvp m turns ((address + p.word) % p.wordEnd)

def getElfAuxVectorsAddress (s : Stack) : Option Nat :=
  match s.memory.peek p.word s.pointer with
  | none => none
  | some argc =>
    match skipEnvp p s.memory p.wordEnd ((s.pointer + (1 + argc + 1) * p.word) % p.wordEnd) with
    | none => none
    | some address => if address = 0 then none else some address

def fetchLoop (m : Memory) : (turns : Nat) → (vectors : List ElfAuxVector) → (address : Nat) →
    Option (List ElfAuxVector)
  | 0, _, _ => none
  | turns + 1, vectors, address =>
    match m.peek p.word address with
    | none => none
    | some type =>
      if type = atNull then some vectors
      else
        match m.peek p.word ((address + p.word) % p.wordEnd) with
        | none => none
        | some value =>
          match addElfAuxVector p vectors type value with
          | none => none
          | some vectors => fetchLoop m turns vectors ((address + p.word + p.word) % p.wordEnd)

def fetchElfAuxVectors (m : Memory) (address : Nat) : Option (List ElfAuxVector) :=
  if p.allocates 16 then fetchLoop p m p.wordEnd [] address else none

def tableWords (vectors : List ElfAuxVector) : List Nat :=
  vectors.flatMap (fun v => [v.type, v.value]) ++ [atNull, 0]

/-- `push_elf_aux_vectors`: the memory, and whether the status isn't an error. -/
def pushElfAuxVectors (m : Memory) (vectors : List ElfAuxVector) (address : Nat) : Memory × Bool :=
  m.pokeAll p.word address (tableWords vectors)

/-- The vectors are pushed where `address` says; no caller looks at the status. -/
def pushed (s : Stack) (vectors : List ElfAuxVector) (address : Nat) : Stack × Bool :=
  let (memory, status) := pushElfAuxVectors p s.memory vectors address
  ({ s with memory := memory }, status)

/-! ## fake_id0 -/

structure Ids where
  ruid : Nat
  euid : Nat
  rgid : Nat
  egid : Nat

/-- The switch of `adjust_elf_auxv` in `fake_id0.c`. -/
def Ids.edit (ids : Ids) (v : ElfAuxVector) : ElfAuxVector :=
  if v.type = atUid then { v with value := ids.ruid }
  else if v.type = atEuid then { v with value := ids.euid }
  else if v.type = atGid then { v with value := ids.rgid }
  else if v.type = atEgid then { v with value := ids.egid }
  else v

/-- `adjust_elf_auxv` of `fake_id0.c`, and whether it was completed. -/
def Ids.adjustElfAuxv (ids : Ids) (s : Stack) : Stack × Bool :=
  match getElfAuxVectorsAddress p s with
  | none => (s, false)
  | some address =>
    match fetchElfAuxVectors p s.memory address with
    | none => (s, false)
    | some vectors => pushed p s (vectors.map ids.edit) address

/-! ## kompat -/

/-- The part of `Config` in `kompat.c` that is used here; there may be no hwcap. -/
structure KompatConfig where
  actualRelease : Nat
  virtualRelease : Nat
  hwcap : Option Nat

def kernelVersion (a b c : Nat) : Nat := a * 65536 + b * 256 + c

def KompatConfig.needsKompat (c : KompatConfig) (expectedRelease : Nat) : Bool :=
  expectedRelease > c.actualRelease ∧ expectedRelease ≤ c.virtualRelease

def KompatConfig.edit (c : KompatConfig) (v : ElfAuxVector) : ElfAuxVector :=
  if v.type = atSysinfoEhdr ∨ v.type = atSysinfo then ⟨atIgnore, 0⟩
  else if v.type = atHwcap then { v with value := c.hwcap.getD v.value }
  else v

/-- The loop over the vectors; does it jump to the end? -/
def KompatConfig.editLoop (c : KompatConfig) : List ElfAuxVector → List ElfAuxVector × Bool
  | [] => ([], false)
  | v :: vs =>
    if v.type = atRandom ∧ c.actualRelease ≠ 0 then (v :: vs, true)
    else
      let (vs, ends) := c.editLoop vs
      (c.edit v :: vs, ends)

def lower (address : Nat) : Nat := (address + p.wordEnd - 2 * p.word) % p.wordEnd

def distance (first last : Nat) : Nat := (last + p.wordEnd - first) % p.wordEnd

/-- The end of `adjust_elf_auxv` in `kompat.c`, where a vector was added: argv and envp are moved one
vector downward. -/
def moveAndPush (s : Stack) (vectors : List ElfAuxVector) (address : Nat) : Stack × Bool :=
  let size := distance p s.pointer address
  if ¬ p.allocates size then pushed p s vectors address
  else
    match s.memory.load s.pointer size with
    | none => pushed p s vectors address
    | some argvEnvp =>
      let pointer := lower p s.pointer
      -- the stack pointer is set before the data is transferred
      match s.memory.store pointer argvEnvp with
      | (m, false) => (⟨m, pointer⟩, false)
      | (m, true) => pushed p ⟨m, pointer⟩ vectors (lower p address)

def KompatConfig.adjustElfAuxv (c : KompatConfig) (s : Stack) : Stack × Bool :=
  match getElfAuxVectorsAddress p s with
  | none => (s, false)
  | some address =>
    match fetchElfAuxVectors p s.memory address with
    | none => (s, false)
    | some vectors =>
      let (vectors, ends) := c.editLoop vectors
      if ends ∨ ¬ c.needsKompat (kernelVersion 2 6 29) then pushed p s vectors address
      else
        match addElfAuxVector p vectors atRandom address with
        | none => pushed p s vectors address
        | some vectors => moveAndPush p s vectors address

end Improot.Execve
