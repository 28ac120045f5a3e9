import Improot.Lib.Buffer
import Improot.Lib.Memory
import Improot.Path.Basic

/-!
# Transfers between PRoot and a tracee

`write_data`, `read_data` and `read_string` of `tracee/mem.c`. Each tries the `process_vm` system
calls first, and goes word by word with ptrace(2) where these fail: `PTRACE_PEEKDATA` reads a word
that is mapped from its first to its last byte, `PTRACE_POKEDATA` writes up to the first byte that
can't be written.
-/

namespace Improot.Tracee

open Improot.Lib

variable (w : Nat)

/-! ## Blocks -/

/-- The first loop of `write_data`: `n` words of `src` are poked, from `dest` on; and did every
request succeed? -/
def pokeWords (m : Memory) (dest : Nat) (src : Bytes) : Nat → Memory × Bool
  | 0 => (m, true)
  | n + 1 =>
    match m.store dest (src.take w) with
    | (m, false) => (m, false)
    | (m, true) => pokeWords m (dest + w) (src.drop w) n

/-- `write_data` without process_vm_writev(2), for words of `w` bytes. -/
def writeDataFallback (m : Memory) (dest : Nat) (src : Bytes) : Memory × Except Errno Unit :=
  let size := src.length
  let nbTrailingBytes := size % w
  let nbFullWords := (size - nbTrailingBytes) / w
  match pokeWords w m dest src nbFullWords with
  | (m, false) => (m, .error .efault)
  | (m, true) =>
    if nbTrailingBytes = 0 then (m, .ok ())
    else
      let last := dest + nbFullWords * w
      match m.load last w with
      | none => (m, .error .efault)
      | some word =>
        -- only the relevant bytes of the last word are overwritten
        match m.store last (src.drop (nbFullWords * w) ++ word.drop nbTrailingBytes) with
        | (m, false) => (m, .error .efault)
        | (m, true) => (m, .ok ())

/-- The first loop of `read_data`: `n` words from `src` on are stored at the offset `i` of `dest`.
-/
def peekWords (m : Memory) (src : Nat) (dest : Bytes) (i : Nat) : Nat → Bytes × Bool
  | 0 => (dest, true)
  | n + 1 =>
    match m.load src w with
    | none => (dest, false)
    | some word => peekWords m (src + w) (patch dest i word) (i + w) n

/-- `read_data` without process_vm_readv(2). -/
def readDataFallback (m : Memory) (dest : Bytes) (src size : Nat) : Bytes × Except Errno Unit :=
  let nbTrailingBytes := size % w
  let nbFullWords := (size - nbTrailingBytes) / w
  match peekWords w m src dest 0 nbFullWords with
  | (dest, false) => (dest, .error .efault)
  | (dest, true) =>
    if nbTrailingBytes = 0 then (dest, .ok ())
    else
      match m.load (src + nbFullWords * w) w with
      | none => (dest, .error .efault)
      | some word => (patch dest (nbFullWords * w) (word.take nbTrailingBytes), .ok ())

/-! ## Strings -/

def endOfString? (bs : Bytes) : Option Nat := bs.findIdx? (· = 0)

/-- The first loop of the fallback of `read_string`: none when it doesn't return. -/
def stringWords (m : Memory) (src : Nat) (dest : Bytes) (i : Nat) :
    Nat → Bytes × Option (Except Errno Nat)
  | 0 => (dest, none)
  | n + 1 =>
    match m.load src w with
    | none => (dest, some (.error .efault))
    | some word =>
      let dest := patch dest i word
      match endOfString? word with
      | some j => (dest, some (.ok (i + j + 1)))
      | none => stringWords m (src + w) dest (i + w) n

/-- `read_string` from its label `fallback` on. -/
def readStringFallback (m : Memory) (dest : Bytes) (src maxSize : Nat) : Bytes × Except Errno Nat :=
  let nbTrailingBytes := maxSize % w
  let nbFullWords := (maxSize - nbTrailingBytes) / w
  match stringWords w m src dest 0 nbFullWords with
  | (dest, some status) => (dest, status)
  | (dest, none) =>
    let i := nbFullWords * w
    match m.load (src + i) w with
    | none => (dest, .error .efault)
    | some word =>
      let word := word.take nbTrailingBytes
      match endOfString? word with
      | some j => (patch dest i (word.take (j + 1)), .ok (i + j + 1))
      | none => (patch dest i word, .ok (i + nbTrailingBytes + 1))

def chunkSize (pageSize : Nat) : Nat :=
  if 0 < pageSize ∧ pageSize < 1024 then pageSize else 1024

theorem chunkSize_pos (pageSize : Nat) : 0 < chunkSize pageSize := by
  unfold chunkSize
  split
  case isTrue h => exact h.1
  case isFalse => decide

/-- process_vm_readv(2): the bytes that it transfers from an address, of a number that is asked for.
-/
abbrev ProcessVmReadv := (address size : Nat) → Bytes

def sizeOfChunk (pageSize address left : Nat) : Nat :=
  let chunk := chunkSize pageSize
  let currentChunk := address - address % chunk
  let nextChunk := currentChunk + chunk
  min (nextChunk - address) left

theorem sizeOfChunk_pos {pageSize address left : Nat} (h : 0 < left) :
    0 < sizeOfChunk pageSize address left := by
  have hmod := Nat.mod_lt address (chunkSize_pos pageSize)
  have hle := Nat.mod_le address (chunkSize pageSize)
  simp only [sizeOfChunk]
  omega

theorem sizeOfChunk_le (pageSize address left : Nat) :
    sizeOfChunk pageSize address left ≤ left :=
  Nat.min_le_right _ _

/-- The loop of `read_string` over chunks; none when it goes to the label `fallback`. -/
def stringChunks (readv : ProcessVmReadv) (pageSize src maxSize : Nat) (dest : Bytes)
    (offset : Nat) : Bytes × Option Nat :=
  let size := sizeOfChunk pageSize (src + offset) (maxSize - offset)
  let bytes := readv (src + offset) size
  let dest := patch dest offset bytes
  if bytes.length ≠ size then (dest, none)
  else
    match endOfString? bytes with
    | some status => (dest, some (offset + status + 1))
    | none =>
      if offset + size < maxSize then
        stringChunks readv pageSize src maxSize dest (offset + size)
      else (dest, none)
  termination_by maxSize - offset
  decreasing_by
    have hpos : 0 < sizeOfChunk pageSize (src + offset) (maxSize - offset) :=
      sizeOfChunk_pos (by omega)
    omega

/-- `read_string`, with process_vm_readv(2). -/
def readString (readv : ProcessVmReadv) (pageSize : Nat) (m : Memory) (dest : Bytes)
    (src maxSize : Nat) : Bytes × Except Errno Nat :=
  match stringChunks readv pageSize src maxSize dest 0 with
  | (dest, some size) => (dest, .ok size)
  | (dest, none) => readStringFallback w m dest src maxSize

end Improot.Tracee
