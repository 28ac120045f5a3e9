import Improot.Tracee.Mem

/-!
# Requests

What `read_data` and `read_string` ask of the tracee: the ranges that they pass to
process_vm_readv(2), and the words that they peek with ptrace(2) where this comes short.
-/

namespace Improot.Tracee

open Improot.Lib

structure Request where
  address : Nat
  size : Nat
  deriving DecidableEq, Repr

/-- The request keeps to `size` bytes from `start` on. -/
def Request.Within (r : Request) (start size : Nat) : Prop :=
  start ≤ r.address ∧ r.address + r.size ≤ start + size

instance (r : Request) (start size : Nat) : Decidable (r.Within start size) :=
  inferInstanceAs (Decidable (_ ∧ _))

variable (w : Nat)

/-- `n` words are peeked, up to the first one that isn't mapped. -/
def wordRequests (m : Memory) (src : Nat) : Nat → List Request
  | 0 => []
  | n + 1 => ⟨src, w⟩ :: if (m.load src w).isSome then wordRequests m (src + w) n else []

/-- `read_data`, with process_vm_readv(2). -/
def readData (readv : ProcessVmReadv) (m : Memory) (dest : Bytes) (src size : Nat) :
    Bytes × Except Errno Unit :=
  let bytes := readv src size
  if bytes.length = size then (patch dest 0 bytes, .ok ())
  else readDataFallback w m (patch dest 0 bytes) src size

/-- What `read_data` asks for: the last word of the fallback is read as a whole. -/
def readDataRequests (readv : ProcessVmReadv) (m : Memory) (src size : Nat) : List Request :=
  let nbTrailingBytes := size % w
  let nbFullWords := (size - nbTrailingBytes) / w
  ⟨src, size⟩ ::
    if (readv src size).length = size then []
    else wordRequests w m src (if nbTrailingBytes = 0 then nbFullWords else nbFullWords + 1)

/-- What the loop of `read_string` over chunks asks for. -/
def chunkRequests (readv : ProcessVmReadv) (pageSize src maxSize offset : Nat) : List Request :=
  let size := sizeOfChunk pageSize (src + offset) (maxSize - offset)
  let bytes := readv (src + offset) size
  ⟨src + offset, size⟩ ::
    if bytes.length ≠ size then []
    else
      match endOfString? bytes with
      | some _ => []
      | none =>
        if offset + size < maxSize then chunkRequests readv pageSize src maxSize (offset + size)
        else []
  termination_by maxSize - offset
  decreasing_by
    have hpos : 0 < sizeOfChunk pageSize (src + offset) (maxSize - offset) :=
      sizeOfChunk_pos (by omega)
    omega

/-- What the fallback of `read_string` asks for, over `n` words. -/
def stringWordRequests (m : Memory) (src : Nat) : Nat → List Request
  | 0 => []
  | n + 1 =>
    ⟨src, w⟩ ::
      match m.load src w with
      | none => []
      | some word =>
        match endOfString? word with
        | some _ => []
        | none => stringWordRequests m (src + w) n

/-- What `read_string` asks for: the fallback reads a word behind the full ones in any case. -/
def readStringRequests (readv : ProcessVmReadv) (pageSize : Nat) (m : Memory) (src maxSize : Nat) :
    List Request :=
  chunkRequests readv pageSize src maxSize 0 ++
    match (stringChunks readv pageSize src maxSize [] 0).2 with
    | some _ => []
    | none => stringWordRequests w m src ((maxSize - maxSize % w) / w + 1)

/-! ## How far the requests go -/

/-- How far the words go that are peeked. -/
def wordSpan (m : Memory) (src : Nat) : Nat → Nat
  | 0 => 0
  | n + 1 => w + if (m.load src w).isSome then wordSpan m (src + w) n else 0

/-- How far `read_data` goes. -/
def readDataSpan (readv : ProcessVmReadv) (m : Memory) (src size : Nat) : Nat :=
  if (readv src size).length = size then size
  else max size (wordSpan w m src (if size % w = 0 then size / w else size / w + 1))

def chunkSpan (readv : ProcessVmReadv) (pageSize src maxSize offset : Nat) : Nat :=
  let size := sizeOfChunk pageSize (src + offset) (maxSize - offset)
  let bytes := readv (src + offset) size
  if bytes.length = size ∧ endOfString? bytes = none ∧ offset + size < maxSize then
    chunkSpan readv pageSize src maxSize (offset + size)
  else offset + size
  termination_by maxSize - offset
  decreasing_by
    have hpos : 0 < sizeOfChunk pageSize (src + offset) (maxSize - offset) :=
      sizeOfChunk_pos (by omega)
    omega

def stringWordSpan (m : Memory) (src : Nat) : Nat → Nat
  | 0 => 0
  | n + 1 =>
    w +
      match m.load src w with
      | none => 0
      | some word => if endOfString? word = none then stringWordSpan m (src + w) n else 0

/-- How far `read_string` goes: over the chunks, and over the words where these come short. -/
def readStringSpan (readv : ProcessVmReadv) (pageSize : Nat) (m : Memory) (src maxSize : Nat) : Nat :=
  max (chunkSpan readv pageSize src maxSize 0)
    (match (stringChunks readv pageSize src maxSize [] 0).2 with
    | some _ => 0
    | none => stringWordSpan w m src (maxSize / w + 1))

variable {w}

variable {m : Memory} {len src start : Nat} {readv : ProcessVmReadv}

theorem wordRequests_within (n : Nat) (hstart : start ≤ src) (hsrc : src ≤ start + len) :
    (∀ r ∈ wordRequests w m src n, r.Within start len) ↔
      src + wordSpan w m src n ≤ start + len := by
  induction n generalizing src with
  | zero => simpa [wordRequests, wordSpan] using hsrc
  | succ n ih =>
      rw [wordRequests, wordSpan, List.forall_mem_cons]
      by_cases hfirst : src + w ≤ start + len
      · have hrest := @ih (src + w) (by omega) hfirst
        by_cases hload : (m.load src w).isSome = true
        · rw [if_pos hload, if_pos hload, hrest, Nat.add_assoc]
          exact and_iff_right ⟨hstart, hfirst⟩
        · rw [if_neg hload, if_neg hload]
          exact iff_of_true ⟨⟨hstart, hfirst⟩, List.forall_mem_nil _⟩ hfirst
      · exact iff_of_false (fun h => hfirst h.1.2) (by omega)

theorem stringWordRequests_within (n : Nat) (hstart : start ≤ src) (hsrc : src ≤ start + len) :
    (∀ r ∈ stringWordRequests w m src n, r.Within start len) ↔
      src + stringWordSpan w m src n ≤ start + len := by
  induction n generalizing src with
  | zero => simpa [stringWordRequests, stringWordSpan] using hsrc
  | succ n ih =>
      rw [stringWordRequests, stringWordSpan, List.forall_mem_cons]
      by_cases hfirst : src + w ≤ start + len
      · have hrest := @ih (src + w) (by omega) hfirst
        have hdone : (∀ r ∈ ([] : List Request), r.Within start len) ↔ src + (w + 0) ≤ start + len :=
          iff_of_true (List.forall_mem_nil _) hfirst
        rw [and_iff_right (show Request.Within ⟨src, w⟩ start len from ⟨hstart, hfirst⟩)]
        cases m.load src w with
        | none => exact hdone
        | some word =>
            cases hend : endOfString? word with
            | some _ => simpa [hend] using hdone
            | none => simpa [hend, Nat.add_assoc] using hrest
      · exact iff_of_false (fun h => hfirst h.1.2) (by omega)

theorem chunkRequests_eq {pageSize maxSize offset size : Nat}
    {bytes : Bytes} (hsize : sizeOfChunk pageSize (src + offset) (maxSize - offset) = size)
    (hbytes : readv (src + offset) size = bytes) :
    chunkRequests readv pageSize src maxSize offset = ⟨src + offset, size⟩ ::
      if bytes.length = size ∧ endOfString? bytes = none ∧ offset + size < maxSize then
        chunkRequests readv pageSize src maxSize (offset + size)
      else [] := by
  rw [chunkRequests, hsize, hbytes]
  by_cases hlength : bytes.length = size
  · rw [if_neg (not_not_intro hlength)]
    cases endOfString? bytes <;> simp [hlength]
  · simp [hlength]

theorem le_chunkSpan (readv : ProcessVmReadv) (pageSize src maxSize offset : Nat) :
    offset ≤ chunkSpan readv pageSize src maxSize offset := by
  induction offset using chunkSpan.induct readv pageSize src maxSize with
  | case1 offset size bytes hgoes ih =>
      rw [chunkSpan, if_pos hgoes]
      exact Nat.le_of_add_right_le ih
  | case2 offset size bytes hstops =>
      rw [chunkSpan, if_neg hstops]
      exact Nat.le_add_right _ _

theorem chunkRequests_within {pageSize maxSize : Nat} (hstart : start ≤ src) (offset : Nat) :
    (∀ r ∈ chunkRequests readv pageSize src maxSize offset, r.Within start len) ↔
      src + chunkSpan readv pageSize src maxSize offset ≤ start + len := by
  induction offset using chunkSpan.induct readv pageSize src maxSize with
  | case1 offset size bytes hgoes ih =>
      have hnext := le_chunkSpan readv pageSize src maxSize (offset + size)
      rw [chunkRequests_eq rfl rfl, chunkSpan, if_pos hgoes, if_pos hgoes, List.forall_mem_cons, ih]
      refine and_iff_right_of_imp fun hle => ?_
      show start ≤ src + offset ∧ src + offset + size ≤ start + len
      omega
  | case2 offset size bytes hstops =>
      rw [chunkRequests_eq rfl rfl, chunkSpan, if_neg hstops, if_neg hstops, List.forall_mem_singleton]
      show start ≤ src + offset ∧ src + offset + size ≤ start + len ↔ _
      omega

theorem readDataRequests_within {size : Nat} (hstart : start ≤ src) :
    (∀ r ∈ readDataRequests w readv m src size, r.Within start len) ↔
      src + readDataSpan w readv m src size ≤ start + len := by
  simp only [readDataRequests, readDataSpan, List.forall_mem_cons, ← Nat.div_eq_sub_mod_div]
  by_cases hfirst : src + size ≤ start + len
  · rw [and_iff_right (show Request.Within ⟨src, size⟩ start len from ⟨hstart, hfirst⟩)]
    split_ifs with hread
    · exact iff_of_true (List.forall_mem_nil _) hfirst
    all_goals
      rw [wordRequests_within _ hstart (Nat.le_of_add_right_le hfirst)]
      omega
  · refine iff_of_false (fun h => hfirst h.1.2) fun hle => hfirst ?_
    split_ifs at hle <;> omega

theorem readStringRequests_within {pageSize maxSize : Nat} (hstart : start ≤ src) :
    (∀ r ∈ readStringRequests w readv pageSize m src maxSize, r.Within start len) ↔
      src + readStringSpan w readv pageSize m src maxSize ≤ start + len := by
  rw [readStringRequests, readStringSpan, List.forall_mem_append, chunkRequests_within hstart,
    ← Nat.div_eq_sub_mod_div]
  cases (stringChunks readv pageSize src maxSize [] 0).2 with
  | some _ => simp
  | none =>
      by_cases hfirst : src ≤ start + len
      · simp only [stringWordRequests_within _ hstart hfirst]
        omega
      · exact iff_of_false (by omega) (by omega)

end Improot.Tracee
