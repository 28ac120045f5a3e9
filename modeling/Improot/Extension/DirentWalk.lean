import Improot.Extension.HiddenFiles
import Improot.Lib.Loop
import Improot.Tracee.Requests

/-!
# Walks over directory records

The loops of `hidden_files` and of `care` over what getdents(2) has put into a buffer.  Both go on by
the length that a record tells, and the records are what is found in the buffer by then: another
thread of the guest may have written to it.
-/

namespace Improot.Extension

open Improot.Lib Improot.Path Improot.Tracee

/-! ## hidden_files -/

/-- What the loop of `hidden_files` works on: the bytes of PRoot's memory from `orig` on, of which the
first `res` are the result, and the layout of the records. -/
structure HiddenWalk where
  layout : DirentLayout
  orig : Nat → UInt8
  res : Nat

/-- Where the loop is in `orig`, and how much it has copied. -/
structure HiddenState where
  ptr : Nat
  pos : Nat
  deriving DecidableEq, Repr

/-- `hasprefix`, of a string that may be longer than the result. -/
def prefixed : Bytes → (Nat → UInt8) → Bool
  | [], _ => true
  | p :: pre, str => if str 0 ≠ 0 ∧ p = str 0 then prefixed pre fun i => str (i + 1) else false

/-- How many bytes of the string `hasprefix` looks at. -/
def compared : Bytes → (Nat → UInt8) → Nat
  | [], _ => 0
  | p :: pre, str => 1 + if str 0 ≠ 0 ∧ p = str 0 then compared pre fun i => str (i + 1) else 0

namespace HiddenWalk

variable (h : HiddenWalk)

/-- `d_reclen`, an `unsigned short`. -/
def reclen (ptr : Nat) : Nat :=
  (h.orig (ptr + h.layout.reclen)).toNat + 256 * (h.orig (ptr + h.layout.reclen + 1)).toNat

def name (ptr : Nat) : Nat → UInt8 := fun i => h.orig (ptr + h.layout.name + i)

def hidden (ptr : Nat) : Bool := prefixed hiddenPrefix (h.name ptr)

def loop : Loop HiddenState Unit where
  enters s := s.ptr < h.res
  body s :=
    let reclen := h.reclen s.ptr
    if h.hidden s.ptr then .inl ⟨s.ptr + reclen, s.pos⟩
    else .inl ⟨s.ptr + reclen, s.pos + reclen⟩

/-- The bytes of `orig` that a turn reads: of the name, of the length, and those that it copies. -/
def reads (s : HiddenState) : List Request :=
  ⟨s.ptr + h.layout.name, compared hiddenPrefix (h.name s.ptr)⟩ :: ⟨s.ptr + h.layout.reclen, 2⟩ ::
    if h.hidden s.ptr then [] else [⟨s.ptr, h.reclen s.ptr⟩]

/-- The bytes of `copy` that a turn writes. -/
def writes (s : HiddenState) : List Request :=
  if h.hidden s.ptr then [] else [⟨s.pos, h.reclen s.ptr⟩]

def Inside (s : HiddenState) : Prop :=
  (∀ r ∈ h.reads s, r.Within 0 h.res) ∧ ∀ r ∈ h.writes s, r.Within 0 h.res

/-- **The walk of `hidden_files` is safe**: it ends within as many turns as the result has bytes, goes
up, and stays inside. -/
def Safe : Prop := h.loop.Bounded HiddenState.ptr h.res h.Inside ⟨0, 0⟩

inductive RecordAt : Nat → Prop
  | first : 0 < h.res → RecordAt 0
  | next {off : Nat} : RecordAt off → off + h.reclen off < h.res → RecordAt (off + h.reclen off)

/-- **A sound record**: it has a length, what is compared of its name lies in the result, and so does
the whole record unless it is hidden. -/
structure Sound (off : Nat) : Prop where
  pos : 0 < h.reclen off
  named : off + h.layout.name + compared hiddenPrefix (h.name off) ≤ h.res
  whole : h.hidden off = false → off + h.reclen off ≤ h.res

theorem compared_pos (str : Nat → UInt8) : 0 < compared hiddenPrefix str := by
  unfold hiddenPrefix compared
  omega

variable {h}

theorem recordAt_of_reaches {s : HiddenState} (hreach : Loop.Reaches h.loop ⟨0, 0⟩ s) :
    s.pos ≤ s.ptr ∧ (s.ptr < h.res → h.RecordAt s.ptr) := by
  induction hreach with
  | start => exact ⟨Nat.le_refl _, .first⟩
  | @next a b _ henters hbody ih =>
      have ha : a.ptr < h.res := of_decide_eq_true henters
      have hb : b.ptr = a.ptr + h.reclen a.ptr ∧ b.pos ≤ a.pos + h.reclen a.ptr := by
        simp only [loop] at hbody
        split at hbody
        · obtain rfl := Sum.inl.inj hbody
          exact ⟨rfl, Nat.le_add_right _ _⟩
        · obtain rfl := Sum.inl.inj hbody
          exact ⟨rfl, Nat.le_refl _⟩
      obtain ⟨hle, hrecord⟩ := ih
      rw [hb.1]
      exact ⟨by omega, fun hlt => .next (hrecord ha) hlt⟩

theorem reaches_of_recordAt {off : Nat} (hrecord : h.RecordAt off) :
    off < h.res ∧ ∃ pos, Loop.Reaches h.loop ⟨0, 0⟩ ⟨off, pos⟩ := by
  induction hrecord with
  | first hlt => exact ⟨hlt, 0, .start⟩
  | @next off _ hlt ih =>
      obtain ⟨henters, pos, hreach⟩ := ih
      refine ⟨hlt, ?_⟩
      cases hhidden : h.hidden off with
      | true => exact ⟨pos, .next hreach (decide_eq_true henters) (by simp [loop, hhidden])⟩
      | false =>
          exact ⟨pos + h.reclen off, .next hreach (decide_eq_true henters) (by simp [loop, hhidden])⟩

theorem sound_iff {s : HiddenState} (hpos : s.pos ≤ s.ptr) :
    (h.Inside s ∧ ∀ b, h.loop.body s = .inl b → s.ptr < b.ptr) ↔ h.Sound s.ptr := by
  have hup : (∀ b, h.loop.body s = .inl b → s.ptr < b.ptr) ↔ 0 < h.reclen s.ptr := by
    cases hhidden : h.hidden s.ptr <;> simp [loop, hhidden]
  have hlayout := h.layout.reclen_le
  have hcompared := compared_pos (h.name s.ptr)
  rw [hup]
  constructor
  · intro ⟨⟨hreads, _⟩, hreclen⟩
    refine ⟨hreclen, ?_, fun hhidden => ?_⟩
    · have := (hreads _ List.mem_cons_self).2
      simpa using this
    · have := (hreads ⟨s.ptr, h.reclen s.ptr⟩ (by simp [reads, hhidden])).2
      simpa using this
  · intro hsound
    have hnamed := hsound.named
    refine ⟨⟨?_, ?_⟩, hsound.pos⟩
    · cases hhidden : h.hidden s.ptr with
      | true =>
          simp [reads, hhidden, Request.Within]
          omega
      | false =>
          have hwhole := hsound.whole hhidden
          simp [reads, hhidden, Request.Within]
          omega
    · cases hhidden : h.hidden s.ptr with
      | true => simp [writes, hhidden]
      | false =>
          have hwhole := hsound.whole hhidden
          simp [writes, hhidden, Request.Within]
          omega

theorem safe_iff (h : HiddenWalk) : h.Safe ↔ ∀ off, h.RecordAt off → h.Sound off := by
  have henters : ∀ s, h.loop.enters s ↔ s.ptr < h.res := fun s => decide_eq_true_iff
  unfold Safe
  rw [Loop.bounded_iff henters]
  constructor
  · intro hall off hrecord
    obtain ⟨hlt, pos, hreach⟩ := reaches_of_recordAt hrecord
    exact (sound_iff (recordAt_of_reaches hreach).1).mp (hall _ hreach ((henters _).mpr hlt))
  · intro hall s hreach hs
    obtain ⟨hpos, hrecord⟩ := recordAt_of_reaches hreach
    exact (sound_iff hpos).mpr (hall _ (hrecord ((henters s).mp hs)))

end HiddenWalk

/-! ## care -/

/-- A structure of `care` for the head of a record: its size, and where the length and the name are.
-/
structure CareDirent where
  sizeof : Nat
  size : Nat
  name : Nat
  deriving DecidableEq, Repr

def dirent32 : CareDirent := ⟨12, 8, 10⟩

def dirent64 : CareDirent := ⟨24, 16, 18⟩

/-- `NewDirent`, in a PRoot with words of `w` bytes: 64-bit numbers are aligned to words. -/
def newDirent (w : Nat) : CareDirent := ⟨if w = 8 then 24 else 20, 16, 19⟩

/-- The structure that `handle_getdents` reads. -/
def careDirent (w : Nat) (isNewGetdents is32bit : Bool) : CareDirent :=
  if isNewGetdents then newDirent w else if is32bit then dirent32 else dirent64

/-- What the loop of `care` works on.  The memory may change from one transfer to the next: turn `n`
reads the head of a record from `memory (2 * n)`, and its name from `memory (2 * n + 1)`. -/
structure CareWalk where
  word : Nat
  pageSize : Nat
  dirent : CareDirent
  memory : Nat → Memory
  readv : Nat → ProcessVmReadv
  buffer : Nat
  /-- The register of the result.  A value that is no negative `int` leaves room for the offset, an
  `uint64_t`, to pass it. -/
  result : Nat

structure CareState where
  offset : Nat
  turn : Nat
  deriving DecidableEq, Repr

namespace CareWalk

variable (c : CareWalk)

/-- The length in the head of a record; none when "can't read dentry". -/
def size? (s : CareState) : Option Nat :=
  match readData c.word (c.readv (2 * s.turn)) (c.memory (2 * s.turn))
      (List.replicate c.dirent.sizeof 0) (c.buffer + s.offset) c.dirent.sizeof with
  | (_, .error _) => none
  | (dirent, .ok ()) => some (readLe 2 c.dirent.size dirent)

def loop : Loop CareState Unit where
  enters s := s.offset < c.result
  body s :=
    match c.size? s with
    | none => .inr ()
    | some size => .inl ⟨s.offset + size, s.turn + 1⟩

def requests (s : CareState) : List Request :=
  readDataRequests c.word (c.readv (2 * s.turn)) (c.memory (2 * s.turn)) (c.buffer + s.offset)
      c.dirent.sizeof ++
    if (c.size? s).isSome then
      readStringRequests c.word (c.readv (2 * s.turn + 1)) c.pageSize (c.memory (2 * s.turn + 1))
        (c.buffer + s.offset + c.dirent.name) pathMax
    else []

def Inside (s : CareState) : Prop := ∀ r ∈ c.requests s, r.Within c.buffer c.result

/-- **The walk of `care` is safe**: unless the result is an error, it ends within as many turns as the
result has bytes, goes up, and stays inside. -/
def Safe : Prop :=
  c.result % 2 ^ 32 < 2 ^ 31 → c.loop.Bounded CareState.offset c.result c.Inside ⟨0, 0⟩

inductive RecordAt : CareState → Prop
  | first : 0 < c.result → RecordAt ⟨0, 0⟩
  | next {s : CareState} {size : Nat} : RecordAt s → c.size? s = some size →
      s.offset + size < c.result → RecordAt ⟨s.offset + size, s.turn + 1⟩

def headSpan (s : CareState) : Nat :=
  readDataSpan c.word (c.readv (2 * s.turn)) (c.memory (2 * s.turn)) (c.buffer + s.offset)
    c.dirent.sizeof

def nameSpan (s : CareState) : Nat :=
  readStringSpan c.word (c.readv (2 * s.turn + 1)) c.pageSize (c.memory (2 * s.turn + 1))
    (c.buffer + s.offset + c.dirent.name) pathMax

/-- **A sound record**: its length isn't zero, and what is fetched for its head, and for its name if
the head could be read, ends within the result. -/
structure Sound (s : CareState) : Prop where
  pos : c.size? s ≠ some 0
  head : s.offset + c.headSpan s ≤ c.result
  named : (c.size? s).isSome → s.offset + c.dirent.name + c.nameSpan s ≤ c.result

variable {c}

theorem recordAt_iff {s : CareState} :
    c.RecordAt s ↔ Loop.Reaches c.loop ⟨0, 0⟩ s ∧ s.offset < c.result := by
  constructor
  · intro hrecord
    induction hrecord with
    | first hlt => exact ⟨.start, hlt⟩
    | @next s size _ hsize hlt ih =>
        exact ⟨.next ih.1 (decide_eq_true ih.2) (by simp [loop, hsize]), hlt⟩
  · intro ⟨hreach, hlt⟩
    induction hreach with
    | start => exact .first hlt
    | @next a b _ henters hbody ih =>
        have ha : a.offset < c.result := of_decide_eq_true henters
        cases hsize : c.size? a with
        | none => simp [loop, hsize] at hbody
        | some size =>
            simp only [loop, hsize] at hbody
            obtain rfl := Sum.inl.inj hbody
            exact .next (ih ha) hsize hlt

theorem inside_iff {s : CareState} :
    c.Inside s ↔ s.offset + c.headSpan s ≤ c.result ∧
      ((c.size? s).isSome → s.offset + c.dirent.name + c.nameSpan s ≤ c.result) := by
  have hhead : c.buffer + s.offset + c.headSpan s ≤ c.buffer + c.result ↔
      s.offset + c.headSpan s ≤ c.result := by omega
  have hname : c.buffer + s.offset + c.dirent.name + c.nameSpan s ≤ c.buffer + c.result ↔
      s.offset + c.dirent.name + c.nameSpan s ≤ c.result := by omega
  rw [Inside, requests, List.forall_mem_append, readDataRequests_within (Nat.le_add_right _ _),
    ← hhead, ← hname]
  refine and_congr_right fun _ => ?_
  by_cases hsize : (c.size? s).isSome = true
  · rw [if_pos hsize, readStringRequests_within (by omega)]
    exact ⟨fun h _ => h, fun h => h hsize⟩
  · rw [if_neg hsize]
    exact iff_of_true (List.forall_mem_nil _) fun h => absurd h hsize

theorem safe_iff (c : CareWalk) :
    c.Safe ↔ (c.result % 2 ^ 32 < 2 ^ 31 → ∀ s, c.RecordAt s → c.Sound s) := by
  have henters : ∀ s, c.loop.enters s ↔ s.offset < c.result := fun s => decide_eq_true_iff
  have hup : ∀ s, (∀ b, c.loop.body s = .inl b → s.offset < b.offset) ↔ c.size? s ≠ some 0 := by
    intro s
    cases hsize : c.size? s with
    | none => simp [loop, hsize]
    | some size => simp [loop, hsize, Nat.pos_iff_ne_zero]
  unfold Safe
  refine imp_congr_right fun _ => ?_
  rw [Loop.bounded_iff henters]
  constructor
  · intro hall s hrecord
    obtain ⟨hreach, hlt⟩ := recordAt_iff.mp hrecord
    obtain ⟨hinside, hgoes⟩ := hall s hreach ((henters s).mpr hlt)
    obtain ⟨hhead, hnamed⟩ := inside_iff.mp hinside
    exact ⟨(hup s).mp hgoes, hhead, hnamed⟩
  · intro hall s hreach hs
    have hsound := hall s (recordAt_iff.mpr ⟨hreach, (henters s).mp hs⟩)
    exact ⟨inside_iff.mpr ⟨hsound.head, hsound.named⟩, (hup s).mpr hsound.pos⟩

end CareWalk

/-! ## Both walks -/

/-- **The walks end and stay inside if and only if** each record that they arrive at is sound. -/
theorem direntWalks_safe_iff (h : HiddenWalk) (c : CareWalk) :
    (h.Safe ∧ c.Safe) ↔
      (∀ off, h.RecordAt off → h.Sound off) ∧
        (c.result % 2 ^ 32 < 2 ^ 31 → ∀ s, c.RecordAt s → c.Sound s) :=
  and_congr h.safe_iff c.safe_iff

def zeroWalk : HiddenWalk := ⟨linuxDirent64, fun _ => 0, 24⟩

def zeroCareWalk : CareWalk where
  word := 8
  pageSize := 4096
  dirent := newDirent 8
  memory _ := ⟨fun _ => some 0, fun _ => true, fun _ _ => rfl⟩
  readv _ _ size := List.replicate size 0
  buffer := 4096
  result := 24

/-- The walks go round at a record without a length for ever. -/
theorem direntWalks_unsafe :
    (∀ fuel, zeroWalk.loop.run fuel ⟨0, 0⟩ = none) ∧
      (∀ fuel turn, zeroCareWalk.loop.run fuel ⟨0, turn⟩ = none) ∧ ¬ zeroWalk.Safe ∧
        ¬ zeroCareWalk.Safe := by
  have hhidden : ∀ fuel, zeroWalk.loop.run fuel ⟨0, 0⟩ = none := by
    intro fuel
    induction fuel with
    | zero => rfl
    | succ fuel ih =>
        have hbody : zeroWalk.loop.body ⟨0, 0⟩ = .inl ⟨0, 0⟩ := by decide
        rw [Loop.run_goes rfl hbody, ih]
        rfl
  have hcare : ∀ fuel turn, zeroCareWalk.loop.run fuel ⟨0, turn⟩ = none := by
    intro fuel
    induction fuel with
    | zero => exact fun _ => rfl
    | succ fuel ih =>
        intro turn
        have hbody : zeroCareWalk.loop.body ⟨0, turn⟩ = .inl ⟨0, turn + 1⟩ := rfl
        rw [Loop.run_goes rfl hbody, ih]
        rfl
  refine ⟨hhidden, hcare, fun h => ?_, fun h => ?_⟩
  · obtain ⟨fuel, visited, r, hrun, -⟩ := h
    rw [hhidden] at hrun
    cases hrun
  · obtain ⟨fuel, visited, r, hrun, -⟩ := h (by decide)
    rw [hcare] at hrun
    cases hrun

end Improot.Extension
