import Improot.Lib.Transition
import Improot.Syscall.Sysnum
import Mathlib.Data.BitVec

/-!
# Heap emulation

`syscall/heap.c`: a brk(2) of the guest becomes an mmap(2) the first time and an mremap(2) after
that, and the result of that call is read back as the result of a brk(2).  The heap belongs to an
address space; the tracees that share one may have a call in flight each.
-/

namespace Improot.Syscall

variable {w : Nat}

structure Heap (w : Nat) where
  base : BitVec w
  size : BitVec w
  disabled : Bool

structure BrkRegs (w : Nat) where
  sysnum : Sysnum
  sysarg1 : BitVec w
  sysarg2 : BitVec w
  sysarg3 : BitVec w
  sysarg4 : BitVec w
  sysarg5 : BitVec w
  sysarg6 : BitVec w

/-- `(int) word`. -/
def toCInt (word : BitVec w) : Int := (word.setWidth 32).toInt

/-- `PROT_READ | PROT_WRITE`. -/
def protReadWrite : BitVec w := 1#w ||| 2#w

/-- `MAP_PRIVATE | MAP_ANONYMOUS`. -/
def mapPrivateAnonymous : BitVec w := 2#w ||| 32#w

/-- What the tracer learns from its host: `sysconf(_SC_PAGE_SIZE)`, and whether the ABI of the
tracee has mmap2(2). -/
structure Host (w : Nat) where
  pageSize : BitVec w
  mmap2 : Bool

/-- The value `heap_offset` has after its initialization. -/
def Host.heapOffset (host : Host w) : BitVec w :=
  if toCInt host.pageSize ≤ 0 then 0x1000#w else host.pageSize

/-! ## The two handlers -/

/-- `translate_brk_enter`: the new value of `heap_offset`, and the modified registers.  `bss` is
where the last mapping of `load_info` ends. -/
def translateBrkEnter (host : Host w) (bss heapOffset : BitVec w) (heap : Heap w)
    (regs : BrkRegs w) : BitVec w × BrkRegs w :=
  if heap.disabled then (heapOffset, regs)
  else
    let heapOffset := if heapOffset = 0 then host.heapOffset else heapOffset
    let newBrkAddress := regs.sysarg1
    if heap.base = 0 then
      -- "is doing suspicious brk()": left to the kernel
      if newBrkAddress ≠ 0 then (heapOffset, regs)
      else
        (heapOffset, { sysnum := if host.mmap2 then .PR_mmap2 else .PR_mmap,
                       sysarg1 := bss, sysarg2 := heapOffset, sysarg3 := protReadWrite,
                       sysarg4 := mapPrivateAnonymous, sysarg5 := -1, sysarg6 := 0 })
    else if newBrkAddress < heap.base then (heapOffset, { regs with sysnum := .PR_void })
    else
      let newHeapSize := newBrkAddress - heap.base
      (heapOffset, { regs with sysnum := .PR_mremap, sysarg1 := heap.base - heapOffset,
                               sysarg2 := heap.size + heapOffset,
                               sysarg3 := newHeapSize + heapOffset, sysarg4 := 0, sysarg5 := 0 })

/-- `tracee_errno < 0 && tracee_errno > -4096`. -/
def isErrno (result : BitVec w) : Bool := toCInt result < 0 && toCInt result > -4096

/-- `translate_brk_exit`: the heap and `SYSARG_RESULT` afterwards; `none` is a failed assertion. -/
def translateBrkExit (heapOffset : BitVec w) (heap : Heap w) (original modified : BrkRegs w)
    (result : BitVec w) : Option (Heap w × BitVec w) :=
  if heap.disabled then some (heap, result)
  else if ¬ 0 < heapOffset then none
  else
    match modified.sysnum with
    | .PR_void => some (heap, heap.base + heap.size)
    | .PR_mmap | .PR_mmap2 =>
      if isErrno result then some (heap, 0)
      else
        let heap := { heap with base := result + heapOffset, size := 0 }
        some (heap, heap.base + heap.size)
    | .PR_mremap =>
      if isErrno result ∨ heap.base ≠ result + heapOffset then some (heap, heap.base + heap.size)
      else
        let heap := { heap with size := modified.sysarg3 - heapOffset }
        some (heap, heap.base + heap.size)
    | .PR_brk =>
      if result = original.sysarg1 then some ({ heap with disabled := true }, result)
      else some (heap, result)
    | _ => none

/-! ## Address spaces -/

/-- What the kernel does with a system call that maps memory. -/
inductive Outcome (w : Nat) where
  | refused (errno : Nat)
  | granted (address : BitVec w)

/-- The results that stand for an outcome: an errno is read from the low 32 bits, since a tracee
in 32-bit mode has no others; an address is the first of a page that does not end the address
space. -/
def Outcome.Answer (heapOffset : BitVec w) (result : BitVec w) : Outcome w → Prop
  | refused errno => 0 < errno ∧ errno < 4096 ∧ result.setWidth 32 = -BitVec.ofNat 32 errno
  | granted address =>
      result = address ∧ 4096 ∣ address.toNat ∧ address.toNat + heapOffset.toNat < 2 ^ w

/-- A heap, the tracees that have a brk(2) in flight on it with their ORIGINAL and MODIFIED
registers, and `heap_offset`. -/
structure Space (w : Nat) where
  heapOffset : BitVec w
  heap : Heap w
  inFlight : Nat → Option (BrkRegs w × BrkRegs w)

inductive SpaceMove (w : Nat) where
  | enter (tracee : Nat) (bss : BitVec w) (regs : BrkRegs w)
  /-- the call the brk(2) was turned into is over -/
  | exit (tracee : Nat) (outcome : Outcome w) (result : BitVec w)
  | fork
  | disable

def Space.step (host : Host w) (s : Space w) : SpaceMove w → Option (Space w)
  | .enter tracee bss regs =>
    if s.inFlight tracee = none ∧ regs.sysnum = .PR_brk then
      let entered := translateBrkEnter host bss s.heapOffset s.heap regs
      some { s with heapOffset := entered.1,
                    inFlight := Function.update s.inFlight tracee (some (regs, entered.2)) }
    else none
  | .exit tracee _ result =>
    (s.inFlight tracee).bind fun call =>
      (translateBrkExit s.heapOffset s.heap call.1 call.2 result).map fun out =>
        { s with heap := out.1, inFlight := Function.update s.inFlight tracee none }
  | .fork => some { s with inFlight := fun _ => none }
  | .disable => some { s with heap := { s.heap with disabled := true } }

/-- The address spaces after an execve(2): `bzero` of the heap, nothing in flight. -/
def spaces (host : Host w) : Lib.System (Space w) (SpaceMove w) where
  init s := s.heap = ⟨0, 0, false⟩ ∧ (∀ tracee, s.inFlight tracee = none) ∧
    (s.heapOffset = 0 ∨ s.heapOffset = host.heapOffset)
  step s e := s.step host e

/-! ## The results of the kernel -/

theorem isErrno_of_refused {result : BitVec w} {errno : Nat} (hpos : 0 < errno)
    (hlt : errno < 4096) (h : result.setWidth 32 = -BitVec.ofNat 32 errno) :
    isErrno result = true := by
  have herrno : toCInt result = -(errno : Int) := by
    unfold toCInt
    rw [h, BitVec.toInt_eq_toNat_cond, BitVec.toNat_neg, BitVec.toNat_ofNat]
    split <;> omega
  simp [isErrno, herrno]
  omega

theorem isErrno_of_page {result : BitVec w} (h : 4096 ∣ result.toNat) : isErrno result = false := by
  have hlow : 4096 ∣ (result.setWidth 32).toNat := by
    rw [BitVec.toNat_setWidth]
    omega
  have hint : toCInt result = (result.setWidth 32).toNat ∨
      toCInt result = (result.setWidth 32).toNat - 2 ^ 32 := by
    unfold toCInt
    rw [BitVec.toInt_eq_toNat_cond]
    split <;> simp
  have hlt := (result.setWidth 32).isLt
  simp only [isErrno, Bool.and_eq_false_iff, decide_eq_false_iff_not]
  omega

theorem Host.heapOffset_pos (host : Host w) (hw : 32 ≤ w) : 0 < host.heapOffset.toNat := by
  unfold Host.heapOffset
  split
  · rename_i h
    have : 2 ^ 32 ≤ 2 ^ w := Nat.pow_le_pow_right (by decide) hw
    rw [BitVec.toNat_ofNat, Nat.mod_eq_of_lt (by omega)]
    omega
  · rename_i h
    by_contra hzero
    apply h
    have : host.pageSize = 0 := by
      apply BitVec.eq_of_toNat_eq
      simp only [BitVec.ofNat_eq_ofNat, BitVec.toNat_ofNat, Nat.zero_mod]
      omega
    simp [toCInt, this]

/-! ## What a request becomes -/

inductive Entered (heapOffset : BitVec w) (heap : Heap w) (original modified : BrkRegs w) : Prop
  | suspicious : heap.base = 0 → original.sysarg1 ≠ 0 → modified = original →
      Entered heapOffset heap original modified
  | first : (modified.sysnum = .PR_mmap ∨ modified.sysnum = .PR_mmap2) →
      heap.base = 0 → original.sysarg1 = 0 → modified.sysarg2 = heapOffset →
      Entered heapOffset heap original modified
  | below : modified.sysnum = .PR_void → heap.base ≠ 0 → original.sysarg1 < heap.base →
      Entered heapOffset heap original modified
  | resize : modified.sysnum = .PR_mremap → heap.base ≠ 0 → heap.base ≤ original.sysarg1 →
      modified.sysarg1 = heap.base - heapOffset → modified.sysarg2 = heap.size + heapOffset →
      modified.sysarg3 = original.sysarg1 - heap.base + heapOffset →
      Entered heapOffset heap original modified

variable {host : Host w} {s : Space w}

theorem translateBrkEnter_entered {heapOffset : BitVec w} {heap : Heap w}
    (bss : BitVec w) (regs : BrkRegs w) (hzero : heapOffset = 0 ∨ heapOffset = host.heapOffset)
    (henabled : heap.disabled = false) :
    (translateBrkEnter host bss heapOffset heap regs).1 = host.heapOffset ∧
      Entered host.heapOffset heap regs
        (translateBrkEnter host bss heapOffset heap regs).2 := by
  have hoffset : (if heapOffset = 0 then host.heapOffset else heapOffset) = host.heapOffset := by
    grind
  unfold translateBrkEnter
  simp only [henabled, Bool.false_eq_true, if_false, hoffset]
  by_cases hbase : heap.base = 0
  · rw [if_pos hbase]
    by_cases hreq : regs.sysarg1 = 0
    · rw [if_neg (not_not_intro hreq)]
      refine ⟨rfl, .first ?_ hbase hreq rfl⟩
      cases host.mmap2 <;> simp
    · rw [if_pos hreq]
      exact ⟨rfl, .suspicious hbase hreq rfl⟩
  · rw [if_neg hbase]
    by_cases hlt : regs.sysarg1 < heap.base
    · rw [if_pos hlt]
      exact ⟨rfl, .below rfl hbase hlt⟩
    · rw [if_neg hlt]
      exact ⟨rfl, .resize rfl hbase (BitVec.not_lt.mp hlt) rfl rfl rfl⟩

/-! ## What brk(2) promises -/

/-- The kernel granted a resize: it resized the mapping where it is. -/
def Granted (heapOffset : BitVec w) (heap : Heap w) (request : BitVec w) (outcome : Outcome w) :
    Prop :=
  heap.base ≤ request ∧ outcome = .granted (heap.base - heapOffset)

/-- The behaviour of brk(2): what the heap is afterwards and what the guest is told. -/
structure Emulation (heapOffset : BitVec w) (heap : Heap w) (request : BitVec w)
    (outcome : Outcome w) (heap' : Heap w) (reported : BitVec w) : Prop where
  reported_break : reported = heap'.base + heap'.size
  no_wrap : heap'.base.toNat + heap'.size.toNat < 2 ^ w
  base_kept : heap.base ≠ 0 → heap'.base = heap.base
  first_refused : heap.base = 0 → ∀ errno, outcome = .refused errno → heap' = heap ∧ reported = 0
  first_granted : heap.base = 0 → ∀ address, outcome = .granted address →
    heap'.base = address + heapOffset ∧ heap'.size = 0
  granted : heap.base ≠ 0 → Granted heapOffset heap request outcome → reported = request
  refused : heap.base ≠ 0 → ¬ Granted heapOffset heap request outcome →
    heap' = heap ∧ reported = heap.base + heap.size

/-- A call in flight, as far as it bears on the heap at its exit. -/
inductive Pending (heapOffset : BitVec w) (heap : Heap w) (original modified : BrkRegs w) : Prop
  | suspicious : original.sysarg1 ≠ 0 → modified.sysnum = .PR_brk →
      Pending heapOffset heap original modified
  | first : (modified.sysnum = .PR_mmap ∨ modified.sysnum = .PR_mmap2) → original.sysarg1 = 0 →
      Pending heapOffset heap original modified
  | below : modified.sysnum = .PR_void → heap.base ≠ 0 → original.sysarg1 < heap.base →
      Pending heapOffset heap original modified
  | resize : modified.sysnum = .PR_mremap → heap.base ≠ 0 → heap.base ≤ original.sysarg1 →
      modified.sysarg3 = original.sysarg1 - heap.base + heapOffset →
      Pending heapOffset heap original modified

theorem Entered.pending {heapOffset : BitVec w} {heap : Heap w} {original modified : BrkRegs w}
    (h : Entered heapOffset heap original modified) (hbrk : original.sysnum = .PR_brk) :
    Pending heapOffset heap original modified := by
  cases h with
  | suspicious _ hreq hsame => exact .suspicious hreq (by rw [hsame, hbrk])
  | first hnum _ hreq _ => exact .first hnum hreq
  | below hnum hbase hlt => exact .below hnum hbase hlt
  | resize hnum hbase hle _ _ hsize => exact .resize hnum hbase hle hsize

theorem Pending.mono {heapOffset : BitVec w} {heap heap' : Heap w} {original modified : BrkRegs w}
    (h : Pending heapOffset heap original modified)
    (hbase : heap.base ≠ 0 → heap'.base = heap.base) :
    Pending heapOffset heap' original modified := by
  cases h with
  | suspicious hreq hnum => exact .suspicious hreq hnum
  | first hnum hreq => exact .first hnum hreq
  | below hnum hne hlt => exact .below hnum (hbase hne ▸ hne) (hbase hne ▸ hlt)
  | resize hnum hne hle hsize =>
      have hsame := hbase hne
      exact .resize hnum (hsame ▸ hne) (hsame ▸ hle) (by rw [hsame, hsize])

structure Heap.Sound (heap : Heap w) (heapOffset : BitVec w) : Prop where
  unset : heap.base = 0 → heap.size = 0
  room : heap.base ≠ 0 → heapOffset.toNat ≤ heap.base.toNat
  no_wrap : heap.base.toNat + heap.size.toNat < 2 ^ w

/-- First requests do not overlap: a tracee whose mapping becomes the heap found none set
meanwhile by a tracee it shares the heap with. -/
def FirstAlone (heap : Heap w) (modified : BrkRegs w) : Prop :=
  modified.sysnum = .PR_mmap ∨ modified.sysnum = .PR_mmap2 → heap.base = 0

section Exit

variable {heapOffset result : BitVec w} {heap : Heap w} {original modified : BrkRegs w}
  {outcome : Outcome w}

theorem granted_iff {request : BitVec w} (hans : outcome.Answer heapOffset result)
    (hle : heap.base ≤ request) :
    Granted heapOffset heap request outcome ↔
      ¬ (isErrno result = true ∨ heap.base ≠ result + heapOffset) := by
  cases outcome with
  | refused errno =>
      obtain ⟨hpos, hlt, hres⟩ := hans
      simp [Granted, isErrno_of_refused hpos hlt hres]
  | granted address =>
      obtain ⟨rfl, hpage, -⟩ := hans
      simp only [Granted, hle, true_and, Outcome.granted.injEq, isErrno_of_page hpage,
        Bool.false_eq_true, false_or, ne_eq, not_not]
      constructor
      · intro h
        rw [h, BitVec.sub_add_cancel]
      · intro h
        rw [h, BitVec.add_sub_cancel]

theorem translateBrkExit_first (hpos : 0 < heapOffset) (henabled : heap.disabled = false)
    (hnum : modified.sysnum = .PR_mmap ∨ modified.sysnum = .PR_mmap2) :
    translateBrkExit heapOffset heap original modified result =
      if isErrno result then some (heap, 0)
      else some ({ heap with base := result + heapOffset, size := 0 }, result + heapOffset + 0) := by
  unfold translateBrkExit
  simp only [henabled, Bool.false_eq_true, if_false, hpos, not_true_eq_false]
  rcases hnum with hnum | hnum <;> rw [hnum]

theorem translateBrkExit_resize (hpos : 0 < heapOffset) (henabled : heap.disabled = false)
    (hnum : modified.sysnum = .PR_mremap) :
    translateBrkExit heapOffset heap original modified result =
      if isErrno result = true ∨ heap.base ≠ result + heapOffset then
        some (heap, heap.base + heap.size)
      else some ({ heap with size := modified.sysarg3 - heapOffset },
        heap.base + (modified.sysarg3 - heapOffset)) := by
  unfold translateBrkExit
  simp only [henabled, Bool.false_eq_true, if_false, hpos, not_true_eq_false, hnum]

theorem first_emulates (hoffset : 0 < heapOffset.toNat) (hsound : heap.Sound heapOffset)
    (henabled : heap.disabled = false) (hans : outcome.Answer heapOffset result)
    (hbase : heap.base = 0) (hnum : modified.sysnum = .PR_mmap ∨ modified.sysnum = .PR_mmap2) :
    ∃ heap' reported,
      translateBrkExit heapOffset heap original modified result = some (heap', reported) ∧
      heap'.disabled = false ∧ heap'.Sound heapOffset ∧
      Emulation heapOffset heap original.sysarg1 outcome heap' reported := by
  rw [translateBrkExit_first (by simpa [BitVec.lt_def] using hoffset) henabled hnum]
  cases outcome with
  | refused errno =>
      obtain ⟨hpos, hlt, hres⟩ := hans
      rw [if_pos (isErrno_of_refused hpos hlt hres)]
      refine ⟨_, _, rfl, henabled, hsound, ?_, hsound.no_wrap, fun _ => rfl,
        fun _ _ _ => ⟨rfl, rfl⟩, ?_, fun h => absurd hbase h, fun h => absurd hbase h⟩
      · simp [hbase, hsound.unset hbase]
      · intro _ address hsome
        exact nomatch hsome
  | granted address =>
      obtain ⟨rfl, hpage, hroom⟩ := hans
      rw [if_neg (by simp [isErrno_of_page hpage])]
      have hsum : (result + heapOffset).toNat = result.toNat + heapOffset.toNat := by
        rw [BitVec.toNat_add, Nat.mod_eq_of_lt hroom]
      refine ⟨_, _, rfl, henabled, ⟨fun _ => rfl, ?_, ?_⟩, rfl, ?_, fun h => absurd hbase h, ?_, ?_,
        fun h => absurd hbase h, fun h => absurd hbase h⟩
      · intro _
        show heapOffset.toNat ≤ (result + heapOffset).toNat
        omega
      · show (result + heapOffset).toNat + (0#w).toNat < 2 ^ w
        simpa [hsum] using hroom
      · show (result + heapOffset).toNat + (0#w).toNat < 2 ^ w
        simpa [hsum] using hroom
      · intro _ errno hsome
        exact nomatch hsome
      · intro _ a hsome
        cases hsome
        exact ⟨rfl, rfl⟩

theorem resize_emulates (hoffset : 0 < heapOffset.toNat) (hsound : heap.Sound heapOffset)
    (henabled : heap.disabled = false) (hans : outcome.Answer heapOffset result)
    (hbase : heap.base ≠ 0) (hnum : modified.sysnum = .PR_mremap)
    (hle : heap.base ≤ original.sysarg1)
    (hsize : modified.sysarg3 = original.sysarg1 - heap.base + heapOffset) :
    ∃ heap' reported,
      translateBrkExit heapOffset heap original modified result = some (heap', reported) ∧
      heap'.disabled = false ∧ heap'.Sound heapOffset ∧
      Emulation heapOffset heap original.sysarg1 outcome heap' reported := by
  rw [translateBrkExit_resize (by simpa [BitVec.lt_def] using hoffset) henabled hnum]
  by_cases hgranted : Granted heapOffset heap original.sysarg1 outcome
  · rw [if_neg ((granted_iff hans hle).mp hgranted)]
    have hnew : modified.sysarg3 - heapOffset = original.sysarg1 - heap.base := by
      rw [hsize, BitVec.add_sub_cancel]
    have hreq : heap.base + (original.sysarg1 - heap.base) = original.sysarg1 := by
      rw [BitVec.add_comm, BitVec.sub_add_cancel]
    have hnowrap : heap.base.toNat + (original.sysarg1 - heap.base).toNat < 2 ^ w := by
      have hlt := original.sysarg1.isLt
      rw [BitVec.toNat_sub_of_le hle]
      rw [BitVec.le_def] at hle
      omega
    rw [hnew]
    refine ⟨_, _, rfl, henabled, ⟨fun h => absurd h hbase, hsound.room, hnowrap⟩, rfl, hnowrap,
      fun _ => rfl, fun h => absurd h hbase, fun h => absurd h hbase, fun _ _ => hreq,
      fun _ h => absurd hgranted h⟩
  · rw [if_pos (not_not.mp (mt (granted_iff hans hle).mpr hgranted))]
    exact ⟨_, _, rfl, henabled, hsound, rfl, hsound.no_wrap, fun _ => rfl,
      fun h => absurd h hbase, fun h => absurd h hbase, fun _ h => absurd h hgranted,
      fun _ _ => ⟨rfl, rfl⟩⟩

theorem translateBrkExit_emulates (hoffset : 0 < heapOffset.toNat) (hsound : heap.Sound heapOffset)
    (henabled : heap.disabled = false) (hpend : Pending heapOffset heap original modified)
    (hans : outcome.Answer heapOffset result) (halone : FirstAlone heap modified)
    (hbrk : modified.sysnum ≠ .PR_brk) :
    ∃ heap' reported,
      translateBrkExit heapOffset heap original modified result = some (heap', reported) ∧
      heap'.disabled = false ∧ heap'.Sound heapOffset ∧
      Emulation heapOffset heap original.sysarg1 outcome heap' reported := by
  cases hpend with
  | suspicious _ hnum => exact absurd hnum hbrk
  | below hnum hbase hlt =>
      have hpos : 0 < heapOffset := by simpa [BitVec.lt_def] using hoffset
      have hexit : translateBrkExit heapOffset heap original modified result =
          some (heap, heap.base + heap.size) := by
        simp only [translateBrkExit, henabled, Bool.false_eq_true, if_false, hpos,
          not_true_eq_false, hnum]
      refine ⟨_, _, hexit, henabled, hsound, rfl, hsound.no_wrap, fun _ => rfl,
        fun h => absurd h hbase, fun h => absurd h hbase, ?_, fun _ _ => ⟨rfl, rfl⟩⟩
      intro _ hgranted
      exact absurd hgranted.1 (BitVec.not_le.mpr hlt)
  | first hnum _ => exact first_emulates hoffset hsound henabled hans (halone hnum) hnum
  | resize hnum hbase hle hsize =>
      exact resize_emulates hoffset hsound henabled hans hbase hnum hle hsize

theorem translateBrkExit_suspicious (original : BrkRegs w) (result : BitVec w)
    (hoffset : 0 < heapOffset.toNat) (henabled : heap.disabled = false)
    (hbrk : modified.sysnum = .PR_brk) :
    ∃ heap', translateBrkExit heapOffset heap original modified result = some (heap', result) ∧
      heap'.base = heap.base ∧ heap'.size = heap.size := by
  have hpos : 0 < heapOffset := by simpa [BitVec.lt_def] using hoffset
  unfold translateBrkExit
  simp only [henabled, Bool.false_eq_true, if_false, hpos, not_true_eq_false, hbrk]
  split
  · exact ⟨_, rfl, rfl, rfl⟩
  · exact ⟨_, rfl, rfl, rfl⟩

end Exit

/-! ## Runs -/

/-- What holds of an address space between any two of its steps. -/
structure Space.Valid (host : Host w) (s : Space w) : Prop where
  offset : s.heapOffset = 0 ∨ s.heapOffset = host.heapOffset
  sound : s.heap.disabled = false → s.heap.Sound host.heapOffset
  pending : s.heap.disabled = false → ∀ tracee call, s.inFlight tracee = some call →
    s.heapOffset = host.heapOffset ∧ Pending host.heapOffset s.heap call.1 call.2

/-- The steps a kernel takes, when first requests on one heap do not overlap. -/
def Space.Regular (s : Space w) : SpaceMove w → Prop
  | .exit tracee outcome result =>
      outcome.Answer s.heapOffset result ∧
      ∀ call, s.inFlight tracee = some call → FirstAlone s.heap call.2
  | _ => True

theorem Space.Valid.exit (hs : s.Valid host) {tracee : Nat}
    {heap' : Heap w} (hsound : heap'.disabled = false → heap'.Sound host.heapOffset)
    (hdisabled : heap'.disabled = false → s.heap.disabled = false)
    (hbase : s.heap.base ≠ 0 → heap'.base = s.heap.base) :
    Space.Valid host { s with heap := heap', inFlight := Function.update s.inFlight tracee none } := by
  refine ⟨hs.offset, hsound, ?_⟩
  intro henabled other call hcall
  have hother : s.inFlight other = some call := by
    simp only [Function.update_apply] at hcall
    grind
  obtain ⟨hoffset, hpend⟩ := hs.pending (hdisabled henabled) other call hother
  exact ⟨hoffset, hpend.mono hbase⟩

/-- **One exit.** No assertion fails, the heap stays sound and its base stays where it is. -/
theorem Space.Valid.exit_step (hw : 32 ≤ w) (hs : s.Valid host)
    {tracee : Nat} {outcome : Outcome w} {result : BitVec w} {call : BrkRegs w × BrkRegs w}
    (hcall : s.inFlight tracee = some call) (hok : s.Regular (.exit tracee outcome result)) :
    ∃ heap' reported,
      translateBrkExit s.heapOffset s.heap call.1 call.2 result = some (heap', reported) ∧
      (heap'.disabled = false → heap'.Sound host.heapOffset) ∧
      (heap'.disabled = false → s.heap.disabled = false) ∧
      (s.heap.base ≠ 0 → heap'.base = s.heap.base) := by
  cases henabled : s.heap.disabled with
  | true => exact ⟨s.heap, result, by simp [translateBrkExit, henabled], hs.sound,
      by simp [henabled], fun _ => rfl⟩
  | false =>
      obtain ⟨hoffset, hpend⟩ := hs.pending henabled tracee call hcall
      have hpos := host.heapOffset_pos hw
      rw [hoffset]
      by_cases hbrk : call.2.sysnum = .PR_brk
      · obtain ⟨heap', hexit, hbase, hsize⟩ :=
          translateBrkExit_suspicious call.1 result hpos henabled hbrk
        have hsound := hs.sound henabled
        refine ⟨heap', result, hexit, fun _ => ⟨?_, ?_, ?_⟩, by simp, fun _ => hbase⟩
        · rw [hbase, hsize]
          exact hsound.unset
        · rw [hbase]
          exact hsound.room
        · rw [hbase, hsize]
          exact hsound.no_wrap
      · obtain ⟨hans, halone⟩ := hok
        obtain ⟨heap', reported, hexit, _, hsound, hemul⟩ :=
          translateBrkExit_emulates hpos (hs.sound henabled) henabled hpend (hoffset ▸ hans)
            (halone call hcall) hbrk
        exact ⟨heap', reported, hexit, fun _ => hsound, by simp, hemul.base_kept⟩

theorem Space.Valid.enter (hs : s.Valid host) {tracee : Nat}
    {bss : BitVec w} {regs : BrkRegs w} (hbrk : regs.sysnum = .PR_brk) :
    Space.Valid host
      { s with heapOffset := (translateBrkEnter host bss s.heapOffset s.heap regs).1,
               inFlight := Function.update s.inFlight tracee
                 (some (regs, (translateBrkEnter host bss s.heapOffset s.heap regs).2)) } := by
  cases henabled : s.heap.disabled with
  | true =>
      refine ⟨?_, hs.sound, ?_⟩
      · show (translateBrkEnter host bss s.heapOffset s.heap regs).1 = 0 ∨ _
        simpa [translateBrkEnter, henabled] using hs.offset
      · intro hfalse
        exact absurd (henabled.symm.trans hfalse) (by simp)
  | false =>
      obtain ⟨hoffset, hentered⟩ := translateBrkEnter_entered bss regs hs.offset
        henabled
      refine ⟨.inr hoffset, hs.sound, ?_⟩
      intro _ other call hcall
      refine ⟨hoffset, ?_⟩
      by_cases hother : other = tracee
      · subst hother
        simp only [Function.update_self, Option.some.injEq] at hcall
        subst hcall
        exact hentered.pending hbrk
      · simp only [Function.update_of_ne hother] at hcall
        exact (hs.pending henabled other call hcall).2

theorem Space.Valid.step (hw : 32 ≤ w) {s' : Space w} {e : SpaceMove w}
    (hs : s.Valid host) (hok : s.Regular e) (h : s.step host e = some s') :
    s'.Valid host ∧ (s.heap.base ≠ 0 → s'.heap.base = s.heap.base) := by
  cases e with
  | enter tracee bss regs =>
      simp only [Space.step, Option.ite_none_right_eq_some, Option.some.injEq] at h
      obtain ⟨⟨_, hbrk⟩, rfl⟩ := h
      exact ⟨hs.enter hbrk, fun _ => rfl⟩
  | exit tracee outcome result =>
      simp only [Space.step, Option.bind_eq_some_iff, Option.map_eq_some_iff] at h
      obtain ⟨call, hcall, out, hout, rfl⟩ := h
      obtain ⟨heap', reported, hexit, hsound, hdisabled, hbase⟩ := hs.exit_step hw hcall hok
      rw [hexit, Option.some.injEq] at hout
      subst hout
      exact ⟨hs.exit hsound hdisabled hbase, hbase⟩
  | fork =>
      cases h
      exact ⟨⟨hs.offset, hs.sound, fun _ _ _ hcall => nomatch hcall⟩, fun _ => rfl⟩
  | disable =>
      cases h
      exact ⟨⟨hs.offset, (fun hfalse => nomatch hfalse), (fun hfalse => nomatch hfalse)⟩,
        fun _ => rfl⟩

theorem reached_valid (hw : 32 ≤ w) (h : (spaces host).Reach Space.Regular s) : s.Valid host := by
  refine h.invariant ?_ ?_
  · rintro s ⟨hheap, hflight, hoffset⟩
    refine ⟨hoffset, fun _ => ?_, fun _ tracee call hcall => ?_⟩
    · rw [hheap]
      refine ⟨fun _ => rfl, fun hne => absurd rfl hne, ?_⟩
      show (0#w).toNat + (0#w).toNat < 2 ^ w
      rw [BitVec.toNat_zero]
      exact Nat.two_pow_pos w
    · rw [hflight tracee] at hcall
      exact nomatch hcall
  · intro s e s' hs hok hstep
    exact (hs.step hw hok hstep).1

/-- The sizes and the address of a resize are those of the integers. -/
structure ResizeFits (heapOffset : BitVec w) (heap : Heap w) (request : BitVec w)
    (modified : BrkRegs w) : Prop where
  old_address : modified.sysarg1.toNat + heapOffset.toNat = heap.base.toNat
  old_size : modified.sysarg2.toNat = heap.size.toNat + heapOffset.toNat
  new_size : modified.sysarg3.toNat + heap.base.toNat = request.toNat + heapOffset.toNat

theorem resize_fits {heapOffset : BitVec w} {heap : Heap w} (hsound : heap.Sound heapOffset)
    {original modified : BrkRegs w} (h : Entered heapOffset heap original modified)
    (hnum : modified.sysnum = .PR_mremap) (hbrk : original.sysnum = .PR_brk) :
    ResizeFits heapOffset heap original.sysarg1 modified := by
  cases h with
  | suspicious _ _ hsame =>
      rw [hsame, hbrk] at hnum
      exact nomatch hnum
  | first | below => grind
  | resize _ hbase hle haddress hold hnew =>
      have hroom := hsound.room hbase
      have hsum := hsound.no_wrap
      have hreq := original.sysarg1.isLt
      have hle' : heap.base.toNat ≤ original.sysarg1.toNat := BitVec.le_def.mp hle
      refine ⟨?_, ?_, ?_⟩
      · rw [haddress, BitVec.toNat_sub_of_le (BitVec.le_def.mpr hroom)]
        omega
      · rw [hold, BitVec.toNat_add, Nat.mod_eq_of_lt (by omega)]
      · rw [hnew, BitVec.toNat_add, BitVec.toNat_sub_of_le hle, Nat.mod_eq_of_lt (by omega)]
        omega

/-- **brk(2) is emulated.** In every address space reached: a request is left to the kernel only
when it names an address before there is a heap, and the sizes computed for it do not wrap; no
exit fails an assertion, and unless the emulation is off or the request was left to the kernel it
behaves as brk(2) does; and no step moves the base once it is set. -/
theorem brk_emulated {host : Host w} (hw : 32 ≤ w) {s : Space w}
    (h : (spaces host).Reach Space.Regular s) :
    (∀ bss regs, s.heap.disabled = false → regs.sysnum = .PR_brk →
      let entered := translateBrkEnter host bss s.heapOffset s.heap regs
      (entered.2.sysnum = .PR_brk ↔ s.heap.base = 0 ∧ regs.sysarg1 ≠ 0) ∧
      (entered.2.sysnum = .PR_mremap →
        ResizeFits entered.1 s.heap regs.sysarg1 entered.2)) ∧
    (∀ tracee outcome result call, s.inFlight tracee = some call →
      s.Regular (.exit tracee outcome result) →
      ∃ s' reported, s.step host (.exit tracee outcome result) = some s' ∧
        translateBrkExit s.heapOffset s.heap call.1 call.2 result = some (s'.heap, reported) ∧
        (s.heap.disabled = false → call.2.sysnum ≠ .PR_brk →
          Emulation s.heapOffset s.heap call.1.sysarg1 outcome s'.heap reported)) ∧
    (∀ e s', s.Regular e → s.step host e = some s' → s.heap.base ≠ 0 →
      s'.heap.base = s.heap.base) := by
  have hs := reached_valid hw h
  refine ⟨?_, ?_, ?_⟩
  · intro bss regs henabled hbrk
    obtain ⟨hoffset, hentered⟩ := translateBrkEnter_entered bss regs hs.offset
      henabled
    refine ⟨?_, ?_⟩
    · cases hentered <;> grind
    · intro hnum
      rw [hoffset]
      exact resize_fits (hs.sound henabled) hentered hnum hbrk
  · intro tracee outcome result call hcall hok
    obtain ⟨heap', reported, hexit, -⟩ := hs.exit_step hw hcall hok
    refine ⟨{ s with heap := heap', inFlight := Function.update s.inFlight tracee none }, reported,
      ?_, hexit, ?_⟩
    · simp [Space.step, hcall, hexit]
    · intro henabled hbrk
      obtain ⟨hoffset, hpend⟩ := hs.pending henabled tracee call hcall
      obtain ⟨heap'', reported', hexit', -, -, hemul⟩ :=
        translateBrkExit_emulates (host.heapOffset_pos hw) (hs.sound henabled) henabled hpend
          (hoffset ▸ hok.1) (hok.2 call hcall) hbrk
      rw [hoffset] at hexit ⊢
      obtain ⟨rfl, rfl⟩ := Prod.mk.inj (Option.some.inj (hexit.symm.trans hexit'))
      exact hemul
  · intro e s' hok hstep
    exact (hs.step hw hok hstep).2

/-! ## Two runs -/

def pageHost : Host 64 := ⟨4096, false⟩

def freshSpace : Space 64 := ⟨0, ⟨0, 0, false⟩, fun _ => none⟩

def brkRegs (request : BitVec 64) : BrkRegs 64 := ⟨.PR_brk, request, 0, 0, 0, 0, 0⟩

theorem freshSpace_init : (spaces pageHost).init freshSpace :=
  ⟨rfl, fun _ => rfl, .inl rfl⟩

/-- A heap of no bytes is asked to grow by two pages, and grows. -/
theorem brk_emulated_grow : ∃ (s s' : Space 64) (reported : BitVec 64),
      s.heap = ⟨0x555555601000, 0, false⟩ ∧
      s.step pageHost (.exit 1 (.granted 0x555555600000) 0x555555600000) = some s' ∧
      Emulation s.heapOffset s.heap 0x555555603000 (.granted 0x555555600000) s'.heap reported := by
  have hstart : (spaces pageHost).Reach Space.Regular freshSpace := .start freshSpace_init
  have hasked := Lib.System.Reach.next (e := SpaceMove.enter 1 0x555555600000 (brkRegs 0)) hstart
    (by exact trivial) rfl
  have hset := Lib.System.Reach.next
    (e := SpaceMove.exit 1 (.granted 0x555555600000) 0x555555600000) hasked
    (by exact ⟨⟨rfl, by decide, by decide⟩, fun _ _ _ => rfl⟩) rfl
  have hgrow := Lib.System.Reach.next
    (e := SpaceMove.enter 1 0x555555600000 (brkRegs 0x555555603000)) hset (by exact trivial) rfl
  obtain ⟨s', reported, hstep, -, hemul⟩ := (brk_emulated (by decide) hgrow).2.1 1
    (.granted 0x555555600000) 0x555555600000 _ rfl
    ⟨⟨rfl, by decide, by decide⟩, fun call hcall hnum => by cases hcall; exact absurd hnum (by decide)⟩
  exact ⟨_, s', reported, rfl, hstep, hemul rfl (by decide)⟩

/-- A first request that names an address is answered by the kernel, of whose break the heap says
nothing; the first request is granted, but not the address 0 it names; and the current break is
reported as requested although the kernel refused it. -/
theorem break_not_base_plus_size :
    (∃ heap' reported, translateBrkExit 4096 (⟨0, 0, false⟩ : Heap 64) (brkRegs 0x1000)
        (translateBrkEnter pageHost 0 0 ⟨0, 0, false⟩ (brkRegs 0x1000)).2 0x555555600000 =
          some (heap', reported) ∧ reported ≠ heap'.base + heap'.size) ∧
    (∃ heap' reported, translateBrkExit 4096 (⟨0, 0, false⟩ : Heap 64) (brkRegs 0)
        (translateBrkEnter pageHost 0x555555600000 0 ⟨0, 0, false⟩ (brkRegs 0)).2
          0x555555600000 = some (heap', reported) ∧ reported ≠ (brkRegs 0).sysarg1) ∧
    (∃ heap' reported, translateBrkExit 4096 (⟨0x555555601000, 0, false⟩ : Heap 64)
        (brkRegs 0x555555601000)
        (translateBrkEnter pageHost 0 4096 ⟨0x555555601000, 0, false⟩
          (brkRegs 0x555555601000)).2 (-12) = some (heap', reported) ∧
      reported = (brkRegs 0x555555601000).sysarg1) := by
  refine ⟨⟨_, _, rfl, ?_⟩, ⟨_, _, rfl, ?_⟩, ⟨_, _, rfl, rfl⟩⟩
  · decide
  · decide

end Improot.Syscall
