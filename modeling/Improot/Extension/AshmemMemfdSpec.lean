import Improot.Extension.AshmemMemfd

/-!
# The sizes of memory files

What a tracee may expect of its memory files, and the runs in which it gets it: one step keeps the
extension's state in line with the call it was set for, and a call that ends in such a state is
honest.
-/

namespace Improot.Extension.Ashmem

open Lib (Bytes Memory System le ofLe)
open Syscall (Sysnum)

variable {layout : Layout} {w w' : World} {p : Process} {m : Memory}

/-! ## What is expected -/

/-- **A call that is over is honest**: the extension has changed nothing of it but the size that
`fstat` stores for a memory file. -/
structure Honest (layout : Layout) (f : Finished) : Prop where
  /-- On a file that `memfd_create` didn't open, the call is the kernel's. -/
  ordinary : f.call.request.sysnum ≠ .PR_memfd_create →
    (∀ file ∈ f.file, file.emulated = false) →
    f.call.regs = f.call.request ∧ f.result = f.kernelResult ∧ f.memory = f.kernelMemory
  /-- `memfd_create` writes to the scratch space that it allocates. -/
  memfdCreate : f.call.request.sysnum = .PR_memfd_create → f.result = f.kernelResult ∧
    ∀ x, (∀ a ∈ f.call.scratch, x < a ∨ a + 12 ≤ x) → f.memory.byte? x = f.call.before.byte? x
  /-- `ftruncate` writes nothing. -/
  truncate : IsTruncate f.call.request.sysnum →
    f.result = f.kernelResult ∧ f.memory = f.call.before
  /-- `fstat` of a memory file fails as in the kernel, or stores the length that was set last. -/
  stat : IsStat f.call.request.sysnum → ∀ file ∈ f.file, file.emulated = true →
    (f.kernelResult ≠ 0 → f.result = f.kernelResult ∧ f.memory = f.kernelMemory) ∧
    (f.kernelResult = 0 → f.result = 0 ∧
      let stat := layout.stat f.call.request.sysnum
      f.memory = (f.kernelMemory.store (f.call.request.buffer + stat.stSize)
        (le stat.width file.truncated)).1)

def Event.subject : Event → Nat
  | .runs pid _ | .moves pid _ _ | .opens pid _ _ | .enters pid _ _ | .sigsys pid _ _
  | .exits pid _ | .chainedExits pid => pid
  | .forks _ child _ _ => child

/-- **A step is about one tracee**: the others, among them the parent of a fork whatever it is
doing, stay as they are, and the child of a fork begins with nothing under way. -/
structure Independent (w : World) (e : Event) (w' : World) : Prop where
  others : ∀ q, q ≠ e.subject → w'.process q = w.process q
  child : ∀ pid child arch abi, e = .forks pid child arch abi →
    ∃ p c, w.process pid = some p ∧ w'.process child = some c ∧ c.fds = p.fds ∧
      c.memory = p.memory ∧ c.state = ⟨p.state.memfdSupported, .CS_IDLE, 0, 0⟩ ∧ c.stage = .running

/-! ## When it can be had -/

/-- A call on a descriptor that links to `/dev/ashmem`, which the extension gets right: the guest
hasn't opened it itself, the length is a word below 2 ^ 32, and the call is one whose `struct stat`
is laid out like the tracer's. -/
structure Covered (layout : Layout) (regs : Regs) (file : OpenFile) : Prop where
  emulated : file.emulated = true
  length : IsTruncate regs.sysnum → regs.length layout = regs.arg2 ∧ regs.arg2 < 2 ^ 32
  stat : IsStat regs.sysnum → (regs.sysnum = .PR_fstat ∨ regs.sysnum = .PR_fstatat64) ∧
    (layout.stat regs.sysnum).stSize = layout.stSize

/-- The condition on the steps: a call on an open `/dev/ashmem` is covered, the path that replaces
the name of a new file can be written, a call that a signal interrupts finds `/dev/ashmem`, and no
zero word is at the address that the missing `break` makes of `ASHMEM_SET_SIZE` when the length of a
memory file is set. -/
def Ok (layout : Layout) (w : World) : Event → Prop
  | .enters pid regs alloc => ∀ p, w.process pid = some p →
    (regs.sysnum = .PR_memfd_create → p.state.memfdSupported = false →
      ∃ a, alloc = some a ∧ p.memory.Writable a 12) ∧
    ∀ id, p.about regs = some id → (w.file id).link = devAshmem → Covered layout regs (w.file id)
  | .exits pid outcome => ∀ p call, w.process pid = some p → p.stage = .entered call →
    (call.fromSigsys = true → call.regs.sysnum = .PR_openat →
      ∀ fd link, outcome = .opens fd link → link = devAshmem) ∧
    (IsSetSize layout call.regs → outcome = .truncates →
      peekWord layout p.memory ((layout.ashmemSetSize + layout.stSize) % layout.modulus) ≠ 0)
  | _ => True

structure Initial (w : World) : Prop where
  files : ∀ id, id < w.next → (w.file id).emulated = false
  opened : ∀ pid p, w.process pid = some p → ∀ fd id, p.fds fd = some id → id < w.next
  idle : ∀ pid p, w.process pid = some p →
    p.stage = .running ∧ p.state.chainState = .CS_IDLE
  finished : w.finished = []

def system (layout : Layout) : System World Event where
  init := Initial
  step := step layout

/-! ## Memory -/

variable {a id pid : Nat} {state : AshmemMemfdState} {regs : Regs} {alloc : Option Nat}

theorem processVmReadv_of_load {n : Nat} {bs : Bytes} (h : m.load a n = some bs) :
    processVmReadv m a n = bs := by
  induction n generalizing a bs with
  | zero =>
      cases h
      rfl
  | succ n ih =>
      obtain ⟨b, rest, hb, hrest, rfl⟩ := Memory.load_cons.mp h
      rw [processVmReadv, hb]
      show b :: processVmReadv m (a + 1) n = b :: rest
      rw [ih hrest]

theorem ofLe_replicate (n : Nat) : ofLe (List.replicate n 0) = 0 := by
  induction n with
  | zero => rfl
  | succ n ih =>
      rw [List.replicate_succ, ofLe, ih]
      rfl

theorem peekWord_zeros {width : Nat} (h : m.load a width = some (List.replicate width 0))
    (hle : layout.sizeofWord ≤ width) : peekWord layout m a = 0 := by
  have hword : m.load a layout.sizeofWord = some (List.replicate layout.sizeofWord 0) := by
    rw [Memory.load_take h hle, List.take_replicate, Nat.min_eq_left hle]
  have hpos := layout.sizeofWord_pos
  rw [peekWord, processVmReadv_of_load hword]
  cases hn : layout.sizeofWord with
  | zero => omega
  | succ n => exact ofLe_replicate (n + 1)

theorem peekWord_low (a : Nat) : peekWord layout m a &&& 0xff = 0 ↔ m.byte? a = some 0 := by
  rw [show (0xff : Nat) = 2 ^ 8 - 1 from rfl, Nat.and_two_pow_sub_one_eq_mod, peekWord]
  have hpos := layout.sizeofWord_pos
  cases hn : layout.sizeofWord with
  | zero => omega
  | succ n =>
      cases hb : m.byte? a with
      | none =>
          rw [processVmReadv, hb]
          show (256 ^ (n + 1) - 1) % 256 = 0 ↔ _
          have hword : 0 < 256 ^ n := Nat.pow_pos (by omega)
          rw [Nat.pow_succ]
          constructor
          · omega
          · intro h
            cases h
      | some b =>
          rw [processVmReadv, hb]
          show (b.toNat + 256 * ofLe _) % 256 = 0 ↔ _
          have hlt := b.toNat_lt
          rw [Nat.add_mul_mod_self_left, Nat.mod_eq_of_lt hlt, Option.some.injEq,
            ← UInt8.toNat_inj]
          rfl

theorem le_zero (n : Nat) : le n 0 = List.replicate n 0 := by
  induction n with
  | zero => rfl
  | succ n ih =>
      rw [le, Nat.zero_div, ih]
      rfl

theorem le_add (n k x : Nat) : le (n + k) x = le n x ++ le k (x / 256 ^ n) := by
  induction n generalizing x with
  | zero => rw [Nat.zero_add, Nat.pow_zero, Nat.div_one, le, List.nil_append]
  | succ n ih =>
      rw [show n + 1 + k = n + k + 1 by omega, le, ih, le, List.cons_append, Nat.div_div_eq_div_mul,
        Nat.pow_succ, Nat.mul_comm 256]

theorem store_four {width n : Nat} (h : m.load a width = some (List.replicate width 0))
    (hwide : 4 ≤ width) (hn : n < 2 ^ 32) :
    (m.store a (le 4 n)).1 = (m.store a (le width n)).1 := by
  have hbytes : le width n = le 4 n ++ List.replicate (width - 4) 0 := by
    rw [← le_zero, ← Nat.div_eq_of_lt (show n < 256 ^ 4 from hn), ← le_add,
      Nat.add_sub_cancel' hwide]
  rw [hbytes, Memory.store_append]
  split
  · have hrest : m.load (a + 4) (width - 4) = some (List.replicate (width - 4) 0) := by
      rw [Memory.load_drop h hwide, List.drop_replicate]
    symm
    apply Memory.store_load (n := width - 4)
    rw [Lib.le_length, Memory.load_store_outside (.inr (Nat.le_of_eq (by rw [Lib.le_length])))]
    exact hrest
  · rfl

/-! ## The entry of a call -/

theorem isAshmemFd_links {fd : Int} : isAshmemFd (w.links p) fd = true ↔
    ∃ id, p.open? fd = some id ∧ (w.file id).link = devAshmem := by
  unfold isAshmemFd World.links
  rw [decide_eq_true_iff, Option.map_eq_some_iff]

theorem handleStat_of_not {fd : Int} {address : Nat}
    (h : ¬ ∃ id, p.open? fd = some id ∧ (w.file id).link = devAshmem) :
    handleStat layout (w.links p) state fd address = state := by
  rw [handleStat, if_neg (mt isAshmemFd_links.mp h)]

theorem about_of_truncate (h : IsTruncate regs.sysnum) :
    p.about regs = p.open? (int regs.arg1) := by
  rw [Process.about, Regs.descriptor, if_pos h]
  rfl

theorem not_isTruncate {sysnum : Sysnum} (h : IsStat sysnum) : ¬ IsTruncate sysnum := by
  rcases h with rfl | rfl | rfl | rfl <;> decide

theorem about_of_stat (h : IsStat regs.sysnum)
    (hpath : takesPath regs.sysnum = true → p.memory.byte? regs.arg2 = some 0) :
    p.about regs = p.open? (int regs.arg1) := by
  rw [Process.about, Regs.descriptor, if_neg (not_isTruncate h), if_pos h,
    if_neg fun hp => hp.2 (hpath hp.1)]
  rfl

theorem about_of_some (h : IsStat regs.sysnum)
    (hid : p.about regs = some id) : p.open? (int regs.arg1) = some id ∧
      (takesPath regs.sysnum = true → p.memory.byte? regs.arg2 = some 0) := by
  rw [Process.about, Regs.descriptor, if_neg (not_isTruncate h), if_pos h] at hid
  split at hid
  case isTrue hpath => cases hid
  case isFalse hpath =>
    refine ⟨hid, fun htakes => ?_⟩
    by_contra hbyte
    exact hpath ⟨htakes, hbyte⟩

theorem open?_nonneg {fd : Int} (h : p.open? fd = some id) : 0 ≤ fd := by
  unfold Process.open? at h
  split at h
  · cases h
  · omega

theorem handleSyscall_other (hcall : IsStat regs.sysnum ∨ IsTruncate regs.sysnum)
    (h : ¬ ∃ id, p.about regs = some id ∧ (w.file id).link = devAshmem) :
    handleSyscall layout (w.links p) alloc ⟨regs, p.memory, p.state⟩ =
      ⟨regs, p.memory, p.state⟩ := by
  rcases hcall with hstat | htruncate
  · have hfd (hpath : takesPath regs.sysnum = true → p.memory.byte? regs.arg2 = some 0) :
        ¬ ∃ id, p.open? (int regs.arg1) = some id ∧ (w.file id).link = devAshmem := by
      rw [← about_of_stat hstat hpath]
      exact h
    rcases hstat with hs | hs | hs | hs
    · have hunchanged := hfd (by rw [hs]; intro; contradiction)
      simp only [handleSyscall, hs]
      rw [handleStat_of_not hunchanged]
    · simp only [handleSyscall, hs]
    · simp only [handleSyscall, hs]
      split
      case isTrue hempty =>
        rw [handleStat_of_not (hfd fun _ => (peekWord_low _).mp hempty.2)]
      case isFalse hpath => rfl
    · simp only [handleSyscall, hs]
  · rw [about_of_truncate htruncate] at h
    have hno := mt isAshmemFd_links.mp h
    rcases htruncate with hs | hs
    · simp only [handleSyscall, hs]
      rw [if_neg hno, handleStat_of_not h]
    · simp only [handleSyscall, hs]
      rw [if_neg hno, handleStat_of_not h]

/-- **The length of a memory file is set with `ioctl`**, and the missing `break` makes the state
that of a `fstat` whose buffer is at `ASHMEM_SET_SIZE`. -/
theorem handleSyscall_truncate (hcall : IsTruncate regs.sysnum) (hid : p.about regs = some id)
    (hlink : (w.file id).link = devAshmem) :
    handleSyscall layout (w.links p) alloc ⟨regs, p.memory, p.state⟩ =
      ⟨{ regs with sysnum := .PR_ioctl, arg3 := regs.arg2, arg2 := layout.ashmemSetSize }, p.memory,
        { p.state with
          chainState := .CS_STAT_ENTERED
          fd := int regs.arg1
          addr := (layout.ashmemSetSize + layout.stSize) % layout.modulus }⟩ := by
  rw [about_of_truncate hcall] at hid
  have hyes : isAshmemFd (w.links p) (int regs.arg1) = true := isAshmemFd_links.mpr ⟨id, hid, hlink⟩
  rcases hcall with hs | hs
  · simp only [handleSyscall, hs, handleStat]
    rw [if_pos hyes, if_pos hyes]
  · simp only [handleSyscall, hs, handleStat]
    rw [if_pos hyes, if_pos hyes]

theorem handleSyscall_stat
    (hcall : regs.sysnum = .PR_fstat ∨ regs.sysnum = .PR_fstatat64) (hid : p.about regs = some id)
    (hlink : (w.file id).link = devAshmem) :
    handleSyscall layout (w.links p) alloc ⟨regs, p.memory, p.state⟩ =
      ⟨regs, p.memory,
        { p.state with
          chainState := .CS_STAT_ENTERED
          fd := int regs.arg1
          addr := (regs.buffer + layout.stSize) % layout.modulus }⟩ := by
  have hstat : IsStat regs.sysnum := hcall.elim .inl fun hs => .inr (.inr (.inl hs))
  obtain ⟨hopen, hpath⟩ := about_of_some hstat hid
  have hyes : isAshmemFd (w.links p) (int regs.arg1) = true :=
    isAshmemFd_links.mpr ⟨id, hopen, hlink⟩
  rcases hcall with hs | hs
  · simp only [handleSyscall, hs, handleStat, Regs.buffer]
    rw [if_pos hyes]
    rfl
  · have hempty := hpath (by rw [hs]; rfl)
    simp only [handleSyscall, hs, handleStat, Regs.buffer]
    rw [if_pos ⟨open?_nonneg hopen, (peekWord_low _).mpr hempty⟩, if_pos hyes]
    rfl

/-! ## The invariant -/

/-- An open file that `memfd_create` has opened. -/
structure MemoryFile (w : World) (id : Nat) : Prop where
  old : id < w.next
  emulated : (w.file id).emulated = true
  link : (w.file id).link = devAshmem

/-- **What is known in each stage of a tracee** about the state of the extension. -/
inductive AtStage (layout : Layout) (w : World) (p : Process) : Stage → Prop
  | running (hidle : p.state.chainState = .CS_IDLE) : AtStage layout w p .running
  | other {call : Call} (hcall : IsStat call.request.sysnum ∨ IsTruncate call.request.sysnum)
      (hregs : call.regs = call.request) (hidle : p.state.chainState = .CS_IDLE)
      (hmemory : p.memory = call.before)
      (hfile : ∀ id ∈ call.file, id < w.next ∧ (w.file id).emulated = false) :
      AtStage layout w p (.entered call)
  | memfdCreate {call : Call} (hrequest : call.request.sysnum = .PR_memfd_create)
      (hsysnum : call.regs.sysnum = .PR_memfd_create ∨ call.regs.sysnum = .PR_openat ∧
        (call.fromSigsys = false → p.memory.load call.regs.arg2 12 = some (devAshmem ++ [0])))
      (hidle : p.state.chainState = .CS_IDLE)
      (hmemory : ∀ x, (∀ a ∈ call.scratch, x < a ∨ a + 12 ≤ x) →
        p.memory.byte? x = call.before.byte? x) : AtStage layout w p (.entered call)
  | truncate {call : Call} {id : Nat} (hcall : IsTruncate call.request.sysnum)
      (hregs : call.regs = { call.request with
        sysnum := .PR_ioctl, arg3 := call.request.arg2, arg2 := layout.ashmemSetSize })
      (hfile : call.file = some id) (hopen : p.open? (int call.regs.arg1) = some id)
      (hid : MemoryFile w id) (hlength : call.request.length layout = call.request.arg2)
      (hlt : call.request.arg2 < 2 ^ 32) (hstate : p.state.chainState = .CS_STAT_ENTERED)
      (haddr : p.state.addr = (layout.ashmemSetSize + layout.stSize) % layout.modulus)
      (hmemory : p.memory = call.before) : AtStage layout w p (.entered call)
  | stat {call : Call} {id : Nat} (hcall : IsStat call.request.sysnum)
      (hregs : call.regs = call.request) (hfile : call.file = some id)
      (habout : p.about call.request = some id)
      (hopen : p.open? p.state.fd = some id) (hid : MemoryFile w id)
      (hlayout : (layout.stat call.request.sysnum).stSize = layout.stSize)
      (hstate : p.state.chainState = .CS_STAT_ENTERED)
      (haddr : p.state.addr = (call.request.buffer + layout.stSize) % layout.modulus) :
      AtStage layout w p (.entered call)
  /-- The kernel has served it: a zero is where the size goes. -/
  | chained {call : Call} {id : Nat} (hcall : IsStat call.request.sysnum)
      (hfile : call.file = some id) (hopen : p.open? p.state.fd = some id) (hid : MemoryFile w id)
      (hstate : p.state.chainState = .CS_STAT_CHAINED_IOCTL)
      (haddr : p.state.addr =
        call.request.buffer + (layout.stat call.request.sysnum).stSize)
      (hzeros : p.memory.load p.state.addr (layout.stat call.request.sysnum).width =
        some (List.replicate (layout.stat call.request.sysnum).width 0)) :
      AtStage layout w p (.chained call p.memory)

structure Inv (layout : Layout) (w : World) : Prop where
  /-- The size of a memory file is the length that was set last. -/
  files : ∀ id, id < w.next → (w.file id).emulated = true →
    (w.file id).link = devAshmem ∧ (w.file id).size = (w.file id).truncated ∧
      (w.file id).truncated < 2 ^ 32
  opened : ∀ pid p, w.process pid = some p → ∀ fd id, p.fds fd = some id → id < w.next
  stages : ∀ pid p, w.process pid = some p → AtStage layout w p p.stage
  honest : ∀ f ∈ w.finished, Honest layout f

theorem Initial.inv (h : Initial w) : Inv layout w where
  files id hid hemulated := absurd hemulated (by rw [h.files id hid]; exact Bool.false_ne_true)
  opened := h.opened
  stages pid p hp := by
    obtain ⟨hstage, hidle⟩ := h.idle pid p hp
    rw [hstage]
    exact .running hidle
  honest f hf := by
    rw [h.finished] at hf
    cases hf

structure Grows (w w' : World) : Prop where
  next : w.next ≤ w'.next
  link : ∀ id, id < w.next → (w'.file id).link = (w.file id).link
  emulated : ∀ id, id < w.next → (w'.file id).emulated = (w.file id).emulated

theorem Grows.of_eq (hfile : w'.file = w.file) (hnext : w'.next = w.next) : Grows w w' where
  next := Nat.le_of_eq hnext.symm
  link id _ := by rw [hfile]
  emulated id _ := by rw [hfile]

theorem MemoryFile.grows (h : MemoryFile w id) (hg : Grows w w') : MemoryFile w' id where
  old := Nat.lt_of_lt_of_le h.old hg.next
  emulated := (hg.emulated id h.old).trans h.emulated
  link := (hg.link id h.old).trans h.link

theorem AtStage.grows {stage : Stage} (h : AtStage layout w p stage) (hg : Grows w w') :
    AtStage layout w' p stage := by
  cases h with
  | running hidle => exact .running hidle
  | other hcall hregs hidle hmemory hfile =>
      refine .other hcall hregs hidle hmemory fun id hid => ?_
      obtain ⟨hold, hemulated⟩ := hfile id hid
      exact ⟨Nat.lt_of_lt_of_le hold hg.next, (hg.emulated id hold).trans hemulated⟩
  | memfdCreate hrequest hsysnum hidle hmemory =>
      exact .memfdCreate hrequest hsysnum hidle hmemory
  | truncate hcall hregs hfile hopen hid hlength hlt hstate haddr hmemory =>
      exact .truncate hcall hregs hfile hopen (hid.grows hg) hlength hlt hstate haddr hmemory
  | stat hcall hregs hfile habout hopen hid hlayout hstate haddr =>
      exact .stat hcall hregs hfile habout hopen (hid.grows hg) hlayout hstate haddr
  | chained hcall hfile hopen hid hstate haddr hzeros =>
      exact .chained hcall hfile hopen (hid.grows hg) hstate haddr hzeros

/-- **A step about one tracee keeps the invariant** when it does so for this tracee, the files and
the calls that are over. -/
theorem Inv.update (h : Inv layout w) (hg : Grows w w')
    (hprocess : ∀ q, w'.process q = if q = pid then some p else w.process q)
    (hfiles : ∀ id, id < w'.next → (w'.file id).emulated = true →
      (w'.file id).link = devAshmem ∧ (w'.file id).size = (w'.file id).truncated ∧
        (w'.file id).truncated < 2 ^ 32)
    (hopened : ∀ fd id, p.fds fd = some id → id < w'.next)
    (hstage : AtStage layout w' p p.stage)
    (hhonest : ∀ f ∈ w'.finished, Honest layout f) : Inv layout w' where
  files := hfiles
  opened q p' hp' := by
    rw [hprocess] at hp'
    split at hp'
    · cases hp'
      exact hopened
    · intro fd id hid
      exact Nat.lt_of_lt_of_le (h.opened q p' hp' fd id hid) hg.next
  stages q p' hp' := by
    rw [hprocess] at hp'
    split at hp'
    · cases hp'
      exact hstage
    · exact (h.stages q p' hp').grows hg
  honest := hhonest

theorem Inv.set (h : Inv layout w) (hopened : ∀ fd id, p.fds fd = some id → id < w.next)
    (hstage : AtStage layout w p p.stage) : Inv layout (w.set pid p) := by
  have hg : Grows w (w.set pid p) := .of_eq rfl rfl
  exact h.update hg (fun _ => rfl) h.files hopened (hstage.grows hg) h.honest

/-! ## One step -/

theorem Inv.about_old (h : Inv layout w) (hp : w.process pid = some p)
    (hid : p.about regs = some id) : id < w.next := by
  obtain ⟨fd, -, hopen⟩ := Option.bind_eq_some_iff.mp hid
  unfold Process.open? at hopen
  split at hopen
  · cases hopen
  · exact h.opened pid p hp _ _ hopen

theorem setSysargPath_spec (alloc : Option Nat) (regs : Regs) (m : Memory) :
    (setSysargPath alloc regs m).1.sysnum = regs.sysnum ∧
      (∀ x, (∀ a ∈ alloc, x < a ∨ a + 12 ≤ x) →
        (setSysargPath alloc regs m).2.byte? x = m.byte? x) ∧
      ((∃ a, alloc = some a ∧ m.Writable a 12) →
        (setSysargPath alloc regs m).2.load (setSysargPath alloc regs m).1.arg2 12 =
          some (devAshmem ++ [0])) := by
  cases alloc with
  | none =>
      refine ⟨rfl, fun x _ => rfl, fun ⟨a, halloc, _⟩ => ?_⟩
      cases halloc
  | some a =>
      show (if (m.store a (devAshmem ++ [0])).2 then _ else _ : Regs).sysnum = _ ∧
        (∀ x, _ → (m.store a (devAshmem ++ [0])).1.byte? x = _) ∧
        (_ → (m.store a (devAshmem ++ [0])).1.load
          (if (m.store a (devAshmem ++ [0])).2 then _ else _ : Regs).arg2 12 = _)
      refine ⟨?_, fun x hx => Memory.store_byte?_outside (hx a rfl), fun ⟨b, hb, hwritable⟩ => ?_⟩
      · split <;> rfl
      · cases hb
        have hok : (m.store a (devAshmem ++ [0])).2 = true := Memory.store_ok.mpr hwritable
        rw [if_pos hok]
        exact Memory.load_store hok

theorem atStage_memfdCreate {fromSigsys : Bool}
    (hsysnum : regs.sysnum = .PR_memfd_create) (hidle : p.state.chainState = .CS_IDLE)
    (halloc : fromSigsys = false → p.state.memfdSupported = false →
      ∃ a, alloc = some a ∧ p.memory.Writable a 12) :
    let e := handleMemfdCreate layout alloc ⟨regs, p.memory, p.state⟩
    AtStage layout w (p.enter regs alloc fromSigsys e)
      (.entered ⟨regs, p.memory, p.about regs, alloc, fromSigsys, e.regs⟩) := by
  unfold handleMemfdCreate
  split
  case isTrue hsupported =>
    exact .memfdCreate hsysnum (.inl hsysnum) hidle fun x _ => rfl
  case isFalse hsupported =>
    obtain ⟨hopenat, hframe, hpath⟩ :=
      setSysargPath_spec alloc { regs with sysnum := .PR_openat } p.memory
    refine .memfdCreate hsysnum (.inr ⟨hopenat, fun hsigsys => ?_⟩) hidle hframe
    exact hpath (halloc hsigsys (Bool.eq_false_of_not_eq_true hsupported))

theorem Inv.enters (h : Inv layout w)
    (hp : w.process pid = some p) (hidle : p.state.chainState = .CS_IDLE)
    (hcall : IsCall regs.sysnum) (hok : Ok layout w (.enters pid regs alloc)) :
    Inv layout (w.set pid (p.enter regs alloc false
      (handleSyscall layout (w.links p) alloc ⟨regs, p.memory, p.state⟩))) := by
  obtain ⟨halloc, hcovered⟩ := hok p hp
  refine h.set (h.opened pid p hp) ?_
  by_cases hmemfd : regs.sysnum = .PR_memfd_create
  · have hhandle : handleSyscall layout (w.links p) alloc ⟨regs, p.memory, p.state⟩ =
        handleMemfdCreate layout alloc ⟨regs, p.memory, p.state⟩ := by
      simp only [handleSyscall, hmemfd]
    rw [hhandle]
    exact atStage_memfdCreate hmemfd hidle fun _ => halloc hmemfd
  have hkind : IsStat regs.sysnum ∨ IsTruncate regs.sysnum :=
    (hcall.resolve_left hmemfd).symm
  by_cases habout : ∃ id, p.about regs = some id ∧ (w.file id).link = devAshmem
  · obtain ⟨id, habout, hlink⟩ := habout
    have hcov := hcovered id habout hlink
    have hid : MemoryFile w id := ⟨h.about_old hp habout, hcov.emulated, hlink⟩
    rcases hkind with hstat | htruncate
    · obtain ⟨hsysnum, hlayout⟩ := hcov.stat hstat
      rw [handleSyscall_stat hsysnum habout hlink]
      exact .stat hstat rfl habout habout (about_of_some hstat habout).1 hid hlayout rfl rfl
    · obtain ⟨hlength, hlt⟩ := hcov.length htruncate
      rw [handleSyscall_truncate htruncate habout hlink]
      have hopen : p.open? (int regs.arg1) = some id := by
        rw [← about_of_truncate htruncate]
        exact habout
      exact .truncate htruncate rfl habout hopen hid hlength hlt rfl rfl rfl
  · rw [handleSyscall_other hkind habout]
    refine .other hkind rfl hidle rfl fun id hid => ?_
    have hold := h.about_old hp hid
    refine ⟨hold, ?_⟩
    by_contra hemulated
    exact habout ⟨id, hid, (h.files id hold (Bool.eq_true_of_not_eq_false hemulated)).1⟩

/-! ## The kernel -/

/-- What the kernel leaves of the files and of the descriptors. -/
structure Served.Sound (s : Served) (w : World) : Prop where
  grows : Grows w { w with file := s.file, next := s.next }
  opened : ∀ fd id, s.fds fd = some id → id < s.next
  files : ∀ id, id < s.next → (s.file id).emulated = true →
    (s.file id).link = devAshmem ∧ (s.file id).size = (s.file id).truncated ∧
      (s.file id).truncated < 2 ^ 32

theorem Inv.served (h : Inv layout w) (hp : w.process pid = some p) (result : Nat)
    (memory : Memory) : Served.Sound ⟨result, memory, p.fds, w.file, w.next⟩ w where
  grows := .of_eq rfl rfl
  opened := h.opened pid p hp
  files := h.files

theorem Inv.served_opens (h : Inv layout w) (hp : w.process pid = some p) (fd : Nat)
    (memory : Memory) (link : Bytes) (emulated : Bool)
    (hlink : emulated = true → link = devAshmem) :
    Served.Sound ⟨fd, memory, fun other => if other = fd then some w.next else p.fds other,
      fun other => if other = w.next then ⟨link, 0, emulated, 0⟩ else w.file other,
      w.next + 1⟩ w where
  grows := {
    next := Nat.le_succ w.next
    link := fun id hid => by
      show (if id = w.next then _ else _ : OpenFile).link = _
      rw [if_neg (Nat.ne_of_lt hid)]
    emulated := fun id hid => by
      show (if id = w.next then _ else _ : OpenFile).emulated = _
      rw [if_neg (Nat.ne_of_lt hid)] }
  opened other id hid := by
    show id < w.next + 1
    change (if other = fd then some w.next else p.fds other) = some id at hid
    split at hid
    · cases hid
      exact Nat.lt_succ_self w.next
    · exact Nat.lt_succ_of_lt (h.opened pid p hp other id hid)
  files id hid hemulated := by
    change (if id = w.next then _ else _ : OpenFile).emulated = true at hemulated
    show (if id = w.next then _ else _ : OpenFile).link = _ ∧
      (if id = w.next then _ else _ : OpenFile).size =
        (if id = w.next then _ else _ : OpenFile).truncated ∧
      (if id = w.next then _ else _ : OpenFile).truncated < 2 ^ 32
    split at hemulated
    case isTrue heq =>
      rw [if_pos heq]
      exact ⟨hlink hemulated, rfl, Nat.two_pow_pos 32⟩
    case isFalse hne =>
      rw [if_neg hne]
      exact h.files id (by change id < w.next + 1 at hid; omega) hemulated

theorem Inv.served_truncates (h : Inv layout w) (hp : w.process pid = some p)
    (hid : MemoryFile w id) (memory : Memory) {size : Nat} (hlt : size < 2 ^ 32) :
    Served.Sound ⟨0, memory, p.fds,
      fun other => if other = id then { w.file id with size := size, truncated := size }
        else w.file other,
      w.next⟩ w where
  grows := {
    next := Nat.le_refl w.next
    link := fun other hother => by
      show (if other = id then _ else _ : OpenFile).link = _
      split
      case isTrue heq => rw [heq]
      case isFalse hne => rfl
    emulated := fun other hother => by
      show (if other = id then _ else _ : OpenFile).emulated = _
      split
      case isTrue heq => rw [heq]
      case isFalse hne => rfl }
  opened := h.opened pid p hp
  files other hother hemulated := by
    show (if other = id then _ else _ : OpenFile).link = _ ∧
      (if other = id then _ else _ : OpenFile).size =
        (if other = id then _ else _ : OpenFile).truncated ∧
      (if other = id then _ else _ : OpenFile).truncated < 2 ^ 32
    change (if other = id then _ else _ : OpenFile).emulated = true at hemulated
    split at hemulated
    case isTrue heq =>
      rw [if_pos heq]
      exact ⟨hid.link, rfl, hlt⟩
    case isFalse hne =>
      rw [if_neg hne]
      exact h.files other hother hemulated

variable {call : Call} {s : Served} {outcome : Outcome}

theorem kernel_fails {errno : Nat} {bytes : Bytes}
    (hk : kernel layout w p call (.fails errno bytes) = some s) :
    errno < 4096 ∧ s = ⟨layout.modulus - errno,
      if IsStat call.regs.sysnum then (p.memory.store call.regs.buffer bytes).1 else p.memory,
      p.fds, w.file, w.next⟩ := by
  rw [kernel] at hk
  by_cases herrno : 0 < errno ∧ errno < 4096
  · rw [if_pos herrno] at hk
    exact ⟨herrno.2, (Option.some.inj hk).symm⟩
  · rw [if_neg herrno] at hk
    cases hk

theorem kernel_other (h : Inv layout w) (hp : w.process pid = some p)
    (hcall : IsStat call.regs.sysnum ∨ IsTruncate call.regs.sysnum)
    (hk : kernel layout w p call outcome = some s) :
    s.Sound w ∧ s.file = w.file ∧ (IsTruncate call.regs.sysnum → s.memory = p.memory) := by
  have hioctl : call.regs.sysnum ≠ .PR_ioctl := by
    rintro heq
    rw [heq] at hcall
    exact absurd hcall (by decide)
  cases outcome with
  | fails errno bytes =>
      obtain ⟨-, rfl⟩ := kernel_fails hk
      refine ⟨h.served hp _ _, rfl, fun htruncate => ?_⟩
      exact if_neg fun hstat => not_isTruncate hstat htruncate
  | truncates =>
      obtain ⟨id, -, hk⟩ := Option.bind_eq_some_iff.mp hk
      simp only at hk
      rw [if_neg fun hset => hioctl hset.1.1] at hk
      split at hk
      · cases hk
        exact ⟨h.served hp _ _, rfl, fun _ => rfl⟩
      · cases hk
  | stats bytes =>
      simp only [kernel] at hk
      split at hk
      case isFalse hno => cases hk
      case isTrue hstat =>
        cases hk
        exact ⟨h.served hp _ _, rfl, fun htruncate => absurd htruncate (not_isTruncate hstat.1)⟩
  | opens fd link =>
      simp only [kernel] at hk
      split at hk
      case isFalse hno => cases hk
      case isTrue hopens =>
        exfalso
        rcases hopens.2.2 with ⟨hs, -⟩ | ⟨hs, -⟩ <;> rw [hs] at hcall <;>
          exact absurd hcall (by decide)

theorem kernel_memfdCreate (h : Inv layout w) (hp : w.process pid = some p)
    (hstage : p.stage = .entered call)
    (hsysnum : call.regs.sysnum = .PR_memfd_create ∨ call.regs.sysnum = .PR_openat ∧
      (call.fromSigsys = false → p.memory.load call.regs.arg2 12 = some (devAshmem ++ [0])))
    (hok : Ok layout w (.exits pid outcome)) (hk : kernel layout w p call outcome = some s) :
    s.Sound w ∧ s.memory = p.memory := by
  have hno : ¬ IsStat call.regs.sysnum ∧ ¬ IsTruncate call.regs.sysnum ∧
      call.regs.sysnum ≠ .PR_ioctl := by
    rcases hsysnum with hs | ⟨hs, -⟩ <;> rw [hs] <;> decide
  cases outcome with
  | fails errno bytes =>
      obtain ⟨-, rfl⟩ := kernel_fails hk
      exact ⟨h.served hp _ _, if_neg hno.1⟩
  | truncates =>
      obtain ⟨id, -, hk⟩ := Option.bind_eq_some_iff.mp hk
      simp only at hk
      rw [if_neg fun hset => hno.2.2 hset.1.1, if_neg fun htruncate => hno.2.1 htruncate.1] at hk
      cases hk
  | stats bytes =>
      simp only [kernel] at hk
      rw [if_neg fun hstat => hno.1 hstat.1] at hk
      cases hk
  | opens fd link =>
      simp only [kernel] at hk
      split at hk
      case isFalse hno => cases hk
      case isTrue hopens =>
        cases hk
        refine ⟨h.served_opens hp fd p.memory link _ fun hemulated => ?_, rfl⟩
        have hopenat : call.regs.sysnum = .PR_openat := of_decide_eq_true hemulated
        rw [hopenat] at hopens hsysnum
        have hpath := (hsysnum.resolve_left (by decide)).2
        have hlink := (hopens.2.2.resolve_right fun hs => absurd hs.1 (by decide)).2
        cases hsigsys : call.fromSigsys with
        | false => exact hlink hsigsys (hpath hsigsys)
        | true => exact (hok p call hp hstage).1 hsigsys hopenat fd link rfl

theorem error_ne_zero (layout : Layout) {errno : Nat} (h : errno < 4096) :
    layout.modulus - errno ≠ 0 := by
  have hle : 256 ^ 4 ≤ layout.modulus := Nat.pow_le_pow_right (by omega) layout.word_le
  omega

/-! ## The exit of a call -/

theorem Inv.exit_finish (h : Inv layout w)
    (hsound : s.Sound w) (hexit : exitStart layout s.result s.memory p.state = (state, false))
    (hidle : state.chainState = .CS_IDLE)
    (hhonest : Honest layout ⟨call, call.file.map s.file, s.result, s.memory, s.result, s.memory⟩) :
    Inv layout (exit layout w pid p call s) := by
  have hfinish : exit layout w pid p call s =
      World.finish { w with file := s.file, next := s.next } pid
        { p with memory := s.memory, fds := s.fds, state := state }
        ⟨call, call.file.map s.file, s.result, s.memory, s.result, s.memory⟩ := by
    unfold exit
    rw [hexit]
    rfl
  rw [hfinish]
  have hg := hsound.grows
  refine h.update ⟨hg.next, hg.link, hg.emulated⟩ (fun _ => rfl) hsound.files hsound.opened
    (.running hidle) ?_
  intro f hf
  rcases List.mem_cons.mp hf with rfl | hf
  · exact hhonest
  · exact h.honest f hf

theorem exitStart_idle (h : state.chainState = .CS_IDLE) (result : Nat)
    (m : Memory) : exitStart layout result m state = (state, false) := by
  simp only [exitStart, h]

theorem exitStart_entered (h : state.chainState = .CS_STAT_ENTERED)
    {result : Nat} (hno : result ≠ 0 ∨ peekWord layout m state.addr ≠ 0) :
    exitStart layout result m state = ({ state with chainState := .CS_IDLE }, false) := by
  simp only [exitStart, h, handleStatExit]
  rw [if_pos hno]

theorem exitStart_zero (h : state.chainState = .CS_STAT_ENTERED) (hzero : peekWord layout m state.addr = 0) :
    exitStart layout 0 m state = ({ state with chainState := .CS_STAT_CHAINED_IOCTL }, true) := by
  simp only [exitStart, h, handleStatExit]
  rw [if_neg fun hno => hno.elim (absurd rfl) (absurd hzero)]

theorem Inv.exits_other (h : Inv layout w) (hp : w.process pid = some p)
    (hcall : IsStat call.request.sysnum ∨ IsTruncate call.request.sysnum)
    (hregs : call.regs = call.request) (hidle : p.state.chainState = .CS_IDLE)
    (hmemory : p.memory = call.before)
    (hfile : ∀ id ∈ call.file, id < w.next ∧ (w.file id).emulated = false)
    (hk : kernel layout w p call outcome = some s) : Inv layout (exit layout w pid p call s) := by
  obtain ⟨hsound, hsame, hwrites⟩ := kernel_other h hp (hregs ▸ hcall) hk
  refine h.exit_finish hsound (exitStart_idle hidle _ _) hidle ?_
  have hemulated : ∀ file ∈ call.file.map s.file, file.emulated = false := by
    intro file hmem
    obtain ⟨id, hid, rfl⟩ := Option.mem_map.mp hmem
    rw [hsame]
    exact (hfile id hid).2
  constructor
  · exact fun _ _ => ⟨hregs, rfl, rfl⟩
  · intro hmemfd
    rw [hmemfd] at hcall
    exact absurd hcall (by decide)
  · exact fun htruncate => ⟨rfl, (hwrites (hregs ▸ htruncate)).trans hmemory⟩
  · intro _ file hmem hyes
    rw [hemulated file hmem] at hyes
    cases hyes

theorem Inv.exits_memfdCreate (h : Inv layout w) (hp : w.process pid = some p)
    (hstage : p.stage = .entered call) (hrequest : call.request.sysnum = .PR_memfd_create)
    (hsysnum : call.regs.sysnum = .PR_memfd_create ∨ call.regs.sysnum = .PR_openat ∧
      (call.fromSigsys = false → p.memory.load call.regs.arg2 12 = some (devAshmem ++ [0])))
    (hidle : p.state.chainState = .CS_IDLE)
    (hmemory : ∀ x, (∀ a ∈ call.scratch, x < a ∨ a + 12 ≤ x) →
      p.memory.byte? x = call.before.byte? x)
    (hok : Ok layout w (.exits pid outcome)) (hk : kernel layout w p call outcome = some s) :
    Inv layout (exit layout w pid p call s) := by
  obtain ⟨hsound, hwrites⟩ := kernel_memfdCreate h hp hstage hsysnum hok hk
  refine h.exit_finish hsound (exitStart_idle hidle _ _) hidle ?_
  constructor
  · exact fun hne => absurd hrequest hne
  · intro _
    refine ⟨rfl, fun x hx => ?_⟩
    show s.memory.byte? x = _
    rw [hwrites]
    exact hmemory x hx
  · intro htruncate
    rw [hrequest] at htruncate
    exact absurd htruncate (by decide)
  · intro hstat
    rw [hrequest] at hstat
    exact absurd hstat (by decide)

/-- The exit of a call that sets the length of a memory file. -/
theorem Inv.exits_truncate (h : Inv layout w) (hp : w.process pid = some p)
    (hstage : p.stage = .entered call) (hcall : IsTruncate call.request.sysnum)
    (hregs : call.regs = { call.request with
      sysnum := .PR_ioctl, arg3 := call.request.arg2, arg2 := layout.ashmemSetSize })
    (hfile : call.file = some id) (hopen : p.open? (int call.regs.arg1) = some id)
    (hid : MemoryFile w id) (hlength : call.request.length layout = call.request.arg2)
    (hlt : call.request.arg2 < 2 ^ 32) (hstate : p.state.chainState = .CS_STAT_ENTERED)
    (haddr : p.state.addr = (layout.ashmemSetSize + layout.stSize) % layout.modulus)
    (hmemory : p.memory = call.before) (hok : Ok layout w (.exits pid outcome))
    (hk : kernel layout w p call outcome = some s) : Inv layout (exit layout w pid p call s) := by
  have hsysnum : call.regs.sysnum = .PR_ioctl := by rw [hregs]
  have hset : IsSetSize layout call.regs := ⟨hsysnum, by rw [hregs]⟩
  have hno : ¬ IsStat call.regs.sysnum := by
    rw [hsysnum]
    decide
  have hserved : s.Sound w ∧ s.memory = p.memory ∧
      (s.result ≠ 0 ∨ peekWord layout s.memory p.state.addr ≠ 0) := by
    cases outcome with
    | fails errno bytes =>
        obtain ⟨herrno, rfl⟩ := kernel_fails hk
        exact ⟨h.served hp _ _, if_neg hno, .inl (error_ne_zero layout herrno)⟩
    | truncates =>
        simp only [kernel, hopen, Option.bind_some] at hk
        rw [if_pos ⟨hset, hid.link⟩] at hk
        cases hk
        have hsize : call.regs.arg3 = call.request.arg2 := by rw [hregs]
        have hnonzero := (hok p call hp hstage).2 hset rfl
        rw [hsize, hlength]
        refine ⟨h.served_truncates hp hid p.memory hlt, rfl, .inr ?_⟩
        rw [haddr]
        exact hnonzero
    | stats bytes =>
        simp only [kernel] at hk
        rw [if_neg fun hstat => hno hstat.1] at hk
        cases hk
    | opens fd link =>
        simp only [kernel, hsysnum] at hk
        rw [if_neg fun hopens => hopens.2.2.elim (absurd ·.1 (by decide)) (absurd ·.1 (by decide))]
          at hk
        cases hk
  obtain ⟨hsound, hwrites, hnonzero⟩ := hserved
  refine h.exit_finish hsound (exitStart_entered hstate hnonzero) rfl ?_
  constructor
  · intro _ hordinary
    have hyes := (hsound.grows.emulated id hid.old).trans hid.emulated
    have hno := hordinary (s.file id) (Option.mem_map_of_mem s.file hfile)
    exact absurd (hno.symm.trans hyes) Bool.false_ne_true
  · intro hmemfd
    rw [hmemfd] at hcall
    exact absurd hcall (by decide)
  · exact fun _ => ⟨rfl, hwrites.trans hmemory⟩
  · exact fun hstat => absurd hcall (not_isTruncate hstat)

theorem kernel_stat (hcall : IsStat call.regs.sysnum)
    (hk : kernel layout w p call outcome = some s) :
    (∃ errno memory, errno < 4096 ∧ s = ⟨layout.modulus - errno, memory, p.fds, w.file, w.next⟩) ∨
      ∃ bytes, bytes.length = (layout.stat call.regs.sysnum).size ∧
        call.regs.buffer + (layout.stat call.regs.sysnum).size ≤ layout.modulus ∧
        (p.memory.store call.regs.buffer bytes).2 = true ∧
        (((p.about call.regs).map fun id => (w.file id).link) = some devAshmem →
          (bytes.drop (layout.stat call.regs.sysnum).stSize).take
              (layout.stat call.regs.sysnum).width =
            List.replicate (layout.stat call.regs.sysnum).width 0) ∧
        s = ⟨0, (p.memory.store call.regs.buffer bytes).1, p.fds, w.file, w.next⟩ := by
  have hno : ¬ IsTruncate call.regs.sysnum ∧ call.regs.sysnum ≠ .PR_ioctl ∧
      call.regs.sysnum ≠ .PR_openat ∧ call.regs.sysnum ≠ .PR_memfd_create := by
    rcases hcall with hs | hs | hs | hs <;> rw [hs] <;> decide
  cases outcome with
  | fails errno bytes =>
      obtain ⟨herrno, hs⟩ := kernel_fails hk
      exact .inl ⟨errno, _, herrno, hs⟩
  | truncates =>
      obtain ⟨id, -, hk⟩ := Option.bind_eq_some_iff.mp hk
      simp only at hk
      rw [if_neg fun hset => hno.2.1 hset.1.1, if_neg fun htruncate => hno.1 htruncate.1] at hk
      cases hk
  | stats bytes =>
      simp only [kernel] at hk
      split at hk
      case isFalse hwrong => cases hk
      case isTrue hstats =>
        obtain ⟨-, hlength, hfits, hstored, hzeros⟩ := hstats
        exact .inr ⟨bytes, hlength, hfits, hstored, hzeros, (Option.some.inj hk).symm⟩
  | opens fd link =>
      simp only [kernel] at hk
      rw [if_neg fun hopens =>
        hopens.2.2.elim (fun hs => hno.2.2.1 hs.1) fun hs => hno.2.2.2 hs.1] at hk
      cases hk

theorem load_stored {stat : StatLayout} {bytes : Bytes}
    (hlength : bytes.length = stat.size) (hstored : (m.store a bytes).2 = true)
    (hzeros : (bytes.drop stat.stSize).take stat.width = List.replicate stat.width 0) :
    (m.store a bytes).1.load (a + stat.stSize) stat.width =
      some (List.replicate stat.width 0) := by
  have hfits := stat.fits
  have hwhole := Memory.load_store hstored
  rw [hlength] at hwhole
  have hrest := Memory.load_drop hwhole (show stat.stSize ≤ stat.size by omega)
  rw [Memory.load_take hrest (by omega), hzeros]

/-- The exit of a call that stores the structure of a memory file. -/
theorem Inv.exits_stat (h : Inv layout w) (hp : w.process pid = some p)
    (hcall : IsStat call.request.sysnum) (hregs : call.regs = call.request)
    (hfile : call.file = some id) (habout : p.about call.request = some id)
    (hopen : p.open? p.state.fd = some id) (hid : MemoryFile w id)
    (hlayout : (layout.stat call.request.sysnum).stSize = layout.stSize)
    (hstate : p.state.chainState = .CS_STAT_ENTERED)
    (haddr : p.state.addr = (call.request.buffer + layout.stSize) % layout.modulus)
    (hk : kernel layout w p call outcome = some s) : Inv layout (exit layout w pid p call s) := by
  rcases kernel_stat (hregs ▸ hcall) hk with ⟨errno, memory, herrno, rfl⟩ |
    ⟨bytes, hlength, hfits, hstored, hzeros, rfl⟩
  · have hnonzero := error_ne_zero layout herrno
    refine h.exit_finish (h.served hp _ _) (exitStart_entered hstate (.inl hnonzero)) rfl ?_
    constructor
    · exact fun _ _ => ⟨hregs, rfl, rfl⟩
    · intro hmemfd
      rw [hmemfd] at hcall
      exact absurd hcall (by decide)
    · exact fun htruncate => absurd htruncate (not_isTruncate hcall)
    · exact fun _ _ _ _ => ⟨fun _ => ⟨rfl, rfl⟩, fun hzero => absurd hzero hnonzero⟩
  · rw [hregs] at hlength hfits hstored hzeros ⊢
    generalize hstat : layout.stat call.request.sysnum = stat at *
    have hlt : call.request.buffer + stat.stSize < layout.modulus := by
      have := stat.fits
      have := stat.wide
      omega
    have haddr' : p.state.addr = call.request.buffer + stat.stSize := by
      rw [haddr, ← hlayout, Nat.mod_eq_of_lt hlt]
    have hload := load_stored hlength hstored
      (hzeros (by rw [habout, Option.map_some, hid.link]))
    have hpeek : peekWord layout (p.memory.store call.request.buffer bytes).1 p.state.addr = 0 := by
      rw [haddr']
      exact peekWord_zeros hload (hstat ▸ layout.sizeofWord_le _)
    have hchained : exit layout w pid p call
        ⟨0, (p.memory.store call.request.buffer bytes).1, p.fds, w.file, w.next⟩ =
        w.set pid { p with
          memory := (p.memory.store call.request.buffer bytes).1
          state := { p.state with chainState := .CS_STAT_CHAINED_IOCTL }
          stage := .chained call (p.memory.store call.request.buffer bytes).1 } := by
      simp only [exit, exitStart_zero hstate hpeek]
      rfl
    rw [hchained]
    refine h.set (h.opened pid p hp) ?_
    subst hstat
    refine .chained hcall hfile hopen hid rfl haddr' ?_
    show (p.memory.store call.request.buffer bytes).1.load p.state.addr _ = _
    rw [haddr']
    exact hload

theorem Inv.exits (h : Inv layout w) (hp : w.process pid = some p)
    (hstage : p.stage = .entered call) (hok : Ok layout w (.exits pid outcome))
    (hk : kernel layout w p call outcome = some s) : Inv layout (exit layout w pid p call s) := by
  have hat := h.stages pid p hp
  rw [hstage] at hat
  cases hat with
  | other hcall hregs hidle hmemory hfile =>
      exact h.exits_other hp hcall hregs hidle hmemory hfile hk
  | memfdCreate hrequest hsysnum hidle hmemory =>
      exact h.exits_memfdCreate hp hstage hrequest hsysnum hidle hmemory hok hk
  | truncate hcall hregs hfile hopen hid hlength hlt hstate haddr hmemory =>
      exact h.exits_truncate hp hstage hcall hregs hfile hopen hid hlength hlt hstate haddr hmemory
        hok hk
  | stat hcall hregs hfile habout hopen hid hlayout hstate haddr =>
      exact h.exits_stat hp hcall hregs hfile habout hopen hid hlayout hstate haddr hk

/-- **The exit of the chained `ioctl`**: the size goes where the kernel has stored a zero. -/
theorem Inv.chainedExits {kernelMemory : Memory} (h : Inv layout w)
    (hp : w.process pid = some p) (hstage : p.stage = .chained call kernelMemory) :
    Inv layout (leaveChained layout w pid p call kernelMemory) := by
  have hat := h.stages pid p hp
  rw [hstage] at hat
  cases hat with
  | @chained _ id hcall hfile hopen hid hstate haddr hzeros =>
      obtain ⟨-, hsize, hlt⟩ := h.files id hid.old hid.emulated
      have hget : getSize layout w p p.state.fd = (w.file id).truncated := by
        simp only [getSize, hopen]
        rw [if_pos hid.link, hsize]
      have hleave : leaveChained layout w pid p call p.memory =
          w.finish pid { p with
              memory := (p.memory.store p.state.addr (le 4 (w.file id).truncated)).1
              state := { p.state with chainState := .CS_IDLE } }
            ⟨call, call.file.map w.file, 0, p.memory, 0,
              (p.memory.store p.state.addr (le 4 (w.file id).truncated)).1⟩ := by
        simp only [leaveChained, chainedExit, hget]
        rw [if_pos hstate]
      rw [hleave]
      refine h.update ⟨Nat.le_refl _, fun _ _ => rfl, fun _ _ => rfl⟩ (fun _ => rfl) h.files
        (h.opened pid p hp) (.running rfl) fun f hf => ?_
      rcases List.mem_cons.mp hf with rfl | hf
      swap
      · exact h.honest f hf
      constructor
      · intro _ hordinary
        have hno := hordinary (w.file id) (Option.mem_map_of_mem w.file hfile)
        exact absurd (hno.symm.trans hid.emulated) Bool.false_ne_true
      · intro hmemfd
        change call.request.sysnum = _ at hmemfd
        rw [hmemfd] at hcall
        exact absurd hcall (by decide)
      · exact fun htruncate => absurd htruncate (not_isTruncate hcall)
      · intro _ file hmem _
        change file ∈ call.file.map w.file at hmem
        rw [hfile] at hmem
        cases hmem
        refine ⟨fun hnonzero => absurd rfl hnonzero, fun _ => ⟨rfl, ?_⟩⟩
        show (p.memory.store p.state.addr _).1 = (p.memory.store _ _).1
        rw [store_four hzeros (layout.stat _).wide hlt, haddr]

/-! ## The fork -/

theorem zeroSysnum_mem (arch : Syscall.Arch) (abi : Syscall.Abi) :
    zeroSysnum arch abi ∈ [.PR_read, .PR_restart_syscall, .PR_io_setup, .PR_void] := by
  cases arch <;> cases abi <;> decide

/-- **The child of a fork** begins with nothing under way, although `INHERIT_CHILD` goes on into the
case of a system call. -/
theorem child_eq (layout : Layout) (w : World) (p : Process) (arch : Syscall.Arch)
    (abi : Syscall.Abi) : p.child layout w arch abi =
      { p with state := ⟨p.state.memfdSupported, .CS_IDLE, 0, 0⟩, stage := .running } := by
  have hmem := zeroSysnum_mem arch abi
  simp only [List.mem_cons, List.not_mem_nil, or_false] at hmem
  unfold Process.child inheritChild
  rcases hmem with h | h | h | h <;> simp only [handleSyscall, h]

/-! ## The runs -/

/-- Only a tracee with no call in flight takes these steps. -/
theorem Inv.running {pid : Nat} {f : Process → Option World} (h : Inv layout w)
    (hstep : ((w.process pid).bind fun p =>
      match p.stage with
      | .running => f p
      | _ => none) = some w') :
    ∃ p, w.process pid = some p ∧ p.stage = .running ∧ p.state.chainState = .CS_IDLE ∧
      f p = some w' := by
  obtain ⟨p, hp, hstep⟩ := Option.bind_eq_some_iff.mp hstep
  have hat := h.stages pid p hp
  split at hstep
  case h_2 => cases hstep
  case h_1 hstage =>
    rw [hstage] at hat
    cases hat with
    | running hidle => exact ⟨p, hp, hstage, hidle, hstep⟩

theorem Inv.step {e : Event} (h : Inv layout w) (hok : Ok layout w e)
    (hstep : step layout w e = some w') : Inv layout w' := by
  cases e with
  | runs pid memory =>
      obtain ⟨p, hp, hstage, hidle, hnew⟩ := h.running hstep
      cases hnew
      refine h.set (h.opened pid p hp) ?_
      show AtStage layout w _ p.stage
      rw [hstage]
      exact .running hidle
  | moves pid fd file =>
      obtain ⟨p, hp, hstage, hidle, hnew⟩ := h.running hstep
      split at hnew
      case isFalse hnone => cases hnew
      case isTrue hold =>
        cases hnew
        refine h.set (fun other id hid => ?_) ?_
        · change (if other = fd then file else p.fds other) = some id at hid
          split at hid
          · exact hold id hid
          · exact h.opened pid p hp other id hid
        · show AtStage layout w _ p.stage
          rw [hstage]
          exact .running hidle
  | opens pid fd link =>
      obtain ⟨p, hp, hstage, hidle, hnew⟩ := h.running hstep
      cases hnew
      have hopens : Served.Sound _ w := h.served_opens hp fd p.memory link false
        fun hemulated => by cases hemulated
      have hg := hopens.grows
      refine h.update ⟨hg.next, hg.link, hg.emulated⟩ (fun _ => rfl) hopens.files
        hopens.opened ?_ h.honest
      show AtStage layout _ _ p.stage
      rw [hstage]
      exact .running hidle
  | enters pid regs alloc =>
      obtain ⟨p, hp, -, hidle, hnew⟩ := h.running hstep
      split at hnew
      case isFalse hother => cases hnew
      case isTrue hcall =>
        cases hnew
        exact h.enters hp hidle hcall hok
  | sigsys pid regs alloc =>
      obtain ⟨p, hp, -, hidle, hnew⟩ := h.running hstep
      split at hnew
      case isFalse hother => cases hnew
      case isTrue hsysnum =>
        cases hnew
        refine h.set (h.opened pid p hp) ?_
        exact atStage_memfdCreate hsysnum hidle fun hfalse => by cases hfalse
  | exits pid outcome =>
      obtain ⟨p, hp, hstep⟩ := Option.bind_eq_some_iff.mp hstep
      split at hstep
      case h_2 => cases hstep
      case h_1 call hstage =>
        obtain ⟨s, hk, rfl⟩ := Option.map_eq_some_iff.mp hstep
        exact h.exits hp hstage hok hk
  | chainedExits pid =>
      obtain ⟨p, hp, hstep⟩ := Option.bind_eq_some_iff.mp hstep
      split at hstep
      case h_2 => cases hstep
      case h_1 call kernelMemory hstage =>
        cases hstep
        exact h.chainedExits hp hstage
  | forks pid child arch abi =>
      obtain ⟨p, hp, hstep⟩ := Option.bind_eq_some_iff.mp hstep
      split at hstep
      case h_2 => cases hstep
      case h_1 hchild =>
        cases hstep
        rw [child_eq]
        exact h.set (h.opened pid p hp) (.running rfl)

theorem step_independent {e : Event} (hstep : step layout w e = some w') : Independent w e w' := by
  cases e with
  | forks pid child arch abi =>
      obtain ⟨p, hp, hstep⟩ := Option.bind_eq_some_iff.mp hstep
      split at hstep
      case h_2 => cases hstep
      case h_1 hchild =>
        cases hstep
        rw [child_eq]
        refine ⟨fun q hq => if_neg hq, fun pid' child' arch' abi' heq => ?_⟩
        cases heq
        exact ⟨p, _, hp, if_pos rfl, rfl, rfl, rfl, rfl⟩
  | exits pid outcome =>
      obtain ⟨p, hp, hstep⟩ := Option.bind_eq_some_iff.mp hstep
      refine ⟨fun q hq => ?_, fun pid' child' arch' abi' heq => by cases heq⟩
      split at hstep
      case h_2 => cases hstep
      case h_1 call hstage =>
        obtain ⟨s, hk, rfl⟩ := Option.map_eq_some_iff.mp hstep
        unfold exit
        simp only
        split
        · exact if_neg hq
        · exact if_neg hq
  | _ =>
      obtain ⟨p, hp, hstep⟩ := Option.bind_eq_some_iff.mp hstep
      refine ⟨fun q hq => ?_, fun pid' child' arch' abi' heq => by cases heq⟩
      repeat' split at hstep
      all_goals first
        | contradiction
        | cases hstep
          exact if_neg hq

/-- **Memory files report their true sizes** in every run whose steps meet the condition, and the
tracees are independent of one another. -/
theorem memfd_honest (layout : Layout) {w : World} (h : (system layout).Reach (Ok layout) w) :
    (∀ f ∈ w.finished, Honest layout f) ∧
      ∀ e w', (system layout).step w e = some w' → Independent w e w' := by
  have hinv : Inv layout w :=
    h.invariant (fun _ hinit => Initial.inv hinit) fun _ _ _ hinv hok hstep => hinv.step hok hstep
  exact ⟨hinv.honest, fun _ _ hstep => step_independent hstep⟩

/-- A tracee without descriptors, in whose memory every byte is `b`, where the kernel has no
`memfd_create`. -/
def firstWorld (b : UInt8) : World where
  process pid :=
    if pid = 1 then
      some ⟨fun _ => none, ⟨fun _ => some b, fun _ => true, fun _ _ => rfl⟩,
        ⟨false, .CS_IDLE, 0, 0⟩, .running⟩
    else none
  file _ := ⟨[], 0, false, 0⟩
  next := 0
  finished := []

theorem firstWorld_init (b : UInt8) : (system layoutArm64).init (firstWorld b) where
  files id hid := absurd hid (Nat.not_lt_zero id)
  opened pid p hp fd id hid := by
    change (if pid = 1 then _ else _) = some p at hp
    split at hp
    · cases hp
      cases hid
    · cases hp
  idle pid p hp := by
    change (if pid = 1 then _ else _) = some p at hp
    split at hp
    · cases hp
      exact ⟨rfl, rfl⟩
    · cases hp
  finished := rfl

def createAndTruncate : List Event := [
  .enters 1 ⟨.PR_memfd_create, 0, 0, 0, 0⟩ (some 4096), .exits 1 (.opens 3 devAshmem),
  .enters 1 ⟨.PR_ftruncate, 3, 5, 0, 0⟩ none, .exits 1 .truncates]

/-- **`ftruncate` writes to the memory of the guest**: when a zero word is mapped behind
`ASHMEM_SET_SIZE`, the length goes there. -/
theorem truncate_writes : ¬ ∀ w, (system layoutArm64).Reach System.Always w →
    ∀ f ∈ w.finished, Honest layoutArm64 f := by
  intro h
  obtain ⟨w, hw⟩ := Option.isSome_iff_exists.mp (show ((system layoutArm64).exec (firstWorld 0)
    (createAndTruncate ++ [.chainedExits 1])).isSome = true from rfl)
  have hreach : (system layoutArm64).Reach System.Always w :=
    System.Reach.exec_of (.start (firstWorld_init 0)) (fun _ _ _ => trivial) hw
  have hbytes : w.finished.head?.map (fun f => (f.call.request.sysnum,
      f.memory.byte? 0x40087733, f.call.before.byte? 0x40087733)) =
      some (.PR_ftruncate, some 5, some 0) := by
    have hrun : (((system layoutArm64).exec (firstWorld 0)
        (createAndTruncate ++ [.chainedExits 1])).bind fun w => w.finished.head?).map
        (fun f => (f.call.request.sysnum, f.memory.byte? 0x40087733,
          f.call.before.byte? 0x40087733)) = some (.PR_ftruncate, some 5, some 0) := rfl
    rwa [hw] at hrun
  obtain ⟨f, hf, hbyte⟩ := Option.map_eq_some_iff.mp hbytes
  simp only [Prod.mk.injEq] at hbyte
  obtain ⟨hsysnum, hafter, hbefore⟩ := hbyte
  have hhonest := (h w hreach f (List.mem_of_mem_head? hf)).truncate (.inl hsysnum)
  rw [hhonest.2, hbefore] at hafter
  exact absurd hafter (by decide)

/-- A memory file is created, its length is set to 5, and `fstat` stores it. -/
def createAndStat : List Event := createAndTruncate ++ [
  .enters 1 ⟨.PR_fstat, 3, 4096, 0, 0⟩ none, .exits 1 (.stats (List.replicate 128 0)),
  .chainedExits 1]

/-- The run of `createAndStat`, when no zero is mapped behind `ASHMEM_SET_SIZE`. -/
def afterStat (n : Nat) : World :=
  ((system layoutArm64).exec (firstWorld 1) (createAndStat.take n)).getD (firstWorld 1)

theorem Ok.enters (hp : w.process pid = some p)
    (halloc : regs.sysnum = .PR_memfd_create → ∃ a, alloc = some a ∧ p.memory.Writable a 12)
    (hcovered : ∀ id ∈ p.about regs, Covered layout regs (w.file id)) :
    Ok layout w (.enters pid regs alloc) := by
  intro q hq
  obtain rfl := Option.some.inj (hp.symm.trans hq)
  exact ⟨fun hsysnum _ => halloc hsysnum, fun id hid _ => hcovered id hid⟩

theorem Ok.exits (hp : w.process pid = some p) (hstage : p.stage = .entered call)
    (hsigsys : call.fromSigsys = false) (hpeek : outcome ≠ .truncates ∨
      peekWord layout p.memory ((layout.ashmemSetSize + layout.stSize) % layout.modulus) ≠ 0) :
    Ok layout w (.exits pid outcome) := by
  intro q other hq hother
  obtain rfl := Option.some.inj (hp.symm.trans hq)
  obtain rfl := Stage.entered.inj (hstage.symm.trans hother)
  refine ⟨fun hyes => ?_, fun _ htruncates => hpeek.resolve_left (absurd htruncates)⟩
  rw [hsigsys] at hyes
  cases hyes

set_option maxRecDepth 4000 in
/-- The size that `fstat` stores, in a run that meets the condition. -/
theorem memfd_honest_stat : (∀ f ∈ (afterStat 7).finished, Honest layoutArm64 f) ∧
    (afterStat 7).finished.head?.map (fun f => (f.call.request.sysnum, f.memory.load 4144 8)) =
      some (.PR_fstat, some (le 8 5)) := by
  have hcovered : Covered layoutArm64 ⟨.PR_ftruncate, 3, 5, 0, 0⟩ ((afterStat 2).file 0) :=
    ⟨rfl, fun _ => ⟨rfl, by decide⟩, fun hstat => absurd hstat (by decide)⟩
  have hstat : Covered layoutArm64 ⟨.PR_fstat, 3, 4096, 0, 0⟩ ((afterStat 4).file 0) :=
    ⟨rfl, fun htruncate => absurd htruncate (by decide), fun _ => ⟨.inl rfl, rfl⟩⟩
  have hcreate : Ok layoutArm64 (firstWorld 1)
      (.enters 1 ⟨.PR_memfd_create, 0, 0, 0, 0⟩ (some 4096)) :=
    .enters rfl (fun _ => ⟨4096, rfl, fun _ _ => rfl⟩) fun id hid =>
      absurd hid (Option.not_mem_none id)
  have hopened : Ok layoutArm64 (afterStat 1) (.exits 1 (.opens 3 devAshmem)) :=
    .exits rfl rfl rfl (.inl (by simp))
  have hset : Ok layoutArm64 (afterStat 2) (.enters 1 ⟨.PR_ftruncate, 3, 5, 0, 0⟩ none) :=
    .enters rfl (fun heq => by cases heq) fun id hid => by
      cases hid
      exact hcovered
  have hlength : Ok layoutArm64 (afterStat 3) (.exits 1 .truncates) :=
    .exits rfl rfl rfl (.inr (by decide))
  have hask : Ok layoutArm64 (afterStat 4) (.enters 1 ⟨.PR_fstat, 3, 4096, 0, 0⟩ none) :=
    .enters rfl (fun heq => by cases heq) fun id hid => by
      cases hid
      exact hstat
  have hstored : Ok layoutArm64 (afterStat 5) (.exits 1 (.stats (List.replicate 128 0))) :=
    .exits rfl rfl rfl (.inl (by simp))
  have hreach : (system layoutArm64).Reach (Ok layoutArm64) (afterStat 7) := by
    apply System.Reach.next _ (show Ok _ (afterStat 6) (.chainedExits 1) from trivial) rfl
    apply System.Reach.next _ hstored rfl
    apply System.Reach.next _ hask rfl
    apply System.Reach.next _ hlength rfl
    apply System.Reach.next _ hset rfl
    apply System.Reach.next _ hopened rfl
    exact .next (.start (firstWorld_init 1)) hcreate rfl
  exact ⟨(memfd_honest layoutArm64 hreach).1, rfl⟩

end Improot.Extension.Ashmem
