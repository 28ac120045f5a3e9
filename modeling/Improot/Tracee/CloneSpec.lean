import Improot.Lib.Transition
import Improot.Tracee.Clone

/-!
# Sharing as the clone flags say

The kernel keeps one object for the file-system information, one for the memory and one for the
mounts of a process, and a call that creates a process shares or duplicates each of them by its
flags. The objects that the tracees refer to are compared with these: in every run, the same tracees
share.
-/

namespace Improot.Tracee

open Improot.Path (Bindings Comp World DirFd)
open Improot.Syscall
open Lib (SameSharing HandlesBelow)

variable {w : Nat}

/-! ## Flags -/

theorem Flags.has_strip {flag : Flags} (h : ~~~cloneNsMask &&& flag = flag) (flags : Flags) :
    flags.strip.has flag = flags.has flag := by
  rw [Flags.has, Flags.strip, BitVec.and_assoc, h, Flags.has]

theorem CloneCall.flags_strip_fs (call : CloneCall) :
    call.strip.flags.has cloneFs = call.flags.has cloneFs := by
  cases call with
  | fork | vfork => rfl
  | clone flags => exact Flags.has_strip (by decide) flags
  | clone3 flags => exact Flags.has_strip (by decide) flags

theorem CloneCall.flags_strip_vm (call : CloneCall) :
    call.strip.flags.has cloneVm = call.flags.has cloneVm := by
  cases call with
  | fork | vfork => rfl
  | clone flags => exact Flags.has_strip (by decide) flags
  | clone3 flags => exact Flags.has_strip (by decide) flags

/-! ## The kernel -/

/-- The objects of the processes, and the calls that create a process. -/
structure Shares where
  fs : Nat → Nat
  mm : Nat → Nat
  ns : Nat → Nat
  request : Nat → Option CloneCall
  next : Nat

/-- What may differ from one account of the kernel to another: which flags of a call give the child
its own mounts, and whether unshare(2) has an effect. -/
structure Rules where
  newns : Flags → Bool
  unshares : Bool

/-- The flags by which the kernel goes; a vfork(2) shares the memory. -/
def CloneCall.kernelFlags : CloneCall → Flags
  | fork => 0
  | vfork => cloneVm ||| cloneVfork
  | clone flags | clone3 flags => flags

def Shares.step (rules : Rules) (k : Shares) : Event w → Shares
  | .enter pid call => { k with request := Function.update k.request pid (some call) }
  | .fail pid => { k with request := Function.update k.request pid none }
  | .newChild parent child =>
    match k.request parent with
    | none => k
    | some call =>
      let flags := call.kernelFlags
      let pick (shared : Bool) (object : Nat → Nat) : Nat → Nat :=
        Function.update object child (if shared then object parent else k.next)
      { fs := pick (flags.has cloneFs) k.fs
        mm := pick (flags.has cloneVm) k.mm
        ns := pick (! rules.newns flags) k.ns
        request := Function.update (Function.update k.request parent none) child none
        next := k.next + 1 }
  | .unshare pid flags =>
    let pick (shared : Bool) (object : Nat → Nat) : Nat → Nat :=
      if shared then object else Function.update object pid k.next
    { k with
      fs := pick (! (rules.unshares && flags.has cloneFs)) k.fs
      ns := pick (! (rules.unshares && flags.has cloneNewns)) k.ns
      next := k.next + 1 }
  | .execve pid succeeds =>
    if succeeds then { k with mm := Function.update k.mm pid k.next, next := k.next + 1 } else k
  | .chdir .. | .brk .. | .mount .. => k

/-- The tracees and the kernel, step by step; there is one tracee at first. -/
def system (w : Nat) (rules : Rules) : Lib.System (Tracees w × Shares) (Event w) where
  init sk := ∃ pid, sk.1.pids = [pid] ∧ (sk.1.process pid).call = none ∧
    (sk.1.process pid).cloneStrippedNewns = false ∧ sk.2.request pid = none ∧
    sk.1.fsOf pid < sk.1.next ∧ sk.1.heapOf pid < sk.1.next ∧ sk.1.listsOf pid < sk.1.next ∧
    sk.2.fs pid < sk.2.next ∧ sk.2.mm pid < sk.2.next ∧ sk.2.ns pid < sk.2.next
  step sk e := (sk.1.step e).map fun s => (s, sk.2.step rules e)

def documented : Rules := ⟨fun flags => flags.has cloneNewns, true⟩

/-- The kernel that PRoot pretends: unshare(2) does nothing, and a child that shares the file-system
information of its parent shares its mounts. -/
def pretended : Rules := ⟨fun flags => flags.has cloneNewns && ! flags.has cloneFs, false⟩

/-! ## Agreement -/

/-- The same tracees share the same objects, and the flag of a parent tells what its call asks for.
-/
structure Agree (sk : Tracees w × Shares) : Prop where
  fs : SameSharing (· ∈ sk.1.pids) sk.1.fsOf sk.2.fs
  heap : SameSharing (· ∈ sk.1.pids) sk.1.heapOf sk.2.mm
  lists : SameSharing (· ∈ sk.1.pids) sk.1.listsOf sk.2.ns
  fs_below : HandlesBelow (· ∈ sk.1.pids) sk.1.fsOf sk.1.next
  heap_below : HandlesBelow (· ∈ sk.1.pids) sk.1.heapOf sk.1.next
  lists_below : HandlesBelow (· ∈ sk.1.pids) sk.1.listsOf sk.1.next
  kernel_fs_below : HandlesBelow (· ∈ sk.1.pids) sk.2.fs sk.2.next
  kernel_mm_below : HandlesBelow (· ∈ sk.1.pids) sk.2.mm sk.2.next
  kernel_ns_below : HandlesBelow (· ∈ sk.1.pids) sk.2.ns sk.2.next
  calls : ∀ p ∈ sk.1.pids, (sk.1.process p).call = (sk.2.request p).map CloneCall.strip
  flag : ∀ p ∈ sk.1.pids, (sk.1.process p).cloneStrippedNewns = true ↔
    ∃ call, sk.2.request p = some call ∧ call.newns = true
  no_vfork : ∀ p ∈ sk.1.pids, sk.2.request p ≠ some .vfork

/-- Every object that a tracee refers to is below the next one. -/
structure Allocated (s : Tracees w) : Prop where
  fs : HandlesBelow (· ∈ s.pids) s.fsOf s.next
  heap : HandlesBelow (· ∈ s.pids) s.heapOf s.next
  lists : HandlesBelow (· ∈ s.pids) s.listsOf s.next

theorem Agree.allocated {sk : Tracees w × Shares} (h : Agree sk) : Allocated sk.1 :=
  ⟨h.fs_below, h.heap_below, h.lists_below⟩

/-- The steps the promise is about: no vfork(2), and no call with `CLONE_NEWNS` fails. -/
def Kept (sk : Tracees w × Shares) : Event w → Prop
  | .enter _ call => call ≠ .vfork
  | .fail pid => ∀ call, sk.2.request pid = some call → call.newns = false
  | _ => True

theorem agree_init {rules : Rules} {sk : Tracees w × Shares} (h : (system w rules).init sk) :
    Agree sk := by
  obtain ⟨pid, hpids, hcall, hflag, hrequest, hfs, hheap, hlists, hkfs, hkmm, hkns⟩ := h
  have hone : ∀ p, p ∈ sk.1.pids ↔ p = pid := by simp [hpids]
  have hsame : ∀ {h k : Nat → Nat}, SameSharing (· ∈ sk.1.pids) h k := by
    intro h k p q hp hq
    rw [(hone p).mp hp, (hone q).mp hq]
    simp
  have hbelow : ∀ {h : Nat → Nat} {n : Nat}, h pid < n → HandlesBelow (· ∈ sk.1.pids) h n := by
    intro h n hlt p hp
    rwa [(hone p).mp hp]
  refine ⟨hsame, hsame, hsame, hbelow hfs, hbelow hheap, hbelow hlists, hbelow hkfs, hbelow hkmm,
    hbelow hkns, ?_, ?_, ?_⟩
  all_goals
    intro p hp
    obtain rfl := (hone p).mp hp
    simp [hcall, hflag, hrequest]

/-! ## The objects after a step -/

namespace Tracees

variable (s : Tracees w) {pid parent child q : Nat} {call : CloneCall}

theorem fsOf_update {tracee : Process} (h : tracee.fs = (s.process pid).fs) (q : Nat) :
    (Function.update s.process pid tracee q).fs = s.fsOf q := by
  rw [fsOf, Function.update_apply]
  split_ifs with hq
  · rw [h, hq]
  · rfl

theorem heapOf_update {tracee : Process} (h : tracee.heap = (s.process pid).heap) (q : Nat) :
    (Function.update s.process pid tracee q).heap = s.heapOf q := by
  rw [heapOf, Function.update_apply]
  split_ifs with hq
  · rw [h, hq]
  · rfl

theorem newChild_process (hq : q ≠ child) :
    (s.newChild parent child call).process q =
      Function.update s.process parent
        { s.process parent with cloneStrippedNewns := false, call := none } q :=
  Function.update_of_ne hq _ _

theorem newChild_fsOf (hq : q ≠ child) : (s.newChild parent child call).fsOf q = s.fsOf q := by
  rw [fsOf, newChild_process s hq]
  apply fsOf_update
  rfl

theorem newChild_heapOf (hq : q ≠ child) : (s.newChild parent child call).heapOf q = s.heapOf q := by
  rw [heapOf, newChild_process s hq]
  apply heapOf_update
  rfl

theorem newChild_fs {n : Nat} (hn : n < s.next) : (s.newChild parent child call).fs n = s.fs n := by
  cases hfs : call.flags.has cloneFs with
  | true => simp only [newChild, hfs, if_true]
  | false =>
      simp only [newChild, hfs, Bool.false_eq_true, if_false]
      exact Function.update_of_ne (Nat.ne_of_lt hn) _ _

theorem newChild_listsOf (hq : q ≠ child) (hn : s.fsOf q < s.next) :
    (s.newChild parent child call).listsOf q = s.listsOf q := by
  rw [listsOf, newChild_fsOf s hq, newChild_fs s hn, listsOf]

theorem newChild_fsOf_child : (s.newChild parent child call).fsOf child =
    if call.flags.has cloneFs then s.fsOf parent else s.next := by
  simp [fsOf, newChild]

theorem newChild_heapOf_child : (s.newChild parent child call).heapOf child =
    if call.flags.has cloneVm then s.heapOf parent else s.next := by
  simp [heapOf, newChild]

/-- **The lists of a new child**: its own copy when its parent asked for mounts of its own and the
name-space isn't shared, else those of its parent. -/
theorem newChild_listsOf_child : (s.newChild parent child call).listsOf child =
    if ¬ call.flags.has cloneFs ∧ (s.process parent).cloneStrippedNewns then s.next
    else s.listsOf parent := by
  rw [listsOf, newChild_fsOf_child]
  cases hfs : call.flags.has cloneFs with
  | true => simp [newChild, hfs, listsOf]
  | false =>
      simp only [newChild, hfs, Bool.false_eq_true, if_false, Function.update_self, not_false_eq_true,
        true_and]

end Tracees

/-! ## Steps -/

variable {e : Event w}

section Steps

variable {s : Tracees w} {k : Shares} {pid parent child : Nat} {call : CloneCall}

theorem Agree.of_record (h : Agree (s, k)) {tracee : Process} {request : Option CloneCall}
    (hfs : tracee.fs = (s.process pid).fs) (hheap : tracee.heap = (s.process pid).heap)
    (hcall : tracee.call = request.map CloneCall.strip)
    (hflag : tracee.cloneStrippedNewns = true ↔ ∃ call, request = some call ∧ call.newns = true)
    (hvfork : request ≠ some .vfork) :
    Agree ({ s with process := Function.update s.process pid tracee },
      { k with request := Function.update k.request pid request }) := by
  have hfsOf : ∀ q, Tracees.fsOf { s with process := Function.update s.process pid tracee } q =
      s.fsOf q := Tracees.fsOf_update s hfs
  have hheapOf : ∀ q, Tracees.heapOf { s with process := Function.update s.process pid tracee } q =
      s.heapOf q := Tracees.heapOf_update s hheap
  have hlistsOf : ∀ q, Tracees.listsOf { s with process := Function.update s.process pid tracee } q =
      s.listsOf q := fun q => congrArg (fun n => (s.fs n).bindings) (hfsOf q)
  refine ⟨h.fs.congr (fun q _ => hfsOf q) fun _ _ => rfl,
    h.heap.congr (fun q _ => hheapOf q) fun _ _ => rfl,
    h.lists.congr (fun q _ => hlistsOf q) fun _ _ => rfl,
    fun q hq => ?_, fun q hq => ?_, fun q hq => ?_, h.kernel_fs_below, h.kernel_mm_below,
    h.kernel_ns_below, fun q hq => ?_, fun q hq => ?_, fun q hq => ?_⟩
  · rw [hfsOf]
    exact h.fs_below q hq
  · rw [hheapOf]
    exact h.heap_below q hq
  · rw [hlistsOf]
    exact h.lists_below q hq
  · by_cases hqp : q = pid
    · simp [hqp, hcall]
    · simpa [hqp] using h.calls q hq
  · by_cases hqp : q = pid
    · simp [hqp, hflag]
    · simpa [hqp] using h.flag q hq
  · by_cases hqp : q = pid
    · simp [hqp, hvfork]
    · simpa [hqp] using h.no_vfork q hq

theorem Agree.enterClone (h : Agree (s, k)) (hpid : pid ∈ s.pids)
    (hnone : (s.process pid).call = none) (hvfork : call ≠ .vfork) :
    Agree (s.enterClone pid call, { k with request := Function.update k.request pid (some call) }) := by
  have hrequest : k.request pid = none := by
    have hcalls := h.calls pid hpid
    rw [hnone] at hcalls
    exact Option.map_eq_none_iff.mp hcalls.symm
  have hflag : (s.process pid).cloneStrippedNewns = false := by
    rw [← Bool.not_eq_true, h.flag pid hpid, hrequest]
    simp
  refine h.of_record rfl rfl rfl ?_ (by simpa using hvfork)
  cases hnewns : call.newns <;> simp [hflag, hnewns]

theorem Agree.failClone (h : Agree (s, k)) (hpid : pid ∈ s.pids)
    (hok : ∀ call, k.request pid = some call → call.newns = false) :
    Agree (s.failClone pid, { k with request := Function.update k.request pid none }) := by
  refine h.of_record rfl rfl rfl ?_ nofun
  simp only [reduceCtorEq, false_and, exists_false, iff_false]
  rw [h.flag pid hpid]
  rintro ⟨call, hcall, hnewns⟩
  rw [hok call hcall] at hnewns
  cases hnewns

theorem request_flags {request : CloneCall} (hvfork : request ≠ .vfork) :
    request.strip.flags.has cloneFs = request.kernelFlags.has cloneFs ∧
      request.strip.flags.has cloneVm = request.kernelFlags.has cloneVm ∧
      request.newns = request.kernelFlags.has cloneNewns := by
  rw [request.flags_strip_fs, request.flags_strip_vm]
  cases request with
  | fork => decide
  | vfork => exact absurd rfl hvfork
  | clone | clone3 => exact ⟨rfl, rfl, rfl⟩

theorem sharing_of_child {h g object : Nat → Nat} {n m : Nat} {shared : Bool}
    (hs : SameSharing (· ∈ s.pids) h object) (hn : HandlesBelow (· ∈ s.pids) h n)
    (hm : HandlesBelow (· ∈ s.pids) object m) (hparent : parent ∈ s.pids)
    (hchild : g child = if shared then h parent else n) (hother : ∀ q ∈ s.pids, q ≠ child → g q = h q) :
    SameSharing (· ∈ child :: s.pids) g
        (Function.update object child (if shared then object parent else m)) ∧
      HandlesBelow (· ∈ child :: s.pids) g (n + 1) ∧
      HandlesBelow (· ∈ child :: s.pids)
        (Function.update object child (if shared then object parent else m)) (m + 1) := by
  have halive : (fun q => q ∈ child :: s.pids) = fun q => q = child ∨ q ∈ s.pids := by
    funext q
    rw [List.mem_cons]
  have hkernel : ∀ q ∈ s.pids, q ≠ child →
      Function.update object child (if shared then object parent else m) q = object q :=
    fun q _ hq => Function.update_of_ne hq _ _
  rw [halive]
  refine ⟨?_, HandlesBelow.insert hn ?_ hother, HandlesBelow.insert hm ?_ hkernel⟩
  · cases shared with
    | true => exact hs.join hparent hchild (Function.update_self ..) hother hkernel
    | false => exact hs.split_next hn hm hchild (Function.update_self ..) hother hkernel
  · rw [hchild]
    cases shared with
    | true => exact Nat.lt_succ_of_lt (hn parent hparent)
    | false => exact Nat.lt_succ_self n
  · rw [Function.update_self]
    cases shared with
    | true => exact Nat.lt_succ_of_lt (hm parent hparent)
    | false => exact Nat.lt_succ_self m

/-- A child shares what it shares in the kernel. -/
theorem Agree.newChild (h : Agree (s, k)) (hparent : parent ∈ s.pids) (hnew : child ∉ s.pids)
    (hcall : (s.process parent).call = some call) :
    Agree (s.newChild parent child call, k.step pretended (.newChild parent child : Event w)) := by
  obtain ⟨request, hrequest, rfl⟩ : ∃ request, k.request parent = some request ∧
      request.strip = call := by
    have hcalls := h.calls parent hparent
    rw [hcall] at hcalls
    exact Option.map_eq_some_iff.mp hcalls.symm
  have hvfork : request ≠ .vfork := fun heq => h.no_vfork parent hparent (heq ▸ hrequest)
  obtain ⟨hflagFs, hflagVm, hnewns⟩ := request_flags hvfork
  have hstripped : (s.process parent).cloneStrippedNewns = request.newns := by
    rw [Bool.eq_iff_iff, h.flag parent hparent, hrequest]
    simp
  have hne : ∀ q ∈ s.pids, q ≠ child := by
    rintro q hq rfl
    exact hnew hq
  obtain ⟨hfs, hfsBelow, hkfsBelow⟩ := sharing_of_child (g := (s.newChild parent child _).fsOf)
    h.fs h.fs_below h.kernel_fs_below hparent (@Tracees.newChild_fsOf_child _ s parent child request.strip)
    fun q _ hq => s.newChild_fsOf hq
  obtain ⟨hheap, hheapBelow, hkmmBelow⟩ := sharing_of_child (g := (s.newChild parent child _).heapOf)
    h.heap h.heap_below h.kernel_mm_below hparent (@Tracees.newChild_heapOf_child _ s parent child request.strip)
    fun q _ hq => s.newChild_heapOf hq
  have hlistsChild : (s.newChild parent child request.strip).listsOf child =
      if ! pretended.newns request.kernelFlags then s.listsOf parent else s.next := by
    rw [s.newChild_listsOf_child, hstripped, hflagFs, hnewns]
    cases hf : request.kernelFlags.has cloneFs <;>
      cases hn : request.kernelFlags.has cloneNewns <;> simp [pretended, hf, hn]
  obtain ⟨hlists, hlistsBelow, hknsBelow⟩ := sharing_of_child
    (g := (s.newChild parent child _).listsOf) h.lists h.lists_below h.kernel_ns_below hparent
    hlistsChild fun q hq hqc => s.newChild_listsOf hqc (h.fs_below q hq)
  rw [hflagFs] at hfs hkfsBelow
  rw [hflagVm] at hheap hkmmBelow
  have hrecord : ∀ q ∈ child :: s.pids, ((s.newChild parent child request.strip).process q).call =
      ((Function.update (Function.update k.request parent none) child none) q).map CloneCall.strip ∧
      (((s.newChild parent child request.strip).process q).cloneStrippedNewns = true ↔
        ∃ call, Function.update (Function.update k.request parent none) child none q = some call ∧
          call.newns = true) ∧
      Function.update (Function.update k.request parent none) child none q ≠ some .vfork := by
    intro q hq
    by_cases hqc : q = child
    · subst hqc
      simp [Tracees.newChild]
    · have hq := (List.mem_cons.mp hq).resolve_left hqc
      rw [s.newChild_process hqc, Function.update_of_ne hqc]
      by_cases hqp : q = parent
      · subst hqp
        simp
      · rw [Function.update_of_ne hqp, Function.update_of_ne hqp]
        exact ⟨h.calls q hq, h.flag q hq, h.no_vfork q hq⟩
  have hstep : k.step pretended (.newChild parent child : Event w) =
      { fs := Function.update k.fs child
          (if request.kernelFlags.has cloneFs then k.fs parent else k.next)
        mm := Function.update k.mm child
          (if request.kernelFlags.has cloneVm then k.mm parent else k.next)
        ns := Function.update k.ns child
          (if ! pretended.newns request.kernelFlags then k.ns parent else k.next)
        request := Function.update (Function.update k.request parent none) child none
        next := k.next + 1 } := by
    simp only [Shares.step, hrequest]
  rw [hstep]
  exact ⟨hfs, hheap, hlists, hfsBelow, hheapBelow, hlistsBelow, hkfsBelow, hkmmBelow, hknsBelow,
    fun q hq => (hrecord q hq).1, fun q hq => (hrecord q hq).2.1, fun q hq => (hrecord q hq).2.2⟩

theorem not_heapReferenced (href : s.heapReferenced pid = false) :
    ∀ q ∈ s.pids, q ≠ pid → s.heapOf q ≠ s.heapOf pid := by
  intro q hq hne heq
  have hnone := List.any_eq_false.mp href q hq
  simp [hne, heq] at hnone

/-- A successful execve(2) separates the heap, as it does the memory. -/
theorem Agree.execve (h : Agree (s, k)) (hpid : pid ∈ s.pids) :
    Agree (s.translateExecveExit pid, k.step pretended (.execve pid true : Event w)) := by
  have halive : ∀ q, q ∈ s.pids → q = pid ∨ q ∈ s.pids := fun q hq => .inr hq
  have hkernel : ∀ q ∈ s.pids, q ≠ pid → Function.update k.mm pid k.next q = k.mm q :=
    fun q _ hq => Function.update_of_ne hq _ _
  have hkernelNew : ∀ q ∈ s.pids, q ≠ pid →
      Function.update k.mm pid k.next q ≠ Function.update k.mm pid k.next pid := by
    intro q hq hne
    rw [hkernel q hq hne, Function.update_self]
    exact Nat.ne_of_lt (h.kernel_mm_below q hq)
  have hmmBelow : HandlesBelow (· ∈ s.pids) (Function.update k.mm pid k.next) (k.next + 1) := by
    intro q hq
    refine HandlesBelow.insert h.kernel_mm_below ?_ hkernel q (.inr hq)
    rw [Function.update_self]
    exact Nat.lt_succ_self _
  unfold Tracees.translateExecveExit
  cases href : s.heapReferenced pid with
  | false =>
      simp only [Bool.false_eq_true, if_false]
      refine ⟨h.fs, ?_, h.lists, h.fs_below, h.heap_below, h.lists_below, h.kernel_fs_below.succ,
        hmmBelow, h.kernel_ns_below.succ, h.calls, h.flag, h.no_vfork⟩
      exact (h.heap.split (not_heapReferenced href) hkernelNew (fun _ _ _ => rfl) hkernel).mono halive
  | true =>
      simp only [if_true]
      have hprocess : ∀ q, ∃ heap, Function.update s.process pid
          { s.process pid with heap := s.next } q = { s.process q with heap := heap } ∧
          (q ≠ pid → heap = s.heapOf q) ∧ (q = pid → heap = s.next) := by
        intro q
        by_cases hq : q = pid
        · subst hq
          exact ⟨s.next, Function.update_self .., fun hne => absurd rfl hne, fun _ => rfl⟩
        · exact ⟨s.heapOf q, Function.update_of_ne hq _ _, fun _ => rfl, fun heq => absurd heq hq⟩
      have hfsOf : ∀ q, (Function.update s.process pid
          { s.process pid with heap := s.next } q).fs = s.fsOf q := by
        intro q
        obtain ⟨heap, hq, -⟩ := hprocess q
        rw [hq]
        rfl
      have hlistsOf : ∀ q, (s.fs (Function.update s.process pid
          { s.process pid with heap := s.next } q).fs).bindings = s.listsOf q :=
        fun q => congrArg (fun n => (s.fs n).bindings) (hfsOf q)
      have hother : ∀ q ∈ s.pids, q ≠ pid → (Function.update s.process pid
          { s.process pid with heap := s.next } q).heap = s.heapOf q := by
        intro q _ hne
        obtain ⟨heap, hq, hheap, -⟩ := hprocess q
        rw [hq]
        exact hheap hne
      have hown : (Function.update s.process pid
          { s.process pid with heap := s.next } pid).heap = s.next := by
        rw [Function.update_self]
      refine ⟨h.fs.congr (fun q _ => hfsOf q) fun _ _ => rfl, ?_,
        h.lists.congr (fun q _ => hlistsOf q) fun _ _ => rfl, fun q hq => ?_, fun q hq => ?_,
        fun q hq => ?_, h.kernel_fs_below.succ, hmmBelow, h.kernel_ns_below.succ, fun q hq => ?_,
        fun q hq => ?_, h.no_vfork⟩
      · exact (h.heap.split_next h.heap_below h.kernel_mm_below hown (Function.update_self ..) hother
          hkernel).mono halive
      · show (Function.update s.process pid { s.process pid with heap := s.next } q).fs < s.next + 1
        rw [hfsOf]
        exact Nat.lt_succ_of_lt (h.fs_below q hq)
      · refine HandlesBelow.insert h.heap_below ?_ hother q (.inr hq)
        rw [hown]
        exact Nat.lt_succ_self _
      · show (s.fs (Function.update s.process pid
          { s.process pid with heap := s.next } q).fs).bindings < s.next + 1
        rw [hlistsOf]
        exact Nat.lt_succ_of_lt (h.lists_below q hq)
      · obtain ⟨heap, hq', -⟩ := hprocess q
        show (Function.update s.process pid { s.process pid with heap := s.next } q).call = _
        rw [hq']
        exact h.calls q hq
      · obtain ⟨heap, hq', -⟩ := hprocess q
        show (Function.update s.process pid
          { s.process pid with heap := s.next } q).cloneStrippedNewns = true ↔ _
        rw [hq']
        exact h.flag q hq

theorem setCwd_listsOf (cwd : CString) (q : Nat) : (s.setCwd pid cwd).listsOf q = s.listsOf q := by
  show (Function.update s.fs (s.fsOf pid) { s.fs (s.fsOf pid) with cwd := cwd } (s.fsOf q)).bindings =
    (s.fs (s.fsOf q)).bindings
  rw [Function.update_apply]
  split_ifs with heq
  · rw [heq]
  · rfl

theorem Agree.setCwd (h : Agree (s, k)) (pid : Nat) (cwd : CString) :
    Agree (s.setCwd pid cwd, k) := by
  refine ⟨h.fs, h.heap, h.lists.congr (fun q _ => setCwd_listsOf cwd q) fun _ _ => rfl, h.fs_below,
    h.heap_below, fun q hq => ?_, h.kernel_fs_below, h.kernel_mm_below, h.kernel_ns_below, h.calls,
    h.flag, h.no_vfork⟩
  rw [setCwd_listsOf cwd q]
  exact h.lists_below q hq

theorem Agree.setTree (h : Agree (s, k)) (pid : Nat) (t : Bindings) : Agree (s.setTree pid t, k) :=
  ⟨h.fs, h.heap, h.lists, h.fs_below, h.heap_below, h.lists_below, h.kernel_fs_below,
    h.kernel_mm_below, h.kernel_ns_below, h.calls, h.flag, h.no_vfork⟩

theorem Agree.setMemory (h : Agree (s, k)) (pid : Nat) (heap : Heap w) :
    Agree (s.setMemory pid heap, k) :=
  ⟨h.fs, h.heap, h.lists, h.fs_below, h.heap_below, h.lists_below, h.kernel_fs_below,
    h.kernel_mm_below, h.kernel_ns_below, h.calls, h.flag, h.no_vfork⟩

theorem Agree.step {s' : Tracees w} (h : Agree (s, k)) (hok : Kept (s, k) e)
    (hstep : s.step e = some s') : Agree (s', k.step pretended e) := by
  unfold Tracees.step at hstep
  split at hstep
  · cases hstep
  · rename_i hpid
    rw [not_not] at hpid
    cases e with
    | enter pid call =>
        simp only [Option.ite_none_right_eq_some, Option.some.injEq] at hstep
        obtain ⟨hnone, rfl⟩ := hstep
        exact h.enterClone hpid hnone hok
    | fail pid =>
        simp only [Option.ite_none_left_eq_some, Option.some.injEq] at hstep
        obtain ⟨-, rfl⟩ := hstep
        exact h.failClone hpid hok
    | newChild parent child =>
        dsimp only at hstep
        split at hstep
        · cases hstep
        · rename_i call hcall
          simp only [Option.ite_none_left_eq_some, Option.some.injEq] at hstep
          obtain ⟨hnew, rfl⟩ := hstep
          exact h.newChild hpid hnew hcall
    | unshare pid flags =>
        cases hstep
        exact { h with
          kernel_fs_below := h.kernel_fs_below.succ
          kernel_mm_below := h.kernel_mm_below.succ
          kernel_ns_below := h.kernel_ns_below.succ }
    | execve pid succeeds =>
        cases succeeds with
        | false =>
            cases hstep
            exact h
        | true =>
            cases hstep
            exact h.execve hpid
    | chdir pid world searchable call =>
        dsimp only at hstep
        split at hstep
        · cases hstep
          exact h.setCwd pid _
        · cases hstep
          exact h
        · cases hstep
    | brk pid heapOffset original modified result =>
        obtain ⟨out, -, rfl⟩ := Option.map_eq_some_iff.mp hstep
        exact h.setMemory pid _
    | mount pid world call =>
        dsimp only at hstep
        split at hstep
        · cases hstep
        · cases hstep
          exact h.setTree pid _

end Steps

theorem agree_of_reach {sk : Tracees w × Shares}
    (hreach : (system w pretended).Reach Kept sk) : Agree sk := by
  refine hreach.invariant (fun _ => agree_init) ?_
  rintro ⟨s, k⟩ e sk' h hok hstep
  obtain ⟨s', hs', rfl⟩ := Option.map_eq_some_iff.mp hstep
  exact h.step hok hs'

/-! ## What a step changes -/

/-- Who sees a change: those that share the object with the tracee, by the kernel's account. -/
structure Effects (s s' : Tracees w) (k : Shares) (e : Event w) : Prop where
  chdir : ∀ pid world searchable call cwd, e = .chdir pid world searchable call →
    (call.run searchable (s.worldOf pid world)).1 = .ok cwd →
    ∀ q ∈ s.pids, s'.cwd q = if k.fs q = k.fs pid then cwd else s.cwd q
  brk : ∀ pid heapOffset original modified result out,
    e = .brk pid heapOffset original modified result →
    translateBrkExit heapOffset (s.memory pid) original modified result = some out →
    ∀ q ∈ s.pids, s'.memory q = if k.mm q = k.mm pid then out.1 else s.memory q
  mount : ∀ pid world call, e = .mount pid world call → ∀ q ∈ s.pids,
    s'.tree q = if k.ns q = k.ns pid then (call.run (s.worldOf pid world)).2.tracee.bindings
      else s.tree q
  cwd_kept : (∀ pid world searchable call, e ≠ .chdir pid world searchable call) →
    ∀ q ∈ s.pids, s'.cwd q = s.cwd q
  memory_kept : (∀ pid heapOffset original modified result,
      e ≠ .brk pid heapOffset original modified result) →
    ∀ q ∈ s.pids, e ≠ .execve q true → s'.memory q = s.memory q
  tree_kept : (∀ pid world call, e ≠ .mount pid world call) → ∀ q ∈ s.pids, s'.tree q = s.tree q
  child : ∀ parent child, e = .newChild parent child → s'.cwd child = s.cwd parent ∧
    s'.memory child = s.memory parent ∧
    (s'.tree child = s.tree parent ∨ s'.tree child = copyBindings (s.tree parent))

section Effects

variable {s : Tracees w} {k : Shares} {pid parent child : Nat} {call : CloneCall}

variable {q : Nat}

theorem setCwd_cwd (h : Agree (s, k)) (hpid : pid ∈ s.pids) (cwd : CString) (hq : q ∈ s.pids) :
    (s.setCwd pid cwd).cwd q = if k.fs q = k.fs pid then cwd else s.cwd q := by
  show (Function.update s.fs (s.fsOf pid) { s.fs (s.fsOf pid) with cwd := cwd } (s.fsOf q)).cwd = _
  rw [Function.update_apply]
  by_cases heq : s.fsOf q = s.fsOf pid
  · rw [if_pos heq, if_pos ((h.fs q pid hq hpid).mp heq)]
  · rw [if_neg heq, if_neg fun hk => heq ((h.fs q pid hq hpid).mpr hk)]
    rfl

theorem setMemory_memory (h : Agree (s, k)) (hpid : pid ∈ s.pids) (heap : Heap w)
    (hq : q ∈ s.pids) :
    (s.setMemory pid heap).memory q = if k.mm q = k.mm pid then heap else s.memory q := by
  show Function.update s.heap (s.heapOf pid) heap (s.heapOf q) = _
  rw [Function.update_apply]
  by_cases heq : s.heapOf q = s.heapOf pid
  · rw [if_pos heq, if_pos ((h.heap q pid hq hpid).mp heq)]
  · rw [if_neg heq, if_neg fun hk => heq ((h.heap q pid hq hpid).mpr hk)]
    rfl

theorem setTree_tree (h : Agree (s, k)) (hpid : pid ∈ s.pids) (t : Bindings) (hq : q ∈ s.pids) :
    (s.setTree pid t).tree q = if k.ns q = k.ns pid then t else s.tree q := by
  show Function.update s.bindings (s.listsOf pid) t (s.listsOf q) = _
  rw [Function.update_apply]
  by_cases heq : s.listsOf q = s.listsOf pid
  · rw [if_pos heq, if_pos ((h.lists q pid hq hpid).mp heq)]
  · rw [if_neg heq, if_neg fun hk => heq ((h.lists q pid hq hpid).mpr hk)]
    rfl

theorem newChild_kept (h : Allocated s) (hnew : child ∉ s.pids) {q : Nat} (hq : q ∈ s.pids) :
    (s.newChild parent child call).cwd q = s.cwd q ∧
      (s.newChild parent child call).memory q = s.memory q ∧
      (s.newChild parent child call).tree q = s.tree q := by
  have hqc : q ≠ child := by
    rintro rfl
    exact hnew hq
  have hfs := h.fs q hq
  refine ⟨?_, ?_, ?_⟩
  · rw [Tracees.cwd, s.newChild_fsOf hqc, s.newChild_fs hfs]
    rfl
  · rw [Tracees.memory, s.newChild_heapOf hqc]
    have hne := Nat.ne_of_lt (h.heap q hq)
    cases hvm : call.flags.has cloneVm with
    | true => simp only [Tracees.newChild, hvm, if_true, Tracees.memory]
    | false =>
        simp only [Tracees.newChild, hvm, Bool.false_eq_true, if_false]
        exact Function.update_of_ne hne _ _
  · rw [Tracees.tree, s.newChild_listsOf hqc hfs]
    have hne := Nat.ne_of_lt (h.lists q hq)
    simp only [Tracees.newChild]
    split
    · exact Function.update_of_ne hne _ _
    · rfl

theorem newChild_child (h : Allocated s) (hparent : parent ∈ s.pids) :
    (s.newChild parent child call).cwd child = s.cwd parent ∧
      (s.newChild parent child call).memory child = s.memory parent ∧
      (s.newChild parent child call).tree child =
        if ¬ call.flags.has cloneFs ∧ (s.process parent).cloneStrippedNewns then
          copyBindings (s.tree parent)
        else s.tree parent := by
  have hfs := h.fs parent hparent
  refine ⟨?_, ?_, ?_⟩
  · rw [Tracees.cwd, s.newChild_fsOf_child]
    cases hflag : call.flags.has cloneFs with
    | true =>
        rw [if_pos rfl, s.newChild_fs hfs]
        rfl
    | false => simp [Tracees.newChild, hflag]
  · rw [Tracees.memory, s.newChild_heapOf_child]
    cases hflag : call.flags.has cloneVm with
    | true => simp [Tracees.newChild, hflag, Tracees.memory]
    | false => simp [Tracees.newChild, hflag]
  · rw [Tracees.tree, s.newChild_listsOf_child]
    simp only [Tracees.newChild]
    split
    · exact Function.update_self ..
    · rfl

theorem execve_kept (h : Agree (s, k)) (pid : Nat) (hq : q ∈ s.pids) :
    (s.translateExecveExit pid).cwd q = s.cwd q ∧ (s.translateExecveExit pid).tree q = s.tree q ∧
      (q ≠ pid → (s.translateExecveExit pid).memory q = s.memory q) := by
  unfold Tracees.translateExecveExit
  cases href : s.heapReferenced pid with
  | false =>
      simp only [Bool.false_eq_true, if_false]
      exact ⟨rfl, rfl, fun hne => Function.update_of_ne (not_heapReferenced href q hq hne) _ _⟩
  | true =>
      simp only [if_true]
      have hfsOf := @Tracees.fsOf_update _ s pid { s.process pid with heap := s.next } rfl q
      refine ⟨congrArg (fun n => (s.fs n).cwd) hfsOf,
        congrArg (fun n => s.bindings (s.fs n).bindings) hfsOf, fun hne => ?_⟩
      show Function.update s.heap s.next ⟨0, 0, false⟩
        (Function.update s.process pid { s.process pid with heap := s.next } q).heap = _
      rw [Function.update_of_ne hne]
      exact Function.update_of_ne (Nat.ne_of_lt (h.heap_below q hq)) _ _

/-- Is it an event about another tracee than those there are, or about the contents of an object? -/
def Event.Writes : Event w → Prop
  | .newChild .. | .chdir .. | .brk .. | .mount .. => True
  | _ => False

theorem Effects.of_kept {s' : Tracees w} (hplain : ¬ e.Writes)
    (hcwd : ∀ q ∈ s.pids, s'.cwd q = s.cwd q)
    (hmemory : ∀ q ∈ s.pids, e ≠ .execve q true → s'.memory q = s.memory q)
    (htree : ∀ q ∈ s.pids, s'.tree q = s.tree q) : Effects s s' k e := by
  refine ⟨?_, ?_, ?_, fun _ => hcwd, fun _ => hmemory, fun _ => htree, ?_⟩
  · rintro _ _ _ _ _ rfl
    exact absurd trivial hplain
  · rintro _ _ _ _ _ _ rfl
    exact absurd trivial hplain
  · rintro _ _ _ rfl
    exact absurd trivial hplain
  · rintro _ _ rfl
    exact absurd trivial hplain

theorem Effects.of_record {tracee : Process} (hplain : ¬ e.Writes)
    (hfs : tracee.fs = (s.process pid).fs) (hheap : tracee.heap = (s.process pid).heap) :
    Effects s { s with process := Function.update s.process pid tracee } k e := by
  refine .of_kept hplain (fun q _ => ?_) (fun q _ _ => ?_) fun q _ => ?_
  · exact congrArg (fun n => (s.fs n).cwd) (s.fsOf_update hfs q)
  · exact congrArg s.heap (s.heapOf_update hheap q)
  · exact congrArg (fun n => s.bindings (s.fs n).bindings) (s.fsOf_update hfs q)

/-- **A step changes** what it is to change, for those who share it. -/
theorem effects_of_step {s' : Tracees w} (h : Agree (s, k))
    (hstep : s.step e = some s') : Effects s s' k e := by
  unfold Tracees.step at hstep
  split at hstep
  · cases hstep
  · rename_i hpid
    rw [not_not] at hpid
    cases e with
    | enter pid call =>
        simp only [Option.ite_none_right_eq_some, Option.some.injEq] at hstep
        obtain ⟨-, rfl⟩ := hstep
        apply Effects.of_record
        · exact id
        · rfl
        · rfl
    | fail pid =>
        simp only [Option.ite_none_left_eq_some, Option.some.injEq] at hstep
        obtain ⟨-, rfl⟩ := hstep
        apply Effects.of_record
        · exact id
        · rfl
        · rfl
    | newChild parent child =>
        dsimp only at hstep
        split at hstep
        · cases hstep
        · rename_i call hcall
          simp only [Option.ite_none_left_eq_some, Option.some.injEq] at hstep
          obtain ⟨hnew, rfl⟩ := hstep
          refine ⟨(fun _ _ _ _ _ h => nomatch h), (fun _ _ _ _ _ _ h => nomatch h), (fun _ _ _ h => nomatch h),
            fun _ q hq => (newChild_kept h.allocated hnew hq).1,
            fun _ q hq _ => (newChild_kept h.allocated hnew hq).2.1,
            fun _ q hq => (newChild_kept h.allocated hnew hq).2.2, ?_⟩
          rintro _ _ ⟨⟩
          change parent ∈ s.pids at hpid
          obtain ⟨hcwd, hmemory, htree⟩ := @newChild_child _ s parent child call h.allocated hpid
          refine ⟨hcwd, hmemory, ?_⟩
          rw [htree]
          split
          · exact .inr rfl
          · exact .inl rfl
    | unshare pid flags =>
        cases hstep
        exact .of_kept id (fun _ _ => rfl) (fun _ _ _ => rfl) fun _ _ => rfl
    | execve pid succeeds =>
        cases succeeds with
        | false =>
            cases hstep
            exact .of_kept id (fun _ _ => rfl) (fun _ _ _ => rfl) fun _ _ => rfl
        | true =>
            cases hstep
            refine .of_kept id (fun q hq => (execve_kept h pid hq).1) (fun q hq hne => ?_)
              fun q hq => (execve_kept h pid hq).2.1
            refine (execve_kept h pid hq).2.2 fun heq => hne ?_
            rw [heq]
    | chdir pid world searchable call =>
        dsimp only at hstep
        cases hrun : (call.run searchable (s.worldOf pid world)).1 with
        | ok cwd =>
            rw [hrun] at hstep
            cases hstep
            refine ⟨?_, (fun _ _ _ _ _ _ h => nomatch h), (fun _ _ _ h => nomatch h),
              fun hne => absurd rfl (hne _ _ _ _), fun _ _ _ _ => rfl,
              fun _ q hq => congrArg s.bindings (setCwd_listsOf cwd q), (fun _ _ h => nomatch h)⟩
            rintro _ _ _ _ cwd' ⟨⟩ hrun' q hq
            rw [hrun] at hrun'
            cases hrun'
            exact setCwd_cwd h hpid cwd hq
        | error failure =>
            rw [hrun] at hstep
            cases failure with
            | abort => cases hstep
            | errno e =>
                cases hstep
                refine ⟨?_, (fun _ _ _ _ _ _ h => nomatch h), (fun _ _ _ h => nomatch h),
                  fun _ _ _ => rfl, fun _ _ _ _ => rfl, fun _ _ _ => rfl, (fun _ _ h => nomatch h)⟩
                rintro _ _ _ _ cwd' ⟨⟩ hrun'
                rw [hrun] at hrun'
                cases hrun'
    | brk pid heapOffset original modified result =>
        obtain ⟨out, hout, rfl⟩ := Option.map_eq_some_iff.mp hstep
        refine ⟨(fun _ _ _ _ _ h => nomatch h), ?_, (fun _ _ _ h => nomatch h), fun _ _ _ => rfl,
          fun hne => absurd rfl (hne _ _ _ _ _), fun _ _ _ => rfl, (fun _ _ h => nomatch h)⟩
        rintro _ _ _ _ _ out' ⟨⟩ hout' q hq
        rw [hout] at hout'
        cases hout'
        exact setMemory_memory h hpid out.1 hq
    | mount pid world call =>
        dsimp only at hstep
        split at hstep
        · cases hstep
        · rename_i world' _ hrun
          cases hstep
          refine ⟨(fun _ _ _ _ _ h => nomatch h), (fun _ _ _ _ _ _ h => nomatch h), ?_,
            fun _ _ _ => rfl, fun _ _ _ _ => rfl, fun hne => absurd rfl (hne _ _ _), (fun _ _ h => nomatch h)⟩
          rintro _ _ _ ⟨⟩ q hq
          rw [hrun]
          exact setTree_tree h hpid _ hq

end Effects

/-- **State is shared as the clone flags say**: in every run without vfork(2) in which no call with
`CLONE_NEWNS` fails, the same tracees share their name-space, their heap and their bindings as in
the kernel that PRoot pretends, and a change is seen by exactly those. -/
theorem state_shared {s : Tracees w} {k : Shares}
    (hreach : (system w pretended).Reach Kept (s, k)) :
    (∀ p ∈ s.pids, ∀ q ∈ s.pids, (s.fsOf p = s.fsOf q ↔ k.fs p = k.fs q) ∧
      (s.heapOf p = s.heapOf q ↔ k.mm p = k.mm q) ∧
      (s.listsOf p = s.listsOf q ↔ k.ns p = k.ns q)) ∧
    ∀ e s', s.step e = some s' → Effects s s' k e := by
  have h := agree_of_reach hreach
  constructor
  · intro p hp q hq
    exact ⟨h.fs p q hp hq, h.heap p q hp hq, h.lists p q hp hq⟩
  · exact fun e s' hstep => effects_of_step h hstep

/-! ## Runs -/

def firstTracee : Tracees 64 × Shares :=
  ({ pids := [1]
     process := fun _ => ⟨0, 0, false, none⟩
     fs := fun _ => ⟨['/', 'm', 'n', 't'], 0⟩
     bindings := fun _ => (rootNameSpace true).bindings
     heap := fun _ => ⟨0, 0, false⟩
     next := 1 },
   ⟨fun _ => 0, fun _ => 0, fun _ => 0, fun _ => none, 1⟩)

theorem firstTracee_init (rules : Rules) : (system 64 rules).init firstTracee :=
  ⟨1, rfl, rfl, rfl, rfl, by decide, by decide, by decide, by decide, by decide, by decide⟩

def inClone (rules : Rules) (sk : Tracees 64 × Shares) (call : CloneCall) : Tracees 64 × Shares :=
  (sk.1.enterClone 1 call, sk.2.step rules (.enter 1 call : Event 64))

def afterClone (rules : Rules) (sk : Tracees 64 × Shares) (call : CloneCall) :
    Tracees 64 × Shares :=
  ((inClone rules sk call).1.newChild 1 2 call.strip,
    (inClone rules sk call).2.step rules (.newChild 1 2 : Event 64))

theorem inClone_reached {rules : Rules} {ok : Tracees 64 × Shares → Event 64 → Prop}
    {call : CloneCall} (henter : ok firstTracee (.enter 1 call)) :
    (system 64 rules).Reach ok (inClone rules firstTracee call) :=
  .next (.start (firstTracee_init rules)) henter rfl

theorem afterClone_reached {rules : Rules} {ok : Tracees 64 × Shares → Event 64 → Prop}
    {call : CloneCall} (henter : ok firstTracee (.enter 1 call))
    (hchild : ok (inClone rules firstTracee call) (.newChild 1 2)) :
    (system 64 rules).Reach ok (afterClone rules firstTracee call) :=
  .next (inClone_reached henter) hchild rfl

/-- A clone(2) with `CLONE_FS` alone: the two tracees share their name-space and their bindings, but
no heap. -/
theorem state_shared_fs : let s := (afterClone pretended firstTracee (.clone cloneFs)).1
    s.fsOf 1 = s.fsOf 2 ∧ s.heapOf 1 ≠ s.heapOf 2 ∧ s.listsOf 1 = s.listsOf 2 := by
  have hshared := (state_shared (k := (afterClone pretended firstTracee (.clone cloneFs)).2)
    (afterClone_reached (by simp [Kept]) trivial)).1 1 (by decide) 2 (by decide)
  exact ⟨hshared.1.mpr (by decide), fun heq => absurd (hshared.2.1.mp heq) (by decide),
    hshared.2.2.mpr (by decide)⟩

/-- After unshare(2) with `CLONE_FS`, a chdir(2) to "/" of the second tracee still moves the first
one; and once a call with `CLONE_NEWNS` failed, the child of a fork(2) has mounts of its own. -/
theorem state_not_shared : (∃ s k s', (system 64 documented).Reach Lib.System.Always (s, k) ∧
      s.step (.chdir 2 plainWorld (fun _ => true) (.chdir ['/'])) = some s' ∧
      k.fs 1 ≠ k.fs 2 ∧ s.cwd 1 = ['/', 'm', 'n', 't'] ∧ s'.cwd 1 = ['/']) ∧
    ∃ s k, (system 64 documented).Reach Lib.System.Always (s, k) ∧
      k.ns 1 = k.ns 2 ∧ s.listsOf 1 ≠ s.listsOf 2 := by
  have hshared := @afterClone_reached documented Lib.System.Always (.clone cloneFs) trivial trivial
  have hunshared := Lib.System.Reach.next (e := Event.unshare 2 cloneFs) hshared trivial rfl
  have hasked := @inClone_reached documented Lib.System.Always (.clone cloneNewns) trivial
  have hfailed := Lib.System.Reach.next (e := Event.fail 1) hasked trivial rfl
  have hforking := Lib.System.Reach.next (e := Event.enter 1 .fork) hfailed trivial rfl
  have hforked := Lib.System.Reach.next (e := Event.newChild 1 2) hforking trivial rfl
  exact ⟨⟨_, _, _, hunshared, rfl, by decide, rfl, rfl⟩, _, _, hforked, by decide, by decide⟩

end Improot.Tracee
