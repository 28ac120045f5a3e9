import Mathlib.Data.List.TakeWhile
import Improot.Syscall.Seccomp

/-!
# What the seccomp filter means

The list that a filter is made from says which system calls are traced and with which flags.  The
program that `set_seccomp_filters` writes has one section for each architecture; a section is a
search in the numbers of the traced system calls, so that the run of the whole program answers what
the list says.
-/

namespace Improot.Syscall

open Improot.Lib.Bpf Sysnum

/-! ## What a list says -/

/-- The flags of the items whose system call meets `p`, when there is one. -/
def flagsWhere (p : Sysnum → Bool) : List FilteredSysnum → Option (BitVec 64)
  | [] => none
  | sysnum :: sysnums =>
      if p sysnum.value then some (sysnum.flags ||| (flagsWhere p sysnums).getD 0)
      else flagsWhere p sysnums

def hasNumber (arch : Arch) (abis : List Abi) (nr : BitVec 32) (sysnum : Sysnum) : Bool :=
  abis.any fun abi => (getSysnums arch abi).bind (·.sysnum? nr.toNat) = some sysnum

def listedSysnums (build : Build) (extensions : List (Option (List FilteredSysnum))) :
    List FilteredSysnum :=
  untilVoid (prootSysnums build.android) ++ extensions.flatMap fun extension =>
    untilVoid (extension.getD [])

inductive Verdict where
  | trace (flags : BitVec 64)
  | allow
  | kill
  deriving DecidableEq

def Verdict.ret : Verdict → BitVec 32
  | .trace flags => seccompRetTrace + flags.setWidth 32
  | .allow => seccompRetAllow
  | .kill => seccompRetKill

/-- **What the lists say** of a system call: it is traced with the flags of all the listed calls
that have the number on the architecture. -/
def verdict (build : Build) (extensions : List (Option (List FilteredSysnum)))
    (data : SeccompData) : Verdict :=
  match build.arch.seccompArchs.find? (·.value = data.arch) with
  | none => .kill
  | some seccompArch =>
      match flagsWhere (hasNumber build.arch seccompArch.abis data.nr)
        (listedSysnums build extensions) with
      | none => .allow
      | some flags => .trace flags

def retAction (ret : BitVec 32) : BitVec 32 := ret &&& 0xffff0000

/-- The data of an answer, `SECCOMP_RET_DATA`. -/
def retData (ret : BitVec 32) : BitVec 32 := ret &&& 0x0000ffff

def Verdict.Is (ret : BitVec 32) : Verdict → Prop
  | .trace flags => retAction ret = seccompRetTrace ∧ (retData ret).setWidth 64 = flags
  | .allow => ret = seccompRetAllow
  | .kill => ret = seccompRetKill

def Verdict.Fits : Verdict → Prop
  | .trace flags => flags.toNat < 2 ^ 16
  | .allow => True
  | .kill => True

/-! ## Merging -/

theorem flagsWhere_append (p : Sysnum → Bool) (sysnums sysnums' : List FilteredSysnum) :
    flagsWhere p (sysnums ++ sysnums') =
      match flagsWhere p sysnums with
      | none => flagsWhere p sysnums'
      | some flags => some (flags ||| (flagsWhere p sysnums').getD 0) := by
  induction sysnums with
  | nil => rfl
  | cons sysnum sysnums ih =>
      simp only [List.cons_append, flagsWhere, ih]
      split
      · cases flagsWhere p sysnums with
        | none => simp
        | some flags => simp [BitVec.or_assoc]
      · rfl

theorem flagsWhere_mergeFilteredSysnum (p : Sysnum → Bool) (sysnums : List FilteredSysnum)
    (new : FilteredSysnum) :
    flagsWhere p (mergeFilteredSysnum sysnums new) = flagsWhere p (sysnums ++ [new]) := by
  induction sysnums with
  | nil => rfl
  | cons sysnum sysnums ih =>
      simp only [mergeFilteredSysnum, List.cons_append]
      split
      · rename_i heq
        simp only [flagsWhere, flagsWhere_append, heq]
        cases hp : p new.value with
        | false => cases flagsWhere p sysnums <;> simp
        | true =>
            cases flagsWhere p sysnums with
            | none => simp
            | some flags => simp [BitVec.or_assoc, BitVec.or_comm new.flags]
      · simp only [flagsWhere, ih]

theorem flagsWhere_mergeFilteredSysnums (p : Sysnum → Bool)
    (sysnums newSysnums : List FilteredSysnum) :
    flagsWhere p (mergeFilteredSysnums sysnums newSysnums) =
      flagsWhere p (sysnums ++ untilVoid newSysnums) := by
  rw [mergeFilteredSysnums]
  generalize untilVoid newSysnums = news
  induction news generalizing sysnums with
  | nil => simp
  | cons new news ih =>
      rw [List.foldl_cons, ih, List.append_cons sysnums new news, flagsWhere_append,
        flagsWhere_mergeFilteredSysnum, ← flagsWhere_append]

theorem flagsWhere_filteredSysnums (p : Sysnum → Bool) (build : Build)
    (extensions : List (Option (List FilteredSysnum))) :
    flagsWhere p (filteredSysnums build extensions) =
      flagsWhere p (listedSysnums build extensions) := by
  have run (sysnums : List FilteredSysnum) :
      flagsWhere p (extensions.foldl mergeExtension sysnums) =
        flagsWhere p (sysnums ++ extensions.flatMap fun extension =>
          untilVoid (extension.getD [])) := by
    induction extensions generalizing sysnums with
    | nil => simp
    | cons extension extensions ih =>
        cases extension with
        | none => simpa [untilVoid, mergeExtension] using ih sysnums
        | some filtered =>
            rw [List.foldl_cons, ih, mergeExtension, flagsWhere_append,
              flagsWhere_mergeFilteredSysnums, ← flagsWhere_append]
            simp
  rw [filteredSysnums, run, listedSysnums, flagsWhere_append, flagsWhere_mergeFilteredSysnums,
    ← flagsWhere_append]
  rfl

/-- A merged list has an item for each of its system calls, and no terminator. -/
structure Merged (sysnums : List FilteredSysnum) : Prop where
  nodup : (sysnums.map (·.value)).Nodup
  value : ∀ sysnum ∈ sysnums, sysnum.value ≠ PR_void

theorem values_mergeFilteredSysnum (sysnums : List FilteredSysnum) (new : FilteredSysnum) :
    (mergeFilteredSysnum sysnums new).map (·.value) =
      if new.value ∈ sysnums.map (·.value) then sysnums.map (·.value)
      else sysnums.map (·.value) ++ [new.value] := by
  induction sysnums with
  | nil => rfl
  | cons sysnum sysnums ih =>
      simp only [mergeFilteredSysnum]
      split
      · rename_i heq
        simp [heq]
      · rename_i hne
        simp only [List.map_cons, ih, List.mem_cons, Ne.symm hne, false_or]
        split <;> rfl

variable {sysnums : List FilteredSysnum} {arch : Arch} {abi : Abi}

theorem Merged.mergeFilteredSysnum {new : FilteredSysnum}
    (h : Merged sysnums) (hnew : new.value ≠ PR_void) :
    Merged (mergeFilteredSysnum sysnums new) := by
  have hvalues := values_mergeFilteredSysnum sysnums new
  constructor
  · rw [hvalues]
    split
    · exact h.nodup
    · rename_i hmem
      exact List.nodup_append.mpr ⟨h.nodup, List.nodup_singleton _, by grind⟩
  · intro sysnum hs
    have hmem : sysnum.value ∈ (Syscall.mergeFilteredSysnum sysnums new).map (·.value) :=
      List.mem_map_of_mem hs
    rw [hvalues] at hmem
    have hold (v : Sysnum) (hv : v ∈ sysnums.map (·.value)) : v ≠ PR_void := by
      obtain ⟨s, hs, rfl⟩ := List.mem_map.mp hv
      exact h.value s hs
    grind

theorem Merged.mergeFilteredSysnums {newSysnums : List FilteredSysnum}
    (h : Merged sysnums) : Merged (mergeFilteredSysnums sysnums newSysnums) := by
  rw [Syscall.mergeFilteredSysnums]
  have hnews : ∀ new ∈ untilVoid newSysnums, new.value ≠ PR_void := by
    intro new hnew
    simpa using List.mem_takeWhile_imp hnew
  revert hnews
  generalize untilVoid newSysnums = news
  intro hnews
  induction news generalizing sysnums with
  | nil => exact h
  | cons new news ih =>
      obtain ⟨hnew, hnews⟩ := List.forall_mem_cons.mp hnews
      exact ih (h.mergeFilteredSysnum hnew) hnews

theorem filteredSysnums_merged (build : Build)
    (extensions : List (Option (List FilteredSysnum))) :
    Merged (filteredSysnums build extensions) := by
  have run (sysnums : List FilteredSysnum) (h : Merged sysnums) :
      Merged (extensions.foldl mergeExtension sysnums) := by
    induction extensions generalizing sysnums with
    | nil => exact h
    | cons extension extensions ih =>
        cases extension with
        | none => exact ih _ h
        | some filtered => exact ih _ h.mergeFilteredSysnums
  have hnil : Merged [] := ⟨List.nodup_nil, by simp⟩
  exact run _ hnil.mergeFilteredSysnums

theorem Merged.length_le (h : Merged sysnums) :
    sysnums.length ≤ nbSysnum := by
  simpa using length_le_nbSysnum h.nodup

theorem Merged.untilVoid_eq (h : Merged sysnums) :
    untilVoid sysnums = sysnums := by
  rw [untilVoid, List.takeWhile_eq_self_iff]
  intro sysnum hs
  simpa using h.value sysnum hs

/-! ## The sections -/

def traced (arch : Arch) (abi : Abi) (sysnums : List FilteredSysnum) :
    List (Nat × BitVec 64) :=
  sysnums.filterMap fun sysnum =>
    ((detranslateSysnum arch abi sysnum.value).filter (· ≠ arch.syscallAvoider)).map
      fun number => (number, sysnum.flags)

def tracedAll (arch : Arch) (abis : List Abi) (sysnums : List FilteredSysnum) :
    List (Nat × BitVec 64) :=
  abis.flatMap fun abi => traced arch abi sysnums

def traceStatements (calls : List (Nat × BitVec 64)) : List Insn :=
  calls.flatMap fun call => traceSyscall call.1 call.2

def archSection (value : BitVec 32) (calls : List (Nat × BitVec 64)) : List Insn :=
  checkArch value (lengthEndSection + calls.length * lengthTraceSyscall) ++
    (traceStatements calls ++ [.retK seccompRetAllow])

theorem length_traceStatements (calls : List (Nat × BitVec 64)) :
    (traceStatements calls).length = calls.length * lengthTraceSyscall := by
  induction calls with
  | nil => rfl
  | cons call calls ih =>
      rw [traceStatements, List.flatMap_cons, List.length_append]
      rw [traceStatements] at ih
      rw [ih]
      simp only [traceSyscall, lengthTraceSyscall, List.length_cons, List.length_nil]
      omega

theorem length_archSection (value : BitVec 32) (calls : List (Nat × BitVec 64)) :
    (archSection value calls).length = 5 + 2 * calls.length := by
  simp only [archSection, checkArch, List.length_append, List.length_cons, List.length_nil,
    length_traceStatements, lengthTraceSyscall]
  omega

/-! ### What a section does -/

def answer (calls : List (Nat × BitVec 64)) (nr : BitVec 32) : BitVec 32 :=
  match calls.find? (fun call => BitVec.ofNat 32 call.1 = nr) with
  | some call => seccompRetTrace + call.2.setWidth 32
  | none => seccompRetAllow

theorem exec_traceStatements (data : SeccompData) (calls : List (Nat × BitVec 64))
    (rest : List Insn) :
    exec data.load (traceStatements calls ++ (.retK seccompRetAllow :: rest)) data.nr =
      some (answer calls data.nr) := by
  induction calls with
  | nil => simp [traceStatements, answer]
  | cons call calls ih =>
      simp only [traceStatements, List.flatMap_cons, traceSyscall, List.cons_append,
        List.nil_append, exec_jmpJeqK] at ih ⊢
      by_cases hnr : BitVec.ofNat 32 call.1 = data.nr
      · simp [hnr, answer]
      · have hskip : (if data.nr = BitVec.ofNat 32 call.1 then (0 : BitVec 8).toNat
            else (1 : BitVec 8).toNat) = 1 := by
          rw [if_neg (Ne.symm hnr)]
          rfl
        rw [hskip]
        simpa [answer, hnr] using ih

/-- **A section answers for its architecture** and is skipped for the others. -/
theorem exec_archSection (data : SeccompData) (value : BitVec 32)
    (calls : List (Nat × BitVec 64)) (hcalls : calls.length < 2 ^ 16) (rest : List Insn)
    (acc : BitVec 32) :
    exec data.load (archSection value calls ++ rest) acc =
      if value = data.arch then some (answer calls data.nr)
      else exec data.load rest data.arch := by
  have harch : data.load archOffset = some data.arch := rfl
  have hnr : data.load syscallOffset = some data.nr := rfl
  simp only [archSection, checkArch, List.cons_append, List.nil_append, List.append_assoc,
    exec_ldWAbs, harch, Option.bind_some, exec_jmpJeqK]
  by_cases hvalue : data.arch = value
  · simp only [hvalue, if_true]
    show exec data.load (.ldWAbs syscallOffset ::
      (traceStatements calls ++ (.retK seccompRetAllow :: rest))) _ = _
    rw [exec_ldWAbs, hnr, Option.bind_some, exec_traceStatements]
  · rw [if_neg hvalue, if_neg (Ne.symm hvalue)]
    have hblock : Insn.ldWAbs syscallOffset ::
        (traceStatements calls ++ (.retK seccompRetAllow :: rest)) =
        (.ldWAbs syscallOffset :: (traceStatements calls ++ [.retK seccompRetAllow])) ++ rest := by
      simp
    rw [hblock]
    apply exec_jmpJa_append
    simp only [BitVec.toNat_ofNat, List.length_cons, List.length_append, List.length_nil,
      length_traceStatements, lengthEndSection, lengthTraceSyscall]
    omega

theorem archSection_landsNear (value : BitVec 32) (calls : List (Nat × BitVec 64))
    (hcalls : calls.length < 2 ^ 16) : LandsNear (archSection value calls) := by
  have hend : LandsNear [.retK seccompRetAllow] :=
    landsNear_nil.cons (by simp [Insn.targets])
  have htraces : LandsNear (traceStatements calls ++ [.retK seccompRetAllow]) := by
    induction calls with
    | nil => exact hend
    | cons call calls ih =>
        have hrest := ih (by simp only [List.length_cons] at hcalls; omega)
        simp only [traceStatements, List.flatMap_cons, traceSyscall, List.cons_append,
          List.nil_append] at hrest ⊢
        have hret := @LandsNear.cons (.retK (seccompRetTrace + call.2.setWidth 32)) _ hrest
          (by simp [Insn.targets])
        exact hret.cons (by simp [Insn.targets])
  have hload := @LandsNear.cons (.ldWAbs syscallOffset) _ htraces (by simp [Insn.targets])
  simp only [archSection, checkArch, List.cons_append, List.nil_append]
  have hjump := @LandsNear.cons (.jmpJa (BitVec.ofNat 32
    (lengthEndSection + calls.length * lengthTraceSyscall + 1))) _ hload (by
      simp only [Insn.targets, List.mem_singleton, forall_eq, BitVec.toNat_ofNat,
        List.length_cons, List.length_append, List.length_nil, length_traceStatements,
        lengthEndSection, lengthTraceSyscall]
      omega)
  have hcheck := @LandsNear.cons (.jmpJeqK value 1 0) _ hjump (by simp [Insn.targets])
  exact hcheck.cons (by simp [Insn.targets])

/-! ## What is built -/

theorem mem_traced_iff {table : Sysnums} (h : getSysnums arch abi = some table)
    (hvalue : ∀ sysnum ∈ sysnums, sysnum.value ≠ PR_void) (call : Nat × BitVec 64) :
    call ∈ traced arch abi sysnums ↔
      ∃ sysnum ∈ sysnums, table.sysnum? call.1 = some sysnum.value ∧ sysnum.flags = call.2 := by
  obtain ⟨number, flags⟩ := call
  simp only [traced, List.mem_filterMap]
  constructor
  · rintro ⟨sysnum, hs, hcall⟩
    obtain ⟨n, hn, hspec⟩ := detranslateSysnum_spec h (hvalue sysnum hs)
    simp only [hn, Option.map_eq_some_iff, Option.filter_eq_some_iff, Option.some.injEq,
      Prod.mk.injEq] at hcall
    obtain ⟨_, ⟨rfl, hne⟩, rfl, rfl⟩ := hcall
    exact ⟨sysnum, hs, (hspec n).mp ⟨rfl, by simpa using hne⟩, rfl⟩
  · rintro ⟨sysnum, hs, hnumber, rfl⟩
    obtain ⟨n, hn, hspec⟩ := detranslateSysnum_spec h (hvalue sysnum hs)
    obtain ⟨rfl, hne⟩ := (hspec number).mpr hnumber
    exact ⟨sysnum, hs, by simp [hn, Option.filter, hne]⟩

theorem length_traced_le (arch : Arch) (abi : Abi) (sysnums : List FilteredSysnum) :
    (traced arch abi sysnums).length ≤ sysnums.length :=
  List.length_filterMap_le _ _

theorem traced_cons {sysnum : FilteredSysnum} {number : Nat}
    (h : detranslateSysnum arch abi sysnum.value = some number)
    (sysnums : List FilteredSysnum) :
    traced arch abi (sysnum :: sysnums) =
      if number = arch.syscallAvoider then traced arch abi sysnums
      else (number, sysnum.flags) :: traced arch abi sysnums := by
  rw [traced, List.filterMap_cons, h]
  by_cases hne : number = arch.syscallAvoider
  · simp [Option.filter, hne, traced]
  · simp [Option.filter, hne, traced]

theorem foldlM_cons_ok {α β ε : Type} {f : β → α → Except ε β} {a : α} {b b' : β}
    (h : f b a = .ok b') (as : List α) : (a :: as).foldlM f b = as.foldlM f b' := by
  rw [List.foldlM_cons, h]
  rfl

section Passes

variable {arch : Arch} {abi : Abi} {table : Sysnums} {sysnums : List FilteredSysnum}

theorem countTraced_eq (h : getSysnums arch abi = some table) (hmerged : Merged sysnums)
    (nb : Nat) : countTraced arch sysnums nb abi = .ok (nb + (traced arch abi sysnums).length) := by
  rw [countTraced, hmerged.untilVoid_eq]
  have hvalue := hmerged.value
  clear hmerged
  induction sysnums generalizing nb with
  | nil => rfl
  | cons sysnum sysnums ih =>
      obtain ⟨hs, hvalue⟩ := List.forall_mem_cons.mp hvalue
      obtain ⟨number, hn, -⟩ := detranslateSysnum_spec h hs
      have hstep : countSysnum arch abi nb sysnum =
          .ok (if number ≠ arch.syscallAvoider then nb + 1 else nb) := by
        rw [countSysnum, sysnumOf, hn]
        rfl
      rw [foldlM_cons_ok hstep, ih _ hvalue, traced_cons hn]
      split
      · rw [List.length_cons, Nat.add_assoc, Nat.add_comm 1]
      · rename_i heq
        rw [if_pos (not_not.mp heq)]

theorem addTraced_eq (h : getSysnums arch abi = some table) (hmerged : Merged sysnums)
    (program : SockFprog) : addTraced arch sysnums program abi =
      .ok (program.addStatements (traceStatements (traced arch abi sysnums))) := by
  rw [addTraced, hmerged.untilVoid_eq]
  have hvalue := hmerged.value
  clear hmerged
  induction sysnums generalizing program with
  | nil => simp [traced, traceStatements, SockFprog.addStatements]; rfl
  | cons sysnum sysnums ih =>
      obtain ⟨hs, hvalue⟩ := List.forall_mem_cons.mp hvalue
      obtain ⟨number, hn, hspec⟩ := detranslateSysnum_spec h hs
      have hsysnum : addSysnum arch abi program sysnum =
          if number = arch.syscallAvoider then .ok program
          else addTraceSyscall program number sysnum.flags := by
        rw [addSysnum, sysnumOf, hn]
        rfl
      rw [traced_cons hn]
      by_cases hne : number = arch.syscallAvoider
      · rw [if_pos hne] at hsysnum ⊢
        rw [foldlM_cons_ok hsysnum, ih _ hvalue]
      · have hlt : number < 2 ^ 31 := sysnum?_lt h ((hspec number).mp ⟨rfl, hne⟩)
        rw [if_neg hne, addTraceSyscall, if_neg (by rw [uint32Max]; omega)] at hsysnum
        rw [if_neg hne, foldlM_cons_ok hsysnum, ih _ hvalue]
        simp [SockFprog.addStatements, traceStatements]

end Passes

variable {seccompArch : SeccompArch} {sysnum : Sysnum}

theorem getSysnums_of_mem (ha : seccompArch ∈ arch.seccompArchs) (h : abi ∈ seccompArch.abis) :
    ∃ table, getSysnums arch abi = some table := by
  cases arch <;> simp only [Arch.seccompArchs, List.mem_cons, List.not_mem_nil, or_false] at ha <;>
    rcases ha with rfl | rfl <;> simp only [List.mem_cons, List.not_mem_nil, or_false] at h <;>
    rcases h with rfl | rfl <;> exact ⟨_, rfl⟩

section Merged

variable {arch : Arch} {sysnums : List FilteredSysnum} {abis : List Abi} (hmerged : Merged sysnums)

include hmerged

theorem foldlM_countTraced (habis : ∀ abi ∈ abis, ∃ table, getSysnums arch abi = some table) (nb : Nat) :
    abis.foldlM (countTraced arch sysnums) nb =
      .ok (nb + (tracedAll arch abis sysnums).length) := by
  induction abis generalizing nb with
  | nil => rfl
  | cons abi abis ih =>
      obtain ⟨⟨table, h⟩, habis⟩ := List.forall_mem_cons.mp habis
      have hstep := countTraced_eq h hmerged nb
      rw [foldlM_cons_ok hstep, ih habis, tracedAll, tracedAll, List.flatMap_cons,
        List.length_append, Nat.add_assoc]

theorem foldlM_addTraced (habis : ∀ abi ∈ abis, ∃ table, getSysnums arch abi = some table)
    (program : SockFprog) :
    abis.foldlM (addTraced arch sysnums) program =
      .ok (program.addStatements (traceStatements (tracedAll arch abis sysnums))) := by
  induction abis generalizing program with
  | nil => simp [tracedAll, traceStatements, SockFprog.addStatements]; rfl
  | cons abi abis ih =>
      obtain ⟨⟨table, h⟩, habis⟩ := List.forall_mem_cons.mp habis
      have hstep := addTraced_eq h hmerged program
      rw [foldlM_cons_ok hstep, ih habis]
      simp [SockFprog.addStatements, traceStatements, tracedAll]

end Merged

theorem length_tracedAll_le (arch : Arch) (abis : List Abi) (sysnums : List FilteredSysnum) :
    (tracedAll arch abis sysnums).length ≤ abis.length * sysnums.length := by
  induction abis with
  | nil => simp [tracedAll]
  | cons abi abis ih =>
      rw [tracedAll] at ih
      rw [tracedAll, List.flatMap_cons, List.length_append, List.length_cons, Nat.succ_mul]
      have := length_traced_le arch abi sysnums
      omega

section Sections

variable {arch : Arch} {sysnums : List FilteredSysnum} {archs : List SeccompArch}
  {seccompArch : SeccompArch} (hmerged : Merged sysnums)

include hmerged

/-- **The section that is added** for an architecture; the sanity checks pass as long as the
program is short. -/
theorem addArchSection_eq {program : SockFprog} (ha : seccompArch ∈ arch.seccompArchs)
    (hlen : program.filter.length +
      (archSection seccompArch.value (tracedAll arch seccompArch.abis sysnums)).length < 2 ^ 16) :
    ∃ len, addArchSection arch sysnums program seccompArch = .ok ⟨len, program.filter ++
      archSection seccompArch.value (tracedAll arch seccompArch.abis sysnums)⟩ := by
  have habis : ∀ abi ∈ seccompArch.abis, ∃ table, getSysnums arch abi = some table :=
    fun abi h => getSysnums_of_mem ha h
  have hcount := foldlM_countTraced hmerged habis 0
  have hadd := foldlM_addTraced hmerged habis
  rw [Nat.zero_add] at hcount
  generalize tracedAll arch seccompArch.abis sysnums = calls at hlen hcount hadd ⊢
  rw [length_archSection] at hlen
  refine ⟨BitVec.ofNat 16 (program.filter.length + 4), ?_⟩
  have hstart : startArchSection program seccompArch.value calls.length =
      .ok ⟨BitVec.ofNat 16 (program.filter.length + 4), program.filter ++
        checkArch seccompArch.value (lengthEndSection + calls.length * lengthTraceSyscall)⟩ := by
    rw [startArchSection, if_neg]
    · simp [SockFprog.addStatements, checkArch]
    · have harch : archOffset.toNat = 4 := rfl
      have hsyscall : syscallOffset.toNat = 0 := rfl
      rw [harch, hsyscall, uint32Max, lengthEndSection, lengthTraceSyscall]
      omega
  simp only [addArchSection, hcount, hstart, hadd, bind, Except.bind]
  rw [endArchSection, if_neg]
  · simp [SockFprog.addStatements, archSection]
  · simp only [SockFprog.addStatements, BitVec.toNat_ofNat, List.length_append, checkArch,
      length_traceStatements, List.length_cons, List.length_nil, lengthEndSection]
    omega

def archSections (arch : Arch) (sysnums : List FilteredSysnum) (archs : List SeccompArch) :
    List Insn :=
  archs.flatMap fun seccompArch =>
    archSection seccompArch.value (tracedAll arch seccompArch.abis sysnums)

theorem foldlM_addArchSection
    (harchs : ∀ seccompArch ∈ archs, seccompArch ∈ arch.seccompArchs) (program : SockFprog)
    (hlen : program.filter.length + (archSections arch sysnums archs).length < 2 ^ 16) :
    ∃ len, archs.foldlM (addArchSection arch sysnums) program =
      .ok ⟨len, program.filter ++ archSections arch sysnums archs⟩ := by
  induction archs generalizing program with
  | nil => exact ⟨program.len, by simp [archSections]; rfl⟩
  | cons seccompArch archs ih =>
      obtain ⟨ha, harchs⟩ := List.forall_mem_cons.mp harchs
      simp only [archSections, List.flatMap_cons, List.length_append] at hlen
      obtain ⟨len, hstep⟩ := @addArchSection_eq arch sysnums _ hmerged program ha
        (by omega)
      obtain ⟨len', hrest⟩ := ih harchs ⟨len, program.filter ++
        archSection seccompArch.value (tracedAll arch seccompArch.abis sysnums)⟩
        (by rw [archSections, List.length_append]; omega)
      refine ⟨len', ?_⟩
      rw [foldlM_cons_ok hstep, hrest]
      simp [archSections]

theorem length_tracedAll_lt (ha : seccompArch ∈ arch.seccompArchs) :
    (tracedAll arch seccompArch.abis sysnums).length ≤ 2 * nbSysnum := by
  have habis : seccompArch.abis.length ≤ 2 := by
    cases arch <;>
      simp only [Arch.seccompArchs, List.mem_cons, List.not_mem_nil, or_false] at ha <;>
      rcases ha with rfl | rfl <;> decide
  calc (tracedAll arch seccompArch.abis sysnums).length
      ≤ seccompArch.abis.length * sysnums.length := length_tracedAll_le _ _ _
    _ ≤ 2 * nbSysnum := Nat.mul_le_mul habis hmerged.length_le

theorem length_archSections_le (harchs : ∀ seccompArch ∈ archs, seccompArch ∈ arch.seccompArchs) :
    (archSections arch sysnums archs).length ≤ archs.length * (5 + 2 * (2 * nbSysnum)) := by
  induction archs with
  | nil => simp [archSections]
  | cons seccompArch archs ih =>
      obtain ⟨ha, harchs⟩ := List.forall_mem_cons.mp harchs
      have hrest := ih harchs
      have hlen := length_tracedAll_lt hmerged ha
      rw [archSections] at hrest
      rw [archSections, List.flatMap_cons, List.length_append, length_archSection,
        List.length_cons, Nat.add_mul, Nat.one_mul]
      omega

/-- **The program that is built**: the sections, and a statement that kills. -/
theorem setSeccompFilters_eq : ∃ program, setSeccompFilters arch sysnums = .ok program ∧
      program.filter = archSections arch sysnums arch.seccompArchs ++ [.retK seccompRetKill] ∧
      program.len.toNat = program.filter.length := by
  have hlen := length_archSections_le hmerged fun _ (ha : _ ∈ arch.seccompArchs) => ha
  have harchs : arch.seccompArchs.length ≤ 2 := by cases arch <;> decide
  have hle := Nat.mul_le_mul_right (5 + 2 * (2 * nbSysnum)) harchs
  rw [nbSysnum] at hle hlen
  obtain ⟨len, h⟩ := @foldlM_addArchSection arch sysnums arch.seccompArchs hmerged
    (fun _ ha => ha) newProgramFilter
    (by simp only [newProgramFilter, List.length_nil]; omega)
  refine ⟨_, by rw [setSeccompFilters, h]; rfl, ?_, ?_⟩
  · simp [finalizeProgramFilter, SockFprog.addStatements, newProgramFilter]
  · simp only [finalizeProgramFilter, SockFprog.addStatements, newProgramFilter,
      List.nil_append, List.length_append, List.length_cons, List.length_nil, BitVec.toNat_ofNat]
    omega

end Sections

/-! ## What is built means what the list says -/

theorem hasNumber_iff {abis : List Abi} {nr : BitVec 32} :
    hasNumber arch abis nr sysnum = true ↔
      ∃ abi ∈ abis, ∃ table, getSysnums arch abi = some table ∧
        table.sysnum? nr.toNat = some sysnum := by
  simp [hasNumber, List.any_eq_true, Option.bind_eq_some_iff]

theorem sysnum?_below {table : Sysnums} {number : Nat}
    (h : getSysnums arch abi = some table) (hoff : table.offset = 0)
    (hn : table.sysnum? number = some sysnum) : number < 0x40000000 := by
  have hsound := getSysnums_sound h
  by_contra hge
  rw [Sysnums.sysnum?_eq_none (by have := hsound.length; omega)] at hn
  cases hn

theorem sysnum?_above {table : Sysnums} {number : Nat}
    (hn : table.sysnum? number = some sysnum) : table.offset ≤ number := by
  by_contra hlt
  rw [Sysnums.sysnum?, if_neg hlt] at hn
  cases hn

theorem hasNumber_unique {nr : BitVec 32} {sysnum' : Sysnum} (ha : seccompArch ∈ arch.seccompArchs)
    (h : hasNumber arch seccompArch.abis nr sysnum = true)
    (h' : hasNumber arch seccompArch.abis nr sysnum' = true) : sysnum = sysnum' := by
  obtain ⟨abi, habi, table, ht, hn⟩ := hasNumber_iff.mp h
  obtain ⟨abi', habi', table', ht', hn'⟩ := hasNumber_iff.mp h'
  have same (heq : abi = abi') : sysnum = sysnum' := by
    subst heq
    rw [ht, Option.some.injEq] at ht'
    subst ht'
    exact Option.some.inj (hn.symm.trans hn')
  have apart (abi : Abi) {low high : Sysnums} {s s' : Sysnum}
      (hlow : getSysnums arch abi = some low) (hoff : low.offset = 0)
      (hhigh : high.offset = 0x40000000) (hs : low.sysnum? nr.toNat = some s)
      (hs' : high.sysnum? nr.toNat = some s') : False := by
    have hlt := sysnum?_below hlow hoff hs
    have hge := sysnum?_above hs'
    omega
  cases arch with
  | ARCH_X86_64 =>
      simp only [Arch.seccompArchs, List.mem_cons, List.not_mem_nil, or_false] at ha
      rcases ha with rfl | rfl
      · simp only [List.mem_cons, List.not_mem_nil, or_false] at habi habi'
        rcases habi with rfl | rfl
        · rcases habi' with rfl | rfl
          · exact same rfl
          · cases ht'
            cases ht
            exact (apart .ABI_DEFAULT rfl rfl rfl hn hn').elim
        · rcases habi' with rfl | rfl
          · cases ht'
            cases ht
            exact (apart .ABI_DEFAULT rfl rfl rfl hn' hn).elim
          · exact same rfl
      · exact same ((List.mem_singleton.mp habi).trans (List.mem_singleton.mp habi').symm)
  | ARCH_ARM64 =>
      simp only [Arch.seccompArchs, List.mem_cons, List.not_mem_nil, or_false] at ha
      rcases ha with rfl | rfl <;>
        exact same ((List.mem_singleton.mp habi).trans (List.mem_singleton.mp habi').symm)
  | ARCH_ARM_EABI | ARCH_X86 =>
      cases List.mem_singleton.mp ha
      exact same ((List.mem_singleton.mp habi).trans (List.mem_singleton.mp habi').symm)
  | ARCH_SH4 => cases ha

theorem flagsWhere_eq_some {p : Sysnum → Bool}
    {sysnum : FilteredSysnum} (hnodup : (sysnums.map (·.value)).Nodup) (hs : sysnum ∈ sysnums)
    (hp : ∀ v, p v = true ↔ v = sysnum.value) : flagsWhere p sysnums = some sysnum.flags := by
  have absent (l : List FilteredSysnum) (h : sysnum.value ∉ l.map (·.value)) :
      flagsWhere p l = none := by
    induction l with
    | nil => rfl
    | cons head l ih =>
        simp only [List.map_cons, List.mem_cons, not_or] at h
        rw [flagsWhere, if_neg (fun hhead => h.1 ((hp _).mp hhead).symm)]
        exact ih h.2
  induction sysnums with
  | nil => cases hs
  | cons head sysnums ih =>
      obtain ⟨hfresh, hnodup⟩ := List.nodup_cons.mp hnodup
      cases List.mem_cons.mp hs with
      | inl heq =>
          subst heq
          rw [flagsWhere, if_pos ((hp _).mpr rfl), absent _ hfresh]
          simp
      | inr hs =>
          have hne : head.value ≠ sysnum.value := by
            intro heq
            have hmem : sysnum.value ∈ sysnums.map (·.value) := List.mem_map_of_mem hs
            exact hfresh (by simpa only [heq] using hmem)
          rw [flagsWhere, if_neg (fun hhead => hne ((hp _).mp hhead))]
          exact ih hnodup hs

theorem flagsWhere_eq_none {p : Sysnum → Bool}
    (h : ∀ sysnum ∈ sysnums, p sysnum.value = false) : flagsWhere p sysnums = none := by
  induction sysnums with
  | nil => rfl
  | cons head sysnums ih =>
      obtain ⟨hhead, h⟩ := List.forall_mem_cons.mp h
      rw [flagsWhere, if_neg (by simp [hhead])]
      exact ih h

section Answers

variable {arch : Arch} {sysnums : List FilteredSysnum} {archs : List SeccompArch}
  {seccompArch : SeccompArch} (hmerged : Merged sysnums)

include hmerged

theorem mem_tracedAll_iff
    (ha : seccompArch ∈ arch.seccompArchs) (nr : BitVec 32) (flags : BitVec 64) :
    (∃ number, (number, flags) ∈ tracedAll arch seccompArch.abis sysnums ∧
        BitVec.ofNat 32 number = nr) ↔
      ∃ sysnum ∈ sysnums, hasNumber arch seccompArch.abis nr sysnum.value = true ∧
        sysnum.flags = flags := by
  simp only [tracedAll, List.mem_flatMap]
  constructor
  · rintro ⟨number, ⟨abi, habi, hmem⟩, rfl⟩
    obtain ⟨table, h⟩ := getSysnums_of_mem ha habi
    obtain ⟨sysnum, hs, hnumber, hflags⟩ := (mem_traced_iff h hmerged.value _).mp hmem
    have hlt := sysnum?_lt h hnumber
    have hto : (BitVec.ofNat 32 number).toNat = number := by
      rw [BitVec.toNat_ofNat]
      omega
    exact ⟨sysnum, hs, hasNumber_iff.mpr ⟨abi, habi, table, h, by rw [hto]; exact hnumber⟩, hflags⟩
  · rintro ⟨sysnum, hs, hnumber, hflags⟩
    obtain ⟨abi, habi, table, h, hn⟩ := hasNumber_iff.mp hnumber
    refine ⟨nr.toNat, ⟨abi, habi, ?_⟩, by simp⟩
    exact (mem_traced_iff h hmerged.value _).mpr ⟨sysnum, hs, hn, hflags⟩

theorem answer_tracedAll (ha : seccompArch ∈ arch.seccompArchs) (nr : BitVec 32) :
    answer (tracedAll arch seccompArch.abis sysnums) nr =
      match flagsWhere (hasNumber arch seccompArch.abis nr) sysnums with
      | none => seccompRetAllow
      | some flags => seccompRetTrace + flags.setWidth 32 := by
  have hiff := mem_tracedAll_iff hmerged ha nr
  rw [answer]
  cases hfind : (tracedAll arch seccompArch.abis sysnums).find?
      (fun call => BitVec.ofNat 32 call.1 = nr) with
  | none =>
      rw [flagsWhere_eq_none]
      intro sysnum hs
      by_contra hp
      rw [Bool.not_eq_false] at hp
      obtain ⟨number, hmem, hnr⟩ := (hiff sysnum.flags).mpr ⟨sysnum, hs, hp, rfl⟩
      have := List.find?_eq_none.mp hfind _ hmem
      simp [hnr] at this
  | some call =>
      have hnr : BitVec.ofNat 32 call.1 = nr := by simpa using List.find?_some hfind
      obtain ⟨sysnum, hs, hp, hflags⟩ :=
        (hiff call.2).mp ⟨call.1, List.mem_of_find?_eq_some hfind, hnr⟩
      rw [flagsWhere_eq_some hmerged.nodup hs, hflags]
      intro v
      constructor
      · exact fun hv => hasNumber_unique ha hv hp
      · exact fun hv => hv ▸ hp

theorem archSections_landsNear (harchs : ∀ seccompArch ∈ archs, seccompArch ∈ arch.seccompArchs) :
    LandsNear (archSections arch sysnums archs) := by
  induction archs with
  | nil => exact landsNear_nil
  | cons seccompArch archs ih =>
      obtain ⟨ha, harchs⟩ := List.forall_mem_cons.mp harchs
      have hshort := length_tracedAll_lt hmerged ha
      rw [nbSysnum] at hshort
      exact (archSection_landsNear _ _ (by omega)).append (ih harchs)

end Answers

theorem exec_archSections (data : SeccompData) (hmerged : Merged sysnums) {archs : List SeccompArch}
    (harchs : ∀ seccompArch ∈ archs, seccompArch ∈ arch.seccompArchs) (acc : BitVec 32) :
    exec data.load (archSections arch sysnums archs ++ [.retK seccompRetKill]) acc =
      match archs.find? (·.value = data.arch) with
      | none => some seccompRetKill
      | some seccompArch =>
          some (answer (tracedAll arch seccompArch.abis sysnums) data.nr) := by
  induction archs generalizing acc with
  | nil => simp [archSections]
  | cons seccompArch archs ih =>
      obtain ⟨ha, harchs⟩ := List.forall_mem_cons.mp harchs
      have hshort : (tracedAll arch seccompArch.abis sysnums).length < 2 ^ 16 := by
        have := length_tracedAll_lt hmerged ha
        rw [nbSysnum] at this
        omega
      rw [archSections] at ih
      rw [archSections, List.flatMap_cons, List.append_assoc,
        exec_archSection data _ _ hshort, ih harchs]
      by_cases hvalue : seccompArch.value = data.arch
      · simp [hvalue]
      · simp [hvalue]

theorem and_high_eq_zero {low mask : BitVec 32} (hlow : low.toNat < 2 ^ 16)
    (hmask : mask.toNat % 2 ^ 16 = 0) : low &&& mask = 0 := by
  apply BitVec.eq_of_toNat_eq
  rw [BitVec.toNat_and]
  apply Nat.eq_of_testBit_eq
  intro i
  rw [Nat.testBit_and]
  rcases Nat.lt_or_ge i 16 with hi | hi
  · have hbit := Nat.testBit_mod_two_pow mask.toNat 16 i
    rw [hmask, decide_eq_true hi] at hbit
    simpa using fun _ => hbit.symm
  · have hlt : low.toNat < 2 ^ i :=
      Nat.lt_of_lt_of_le hlow (Nat.pow_le_pow_right (by omega) hi)
    rw [Nat.testBit_lt_two_pow hlt]
    simp

theorem toNat_retData (ret : BitVec 32) : (retData ret).toNat = ret.toNat % 2 ^ 16 := by
  rw [retData, BitVec.toNat_and]
  exact Nat.and_two_pow_sub_one_eq_mod ret.toNat 16

theorem trace_is_iff_fits (flags : BitVec 64) :
    (Verdict.trace flags).Is (Verdict.trace flags).ret ↔ (Verdict.trace flags).Fits := by
  have hlen := toNat_retData (seccompRetTrace + flags.setWidth 32)
  constructor
  · intro h
    have hdata := congrArg BitVec.toNat h.2
    rw [Verdict.ret, BitVec.toNat_setWidth] at hdata
    rw [Verdict.Fits]
    omega
  · intro h
    rw [Verdict.Fits] at h
    have hlow : (flags.setWidth 32).toNat < 2 ^ 16 := by
      rw [BitVec.toNat_setWidth]
      omega
    constructor
    · have hzero : seccompRetTrace &&& flags.setWidth 32 = 0 := by
        rw [BitVec.and_comm]
        exact and_high_eq_zero hlow (by decide)
      have hmask : flags.setWidth 32 &&& 0xffff0000 = 0 := and_high_eq_zero hlow (by decide)
      rw [retAction, Verdict.ret, BitVec.add_eq_or_of_and_eq_zero _ _ hzero, BitVec.and_or_distrib_right, hmask]
      decide
    · apply BitVec.eq_of_toNat_eq
      rw [Verdict.ret, BitVec.toNat_setWidth, hlen, BitVec.toNat_add, BitVec.toNat_setWidth]
      have htrace : seccompRetTrace.toNat = 0x7ff00000 := rfl
      omega

/-- **What the program answers**, whatever PRoot is built for and whatever the extensions list. -/
theorem enableSyscallFiltering_run (build : Build)
    (extensions : List (Option (List FilteredSysnum))) :
    ∃ program, enableSyscallFiltering build extensions = .ok program ∧
      program.len.toNat = program.filter.length ∧ LandsInside program.filter ∧
      ∀ data, program.run data = some (verdict build extensions data).ret := by
  have hmerged := filteredSysnums_merged build extensions
  have hall : ∀ a ∈ build.arch.seccompArchs, a ∈ build.arch.seccompArchs := fun _ ha => ha
  obtain ⟨program, hprogram, hfilter, hlen⟩ := @setSeccompFilters_eq build.arch _ hmerged
  refine ⟨program, hprogram, hlen, ?_, ?_⟩
  · rw [hfilter]
    exact (archSections_landsNear hmerged hall).retK _
  · intro data
    have hrun := exec_archSections data hmerged hall 0
    rw [← hfilter, ← List.take_length (l := program.filter), ← hlen] at hrun
    change program.run data = _ at hrun
    rw [hrun, verdict]
    cases hfind : build.arch.seccompArchs.find? (·.value = data.arch) with
    | none => rfl
    | some seccompArch =>
        have ha := List.mem_of_find?_eq_some hfind
        simp only [answer_tracedAll hmerged ha, flagsWhere_filteredSysnums]
        cases flagsWhere (hasNumber build.arch seccompArch.abis data.nr)
          (listedSysnums build extensions) <;> rfl

/-- **The filter means the lists**: a program is built, its jumps land inside it, and it answers
every system call with the verdict of the lists, exactly when the flags of the system call fit in
the data of an answer. -/
theorem seccompFilter_means_sysnums (build : Build)
    (extensions : List (Option (List FilteredSysnum))) :
    ∃ program, enableSyscallFiltering build extensions = .ok program ∧
      program.len.toNat = program.filter.length ∧ LandsInside program.filter ∧
      ∀ data, ∃ ret, program.run data = some ret ∧
        ((verdict build extensions data).Is ret ↔ (verdict build extensions data).Fits) := by
  obtain ⟨program, hprogram, hlen, hlands, hrun⟩ := enableSyscallFiltering_run build extensions
  refine ⟨program, hprogram, hlen, hlands, ?_⟩
  intro data
  refine ⟨_, hrun data, ?_⟩
  cases verdict build extensions data with
  | trace flags => exact trace_is_iff_fits flags
  | allow | kill => simp [Verdict.Is, Verdict.Fits, Verdict.ret]

/-- Flags above the data of an answer: read(2) on x86_64, listed with the flag `0x100000`, is
answered with an action that is none of the three. -/
theorem seccompFilter_not_means_sysnums : ∃ program ret,
      enableSyscallFiltering ⟨.ARCH_X86_64, false⟩ [some [⟨PR_read, 0x100000⟩]] = .ok program ∧
      program.run ⟨0, 0xC000003E⟩ = some ret ∧
      verdict ⟨.ARCH_X86_64, false⟩ [some [⟨PR_read, 0x100000⟩]] ⟨0, 0xC000003E⟩ =
        .trace 0x100000 ∧
      ret = 0x80000000 ∧ ¬ (Verdict.trace 0x100000).Is ret := by
  obtain ⟨program, hprogram, -, -, hrun⟩ :=
    enableSyscallFiltering_run ⟨.ARCH_X86_64, false⟩ [some [⟨PR_read, 0x100000⟩]]
  have hverdict : verdict ⟨.ARCH_X86_64, false⟩ [some [⟨PR_read, 0x100000⟩]] ⟨0, 0xC000003E⟩ =
      .trace 0x100000 := by decide +kernel
  refine ⟨program, _, hprogram, hrun _, hverdict, ?_, ?_⟩
  · rw [hverdict]
    decide
  · rw [hverdict]
    intro h
    exact absurd h.1 (by decide)

end Improot.Syscall
