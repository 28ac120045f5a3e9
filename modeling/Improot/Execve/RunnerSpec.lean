import Improot.Execve.AoxpFront
import Improot.Execve.ExpandShebangSpec
import Improot.Execve.Runner

/-!
# The command line of the emulator

The options of the emulator, those for the environment, argv[0], the path of the program and its
other arguments; the variables of the dynamic linker are for the emulated program only.
-/

namespace Improot.Execve

open Improot.Lib Improot.Path

/-! ## Variables of the dynamic linker -/

variable {env : Str} {pointer : Nat} {pointers : List Nat}

theorem isPrefixOf_of_isEnvName {name : Bytes} (h : isEnvName env name = true) :
    name <+: env.bytes := by
  have htake := (of_decide_eq_true h).2.2.2
  rw [← htake]
  exact List.take_prefix _ _

theorem isLd_of_isPassed (h : isPassed env = true) : isLd env = true := by
  obtain ⟨name, hname, henv⟩ := List.any_eq_true.mp h
  have hnames : ∀ name ∈ passedNames, (ascii "LD_").isPrefixOf name = true := by decide
  have hstarts := List.isPrefixOf_iff_prefix.mp (hnames name hname)
  exact List.isPrefixOf_iff_prefix.mpr (hstarts.trans (isPrefixOf_of_isEnvName henv))

theorem isPassed_of_library (h : isEnvName env ldLibraryPath = true) :
    isPassed env = true :=
  List.any_eq_true.mpr ⟨ldLibraryPath, List.mem_cons_self, h⟩

namespace LdsoPaths

variable (t : LdsoPaths) (env : Str)

theorem unswapped_cases : t.unswapped env = env ∨
    isEnvName env ldLibraryPath = true ∧ isEnvName (t.unswapped env) ldLibraryPath = true := by
  unfold unswapped
  split
  · rename_i guest _ hguest
    split
    · rename_i hswapped
      exact .inr ⟨hswapped.1, t.named _ hguest⟩
    · exact .inl rfl
  · exact .inl rfl

@[simp] theorem isPassed_unswapped : isPassed (t.unswapped env) = isPassed env := by
  cases t.unswapped_cases env with
  | inl heq => rw [heq]
  | inr hboth => rw [isPassed_of_library hboth.1, isPassed_of_library hboth.2]

@[simp] theorem isEnvName_unswapped :
    isEnvName (t.unswapped env) ldLibraryPath = isEnvName env ldLibraryPath := by
  cases t.unswapped_cases env with
  | inl heq => rw [heq]
  | inr hboth => rw [hboth.1, hboth.2]

end LdsoPaths

/-! ## What is expected -/

/-- The options for the environment, where `passes` says which variables are handed over: the last
variable comes first. -/
def environmentOptions (passes : Str → Bool) (t : LdsoPaths) : List Str → List Str
  | [] => []
  | env :: envs =>
    environmentOptions passes t envs ++ (if passes env then [dashE, t.unswapped env] else [])

/-- LD_LIBRARY_PATH is for the emulator, when the program has none. -/
def libraryOption (envs : List Str) : List Str :=
  if envs.any (isEnvName · ldLibraryPath) then [] else [dashU, .upTo ldLibraryPath]

def commandLine (passes : Str → Bool) (qemu : Emulator) (t : LdsoPaths) (userPath : Str)
    (args envs : List Str) : List Str :=
  qemu.arguments ++ (libraryOption envs ++ environmentOptions passes t envs) ++
    (dash0 :: args.take 1 ++ [userPath])

/-- The variables that are left for the emulator: one that is handed over is emptied. -/
def remaining (passes : Str → Bool) (envs : List Str) : List Str :=
  envs.map fun env => if passes env then .upTo [] else env

def forgedEntry (x : LdsoHost) (elf : HostElf) : List (Option Str) :=
  (x.paths elf).toList.map forgeLdLibraryPath

def emulatorEnvironment (passes : Str → Bool) (x : LdsoHost) (elf : HostElf) (envs : List Str) :
    List (Option Str) :=
  (remaining passes envs).map some ++ forgedEntry x elf

/-- **The command line of the emulator is built**: `expand_runner` succeeds, the arguments of the
program but the first one come after the command line, and the variables of the dynamic linker go to
the emulated program only. -/
def BuildsCommandLine (t : RunnerMemory) (x : LdsoHost) (elf : HostElf) (qemu : Emulator)
    (paths : LdsoPaths) (skipLoader : Bool) (hostPath userPath : Str) (pointers : List Nat)
    (args envs : List Str) : Prop :=
  ∃ runner m', expandRunner t x qemu paths false skipLoader hostPath userPath = (.ok runner, m') ∧
    runner.hostPath = qemu.command ∧
    ReadsBack m' t.word runner.argv
      ((commandLine isLd qemu paths userPath args envs ++ args.tail).map some)
      ((commandLine isLd qemu paths userPath args envs).map (fun _ => none) ++
        pointers.tail.map some) ∧
    ReadsBack m' t.word runner.envp (emulatorEnvironment isLd x elf envs)
      ((emulatorEnvironment isLd x elf envs).map fun _ => none)

def environmentArray (x : LdsoHost) (elf : HostElf) (entries : List XPointer) : List XPointer :=
  entries ++ (forgedEntry x elf).map (fun cached => ⟨0, cached⟩) ++ [XPointer.null]

/-- What `alloc_mem` promises of two blocks for arrays of these sizes: they can be written and don't
overlap, neither holds a string of argv, and the first one doesn't hold envp. -/
structure RunnerMemory.Allocates (t : RunnerMemory) (argvSize envpSize : Nat)
    (pointers envPointers : List Nat) (argvPtr envpPtr : Nat) : Prop where
  argvAlloc : t.argvAlloc argvSize = some argvPtr
  envpAlloc : t.envpAlloc envpSize = some envpPtr
  argvFits : 0 < argvPtr ∧ argvPtr + argvSize ≤ 256 ^ t.word
  envpFits : 0 < envpPtr ∧ envpPtr + envpSize ≤ 256 ^ t.word
  argvWritable : t.memory.Writable argvPtr argvSize
  envpWritable : t.memory.Writable envpPtr envpSize
  disjoint : argvPtr + argvSize ≤ envpPtr ∨ envpPtr + envpSize ≤ argvPtr
  argvStrings : ∀ pointer ∈ pointers, ∀ s, PointsTo t.memory pointer (some s) →
    pointer + s.stored.length ≤ argvPtr ∨ argvPtr + argvSize ≤ pointer
  envpStrings : ∀ pointer ∈ pointers, ∀ s, PointsTo t.memory pointer (some s) →
    pointer + s.stored.length ≤ envpPtr ∨ envpPtr + envpSize ≤ pointer
  table : t.envp + (tableBytes t.word (envPointers ++ [0])).length ≤ argvPtr ∨
    argvPtr + argvSize ≤ t.envp

/-! ## Writing and inserting -/

theorem writeXpointees_eq (pre front rest : List XPointer) (strings : List Str)
    (h : front.length = strings.length) :
    writeXpointees (pre ++ (front ++ rest)) pre.length strings =
      .ok (pre ++ (List.zipWith (fun x s => x.written s) front strings ++ rest)) := by
  induction strings generalizing pre front with
  | nil =>
      rw [List.eq_nil_of_length_eq_zero h]
      rfl
  | cons s strings ih =>
      cases front with
      | nil => cases h
      | cons x front =>
          have hget : (pre ++ (x :: front ++ rest))[pre.length]? = some x := by simp
          have hset : (pre ++ (x :: front ++ rest)).set pre.length (x.written s) =
              (pre ++ [x.written s]) ++ (front ++ rest) := by simp
          have hlength : pre.length + 1 = (pre ++ [x.written s]).length := by simp
          rw [writeXpointees, writeXpointeeAsString, hget]
          show writeXpointees (List.set _ _ (x.written s)) _ _ = _
          rw [hset, hlength, ih _ _ (Nat.succ.inj h)]
          simp

theorem written_fields {front : List XPointer} {strings : List Str}
    (h : front.length = strings.length) :
    (List.zipWith (fun x s => XPointer.written s x) front strings).map XPointer.cached =
        strings.map some ∧
      (List.zipWith (fun x s => XPointer.written s x) front strings).map XPointer.remote =
        front.map XPointer.remote := by
  induction strings generalizing front with
  | nil =>
      rw [List.eq_nil_of_length_eq_zero h]
      exact ⟨rfl, rfl⟩
  | cons s strings ih =>
      cases front with
      | nil => cases h
      | cons x front =>
          obtain ⟨hcached, hremote⟩ := ih (Nat.succ.inj h)
          constructor
          · rw [List.zipWith_cons_cons, List.map_cons, hcached]
            rfl
          · rw [List.zipWith_cons_cons, List.map_cons, hremote]
            rfl

theorem writeXpointees_append (array : List XPointer) (index : Nat) (strings strings' : List Str) :
    writeXpointees array index (strings ++ strings') =
      match writeXpointees array index strings with
      | .error f => .error f
      | .ok array => writeXpointees array (index + strings.length) strings' := by
  induction strings generalizing array index with
  | nil => rfl
  | cons s strings ih =>
      rw [List.cons_append, writeXpointees, writeXpointees]
      cases writeXpointeeAsString array index s with
      | error f => rfl
      | ok array =>
          simp only
          rw [ih, List.length_cons, Nat.add_assoc, Nat.add_comm 1]

theorem insertOption_eq {front back : List XPointer} (hback : back ≠ []) (option value : Str) :
    insertOption (front ++ back) front.length option value =
      .ok (front ++ (localEntries [option, value] ++ back)) := by
  have hlength : ¬ (front ++ back).length ≤ front.length := by
    have hpos := List.length_pos_iff.mpr hback
    rw [List.length_append]
    omega
  have hwrite := writeXpointees_eq front [.null, .null] back [option, value] rfl
  rw [insertOption, resizeArrayOfXpointers, if_neg hlength, if_neg (by decide),
    if_pos (by decide), List.take_left, List.drop_left, List.append_assoc]
  exact hwrite

/-! ## The environment -/

def Readable (r : Reader) (m : Memory) (pointer : Nat) (s : Str) : Prop :=
  PointsTo m pointer (some s) ∧ r.localString m pointer = .ok s

def passedEntries (pointers : List Nat) (envs : List Str) : List XPointer :=
  List.zipWith (fun pointer env => ⟨pointer, some (if isPassed env then .upTo [] else env)⟩)
    pointers envs

section Loop

variable {r : Reader} {m : Memory} {t : LdsoPaths}

theorem read_fetched {s : Str} (h : Readable r m pointer s) (done rest : List XPointer) :
    readXpointeeAsString r m (done ++ (⟨pointer, none⟩ :: rest)) done.length =
      .ok (some s, done ++ (⟨pointer, some s⟩ :: rest)) := by
  have hget : (done ++ ((⟨pointer, none⟩ : XPointer) :: rest))[done.length]? =
      some ⟨pointer, none⟩ := by simp
  rw [readXpointeeAsString, hget]
  simp only
  rw [if_neg h.1.1, h.2]
  simp

theorem passthruLoop_turn (h : Readable r m pointer env)
    (done rest front back : List XPointer) (hback : back ≠ []) (n : Nat) (seen : Bool) :
    passthruLoop r m t dashE front.length (n + 1) done.length
        (done ++ (⟨pointer, none⟩ :: rest)) (front ++ back) seen =
      passthruLoop r m t dashE front.length n (done.length + 1)
        (done ++ (⟨pointer, some (if isPassed env then .upTo [] else env)⟩ :: rest))
        (front ++ (localEntries (if isPassed env then [dashE, t.unswapped env] else []) ++ back))
        (seen || isEnvName env ldLibraryPath) := by
  have hget : (done ++ ((⟨pointer, some env⟩ : XPointer) :: rest))[done.length]? =
      some ⟨pointer, some env⟩ := by simp
  rw [passthruLoop, read_fetched h]
  simp only [LdsoPaths.isPassed_unswapped, LdsoPaths.isEnvName_unswapped]
  cases hpassed : isPassed env with
  | true =>
      rw [if_neg (not_not_intro (isLd_of_isPassed hpassed)), if_pos rfl, insertOption_eq hback]
      simp only
      rw [writeXpointeeAsString, hget]
      simp
  | false =>
      have hlibrary : isEnvName env ldLibraryPath = false := by
        cases hlibrary : isEnvName env ldLibraryPath with
        | false => rfl
        | true =>
            rw [isPassed_of_library hlibrary] at hpassed
            cases hpassed
      rw [if_neg Bool.false_ne_true, hlibrary, Bool.or_false, ite_self]
      rfl

/-- **The loop** of `ldso_env_passthru`: what is behind `front` in argv gets the options. -/
theorem passthruLoop_run {envs : List Str}
    (h : List.Forall₂ (Readable r m) pointers envs) (done front back : List XPointer)
    (hback : back ≠ []) (seen : Bool) :
    passthruLoop r m t dashE front.length (pointers.length + 1) done.length
        (done ++ (fetchedEntries pointers ++ [XPointer.null])) (front ++ back) seen =
      .ok (done ++ (passedEntries pointers envs ++ [XPointer.null]),
        front ++ (localEntries (environmentOptions isPassed t envs) ++ back),
        seen || envs.any (isEnvName · ldLibraryPath)) := by
  induction h generalizing done back seen with
  | nil =>
      -- the NULL pointer at the end
      have hread : readXpointeeAsString r m (done ++ [XPointer.null]) done.length =
          .ok (none, done ++ [XPointer.null]) := by
        have hget : (done ++ [XPointer.null])[done.length]? = some .null := by simp
        rw [readXpointeeAsString, hget]
        rfl
      show passthruLoop r m t dashE front.length 1 done.length (done ++ [XPointer.null]) _ seen = _
      rw [passthruLoop, hread]
      simp [passthruLoop, passedEntries, environmentOptions, localEntries]
  | @cons pointer env pointers envs hfirst hrest ih =>
      have hback' : localEntries (if isPassed env then [dashE, t.unswapped env] else []) ++ back ≠
          [] := by
        intro hnil
        exact hback (List.append_eq_nil_iff.mp hnil).2
      have hturn := passthruLoop_turn (t := t) hfirst done
        (fetchedEntries pointers ++ [XPointer.null]) front back hback (pointers.length + 1) seen
      have hnext := ih (done ++ [⟨pointer, some (if isPassed env then .upTo [] else env)⟩])
        _ hback' (seen || isEnvName env ldLibraryPath)
      rw [List.length_append, List.length_singleton, List.append_assoc] at hnext
      refine hturn.trans (hnext.trans ?_)
      simp [passedEntries, environmentOptions, localEntries, Bool.or_assoc]

end Loop

section Arrays

variable {r : Reader} {m : Memory} {t : LdsoPaths} {pointers : List Nat} {envs : List Str}

/-- **The options** are inserted into argv, and the variables that are handed over are emptied. -/
theorem ldsoEnvPassthru_eq (h : List.Forall₂ (Readable r m) pointers envs)
    (front back : List XPointer) (hback : back ≠ []) :
    ldsoEnvPassthru r m t dashE front.length (fetchedEntries pointers ++ [XPointer.null])
        (front ++ back) dashU =
      .ok (passedEntries pointers envs ++ [XPointer.null], front ++
        (localEntries (libraryOption envs ++ environmentOptions isPassed t envs) ++ back)) := by
  have hrun := passthruLoop_run (t := t) h [] front back hback false
  have hlength : (fetchedEntries pointers ++ [XPointer.null]).length = pointers.length + 1 := by
    simp [fetchedEntries]
  rw [List.nil_append, List.nil_append, List.length_nil, Bool.false_or] at hrun
  rw [ldsoEnvPassthru, hlength, hrun, libraryOption]
  cases envs.any (isEnvName · ldLibraryPath) with
  | true => rfl
  | false =>
      have hback' : localEntries (environmentOptions isPassed t envs) ++ back ≠ [] := by
        intro hnil
        exact hback (List.append_eq_nil_iff.mp hnil).2
      simp only
      rw [if_neg Bool.false_ne_true, insertOption_eq hback']
      simp [localEntries]

/-- The front of argv becomes the command line of the emulator. -/
theorem insertEmulator_eq (qemu : Emulator) {argv0 : Str}
    (h : Readable r m pointer argv0) (pointers : List Nat) (userPath : Str) :
    ∃ front, insertEmulator r m qemu (fetchedEntries (pointer :: pointers) ++ [XPointer.null])
        userPath = .ok (front ++ (fetchedEntries pointers ++ [XPointer.null])) ∧
      front.map XPointer.cached =
        (qemu.arguments ++ [dash0, argv0, userPath]).map some ∧
      (front.map XPointer.remote).filter (· ≠ 0) = [pointer] := by
  let blank : List XPointer :=
    ⟨pointer, some argv0⟩ :: List.replicate (qemu.arguments.length + 2) .null
  let strings := qemu.arguments ++ [dash0, argv0, userPath]
  have hlength : blank.length = strings.length := by simp [blank, strings]
  have hread := read_fetched h [] (fetchedEntries pointers ++ [XPointer.null])
  have hresize : resizeArrayOfXpointers
      (⟨pointer, some argv0⟩ :: (fetchedEntries pointers ++ [XPointer.null])) 1
        (qemu.arguments.length + 2) =
      .ok (blank ++ (fetchedEntries pointers ++ [XPointer.null])) := by
    have hlt : ¬ ((⟨pointer, some argv0⟩ : XPointer) ::
        (fetchedEntries pointers ++ [XPointer.null])).length ≤ 1 := by simp
    rw [resizeArrayOfXpointers, if_neg hlt, if_neg (by omega), if_pos (by omega)]
    rfl
  have hwrite := writeXpointees_eq [] blank (fetchedEntries pointers ++ [XPointer.null]) strings
    hlength
  refine ⟨List.zipWith (fun x s => x.written s) blank strings, ?_, ?_, ?_⟩
  · rw [List.nil_append, List.length_nil, writeXpointees_append, Nat.zero_add] at hwrite
    have hread' : readXpointeeAsString r m (fetchedEntries (pointer :: pointers) ++
        [XPointer.null]) 0 =
        .ok (some argv0, ⟨pointer, some argv0⟩ :: (fetchedEntries pointers ++ [XPointer.null])) :=
      hread
    rw [insertEmulator, hread']
    simp only
    rw [hresize]
    simp only
    cases hfirst : writeXpointees (blank ++ (fetchedEntries pointers ++ [XPointer.null])) 0
        qemu.arguments with
    | error f =>
        rw [hfirst] at hwrite
        cases hwrite
    | ok argv =>
        rw [hfirst] at hwrite
        exact hwrite
  · exact (written_fields hlength).1
  · rw [(written_fields hlength).2]
    have hblank : blank.map XPointer.remote =
        pointer :: List.replicate (qemu.arguments.length + 2) 0 := by
      show pointer :: (List.replicate _ XPointer.null).map XPointer.remote = _
      rw [List.map_replicate]
      rfl
    rw [hblank]
    simp [h.1.1]

/-- The arrays of the emulator, for the two of the program. -/
theorem passArrays_eq {t : RunnerMemory} (qemu : Emulator) (paths : LdsoPaths)
    {argv0 : Str} (hargv0 : Readable t.reader t.memory pointer argv0) {envPointers : List Nat}
    (henvs : List.Forall₂ (Readable t.reader t.memory) envPointers envs) (pointers : List Nat)
    (userPath : Str) (args : List Str) :
    ∃ entries, passArrays t qemu paths userPath (fetchedEntries envPointers ++ [XPointer.null])
        (fetchedEntries (pointer :: pointers) ++ [XPointer.null]) =
        .ok (passedEntries envPointers envs ++ [XPointer.null], entries ++ [XPointer.null]) ∧
      Starts (pointer :: pointers)
        (commandLine isPassed qemu paths userPath (argv0 :: args) envs) entries := by
  obtain ⟨front, hinsert, hcached, hremotes⟩ := insertEmulator_eq qemu hargv0 pointers userPath
  have hlength : (front.take qemu.arguments.length).length = qemu.arguments.length := by
    have hfront := congrArg List.length hcached
    simp only [List.length_map, List.length_append] at hfront
    rw [List.length_take]
    omega
  have hback : front.drop qemu.arguments.length ++ (fetchedEntries pointers ++ [XPointer.null]) ≠
      [] := by simp
  have hpass := ldsoEnvPassthru_eq (t := paths) henvs (front.take qemu.arguments.length) _ hback
  rw [hlength] at hpass
  rw [← List.take_append_drop qemu.arguments.length front, List.append_assoc] at hinsert
  have hdrop : (front.drop qemu.arguments.length).map XPointer.cached =
      [dash0, argv0, userPath].map some := by
    rw [List.map_drop, hcached, List.map_append, List.drop_left' (List.length_map _)]
  have htake : (front.take qemu.arguments.length).map XPointer.cached =
      qemu.arguments.map some := by
    rw [List.map_take, hcached, List.map_append, List.take_left' (List.length_map _)]
  refine ⟨front.take qemu.arguments.length ++
    localEntries (libraryOption envs ++ environmentOptions isPassed paths envs) ++
      front.drop qemu.arguments.length ++ fetchedEntries pointers, ?_, ?_⟩
  · rw [passArrays, hinsert]
    simp only [hpass, List.append_assoc]
  · refine ⟨_, rfl, ?_, ?_⟩
    · rw [List.map_append, List.map_append, htake, hdrop, localEntries_cached, commandLine]
      simp
    · rw [List.map_append, List.map_append, List.filter_append, List.filter_append,
        filter_localEntries, List.append_nil, ← List.filter_append, ← List.map_append,
        List.take_append_drop, hremotes]
      exact List.Sublist.refl _

/-! ## LD_LIBRARY_PATH -/

theorem remaining_library :
    ∀ env ∈ remaining isPassed envs, isEnvName env ldLibraryPath = false := by
  intro env henv
  obtain ⟨env', -, rfl⟩ := List.mem_map.mp henv
  cases hpassed : isPassed env' with
  | true => rfl
  | false =>
      cases hlibrary : isEnvName env' ldLibraryPath with
      | false =>
          rw [if_neg Bool.false_ne_true]
          exact hlibrary
      | true =>
          rw [isPassed_of_library hlibrary] at hpassed
          cases hpassed

theorem passedEntries_cached (h : List.Forall₂ (Readable r m) pointers envs) :
    (passedEntries pointers envs).map XPointer.cached = (remaining isPassed envs).map some := by
  induction h with
  | nil => rfl
  | @cons pointer env pointers envs hfirst hrest ih =>
      show some _ :: (passedEntries pointers envs).map XPointer.cached = _
      rw [ih]
      rfl

theorem passedEntries_remote (h : List.Forall₂ (Readable r m) pointers envs) :
    (passedEntries pointers envs).map XPointer.remote = pointers := by
  induction h with
  | nil => rfl
  | @cons pointer env pointers envs hfirst hrest ih =>
      show pointer :: (passedEntries pointers envs).map XPointer.remote = _
      rw [ih]

theorem findXpointeeEnv_none {name : Bytes} {strings : List Str} {todo : List XPointer}
    (htodo : todo.map XPointer.cached = strings.map some)
    (hnone : ∀ s ∈ strings, isEnvName s name = false) (done : List XPointer) :
    findXpointeeEnv r m name (todo.length + 1) done.length (done ++ (todo ++ [XPointer.null])) =
      (.ok (done ++ (todo ++ [XPointer.null])).length, done ++ (todo ++ [XPointer.null])) := by
  induction todo generalizing done strings with
  | nil =>
      have hget : (done ++ [XPointer.null])[done.length]? = some .null := by simp
      rw [List.length_nil, List.nil_append, Nat.zero_add, findXpointeeEnv, readXpointeeAsString,
        hget]
      simp [XPointer.null, findXpointeeEnv]
  | cons x todo ih =>
      cases strings with
      | nil => cases htodo
      | cons s strings =>
          rw [List.map_cons, List.map_cons, List.cons.injEq] at htodo
          have hget : (done ++ (x :: (todo ++ [XPointer.null])))[done.length]? = some x := by simp
          have hnext := ih htodo.2 (fun s' hs' => hnone s' (List.mem_cons_of_mem _ hs'))
            (done ++ [x])
          rw [List.length_append, List.length_singleton, List.append_assoc] at hnext
          rw [List.length_cons, List.cons_append, findXpointeeEnv, readXpointeeAsString, hget]
          simp only [htodo.1]
          rw [if_neg (by rw [hnone s List.mem_cons_self]; exact Bool.false_ne_true)]
          exact hnext

theorem rebuildHostLdsoPaths_eq {x : LdsoHost} {elf : HostElf} {paths : LdsoPaths} {hostPath : Str}
    (helf : x.elf hostPath = .ok elf) {strings : List Str} {entries : List XPointer}
    (hentries : entries.map XPointer.cached = strings.map some)
    (hnone : ∀ s ∈ strings, isEnvName s ldLibraryPath = false) :
    ∃ paths', rebuildHostLdsoPaths r m x paths hostPath (entries ++ [XPointer.null]) =
      .ok (environmentArray x elf entries, paths') := by
  have hfind := findXpointeeEnv_none (r := r) (m := m) hentries hnone []
  rw [List.nil_append, List.length_nil] at hfind
  have hlength : (entries ++ [XPointer.null]).length = entries.length + 1 := by simp
  rw [rebuildHostLdsoPaths, helf, environmentArray, forgedEntry]
  simp only
  cases hpaths : x.paths elf with
  | none => exact ⟨paths, by simp⟩
  | some found =>
      have hresize : resizeArrayOfXpointers (entries ++ [XPointer.null]) entries.length 1 =
          .ok (entries ++ [XPointer.null] ++ [XPointer.null]) := by
        rw [resizeArrayOfXpointers, if_neg (by omega), if_neg (by decide), if_pos (by decide),
          List.take_left, List.drop_left]
        rfl
      have hentry : ldLibraryPathEntry r m paths (entries ++ [XPointer.null])
          (entries ++ [XPointer.null]).length =
          .ok (entries.length, entries ++ [XPointer.null] ++ [XPointer.null], paths) := by
        rw [ldLibraryPathEntry, if_pos rfl]
        simp only [hlength]
        rw [if_pos (Nat.zero_lt_succ _), Nat.add_sub_cancel, hresize]
      simp only [hlength, hfind]
      rw [← hlength, hentry]
      simp only
      cases hforged : forgeLdLibraryPath found with
      | none =>
          refine ⟨paths, ?_⟩
          simp [XPointer.null, hforged]
      | some forged =>
          have hget : (entries ++ [XPointer.null] ++ [XPointer.null])[entries.length]? =
              some .null := by simp
          have hwrite : writeXpointeeAsString (entries ++ [XPointer.null] ++ [XPointer.null])
              entries.length forged = .ok (entries ++ [⟨0, some forged⟩] ++ [XPointer.null]) := by
            rw [writeXpointeeAsString, hget]
            simp [XPointer.null]
          refine ⟨{ paths with host := paths.host.or (some forged) }, ?_⟩
          simp only [hwrite]
          simp [hforged]

/-! ## Pushing both arrays -/

/-- The array of the environment stands for the variables that remain, and the one that is forged.
-/
theorem represents_environment (x : LdsoHost) (elf : HostElf) (m' : Memory)
    (h : List.Forall₂ (Readable r m) pointers envs) :
    Represents m' pointers
      (passedEntries pointers envs ++ (forgedEntry x elf).map (fun cached => ⟨0, cached⟩))
      (emulatorEnvironment isPassed x elf envs)
      ((emulatorEnvironment isPassed x elf envs).map fun _ => none) := by
  have hcached := passedEntries_cached h
  refine ⟨?_, ?_, ?_⟩
  · refine List.rel_append (means_cached m' hcached) ?_
    apply List.forall₂_map_left_iff.mpr
    apply List.forall₂_same.mpr
    intro cached _
    cases cached with
    | none | some => exact rfl
  · rw [emulatorEnvironment, List.map_append, List.map_map]
    refine List.rel_append (keeps_cached hcached) ?_
    apply List.forall₂_map_left_iff.mpr
    apply List.forall₂_map_right_iff.mpr
    apply List.forall₂_same.mpr
    intro cached _ q hq
    cases hq
  · have hzeros : (((forgedEntry x elf).map fun cached => (⟨0, cached⟩ : XPointer)).map
        XPointer.remote).filter (· ≠ 0) = [] := by
      rw [List.map_map, List.filter_map, List.map_eq_nil_iff, List.filter_eq_nil_iff]
      intro cached _
      simp
    rw [List.map_append, List.filter_append, hzeros, List.append_nil, passedEntries_remote h]
    exact List.filter_sublist

/-- The environment that is pushed reads back as the emulator's. -/
theorem pushEnvironment_eq {t : RunnerMemory} {x : LdsoHost} {elf : HostElf} (paths : LdsoPaths)
    {hostPath : Str} (userPath : Str) (argv : Nat) {ptr : Nat} (helf : x.elf hostPath = .ok elf)
    (henvs : List.Forall₂ (Readable r m) pointers envs) {m₁ : Memory}
    (harray : ArrayOf m₁ t.word t.envp pointers)
    (halloc : t.envpAlloc (pushedSize t.word
      (environmentArray x elf (localEntries (remaining isPassed envs)))) = some ptr)
    (hfits : 0 < ptr ∧ ptr + pushedSize t.word
      (environmentArray x elf (localEntries (remaining isPassed envs))) ≤ 256 ^ t.word)
    (hwritable : m₁.Writable ptr (pushedSize t.word
      (environmentArray x elf (localEntries (remaining isPassed envs))))) :
    ∃ runner m₂, pushEnvironment t x paths hostPath userPath argv
        (passedEntries pointers envs ++ [XPointer.null]) m₁ = (.ok runner, m₂) ∧
      runner.hostPath = hostPath ∧ runner.argv = argv ∧
      ReadsBack m₂ t.word runner.envp (emulatorEnvironment isPassed x elf envs)
        ((emulatorEnvironment isPassed x elf envs).map fun _ => none) ∧
      ∃ bytes, (bytes = [] ∨ bytes.length = pushedSize t.word
          (environmentArray x elf (localEntries (remaining isPassed envs)))) ∧
        m₂ = (m₁.store ptr bytes).1 := by
  have hcached := passedEntries_cached henvs
  have hrep := represents_environment x elf m₁ henvs
  have hsize : pushedSize t.word (environmentArray x elf (passedEntries pointers envs)) =
      pushedSize t.word (environmentArray x elf (localEntries (remaining isPassed envs))) := by
    apply pushedSize_congr
    simp only [environmentArray, List.map_append, hcached, localEntries_cached]
  rw [← hsize] at halloc hfits hwritable ⊢
  obtain ⟨paths', hrebuild⟩ : ∃ paths', rebuildHostLdsoPaths t.reader m₁ x paths hostPath
      (passedEntries pointers envs ++ [XPointer.null]) =
        .ok (environmentArray x elf (passedEntries pointers envs), paths') :=
    rebuildHostLdsoPaths_eq helf hcached remaining_library
  unfold pushEnvironment
  rw [hrebuild]
  simp only
  rw [environmentArray] at halloc hfits hwritable ⊢
  by_cases hsome : ∃ e ∈ passedEntries pointers envs ++
      (forgedEntry x elf).map (fun cached => ⟨0, cached⟩), e.cached.isSome = true
  · rw [push_eq t.envp hsome halloc hwritable]
    have hlength := @length_pushedBlock t.word ptr (passedEntries pointers envs ++
      (forgedEntry x elf).map (fun cached => ⟨0, cached⟩) ++ [XPointer.null])
    refine ⟨_, _, rfl, rfl, rfl, ?_, _, .inr hlength, rfl⟩
    apply pushedBlock_readsBack hrep (fun p hp => (harray.fits p hp).2) hfits.1 hfits.2
    · apply Memory.load_store
      rw [Memory.store_ok, hlength]
      exact hwritable
    · -- every entry that isn't cached is NULL
      intro e he hc s hs
      cases List.mem_append.mp he with
      | inl he =>
          have hmem := List.mem_map_of_mem (f := XPointer.cached) he
          rw [hcached, hc] at hmem
          obtain ⟨_, _, heq⟩ := List.mem_map.mp hmem
          cases heq
      | inr he =>
          obtain ⟨_, _, rfl⟩ := List.mem_map.mp he
          exact absurd rfl hs.1
  · rw [push_uncached hsome]
    refine ⟨_, m₁, rfl, rfl, rfl, ?_, [], .inl rfl, rfl⟩
    -- there was no variable, and none is forged
    cases henvs with
    | cons hfirst hrest =>
        exact absurd ⟨_, List.mem_append_left _ List.mem_cons_self, rfl⟩ hsome
    | nil =>
        apply (unpushed_readsBack hrep harray .nil hsome).mpr
        cases hforged : emulatorEnvironment isPassed x elf [] with
        | nil => rfl
        | cons cached rest =>
            cases cached with
            | none => rfl
            | some s =>
                have hmem : some s ∈ forgedEntry x elf := by
                  have hall : some s ∈ emulatorEnvironment isPassed x elf [] := by
                    rw [hforged]
                    exact List.mem_cons_self
                  exact hall
                exact absurd ⟨_, List.mem_append_right _ (List.mem_map_of_mem hmem), rfl⟩ hsome

end Arrays

/-! ## expand_runner -/

section Runner

variable {t : RunnerMemory} {x : LdsoHost} {elf : HostElf} {qemu : Emulator} {paths : LdsoPaths}
  {skipLoader : Bool} {hostPath userPath : Str}

theorem argv_readsBack {m : Memory} {w ptr ptr' size size' : Nat}
    {entries : List XPointer} {strings : List (Option Str)} {kept : List (Option Nat)}
    (hrep : Represents m pointers entries strings kept) (hpointers : ∀ p ∈ pointers, p < 256 ^ w)
    (hsize : pushedSize w (entries ++ [XPointer.null]) = size)
    (hfits : 0 < ptr ∧ ptr + size ≤ 256 ^ w)
    (hwritable : m.Writable ptr size)
    (hdisjoint : ptr + size ≤ ptr' ∨ ptr' + size' ≤ ptr)
    (hstrings : ∀ pointer ∈ pointers, ∀ s, PointsTo m pointer (some s) →
      pointer + s.stored.length ≤ ptr ∨ ptr + size ≤ pointer)
    (hstrings' : ∀ pointer ∈ pointers, ∀ s, PointsTo m pointer (some s) →
      pointer + s.stored.length ≤ ptr' ∨ ptr' + size' ≤ pointer)
    {bytes : Bytes} (hbytes : bytes = [] ∨ bytes.length = size') :
    ReadsBack (((m.store ptr (pushedBlock w ptr (entries ++ [XPointer.null]))).1).store ptr' bytes).1
      w ptr strings kept := by
  subst hsize
  have hlength := @length_pushedBlock w ptr (entries ++ [XPointer.null])
  have hle : bytes.length ≤ size' := by
    cases hbytes with
    | inl hnil =>
        rw [hnil]
        exact Nat.zero_le size'
    | inr heq => exact Nat.le_of_eq heq
  apply pushedBlock_readsBack hrep hpointers hfits.1 hfits.2
  · rw [Memory.load_store_outside]
    · apply Memory.load_store
      rw [Memory.store_ok, hlength]
      exact hwritable
    · rw [hlength]
      omega
  · intro e he _ s hs
    have hmem : e.remote ∈ pointers := hrep.remotes.subset
      (List.mem_filter.mpr ⟨List.mem_map_of_mem he, by simpa using hs.1⟩)
    apply PointsTo.store
    · apply hs.store
      intro s' hs'
      cases hs'
      rw [hlength]
      exact hstrings _ hmem s hs
    · intro s' hs'
      cases hs'
      have hapart := hstrings' _ hmem s hs
      omega

/-- **What the code builds**, when there is an argv[0]: as expected, but for the variables that
aren't handed over. -/
theorem expandRunner_eq (skipLoader : Bool) (hostPath : Str)
    {envPointers : List Nat} {argv0 : Str} {args envs : List Str} {argvPtr envpPtr : Nat}
    (hargv : ArrayOf t.memory t.word t.argv (pointer :: pointers))
    (hargs : List.Forall₂ (PointsTo t.memory) (pointer :: pointers) ((argv0 :: args).map some))
    (hargv0 : Readable t.reader t.memory pointer argv0)
    (henvp : ArrayOf t.memory t.word t.envp envPointers)
    (henvs : List.Forall₂ (Readable t.reader t.memory) envPointers envs)
    (hfuel : (pointer :: pointers).length < t.fuel) (hfuel' : envPointers.length < t.fuel)
    (helf : x.elf qemu.command = .ok elf)
    (halloc : t.Allocates
      (pushedSize t.word (startingArray
        (commandLine isPassed qemu paths userPath (argv0 :: args) envs) (pointer :: pointers)))
      (pushedSize t.word (environmentArray x elf (localEntries (remaining isPassed envs))))
      (pointer :: pointers) envPointers argvPtr envpPtr) :
    ∃ runner m', expandRunner t x qemu paths false skipLoader hostPath userPath =
        (.ok runner, m') ∧
      runner.hostPath = qemu.command ∧
      ReadsBack m' t.word runner.argv
        ((commandLine isPassed qemu paths userPath (argv0 :: args) envs ++ args).map some)
        ((commandLine isPassed qemu paths userPath (argv0 :: args) envs).map (fun _ => none) ++
          pointers.map some) ∧
      ReadsBack m' t.word runner.envp (emulatorEnvironment isPassed x elf envs)
        ((emulatorEnvironment isPassed x elf envs).map fun _ => none) := by
  obtain ⟨entries, hpass, hstarts⟩ := passArrays_eq qemu paths hargv0 henvs pointers userPath args
  have hsize := hstarts.pushedSize t.word
  have hsome := hstarts.exists_cached (by simp [commandLine, Emulator.arguments])
  have hrep := hstarts.represents hargs
  have hargvAlloc := halloc.argvAlloc
  have hargvWritable := halloc.argvWritable
  rw [← hsize] at hargvAlloc hargvWritable
  have hpush := push_eq t.argv hsome hargvAlloc hargvWritable
  have hlength := @length_pushedBlock t.word argvPtr (entries ++ [XPointer.null])
  -- envp still is where it was
  have hfirst : ArrayOf (t.memory.store argvPtr
      (pushedBlock t.word argvPtr (entries ++ [XPointer.null]))).1 t.word t.envp envPointers := by
    apply henvp.store
    rw [hlength, hsize]
    exact halloc.table
  have hwritable : (t.memory.store argvPtr
      (pushedBlock t.word argvPtr (entries ++ [XPointer.null]))).1.Writable envpPtr
      (pushedSize t.word (environmentArray x elf (localEntries (remaining isPassed envs)))) := by
    intro i hi
    rw [Memory.store_writable]
    exact halloc.envpWritable i hi
  obtain ⟨runner, m', hrun, hhost, hargvPtr, hreads, bytes, hbytes, rfl⟩ :=
    pushEnvironment_eq (t := t) paths
      (if skipLoader then qemu.command else .upTo (hostRootfs ++ qemu.command.bytes))
      argvPtr helf henvs hfirst halloc.envpAlloc halloc.envpFits hwritable
  refine ⟨runner, _, ?_, hhost, ?_, hreads⟩
  · rw [expandRunner, fetchArray_eq henvp hfuel', fetchArray_eq hargv hfuel]
    simp only [hpass, hpush, Bool.false_eq_true, if_false]
    exact hrun
  · rw [hargvPtr, List.map_append]
    exact argv_readsBack hrep (fun p hp => (hargv.fits p hp).2) hsize halloc.argvFits
      halloc.argvWritable halloc.disjoint halloc.argvStrings halloc.envpStrings hbytes

theorem expandRunner_empty {envPointers : List Nat}
    (hargv : ArrayOf t.memory t.word t.argv []) (henvp : ArrayOf t.memory t.word t.envp envPointers)
    (hfuel : 0 < t.fuel) (hfuel' : envPointers.length < t.fuel) :
    expandRunner t x qemu paths false skipLoader hostPath userPath =
      (.error (.failure .abort), t.memory) := by
  rw [expandRunner, fetchArray_eq henvp hfuel', fetchArray_eq hargv hfuel]
  simp only [Bool.false_eq_true, if_false, passArrays]
  rfl

theorem takeWhile_some (strings : List Str) (more : List (Option Str)) :
    (strings.map some ++ more).takeWhile Option.isSome =
      strings.map some ++ more.takeWhile Option.isSome := by
  rw [List.takeWhile_append_of_pos]
  intro v hv
  obtain ⟨s, -, rfl⟩ := List.mem_map.mp hv
  rfl

theorem ReadsBack.unique {m : Memory} {w address : Nat} {strings strings' : List (Option Str)}
    {kept kept' : List (Option Nat)} (h : ReadsBack m w address strings kept)
    (h' : ReadsBack m w address strings' kept') :
    strings.takeWhile Option.isSome = strings'.takeWhile Option.isSome := by
  obtain ⟨pointers, harray, hpoints, -⟩ := h
  obtain ⟨pointers', harray', hpoints', -⟩ := h'
  rw [← harray.unique harray'] at hpoints'
  exact forall₂_pointsTo_unique hpoints hpoints'

/-- Emptying the variables that are handed over empties all those of the dynamic linker, if and only
if they all are handed over. -/
theorem remaining_eq_iff (envs : List Str) :
    remaining isPassed envs = remaining isLd envs ↔ ∀ env ∈ envs, isLd env → isPassed env := by
  unfold remaining
  rw [List.map_inj_left]
  refine forall₂_congr fun env _ => ?_
  cases hld : isLd env with
  | false =>
      have hpassed : isPassed env = false := by
        cases hpassed : isPassed env with
        | false => rfl
        | true =>
            rw [isLd_of_isPassed hpassed] at hld
            cases hld
      simp [hpassed]
  | true =>
      cases hpassed : isPassed env with
      | true => simp
      | false =>
          have hne : env ≠ .upTo [] := by
            intro heq
            rw [heq] at hld
            revert hld
            decide
          simp [hne]

theorem commandLine_congr {args envs : List Str}
    (h : ∀ env ∈ envs, isLd env → isPassed env) :
    commandLine isPassed qemu paths userPath args envs =
      commandLine isLd qemu paths userPath args envs := by
  have hoptions : environmentOptions isPassed paths envs = environmentOptions isLd paths envs := by
    induction envs with
    | nil => rfl
    | cons env envs ih =>
        have henv : isPassed env = isLd env := by
          rw [Bool.eq_iff_iff]
          exact ⟨isLd_of_isPassed, h env List.mem_cons_self⟩
        rw [environmentOptions, environmentOptions, henv,
          ih fun env' henv' => h env' (List.mem_cons_of_mem _ henv')]
  rw [commandLine, commandLine, hoptions]

/-- **The command line of the emulator** is built if and only if there is an argv[0], and every
variable that starts with "LD_" is one that PRoot knows. -/
theorem expandRunner_builds_iff {pointers envPointers : List Nat} {args envs : List Str}
    {argvPtr envpPtr : Nat} (hargv : ArrayOf t.memory t.word t.argv pointers)
    (hargs : List.Forall₂ (PointsTo t.memory) pointers (args.map some))
    (hargv0 : List.Forall₂ (Readable t.reader t.memory) (pointers.take 1) (args.take 1))
    (henvp : ArrayOf t.memory t.word t.envp envPointers)
    (henvs : List.Forall₂ (Readable t.reader t.memory) envPointers envs)
    (hfuel : pointers.length < t.fuel) (hfuel' : envPointers.length < t.fuel)
    (helf : x.elf qemu.command = .ok elf)
    (halloc : t.Allocates
      (pushedSize t.word
        (startingArray (commandLine isPassed qemu paths userPath args envs) pointers))
      (pushedSize t.word (environmentArray x elf (localEntries (remaining isPassed envs))))
      pointers envPointers argvPtr envpPtr) :
    BuildsCommandLine t x elf qemu paths skipLoader hostPath userPath pointers args envs ↔
      args ≠ [] ∧ ∀ env ∈ envs, isLd env → isPassed env := by
  cases args with
  | nil =>
      cases hargs
      refine iff_of_false ?_ (fun h => h.1 rfl)
      intro hbuilds
      obtain ⟨runner, m', hrun, -⟩ := hbuilds
      rw [expandRunner_empty hargv henvp hfuel hfuel'] at hrun
      cases hrun
  | cons argv0 args =>
      cases pointers with
      | nil => cases hargs
      | cons pointer pointers =>
          cases hargv0 with
          | cons hread _ =>
              obtain ⟨runner, m', hrun, hhost, hargvReads, henvpReads⟩ := expandRunner_eq skipLoader
                hostPath hargv hargs hread henvp henvs hfuel hfuel' helf halloc
              constructor
              · intro hbuilds
                obtain ⟨runner', m'', hrun', -, -, henvpReads'⟩ := hbuilds
                rw [hrun] at hrun'
                cases hrun'
                have heq := henvpReads.unique henvpReads'
                rw [emulatorEnvironment, emulatorEnvironment, takeWhile_some, takeWhile_some] at heq
                have hremaining := List.map_injective_iff.mpr (Option.some_injective Str)
                  (List.append_cancel_right heq)
                exact ⟨List.cons_ne_nil _ _, (remaining_eq_iff envs).mp hremaining⟩
              · intro h
                have henvironment : emulatorEnvironment isPassed x elf envs =
                    emulatorEnvironment isLd x elf envs := by
                  rw [emulatorEnvironment, emulatorEnvironment, (remaining_eq_iff envs).mpr h.2]
                rw [commandLine_congr h.2] at hargvReads
                rw [henvironment] at henvpReads
                exact ⟨runner, m', hrun, hhost, hargvReads, henvpReads⟩

end Runner

/-! ## A program with two variables -/

def strX : Str := .upTo (ascii "X=1")
def strWarn : Str := .upTo (ascii "LD_WARN=1")

/-- A memory of two pages, with {"a", "b", NULL} at 4096, and {"X=1", "LD_WARN=1", NULL} at 4120. -/
def runnerPages : Memory where
  byte? a :=
    if a < 8192 then
      some (if 4096 ≤ a then
        (tableBytes 8 [4144, 4146, 0, 4148, 4152, 0] ++ strA.stored ++ strB.stored ++ strX.stored ++
          strWarn.stored).getD (a - 4096) 0 else 0)
    else none
  writable a := a < 8192
  mapped := by
    intro a ha
    rw [if_pos (of_decide_eq_true ha)]
    rfl

def runnerMemory (argv : Nat) : RunnerMemory where
  memory := runnerPages
  word := 8
  reader := readerOf runnerPages
  fuel := 3
  argv := argv
  envp := 4120
  argvAlloc _ := some 2048
  envpAlloc _ := some 1024

def plainEmulator : Emulator where
  command := .upTo (ascii "/qemu")
  options := []
  absolute := by decide
  short := by decide

def plainElf : HostElf := ⟨false, none, none⟩

def plainHost : LdsoHost := ⟨fun _ => .ok plainElf, ascii "/", fun _ => ascii "/lib"⟩

def noLdsoPaths : LdsoPaths where
  host := none
  guest := none
  named := by
    intro g hg
    cases hg

theorem readable_runnerPages {s : Str} (h : PointsTo runnerPages pointer (some s))
    (hok : ((readerOf runnerPages).localString runnerPages pointer).isOk = true) :
    Readable (readerOf runnerPages) runnerPages pointer s :=
  ⟨h, Reader.localString_eq (readerOf_faithful runnerPages) h hok⟩

theorem runnerPages_allocates : (runnerMemory 4096).Allocates 125 84 [4144, 4146] [4148, 4152]
    2048 1024 := by
  have hwritable (ptr size : Nat) (h : ptr + size ≤ 8192) : runnerPages.Writable ptr size := by
    intro i hi
    exact decide_eq_true (show ptr + i < 8192 by omega)
  have hbehind (stop : Nat) (hstop : stop ≤ 4144) (pointer : Nat)
      (hpointer : pointer ∈ [4144, 4146]) : stop ≤ pointer := by
    cases List.mem_cons.mp hpointer with
    | inl heq => omega
    | inr hmem =>
        rw [List.mem_singleton.mp hmem]
        omega
  refine ⟨rfl, rfl, by decide, by decide, hwritable _ _ (by decide), hwritable _ _ (by decide),
    .inr (by decide), ?_, ?_, .inr (by decide)⟩
  · intro pointer hpointer s _
    exact .inr (hbehind (2048 + 125) (by decide) pointer hpointer)
  · intro pointer hpointer s _
    exact .inr (hbehind (1024 + 84) (by decide) pointer hpointer)

theorem runnerPages_array {address : Nat}
    (htable : runnerPages.load address (tableBytes 8 (pointers ++ [0])).length =
      some (tableBytes 8 (pointers ++ [0])))
    (hpointers : pointers.all (fun p => p ≠ 0 ∧ p < 256 ^ 8) = true) :
    ArrayOf runnerPages 8 address pointers :=
  ⟨htable, fun p hp => of_decide_eq_true (List.all_eq_true.mp hpointers p hp)⟩

/-- /qemu -U LD_LIBRARY_PATH -E LD_WARN=1 -0 a c b, with the variables "X=1", "" and
LD_LIBRARY_PATH. -/
theorem expandRunner_builds_warn :
    BuildsCommandLine (runnerMemory 4096) plainHost plainElf plainEmulator noLdsoPaths true strC
      strC [4144, 4146] [strA, strB] [strX, strWarn] := by
  have hargs : List.Forall₂ (PointsTo runnerPages) [4144, 4146] ([strA, strB].map some) :=
    .cons ⟨by decide, by decide +kernel⟩ (.cons ⟨by decide, by decide +kernel⟩ .nil)
  have hargv0 : Readable (readerOf runnerPages) runnerPages 4144 strA :=
    readable_runnerPages ⟨by decide, by decide +kernel⟩ (by decide +kernel)
  have hx : Readable (readerOf runnerPages) runnerPages 4148 strX :=
    readable_runnerPages ⟨by decide, by decide +kernel⟩ (by decide +kernel)
  have hwarn : Readable (readerOf runnerPages) runnerPages 4152 strWarn :=
    readable_runnerPages ⟨by decide, by decide +kernel⟩ (by decide +kernel)
  have hargvSize : pushedSize 8 (startingArray (commandLine isPassed plainEmulator noLdsoPaths strC
      [strA, strB] [strX, strWarn]) [4144, 4146]) = 125 := by decide +kernel
  have henvpSize : pushedSize 8 (environmentArray plainHost plainElf
      (localEntries (remaining isPassed [strX, strWarn]))) = 84 := by decide +kernel
  have halloc := runnerPages_allocates
  rw [← hargvSize, ← henvpSize] at halloc
  exact (expandRunner_builds_iff (t := runnerMemory 4096)
    (runnerPages_array (by decide +kernel) (by decide)) hargs (.cons hargv0 .nil)
    (runnerPages_array (by decide +kernel) (by decide)) (.cons hx (.cons hwarn .nil))
    (by decide) (by decide) rfl halloc).mpr ⟨by decide, by decide⟩

/-- The empty array at 4112 is an argv whose program can't be run. -/
theorem not_builds_empty : ArrayOf runnerPages 8 4112 [] ∧
      (expandRunner (runnerMemory 4112) plainHost plainEmulator noLdsoPaths false true strC
        strC).1 = .error (.failure .abort) := by
  have hargv : ArrayOf runnerPages 8 4112 [] := runnerPages_array (by decide +kernel) (by decide)
  have henvp : ArrayOf runnerPages 8 4120 [4148, 4152] :=
    runnerPages_array (by decide +kernel) (by decide)
  refine ⟨hargv, ?_⟩
  exact congrArg Prod.fst (expandRunner_empty (t := runnerMemory 4112) hargv henvp (by decide)
    (by decide))

end Improot.Execve
