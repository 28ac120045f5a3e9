import Improot.Execve.AoxpFront
import Improot.Execve.ExpandShebang
import Improot.Syscall.NameSpace

/-!
# Nested scripts

A script whose interpreter is a script, and so on: argv starts with the last interpreter, and ends
with the original arguments but the first one.
-/

namespace Improot.Execve

open Improot.Lib Improot.Path Improot.Syscall

/-! ## The law -/

/-- Scripts that follow one another, from the path of the first one to the last interpreter: each is
given as its interpreter with its argument. -/
inductive Scripts (x : ExecFiles) :
    CString → World → List (CString × CString) → CString → World → Prop
  | nil (u : CString) (w : World) : Scripts x u w [] u w
  | cons {u i a u' hostPath hostPath' : CString} {w w₁ w₂ w' : World}
      {chain : List (CString × CString)} (checked : translateAndCheckExec x u w = (.ok hostPath, w₁))
      (shebang : extractShebangOf x hostPath = .ok (some (i, a)))
      (found : translateAndCheckExec x i w₁ = (.ok hostPath', w₂))
      (rest : Scripts x i w₂ chain u' w') : Scripts x u w ((i, a) :: chain) u' w'

def optional (argument : CString) : List CString := if argument = [] then [] else [argument]

def nestedArguments (userPath : CString) : List (CString × CString) → List CString
  | [] => [userPath]
  | (interpreter, argument) :: chain =>
    nestedArguments interpreter chain ++ optional argument ++ [userPath]

def nestedArgv {α : Type} (f : CString → α) (userPath : CString) :
    List (CString × CString) → List α → List α
  | [], argv => argv
  | chain, argv => (nestedArguments userPath chain).map f ++ argv.tail

def nestedArray (userPath : CString) (chain : List (CString × CString)) (pointers : List Nat) :
    List XPointer :=
  startingArray ((nestedArguments userPath chain).map .ofCString) pointers

/-- What `alloc_mem` promises of its blocks: they are in the address space, and apart from argv. -/
structure ExecMemory.AllocatesApart (t : ExecMemory) (pointers : List Nat) : Prop where
  fits : ∀ size ptr, t.alloc size = some ptr → 0 < ptr ∧ ptr + size ≤ 256 ^ t.word
  table : ∀ size ptr, t.alloc size = some ptr →
    t.argv + (tableBytes t.word (pointers ++ [0])).length ≤ ptr ∨ ptr + size ≤ t.argv
  strings : ∀ size ptr, t.alloc size = some ptr → ∀ pointer ∈ pointers, ∀ s,
    PointsTo t.memory pointer (some s) →
    pointer + s.stored.length ≤ ptr ∨ ptr + size ≤ pointer

/-! ## One shebang -/

def insertedEntries (entries : List XPointer) (userPath argument oldUserPath : CString) :
    List XPointer :=
  localEntries ((userPath :: optional argument).map .ofCString) ++
    ⟨(entries.head?.map XPointer.remote).getD 0, some (.ofCString oldUserPath)⟩ :: entries.tail

theorem insertShebang_eq (entries : List XPointer) (userPath argument oldUserPath : CString) :
    insertShebang (entries ++ [.null]) userPath argument oldUserPath =
      .ok (insertedEntries entries userPath argument oldUserPath ++ [.null]) := by
  unfold insertShebang insertedEntries optional
  by_cases hargument : argument = []
  · rw [if_neg (not_not_intro hargument), if_pos hargument]
    cases entries with
    | nil => rfl
    | cons x rest =>
        rw [if_neg (by simp)]
        rfl
  · rw [if_pos hargument, if_neg hargument]
    cases entries with
    | nil => rfl
    | cons x rest =>
        rw [if_neg (by simp)]
        rfl

theorem starts_fetched (pointers : List Nat) (u i a : CString) :
    Starts pointers ((i :: optional a ++ [u]).map .ofCString)
      (insertedEntries (fetchedEntries pointers) i a u) := by
  refine ⟨localEntries ((i :: optional a).map .ofCString) ++
    [⟨pointers.head?.getD 0, some (.ofCString u)⟩], ?_, ?_, ?_⟩
  · cases pointers <;> simp [insertedEntries, fetchedEntries]
  · rw [List.map_append, localEntries_cached, List.map_append, List.map_append]
    rfl
  · rw [List.map_append, List.filter_append, filter_localEntries, List.nil_append]
    cases pointers with
    | nil => exact List.nil_sublist _
    | cons pointer pointers => exact List.filter_sublist

variable {u : CString} {entries : List XPointer}

theorem Starts.inserted {pointers : List Nat} {rest : List CString}
    (h : Starts pointers ((u :: rest).map .ofCString) entries) (i a : CString) :
    Starts pointers ((i :: optional a ++ [u] ++ rest).map .ofCString)
      (insertedEntries entries i a u) := by
  obtain ⟨front, rfl, hcached, hremotes⟩ := h
  cases front with
  | nil => cases hcached
  | cons x front =>
      rw [List.map_cons, List.map_cons, List.map_cons, List.cons.injEq] at hcached
      refine ⟨localEntries ((i :: optional a).map .ofCString) ++
        ⟨x.remote, some (.ofCString u)⟩ :: front, ?_, ?_, ?_⟩
      · simp [insertedEntries]
      · have hfront : (⟨x.remote, some (.ofCString u)⟩ :: front : List XPointer).map
            XPointer.cached = ((u :: rest).map Str.ofCString).map some := by
          rw [List.map_cons, hcached.2]
          rfl
        rw [List.map_append, localEntries_cached, hfront]
        simp
      · rw [List.map_append, List.filter_append, filter_localEntries, List.nil_append]
        exact hremotes

theorem fetchArray_eq {m : Lib.Memory} {word fuel address : Nat} {pointers : List Nat}
    (harray : ArrayOf m word address pointers) (hfuel : pointers.length < fuel) :
    fetchArray m word fuel address = .ok (fetchedEntries pointers ++ [.null]) := by
  rw [fetchArray, fetchUpToNull_eq harray hfuel]
  rfl

/-! ## The loop -/

section Loop

variable {x : ExecFiles} {t : ExecMemory}

variable {w w' : World}

theorem Scripts.take {u' : CString} {chain : List (CString × CString)}
    (h : Scripts x u w chain u' w') (n : Nat) :
    ∃ u' w', Scripts x u w (chain.take n) u' w' := by
  induction h generalizing n with
  | nil u w =>
      rw [List.take_nil]
      exact ⟨u, w, .nil u w⟩
  | @cons u i a u' hostPath hostPath' w w₁ w₂ w' chain checked shebang found rest ih =>
      cases n with
      | zero => exact ⟨u, w, .nil u w⟩
      | succ n =>
          obtain ⟨u', w', hrest⟩ := ih n
          exact ⟨u', w', .cons checked shebang found hrest⟩

theorem expandShebangLoop_script {s : ShebangState} {i a hostPath hostPath' : CString}
    {w₁ w₂ : World} (checked : translateAndCheckExec x s.userPath w = (.ok hostPath, w₁))
    (shebang : extractShebangOf x hostPath = .ok (some (i, a)))
    (found : translateAndCheckExec x i w₁ = (.ok hostPath', w₂))
    (fetched : t.argvOnDemand s.argv = .ok (entries ++ [.null])) (turns : Nat) :
    expandShebangLoop x t (turns + 1) s w =
      expandShebangLoop x t turns
        ⟨hostPath', i, some (insertedEntries entries i a s.userPath ++ [.null])⟩ w₂ := by
  rw [expandShebangLoop]
  simp only [checked, shebang, found, fetched, insertShebang_eq]

theorem expandShebangLoop_run {pointers : List Nat} {u' : CString}
    {chain : List (CString × CString)} (h : Scripts x u w chain u' w') {rest : List CString}
    (hstarts : Starts pointers ((u :: rest).map .ofCString) entries) (hostPath : CString)
    (turns : Nat) :
    ∃ hostPath' entries',
      expandShebangLoop x t (turns + chain.length) ⟨hostPath, u, some (entries ++ [.null])⟩ w =
        expandShebangLoop x t turns ⟨hostPath', u', some (entries' ++ [.null])⟩ w' ∧
      Starts pointers ((nestedArguments u chain ++ rest).map .ofCString) entries' := by
  induction h generalizing rest entries hostPath with
  | nil u w => exact ⟨hostPath, entries, rfl, hstarts⟩
  | @cons u i a u' host host' w w₁ w₂ w' chain checked shebang found hrest ih =>
      have hinserted := hstarts.inserted i a
      rw [List.cons_append, List.cons_append] at hinserted
      obtain ⟨hostPath', entries', hrun, hlast⟩ := ih hinserted host'
      refine ⟨hostPath', entries', ?_, ?_⟩
      · have hfetched : t.argvOnDemand (some (entries ++ [.null])) = .ok (entries ++ [.null]) := rfl
        have hturn := expandShebangLoop_script (s := ⟨hostPath, u, some (entries ++ [.null])⟩)
          checked shebang found hfetched (turns + chain.length)
        exact hturn.trans hrun
      · rw [nestedArguments]
        simpa using hlast

variable {pointers : List Nat}

theorem expandShebangLoop_scripts (harray : ArrayOf t.memory t.word t.argv pointers)
    (hfuel : pointers.length < t.fuel) {u' : CString}
    {chain : List (CString × CString)} (h : Scripts x u w chain u' w') (hne : chain ≠ [])
    (turns : Nat) :
    ∃ hostPath' entries',
      expandShebangLoop x t (turns + chain.length) ⟨[], u, none⟩ w =
        expandShebangLoop x t turns ⟨hostPath', u', some (entries' ++ [.null])⟩ w' ∧
      Starts pointers ((nestedArguments u chain).map .ofCString) entries' := by
  cases h with
  | nil u w => exact absurd rfl hne
  | @cons u i a u' host host' w w₁ w₂ w' chain checked shebang found hrest =>
      have hfirst := starts_fetched pointers u i a
      rw [List.cons_append] at hfirst
      obtain ⟨hostPath', entries', hrun, hlast⟩ := expandShebangLoop_run hrest hfirst host' turns
      refine ⟨hostPath', entries', ?_, ?_⟩
      · have hfetch : t.argvOnDemand none = .ok (fetchedEntries pointers ++ [.null]) :=
          fetchArray_eq harray hfuel
        have hturn := expandShebangLoop_script (s := ⟨[], u, none⟩) checked shebang found hfetch
          (turns + chain.length)
        exact hturn.trans hrun
      · rw [nestedArguments]
        simpa using hlast

theorem expandShebangLoop_program {s : ShebangState} {hostPath : CString}
    (checked : translateAndCheckExec x s.userPath w = (.ok hostPath, w'))
    (program : extractShebangOf x hostPath = .ok none) (turns : Nat) :
    expandShebangLoop x t (turns + 1) s w = (.ok { s with hostPath := hostPath }, w') := by
  rw [expandShebangLoop]
  simp only [checked, program]

end Loop

/-! ## Pushing argv -/

section Push

variable {t : ExecMemory} {pointers : List Nat} {strings : List (Option Str)}

theorem ExecMemory.AllocatesApart.readsBack (hapart : t.AllocatesApart pointers)
    (harray : ArrayOf t.memory t.word t.argv pointers)
    (hstrings : List.Forall₂ (PointsTo t.memory) pointers strings) {ptr : Nat} {bytes : Bytes}
    (halloc : t.alloc bytes.length = some ptr) :
    ReadsBack (t.memory.store ptr bytes).1 t.word t.argv strings (pointers.map some) := by
  apply readsBack_original (harray.store (hapart.table _ _ halloc))
  have hboth := (List.forall₂_and_left pointers strings).mpr ⟨fun p hp => hp, hstrings⟩
  refine hboth.imp fun pointer v h => ?_
  apply h.2.store
  intro s hs
  rw [hs] at h
  exact hapart.strings _ _ halloc pointer h.1 s h.2

theorem ExecMemory.AllocatesApart.freshBlock (hapart : t.AllocatesApart pointers)
    {values : List (Option Str)} {kept : List (Option Nat)} {ptr : Nat}
    (h : Represents t.memory pointers entries values kept)
    (halloc : t.alloc (pushedSize t.word (entries ++ [.null])) = some ptr)
    (hwritable : t.memory.Writable ptr (pushedSize t.word (entries ++ [.null]))) :
    FreshBlock t.memory t.word (entries ++ [.null]) ptr := by
  obtain ⟨hpos, hfits⟩ := hapart.fits _ _ halloc
  refine ⟨hpos, hfits, hwritable, ?_⟩
  intro x hx _ s hs
  have hpointer : x.remote ∈ pointers := by
    apply h.remotes.subset
    cases List.mem_append.mp hx with
    | inl hx => exact List.mem_filter.mpr ⟨List.mem_map_of_mem hx, by simpa using hs.1⟩
    | inr hx =>
        rw [List.mem_singleton.mp hx] at hs
        exact absurd rfl hs.1
  exact hapart.strings _ _ halloc _ hpointer s hs

end Push

/-! ## expand_shebang -/

/-- **argv follows the law of nested scripts**: it starts with the last interpreter, for every array
of the tracee, the empty one included, and as long as there are fewer scripts than `MAXSYMLINKS`;
from there on it is an error, and each error leaves argv as it was. -/
theorem expandShebang_nested {x : ExecFiles} {t : ExecMemory} {pointers : List Nat}
    {strings : List (Option Str)} {u : CString} {w : World}
    (harray : ArrayOf t.memory t.word t.argv pointers)
    (hstrings : List.Forall₂ (PointsTo t.memory) pointers strings)
    (hfuel : pointers.length < t.fuel) (hapart : t.AllocatesApart pointers) :
    (∀ chain u' w' hostPath w'' ptr, Scripts x u w chain u' w' →
      translateAndCheckExec x u' w' = (.ok hostPath, w'') →
      extractShebangOf x hostPath = .ok none →
      chain.length < maxSymlinks →
      t.alloc (pushedSize t.word (nestedArray u chain pointers)) = some ptr →
      t.memory.Writable ptr (pushedSize t.word (nestedArray u chain pointers)) →
      ∃ m' argv,
        expandShebang x t u w = (.ok ⟨!chain.isEmpty, hostPath, u', argv⟩, m', w'') ∧
        ReadsBack m' t.word argv (nestedArgv (fun s => some (.ofCString s)) u chain strings)
          (nestedArgv (fun _ => none) u chain (pointers.map some))) ∧
    (∀ chain u' w', Scripts x u w chain u' w' → maxSymlinks ≤ chain.length →
      (expandShebang x t u w).1 = .error (.failure (.errno .eloop))) ∧
    (∀ e m' w', expandShebang x t u w = (.error e, m', w') →
      ReadsBack m' t.word t.argv strings (pointers.map some)) := by
  have hpointers : ∀ p ∈ pointers, p < 256 ^ t.word := fun p hp => (harray.fits p hp).2
  refine ⟨?_, ?_, ?_⟩
  · intro chain u' w' hostPath w'' ptr hscripts checked program hlt halloc hwritable
    obtain ⟨turns, hturns⟩ : ∃ turns, maxSymlinks = turns + 1 + chain.length :=
      ⟨maxSymlinks - chain.length - 1, by omega⟩
    cases chain with
    | nil =>
        cases hscripts
        refine ⟨t.memory, t.argv, ?_, readsBack_original harray hstrings⟩
        rw [expandShebang, hturns]
        have hlast := expandShebangLoop_program (t := t) (s := ⟨[], u, none⟩) checked program turns
        rw [show turns + 1 + ([] : List (CString × CString)).length = turns + 1 from rfl, hlast]
        rfl
    | cons first chain =>
        obtain ⟨host', entries, hrun, hstarts⟩ := expandShebangLoop_scripts harray hfuel hscripts
          (List.cons_ne_nil first chain) (turns + 1)
        have hsize : pushedSize t.word (entries ++ [.null]) =
            pushedSize t.word (nestedArray u (first :: chain) pointers) :=
          hstarts.pushedSize t.word
        rw [← hsize] at halloc hwritable
        have hrep := hstarts.represents hstrings
        rw [List.map_map, List.map_map] at hrep
        have hcached := hstarts.exists_cached (by simp [nestedArguments])
        obtain ⟨m', hpush, hreads⟩ := push_readsBack t.argv hrep hpointers hcached halloc
          (hapart.freshBlock hrep halloc hwritable)
        refine ⟨m', ptr, ?_, hreads⟩
        rw [expandShebang, hturns, hrun, expandShebangLoop_program checked program]
        simp only [hpush]
        rfl
  · intro chain u' w' hscripts hle
    obtain ⟨u'', w'', hfirst⟩ := hscripts.take maxSymlinks
    have hlength : (chain.take maxSymlinks).length = maxSymlinks := List.length_take_of_le hle
    have hne : chain.take maxSymlinks ≠ [] := by
      intro hnil
      rw [hnil] at hlength
      cases hlength
    obtain ⟨hostPath, entries, hrun, -⟩ := expandShebangLoop_scripts harray hfuel hfirst hne 0
    rw [hlength, Nat.zero_add, expandShebangLoop] at hrun
    rw [expandShebang, hrun]
  · intro e m' w' herror
    unfold expandShebang at herror
    split at herror
    · cases herror
      exact readsBack_original harray hstrings
    · split at herror
      · cases herror
      · split at herror
        · rename_i f hpush
          cases herror
          cases push_failure hpush with
          | inl hsame =>
              rw [hsame]
              exact readsBack_original harray hstrings
          | inr hstore =>
              obtain ⟨ptr, bytes, halloc, hlength, rfl⟩ := hstore
              rw [← hlength] at halloc
              exact hapart.readsBack harray hstrings halloc
        · cases herror

/-- The scripts "/0" to "/5": the interpreter of each one is the next one, "/6" is a program. -/
def scriptFiles : ExecFiles where
  bufSize := 256
  present _ := true
  executable _ := true
  content
    | ['/', '0'] => .ok "#!/1\n".toList
    | ['/', '1'] => .ok "#!/2\n".toList
    | ['/', '2'] => .ok "#!/3\n".toList
    | ['/', '3'] => .ok "#!/4\n".toList
    | ['/', '4'] => .ok "#!/5\n".toList
    | ['/', '5'] => .ok "#!/6 -x\n".toList
    | _ => .ok "ELF".toList

def scriptWorld : World := (rootNameSpace true).world

def argvExec : ExecMemory where
  memory := argvMemory
  word := 8
  alloc size := if size ≤ 2048 then some 1024 else none
  fuel := 3
  argv := 4096

theorem argvExec_apart : argvExec.AllocatesApart [4120, 4122] := by
  have hblock (size ptr : Nat) (halloc : argvExec.alloc size = some ptr) :
      ptr = 1024 ∧ size ≤ 2048 := by
    have halloc' : (if size ≤ 2048 then some 1024 else none) = some ptr := halloc
    split at halloc'
    · cases halloc'
      exact ⟨rfl, by omega⟩
    · cases halloc'
  refine ⟨?_, ?_, ?_⟩
  · intro size ptr halloc
    obtain ⟨rfl, hsize⟩ := hblock size ptr halloc
    refine ⟨by decide, Nat.le_trans (Nat.add_le_add_left hsize 1024) ?_⟩
    decide
  · intro size ptr halloc
    obtain ⟨rfl, hsize⟩ := hblock size ptr halloc
    right
    exact Nat.le_trans (Nat.add_le_add_left hsize 1024) (by decide)
  · intro size ptr halloc pointer hpointer s _
    obtain ⟨rfl, hsize⟩ := hblock size ptr halloc
    right
    cases List.mem_cons.mp hpointer with
    | inl heq => omega
    | inr hmem =>
        rw [List.mem_singleton.mp hmem]
        omega

theorem scripts_four : Scripts scriptFiles ['/', '4'] scriptWorld
    [(['/', '5'], []), (['/', '6'], ['-', 'x'])] ['/', '6'] scriptWorld := by
  refine .cons rfl ?_ rfl (.cons rfl ?_ rfl (.nil _ _))
  · decide +kernel
  · decide +kernel

/-- What the tracee finds, when it runs "/4" with the arguments "a" and "b". -/
theorem expandShebang_nested_four :
    ∃ m' argv, expandShebang scriptFiles argvExec ['/', '4'] scriptWorld =
        (.ok ⟨true, ['/', '6'], ['/', '6'], argv⟩, m', scriptWorld) ∧
      ReadsBack m' 8 argv
        [some (.ofCString ['/', '6']), some (.ofCString ['-', 'x']), some (.ofCString ['/', '5']),
          some (.ofCString ['/', '4']), some strB]
        [none, none, none, none, some 4122] := by
  have hsize : pushedSize 8 (nestedArray ['/', '4']
      [(['/', '5'], []), (['/', '6'], ['-', 'x'])] [4120, 4122]) = 60 := by decide
  refine (expandShebang_nested (x := scriptFiles) (w := scriptWorld) (t := argvExec)
    (u := ['/', '4']) argvMemory_array argvMemory_strings (by decide) argvExec_apart).1 _ _ _ _ _
    1024 scripts_four rfl (by decide +kernel) (by decide) ?_ ?_
  · rw [show argvExec.word = 8 from rfl, hsize]
    rfl
  · rw [show argvExec.word = 8 from rfl, hsize]
    intro i hi
    exact decide_eq_true (show 1024 + i < 8192 by omega)

/-- A program may be run through so many scripts, for `search_binary_handler` of Linux. -/
def binfmtNesting : Nat := 5

/-- "/0" is run through six scripts, one more than Linux does. -/
theorem expandShebang_six :
    (∃ chain, Scripts scriptFiles ['/', '0'] scriptWorld chain ['/', '6'] scriptWorld ∧
        binfmtNesting < chain.length) ∧
      (expandShebang scriptFiles argvExec ['/', '0'] scriptWorld).1 =
        .ok ⟨true, ['/', '6'], ['/', '6'], 1024⟩ := by
  have hthree : Scripts scriptFiles ['/', '3'] scriptWorld
      ((['/', '4'], []) :: [(['/', '5'], []), (['/', '6'], ['-', 'x'])]) ['/', '6'] scriptWorld :=
    .cons rfl (by decide +kernel) rfl scripts_four
  have htwo : Scripts scriptFiles ['/', '2'] scriptWorld ((['/', '3'], []) :: _) ['/', '6']
      scriptWorld := .cons rfl (by decide +kernel) rfl hthree
  have hone : Scripts scriptFiles ['/', '1'] scriptWorld ((['/', '2'], []) :: _) ['/', '6']
      scriptWorld := .cons rfl (by decide +kernel) rfl htwo
  have hzero : Scripts scriptFiles ['/', '0'] scriptWorld ((['/', '1'], []) :: _) ['/', '6']
      scriptWorld := .cons rfl (by decide +kernel) rfl hone
  refine ⟨⟨_, hzero, by decide⟩, ?_⟩
  decide +kernel

end Improot.Execve
