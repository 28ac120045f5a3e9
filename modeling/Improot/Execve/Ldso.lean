import Improot.Execve.Aoxp

/-!
# The variables of the dynamic linker

`execve/ldso.c`: the variables of the guest's dynamic linker are handed over to the emulator as
options, and LD_LIBRARY_PATH is rebuilt for the dynamic linker of the host.
-/

namespace Improot.Execve

open Improot.Lib Improot.Path

def ascii (text : String) : Bytes := text.toList.map fun c => UInt8.ofNat c.toNat

/-! ## Names -/

/-- `is_env_name`: is it the variable of this name? -/
def isEnvName (env : Str) (name : Bytes) : Bool :=
  env.bytes.head? = name.head? ∧ name.length < env.bytes.length ∧
    env.bytes[name.length]? = some 61 ∧ env.bytes.take name.length = name

def ldLibraryPath : Bytes := ascii "LD_LIBRARY_PATH"

def passedNames : List Bytes :=
  ldLibraryPath :: ["LD_PRELOAD", "LD_BIND_NOW", "LD_TRACE_LOADED_OBJECTS", "LD_AOUT_LIBRARY_PATH",
    "LD_AOUT_PRELOAD", "LD_AUDIT", "LD_BIND_NOT", "LD_DEBUG", "LD_DEBUG_OUTPUT", "LD_DYNAMIC_WEAK",
    "LD_HWCAP_MASK", "LD_KEEPDIR", "LD_NOWARN", "LD_ORIGIN_PATH", "LD_POINTER_GUARD", "LD_PROFILE",
    "LD_PROFILE_OUTPUT", "LD_SHOW_AUXV", "LD_USE_LOAD_BIAS", "LD_VERBOSE", "LD_WARN"].map ascii

def isPassed (env : Str) : Bool := passedNames.any (isEnvName env)

def isLd (env : Str) : Bool := (ascii "LD_").isPrefixOf env.bytes

/-- The values of LD_LIBRARY_PATH that are remembered by the mixed-mode support: the one that PRoot
forged for a host program, and the one that the guest had before. -/
structure LdsoPaths where
  host : Option Str
  guest : Option Str
  named : ∀ g, guest = some g → isEnvName g ldLibraryPath = true

def LdsoPaths.unswapped (t : LdsoPaths) (env : Str) : Str :=
  match t.host, t.guest with
  | some host, some guest => if isEnvName env ldLibraryPath ∧ env = host then guest else env
  | _, _ => env

/-! ## ldso_env_passthru -/

def insertOption (argv : List XPointer) (offset : Nat) (option value : Str) :
    Except Failure (List XPointer) :=
  -- an error other than a failed assertion isn't fatal
  match resizeArrayOfXpointers argv offset 2 with
  | .error f => .error f
  | .ok argv => writeXpointees argv offset [option, value]

section Passthru

variable (r : Reader) (m : Memory) (t : LdsoPaths) (define : Str) (offset : Nat)

/-- The loop of `ldso_env_passthru`, for so many entries of envp from an index on: envp, argv, and
whether LD_LIBRARY_PATH was seen. -/
def passthruLoop : (n : Nat) → (index : Nat) → (envp argv : List XPointer) →
    (hasSeenLibraryPath : Bool) → Except Failure (List XPointer × List XPointer × Bool)
  | 0, _, envp, argv, seen => .ok (envp, argv, seen)
  | n + 1, index, envp, argv, seen =>
    match readXpointeeAsString r m envp index with
    | .error f => .error f
    | .ok (none, envp) => passthruLoop n (index + 1) envp argv seen
    | .ok (some env, envp) =>
      if ¬ isLd env then passthruLoop n (index + 1) envp argv seen
      else if isPassed (t.unswapped env) then
        match insertOption argv offset define (t.unswapped env) with
        | .error f => .error f
        | .ok argv =>
          match writeXpointeeAsString envp index (.upTo []) with
          | .error f => .error f
          | .ok envp =>
            passthruLoop n (index + 1) envp argv
              (seen || isEnvName (t.unswapped env) ldLibraryPath)
      else passthruLoop n (index + 1) envp argv seen

def ldsoEnvPassthru (envp argv : List XPointer) (undefine : Str) :
    Except Failure (List XPointer × List XPointer) :=
  match passthruLoop r m t define offset envp.length 0 envp argv false with
  | .error f => .error f
  | .ok (envp, argv, hasSeenLibraryPath) =>
    if hasSeenLibraryPath then .ok (envp, argv)
    else
      match insertOption argv offset undefine (.upTo ldLibraryPath) with
      | .error f => .error f
      | .ok argv => .ok (envp, argv)

end Passthru

/-! ## rebuild_host_ldso_paths -/

def hostRootfs : Bytes := ascii "/host-rootfs"

/-- One turn of `add_host_ldso_paths`: absolute paths are accessed through the "host-rootfs"
binding. -/
def addHostLdsoPath (paths path : Bytes) : Option Bytes :=
  let isAbsolute := path.head? = some 47
  let length := 1 + path.length + (if isAbsolute then hostRootfs.length else 0)
  -- check there's enough room
  if argMax ≤ paths.length + length then none
  else
    some (paths ++ (if paths = [] then [] else [58]) ++
      (if isAbsolute then hostRootfs else []) ++ path)

def addHostLdsoPaths (hostLdsoPaths paths : Bytes) : Option Bytes :=
  (paths.splitOn 58).foldlM addHostLdsoPath hostLdsoPaths

structure HostElf where
  class32 : Bool
  rpaths : Option Bytes
  runpaths : Option Bytes

/-- The host: what `open_elf` and `read_ldso_rpaths` give, LD_LIBRARY_PATH as it was when PRoot
started, and the libraries of the system, as compiled for 32 bits or not. -/
structure LdsoHost where
  elf : Str → Except Errno HostElf
  initialLdsoPaths : Bytes
  systemLibraries : Bool → Bytes

def LdsoHost.paths (x : LdsoHost) (elf : HostElf) : Option Bytes := do
  let paths ← match elf.rpaths, elf.runpaths with
    | some rpaths, none => addHostLdsoPaths [] rpaths
    | _, _ => some []
  let paths ← if x.initialLdsoPaths = [] then some paths
    else addHostLdsoPaths paths x.initialLdsoPaths
  let paths ← match elf.runpaths with
    | some runpaths => addHostLdsoPaths paths runpaths
    | none => some paths
  addHostLdsoPaths paths (x.systemLibraries elf.class32)

def forgeLdLibraryPath (paths : Bytes) : Option Str :=
  if argMax - paths.length - 1 < ldLibraryPath.length + 1 then none
  else some (.upTo (ldLibraryPath ++ [61] ++ paths))

/-- `find_xpointee` with `compare_xpointee_env`, for so many entries from an index on: the index,
and the array that holds the copies. -/
def findXpointeeEnv (r : Reader) (m : Memory) (name : Bytes) : (n : Nat) → (index : Nat) →
    (envp : List XPointer) → Except Failure Nat × List XPointer
  | 0, index, envp => (.ok index, envp)
  | n + 1, index, envp =>
    match readXpointeeAsString r m envp index with
    | .error f => (.error f, envp)
    | .ok (none, envp) => findXpointeeEnv r m name n (index + 1) envp
    | .ok (some value, envp) =>
      if isEnvName value name then (.ok index, envp)
      else findXpointeeEnv r m name n (index + 1) envp

/-- The value of LD_LIBRARY_PATH that was found in envp is the one to restore. -/
def LdsoPaths.remember (t : LdsoPaths) (env : Str) : LdsoPaths :=
  if h : isEnvName env ldLibraryPath then
    { t with
      guest := some env
      named := by
        intro g hg
        cases hg
        exact h }
  else t

/-- The entry of envp for LD_LIBRARY_PATH, at an index that was found: a new one is allocated at the
end when there is none. -/
def ldLibraryPathEntry (r : Reader) (m : Memory) (t : LdsoPaths) (envp : List XPointer)
    (index : Nat) : Except Failure (Nat × List XPointer × LdsoPaths) :=
  if index = envp.length then
    let index := if 0 < envp.length then envp.length - 1 else 0
    match resizeArrayOfXpointers envp index 1 with
    | .error f => .error f
    | .ok envp => .ok (index, envp, t)
  else if t.guest = none then
    -- errors are not fatal here
    match readXpointeeAsString r m envp index with
    | .error .abort => .error .abort
    | .ok (some env, envp) => .ok (index, envp, t.remember env)
    | _ => .ok (index, envp, t)
  else .ok (index, envp, t)

/-- `rebuild_host_ldso_paths`, for the program at a path of the host. -/
def rebuildHostLdsoPaths (r : Reader) (m : Memory) (x : LdsoHost) (t : LdsoPaths) (hostPath : Str)
    (envp : List XPointer) : Except Failure (List XPointer × LdsoPaths) :=
  match x.elf hostPath with
  | .error e => .error (.errno e)
  | .ok elf =>
    match x.paths elf with
    -- not fatal
    | none => .ok (envp, t)
    | some paths =>
      match findXpointeeEnv r m ldLibraryPath envp.length 0 envp with
      | (.error .abort, _) => .error .abort
      | (.error _, envp) => .ok (envp, t)
      | (.ok index, envp) =>
        match ldLibraryPathEntry r m t envp index with
        | .error f => .error f
        | .ok (index, envp, t) =>
          match forgeLdLibraryPath paths with
          | none => .ok (envp, t)
          | some forged =>
            match writeXpointeeAsString envp index forged with
            | .error f => .error f
            | .ok envp => .ok (envp, { t with host := t.host.or (some forged) })

end Improot.Execve
