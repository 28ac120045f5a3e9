import Improot.Execve.ExpandShebang
import Improot.Execve.Ldso

/-!
# The runner

`expand_runner` of `execve/enter.c`: a program for another machine is run by an emulator, whose
options are put in front of its arguments.
-/

namespace Improot.Execve

open Improot.Lib Improot.Path

/-- `tracee->qemu`: the assertions on the path of the emulator hold. -/
structure Emulator where
  command : Str
  options : List Str
  absolute : command.bytes.head? = some 47
  short : command.bytes.length + hostRootfs.length < 4096

/-- The whole `tracee->qemu`. -/
def Emulator.arguments (qemu : Emulator) : List Str := qemu.command :: qemu.options

/-- The memory of a tracee whose program is to be run: its arrays are at `argv` and `envp`, and
their blocks are allocated one after the other. -/
structure RunnerMemory where
  memory : Memory
  word : Nat
  reader : Reader
  fuel : Nat
  argv : Nat
  envp : Nat
  argvAlloc : Nat → Option Nat
  envpAlloc : Nat → Option Nat

/-- The program that is executed instead: its paths, and the addresses of the arrays. -/
structure Runner where
  hostPath : Str
  userPath : Str
  argv : Nat
  envp : Nat
  ldsoPaths : LdsoPaths

def dash0 : Str := .upTo (ascii "-0")

def dashE : Str := .upTo (ascii "-E")
def dashU : Str := .upTo (ascii "-U")

/-- The rewriting of argv for the emulator: its options, argv[0] and the path of the program. -/
def insertEmulator (r : Reader) (m : Memory) (qemu : Emulator) (argv : List XPointer)
    (userPath : Str) : Except Failure (List XPointer) :=
  match readXpointeeAsString r m argv 0 with
  | .error f => .error f
  | .ok (argv0, argv) =>
    match resizeArrayOfXpointers argv 1 (qemu.arguments.length + 2) with
    | .error f => .error f
    | .ok argv =>
      match writeXpointees argv 0 qemu.arguments, argv0 with
      | .error f, _ => .error f
      -- there's no copy of NULL
      | .ok _, none => .error (.errno .enomem)
      | .ok argv, some argv0 => writeXpointees argv qemu.arguments.length [dash0, argv0, userPath]

def passArrays (t : RunnerMemory) (qemu : Emulator) (paths : LdsoPaths) (userPath : Str)
    (envp argv : List XPointer) : Except Failure (List XPointer × List XPointer) :=
  match insertEmulator t.reader t.memory qemu argv userPath with
  | .error f => .error f
  | .ok argv =>
    -- LD_ features should not be applied to the emulator itself
    ldsoEnvPassthru t.reader t.memory paths dashE qemu.arguments.length envp argv dashU

/-- The end of `expand_runner`, for the program at `hostPath`: `m` is the memory once argv was
pushed. -/
def pushEnvironment (t : RunnerMemory) (x : LdsoHost) (paths : LdsoPaths) (hostPath userPath : Str)
    (argv : Nat) (envp : List XPointer) (m : Memory) : Except ExecError Runner × Memory :=
  match rebuildHostLdsoPaths t.reader m x paths hostPath envp with
  | .error f => (.error (.failure f), m)
  | .ok (envp, paths) =>
    match pushArrayOfXpointers m t.word t.envpAlloc t.envp envp with
    | (m, .error f) => (.error (.failure f), m)
    | (m, .ok envp) => (.ok ⟨hostPath, userPath, argv, envp, paths⟩, m)

/-- `expand_runner`, where `hostElf` is `is_host_elf`, and `skipLoader` says that the loader of
PRoot isn't used for the emulator. -/
def expandRunner (t : RunnerMemory) (x : LdsoHost) (qemu : Emulator) (paths : LdsoPaths)
    (hostElf skipLoader : Bool) (hostPath userPath : Str) : Except ExecError Runner × Memory :=
  match fetchArray t.memory t.word t.fuel t.envp with
  | .error e => (.error e, t.memory)
  | .ok envp =>
    -- no need to adjust argv[] if it's a host binary
    if hostElf then pushEnvironment t x paths hostPath userPath t.argv envp t.memory
    else
      match fetchArray t.memory t.word t.fuel t.argv with
      | .error e => (.error e, t.memory)
      | .ok argv =>
        match passArrays t qemu paths userPath envp argv with
        | .error f => (.error (.failure f), t.memory)
        | .ok (envp, argv) =>
          match pushArrayOfXpointers t.memory t.word t.argvAlloc t.argv argv with
          | (m, .error f) => (.error (.failure f), m)
          | (m, .ok argv) =>
            -- launch the runner in lieu of the initial program
            let hostPath := qemu.command
            let userPath := if skipLoader then hostPath else .upTo (hostRootfs ++ hostPath.bytes)
            pushEnvironment t x paths hostPath userPath argv envp m

end Improot.Execve
