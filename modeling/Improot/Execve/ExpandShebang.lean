import Improot.Execve.Aoxp
import Improot.Execve.Shebang
import Improot.Path.Translate

/-!
# The arguments of a script

`expand_shebang` of `execve/shebang.c`: as long as the program to execute is a script, the
interpreter takes its place, and argv is rewritten accordingly.
-/

namespace Improot.Execve

open Improot.Lib Improot.Path

inductive ExecError where
  | noexec
  | failure (f : Failure)
  | endless
  deriving DecidableEq, Repr

/-- The files of the host, as execve(2) looks at them. -/
structure ExecFiles where
  bufSize : Nat
  present : CString → Bool
  executable : CString → Bool
  content : CString → Except Errno CString

def translateAndCheckExec (x : ExecFiles) (userPath : CString) (w : World) :
    Except ExecError CString × World :=
  if userPath = [] then (.error .noexec, w)
  else
    match translatePath .cwd userPath true w with
    | (.error f, w) => (.error (.failure f), w)
    | (.ok hostPath, w) =>
      if ¬ x.present hostPath then (.error (.failure (.errno .enoent)), w)
      else if ¬ x.executable hostPath then (.error (.failure (.errno .eacces)), w)
      else
        match w.host.lstat hostPath with
        | .error _ => (.error (.failure (.errno .eperm)), w)
        | .ok _ => (.ok hostPath, w)

/-- `extract_shebang`, for a path of the host. -/
def extractShebangOf (x : ExecFiles) (hostPath : CString) :
    Except ExecError (Option (CString × CString)) :=
  match x.content hostPath with
  | .error e => .error (.failure (.errno e))
  | .ok content =>
    match extractShebang x.bufSize content with
    | .notScript => .ok none
    | .noexec => .error .noexec
    | .script userPath argument => .ok (some (userPath, argument))

def Str.ofCString (s : CString) : Str := .upTo (s.map fun c => UInt8.ofNat c.toNat)

/-- The memory of a tracee that calls execve(2): its words have `word` bytes, its argv is at `argv`,
`alloc` is `alloc_mem`, and `fuel` is enough for its arrays. -/
structure ExecMemory where
  memory : Memory
  word : Nat
  alloc : Nat → Option Nat
  fuel : Nat
  argv : Nat

def fetchArray (m : Memory) (word fuel address : Nat) : Except ExecError (List XPointer) :=
  match fetchUpToNull m word fuel address with
  | none => .error .endless
  | some (.error f) => .error (.failure f)
  | some (.ok array) => .ok array

def ExecMemory.fetchArgv (t : ExecMemory) : Except ExecError (List XPointer) :=
  fetchArray t.memory t.word t.fuel t.argv

def ExecMemory.argvOnDemand (t : ExecMemory) : Option (List XPointer) →
    Except ExecError (List XPointer)
  | some argv => .ok argv
  | none => t.fetchArgv

def insertShebang (argv : List XPointer) (userPath argument oldUserPath : CString) :
    Except Failure (List XPointer) :=
  -- an empty argv gets one more entry
  let more : Int := if argv.length = 1 then 1 else 0
  if argument ≠ [] then
    match resizeArrayOfXpointers argv 0 (2 + more) with
    | .error f => .error f
    | .ok argv =>
      writeXpointees argv 0 [.ofCString userPath, .ofCString argument, .ofCString oldUserPath]
  else
    match resizeArrayOfXpointers argv 0 (1 + more) with
    | .error f => .error f
    | .ok argv => writeXpointees argv 0 [.ofCString userPath, .ofCString oldUserPath]

/-- What the loop of `expand_shebang` keeps: the program, and argv once it is fetched. -/
structure ShebangState where
  hostPath : CString
  userPath : CString
  argv : Option (List XPointer)

def expandShebangLoop (x : ExecFiles) (t : ExecMemory) : (turns : Nat) → ShebangState → World →
    Except ExecError ShebangState × World
  | 0, _, w => (.error (.failure (.errno .eloop)), w)
  | turns + 1, s, w =>
    match translateAndCheckExec x s.userPath w with
    | (.error e, w) => (.error e, w)
    | (.ok hostPath, w) =>
      match extractShebangOf x hostPath with
      | .error e => (.error e, w)
      -- no more shebang
      | .ok none => (.ok { s with hostPath := hostPath }, w)
      | .ok (some (userPath, argument)) =>
        match translateAndCheckExec x userPath w with
        | (.error e, w) => (.error e, w)
        | (.ok hostPath, w) =>
          match t.argvOnDemand s.argv with
          | .error e => (.error e, w)
          | .ok argv =>
            match insertShebang argv userPath argument s.userPath with
            | .error f => (.error (.failure f), w)
            | .ok argv => expandShebangLoop x t turns ⟨hostPath, userPath, some argv⟩ w

/-- What `expand_shebang` leaves: was there a shebang, the program, and the address of argv. -/
structure Expansion where
  hasShebang : Bool
  hostPath : CString
  userPath : CString
  argv : Nat
  deriving DecidableEq, Repr

def expandShebang (x : ExecFiles) (t : ExecMemory) (userPath : CString) (w : World) :
    Except ExecError Expansion × Memory × World :=
  match expandShebangLoop x t maxSymlinks ⟨[], userPath, none⟩ w with
  | (.error e, w) => (.error e, t.memory, w)
  | (.ok s, w) =>
    match s.argv with
    | none => (.ok ⟨false, s.hostPath, s.userPath, t.argv⟩, t.memory, w)
    | some argv =>
      match pushArrayOfXpointers t.memory t.word t.alloc t.argv argv with
      | (m, .error f) => (.error (.failure f), m, w)
      | (m, .ok address) => (.ok ⟨true, s.hostPath, s.userPath, address⟩, m, w)

end Improot.Execve
