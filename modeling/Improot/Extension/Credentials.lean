import Improot.Lib.Trace

/-!
# Fake credentials

The user and group ids that `fake_id0` keeps for a tracee, and the system calls that change them.
The macros of `fake_id0.c` are instantiated for users and for groups.
-/

namespace Improot.Extension

open Lib

/-- An `uid_t` or a `gid_t`. -/
abbrev Id := BitVec 32

/-- `(uid_t) -1`. -/
def unsetId : Id := -1

def eperm : Nat := 1
def einval : Nat := 22

@[ext]
structure Ids where
  r : Id
  e : Id
  s : Id
  fs : Id
  deriving DecidableEq

inductive Kind where
  | u
  | g
  deriving DecidableEq

structure Config where
  uid : Ids
  gid : Ids
  capsActive : Bool
  keepCaps : Bool
  deriving DecidableEq

def Config.ids (config : Config) : Kind → Ids
  | .u => config.uid
  | .g => config.gid

def Config.withIds (config : Config) : Kind → Ids → Config
  | .u, ids => { config with uid := ids }
  | .g, ids => { config with gid := ids }

def Config.initial (uid gid : Id) : Config where
  uid := ⟨uid, uid, uid, uid⟩
  gid := ⟨gid, gid, gid, gid⟩
  capsActive := uid = 0
  keepCaps := false

/-! ## The macros -/

/-- One of the user ids is root's: `prev_root`. -/
def Config.prevRoot (config : Config) : Bool :=
  config.uid.r = 0 ∨ config.uid.e = 0 ∨ config.uid.s = 0

def maybeDropCaps (prevRoot : Bool) (config : Config) : Config :=
  if prevRoot ∧ ¬ config.keepCaps ∧ config.uid.r ≠ 0 ∧ config.uid.e ≠ 0 ∧ config.uid.s ≠ 0 then
    { config with capsActive := false }
  else config

abbrev Result := Except Nat Id

def Config.mayChange (config : Config) : Bool := config.uid.e = 0 ∨ config.capsActive

/-- `UNCHANGED_ID`, of an argument and the id it is for. -/
def unchangedId (id old : Id) : Bool := id = unsetId ∨ id = old

def equalsAnyId (id : Id) (ids : Ids) : Bool := id = ids.r ∨ id = ids.e ∨ id = ids.s

/-- `SETXID`: setuid(2) and setgid(2). -/
def setxid (k : Kind) (config : Config) (id : Id) : Config × Result :=
  let ids := config.ids k
  let prevRoot := config.prevRoot
  let allowed := config.mayChange ∨ id = ids.r ∨ id = ids.e ∨ id = ids.s
  if ¬ allowed then (config, .error eperm)
  else
    let ids :=
      if config.mayChange then
        { ids with
          r := id
          s := id }
      else ids
    let ids :=
      { ids with
        e := id
        fs := id }
    (maybeDropCaps prevRoot (config.withIds k ids), .ok 0)

/-- What `SETREXID` allows without privilege. -/
def setrexidAllowed (ids : Ids) (rid eid : Id) : Bool :=
  (unchangedId eid ids.e ∧ unchangedId rid ids.r) ∨
    (rid = ids.e ∧ (eid = ids.r ∨ unchangedId eid ids.e)) ∨
    (eid = ids.r ∧ (rid = ids.e ∨ unchangedId rid ids.r)) ∨
    (eid = ids.s ∧ unchangedId rid ids.r)

/-- The ids after `SETREXID`: the change of the real id comes after the effective one. -/
def setrexidIds (ids : Ids) (rid eid : Id) : Ids :=
  let ids :=
    if eid ≠ unsetId then
      let ids := if eid ≠ ids.r then { ids with s := eid } else ids
      { ids with
        e := eid
        fs := eid }
    else ids
  if rid ≠ unsetId then
    let ids := if eid ≠ unsetId then { ids with s := eid } else ids
    { ids with r := rid }
  else ids

def setrexid (k : Kind) (config : Config) (rid eid : Id) : Config × Result :=
  let ids := config.ids k
  let prevRoot := config.prevRoot
  let allowed := config.mayChange ∨ setrexidAllowed ids rid eid
  if ¬ allowed then (config, .error eperm)
  else (maybeDropCaps prevRoot (config.withIds k (setrexidIds ids rid eid)), .ok 0)

/-- What `SETRESXID` allows without privilege. -/
def setresxidAllowed (ids : Ids) (rid eid sid : Id) : Bool :=
  (rid = unsetId ∨ equalsAnyId rid ids) ∧ (eid = unsetId ∨ equalsAnyId eid ids) ∧
    (sid = unsetId ∨ equalsAnyId sid ids)

/-- The ids after `SETRESXID`. -/
def setresxidIds (ids : Ids) (rid eid sid : Id) : Ids :=
  let ids := if rid ≠ unsetId then { ids with r := rid } else ids
  let ids :=
    if eid ≠ unsetId then
      { ids with
        e := eid
        fs := eid }
    else ids
  if sid ≠ unsetId then { ids with s := sid } else ids

/-- `SETRESXID`: setresuid(2) and setresgid(2). -/
def setresxid (k : Kind) (config : Config) (rid eid sid : Id) : Config × Result :=
  let ids := config.ids k
  let prevRoot := config.prevRoot
  let allowed := config.mayChange ∨ setresxidAllowed ids rid eid sid
  if ¬ allowed then (config, .error eperm)
  else (maybeDropCaps prevRoot (config.withIds k (setresxidIds ids rid eid sid)), .ok 0)

def setfsxid (k : Kind) (config : Config) (id : Id) : Config × Result :=
  let ids := config.ids k
  let allowed := config.mayChange ∨ id = ids.fs ∨ equalsAnyId id ids
  (if allowed then config.withIds k { ids with fs := id } else config, .ok ids.fs)

/-! ## The system calls -/

/-- A system call as the tracee makes it. The kernel answers `prctl(2)`, and it is the loader that
makes an `execve(2)` fail or succeed. -/
inductive Call where
  | setid (k : Kind) (id : Id)
  | setreid (k : Kind) (rid eid : Id)
  | setresid (k : Kind) (rid eid sid : Id)
  | setfsid (k : Kind) (id : Id)
  /-- `prctl(PR_SET_KEEPCAPS, arg)` -/
  | keepcaps (arg : Nat)
  | execveFails (errno : Nat)
  /-- the program has these bits; it is found if `stat(2)` of the host finds it -/
  | execve (setuid setgid found : Bool)
  deriving DecidableEq

/-- What the kernel answers to `prctl(PR_SET_KEEPCAPS, arg)`. -/
def kernelKeepcaps (arg : Nat) : Result := if arg ≤ 1 then .ok 0 else .error einval

/-- `handle_sysexit_start`, after a successful `execve(2)`. -/
def handleExecve (config : Config) (setuid setgid found : Bool) : Config :=
  let config := { config with keepCaps := false }
  if ¬ found then config
  else
    let config :=
      if setuid then
        { config with
          uid := { config.uid with
            e := 0
            s := 0 }
          capsActive := true }
      else config
    if setgid then
      { config with
        gid := { config.gid with
          e := 0
          s := 0 } }
    else config

/-- What `fake_id0` does at a call: `handle_sysexit_end`, and `handle_sysexit_start` for execve(2).
The SIGSYS handler uses the same macros. -/
def handleCall (config : Config) : Call → Config × Result
  | .setid k id => setxid k config id
  | .setreid k rid eid => setrexid k config rid eid
  | .setresid k rid eid sid => setresxid k config rid eid sid
  | .setfsid k id => setfsxid k config id
  | .keepcaps arg =>
    match kernelKeepcaps arg with
    | .ok x => ({ config with keepCaps := arg ≠ 0 }, .ok x)
    | .error errno => (config, .error errno)
  | .execveFails errno => (config, .error errno)
  | .execve setuid setgid found => (handleExecve config setuid setgid found, .ok 0)

/-- What is seen of a call: its result, and the ids after it. -/
structure Seen where
  result : Result
  uid : Ids
  gid : Ids
  deriving DecidableEq

/-- A tracee under `fake_id0`. -/
def fakeId0 : Machine Config Call Seen where
  step config call :=
    let (config, result) := handleCall config call
    (config, ⟨result, config.uid, config.gid⟩)

end Improot.Extension
