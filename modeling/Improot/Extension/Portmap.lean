import Improot.Lib.ProbeTable
import Improot.Lib.Transition

/-!
# Port mapping

The extension `portmap`: the ports of the sockets that tracees bind and connect to are mapped. In
its network-cooperation mode a port without an entry is replaced by whatever port the kernel
assigns, and the entry is added when the socket listens. All tracees share one configuration.
-/

namespace Improot.Extension

open Lib

/-! ## The map -/

abbrev Port := BitVec 16

def portmapSize : Nat := 4096
def portmapDefaultValue : Port := 0

/-- `PortMap`: the key of a slot is its `port_in`, the value its `port_out`. -/
abbrev PortMap := ProbeTable Port Port

def initializePortmap : PortMap := ⟨fun _ => portmapDefaultValue, fun _ => portmapDefaultValue⟩

/-- A loop of `get_index` over the slots from `index` on, which ends behind `count` slots. -/
def probeLoop (portmap : PortMap) (key : Port) : (count index : Nat) → Option Nat
  | 0, _ => none
  | count + 1, index =>
    if portmap.key index ≠ portmapDefaultValue ∧ portmap.key index ≠ key then
      probeLoop portmap key count (index + 1)
    else some index

/-- Where the search for a key starts: `key & table_mask`. -/
def probeStart (key : Port) : Nat := key.toNat &&& (portmapSize - 1)

def getIndex (portmap : PortMap) (key : Port) : Nat :=
  let start := probeStart key
  match probeLoop portmap key (portmapSize - start) start with
  | some index => index
  | none =>
    match probeLoop portmap key start 0 with
    | some index => index
    | none => portmapSize

def addEntry (portmap : PortMap) (portIn portOut : Port) : PortMap :=
  let index := getIndex portmap portIn
  if index = portmapSize then portmap else portmap.set index portIn portOut

def getPort (portmap : PortMap) (portIn : Port) : Port :=
  let index := getIndex portmap portIn
  if index = portmapSize then portmapDefaultValue
  else if portmap.key index = portIn then portmap.value index
  else portmapDefaultValue

/-! ## The handlers -/

abbrev Fd := Nat

abbrev Socket := Nat

inductive Family where
  | inet
  | inet6
  | other
  deriving DecidableEq

def Family.hasPort : Family → Bool
  | .inet => true
  | .inet6 => true
  | .other => false

structure SockAddr where
  family : Family
  port : Port
  deriving DecidableEq

/-- `Config`, shared by all tracees. -/
structure PortConfig where
  portmap : PortMap
  netcoopMode : Bool
  needToCheckNewPort : Bool
  oldPort : Port
  sockfd : Fd

def PortConfig.initial (entries : List (Port × Port)) (netcoop : Bool) : PortConfig where
  portmap := entries.foldl (fun portmap entry => addEntry portmap entry.1 entry.2) initializePortmap
  netcoopMode := netcoop
  needToCheckNewPort := false
  oldPort := 0
  sockfd := 0

def PortConfig.rewrites (config : PortConfig) (port : Port) : Bool :=
  getPort config.portmap port = portmapDefaultValue ∧ config.netcoopMode ∧
    ¬ config.needToCheckNewPort

/-- `change_inet_socket_port` and `change_inet6_socket_port`: the port that takes the place of the
given one, if it is changed. -/
def changeSocketPort (config : PortConfig) (sockfd : Fd) (portIn : Port) (bindMode : Bool) :
    PortConfig × Option Port :=
  let portOut := getPort config.portmap portIn
  if portOut = portmapDefaultValue then
    if bindMode ∧ config.netcoopMode ∧ ¬ config.needToCheckNewPort then
      -- the system will assign an available port
      ({ config with
          oldPort := portIn
          needToCheckNewPort := true
          sockfd := sockfd }, some 0)
    else (config, none)
  else (config, some portOut)

/-- `translate_port`: false on an error. `read` is the address that is read from the tracee, if it
can be, and `written` tells whether the changed one can be written. -/
def translatePort (config : PortConfig) (sockfd : Fd) (read : Option SockAddr) (written bindMode : Bool) :
    PortConfig × Bool :=
  match read with
  | none => (config, false)
  | some addr =>
    if addr.family.hasPort then
      match changeSocketPort config sockfd addr.port bindMode with
      | (config, none) => (config, true)
      | (config, some _) => (config, written)
    else (config, true)

def PortConfig.checks (config : PortConfig) (sockfd : Fd) : Bool :=
  config.netcoopMode ∧ config.needToCheckNewPort ∧ sockfd = config.sockfd

def PortConfig.adds (config : PortConfig) (sockfd : Fd) (answer : Option SockAddr) : Bool :=
  config.needToCheckNewPort ∧ sockfd = config.sockfd ∧ ∃ addr ∈ answer, addr.family.hasPort

def addChangedPortAsEntry (config : PortConfig) (sockfd : Fd) (answer : Option SockAddr) : PortConfig :=
  match answer with
  | none => config
  | some addr =>
    if ¬ config.needToCheckNewPort ∨ sockfd ≠ config.sockfd then config
    else if addr.family.hasPort then
      { config with
        portmap := addEntry config.portmap config.oldPort addr.port
        needToCheckNewPort := false
        sockfd := 0 }
    else config

/-! ## Tracees and the kernel -/

inductive CallPhase where
  | idle
  | binding (fd : Fd) (guest : Option Port)
  | listening (fd : Fd) (chained : Bool)
  /-- the getsockname(2) chained to a listen(2) is about to run; what is owed to it: the socket that
  listens, with the ports of the guest it was bound for -/
  | answering (fd : Fd) (owed : List (Socket × Port))

structure Added where
  socket : Socket
  guest : Port
  real : Port
  deriving DecidableEq

/-- The tracees, the sockets of the kernel with the ports they are bound to (0 for none), and what
has happened so far. -/
structure NetState where
  config : PortConfig
  socketOf : Nat → Fd → Option Socket
  port : Socket → Port
  phase : Nat → CallPhase
  /-- the sockets that were bound through a rewritten port, with the port of the guest -/
  rewritten : List (Socket × Port)
  /-- the last of them, until an entry is added -/
  waiting : Option (Socket × Port)
  added : List Added
  /-- the ones that have listened since -/
  listened : List (Socket × Port)

inductive NetEvent where
  | connect (t : Nat) (fd : Fd) (read : Option SockAddr) (written : Bool)
  | bind (t : Nat) (fd : Fd) (read : Option SockAddr) (written : Bool)
  /-- the kernel binds the socket to a port, or refuses to -/
  | bindDone (t : Nat) (assigned : Option Port)
  /-- `allocated` tells whether there is memory for a chained call -/
  | listen (t : Nat) (fd : Fd) (allocated : Bool)
  | listenDone (t : Nat) (ok : Bool)
  /-- the chained call answers with an address of some family, or fails -/
  | answer (t : Nat) (family : Option Family)
  /-- descriptors are opened, closed and duplicated, tracees come and go -/
  | descriptors (socketOf : Nat → Fd → Option Socket)
  /-- the kernel binds a socket on its own -/
  | autobind (s : Socket) (p : Port)

namespace NetState

def setPhase (s : NetState) (t : Nat) (phase : CallPhase) : NetState :=
  { s with phase := Function.update s.phase t phase }

def enter (s : NetState) (t : Nat) (fd : Fd) (read : Option SockAddr) (written isBind : Bool) :
    NetState :=
  let (config, ok) := translatePort s.config fd read written isBind
  let guest := read.bind fun addr =>
    if addr.family.hasPort ∧ s.config.rewrites addr.port then some addr.port else none
  let s' := { s with config := config }
  if ok ∧ isBind then s'.setPhase t (.binding fd guest) else s'

def bindDone (s : NetState) (t : Nat) (assigned : Option Port) : Option NetState :=
  match s.phase t, assigned with
  | .binding _ _, none => some (s.setPhase t .idle)
  | .binding fd guest, some p =>
    match s.socketOf t fd with
    | none => none
    | some sock =>
      if s.port sock ≠ 0 ∨ (guest.isSome ∧ p = 0) then none
      else
        let s := { s.setPhase t .idle with port := Function.update s.port sock p }
        match guest with
        | none => some s
        | some g => some { s with
            rewritten := (sock, g) :: s.rewritten
            waiting := some (sock, g) }
  | _, _ => none

def listen (s : NetState) (t : Nat) (fd : Fd) (allocated : Bool) : NetState :=
  if ¬ s.config.checks fd then s.setPhase t (.listening fd false)
  else if allocated then s.setPhase t (.listening fd true)
  else s

def listenDone (s : NetState) (t : Nat) (ok : Bool) : Option NetState :=
  match s.phase t with
  | .listening fd chained =>
    let owed := if ok then s.rewritten.filter fun x => s.socketOf t fd = some x.1 else []
    if ok ∧ s.socketOf t fd = none then none
    else if chained then some (s.setPhase t (.answering fd owed))
    else some { s.setPhase t .idle with listened := owed ++ s.listened }
  | _ => none

/-- The address that the kernel answers: the port is the one of the socket. -/
def answered (s : NetState) (t : Nat) (fd : Fd) (family : Option Family) : Option SockAddr :=
  match s.socketOf t fd, family with
  | some sock, some family => some ⟨family, s.port sock⟩
  | _, _ => none

def answer (s : NetState) (t : Nat) (family : Option Family) : Option NetState :=
  match s.phase t with
  | .answering fd owed =>
    let addr := s.answered t fd family
    let s' := { s.setPhase t .idle with
      config := addChangedPortAsEntry s.config fd addr
      listened := owed ++ s.listened }
    match s.socketOf t fd with
    | some sock =>
      if s.config.adds fd addr ∧ getIndex s.config.portmap s.config.oldPort ≠ portmapSize then
        some { s' with
          added := ⟨sock, s.config.oldPort, s.port sock⟩ :: s.added
          waiting := none }
      else some s'
    | none => some s'
  | _ => none

def step (s : NetState) : NetEvent → Option NetState
  | .connect t fd read written =>
    match s.phase t with
    | .idle => some (s.enter t fd read written false)
    | _ => none
  | .bind t fd read written =>
    match s.phase t with
    | .idle => some (s.enter t fd read written true)
    | _ => none
  | .bindDone t assigned => s.bindDone t assigned
  | .listen t fd allocated =>
    match s.phase t with
    | .idle => some (s.listen t fd allocated)
    | _ => none
  | .listenDone t ok => s.listenDone t ok
  | .answer t family => s.answer t family
  | .descriptors socketOf => some { s with socketOf := socketOf }
  | .autobind sock p =>
    if s.port sock = 0 then some { s with port := Function.update s.port sock p } else none

def initial (config : PortConfig) (socketOf : Nat → Fd → Option Socket) (port : Socket → Port) :
    NetState where
  config := config
  socketOf := socketOf
  port := port
  phase _ := .idle
  rewritten := []
  waiting := none
  added := []
  listened := []

end NetState

def network : System NetState NetEvent where
  init s := ∃ entries netcoop socketOf port,
    s = .initial (.initial entries netcoop) socketOf port
  step := NetState.step

end Improot.Extension
