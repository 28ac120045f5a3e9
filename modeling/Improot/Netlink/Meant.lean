import Improot.Netlink.Reply

/-!
# What a netlink reply is meant to hold

The messages that a request asks for, told from the interfaces, the addresses and the routes of the
host. Nothing here is built: the buffer, the loops and the helpers of `build_fake_netlink_reply` are
compared with these messages.
-/

namespace Improot.Netlink

open Lib

/-- A message that is meant, and the room that has to be left for it. -/
structure Planned where
  message : Message
  room : Nat

/-! ## Interfaces -/

/-- An interface; without an address none is told. -/
structure Interface where
  index : Nat
  type : Nat
  flags : Nat
  mtu : Nat
  name : Bytes
  address : Bytes
  deriving DecidableEq

/-- The `RTM_NEWLINK` message: a `struct ifinfomsg`, and six attributes at most. -/
def Interface.message (f : Interface) (seq pid nlflags : Nat) : Message where
  type := rtmNewlink
  flags := nlflags
  seq := seq
  pid := pid
  fixed := [0, 0] ++ le 2 f.type ++ le 4 f.index ++
    le 4 (f.flags ||| (if hasFlag f.flags iffRunning then iffLowerUp else 0)) ++ [0, 0, 0, 0]
  attrs :=
    [⟨iflaIfname, f.name ++ [0]⟩, ⟨iflaMtu, le 4 f.mtu⟩, ⟨iflaTxqlen, le 4 1000⟩,
      ⟨iflaOperstate, [if hasFlag f.flags iffUp then 6 else 2]⟩] ++
    if f.address = [] then []
    else
      [⟨iflaAddress, f.address⟩,
        ⟨iflaBroadcast, List.replicate f.address.length (if f.type = arphrdLoopback then 0 else 0xff)⟩]

def firstBytes (n : Nat) (bs : Bytes) : Bytes := (bs ++ List.replicate n 0).take n

def Ifaddrs.packet (i : Ifaddrs) : Option SockaddrLl :=
  match i.addr with
  | some (.packet sll) => some sll
  | _ => none

/-- The hardware address in an entry of getifaddrs(3), if it has one of at most eight bytes. -/
def Ifaddrs.address (i : Ifaddrs) : Bytes :=
  match i.packet with
  | some sll => if sll.halen ≤ 8 then firstBytes sll.halen sll.addr else []
  | none => []

def Host.hardware (h : Host) (name : IfName) : Option (Nat × Bytes) :=
  if h.socket then h.hwaddr name else none

/-- **The interface an entry is about.** What an `AF_PACKET` entry says of the index and the hardware
comes before what the name is asked for. -/
def interfaceOf (h : Host) (i : Ifaddrs) (name : IfName) : Interface where
  index :=
    match i.packet with
    | some sll => if sll.ifindex = 0 then h.ifNametoindex name else sll.ifindex
    | none => h.ifNametoindex name
  type :=
    match i.address, h.hardware name, i.packet with
    | [], some (type, _), _ => type
    | _, _, some sll => sll.hatype
    | _, _, none => if hasFlag i.flags iffLoopback then arphrdLoopback else arphrdEther
  flags := i.flags
  mtu :=
    (if h.socket then h.mtu name else none).getD
      (if hasFlag i.flags iffLoopback then 65536 else 1500)
  name := name.chars
  address :=
    match i.address, h.hardware name with
    | [], some (_, data) => firstBytes 6 data
    | address, _ => address

/-- getifaddrs(3) has an entry for each address of an interface: the first one of each name counts,
besides the names that were told before. -/
def interfacesOf (h : Host) (names : List IfName) : List Ifaddrs → List Interface
  | [] => []
  | i :: rest =>
    match i.name with
    | none => interfacesOf h names rest
    | some name =>
      if name ∈ names then interfacesOf h names rest
      else interfaceOf h i name :: interfacesOf h (name :: names) rest

/-- **The interfaces of the host**, each once. -/
def interfaces (h : Host) : List Interface := interfacesOf h [] (h.getifaddrs.getD [])

def loopbackInterface : Interface where
  index := 1
  type := arphrdLoopback
  flags := iffUp ||| iffLoopback ||| iffRunning
  mtu := 65536
  name := lo
  address := [0, 0, 0, 0, 0, 0]

/-! ### Requests -/

/-- The messages of a dump have `NLM_F_MULTI`. -/
def multi (req : Bytes) : Nat := if isDump req then nlmFMulti else 0

/-- The name in a request, of at most 15 characters; the last such attribute counts. -/
def nameAsked (req : Bytes) : Option Bytes :=
  if req.length < 32 then none
  else
    ((rta.walk (req.drop 32)).reverse.find? fun r => (Attr.of r).type = iflaIfname).map fun r =>
      (r.payload.take 15).takeWhile (· ≠ 0)

/-- The index in a request, an `int`. -/
def indexAsked (req : Bytes) : Nat := if req.length < 32 then 0 else readLe 4 20 req

/-- Is it an interface that a single request asks for: by its name, or else by a positive index? -/
def Interface.asked (req : Bytes) (f : Interface) : Bool :=
  match nameAsked req with
  | some (c :: cs) => f.name = c :: cs
  | _ => indexAsked req = 0 ∨ 2 ^ 31 ≤ indexAsked req ∨ f.index % 2 ^ 32 = indexAsked req

def loopbackAsked (req : Bytes) : Bool :=
  match nameAsked req with
  | some name => name = lo
  | none => indexAsked req ≤ 1

/-- The interfaces a request asks for: all of them, or the first one that matches. -/
def interfacesAsked (h : Host) (req : Bytes) : List Interface :=
  if isDump req then interfaces h else ((interfaces h).find? (Interface.asked req)).toList

/-- The answer about some interfaces; where there are none, about the loopback interface. -/
def linkPlan (found : List Interface) (req : Bytes) (seq pid : Nat) : List Planned :=
  if found ≠ [] then found.map fun f => ⟨f.message seq pid (multi req), 256⟩
  else if isDump req ∨ loopbackAsked req then [⟨loopbackInterface.message seq pid (multi req), 256⟩]
  else [⟨errorMessage seq pid enodev, 256⟩]

/-! ## Addresses -/

structure Address where
  family : Nat
  index : Nat
  prefixlen : Nat
  scope : Nat
  bytes : Bytes
  label : Option Bytes

/-- The `RTM_NEWADDR` message: a `struct ifaddrmsg`, and three attributes at most. -/
def Address.message (a : Address) (seq pid nlflags : Nat) : Message where
  type := rtmNewaddr
  flags := nlflags
  seq := seq
  pid := pid
  fixed := le 1 a.family ++ le 1 a.prefixlen ++ [0x80] ++ le 1 a.scope ++ le 4 a.index
  attrs := [⟨ifaAddress, a.bytes⟩, ⟨ifaLocal, a.bytes⟩] ++
    a.label.toList.map fun label => ⟨ifaLabel, label ++ [0]⟩

def bitsOf (bs : Bytes) : List Bool :=
  bs.flatMap fun b => [7, 6, 5, 4, 3, 2, 1, 0].map b.toNat.testBit

/-- The length of the prefix that a mask selects. -/
def maskLength (mask : Bytes) : Nat := ((bitsOf mask).takeWhile id).length

def scopeInet (bs : Bytes) : Nat :=
  if [127] <+: bs then rtScopeHost
  else if [169, 254] <+: bs then rtScopeLink
  else rtScopeUniverse

def scopeInet6 (bs : Bytes) : Nat :=
  if bs = [0, 0, 0, 0, 0, 0, 0, 0, 0, 0, 0, 0, 0, 0, 0, 1] then rtScopeHost
  else if (bitsOf bs).take 10 = (bitsOf [0xfe, 0x80]).take 10 then rtScopeLink
  else rtScopeUniverse

/-- **The address an entry is about**, if it is an internet address of a named interface. -/
def addressOf (h : Host) (i : Ifaddrs) : Option Address :=
  match i.name, i.addr with
  | some name, some (.inet a) =>
    some
      { family := afInet
        index := h.ifNametoindex name
        prefixlen := (i.netmask.map fun mask => maskLength (mask.take 4)).getD 32
        scope := scopeInet a.bytes
        bytes := a.bytes
        label := some name.chars }
  | some name, some (.inet6 a) =>
    some
      { family := afInet6
        index := h.ifNametoindex name
        prefixlen := (i.netmask.map fun mask => maskLength (mask.take 16)).getD 128
        scope := scopeInet6 a.bytes
        bytes := a.bytes
        label := none }
  | _, _ => none

def familyAsked (req : Bytes) : Nat := ((req[16]?).getD 0).toNat

/-- A request for the addresses of one of the two families is answered with these only. -/
def Address.asked (req : Bytes) (a : Address) : Bool :=
  familyAsked req = afInet ∨ familyAsked req = afInet6 → a.family = familyAsked req

def loopbackAddresses : List Address :=
  [⟨afInet, 1, 8, rtScopeHost, [127, 0, 0, 1], some lo⟩,
    ⟨afInet6, 1, 128, rtScopeHost, [0, 0, 0, 0, 0, 0, 0, 0, 0, 0, 0, 0, 0, 0, 0, 1], none⟩]

/-- The addresses of the host that a request asks for; where there are none, the ones of the loopback
interface. -/
def addressesAsked (h : Host) (req : Bytes) : List Address :=
  let found := ((h.getifaddrs.getD []).filterMap (addressOf h)).filter (Address.asked req)
  if found ≠ [] then found
  else loopbackAddresses.filter fun a => familyAsked req = 0 ∨ familyAsked req = a.family

def addressPlan (h : Host) (req : Bytes) (seq pid : Nat) : List Planned :=
  (addressesAsked h req).map fun a => ⟨a.message seq pid (multi req), 256⟩

/-! ## Routes -/

/-- The messages of the kernel about the routes of a family, in the datagrams that are received. -/
def hostRecords (h : Host) (req : Bytes) : List Record :=
  (((h.routes (req[16]?.getD 0)).getD []).take 64).flatMap fun d => nlmsg.walk (d.bytes.take 8192)

def relayed (seq pid : Nat) (r : Record) : Message :=
  { Message.of r with
    seq := seq
    pid := pid }

/-- What is relayed of some messages of the kernel, up to its own `NLMSG_DONE`. -/
def relayPlan (seq pid : Nat) (rs : List Record) : List Planned :=
  (rs.takeWhile fun r => (Message.of r).type ≠ nlmsgDone).map fun r =>
    ⟨relayed seq pid r, align4 (nlmsg.lengthOf r) + 64⟩

/-- The end of a dump: the terminator, or the one of the kernel. -/
structure DumpEnd (h : Host) (req : Bytes) (seq pid : Nat) (d : Message) : Prop where
  type : d.type = nlmsgDone
  origin : d = doneMessage seq pid ∨ ∃ r ∈ hostRecords h req, d = relayed seq pid r

/-! ## Replies -/

/-- The messages of a reply to a request, when the interfaces it is about are `found`. -/
def planOf (h : Host) (req : Bytes) (found : List Interface) (seq pid : Nat) : List Planned :=
  let type := readLe 2 4 req
  if type = rtmGetlink then linkPlan found req seq pid
  else if type = rtmGetaddr then addressPlan h req seq pid
  else if type = rtmGetroute ∧ isDump req then relayPlan seq pid (hostRecords h req)
  else []

/-- **What a reply is meant to hold**, before its end. -/
def meant (h : Host) (req : Bytes) (seq pid : Nat) : List Planned :=
  planOf h req (interfacesAsked h req) seq pid

end Improot.Netlink
