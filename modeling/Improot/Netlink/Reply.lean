import Improot.Netlink.Message

/-!
# The reply to a netlink request

`build_fake_netlink_reply` of `syscall/enter.c`: a request for the links, the addresses or the
routes is answered from what the host tells of them, any other one is acknowledged.
-/

namespace Improot.Netlink

open Lib

/-! ## The host -/

/-- The name of an interface: a C string that fits `IFNAMSIZ` with its terminator. -/
structure IfName where
  chars : Bytes
  short : chars.length < ifnamsiz
  terminated : 0 ∉ chars
  deriving DecidableEq

structure SockaddrLl where
  ifindex : Nat
  hatype : Nat
  halen : Nat
  addr : Bytes

structure InAddr (n : Nat) where
  bytes : Bytes
  size : bytes.length = n

/-- `ifa_addr`. -/
inductive Sockaddr where
  | packet (sll : SockaddrLl)
  | inet (addr : InAddr 4)
  | inet6 (addr : InAddr 16)
  | other

/-- `struct ifaddrs`; the mask is read as an address of the family of `addr`. -/
structure Ifaddrs where
  name : Option IfName
  flags : Nat
  addr : Option Sockaddr
  netmask : Option Bytes

/-- A datagram from the kernel: netlink messages are aligned to four bytes. -/
structure HostDatagram where
  bytes : Bytes
  aligned : bytes.length % 4 = 0

structure Host where
  getifaddrs : Option (List Ifaddrs)
  ifNametoindex : IfName → Nat
  socket : Bool
  mtu : IfName → Option Nat
  /-- `SIOCGIFHWADDR`: the type and the first bytes of the address -/
  hwaddr : IfName → Option (Nat × Bytes)
  /-- the datagrams that answer a dump of the routes of a family, until recv(2) gives none; nothing if
  the request can't be sent -/
  routes : (family : UInt8) → Option (List HostDatagram)

/-! ## Links -/

def hwaddrOf (bs : Bytes) : Bytes := (bs ++ List.replicate 8 0).take 8

def linkInfo (h : Host) (i : Ifaddrs) (name : IfName) : LinkInfo :=
  let loopback := hasFlag i.flags iffLoopback
  let l : LinkInfo :=
    { ifindex := h.ifNametoindex name
      iftype := if loopback then arphrdLoopback else arphrdEther
      ifflags := i.flags
      mtu := if loopback then 65536 else 1500
      name := name.chars
      hwaddr := hwaddrOf []
      hwlen := 0 }
  -- AF_PACKET entries carry the authoritative index/type/hwaddr
  let l : LinkInfo :=
    match i.addr with
    | some (.packet sll) =>
      let l := { l with
        ifindex := if sll.ifindex ≠ 0 then sll.ifindex else l.ifindex
        iftype := sll.hatype }
      if sll.halen > 0 ∧ sll.halen ≤ 8 then
        { l with
          hwaddr := hwaddrOf (sll.addr.take sll.halen)
          hwlen := sll.halen }
      else l
    | _ => l
  -- best-effort MTU, and hwaddr/type when no AF_PACKET entry
  if h.socket then
    let l := { l with mtu := (h.mtu name).getD l.mtu }
    if l.hwlen = 0 then
      match h.hwaddr name with
      | some (family, data) =>
        { l with
          iftype := family
          hwaddr := hwaddrOf (data.take 6)
          hwlen := 6 }
      | none => l
    else l
  else l

/-- What a single request asks for: a name if it isn't empty, else an index if it is positive. -/
structure LinkTarget where
  name : Bytes
  index : Nat

def LinkTarget.wants (want : LinkTarget) (l : LinkInfo) : Bool :=
  if want.name ≠ [] then want.name = l.name
  -- the index is an `int`
  else if 0 < want.index ∧ want.index < 2 ^ 31 then l.ifindex % 2 ^ 32 = want.index
  else true

/-- How many names `build_host_links` remembers. -/
def maxSeen : Nat := 64

def remember (seen : List IfName) (name : IfName) : List IfName :=
  if seen.length < maxSeen then seen ++ [name] else seen

def buildLinks (h : Host) (max seq pid : Nat) (want : Option LinkTarget) :
    List Ifaddrs → (seen : List IfName) → Out → (built : Nat) → Out × Nat
  | [], _, o, built => (o, built)
  | i :: rest, seen, o, built =>
    match i.name with
    | none => buildLinks h max seq pid want rest seen o built
    | some name =>
      if name ∈ seen then buildLinks h max seq pid want rest seen o built
      else
        let seen := remember seen name
        let l := linkInfo h i name
        match want with
        | none =>
          if o.off + 256 > max then (o, built)
          else buildLinks h max seq pid want rest seen (nlBuildLink o max seq pid nlmFMulti l) (built + 1)
        | some target =>
          if ¬ target.wants l then buildLinks h max seq pid want rest seen o built
          else if o.off + 256 > max then (o, built)
          else (nlBuildLink o max seq pid 0 l, built + 1)

def buildHostLinks (h : Host) (buf : Bytes) (max seq pid : Nat) (want : Option LinkTarget) :
    Out × Nat :=
  match h.getifaddrs with
  | none => (⟨buf, 0⟩, 0)
  | some ifaddr => buildLinks h max seq pid want ifaddr [] ⟨buf, 0⟩ 0

/-! ## Addresses -/

def leadingOnes : (bits : Nat) → UInt8 → Nat
  | 0, _ => 0
  | bits + 1, b => if b &&& 0x80 ≠ 0 then leadingOnes bits (b <<< 1) + 1 else 0

def nlPrefixlen : Bytes → Nat
  | [] => 0
  | b :: bs => if b = 0xff then 8 + nlPrefixlen bs else leadingOnes 8 b

def nlAddrScope (family : Nat) (addr : Bytes) : Nat :=
  if family = afInet then
    if addr[0]? = some 127 then rtScopeHost
    else if addr[0]? = some 169 ∧ addr[1]? = some 254 then rtScopeLink
    else rtScopeUniverse
  else
    if addr.take 16 = List.replicate 15 0 ++ [1] then rtScopeHost
    else if addr[0]? = some 0xfe ∧ (addr[1]?.map (· &&& 0xc0)) = some 0x80 then rtScopeLink
    else rtScopeUniverse

/-- The family of an address, its bytes, and the prefix length without a mask. -/
def Sockaddr.internet : Sockaddr → Option (Nat × Bytes × Nat)
  | .inet addr => some (afInet, addr.bytes, 32)
  | .inet6 addr => some (afInet6, addr.bytes, 128)
  | .packet _ | .other => none

/-- What `build_host_addrs` finds out about an address, if it is of the family that is wanted. -/
def addrInfo (h : Host) (wantFamily : Nat) (i : Ifaddrs) : Option AddrInfo :=
  match i.name, i.addr.bind Sockaddr.internet with
  | some name, some (family, addr, bits) =>
    if wantFamily ≠ afUnspec ∧ family ≠ wantFamily then none
    else
      some
        { family := family
          ifindex := h.ifNametoindex name
          addr := addr
          prefixlen :=
            match i.netmask with
            | some mask => nlPrefixlen (mask.take addr.length)
            | none => bits
          scope := nlAddrScope family addr
          label := some name.chars }
  | _, _ => none

def buildAddrs (h : Host) (max seq pid wantFamily : Nat) (dump : Bool) :
    List Ifaddrs → Out → (built : Nat) → Out × Nat
  | [], o, built => (o, built)
  | i :: rest, o, built =>
    match addrInfo h wantFamily i with
    | none => buildAddrs h max seq pid wantFamily dump rest o built
    | some a =>
      if o.off + 256 > max then (o, built)
      else
        buildAddrs h max seq pid wantFamily dump rest
          (nlBuildAddr o max seq pid (if dump then nlmFMulti else 0) a) (built + 1)

def buildHostAddrs (h : Host) (buf : Bytes) (max seq pid wantFamily : Nat) (dump : Bool) : Out × Nat :=
  match h.getifaddrs with
  | none => (⟨buf, 0⟩, 0)
  | some ifaddr => buildAddrs h max seq pid wantFamily dump ifaddr ⟨buf, 0⟩ 0

/-! ## Loopback -/

def lo : Bytes := [108, 111]

/-- The interface of `nl_build_loopback_link`. -/
def loopbackLink : LinkInfo where
  ifindex := 1
  iftype := arphrdLoopback
  ifflags := iffUp ||| iffLoopback ||| iffRunning
  mtu := 65536
  name := lo
  hwaddr := List.replicate 6 0
  hwlen := 6

/-- The address of `nl_build_loopback_addr`. -/
def loopbackAddr (family : Nat) : AddrInfo :=
  if family = afInet6 then
    ⟨afInet6, 1, List.replicate 15 0 ++ [1], 128, rtScopeHost, none⟩
  else ⟨afInet, 1, [127, 0, 0, 1], 8, rtScopeHost, some lo⟩

/-! ## Routes -/

def readdress (seq pid : Nat) (r : Record) : Record :=
  ⟨r.rest.take 4 ++ le 4 seq ++ le 4 pid, r.payload⟩

def messageType (r : Record) : Nat := readLe 2 0 r.rest

/-- How a round of `relay_route_dump` ends. -/
inductive Round where
  | goesOn
  | full
  | sawDone
  deriving DecidableEq

/-- The messages of a datagram: each is copied, as long as there is room for a terminator after it.
-/
def relayMessages (max seq pid : Nat) : List Record → Out → Out × Round
  | [], o => (o, .goesOn)
  | r :: rest, o =>
    let mlen := nlmsg.lengthOf r
    let aligned := align4 mlen
    if o.off + aligned + 64 > max then (o, .full)
    else
      let buf := patch o.buf o.off (nlmsg.bare (readdress seq pid r))
      let buf := patch buf (o.off + mlen) (List.replicate (aligned - mlen) 0)
      let o := ⟨buf, o.off + aligned⟩
      if messageType r = nlmsgDone then (o, .sawDone) else relayMessages max seq pid rest o

/-- The rounds of `relay_route_dump`, each on the datagram received: `NLMSG_OK` and `NLMSG_NEXT`
walk over its messages. -/
def relayRounds (max seq pid : Nat) : List HostDatagram → Out → Out × Round
  | [], o => (o, .goesOn)
  | d :: rest, o =>
    -- the buffer of a round has 8192 bytes
    match relayMessages max seq pid (nlmsg.walk (d.bytes.take 8192)) o with
    | (o, .goesOn) => relayRounds max seq pid rest o
    | (o, round) => (o, round)

def relayRouteDump (h : Host) (req : Bytes) (buf : Bytes) (max seq pid : Nat) : Out :=
  match h.routes (req[nlmsgHdrlen]?.getD 0) with
  | none => ⟨buf, 0⟩
  | some datagrams =>
    let (o, round) := relayRounds max seq pid (datagrams.take 64) ⟨buf, 0⟩
    if o.off = 0 then o
    -- always hand the tracee a terminator
    else if round ≠ .sawDone then nlBuildDone o max seq pid
    else o

/-! ## The reply -/

def requestAttrs (req : Bytes) : List Record := rta.walk (req.drop (nlmsgHdrlen + 16))

/-- The last `IFLA_IFNAME` of a request, cut to fit `IFNAMSIZ`. -/
def requestName (req : Bytes) : Option Bytes :=
  (((requestAttrs req).filter fun r => readLe 2 0 r.rest = iflaIfname).getLast?).map fun r =>
    (r.payload.take (ifnamsiz - 1)).takeWhile (· ≠ 0)

def requestIndex (req : Bytes) : Nat := readLe 4 (nlmsgHdrlen + 4) req

def nlRequestLinkTarget (req : Bytes) : LinkTarget :=
  if req.length < nlmsgHdrlen + 16 then ⟨[], 0⟩
  else ⟨(requestName req).getD [], requestIndex req⟩

def nlRequestIsLoopback (req : Bytes) : Bool :=
  -- no selector: treat as loopback
  if req.length < nlmsgHdrlen + 16 then true
  else
    match requestName req with
    | some name => name = lo
    | none => requestIndex req = 0 ∨ requestIndex req = 1

def maxFakeNetlinkReply : Nat := 8192

/-- `NLM_F_DUMP` is set. -/
def isDump (req : Bytes) : Bool := readLe 2 6 req &&& nlmFDump = nlmFDump

def endDump (dump : Bool) (o : Out) (max seq pid : Nat) : Out :=
  if dump then nlBuildDone o max seq pid else o

/-- The branch for `RTM_GETLINK`. -/
def replyLinks (h : Host) (req buf : Bytes) (max seq pid : Nat) (dump : Bool) : Out :=
  let (o, n) :=
    buildHostLinks h buf max seq pid (if dump then none else some (nlRequestLinkTarget req))
  let o :=
    if n = 0 then
      -- host enumeration unavailable: present loopback only
      let o : Out := ⟨o.buf, 0⟩
      if dump then nlBuildLink o max seq pid nlmFMulti loopbackLink
      else if nlRequestIsLoopback req then nlBuildLink o max seq pid 0 loopbackLink
      else nlBuildError o max seq pid enodev
    else o
  endDump dump o max seq pid

/-- The branch for `RTM_GETADDR`. -/
def replyAddrs (h : Host) (req buf : Bytes) (max seq pid : Nat) (dump : Bool) : Out :=
  let family := ((req[nlmsgHdrlen]?).getD 0).toNat
  let wantFamily := if family = afInet ∨ family = afInet6 then family else afUnspec
  let (o, n) := buildHostAddrs h buf max seq pid wantFamily dump
  let flags := if dump then nlmFMulti else 0
  let o :=
    if n = 0 then
      let o : Out := ⟨o.buf, 0⟩
      let o :=
        if family = 0 ∨ family = afInet then nlBuildAddr o max seq pid flags (loopbackAddr afInet)
        else o
      if family = 0 ∨ family = afInet6 then nlBuildAddr o max seq pid flags (loopbackAddr afInet6)
      else o
    else o
  endDump dump o max seq pid

/-- The branch for `RTM_GETROUTE`. -/
def replyRoutes (h : Host) (req buf : Bytes) (max seq pid : Nat) (dump : Bool) : Out :=
  if dump then
    let o := relayRouteDump h req buf max seq pid
    if o.off = 0 then nlBuildDone o max seq pid else o
  else nlBuildError ⟨buf, 0⟩ max seq pid 0

def replyTo (h : Host) (req buf : Bytes) (max seq pid : Nat) : Out :=
  let type := readLe 2 4 req
  let dump := isDump req
  if type = rtmGetlink then replyLinks h req buf max seq pid dump
  else if type = rtmGetaddr then replyAddrs h req buf max seq pid dump
  else if type = rtmGetroute then replyRoutes h req buf max seq pid dump
  else if dump then nlBuildDone ⟨buf, 0⟩ max seq pid
  else nlBuildError ⟨buf, 0⟩ max seq pid 0

/-- The request as `build_fake_netlink_reply` reads it, if it can be read and has a header. -/
def readRequest (sent : Option Bytes) : Option Bytes :=
  match sent with
  | some bytes => if bytes.length < nlmsgHdrlen then none else some (bytes.take 256)
  | none => none

/-- `nlmsg_seq` of the request, or 0. -/
def requestSeq (sent : Option Bytes) : Nat :=
  match readRequest sent with
  | some req => readLe 4 8 req
  | none => 0

/-- `build_fake_netlink_reply`: `sent` is what the tracee sent, if its memory can be read; `buf` is
the buffer of the socket, whatever it held before. -/
def buildFakeNetlinkReply (h : Host) (pid : UInt32) (sent : Option Bytes) (buf : Bytes) : Out :=
  let max := maxFakeNetlinkReply
  let seq := requestSeq sent
  let o :=
    match readRequest sent with
    | some req => replyTo h req buf max seq pid.toNat
    | none => ⟨buf, 0⟩
  -- never leave a request unanswered
  if o.off = 0 then nlBuildError o max seq pid.toNat einval else o

end Improot.Netlink
