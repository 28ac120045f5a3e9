import Improot.Lib.Buffer

/-!
# Netlink messages

The builders of `syscall/enter.c` for the messages of a netlink reply, and the standard walks by
which such messages are read.
-/

namespace Improot.Netlink

open Lib

/-! ## Formats -/

def nlmsg : RecordFormat := ⟨4, 16, by decide, by decide⟩

def rta : RecordFormat := ⟨2, 4, by decide, by decide⟩

def nlmsgHdrlen : Nat := 16
def nlmsgError : Nat := 2
def nlmsgDone : Nat := 3
def rtmNewlink : Nat := 16
def rtmGetlink : Nat := 18
def rtmNewaddr : Nat := 20
def rtmGetaddr : Nat := 22
def rtmNewroute : Nat := 24
def rtmGetroute : Nat := 26
def nlmFMulti : Nat := 2
def nlmFDump : Nat := 0x300
def iflaAddress : Nat := 1
def iflaBroadcast : Nat := 2
def iflaIfname : Nat := 3
def iflaMtu : Nat := 4
def iflaTxqlen : Nat := 13
def iflaOperstate : Nat := 16
def ifaAddress : Nat := 1
def ifaLocal : Nat := 2
def ifaLabel : Nat := 3
def ifaFPermanent : Nat := 0x80
def arphrdEther : Nat := 1
def arphrdLoopback : Nat := 772
def iffUp : Nat := 1
def iffLoopback : Nat := 8
def iffRunning : Nat := 0x40
def iffLowerUp : Nat := 0x10000
def afUnspec : Nat := 0
def afInet : Nat := 2
def afInet6 : Nat := 10
def afPacket : Nat := 17
def rtScopeUniverse : Nat := 0
def rtScopeLink : Nat := 253
def rtScopeHost : Nat := 254
def enodev : Nat := 19
def einval : Nat := 22

/-- `IFNAMSIZ`, the size of the name of an interface with its terminator. -/
def ifnamsiz : Nat := 16

def hasFlag (flags flag : Nat) : Bool := flags &&& flag ≠ 0

/-! ## Building -/

/-- The buffer of a reply, and the offset up to which it is filled. -/
structure Out where
  buf : Bytes
  off : Nat

def rtaLength (dlen : Nat) : Nat := 4 + dlen

def rtaSpace (dlen : Nat) : Nat := align4 (rtaLength dlen)

/-- `nl_add_attr`: append an attribute, or drop it if it would overflow `max`. -/
def nlAddAttr (o : Out) (max type : Nat) (data : Bytes) (dlen : Nat) : Out :=
  -- the parameter is an `uint16_t`
  let dlen := dlen % 2 ^ 16
  let space := rtaSpace dlen
  if o.off + space > max then o
  else
    let buf := patch o.buf o.off (le 2 (rtaLength dlen) ++ le 2 type)
    let buf := patch buf (o.off + rtaLength 0) (data.take dlen)
    let buf := patch buf (o.off + rtaLength dlen) (List.replicate (space - rtaLength dlen) 0)
    ⟨buf, o.off + space⟩

def nlmsghdr (len type flags seq pid : Nat) : Bytes :=
  le 4 len ++ (le 2 type ++ le 2 flags ++ le 4 seq ++ le 4 pid)

/-- What `nl_build_link` is told of an interface. -/
structure LinkInfo where
  ifindex : Nat
  iftype : Nat
  ifflags : Nat
  mtu : Nat
  name : Bytes
  hwaddr : Bytes
  hwlen : Nat

def ifinfomsg (l : LinkInfo) : Bytes :=
  le 1 afUnspec ++ le 1 0 ++ le 2 l.iftype ++ le 4 l.ifindex ++
    le 4 (l.ifflags ||| (if hasFlag l.ifflags iffRunning then iffLowerUp else 0)) ++ le 4 0

/-- `IF_OPER_UP` or `IF_OPER_DOWN`. -/
def operstate (l : LinkInfo) : Nat := if hasFlag l.ifflags iffUp then 6 else 2

def broadcast (l : LinkInfo) : Bytes :=
  List.replicate 8 (if l.iftype = arphrdLoopback then 0x00 else 0xff)

def nlBuildLink (o : Out) (max seq pid nlflags : Nat) (l : LinkInfo) : Out :=
  let start := o.off
  if start + nlmsgHdrlen + align4 (ifinfomsg l).length > max then o
  else
    let off := start + nlmsgHdrlen
    let o : Out := ⟨patch o.buf off (ifinfomsg l), off + align4 (ifinfomsg l).length⟩
    let o := nlAddAttr o max iflaIfname (l.name ++ [0]) (l.name.length + 1)
    let o := nlAddAttr o max iflaMtu (le 4 l.mtu) 4
    let o := nlAddAttr o max iflaTxqlen (le 4 1000) 4
    let o := nlAddAttr o max iflaOperstate (le 1 (operstate l)) 1
    let o :=
      if l.hwlen > 0 then
        let o := nlAddAttr o max iflaAddress l.hwaddr l.hwlen
        nlAddAttr o max iflaBroadcast (broadcast l) l.hwlen
      else o
    let len := o.off - start
    ⟨patch o.buf start (nlmsghdr len rtmNewlink nlflags seq pid), start + align4 len⟩

/-- What `nl_build_addr` is told of an address; `addr` has the length of its family. -/
structure AddrInfo where
  family : Nat
  ifindex : Nat
  addr : Bytes
  prefixlen : Nat
  scope : Nat
  label : Option Bytes

def ifaddrmsg (a : AddrInfo) : Bytes :=
  le 1 a.family ++ le 1 a.prefixlen ++ le 1 ifaFPermanent ++ le 1 a.scope ++ le 4 a.ifindex

def nlBuildAddr (o : Out) (max seq pid nlflags : Nat) (a : AddrInfo) : Out :=
  let start := o.off
  if start + nlmsgHdrlen + align4 (ifaddrmsg a).length > max then o
  else
    let off := start + nlmsgHdrlen
    let o : Out := ⟨patch o.buf off (ifaddrmsg a), off + align4 (ifaddrmsg a).length⟩
    let o := nlAddAttr o max ifaAddress a.addr a.addr.length
    let o := nlAddAttr o max ifaLocal a.addr a.addr.length
    let o :=
      match a.label with
      | some label =>
        if a.family = afInet then nlAddAttr o max ifaLabel (label ++ [0]) (label.length + 1) else o
      | none => o
    let len := o.off - start
    ⟨patch o.buf start (nlmsghdr len rtmNewaddr nlflags seq pid), start + align4 len⟩

/-- `nl_build_done` and `nl_build_error`: a message with a payload and no attributes. -/
def nlBuildPlain (o : Out) (max seq pid type nlflags : Nat) (payload : Bytes) : Out :=
  let len := nlmsgHdrlen + payload.length
  if o.off + align4 len > max then o
  else
    let buf := patch o.buf (o.off + nlmsgHdrlen) payload
    ⟨patch buf o.off (nlmsghdr len type nlflags seq pid), o.off + align4 len⟩

def nlBuildDone (o : Out) (max seq pid : Nat) : Out :=
  nlBuildPlain o max seq pid nlmsgDone nlmFMulti (le 4 0)

/-- `-error`, as an `int`. -/
def negative (error : Nat) : Nat := (2 ^ 32 - error) % 2 ^ 32

/-- `struct nlmsgerr`: the error, and a zeroed header of the request. -/
def nlmsgerr (error : Nat) : Bytes := le 4 (negative error) ++ List.replicate 16 0

/-- `nl_build_error`, of `-error`. -/
def nlBuildError (o : Out) (max seq pid error : Nat) : Out :=
  nlBuildPlain o max seq pid nlmsgError 0 (nlmsgerr error)

/-! ## Reading -/

structure Attr where
  type : Nat
  data : Bytes
  deriving DecidableEq

structure Message where
  type : Nat
  flags : Nat
  seq : Nat
  pid : Nat
  /-- the structure at the start of the payload -/
  fixed : Bytes
  attrs : List Attr
  deriving DecidableEq

/-- The size of the structure that attributes follow, for the messages that have some. -/
def fixedLength (type : Nat) : Option Nat :=
  if type = rtmNewlink then some 16
  else if type = rtmNewaddr then some 8
  else if type = rtmNewroute then some 12
  else none

def Attr.of (r : Record) : Attr := ⟨readLe 2 0 r.rest, r.payload⟩

def splitPayload (type : Nat) (payload : Bytes) : Bytes × List Attr :=
  match fixedLength type with
  | some n => (payload.take n, (rta.walk (payload.drop n)).map Attr.of)
  | none => (payload, [])

def Message.of (r : Record) : Message :=
  let type := readLe 2 0 r.rest
  let body := splitPayload type r.payload
  { type := type
    flags := readLe 2 2 r.rest
    seq := readLe 4 4 r.rest
    pid := readLe 4 8 r.rest
    fixed := body.1
    attrs := body.2 }

def decode (bs : Bytes) : List Message := (nlmsg.walk bs).map Message.of

/-! ## What is meant -/

def Attr.record (a : Attr) : Record := ⟨le 2 a.type, a.data⟩

def Message.record (m : Message) : Record :=
  ⟨le 2 m.type ++ le 2 m.flags ++ le 4 m.seq ++ le 4 m.pid,
    m.fixed ++ rta.encodeAll (m.attrs.map Attr.record)⟩

def linkAttrs (l : LinkInfo) : List Attr :=
  [⟨iflaIfname, l.name ++ [0]⟩, ⟨iflaMtu, le 4 l.mtu⟩, ⟨iflaTxqlen, le 4 1000⟩,
    ⟨iflaOperstate, le 1 (operstate l)⟩] ++
  if l.hwlen > 0 then
    [⟨iflaAddress, l.hwaddr.take l.hwlen⟩, ⟨iflaBroadcast, (broadcast l).take l.hwlen⟩]
  else []

def linkMessage (seq pid nlflags : Nat) (l : LinkInfo) : Message :=
  ⟨rtmNewlink, nlflags, seq, pid, ifinfomsg l, linkAttrs l⟩

def addrAttrs (a : AddrInfo) : List Attr :=
  [⟨ifaAddress, a.addr⟩, ⟨ifaLocal, a.addr⟩] ++
  match a.label with
  | some label => if a.family = afInet then [⟨ifaLabel, label ++ [0]⟩] else []
  | none => []

def addrMessage (seq pid nlflags : Nat) (a : AddrInfo) : Message :=
  ⟨rtmNewaddr, nlflags, seq, pid, ifaddrmsg a, addrAttrs a⟩

def doneMessage (seq pid : Nat) : Message := ⟨nlmsgDone, nlmFMulti, seq, pid, le 4 0, []⟩

def errorMessage (seq pid error : Nat) : Message := ⟨nlmsgError, 0, seq, pid, nlmsgerr error, []⟩

end Improot.Netlink
