import Improot.Netlink.Reply

/-!
# Reading the reply

A reply that was prepared for a socket is handed out by `recvfrom(2)` and `recvmsg(2)`, datagram by
datagram: `recv(2)` is the former without an address.
-/

namespace Improot.Netlink

open Lib

/-- `struct fake_netlink_socket`, but for the descriptor. -/
structure FakeNetlinkSocket where
  reply : Bytes
  replyLen : Nat
  replyOff : Nat

/-- The socket once `build_fake_netlink_reply` has prepared its reply. -/
def FakeNetlinkSocket.prepared (h : Host) (pid : UInt32) (sent : Option Bytes) (buf : Bytes) :
    FakeNetlinkSocket :=
  let o := buildFakeNetlinkReply h pid sent buf
  ⟨o.buf, o.off, 0⟩

/-! ## Datagrams -/

/-- The loop of `fake_netlink_datagram_len` over what is left behind `off`: it stops at the
terminator, at a message that is cut or has a wrong length, and at the end. -/
def datagramOff (bs : Bytes) (off : Nat) : Nat :=
  if bs.length < nlmsgHdrlen then off
  else
    let mlen := readLe 4 0 bs
    if mlen < nlmsgHdrlen ∨ bs.length < mlen then off
    else if readLe 2 4 bs = nlmsgDone then off
    else datagramOff (bs.drop (align4 mlen)) (off + align4 mlen)
termination_by bs.length
decreasing_by
  have hle := le_align4 (readLe 4 0 bs)
  unfold nlmsgHdrlen at *
  rw [List.length_drop]
  omega

/-- `fake_netlink_datagram_len`: the length of the next datagram in the first `len` bytes. -/
def fakeNetlinkDatagramLen (reply : Bytes) (len : Nat) : Nat :=
  let off := datagramOff (reply.take len) 0
  if off = 0 ∨ off > len then len else off

/-- `pending_fake_netlink_datagram`: where the datagram starts, and its length; 0 if nothing is
pending. -/
def FakeNetlinkSocket.pending (sock : FakeNetlinkSocket) : Bytes × Nat :=
  if sock.replyLen = 0 then ([], 0)
  else
    let reply := sock.reply.drop sock.replyOff
    (reply, fakeNetlinkDatagramLen reply (sock.replyLen - sock.replyOff))

def FakeNetlinkSocket.consume (sock : FakeNetlinkSocket) (datagram : Nat) : FakeNetlinkSocket :=
  let sock := { sock with replyOff := sock.replyOff + datagram }
  if sock.replyOff ≥ sock.replyLen then
    { sock with
      replyLen := 0
      replyOff := 0 }
  else sock

/-! ## Calls -/

def msgPeek : Nat := 0x2
def msgTrunc : Nat := 0x20

/-- A buffer of the tracee, as its memory gives it when its turn comes: the address, the length, and
whether its bytes can be written. -/
structure Segment where
  base : Nat
  len : Nat
  writable : Bool
  deriving DecidableEq

inductive Receive where
  | recvfrom (buf : Segment) (flags : Nat)
  /-- the buffers of the header, none of which is read if they can't be found; nothing without a
  header -/
  | recvmsg (msghdr : Option (List Segment)) (flags : Nat)

/-- What a call that isn't passed on does: the writes of data to the tracee that are attempted, in
order, the result, and the `msg_flags` that are reported. -/
structure Delivery where
  writes : List (Nat × Bytes)
  result : Nat
  msgFlags : Option Nat
  deriving DecidableEq

/-- `scatter_fake_netlink_reply`: the writes, and how many bytes are scattered. -/
def scatterFakeNetlinkReply (reply : Bytes) (replyLen : Nat) :
    List Segment → (done : Nat) → List (Nat × Bytes) × Nat
  | [], done => ([], done)
  | s :: rest, done =>
    if ¬ done < replyLen then ([], done)
    else
      let chunk := min (replyLen - done) s.len
      if s.base ≠ 0 ∧ chunk > 0 then
        let write := (s.base, (reply.drop done).take chunk)
        if s.writable then
          let (writes, done) := scatterFakeNetlinkReply reply replyLen rest (done + chunk)
          (write :: writes, done)
        else ([write], done)
      else scatterFakeNetlinkReply reply replyLen rest (done + chunk)

def Receive.flags : Receive → Nat
  | .recvfrom _ flags => flags
  | .recvmsg _ flags => flags

/-- `MSG_PEEK` is set. -/
def Receive.peeks (call : Receive) : Bool := hasFlag call.flags msgPeek

/-- A receiving call at its entry: none if it is passed on to the substitute, which never receives
anything. -/
def receive (sock : FakeNetlinkSocket) (call : Receive) : Option Delivery × FakeNetlinkSocket :=
  let (reply, datagram) := sock.pending
  if datagram = 0 then (none, sock)
  else
    let next := if call.peeks then sock else sock.consume datagram
    match call with
    | .recvfrom buf flags =>
      let tried := if buf.base ≠ 0 then min buf.len datagram else 0
      let writes := if tried > 0 then [(buf.base, reply.take tried)] else []
      let copied := if tried > 0 ∧ ¬ buf.writable then 0 else tried
      (some ⟨writes, if hasFlag flags msgTrunc then datagram else copied, none⟩, next)
    | .recvmsg msghdr flags =>
      let (writes, scattered) := scatterFakeNetlinkReply reply datagram (msghdr.getD []) 0
      let msgFlags := msghdr.map fun _ => if scattered < datagram then msgTrunc else 0
      (some ⟨writes, if hasFlag flags msgTrunc then datagram else scattered, msgFlags⟩, next)

end Improot.Netlink
