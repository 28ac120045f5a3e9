import Improot.Lib.Loop
import Improot.Netlink.Message

/-!
# Acknowledging a refused request

A tracee that believes it configures a network namespace of its own sends requests that the kernel
refuses.  The refusal is looked for in the reply that the tracee reads, and turned into an
acknowledgment.
-/

namespace Improot.Netlink

open Lib

/-! ## The walk over the reply -/

/-- `NLMSG_ALIGN` of a length field: both operands are unsigned and have 32 bits. -/
def nlmsgAlign (len : BitVec 32) : BitVec 32 := (len + 3) &&& ~~~3

def eperm : Int := 1
def eacces : Int := 13

def sizeofReply : Nat := 512

variable {w : Nat}

/-- The stack of PRoot as seen from the array `reply`: the byte at each address relative to it. The
first bytes are what was received. -/
abbrev Stack (w : Nat) := BitVec w → UInt8

def Stack.copy (stack : Stack w) (off : BitVec w) (n : Nat) : Bytes :=
  (List.range n).map fun i => stack (off + BitVec.ofNat w i)

def Stack.nlmsgLen (stack : Stack w) (off : BitVec w) : BitVec 32 :=
  BitVec.ofNat 32 (readLe 4 0 (stack.copy off nlmsgHdrlen))

def Stack.nlmsgType (stack : Stack w) (off : BitVec w) : Nat :=
  readLe 2 4 (stack.copy off nlmsgHdrlen)

def Stack.nlmsgSeq (stack : Stack w) (off : BitVec w) : Nat :=
  readLe 4 8 (stack.copy off nlmsgHdrlen)

/-- The error of a message of type `NLMSG_ERROR`. -/
def Stack.error (stack : Stack w) (off : BitVec w) : Int :=
  (BitVec.ofNat 32 (ofLe (stack.copy (off + BitVec.ofNat w nlmsgHdrlen) 4))).toInt

def sizeofError : Nat := 4

/-- Does the message at `off` answer the request with this sequence number? -/
def Stack.answers (stack : Stack w) (seq : Nat) (off : BitVec w) : Bool :=
  stack.nlmsgType off = nlmsgError ∧ stack.nlmsgSeq off = seq

/-- The loop of `handle_netlink_reply_exit`: the states are the offsets, and the result is the
address in the reply where the error is overwritten, if it is. -/
def replyWalk (stack : Stack w) (seq len : Nat) : Loop (BitVec w) (Option (BitVec w)) where
  enters off := (off + BitVec.ofNat w nlmsgHdrlen + BitVec.ofNat w sizeofError).toNat ≤ len
  body off :=
    if (stack.nlmsgLen off).toNat < nlmsgHdrlen then .inr none
    else if stack.answers seq off then
      -- a real error is reported as it is
      if stack.error off ≠ -eperm ∧ stack.error off ≠ -eacces then .inr none
      else .inr (some (off + BitVec.ofNat w nlmsgHdrlen))
    else .inl (off + (nlmsgAlign (stack.nlmsgLen off)).setWidth w)

/-! ## The handler -/

structure NetlinkAck where
  pending : Bool
  fd : Int
  seq : Nat

structure ReplyRead (w : Nat) where
  recvfrom : Bool
  sysarg1 : BitVec w
  sysarg2 : BitVec w
  sysarg3 : BitVec w
  sysarg4 : BitVec w
  result : BitVec w
  /-- the size of a word of the tracee -/
  sizeofWord : Nat
  /-- `peek_word`; none on an error, where it returns 0 -/
  peekWord : BitVec w → Option (BitVec w)

/-- `(int)` of a word. -/
def int (x : BitVec w) : Int := (x.setWidth 32).toInt

/-- `msghdr_first_iovec`: the address and the length of the first buffer. -/
def ReplyRead.msghdrFirstIovec (call : ReplyRead w) (msghdr : BitVec w) :
    Option (BitVec w × BitVec w) :=
  let word := BitVec.ofNat w call.sizeofWord
  if msghdr = 0 then none
  else
    let iovPtr := call.peekWord (msghdr + 2 * word)
    let iovCount := if iovPtr.isSome then (call.peekWord (msghdr + 3 * word)).getD 0 else 0
    if iovPtr.getD 0 = 0 ∨ iovCount = 0 then none
    else
      let base := call.peekWord (iovPtr.getD 0)
      let len := if base.isSome then (call.peekWord (iovPtr.getD 0 + word)).getD 0 else 0
      some (base.getD 0, len)

def ReplyRead.buffer (call : ReplyRead w) : Option (BitVec w × BitVec w) :=
  if call.recvfrom then some (call.sysarg2, call.sysarg3) else call.msghdrFirstIovec call.sysarg2

def ReplyRead.flags (call : ReplyRead w) : BitVec 32 :=
  if call.recvfrom then call.sysarg4.setWidth 32 else call.sysarg3.setWidth 32

/-- `len`: how much of the reply is looked at. -/
def ReplyRead.len (call : ReplyRead w) (bufLen : BitVec w) : Nat :=
  min (min (int call.result).toNat bufLen.toNat) sizeofReply

/-- The address of the buffer and the length that is walked over; none if the handler returns
before. -/
def ReplyRead.walked (call : ReplyRead w) (ack : NetlinkAck) : Option (BitVec w × Nat) :=
  if ¬ ack.pending ∨ int call.sysarg1 ≠ ack.fd ∨ int call.result ≤ 0 then none
  else
    match call.buffer with
    | none => none
    | some (base, bufLen) =>
      if base = 0 ∨ call.len bufLen < nlmsgHdrlen + sizeofError then none
      else some (base, call.len bufLen)

/-- `handle_netlink_reply_exit`: the offsets of the walk, where a zero is poked into the memory of
the tracee, and what is remembered afterwards. `copied` is what `read_data` leaves on the stack, if
it succeeds; there is no result if the walk isn't left within `fuel` turns. -/
def handleNetlinkReplyExit (ack : NetlinkAck) (call : ReplyRead w) (copied : Option (Stack w))
    (fuel : Nat) : Option (List (BitVec w) × Option (BitVec w) × NetlinkAck) :=
  match call.walked ack, copied with
  | some (base, len), some stack =>
    ((replyWalk stack ack.seq len).run fuel 0).map fun (visited, found) =>
      (visited, found.join.map (base + ·),
        if call.flags &&& 2 = 0 then { ack with pending := false } else ack)
  | _, _ => some ([], none, ack)

end Improot.Netlink
