import Improot.Extension.Portmap
import Improot.Lib.Buffer
import Improot.Lib.Memory
import Improot.Path.Basic

/-!
# Addresses that pass the port mapping

bind(2) and connect(2) at the enter stage of `portmap`, byte by byte: what is read from the tracee,
what is put into its memory and its registers, and the address that the kernel finds there.
-/

namespace Improot.Extension.PortFrame

open Improot.Lib

/-! ## The kernel -/

inductive KernelView where
  | refused (errno : Errno)
  | address (bytes : Bytes)
  deriving DecidableEq

def sizeofStorage : Int := 128

def moveAddr (m : Memory) (addr : Nat) (len : BitVec 32) : KernelView :=
  if len.toInt < 0 ∨ sizeofStorage < len.toInt then .refused .einval
  else
    match m.load addr len.toNat with
    | none => .refused .efault
    | some bytes => .address bytes

/-- A word in the arguments of socketcall(2).  The ABIs that have the call have words of 32 bits. -/
def wordSize : Nat := 4

/-- How the kernel takes the address of a socketcall(2), whose arguments are at `args`. -/
def moveArgs (m : Memory) (args : Nat) : KernelView :=
  match m.load args (3 * wordSize) with
  | none => .refused .efault
  | some bytes =>
    moveAddr m (readLe wordSize wordSize bytes) (BitVec.ofNat 32 (readLe wordSize (2 * wordSize) bytes))

/-! ## PRoot -/

def sizeofSockaddrUn : Nat := 110

/-- Where `sin_port` and `sin6_port` are. -/
def offsetofPort : Nat := 2

/-- What `translate_port` depends on: whether the words of PRoot have 64 bits, the configuration, the
descriptor, whether it is a bind(2), and the address that `alloc_mem` returns. -/
structure Tracer where
  is64 : Bool
  config : PortConfig
  sockfd : Fd
  isBind : Bool
  alloc : Nat

def Tracer.width (t : Tracer) : Nat := if t.is64 then 64 else 32

/-- An `int` that is passed for a `word_t`. -/
def Tracer.asWord (t : Tracer) (size : BitVec 32) : Nat := (size.signExtend t.width).toNat

/-- How many bytes can be read, up to `n`. -/
def extent (m : Memory) (a : Nat) : Nat → Nat
  | 0 => 0
  | n + 1 => if (m.byte? a).isSome then extent m (a + 1) n + 1 else 0

/-- How many bytes `read_data` copies to its destination: process_vm_readv(2) goes up to the first byte
that can't be read, or refuses sizes that are negative as an `ssize_t`; then words are peeked. -/
def Tracer.copied (t : Tracer) (m : Memory) (addr size : Nat) : Nat :=
  let n := extent m addr size
  if size < 2 ^ (t.width - 1) ∨ n = size then n else n / (t.width / 8) * (t.width / 8)

def sockaddrOf (bytes : Bytes) : Bytes := patch (List.replicate sizeofSockaddrUn 0) 0 bytes

/-- `AF_INET` and `AF_INET6`, or something else. -/
def familyOf (sockaddr : Bytes) : Family :=
  if readLe 2 0 sockaddr = 2 then .inet else if readLe 2 0 sockaddr = 10 then .inet6 else .other

def portOf (sockaddr : Bytes) : Port := BitVec.ofNat 16 (readLe 2 offsetofPort sockaddr)

def withPort (sockaddr : Bytes) (port : Port) : Bytes :=
  patch sockaddr offsetofPort (le 2 port.toNat)

/-- The port that `translate_port` puts into the structure, if any. -/
def Tracer.newPort (t : Tracer) (sockaddr : Bytes) : Option Port :=
  match familyOf sockaddr with
  | .other => none
  | .inet | .inet6 => (changeSocketPort t.config t.sockfd (portOf sockaddr) t.isBind).2

/-- `translate_port`: what becomes of the memory, and the address that takes the place of
`sock_addr`. -/
def Tracer.translatePort (t : Tracer) (m : Memory) (sockAddr : Nat) (size : BitVec 32) :
    Memory × Except Errno Nat :=
  match m.load sockAddr (t.asWord size) with
  | none => (m, .error .efault)
  | some bytes =>
    let sockaddr := sockaddrOf bytes
    match t.newPort sockaddr with
    | none => (m, .ok sockAddr)
    | some port =>
      -- `alloc_mem` may fail, but it is the address of a variable that is compared with 0
      match m.store t.alloc (withPort sockaddr port) with
      | (m, false) => (m, .error .efault)
      | (m, true) => (m, .ok t.alloc)

/-- `handle_sysenter_end` for bind(2) and connect(2), and the kernel. -/
def Tracer.direct (t : Tracer) (m : Memory) (sockAddr : Nat) (size : BitVec 32) : KernelView :=
  match t.translatePort m sockAddr size with
  | (_, .error e) => .refused e
  | (m, .ok sockAddr) => moveAddr m sockAddr sizeofSockaddrUn

/-- `peek_word`: a part of the word is taken for the whole. -/
def peekWord (m : Memory) (a : Nat) : Option Nat :=
  match extent m a wordSize with
  | 0 => none
  | n + 1 => (m.load a (n + 1)).map ofLe

/-- `poke_word`: a word that can be read lies in one page, so it is written as a whole. -/
def pokeWord (m : Memory) (a value : Nat) : Option Memory :=
  match m.store a (le wordSize value) with
  | (m, true) => some m
  | (_, false) => none

def sysargAddr (args n : Nat) : Nat := args + (n - 1) * wordSize

/-- The memory that `handle_sysenter_end` leaves for a socketcall(2): an error breaks out of the
switch, and the call goes on. -/
def Tracer.socketcallMemory (t : Tracer) (m : Memory) (args : Nat) : Memory :=
  match peekWord m (sysargAddr args 1), peekWord m (sysargAddr args 2),
    peekWord m (sysargAddr args 3) with
  | some _, some sockAddr, some size =>
    match t.translatePort m sockAddr (BitVec.ofNat 32 size) with
    | (m, .error _) => m
    | (m, .ok sockAddr) =>
      match pokeWord m (sysargAddr args 2) sockAddr with
      | none => m
      | some m => (pokeWord m (sysargAddr args 3) sizeofSockaddrUn).getD m
  | _, _, _ => m

/-- `handle_sysenter_end` for socketcall(2), and the kernel. -/
def Tracer.socketcall (t : Tracer) (m : Memory) (args : Nat) : KernelView :=
  moveArgs (t.socketcallMemory m args) args

/-! ## What is to be -/

def Tracer.mapped (t : Tracer) (bytes : Bytes) : Bytes :=
  match t.newPort (sockaddrOf bytes) with
  | none => bytes
  | some port => (withPort (sockaddrOf bytes) port).take bytes.length

/-- **What the kernel is to get**: what it gets without the extension, with the port mapped. -/
def Tracer.wanted (t : Tracer) : KernelView → KernelView
  | .refused e => .refused e
  | .address bytes => .address (t.mapped bytes)

/-- A call of the guest: with its arguments in registers, or through socketcall(2). -/
inductive Call where
  | direct (sockAddr : Nat) (size : BitVec 32)
  | socketcall (args : Nat)

def Call.plain (m : Memory) : Call → KernelView
  | .direct sockAddr size => moveAddr m sockAddr size
  | .socketcall args => moveArgs m args

def Tracer.handle (t : Tracer) (m : Memory) : Call → KernelView
  | .direct sockAddr size => t.direct m sockAddr size
  | .socketcall args => t.socketcall m args

/-- The address and the size that `translate_port` is called with, if it is. -/
def Call.sockaddr? (m : Memory) : Call → Option (Nat × BitVec 32)
  | .direct sockAddr size => some (sockAddr, size)
  | .socketcall args => do
    let _ ← peekWord m (sysargAddr args 1)
    let sockAddr ← peekWord m (sysargAddr args 2)
    let size ← peekWord m (sysargAddr args 3)
    return (sockAddr, BitVec.ofNat 32 size)

/-- **The frame of the port mapping**: the kernel gets what it is to get, and PRoot copies no more than
its structure holds. -/
structure Tracer.Framed (t : Tracer) (m : Memory) (call : Call) : Prop where
  view : t.handle m call = t.wanted (call.plain m)
  copied : ∀ sockAddr size, call.sockaddr? m = some (sockAddr, size) →
    t.copied m sockAddr (t.asWord size) ≤ sizeofSockaddrUn

end Improot.Extension.PortFrame
