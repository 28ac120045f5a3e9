import Improot.Syscall.Mount
import Improot.Syscall.Readlink

/-!
# Socket names

`syscall/socket.c`: the path in the address of an AF_UNIX socket is translated before bind(2) and
connect(2), and brought back after getsockname(2), getpeername(2) and accept(2).
-/

namespace Improot.Syscall

open Improot.Path

/-! ## Addresses -/

def offsetofPath : Nat := 2

def sizeofSockaddrUn : Nat := offsetofPath + sizeofSunPath

/-- `AF_UNIX`, as `sun_family` holds it. -/
def afUnix : CString := ['\x01', '\x00']

def strncpy (n : Nat) (src : CString) : CString :=
  src.take n ++ List.replicate (n - src.length) '\x00'

/-- The string that an array of characters holds, which doesn't have to be null-terminated. -/
def untilNul (chars : CString) : CString := chars.takeWhile (· ≠ '\x00')

/-- `read_sockaddr_un`: the structure and its pathname, if it's a named Unix domain socket. -/
def readSockaddrUn (m : Memory) (maxSize address : Nat) (size : Int) :
    Option (CString × CString) :=
  -- nothing to do if the sockaddr has an unexpected size
  if size ≤ offsetofPath ∨ maxSize < size then none
  else
    let sockaddr := readData m address size.toNat ++
      List.replicate (sizeofSockaddrUn - size.toNat) '\x00'
    let sunPath := sockaddr.drop offsetofPath
    if sockaddr.take offsetofPath ≠ afUnix ∨ sunPath.head? = some '\x00' then none
    else some (sockaddr, untilNul sunPath)

/-! ## The two translations -/

/-- `translate_socketcall_enter`: the structure that is pushed to the memory of the tracee, none
when the address stays. `tempName` is what `create_temp_name` and `mktemp(3)` answer. -/
def translateSocketcallEnter (m : Memory) (address : Nat) (size : Int)
    (tempName : Option CString) : Comp (Option CString) :=
  if address = 0 then pure none
  else
    match readSockaddrUn m sizeofSockaddrUn address size with
    | none => pure none
    | some (sockaddr, userPath) => do
      let hostPath ← translateSocketPath userPath tempName
      pure (some (sockaddr.take offsetofPath ++ strncpy sizeofSunPath hostPath))

/-- `translate_socketcall_exit`: the memory of the tracee, and the length it finds; `size` is the
one that the kernel reports, `maxSize` the one of the buffer. -/
def translateSocketcallExit (w : World) (m : Memory) (sockAddr size maxSize : Nat) :
    Except Failure (Memory × Nat) :=
  if sockAddr = 0 then .ok (m, size)
  else
    let maxSize := min maxSize sizeofSockaddrUn
    match readSockaddrUn m maxSize sockAddr size with
    | none => .ok (m, size)
    | some (sockaddr, path) => do
      let (_, path) ← detranslatePath w path none
      let size := offsetofPath + path.length + 1
      let sockaddr := sockaddr.take offsetofPath ++ strncpy sizeofSunPath path
      -- the buffer provided is too small: addrlen is greater than was supplied
      if size > maxSize then pure (writeData m sockAddr (sockaddr.take maxSize), maxSize + 1)
      else pure (writeData m sockAddr (sockaddr.take size), size)

/-! ## The kernel -/

def kernelName (sockaddr : CString) : CString := untilNul (sockaddr.drop offsetofPath)

def kernelAddress (name : CString) : CString := afUnix ++ name ++ ['\x00']

/-- What the kernel stores in a buffer of some size, and the length it reports. -/
def kernelGetname (m : Memory) (sockAddr size : Nat) (name : CString) : Memory × Nat :=
  (writeData m sockAddr ((kernelAddress name).take size), (kernelAddress name).length)

def guestGetname (w : World) (m : Memory) (sockAddr size : Nat) (name : CString) :
    Except Failure (Memory × Nat) :=
  let (m, length) := kernelGetname m sockAddr size name
  translateSocketcallExit w m sockAddr length size

end Improot.Syscall
