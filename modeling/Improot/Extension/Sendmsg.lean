import Improot.Lib.Buffer
import Improot.Lib.Memory
import Improot.Path.Basic

/-!
# Credentials that are sent

`fake_id0/sendmsg.c`: the owners in `SCM_CREDENTIALS` messages are replaced at the enter stage of
sendmsg(2) by the real ones, in a copy of the control data below the stack of the tracee.
-/

namespace Improot.Extension.Sendmsg

open Improot.Lib

/-! ## Layouts -/

/-- A tracee of 64 bits, one of 32 bits under a PRoot of 64 bits (`is_32on64_mode`), and one of 32 bits
under a PRoot of 32 bits. -/
inductive Mode where
  | word64 | word32On64 | word32
  deriving DecidableEq, Repr

namespace Mode

def word : Mode → Nat
  | .word64 | .word32On64 => 8
  | .word32 => 4

def ptr : Mode → Nat
  | .word64 => 8
  | .word32On64 | .word32 => 4

def ownMsghdr : Mode → Nat
  | .word64 | .word32On64 => 56
  | .word32 => 28

def msghdr : Mode → Nat
  | .word64 => 56
  | .word32On64 | .word32 => 28

def controlOffset : Mode → Nat
  | .word64 => 32
  | .word32On64 | .word32 => 16

def controllenOffset : Mode → Nat
  | .word64 => 40
  | .word32On64 | .word32 => 20

def ownControllenOffset : Mode → Nat
  | .word64 | .word32On64 => 40
  | .word32 => 20

def cmsghdr : Mode → Nat
  | .word64 => 16
  | .word32On64 | .word32 => 12

def align : Mode → Nat
  | .word64 => 8
  | .word32On64 | .word32 => 4

end Mode

def maxControllen : Nat := 1024

def sizeofUcred : Nat := 12

def unpackControlAndLen (mode : Mode) (msghdr : Bytes) : Nat × Nat :=
  (readLe mode.ptr mode.controlOffset msghdr, readLe mode.ptr mode.controllenOffset msghdr)

def packControl (mode : Mode) (msghdr : Bytes) (control : Nat) : Bytes :=
  patch msghdr mode.controlOffset (le mode.ptr control)

structure Cmsghdr where
  len : Nat
  level : Nat
  type : Nat
  deriving DecidableEq, Repr

def unpackCmsghdr (mode : Mode) (buf : Bytes) (pos : Nat) : Cmsghdr where
  len := readLe mode.ptr pos buf
  level := readLe 4 (pos + mode.ptr) buf
  type := readLe 4 (pos + mode.ptr + 4) buf

/-- `SOL_SOCKET` and `SCM_CREDENTIALS` -/
def Cmsghdr.IsCredentials (c : Cmsghdr) : Prop := c.level = 1 ∧ c.type = 2

instance (c : Cmsghdr) : Decidable c.IsCredentials := inferInstanceAs (Decidable (_ ∧ _))

def Cmsghdr.Fits (c : Cmsghdr) (mode : Mode) (left : Nat) : Prop :=
  mode.cmsghdr ≤ c.len ∧ c.len ≤ left

instance (c : Cmsghdr) (mode : Mode) (left : Nat) : Decidable (c.Fits mode left) :=
  inferInstanceAs (Decidable (_ ∧ _))

def nextCmsg (mode : Mode) (pos len : Nat) : Nat :=
  pos + (len + (mode.align - 1)) / mode.align * mode.align

theorem Mode.cmsghdr_pos (mode : Mode) : 0 < mode.cmsghdr := by
  cases mode <;> decide

theorem le_nextCmsg (mode : Mode) (pos len : Nat) : pos + len ≤ nextCmsg mode pos len := by
  unfold nextCmsg
  cases mode <;> simp only [Mode.align] <;> omega

theorem lt_nextCmsg {mode : Mode} {c : Cmsghdr} {pos left : Nat} (h : c.Fits mode left) :
    pos < nextCmsg mode pos c.len := by
  have hpos := mode.cmsghdr_pos
  have hle := le_nextCmsg mode pos c.len
  have hlen := h.1
  omega

/-! ## The kernel -/

/-- The walk over the control data, `for_each_cmsghdr` with `CMSG_OK`: where it finds credentials.  A
message that doesn't fit, or credentials of another size, end it with an error. -/
def visits (mode : Mode) (ctl : Bytes) (pos : Nat) : List Nat :=
  if ctl.length < pos + mode.cmsghdr then []
  else
    let c := unpackCmsghdr mode ctl pos
    if _hfits : c.Fits mode (ctl.length - pos) then
      if c.IsCredentials then
        if c.len = mode.cmsghdr + sizeofUcred then pos :: visits mode ctl (nextCmsg mode pos c.len)
        else []
      else visits mode ctl (nextCmsg mode pos c.len)
    else []
  termination_by ctl.length - pos
  decreasing_by
    all_goals
      have hlt : pos < nextCmsg mode pos (unpackCmsghdr mode ctl pos).len := lt_nextCmsg _hfits
      have hpos := mode.cmsghdr_pos
      omega

/-- Can the control data be converted, `cmsghdr_from_user_compat_to_kern`?  What is left behind a
message has to be another message. -/
def converts (mode : Mode) (ctl : Bytes) (pos : Nat) : Bool :=
  if ctl.length ≤ pos then true
  else
    let c := unpackCmsghdr mode ctl pos
    if _hfits : c.Fits mode (ctl.length - pos) then converts mode ctl (nextCmsg mode pos c.len)
    else false
  termination_by ctl.length - pos
  decreasing_by
    have hlt : pos < nextCmsg mode pos (unpackCmsghdr mode ctl pos).len := lt_nextCmsg _hfits
    omega

/-- **The credentials that the kernel visits**: with a kernel of 64 bits, the control data of a tracee of
32 bits are converted beforehand. -/
def visited (mode : Mode) (ctl : Bytes) : List Nat :=
  if mode = .word32On64 ∧ ¬ converts mode ctl 0 then [] else visits mode ctl 0

/-- What the kernel gets: the other arguments, the header but for the address of the control data, and
the control data. -/
structure Received where
  args : Bytes
  header : Bytes
  control : Bytes
  deriving DecidableEq, Repr

def receive (mode : Mode) (m : Memory) (args : Bytes) (msg : Nat) : Option Received :=
  match m.load msg mode.msghdr with
  | none => none
  | some header =>
    let (control, controllen) := unpackControlAndLen mode header
    (m.load control controllen).map fun ctl => ⟨args, packControl mode header 0, ctl⟩

def receiveArgs (mode : Mode) (m : Memory) (args : Nat) : Option Received :=
  match m.load args (3 * mode.ptr) with
  | none => none
  | some words =>
    receive mode m (words.take mode.ptr ++ words.drop (2 * mode.ptr)) (readLe mode.ptr mode.ptr words)

/-! ## PRoot -/

/-- What the handler depends on: the ids of PRoot's user, the stack pointer of the tracee, and
`RED_ZONE_SIZE` as long as `alloc_mem` has not been called. -/
structure Tracer where
  mode : Mode
  getuid : Nat
  getgid : Nat
  stack : Nat
  redZone : Nat
  fits : stack < 256 ^ mode.ptr

def allocMem (stack size : Nat) : Option Nat := if stack ≤ size then none else some (stack - size)

/-- The owners in a `struct ucred` become PRoot's. -/
def Tracer.setIds (t : Tracer) (buf : Bytes) (pos : Nat) : Bytes :=
  patch buf (pos + t.mode.cmsghdr + 4) (le 4 t.getuid ++ le 4 t.getgid)

/-- The loop over the control messages: the control data afterwards, and was something changed?  Nothing
on the early returns. -/
def Tracer.fixup (t : Tracer) (controllen : Nat) (buf : Bytes) (pos : Nat) (didModify : Bool) :
    Option (Bytes × Bool) :=
  if pos < controllen then
    if controllen - pos < t.mode.cmsghdr then none
    else
      let c := unpackCmsghdr t.mode buf pos
      if _hfits : c.Fits t.mode (controllen - pos) then
        if c.IsCredentials then
          if c.len = t.mode.cmsghdr + sizeofUcred then
            t.fixup controllen (t.setIds buf pos) (nextCmsg t.mode pos c.len) true
          else none
        else t.fixup controllen buf (nextCmsg t.mode pos c.len) didModify
      else none
  else some (buf, didModify)
  termination_by controllen - pos
  decreasing_by
    all_goals
      have hlt : pos < nextCmsg t.mode pos (unpackCmsghdr t.mode buf pos).len := lt_nextCmsg _hfits
      omega

/-- What becomes of a message: an error, nothing, or another header in another memory, with the stack
pointer below it. -/
inductive Outcome where
  | failed (e : Errno)
  | kept
  | replaced (m : Memory) (header stack : Nat)

/-- `struct msghdr`, with a header of the tracee in it. -/
def ownHeader (mode : Mode) (header : Bytes) : Bytes := patch (List.replicate mode.ownMsghdr 0) 0 header

/-- Too long to be fixed: what is compared is the field of PRoot's own structure. -/
def TooLong (mode : Mode) (header : Bytes) : Prop :=
  maxControllen < readLe mode.word mode.ownControllenOffset (ownHeader mode header)

instance (mode : Mode) (header : Bytes) : Decidable (TooLong mode header) :=
  inferInstanceAs (Decidable (_ < _))

def HasControl (mode : Mode) (header : Bytes) : Prop :=
  (unpackControlAndLen mode header).1 ≠ 0 ∧ (unpackControlAndLen mode header).2 ≠ 0

instance (mode : Mode) (header : Bytes) : Decidable (HasControl mode header) :=
  inferInstanceAs (Decidable (_ ∧ _))

def Tracer.writeBack (t : Tracer) (m : Memory) (msg ctl : Bytes) : Outcome :=
  match allocMem t.stack (ctl.length + t.redZone) with
  | none => .failed .enomem
  | some control =>
    match m.store control ctl with
    | (_, false) => .failed .enomem
    | (m, true) =>
      match allocMem control t.mode.msghdr with
      | none => .failed .enomem
      | some header =>
        match m.store header ((packControl t.mode msg control).take t.mode.msghdr) with
        | (_, false) => .failed .enomem
        | (m, true) => .replaced m header header

/-- `handle_sendmsg_enter_end`, from the address of the message on. -/
def Tracer.handleMsg (t : Tracer) (m : Memory) (msg : Nat) : Outcome :=
  match m.load msg t.mode.msghdr with
  | none => .failed .efault
  | some header =>
    let msg := ownHeader t.mode header
    let (control, controllen) := unpackControlAndLen t.mode msg
    if control ≠ 0 ∧ controllen ≠ 0 then
      if TooLong t.mode header then .kept
      else
        match m.load control controllen with
        | none => .failed .efault
        | some cmsgBuf =>
          match t.fixup controllen cmsgBuf 0 false with
          | none => .kept
          | some (_, false) => .kept
          | some (cmsgBuf, true) => t.writeBack m msg cmsgBuf
    else .kept

/-- The size of `cmsg_buf`, the array on PRoot's stack. -/
def Tracer.cmsgBuf (t : Tracer) (m : Memory) (msg : Nat) : Nat :=
  match m.load msg t.mode.msghdr with
  | none => 0
  | some header =>
    let (control, controllen) := unpackControlAndLen t.mode (ownHeader t.mode header)
    if control ≠ 0 ∧ controllen ≠ 0 ∧ ¬ TooLong t.mode header then controllen else 0

/-- A call of the guest: sendmsg(2), or the same through socketcall(2). -/
inductive Call where
  | sendmsg (msg : Nat)
  | socketcall (args : Nat)

/-- The address of the message, where PRoot takes it from: for socketcall(2) the second of three words
of its own size. -/
def Tracer.msg? (t : Tracer) (m : Memory) : Call → Option Nat
  | .sendmsg msg => some msg
  | .socketcall args => (m.load args (3 * t.mode.word)).map (readLe t.mode.word t.mode.word)

/-- `handle_sendmsg_enter_end`, and what the kernel gets. -/
def Tracer.handle (t : Tracer) (m : Memory) : Call → Option Received
  | .sendmsg msg =>
    match t.handleMsg m msg with
    | .failed _ => none
    | .kept => receive t.mode m [] msg
    | .replaced m header _ => receive t.mode m [] header
  | .socketcall args =>
    match m.load args (3 * t.mode.word) with
    | none => none
    | some socketcallArgs =>
      match t.handleMsg m (readLe t.mode.word t.mode.word socketcallArgs) with
      | .failed _ => none
      | .kept => receiveArgs t.mode m args
      | .replaced m header stack =>
        -- `set_sysarg_data`
        match allocMem stack (3 * t.mode.word) with
        | none => none
        | some args =>
          match m.store args (patch socketcallArgs t.mode.word (le t.mode.word header)) with
          | (_, false) => none
          | (m, true) => receiveArgs t.mode m args

/-! ## What is to be -/

def Call.plain (mode : Mode) (m : Memory) : Call → Option Received
  | .sendmsg msg => receive mode m [] msg
  | .socketcall args => receiveArgs mode m args

/-- The control data with PRoot's ids wherever the kernel visits credentials. -/
def Tracer.wanted (t : Tracer) (ctl : Bytes) : Bytes := (visited t.mode ctl).foldl t.setIds ctl

/-- **Credentials are fixed exactly where the kernel looks**: it gets what it gets without the extension
but for the ids, and PRoot has room on its stack for what it reads. -/
structure Tracer.Fixes (t : Tracer) (m : Memory) (call : Call) : Prop where
  received : t.handle m call =
    (call.plain t.mode m).map fun r => { r with control := t.wanted r.control }
  stack : ∀ msg, t.msg? m call = some msg → t.cmsgBuf m msg ≤ maxControllen

end Improot.Extension.Sendmsg
