import Improot.Extension.SendmsgSpec

/-!
# When credentials are fixed

What the kernel gets against what it is to get: the ids are fixed where the kernel looks if and only if
the control data are short enough and hold nothing but messages, or there is nothing to fix.  A tracee
of 32 bits under a PRoot of 64 bits is served through sendmsg(2), and hardly ever through socketcall(2).
-/

namespace Improot.Extension.Sendmsg

open Improot.Lib

variable {t : Tracer} {m : Memory}

/-! ## One message -/

/-- **When one message is handled as it is to be**, with room for `extra` bytes below the copies. -/
structure Tracer.MsgSound (t : Tracer) (m : Memory) (msg extra : Nat) : Prop where
  /-- nothing else keeps long control data off PRoot's stack -/
  short : t.mode = .word32On64 → ∀ header, m.load msg t.mode.msghdr = some header →
    HasControl t.mode header → (unpackControlAndLen t.mode header).2 ≤ maxControllen
  /-- what is fixed needs room -/
  room : ∀ header ctl, m.load msg t.mode.msghdr = some header →
    m.load (unpackControlAndLen t.mode header).1 (unpackControlAndLen t.mode header).2 = some ctl →
    Fixable t.mode header ctl → t.Room m ctl.length extra
  /-- what is not fixed needs no fix -/
  real : ∀ header ctl, m.load msg t.mode.msghdr = some header →
    m.load (unpackControlAndLen t.mode header).1 (unpackControlAndLen t.mode header).2 = some ctl →
    ¬ Fixable t.mode header ctl → ∀ p ∈ visited t.mode ctl, t.RealIds ctl p

variable {msg : Nat} {r : Received}

theorem cmsgBuf_le_iff : t.cmsgBuf m msg ≤ maxControllen ↔
      (t.mode = .word32On64 → ∀ header, m.load msg t.mode.msghdr = some header →
        HasControl t.mode header → (unpackControlAndLen t.mode header).2 ≤ maxControllen) := by
  unfold Tracer.cmsgBuf
  cases hheader : m.load msg t.mode.msghdr with
  | none =>
      refine iff_of_true (Nat.zero_le _) ?_
      intro _ header h
      cases h
  | some header =>
      have hlength := Memory.load_length hheader
      have hlong := tooLong_iff hlength
      simp only [Option.some.injEq, forall_eq']
      rw [unpack_ownHeader hlength]
      split
      · rename_i hread
        constructor
        · intro h _ _
          exact h
        · intro h
          by_cases hmode : t.mode = .word32On64
          · exact h hmode ⟨hread.1, hread.2.1⟩
          · exact Nat.le_of_not_lt fun hlt => hread.2.2 (hlong.mpr ⟨hmode, hlt⟩)
      · rename_i hskipped
        refine iff_of_true (Nat.zero_le _) ?_
        intro hmode hcontrol
        exact absurd ⟨hcontrol.1, hcontrol.2, fun h => (hlong.mp h).1 hmode⟩ hskipped

variable {ctl header words : Bytes} {args : Nat}

theorem msgSound_iff {extra : Nat} (hheader : m.load msg t.mode.msghdr = some header)
    (hctl : m.load (unpackControlAndLen t.mode header).1 (unpackControlAndLen t.mode header).2 =
      some ctl) :
    t.MsgSound m msg extra ↔
      t.cmsgBuf m msg ≤ maxControllen ∧
        (Fixable t.mode header ctl → t.Room m ctl.length extra) ∧
        (¬ Fixable t.mode header ctl → t.wanted ctl = ctl) := by
  rw [cmsgBuf_le_iff, wanted_eq_iff]
  constructor
  · intro h
    exact ⟨h.short, h.room header ctl hheader hctl, h.real header ctl hheader hctl⟩
  · intro ⟨hshort, hroom, hreal⟩
    refine ⟨hshort, ?_, ?_⟩
    · intro header' ctl' hheader' hctl'
      rw [hheader] at hheader'
      cases hheader'
      rw [hctl] at hctl'
      cases hctl'
      exact hroom
    · intro header' ctl' hheader' hctl'
      rw [hheader] at hheader'
      cases hheader'
      rw [hctl] at hctl'
      cases hctl'
      exact hreal

theorem msgSound_of_unreadable {extra : Nat} {args : Bytes} (h : receive t.mode m args msg = none) :
    t.MsgSound m msg extra ↔ t.cmsgBuf m msg ≤ maxControllen := by
  rw [cmsgBuf_le_iff]
  constructor
  · intro hsound
    exact hsound.short
  · intro hshort
    refine ⟨hshort, ?_, ?_⟩
    · intro header ctl hheader hctl
      rw [receive_of_load hheader hctl] at h
      cases h
    · intro header ctl hheader hctl
      rw [receive_of_load hheader hctl] at h
      cases h

def Tracer.fixed (t : Tracer) (r : Received) : Received := { r with control := t.wanted r.control }

theorem fixed_eq_iff : t.fixed r = r ↔ t.wanted r.control = r.control := by
  constructor
  · intro h
    exact congrArg Received.control h
  · intro h
    unfold Tracer.fixed
    rw [h]

theorem handleMsg_of_fixable (hheader : m.load msg t.mode.msghdr = some header)
    (hctl : m.load (unpackControlAndLen t.mode header).1 (unpackControlAndLen t.mode header).2 =
      some ctl)
    (hfixable : Fixable t.mode header ctl) (hroom : t.Room m ctl.length 0) :
    t.handleMsg m msg =
      .replaced (t.copies m header (t.wanted ctl)) (t.headerAt ctl.length) (t.headerAt ctl.length) := by
  have hlength := Memory.load_length hheader
  rw [handleMsg_eq hheader hctl, if_pos hfixable, writeBack_of_room hlength]
  · rw [length_wanted]
  · rw [length_wanted]
    exact hroom

theorem handleMsg_of_no_room (hheader : m.load msg t.mode.msghdr = some header)
    (hctl : m.load (unpackControlAndLen t.mode header).1 (unpackControlAndLen t.mode header).2 =
      some ctl)
    (hfixable : Fixable t.mode header ctl) (hroom : ¬ t.Room m ctl.length 0) :
    ∃ e, t.handleMsg m msg = .failed e := by
  have hlength := Memory.load_length hheader
  rw [handleMsg_eq hheader hctl, if_pos hfixable]
  apply writeBack_of_no_room hlength
  rw [length_wanted]
  exact hroom

theorem fixes_of_msg {call : Call} (hmsg : t.msg? m call = some msg) :
    t.Fixes m call ↔
      t.handle m call = (call.plain t.mode m).map t.fixed ∧ t.cmsgBuf m msg ≤ maxControllen := by
  constructor
  · intro h
    exact ⟨h.received, h.stack msg hmsg⟩
  · intro ⟨hreceived, hstack⟩
    refine ⟨hreceived, ?_⟩
    intro a heq
    rw [hmsg] at heq
    cases heq
    exact hstack

theorem fixes_of_no_msg {call : Call} (hmsg : t.msg? m call = none) :
    t.Fixes m call ↔ t.handle m call = (call.plain t.mode m).map t.fixed := by
  constructor
  · intro h
    exact h.received
  · intro hreceived
    refine ⟨hreceived, ?_⟩
    intro a heq
    rw [hmsg] at heq
    cases heq

/-! ## sendmsg(2) -/

theorem handle_sendmsg (t : Tracer) (m : Memory) (msg : Nat) :
    t.handle m (.sendmsg msg) =
      match t.handleMsg m msg with
      | .failed _ => none
      | .kept => receive t.mode m [] msg
      | .replaced m header _ => receive t.mode m [] header := rfl

theorem sendmsg_received_iff (hheader : m.load msg t.mode.msghdr = some header)
    (hctl : m.load (unpackControlAndLen t.mode header).1 (unpackControlAndLen t.mode header).2 =
      some ctl) :
    t.handle m (.sendmsg msg) = some (t.fixed ⟨[], packControl t.mode header 0, ctl⟩) ↔
      (Fixable t.mode header ctl → t.Room m ctl.length 0) ∧
        (¬ Fixable t.mode header ctl → t.wanted ctl = ctl) := by
  have hlength := Memory.load_length hheader
  have hlength' := Memory.load_length hctl
  rw [handle_sendmsg]
  by_cases hfixable : Fixable t.mode header ctl
  · by_cases hroom : t.Room m ctl.length 0
    · rw [handleMsg_of_fixable hheader hctl hfixable hroom]
      have hroom' : t.Room m (t.wanted ctl).length 0 := by rwa [length_wanted]
      obtain ⟨hcopy, hcopy'⟩ := load_copies hlength hroom'
      have hcopied : receive t.mode (t.copies m header (t.wanted ctl)) []
          (t.headerAt (t.wanted ctl).length) =
            some ⟨[], packControl t.mode header 0, t.wanted ctl⟩ :=
        receive_copies hlength (controlAt_lt t _) (by rw [length_wanted, hlength']) hcopy hcopy'
      rw [length_wanted] at hcopied
      exact iff_of_true hcopied ⟨fun _ => hroom, fun h => absurd hfixable h⟩
    · obtain ⟨e, hfailed⟩ := handleMsg_of_no_room hheader hctl hfixable hroom
      rw [hfailed]
      refine iff_of_false ?_ fun h => hroom (h.1 hfixable)
      intro h
      cases h
  · rw [handleMsg_eq hheader hctl, if_neg hfixable]
    dsimp only
    rw [receive_of_load hheader hctl, Option.some.injEq, eq_comm, fixed_eq_iff]
    constructor
    · intro h
      exact ⟨fun hfix => absurd hfix hfixable, fun _ => h⟩
    · intro h
      exact h.2 hfixable

theorem sendmsg_fixes_iff (t : Tracer) (m : Memory) (msg : Nat) :
    t.Fixes m (.sendmsg msg) ↔ t.MsgSound m msg 0 := by
  rw [fixes_of_msg rfl]
  show t.handle m _ = (receive t.mode m [] msg).map t.fixed ∧ _ ↔ _
  cases hplain : receive t.mode m [] msg with
  | none =>
      rw [msgSound_of_unreadable hplain]
      apply and_iff_right
      rw [handle_sendmsg]
      obtain hkept | ⟨e, hfailed⟩ := handleMsg_of_unreadable hplain
      · rw [hkept]
        exact hplain
      · rw [hfailed]
        rfl
  | some r =>
      obtain ⟨header, ctl, hheader, hctl, rfl⟩ := receive_eq_some hplain
      rw [msgSound_iff hheader hctl, Option.map_some, sendmsg_received_iff hheader hctl]
      exact and_comm

/-! ## Arguments in memory -/

theorem msg?_socketcall (t : Tracer) (m : Memory) (args : Nat) :
    t.msg? m (.socketcall args) =
      (m.load args (3 * t.mode.word)).map (readLe t.mode.word t.mode.word) := rfl

theorem receiveArgs_of_load {mode : Mode} (h : m.load args (3 * mode.ptr) = some words) :
    receiveArgs mode m args =
      receive mode m (words.take mode.ptr ++ words.drop (2 * mode.ptr))
        (readLe mode.ptr mode.ptr words) := by
  unfold receiveArgs
  rw [h]

theorem receiveArgs_of_unreadable {mode : Mode}
    (h : m.load args (3 * mode.ptr) = none) : receiveArgs mode m args = none := by
  unfold receiveArgs
  rw [h]

theorem handle_socketcall_unreadable (h : m.load args (3 * t.mode.word) = none) :
    t.handle m (.socketcall args) = none := by
  unfold Tracer.handle
  dsimp only
  rw [h]

theorem handle_socketcall (hwords : m.load args (3 * t.mode.word) = some words) :
    t.handle m (.socketcall args) =
      match t.handleMsg m (readLe t.mode.word t.mode.word words) with
      | .failed _ => none
      | .kept => receiveArgs t.mode m args
      | .replaced m header stack =>
        match allocMem stack (3 * t.mode.word) with
        | none => none
        | some args =>
          match m.store args (patch words t.mode.word (le t.mode.word header)) with
          | (_, false) => none
          | (m, true) => receiveArgs t.mode m args := by
  unfold Tracer.handle
  dsimp only
  split
  · rename_i heq
    rw [hwords] at heq
    cases heq
  · rename_i words' heq
    rw [hwords] at heq
    cases heq
    rfl

def Tracer.argsAt (t : Tracer) (controllen : Nat) : Nat := t.headerAt controllen - 3 * t.mode.word

def Tracer.newArgs (t : Tracer) (words : Bytes) (controllen : Nat) : Bytes :=
  patch words t.mode.word (le t.mode.word (t.headerAt controllen))

def Tracer.passed (t : Tracer) (m : Memory) (words header ctl : Bytes) : Memory :=
  ((t.copies m header ctl).store (t.argsAt ctl.length) (t.newArgs words ctl.length)).1

theorem length_newArgs {controllen : Nat} (h : words.length = 3 * t.mode.word) :
    (t.newArgs words controllen).length = 3 * t.mode.word := by
  unfold Tracer.newArgs
  rw [patch_length (by rw [le_length]; omega), h]

theorem copies_writable_iff {a n : Nat} :
    (t.copies m header ctl).Writable a n ↔ m.Writable a n := by
  unfold Tracer.copies
  rw [Memory.store_writable_iff, Memory.store_writable_iff]

theorem room_iff {controllen extra : Nat} (h : t.Room m controllen 0) :
    t.Room m controllen extra ↔
      extra < t.headerAt controllen ∧ m.Writable (t.headerAt controllen - extra) extra := by
  have hstack := h.stack
  have hat : t.headerAt controllen = t.stack - (controllen + t.redZone + t.mode.msghdr + 0) := by
    unfold Tracer.headerAt Tracer.controlAt
    omega
  constructor
  · intro hroom
    have hstack' := hroom.stack
    rw [hat]
    exact ⟨by omega, hroom.writable.part (by omega) (by omega)⟩
  · intro ⟨hextra, hwritable⟩
    rw [hat] at hextra hwritable
    refine ⟨by omega, ?_⟩
    rw [Nat.add_assoc extra]
    apply Memory.writable_add.mpr
    constructor
    · rwa [show t.stack - (controllen + t.redZone + t.mode.msghdr + extra) =
        t.stack - (controllen + t.redZone + t.mode.msghdr + 0) - extra by omega]
    · exact h.writable.part (by omega) (by omega)

section Passed

variable {args : Nat} {words header ctl : Bytes}

theorem stored_newArgs (header : Bytes) (hwords : words.length = 3 * t.mode.word)
    (hroom : t.Room m ctl.length (3 * t.mode.word)) :
    ((t.copies m header ctl).store (t.argsAt ctl.length) (t.newArgs words ctl.length)).2 = true := by
  have hwritable := ((room_iff hroom.fewer).mp hroom).2
  apply Memory.store_ok.mpr
  rw [length_newArgs hwords, copies_writable_iff]
  exact hwritable

theorem handle_socketcall_replaced (hwords : m.load args (3 * t.mode.word) = some words)
    (hmsg : t.handleMsg m (readLe t.mode.word t.mode.word words) =
      .replaced (t.copies m header ctl) (t.headerAt ctl.length) (t.headerAt ctl.length))
    (hroom : t.Room m ctl.length (3 * t.mode.word)) :
    t.handle m (.socketcall args) =
      receiveArgs t.mode (t.passed m words header ctl) (t.argsAt ctl.length) := by
  have hextra := ((room_iff hroom.fewer).mp hroom).1
  have hstored := stored_newArgs header (Memory.load_length hwords) hroom
  rw [handle_socketcall hwords, hmsg]
  dsimp only
  rw [allocMem_of_lt hextra]
  dsimp only
  split
  · rename_i heq
    unfold Tracer.newArgs Tracer.argsAt at hstored
    rw [heq] at hstored
    cases hstored
  · rename_i m' heq
    obtain rfl : m' = t.passed m words header ctl := by
      unfold Tracer.passed Tracer.newArgs Tracer.argsAt
      rw [heq]
    rfl

theorem handle_socketcall_no_room (hwords : m.load args (3 * t.mode.word) = some words)
    (hmsg : t.handleMsg m (readLe t.mode.word t.mode.word words) =
      .replaced (t.copies m header ctl) (t.headerAt ctl.length) (t.headerAt ctl.length))
    (hroom : t.Room m ctl.length 0) (hargs : ¬ t.Room m ctl.length (3 * t.mode.word)) :
    t.handle m (.socketcall args) = none := by
  rw [handle_socketcall hwords, hmsg]
  dsimp only
  by_cases hextra : 3 * t.mode.word < t.headerAt ctl.length
  · rw [allocMem_of_lt hextra]
    dsimp only
    split
    · rfl
    · rename_i m' heq
      have hstored : ((t.copies m header ctl).store (t.headerAt ctl.length - 3 * t.mode.word)
          (t.newArgs words ctl.length)).2 = true := by
        unfold Tracer.newArgs
        rw [heq]
      have hwritable := Memory.store_ok.mp hstored
      rw [length_newArgs (Memory.load_length hwords), copies_writable_iff] at hwritable
      exact absurd ((room_iff hroom).mpr ⟨hextra, hwritable⟩) hargs
  · rw [allocMem_of_le (Nat.le_of_not_lt hextra)]

theorem load_passed (header : Bytes) (hwords : words.length = 3 * t.mode.word)
    (hroom : t.Room m ctl.length (3 * t.mode.word)) :
    (t.passed m words header ctl).load (t.argsAt ctl.length) (3 * t.mode.word) =
      some (t.newArgs words ctl.length) := by
  have hload := Memory.load_store (stored_newArgs header hwords hroom)
  rwa [length_newArgs hwords] at hload

theorem load_passed_above {a n : Nat} (hwords : words.length = 3 * t.mode.word)
    (hroom : t.Room m ctl.length (3 * t.mode.word)) (h : t.headerAt ctl.length ≤ a) :
    (t.passed m words header ctl).load a n = (t.copies m header ctl).load a n := by
  have hextra := ((room_iff hroom.fewer).mp hroom).1
  unfold Tracer.passed
  apply Memory.load_store_outside
  rw [length_newArgs hwords]
  unfold Tracer.argsAt
  omega

end Passed

/-! ## socketcall(2) without a change of the word size -/

theorem readLe_newArgs (controllen : Nat) (hmode : t.mode.word = t.mode.ptr)
    (hwords : words.length = 3 * t.mode.ptr) :
    readLe t.mode.ptr t.mode.ptr (t.newArgs words controllen) = t.headerAt controllen ∧
      (t.newArgs words controllen).take t.mode.ptr = words.take t.mode.ptr ∧
      (t.newArgs words controllen).drop (2 * t.mode.ptr) = words.drop (2 * t.mode.ptr) := by
  have hfits : t.mode.ptr + (le t.mode.ptr (t.headerAt controllen)).length ≤ words.length := by
    rw [le_length]
    omega
  have hpatch := appends_patch hfits
  have hstart : (words.take t.mode.ptr ++ le t.mode.ptr (t.headerAt controllen)).length =
      2 * t.mode.ptr := by
    rw [List.length_append, List.length_take, le_length]
    omega
  unfold Tracer.newArgs
  rw [hmode]
  refine ⟨?_, hpatch.before, ?_⟩
  · have hwritten := hpatch.written
    rw [le_length] at hwritten
    unfold readLe
    rw [hwritten, ofLe_le_of_lt (headerAt_lt t controllen)]
  · unfold patch
    rw [List.drop_left' hstart, le_length, ← Nat.two_mul]

theorem receiveArgs_passed (hword : t.mode.word = t.mode.ptr)
    (hwords : words.length = 3 * t.mode.ptr) (hlength : header.length = t.mode.msghdr)
    (hsize : ctl.length = (unpackControlAndLen t.mode header).2)
    (hroom : t.Room m ctl.length (3 * t.mode.ptr)) :
    receiveArgs t.mode (t.passed m words header ctl) (t.argsAt ctl.length) =
      some ⟨words.take t.mode.ptr ++ words.drop (2 * t.mode.ptr), packControl t.mode header 0, ctl⟩ := by
  have hwords' : words.length = 3 * t.mode.word := by rw [hword, hwords]
  have hroom' : t.Room m ctl.length (3 * t.mode.word) := by rwa [hword]
  have hnew := load_passed header hwords' hroom'
  rw [hword] at hnew
  obtain ⟨hcopy, hcopy'⟩ := load_copies hlength hroom.fewer
  obtain ⟨haddr, htake, hdrop⟩ := readLe_newArgs ctl.length hword hwords
  rw [receiveArgs_of_load hnew, haddr, htake, hdrop]
  apply receive_copies hlength (controlAt_lt t _) hsize
  · rw [load_passed_above hwords' hroom' (Nat.le_refl _)]
    exact hcopy
  · rw [load_passed_above hwords' hroom' (Nat.sub_le _ _)]
    exact hcopy'

/-- When the kernel gets what it is to get, through socketcall(2). -/
theorem socketcall_received_iff
    (hword : t.mode.word = t.mode.ptr) (hwords : m.load args (3 * t.mode.ptr) = some words)
    (hmsg : readLe t.mode.ptr t.mode.ptr words = msg) (hheader : m.load msg t.mode.msghdr = some header)
    (hctl : m.load (unpackControlAndLen t.mode header).1 (unpackControlAndLen t.mode header).2 =
      some ctl) :
    t.handle m (.socketcall args) =
        some (t.fixed ⟨words.take t.mode.ptr ++ words.drop (2 * t.mode.ptr),
          packControl t.mode header 0, ctl⟩) ↔
      (Fixable t.mode header ctl → t.Room m ctl.length (3 * t.mode.ptr)) ∧
        (¬ Fixable t.mode header ctl → t.wanted ctl = ctl) := by
  have hlength := Memory.load_length hheader
  have hlength' := Memory.load_length hctl
  have hlength'' := Memory.load_length hwords
  have hload := hwords
  rw [← hword] at hload hmsg
  by_cases hfixable : Fixable t.mode header ctl
  · by_cases hroom : t.Room m ctl.length 0
    · have hreplaced := handleMsg_of_fixable hheader hctl hfixable hroom
      rw [← hmsg, ← length_wanted (t := t) ctl] at hreplaced
      rw [← length_wanted (t := t) ctl] at hroom ⊢
      by_cases hargs : t.Room m (t.wanted ctl).length (3 * t.mode.ptr)
      · have hargs' := hargs
        rw [← hword] at hargs'
        rw [handle_socketcall_replaced hload hreplaced hargs']
        have hreceived := receiveArgs_passed hword hlength'' hlength
          (by rw [length_wanted, hlength']) hargs
        exact iff_of_true hreceived ⟨fun _ => hargs, fun h => absurd hfixable h⟩
      · have hargs' := hargs
        rw [← hword] at hargs'
        rw [handle_socketcall_no_room hload hreplaced hroom hargs']
        refine iff_of_false ?_ fun h => hargs (h.1 hfixable)
        intro h
        cases h
    · obtain ⟨e, hfailed⟩ := handleMsg_of_no_room hheader hctl hfixable hroom
      rw [← hmsg] at hfailed
      rw [handle_socketcall hload, hfailed]
      refine iff_of_false ?_ fun h => hroom (h.1 hfixable).fewer
      intro h
      cases h
  · have hkept := handleMsg_eq hheader hctl
    rw [if_neg hfixable, ← hmsg] at hkept
    have hplain : receiveArgs t.mode m args =
        some ⟨words.take t.mode.ptr ++ words.drop (2 * t.mode.ptr), packControl t.mode header 0,
          ctl⟩ := by
      rw [receiveArgs_of_load hwords, ← hword, hmsg]
      exact receive_of_load hheader hctl
    rw [handle_socketcall hload, hkept]
    dsimp only
    rw [hplain, Option.some.injEq, eq_comm, fixed_eq_iff]
    constructor
    · intro h
      exact ⟨fun hfix => absurd hfix hfixable, fun _ => h⟩
    · intro h
      exact h.2 hfixable

theorem socketcall_fixes_iff (hmode : t.mode ≠ .word32On64) (m : Memory) (args : Nat) :
    t.Fixes m (.socketcall args) ↔
      ∀ words, m.load args (3 * t.mode.ptr) = some words →
        t.MsgSound m (readLe t.mode.ptr t.mode.ptr words) (3 * t.mode.ptr) := by
  have hword : t.mode.word = t.mode.ptr := by
    cases h : t.mode with
    | word64 | word32 => rfl
    | word32On64 => exact absurd h hmode
  cases hwords : m.load args (3 * t.mode.ptr) with
  | none =>
      have hload := hwords
      rw [← hword] at hload
      have hmsg : t.msg? m (.socketcall args) = none := by
        rw [msg?_socketcall, hload]
        rfl
      rw [fixes_of_no_msg hmsg]
      refine iff_of_true ?_ ?_
      · show t.handle m (.socketcall args) = (receiveArgs t.mode m args).map t.fixed
        rw [handle_socketcall_unreadable hload, receiveArgs_of_unreadable hwords]
        rfl
      · intro words h
        cases h
  | some words =>
      have hload := hwords
      rw [← hword] at hload
      have hplain := receiveArgs_of_load hwords
      have hmsg : t.msg? m (.socketcall args) = some (readLe t.mode.ptr t.mode.ptr words) := by
        rw [msg?_socketcall, hload, hword]
        rfl
      rw [fixes_of_msg hmsg]
      show t.handle m _ = (receiveArgs t.mode m args).map t.fixed ∧ _ ↔ _
      simp only [Option.some.injEq, forall_eq']
      cases hreceive : receive t.mode m (words.take t.mode.ptr ++ words.drop (2 * t.mode.ptr))
          (readLe t.mode.ptr t.mode.ptr words) with
      | none =>
          rw [msgSound_of_unreadable hreceive]
          apply and_iff_right
          rw [handle_socketcall hload, hword]
          obtain hkept | ⟨e, hfailed⟩ := handleMsg_of_unreadable hreceive
          · rw [hkept, hplain, hreceive]
            rfl
          · rw [hfailed, hplain, hreceive]
            rfl
      | some r =>
          obtain ⟨header, ctl, hheader, hctl, rfl⟩ := receive_eq_some hreceive
          rw [msgSound_iff hheader hctl, hplain, hreceive, Option.map_some,
            socketcall_received_iff hword hwords rfl hheader hctl]
          exact and_comm

/-! ## socketcall(2) with another word size -/

def Tracer.Keeps (t : Tracer) (m : Memory) (msg : Nat) : Prop :=
  ∃ header, m.load msg t.mode.msghdr = some header ∧
    (¬ HasControl t.mode header ∨
      ∃ ctl, m.load (unpackControlAndLen t.mode header).1 (unpackControlAndLen t.mode header).2 =
        some ctl ∧ ¬ Fixable t.mode header ctl)

/-- PRoot finds a message at an address, and has room to fix it; and the address of the copy is
`flags`. -/
def Tracer.CopiesTo (t : Tracer) (m : Memory) (msg flags : Nat) : Prop :=
  ∃ header ctl, m.load msg t.mode.msghdr = some header ∧
    m.load (unpackControlAndLen t.mode header).1 (unpackControlAndLen t.mode header).2 = some ctl ∧
    Fixable t.mode header ctl ∧ t.Room m ctl.length (3 * t.mode.word) ∧
    t.headerAt ctl.length = flags

def Tracer.Clear (t : Tracer) (a n : Nat) : Prop :=
  a + n + t.redZone + maxControllen + t.mode.msghdr + 3 * t.mode.word ≤ t.stack ∨
    t.stack ≤ a + t.redZone

/-- The guest does not keep the message below its stack, where `alloc_mem` makes room. -/
def Tracer.Apart (t : Tracer) (m : Memory) : Call → Prop
  | .sendmsg _ => True
  | .socketcall args =>
    t.mode = .word32On64 → ∀ words, m.load args (3 * t.mode.ptr) = some words →
      t.Clear (readLe t.mode.ptr t.mode.ptr words) t.mode.msghdr ∧
        ∀ header, m.load (readLe t.mode.ptr t.mode.ptr words) t.mode.msghdr = some header →
          t.Clear (unpackControlAndLen t.mode header).1 (unpackControlAndLen t.mode header).2

/-- **When a message is passed on although PRoot looks elsewhere**: `args` are three words of the
tracee, which PRoot takes for words of its own.  There is nothing to fix in the message, and what PRoot
looks at is short and has nothing to fix either, or the address of its copy happens to be the flags. -/
structure Tracer.MisreadSound (t : Tracer) (m : Memory) (args : Nat) : Prop where
  short : ∀ words, m.load args (3 * t.mode.word) = some words → ∀ header,
    m.load (readLe t.mode.word t.mode.word words) t.mode.msghdr = some header →
      HasControl t.mode header → (unpackControlAndLen t.mode header).2 ≤ maxControllen
  real : ∀ r, receiveArgs t.mode m args = some r → ∀ p ∈ visited t.mode r.control,
    t.RealIds r.control p
  passed : ∀ r, receiveArgs t.mode m args = some r → ∃ words, m.load args (3 * t.mode.word) = some words ∧
    (t.Keeps m (readLe t.mode.word t.mode.word words) ∨
      t.CopiesTo m (readLe t.mode.word t.mode.word words) (readLe t.mode.ptr (2 * t.mode.ptr) words))

section Misread

variable {args : Nat}

theorem keeps_iff (hmode : t.mode = .word32On64) :
    t.Keeps m msg ↔ t.handleMsg m msg = .kept := by
  unfold Tracer.Keeps
  cases hheader : m.load msg t.mode.msghdr with
  | none =>
      refine iff_of_false ?_ ?_
      · intro ⟨header, h, _⟩
        cases h
      · unfold Tracer.handleMsg
        rw [hheader]
        intro h
        cases h
  | some header =>
      have hlength := Memory.load_length hheader
      have hlong : ¬ TooLong t.mode header := fun h => ((tooLong_iff hlength).mp h).1 hmode
      simp only [Option.some.injEq, exists_eq_left']
      cases hctl : m.load (unpackControlAndLen t.mode header).1
          (unpackControlAndLen t.mode header).2 with
      | none =>
          unfold Tracer.handleMsg
          rw [hheader]
          dsimp only
          rw [unpack_ownHeader hlength, if_neg hlong, hctl]
          by_cases hcontrol : HasControl t.mode header
          · rw [if_pos (show _ ≠ 0 ∧ _ ≠ 0 from hcontrol)]
            refine iff_of_false ?_ fun h => by cases h
            intro h
            cases h with
            | inl hnone => exact hnone hcontrol
            | inr hctl =>
                obtain ⟨ctl, hsome, -⟩ := hctl
                cases hsome
          · rw [if_neg (show ¬ (_ ≠ 0 ∧ _ ≠ 0) from hcontrol)]
            exact iff_of_true (.inl hcontrol) rfl
      | some ctl =>
          rw [handleMsg_eq hheader hctl]
          by_cases hfixable : Fixable t.mode header ctl
          · rw [if_pos hfixable]
            refine iff_of_false ?_ ?_
            · intro h
              cases h with
              | inl hnone => exact hnone hfixable.control
              | inr hother =>
                  obtain ⟨ctl', hsome, hne⟩ := hother
                  cases hsome
                  exact hne hfixable
            · intro h
              by_cases hroom : t.Room m ctl.length 0
              · rw [← length_wanted (t := t)] at hroom
                rw [writeBack_of_room hlength hroom] at h
                cases h
              · rw [← length_wanted (t := t)] at hroom
                obtain ⟨e, hfailed⟩ := writeBack_of_no_room (m := m) hlength hroom
                rw [hfailed] at h
                cases h
          · rw [if_neg hfixable]
            exact iff_of_true (.inr ⟨ctl, rfl, hfixable⟩) rfl

theorem load_passed_clear {a n : Nat}
    (hwords : words.length = 3 * t.mode.word) (hlength : header.length = t.mode.msghdr)
    (hroom : t.Room m ctl.length (3 * t.mode.word)) (hshort : ctl.length ≤ maxControllen)
    (hclear : t.Clear a n) : (t.passed m words header ctl).load a n = m.load a n := by
  have hstack := hroom.stack
  unfold Tracer.Clear at hclear
  unfold Tracer.passed Tracer.copies Tracer.argsAt Tracer.headerAt Tracer.controlAt
  rw [Memory.load_store_outside (by rw [length_newArgs hwords]; omega),
    Memory.load_store_outside (by rw [length_packControl hlength]; omega),
    Memory.load_store_outside (by omega)]

theorem handleMsg_cases (t : Tracer) (m : Memory) (msg : Nat) :
    (∃ e, t.handleMsg m msg = .failed e) ∨ t.handleMsg m msg = .kept ∨
      ∃ header ctl, m.load msg t.mode.msghdr = some header ∧
        m.load (unpackControlAndLen t.mode header).1 (unpackControlAndLen t.mode header).2 = some ctl ∧
        Fixable t.mode header ctl ∧ t.Room m ctl.length 0 := by
  cases hreceive : receive t.mode m [] msg with
  | none =>
      obtain hkept | hfailed := handleMsg_of_unreadable hreceive
      · exact .inr (.inl hkept)
      · exact .inl hfailed
  | some r =>
      obtain ⟨header, ctl, hheader, hctl, -⟩ := receive_eq_some hreceive
      by_cases hfixable : Fixable t.mode header ctl
      · by_cases hroom : t.Room m ctl.length 0
        · exact .inr (.inr ⟨header, ctl, hheader, hctl, hfixable, hroom⟩)
        · exact .inl (handleMsg_of_no_room hheader hctl hfixable hroom)
      · refine .inr (.inl ?_)
        rw [handleMsg_eq hheader hctl, if_neg hfixable]

theorem flags_iff {addr : Nat} (hlength : words.length = 24) (haddr : addr < 256 ^ 4) :
    le 4 addr = (words.take 12).drop 8 ↔ addr = readLe 4 8 words := by
  have hflags : (words.take 12).drop 8 = (words.drop 8).take 4 := by rw [List.drop_take]
  have hsize : ((words.drop 8).take 4).length = 4 := by
    rw [List.length_take, List.length_drop]
    omega
  have hback := le_ofLe ((words.drop 8).take 4)
  rw [hsize] at hback
  rw [hflags]
  unfold readLe
  constructor
  · intro h
    rw [← h, ofLe_le_of_lt haddr]
  · intro h
    rw [h, hback]

theorem readLe_firstWords (words : Bytes) : readLe 4 4 (words.take (3 * 4)) = readLe 4 4 words := by
  unfold readLe
  rw [List.drop_take, List.take_take]
  rfl

/-- **With the copies made**, the kernel is still led to the message of the guest, and takes the address
of PRoot's header for the flags. -/
theorem handle_misread (hmode : t.mode = .word32On64) (hapart : t.Apart m (.socketcall args))
    (hwords : m.load args (3 * t.mode.word) = some words)
    (hheader : m.load (readLe t.mode.word t.mode.word words) t.mode.msghdr = some header)
    (hctl : m.load (unpackControlAndLen t.mode header).1 (unpackControlAndLen t.mode header).2 =
      some ctl)
    (hfixable : Fixable t.mode header ctl) (hshort : ctl.length ≤ maxControllen)
    (hroom : t.Room m ctl.length (3 * t.mode.word)) :
    t.handle m (.socketcall args) =
      receive t.mode m (words.take 4 ++ le 4 (t.headerAt ctl.length)) (readLe 4 4 words) := by
  have hword : t.mode.word = 8 := by rw [hmode]; rfl
  have hptr : t.mode.ptr = 4 := by rw [hmode]; rfl
  have hlength := Memory.load_length hwords
  have hlength' := Memory.load_length hheader
  have hreplaced := handleMsg_of_fixable hheader hctl hfixable hroom.fewer
  rw [← length_wanted (t := t) ctl] at hreplaced hroom hshort
  rw [handle_socketcall_replaced hwords hreplaced hroom, length_wanted]
  rw [length_wanted] at hroom
  have hroom' : t.Room m (t.wanted ctl).length (3 * t.mode.word) := by rwa [length_wanted]
  have hnew := load_passed header hlength hroom'
  rw [length_wanted, hword] at hnew
  -- the kernel takes the first twelve bytes
  have hfirst := Memory.load_take hnew (show 3 * 4 ≤ 3 * 8 by decide)
  have hbytes : (t.newArgs words ctl.length).take (3 * 4) =
      words.take 8 ++ le 4 (t.headerAt ctl.length) := by
    have hstart : (words.take 8).length = 8 := by
      rw [List.length_take]
      omega
    unfold Tracer.newArgs patch
    rw [hword, List.append_assoc, List.take_append, hstart, List.take_append_of_le_length
      (by rw [le_length]; decide), List.take_of_length_le (by omega)]
    rfl
  rw [hbytes] at hfirst
  have hold := Memory.load_take hwords (show 3 * t.mode.ptr ≤ 3 * t.mode.word by rw [hword, hptr]; decide)
  have hmsg : readLe 4 4 (words.take 8 ++ le 4 (t.headerAt ctl.length)) = readLe 4 4 words := by
    rw [readLe_append (by rw [List.length_take]; omega)]
    unfold readLe
    rw [List.drop_take, List.take_take]
    rfl
  have hargs : (words.take 8 ++ le 4 (t.headerAt ctl.length)).take 4 ++
      (words.take 8 ++ le 4 (t.headerAt ctl.length)).drop (2 * 4) =
        words.take 4 ++ le 4 (t.headerAt ctl.length) := by
    have hstart : (words.take 8).length = 2 * 4 := by
      rw [List.length_take]
      omega
    rw [List.drop_left' hstart, List.take_append_of_le_length (by omega), List.take_take]
    rfl
  obtain ⟨hclear, hclear'⟩ := hapart hmode _ hold
  rw [hptr, readLe_firstWords] at hclear hclear'
  rw [← hptr] at hfirst
  rw [receiveArgs_of_load hfirst, hptr, hmsg, hargs]
  apply receive_congr
  · exact load_passed_clear hlength hlength' hroom' hshort hclear
  · intro header' hheader'
    exact load_passed_clear hlength hlength' hroom' hshort (hclear' header' hheader')

theorem receiveArgs_misread (hmode : t.mode = .word32On64)
    (hwords : m.load args (3 * t.mode.word) = some words) :
    receiveArgs t.mode m args =
      receive t.mode m (words.take 4 ++ (words.take 12).drop 8) (readLe 4 4 words) := by
  have hword : t.mode.word = 8 := by rw [hmode]; rfl
  have hptr : t.mode.ptr = 4 := by rw [hmode]; rfl
  have hold := Memory.load_take hwords (show 3 * t.mode.ptr ≤ 3 * t.mode.word by rw [hword, hptr]; decide)
  rw [receiveArgs_of_load hold, hptr, readLe_firstWords, List.take_take]
  rfl

theorem receive_args {mode : Mode} (args args' : Bytes) :
    receive mode m args' msg = (receive mode m args msg).map fun r => { r with args := args' } := by
  unfold receive
  cases m.load msg mode.msghdr with
  | none => rfl
  | some header =>
      dsimp only
      rw [Option.map_map]
      rfl

theorem misread_fixes_unreadable (hwords : m.load args (3 * t.mode.word) = none) :
    t.Fixes m (.socketcall args) ↔ t.MisreadSound m args := by
  have hmsg : t.msg? m (.socketcall args) = none := by
    rw [msg?_socketcall, hwords]
    rfl
  rw [fixes_of_no_msg hmsg, handle_socketcall_unreadable hwords]
  constructor
  · intro h
    have hnone : receiveArgs t.mode m args = none := Option.map_eq_none_iff.mp h.symm
    refine ⟨?_, ?_, ?_⟩
    · intro words heq
      rw [hwords] at heq
      cases heq
    · intro r hr
      rw [hnone] at hr
      cases hr
    · intro r hr
      rw [hnone] at hr
      cases hr
  · intro h
    have hnone : receiveArgs t.mode m args = none := by
      cases hr : receiveArgs t.mode m args with
      | none => rfl
      | some r =>
          obtain ⟨words, heq, -⟩ := h.passed r hr
          rw [hwords] at heq
          cases heq
    show none = (receiveArgs t.mode m args).map t.fixed
    rw [hnone]
    rfl

section Words

variable {words : Bytes}

theorem handle_misread_copied (hmode : t.mode = .word32On64) (hapart : t.Apart m (.socketcall args))
    (hwords : m.load args (3 * t.mode.word) = some words)
    (hheader : m.load (readLe t.mode.word t.mode.word words) t.mode.msghdr = some header)
    (hctl : m.load (unpackControlAndLen t.mode header).1 (unpackControlAndLen t.mode header).2 =
      some ctl)
    (hfixable : Fixable t.mode header ctl)
    (hbuf : t.cmsgBuf m (readLe t.mode.word t.mode.word words) ≤ maxControllen)
    (hroom : t.Room m ctl.length (3 * t.mode.word)) :
    t.handle m (.socketcall args) =
      (receiveArgs t.mode m args).map fun r =>
        { r with args := words.take 4 ++ le 4 (t.headerAt ctl.length) } := by
  have hshort := cmsgBuf_le_iff.mp hbuf hmode header hheader hfixable.control
  rw [← Memory.load_length hctl] at hshort
  rw [handle_misread hmode hapart hwords hheader hctl hfixable hshort hroom,
    receiveArgs_misread hmode hwords]
  exact receive_args _ _

theorem handle_misread_no_room (hwords : m.load args (3 * t.mode.word) = some words)
    (hheader : m.load (readLe t.mode.word t.mode.word words) t.mode.msghdr = some header)
    (hctl : m.load (unpackControlAndLen t.mode header).1 (unpackControlAndLen t.mode header).2 =
      some ctl)
    (hfixable : Fixable t.mode header ctl) (hroom : t.Room m ctl.length 0)
    (hargs : ¬ t.Room m ctl.length (3 * t.mode.word)) : t.handle m (.socketcall args) = none := by
  have hreplaced := handleMsg_of_fixable hheader hctl hfixable hroom
  rw [← length_wanted (t := t)] at hargs hroom hreplaced
  exact handle_socketcall_no_room hwords hreplaced hroom hargs

theorem args_misread (hmode : t.mode = .word32On64)
    (hwords : m.load args (3 * t.mode.word) = some words)
    (hr : receiveArgs t.mode m args = some r) : r.args = words.take 4 ++ (words.take 12).drop 8 := by
  rw [receiveArgs_misread hmode hwords] at hr
  obtain ⟨_, _, _, _, rfl⟩ := receive_eq_some hr
  rfl

theorem passed_of_handle (hmode : t.mode = .word32On64) (hapart : t.Apart m (.socketcall args))
    (hwords : m.load args (3 * t.mode.word) = some words)
    (hbuf : t.cmsgBuf m (readLe t.mode.word t.mode.word words) ≤ maxControllen)
    (hr : receiveArgs t.mode m args = some r)
    (hreceived : t.handle m (.socketcall args) = some (t.fixed r)) :
    t.wanted r.control = r.control ∧
      (t.Keeps m (readLe t.mode.word t.mode.word words) ∨
        t.CopiesTo m (readLe t.mode.word t.mode.word words)
          (readLe t.mode.ptr (2 * t.mode.ptr) words)) := by
  have hptr : t.mode.ptr = 4 := by rw [hmode]; rfl
  obtain ⟨e, hfailed⟩ | hkept | ⟨header, ctl, hheader, hctl, hfixable, hroom⟩ :=
    handleMsg_cases t m (readLe t.mode.word t.mode.word words)
  · rw [handle_socketcall hwords, hfailed] at hreceived
    cases hreceived
  · rw [handle_socketcall hwords, hkept] at hreceived
    dsimp only at hreceived
    rw [hr] at hreceived
    exact ⟨fixed_eq_iff.mp (Option.some.inj hreceived).symm, .inl ((keeps_iff hmode).mpr hkept)⟩
  · by_cases hargs : t.Room m ctl.length (3 * t.mode.word)
    · rw [handle_misread_copied hmode hapart hwords hheader hctl hfixable hbuf hargs, hr] at hreceived
      have hsame := Option.some.inj hreceived
      have hcontrol : r.control = t.wanted r.control := congrArg Received.control hsame
      have hflags : words.take 4 ++ le 4 (t.headerAt ctl.length) = r.args :=
        congrArg Received.args hsame
      rw [args_misread hmode hwords hr] at hflags
      have hlength : words.length = 24 := by
        rw [Memory.load_length hwords, hmode]
        rfl
      have hat := headerAt_lt t ctl.length
      rw [hptr] at hat
      refine ⟨hcontrol.symm, .inr ⟨header, ctl, hheader, hctl, hfixable, hargs, ?_⟩⟩
      rw [hptr]
      exact (flags_iff hlength hat).mp (List.append_cancel_left hflags)
    · rw [handle_misread_no_room hwords hheader hctl hfixable hroom hargs] at hreceived
      cases hreceived

theorem handle_of_refused (hmode : t.mode = .word32On64) (hapart : t.Apart m (.socketcall args))
    (hwords : m.load args (3 * t.mode.word) = some words)
    (hbuf : t.cmsgBuf m (readLe t.mode.word t.mode.word words) ≤ maxControllen)
    (hr : receiveArgs t.mode m args = none) : t.handle m (.socketcall args) = none := by
  obtain ⟨e, hfailed⟩ | hkept | ⟨header, ctl, hheader, hctl, hfixable, hroom⟩ :=
    handleMsg_cases t m (readLe t.mode.word t.mode.word words)
  · rw [handle_socketcall hwords, hfailed]
  · rw [handle_socketcall hwords, hkept]
    exact hr
  · by_cases hargs : t.Room m ctl.length (3 * t.mode.word)
    · rw [handle_misread_copied hmode hapart hwords hheader hctl hfixable hbuf hargs, hr]
      rfl
    · exact handle_misread_no_room hwords hheader hctl hfixable hroom hargs

theorem handle_of_passed (hmode : t.mode = .word32On64) (hapart : t.Apart m (.socketcall args))
    (hwords : m.load args (3 * t.mode.word) = some words)
    (hbuf : t.cmsgBuf m (readLe t.mode.word t.mode.word words) ≤ maxControllen)
    (hr : receiveArgs t.mode m args = some r)
    (hpassed : t.Keeps m (readLe t.mode.word t.mode.word words) ∨
      t.CopiesTo m (readLe t.mode.word t.mode.word words)
        (readLe t.mode.ptr (2 * t.mode.ptr) words)) :
    t.handle m (.socketcall args) = some r := by
  cases hpassed with
  | inl hkeeps =>
      rw [handle_socketcall hwords, (keeps_iff hmode).mp hkeeps]
      exact hr
  | inr hcopies =>
      obtain ⟨header, ctl, hheader, hctl, hfixable, hroom, hat⟩ := hcopies
      have hptr : t.mode.ptr = 4 := by rw [hmode]; rfl
      have hlength : words.length = 24 := by
        rw [Memory.load_length hwords, hmode]
        rfl
      have hlt := headerAt_lt t ctl.length
      rw [hptr] at hat hlt
      rw [handle_misread_copied hmode hapart hwords hheader hctl hfixable hbuf hroom, hr,
        Option.map_some, (flags_iff hlength hlt).mpr hat, ← args_misread hmode hwords hr]

end Words

theorem misread_fixes_iff (hmode : t.mode = .word32On64) (hapart : t.Apart m (.socketcall args)) :
    t.Fixes m (.socketcall args) ↔ t.MisreadSound m args := by
  cases hwords : m.load args (3 * t.mode.word) with
  | none => exact misread_fixes_unreadable hwords
  | some words =>
      have hmsg : t.msg? m (.socketcall args) = some (readLe t.mode.word t.mode.word words) := by
        rw [msg?_socketcall, hwords]
        rfl
      rw [fixes_of_msg hmsg]
      show t.handle m _ = (receiveArgs t.mode m args).map t.fixed ∧ _ ↔ _
      constructor
      · intro ⟨hreceived, hbuf⟩
        have hboth (r : Received) (hr : receiveArgs t.mode m args = some r) :=
          passed_of_handle hmode hapart hwords hbuf hr (by rw [hreceived, hr]; rfl)
        refine ⟨?_, ?_, ?_⟩
        · intro words' heq header hheader hcontrol
          rw [hwords] at heq
          cases heq
          exact cmsgBuf_le_iff.mp hbuf hmode header hheader hcontrol
        · intro r hr
          exact wanted_eq_iff.mp (hboth r hr).1
        · intro r hr
          exact ⟨words, hwords, (hboth r hr).2⟩
      · intro h
        have hbuf : t.cmsgBuf m (readLe t.mode.word t.mode.word words) ≤ maxControllen := by
          apply cmsgBuf_le_iff.mpr
          intro _ header hheader hcontrol
          exact h.short words hwords header hheader hcontrol
        refine ⟨?_, hbuf⟩
        cases hr : receiveArgs t.mode m args with
        | none => exact handle_of_refused hmode hapart hwords hbuf hr
        | some r =>
            obtain ⟨words', heq, hpassed⟩ := h.passed r hr
            rw [hwords] at heq
            cases heq
            have hfixed : t.fixed r = r := fixed_eq_iff.mpr (wanted_eq_iff.mpr (h.real r hr))
            rw [Option.map_some, hfixed]
            exact handle_of_passed hmode hapart hwords hbuf hr hpassed

end Misread

/-! ## All calls -/

/-- **When a call is handled as it is to be.** -/
def Tracer.CallSound (t : Tracer) (m : Memory) : Call → Prop
  | .sendmsg msg => t.MsgSound m msg 0
  | .socketcall args =>
    if t.mode = .word32On64 then t.MisreadSound m args
    else
      ∀ words, m.load args (3 * t.mode.ptr) = some words →
        t.MsgSound m (readLe t.mode.ptr t.mode.ptr words) (3 * t.mode.ptr)

/-- The kernel gets the ids of PRoot exactly where it looks for ids, and PRoot's stack is not overrun, if
and only if what there is to fix can be fixed. -/
theorem fixes_iff (t : Tracer) (m : Memory) (call : Call) (hapart : t.Apart m call) :
    t.Fixes m call ↔ t.CallSound m call := by
  cases call with
  | sendmsg msg => exact sendmsg_fixes_iff t m msg
  | socketcall args =>
      show _ ↔ if t.mode = .word32On64 then _ else _
      by_cases hmode : t.mode = .word32On64
      · rw [if_pos hmode]
        exact misread_fixes_iff hmode hapart
      · rw [if_neg hmode]
        exact socketcall_fixes_iff hmode m args

def tracer64 : Tracer where
  mode := .word64
  getuid := 1000
  getgid := 1000
  stack := 4096
  redZone := 128
  fits := by decide

/-- A message at 0 whose control data are at 64: the credentials of root, and `padding`. -/
def rootCredentials (padding : Bytes) : Memory :=
  .ofBytes (List.replicate 32 0 ++ le 8 64 ++ le 8 (28 + padding.length) ++ List.replicate 16 0 ++
    (le 8 28 ++ le 4 1 ++ le 4 2 ++ le 4 7 ++ le 4 0 ++ le 4 0 ++ padding))

def rootControl (padding : Bytes) : Bytes :=
  le 8 28 ++ le 4 1 ++ le 4 2 ++ le 4 7 ++ le 4 0 ++ le 4 0 ++ padding

theorem rootControl_cmsghdr : unpackCmsghdr .word64 (rootControl [0, 0, 0, 0]) 0 = ⟨28, 1, 2⟩ := by decide

theorem fixes_rootCredentials : tracer64.Fixes (rootCredentials [0, 0, 0, 0]) (.sendmsg 0) := by
  have hheader : (rootCredentials [0, 0, 0, 0]).load 0 56 =
      some (List.replicate 32 0 ++ le 8 64 ++ le 8 32 ++ List.replicate 8 0) := by decide
  have hctl : (rootCredentials [0, 0, 0, 0]).load 64 32 = some (rootControl [0, 0, 0, 0]) := by decide
  have hcomplete : complete .word64 (rootControl [0, 0, 0, 0]) 0 = true := by
    rw [complete_step rootControl_cmsghdr (by decide) (by decide) (by decide)]
    exact complete_end (by decide)
  have hvisits : visits .word64 (rootControl [0, 0, 0, 0]) 0 ≠ [] := by
    rw [visits_found rootControl_cmsghdr (by decide) (by decide) (by decide) (by decide)]
    exact List.cons_ne_nil _ _
  apply (fixes_iff tracer64 _ (.sendmsg 0) trivial).mpr
  apply (msgSound_iff hheader hctl).mpr
  refine ⟨by decide, ?_, ?_⟩
  · intro _
    exact ⟨by decide, fun _ _ => rfl⟩
  · intro hfixable
    exact absurd ⟨by decide, by decide, hcomplete, hvisits⟩ hfixable

/-- Four more bytes behind the credentials, which end the walk of the kernel: the ids of root stay. -/
theorem slack_not_fixed : ¬ tracer64.Fixes (rootCredentials (List.replicate 8 0)) (.sendmsg 0) := by
  have hheader : (rootCredentials (List.replicate 8 0)).load 0 56 =
      some (List.replicate 32 0 ++ le 8 64 ++ le 8 36 ++ List.replicate 8 0) := by decide
  have hctl : (rootCredentials (List.replicate 8 0)).load 64 36 =
      some (rootControl (List.replicate 8 0)) := by decide
  have hcmsghdr : unpackCmsghdr .word64 (rootControl (List.replicate 8 0)) 0 = ⟨28, 1, 2⟩ := by decide
  have hincomplete : complete .word64 (rootControl (List.replicate 8 0)) 0 = false := by
    rw [complete_step hcmsghdr (by decide) (by decide) (by decide)]
    exact complete_unfit rfl (by decide) (by decide)
  have hvisited : visited .word64 (rootControl (List.replicate 8 0)) = [0] := by
    show visits .word64 (rootControl (List.replicate 8 0)) 0 = [0]
    rw [visits_found hcmsghdr (by decide) (by decide) (by decide) (by decide),
      visits_end (by decide)]
  intro h
  obtain ⟨-, -, hreal⟩ := (msgSound_iff hheader hctl).mp ((sendmsg_fixes_iff _ _ _).mp h)
  have hkept : tracer64.wanted (rootControl (List.replicate 8 0)) = rootControl (List.replicate 8 0) := by
    apply hreal
    intro hfixable
    have hcomplete := hfixable.complete
    rw [show complete tracer64.mode _ 0 = false from hincomplete] at hcomplete
    cases hcomplete
  have hids := wanted_eq_iff.mp hkept 0 (by
    rw [show visited tracer64.mode _ = [0] from hvisited]
    exact List.mem_singleton_self 0)
  have hroot : ¬ tracer64.RealIds (rootControl (List.replicate 8 0)) 0 := by
    unfold Tracer.RealIds
    decide
  exact hroot hids

end Improot.Extension.Sendmsg
