import Improot.Lib.DatagramQueue
import Improot.Netlink.Receive
import Improot.Netlink.ReplySpec

/-!
# A reply is delivered intact

The bytes left of a reply stand for a queue of datagrams: the messages before the terminator, then
the terminator. Each receiving call gives what a datagram socket gives of the front of this queue.
-/

namespace Improot.Netlink

open Lib

/-! ## Datagrams -/

variable {r : Record} {rs : List Record}

theorem readLe_length (h : nlmsg.Valid r) (more : Bytes) :
    readLe 4 0 (nlmsg.encode r ++ more) = nlmsg.lengthOf r := by
  have hlen : (nlmsg.encode r ++ more).take 4 = le 4 (nlmsg.lengthOf r) :=
    @RecordFormat.encode_take_length nlmsg r more
  rw [readLe, List.drop_zero, hlen]
  exact ofLe_le_of_lt h.length

theorem readLe_type (h : nlmsg.Valid r) (more : Bytes) :
    readLe 2 4 (nlmsg.encode r ++ more) = messageType r := by
  have hrest : r.rest.length = 12 := h.rest
  have hdrop : (nlmsg.encode r ++ more).drop 4 = r.rest ++ (r.payload ++
      (List.replicate (align4 (nlmsg.lengthOf r) - nlmsg.lengthOf r) 0 ++ more)) := by
    simp only [RecordFormat.encode, RecordFormat.bare, List.append_assoc]
    exact List.drop_left' (le_length 4 _)
  rw [messageType, readLe, readLe, hdrop, List.drop_zero, List.take_append_of_le_length (by omega)]

theorem datagramOff_encode (h : nlmsg.Valid r) (more : Bytes) (off : Nat) :
    datagramOff (nlmsg.encode r ++ more) off =
      if messageType r = nlmsgDone then off
      else datagramOff more (off + (nlmsg.encode r).length) := by
  have hlen := RecordFormat.encode_length h
  have halign := le_align4 (nlmsg.lengthOf r)
  have hheader : nlmsgHdrlen ≤ nlmsg.lengthOf r := Nat.le_add_right _ _
  rw [datagramOff, if_neg (by rw [List.length_append, hlen]; omega)]
  simp only [readLe_length h, readLe_type h]
  rw [if_neg (by rw [List.length_append, hlen]; omega), ← hlen, List.drop_left]

theorem datagramOff_encodeAll (h : ∀ r ∈ rs, nlmsg.Valid r) (off : Nat) :
    datagramOff (nlmsg.encodeAll rs) off =
      off + (nlmsg.encodeAll (rs.takeWhile fun r => messageType r ≠ nlmsgDone)).length := by
  induction rs generalizing off with
  | nil =>
      have hshort : ([] : Bytes).length < nlmsgHdrlen := by decide
      rw [RecordFormat.encodeAll_nil, datagramOff, if_pos hshort]
      rfl
  | cons r rs ih =>
      obtain ⟨hr, hrs⟩ := List.forall_mem_cons.mp h
      rw [RecordFormat.encodeAll_cons, datagramOff_encode hr, List.takeWhile_cons]
      by_cases hdone : messageType r = nlmsgDone
      · rw [if_pos hdone, if_neg (by simpa using hdone)]
        rfl
      · rw [if_neg hdone, if_pos (by simpa using hdone), ih hrs, RecordFormat.encodeAll_cons,
          List.length_append, Nat.add_assoc]

/-- The first datagram: the messages before the terminator if there are some, else all. -/
def firstFrame (rs : List Record) : List Record :=
  let body := rs.takeWhile fun r => messageType r ≠ nlmsgDone
  if body = [] then rs else body

theorem firstFrame_prefix (rs : List Record) : firstFrame rs <+: rs := by
  unfold firstFrame
  dsimp only
  split
  · exact List.prefix_rfl
  · exact List.takeWhile_prefix _

theorem firstFrame_ne_nil (h : rs ≠ []) : firstFrame rs ≠ [] := by
  unfold firstFrame
  dsimp only
  split
  · exact h
  · assumption

/-- The length of the next datagram is the one of its messages. -/
theorem fakeNetlinkDatagramLen_eq (h : ∀ r ∈ rs, nlmsg.Valid r) (more : Bytes) :
    fakeNetlinkDatagramLen (nlmsg.encodeAll rs ++ more) (nlmsg.encodeAll rs).length =
      (nlmsg.encodeAll (firstFrame rs)).length := by
  unfold fakeNetlinkDatagramLen firstFrame
  rw [List.take_left, datagramOff_encodeAll h]
  obtain ⟨tail, htail⟩ := List.takeWhile_prefix (l := rs) fun r => messageType r ≠ nlmsgDone
  have hle : (nlmsg.encodeAll (rs.takeWhile fun r => messageType r ≠ nlmsgDone)).length ≤
      (nlmsg.encodeAll rs).length := by
    conv_rhs => rw [← htail, RecordFormat.encodeAll_append, List.length_append]
    omega
  dsimp only
  by_cases hnone : (rs.takeWhile fun r => messageType r ≠ nlmsgDone) = []
  · rw [if_pos hnone, hnone, if_pos (by simp)]
  · obtain ⟨r, rest, hcons⟩ := List.exists_cons_of_ne_nil hnone
    have hr : nlmsg.Valid r := by
      apply h
      apply (List.takeWhile_prefix _).subset
      rw [hcons]
      exact List.mem_cons_self ..
    have hpos := List.length_pos_iff.mpr (RecordFormat.encode_ne_nil hr)
    rw [if_neg hnone, if_neg, Nat.zero_add]
    rw [hcons, RecordFormat.encodeAll_cons, List.length_append] at hle ⊢
    omega

def frames (rs : List Record) : List (List Record) :=
  if rs = [] then []
  else firstFrame rs :: frames (rs.drop (firstFrame rs).length)
termination_by rs.length
decreasing_by
  rename_i h
  have hpos := List.length_pos_iff.mpr (firstFrame_ne_nil h)
  have hlen := List.length_pos_iff.mpr h
  rw [List.length_drop]
  omega

theorem frames_nil : frames [] = [] := by
  rw [frames, if_pos rfl]

theorem frames_of_ne_nil (h : rs ≠ []) :
    frames rs = firstFrame rs :: frames (rs.drop (firstFrame rs).length) := by
  rw [frames, if_neg h]

/-! ## The socket -/

/-- What is left of the reply of a socket are some messages. -/
structure FakeNetlinkSocket.Holds (sock : FakeNetlinkSocket) (rs : List Record) : Prop where
  valid : ∀ r ∈ rs, nlmsg.Valid r
  bytes : (sock.reply.take sock.replyLen).drop sock.replyOff = nlmsg.encodeAll rs
  inside : sock.replyOff ≤ sock.replyLen ∧ sock.replyLen ≤ sock.reply.length
  empty : sock.replyLen = 0 ↔ rs = []

namespace FakeNetlinkSocket.Holds

variable {sock : FakeNetlinkSocket} {rs : List Record}

theorem left (h : sock.Holds rs) : sock.replyLen - sock.replyOff = (nlmsg.encodeAll rs).length := by
  have hinside := h.inside
  rw [← h.bytes, List.length_drop, List.length_take]
  omega

theorem drop (h : sock.Holds rs) :
    ∃ more, sock.reply.drop sock.replyOff = nlmsg.encodeAll rs ++ more := by
  refine ⟨sock.reply.drop sock.replyLen, ?_⟩
  have hinside := h.inside
  conv_lhs => rw [← List.take_append_drop sock.replyLen sock.reply]
  rw [List.drop_append_of_le_length (by rw [List.length_take]; omega), h.bytes]

theorem pending_nil (h : sock.Holds []) : sock.pending = ([], 0) := if_pos (h.empty.mpr rfl)

theorem pending_cons (h : sock.Holds rs) (hne : rs ≠ []) :
    ∃ more, sock.pending =
      (nlmsg.encodeAll (firstFrame rs) ++ more, (nlmsg.encodeAll (firstFrame rs)).length) := by
  obtain ⟨more, hmore⟩ := h.drop
  obtain ⟨tail, htail⟩ := firstFrame_prefix rs
  refine ⟨nlmsg.encodeAll tail ++ more, ?_⟩
  have hlen : sock.replyLen ≠ 0 := fun hzero => hne (h.empty.mp hzero)
  rw [FakeNetlinkSocket.pending, if_neg hlen]
  simp only [hmore, h.left, fakeNetlinkDatagramLen_eq h.valid]
  rw [← List.append_assoc, ← RecordFormat.encodeAll_append, htail]

/-- What is consumed is the first datagram of the reply. -/
theorem consume (h : sock.Holds rs) :
    (sock.consume (nlmsg.encodeAll (firstFrame rs)).length).Holds
      (rs.drop (firstFrame rs).length) := by
  obtain ⟨tail, htail⟩ := firstFrame_prefix rs
  have hdrop : rs.drop (firstFrame rs).length = tail := by
    have hboth := congrArg (List.drop (firstFrame rs).length) htail
    rw [List.drop_left] at hboth
    exact hboth.symm
  have hvalid : ∀ r ∈ tail, nlmsg.Valid r := by
    intro r hr
    apply h.valid
    rw [← htail]
    exact List.mem_append_right _ hr
  have hinside := h.inside
  have hleft := h.left
  have hbytes := h.bytes
  rw [← htail, RecordFormat.encodeAll_append] at hleft hbytes
  rw [List.length_append] at hleft
  rw [hdrop]
  unfold FakeNetlinkSocket.consume
  dsimp only
  split
  next hlast =>
    -- nothing is left
    have hzero : (nlmsg.encodeAll tail).length = 0 := by omega
    have hnil : tail = [] := by
      cases tail with
      | nil => rfl
      | cons r rest =>
          have hpos := List.length_pos_iff.mpr (RecordFormat.encode_ne_nil (hvalid r (by simp)))
          rw [RecordFormat.encodeAll_cons, List.length_append] at hzero
          omega
    subst hnil
    exact ⟨nofun, rfl, ⟨Nat.le_refl 0, Nat.zero_le _⟩, by simp⟩
  next hmore =>
    refine ⟨hvalid, ?_, ⟨by dsimp only; omega, hinside.2⟩, ?_⟩
    · dsimp only
      rw [← List.drop_drop, hbytes, List.drop_left]
    · constructor
      · intro hzero
        dsimp only at hzero
        omega
      · intro hnil
        rw [hnil, RecordFormat.encodeAll_nil, List.length_nil] at hleft
        omega

end FakeNetlinkSocket.Holds

/-! ## Calls -/

def Receive.segments : Receive → List Segment
  | .recvfrom buf _ => [buf]
  | .recvmsg msghdr _ => msghdr.getD []

def capacity (segs : List Segment) : Nat := (segs.map Segment.len).sum

def Usable (segs : List Segment) : Prop := ∀ s ∈ segs, s.base ≠ 0 ∧ s.writable = true ∨ s.len = 0

/-- Each write goes to a buffer of its own, in order, and stays inside of it. -/
def Within (writes : List (Nat × Bytes)) (segs : List Segment) : Prop :=
  ∃ used, used.Sublist segs ∧
    List.Forall₂ (fun w s => w.1 = s.base ∧ w.2.length ≤ s.len) writes used

theorem Within.nil (segs : List Segment) : Within [] segs :=
  ⟨[], List.nil_sublist segs, .nil⟩

theorem Within.skip {writes : List (Nat × Bytes)} {segs : List Segment} (s : Segment)
    (h : Within writes segs) : Within writes (s :: segs) := by
  obtain ⟨used, hsub, hall⟩ := h
  exact ⟨used, hsub.cons s, hall⟩

theorem Within.cons {writes : List (Nat × Bytes)} {segs : List Segment} {s : Segment} {bs : Bytes}
    (hlen : bs.length ≤ s.len) (h : Within writes segs) :
    Within ((s.base, bs) :: writes) (s :: segs) := by
  obtain ⟨used, hsub, hall⟩ := h
  exact ⟨s :: used, hsub.cons_cons s, .cons ⟨rfl, hlen⟩ hall⟩

/-- What a call gives of a datagram: it never writes more than a buffer holds and, where these can
be written, it fills them with the start of the datagram. -/
structure Delivers (call : Receive) (d : Bytes) (x : Delivery) : Prop where
  within : Within x.writes call.segments
  intact : Usable call.segments →
    (x.writes.map Prod.snd).flatten = d.take (capacity call.segments)
  result : Usable call.segments →
    x.result = if hasFlag call.flags msgTrunc then d.length else min (capacity call.segments) d.length

/-- The buffers are filled in order, each up to its own length. -/
theorem scatter_spec {d : Bytes} (more : Bytes) (segs : List Segment) {done : Nat}
    (hdone : done ≤ d.length) :
    Within (scatterFakeNetlinkReply (d ++ more) d.length segs done).1 segs ∧
      (Usable segs →
        ((scatterFakeNetlinkReply (d ++ more) d.length segs done).1.map Prod.snd).flatten =
          (d.drop done).take (capacity segs) ∧
        (scatterFakeNetlinkReply (d ++ more) d.length segs done).2 =
          min (done + capacity segs) d.length) := by
  induction segs generalizing done with
  | nil =>
      refine ⟨.nil _, fun _ => ⟨rfl, ?_⟩⟩
      show done = min (done + 0) d.length
      omega
  | cons s rest ih =>
      have hcapacity : capacity (s :: rest) = s.len + capacity rest := List.sum_cons
      unfold scatterFakeNetlinkReply
      by_cases hmore : done < d.length
      · rw [if_neg (not_not.mpr hmore)]
        have hchunk : min (d.length - done) s.len ≤ s.len := Nat.min_le_right _ _
        have hnext : done + min (d.length - done) s.len ≤ d.length := by omega
        obtain ⟨hwithin, hgood⟩ := ih hnext
        -- what the rest of the buffers get
        have hrest : (d.drop (done + min (d.length - done) s.len)).take (capacity rest) =
            ((d.drop done).drop s.len).take (capacity rest) := by
          rw [List.drop_drop]
          by_cases hshort : s.len ≤ d.length - done
          · rw [Nat.min_eq_right hshort]
          · rw [List.drop_eq_nil_of_le (by omega), List.drop_eq_nil_of_le (by omega)]
        have hcount : min (done + min (d.length - done) s.len + capacity rest) d.length =
            min (done + capacity (s :: rest)) d.length := by omega
        by_cases hwrite : s.base ≠ 0 ∧ min (d.length - done) s.len > 0
        · have hpiece : ((d ++ more).drop done).take (min (d.length - done) s.len) =
              (d.drop done).take s.len := by
            rw [List.drop_append_of_le_length hdone,
              List.take_append_of_le_length (by rw [List.length_drop]; omega), List.take_eq_take_iff,
              List.length_drop]
            omega
          have hlen : ((d.drop done).take s.len).length ≤ s.len := List.length_take_le _ _
          rw [if_pos hwrite, hpiece]
          cases hwritable : s.writable with
          | true =>
              refine ⟨hwithin.cons hlen, ?_⟩
              intro husable
              obtain ⟨hbytes, hlast⟩ := hgood fun t ht => husable t (List.mem_cons_of_mem s ht)
              refine ⟨?_, hlast.trans hcount⟩
              show (d.drop done).take s.len ++ _ = _
              rw [hbytes, hrest, hcapacity, ← List.take_add]
          | false =>
              refine ⟨(Within.nil rest).cons hlen, ?_⟩
              intro husable
              rcases husable s (List.mem_cons_self ..) with ⟨-, hcan⟩ | hzero
              · rw [hwritable] at hcan
                cases hcan
              · omega
        · rw [if_neg hwrite]
          refine ⟨hwithin.skip s, ?_⟩
          intro husable
          obtain ⟨hbytes, hlast⟩ := hgood fun t ht => husable t (List.mem_cons_of_mem s ht)
          have hzero : s.len = 0 := by
            rcases husable s (List.mem_cons_self ..) with ⟨hbase, -⟩ | hzero
            · have hnone : ¬ min (d.length - done) s.len > 0 := fun hpos => hwrite ⟨hbase, hpos⟩
              omega
            · exact hzero
          refine ⟨?_, hlast.trans hcount⟩
          rw [hbytes, hrest, hcapacity, hzero, List.drop_zero, Nat.zero_add]
      · rw [if_pos hmore]
        refine ⟨.nil _, fun _ => ⟨?_, ?_⟩⟩
        · rw [List.drop_eq_nil_of_le (by omega), List.take_nil]
          rfl
        · show done = min (done + _) d.length
          omega

/-- **One receive** delivers the next datagram, and a peek leaves it there. -/
theorem receive_delivers {sock : FakeNetlinkSocket} (h : sock.Holds rs)
    (hne : rs ≠ []) (call : Receive) :
    ∃ x, receive sock call = (some x, if call.peeks then sock
        else sock.consume (nlmsg.encodeAll (firstFrame rs)).length) ∧
      Delivers call (nlmsg.encodeAll (firstFrame rs)) x := by
  obtain ⟨more, hpending⟩ := h.pending_cons hne
  have hsome : (nlmsg.encodeAll (firstFrame rs)).length ≠ 0 := by
    obtain ⟨r, rest, hcons⟩ := List.exists_cons_of_ne_nil (firstFrame_ne_nil hne)
    have hr : nlmsg.Valid r := by
      apply h.valid
      apply ( firstFrame_prefix rs).subset
      rw [hcons]
      exact List.mem_cons_self ..
    have hpos := List.length_pos_iff.mpr (RecordFormat.encode_ne_nil hr)
    rw [hcons, RecordFormat.encodeAll_cons, List.length_append]
    omega
  generalize nlmsg.encodeAll (firstFrame rs) = d at hpending hsome ⊢
  cases call with
  | recvfrom buf flags =>
      simp only [receive, hpending, if_neg hsome]
      refine ⟨_, rfl, ?_, ?_, ?_⟩
      · have htried : (if buf.base ≠ 0 then min buf.len d.length else 0) ≤ buf.len := by
          split
          · exact Nat.min_le_left _ _
          · exact Nat.zero_le _
        show Within (if _ then _ else _) [buf]
        generalize (if buf.base ≠ 0 then min buf.len d.length else 0) = tried at htried ⊢
        split
        · exact (Within.nil []).cons (Nat.le_trans (List.length_take_le _ _) htried)
        · exact .nil _
      · intro husable
        have hcapacity : capacity [buf] = buf.len := List.sum_singleton
        show ((if _ then _ else _ : List (Nat × Bytes)).map Prod.snd).flatten = d.take (capacity [buf])
        rw [hcapacity]
        rcases husable buf (List.mem_singleton.mpr rfl) with ⟨hbase, -⟩ | hzero
        · rw [if_pos hbase]
          by_cases hempty : buf.len = 0
          · simp [hempty]
          · rw [if_pos (by omega)]
            show [(d ++ more).take (min buf.len d.length)].flatten = _
            rw [List.flatten_singleton, List.take_append_of_le_length (Nat.min_le_right _ _),
              List.take_eq_take_iff]
            omega
        · simp [hzero]
      · intro husable
        have hcapacity : capacity [buf] = buf.len := List.sum_singleton
        show (if _ then _ else (if _ then _ else _)) = if _ then _ else min (capacity [buf]) d.length
        rw [hcapacity]
        congr 1
        rcases husable buf (List.mem_singleton.mpr rfl) with ⟨hbase, hwritable⟩ | hzero
        · simp [hbase, hwritable]
        · simp [hzero]
  | recvmsg msghdr flags =>
      obtain ⟨hwithin, hgood⟩ := @scatter_spec d more (msghdr.getD []) 0 (Nat.zero_le _)
      simp only [receive, hpending, if_neg hsome]
      refine ⟨_, rfl, hwithin, ?_, ?_⟩
      · intro husable
        exact (hgood husable).1
      · intro husable
        have hcount := (hgood husable).2
        rw [Nat.zero_add] at hcount
        show (if _ then _ else _) = _
        rw [hcount]
        rfl

theorem receive_nothing {sock : FakeNetlinkSocket} (h : sock.Holds []) (call : Receive) :
    receive sock call = (none, sock) := by
  simp only [receive, h.pending_nil, if_true]

/-! ## Runs of calls -/

/-- How the messages of a reply are split into datagrams. -/
structure Framing (reply : Bytes) (rss : List (List Record)) : Prop where
  /-- the reply, in order, between messages -/
  whole : nlmsg.encodeAll rss.flatten = reply
  valid : ∀ rs ∈ rss, ∀ r ∈ rs, nlmsg.Valid r
  some : ∀ rs ∈ rss, rs ≠ []
  /-- `NLMSG_DONE` comes last -/
  last : ∀ rs ∈ rss.dropLast, ∀ r ∈ rs, messageType r ≠ nlmsgDone
  /-- and alone -/
  alone : ∀ rs ∈ rss, (∃ r ∈ rs, messageType r = nlmsgDone) → rs.length = 1

theorem firstFrame_open (h : ∀ r ∈ rs, messageType r ≠ nlmsgDone) :
    firstFrame rs = rs := by
  have hall : (rs.takeWhile fun r => messageType r ≠ nlmsgDone) = rs :=
    List.takeWhile_eq_self_iff.mpr fun r hr => by simpa using h r hr
  unfold firstFrame
  dsimp only
  rw [hall]
  split <;> rfl

theorem firstFrame_done (h : messageType r = nlmsgDone) : firstFrame [r] = [r] := by
  have hnone : ([r].takeWhile fun r => messageType r ≠ nlmsgDone) = [] := by
    rw [List.takeWhile_cons, if_neg (by simpa using h)]
  unfold firstFrame
  dsimp only
  rw [hnone, if_pos rfl]

theorem firstFrame_closed (hne : rs ≠ [])
    (h : ∀ r ∈ rs, messageType r ≠ nlmsgDone) (hr : messageType r = nlmsgDone) :
    firstFrame (rs ++ [r]) = rs := by
  have hbody : ((rs ++ [r]).takeWhile fun r => messageType r ≠ nlmsgDone) = rs := by
    rw [List.takeWhile_append_of_pos fun r hr => by simpa using h r hr, List.takeWhile_cons,
      if_neg (by simpa using hr), List.append_nil]
  unfold firstFrame
  dsimp only
  rw [hbody, if_neg hne]

theorem frames_single (hne : rs ≠ []) (h : firstFrame rs = rs) :
    frames rs = [rs] := by
  rw [frames_of_ne_nil hne, h, List.drop_length, frames_nil]

/-- The datagrams are the reply, with `NLMSG_DONE` on its own. -/
theorem frames_framing (hvalid : ∀ r ∈ rs, nlmsg.Valid r)
    (hdone : ∀ r ∈ rs.dropLast, messageType r ≠ nlmsgDone) :
    Framing (nlmsg.encodeAll rs) (frames rs) := by
  rcases List.eq_nil_or_concat rs with rfl | ⟨body, r, rfl⟩
  · rw [frames_nil]
    exact ⟨rfl, nofun, nofun, nofun, nofun⟩
  rw [List.concat_eq_append] at *
  rw [List.dropLast_concat] at hdone
  by_cases hr : messageType r = nlmsgDone
  · cases body with
    | nil =>
        rw [List.nil_append, frames_single (by simp) (firstFrame_done hr)]
        refine ⟨by simp, ?_, by simp, by simp, by simp⟩
        intro rs hrs
        rwa [List.mem_singleton.mp hrs]
    | cons r' rest =>
        have hne : r' :: rest ≠ [] := List.cons_ne_nil _ _
        have hframes : frames (r' :: rest ++ [r]) = [r' :: rest, [r]] := by
          rw [frames_of_ne_nil (by simp), firstFrame_closed hne hdone hr, List.drop_left,
            frames_single (by simp) (firstFrame_done hr)]
        rw [hframes]
        refine ⟨by simp, ?_, by simp, ?_, ?_⟩
        · intro rs hrs r'' hr''
          apply hvalid
          rcases List.mem_pair.mp hrs with rfl | rfl
          · exact List.mem_append_left _ hr''
          · exact List.mem_append_right _ hr''
        · intro rs hrs
          rw [List.mem_singleton.mp hrs]
          exact hdone
        · intro rs hrs hlast
          rcases List.mem_pair.mp hrs with rfl | rfl
          · obtain ⟨r'', hr'', htype⟩ := hlast
            exact absurd htype (hdone r'' hr'')
          · rfl
  · have hopen : ∀ r'' ∈ body ++ [r], messageType r'' ≠ nlmsgDone := by
      intro r'' hr''
      rcases List.mem_append.mp hr'' with hr'' | hr''
      · exact hdone r'' hr''
      · rwa [List.mem_singleton.mp hr'']
    rw [frames_single (by simp) (firstFrame_open hopen)]
    refine ⟨by simp, ?_, by simp, by simp, ?_⟩
    · intro rs hrs
      rwa [List.mem_singleton.mp hrs]
    · intro rs hrs hlast
      rw [List.mem_singleton.mp hrs] at hlast
      obtain ⟨r'', hr'', htype⟩ := hlast
      exact absurd htype (hopen r'' hr'')

/-- Only the last message of a reply is a terminator. -/
theorem WellFormed.done_last {h : Host} {pid : UInt32} {sent : Option Bytes}
    {plan : Bytes → List Planned} {o : Out} (hreply : WellFormed h pid.toNat sent plan o)
    (hplan : ∀ req, ∀ p ∈ plan req, p.message.type ≠ nlmsgDone) :
    ∀ m ∈ (decode o.reply).dropLast, m.type ≠ nlmsgDone := by
  intro m hm
  cases hread : readRequest sent with
  | none =>
      rw [hreply.unread hread] at hm
      cases hm
  | some req =>
      cases hdump : isDump req with
      | true =>
          obtain ⟨shown, d, -, hdecode, -, hshown⟩ := hreply.dump req hread hdump
          rw [hdecode, List.dropLast_concat] at hm
          exact hshown m hm
      | false =>
          obtain ⟨shown, hshown, hdecode⟩ := hreply.single req hread hdump
          have hin := List.dropLast_subset _ hm
          rw [hdecode] at hin
          rcases List.mem_append.mp hin with hin | hin
          · obtain ⟨p, hp, rfl⟩ := hshown.mem hin
            exact hplan req p hp
          · unfold singleEnd at hin
            split at hin
            · cases hin
            · rw [List.mem_singleton.mp hin]
              simp [errorMessage, nlmsgError, nlmsgDone]

/-- What a socket answers: the front of the queue, or the call is passed on. -/
def Answered (call : Receive) : Option (List Record) → Option Delivery → Prop
  | some rs, some x => Delivers call (nlmsg.encodeAll rs) x
  | none, none => True
  | _, _ => False

theorem receive_stands (sock : FakeNetlinkSocket) (q : List (List Record)) (call : Receive)
    (h : ∃ rs, sock.Holds rs ∧ q = frames rs) :
    Answered call q.head? (receive sock call).1 ∧
      ∃ rs, (receive sock call).2.Holds rs ∧ leave Receive.peeks call q = frames rs := by
  obtain ⟨rs, hholds, rfl⟩ := h
  by_cases hne : rs = []
  · subst hne
    rw [receive_nothing hholds, frames_nil]
    refine ⟨trivial, [], hholds, ?_⟩
    rw [frames_nil]
    exact ite_self _
  · obtain ⟨x, hreceive, hdelivers⟩ := receive_delivers hholds hne call
    rw [hreceive, frames_of_ne_nil hne]
    refine ⟨hdelivers, ?_⟩
    unfold leave
    cases hpeeks : call.peeks with
    | true => exact ⟨rs, hholds, (frames_of_ne_nil hne).symm⟩
    | false => exact ⟨_, hholds.consume, rfl⟩

/-- The socket holds the messages of the reply that was prepared. -/
theorem prepared_holds (h : Host) (pid : UInt32) (sent : Option Bytes) (buf : ReplyBuffer) :
    ∃ rs, rs ≠ [] ∧ (FakeNetlinkSocket.prepared h pid sent buf.1).Holds rs ∧
      (buildFakeNetlinkReply h pid sent buf.1).reply = nlmsg.encodeAll rs ∧
      ∀ r ∈ rs.dropLast, messageType r ≠ nlmsgDone := by
  have hreply := buildFakeNetlinkReply_wellFormed h pid sent buf (foundLinks h) (foundLinks_short h)
    fun _ _ _ => rfl
  obtain ⟨rs, hvalid, hbytes⟩ := hreply.encoded
  obtain ⟨hpos, hfits⟩ := hreply.inside
  have hsize := hreply.size
  have hne : rs ≠ [] := by
    rintro rfl
    have hlen := congrArg List.length hbytes
    rw [Out.reply, List.length_take, RecordFormat.encodeAll_nil, List.length_nil] at hlen
    omega
  refine ⟨rs, hne, ⟨hvalid, hbytes, ⟨Nat.zero_le _, ?_⟩, ?_⟩, hbytes, ?_⟩
  · show (buildFakeNetlinkReply h pid sent buf.1).off ≤ _
    exact Nat.le_trans hfits (Nat.le_of_eq hsize.symm)
  · exact ⟨fun hzero => absurd hzero (Nat.pos_iff_ne_zero.mp hpos), fun hnil => absurd hnil hne⟩
  · intro r hr
    have hmessages : decode (buildFakeNetlinkReply h pid sent buf.1).reply = rs.map Message.of := by
      rw [decode, hbytes, RecordFormat.walk_encodeAll hvalid]
    have hlast := hreply.done_last (fun _ p hp => (plan_addressed p hp).2.2) (Message.of r)
    rw [hmessages, ← List.map_dropLast] at hlast
    exact hlast (List.mem_map_of_mem hr)

/-- **Replies are delivered intact**: the non-peeking calls give the datagrams of the reply in
order, each once; a call that comes after all of them is passed on. -/
theorem reply_delivered (h : Host) (pid : UInt32) (sent : Option Bytes) (buf : ReplyBuffer) :
    ∃ rss, rss ≠ [] ∧
      Framing (buildFakeNetlinkReply h pid sent buf.1).reply rss ∧
      ∀ (calls : List Receive) (k : Nat) (call : Receive), calls[k]? = some call →
        ∃ x, (answers receive (.prepared h pid sent buf.1) calls)[k]? = some x ∧
          Answered call rss[taken Receive.peeks (calls.take k)]? x := by
  obtain ⟨rs, hne, hholds, hbytes, hdone⟩ := prepared_holds h pid sent buf
  refine ⟨frames rs, ?_, ?_, ?_⟩
  · rw [frames_of_ne_nil hne]
    exact List.cons_ne_nil _ _
  · rw [hbytes]
    exact frames_framing hholds.valid hdone
  · intro calls k call hcall
    exact answers_in_order receive_stands ⟨rs, hholds, rfl⟩ hcall

end Improot.Netlink
