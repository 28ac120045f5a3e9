import Improot.Netlink.Message

/-!
# The builders are encoders

What each builder appends when there is room is the encoding of the message that is meant, and the
walks decode it.
-/

namespace Improot.Netlink

open Lib

/-! ## Decoding -/

structure Attr.Valid (a : Attr) : Prop where
  type : a.type < 2 ^ 16
  length : a.data.length + 4 < 2 ^ 16

structure Message.Valid (m : Message) : Prop where
  type : m.type < 2 ^ 16
  flags : m.flags < 2 ^ 16
  seq : m.seq < 2 ^ 32
  pid : m.pid < 2 ^ 32
  fixed : fixedLength m.type = some m.fixed.length ∨ fixedLength m.type = none ∧ m.attrs = []
  attrs : ∀ a ∈ m.attrs, a.Valid
  length : 16 + m.record.payload.length < 2 ^ 32

theorem Attr.record_valid {a : Attr} (h : a.Valid) : rta.Valid a.record := by
  refine ⟨le_length _ _, ?_⟩
  have := h.length
  show 4 + a.data.length < 256 ^ 2
  omega

theorem Attr.of_record {a : Attr} (h : a.Valid) : Attr.of a.record = a := by
  have htype : readLe 2 0 a.record.rest = a.type := by
    show ofLe ((le 2 a.type).take 2) = a.type
    rw [List.take_of_length_le (by simp), ofLe_le_of_lt h.type]
  rw [Attr.of, htype]
  rfl

theorem Message.record_valid {m : Message} (h : m.Valid) : nlmsg.Valid m.record :=
  ⟨by simp [Message.record, nlmsg], h.length⟩

theorem readLe_append {pre post : Bytes} {n x : Nat} (h : x < 256 ^ n) :
    readLe n pre.length (pre ++ (le n x ++ post)) = x := by
  rw [readLe, List.drop_left, List.take_left' (le_length n x), ofLe_le_of_lt h]

/-- **A message is read back** from the record it is encoded as. -/
theorem Message.of_record {m : Message} (h : m.Valid) : Message.of m.record = m := by
  have hrest : m.record.rest = le 2 m.type ++ le 2 m.flags ++ le 4 m.seq ++ le 4 m.pid := rfl
  have htype : readLe 2 0 m.record.rest = m.type := by
    have := @readLe_append [] (le 2 m.flags ++ le 4 m.seq ++ le 4 m.pid) 2 m.type h.type
    simpa [hrest] using this
  have hflags : readLe 2 2 m.record.rest = m.flags := by
    have := @readLe_append (le 2 m.type) (le 4 m.seq ++ le 4 m.pid) 2 m.flags h.flags
    simpa [hrest] using this
  have hseq : readLe 4 4 m.record.rest = m.seq := by
    have := @readLe_append (le 2 m.type ++ le 2 m.flags) (le 4 m.pid) 4 m.seq h.seq
    simpa [hrest] using this
  have hpid : readLe 4 8 m.record.rest = m.pid := by
    have := @readLe_append (le 2 m.type ++ le 2 m.flags ++ le 4 m.seq) [] 4 m.pid h.pid
    simpa [hrest] using this
  have hwalk : (rta.walk (rta.encodeAll (m.attrs.map Attr.record))).map Attr.of = m.attrs := by
    rw [RecordFormat.walk_encodeAll, List.map_map]
    · conv_rhs => rw [← List.map_id m.attrs]
      exact List.map_congr_left fun a ha => Attr.of_record (h.attrs a ha)
    · intro r hr
      obtain ⟨a, ha, rfl⟩ := List.mem_map.mp hr
      exact Attr.record_valid (h.attrs a ha)
  have hbody : splitPayload m.type m.record.payload = (m.fixed, m.attrs) := by
    show splitPayload m.type (m.fixed ++ rta.encodeAll (m.attrs.map Attr.record)) = _
    unfold splitPayload
    rcases h.fixed with hfixed | ⟨hfixed, hnone⟩
    · rw [hfixed]
      dsimp only
      rw [List.take_left, List.drop_left, hwalk]
    · rw [hfixed, hnone, List.map_nil, RecordFormat.encodeAll_nil, List.append_nil]
  simp only [Message.of, htype, hflags, hseq, hpid, hbody]

/-! ## Building -/

/-- From one state of the buffer to another, exactly `bs` is appended. -/
def Out.Adds (o o' : Out) (bs : Bytes) : Prop := Appends o.buf o.off o'.buf o'.off bs

theorem Out.Adds.trans {o o' o'' : Out} {bs bs' : Bytes} (h : o.Adds o' bs) (h' : o'.Adds o'' bs') :
    o.Adds o'' (bs ++ bs') := Appends.trans h h'

/-- `nl_add_attr` appends the encoding of an attribute that fits. -/
theorem nlAddAttr_adds {o : Out} {max : Nat} {a : Attr} {data : Bytes} {dlen : Nat}
    (hmax : max ≤ o.buf.length) (hdlen : dlen < 2 ^ 16) (hdata : data.take dlen = a.data)
    (hlength : a.data.length = dlen) (hfits : o.off + rtaSpace dlen ≤ max) :
    o.Adds (nlAddAttr o max a.type data dlen) (rta.encode a.record) := by
  have hspace := le_align4 (rtaLength dlen)
  have hmod : dlen % 2 ^ 16 = dlen := Nat.mod_eq_of_lt hdlen
  simp only [nlAddAttr, hmod, hdata]
  rw [if_neg (by omega)]
  unfold rtaSpace at hfits ⊢
  have hlen : rtaLength dlen = 4 + dlen := rfl
  have hzero : rtaLength 0 = 4 := rfl
  have hheader : o.off + (le 2 (rtaLength dlen) ++ le 2 a.type).length ≤ o.buf.length := by
    simp only [List.length_append, le_length]
    omega
  have hdone := ((appends_patch hheader).copy a.data (by
    simp only [List.length_append, le_length]
    omega)).copy (List.replicate (align4 (rtaLength dlen) - rtaLength dlen) 0) (by
      simp only [List.length_append, le_length, List.length_replicate]
      omega)
  simp only [List.length_append, le_length, List.length_replicate, Nat.reduceAdd, hlength,
    Nat.add_assoc] at hdone
  have hend : o.off + (4 + (dlen + (align4 (rtaLength dlen) - rtaLength dlen))) =
      o.off + align4 (rtaLength dlen) := by omega
  rw [hend] at hdone
  have hbytes : rta.encode a.record = le 2 (rtaLength dlen) ++ (le 2 a.type ++ (a.data ++
      List.replicate (align4 (rtaLength dlen) - rtaLength dlen) 0)) := by
    simp only [RecordFormat.encode, RecordFormat.bare, RecordFormat.lengthOf, Attr.record, rta,
      hlength, hlen, List.append_assoc]
  rw [hbytes]
  simpa only [Out.Adds, hlen, hzero, List.append_assoc] using hdone

theorem encode_of_aligned {r : Record} (h : r.payload.length % 4 = 0) :
    nlmsg.encode r = le 4 (16 + r.payload.length) ++ (r.rest ++ r.payload) := by
  have hlen : nlmsg.lengthOf r = 16 + r.payload.length := rfl
  rw [RecordFormat.encode, RecordFormat.bare, hlen, align4_of_mod (by omega), Nat.sub_self,
    List.replicate_zero, List.append_nil, List.append_assoc]
  rfl

/-- **A message**: its payload is appended behind the place of the header, which is filled in last.
-/
theorem adds_message {o o' : Out} {r : Record} {type flags seq pid : Nat}
    (hrest : r.rest = le 2 type ++ le 2 flags ++ le 4 seq ++ le 4 pid)
    (hmod : r.payload.length % 4 = 0)
    (h : Out.Adds ⟨o.buf, o.off + nlmsgHdrlen⟩ o' r.payload) :
    o.Adds ⟨patch o'.buf o.off (nlmsghdr (o'.off - o.off) type flags seq pid),
      o.off + align4 (o'.off - o.off)⟩ (nlmsg.encode r) := by
  have hoffset : o'.off = o.off + 16 + r.payload.length := h.offset
  have hlen : o'.off - o.off = 16 + r.payload.length := by omega
  have hheader : (nlmsghdr (o'.off - o.off) type flags seq pid).length = 16 := by simp [nlmsghdr]
  have hadds := @Appends.header o.buf o'.buf o.off o'.off
    (nlmsghdr (o'.off - o.off) type flags seq pid) r.payload (by rw [hheader]; exact h)
  have hbytes : nlmsghdr (o'.off - o.off) type flags seq pid ++ r.payload = nlmsg.encode r := by
    rw [encode_of_aligned hmod, nlmsghdr, hlen, hrest]
    simp only [List.append_assoc]
  have hend : o.off + align4 (o'.off - o.off) = o'.off := by
    rw [hlen, align4_of_mod (by omega)]
    omega
  rw [hbytes] at hadds
  show Appends o.buf o.off _ (o.off + align4 (o'.off - o.off)) _
  rw [hend]
  exact hadds

theorem adds_patch {buf bs : Bytes} {off off' : Nat} (hoff : off' = off + bs.length)
    (h : off' ≤ buf.length) : Out.Adds ⟨buf, off⟩ ⟨patch buf off bs, off'⟩ bs := by
  subst hoff
  exact appends_patch h

theorem nlBuildPlain_adds {o : Out} {max seq pid type flags : Nat} {payload : Bytes}
    (hmax : max ≤ o.buf.length) (hmod : payload.length % 4 = 0)
    (hfits : o.off + 16 + payload.length ≤ max) :
    o.Adds (nlBuildPlain o max seq pid type flags payload)
      (nlmsg.encode ⟨le 2 type ++ le 2 flags ++ le 4 seq ++ le 4 pid, payload⟩) := by
  have halign : align4 (nlmsgHdrlen + payload.length) = 16 + payload.length :=
    align4_of_mod (by rw [nlmsgHdrlen]; omega)
  simp only [nlBuildPlain]
  rw [if_neg (by rw [halign]; omega)]
  have hcopied : Out.Adds ⟨o.buf, o.off + nlmsgHdrlen⟩
      ⟨patch o.buf (o.off + nlmsgHdrlen) payload, o.off + nlmsgHdrlen + payload.length⟩ payload :=
    adds_patch rfl (by rw [nlmsgHdrlen]; omega)
  have hmessage := @adds_message o _ ⟨le 2 type ++ le 2 flags ++ le 4 seq ++ le 4 pid, payload⟩
    type flags seq pid rfl hmod hcopied
  rwa [show o.off + nlmsgHdrlen + payload.length - o.off = nlmsgHdrlen + payload.length by omega]
    at hmessage

theorem nlBuildDone_adds {o : Out} {max seq pid : Nat} (hmax : max ≤ o.buf.length)
    (hfits : o.off + 20 ≤ max) :
    o.Adds (nlBuildDone o max seq pid) (nlmsg.encode (doneMessage seq pid).record) := by
  have h := @nlBuildPlain_adds o max seq pid nlmsgDone nlmFMulti (le 4 0) hmax rfl hfits
  simpa [Message.record, doneMessage, nlBuildDone] using h

theorem nlBuildError_adds {o : Out} {max seq pid error : Nat} (hmax : max ≤ o.buf.length)
    (hfits : o.off + 36 ≤ max) :
    o.Adds (nlBuildError o max seq pid error)
      (nlmsg.encode (errorMessage seq pid error).record) := by
  have hlen : (nlmsgerr error).length = 20 := by simp [nlmsgerr]
  have h := @nlBuildPlain_adds o max seq pid nlmsgError 0 (nlmsgerr error) hmax
    (by rw [hlen]) (by rw [hlen]; omega)
  simpa [Message.record, errorMessage, nlBuildError] using h

/-! ## Links and addresses -/

/-- `nl_add_attr`, for each attribute. -/
def addAttrs (o : Out) (max : Nat) (attrs : List Attr) : Out :=
  attrs.foldl (fun o a => nlAddAttr o max a.type a.data a.data.length) o

theorem nlAddAttr_take (o : Out) (max type : Nat) (data : Bytes) (dlen : Nat) :
    nlAddAttr o max type (data.take dlen) dlen = nlAddAttr o max type data dlen := by
  unfold nlAddAttr
  simp only [List.take_take, Nat.min_eq_left (Nat.mod_le dlen _)]

/-- The attributes are appended one by one. -/
theorem addAttrs_adds {o : Out} {max : Nat} {attrs : List Attr} (hmax : max ≤ o.buf.length)
    (hvalid : ∀ a ∈ attrs, a.Valid)
    (hfits : o.off + (rta.encodeAll (attrs.map Attr.record)).length ≤ max) :
    o.Adds (addAttrs o max attrs) (rta.encodeAll (attrs.map Attr.record)) := by
  induction attrs generalizing o with
  | nil => exact .refl (Nat.le_trans hfits hmax)
  | cons a attrs ih =>
      obtain ⟨ha, hattrs⟩ := List.forall_mem_cons.mp hvalid
      rw [List.map_cons, RecordFormat.encodeAll_cons, List.length_append,
        RecordFormat.encode_length (Attr.record_valid ha)] at hfits
      have hspace : rtaSpace a.data.length = align4 (rta.lengthOf a.record) := rfl
      have hlen := ha.length
      have hone : o.Adds (nlAddAttr o max a.type a.data a.data.length) (rta.encode a.record) :=
        nlAddAttr_adds hmax (by omega) List.take_length rfl (by rw [hspace]; omega)
      have hrest := @ih (nlAddAttr o max a.type a.data a.data.length) (by rw [hone.size]; exact hmax)
        hattrs (by
          rw [hone.offset, RecordFormat.encode_length (Attr.record_valid ha)]
          omega)
      exact hone.trans hrest

/-- What `nl_build_link` and `nl_build_addr` are told that lets a message fit into the room they are
given: short names, and addresses of at most 16 bytes. -/
structure LinkInfo.Short (l : LinkInfo) : Prop where
  name : l.name.length < ifnamsiz
  hwlen : l.hwlen ≤ 8
  hwaddr : l.hwlen ≤ l.hwaddr.length

structure AddrInfo.Short (a : AddrInfo) : Prop where
  addr : a.addr.length ≤ 16
  label : ∀ label, a.label = some label → label.length < ifnamsiz

theorem ifinfomsg_length (l : LinkInfo) : (ifinfomsg l).length = 16 := by simp [ifinfomsg]

theorem ifaddrmsg_length (a : AddrInfo) : (ifaddrmsg a).length = 8 := by simp [ifaddrmsg]

theorem Attr.valid_of_small {a : Attr} (htype : a.type < 2 ^ 16) (h : a.data.length ≤ 16) :
    a.Valid := ⟨htype, by omega⟩

theorem linkAttrs_small {l : LinkInfo} (h : l.Short) :
    ∀ a ∈ linkAttrs l, a.type < 2 ^ 16 ∧ a.data.length ≤ 16 := by
  have hname := h.name
  have hhwlen := h.hwlen
  unfold ifnamsiz at hname
  intro a ha
  simp only [linkAttrs] at ha
  split at ha
  · simp only [List.cons_append, List.nil_append, List.mem_cons, List.not_mem_nil, or_false] at ha
    rcases ha with rfl | rfl | rfl | rfl | rfl | rfl
    all_goals simp [iflaIfname, iflaMtu, iflaTxqlen, iflaOperstate, iflaAddress, iflaBroadcast]
    all_goals omega
  · simp only [List.append_nil, List.mem_cons, List.not_mem_nil, or_false] at ha
    rcases ha with rfl | rfl | rfl | rfl
    all_goals simp [iflaIfname, iflaMtu, iflaTxqlen, iflaOperstate]
    all_goals omega

theorem encodeAll_small {attrs : List Attr} (h : ∀ a ∈ attrs, a.type < 2 ^ 16 ∧ a.data.length ≤ 16) :
    (rta.encodeAll (attrs.map Attr.record)).length ≤ 20 * attrs.length := by
  induction attrs with
  | nil => exact Nat.le_refl 0
  | cons a attrs ih =>
      obtain ⟨⟨htype, hdata⟩, hattrs⟩ := List.forall_mem_cons.mp h
      have hone : (rta.encode a.record).length ≤ 20 := by
        rw [RecordFormat.encode_length (Attr.record_valid (Attr.valid_of_small htype hdata))]
        show align4 (4 + a.data.length) ≤ 20
        unfold align4
        omega
      have hrest := ih hattrs
      rw [List.map_cons, RecordFormat.encodeAll_cons, List.length_append, List.length_cons]
      omega

theorem valid_of_small {m : Message} {n : Nat} (htype : m.type < 2 ^ 16) (hflags : m.flags < 2 ^ 16)
    (hseq : m.seq < 2 ^ 32) (hpid : m.pid < 2 ^ 32) (hfixed : fixedLength m.type = some m.fixed.length)
    (hattrs : ∀ a ∈ m.attrs, a.type < 2 ^ 16 ∧ a.data.length ≤ 16) (hcount : m.attrs.length ≤ n)
    (hn : m.fixed.length + 20 * n ≤ 240) : m.Valid := by
  have hsmall := encodeAll_small hattrs
  refine ⟨htype, hflags, hseq, hpid, .inl hfixed,
    fun a ha => Attr.valid_of_small (hattrs a ha).1 (hattrs a ha).2, ?_⟩
  show 16 + (m.fixed ++ _).length < _
  rw [List.length_append]
  omega

/-- A message with its attributes is appended where there is room. -/
theorem adds_of_attrs {o : Out} {max n : Nat} {m : Message} (hvalid : m.Valid)
    (hattrs : ∀ a ∈ m.attrs, a.type < 2 ^ 16 ∧ a.data.length ≤ 16) (hcount : m.attrs.length ≤ n)
    (hn : m.fixed.length + 20 * n ≤ 240) (hmod : m.fixed.length % 4 = 0)
    (hmax : max ≤ o.buf.length) (hfits : o.off + 256 ≤ max) :
    let start : Out :=
      ⟨patch o.buf (o.off + nlmsgHdrlen) m.fixed, o.off + nlmsgHdrlen + m.fixed.length⟩
    let filled := addAttrs start max m.attrs
    o.Adds ⟨patch filled.buf o.off
        (nlmsghdr (filled.off - o.off) m.type m.flags m.seq m.pid),
      o.off + align4 (filled.off - o.off)⟩ (nlmsg.encode m.record) := by
  intro start filled
  have hsmall := encodeAll_small hattrs
  have hhdr : nlmsgHdrlen = 16 := rfl
  have hstart : Out.Adds ⟨o.buf, o.off + nlmsgHdrlen⟩ start m.fixed := adds_patch rfl (by omega)
  have hfilled : start.Adds filled (rta.encodeAll (m.attrs.map Attr.record)) := by
    refine addAttrs_adds ?_ hvalid.attrs ?_
    · rw [hstart.size]
      exact hmax
    · show o.off + nlmsgHdrlen + m.fixed.length + _ ≤ max
      omega
  have hpayload : m.record.payload.length % 4 = 0 := by
    have hrecords : ∀ r ∈ m.attrs.map Attr.record, rta.Valid r := by
      intro r hr
      obtain ⟨a, ha, rfl⟩ := List.mem_map.mp hr
      exact Attr.record_valid (hvalid.attrs a ha)
    have htail := RecordFormat.encodeAll_length_mod hrecords
    show (m.fixed ++ _).length % 4 = 0
    rw [List.length_append]
    omega
  exact adds_message rfl hpayload (hstart.trans hfilled)

/-! ### Links -/

theorem linkMessage_valid {l : LinkInfo} (h : l.Short) {seq pid flags : Nat} (hseq : seq < 2 ^ 32)
    (hpid : pid < 2 ^ 32) (hflags : flags < 2 ^ 16) : (linkMessage seq pid flags l).Valid := by
  refine @valid_of_small _ 6 (by simp [linkMessage, rtmNewlink]) hflags hseq hpid ?_ (linkAttrs_small h)
    ?_ ?_
  · show some 16 = some (ifinfomsg l).length
    rw [ifinfomsg_length]
  · show (linkAttrs l).length ≤ 6
    unfold linkAttrs
    split <;> simp
  · show (ifinfomsg l).length + _ ≤ _
    rw [ifinfomsg_length]
    decide

theorem addAttrs_link {l : LinkInfo} (h : l.Short) (o : Out) (max : Nat) :
    addAttrs o max (linkAttrs l) =
      (let o := nlAddAttr o max iflaIfname (l.name ++ [0]) (l.name.length + 1)
      let o := nlAddAttr o max iflaMtu (le 4 l.mtu) 4
      let o := nlAddAttr o max iflaTxqlen (le 4 1000) 4
      let o := nlAddAttr o max iflaOperstate (le 1 (operstate l)) 1
      if l.hwlen > 0 then
        let o := nlAddAttr o max iflaAddress l.hwaddr l.hwlen
        nlAddAttr o max iflaBroadcast (broadcast l) l.hwlen
      else o) := by
  have haddr : (l.hwaddr.take l.hwlen).length = l.hwlen := List.length_take_of_le h.hwaddr
  have hbroadcast : ((broadcast l).take l.hwlen).length = l.hwlen :=
    List.length_take_of_le (by simpa [broadcast] using h.hwlen)
  unfold linkAttrs addAttrs
  split
  · simp only [List.cons_append, List.nil_append, List.foldl_cons, List.foldl_nil, le_length,
      List.length_append, List.length_singleton, haddr, hbroadcast, nlAddAttr_take]
  · simp only [List.append_nil, List.foldl_cons, List.foldl_nil, le_length, List.length_append,
      List.length_singleton]

theorem nlBuildLink_adds {o : Out} {max seq pid flags : Nat} {l : LinkInfo} (h : l.Short)
    (hseq : seq < 2 ^ 32) (hpid : pid < 2 ^ 32) (hflags : flags < 2 ^ 16)
    (hmax : max ≤ o.buf.length) (hfits : o.off + 256 ≤ max) :
    o.Adds (nlBuildLink o max seq pid flags l)
      (nlmsg.encode (linkMessage seq pid flags l).record) := by
  have hcount : (linkMessage seq pid flags l).attrs.length ≤ 6 := by
    show (linkAttrs l).length ≤ 6
    unfold linkAttrs
    split <;> simp
  have hfixed : (linkMessage seq pid flags l).fixed.length = 16 := ifinfomsg_length l
  have hadds := @adds_of_attrs o max 6 _ (linkMessage_valid h hseq hpid hflags) (linkAttrs_small h)
    hcount (by omega) (by omega) hmax hfits
  have halign : align4 (ifinfomsg l).length = (ifinfomsg l).length := by
    rw [ifinfomsg_length]
    rfl
  have hhdr : nlmsgHdrlen = 16 := rfl
  unfold nlBuildLink
  rw [if_neg (by rw [halign, ifinfomsg_length]; omega), halign]
  dsimp only at hadds ⊢
  rw [show (linkMessage seq pid flags l).attrs = linkAttrs l from rfl, addAttrs_link h] at hadds
  exact hadds

/-! ### Addresses -/

theorem addrAttrs_small {a : AddrInfo} (h : a.Short) :
    ∀ x ∈ addrAttrs a, x.type < 2 ^ 16 ∧ x.data.length ≤ 16 := by
  have haddr := h.addr
  intro x hx
  unfold addrAttrs at hx
  rcases List.mem_append.mp hx with hx | hx
  · simp only [List.mem_cons, List.not_mem_nil, or_false] at hx
    rcases hx with rfl | rfl
    all_goals exact ⟨by simp [ifaAddress, ifaLocal], haddr⟩
  · cases hlabel : a.label with
    | none =>
        rw [hlabel] at hx
        cases hx
    | some label =>
        have hshort := h.label label hlabel
        unfold ifnamsiz at hshort
        rw [hlabel] at hx
        dsimp only at hx
        split at hx
        · rw [List.mem_singleton] at hx
          subst hx
          refine ⟨by simp [ifaLabel], ?_⟩
          rw [List.length_append, List.length_singleton]
          omega
        · cases hx

theorem addrAttrs_length (a : AddrInfo) : (addrAttrs a).length ≤ 3 := by
  unfold addrAttrs
  cases a.label with
  | none => simp
  | some label =>
      dsimp only
      split <;> simp

theorem addrMessage_valid {a : AddrInfo} (h : a.Short) {seq pid flags : Nat} (hseq : seq < 2 ^ 32)
    (hpid : pid < 2 ^ 32) (hflags : flags < 2 ^ 16) : (addrMessage seq pid flags a).Valid := by
  refine @valid_of_small _ 3 (by simp [addrMessage, rtmNewaddr]) hflags hseq hpid ?_ (addrAttrs_small h)
    (addrAttrs_length a) ?_
  · show some 8 = some (ifaddrmsg a).length
    rw [ifaddrmsg_length]
  · show (ifaddrmsg a).length + _ ≤ _
    rw [ifaddrmsg_length]
    decide

theorem addAttrs_addr (a : AddrInfo) (o : Out) (max : Nat) :
    addAttrs o max (addrAttrs a) =
      (let o := nlAddAttr o max ifaAddress a.addr a.addr.length
      let o := nlAddAttr o max ifaLocal a.addr a.addr.length
      match a.label with
      | some label =>
        if a.family = afInet then nlAddAttr o max ifaLabel (label ++ [0]) (label.length + 1) else o
      | none => o) := by
  unfold addrAttrs addAttrs
  cases a.label with
  | none => rfl
  | some label =>
      dsimp only
      split
      · simp only [List.cons_append, List.nil_append, List.foldl_cons, List.foldl_nil,
          List.length_append, List.length_singleton]
      · rfl

theorem nlBuildAddr_adds {o : Out} {max seq pid flags : Nat} {a : AddrInfo} (h : a.Short)
    (hseq : seq < 2 ^ 32) (hpid : pid < 2 ^ 32) (hflags : flags < 2 ^ 16)
    (hmax : max ≤ o.buf.length) (hfits : o.off + 256 ≤ max) :
    o.Adds (nlBuildAddr o max seq pid flags a)
      (nlmsg.encode (addrMessage seq pid flags a).record) := by
  have hfixed : (addrMessage seq pid flags a).fixed.length = 8 := ifaddrmsg_length a
  have hadds := @adds_of_attrs o max 3 _ (addrMessage_valid h hseq hpid hflags) (addrAttrs_small h)
    (addrAttrs_length a) (by omega) (by omega) hmax hfits
  have halign : align4 (ifaddrmsg a).length = (ifaddrmsg a).length := by
    rw [ifaddrmsg_length]
    rfl
  have hhdr : nlmsgHdrlen = 16 := rfl
  unfold nlBuildAddr
  rw [if_neg (by rw [halign, ifaddrmsg_length]; omega), halign]
  dsimp only at hadds ⊢
  rw [show (addrMessage seq pid flags a).attrs = addrAttrs a from rfl, addAttrs_addr] at hadds
  exact hadds

/-! ### Terminators -/

theorem doneMessage_valid {seq pid : Nat} (hseq : seq < 2 ^ 32) (hpid : pid < 2 ^ 32) :
    (doneMessage seq pid).Valid := by
  refine ⟨by simp [doneMessage, nlmsgDone], by simp [doneMessage, nlmFMulti], hseq, hpid,
    .inr ⟨rfl, rfl⟩, nofun, ?_⟩
  simp [Message.record, doneMessage]

theorem errorMessage_valid {seq pid : Nat} (hseq : seq < 2 ^ 32) (hpid : pid < 2 ^ 32) (error : Nat) :
    (errorMessage seq pid error).Valid := by
  refine ⟨by simp [errorMessage, nlmsgError], by simp [errorMessage], hseq, hpid,
    .inr ⟨rfl, rfl⟩, nofun, ?_⟩
  simp [Message.record, errorMessage, nlmsgerr]

end Improot.Netlink
