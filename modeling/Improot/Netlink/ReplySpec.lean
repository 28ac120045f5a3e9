import Improot.Netlink.Meant
import Improot.Netlink.MessageSpec
import Mathlib.Data.List.TakeWhile

/-!
# A reply holds what its loops go through

For each request, the entries that the loops of the builders go through are listed without any
buffer. The reply is shown to be the encoding of their messages, as far as there is room for them, and
of the end of the reply.
-/

namespace Improot.Netlink

open Lib

/-! ## What the loops go through -/

/-- The entries that `build_host_links` doesn't skip: their names aren't remembered. -/
def linkEntries (h : Host) : List Ifaddrs → (seen : List IfName) → List LinkInfo
  | [], _ => []
  | i :: rest, seen =>
    match i.name with
    | none => linkEntries h rest seen
    | some name =>
      if name ∈ seen then linkEntries h rest seen
      else linkInfo h i name :: linkEntries h rest (remember seen name)

def links (h : Host) : List LinkInfo := linkEntries h (h.getifaddrs.getD []) []

def foundLinks (h : Host) (req : Bytes) : List LinkInfo :=
  if isDump req then links h else ((links h).find? (nlRequestLinkTarget req).wants).toList

def planLinks (found : List LinkInfo) (req : Bytes) (seq pid : Nat) : List Planned :=
  if found ≠ [] then found.map fun l => ⟨linkMessage seq pid (multi req) l, 256⟩
  else if isDump req ∨ nlRequestIsLoopback req then
    [⟨linkMessage seq pid (multi req) loopbackLink, 256⟩]
  else [⟨errorMessage seq pid enodev, 256⟩]

/-- The addresses of the host, of a family if it isn't `AF_UNSPEC`. -/
def addrs (h : Host) (wantFamily : Nat) : List AddrInfo :=
  (h.getifaddrs.getD []).filterMap (addrInfo h wantFamily)

def requestFamily (req : Bytes) : Nat := ((req[nlmsgHdrlen]?).getD 0).toNat

def loopbackAddrs (family : Nat) : List AddrInfo :=
  (if family = 0 ∨ family = afInet then [loopbackAddr afInet] else []) ++
    if family = 0 ∨ family = afInet6 then [loopbackAddr afInet6] else []

def wantedFamily (req : Bytes) : Nat :=
  if requestFamily req = afInet ∨ requestFamily req = afInet6 then requestFamily req else afUnspec

def foundAddrs (h : Host) (req : Bytes) : List AddrInfo :=
  if addrs h (wantedFamily req) ≠ [] then addrs h (wantedFamily req)
  else loopbackAddrs (requestFamily req)

def planAddrs (h : Host) (req : Bytes) (seq pid : Nat) : List Planned :=
  (foundAddrs h req).map fun a => ⟨addrMessage seq pid (multi req) a, 256⟩

/-- What a request is answered with, before the end, when `found` are the links it is about. -/
def plan (h : Host) (req : Bytes) (found : List LinkInfo) (seq pid : Nat) : List Planned :=
  let type := readLe 2 4 req
  if type = rtmGetlink then planLinks found req seq pid
  else if type = rtmGetaddr then planAddrs h req seq pid
  else if type = rtmGetroute ∧ isDump req then relayPlan seq pid (hostRecords h req)
  else []

/-- As many messages of a plan as there is room for: all of them, or the next one may not fit behind
the `off` bytes that are used. -/
def Shown (max : Nat) (plan : List Planned) (off : Nat) (shown : List Message) : Prop :=
  ∃ k, shown = (plan.take k).map Planned.message ∧ ∀ p, plan[k]? = some p → max < off + p.room

theorem Shown.nil (max off : Nat) : Shown max [] off [] := ⟨0, rfl, nofun⟩

variable {max pid seq : Nat}

theorem Shown.all (plan : List Planned) (off : Nat) :
    Shown max plan off (plan.map Planned.message) := by
  refine ⟨plan.length, by rw [List.take_length], ?_⟩
  intro p hp
  rw [List.getElem?_eq_none (Nat.le_refl _)] at hp
  cases hp

theorem Shown.cons {max off : Nat} {plan : List Planned} {shown : List Message} (p : Planned)
    (h : Shown max plan off shown) : Shown max (p :: plan) off (p.message :: shown) := by
  obtain ⟨k, hshown, hcut⟩ := h
  exact ⟨k + 1, by rw [hshown]; rfl, hcut⟩

theorem Shown.full {off : Nat} {p : Planned} (plan : List Planned) (h : max < off + p.room) :
    Shown max (p :: plan) off [] := by
  refine ⟨0, rfl, ?_⟩
  intro q hq
  cases hq
  exact h

variable {ms shown : List Message} {o' : Out}

theorem Shown.mem {off : Nat} {plan : List Planned} {m : Message}
    (h : Shown max plan off shown) (hm : m ∈ shown) : ∃ p ∈ plan, p.message = m := by
  obtain ⟨k, rfl, _⟩ := h
  obtain ⟨p, hp, rfl⟩ := List.mem_map.mp hm
  exact ⟨p, List.mem_of_mem_take hp, rfl⟩

theorem Shown.mono {off off' : Nat} {plan : List Planned}
    (h : Shown max plan off shown) (hle : off ≤ off') : Shown max plan off' shown := by
  obtain ⟨k, hshown, hcut⟩ := h
  refine ⟨k, hshown, ?_⟩
  intro p hp
  have := hcut p hp
  omega

/-! ## Messages in the buffer -/

/-- From one state of the buffer to another, some messages are appended. -/
def Out.Gains (o o' : Out) (ms : List Message) : Prop :=
  ∃ rs, (∀ r ∈ rs, nlmsg.Valid r) ∧ rs.map Message.of = ms ∧ o.Adds o' (nlmsg.encodeAll rs)

theorem Out.Gains.refl {o : Out} (h : o.off ≤ o.buf.length) : o.Gains o [] :=
  ⟨[], nofun, rfl, Appends.refl h⟩

theorem Out.Gains.trans {o o' o'' : Out} {ms ms' : List Message} (h : o.Gains o' ms)
    (h' : o'.Gains o'' ms') : o.Gains o'' (ms ++ ms') := by
  obtain ⟨rs, hvalid, rfl, hadds⟩ := h
  obtain ⟨rs', hvalid', rfl, hadds'⟩ := h'
  refine ⟨rs ++ rs', ?_, List.map_append, ?_⟩
  · intro r hr
    exact (List.mem_append.mp hr).elim (hvalid r) (hvalid' r)
  · rw [RecordFormat.encodeAll_append]
    exact hadds.trans hadds'

theorem Out.Gains.record {o : Out} {r : Record} (hvalid : nlmsg.Valid r)
    (hadds : o.Adds o' (nlmsg.encode r)) : o.Gains o' [Message.of r] := by
  refine ⟨[r], ?_, rfl, ?_⟩
  · intro r' hr'
    rwa [List.mem_singleton.mp hr']
  · rwa [RecordFormat.encodeAll_cons, RecordFormat.encodeAll_nil, List.append_nil]

theorem Out.Gains.message {o o' : Out} {m : Message} (hvalid : m.Valid)
    (hadds : o.Adds o' (nlmsg.encode m.record)) : o.Gains o' [m] := by
  have h := Out.Gains.record (Message.record_valid hvalid) hadds
  rwa [Message.of_record hvalid] at h

theorem Out.Gains.size {o : Out} (h : o.Gains o' ms) :
    o'.buf.length = o.buf.length := by
  obtain ⟨rs, _, _, hadds⟩ := h
  exact Appends.size hadds

theorem Out.Gains.le {o : Out} (h : o.Gains o' ms) : o.off ≤ o'.off := by
  obtain ⟨rs, _, _, hadds⟩ := h
  have hoffset : o'.off = _ := Appends.offset hadds
  omega

theorem Out.Gains.off_of_nil {o : Out} (h : o.Gains o' []) : o'.off = o.off := by
  obtain ⟨rs, _, hrs, hadds⟩ := h
  obtain rfl := List.map_eq_nil_iff.mp hrs
  exact Appends.offset hadds

theorem Out.Gains.lt {o : Out} (h : o.Gains o' ms) (hne : ms ≠ []) :
    o.off < o'.off := by
  obtain ⟨rs, hvalid, rfl, hadds⟩ := h
  have hoffset : o'.off = o.off + (nlmsg.encodeAll rs).length := Appends.offset hadds
  cases rs with
  | nil => exact absurd rfl hne
  | cons r rs =>
      have hpos := RecordFormat.encode_ne_nil (hvalid r (List.mem_cons_self ..))
      have hlen := List.length_pos_iff.mpr hpos
      rw [RecordFormat.encodeAll_cons, List.length_append] at hoffset
      omega

theorem Out.Gains.decode {o : Out} (h : o.Gains o' ms) (hoff : o.off = 0) :
    Netlink.decode (o'.buf.take o'.off) = ms ∧
      ∃ rs, (∀ r ∈ rs, nlmsg.Valid r) ∧ o'.buf.take o'.off = nlmsg.encodeAll rs := by
  obtain ⟨rs, hvalid, rfl, hadds⟩ := h
  have htake : o'.buf.take o'.off = nlmsg.encodeAll rs := by
    rw [Appends.take hadds, hoff, List.take_zero, List.nil_append]
  refine ⟨?_, rs, hvalid, htake⟩
  rw [Netlink.decode, htake, RecordFormat.walk_encodeAll hvalid]

/-- One message is appended, which leaves room for an end where there were 256 bytes. -/
structure Out.Builds (o o' : Out) (m : Message) : Prop where
  gains : o.Gains o' [m]
  size : o'.off ≤ o.off + 192

theorem Out.Builds.of_small {o o' : Out} {m : Message} {n : Nat} (hvalid : m.Valid)
    (hattrs : ∀ a ∈ m.attrs, a.type < 2 ^ 16 ∧ a.data.length ≤ 16) (hcount : m.attrs.length ≤ n)
    (hn : m.fixed.length + 20 * n ≤ 136) (hadds : o.Adds o' (nlmsg.encode m.record)) :
    o.Builds o' m := by
  refine ⟨.message hvalid hadds, ?_⟩
  have hoffset : o'.off = o.off + (nlmsg.encode m.record).length := Appends.offset hadds
  have hsmall := encodeAll_small hattrs
  have hpayload : m.record.payload.length ≤ 136 := by
    show (m.fixed ++ _).length ≤ 136
    rw [List.length_append]
    omega
  have halign : align4 (16 + m.record.payload.length) < 16 + m.record.payload.length + 4 :=
    align4_lt _
  rw [hoffset, RecordFormat.encode_length (Message.record_valid hvalid)]
  show o.off + align4 (16 + m.record.payload.length) ≤ _
  omega

/-! ## Entries of a list -/

section Loop

variable {α : Type} {max : Nat} {build : Out → α → Out} {message : α → Message}

/-- The loop of a dump: the entries are built one after the other, while there are 256 bytes. -/
def fill (max : Nat) (build : Out → α → Out) : List α → Out → (built : Nat) → Out × Nat
  | [], o, built => (o, built)
  | a :: rest, o, built =>
    if o.off + 256 > max then (o, built) else fill max build rest (build o a) (built + 1)

/-- Where there is room, the builder appends the message of an entry. -/
def Builder (max : Nat) (build : Out → α → Out) (message : α → Message) (entries : List α) : Prop :=
  ∀ a ∈ entries, ∀ o : Out, max ≤ o.buf.length → o.off + 256 ≤ max →
    o.Builds (build o a) (message a)

/-- A stage of the reply: as much of a plan as there is room for is appended, and room is left for
an end. -/
structure Out.Shows (max : Nat) (plan : List Planned) (o o' : Out) (shown : List Message) : Prop where
  planned : Shown max plan o'.off shown
  gains : o.Gains o' shown
  room : o'.off + 64 ≤ max

theorem fill_shows {entries : List α} (hbuild : Builder max build message entries) {o : Out}
    (hmax : max ≤ o.buf.length) (hroom : o.off + 64 ≤ max) (built : Nat) :
    ∃ shown, Out.Shows max (entries.map fun a => ⟨message a, 256⟩) o
      (fill max build entries o built).1 shown ∧
      (fill max build entries o built).2 = built + shown.length := by
  induction entries generalizing o built with
  | nil => exact ⟨[], ⟨.nil _ _, .refl (by omega), hroom⟩, rfl⟩
  | cons a rest ih =>
      unfold fill
      split
      next hfull => exact ⟨[], ⟨.full _ hfull, .refl (by omega), hroom⟩, rfl⟩
      next hfits =>
        obtain ⟨hone, hrest⟩ := List.forall_mem_cons.mp hbuild
        have hbuilt := hone o hmax (by omega)
        have hsize := hbuilt.size
        obtain ⟨shown, hshows, hcount⟩ := @ih hrest (build o a) (by rw [hbuilt.gains.size]; exact hmax)
          (by omega) (built + 1)
        refine ⟨message a :: shown, ⟨hshows.planned.cons _, hbuilt.gains.trans hshows.gains,
          hshows.room⟩, ?_⟩
        rw [hcount, List.length_cons]
        omega

theorem le_fill (entries : List α) (o : Out) (built : Nat) :
    built ≤ (fill max build entries o built).2 := by
  induction entries generalizing o built with
  | nil => exact Nat.le_refl built
  | cons a rest ih =>
      unfold fill
      split
      · exact Nat.le_refl built
      · exact Nat.le_trans (Nat.le_succ built) (ih _ _)

theorem fill_append (before after : List α) (o : Out) (built : Nat) :
    fill max build (before ++ after) o built =
      if max < (fill max build before o built).1.off + 256 then fill max build before o built
      else fill max build after (fill max build before o built).1
        (fill max build before o built).2 := by
  induction before generalizing o built with
  | nil =>
      show fill max build after o built = if max < o.off + 256 then (o, built) else _
      by_cases hfull : max < o.off + 256
      · rw [if_pos hfull]
        cases after with
        | nil => rfl
        | cons a rest => exact if_pos hfull
      · rw [if_neg hfull]
        rfl
  | cons a rest ih =>
      simp only [List.cons_append, fill]
      by_cases hfull : o.off + 256 > max
      · simp only [if_pos hfull]
      · simp only [if_neg hfull, ih]

/-- How much each entry takes of the buffer. -/
def Sized (max : Nat) (build : Out → α → Out) (size : α → Nat) (entries : List α) : Prop :=
  ∀ a ∈ entries, ∀ o : Out, max ≤ o.buf.length → o.off + 256 ≤ max →
    (build o a).off = o.off + size a ∧ (build o a).buf.length = o.buf.length

/-- Behind some entries the buffer is full exactly when they don't leave 256 bytes. -/
theorem fill_full_iff {size : α → Nat} {entries : List α} (hsize : Sized max build size entries)
    {o : Out} (hmax : max ≤ o.buf.length) (built : Nat) :
    max < (fill max build entries o built).1.off + 256 ↔
      max < o.off + (entries.map size).sum + 256 := by
  induction entries generalizing o built with
  | nil => rfl
  | cons a rest ih =>
      obtain ⟨hone, hrest⟩ := List.forall_mem_cons.mp hsize
      rw [List.map_cons, List.sum_cons]
      unfold fill
      split
      next hfull => exact iff_of_true hfull (by omega)
      next hfits =>
        obtain ⟨hoff, hlen⟩ := hone o hmax (by omega)
        rw [ih hrest (by rw [hlen]; exact hmax), hoff, Nat.add_assoc o.off]

/-- An entry is built where the ones before it leave 256 bytes. -/
theorem length_lt_fill {size : α → Nat} {before : List α} (hsize : Sized max build size before)
    {o : Out} (hmax : max ≤ o.buf.length) (hroom : o.off + (before.map size).sum + 256 ≤ max)
    (a : α) (after : List α) (built : Nat) :
    built + before.length < (fill max build (before ++ a :: after) o built).2 := by
  induction before generalizing o built with
  | nil =>
      rw [List.nil_append, fill, if_neg (by simpa using hroom)]
      exact le_fill after _ _
  | cons b rest ih =>
      obtain ⟨hone, hrest⟩ := List.forall_mem_cons.mp hsize
      rw [List.map_cons, List.sum_cons] at hroom
      obtain ⟨hoff, hlen⟩ := hone o hmax (by omega)
      rw [List.cons_append, fill, if_neg (by omega), List.length_cons]
      have hlater := ih hrest (by rw [hlen]; exact hmax) (by rw [hoff]; omega) (built + 1)
      omega

theorem Out.Shows.ne_nil {p : Planned} {plan : List Planned} {o : Out}
    (h : Out.Shows max (p :: plan) o o' shown) (hroom : o.off + p.room ≤ max) : shown ≠ [] := by
  intro hnil
  obtain ⟨k, hshown, hcut⟩ := h.planned
  rw [hnil] at hshown
  have hgains := h.gains
  rw [hnil] at hgains
  have hoff := hgains.off_of_nil
  cases k with
  | zero =>
      have := hcut p rfl
      omega
  | succ k => cases hshown

end Loop

/-! ## Links -/

theorem hwaddrOf_length (bs : Bytes) : (hwaddrOf bs).length = 8 := by
  simp [hwaddrOf]

theorem linkInfo_short (h : Host) (i : Ifaddrs) (name : IfName) : (linkInfo h i name).Short := by
  have hname := name.short
  unfold linkInfo
  refine ⟨?_, ?_, ?_⟩
  all_goals
    dsimp only
    repeat' split
    all_goals simp_all [hwaddrOf_length]

theorem linkEntries_short (h : Host) (is : List Ifaddrs) (seen : List IfName) :
    ∀ l ∈ linkEntries h is seen, l.Short := by
  induction is generalizing seen with
  | nil => nofun
  | cons i rest ih =>
      unfold linkEntries
      split
      next => exact ih seen
      next name hname =>
        split
        next => exact ih seen
        next => exact List.forall_mem_cons.mpr ⟨linkInfo_short h i name, ih (remember seen name)⟩

theorem loopbackLink_short : loopbackLink.Short :=
  ⟨by simp [loopbackLink, lo, ifnamsiz], by simp [loopbackLink], by simp [loopbackLink]⟩

theorem nlBuildLink_builder {max seq pid flags : Nat} {entries : List LinkInfo}
    (hshort : ∀ l ∈ entries, l.Short) (hseq : seq < 2 ^ 32) (hpid : pid < 2 ^ 32)
    (hflags : flags < 2 ^ 16) :
    Builder max (fun o l => nlBuildLink o max seq pid flags l) (linkMessage seq pid flags) entries := by
  intro l hl o hmax hfits
  refine @Out.Builds.of_small _ _ _ 6 (linkMessage_valid (hshort l hl) hseq hpid hflags)
    (linkAttrs_small (hshort l hl)) ?_ ?_ (nlBuildLink_adds (hshort l hl) hseq hpid hflags hmax hfits)
  · show (linkAttrs l).length ≤ 6
    unfold linkAttrs
    split <;> simp
  · show (ifinfomsg l).length + _ ≤ _
    rw [ifinfomsg_length]

theorem buildLinks_dump (h : Host) (max seq pid : Nat) (is : List Ifaddrs) (seen : List IfName) (o : Out)
    (built : Nat) :
    buildLinks h max seq pid none is seen o built =
      fill max (fun o l => nlBuildLink o max seq pid nlmFMulti l) (linkEntries h is seen) o built := by
  induction is generalizing seen o built with
  | nil => rfl
  | cons i rest ih =>
      cases hname : i.name with
      | none => simp only [buildLinks, linkEntries, hname, ih]
      | some name =>
          by_cases hseen : name ∈ seen
          · simp only [buildLinks, linkEntries, hname, if_pos hseen, ih]
          · simp only [buildLinks, linkEntries, hname, if_neg hseen, ih, fill]

theorem buildLinks_single (h : Host) (max seq pid : Nat) (target : LinkTarget) (is : List Ifaddrs)
    (seen : List IfName) (o : Out) (built : Nat) :
    buildLinks h max seq pid (some target) is seen o built =
      fill max (fun o l => nlBuildLink o max seq pid 0 l)
        ((linkEntries h is seen).find? target.wants).toList o built := by
  induction is generalizing seen with
  | nil => rfl
  | cons i rest ih =>
      cases hname : i.name with
      | none => simp only [buildLinks, linkEntries, hname, ih]
      | some name =>
          by_cases hseen : name ∈ seen
          · simp only [buildLinks, linkEntries, hname, if_pos hseen, ih]
          · simp only [buildLinks, linkEntries, hname, if_neg hseen, List.find?_cons]
            cases target.wants (linkInfo h i name) with
            | true => simp [fill]
            | false => simp [ih]

theorem foundLinks_short (h : Host) (req : Bytes) : ∀ l ∈ foundLinks h req, l.Short := by
  intro l hl
  have hshort := linkEntries_short h (h.getifaddrs.getD []) []
  unfold foundLinks at hl
  split at hl
  · exact hshort l hl
  · rw [Option.mem_toList] at hl
    exact hshort l (List.mem_of_find?_eq_some hl)

theorem buildHostLinks_eq (h : Host) (req buf : Bytes) (max seq pid : Nat) :
    buildHostLinks h buf max seq pid (if isDump req then none else some (nlRequestLinkTarget req)) =
      fill max (fun o l => nlBuildLink o max seq pid (multi req) l) (foundLinks h req) ⟨buf, 0⟩ 0 := by
  unfold buildHostLinks foundLinks links multi
  cases isDump req with
  | true =>
      cases h.getifaddrs with
      | none => rfl
      | some is => exact buildLinks_dump h max seq pid is [] _ _
  | false =>
      cases h.getifaddrs with
      | none => rfl
      | some is => exact buildLinks_single h max seq pid _ is [] _ _

theorem linkInfo_name (h : Host) (i : Ifaddrs) (name : IfName) : (linkInfo h i name).name = name.chars := by
  unfold linkInfo
  dsimp only
  repeat' split
  all_goals rfl

/-! ## The end -/

/-- A reply holds as much of a plan as there is room for, and then its end. -/
structure Out.Ends (max : Nat) (plan : List Planned) (o o' : Out) (shown last : List Message) :
    Prop where
  planned : Shown max plan o'.off shown
  gains : o.Gains o' (shown ++ last)
  inside : o'.off ≤ max

def dumpEnd (req : Bytes) (seq pid : Nat) : List Message :=
  if isDump req then [doneMessage seq pid] else []

theorem doneMessage_size (hseq : seq < 2 ^ 32) (hpid : pid < 2 ^ 32) :
    (nlmsg.encode (doneMessage seq pid).record).length = 20 := by
  rw [RecordFormat.encode_length (Message.record_valid (doneMessage_valid hseq hpid))]
  simp [RecordFormat.lengthOf, Message.record, doneMessage, nlmsg, align4]

theorem errorMessage_size (hseq : seq < 2 ^ 32) (hpid : pid < 2 ^ 32) (error : Nat) :
    (nlmsg.encode (errorMessage seq pid error).record).length = 36 := by
  rw [RecordFormat.encode_length (Message.record_valid (errorMessage_valid hseq hpid error))]
  simp [RecordFormat.lengthOf, Message.record, errorMessage, nlmsgerr, nlmsg, align4]

theorem nlBuildError_gains {o : Out} {max seq pid : Nat} (hmax : max ≤ o.buf.length)
    (hfits : o.off + 36 ≤ max) (hseq : seq < 2 ^ 32) (hpid : pid < 2 ^ 32) (error : Nat) :
    o.Gains (nlBuildError o max seq pid error) [errorMessage seq pid error] ∧
      (nlBuildError o max seq pid error).off = o.off + 36 := by
  have hadds := @nlBuildError_adds o max seq pid error hmax hfits
  refine ⟨.message (errorMessage_valid hseq hpid error) hadds, ?_⟩
  rw [← errorMessage_size hseq hpid error]
  exact Appends.offset hadds

theorem nlBuildDone_gains {o : Out} {max seq pid : Nat} (hmax : max ≤ o.buf.length)
    (hfits : o.off + 20 ≤ max) (hseq : seq < 2 ^ 32) (hpid : pid < 2 ^ 32) :
    o.Gains (nlBuildDone o max seq pid) [doneMessage seq pid] ∧
      (nlBuildDone o max seq pid).off = o.off + 20 := by
  have hadds := @nlBuildDone_adds o max seq pid hmax hfits
  refine ⟨.message (doneMessage_valid hseq hpid) hadds, ?_⟩
  rw [← doneMessage_size hseq hpid]
  exact Appends.offset hadds

theorem Out.Shows.endDump {plan : List Planned} {o : Out}
    (h : Out.Shows max plan o o' shown) (hmax : max ≤ o.buf.length) (hseq : seq < 2 ^ 32)
    (hpid : pid < 2 ^ 32) (req : Bytes) :
    Out.Ends max plan o (endDump (isDump req) o' max seq pid) shown (dumpEnd req seq pid) := by
  have hroom := h.room
  unfold Netlink.endDump dumpEnd
  cases isDump req with
  | false => exact ⟨h.planned, by simpa using h.gains, by simpa using (by omega : o'.off ≤ max)⟩
  | true =>
      obtain ⟨hdone, hoffset⟩ := @nlBuildDone_gains o' max seq pid (by rw [h.gains.size]; exact hmax)
        (by omega) hseq hpid
      simp only [if_true]
      exact ⟨h.planned.mono hdone.le, h.gains.trans hdone, by omega⟩

/-! ## The branches -/

section Branches

variable {seq pid : Nat} {buf : Bytes} (h : Host) (req : Bytes)

theorem start_room (hmax : 256 ≤ max) (buf : Bytes) : (⟨buf, 0⟩ : Out).off + 64 ≤ max := by
  show 0 + 64 ≤ max
  omega

theorem Out.Builds.shows {o : Out} {m : Message} (h : o.Builds o' m)
    (hroom : o.off + 256 ≤ max) : Out.Shows max [⟨m, 256⟩] o o' [m] := by
  have hsize := h.size
  exact ⟨.all [⟨m, 256⟩] _, h.gains, by omega⟩

theorem multi_lt : multi req < 2 ^ 16 := by
  unfold multi
  split <;> decide

/-- What `replyLinks` ends, if it is a dump. -/
def linksBuilt (found : List LinkInfo) (buf : Bytes) (max seq pid : Nat) : Out :=
  if found = [] then
    if isDump req ∨ nlRequestIsLoopback req then
      nlBuildLink ⟨buf, 0⟩ max seq pid (multi req) loopbackLink
    else nlBuildError ⟨buf, 0⟩ max seq pid enodev
  else
    (fill max (fun o l => nlBuildLink o max seq pid (multi req) l) found ⟨buf, 0⟩ 0).1

theorem fill_ne_zero {α : Type} {max : Nat} {build : Out → α → Out} {a : α} {rest : List α} {o : Out}
    (hroom : o.off + 256 ≤ max) : (fill max build (a :: rest) o 0).2 ≠ 0 := by
  have hone := @le_fill _ max build rest (build o a) (0 + 1)
  rw [fill, if_neg (by omega)]
  omega

theorem replyLinks_eq (hroom : 256 ≤ max) :
    replyLinks h req buf max seq pid (isDump req) =
      endDump (isDump req) (linksBuilt req (foundLinks h req) buf max seq pid) max seq pid := by
  unfold replyLinks linksBuilt
  rw [buildHostLinks_eq]
  cases hfound : foundLinks h req with
  | nil =>
      simp only [fill, if_true]
      cases hdump : isDump req with
      | true | false => simp [multi, hdump]
  | cons l ls =>
      have hne := @fill_ne_zero _ max (fun o l => nlBuildLink o max seq pid (multi req) l) l ls ⟨buf, 0⟩
        (by omega)
      simp only [hne, if_false, reduceCtorEq]

/-- The reply to a request for interfaces shows its plan. -/
theorem linksBuilt_shows {found : List LinkInfo} (hshort : ∀ l ∈ found, l.Short)
    (hmax : max ≤ buf.length) (hroom : 256 ≤ max) (hseq : seq < 2 ^ 32) (hpid : pid < 2 ^ 32) :
    ∃ shown, shown ≠ [] ∧ Out.Shows max (planLinks found req seq pid) ⟨buf, 0⟩
      (linksBuilt req found buf max seq pid) shown := by
  have hflags := multi_lt req
  have hstart : (⟨buf, 0⟩ : Out).off + 256 ≤ max := by
    show 0 + 256 ≤ max
    omega
  unfold linksBuilt planLinks
  by_cases hfound : found = []
  · rw [if_pos hfound, if_neg (not_not.mpr hfound)]
    by_cases hloopback : isDump req = true ∨ nlRequestIsLoopback req = true
    · rw [if_pos hloopback, if_pos hloopback]
      have hbuild := @nlBuildLink_builder max seq pid _ [loopbackLink]
        (by simpa using loopbackLink_short) hseq hpid hflags
      exact ⟨_, List.cons_ne_nil _ _,
        (hbuild loopbackLink (List.mem_singleton.mpr rfl) ⟨buf, 0⟩ hmax hstart).shows hstart⟩
    · rw [if_neg hloopback, if_neg hloopback]
      obtain ⟨hgains, hoffset⟩ := @nlBuildError_gains ⟨buf, 0⟩ max seq pid hmax (by omega) hseq hpid
        enodev
      exact ⟨_, List.cons_ne_nil _ _, .all [⟨errorMessage seq pid enodev, 256⟩] _, hgains, by omega⟩
  · rw [if_neg hfound, if_pos hfound]
    have hbuild := @nlBuildLink_builder max seq pid _ _ hshort hseq hpid hflags
    obtain ⟨shown, hshows, -⟩ := fill_shows hbuild hmax (start_room hroom buf) 0
    obtain ⟨l, ls, hcons⟩ := List.exists_cons_of_ne_nil hfound
    refine ⟨shown, ?_, hshows⟩
    rw [hcons, List.map_cons] at hshows
    exact hshows.ne_nil hstart

/-! ### Addresses -/

theorem addrInfo_short {wantFamily : Nat} {i : Ifaddrs} {a : AddrInfo}
    (ha : addrInfo h wantFamily i = some a) : a.Short := by
  unfold addrInfo at ha
  split at ha
  next name family addr bits hname haddr =>
    split at ha
    · cases ha
    · injection ha with ha
      subst ha
      refine ⟨?_, ?_⟩
      · obtain ⟨sa, -, hsa⟩ := Option.bind_eq_some_iff.mp haddr
        cases sa with
        | inet x =>
            have hsize := x.size
            cases hsa
            show x.bytes.length ≤ 16
            omega
        | inet6 x =>
            have hsize := x.size
            cases hsa
            show x.bytes.length ≤ 16
            omega
        | packet | other => cases hsa
      · intro label hlabel
        cases hlabel
        exact name.short
  next => cases ha

theorem addrs_short (wantFamily : Nat) : ∀ a ∈ addrs h wantFamily, a.Short := by
  intro a ha
  obtain ⟨i, -, hi⟩ := List.mem_filterMap.mp ha
  exact addrInfo_short h hi

theorem loopbackAddr_short (family : Nat) : (loopbackAddr family).Short := by
  unfold loopbackAddr
  split
  · exact ⟨by simp, nofun⟩
  · refine ⟨by simp, ?_⟩
    intro label hlabel
    cases hlabel
    decide

theorem nlBuildAddr_builder {max flags : Nat} {entries : List AddrInfo}
    (hshort : ∀ a ∈ entries, a.Short) (hseq : seq < 2 ^ 32) (hpid : pid < 2 ^ 32)
    (hflags : flags < 2 ^ 16) :
    Builder max (fun o a => nlBuildAddr o max seq pid flags a) (addrMessage seq pid flags) entries := by
  intro a ha o hmax hfits
  refine @Out.Builds.of_small _ _ _ 3 (addrMessage_valid (hshort a ha) hseq hpid hflags)
    (addrAttrs_small (hshort a ha)) (addrAttrs_length a) ?_
    (nlBuildAddr_adds (hshort a ha) hseq hpid hflags hmax hfits)
  show (ifaddrmsg a).length + _ ≤ _
  rw [ifaddrmsg_length]
  omega

theorem buildAddrs_eq (max wantFamily : Nat) (is : List Ifaddrs) (o : Out) (built : Nat) :
    buildAddrs h max seq pid wantFamily (isDump req) is o built =
      fill max (fun o a => nlBuildAddr o max seq pid (multi req) a)
        (is.filterMap (addrInfo h wantFamily)) o built := by
  induction is generalizing o built with
  | nil => rfl
  | cons i rest ih =>
      rw [List.filterMap_cons]
      cases ha : addrInfo h wantFamily i with
      | none => simp only [buildAddrs, ha, ih]
      | some a => simp only [buildAddrs, ha, ih, fill, multi]

theorem buildHostAddrs_eq (max wantFamily : Nat) :
    buildHostAddrs h buf max seq pid wantFamily (isDump req) =
      fill max (fun o a => nlBuildAddr o max seq pid (multi req) a) (addrs h wantFamily) ⟨buf, 0⟩ 0 := by
  unfold buildHostAddrs addrs
  cases h.getifaddrs with
  | none => rfl
  | some is => exact buildAddrs_eq h req max wantFamily is _ _

theorem loopbackAddrs_length (family : Nat) : (loopbackAddrs family).length ≤ 2 := by
  unfold loopbackAddrs
  split <;> split <;> simp

theorem foldl_loopbackAddrs {β : Type} (build : β → AddrInfo → β) (family : Nat) (o : β) :
    (loopbackAddrs family).foldl build o =
      (let o := if family = 0 ∨ family = afInet then build o (loopbackAddr afInet) else o
      if family = 0 ∨ family = afInet6 then build o (loopbackAddr afInet6) else o) := by
  unfold loopbackAddrs
  rw [List.foldl_append]
  split <;> split <;> rfl

theorem loopbackAddrs_short (family : Nat) : ∀ a ∈ loopbackAddrs family, a.Short := by
  intro a ha
  unfold loopbackAddrs at ha
  rcases List.mem_append.mp ha with ha | ha
  all_goals
    split at ha
    · rw [List.mem_singleton.mp ha]
      exact loopbackAddr_short _
    · cases ha

theorem foundAddrs_short : ∀ a ∈ foundAddrs h req, a.Short := by
  unfold foundAddrs
  split
  · exact addrs_short h _
  · exact loopbackAddrs_short _

theorem fill_eq_foldl {α : Type} {build : Out → α → Out} {message : α → Message}
    {entries : List α} (hbuild : Builder max build message entries) {o : Out} (hmax : max ≤ o.buf.length)
    (hroom : o.off + 192 * entries.length + 64 ≤ max) (built : Nat) :
    (fill max build entries o built).1 = entries.foldl build o := by
  induction entries generalizing o built with
  | nil => rfl
  | cons a rest ih =>
      rw [List.length_cons] at hroom
      obtain ⟨hone, hrest⟩ := List.forall_mem_cons.mp hbuild
      have hbuilt := hone o hmax (by omega)
      have hsize := hbuilt.size
      rw [fill, if_neg (by omega), List.foldl_cons]
      exact ih hrest (by rw [hbuilt.gains.size]; exact hmax) (by omega) _

/-- What `replyAddrs` ends, if it is a dump. -/
def addrsBuilt (buf : Bytes) (max seq pid : Nat) : Out :=
  (fill max (fun o a => nlBuildAddr o max seq pid (multi req) a) (foundAddrs h req) ⟨buf, 0⟩ 0).1

/-- The branch for addresses is a loop over them, and the end of the dump. -/
theorem replyAddrs_eq (hmax : max ≤ buf.length) (hroom : 448 ≤ max) (hseq : seq < 2 ^ 32)
    (hpid : pid < 2 ^ 32) :
    replyAddrs h req buf max seq pid (isDump req) =
      endDump (isDump req) (addrsBuilt h req buf max seq pid) max seq pid := by
  have hbuild := @nlBuildAddr_builder seq pid max (multi req) _ (foundAddrs_short h req) hseq hpid
    (multi_lt req)
  have hhost := @buildHostAddrs_eq seq pid buf h req max (wantedFamily req)
  have hreply : replyAddrs h req buf max seq pid (isDump req) = endDump (isDump req)
      (if (buildHostAddrs h buf max seq pid (wantedFamily req) (isDump req)).2 = 0 then
        (loopbackAddrs (requestFamily req)).foldl (fun o a => nlBuildAddr o max seq pid (multi req) a)
          ⟨(buildHostAddrs h buf max seq pid (wantedFamily req) (isDump req)).1.buf, 0⟩
      else (buildHostAddrs h buf max seq pid (wantedFamily req) (isDump req)).1) max seq pid := by
    simp only [foldl_loopbackAddrs]
    rfl
  rw [hreply, hhost]
  unfold addrsBuilt
  cases hfound : addrs h (wantedFamily req) with
  | nil =>
      have hloopback : foundAddrs h req = loopbackAddrs (requestFamily req) := by
        rw [foundAddrs, hfound, if_neg (not_not.mpr rfl)]
      rw [hloopback] at hbuild ⊢
      have hlen := loopbackAddrs_length (requestFamily req)
      rw [fill_eq_foldl hbuild hmax (by show 0 + _ + 64 ≤ max; omega), fill, if_pos rfl]
  | cons a as =>
      have hhosts : foundAddrs h req = a :: as := by
        rw [foundAddrs, hfound, if_pos (List.cons_ne_nil _ _)]
      rw [hhosts, if_neg (fill_ne_zero (by show 0 + 256 ≤ max; omega))]

theorem addrsBuilt_shows (hmax : max ≤ buf.length) (hroom : 256 ≤ max) (hseq : seq < 2 ^ 32)
    (hpid : pid < 2 ^ 32) :
    ∃ shown, (planAddrs h req seq pid ≠ [] → shown ≠ []) ∧
      Out.Shows max (planAddrs h req seq pid) ⟨buf, 0⟩ (addrsBuilt h req buf max seq pid) shown := by
  have hbuild := @nlBuildAddr_builder seq pid max (multi req) _ (foundAddrs_short h req) hseq hpid
    (multi_lt req)
  obtain ⟨shown, hshows, -⟩ := fill_shows hbuild hmax (start_room hroom buf) 0
  refine ⟨shown, ?_, hshows⟩
  intro hne
  unfold planAddrs at hne
  cases hfound : foundAddrs h req with
  | nil => exact absurd (by rw [hfound]; rfl) hne
  | cons a as =>
      rw [hfound, List.map_cons] at hshows
      exact hshows.ne_nil (by show 0 + 256 ≤ max; omega)

/-! ### Routes -/

theorem readdress_valid {r : Record} (hr : nlmsg.Valid r) (seq pid : Nat) :
    nlmsg.Valid (readdress seq pid r) := by
  have hrest : r.rest.length = 12 := hr.rest
  refine ⟨?_, hr.length⟩
  show (r.rest.take 4 ++ le 4 seq ++ le 4 pid).length = 12
  simp only [List.length_append, List.length_take, le_length, hrest]
  rfl

/-- **A relayed message** is the one of the kernel, but for its number and its port. -/
theorem of_readdress {r : Record} (hr : nlmsg.Valid r) (hseq : seq < 2 ^ 32) (hpid : pid < 2 ^ 32) :
    Message.of (readdress seq pid r) = relayed seq pid r := by
  have hrest : r.rest.length = 12 := hr.rest
  have hlen : (r.rest.take 4).length = 4 := by
    rw [List.length_take, hrest]
    rfl
  have htype : readLe 2 0 (readdress seq pid r).rest = readLe 2 0 r.rest := by
    unfold readLe readdress
    rw [List.drop_zero, List.drop_zero, List.append_assoc, List.take_append_of_le_length (by omega),
      List.take_take]
    rfl
  have hflags : readLe 2 2 (readdress seq pid r).rest = readLe 2 2 r.rest := by
    unfold readLe readdress
    rw [List.append_assoc, List.drop_append_of_le_length (by omega),
      List.take_append_of_le_length (by rw [List.length_drop]; omega), List.drop_take, List.take_take]
    rfl
  have hnum : readLe 4 4 (readdress seq pid r).rest = seq := by
    have h := @readLe_append (r.rest.take 4) (le 4 pid) 4 seq hseq
    rwa [hlen, ← List.append_assoc] at h
  have hport : readLe 4 8 (readdress seq pid r).rest = pid := by
    have h := @readLe_append (r.rest.take 4 ++ le 4 seq) [] 4 pid hpid
    rwa [List.length_append, hlen, le_length, List.append_nil] at h
  simp only [relayed, Message.of, htype, hflags, hnum, hport]
  rfl

theorem copy_adds {r : Record} (hr : nlmsg.Valid r) {o : Out}
    (hfits : o.off + align4 (nlmsg.lengthOf r) ≤ o.buf.length) :
    o.Adds ⟨patch (patch o.buf o.off (nlmsg.bare (readdress seq pid r))) (o.off + nlmsg.lengthOf r)
        (List.replicate (align4 (nlmsg.lengthOf r) - nlmsg.lengthOf r) 0),
      o.off + align4 (nlmsg.lengthOf r)⟩ (nlmsg.encode (readdress seq pid r)) := by
  have hvalid := readdress_valid hr seq pid
  have hlen : (nlmsg.bare (readdress seq pid r)).length = nlmsg.lengthOf r :=
    RecordFormat.bare_length hvalid
  have halign := le_align4 (nlmsg.lengthOf r)
  have hbare := @appends_patch o.buf (nlmsg.bare (readdress seq pid r)) o.off (by omega)
  have hall := hbare.copy (List.replicate (align4 (nlmsg.lengthOf r) - nlmsg.lengthOf r) 0)
    (by rw [List.length_replicate]; omega)
  rw [hlen, List.length_replicate, Nat.add_assoc, Nat.add_sub_cancel' halign] at hall
  exact hall

/-- What is relayed of the kernel's messages, up to its terminator. -/
theorem relayMessages_shows {max : Nat} {rs : List Record} (hrs : ∀ r ∈ rs, nlmsg.Valid r)
    (hseq : seq < 2 ^ 32) (hpid : pid < 2 ^ 32) {o : Out} (hmax : max ≤ o.buf.length)
    (hroom : o.off + 64 ≤ max) :
    ∃ shown,
      ((relayMessages max seq pid rs o).2 ≠ .sawDone ∧
        Out.Shows max (relayPlan seq pid rs) o (relayMessages max seq pid rs o).1 shown) ∨
      ((relayMessages max seq pid rs o).2 = .sawDone ∧ ∃ r ∈ rs, messageType r = nlmsgDone ∧
        Out.Ends max (relayPlan seq pid rs) o (relayMessages max seq pid rs o).1 shown
          [relayed seq pid r]) := by
  induction rs generalizing o with
  | nil => exact ⟨[], .inl ⟨nofun, .nil _ _, .refl (by omega), hroom⟩⟩
  | cons r rest ih =>
      obtain ⟨hr, hrest⟩ := List.forall_mem_cons.mp hrs
      by_cases hfull : o.off + align4 (nlmsg.lengthOf r) + 64 > max
      · -- there is no room for the message, which may be the end itself
        simp only [relayMessages, if_pos hfull]
        refine ⟨[], .inl ⟨nofun, ?_, .refl (by omega), hroom⟩⟩
        unfold relayPlan
        rw [List.takeWhile_cons]
        split
        · exact .full _ (by show max < o.off + (_ + 64); omega)
        · exact .nil _ _
      · have hadds := @copy_adds seq pid r hr o (by omega)
        have hgains := Out.Gains.record (readdress_valid hr seq pid) hadds
        rw [of_readdress hr hseq hpid] at hgains
        have htype : (Message.of r).type = messageType r := rfl
        by_cases hdone : messageType r = nlmsgDone
        · simp only [relayMessages, if_neg hfull, if_pos hdone]
          refine ⟨[], .inr ⟨trivial, r, List.mem_cons_self .., hdone, ?_, hgains, by dsimp only; omega⟩⟩
          unfold relayPlan
          rw [List.takeWhile_cons, if_neg (by simpa [htype] using hdone)]
          exact .nil _ _
        · have hplan : relayPlan seq pid (r :: rest) =
              ⟨relayed seq pid r, align4 (nlmsg.lengthOf r) + 64⟩ :: relayPlan seq pid rest := by
            unfold relayPlan
            rw [List.takeWhile_cons, if_pos (by simpa [htype] using hdone), List.map_cons]
          simp only [relayMessages, if_neg hfull, if_neg hdone, hplan]
          obtain ⟨shown, hshown⟩ := ih hrest (by rw [hgains.size]; exact hmax) (by dsimp only; omega)
          refine ⟨relayed seq pid r :: shown, hshown.imp ?_ ?_⟩
          · rintro ⟨hround, hshows⟩
            exact ⟨hround, hshows.planned.cons _, hgains.trans hshows.gains, hshows.room⟩
          · rintro ⟨hround, d, hd, htype, hends⟩
            exact ⟨hround, d, List.mem_cons_of_mem _ hd, htype, hends.planned.cons _,
              hgains.trans hends.gains, hends.inside⟩

theorem relayMessages_append (max : Nat) (rs rs' : List Record) (o : Out) :
    relayMessages max seq pid (rs ++ rs') o =
      match relayMessages max seq pid rs o with
      | (o, .goesOn) => relayMessages max seq pid rs' o
      | (o, round) => (o, round) := by
  induction rs generalizing o with
  | nil => rfl
  | cons r rest ih =>
      simp only [List.cons_append, relayMessages]
      split
      · rfl
      · split
        · rfl
        · exact ih _

theorem relayRounds_eq (max : Nat) (ds : List HostDatagram) (o : Out) :
    relayRounds max seq pid ds o =
      relayMessages max seq pid (ds.flatMap fun d => nlmsg.walk (d.bytes.take 8192)) o := by
  induction ds generalizing o with
  | nil => rfl
  | cons d rest ih =>
      rw [relayRounds, List.flatMap_cons, relayMessages_append]
      split <;> simp_all

theorem hostRecords_valid : ∀ r ∈ hostRecords h req, nlmsg.Valid r := by
  intro r hr
  obtain ⟨d, -, hd⟩ := List.mem_flatMap.mp hr
  exact RecordFormat.valid_of_mem_walk hd

/-- **Routes**: a dump of them ends with the terminator of the kernel, or with one of ours. -/
theorem replyRoutes_ends (hmax : max ≤ buf.length) (hroom : 256 ≤ max) (hseq : seq < 2 ^ 32)
    (hpid : pid < 2 ^ 32) :
    ∃ shown d, DumpEnd h req seq pid d ∧
      Out.Ends max (relayPlan seq pid (hostRecords h req)) ⟨buf, 0⟩
        (replyRoutes h req buf max seq pid true) shown [d] := by
  -- whether something is relayed or not, the terminator comes behind it
  have hdone : ∀ (o : Out) (shown : List Message),
      Out.Shows max (relayPlan seq pid (hostRecords h req)) ⟨buf, 0⟩ o shown →
      Out.Ends max (relayPlan seq pid (hostRecords h req)) ⟨buf, 0⟩ (nlBuildDone o max seq pid) shown
        [doneMessage seq pid] := by
    intro o shown hshows
    have hspace := hshows.room
    obtain ⟨hgains, hoffset⟩ := @nlBuildDone_gains o max seq pid
      (by rw [hshows.gains.size]; exact hmax) (by omega) hseq hpid
    exact ⟨hshows.planned.mono hgains.le, hshows.gains.trans hgains, by omega⟩
  have hours : DumpEnd h req seq pid (doneMessage seq pid) := ⟨rfl, .inl rfl⟩
  unfold replyRoutes relayRouteDump
  rw [if_pos rfl]
  have hasked : hostRecords h req = (((h.routes (req[nlmsgHdrlen]?.getD 0)).getD []).take 64).flatMap
      fun d => nlmsg.walk (d.bytes.take 8192) := rfl
  cases hroutes : h.routes (req[nlmsgHdrlen]?.getD 0) with
  | none =>
      have hrecords : hostRecords h req = [] := by
        rw [hasked, hroutes]
        rfl
      refine ⟨[], doneMessage seq pid, hours, ?_⟩
      rw [hrecords] at hdone ⊢
      exact hdone ⟨buf, 0⟩ [] ⟨.nil _ _, .refl (by show 0 ≤ buf.length; omega), start_room hroom buf⟩
  | some datagrams =>
      have hrelay : relayRounds max seq pid (datagrams.take 64) ⟨buf, 0⟩ =
          relayMessages max seq pid (hostRecords h req) ⟨buf, 0⟩ := by
        rw [relayRounds_eq, hasked, hroutes]
        rfl
      obtain ⟨shown, hshown⟩ := @relayMessages_shows seq pid max _ (hostRecords_valid h req) hseq
        hpid ⟨buf, 0⟩ hmax (start_room hroom buf)
      simp only [hrelay]
      rcases hshown with ⟨hround, hshows⟩ | ⟨hround, r, hr, htype, hends⟩
      · refine ⟨shown, doneMessage seq pid, hours, ?_⟩
        have hends := hdone _ _ hshows
        by_cases hzero : (relayMessages max seq pid (hostRecords h req) ⟨buf, 0⟩).1.off = 0
        · rw [if_pos hzero, if_pos hzero]
          exact hends
        · have hlater : (nlBuildDone (relayMessages max seq pid (hostRecords h req) ⟨buf, 0⟩).1 max seq
              pid).off ≠ 0 := by
            have hlt := hends.gains.lt (by simp)
            exact Nat.pos_iff_ne_zero.mp hlt
          rw [if_neg hzero, if_pos hround, if_neg hlater]
          exact hends
      · have hzero : (relayMessages max seq pid (hostRecords h req) ⟨buf, 0⟩).1.off ≠ 0 :=
          Nat.pos_iff_ne_zero.mp (hends.gains.lt (by simp))
        refine ⟨shown, relayed seq pid r, ⟨htype, .inr ⟨r, hr, rfl⟩⟩, ?_⟩
        rw [if_neg hzero, if_neg (not_not.mpr hround), if_neg hzero]
        exact hends

end Branches

/-! ## The reply -/

abbrev ReplyBuffer := { buf : Bytes // buf.length = maxFakeNetlinkReply }

/-- What follows the plan of a single request: an acknowledgment or an error where nothing is meant.
-/
def singleEnd (plan : List Planned) (req : Bytes) (seq pid : Nat) : List Message :=
  if plan ≠ [] then []
  else [errorMessage seq pid (if readLe 2 4 req = rtmGetaddr then einval else 0)]

def Out.reply (o : Out) : Bytes := o.buf.take o.off

/-- **A well-formed reply** to what was sent, for what is meant to be told. -/
structure WellFormed (h : Host) (pid : Nat) (sent : Option Bytes) (plan : Bytes → List Planned)
    (o : Out) : Prop where
  /-- nothing is written outside of the buffer -/
  size : o.buf.length = maxFakeNetlinkReply
  inside : 0 < o.off ∧ o.off ≤ maxFakeNetlinkReply
  /-- it is made of messages of the lengths that they tell, each padded to four bytes -/
  encoded : ∃ rs, (∀ r ∈ rs, nlmsg.Valid r) ∧ o.reply = nlmsg.encodeAll rs
  addressed : ∀ m ∈ decode o.reply, m.seq = requestSeq sent ∧ m.pid = pid
  unread : readRequest sent = none → decode o.reply = [errorMessage (requestSeq sent) pid einval]
  single : ∀ req, readRequest sent = some req → isDump req = false → ∃ shown,
    Shown maxFakeNetlinkReply (plan req) o.off shown ∧
      decode o.reply = shown ++ singleEnd (plan req) req (requestSeq sent) pid
  dump : ∀ req, readRequest sent = some req → isDump req = true → ∃ shown d,
    Shown maxFakeNetlinkReply (plan req) o.off shown ∧
      decode o.reply = shown ++ [d] ∧ DumpEnd h req (requestSeq sent) pid d ∧
      ∀ m ∈ shown, m.type ≠ nlmsgDone

theorem planLinks_addressed {found : List LinkInfo} {req : Bytes} :
    ∀ p ∈ planLinks found req seq pid,
      p.message.seq = seq ∧ p.message.pid = pid ∧ p.message.type ≠ nlmsgDone := by
  intro p hp
  unfold planLinks at hp
  split at hp
  · obtain ⟨l, -, rfl⟩ := List.mem_map.mp hp
    exact ⟨rfl, rfl, by simp [linkMessage, rtmNewlink, nlmsgDone]⟩
  split at hp
  · rw [List.mem_singleton.mp hp]
    exact ⟨rfl, rfl, by simp [linkMessage, rtmNewlink, nlmsgDone]⟩
  · rw [List.mem_singleton.mp hp]
    exact ⟨rfl, rfl, by simp [errorMessage, nlmsgError, nlmsgDone]⟩

theorem plan_addressed {h : Host} {req : Bytes} {found : List LinkInfo} {seq pid : Nat} :
    ∀ p ∈ plan h req found seq pid,
      p.message.seq = seq ∧ p.message.pid = pid ∧ p.message.type ≠ nlmsgDone := by
  intro p hp
  unfold plan at hp
  dsimp only at hp
  split at hp
  · exact planLinks_addressed p hp
  split at hp
  · obtain ⟨a, -, rfl⟩ := List.mem_map.mp hp
    exact ⟨rfl, rfl, by simp [addrMessage, rtmNewaddr, nlmsgDone]⟩
  split at hp
  · obtain ⟨r, hr, rfl⟩ := List.mem_map.mp hp
    have htype := List.mem_takeWhile_imp hr
    exact ⟨rfl, rfl, of_decide_eq_true htype⟩
  · cases hp

theorem DumpEnd.addressed {h : Host} {req : Bytes} {d : Message}
    (hd : DumpEnd h req seq pid d) : d.seq = seq ∧ d.pid = pid := by
  rcases hd.origin with rfl | ⟨r, -, rfl⟩
  · exact ⟨rfl, rfl⟩
  · exact ⟨rfl, rfl⟩

section Requests

variable {h : Host} {req buf : Bytes} {max seq pid : Nat} {found : List LinkInfo}

/-- **A dump** shows what is planned, as far as there is room, and one terminator. -/
theorem replyTo_dump (hshort : ∀ l ∈ found, l.Short) (hdump : isDump req = true)
    (hmax : max ≤ buf.length) (hroom : 448 ≤ max) (hseq : seq < 2 ^ 32) (hpid : pid < 2 ^ 32)
    (hlinks : readLe 2 4 req = rtmGetlink →
      linksBuilt req (foundLinks h req) buf max seq pid = linksBuilt req found buf max seq pid) :
    ∃ shown d, DumpEnd h req seq pid d ∧
      Out.Ends max (plan h req found seq pid) ⟨buf, 0⟩ (replyTo h req buf max seq pid) shown [d] := by
  have hend : dumpEnd req seq pid = [doneMessage seq pid] := by rw [dumpEnd, if_pos hdump]
  have hours : DumpEnd h req seq pid (doneMessage seq pid) := ⟨rfl, .inl rfl⟩
  unfold replyTo plan
  dsimp only
  split
  next hlink =>
    rw [replyLinks_eq h req (by omega), hlinks hlink]
    obtain ⟨shown, -, hshows⟩ := linksBuilt_shows req hshort hmax (by omega) hseq hpid
    have hends := hshows.endDump hmax hseq hpid req
    rw [hend] at hends
    exact ⟨shown, _, hours, hends⟩
  next =>
  split
  · rw [replyAddrs_eq h req hmax hroom hseq hpid]
    obtain ⟨shown, -, hshows⟩ := addrsBuilt_shows h req hmax (by omega) hseq hpid
    have hends := hshows.endDump hmax hseq hpid req
    rw [hend] at hends
    exact ⟨shown, _, hours, hends⟩
  by_cases hroute : readLe 2 4 req = rtmGetroute
  · rw [if_pos hroute, if_pos ⟨hroute, hdump⟩, hdump]
    exact replyRoutes_ends h req hmax (by omega) hseq hpid
  · rw [if_neg hroute, if_neg (fun hboth => hroute hboth.1)]
    obtain ⟨hgains, hoffset⟩ := @nlBuildDone_gains ⟨buf, 0⟩ max seq pid hmax (by dsimp only; omega) hseq
      hpid
    exact ⟨[], _, hours, .nil _ _, hgains, by dsimp only at hoffset; omega⟩

def answered (o : Out) (max seq pid : Nat) : Out :=
  if o.off = 0 then nlBuildError o max seq pid einval else o

theorem Out.Ends.answered {plan : List Planned} {o : Out} {last : List Message}
    (h : Out.Ends max plan o o' shown last) (hne : shown ++ last ≠ []) (seq pid : Nat) :
    Netlink.answered o' max seq pid = o' :=
  if_neg (Nat.pos_iff_ne_zero.mp (Nat.lt_of_le_of_lt (Nat.zero_le _) (h.gains.lt hne)))

/-- **Any other request** gets what is planned, an acknowledgment or an error. -/
theorem replyTo_single (hshort : ∀ l ∈ found, l.Short) (hdump : isDump req = false)
    (hmax : max ≤ buf.length) (hroom : 448 ≤ max) (hseq : seq < 2 ^ 32) (hpid : pid < 2 ^ 32)
    (hlinks : readLe 2 4 req = rtmGetlink →
      linksBuilt req (foundLinks h req) buf max seq pid = linksBuilt req found buf max seq pid) :
    ∃ shown, shown ++ singleEnd (plan h req found seq pid) req seq pid ≠ [] ∧
      Out.Ends max (plan h req found seq pid) ⟨buf, 0⟩
        (answered (replyTo h req buf max seq pid) max seq pid) shown
        (singleEnd (plan h req found seq pid) req seq pid) := by
  have hend : dumpEnd req seq pid = [] := by rw [dumpEnd, hdump]; rfl
  have hack : Out.Ends max [] ⟨buf, 0⟩ (answered (nlBuildError ⟨buf, 0⟩ max seq pid 0) max seq pid) []
      [errorMessage seq pid 0] := by
    obtain ⟨hgains, hoffset⟩ := @nlBuildError_gains ⟨buf, 0⟩ max seq pid hmax (by dsimp only; omega) hseq
      hpid 0
    have hends : Out.Ends max [] ⟨buf, 0⟩ (nlBuildError ⟨buf, 0⟩ max seq pid 0) []
        [errorMessage seq pid 0] := ⟨.nil _ _, hgains, by dsimp only at hoffset; omega⟩
    rw [hends.answered (by simp)]
    exact hends
  unfold singleEnd replyTo
  by_cases hlink : readLe 2 4 req = rtmGetlink
  · have hplan : plan h req found seq pid = planLinks found req seq pid := by rw [plan, if_pos hlink]
    rw [hplan, if_pos hlink, replyLinks_eq h req (by omega), hlinks hlink]
    obtain ⟨shown, hne, hshows⟩ := linksBuilt_shows req hshort hmax (by omega) hseq hpid
    have hends := hshows.endDump hmax hseq hpid req
    rw [hend] at hends
    have hmeant : planLinks found req seq pid ≠ [] := by
      intro hnil
      obtain ⟨m, hm⟩ := List.exists_mem_of_ne_nil shown hne
      obtain ⟨p, hp, -⟩ := hends.planned.mem hm
      rw [hnil] at hp
      cases hp
    rw [if_pos hmeant, hends.answered (by simpa using hne)]
    exact ⟨shown, by simpa using hne, hends⟩
  by_cases haddr : readLe 2 4 req = rtmGetaddr
  · have hplan : plan h req found seq pid = planAddrs h req seq pid := by
      rw [plan, if_neg hlink, if_pos haddr]
    rw [hplan, if_neg hlink, if_pos haddr, replyAddrs_eq h req hmax hroom hseq hpid, if_pos haddr]
    obtain ⟨shown, hne, hshows⟩ := addrsBuilt_shows h req hmax (by omega) hseq hpid
    have hends := hshows.endDump hmax hseq hpid req
    rw [hend] at hends
    by_cases hmeant : planAddrs h req seq pid = []
    · -- an unknown family: nothing is meant
      rw [if_neg (not_not.mpr hmeant)]
      obtain rfl : shown = [] := by
        refine List.eq_nil_iff_forall_not_mem.mpr ?_
        intro m hm
        obtain ⟨p, hp, -⟩ := hends.planned.mem hm
        rw [hmeant] at hp
        cases hp
      have hzero := hends.gains.off_of_nil
      obtain ⟨hgains, hoffset⟩ := @nlBuildError_gains
        (endDump (isDump req) (addrsBuilt h req buf max seq pid) max seq pid) max seq pid
        (by rw [hends.gains.size]; exact hmax) (by rw [hzero]; dsimp only; omega) hseq hpid einval
      rw [answered, if_pos hzero]
      refine ⟨[], by simp, hends.planned.mono hgains.le, hends.gains.trans hgains, ?_⟩
      rw [hoffset, hzero]
      dsimp only
      omega
    · rw [if_pos hmeant, hends.answered (by simpa using hne hmeant)]
      exact ⟨shown, by simpa using hne hmeant, hends⟩
  · have hplan : plan h req found seq pid = [] := by
      rw [plan, if_neg hlink, if_neg haddr, if_neg (by rw [hdump]; simp)]
    rw [hplan, if_neg hlink, if_neg haddr, if_neg haddr, if_neg (not_not.mpr rfl), hdump]
    refine ⟨[], by simp, ?_⟩
    unfold replyRoutes
    simpa using hack

end Requests

theorem requestSeq_lt (sent : Option Bytes) : requestSeq sent < 2 ^ 32 := by
  unfold requestSeq
  split
  next req hreq =>
    have hlt := ofLe_lt ((req.drop 8).take 4)
    have hlen : ((req.drop 8).take 4).length ≤ 4 := List.length_take_le _ _
    calc readLe 4 8 req < 256 ^ ((req.drop 8).take 4).length := hlt
      _ ≤ 256 ^ 4 := Nat.pow_le_pow_right (by omega) hlen
  next => decide

theorem Out.Ends.finished {plan : List Planned} {o : Out} {last : List Message} (buf : ReplyBuffer)
    (h : Out.Ends maxFakeNetlinkReply plan ⟨buf.1, 0⟩ o shown last) (hne : shown ++ last ≠ []) :
    o.buf.length = maxFakeNetlinkReply ∧ (0 < o.off ∧ o.off ≤ maxFakeNetlinkReply) ∧
      (∃ rs, (∀ r ∈ rs, nlmsg.Valid r) ∧ o.reply = nlmsg.encodeAll rs) ∧
      decode o.reply = shown ++ last := by
  obtain ⟨hdecode, hencoded⟩ := h.gains.decode rfl
  exact ⟨h.gains.size.trans buf.2, ⟨h.gains.lt hne, h.inside⟩, hencoded, hdecode⟩

/-- **Replies are well-formed** for what the loops go through, and for any other links from which the
same is built. -/
theorem buildFakeNetlinkReply_wellFormed (h : Host) (pid : UInt32) (sent : Option Bytes)
    (buf : ReplyBuffer) (found : Bytes → List LinkInfo)
    (hshort : ∀ req, ∀ l ∈ found req, l.Short)
    (hlinks : ∀ req, readRequest sent = some req → readLe 2 4 req = rtmGetlink →
      linksBuilt req (foundLinks h req) buf.1 maxFakeNetlinkReply (requestSeq sent) pid.toNat =
        linksBuilt req (found req) buf.1 maxFakeNetlinkReply (requestSeq sent) pid.toNat) :
    WellFormed h pid.toNat sent (fun req => plan h req (found req) (requestSeq sent) pid.toNat)
      (buildFakeNetlinkReply h pid sent buf.1) := by
  have hmax : maxFakeNetlinkReply ≤ buf.1.length := Nat.le_of_eq buf.2.symm
  have hroom : 448 ≤ maxFakeNetlinkReply := by decide
  have hseq := requestSeq_lt sent
  have hpid : pid.toNat < 2 ^ 32 := pid.toNat_lt
  cases hread : readRequest sent with
  | none =>
      have hreply : buildFakeNetlinkReply h pid sent buf.1 =
          nlBuildError ⟨buf.1, 0⟩ maxFakeNetlinkReply (requestSeq sent) pid.toNat einval := by
        simp only [buildFakeNetlinkReply, hread, if_true]
      obtain ⟨hgains, hoffset⟩ := @nlBuildError_gains ⟨buf.1, 0⟩ maxFakeNetlinkReply (requestSeq sent)
        pid.toNat hmax (by dsimp only; omega) hseq hpid einval
      have hends : Out.Ends maxFakeNetlinkReply [] ⟨buf.1, 0⟩ (buildFakeNetlinkReply h pid sent buf.1) []
          [errorMessage (requestSeq sent) pid.toNat einval] := by
        rw [hreply]
        exact ⟨.nil _ _, hgains, by dsimp only at hoffset; omega⟩
      obtain ⟨hsize, hinside, hencoded, hdecode⟩ := hends.finished buf (by simp)
      refine ⟨hsize, hinside, hencoded, ?_, fun _ => hdecode, ?_, ?_⟩
      · intro m hm
        rw [hdecode] at hm
        rw [List.mem_singleton.mp hm]
        exact ⟨rfl, rfl⟩
      all_goals
        intro req hreq
        rw [hread] at hreq
        cases hreq
  | some req =>
      have hplan := @plan_addressed h req (found req) (requestSeq sent) pid.toNat
      have hbuilt := hlinks req hread
      have hreply : buildFakeNetlinkReply h pid sent buf.1 =
          answered (replyTo h req buf.1 maxFakeNetlinkReply (requestSeq sent) pid.toNat)
            maxFakeNetlinkReply (requestSeq sent) pid.toNat := by
        simp only [buildFakeNetlinkReply, hread, answered]
      rw [hreply]
      have hunread : readRequest sent ≠ none := by
        rw [hread]
        nofun
      cases hdump : isDump req with
      | true =>
          obtain ⟨shown, d, hd, hends⟩ := replyTo_dump (hshort req) hdump hmax hroom hseq hpid hbuilt
          rw [hends.answered (by simp)]
          obtain ⟨hsize, hinside, hencoded, hdecode⟩ := hends.finished buf (by simp)
          have hshown := hends.planned
          refine ⟨hsize, hinside, hencoded, ?_, fun hnone => absurd hnone hunread, ?_, ?_⟩
          · intro m hm
            rw [hdecode] at hm
            rcases List.mem_append.mp hm with hm | hm
            · obtain ⟨p, hp, rfl⟩ := hshown.mem hm
              exact ⟨(hplan p hp).1, (hplan p hp).2.1⟩
            · rw [List.mem_singleton.mp hm]
              exact hd.addressed
          · intro req' hreq' hsingle
            rw [hread] at hreq'
            cases hreq'
            rw [hdump] at hsingle
            cases hsingle
          · intro req' hreq' _
            rw [hread] at hreq'
            cases hreq'
            refine ⟨shown, d, hshown, hdecode, hd, ?_⟩
            intro m hm
            obtain ⟨p, hp, rfl⟩ := hshown.mem hm
            exact (hplan p hp).2.2
      | false =>
          obtain ⟨shown, hne, hends⟩ := replyTo_single (hshort req) hdump hmax hroom hseq
            hpid hbuilt
          obtain ⟨hsize, hinside, hencoded, hdecode⟩ := hends.finished buf hne
          have hshown := hends.planned
          refine ⟨hsize, hinside, hencoded, ?_, fun hnone => absurd hnone hunread, ?_, ?_⟩
          · intro m hm
            rw [hdecode] at hm
            rcases List.mem_append.mp hm with hm | hm
            · obtain ⟨p, hp, rfl⟩ := hshown.mem hm
              exact ⟨(hplan p hp).1, (hplan p hp).2.1⟩
            · unfold singleEnd at hm
              split at hm
              · cases hm
              · rw [List.mem_singleton.mp hm]
                exact ⟨rfl, rfl⟩
          · intro req' hreq' _
            rw [hread] at hreq'
            cases hreq'
            exact ⟨shown, hshown, hdecode⟩
          · intro req' hreq' hmany
            rw [hread] at hreq'
            cases hreq'
            rw [hdump] at hmany
            cases hmany

end Improot.Netlink
