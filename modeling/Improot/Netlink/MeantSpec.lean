import Improot.Netlink.ReplySpec
import Mathlib.Data.List.Nodup
import Mathlib.Data.List.Perm.Subperm

/-!
# A reply holds what is meant

The builders tell of each entry what is meant. The loop for the interfaces remembers 64 names only:
an interface beyond these is told again for each of its entries, and the replies that are well-formed
are those in which this isn't seen.
-/

namespace Improot.Netlink

open Lib

/-! ## Interfaces -/

theorem firstBytes_length (n : Nat) (bs : Bytes) : (firstBytes n bs).length = n := by
  simp [firstBytes]

theorem hwaddrOf_take {n : Nat} (hn : n ≤ 8) (bs : Bytes) :
    (hwaddrOf (bs.take n)).take n = firstBytes n bs := by
  rw [hwaddrOf, List.take_take, Nat.min_eq_left hn, firstBytes, List.take_append, List.take_append,
    List.take_take, Nat.min_self, List.length_take, List.take_replicate, List.take_replicate]
  congr 2
  omega

theorem Host.hardware_cases (h : Host) (name : IfName) :
    (h.hardware name = none ∧ h.socket = false) ∨
      (h.hardware name = none ∧ h.socket = true ∧ h.hwaddr name = none) ∨
      ∃ type data, h.hardware name = some (type, data) ∧ h.socket = true ∧
        h.hwaddr name = some (type, data) := by
  unfold Host.hardware
  cases h.socket <;> rcases h.hwaddr name with _ | ⟨type, data⟩ <;> simp

/-- The type and the hardware address that `build_host_links` finds are the ones that are meant. -/
theorem linkInfo_hardware (h : Host) (i : Ifaddrs) (name : IfName) :
    (linkInfo h i name).iftype = (interfaceOf h i name).type ∧
      (linkInfo h i name).hwlen = (interfaceOf h i name).address.length ∧
      (linkInfo h i name).hwaddr.take (linkInfo h i name).hwlen = (interfaceOf h i name).address := by
  by_cases hown : ∃ sll, i.addr = some (.packet sll) ∧ 0 < sll.halen ∧ sll.halen ≤ 8
  · -- the entry has an address of its own
    obtain ⟨sll, haddr, hpos, hle⟩ := hown
    have hpacket : i.packet = some sll := by rw [Ifaddrs.packet, haddr]
    have haddress : i.address = firstBytes sll.halen sll.addr := by
      rw [Ifaddrs.address, hpacket]
      exact if_pos hle
    have hlength : i.address.length = sll.halen := by rw [haddress, firstBytes_length]
    have htake := hwaddrOf_take hle sll.addr
    rw [← haddress] at htake
    obtain ⟨b, bs, hcons⟩ := List.exists_cons_of_length_pos (hlength ▸ hpos)
    have hne : sll.halen ≠ 0 := Nat.pos_iff_ne_zero.mp hpos
    simp only [linkInfo, interfaceOf, haddr, hpacket, hpos, hle, and_self, if_true, hne, if_false]
    rw [hcons] at htake hlength ⊢
    split <;> exact ⟨rfl, hlength.symm, htake⟩
  · have haddress : i.address = [] := by
      unfold Ifaddrs.address Ifaddrs.packet
      rcases haddr : i.addr with _ | ⟨sll | _ | _ | _⟩ <;> try rfl
      by_cases hle : sll.halen ≤ 8
      · have hzero : sll.halen = 0 := by
          by_contra hne
          exact hown ⟨sll, haddr, Nat.pos_iff_ne_zero.mpr hne, hle⟩
        simp [hzero, firstBytes]
      · simp [hle]
    have hskip : ∀ sll, i.addr = some (.packet sll) → ¬ (0 < sll.halen ∧ sll.halen ≤ 8) :=
      fun sll haddr hboth => hown ⟨sll, haddr, hboth⟩
    have htake := fun data => @hwaddrOf_take 6 (by omega) data
    simp only [linkInfo, interfaceOf, haddress]
    rcases haddr : i.addr with _ | ⟨sll | _ | _ | _⟩
    case some.packet =>
      simp only [hskip sll haddr, if_false, Ifaddrs.packet, haddr]
      rcases h.hardware_cases name with ⟨hnone, hsocket⟩ | ⟨hnone, hsocket, hno⟩ |
          ⟨type, data, hsome, hsocket, hhwaddr⟩
      · simp [hnone, hsocket]
      · simp [hnone, hsocket, hno]
      · simp [hsome, hsocket, hhwaddr, htake, firstBytes_length]
    all_goals
      simp only [Ifaddrs.packet, haddr]
      rcases h.hardware_cases name with ⟨hnone, hsocket⟩ | ⟨hnone, hsocket, hno⟩ |
          ⟨type, data, hsome, hsocket, hhwaddr⟩
      · simp [hnone, hsocket]
      · simp [hnone, hsocket, hno]
      · simp [hsome, hsocket, hhwaddr, htake, firstBytes_length]

theorem linkInfo_rest (h : Host) (i : Ifaddrs) (name : IfName) :
    (linkInfo h i name).ifindex = (interfaceOf h i name).index ∧
      (linkInfo h i name).ifflags = i.flags ∧
      (linkInfo h i name).mtu = (interfaceOf h i name).mtu ∧
      (linkInfo h i name).name = name.chars := by
  unfold linkInfo interfaceOf Ifaddrs.packet
  dsimp only
  rcases i.addr with _ | ⟨sll | _ | _ | _⟩
  all_goals
    repeat' split
    all_goals simp_all

/-- **An interface is told as it is meant**. -/
theorem linkMessage_linkInfo (h : Host) (i : Ifaddrs) (name : IfName) (seq pid nlflags : Nat) :
    linkMessage seq pid nlflags (linkInfo h i name) =
      (interfaceOf h i name).message seq pid nlflags := by
  obtain ⟨htype, hlen, haddress⟩ := linkInfo_hardware h i name
  obtain ⟨hindex, hflags, hmtu, hname⟩ := linkInfo_rest h i name
  have hshort := (linkInfo_short h i name).hwlen
  have hflags' : (interfaceOf h i name).flags = i.flags := rfl
  have hname' : (interfaceOf h i name).name = name.chars := rfl
  have hnone : (interfaceOf h i name).address = [] ↔ ¬ 0 < (linkInfo h i name).hwlen := by
    rw [hlen, Nat.pos_iff_ne_zero, not_not, List.length_eq_zero_iff]
  have hbroadcast : (broadcast (linkInfo h i name)).take (linkInfo h i name).hwlen =
      List.replicate (interfaceOf h i name).address.length
        (if (interfaceOf h i name).type = arphrdLoopback then 0 else 0xff) := by
    rw [broadcast, List.take_replicate, Nat.min_eq_left hshort, hlen, htype]
  have hattrs : linkAttrs (linkInfo h i name) =
      ((interfaceOf h i name).message seq pid nlflags).attrs := by
    simp only [linkAttrs, Interface.message, hname, hname', hmtu, operstate, hflags, hflags', hbroadcast,
      haddress]
    by_cases hpos : 0 < (linkInfo h i name).hwlen
    · rw [if_pos hpos, if_neg (fun heq => hnone.mp heq hpos)]
      split <;> rfl
    · rw [if_neg hpos, if_pos (hnone.mpr hpos)]
      split <;> rfl
  have hfixed : ifinfomsg (linkInfo h i name) =
      ((interfaceOf h i name).message seq pid nlflags).fixed := by
    simp only [ifinfomsg, Interface.message, htype, hindex, hflags, hflags']
    rfl
  rw [linkMessage, hattrs, hfixed]
  rfl

theorem linkMessage_loopback (seq pid nlflags : Nat) :
    linkMessage seq pid nlflags loopbackLink = loopbackInterface.message seq pid nlflags := rfl

/-! ### What is asked for -/

variable {req : Bytes} {names : List IfName} {h : Host} {pid seq : Nat}

theorem requestName_eq (hlen : ¬ req.length < nlmsgHdrlen + 16) :
    nameAsked req = requestName req := by
  unfold nameAsked requestName requestAttrs
  have hlong : ¬ req.length < 32 := hlen
  rw [if_neg hlong, List.getLast?_eq_head?_reverse, ← List.filter_reverse, List.head?_filter]
  rfl

theorem nlRequestIsLoopback_eq (req : Bytes) : nlRequestIsLoopback req = loopbackAsked req := by
  unfold nlRequestIsLoopback loopbackAsked
  by_cases hlen : req.length < nlmsgHdrlen + 16
  · have hname : nameAsked req = none := if_pos hlen
    have hindex : indexAsked req = 0 := if_pos hlen
    simp [hlen, hname, hindex]
  · have hindex : indexAsked req = requestIndex req := if_neg hlen
    rw [if_neg hlen, requestName_eq hlen, hindex]
    cases requestName req with
    | some name => rfl
    | none =>
        rw [decide_eq_decide]
        omega

/-- The interface that a request asks for is the one that is meant. -/
theorem wants_eq (req : Bytes) (h : Host) (i : Ifaddrs) (name : IfName) :
    (nlRequestLinkTarget req).wants (linkInfo h i name) = (interfaceOf h i name).asked req := by
  obtain ⟨hindex, -, -, hname⟩ := linkInfo_rest h i name
  have hname' : (interfaceOf h i name).name = name.chars := rfl
  unfold nlRequestLinkTarget Interface.asked
  by_cases hlen : req.length < nlmsgHdrlen + 16
  · have hnone : nameAsked req = none := if_pos hlen
    have hzero : indexAsked req = 0 := if_pos hlen
    simp [hlen, hnone, hzero, LinkTarget.wants]
  · have hasked : indexAsked req = requestIndex req := if_neg hlen
    rw [if_neg hlen, requestName_eq hlen, hasked]
    have hindexed : ∀ n, (decide (n = 0 ∨ 2 ^ 31 ≤ n ∨ (interfaceOf h i name).index % 2 ^ 32 = n)) =
        if 0 < n ∧ n < 2 ^ 31 then decide ((linkInfo h i name).ifindex % 2 ^ 32 = n) else true := by
      intro n
      rw [hindex]
      split
      next hin =>
        rw [decide_eq_decide]
        omega
      next hout =>
        rw [decide_eq_true_eq]
        omega
    rcases requestName req with _ | ⟨_ | ⟨c, cs⟩⟩
    · rw [hindexed]
      simp [LinkTarget.wants]
    · rw [hindexed]
      simp [LinkTarget.wants]
    · simp [LinkTarget.wants, hname, hname', eq_comm]

/-! ## Addresses -/

def byteBits (b : UInt8) : List Bool := [7, 6, 5, 4, 3, 2, 1, 0].map b.toNat.testBit

theorem byte_cases {P : UInt8 → Prop} (h : ∀ n : Fin 256, P (UInt8.ofNat n)) (b : UInt8) : P b := by
  have hb := h ⟨b.toNat, b.toNat_lt⟩
  simpa using hb

theorem leadingOnes_eq (b : UInt8) : b ≠ 0xff →
    ((byteBits b).takeWhile id).length = leadingOnes 8 b ∧ ¬ (byteBits b).all id := by
  revert b
  refine byte_cases ?_
  decide +kernel

/-- **The prefix length** of a mask is the number of ones it starts with. -/
theorem nlPrefixlen_eq (mask : Bytes) : nlPrefixlen mask = maskLength mask := by
  induction mask with
  | nil => rfl
  | cons b bs ih =>
      have hbits : bitsOf (b :: bs) = byteBits b ++ bitsOf bs := rfl
      rw [maskLength, hbits, List.takeWhile_append, nlPrefixlen]
      by_cases hb : b = 0xff
      · subst hb
        rw [if_pos rfl, ih, if_pos (by decide), List.length_append]
        rfl
      · obtain ⟨hones, hall⟩ := leadingOnes_eq b hb
        rw [if_neg hb, if_neg, hones]
        intro hlen
        apply hall
        rw [List.all_eq_true]
        have hsame := (List.takeWhile_prefix id).eq_of_length hlen
        intro x hx
        rw [← hsame] at hx
        exact List.mem_takeWhile_imp hx

theorem leadingBits_eq (a b : UInt8) (rest : List Bool) :
    (byteBits a ++ (byteBits b ++ rest)).take 10 =
        [true, true, true, true, true, true, true, false, true, false] ↔
      a = 0xfe ∧ b &&& 0xc0 = 0x80 := by
  have ha : byteBits a = [true, true, true, true, true, true, true, false] ↔ a = 0xfe := by
    revert a
    exact byte_cases (by decide +kernel)
  have hb : (byteBits b).take 2 = [true, false] ↔ b &&& 0xc0 = 0x80 := by
    revert b
    exact byte_cases (by decide +kernel)
  rw [← ha, ← hb]
  simp [byteBits]
  tauto

theorem scopeInet_eq (bs : Bytes) : nlAddrScope afInet bs = scopeInet bs := by
  unfold nlAddrScope scopeInet
  rw [if_pos rfl]
  have hhost : bs[0]? = some 127 ↔ [127] <+: bs := by
    cases bs with
    | nil => simp
    | cons a rest => simp [List.cons_prefix_cons, @eq_comm _ a]
  have hlink : bs[0]? = some 169 ∧ bs[1]? = some 254 ↔ [169, 254] <+: bs := by
    rcases bs with _ | ⟨a, _ | ⟨b, rest⟩⟩
    · simp
    · simp [List.cons_prefix_cons]
    · simp [List.cons_prefix_cons, @eq_comm _ a, @eq_comm _ b]
  simp only [hhost, hlink]

theorem scopeInet6_eq {bs : Bytes} (hlen : bs.length = 16) : nlAddrScope afInet6 bs = scopeInet6 bs := by
  unfold nlAddrScope scopeInet6
  rw [if_neg (by decide)]
  obtain ⟨a, b, rest, rfl⟩ : ∃ a b rest, bs = a :: b :: rest := by
    rcases bs with _ | ⟨a, _ | ⟨b, rest⟩⟩
    · simp at hlen
    · simp at hlen
    · exact ⟨a, b, rest, rfl⟩
  have hbits := leadingBits_eq a b (bitsOf rest)
  have hpattern : (bitsOf [0xfe, 0x80]).take 10 =
      [true, true, true, true, true, true, true, false, true, false] := by decide
  have hloop : (List.replicate 15 0 ++ [1] : Bytes) =
      [0, 0, 0, 0, 0, 0, 0, 0, 0, 0, 0, 0, 0, 0, 0, 1] := rfl
  have hcons : bitsOf (a :: b :: rest) = byteBits a ++ (byteBits b ++ bitsOf rest) := rfl
  rw [List.take_of_length_le (Nat.le_of_eq hlen), hloop, hpattern, hcons]
  simp only [hbits, List.getElem?_cons_zero, List.getElem?_cons_succ, Option.map_some,
    Option.some.injEq]

theorem Address.asked_iff {a : Address} : a.asked req = true ↔
    (familyAsked req = afInet ∨ familyAsked req = afInet6 → a.family = familyAsked req) :=
  decide_eq_true_iff

/-- **An address is told as it is meant**, if it is asked for. -/
theorem addrInfo_eq (h : Host) (req : Bytes) (i : Ifaddrs) (seq pid nlflags : Nat) :
    (addrInfo h (wantedFamily req) i).map (addrMessage seq pid nlflags) =
      ((addressOf h i).filter (Address.asked req)).map (Address.message · seq pid nlflags) := by
  have hfamily : requestFamily req = familyAsked req := rfl
  have hwanted : ∀ family, family = afInet ∨ family = afInet6 →
      ((wantedFamily req ≠ afUnspec ∧ family ≠ wantedFamily req) ↔
        ¬ (familyAsked req = afInet ∨ familyAsked req = afInet6 → family = familyAsked req)) := by
    intro family hfam
    unfold wantedFamily
    rw [hfamily]
    split
    next hasked => 
      have hne : familyAsked req ≠ afUnspec := by
        rintro heq
        rw [heq] at hasked
        exact absurd hasked (by decide)
      simp [hasked, hne]
    next hasked => simp [hasked]
  have hmask {bytes : Bytes} {n : Nat} (hsize : bytes.length = n) (mask : Bytes) :
      nlPrefixlen (mask.take bytes.length) = maskLength (mask.take n) := by
    rw [nlPrefixlen_eq, hsize]
  unfold addrInfo addressOf
  rcases i.name with _ | name
  · rfl
  rcases i.addr with _ | ⟨sll | a | a | _⟩
  · rfl
  · rfl
  · simp only [Option.bind_some, Sockaddr.internet, hwanted afInet (.inl rfl), hmask a.size,
      scopeInet_eq]
    by_cases hasked : familyAsked req = afInet ∨ familyAsked req = afInet6 → afInet = familyAsked req
    · rw [if_neg (not_not.mpr hasked), Option.filter_some,
        if_pos (Address.asked_iff.mpr hasked)]
      cases i.netmask <;> rfl
    · rw [if_pos hasked, Option.filter_some,
        if_neg (mt Address.asked_iff.mp hasked)]
      rfl
  · simp only [Option.bind_some, Sockaddr.internet, hwanted afInet6 (.inr rfl), hmask a.size,
      scopeInet6_eq a.size]
    by_cases hasked : familyAsked req = afInet ∨ familyAsked req = afInet6 → afInet6 = familyAsked req
    · rw [if_neg (not_not.mpr hasked), Option.filter_some,
        if_pos (Address.asked_iff.mpr hasked)]
      cases i.netmask <;> rfl
    · rw [if_pos hasked, Option.filter_some,
        if_neg (mt Address.asked_iff.mp hasked)]
      rfl
  · rfl

theorem addrs_message (h : Host) (req : Bytes) (seq pid nlflags : Nat) :
    (addrs h (wantedFamily req)).map (addrMessage seq pid nlflags) =
      (((h.getifaddrs.getD []).filterMap (addressOf h)).filter (Address.asked req)).map
        (Address.message · seq pid nlflags) := by
  rw [addrs, List.map_filterMap, List.filter_filterMap, List.map_filterMap]
  exact List.filterMap_congr fun i _ => addrInfo_eq h req i seq pid nlflags

theorem loopbackAddrs_message (req : Bytes) (seq pid nlflags : Nat) :
    (loopbackAddrs (requestFamily req)).map (addrMessage seq pid nlflags) =
      (loopbackAddresses.filter fun a => familyAsked req = 0 ∨ familyAsked req = a.family).map
        (Address.message · seq pid nlflags) := by
  have hfamily : requestFamily req = familyAsked req := rfl
  unfold loopbackAddrs loopbackAddresses
  rw [hfamily, List.filter_cons, List.filter_cons, List.filter_nil]
  by_cases hinet : familyAsked req = 0 ∨ familyAsked req = afInet
  all_goals by_cases hinet6 : familyAsked req = 0 ∨ familyAsked req = afInet6
  all_goals
    simp only [hinet, hinet6, if_true, if_false, decide_true, decide_false, Bool.false_eq_true]
    rfl

/-- The addresses are told as they are meant. -/
theorem planAddrs_eq (h : Host) (req : Bytes) (seq pid : Nat) :
    planAddrs h req seq pid = addressPlan h req seq pid := by
  have hlift : ∀ (as : List AddrInfo) (bs : List Address),
      as.map (addrMessage seq pid (multi req)) = bs.map (Address.message · seq pid (multi req)) →
        as.map (fun a => (⟨addrMessage seq pid (multi req) a, 256⟩ : Planned)) =
          bs.map fun a => ⟨a.message seq pid (multi req), 256⟩ := by
    intro as bs heq
    have hboth := congrArg (List.map fun m => (⟨m, 256⟩ : Planned)) heq
    rw [List.map_map, List.map_map] at hboth
    exact hboth
  have hhost := addrs_message h req seq pid (multi req)
  have hempty : addrs h (wantedFamily req) = [] ↔
      ((h.getifaddrs.getD []).filterMap (addressOf h)).filter (Address.asked req) = [] := by
    rw [← List.map_eq_nil_iff, hhost, List.map_eq_nil_iff]
  unfold planAddrs addressPlan foundAddrs addressesAsked
  apply hlift
  dsimp only
  by_cases hfound : addrs h (wantedFamily req) = []
  · rw [if_neg (not_not.mpr hfound), if_neg (not_not.mpr (hempty.mp hfound))]
    exact loopbackAddrs_message req seq pid _
  · rw [if_pos hfound, if_pos (mt hempty.mpr hfound)]
    exact hhost

/-! ## Repetitions -/

/-- An entry that the loop for the interfaces doesn't skip. -/
structure Visit where
  entry : Ifaddrs
  name : IfName
  /-- was there an entry of this name before? -/
  again : Bool

/-- **The entries of the loop**: it skips those of the first 64 names after the first one. -/
def visits (names : List IfName) : List Ifaddrs → List Visit
  | [] => []
  | i :: rest =>
    match i.name with
    | none => visits names rest
    | some name =>
      if name ∈ names.take maxSeen then visits names rest
      else if name ∈ names then ⟨i, name, true⟩ :: visits names rest
      else ⟨i, name, false⟩ :: visits (names ++ [name]) rest

def Visit.info (h : Host) (v : Visit) : LinkInfo := linkInfo h v.entry v.name

def Visit.told (h : Host) (v : Visit) : Interface := interfaceOf h v.entry v.name

def firsts (vs : List Visit) : List Visit := vs.filter fun v => !v.again

theorem remember_take (names : List IfName) (name : IfName) :
    remember (names.take maxSeen) name = (names ++ [name]).take maxSeen := by
  unfold remember
  rw [List.length_take, List.take_append]
  split
  next hlt =>
    obtain ⟨k, hk⟩ : ∃ k, maxSeen - names.length = k + 1 := ⟨maxSeen - names.length - 1, by omega⟩
    rw [hk, List.take_succ_cons, List.take_nil]
  next hge =>
    rw [show maxSeen - names.length = 0 by omega, List.take_zero, List.append_nil]

theorem linkEntries_visits (h : Host) (is : List Ifaddrs) (names : List IfName) :
    linkEntries h is (names.take maxSeen) = (visits names is).map (Visit.info h) := by
  induction is generalizing names with
  | nil => rfl
  | cons i rest ih =>
      cases hname : i.name with
      | none => simp only [linkEntries, visits, hname, ih]
      | some name =>
          simp only [linkEntries, visits, hname]
          split
          next => exact ih names
          next hnew =>
            split
            next hold =>
              -- a name beyond the ones that are remembered
              have hfull : remember (names.take maxSeen) name = names.take maxSeen := by
                refine if_neg fun hlt => hnew ?_
                rw [List.length_take] at hlt
                rwa [List.take_of_length_le (by omega)]
              rw [hfull, ih, List.map_cons]
              rfl
            next =>
              rw [remember_take, ih, List.map_cons]
              rfl

theorem interfacesOf_visits (h : Host) (is : List Ifaddrs) {names' : List IfName}
    (hsame : ∀ name, name ∈ names' ↔ name ∈ names) :
    interfacesOf h names' is = (firsts (visits names is)).map (Visit.told h) := by
  induction is generalizing names names' with
  | nil => rfl
  | cons i rest ih =>
      cases hname : i.name with
      | none => simp only [interfacesOf, visits, hname, ih hsame]
      | some name =>
          simp only [interfacesOf, visits, hname, hsame]
          by_cases hskip : name ∈ names.take maxSeen
          · rw [if_pos (List.mem_of_mem_take hskip), if_pos hskip, ih hsame]
          rw [if_neg hskip]
          by_cases hold : name ∈ names
          · rw [if_pos hold, if_pos hold, ih hsame]
            rfl
          · have hmore : ∀ other, other ∈ name :: names' ↔ other ∈ names ++ [name] := by
              intro other
              simp [hsame, or_comm]
            rw [if_neg hold, if_neg hold, ih hmore]
            rfl

theorem interfaces_eq (h : Host) :
    interfaces h = (firsts (visits [] (h.getifaddrs.getD []))).map (Visit.told h) :=
  interfacesOf_visits h _ fun _ => Iff.rfl

theorem firsts_nodup (is : List Ifaddrs) (hnodup : names.Nodup) :
    (names ++ (firsts (visits names is)).map (·.name)).Nodup := by
  induction is generalizing names with
  | nil => simpa [visits, firsts] using hnodup
  | cons i rest ih =>
      unfold visits
      split
      next => exact ih hnodup
      next name hname =>
        split_ifs with hskip hold
        · exact ih hnodup
        · exact ih hnodup
        · have hmore : (names ++ [name]).Nodup := by
            rw [← List.concat_eq_append]
            exact hnodup.concat hold
          have hlater := ih hmore
          rwa [List.append_assoc] at hlater

variable {v : Visit}

/-- What comes again came before. -/
theorem again_mem {is : List Ifaddrs} {before after : List Visit}
    (hsplit : visits names is = before ++ v :: after) (hagain : v.again = true) :
    v.name ∈ names ++ (firsts before).map (·.name) := by
  induction is generalizing names before with
  | nil => simp [visits] at hsplit
  | cons i rest ih =>
      unfold visits at hsplit
      split at hsplit
      next => exact ih hsplit
      next name hname =>
        split_ifs at hsplit with hskip hold
        · exact ih hsplit
        · cases before with
          | nil =>
              obtain ⟨rfl, -⟩ := List.cons.inj hsplit
              exact List.mem_append_left _ hold
          | cons x before =>
              obtain ⟨rfl, hrest⟩ := List.cons.inj hsplit
              have hin := ih hrest
              exact hin
        · cases before with
          | nil =>
              obtain ⟨rfl, -⟩ := List.cons.inj hsplit
              cases hagain
          | cons x before =>
              obtain ⟨rfl, hrest⟩ := List.cons.inj hsplit
              have hin := ih hrest
              rw [List.append_assoc] at hin
              exact hin

/-! ## Plans -/

def visitsOf (h : Host) : List Visit := visits [] (h.getifaddrs.getD [])

def askedOf (h : Host) (req : Bytes) (vs : List Visit) : List Visit :=
  if isDump req then vs else (vs.find? fun v => (v.told h).asked req).toList

theorem foundLinks_visits (h : Host) (req : Bytes) :
    foundLinks h req = (askedOf h req (visitsOf h)).map (Visit.info h) := by
  have hlinks : links h = (visitsOf h).map (Visit.info h) := linkEntries_visits h _ []
  have hwants : (nlRequestLinkTarget req).wants ∘ Visit.info h = fun v => (v.told h).asked req :=
    funext fun v => wants_eq req h v.entry v.name
  unfold foundLinks askedOf
  split
  · exact hlinks
  · rw [hlinks, List.find?_map, hwants]
    cases (visitsOf h).find? _ <;> rfl

theorem interfacesAsked_visits (h : Host) (req : Bytes) :
    interfacesAsked h req = (askedOf h req (firsts (visitsOf h))).map (Visit.told h) := by
  have hall : interfaces h = (firsts (visitsOf h)).map (Visit.told h) := interfaces_eq h
  unfold interfacesAsked askedOf
  split
  · exact hall
  · rw [hall, List.find?_map]
    have hasked : Interface.asked req ∘ Visit.told h = fun v => (v.told h).asked req := rfl
    rw [hasked]
    cases (firsts (visitsOf h)).find? _ <;> rfl

theorem planLinks_eq (h : Host) (req : Bytes) (vs : List Visit) (seq pid : Nat) :
    planLinks (vs.map (Visit.info h)) req seq pid = linkPlan (vs.map (Visit.told h)) req seq pid := by
  have hmessage : ∀ v : Visit, linkMessage seq pid (multi req) (v.info h) =
      (v.told h).message seq pid (multi req) := fun v =>
    linkMessage_linkInfo h v.entry v.name seq pid (multi req)
  unfold planLinks linkPlan
  cases vs with
  | nil =>
      simp only [List.map_nil, nlRequestIsLoopback_eq, linkMessage_loopback]
      rfl
  | cons v vs =>
      rw [if_pos (by simp), if_pos (by simp), List.map_map, List.map_map]
      simp only [Function.comp_def, hmessage]

/-- The loops go through what is meant, as far as the interfaces are the ones that are meant. -/
theorem plan_eq {found : List LinkInfo} {fs : List Interface}
    (hlinks : readLe 2 4 req = rtmGetlink → planLinks found req seq pid = linkPlan fs req seq pid) :
    plan h req found seq pid = planOf h req fs seq pid := by
  unfold plan planOf
  dsimp only
  by_cases hlink : readLe 2 4 req = rtmGetlink
  · rw [if_pos hlink, if_pos hlink, hlinks hlink]
  · rw [if_neg hlink, if_neg hlink, planAddrs_eq]

theorem WellFormed.congr {sent : Option Bytes} {plan plan' : Bytes → List Planned}
    {o : Out} (hreply : WellFormed h pid sent plan o)
    (hsame : ∀ req, readRequest sent = some req → plan req = plan' req) :
    WellFormed h pid sent plan' o where
  size := hreply.size
  inside := hreply.inside
  encoded := hreply.encoded
  addressed := hreply.addressed
  unread := hreply.unread
  single req hread hsingle := hsame req hread ▸ hreply.single req hread hsingle
  dump req hread hmany := hsame req hread ▸ hreply.dump req hread hmany

theorem WellFormed.decode_ne_nil {sent : Option Bytes}
    {plan : Bytes → List Planned} {o : Out} (hreply : WellFormed h pid sent plan o) :
    decode o.reply ≠ [] := by
  obtain ⟨rs, hvalid, hbytes⟩ := hreply.encoded
  rw [decode, hbytes, RecordFormat.walk_encodeAll hvalid, ne_eq, List.map_eq_nil_iff]
  rintro rfl
  have hlen := congrArg List.length hbytes
  have hinside := hreply.inside
  rw [Out.reply, List.length_take, hreply.size, RecordFormat.encodeAll_nil, List.length_nil] at hlen
  omega

/-- Where one message is meant, it is the reply. -/
theorem WellFormed.decode_single {sent : Option Bytes}
    {plan : Bytes → List Planned} {o : Out} (hreply : WellFormed h pid sent plan o)
    (hread : readRequest sent = some req) (hsingle : isDump req = false) {p : Planned}
    (hplan : plan req = [p]) : decode o.reply = [p.message] := by
  obtain ⟨shown, ⟨k, hshown, -⟩, hdecode⟩ := hreply.single req hread hsingle
  have hend : singleEnd (plan req) req (requestSeq sent) pid = [] :=
    if_pos (by rw [hplan]; exact List.cons_ne_nil _ _)
  rw [hend, List.append_nil, hshown, hplan] at hdecode
  cases k with
  | zero => exact absurd hdecode hreply.decode_ne_nil
  | succ k => rw [hdecode, List.take_succ_cons, List.take_nil, List.map_cons, List.map_nil]

/-! ## Sizes -/

def Message.size (m : Message) : Nat :=
  16 + m.fixed.length + (m.attrs.map fun a => align4 (4 + a.data.length)).sum

/-- A message takes as many bytes as it is said to. -/
theorem encode_size {m : Message} (hvalid : m.Valid) (hfixed : m.fixed.length % 4 = 0) :
    (nlmsg.encode m.record).length = m.size := by
  have hattrs : ∀ {attrs : List Attr}, (∀ a ∈ attrs, a.Valid) →
      (rta.encodeAll (attrs.map Attr.record)).length =
        (attrs.map fun a => align4 (4 + a.data.length)).sum ∧
      (attrs.map fun a => align4 (4 + a.data.length)).sum % 4 = 0 := by
    intro attrs hvalid
    induction attrs with
    | nil => exact ⟨rfl, rfl⟩
    | cons a rest ih =>
        obtain ⟨ha, hrest⟩ := List.forall_mem_cons.mp hvalid
        obtain ⟨hlen, hmod⟩ := ih hrest
        have halign := align4_mod (4 + a.data.length)
        rw [List.map_cons, RecordFormat.encodeAll_cons, List.length_append, hlen,
          RecordFormat.encode_length (Attr.record_valid ha), List.map_cons, List.sum_cons]
        exact ⟨rfl, by omega⟩
  obtain ⟨hlen, hmod⟩ := hattrs hvalid.attrs
  have hpayload : m.record.payload.length =
      m.fixed.length + (m.attrs.map fun a => align4 (4 + a.data.length)).sum := by
    rw [← hlen]
    exact List.length_append
  rw [RecordFormat.encode_length (Message.record_valid hvalid)]
  show align4 (16 + m.record.payload.length) = m.size
  rw [align4_of_mod (by omega), hpayload, Message.size, Nat.add_assoc]

def Visit.size (h : Host) (v : Visit) : Nat := ((v.told h).message 0 0 0).size

def sizeOfLinks (h : Host) (vs : List Visit) : Nat := (vs.map (Visit.size h)).sum

section Sized

variable {max seq pid nlflags : Nat} (hseq : seq < 2 ^ 32) (hpid : pid < 2 ^ 32)
  (hflags : nlflags < 2 ^ 16) (h : Host)

include hseq hpid hflags in
/-- How much of the buffer an interface takes. -/
theorem nlBuildLink_sized (vs : List Visit) :
    Sized max (fun o v => nlBuildLink o max seq pid nlflags (v.info h)) (Visit.size h) vs := by
  intro v _ o hmax hfits
  have hshort := linkInfo_short h v.entry v.name
  have hadds := @nlBuildLink_adds o max seq pid nlflags (v.info h) hshort hseq hpid hflags hmax hfits
  have hmessage : linkMessage seq pid nlflags (v.info h) = (v.told h).message seq pid nlflags :=
    linkMessage_linkInfo h v.entry v.name seq pid nlflags
  have hfixed : (linkMessage seq pid nlflags (v.info h)).fixed.length = 16 := ifinfomsg_length _
  have hsize := encode_size (linkMessage_valid hshort hseq hpid hflags) (by
    show (linkMessage seq pid nlflags (v.info h)).fixed.length % 4 = 0
    rw [hfixed])
  have hoffset : (nlBuildLink o max seq pid nlflags (v.info h)).off = _ := Appends.offset hadds
  refine ⟨?_, Appends.size hadds⟩
  show (nlBuildLink o max seq pid nlflags (v.info h)).off = _
  rw [hoffset]
  show o.off + (nlmsg.encode (linkMessage seq pid nlflags (v.info h)).record).length = _
  rw [show (nlmsg.encode (linkMessage seq pid nlflags (v.info h)).record).length =
    (linkMessage seq pid nlflags (v.info h)).size from hsize, hmessage]
  rfl

end Sized

theorem size_le (h : Host) (v : Visit) : v.size h ≤ 100 := by
  have hname := v.name.short
  have haddress : (v.told h).address.length ≤ 8 := by
    have hlen := (linkInfo_hardware h v.entry v.name).2.1
    have hshort := (linkInfo_short h v.entry v.name).hwlen
    rw [hlen] at hshort
    exact hshort
  have hchars : (v.told h).name = v.name.chars := rfl
  unfold Visit.size Message.size Interface.message align4
  unfold ifnamsiz at hname
  by_cases hnone : (v.told h).address = []
  · simp only [hnone, if_true, hchars, List.append_nil, List.map_cons, List.map_nil, List.sum_cons,
      List.sum_nil, List.length_append, le_length, List.length_cons, List.length_nil]
    omega
  · simp only [hnone, if_false, hchars, List.cons_append, List.nil_append, List.map_cons, List.map_nil,
      List.sum_cons, List.sum_nil, List.length_append, le_length, List.length_cons, List.length_nil,
      List.length_replicate]
    omega

/-! ## Which replies are well-formed -/

/-- **No repetition is told**: before it a dump leaves no room, and an answer about one interface isn't
from it. -/
def ListedOnce (h : Host) (req : Bytes) : Prop :=
  readLe 2 4 req = rtmGetlink →
    if isDump req then
      ∀ before v after, visitsOf h = before ++ v :: after → v.again = true →
        maxFakeNetlinkReply < sizeOfLinks h before + 256
    else
      ∀ v, (visitsOf h).find? (fun v => (v.told h).asked req) = some v → v.again = true →
        -- nothing else matches, and it is told as the loopback interface is in this case
        (∀ f ∈ interfaces h, f.asked req = false) ∧ loopbackAsked req = true ∧
          (v.told h).message 0 0 0 = loopbackInterface.message 0 0 0

theorem Interface.name_of_message {f g : Interface} {nlflags : Nat}
    (heq : f.message seq pid nlflags = g.message seq pid nlflags) : f.name = g.name := by
  have hattrs : (f.message seq pid nlflags).attrs = (g.message seq pid nlflags).attrs :=
    congrArg Message.attrs heq
  have hname := (List.cons.inj hattrs).1
  exact List.append_cancel_right (Attr.mk.inj hname).2

theorem visit_name_of_message {w : Visit} {nlflags : Nat}
    (heq : (v.told h).message seq pid nlflags = (w.told h).message seq pid nlflags) :
    v.name = w.name := by
  have hchars : v.name.chars = w.name.chars := Interface.name_of_message heq
  cases hv : v.name
  cases hw : w.name
  rw [hv, hw] at hchars
  dsimp only at hchars
  subst hchars
  rfl

theorem names_of_messages {vs ws : List Visit} {nlflags : Nat}
    (hsame : vs.map (fun v => (v.told h).message seq pid nlflags) =
      ws.map fun v => (v.told h).message seq pid nlflags) :
    vs.map (·.name) = ws.map (·.name) := by
  induction vs generalizing ws with
  | nil =>
      rw [List.map_nil, eq_comm, List.map_eq_nil_iff] at hsame
      rw [hsame]
  | cons v vs ih =>
      cases ws with
      | nil => cases hsame
      | cons w ws =>
          obtain ⟨hone, hrest⟩ := List.cons.inj hsame
          rw [List.map_cons, List.map_cons, visit_name_of_message hone, ih hrest]

theorem firsts_append (vs ws : List Visit) : firsts (vs ++ ws) = firsts vs ++ firsts ws :=
  List.filter_append ..

theorem visitsOf_nodup (h : Host) : ((firsts (visitsOf h)).map (·.name)).Nodup := by
  have hnodup := firsts_nodup (h.getifaddrs.getD []) List.nodup_nil
  rwa [List.nil_append] at hnodup

/-- Behind a repetition no entry of its name is the first one. -/
theorem name_ne_of_again {before after : List Visit} {w : Visit}
    (hsplit : visitsOf h = before ++ v :: after) (hagain : v.again = true) (hw : w ∈ after)
    (hfirst : w.again = false) : v.name ≠ w.name := by
  intro heq
  have hv := again_mem hsplit hagain
  have hnodup := visitsOf_nodup h
  rw [hsplit, firsts_append, List.map_append, List.nodup_append] at hnodup
  refine hnodup.2.2 _ (by simpa using hv) w.name ?_ heq
  exact List.mem_map_of_mem (List.mem_filter.mpr ⟨List.mem_cons_of_mem _ hw, by simp [hfirst]⟩)

section Replies

variable {h : Host} {pid : UInt32} {sent : Option Bytes} {buf : ReplyBuffer} {req : Bytes}

theorem fill_map {α β : Type} {max : Nat} {build : Out → β → Out} (f : α → β) (as : List α) (o : Out)
    (built : Nat) :
    fill max build (as.map f) o built = fill max (fun o a => build o (f a)) as o built := by
  induction as generalizing o built with
  | nil => rfl
  | cons a rest ih => simp only [List.map_cons, fill, ih]

def dumpOf (h : Host) (pid : UInt32) (sent : Option Bytes) (buf : ReplyBuffer) (vs : List Visit) :
    Out × Nat :=
  fill maxFakeNetlinkReply
    (fun o v => nlBuildLink o maxFakeNetlinkReply (requestSeq sent) pid.toNat nlmFMulti (v.info h)) vs
    ⟨buf.1, 0⟩ 0

theorem linksBuilt_dump (hdump : isDump req = true) {vs : List Visit} (hsome : vs ≠ []) :
    linksBuilt req (vs.map (Visit.info h)) buf.1 maxFakeNetlinkReply (requestSeq sent) pid.toNat =
      (dumpOf h pid sent buf vs).1 := by
  rw [linksBuilt, if_neg (by simpa using hsome), fill_map, multi, if_pos hdump]
  rfl

/-- A dump of the interfaces tells the entries of the loop, as many as are built. -/
theorem linkDump_decode (hread : readRequest sent = some req) (hdump : isDump req = true)
    (hlink : readLe 2 4 req = rtmGetlink) (hsome : visitsOf h ≠ []) :
    decode (buildFakeNetlinkReply h pid sent buf.1).reply =
      ((visitsOf h).take (dumpOf h pid sent buf (visitsOf h)).2).map
        (fun v => (v.told h).message (requestSeq sent) pid.toNat nlmFMulti) ++
        [doneMessage (requestSeq sent) pid.toNat] := by
  have hseq := requestSeq_lt sent
  have hpid : pid.toNat < 2 ^ 32 := pid.toNat_lt
  have hmax : maxFakeNetlinkReply ≤ buf.1.length := Nat.le_of_eq buf.2.symm
  have hbuild : Builder maxFakeNetlinkReply
      (fun o v => nlBuildLink o maxFakeNetlinkReply (requestSeq sent) pid.toNat nlmFMulti (v.info h))
      (fun v => linkMessage (requestSeq sent) pid.toNat nlmFMulti (v.info h)) (visitsOf h) :=
    fun v hv => @nlBuildLink_builder _ _ _ _ ((visitsOf h).map (Visit.info h))
      (List.forall_mem_map.mpr fun v _ => linkInfo_short h v.entry v.name) hseq hpid (by decide) _
      (List.mem_map_of_mem hv)
  obtain ⟨shown, hshows, hcount⟩ := fill_shows hbuild hmax (start_room (by decide) buf.1) 0
  have hends := hshows.endDump hmax hseq hpid req
  rw [dumpEnd, if_pos hdump] at hends
  have hreply : buildFakeNetlinkReply h pid sent buf.1 =
      endDump (isDump req) (dumpOf h pid sent buf (visitsOf h)).1 maxFakeNetlinkReply (requestSeq sent)
        pid.toNat := by
    have hfound : foundLinks h req = (visitsOf h).map (Visit.info h) := by
      rw [foundLinks_visits, askedOf, if_pos hdump]
    have hto : replyTo h req buf.1 maxFakeNetlinkReply (requestSeq sent) pid.toNat = _ :=
      (if_pos hlink).trans (replyLinks_eq h req (by decide))
    rw [hfound, linksBuilt_dump hdump hsome] at hto
    have hanswered := hends.answered (by simp) (requestSeq sent) pid.toNat
    unfold answered at hanswered
    simp only [buildFakeNetlinkReply, hread, hto]
    exact hanswered
  obtain ⟨-, -, -, hdecode⟩ := hends.finished buf (by simp)
  have hmessages : shown = ((visitsOf h).take (dumpOf h pid sent buf (visitsOf h)).2).map
      fun v => (v.told h).message (requestSeq sent) pid.toNat nlmFMulti := by
    have hlength : (dumpOf h pid sent buf (visitsOf h)).2 = shown.length := by
      rw [← Nat.zero_add shown.length]
      exact hcount
    obtain ⟨k, hshown, -⟩ := hshows.planned
    have hmessage : ∀ v : Visit, linkMessage (requestSeq sent) pid.toNat nlmFMulti (v.info h) =
        (v.told h).message (requestSeq sent) pid.toNat nlmFMulti := fun v =>
      linkMessage_linkInfo h v.entry v.name _ _ _
    rw [← List.map_take, List.map_map] at hshown
    simp only [Function.comp_def, hmessage] at hshown
    rw [hlength, hshown, List.length_map, List.length_take, ← List.take_eq_take_min]
  rw [hreply, ← hmessages]
  exact hdecode

/-- Where no repetition is told, what the loop for the interfaces builds is what is meant. -/
theorem linksBuilt_of_once (hdump : isDump req = true)
    (honce : ∀ before v after, visitsOf h = before ++ v :: after → v.again = true →
      maxFakeNetlinkReply < sizeOfLinks h before + 256) :
    linksBuilt req (foundLinks h req) buf.1 maxFakeNetlinkReply (requestSeq sent) pid.toNat =
      linksBuilt req ((firsts (visitsOf h)).map (Visit.info h)) buf.1 maxFakeNetlinkReply
        (requestSeq sent) pid.toNat := by
  rw [foundLinks_visits, askedOf, if_pos hdump]
  cases hagain : (visitsOf h).find? (·.again) with
  | none =>
      have hall : firsts (visitsOf h) = visitsOf h := by
        refine List.filter_eq_self.mpr fun v hv => ?_
        simpa using List.find?_eq_none.mp hagain v hv
      rw [hall]
  | some v =>
      obtain ⟨hv, before, after, hsplit, hbefore⟩ := List.find?_eq_some_iff_append.mp hagain
      have hfirsts : firsts (visitsOf h) = before ++ firsts after := by
        rw [hsplit, firsts_append]
        congr 1
        · exact List.filter_eq_self.mpr hbefore
        · exact List.filter_cons_of_neg (by simpa using hv)
      -- the first entry of its name comes before a repetition
      have hsome : before ≠ [] := by
        rintro rfl
        have hin := again_mem hsplit hv
        cases hin
      have hfull : maxFakeNetlinkReply < (dumpOf h pid sent buf before).1.off + 256 := by
        have hsized := @nlBuildLink_sized maxFakeNetlinkReply _ _ _ (requestSeq_lt sent) pid.toNat_lt
          (show nlmFMulti < 2 ^ 16 by decide) h before
        rw [dumpOf, fill_full_iff hsized (Nat.le_of_eq buf.2.symm)]
        show maxFakeNetlinkReply < 0 + sizeOfLinks h before + 256
        rw [Nat.zero_add]
        exact honce before v after hsplit hv
      have hcut : ∀ more, (dumpOf h pid sent buf (before ++ more)).1 =
          (dumpOf h pid sent buf before).1 := by
        intro more
        unfold dumpOf at hfull ⊢
        rw [fill_append, if_pos hfull]
      rw [linksBuilt_dump hdump (by rw [hsplit]; simp), hfirsts,
        linksBuilt_dump hdump (by simp [hsome]), hsplit, hcut, hcut]

theorem wellFormed_told (h : Host) (pid : UInt32) (sent : Option Bytes) (buf : ReplyBuffer) :
    WellFormed h pid.toNat sent (fun req => plan h req (foundLinks h req) (requestSeq sent) pid.toNat)
      (buildFakeNetlinkReply h pid sent buf.1) :=
  buildFakeNetlinkReply_wellFormed h pid sent buf (foundLinks h) (foundLinks_short h)
    fun _ _ _ => rfl

/-- The reply is what is meant where the loops go through it. -/
theorem wellFormed_of_plan (hread : readRequest sent = some req)
    (hplan : readLe 2 4 req = rtmGetlink → planLinks (foundLinks h req) req (requestSeq sent) pid.toNat =
      linkPlan (interfacesAsked h req) req (requestSeq sent) pid.toNat) :
    WellFormed h pid.toNat sent (fun req => meant h req (requestSeq sent) pid.toNat)
      (buildFakeNetlinkReply h pid sent buf.1) := by
  refine (wellFormed_told h pid sent buf).congr fun req' hread' => ?_
  rw [hread, Option.some.injEq] at hread'
  subst hread'
  exact plan_eq hplan

/-- **The condition is enough**: what the loop adds or leaves out isn't seen. -/
theorem wellFormed_of_listedOnce (hread : readRequest sent = some req) (honce : ListedOnce h req) :
    WellFormed h pid.toNat sent (fun req => meant h req (requestSeq sent) pid.toNat)
      (buildFakeNetlinkReply h pid sent buf.1) := by
  by_cases hlink : readLe 2 4 req = rtmGetlink
  swap
  · exact wellFormed_of_plan hread fun heq => absurd heq hlink
  have hlisted := honce hlink
  cases hdump : isDump req with
  | true =>
      rw [if_pos hdump] at hlisted
      have hshort : ∀ l ∈ (firsts (visitsOf h)).map (Visit.info h), l.Short :=
        List.forall_mem_map.mpr fun v _ => linkInfo_short h v.entry v.name
      refine (buildFakeNetlinkReply_wellFormed h pid sent buf
        (fun _ => (firsts (visitsOf h)).map (Visit.info h)) (fun _ => hshort) ?_).congr ?_
      · intro req' hread' _
        rw [hread, Option.some.injEq] at hread'
        subst hread'
        exact linksBuilt_of_once hdump hlisted
      · intro req' hread'
        rw [hread, Option.some.injEq] at hread'
        subst hread'
        refine plan_eq fun _ => ?_
        rw [planLinks_eq, interfacesAsked_visits, askedOf, if_pos hdump]
  | false =>
      rw [if_neg (by simp [hdump])] at hlisted
      refine wellFormed_of_plan hread fun _ => ?_
      rw [foundLinks_visits, interfacesAsked_visits, planLinks_eq, askedOf, askedOf,
        if_neg (by simp [hdump]), if_neg (by simp [hdump])]
      cases hfind : (visitsOf h).find? fun v => (v.told h).asked req with
      | none =>
          have hnone : (firsts (visitsOf h)).find? (fun v => (v.told h).asked req) = none :=
            List.find?_eq_none.mpr fun v hv =>
              List.find?_eq_none.mp hfind v (List.mem_of_mem_filter hv)
          rw [hnone]
      | some v =>
          cases hagain : v.again with
          | false =>
              obtain ⟨hv, before, after, hsplit, hbefore⟩ := List.find?_eq_some_iff_append.mp hfind
              have hsame : (firsts (visitsOf h)).find? (fun v => (v.told h).asked req) = some v := by
                refine List.find?_eq_some_iff_append.mpr ⟨hv, firsts before, firsts after, ?_, ?_⟩
                · rw [hsplit, firsts_append]
                  congr 1
                  exact List.filter_cons_of_pos (by simp [hagain])
                · exact fun w hw => hbefore w (List.mem_of_mem_filter hw)
              rw [hsame]
          | true =>
              obtain ⟨hnone, hloopback, hmessage⟩ := hlisted v hfind hagain
              have hmissing : (firsts (visitsOf h)).find? (fun v => (v.told h).asked req) = none := by
                refine List.find?_eq_none.mpr fun w hw => ?_
                have hin : w.told h ∈ interfaces h := by
                  rw [interfaces_eq]
                  exact List.mem_map_of_mem hw
                simp [hnone _ hin]
              have hsame : (v.told h).message (requestSeq sent) pid.toNat (multi req) =
                  loopbackInterface.message (requestSeq sent) pid.toNat (multi req) := by
                have hfixed := congrArg Message.fixed hmessage
                have hattrs := congrArg Message.attrs hmessage
                exact Message.mk.injEq .. ▸ ⟨rfl, rfl, rfl, rfl, hfixed, hattrs⟩
              rw [hmissing]
              unfold linkPlan
              simp [hsame, hloopback]

/-- A repetition that a dump tells isn't meant. -/
theorem full_of_wellFormed (hread : readRequest sent = some req) (hdump : isDump req = true)
    (hlink : readLe 2 4 req = rtmGetlink)
    (hreply : WellFormed h pid.toNat sent (fun req => meant h req (requestSeq sent) pid.toNat)
      (buildFakeNetlinkReply h pid sent buf.1)) {before after : List Visit} {v : Visit}
    (hsplit : visitsOf h = before ++ v :: after) (hagain : v.again = true) :
    maxFakeNetlinkReply < sizeOfLinks h before + 256 := by
  by_contra hfits
  have hsized := @nlBuildLink_sized maxFakeNetlinkReply _ _ _ (requestSeq_lt sent) pid.toNat_lt
    (show nlmFMulti < 2 ^ 16 by decide) h before
  have hcount : before.length < (dumpOf h pid sent buf (visitsOf h)).2 := by
    rw [hsplit, ← Nat.zero_add before.length]
    exact length_lt_fill hsized (Nat.le_of_eq buf.2.symm)
      (by show 0 + sizeOfLinks h before + 256 ≤ _; omega) v after 0
  have hsome : visitsOf h ≠ [] := by rw [hsplit]; simp
  -- what is told, and what is meant
  have htold := @linkDump_decode h pid sent buf req hread hdump hlink hsome
  obtain ⟨k, hk⟩ := Nat.exists_eq_add_of_lt hcount
  rw [hk, Nat.add_assoc, hsplit, List.take_append, List.take_of_length_le (by omega), Nat.add_sub_cancel_left,
    List.take_succ_cons] at htold
  obtain ⟨shown, d, ⟨n, hshown, -⟩, hdecode, -, -⟩ := hreply.dump req hread hdump
  have hfirst : firsts (visitsOf h) ≠ [] := by
    intro hnil
    have hin := again_mem hsplit hagain
    rw [hsplit, firsts_append, List.append_eq_nil_iff] at hnil
    rw [hnil.1] at hin
    cases hin
  have hmeant : meant h req (requestSeq sent) pid.toNat = (firsts (visitsOf h)).map fun v =>
      ⟨(v.told h).message (requestSeq sent) pid.toNat (multi req), 256⟩ := by
    rw [meant, planOf, if_pos hlink, interfacesAsked_visits, askedOf, if_pos hdump, linkPlan,
      if_pos (by simpa using hfirst), List.map_map]
    rfl
  rw [hmeant, ← List.map_take, List.map_map] at hshown
  rw [htold] at hdecode
  have hsame := List.append_inj_left' hdecode rfl
  rw [hshown] at hsame
  have hmulti : multi req = nlmFMulti := if_pos hdump
  rw [hmulti] at hsame
  have hnames := names_of_messages hsame
  -- the names of the interfaces that are meant are different
  have hnodup : (((firsts (visitsOf h)).take n).map (·.name)).Nodup :=
    (visitsOf_nodup h).sublist ((List.take_sublist n _).map _)
  rw [← hnames, List.map_append, List.nodup_append] at hnodup
  have hin := again_mem hsplit hagain
  rw [List.nil_append] at hin
  have hbefore : v.name ∈ before.map (·.name) := (List.filter_sublist.map _).subset hin
  exact hnodup.2.2 _ hbefore _ (List.mem_map_of_mem (List.mem_cons_self ..)) rfl

/-- One interface is told, and it is the one that is meant. -/
theorem single_of_wellFormed (hread : readRequest sent = some req) (hdump : isDump req = false)
    (hlink : readLe 2 4 req = rtmGetlink)
    (hreply : WellFormed h pid.toNat sent (fun req => meant h req (requestSeq sent) pid.toNat)
      (buildFakeNetlinkReply h pid sent buf.1))
    (hfind : (visitsOf h).find? (fun v => (v.told h).asked req) = some v) (hagain : v.again = true) :
    (∀ f ∈ interfaces h, f.asked req = false) ∧ loopbackAsked req = true ∧
      (v.told h).message 0 0 0 = loopbackInterface.message 0 0 0 := by
  have hone : ¬ isDump req = true := by simp [hdump]
  have htold := (wellFormed_told h pid sent buf).decode_single hread hdump
    (p := ⟨(v.told h).message (requestSeq sent) pid.toNat (multi req), 256⟩) (by
      rw [plan, if_pos hlink, foundLinks_visits, planLinks_eq, askedOf, if_neg hone, hfind]
      rfl)
  have hmeant : meant h req (requestSeq sent) pid.toNat = linkPlan
      (((firsts (visitsOf h)).find? fun v => (v.told h).asked req).toList.map (Visit.told h)) req
      (requestSeq sent) pid.toNat := by
    rw [meant, planOf, if_pos hlink, interfacesAsked_visits, askedOf, if_neg hone]
  cases hfirst : (firsts (visitsOf h)).find? fun v => (v.told h).asked req with
  | some w =>
      -- another interface is meant, whose entry comes later
      rw [hfirst] at hmeant
      have hdecode := hreply.decode_single hread hdump hmeant
      rw [htold, List.cons.injEq] at hdecode
      have hname := visit_name_of_message hdecode.1
      obtain ⟨-, before, after, hsplit, hbefore⟩ := List.find?_eq_some_iff_append.mp hfind
      have hw := List.mem_filter.mp (List.mem_of_find?_eq_some hfirst)
      have hnot : w.again = false := by simpa using hw.2
      have hin := hw.1
      rw [hsplit, List.mem_append, List.mem_cons] at hin
      rcases hin with hin | rfl | hin
      · have hasked := List.find?_some hfirst
        have hskipped := hbefore w hin
        rw [hasked] at hskipped
        cases hskipped
      · rw [hagain] at hnot
        cases hnot
      · exact absurd hname (name_ne_of_again hsplit hagain hin hnot)
  | none =>
      rw [hfirst, Option.toList_none, List.map_nil] at hmeant
      have hnone : ∀ f ∈ interfaces h, f.asked req = false := by
        rw [interfaces_eq]
        refine List.forall_mem_map.mpr fun w hw => ?_
        simpa using List.find?_eq_none.mp hfirst w hw
      cases hloopback : loopbackAsked req with
      | true =>
          have hplan : meant h req (requestSeq sent) pid.toNat =
              [⟨loopbackInterface.message (requestSeq sent) pid.toNat (multi req), 256⟩] := by
            rw [hmeant, linkPlan, if_neg (not_not.mpr rfl), if_pos (.inr hloopback)]
          have hdecode := hreply.decode_single hread hdump hplan
          rw [htold, List.cons.injEq] at hdecode
          have hfixed := congrArg Message.fixed hdecode.1
          have hattrs := congrArg Message.attrs hdecode.1
          exact ⟨hnone, rfl, Message.mk.injEq .. ▸ ⟨rfl, rfl, rfl, rfl, hfixed, hattrs⟩⟩
      | false =>
          have hplan : meant h req (requestSeq sent) pid.toNat =
              [⟨errorMessage (requestSeq sent) pid.toNat enodev, 256⟩] := by
            rw [hmeant, linkPlan, if_neg (not_not.mpr rfl), if_neg (by simp [hdump, hloopback])]
          have hdecode := hreply.decode_single hread hdump hplan
          rw [htold, List.cons.injEq] at hdecode
          have htype : rtmNewlink = nlmsgError := congrArg Message.type hdecode.1
          exact absurd htype (by decide)

end Replies

/-- **Which replies are well-formed**: for every request and every host, the reply decodes to what is
meant, as far as there is room for it, and a dump ends with one terminator, exactly when no repetition
is told. -/
theorem reply_wellFormed_iff (h : Host) (pid : UInt32) (sent : Option Bytes) (buf : ReplyBuffer) :
    WellFormed h pid.toNat sent (fun req => meant h req (requestSeq sent) pid.toNat)
        (buildFakeNetlinkReply h pid sent buf.1) ↔
      ∀ req, readRequest sent = some req → ListedOnce h req := by
  constructor
  · intro hreply req hread hlink
    split
    next hdump =>
      intro before v after hsplit hagain
      exact full_of_wellFormed hread hdump hlink hreply hsplit hagain
    next hdump =>
      intro v hfind hagain
      exact single_of_wellFormed hread (by simpa using hdump) hlink hreply hfind hagain
  · intro honce
    cases hread : readRequest sent with
    | none =>
        refine (wellFormed_told h pid sent buf).congr fun req hreq => ?_
        rw [hread] at hreq
        cases hreq
    | some req => exact wellFormed_of_listedOnce hread (honce req hread)

/-! ### A host with many interfaces -/

def vethName (n : Fin 65) : IfName where
  chars := [118, UInt8.ofNat (48 + n)]
  short := by
    show 2 < 16
    decide
  terminated := by
    revert n
    decide

/-- A host with 65 interfaces, the last of which has an address. -/
def vethHost : Host where
  getifaddrs := some ((List.ofFn fun n => ⟨some (vethName n), iffUp, none, none⟩) ++
    [⟨some (vethName 64), iffUp, some (.inet ⟨[192, 168, 0, 1], rfl⟩), none⟩])
  ifNametoindex := fun _ => 1
  socket := false
  mtu := fun _ => none
  hwaddr := fun _ => none
  routes := fun _ => none

/-- A dump of the interfaces, without an `ifinfomsg`. -/
def linkDumpRequest : Bytes := [16, 0, 0, 0, 18, 0, 1, 3, 1, 0, 0, 0, 0, 0, 0, 0]

def zeroBuffer : ReplyBuffer := ⟨List.replicate _ 0, List.length_replicate⟩

theorem visits_length (names : List IfName) (is : List Ifaddrs) :
    (visits names is).length ≤ is.length := by
  induction is generalizing names with
  | nil => exact Nat.le_refl 0
  | cons i rest ih =>
      unfold visits
      split
      next => exact Nat.le_succ_of_le (ih names)
      next name hname =>
        split_ifs
        · exact Nat.le_succ_of_le (ih names)
        · exact Nat.succ_le_succ (ih names)
        · exact Nat.succ_le_succ (ih _)

theorem sizeOfLinks_le (h : Host) (vs : List Visit) : sizeOfLinks h vs ≤ 100 * vs.length := by
  induction vs with
  | nil => exact Nat.le_refl 0
  | cons v vs ih =>
      have hone := size_le h v
      unfold sizeOfLinks at ih ⊢
      rw [List.map_cons, List.sum_cons, List.length_cons]
      omega

/-- The 65th interface is told for each of its two entries. -/
theorem reply_repeats : ¬ WellFormed vethHost 0 (some linkDumpRequest)
      (fun req => meant vethHost req (requestSeq (some linkDumpRequest)) 0)
      (buildFakeNetlinkReply vethHost 0 (some linkDumpRequest) zeroBuffer.1) := by
  intro hreply
  have hread : readRequest (some linkDumpRequest) = some linkDumpRequest := rfl
  obtain ⟨v, hv, hagain⟩ : ∃ v ∈ visitsOf vethHost, v.again = true := by
    have hany : (visitsOf vethHost).any (·.again) = true := by decide +kernel
    exact List.any_eq_true.mp hany
  obtain ⟨before, after, hsplit⟩ := List.append_of_mem hv
  have hfull := @full_of_wellFormed vethHost 0 (some linkDumpRequest) zeroBuffer _ hread (by decide)
    (by decide) hreply before after v hsplit hagain
  have hlength : (visitsOf vethHost).length ≤ 66 := by
    have hle := visits_length [] (vethHost.getifaddrs.getD [])
    exact Nat.le_trans hle (by simp [vethHost])
  have hsize := sizeOfLinks_le vethHost before
  rw [hsplit, List.length_append, List.length_cons] at hlength
  unfold maxFakeNetlinkReply at hfull
  omega

/-! ### A host with few interfaces -/

/-- **Each interface once**, in the order of the host, as long as the names can be remembered. -/
theorem visits_once {all : List IfName} (hall : all.length ≤ maxSeen) {is : List Ifaddrs}
    (his : ∀ i ∈ is, ∀ name, i.name = some name → name ∈ all)
    (hnames : names.Nodup) (hsub : names ⊆ all) :
    (∀ v ∈ visits names is, v.again = false) ∧
      ∀ name, name ∈ (visits names is).map (·.name) ↔
        name ∉ names ∧ ∃ i ∈ is, i.name = some name := by
  have hlen := (List.subperm_of_subset hnames hsub).length_le
  have htake : names.take maxSeen = names := List.take_of_length_le (by omega)
  induction is generalizing names with
  | nil => exact ⟨nofun, by simp [visits]⟩
  | cons i rest ih =>
      obtain ⟨hi, hrest⟩ := List.forall_mem_cons.mp his
      unfold visits
      split
      next hname =>
        obtain ⟨hfirst, hmem⟩ := ih hrest hnames hsub hlen htake
        refine ⟨hfirst, fun other => ?_⟩
        rw [hmem, List.exists_mem_cons_iff, hname]
        simp
      next name hname =>
        rw [htake]
        by_cases hold : name ∈ names
        · obtain ⟨hfirst, hmem⟩ := ih hrest hnames hsub hlen htake
          rw [if_pos hold]
          refine ⟨hfirst, fun other => ?_⟩
          rw [hmem, List.exists_mem_cons_iff, hname]
          constructor
          · rintro ⟨hnew, hlater⟩
            exact ⟨hnew, .inr hlater⟩
          · rintro ⟨hnew, hhere | hlater⟩
            · cases hhere
              exact absurd hold hnew
            · exact ⟨hnew, hlater⟩
        · -- the name is new, and there is room to remember it
          have hmore : (names ++ [name]).Nodup := by
            rw [← List.concat_eq_append]
            exact hnames.concat hold
          have hmoresub : names ++ [name] ⊆ all := by
            intro a ha
            rcases List.mem_append.mp ha with ha | ha
            · exact hsub ha
            · rw [List.mem_singleton.mp ha]
              exact hi name hname
          have hmorelen := (List.subperm_of_subset hmore hmoresub).length_le
          obtain ⟨hfirst, hmem⟩ := ih hrest hmore hmoresub hmorelen
            (List.take_of_length_le (by omega))
          rw [if_neg hold, if_neg hold]
          refine ⟨List.forall_mem_cons.mpr ⟨rfl, hfirst⟩, fun other => ?_⟩
          rw [List.map_cons, List.mem_cons, hmem, List.exists_mem_cons_iff, hname, List.mem_append,
            List.mem_singleton]
          constructor
          · rintro (rfl | ⟨hnew, hlater⟩)
            · exact ⟨hold, .inl rfl⟩
            · exact ⟨fun hin => hnew (.inl hin), .inr hlater⟩
          · rintro ⟨hnew, hhere | hlater⟩
            · cases hhere
              exact .inl rfl
            · by_cases heq : other = name
              · exact .inl heq
              · exact .inr ⟨fun hin => hin.elim hnew heq, hlater⟩

/-- **A dump lists each interface once.** getifaddrs(3) gives an entry for each address of an
interface; a host with no more names than the handler remembers, and with one at least, is told in one
message for each interface and the terminator. -/
theorem linkDump_once {h : Host} {sent : Option Bytes} {req : Bytes} (pid : UInt32)
    (buf : ReplyBuffer) (hread : readRequest sent = some req) (hdump : isDump req = true)
    (hlink : readLe 2 4 req = rtmGetlink) {all : List IfName} (hall : all.length ≤ maxSeen)
    (his : ∀ i ∈ h.getifaddrs.getD [], ∀ name, i.name = some name → name ∈ all)
    (hsome : ∃ i ∈ h.getifaddrs.getD [], i.name ≠ none) :
    ∃ names : List IfName, names.Nodup ∧
      (∀ name, name ∈ names ↔ ∃ i ∈ h.getifaddrs.getD [], i.name = some name) ∧
      (interfaces h).map Interface.name = names.map IfName.chars ∧
      decode (buildFakeNetlinkReply h pid sent buf.1).reply =
        (interfaces h).map (·.message (requestSeq sent) pid.toNat nlmFMulti) ++
          [doneMessage (requestSeq sent) pid.toNat] := by
  obtain ⟨hfirst, hmem⟩ := visits_once hall his List.nodup_nil (List.nil_subset all)
  have hall' : firsts (visitsOf h) = visitsOf h :=
    List.filter_eq_self.mpr fun v hv => by simpa using hfirst v hv
  have hinterfaces : interfaces h = (visitsOf h).map (Visit.told h) := by
    rw [← hall']
    exact interfaces_eq h
  have hnodup := visitsOf_nodup h
  rw [hall'] at hnodup
  have hsub : (visitsOf h).map (·.name) ⊆ all := by
    intro name hname
    obtain ⟨-, i, hi, heq⟩ := (hmem name).mp hname
    exact his i hi name heq
  have hlen := (List.subperm_of_subset hnodup hsub).length_le
  rw [List.length_map] at hlen
  have hne : visitsOf h ≠ [] := by
    obtain ⟨i, hi, hname⟩ := hsome
    obtain ⟨name, hname⟩ := Option.ne_none_iff_exists'.mp hname
    have hin := (hmem name).mpr ⟨List.not_mem_nil, i, hi, hname⟩
    rintro hnil
    rw [show visits [] (h.getifaddrs.getD []) = [] from hnil] at hin
    cases hin
  -- there is room for the last one, and so for all
  obtain ⟨before, v, hsplit⟩ : ∃ before v, visitsOf h = before ++ [v] :=
    ⟨_, _, (List.dropLast_append_getLast hne).symm⟩
  refine ⟨(visitsOf h).map (·.name), hnodup,
    fun name => (hmem name).trans (and_iff_right List.not_mem_nil), ?_, ?_⟩
  · rw [hinterfaces, List.map_map, List.map_map]
    rfl
  · have hsized := @nlBuildLink_sized maxFakeNetlinkReply _ _ _ (requestSeq_lt sent) pid.toNat_lt
      (show nlmFMulti < 2 ^ 16 by decide) h before
    have hsize := sizeOfLinks_le h before
    unfold maxSeen at hall
    have hcount : before.length < (dumpOf h pid sent buf (visitsOf h)).2 := by
      rw [hsplit, ← Nat.zero_add before.length]
      refine length_lt_fill hsized (Nat.le_of_eq buf.2.symm) ?_ v [] 0
      show 0 + sizeOfLinks h before + 256 ≤ maxFakeNetlinkReply
      rw [hsplit, List.length_append, List.length_singleton] at hlen
      unfold maxFakeNetlinkReply
      omega
    rw [linkDump_decode hread hdump hlink hne, hinterfaces, List.map_map, List.take_of_length_le]
    · rfl
    · have hlast := congrArg List.length hsplit
      rw [List.length_append, List.length_singleton] at hlast
      omega

/-- The loopback interface has two entries, and one message before the terminator. -/
theorem linkDump_once_lo : ∃ (h : Host) (sent : Bytes) (buf : ReplyBuffer),
    h.getifaddrs.map List.length = some 2 ∧
      (decode (buildFakeNetlinkReply h 0 (some sent) buf.1).reply).length = 2 := by
  let name : IfName := ⟨lo, by decide, by decide⟩
  let entry : Ifaddrs := ⟨some name, iffLoopback, none, none⟩
  let h : Host := ⟨some [entry, entry], fun _ => 1, false, fun _ => none, fun _ => none,
    fun _ => none⟩
  have his : ∀ i ∈ h.getifaddrs.getD [], ∀ n, i.name = some n → n ∈ [name] := by simp [h, entry]
  obtain ⟨names, -, -, -, hdecode⟩ := @linkDump_once h (some linkDumpRequest) linkDumpRequest 0
    zeroBuffer rfl (by decide) (by decide) [name] (by decide) his ⟨entry, List.mem_cons_self, nofun⟩
  refine ⟨h, linkDumpRequest, zeroBuffer, rfl, ?_⟩
  rw [hdecode]
  rfl

end Improot.Netlink
