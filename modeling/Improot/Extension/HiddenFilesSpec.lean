import Improot.Extension.HiddenFiles

/-!
# What is left of a listing

The filter of `handle_getdents` over the records of the kernel, and the calls of a tracee with those
that PRoot chains to them.
-/

namespace Improot.Extension

open Improot.Lib Improot.Path

/-! ## The filter -/

section Filter

variable {l : DirentLayout}

theorem hasprefix_eq {pre str : Bytes} (hend : 0 ∈ str) (more : Bytes) :
    hasprefix pre (str ++ more) = some (pre.isPrefixOf (str.takeWhile (· ≠ 0))) := by
  induction pre generalizing str with
  | nil => rfl
  | cons p pre ih =>
      cases str with
      | nil => simp at hend
      | cons c str =>
          rw [List.cons_append, hasprefix]
          by_cases hzero : c = 0
          · subst hzero
            simp
          · have hrest : 0 ∈ str := by
              cases List.mem_cons.mp hend with
              | inl heq => exact absurd heq.symm hzero
              | inr hmem => exact hmem
            by_cases hsame : p = c
            · simp [hzero, hsame, ih hrest]
            · simp [hzero, hsame, List.isPrefixOf]

theorem Dirent.length_pos (d : Dirent l) : l.name < d.bytes.length := by
  by_contra hle
  have hnamed := d.named
  rw [List.drop_eq_nil_of_le (by omega)] at hnamed
  simp at hnamed

theorem Dirent.readLe_append (d : Dirent l) (more : Bytes) :
    readLe 2 l.reclen (d.bytes ++ more) = d.bytes.length := by
  have hlen := d.length_pos
  have hle := l.reclen_le
  rw [← d.reclen, readLe, readLe, List.drop_append_of_le_length (by omega),
    List.take_append_of_le_length (by rw [List.length_drop]; omega)]

/-- **One turn of the loop**: a record is skipped, or copied if there is room. -/
theorem filterDirents_cons (d : Dirent l) (count : Nat) (more copy : Bytes) :
    filterDirents l count (d.bytes ++ more) copy =
      if d.hidden then filterDirents l count more copy
      else if count < copy.length + d.bytes.length then .error .overrun
      else filterDirents l count more (copy ++ d.bytes) := by
  have hlen := d.length_pos
  have hle := l.reclen_le
  have hne : d.bytes ++ more ≠ [] := by
    intro hnil
    have := congrArg List.length hnil
    rw [List.length_append, List.length_nil] at this
    omega
  have hname : hasprefix hiddenPrefix ((d.bytes ++ more).drop l.name) = some d.hidden := by
    rw [List.drop_append_of_le_length (by omega), hasprefix_eq d.named]
    rfl
  rw [filterDirents, if_neg hne, hname]
  simp only [d.readLe_append]
  rw [if_neg (by rw [List.length_append]; omega), if_neg (by omega), List.drop_left,
    List.take_left]
  by_cases hhidden : d.hidden = true
  · rw [if_pos hhidden, if_pos hhidden]
  · rw [if_neg hhidden, if_neg hhidden]
    by_cases hroom : count < copy.length + d.bytes.length
    · rw [if_pos (.inr hroom), if_pos hroom]
    · rw [if_neg (by rw [List.length_append]; omega), if_neg hroom]

def visible (records : List (Dirent l)) : List (Dirent l) := records.filter fun d => !d.hidden

theorem direntBytes_cons (d : Dirent l) (records : List (Dirent l)) :
    direntBytes (d :: records) = d.bytes ++ direntBytes records := rfl

/-- **The loops of `handle_getdents`** keep exactly the records that aren't to be hidden. -/
theorem filterDirents_eq (count : Nat) (records : List (Dirent l)) (copy : Bytes)
    (hroom : copy.length + (direntBytes records).length ≤ count) :
    filterDirents l count (direntBytes records) copy =
      .ok (copy ++ direntBytes (visible records)) := by
  induction records generalizing copy with
  | nil =>
      have hnil : direntBytes ([] : List (Dirent l)) = [] := rfl
      rw [hnil, filterDirents, if_pos rfl]
      simp [visible, direntBytes]
  | cons d records ih =>
      rw [direntBytes_cons, List.length_append] at hroom
      rw [direntBytes_cons, filterDirents_cons]
      by_cases hhidden : d.hidden = true
      · have hvisible : visible (d :: records) = visible records := by simp [visible, hhidden]
        rw [if_pos hhidden, hvisible]
        exact ih copy (by omega)
      · have hvisible : visible (d :: records) = d :: visible records := by
          simp [visible, hhidden]
        rw [if_neg hhidden, if_neg (by omega), hvisible, direntBytes_cons, ← List.append_assoc]
        exact ih (copy ++ d.bytes) (by rw [List.length_append]; omega)

theorem direntBytes_eq_nil {records : List (Dirent l)} : direntBytes records = [] ↔ records = [] := by
  cases records with
  | nil => simp [direntBytes]
  | cons d records =>
      have hlen := d.length_pos
      rw [direntBytes_cons]
      constructor
      · intro hnil
        have := congrArg List.length hnil
        rw [List.length_append, List.length_nil] at this
        omega
      · intro h
        cases h

end Filter

/-! ## One answer of the kernel -/

variable {l : DirentLayout}

section Reply

variable {t : HidingTracer} {dir? : Option CString} {call : Getdents}

def inGuestfs (t : HidingTracer) (dir? : Option CString) : Bool :=
  dir?.any (belongsToGuestfs t.bindings)

def GetdentsReply.allHidden {l : DirentLayout} : GetdentsReply l → Bool
  | .failed _ => false
  | .listed records => records ≠ [] && records.all Dirent.hidden

theorem allHidden_listed {records : List (Dirent l)} (hne : records ≠ []) :
    (GetdentsReply.listed records).allHidden = true ↔ direntBytes (visible records) = [] := by
  rw [direntBytes_eq_nil]
  simp [GetdentsReply.allHidden, visible, hne, List.filter_eq_nil_iff]

/-- What the kernel promises: an error is an errno, and the records fit in the buffer. -/
def GetdentsReply.Fits {l : DirentLayout} (count : Nat) : GetdentsReply l → Prop
  | .failed errno => 0 < errno ∧ errno < 4096
  | .listed records => (direntBytes records).length ≤ count

/-- Where `handle_getdents` does what it is there for: the arrays fit on the stack, and in a
directory of the rootfs there is no error and the records have the layout of PRoot's own ABI. -/
def GetdentsReply.Meets (t : HidingTracer) (dir? : Option CString) (call : Getdents) :
    GetdentsReply (call.layout t.traceeWord) → Prop
  | .failed _ => call.count ≤ t.stackRoom ∧ inGuestfs t dir? = false
  | .listed records => records = [] ∨ call.count ≤ t.stackRoom ∧
      (inGuestfs t dir? = true →
        call.count + call.count ≤ t.stackRoom ∧ (call.is64 ∨ t.tracerWord = t.traceeWord))

/-- The records to show: files are hidden in the directories of the rootfs only. -/
def shown {l : DirentLayout} (inside : Bool) (records : List (Dirent l)) : List (Dirent l) :=
  if inside then visible records else records

theorem layout_eq (h : call.is64 = true ∨ t.tracerWord = t.traceeWord) :
    call.layout t.tracerWord = call.layout t.traceeWord := by
  unfold Getdents.layout
  cases h with
  | inl h64 => rw [if_pos h64, if_pos h64]
  | inr hword => rw [hword]

/-- **What becomes of a listing**: another call, the records to show, or nothing. -/
theorem handleGetdents_eq {reply : GetdentsReply (call.layout t.traceeWord)}
    (hcount : call.count < 2 ^ 32) (hfits : reply.Fits call.count)
    (hmeets : reply.Meets t dir? call) :
    handleGetdents t dir? call reply.result reply.buffer =
      if inGuestfs t dir? && reply.allHidden then .chained
      else if inGuestfs t dir? && !reply.records.isEmpty then
        .rewritten (direntBytes (visible reply.records))
      else .kept := by
  cases reply with
  | failed errno =>
      obtain ⟨hpos, hlt⟩ := hfits
      obtain ⟨hstack, houtside⟩ := hmeets
      have hres : (2 ^ 64 - errno) % 2 ^ 32 ≠ 0 := by omega
      have hroom : ¬ t.stackRoom < call.count := by omega
      simp only [handleGetdents, GetdentsReply.result, GetdentsReply.allHidden, houtside,
        if_neg hres, if_neg hroom]
      cases dir? with
      | none => simp
      | some path =>
          have hpath : belongsToGuestfs t.bindings path = false := houtside
          simp [hpath]
  | listed records =>
      by_cases hnil : records = []
      · subst hnil
        simp [handleGetdents, GetdentsReply.result, GetdentsReply.allHidden, direntBytes,
          GetdentsReply.records]
      · obtain ⟨hstack, hwhere⟩ := hmeets.resolve_left hnil
        have hsize : (direntBytes records).length ≤ call.count := hfits
        have hne : (direntBytes records).length ≠ 0 := by
          intro hzero
          exact hnil (direntBytes_eq_nil.mp (List.length_eq_zero_iff.mp hzero))
        have hres : (direntBytes records).length % 2 ^ 32 = (direntBytes records).length :=
          Nat.mod_eq_of_lt (by omega)
        have hroom : ¬ t.stackRoom < call.count := by omega
        show handleGetdents t dir? call (direntBytes records).length (direntBytes records) =
          if inGuestfs t dir? && (GetdentsReply.listed records).allHidden then .chained
          else if inGuestfs t dir? && !records.isEmpty then
            .rewritten (direntBytes (visible records))
          else .kept
        simp only [handleGetdents, hres, if_neg hne, if_neg hroom]
        have hempty : records.isEmpty = false := by simpa using hnil
        by_cases hguest : inGuestfs t dir? = true
        · obtain ⟨htwice, hlayout⟩ := hwhere hguest
          rw [hguest, Bool.true_and, Bool.true_and]
          cases dir? with
          | none => cases hguest
          | some path =>
              have hpath : belongsToGuestfs t.bindings path = true := hguest
              have hfilter := filterDirents_eq call.count records [] (by simpa using hsize)
              rw [List.nil_append] at hfilter
              simp only [if_pos hpath, layout_eq hlayout, List.take_length, hfilter]
              rw [if_neg (by omega), if_neg (by omega)]
              by_cases hall : direntBytes (visible records) = []
              · rw [if_pos hall, if_pos ((allHidden_listed hnil).mpr hall)]
              · rw [if_neg hall, if_neg (fun h => hall ((allHidden_listed hnil).mp h)),
                  if_pos (by rw [hempty]; rfl)]
        · rw [Bool.not_eq_true] at hguest
          rw [hguest, Bool.false_and, Bool.false_and, if_neg Bool.false_ne_true,
            if_neg Bool.false_ne_true]
          cases dir? with
          | none => rfl
          | some path =>
              have hpath : belongsToGuestfs t.bindings path = false := hguest
              simp [hpath]

end Reply

/-! ## Calls of a tracee -/

/-- A call, with what the kernel answers to it and to the calls that are chained to it. -/
structure ListingCall (t : HidingTracer) where
  call : Getdents
  replies : List (GetdentsReply (call.layout t.traceeWord))

/-- The answers that PRoot waits for: in a directory of the rootfs, it goes on as long as all is to
be hidden. -/
def Asked {l : DirentLayout} (inside : Bool) : List (GetdentsReply l) → Prop
  | [] => False
  | [reply] => (inside && reply.allHidden) = false
  | reply :: replies => (inside && reply.allHidden) = true ∧ Asked inside replies

namespace ListingCall

variable {t : HidingTracer} {dir? : Option CString}

structure Answered (dir? : Option CString) (c : ListingCall t) : Prop where
  count : c.call.count < 2 ^ 32
  asked : Asked (inGuestfs t dir?) c.replies
  fits : ∀ reply ∈ c.replies, reply.Fits c.call.count

def answer (dir? : Option CString) (c : ListingCall t) :
    Option (Except GetdentsFault GetdentsAnswer) :=
  answerGetdents t dir? c.call c.replies

def received (dir? : Option CString) (c : ListingCall t) : Bytes :=
  match c.answer dir? with
  | some (.ok a) => a.bytes
  | _ => []

def expected (dir? : Option CString) (c : ListingCall t) : Bytes :=
  direntBytes (shown (inGuestfs t dir?) (c.replies.flatMap GetdentsReply.records))

/-- What is expected of an answer `a` to the last one of the kernel: 0 only at the end, every error
as it is, and otherwise the length of the records. -/
structure Result {l : DirentLayout} (last : Option (GetdentsReply l)) (a : GetdentsAnswer) :
    Prop where
  zero : a.result = 0 → last = some (.listed [])
  failed : ∀ errno, last = some (.failed errno) → a.result = 2 ^ 64 - errno
  listed : ∀ records, last = some (.listed records) → a.result = a.bytes.length

/-- What is expected of the answer to a call: it is given without a fault. -/
def Faithful (dir? : Option CString) (c : ListingCall t) : Prop :=
  ∃ a, c.answer dir? = some (.ok a) ∧ Result c.replies.getLast? a

end ListingCall

section Session

variable {t : HidingTracer} {dir? : Option CString}

theorem shown_append (inside : Bool) (records records' : List (Dirent l)) :
    shown inside (records ++ records') = shown inside records ++ shown inside records' := by
  cases inside with
  | false => rfl
  | true => exact List.filter_append ..

theorem shown_nil (inside : Bool) : shown inside ([] : List (Dirent l)) = [] := by
  cases inside with
  | false | true => rfl

theorem shown_allHidden {reply : GetdentsReply l}
    (hall : reply.allHidden = true) : shown true reply.records = [] := by
  cases reply with
  | failed errno => rfl
  | listed records =>
      apply List.filter_eq_nil_iff.mpr
      intro d hd
      have hhidden := List.all_eq_true.mp (Bool.and_eq_true_iff.mp hall).2 d hd
      simp [hhidden]

theorem result_kept {count : Nat} {reply : GetdentsReply l}
    (hfits : reply.Fits count) : ListingCall.Result (some reply) ⟨reply.result, reply.buffer⟩ := by
  cases reply with
  | failed errno =>
      refine ⟨?_, ?_, ?_⟩
      · intro hzero
        have hlt := hfits.2
        have hzero : 2 ^ 64 - errno = 0 := hzero
        omega
      · intro errno' heq
        cases heq
        rfl
      · intro records heq
        cases heq
  | listed records =>
      refine ⟨?_, ?_, fun records' heq => rfl⟩
      · intro hzero
        have hnil := direntBytes_eq_nil.mp (List.length_eq_zero_iff.mp hzero)
        rw [hnil]
      · intro errno heq
        cases heq

theorem result_rewritten {reply : GetdentsReply l} (hne : reply.records ≠ [])
    (hshown : reply.allHidden = false) :
    ListingCall.Result (some reply)
      ⟨(direntBytes (visible reply.records)).length, direntBytes (visible reply.records)⟩ := by
  cases reply with
  | failed errno => exact absurd rfl hne
  | listed records =>
      refine ⟨?_, ?_, fun records' heq => rfl⟩
      · intro hzero
        have hall : (GetdentsReply.listed records).allHidden = true :=
          (allHidden_listed hne).mpr (List.length_eq_zero_iff.mp hzero)
        rw [hshown] at hall
        cases hall
      · intro errno heq
        cases heq

theorem answerGetdents_last {call : Getdents} {reply : GetdentsReply (call.layout t.traceeWord)}
    (hcount : call.count < 2 ^ 32) (hfits : reply.Fits call.count)
    (hmeets : reply.Meets t dir? call) (hlast : (inGuestfs t dir? && reply.allHidden) = false) :
    ∃ a, answerGetdents t dir? call [reply] = some (.ok a) ∧ ListingCall.Result (some reply) a ∧
      a.bytes = direntBytes (shown (inGuestfs t dir?) reply.records) := by
  have hout := handleGetdents_eq hcount hfits hmeets
  rw [hlast, if_neg Bool.false_ne_true] at hout
  by_cases hrewritten : (inGuestfs t dir? && !reply.records.isEmpty) = true
  · rw [if_pos hrewritten] at hout
    obtain ⟨hguest, hempty⟩ := Bool.and_eq_true_iff.mp hrewritten
    have hne : reply.records ≠ [] := by simpa using hempty
    rw [hguest, Bool.true_and] at hlast
    refine ⟨⟨(direntBytes (visible reply.records)).length, direntBytes (visible reply.records)⟩,
      ?_, result_rewritten hne hlast, ?_⟩
    · rw [answerGetdents.eq_def]
      simp only [hout]
    · rw [hguest]
      rfl
  · rw [if_neg hrewritten] at hout
    refine ⟨⟨reply.result, reply.buffer⟩, ?_, result_kept hfits, ?_⟩
    · rw [answerGetdents.eq_def]
      simp only [hout]
    · have hbuffer : reply.buffer = direntBytes reply.records := by
        cases reply with
        | failed | listed => rfl
      show reply.buffer = direntBytes (shown (inGuestfs t dir?) reply.records)
      rw [hbuffer]
      by_cases hguest : inGuestfs t dir? = true
      · have hnil : reply.records = [] := by simpa [hguest] using hrewritten
        rw [hnil, shown_nil]
      · rw [Bool.not_eq_true] at hguest
        rw [hguest]
        rfl

/-- **The answer to a call**, whatever is chained to it: what PRoot skips has no record to show. -/
theorem answerGetdents_eq {call : Getdents} (hcount : call.count < 2 ^ 32)
    {replies : List (GetdentsReply (call.layout t.traceeWord))}
    (hasked : Asked (inGuestfs t dir?) replies)
    (hfits : ∀ reply ∈ replies, reply.Fits call.count)
    (hmeets : ∀ reply ∈ replies, reply.Meets t dir? call) :
    ∃ a, answerGetdents t dir? call replies = some (.ok a) ∧
      ListingCall.Result replies.getLast? a ∧
      a.bytes = direntBytes (shown (inGuestfs t dir?) (replies.flatMap GetdentsReply.records)) := by
  induction replies with
  | nil => exact hasked.elim
  | cons reply replies ih =>
      have hfirst := hfits reply List.mem_cons_self
      have hmeet := hmeets reply List.mem_cons_self
      cases replies with
      | nil =>
          have hlast := answerGetdents_last hcount hfirst hmeet hasked
          simpa using hlast
      | cons next replies =>
          obtain ⟨hskip, hrest⟩ := hasked
          obtain ⟨a, ha, hresult, hbytes⟩ := ih hrest
            (fun r hr => hfits r (List.mem_cons_of_mem _ hr))
            (fun r hr => hmeets r (List.mem_cons_of_mem _ hr))
          have hout := handleGetdents_eq hcount hfirst hmeet
          rw [if_pos hskip] at hout
          obtain ⟨hguest, hall⟩ := Bool.and_eq_true_iff.mp hskip
          refine ⟨a, ?_, ?_, ?_⟩
          · rw [← ha, answerGetdents.eq_def]
            simp only [hout]
          · rwa [List.getLast?_cons_cons]
          · rw [List.flatMap_cons, shown_append, hguest, shown_allHidden hall, List.nil_append,
              ← hguest]
            exact hbytes

/-- **Hiding files filters the listing and nothing else**, over every sequence of calls on a
directory in which each answer of the kernel meets the condition: every call is answered as
expected, and the records of all answers are those of the kernel, in order; in a directory of the
rootfs, without the ones to be hidden. -/
theorem hiddenFiles_faithful (t : HidingTracer) (dir? : Option CString) (calls : List (ListingCall t))
    (hkernel : ∀ c ∈ calls, c.Answered dir?)
    (hmeets : ∀ c ∈ calls, ∀ reply ∈ c.replies, reply.Meets t dir? c.call) :
    (∀ c ∈ calls, c.Faithful dir?) ∧
      calls.flatMap (ListingCall.received dir?) = calls.flatMap (ListingCall.expected dir?) := by
  have heach (c : ListingCall t) (hc : c ∈ calls) :
      c.Faithful dir? ∧ c.received dir? = c.expected dir? := by
    have hanswered := hkernel c hc
    obtain ⟨a, ha, hresult, hbytes⟩ := answerGetdents_eq hanswered.count hanswered.asked
      hanswered.fits (hmeets c hc)
    refine ⟨⟨a, ha, hresult⟩, ?_⟩
    rw [ListingCall.received, ListingCall.answer, ha]
    exact hbytes
  refine ⟨fun c hc => (heach c hc).1, ?_⟩
  induction calls with
  | nil => rfl
  | cons c calls ih =>
      rw [List.flatMap_cons, List.flatMap_cons, (heach c List.mem_cons_self).2]
      congr 1
      apply ih
      · exact fun c hc => hkernel c (List.mem_cons_of_mem _ hc)
      · exact fun c hc => hmeets c (List.mem_cons_of_mem _ hc)
      · exact fun c hc => heach c (List.mem_cons_of_mem _ hc)

end Session

def rootfsTracer : HidingTracer where
  tracerWord := 8
  traceeWord := 8
  bindings :=
    let root := ⟨0, ['/', 'r'], ['/'], false⟩
    ⟨[], [root], [root], 1⟩
  stackRoom := 1024

def visibleDirent : Dirent linuxDirent64 where
  bytes := List.replicate 16 0 ++ [24, 0, 8] ++ [97, 0, 0, 0, 0]
  reclen := by decide
  named := by decide

def hiddenDirent : Dirent linuxDirent64 where
  bytes := List.replicate 16 0 ++ [32, 0, 8] ++ hiddenPrefix ++ [0, 0, 0, 0, 0, 0, 0]
  reclen := by decide
  named := by decide

/-- A directory with a hidden file is listed: the buffers hold a record each. -/
def listing : List (ListingCall rootfsTracer) :=
  [⟨⟨true, 40⟩, [.listed [visibleDirent]]⟩, ⟨⟨true, 40⟩, [.listed [hiddenDirent], .listed []]⟩]

theorem meets_rootfsTracer {dir? : Option CString} (records : List (Dirent linuxDirent64)) :
    GetdentsReply.Meets rootfsTracer dir? ⟨true, 40⟩ (.listed records) := by
  refine .inr ⟨?_, fun _ => ⟨?_, .inl rfl⟩⟩
  · show 40 ≤ 1024
    omega
  · show 40 + 40 ≤ 1024
    omega

theorem answered_listing : ∀ c ∈ listing, c.Answered (some ['/', 'r', '/', 'd']) := by
  have hguest : inGuestfs rootfsTracer (some ['/', 'r', '/', 'd']) = true := by decide
  have hcount : 40 < 2 ^ 32 := by omega
  intro c hc
  cases List.mem_cons.mp hc with
  | inl heq =>
      subst heq
      refine ⟨hcount, ?_, ?_⟩
      · rw [hguest]
        show (GetdentsReply.listed [visibleDirent]).allHidden = false
        decide
      · intro reply hreply
        rw [List.mem_singleton.mp hreply]
        show (direntBytes [visibleDirent]).length ≤ 40
        decide
  | inr hmem =>
      rw [List.mem_singleton.mp hmem]
      refine ⟨hcount, ?_, ?_⟩
      · rw [hguest]
        show (GetdentsReply.listed [hiddenDirent]).allHidden = true ∧
          (GetdentsReply.listed ([] : List (Dirent linuxDirent64))).allHidden = false
        decide
      · intro reply hreply
        cases List.mem_cons.mp hreply with
        | inl heq =>
            rw [heq]
            show (direntBytes [hiddenDirent]).length ≤ 40
            decide
        | inr hmem =>
            rw [List.mem_singleton.mp hmem]
            exact Nat.zero_le _

theorem hiddenFiles_faithful_listing : (∀ c ∈ listing, c.Faithful (some ['/', 'r', '/', 'd'])) ∧
      listing.flatMap (ListingCall.received (some ['/', 'r', '/', 'd'])) =
        listing.flatMap (ListingCall.expected (some ['/', 'r', '/', 'd'])) := by
  apply hiddenFiles_faithful rootfsTracer (some ['/', 'r', '/', 'd']) listing answered_listing
  intro c hc reply hreply
  cases List.mem_cons.mp hc with
  | inl heq =>
      subst heq
      rw [List.mem_singleton.mp hreply]
      exact meets_rootfsTracer _
  | inr hmem =>
      have heq := List.mem_singleton.mp hmem
      subst heq
      cases List.mem_cons.mp hreply with
      | inl heq =>
          rw [heq]
          exact meets_rootfsTracer _
      | inr hmem =>
          rw [List.mem_singleton.mp hmem]
          exact meets_rootfsTracer _

def hiddenCall : ListingCall rootfsTracer := ⟨⟨true, 40⟩, [.listed [hiddenDirent]]⟩

/-- In a directory that is bound into the rootfs, the file ".proot" is listed: what the tracee gets
isn't the listing of the kernel without the names that have the prefix. -/
theorem not_hidden_outside : hiddenCall.Answered (some ['/', 'b']) ∧
      hiddenCall.received (some ['/', 'b']) ≠
        direntBytes (visible (hiddenCall.replies.flatMap GetdentsReply.records)) := by
  refine ⟨⟨by show 40 < 2 ^ 32; omega, ?_, ?_⟩, ?_⟩
  · have houtside : inGuestfs rootfsTracer (some ['/', 'b']) = false := by decide
    rw [houtside]
    rfl
  · intro reply hreply
    rw [List.mem_singleton.mp hreply]
    show (direntBytes [hiddenDirent]).length ≤ 40
    decide
  · decide

end Improot.Extension
