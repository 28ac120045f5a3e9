import Mathlib.Algebra.Group.Int.Defs
import Mathlib.Data.List.Find
import Mathlib.Data.List.MinMax
import Improot.SysVIpc.MsgReceive

/-!
# Which message msgrcv(2) takes

The selection of msgop(2) is a search for the first message of the lowest type when the selector is
negative, and `MSG_EXCEPT` only means something for a positive one. `sysvipc_msg_match` looks at one
message at a time, negates its answer for `MSG_EXCEPT` whatever the selector, and reads the types as
`int`s. Where the two come to the same message is stated over the messages that are queued.
-/

namespace Improot.SysVIpc

/-! ## What is prescribed -/

def admits (typ : Int) (except : Bool) (item : MsgQueueItem) : Bool :=
  if typ = 0 then true
  else if typ < 0 then item.mtype.toInt ≤ -typ
  else if except then item.mtype.toInt ≠ typ
  else item.mtype.toInt = typ

def preferred (typ : Int) (except : Bool) (items : List MsgQueueItem) (item : MsgQueueItem) : Bool :=
  decide (typ < 0 → ∀ other ∈ items, admits typ except other = true →
    item.mtype.toInt ≤ other.mtype.toInt)

def eligible (typ : Int) (except : Bool) (items : List MsgQueueItem) (item : MsgQueueItem) : Bool :=
  admits typ except item && preferred typ except items item

/-- **The message that msgop(2) prescribes**; with `MSG_COPY` the selector is a position. -/
def prescribed (typ : Word) (flags : BitVec 32) (items : List MsgQueueItem) :
    Option MsgQueueItem :=
  if has flags msgCopy then
    if typ.toInt < 0 then none else items[typ.toInt.toNat]?
  else items.find? (eligible typ.toInt (has flags msgExcept) items)

/-! ## When the code finds it -/

def position (typ : Int) (items : List MsgQueueItem) : Option Nat :=
  if 0 ≤ typ ∧ typ < items.length then some typ.toNat else none

/-- The first message that is eligible or matches is eligible and matches.  With `MSG_COPY`, the
`int` means the same position. -/
def SelectsRight (typ : Word) (flags : BitVec 32) (items : List MsgQueueItem) : Prop :=
  if has flags msgCopy then position (int typ).toInt items = position typ.toInt items
  else
    ∀ item ∈ items.find? fun item => eligible typ.toInt (has flags msgExcept) items item ||
        msgMatch (int item.mtype) (int typ) flags,
      eligible typ.toInt (has flags msgExcept) items item = true ∧
        msgMatch (int item.mtype) (int typ) flags = true

theorem find?_eq_find?_iff {α : Type*} {p q : α → Bool} {l : List α} :
    l.find? q = l.find? p ↔ ∀ x ∈ l.find? fun x => p x || q x, p x = true ∧ q x = true := by
  induction l with
  | nil => simp
  | cons x l ih =>
      by_cases hp : p x = true
      · by_cases hq : q x = true
        · simp [hp, hq]
        · have hne : l.find? q ≠ some x := fun h => hq (List.find?_some h)
          simp [hp, hq, hne]
      · by_cases hq : q x = true
        · have hne : some x ≠ l.find? p := fun h => hp (List.find?_some h.symm)
          simp [hp, hq, hne]
        · simpa [hp, hq] using ih

variable {items : List MsgQueueItem}

theorem getElem?_position {typ : Int} :
    (position typ items).bind (items[·]?) = if typ < 0 then none else items[typ.toNat]? := by
  unfold position
  by_cases hneg : typ < 0
  · rw [if_neg (by omega), if_pos hneg]
    rfl
  · rw [if_neg hneg]
    by_cases hlt : typ < items.length
    · rw [if_pos ⟨by omega, hlt⟩]
      rfl
    · rw [if_neg (by omega), List.getElem?_eq_none (by omega)]
      rfl

theorem position_eq_iff {typ typ' : Int} (hnodup : items.Nodup) :
    ((position typ items).bind (items[·]?) = (position typ' items).bind (items[·]?)) ↔
      position typ items = position typ' items := by
  constructor
  · have hlt : ∀ {typ : Int} {i : Nat}, position typ items = some i → i < items.length := by
      intro typ i h
      unfold position at h
      split at h
      · cases h
        omega
      · cases h
    intro h
    cases hi : position typ items with
    | none =>
        cases hj : position typ' items with
        | none => rfl
        | some j =>
            rw [hi, hj, Option.bind_none, Option.bind_some, List.getElem?_eq_getElem (hlt hj)] at h
            cases h
    | some i =>
        cases hj : position typ' items with
        | none =>
            rw [hi, hj, Option.bind_none, Option.bind_some, List.getElem?_eq_getElem (hlt hi)] at h
            cases h
        | some j =>
            rw [hi, hj, Option.bind_some, Option.bind_some, List.getElem?_eq_getElem (hlt hi),
              List.getElem?_eq_getElem (hlt hj), Option.some.injEq,
              hnodup.getElem_inj_iff] at h
            rw [h]
  · intro h
    rw [h]

theorem foundItem_eq_prescribed_iff {c : Config} {typ : Word}
    (hnodup : items.Nodup) (htyp : c.msgrcvMsgtyp = int typ) :
    foundItem c items = prescribed typ c.msgrcvMsgflg items ↔
      SelectsRight typ c.msgrcvMsgflg items := by
  unfold foundItem prescribed SelectsRight
  by_cases hcopy : has c.msgrcvMsgflg msgCopy = true
  · simp only [hcopy, if_true]
    rw [← position_eq_iff hnodup, getElem?_position, getElem?_position, htyp]
    have hneg : (int typ).slt 0 = true ↔ (int typ).toInt < 0 := by
      rw [BitVec.slt_iff_toInt_lt]
      rfl
    by_cases h : (int typ).toInt < 0
    · rw [if_pos (hneg.mpr h), if_pos h]
    · have hnat : (int typ).toNat = (int typ).toInt.toNat := by
        have := BitVec.toInt_eq_toNat_cond (int typ)
        split at this <;> omega
      rw [if_neg (mt hneg.mp h), if_neg h, hnat]
  · simp only [hcopy, Bool.false_eq_true, if_false]
    rw [← find?_eq_find?_iff]
    have hselects : c.selects = fun item => msgMatch (int item.mtype) (int typ) c.msgrcvMsgflg := by
      funext item
      rw [Config.selects, htyp]
    rw [hselects]

/-! ## Types that fit an `int` -/

/-- The selector and the types of the messages fit an `int`, and msgsnd(2) accepted the types. -/
structure FitsInt (typ : Word) (items : List MsgQueueItem) : Prop where
  selector : -2 ^ 31 < typ.toInt ∧ typ.toInt < 2 ^ 31
  types : ∀ item ∈ items, 1 ≤ item.mtype.toInt ∧ item.mtype.toInt < 2 ^ 31

theorem int_toInt {w : Word} (h : -2 ^ 31 < w.toInt ∧ w.toInt < 2 ^ 31) :
    (int w).toInt = w.toInt := by
  have hnat := BitVec.toInt_eq_toNat_cond w
  have hlt := w.isLt
  unfold int
  rw [BitVec.toInt_setWidth, Int.bmod_def]
  split at hnat <;> split <;> omega

theorem msgMatch_int {mtype typ : Word} {flags : BitVec 32}
    (hmtype : 1 ≤ mtype.toInt ∧ mtype.toInt < 2 ^ 31)
    (htyp : -2 ^ 31 < typ.toInt ∧ typ.toInt < 2 ^ 31) :
    msgMatch (int mtype) (int typ) flags =
      ((has flags msgExcept) ^^
        decide (typ.toInt = 0 ∨ mtype.toInt = typ.toInt ∨
          (typ.toInt < 0 ∧ mtype.toInt ≤ -typ.toInt))) := by
  have hm : (int mtype).toInt = mtype.toInt := int_toInt ⟨by omega, hmtype.2⟩
  have ht := int_toInt htyp
  have hneg : (-(int typ)).toInt = -typ.toInt := by
    rw [BitVec.toInt_neg, ht, Int.bmod_def]
    split <;> omega
  have hzero : ((int typ) == 0) = decide (typ.toInt = 0) := by
    rw [Bool.eq_iff_iff, beq_iff_eq, decide_eq_true_eq, ← BitVec.toInt_inj, ht]
    rfl
  have hequal : ((int mtype) == (int typ)) = decide (mtype.toInt = typ.toInt) := by
    rw [Bool.eq_iff_iff, beq_iff_eq, decide_eq_true_eq, ← BitVec.toInt_inj, ht, hm]
  have hless : (int typ).slt 0 = decide (typ.toInt < 0) := by
    rw [Bool.eq_iff_iff, BitVec.slt_iff_toInt_lt, decide_eq_true_eq, ht]
    rfl
  have hatMost : (int mtype).sle (-(int typ)) = decide (mtype.toInt ≤ -typ.toInt) := by
    rw [Bool.eq_iff_iff, BitVec.sle_iff_toInt_le, decide_eq_true_eq, hneg, hm]
  unfold msgMatch
  simp only [hzero, hequal, hless, hatMost]
  cases has flags msgExcept <;> simp [Bool.or_assoc]

theorem exists_lowest {items : List MsgQueueItem} (h : items ≠ []) :
    ∃ item ∈ items, ∀ other ∈ items, item.mtype.toInt ≤ other.mtype.toInt := by
  obtain ⟨item, hitem⟩ := Option.ne_none_iff_exists'.mp
    (mt List.argmin_eq_none.mp h : items.argmin (·.mtype.toInt) ≠ none)
  exact ⟨item, List.argmin_mem hitem, fun other hother =>
    List.le_of_mem_argmin (f := fun item => item.mtype.toInt) hother hitem⟩

section FitsInt

variable {typ : Word} {flags : BitVec 32} {items : List MsgQueueItem}

theorem selectsRight_iff (hcopy : has flags msgCopy = false) :
    SelectsRight typ flags items ↔
      ∀ item ∈ items.find? fun item => eligible typ.toInt (has flags msgExcept) items item ||
          msgMatch (int item.mtype) (int typ) flags,
        eligible typ.toInt (has flags msgExcept) items item = true ∧
          msgMatch (int item.mtype) (int typ) flags = true := by
  simp [SelectsRight, hcopy]

theorem selectsRight_never (hcopy : has flags msgCopy = false)
    (hsome : items ≠ [] → ∃ item ∈ items,
      (eligible typ.toInt (has flags msgExcept) items item ||
        msgMatch (int item.mtype) (int typ) flags) = true)
    (hnot : ∀ item ∈ items, ¬ (eligible typ.toInt (has flags msgExcept) items item = true ∧
      msgMatch (int item.mtype) (int typ) flags = true)) :
    SelectsRight typ flags items ↔ items = [] := by
  rw [selectsRight_iff hcopy]
  constructor
  · intro h
    by_contra hne
    obtain ⟨item, hitem, hfound⟩ := hsome hne
    have hisSome : (items.find? fun item => eligible typ.toInt (has flags msgExcept) items item ||
        msgMatch (int item.mtype) (int typ) flags).isSome = true := by
      rw [List.find?_isSome]
      exact ⟨item, hitem, hfound⟩
    obtain ⟨x, hx⟩ := Option.isSome_iff_exists.mp hisSome
    exact hnot x (List.mem_of_find?_eq_some hx) (h x hx)
  · rintro rfl item hitem
    cases hitem

/-- With `MSG_COPY`, the selector is the `int`, or none of the two is a position. -/
theorem selectsRight_copy (hcopy : has flags msgCopy = true) :
    SelectsRight typ flags items ↔
      (int typ).toInt = typ.toInt ∨
        (¬ (0 ≤ typ.toInt ∧ typ.toInt < items.length) ∧
          ¬ (0 ≤ (int typ).toInt ∧ (int typ).toInt < items.length)) := by
  rw [SelectsRight, if_pos hcopy, position, position]
  split_ifs <;> simp <;> omega

/-- For a positive selector that fits an `int`, and types that needn't: the first message whose type
is the selector as an `int` is of this very type. -/
theorem selectsRight_wide (hcopy : has flags msgCopy = false)
    (hexcept : has flags msgExcept = false) (htyp : 0 < typ.toInt ∧ typ.toInt < 2 ^ 31) :
    SelectsRight typ flags items ↔
      ∀ item ∈ items.find? fun item => int item.mtype == int typ, item.mtype = typ := by
  have hint := int_toInt (w := typ) ⟨by omega, htyp.2⟩
  have heligible : ∀ item, eligible typ.toInt false items item = decide (item.mtype = typ) := by
    intro item
    rw [eligible, admits, preferred, if_neg (by omega), if_neg (by omega), if_neg (by simp)]
    simp [Int.not_lt.mpr (Int.le_of_lt htyp.1), BitVec.toInt_inj]
  have hmatch : ∀ item : MsgQueueItem, msgMatch (int item.mtype) (int typ) flags =
      (int item.mtype == int typ) := by
    intro item
    have hne : (int typ == 0#32) = false := by
      rw [beq_eq_false_iff_ne]
      intro h
      rw [h, BitVec.toInt_zero] at hint
      omega
    have hpos : (int typ).slt 0#32 = false := by
      rw [Bool.eq_false_iff, ne_eq, BitVec.slt_iff_toInt_lt, hint]
      simp
      omega
    simp [msgMatch, hexcept, hne, hpos]
  have heither : (fun item : MsgQueueItem => decide (item.mtype = typ) ||
      (int item.mtype == int typ)) = fun item => int item.mtype == int typ := by
    funext item
    by_cases h : item.mtype = typ <;> simp [h]
  rw [SelectsRight, if_neg (by simp [hcopy]), hexcept]
  simp only [heligible, hmatch, heither, decide_eq_true_eq]
  refine forall₂_congr fun item hitem => and_iff_left ?_
  exact List.find?_some (p := fun item : MsgQueueItem => int item.mtype == int typ) hitem

variable (hfits : FitsInt typ items)

include hfits

theorem msgMatch_fits : ∀ item ∈ items, msgMatch (int item.mtype) (int typ) flags =
    ((has flags msgExcept) ^^ decide (typ.toInt = 0 ∨ item.mtype.toInt = typ.toInt ∨
      (typ.toInt < 0 ∧ item.mtype.toInt ≤ -typ.toInt))) :=
  fun item hitem => msgMatch_int (hfits.types item hitem) hfits.selector

/-- A negative selector: the messages of that type or a lower one are admitted, and match. -/
theorem selectsRight_neg (hcopy : has flags msgCopy = false) (hneg : typ.toInt < 0) :
    SelectsRight typ flags items ↔
      (has flags msgExcept = true → items = []) ∧
      (has flags msgExcept = false → ∀ item ∈ items.find? (admits typ.toInt false),
        preferred typ.toInt false items item = true) := by
  have hmatch : ∀ item ∈ items, msgMatch (int item.mtype) (int typ) flags =
      ((has flags msgExcept) ^^ admits typ.toInt (has flags msgExcept) item) := by
    intro item hitem
    have htype := (hfits.types item hitem).1
    have hiff : (typ.toInt = 0 ∨ item.mtype.toInt = typ.toInt ∨
        (typ.toInt < 0 ∧ item.mtype.toInt ≤ -typ.toInt)) ↔ item.mtype.toInt ≤ -typ.toInt := by
      omega
    rw [msgMatch_fits hfits item hitem, admits, if_neg (by omega), if_pos hneg,
      decide_eq_decide.mpr hiff]
  cases hexcept : has flags msgExcept with
  | true =>
      have hnever := @selectsRight_never typ flags items hcopy
      rw [hexcept] at hnever hmatch
      rw [hnever]
      · simp
      · intro hne
        -- a message that isn't admitted matches, and the lowest one that is, is eligible
        by_cases hall : ∀ item ∈ items, admits typ.toInt true item = true
        · obtain ⟨item, hitem, hlow⟩ := exists_lowest hne
          refine ⟨item, hitem, ?_⟩
          have hpreferred : preferred typ.toInt true items item = true := by
            rw [preferred, decide_eq_true_eq]
            exact fun _ other hother _ => hlow other hother
          simp [eligible, hall item hitem, hpreferred]
        · simp only [not_forall, Bool.not_eq_true] at hall
          obtain ⟨item, hitem, hnot⟩ := hall
          exact ⟨item, hitem, by simp [hmatch item hitem, hnot]⟩
      · rintro item hitem ⟨heligible, hmatched⟩
        rw [hmatch item hitem] at hmatched
        simp only [eligible, Bool.and_eq_true] at heligible
        rw [heligible.1] at hmatched
        cases hmatched
  | false =>
      rw [selectsRight_iff hcopy, hexcept]
      rw [hexcept] at hmatch
      have hsearch : (items.find? fun item => eligible typ.toInt false items item ||
          msgMatch (int item.mtype) (int typ) flags) = items.find? (admits typ.toInt false) := by
        refine List.find?_congr fun item hitem => ?_
        rw [hmatch item hitem, eligible]
        cases admits typ.toInt false item <;> simp
      rw [hsearch]
      constructor
      · intro h
        refine ⟨by simp, fun _ item hitem => ?_⟩
        have heligible := (h item hitem).1
        simp only [eligible, Bool.and_eq_true] at heligible
        exact heligible.2
      · rintro ⟨-, h⟩ item hitem
        have hadmitted := List.find?_some hitem
        rw [hmatch item (List.mem_of_find?_eq_some hitem), eligible, hadmitted,
          h rfl item hitem]
        exact ⟨rfl, rfl⟩

/-- The selector 0: any message is eligible. -/
theorem selectsRight_zero (hcopy : has flags msgCopy = false) (hzero : typ.toInt = 0) :
    SelectsRight typ flags items ↔ (has flags msgExcept = true → items = []) := by
  have hmatch := @msgMatch_fits typ flags items hfits
  have heligible : ∀ except item, eligible typ.toInt except items item = true := by
    intro except item
    simp [eligible, admits, preferred, hzero]
  cases hexcept : has flags msgExcept with
  | true =>
      have hnever := @selectsRight_never typ flags items hcopy
      rw [hexcept] at hnever hmatch
      rw [hnever]
      · simp
      · intro hne
        obtain ⟨first, rest, rfl⟩ := List.exists_cons_of_ne_nil hne
        exact ⟨first, by simp, by simp [heligible]⟩
      · rintro item hitem ⟨-, hmatched⟩
        rw [hmatch item hitem] at hmatched
        simp [hzero] at hmatched
  | false =>
      rw [selectsRight_iff hcopy, hexcept]
      rw [hexcept] at hmatch
      refine iff_of_true (fun item hitem => ?_) (by simp)
      rw [hmatch item (List.mem_of_find?_eq_some hitem)]
      exact ⟨heligible _ _, by simp [hzero]⟩

/-- A positive selector: the messages that are eligible are those that match. -/
theorem selectsRight_pos (hcopy : has flags msgCopy = false) (hpos : 0 < typ.toInt) :
    SelectsRight typ flags items := by
  have hsame : ∀ item ∈ items, eligible typ.toInt (has flags msgExcept) items item =
      msgMatch (int item.mtype) (int typ) flags := by
    intro item hitem
    have hpreferred : preferred typ.toInt (has flags msgExcept) items item = true := by
      simp only [preferred, decide_eq_true_eq]
      omega
    have hiff : (typ.toInt = 0 ∨ item.mtype.toInt = typ.toInt ∨
        (typ.toInt < 0 ∧ item.mtype.toInt ≤ -typ.toInt)) ↔ item.mtype.toInt = typ.toInt := by
      omega
    rw [msgMatch_fits hfits item hitem, eligible, hpreferred, Bool.and_true, admits,
      if_neg (by omega), if_neg (by omega)]
    simp only [hiff]
    cases has flags msgExcept with
    | true | false => simp
  rw [selectsRight_iff hcopy]
  intro item hitem
  have hmem := List.mem_of_find?_eq_some hitem
  have hfound := List.find?_some hitem
  rw [hsame item hmem, Bool.or_self] at hfound
  exact ⟨(hsame item hmem).trans hfound, hfound⟩

/-- **The condition for types that fit**: `MSG_EXCEPT` doesn't come with a selector that isn't
positive, unless the queue is empty, and for a negative selector the first message that it is about
has the lowest type. -/
theorem selectsRight_int (hcopy : has flags msgCopy = false) :
    SelectsRight typ flags items ↔
      (typ.toInt ≤ 0 → has flags msgExcept = true → items = []) ∧
      (typ.toInt < 0 → has flags msgExcept = false →
        ∀ item ∈ items.find? (admits typ.toInt false),
          preferred typ.toInt false items item = true) := by
  rcases Int.lt_trichotomy typ.toInt 0 with hneg | hzero | hpos
  · rw [selectsRight_neg hfits hcopy hneg]
    simp only [hneg, Int.le_of_lt hneg, true_imp_iff]
  · rw [selectsRight_zero hfits hcopy hzero]
    simp [hzero]
  · refine iff_of_true (selectsRight_pos hfits hcopy hpos) ⟨fun hle => ?_, fun hneg => ?_⟩
    · omega
    · omega

end FitsInt

/-! ## The call -/

/-- What a call or its retry makes of the message it is to take, if there is one: it blocks or
returns `ENOMSG` without; with one, it fails and leaves the queue, or returns the size. -/
inductive Delivers (m : GuestMemory) (t : Tracee) (queue : MsgQueue) :
    Option MsgQueueItem → Status → Tracee → MsgQueue → Prop
  | nomsg {t'} : has t.config.msgrcvMsgflg ipcNowait = true →
      Delivers m t queue none (.error .enomsg) t' queue
  | waits {t'} : has t.config.msgrcvMsgflg ipcNowait = false →
      t'.config.waitReason = .waitQueueRecv → Delivers m t queue none (.ok 0) t' queue
  | tooBig {item t'} : t.config.tooSmall item →
      Delivers m t queue (some item) (.error .e2big) t' queue
  | fault {item e t'} : ¬ t.config.writable m item →
      Delivers m t queue (some item) (.error e) t' queue
  | copies {item t' queue'} : has t.config.msgrcvMsgflg msgCopy = true →
      t.config.writable m item → queue'.items = queue.items →
      Delivers m t queue (some item) (.ok (t.config.sizeOf item)) t' queue'
  | takes {item t' queue'} : has t.config.msgrcvMsgflg msgCopy = false →
      t.config.writable m item → queue'.items = queue.items.erase item →
      Delivers m t queue (some item) (.ok (t.config.sizeOf item)) t' queue'

theorem Received.delivers {m : GuestMemory} {t t' : Tracee} {index : Nat}
    {queue queue' : MsgQueue} {status : Status}
    (h : Received m t index queue status t' queue') (haccepted : t.config.accepted) :
    Delivers m t queue (foundItem t.config queue.items) status t' queue' := by
  cases h with
  | refused hnot => exact absurd haccepted hnot
  | nomsg _ hfound hnowait =>
      rw [hfound]
      exact .nomsg hnowait
  | waits _ hfound hnowait =>
      rw [hfound]
      exact .waits hnowait rfl
  | tooBig _ hfound hsmall =>
      rw [hfound]
      exact .tooBig hsmall
  | fault _ hfound _ hwrite =>
      rw [hfound]
      exact .fault hwrite
  | copies _ hfound _ hwrite hcopy =>
      rw [hfound]
      exact .copies hcopy hwrite rfl
  | takes _ hfound _ hwrite hcopy =>
      have hitem : foundItem t.config queue.items = _ :=
        (if_neg (by simp [hcopy])).trans hfound
      rw [hitem]
      exact .takes hcopy hwrite rfl

/-- **msgrcv(2) takes the message that msgop(2) prescribes** if and only if the condition holds: the
search of the code, what a call and its retry make of it, and the condition when the types fit an
`int`, when only the selector does, and with `MSG_COPY`. -/
theorem msgrcv_selects_iff (typ : Word) :
    (∀ (c : Config) items, items.Nodup → c.msgrcvMsgtyp = int typ →
      (foundItem c items = prescribed typ c.msgrcvMsgflg items ↔
        SelectsRight typ c.msgrcvMsgflg items)) ∧
    (∀ m t index queue status t' queue', queue.items.Nodup →
      t.config.msgrcvMsgtyp = int typ → t.config.accepted →
      SelectsRight typ t.config.msgrcvMsgflg queue.items →
      doMsgrcv m t index queue = (status, t', queue') →
      Delivers m t queue (prescribed typ t.config.msgrcvMsgflg queue.items) status t' queue') ∧
    (∀ flags items, FitsInt typ items → has flags msgCopy = false →
      (SelectsRight typ flags items ↔
        (typ.toInt ≤ 0 → has flags msgExcept = true → items = []) ∧
        (typ.toInt < 0 → has flags msgExcept = false →
          ∀ item ∈ items.find? (admits typ.toInt false),
            preferred typ.toInt false items item = true))) ∧
    (∀ flags items, has flags msgCopy = false → has flags msgExcept = false →
      0 < typ.toInt ∧ typ.toInt < 2 ^ 31 →
      (SelectsRight typ flags items ↔
        ∀ item ∈ items.find? fun item => int item.mtype == int typ, item.mtype = typ)) ∧
    (∀ flags items, has flags msgCopy = true →
      (SelectsRight typ flags items ↔ (int typ).toInt = typ.toInt ∨
        (¬ (0 ≤ typ.toInt ∧ typ.toInt < items.length) ∧
          ¬ (0 ≤ (int typ).toInt ∧ (int typ).toInt < items.length)))) := by
  refine ⟨fun c items hnodup htyp => foundItem_eq_prescribed_iff hnodup htyp, ?_,
    fun flags items hfits hcopy => selectsRight_int hfits hcopy,
    fun flags items hcopy hexcept htyp => selectsRight_wide hcopy hexcept htyp,
    fun flags items hcopy => selectsRight_copy hcopy⟩
  intro m t index queue status t' queue' hnodup htyp haccepted hright hrun
  rw [← (foundItem_eq_prescribed_iff hnodup htyp).mpr hright]
  exact (doMsgrcv_received hrun).delivers haccepted

/-- The selector 1 doesn't take a message of type 2 ^ 32 + 1 rightly. -/
theorem msgrcv_selects_iff_wide :
    (¬ ∀ item ∈ [(⟨0, 0x100000001, []⟩ : MsgQueueItem)].find? fun item => int item.mtype == int 1,
      item.mtype = 1) ∧ ¬ SelectsRight 1 0 [⟨0, 0x100000001, []⟩] := by
  have hnot : ¬ ∀ item ∈ [(⟨0, 0x100000001, []⟩ : MsgQueueItem)].find?
      fun item => int item.mtype == int 1, item.mtype = 1 := by decide
  refine ⟨hnot, fun h => hnot ?_⟩
  exact ((msgrcv_selects_iff 1).2.2.2.1 0 _ (by decide) (by decide) (by decide)).mp h

def receiver (msgtyp : BitVec 32) (msgflg : BitVec 32) : Tracee where
  pid := 1
  config :=
    { process := 0
      waitReason := .notWaiting
      waitState := .notWaiting
      chainState := .notChained
      statusAfterWait := .ok 0
      waitingObjectIndex := 0
      msgrcvMsgp := 0
      msgrcvMsgsz := 8
      msgrcvMsgtyp := msgtyp
      msgrcvMsgflg := msgflg
      semopSops := [] }
  result := .ok 0
  asked := .nothing
  mapSize := 0
  connection := none
  memFd := none

/-- **The first message is taken, not the one of the lowest type**: of two messages of types 3 and
1, the selector -5 takes the first one. -/
theorem msgrcv_takes_first :
    foundItem (receiver (int (-5)) 0).config [⟨0, 3, []⟩, ⟨1, 1, []⟩] = some ⟨0, 3, []⟩ ∧
      prescribed (-5) 0 [⟨0, 3, []⟩, ⟨1, 1, []⟩] = some ⟨1, 1, []⟩ := by
  decide

end Improot.SysVIpc
