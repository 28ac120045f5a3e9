import Improot.Execve.Aoxp
import Improot.Lib.ListEdit
import Improot.Tracee.ReadString

/-!
# Editing an array of pointers edits a list of strings

The array stands for a list of strings, some of which are in the memory of the tracee and the others
in PRoot's; each edit of the array is one of the list, and the block that is pushed holds the list.
-/

namespace Improot.Execve

open Improot.Lib Improot.Tracee
open Improot.Path (Failure)

/-! ## Strings -/

structure Reader.Faithful (r : Reader) (m : Memory) : Prop where
  word : 0 < r.word
  transfers : Transfers m r.readv

theorem takeWhile_string {bs more : Bytes} (h : 0 ∉ bs) :
    (bs ++ 0 :: more).takeWhile (· ≠ 0) = bs := by
  rw [List.takeWhile_append_of_pos]
  · simp
  · intro b hb
    have hne : b ≠ 0 := by
      intro heq
      rw [heq] at hb
      exact h hb
    simpa using hne

variable {m : Memory} {pointers : List Nat}

theorem upTo_patch {src maxSize : Nat} {dest bs s : Bytes}
    (hbs : m.load src bs.length = some bs) (hscan : m.scan src maxSize = .ended s)
    (hlength : s.length + 1 ≤ bs.length) : (Str.upTo (patch dest 0 bs)).bytes = s := by
  have hspec := m.scan_spec src maxSize
  rw [hscan] at hspec
  obtain ⟨-, hzero, hload⟩ := hspec
  have htake := (Memory.load_take hbs hlength).symm.trans hload
  have hsplit : bs = s ++ 0 :: bs.drop (s.length + 1) := by
    have happend := List.take_append_drop (s.length + 1) bs
    rw [Option.some.inj htake, List.append_assoc] at happend
    exact happend.symm
  have hpatch : patch dest 0 bs = s ++ 0 :: (bs.drop (s.length + 1) ++ dest.drop bs.length) := by
    conv_lhs => rw [patch, List.take_zero, List.nil_append, Nat.zero_add, hsplit]
    rw [List.append_assoc, List.cons_append, ← hsplit]
  show (patch dest 0 bs).takeWhile (· ≠ 0) = s
  rw [hpatch, takeWhile_string hzero]

/-- A string that is read lies at the address, with its terminator. -/
theorem Reader.localString_ok {r : Reader} (hr : r.Faithful m) {address : Nat}
    {s : Str} (h : r.localString m address = .ok s) :
    m.load address s.stored.length = some s.stored := by
  -- what a walk finds and the buffer holds is the string
  have hfound (dest bs : Bytes) (hbs : m.load address bs.length = some bs) (s' : Bytes)
      (hscan : m.scan address argMax = .ended s') (hlength : s'.length + 1 ≤ bs.length)
      (heq : s = Str.upTo (patch dest 0 bs)) : m.load address s.stored.length = some s.stored := by
    have hbytes : s.bytes = s' := by rw [heq, upTo_patch hbs hscan hlength]
    have hspec := m.scan_spec address argMax
    rw [hscan] at hspec
    rw [Str.stored, hbytes, List.length_append]
    exact hspec.2.2
  have hfits : argMax ≤ (List.replicate argMax (0 : UInt8)).length := by rw [List.length_replicate]
  unfold Reader.localString at h
  generalize List.replicate argMax (0 : UInt8) = dest at h hfits
  obtain ⟨bs, hbs, hle, hdest, hstring⟩ := stringChunks_spec hr.transfers r.pageSize hfits
    (Nat.zero_le argMax) (Memory.load_zero address) List.not_mem_nil
  have hnil : patch dest 0 [] = dest := by simp [patch]
  rw [hnil] at hdest hstring
  unfold readString at h
  generalize stringChunks r.readv r.pageSize address argMax dest 0 = chunks at h hdest hstring
  obtain ⟨dest', size?⟩ := chunks
  obtain rfl : dest' = patch dest 0 bs := hdest
  cases size? with
  | some n =>
      obtain ⟨hn, s', hscan, rfl⟩ := hstring n rfl
      simp only at h
      split at h
      · cases h
      · cases h
        exact hfound dest bs hbs s' hscan hn rfl
  | none =>
      have hfits' : argMax ≤ (patch dest 0 bs).length := by
        rw [patch_length (by omega)]
        exact hfits
      obtain ⟨bs', hbs', -, hdest', hstring'⟩ :=
        @readStringFallback_dest r.word m hr.word (patch dest 0 bs) address argMax hfits'
      have hstatus := readStringFallback_status (m := m) hr.word (patch dest 0 bs) address argMax
      simp only at h
      generalize readStringFallback r.word m (patch dest 0 bs) address argMax = fallback
        at h hdest' hstring' hstatus
      obtain ⟨tmp, status⟩ := fallback
      obtain rfl : tmp = patch (patch dest 0 bs) 0 bs' := hdest'
      cases status with
      | error e => cases h
      | ok n =>
          simp only at h hstatus hstring'
          split at h
          · cases h
          · rename_i hshort
            have hn := hstring' n rfl (by omega)
            cases hscan : m.scan address argMax with
            | faulted =>
                rw [hscan] at hstatus
                cases hstatus
            | unended bs'' =>
                rw [hscan] at hstatus
                simp only at hstatus
                split at hstatus
                · cases hstatus
                  omega
                · cases hstatus
            | ended s' =>
                rw [hscan] at hstatus
                simp only at hstatus
                split at hstatus
                · cases hstatus
                  cases h
                  exact hfound _ bs' hbs' s' hscan hn rfl
                · cases hstatus

/-! ## What an array stands for -/

def PointsTo (m : Memory) (pointer : Nat) : Option Str → Prop
  | none => pointer = 0
  | some s => pointer ≠ 0 ∧ m.load pointer s.stored.length = some s.stored

theorem PointsTo.unique {pointer : Nat} {v v' : Option Str}
    (h : PointsTo m pointer v) (h' : PointsTo m pointer v') : v = v' := by
  have hscan (s : Str) (hs : m.load pointer s.stored.length = some s.stored) (n : Nat)
      (hn : s.bytes.length < n) : m.scan pointer n = .ended s.bytes := by
    apply Memory.scan_of_string hn s.ended
    rw [Str.stored, List.length_append] at hs
    exact hs
  cases v with
  | none =>
      cases v' with
      | none => rfl
      | some s' => exact absurd h h'.1
  | some s =>
      cases v' with
      | none => exact absurd h' h.1
      | some s' =>
          have hfirst := hscan s h.2 (s.bytes.length + s'.bytes.length + 1) (by omega)
          rw [hscan s' h'.2 _ (by omega)] at hfirst
          have hbytes : s'.bytes = s.bytes := Memory.Scan.ended.inj hfirst
          cases s
          cases s'
          cases hbytes
          rfl

theorem Reader.localString_eq {r : Reader} (hr : r.Faithful m) {address : Nat}
    {s : Str} (h : PointsTo m address (some s)) (hok : (r.localString m address).isOk = true) :
    r.localString m address = .ok s := by
  cases hread : r.localString m address with
  | error e =>
      rw [hread] at hok
      cases hok
  | ok s' =>
      have hread' : PointsTo m address (some s') := ⟨h.1, Reader.localString_ok hr hread⟩
      cases h.unique hread'
      rfl

/-- The string that an entry stands for: its local copy, or what it points to. -/
def XPointer.Means (m : Memory) (x : XPointer) (v : Option Str) : Prop :=
  match x.cached with
  | some s => v = some s
  | none => PointsTo m x.remote v

def XPointer.Keeps (x : XPointer) (pointer? : Option Nat) : Prop :=
  ∀ pointer, pointer? = some pointer → x.cached = none ∧ x.remote = pointer

def XPointer.fetched (r : Reader) (m : Memory) (x : XPointer) : XPointer :=
  match x.cached with
  | some _ => x
  | none =>
    if x.remote = 0 then x
    else
      match r.localString m x.remote with
      | .error _ => x
      | .ok s => { x with cached := some s }

def XPointer.written (s : Str) (x : XPointer) : XPointer := { x with cached := some s }

section Entry

variable {r : Reader} {m : Memory} {x : XPointer}

theorem XPointer.Means.fetched (hr : r.Faithful m) {v : Option Str} (h : x.Means m v) :
    (x.fetched r m).Means m v := by
  unfold XPointer.fetched
  cases hc : x.cached with
  | some s => exact h
  | none =>
      simp only
      split
      · exact h
      · rename_i hne
        cases hread : r.localString m x.remote with
        | error e => exact h
        | ok s =>
            unfold XPointer.Means at h
            rw [hc] at h
            exact PointsTo.unique h ⟨hne, Reader.localString_ok hr hread⟩

@[simp] theorem XPointer.fetched_remote : (x.fetched r m).remote = x.remote := by
  unfold XPointer.fetched
  split
  · rfl
  · split
    · rfl
    · split
      · rfl
      · rfl

end Entry

/-! ## Edits -/

def runEdit (r : Reader) (m : Memory) (array : List XPointer) :
    Edit Str → Except Failure (List XPointer)
  | .read index => (readXpointeeAsString r m array index).map Prod.snd
  | .write index s => writeXpointeeAsString array index s
  | .resize index delta => resizeArrayOfXpointers array index delta

def runEdits (r : Reader) (m : Memory) : List XPointer → List (Edit Str) →
    Except Failure (List XPointer)
  | array, [] => .ok array
  | array, e :: edits =>
    match runEdit r m array e with
    | .error f => .error f
    | .ok array => runEdits r m array edits

variable {entries : List XPointer} {strings : List (Option Str)} {kept : List (Option Nat)}

section Edit

variable {r : Reader} {m : Memory}

abbrev editEntries (r : Reader) (m : Memory) (entries : List XPointer) (e : Edit Str) :
    List XPointer :=
  Edit.on .null (XPointer.fetched r m) XPointer.written entries e

theorem modify_eq_set {α : Type} {l : List α} {index : Nat} (hin : index < l.length) (f : α → α) :
    l.modify index f = l.set index (f l[index]) := by
  rw [List.modify_eq_set_getElem?, List.getElem?_eq_getElem hin]
  rfl

/-- **One edit** of an array that ends with a NULL entry: no assertion fails, and the entries before
the last one are edited. -/
theorem runEdit_eq {e : Edit Str} (hvalid : e.Valid entries.length) :
    (∃ errno, runEdit r m (entries ++ [.null]) e = .error (.errno errno)) ∨
      runEdit r m (entries ++ [.null]) e = .ok (editEntries r m entries e ++ [.null]) := by
  cases e with
  | read index =>
      by_cases hin : index < entries.length
      · have hget : (entries ++ [XPointer.null])[index]? = some entries[index] := by
          rw [List.getElem?_append_left hin, List.getElem?_eq_getElem hin]
        have hset (y : XPointer) (hy : (entries[index]).fetched r m = y) :
            editEntries r m entries (.read index) ++ [XPointer.null] =
              (entries ++ [XPointer.null]).set index y := by
          show entries.modify index (XPointer.fetched r m) ++ [XPointer.null] = _
          rw [modify_eq_set hin, hy, List.set_append_left _ _ hin]
        have hkept (hy : (entries[index]).fetched r m = entries[index]) :
            editEntries r m entries (.read index) ++ [XPointer.null] = entries ++ [XPointer.null] := by
          rw [hset _ hy, List.set_append_left _ _ hin, List.set_getElem_self]
        unfold XPointer.fetched at hset hkept
        simp only [runEdit, readXpointeeAsString, hget]
        cases hc : (entries[index]).cached with
        | some s =>
            rw [hc] at hkept
            exact .inr (congrArg Except.ok (hkept rfl).symm)
        | none =>
            simp only [hc] at hset hkept ⊢
            by_cases hzero : (entries[index]).remote = 0
            · rw [if_pos hzero] at hkept ⊢
              exact .inr (congrArg Except.ok (hkept rfl).symm)
            · rw [if_neg hzero] at hset ⊢
              cases hread : r.localString m (entries[index]).remote with
              | error e => exact .inl ⟨e, rfl⟩
              | ok s =>
                  rw [hread] at hset
                  exact .inr (congrArg Except.ok (hset _ rfl).symm)
      · -- the NULL entry is read
        have hlast : index = entries.length := Nat.le_antisymm hvalid (Nat.le_of_not_lt hin)
        have hget : (entries ++ [XPointer.null])[index]? = some .null := by
          rw [hlast, List.getElem?_append_right (Nat.le_refl _), Nat.sub_self]
          rfl
        right
        show (readXpointeeAsString r m (entries ++ [.null]) index).map Prod.snd =
          .ok (entries.modify index (XPointer.fetched r m) ++ [.null])
        rw [List.modify_eq_self (Nat.le_of_eq hlast.symm), readXpointeeAsString, hget]
        rfl
  | write index s =>
      have hin : index < entries.length := hvalid
      right
      have hget : (entries ++ [XPointer.null])[index]? = some entries[index] := by
        rw [List.getElem?_append_left hin, List.getElem?_eq_getElem hin]
      show writeXpointeeAsString (entries ++ [.null]) index s =
        .ok (entries.modify index (XPointer.written s) ++ [.null])
      rw [writeXpointeeAsString, hget, modify_eq_set hin, ← List.set_append_left _ _ hin]
      rfl
  | resize index delta =>
      obtain ⟨hin, hdelta⟩ := hvalid
      right
      have hlength : ¬ (entries ++ [XPointer.null]).length ≤ index := by
        rw [List.length_append, List.length_singleton]
        omega
      show resizeArrayOfXpointers (entries ++ [.null]) index delta =
        .ok (Edit.resized .null index delta entries ++ [.null])
      rw [← Edit.resized_append hin, resizeArrayOfXpointers, if_neg hlength, Edit.resized]
      by_cases hzero : delta = 0
      · subst hzero
        simp
      · rw [if_neg hzero]
        by_cases hpos : 0 < delta
        · rw [if_pos hpos, if_pos (by omega)]
        · rw [if_neg hpos, if_neg (by omega), if_neg (by omega)]

abbrev editedStrings (strings : List (Option Str)) (edits : List (Edit Str)) : List (Option Str) :=
  Edit.all none id (fun s _ => some s) strings edits

/-- The pointers that are neither read nor written, where they are after some edits. -/
abbrev keptPointers (pointers : List (Option Nat)) (edits : List (Edit Str)) : List (Option Nat) :=
  Edit.all none (fun _ => none) (fun _ _ => none) pointers edits

abbrev ValidEdits (strings : List (Option Str)) (edits : List (Edit Str)) : Prop :=
  Edit.ValidAll none id (fun s _ => some s) strings edits

/-- What the entries of an array are, which was fetched as `pointers`. -/
structure Represents (m : Memory) (pointers : List Nat) (entries : List XPointer)
    (strings : List (Option Str)) (kept : List (Option Nat)) : Prop where
  means : List.Forall₂ (XPointer.Means m) entries strings
  keeps : List.Forall₂ XPointer.Keeps entries kept
  /-- apart from the inserted ones, they come from entries of the tracee, in this order -/
  remotes : ((entries.map XPointer.remote).filter (· ≠ 0)).Sublist pointers

theorem map_remote_on (entries : List XPointer) (e : Edit Str) :
    (editEntries r m entries e).map XPointer.remote =
      Edit.on 0 id (fun _ p => p) (entries.map XPointer.remote) e := by
  let R (x : XPointer) (pointer : Nat) : Prop := x.remote = pointer
  have hsame : List.Forall₂ R entries (entries.map XPointer.remote) :=
    List.forall₂_map_right_iff.mpr (List.forall₂_same.mpr fun _ _ => rfl)
  have hread (x : XPointer) (pointer : Nat) (h : R x pointer) :
      R (x.fetched r m) (id pointer) := XPointer.fetched_remote.trans h
  have hwrite (s : Str) (x : XPointer) (pointer : Nat) (h : R x pointer) :
      R (x.written s) ((fun (_ : Str) p => p) s pointer) := h
  have hedited := @Edit.forall₂_on Str XPointer Nat R .null 0 _ _ _ _ rfl hread hwrite e entries
    _ hsame
  have heq := List.forall₂_map_left_iff.mpr hedited
  rwa [List.forall₂_eq_eq_eq] at heq

theorem Represents.on (hr : r.Faithful m)
    (h : Represents m pointers entries strings kept) (e : Edit Str) :
    Represents m pointers (editEntries r m entries e)
      (Edit.on none id (fun s _ => some s) strings e)
      (Edit.on none (fun _ => none) (fun _ _ => none) kept e) := by
  refine ⟨?_, ?_, ?_⟩
  · apply Edit.forall₂_on
    · rfl
    · intro x v hx
      exact hx.fetched hr
    · intro s x v hx
      rfl
    · exact h.means
  · apply Edit.forall₂_on
    · intro pointer hpointer
      cases hpointer
    · intro x k hx pointer hpointer
      cases hpointer
    · intro s x k hx pointer hpointer
      cases hpointer
    · exact h.keeps
  · rw [map_remote_on]
    refine List.Sublist.trans ?_ h.remotes
    cases e with
    | read index =>
        show ((List.modify _ index id).filter _).Sublist _
        rw [List.modify_id]
    | write index s =>
        show ((List.modify _ index id).filter _).Sublist _
        rw [List.modify_id]
    | resize index delta => exact Edit.filter_resized _ (by simp) index delta _

/-- **Edits of an array** are edits of the list of strings that it stands for; no assertion on an
index fails. -/
theorem runEdits_represents (hr : r.Faithful m)
        (h : Represents m pointers entries strings kept) (edits : List (Edit Str))
    (hvalid : ValidEdits strings edits) :
    runEdits r m (entries ++ [.null]) edits ≠ .error .abort ∧
      ∀ array, runEdits r m (entries ++ [.null]) edits = .ok array →
        ∃ entries', array = entries' ++ [.null] ∧
          Represents m pointers entries' (editedStrings strings edits) (keptPointers kept edits) := by
  induction edits generalizing entries strings kept with
  | nil =>
      refine ⟨?_, ?_⟩
      · intro habort
        cases habort
      · intro array harray
        cases harray
        exact ⟨entries, rfl, h⟩
  | cons e edits ih =>
      obtain ⟨hfirst, hrest⟩ := hvalid
      rw [← h.means.length_eq] at hfirst
      rw [runEdits]
      cases runEdit_eq (r := r) (m := m) hfirst with
      | inl herror =>
          obtain ⟨errno, herror⟩ := herror
          rw [herror]
          refine ⟨?_, ?_⟩
          · intro habort
            cases habort
          · intro array harray
            cases harray
      | inr hok =>
          rw [hok]
          exact ih (h.on hr e) hrest

end Edit

/-! ## Tables of pointers -/

/-- The table of an array lies at an address, with its NULL pointer. -/
structure ArrayOf (m : Memory) (w address : Nat) (pointers : List Nat) : Prop where
  table : m.load address (tableBytes w (pointers ++ [0])).length =
    some (tableBytes w (pointers ++ [0]))
  fits : ∀ pointer ∈ pointers, pointer ≠ 0 ∧ pointer < 256 ^ w

section Table

variable {m : Memory} {w address : Nat} {pointers : List Nat}

theorem tableBytes_cons (w pointer : Nat) (pointers : List Nat) :
    tableBytes w (pointer :: pointers) = le w pointer ++ tableBytes w pointers := rfl

theorem tableBytes_append (w : Nat) (pointers pointers' : List Nat) :
    tableBytes w (pointers ++ pointers') = tableBytes w pointers ++ tableBytes w pointers' :=
  List.flatMap_append

theorem length_tableBytes (w : Nat) (pointers : List Nat) :
    (tableBytes w pointers).length = pointers.length * w := by
  induction pointers with
  | nil => simp [tableBytes]
  | cons pointer pointers ih =>
      rw [tableBytes_cons, List.length_append, le_length, ih, List.length_cons, Nat.succ_mul]
      omega

theorem fetchUpToNull_eq (h : ArrayOf m w address pointers) {fuel : Nat}
    (hfuel : pointers.length < fuel) :
    fetchUpToNull m w fuel address =
      some (.ok (pointers.map (fun pointer => ⟨pointer, none⟩) ++ [.null])) := by
  obtain ⟨htable, hfits⟩ := h
  induction pointers generalizing address fuel with
  | nil =>
      obtain ⟨fuel, rfl⟩ := Nat.exists_eq_succ_of_ne_zero (Nat.ne_of_gt hfuel)
      rw [List.nil_append, tableBytes_cons, Memory.load_append, le_length] at htable
      rw [fetchUpToNull, htable.1]
      have hzero : ofLe (le w 0) = 0 := ofLe_le_of_lt (Nat.pow_pos (by omega))
      simp only [hzero, if_true]
      rfl
  | cons pointer pointers ih =>
      obtain ⟨fuel, rfl⟩ := Nat.exists_eq_succ_of_ne_zero (Nat.ne_of_gt (Nat.zero_lt_of_lt hfuel))
      rw [List.cons_append, tableBytes_cons, Memory.load_append, le_length] at htable
      obtain ⟨hne, hlt⟩ := hfits pointer List.mem_cons_self
      rw [fetchUpToNull, htable.1]
      simp only [ofLe_le_of_lt hlt, if_neg hne]
      rw [ih (Nat.lt_of_succ_lt_succ hfuel) htable.2
        (fun p hp => hfits p (List.mem_cons_of_mem _ hp))]
      rfl

theorem ArrayOf.unique {pointers' : List Nat} (h : ArrayOf m w address pointers)
    (h' : ArrayOf m w address pointers') : pointers = pointers' := by
  have hfirst := @fetchUpToNull_eq m w address pointers h (pointers.length + pointers'.length + 1)
    (by omega)
  rw [fetchUpToNull_eq h' (by omega)] at hfirst
  have hmaps := List.append_cancel_right (Except.ok.inj (Option.some.inj hfirst))
  have hremotes := congrArg (List.map XPointer.remote) hmaps
  rw [List.map_map, List.map_map] at hremotes
  have hid : (XPointer.remote ∘ fun pointer => (⟨pointer, none⟩ : XPointer)) = id := rfl
  rw [hid, List.map_id, List.map_id] at hremotes
  exact hremotes.symm

theorem arrayOf_takeWhile (htable : m.load address (tableBytes w (pointers ++ [0])).length =
      some (tableBytes w (pointers ++ [0]))) (hfits : ∀ pointer ∈ pointers, pointer < 256 ^ w) :
    ArrayOf m w address (pointers.takeWhile (· ≠ 0)) := by
  refine ⟨?_, ?_⟩
  · have hsplit : ∃ more, pointers ++ [0] = pointers.takeWhile (· ≠ 0) ++ [0] ++ more := by
      cases hrest : pointers.dropWhile (· ≠ 0) with
      | nil =>
          refine ⟨[], ?_⟩
          have happend := List.takeWhile_append_dropWhile (p := (· ≠ 0)) (l := pointers)
          rw [hrest, List.append_nil] at happend
          rw [happend, List.append_nil]
      | cons x more =>
          have happend := List.takeWhile_append_dropWhile (p := (· ≠ 0)) (l := pointers)
          have hx : x = 0 := by
            have hhead := List.head?_dropWhile_not (· ≠ 0) pointers
            rw [hrest] at hhead
            simpa using hhead
          subst hx
          refine ⟨more ++ [0], ?_⟩
          rw [hrest] at happend
          conv_lhs => rw [← happend]
          simp
    obtain ⟨more, hmore⟩ := hsplit
    rw [hmore, tableBytes_append, Memory.load_append] at htable
    exact htable.1
  · intro pointer hpointer
    have hne := List.mem_takeWhile_imp hpointer
    exact ⟨by simpa using hne, hfits pointer ((List.takeWhile_prefix _).subset hpointer)⟩

end Table

/-! ## Pushing -/

section Push

variable {m m' : Memory} {w traceePtr : Nat}

theorem podArray_append (offset : Nat) (array : List XPointer) :
    podArray traceePtr offset (array ++ [.null]) = podArray traceePtr offset array ++ [0] := by
  induction array generalizing offset with
  | nil => rfl
  | cons x array ih =>
      rw [List.cons_append, podArray, podArray]
      cases hc : x.cached with
      | none | some => simp only [ih, List.cons_append]

theorem length_podArray (offset : Nat) (array : List XPointer) :
    (podArray traceePtr offset array).length = array.length := by
  induction array generalizing offset with
  | nil => rfl
  | cons x array ih =>
      rw [podArray]
      cases hc : x.cached with
      | none | some => simp only [List.length_cons, ih]

theorem modifiedPointees_cons (x : XPointer) (array : List XPointer) :
    modifiedPointees (x :: array) =
      (x.cached.map Str.stored).getD [] ++ modifiedPointees array := rfl

theorem modifiedPointees_null (array : List XPointer) :
    modifiedPointees (array ++ [.null]) = modifiedPointees array := by
  unfold modifiedPointees
  rw [List.flatMap_append]
  simp [XPointer.null]

theorem length_stored (s : Str) : s.stored.length = s.bytes.length + 1 := by
  rw [Str.stored, List.length_append]
  rfl

/-- **The pointers of the block** stand for the strings of the array, when the modified pointees are
where they point to and the others are where they were. -/
theorem podArray_pointsTo {array : List XPointer}
    (hmeans : List.Forall₂ (XPointer.Means m) array strings) {offset : Nat}
    (hpos : 0 < traceePtr)
    (hblock : m'.load (offset + traceePtr) (modifiedPointees array).length =
      some (modifiedPointees array))
    (hstill : ∀ x ∈ array, x.cached = none → ∀ s, PointsTo m x.remote (some s) →
      PointsTo m' x.remote (some s)) :
    List.Forall₂ (PointsTo m') (podArray traceePtr offset array) strings := by
  induction hmeans generalizing offset with
  | nil => exact .nil
  | @cons x v array strings hx hrest ih =>
      have hstill' : ∀ y ∈ array, y.cached = none → ∀ s, PointsTo m y.remote (some s) →
          PointsTo m' y.remote (some s) := fun y hy => hstill y (List.mem_cons_of_mem _ hy)
      rw [modifiedPointees_cons] at hblock
      unfold XPointer.Means at hx
      rw [podArray]
      cases hc : x.cached with
      | none =>
          rw [hc] at hx hblock
          refine .cons ?_ (ih hblock hstill')
          cases v with
          | none => exact hx
          | some s => exact hstill x List.mem_cons_self hc s hx
      | some s =>
          rw [hc] at hx hblock
          obtain ⟨hfirst, hrest⟩ := Memory.load_append.mp hblock
          have hv : v = some s := hx
          subst hv
          refine .cons ⟨by omega, hfirst⟩ (ih ?_ hstill')
          rw [show offset + s.stored.length + traceePtr = offset + traceePtr + s.stored.length by
            omega]
          exact hrest

theorem podArray_keeps {array : List XPointer}
    (hkeeps : List.Forall₂ XPointer.Keeps array kept) (offset : Nat) :
    List.Forall₂ (fun pointer k => ∀ q, k = some q → pointer = q)
      (podArray traceePtr offset array) kept := by
  induction hkeeps generalizing offset with
  | nil => exact .nil
  | @cons x k array kept hx hrest ih =>
      rw [podArray]
      cases hc : x.cached with
      | none => exact .cons (fun q hq => (hx q hq).2) (ih offset)
      | some s =>
          refine .cons (fun q hq => ?_) (ih _)
          rw [(hx q hq).1] at hc
          cases hc

theorem podArray_lt {array : List XPointer} {offset bound : Nat}
    (hremotes : ∀ x ∈ array, x.remote < bound)
    (hblock : offset + traceePtr + (modifiedPointees array).length ≤ bound) :
    ∀ pointer ∈ podArray traceePtr offset array, pointer < bound := by
  induction array generalizing offset with
  | nil =>
      intro pointer hpointer
      cases hpointer
  | cons x array ih =>
      have hremotes' : ∀ y ∈ array, y.remote < bound := fun y hy =>
        hremotes y (List.mem_cons_of_mem _ hy)
      rw [modifiedPointees_cons, List.length_append] at hblock
      intro pointer hpointer
      rw [podArray] at hpointer
      cases hc : x.cached with
      | none =>
          rw [hc] at hpointer hblock
          cases List.mem_cons.mp hpointer with
          | inl heq =>
              rw [heq]
              exact hremotes x List.mem_cons_self
          | inr hmem => exact ih hremotes' (by simpa using hblock) pointer hmem
      | some s =>
          have hlength := length_stored s
          rw [hc, Option.map_some, Option.getD_some] at hblock
          rw [hc] at hpointer
          cases List.mem_cons.mp hpointer with
          | inl heq => omega
          | inr hmem => exact ih hremotes' (by omega) pointer hmem

/-- What `alloc_mem` promises of a block for an array: it can be written, and holds none of the
strings that stay where they are. -/
structure FreshBlock (m : Memory) (w : Nat) (array : List XPointer) (traceePtr : Nat) : Prop where
  pos : 0 < traceePtr
  fits : traceePtr + pushedSize w array ≤ 256 ^ w
  writable : m.Writable traceePtr (pushedSize w array)
  apart : ∀ x ∈ array, x.cached = none → ∀ s, PointsTo m x.remote (some s) →
    x.remote + s.stored.length ≤ traceePtr ∨ traceePtr + pushedSize w array ≤ x.remote

/-- The array at an address reads back as a list of strings, up to the first NULL, and holds the
pointers that are kept. -/
def ReadsBack (m : Memory) (w address : Nat) (strings : List (Option Str))
    (kept : List (Option Nat)) : Prop :=
  ∃ pointers, ArrayOf m w address pointers ∧
    List.Forall₂ (PointsTo m) pointers (strings.takeWhile Option.isSome) ∧
    List.Forall₂ (fun pointer k => ∀ q, k = some q → pointer = q) pointers
      (kept.take pointers.length)

theorem Represents.remote_lt {bound : Nat}
        (h : Represents m pointers entries strings kept) (hpointers : ∀ p ∈ pointers, p < bound)
    (hbound : 0 < bound) : ∀ x ∈ entries ++ [.null], x.remote < bound := by
  intro x hx
  by_cases hzero : x.remote = 0
  · omega
  · cases List.mem_append.mp hx with
    | inl hx =>
        apply hpointers
        apply h.remotes.subset
        exact List.mem_filter.mpr ⟨List.mem_map_of_mem hx, by simpa using hzero⟩
    | inr hx =>
        rw [List.mem_singleton.mp hx] at hzero
        exact absurd rfl hzero

theorem pointsTo_isSome (pointer : Nat) (v : Option Str) (h : PointsTo m pointer v) :
    decide (pointer ≠ 0) = v.isSome := by
  cases v with
  | none =>
      have hzero : pointer = 0 := h
      simp [hzero]
  | some s => simpa using h.1

def pushedBlock (w traceePtr : Nat) (array : List XPointer) : Bytes :=
  tableBytes w (podArray traceePtr (array.length * w) array) ++ modifiedPointees array

theorem length_pushedBlock (array : List XPointer) :
    (pushedBlock w traceePtr array).length = pushedSize w array := by
  rw [pushedBlock, List.length_append, length_tableBytes, length_podArray, pushedSize]

/-- **The block reads back** as the list that the array stands for, as long as it and the strings
that aren't in it are left alone. -/
theorem pushedBlock_readsBack
        (h : Represents m pointers entries strings kept) (hpointers : ∀ p ∈ pointers, p < 256 ^ w)
    (hpos : 0 < traceePtr)
    (hfits : traceePtr + pushedSize w (entries ++ [.null]) ≤ 256 ^ w)
    (hblock : m'.load traceePtr (pushedBlock w traceePtr (entries ++ [.null])).length =
      some (pushedBlock w traceePtr (entries ++ [.null])))
    (hstill : ∀ x ∈ entries, x.cached = none → ∀ s, PointsTo m x.remote (some s) →
      PointsTo m' x.remote (some s)) :
    ReadsBack m' w traceePtr strings kept := by
  rw [pushedBlock, podArray_append, modifiedPointees_null] at hblock
  generalize hoffset : (entries ++ [XPointer.null]).length * w = offset at hblock
  generalize hpod : podArray traceePtr offset entries = pod at hblock
  have hpodLength : pod.length = entries.length := by rw [← hpod, length_podArray]
  have htableLength : (tableBytes w (pod ++ [0])).length = offset := by
    rw [length_tableBytes, List.length_append, List.length_singleton, hpodLength, ← hoffset,
      List.length_append, List.length_singleton]
  obtain ⟨htable, hmodified⟩ := Memory.load_append.mp hblock
  rw [htableLength, Nat.add_comm] at hmodified
  have hpoints : List.Forall₂ (PointsTo m') pod strings := by
    rw [← hpod]
    exact podArray_pointsTo h.means hpos hmodified hstill
  have hkeeps : List.Forall₂ (fun pointer k => ∀ q, k = some q → pointer = q) pod kept := by
    rw [← hpod]
    exact podArray_keeps h.keeps offset
  have hlt : ∀ pointer ∈ pod, pointer < 256 ^ w := by
    rw [← hpod]
    apply podArray_lt
    · exact fun x hx => h.remote_lt hpointers (Nat.pow_pos (by omega)) x
        (List.mem_append_left _ hx)
    · rw [pushedSize, hoffset, modifiedPointees_null] at hfits
      omega
  refine ⟨pod.takeWhile (· ≠ 0), arrayOf_takeWhile htable hlt, ?_, ?_⟩
  · exact forall₂_takeWhile pointsTo_isSome hpoints
  · have hstarts := List.prefix_iff_eq_take.mp (List.takeWhile_prefix (p := (· ≠ 0)) (l := pod))
    conv => arg 2; rw [hstarts]
    exact List.forall₂_take _ hkeeps

variable {alloc : Nat → Option Nat}

theorem push_eq (reg : Nat) (hcached : ∃ x ∈ entries, x.cached.isSome = true)
    (halloc : alloc (pushedSize w (entries ++ [.null])) = some traceePtr)
    (hwritable : m.Writable traceePtr (pushedSize w (entries ++ [.null]))) :
    pushArrayOfXpointers m w alloc reg (entries ++ [.null]) =
      ((m.store traceePtr (pushedBlock w traceePtr (entries ++ [.null]))).1, .ok traceePtr) := by
  have hcount : 0 < entries.countP (·.cached.isSome) := List.countP_pos_iff.mpr hcached
  have hcountLe := List.countP_le_length (p := fun x : XPointer => x.cached.isSome) (l := entries)
  have hcounts : (entries ++ [XPointer.null]).countP (·.cached.isSome) =
      entries.countP (·.cached.isSome) := by simp [XPointer.null]
  have hlength : (entries ++ [XPointer.null]).length = entries.length + 1 := by simp
  have hstored : (m.store traceePtr (pushedBlock w traceePtr (entries ++ [.null]))).2 = true := by
    rw [Memory.store_ok, length_pushedBlock]
    exact hwritable
  have hm' : m.store traceePtr (pushedBlock w traceePtr (entries ++ [XPointer.null])) =
      ((m.store traceePtr (pushedBlock w traceePtr (entries ++ [XPointer.null]))).1, true) :=
    Prod.ext rfl hstored
  rw [pushArrayOfXpointers]
  simp only [hcounts, halloc]
  rw [if_neg (by omega), if_neg (by omega)]
  rw [show tableBytes w (podArray traceePtr ((entries ++ [XPointer.null]).length * w)
      (entries ++ [XPointer.null])) ++ modifiedPointees (entries ++ [XPointer.null]) =
    pushedBlock w traceePtr (entries ++ [XPointer.null]) from rfl, hm']

theorem push_readsBack (reg : Nat)
        (h : Represents m pointers entries strings kept) (hpointers : ∀ p ∈ pointers, p < 256 ^ w)
    (hcached : ∃ x ∈ entries, x.cached.isSome = true)
    (halloc : alloc (pushedSize w (entries ++ [.null])) = some traceePtr)
    (hfresh : FreshBlock m w (entries ++ [.null]) traceePtr) :
    ∃ m', pushArrayOfXpointers m w alloc reg (entries ++ [.null]) = (m', .ok traceePtr) ∧
      ReadsBack m' w traceePtr strings kept := by
  refine ⟨_, push_eq reg hcached halloc hfresh.writable, ?_⟩
  have hlength := @length_pushedBlock w traceePtr (entries ++ [XPointer.null])
  apply pushedBlock_readsBack h hpointers hfresh.pos hfresh.fits
  · apply Memory.load_store
    rw [Memory.store_ok, hlength]
    exact hfresh.writable
  · -- the strings that aren't modified are outside of the block
    intro x hx hc s hs
    refine ⟨hs.1, ?_⟩
    rw [Memory.load_store_outside]
    · exact hs.2
    · rw [hlength]
      exact hfresh.apart x (List.mem_append_left _ hx) hc s hs

theorem forall₂_pointsTo_unique {vs vs' : List (Option Str)}
    (h : List.Forall₂ (PointsTo m) pointers vs) (h' : List.Forall₂ (PointsTo m) pointers vs') :
    vs = vs' := by
  induction h generalizing vs' with
  | nil =>
      cases h'
      rfl
  | cons hv hrest ih =>
      cases h' with
      | cons hv' hrest' => rw [hv.unique hv', ih hrest']

theorem push_uncached {reg : Nat} (hnone : ¬ ∃ x ∈ entries, x.cached.isSome = true) :
    pushArrayOfXpointers m w alloc reg (entries ++ [XPointer.null]) = (m, .ok reg) := by
  have hcount : (entries ++ [XPointer.null]).countP (·.cached.isSome) = 0 := by
    rw [List.countP_eq_zero]
    intro x hx hsome
    cases List.mem_append.mp hx with
    | inl hx => exact hnone ⟨x, hx, hsome⟩
    | inr hx =>
        rw [List.mem_singleton.mp hx] at hsome
        cases hsome
  rw [pushArrayOfXpointers]
  simp only [hcount]
  rfl

theorem push_not_abort {reg : Nat} (entries : List XPointer) :
    (pushArrayOfXpointers m w alloc reg (entries ++ [XPointer.null])).2 ≠ .error .abort := by
  have hle := List.countP_le_length (p := fun x : XPointer => x.cached.isSome) (l := entries)
  have hcounts : (entries ++ [XPointer.null]).countP (·.cached.isSome) =
      entries.countP (·.cached.isSome) := by simp [XPointer.null]
  have hlength : (entries ++ [XPointer.null]).length = entries.length + 1 := by simp
  intro habort
  rw [pushArrayOfXpointers] at habort
  simp only [hcounts] at habort
  split at habort
  · cases habort
  · rw [if_neg (by omega)] at habort
    split at habort
    · cases habort
    · split at habort
      · cases habort
      · cases habort

/-- **Not pushing an array** is right exactly when the list is the one of the tracee. -/
theorem unpushed_readsBack {reg : Nat} {edited : List (Option Str)}
    (h : Represents m pointers entries edited kept) (harray : ArrayOf m w reg pointers)
    (hstrings : List.Forall₂ (PointsTo m) pointers strings)
    (hnone : ¬ ∃ x ∈ entries, x.cached.isSome = true) :
    ReadsBack m w reg edited kept ↔ edited.takeWhile Option.isSome = strings := by
  have huncached : ∀ x ∈ entries, x.cached = none := by
    intro x hx
    cases hc : x.cached with
    | none => rfl
    | some s => exact absurd ⟨x, hx, by rw [hc]; rfl⟩ hnone
  have hremotes : List.Forall₂ (PointsTo m) (entries.map XPointer.remote) edited := by
    rw [List.forall₂_map_left_iff]
    have hboth := (List.forall₂_and_left entries edited).mpr ⟨huncached, h.means⟩
    refine hboth.imp fun x v hx => ?_
    have hmeans := hx.2
    unfold XPointer.Means at hmeans
    rwa [hx.1] at hmeans
  constructor
  · rintro ⟨pointers', harray', hedited, -⟩
    rw [← harray.unique harray'] at hedited
    exact forall₂_pointsTo_unique hedited hstrings
  · intro hsame
    -- the pointers up to the first NULL are all those of the tracee
    have hstarts := forall₂_takeWhile pointsTo_isSome hremotes
    rw [hsame] at hstarts
    have hsub : ((entries.map XPointer.remote).takeWhile (· ≠ 0)).Sublist pointers := by
      have hfilter := (List.takeWhile_sublist (p := (· ≠ 0)) (l := entries.map XPointer.remote)).filter
        (· ≠ 0)
      rw [List.filter_eq_self.mpr fun x hx => by simpa using List.mem_takeWhile_imp hx] at hfilter
      exact hfilter.trans h.remotes
    have heq := hsub.eq_of_length (hstarts.length_eq.trans hstrings.length_eq.symm)
    refine ⟨pointers, harray, hsame ▸ hstrings, ?_⟩
    have hkeeps : List.Forall₂ (fun pointer k => ∀ q, k = some q → pointer = q)
        (entries.map XPointer.remote) kept := by
      rw [List.forall₂_map_left_iff]
      exact h.keeps.imp fun x k hx q hq => (hx q hq).2
    have htake := List.prefix_iff_eq_take.mp
      (List.takeWhile_prefix (p := (· ≠ 0)) (l := entries.map XPointer.remote))
    rw [heq] at htake
    conv => arg 2; rw [htake]
    exact List.forall₂_take _ hkeeps

end Push

/-! ## From an array of the tracee to another -/

/-- Fetch, edit, push; none when the fuel isn't enough for the array. -/
def editArray (r : Reader) (m : Memory) (w : Nat) (alloc : Nat → Option Nat) (fuel reg : Nat)
    (edits : List (Edit Str)) : Option (Memory × Except Failure Nat) :=
  match fetchUpToNull m w fuel reg with
  | none => none
  | some (.error f) => some (m, .error f)
  | some (.ok array) =>
    match runEdits r m array edits with
    | .error f => some (m, .error f)
    | .ok array => some (pushArrayOfXpointers m w alloc reg array)

def fetchedEntries (pointers : List Nat) : List XPointer :=
  pointers.map fun pointer => ⟨pointer, none⟩

theorem represents_fetched (hstrings : List.Forall₂ (PointsTo m) pointers strings) :
    Represents m pointers (fetchedEntries pointers) strings (pointers.map some) := by
  refine ⟨?_, ?_, ?_⟩
  · exact List.forall₂_map_left_iff.mpr hstrings
  · apply List.forall₂_map_left_iff.mpr
    apply List.forall₂_map_right_iff.mpr
    apply List.forall₂_same.mpr
    intro pointer _ q hq
    cases hq
    exact ⟨rfl, rfl⟩
  · have hremotes : (fetchedEntries pointers).map XPointer.remote = pointers := by
      unfold fetchedEntries
      rw [List.map_map]
      exact List.map_id pointers
    rw [hremotes]
    exact List.filter_sublist

/-- **Editing a pointer array is editing the list**: no assertion fails, and when the edits succeed,
the array found in the tracee's memory reads back as the edited list if and only if an entry is
cached when the array is pushed, or the edits leave the list as it was. -/
theorem editArray_iff {r : Reader} {m : Memory} {w fuel reg : Nat} {alloc : Nat → Option Nat}
    {pointers : List Nat} {strings : List (Option Str)} {edits : List (Edit Str)} (hr : r.Faithful m)
    (harray : ArrayOf m w reg pointers) (hstrings : List.Forall₂ (PointsTo m) pointers strings)
    (hfuel : pointers.length < fuel) (hvalid : ValidEdits strings edits) :
    (∀ m', editArray r m w alloc fuel reg edits ≠ some (m', .error .abort)) ∧
      ∀ array traceePtr,
        runEdits r m (fetchedEntries pointers ++ [.null]) edits = .ok array →
        alloc (pushedSize w array) = some traceePtr → FreshBlock m w array traceePtr →
        ((∃ m' reg', editArray r m w alloc fuel reg edits = some (m', .ok reg') ∧
            ReadsBack m' w reg' (editedStrings strings edits)
              (keptPointers (pointers.map some) edits)) ↔
          (∃ x ∈ array, x.cached.isSome = true) ∨
            (editedStrings strings edits).takeWhile Option.isSome = strings) := by
  have hfetch := fetchUpToNull_eq harray hfuel
  have hpointers : ∀ p ∈ pointers, p < 256 ^ w := fun p hp => (harray.fits p hp).2
  obtain ⟨habort, hrun⟩ := runEdits_represents hr (represents_fetched hstrings) edits hvalid
  have hprogram (array : List XPointer)
      (harray : runEdits r m (fetchedEntries pointers ++ [.null]) edits = .ok array) :
      editArray r m w alloc fuel reg edits = some (pushArrayOfXpointers m w alloc reg array) := by
    have harray' : runEdits r m (pointers.map (fun pointer => ⟨pointer, none⟩) ++ [.null]) edits =
        .ok array := harray
    simp only [editArray, hfetch, harray']
  refine ⟨?_, ?_⟩
  · intro m' hprogramAborts
    cases hedits : runEdits r m (fetchedEntries pointers ++ [.null]) edits with
    | error f =>
        have hfails : runEdits r m (pointers.map (fun pointer => ⟨pointer, none⟩) ++ [.null]) edits =
            .error f := hedits
        simp only [editArray, hfetch, hfails, Option.some.injEq] at hprogramAborts
        cases hprogramAborts
        exact habort hedits
    | ok array =>
        obtain ⟨entries, rfl, -⟩ := hrun array hedits
        rw [hprogram _ hedits, Option.some.injEq] at hprogramAborts
        exact push_not_abort entries (congrArg Prod.snd hprogramAborts)
  · intro array traceePtr hedits halloc hfresh
    obtain ⟨entries, rfl, hrep⟩ := hrun array hedits
    rw [hprogram _ hedits]
    have hsome : (∃ x ∈ entries ++ [XPointer.null], x.cached.isSome = true) ↔
        ∃ x ∈ entries, x.cached.isSome = true := by simp [XPointer.null]
    rw [hsome]
    by_cases hcached : ∃ x ∈ entries, x.cached.isSome = true
    · obtain ⟨m', hpush, hreads⟩ := push_readsBack reg hrep hpointers hcached halloc hfresh
      exact iff_of_true ⟨m', traceePtr, congrArg some hpush, hreads⟩ (.inl hcached)
    · rw [push_uncached hcached, ← unpushed_readsBack hrep harray hstrings hcached]
      constructor
      · intro hreads
        obtain ⟨m', reg', heq, hreads⟩ := hreads
        cases heq
        exact .inr hreads
      · intro hreads
        cases hreads with
        | inl hsome => exact absurd hsome hcached
        | inr hreads => exact ⟨m, reg, rfl, hreads⟩

/-! ## An array of two strings -/

def strA : Str := ⟨[97], by decide⟩
def strB : Str := ⟨[98], by decide⟩
def strC : Str := ⟨[99], by decide⟩

def argvMemory : Memory where
  byte? a :=
    if a < 8192 then
      some (if 4096 ≤ a then
        (tableBytes 8 [4120, 4122, 0] ++ strA.stored ++ strB.stored).getD (a - 4096) 0 else 0)
    else none
  writable a := a < 8192
  mapped := by
    intro a ha
    rw [if_pos (of_decide_eq_true ha)]
    rfl

def readerOf (m : Memory) : Reader := ⟨8, 4096, fun address size => (m.load address size).getD []⟩

theorem readerOf_faithful (m : Memory) : (readerOf m).Faithful m := by
  refine ⟨Nat.zero_lt_succ 7, ?_⟩
  intro address size
  show ((m.load address size).getD []).length ≤ size ∧
    m.load address ((m.load address size).getD []).length = some ((m.load address size).getD [])
  cases hload : m.load address size with
  | none => exact ⟨Nat.zero_le size, rfl⟩
  | some bs =>
      have hlength := Memory.load_length hload
      refine ⟨Nat.le_of_eq hlength, ?_⟩
      rw [Option.getD_some, hlength]
      exact hload

theorem argvMemory_array : ArrayOf argvMemory 8 4096 [4120, 4122] := by
  refine ⟨by decide, ?_⟩
  intro pointer hpointer
  cases List.mem_cons.mp hpointer with
  | inl heq =>
      rw [heq]
      decide
  | inr hmem =>
      rw [List.mem_singleton.mp hmem]
      decide

theorem argvMemory_strings :
    List.Forall₂ (PointsTo argvMemory) [4120, 4122] [some strA, some strB] :=
  .cons ⟨by decide, by decide⟩ (.cons ⟨by decide, by decide⟩ .nil)

theorem editArray_write :
    ∃ m' reg', editArray (readerOf argvMemory) argvMemory 8 (fun _ => some 1024) 3 4096
        [.write 0 strC] = some (m', .ok reg') ∧
      ReadsBack m' 8 reg' [some strC, some strB] [none, some 4122] := by
  have hvalid : ValidEdits [some strA, some strB] [.write 0 strC] := ⟨by decide, trivial⟩
  have hfresh : FreshBlock argvMemory 8
      [⟨4120, some strC⟩, ⟨4122, none⟩, .null] 1024 := by
    have hsize : pushedSize 8 [⟨4120, some strC⟩, ⟨4122, none⟩, .null] = 26 := by decide
    refine ⟨by decide, by rw [hsize]; decide, ?_, ?_⟩
    · intro i hi
      rw [hsize] at hi
      exact decide_eq_true (show 1024 + i < 8192 by omega)
    · intro x hx hc s hs
      right
      rw [hsize]
      cases List.mem_cons.mp hx with
      | inl heq =>
          rw [heq] at hc
          cases hc
      | inr hx =>
          cases List.mem_cons.mp hx with
          | inl heq =>
              rw [heq]
              decide
          | inr hx =>
              rw [List.mem_singleton.mp hx] at hs
              exact absurd rfl hs.1
  exact ((editArray_iff (readerOf_faithful argvMemory) argvMemory_array argvMemory_strings
    (by decide) hvalid).2 _ 1024 rfl rfl hfresh).mpr (.inl ⟨⟨4120, some strC⟩, by decide, rfl⟩)

/-- "a" is removed: nothing is pushed, and the array still is {"a", "b", NULL}. -/
theorem not_editArray_delete : ValidEdits [some strA, some strB] [.resize 1 (-1)] ∧
      editedStrings [some strA, some strB] [.resize 1 (-1)] = [some strB] ∧
      ¬ ∃ m' reg', editArray (readerOf argvMemory) argvMemory 8 (fun _ => some 1024) 3 4096
          [.resize 1 (-1)] = some (m', .ok reg') ∧
        ReadsBack m' 8 reg' [some strB] [some 4122] := by
  refine ⟨⟨by decide, trivial⟩, by decide, ?_⟩
  rintro ⟨m', reg', hrun, pointers, harray, hpoints, -⟩
  have hkept : editArray (readerOf argvMemory) argvMemory 8 (fun _ => some 1024) 3 4096
      [.resize 1 (-1)] = some (argvMemory, .ok 4096) := by
    rw [editArray, fetchUpToNull_eq argvMemory_array (by decide)]
    rfl
  rw [hkept] at hrun
  cases hrun
  have heq := argvMemory_array.unique harray
  have hlength := hpoints.length_eq
  rw [← heq] at hlength
  cases hlength

end Improot.Execve
