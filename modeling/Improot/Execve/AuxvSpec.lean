import Improot.Execve.Auxv

/-!
# The initial stack is preserved

An adjustment that is completed replaces values of the table, and may append one vector; one that
isn't leaves the stack as it was.  This holds of the two extensions, in either order, exactly when no
write is lost halfway: the moved copy of argv and envp, and the table, can be written, or what was
written up to the failure was there already.
-/

namespace Improot.Execve

open Improot.Lib

variable {p : Platform}

/-! ## The initial stack -/

structure Block where
  argv : List Nat
  envp : List Nat
  auxv : List ElfAuxVector

def Block.front (b : Block) : List Nat :=
  b.argv.length :: (b.argv ++ [0]) ++ (b.envp ++ [0])

def Block.words (b : Block) : List Nat := b.front ++ tableWords b.auxv

def Block.table (b : Block) (p : Platform) (s : Stack) : Nat :=
  s.pointer + p.word * b.front.length

def Block.stop (b : Block) (p : Platform) (s : Stack) : Nat :=
  s.pointer + p.word * b.words.length

/-- The stack pointer designates a block; the first page isn't mapped. -/
structure Block.At (b : Block) (p : Platform) (s : Stack) : Prop where
  space : ∀ a, (s.memory.byte? a).isSome = true → 4096 ≤ a ∧ a < p.wordEnd
  words : s.memory.Holds p.word s.pointer b.words
  envp : ∀ x ∈ b.envp, x ≠ 0
  auxv : ∀ v ∈ b.auxv, v.type ≠ atNull

theorem Platform.word_pos (p : Platform) : 0 < p.word := by
  rcases p.word_eq with h | h <;> rw [h] <;> decide

theorem Platform.word_le (p : Platform) : p.word ≤ 8 := by
  rcases p.word_eq with h | h <;> omega

theorem tableWords_length (vs : List ElfAuxVector) : (tableWords vs).length = 2 * vs.length + 2 := by
  induction vs with
  | nil => rfl
  | cons v vs ih =>
      show (tableWords vs).length + 2 = _
      rw [ih, List.length_cons]
      omega

theorem tableWords_append (vs us : List ElfAuxVector) :
    tableWords (vs ++ us) = vs.flatMap (fun v => [v.type, v.value]) ++ tableWords us := by
  rw [tableWords, List.flatMap_append, List.append_assoc]
  rfl

theorem vectorWords_length (vs : List ElfAuxVector) :
    (vs.flatMap fun v => [v.type, v.value]).length = 2 * vs.length := by
  have hlength := tableWords_length vs
  rw [tableWords, List.length_append] at hlength
  simpa using hlength

variable {m : Memory} {a : Nat} {vs : List ElfAuxVector}

theorem sentinel_of_holds {w : Nat}
    (h : m.Holds w a (tableWords vs)) : m.peek w (a + w * (2 * vs.length)) = some atNull := by
  have hsentinel := (Memory.holds_append.mp h).2
  rw [vectorWords_length] at hsentinel
  exact hsentinel.1

theorem Block.front_length (b : Block) :
    b.front.length = (1 + b.argv.length + 1) + (b.envp.length + 1) := by
  simp [Block.front]
  omega

theorem Block.pointer_le_table (b : Block) (s : Stack) : s.pointer ≤ b.table p s :=
  Nat.le_add_right _ _

theorem Block.stop_eq (b : Block) (s : Stack) :
    b.stop p s = b.table p s + p.word * (2 * b.auxv.length + 2) := by
  rw [Block.stop, Block.words, List.length_append, tableWords_length, Nat.mul_add, ← Nat.add_assoc]
  rfl

namespace Block.At

variable {b : Block} {s : Stack} (h : b.At p s)

include h

theorem front : s.memory.Holds p.word s.pointer b.front := (Memory.holds_append.mp h.words).1

theorem vectors : s.memory.Holds p.word (b.table p s) (tableWords b.auxv) :=
  (Memory.holds_append.mp h.words).2

theorem low : 4096 ≤ s.pointer := by
  refine (h.space s.pointer (h.words.mapped (Nat.le_refl _) ?_)).1
  have hpos := Nat.mul_pos p.word_pos (show 0 < b.words.length by simp [Block.words, Block.front])
  omega

theorem high : b.stop p s ≤ p.wordEnd := by
  have hpos := Nat.mul_pos p.word_pos (show 0 < b.words.length by simp [Block.words, Block.front])
  have hlast := (h.space (b.stop p s - 1) (h.words.mapped (by unfold Block.stop; omega)
    (by unfold Block.stop; omega))).2
  omega

end Block.At

/-! ## Finding the vectors -/

theorem skipEnvp_spec {turns : Nat} {envp : List Nat}
    (h : m.Holds p.word a (envp ++ [0])) (hne : ∀ x ∈ envp, x ≠ 0)
    (hend : a + p.word * (envp.length + 1) < p.wordEnd) (hturns : envp.length < turns) :
    skipEnvp p m turns a = some (a + p.word * (envp.length + 1)) := by
  induction envp generalizing a turns with
  | nil =>
      obtain ⟨turns, rfl⟩ := Nat.exists_eq_succ_of_ne_zero (Nat.ne_of_gt hturns)
      have hpeek : m.peek p.word a = some 0 := h.1
      rw [List.length_nil, Nat.zero_add, Nat.mul_one] at hend ⊢
      rw [skipEnvp, hpeek]
      show (if 0 = 0 then _ else _) = _
      rw [if_pos rfl, Nat.mod_eq_of_lt hend]
  | cons x envp ih =>
      obtain ⟨turns, rfl⟩ := Nat.exists_eq_succ_of_ne_zero (Nat.ne_of_gt (Nat.zero_lt_of_lt hturns))
      have hpeek : m.peek p.word a = some x := h.1
      rw [List.length_cons] at hturns hend ⊢
      rw [Nat.mul_succ] at hend ⊢
      have hpos : 0 < p.word * (envp.length + 1) := Nat.mul_pos p.word_pos (Nat.succ_pos _)
      rw [skipEnvp, hpeek]
      show (if x = 0 then _ else _) = _
      rw [if_neg (hne x List.mem_cons_self), Nat.mod_eq_of_lt (by omega),
        ih h.2 (fun y hy => hne y (List.mem_cons_of_mem x hy)) (by omega) (by omega)]
      congr 1
      omega

variable {b : Block} {s : Stack}

theorem Block.At.address (h : b.At p s) :
    getElfAuxVectorsAddress p s = some (b.table p s) := by
  have hwords := h.front
  have hhigh := h.high
  have hlow := h.low
  rw [Block.stop_eq] at hhigh
  have hpos := Nat.mul_pos p.word_pos (show 0 < 2 * b.auxv.length + 2 by omega)
  -- argc, and argv with its null
  rw [Block.front, Memory.holds_append] at hwords
  obtain ⟨hfirst, henvp⟩ := hwords
  have hargc : s.memory.peek p.word s.pointer = some b.argv.length := hfirst.1
  have hlength : (b.argv.length :: (b.argv ++ [0])).length = 1 + b.argv.length + 1 := by
    simp
    omega
  rw [hlength] at henvp
  have htable : b.table p s =
      s.pointer + p.word * (1 + b.argv.length + 1) + p.word * (b.envp.length + 1) := by
    rw [Block.table, Block.front_length, Nat.mul_add p.word (1 + b.argv.length + 1), ← Nat.add_assoc]
  have hword := p.word_pos
  have henvpEnd : b.envp.length + 1 ≤ p.word * (b.envp.length + 1) := Nat.le_mul_of_pos_left _ hword
  rw [getElfAuxVectorsAddress, hargc]
  simp only
  rw [Nat.mul_comm _ p.word, Nat.mod_eq_of_lt (by omega),
    skipEnvp_spec henvp h.envp (by omega) (by omega), ← htable]
  simp only
  rw [if_neg (by omega)]

/-- Talloc can allocate the arrays of up to `n` vectors. -/
def Platform.Fetches (p : Platform) (n : Nat) : Prop := ∀ k ≤ n, p.allocates (16 * (k + 1)) = true

instance (p : Platform) (n : Nat) : Decidable (p.Fetches n) :=
  inferInstanceAs (Decidable (∀ k ≤ n, p.allocates (16 * (k + 1)) = true))

/-- The loop reads the vectors up to the sentinel, if they can be allocated. -/
theorem fetchLoop_spec {turns : Nat} {acc : List ElfAuxVector}
    (h : m.Holds p.word a (tableWords vs)) (hne : ∀ v ∈ vs, v.type ≠ atNull)
    (hend : a + p.word * (2 * vs.length + 2) ≤ p.wordEnd) (hturns : vs.length < turns) :
    fetchLoop p m turns acc a =
      if ∀ k < vs.length, p.allocates (16 * (acc.length + k + 2)) = true then some (acc ++ vs)
      else none := by
  induction vs generalizing a turns acc with
  | nil =>
      obtain ⟨turns, rfl⟩ := Nat.exists_eq_succ_of_ne_zero (Nat.ne_of_gt hturns)
      have hpeek : m.peek p.word a = some atNull := h.1
      rw [fetchLoop, hpeek, List.append_nil]
      exact (if_pos fun k hk => absurd hk (Nat.not_lt_zero k)).symm
  | cons v vs ih =>
      obtain ⟨turns, rfl⟩ := Nat.exists_eq_succ_of_ne_zero (Nat.ne_of_gt (Nat.zero_lt_of_lt hturns))
      have htype : m.peek p.word a = some v.type := h.1
      have hvalue : m.peek p.word (a + p.word) = some v.value := h.2.1
      rw [List.length_cons] at hturns hend
      rw [show 2 * (vs.length + 1) + 2 = (2 * vs.length + 2) + 2 by omega, Nat.mul_add] at hend
      have hpos : 0 < p.word * (2 * vs.length + 2) := Nat.mul_pos p.word_pos (Nat.succ_pos _)
      have hnext : (a + p.word) % p.wordEnd = a + p.word := Nat.mod_eq_of_lt (by omega)
      have hafter : (a + p.word + p.word) % p.wordEnd = a + p.word + p.word :=
        Nat.mod_eq_of_lt (by omega)
      rw [fetchLoop, htype]
      simp only
      rw [if_neg (hne v List.mem_cons_self), hnext, hvalue, hafter]
      simp only [addElfAuxVector]
      by_cases halloc : p.allocates (16 * (acc.length + 2)) = true
      · rw [if_pos halloc]
        simp only
        rw [ih h.2.2 (fun u hu => hne u (List.mem_cons_of_mem v hu)) (by omega) (by omega),
          List.length_append, List.append_assoc]
        show (if ∀ k < vs.length, p.allocates (16 * (acc.length + 1 + k + 2)) = true
          then some (acc ++ v :: vs) else none) = _
        refine if_congr ?_ rfl rfl
        constructor
        · intro hall k hk
          cases k with
          | zero => exact halloc
          | succ k =>
              rw [show acc.length + (k + 1) + 2 = acc.length + 1 + k + 2 by omega]
              exact hall k (by simpa using hk)
        · intro hall k hk
          rw [show acc.length + 1 + k + 2 = acc.length + (k + 1) + 2 by omega]
          exact hall (k + 1) (by simpa using hk)
      · rw [if_neg halloc]
        refine (if_neg fun hall => ?_).symm
        exact halloc (hall 0 (by simp))

theorem Block.At.fetched (h : b.At p s) :
    fetchElfAuxVectors p s.memory (b.table p s) =
      if p.Fetches b.auxv.length then some b.auxv else none := by
  have hhigh := h.high
  rw [Block.stop_eq] at hhigh
  have hword := p.word_pos
  have hturns : 2 * b.auxv.length + 2 ≤ p.word * (2 * b.auxv.length + 2) :=
    Nat.le_mul_of_pos_left _ hword
  rw [fetchElfAuxVectors, fetchLoop_spec h.vectors h.auxv hhigh (by omega), List.nil_append,
    List.length_nil]
  by_cases hall : p.Fetches b.auxv.length
  · rw [if_pos hall, if_pos (hall 0 (Nat.zero_le _)), if_pos]
    intro k hk
    rw [Nat.zero_add]
    exact hall (k + 1) hk
  · rw [if_neg hall]
    split
    case isFalse => rfl
    case isTrue hfirst =>
      apply if_neg
      intro hrest
      apply hall
      intro k hk
      cases k with
      | zero => exact hfirst
      | succ k =>
          have hk := hrest k hk
          rwa [Nat.zero_add] at hk

/-! ## Pushing the vectors -/

/-- A vector in words of `w` bytes. -/
def ElfAuxVector.wrap (w : Nat) (v : ElfAuxVector) : ElfAuxVector :=
  ⟨v.type % 256 ^ w, v.value % 256 ^ w⟩

theorem tableWords_wrap (w : Nat) (vs : List ElfAuxVector) :
    tableWords (vs.map (·.wrap w)) = (tableWords vs).map (· % 256 ^ w) := by
  induction vs with
  | nil =>
      show [0, 0] = [0 % 256 ^ w, 0 % 256 ^ w]
      rw [Nat.zero_mod]
  | cons v vs ih =>
      show _ :: _ :: tableWords (vs.map (·.wrap w)) = _ :: _ :: (tableWords vs).map (· % 256 ^ w)
      rw [ih]
      rfl

def Block.withVectors (b : Block) (p : Platform) (vs : List ElfAuxVector) : Block :=
  { b with auxv := vs.map (·.wrap p.word) }

theorem pushed_at {sp : Nat} (hspace : ∀ a, (m.byte? a).isSome = true → 4096 ≤ a ∧ a < p.wordEnd)
    (hfront : m.Holds p.word sp b.front) (henvp : ∀ x ∈ b.envp, x ≠ 0)
    (hne : ∀ v ∈ vs, v.type % 256 ^ p.word ≠ atNull)
    (hw : m.Writable (sp + p.word * b.front.length) (p.word * (tableWords vs).length)) :
    (b.withVectors p vs).At p
      ⟨(m.pokeAll p.word (sp + p.word * b.front.length) (tableWords vs)).1, sp⟩ where
  space a ha := by
    rw [Memory.pokeAll_isSome] at ha
    exact hspace a ha
  words := by
    apply Memory.holds_append.mpr
    constructor
    · exact hfront.same (Memory.sameOn_pokeAll (.inl (Nat.le_refl _))) (Nat.le_refl sp)
        (Nat.le_refl _)
    · show Memory.Holds _ _ (sp + p.word * b.front.length) (tableWords (vs.map (·.wrap p.word)))
      rw [tableWords_wrap]
      exact Memory.holds_pokeAll hw
  envp := henvp
  auxv v hv := by
    obtain ⟨u, hu, rfl⟩ := List.mem_map.mp hv
    exact hne u hu

theorem pushed_same_iff (ha : s.pointer ≤ a) :
    (∀ x, s.pointer ≤ x → (pushed p s vs a).1.memory.byte? x = s.memory.byte? x) ↔
      s.memory.Kept p.word a (tableWords vs) := by
  rw [← Memory.pokeAll_same_iff]
  constructor
  · intro hsame
    apply Memory.ext
    · funext x
      by_cases hx : s.pointer ≤ x
      · exact hsame x hx
      · exact Memory.pokeAll_byte?_outside (.inl (Nat.lt_of_lt_of_le (Nat.lt_of_not_le hx) ha))
    · exact Memory.pokeAll_writable
  · intro hsame x _
    show (s.memory.pokeAll p.word a (tableWords vs)).1.byte? x = _
    rw [hsame]

/-! ## What the adjustments are to do -/

inductive Adjustment where
  | kompat (c : KompatConfig)
  | fakeId0 (ids : Ids)

def Adjustment.apply (p : Platform) : Adjustment → Stack → Stack × Bool
  | .kompat c, s => c.adjustElfAuxv p s
  | .fakeId0 ids, s => ids.adjustElfAuxv p s

/-- The vectors with the values that are to be replaced; those of kompat come before AT_RANDOM, when
the release of the kernel is known. -/
def Adjustment.replaced : Adjustment → List ElfAuxVector → List ElfAuxVector
  | .kompat c, vs =>
    if c.actualRelease = 0 then vs.map c.edit
    else (vs.takeWhile (·.type ≠ atRandom)).map c.edit ++ vs.dropWhile (·.type ≠ atRandom)
  | .fakeId0 ids, vs => vs.map ids.edit

def Adjustment.Adds : Adjustment → Prop
  | .kompat _ => True
  | .fakeId0 _ => False

def Adjustment.Makes (x : Adjustment) (p : Platform) (b b' : Block) : Prop :=
  ∃ added : List ElfAuxVector, (added = [] ∨ x.Adds ∧ ∃ value, added = [⟨atRandom, value⟩]) ∧
    b' = b.withVectors p (x.replaced b.auxv ++ added)

/-- **An adjustment preserves the stack.** When it is completed, the stack pointer designates the
block with the new vectors, the table still ends where it did, and nothing above it has changed;
otherwise nothing has. -/
def Adjustment.Keeps (x : Adjustment) (p : Platform) (b : Block) (s : Stack) (r : Stack × Bool) :
    Prop :=
  if r.2 then
    ∃ b', x.Makes p b b' ∧ b'.At p r.1 ∧ b'.stop p r.1 = b.stop p s ∧
      ∀ a, b.stop p s ≤ a → r.1.memory.byte? a = s.memory.byte? a
  else r.1.pointer = s.pointer ∧ ∀ a, s.pointer ≤ a → r.1.memory.byte? a = s.memory.byte? a

/-! ## When they do -/

/-- **A table in place**: it can be written, or what is written of it is there already. -/
def InPlace (p : Platform) (b : Block) (s : Stack) (vs : List ElfAuxVector) : Prop :=
  s.memory.Writable (b.table p s) (p.word * (tableWords vs).length) ∨
    s.memory.Kept p.word (b.table p s) (tableWords vs)

def KompatConfig.Appends (c : KompatConfig) (p : Platform) (vs : List ElfAuxVector) : Prop :=
  (c.actualRelease = 0 ∨ ∀ v ∈ vs, v.type ≠ atRandom) ∧
    c.needsKompat (kernelVersion 2 6 29) = true ∧ p.allocates (16 * (vs.length + 2)) = true

/-- What `kompat` has to find when AT_RANDOM is appended: the stack from two words below the stack
pointer can be written.  Where argv and envp can't be copied, the vectors are pushed over the two
words above the table, unless this fails first. -/
def AppendsFit (p : Platform) (b : Block) (s : Stack) (vs : List ElfAuxVector) : Prop :=
  (p.allocates (p.word * b.front.length) = true →
    s.memory.Writable (s.pointer - 2 * p.word) (p.word * (b.words.length + 2))) ∧
  (p.allocates (p.word * b.front.length) = false →
    ¬ s.memory.Writable (b.table p s) (p.word * (tableWords vs).length) ∧
      s.memory.Kept p.word (b.table p s) (tableWords vs))

/-- **The condition.** -/
def Adjustment.Fits (x : Adjustment) (p : Platform) (b : Block) (s : Stack) : Prop :=
  p.Fetches b.auxv.length →
    match x with
    | .fakeId0 _ => InPlace p b s (x.replaced b.auxv)
    | .kompat c =>
      (c.Appends p b.auxv → AppendsFit p b s (x.replaced b.auxv ++ [⟨atRandom, b.table p s⟩])) ∧
      (¬ c.Appends p b.auxv → InPlace p b s (x.replaced b.auxv))

/-! ## In place -/

section InPlace

variable {b : Block} {s : Stack}

/-- The edits keep the number of the vectors, and none becomes a sentinel. -/
structure EditOf (p : Platform) (old new : List ElfAuxVector) : Prop where
  length : new.length = old.length
  types : ∀ v ∈ new, v.type % 256 ^ p.word ≠ atNull

theorem stop_withVectors {s' : Stack}
    (h : s'.pointer + p.word * (2 * vs.length) = s.pointer + p.word * (2 * b.auxv.length)) :
    (b.withVectors p vs).stop p s' = b.stop p s := by
  rw [Block.stop_eq, Block.stop_eq]
  show s'.pointer + p.word * b.front.length + p.word * (2 * (vs.map _).length + 2) =
    s.pointer + p.word * b.front.length + p.word * (2 * b.auxv.length + 2)
  rw [List.length_map, Nat.mul_add, Nat.mul_add]
  omega

theorem Block.At.pushed_inPlace (h : b.At p s) (hedit : EditOf p b.auxv vs)
    (hw : s.memory.Writable (b.table p s) (p.word * (tableWords vs).length)) :
    (pushed p s vs (b.table p s)).2 = true ∧
      (b.withVectors p vs).At p (pushed p s vs (b.table p s)).1 ∧
      ∀ a, b.stop p s ≤ a → (pushed p s vs (b.table p s)).1.memory.byte? a = s.memory.byte? a := by
  refine ⟨Memory.pokeAll_ok.mpr hw, pushed_at h.space h.front h.envp hedit.types hw, ?_⟩
  intro a ha
  rw [Block.stop_eq, ← hedit.length, ← tableWords_length] at ha
  exact Memory.pokeAll_byte?_outside (.inr ha)

theorem Block.At.keeps_inPlace (h : b.At p s) (x : Adjustment)
    (hedit : EditOf p b.auxv (x.replaced b.auxv)) :
    x.Keeps p b s (pushed p s (x.replaced b.auxv) (b.table p s)) ↔
      InPlace p b s (x.replaced b.auxv) := by
  by_cases hw : s.memory.Writable (b.table p s) (p.word * (tableWords (x.replaced b.auxv)).length)
  · obtain ⟨hok, hat, hsame⟩ := h.pushed_inPlace hedit hw
    rw [Adjustment.Keeps, if_pos hok]
    constructor
    · exact fun _ => .inl hw
    · intro _
      exact ⟨_, ⟨[], .inl rfl, by rw [List.append_nil]⟩, hat,
        stop_withVectors (by rw [hedit.length]; rfl), hsame⟩
  · have hfail : (pushed p s (x.replaced b.auxv) (b.table p s)).2 ≠ true :=
      mt Memory.pokeAll_ok.mp hw
    rw [Adjustment.Keeps, if_neg hfail, pushed_same_iff (b.pointer_le_table s)]
    constructor
    · exact fun hkept => .inr hkept.2
    · intro hplace
      exact ⟨rfl, hplace.resolve_left hw⟩

end InPlace

/-! ## fake_id0 -/

theorem type_lt (h : b.At p s) {v : ElfAuxVector} (hv : v ∈ b.auxv) :
    v.type < 256 ^ p.word := by
  refine h.vectors.lt v.type (List.mem_append_left _ ?_)
  exact List.mem_flatMap.mpr ⟨v, hv, List.mem_cons_self⟩

theorem Ids.edit_type (ids : Ids) (v : ElfAuxVector) : (ids.edit v).type = v.type := by
  unfold Ids.edit
  repeat' split
  all_goals rfl

theorem Block.At.edit_fakeId0 (h : b.At p s) (ids : Ids) :
    EditOf p b.auxv ((Adjustment.fakeId0 ids).replaced b.auxv) where
  length := List.length_map _
  types v hv := by
    obtain ⟨u, hu, rfl⟩ := List.mem_map.mp hv
    rw [Ids.edit_type, Nat.mod_eq_of_lt (type_lt h hu)]
    exact h.auxv u hu

theorem Adjustment.keeps_self (x : Adjustment) (b : Block) (s : Stack) :
    x.Keeps p b s (s, false) := by
  rw [Adjustment.Keeps, if_neg Bool.false_ne_true]
  exact ⟨rfl, fun _ _ => rfl⟩

theorem Block.At.fakeId0_keeps_iff (h : b.At p s) (ids : Ids) :
    (Adjustment.fakeId0 ids).Keeps p b s (ids.adjustElfAuxv p s) ↔
      (Adjustment.fakeId0 ids).Fits p b s := by
  unfold Ids.adjustElfAuxv
  rw [h.address]
  dsimp only
  rw [h.fetched]
  by_cases hfetch : p.Fetches b.auxv.length
  · rw [if_pos hfetch]
    exact (h.keeps_inPlace _ (h.edit_fakeId0 ids)).trans
      ⟨fun hplace _ => hplace, fun hall => hall hfetch⟩
  · rw [if_neg hfetch]
    exact ⟨fun _ hno => absurd hno hfetch, fun _ => Adjustment.keeps_self _ b s⟩

/-! ## kompat -/

theorem KompatConfig.editLoop_eq (c : KompatConfig) (vs : List ElfAuxVector) :
    c.editLoop vs = ((Adjustment.kompat c).replaced vs,
      decide (c.actualRelease ≠ 0 ∧ ∃ v ∈ vs, v.type = atRandom)) := by
  induction vs with
  | nil => simp [KompatConfig.editLoop, Adjustment.replaced]
  | cons v vs ih =>
      rw [KompatConfig.editLoop]
      by_cases hknown : c.actualRelease = 0
      · rw [if_neg (fun hboth => hboth.2 hknown), ih]
        simp [Adjustment.replaced, hknown]
      · by_cases hrandom : v.type = atRandom
        · rw [if_pos ⟨hrandom, hknown⟩]
          simp [Adjustment.replaced, hknown, hrandom]
        · rw [if_neg (fun hboth => hrandom hboth.1), ih]
          simp [Adjustment.replaced, hknown, hrandom]

theorem KompatConfig.edit_type (c : KompatConfig) {v : ElfAuxVector} (hlt : v.type < 256 ^ p.word)
    (hne : v.type ≠ atNull) : (c.edit v).type % 256 ^ p.word ≠ atNull := by
  unfold KompatConfig.edit
  split
  · have hone : 1 < 256 ^ p.word := Nat.one_lt_pow (Nat.ne_of_gt p.word_pos) (by decide)
    show 1 % 256 ^ p.word ≠ 0
    rw [Nat.mod_eq_of_lt hone]
    decide
  · have hsame : v.type % 256 ^ p.word ≠ atNull := by rwa [Nat.mod_eq_of_lt hlt]
    split
    · exact hsame
    · exact hsame

theorem Block.At.edit_kompat (h : b.At p s) (c : KompatConfig) :
    EditOf p b.auxv ((Adjustment.kompat c).replaced b.auxv) := by
  have hedit : ∀ v ∈ b.auxv, (c.edit v).type % 256 ^ p.word ≠ atNull := fun v hv =>
    c.edit_type (type_lt h hv) (h.auxv v hv)
  simp only [Adjustment.replaced]
  split
  · refine ⟨List.length_map _, fun v hv => ?_⟩
    obtain ⟨u, hu, rfl⟩ := List.mem_map.mp hv
    exact hedit u hu
  · constructor
    · rw [List.length_append, List.length_map, ← List.length_append, List.takeWhile_append_dropWhile]
    · intro v hv
      rcases List.mem_append.mp hv with hv | hv
      · obtain ⟨u, hu, rfl⟩ := List.mem_map.mp hv
        exact hedit u (List.takeWhile_sublist _ |>.mem hu)
      · have hmem := (List.dropWhile_sublist _).mem hv
        rw [Nat.mod_eq_of_lt (type_lt h hmem)]
        exact h.auxv v hmem

section Append

variable {b : Block} {s : Stack}

def extended (c : KompatConfig) (p : Platform) (b : Block) (s : Stack) : List ElfAuxVector :=
  (Adjustment.kompat c).replaced b.auxv ++ [⟨atRandom, b.table p s⟩]

theorem extended_length (h : b.At p s) (c : KompatConfig) :
    (tableWords (extended c p b s)).length = (2 * b.auxv.length + 2) + 2 := by
  rw [tableWords_length, extended, List.length_append, (h.edit_kompat c).length,
    List.length_singleton]
  omega

theorem extended_types (h : b.At p s) (c : KompatConfig) :
    ∀ v ∈ extended c p b s, v.type % 256 ^ p.word ≠ atNull := by
  intro v hv
  rcases List.mem_append.mp hv with hv | hv
  · exact (h.edit_kompat c).types v hv
  · rw [List.mem_singleton.mp hv]
    show 25 % 256 ^ p.word ≠ 0
    rcases p.word_eq with hword | hword <;> rw [hword] <;> decide

theorem makes_extended (c : KompatConfig) :
    (Adjustment.kompat c).Makes p b (b.withVectors p (extended c p b s)) :=
  ⟨[⟨atRandom, b.table p s⟩], .inr ⟨trivial, _, rfl⟩, rfl⟩

/-- **Where argv and envp can't be copied**, the vectors are pushed over what is above them. -/
theorem Block.At.keeps_above (h : b.At p s) (c : KompatConfig) :
    (Adjustment.kompat c).Keeps p b s (pushed p s (extended c p b s) (b.table p s)) ↔
      ¬ s.memory.Writable (b.table p s) (p.word * (tableWords (extended c p b s)).length) ∧
        s.memory.Kept p.word (b.table p s) (tableWords (extended c p b s)) := by
  have hedit := h.edit_kompat c
  by_cases hw : s.memory.Writable (b.table p s) (p.word * (tableWords (extended c p b s)).length)
  · have hok : (pushed p s (extended c p b s) (b.table p s)).2 = true := Memory.pokeAll_ok.mpr hw
    have hat : (b.withVectors p (extended c p b s)).At p
        (pushed p s (extended c p b s) (b.table p s)).1 :=
      pushed_at h.space h.front h.envp (extended_types h c) hw
    rw [Adjustment.Keeps, if_pos hok]
    refine iff_of_false ?_ fun hboth => hboth.1 hw
    rintro ⟨b', ⟨added, -, rfl⟩, hat', hstop, -⟩
    -- nothing was added, since the table ends where it did
    have hnone : added.length = 0 := by
      rw [Block.stop_eq, Block.stop_eq] at hstop
      have hsame := Nat.eq_of_mul_eq_mul_left p.word_pos (Nat.add_left_cancel hstop)
      change 2 * (List.map _ _).length + 2 = 2 * b.auxv.length + 2 at hsame
      rw [List.length_map, List.length_append, hedit.length] at hsame
      omega
    have hnull := sentinel_of_holds hat'.vectors
    have hnew := Memory.holds_pokeAll hw
    change Memory.peek (s.memory.pokeAll p.word (b.table p s) (tableWords (extended c p b s))).1 _
      (b.table p s + p.word * (2 * (List.map _ _).length)) = _ at hnull
    generalize (s.memory.pokeAll p.word (b.table p s) (tableWords (extended c p b s))).1 = m
      at hnull hnew
    rw [List.length_map, List.length_append, hnone, Nat.add_zero] at hnull
    -- but AT_RANDOM is where the sentinel was
    rw [extended, tableWords_append, List.map_append, Memory.holds_append, List.length_map,
      vectorWords_length] at hnew
    have hrandom := Option.some.inj (hnull.symm.trans hnew.2.1)
    exact extended_types h c _ (List.mem_append_right _ (List.mem_singleton_self _)) hrandom.symm
  · have hfail : (pushed p s (extended c p b s) (b.table p s)).2 ≠ true := mt Memory.pokeAll_ok.mp hw
    rw [Adjustment.Keeps, if_neg hfail, pushed_same_iff (b.pointer_le_table s)]
    constructor
    · exact fun hkept => ⟨hw, hkept.2⟩
    · exact fun hboth => ⟨rfl, hboth.2⟩

theorem Block.At.lower (h : b.At p s) (ha : s.pointer ≤ a) (hend : a < p.wordEnd) :
    Execve.lower p a = a - 2 * p.word := by
  have hlow := h.low
  have hword := p.word_le
  rw [Execve.lower, show a + p.wordEnd - 2 * p.word = a - 2 * p.word + p.wordEnd by omega, Nat.add_mod_right,
    Nat.mod_eq_of_lt (by omega)]

theorem Adjustment.not_keeps_moved (x : Adjustment) {r : Stack × Bool} (hfail : r.2 = false)
    (hmoved : r.1.pointer ≠ s.pointer) : ¬ x.Keeps p b s r := by
  intro hkeeps
  rw [Adjustment.Keeps, if_neg (by rw [hfail]; exact Bool.false_ne_true)] at hkeeps
  exact hmoved hkeeps.1

theorem Block.At.size (h : b.At p s) :
    distance p s.pointer (b.table p s) = p.word * b.front.length := by
  have hhigh := h.high
  have hstop := b.stop_eq (p := p) s
  have hpos := Nat.mul_pos p.word_pos (show 0 < 2 * b.auxv.length + 2 by omega)
  have hlow := h.low
  have htable := b.pointer_le_table (p := p) s
  rw [distance, show b.table p s + p.wordEnd - s.pointer = (b.table p s - s.pointer) + p.wordEnd by omega,
    Nat.add_mod_right, Nat.mod_eq_of_lt (by omega), Block.table, Nat.add_sub_cancel_left]

theorem Block.At.moveAndPush_above (h : b.At p s) (c : KompatConfig)
    (halloc : p.allocates (p.word * b.front.length) = false) :
    moveAndPush p s (extended c p b s) (b.table p s) =
      pushed p s (extended c p b s) (b.table p s) := by
  unfold moveAndPush
  rw [h.size]
  exact if_pos (by rw [halloc]; exact Bool.false_ne_true)

theorem Block.At.copied (h : b.At p s) {bs : Bytes}
    (hload : s.memory.load s.pointer (p.word * b.front.length) = some bs)
    (hstore : (s.memory.store (s.pointer - 2 * p.word) bs).2 = true) :
    (s.memory.store (s.pointer - 2 * p.word) bs).1.Holds p.word (s.pointer - 2 * p.word)
      b.front := by
  have hcopy := Memory.load_store hstore
  rw [Memory.load_length hload] at hcopy
  exact h.front.copied hload hcopy

/-- Moving argv and envp keeps the stack where the copy can be written. -/
theorem Block.At.keeps_moved (h : b.At p s) (c : KompatConfig)
    (halloc : p.allocates (p.word * b.front.length) = true) :
    (Adjustment.kompat c).Keeps p b s (moveAndPush p s (extended c p b s) (b.table p s)) ↔
      s.memory.Writable (s.pointer - 2 * p.word) (p.word * (b.words.length + 2)) := by
  have hlow := h.low
  have hhigh := h.high
  have hstop := b.stop_eq (p := p) s
  have hpos := Nat.mul_pos p.word_pos (show 0 < 2 * b.auxv.length + 2 by omega)
  have htable := b.pointer_le_table (p := p) s
  have hword := p.word_le
  obtain ⟨bs, hload⟩ := h.front.loads
  have hbs := Memory.load_length hload
  have htotal : p.word * (b.words.length + 2) = p.word * b.front.length +
      p.word * (tableWords (extended c p b s)).length := by
    rw [extended_length h c, Block.words, List.length_append, tableWords_length, ← Nat.mul_add,
      Nat.add_assoc]
  have haddress : b.table p s - 2 * p.word = s.pointer - 2 * p.word + p.word * b.front.length := by
    unfold Block.table
    omega
  unfold moveAndPush
  simp only [h.size, halloc, not_true_eq_false, if_false, hload, h.lower (Nat.le_refl _) (by omega),
    h.lower htable (by omega)]
  rw [htotal, Memory.writable_add]
  have hcopied : s.memory.Writable (s.pointer - 2 * p.word) (p.word * b.front.length) ↔
      (s.memory.store (s.pointer - 2 * p.word) bs).2 = true := by rw [Memory.store_ok, hbs]
  rw [hcopied]
  have hholds := h.copied hload
  have hframe : ∀ a, b.stop p s ≤ a →
      (s.memory.store (s.pointer - 2 * p.word) bs).1.byte? a = s.memory.byte? a := fun a ha =>
    Memory.store_byte?_outside (.inr (by omega))
  have hmapped : ∀ a, ((s.memory.store (s.pointer - 2 * p.word) bs).1.byte? a).isSome =
      (s.memory.byte? a).isSome := fun _ => Memory.store_isSome
  have hwritable := Memory.store_writable (m := s.memory) (s.pointer - 2 * p.word) bs
  generalize s.memory.store (s.pointer - 2 * p.word) bs = stored at *
  obtain ⟨m, ok⟩ := stored
  cases ok with
  | false =>
      constructor
      · intro hkeeps
        refine absurd hkeeps (Adjustment.not_keeps_moved _ rfl ?_)
        show s.pointer - 2 * p.word ≠ s.pointer
        have hpos := p.word_pos
        omega
      · intro hno
        exact absurd hno.1 Bool.false_ne_true
  | true =>
      have hsame : m.Writable (s.pointer - 2 * p.word + p.word * b.front.length)
          (p.word * (tableWords (extended c p b s)).length) ↔
          s.memory.Writable (s.pointer - 2 * p.word + p.word * b.front.length)
            (p.word * (tableWords (extended c p b s)).length) := by
        rw [Memory.Writable, Memory.Writable, hwritable]
      rw [and_iff_right rfl, ← hsame, haddress]
      dsimp only
      by_cases hw : m.Writable (s.pointer - 2 * p.word + p.word * b.front.length)
          (p.word * (tableWords (extended c p b s)).length)
      · refine iff_of_true ?_ hw
        have hat := pushed_at (b := b) (fun a ha => h.space a (by rwa [← hmapped a]))
          (hholds rfl) h.envp (extended_types h c) hw
        have hok : (pushed p ⟨m, s.pointer - 2 * p.word⟩ (extended c p b s)
            (s.pointer - 2 * p.word + p.word * b.front.length)).2 = true :=
          Memory.pokeAll_ok.mpr hw
        rw [Adjustment.Keeps, if_pos hok]
        refine ⟨_, makes_extended c, hat, stop_withVectors ?_, fun a ha => ?_⟩
        · rw [extended, List.length_append, (h.edit_kompat c).length, List.length_singleton]
          show s.pointer - 2 * p.word + p.word * (2 * (b.auxv.length + 1)) = _
          rw [show 2 * (b.auxv.length + 1) = 2 * b.auxv.length + 2 by omega, Nat.mul_add]
          omega
        refine (Memory.pokeAll_byte?_outside (.inr ?_)).trans (hframe a ha)
        rw [extended_length h c, Nat.mul_add]
        omega
      · refine iff_of_false ?_ hw
        refine Adjustment.not_keeps_moved _ (Bool.of_not_eq_true (mt Memory.pokeAll_ok.mp hw)) ?_
        show s.pointer - 2 * p.word ≠ s.pointer
        have hpos := p.word_pos
        omega

/-- **The adjustment of kompat** keeps the stack under its condition. -/
theorem Block.At.kompat_keeps_iff (h : b.At p s) (c : KompatConfig) :
    (Adjustment.kompat c).Keeps p b s (c.adjustElfAuxv p s) ↔
      (Adjustment.kompat c).Fits p b s := by
  have hedit := h.edit_kompat c
  unfold KompatConfig.adjustElfAuxv
  rw [h.address]
  dsimp only
  rw [h.fetched]
  by_cases hfetch : p.Fetches b.auxv.length
  swap
  · rw [if_neg hfetch]
    exact ⟨fun _ hno => absurd hno hfetch, fun _ => Adjustment.keeps_self _ b s⟩
  rw [if_pos hfetch]
  dsimp only
  rw [c.editLoop_eq]
  -- the vectors are pushed in place
  have hinPlace (hno : ¬ c.Appends p b.auxv) :
      (Adjustment.kompat c).Keeps p b s
          (pushed p s ((Adjustment.kompat c).replaced b.auxv) (b.table p s)) ↔
        (Adjustment.kompat c).Fits p b s := by
    rw [h.keeps_inPlace _ hedit]
    exact ⟨fun hplace _ => ⟨fun hyes => absurd hyes hno, fun _ => hplace⟩,
      fun hall => (hall hfetch).2 hno⟩
  split
  case isTrue hends =>
    apply hinPlace
    rintro ⟨hrandom, hneeds, -⟩
    rcases hends with hends | hends
    · rw [decide_eq_true_iff] at hends
      obtain ⟨hknown, v, hv, hv'⟩ := hends
      exact hrandom.elim hknown fun hall => hall v hv hv'
    · exact hends hneeds
  case isFalse hgoes =>
    rw [not_or, not_not, decide_eq_true_iff] at hgoes
    have hrandom : c.actualRelease = 0 ∨ ∀ v ∈ b.auxv, v.type ≠ atRandom := by
      by_contra hno
      rw [not_or] at hno
      exact hgoes.1 ⟨hno.1, by simpa using hno.2⟩
    rw [addElfAuxVector, hedit.length]
    by_cases halloc : p.allocates (16 * (b.auxv.length + 2)) = true
    · have happends : c.Appends p b.auxv := ⟨hrandom, hgoes.2, halloc⟩
      rw [if_pos halloc]
      have hfits : (Adjustment.kompat c).Fits p b s ↔ AppendsFit p b s (extended c p b s) :=
        ⟨fun hall => (hall hfetch).1 happends,
          fun hfit _ => ⟨fun _ => hfit, fun hno => absurd happends hno⟩⟩
      show (Adjustment.kompat c).Keeps p b s
        (moveAndPush p s (extended c p b s) (b.table p s)) ↔ _
      rw [hfits]
      cases hcopy : p.allocates (p.word * b.front.length) with
      | true =>
          rw [h.keeps_moved c hcopy]
          exact ⟨fun hw => ⟨fun _ => hw, fun hno => (by rw [hcopy] at hno; cases hno)⟩,
            fun hfit => hfit.1 hcopy⟩
      | false =>
          rw [h.moveAndPush_above c hcopy, h.keeps_above c]
          exact ⟨fun habove => ⟨fun hno => (by rw [hcopy] at hno; cases hno), fun _ => habove⟩,
            fun hfit => hfit.2 hcopy⟩
    · rw [if_neg halloc]
      exact hinPlace fun happends => halloc happends.2.2

end Append

/-! ## The adjustments in order -/

theorem Block.At.keeps_iff (h : b.At p s) (x : Adjustment) :
    x.Keeps p b s (x.apply p s) ↔ x.Fits p b s := by
  cases x with
  | kompat c => exact h.kompat_keeps_iff c
  | fakeId0 ids => exact h.fakeId0_keeps_iff ids

def applyAll (p : Platform) (xs : List Adjustment) (s : Stack) : Stack :=
  xs.foldl (fun s x => (x.apply p s).1) s

def KeepsEach (p : Platform) : List Adjustment → Stack → Prop
  | [], _ => True
  | x :: xs, s => (∀ b : Block, b.At p s → x.Keeps p b s (x.apply p s)) ∧
      KeepsEach p xs (x.apply p s).1

def FitsEach (p : Platform) : List Adjustment → Stack → Prop
  | [], _ => True
  | x :: xs, s => (∀ b : Block, b.At p s → x.Fits p b s) ∧ FitsEach p xs (x.apply p s).1

theorem keepsEach_iff (xs : List Adjustment) (s : Stack) :
    KeepsEach p xs s ↔ FitsEach p xs s := by
  induction xs generalizing s with
  | nil => exact Iff.rfl
  | cons x xs ih =>
      rw [KeepsEach, FitsEach, ih]
      refine and_congr_left fun _ => ?_
      exact forall_congr' fun b => forall_congr' fun h => h.keeps_iff x

/-- The blocks that completed adjustments make, when others may do nothing. -/
def MakesEach (p : Platform) : List Adjustment → Block → Block → Prop
  | [], b, b' => b' = b
  | x :: xs, b, b' => ∃ b₁, (b₁ = b ∨ x.Makes p b b₁) ∧ MakesEach p xs b₁ b'

/-! ### Nothing is mapped, or protected -/

structure SameShape (m m' : Memory) : Prop where
  isSome : ∀ a, (m'.byte? a).isSome = (m.byte? a).isSome
  writable : m'.writable = m.writable

theorem SameShape.refl (m : Memory) : SameShape m m := ⟨fun _ => rfl, rfl⟩

theorem SameShape.trans {m m' m'' : Memory} (h : SameShape m m') (h' : SameShape m' m'') :
    SameShape m m'' :=
  ⟨fun a => (h'.isSome a).trans (h.isSome a), h'.writable.trans h.writable⟩

theorem pushed_shape (s : Stack) (vs : List ElfAuxVector) (address : Nat) :
    SameShape s.memory (pushed p s vs address).1.memory :=
  ⟨fun _ => Memory.pokeAll_isSome, Memory.pokeAll_writable⟩

theorem moveAndPush_shape {address : Nat} :
    SameShape s.memory (moveAndPush p s vs address).1.memory := by
  unfold moveAndPush
  dsimp only
  split
  · exact pushed_shape _ _ _
  cases s.memory.load s.pointer (distance p s.pointer address) with
  | none => exact pushed_shape _ _ _
  | some bs =>
      have hstore : SameShape s.memory (s.memory.store (lower p s.pointer) bs).1 :=
        ⟨fun _ => Memory.store_isSome, Memory.store_writable _ _⟩
      dsimp only
      generalize s.memory.store (lower p s.pointer) bs = stored at hstore ⊢
      obtain ⟨m, ok⟩ := stored
      cases ok with
      | false => exact hstore
      | true =>
          have hpushed : SameShape m
              (pushed p ⟨m, lower p s.pointer⟩ vs (lower p address)).1.memory :=
            pushed_shape ⟨m, lower p s.pointer⟩ vs _
          exact hstore.trans hpushed

theorem apply_shape (x : Adjustment) :
    SameShape s.memory (x.apply p s).1.memory := by
  cases x with
  | kompat c =>
      show SameShape s.memory (c.adjustElfAuxv p s).1.memory
      unfold KompatConfig.adjustElfAuxv
      split
      · exact .refl _
      split
      · exact .refl _
      dsimp only
      split
      · exact pushed_shape _ _ _
      split
      · exact pushed_shape _ _ _
      · exact moveAndPush_shape
  | fakeId0 ids =>
      show SameShape s.memory (ids.adjustElfAuxv p s).1.memory
      unfold Ids.adjustElfAuxv
      split
      · exact .refl _
      split
      · exact .refl _
      · exact pushed_shape _ _ _

/-! ### The stack at the end -/

/-- What the stack has become: a block with the new vectors that ends where the old one did. -/
structure Preserved (p : Platform) (xs : List Adjustment) (b : Block) (s s' : Stack) : Prop where
  block : ∃ b', MakesEach p xs b b' ∧ b'.At p s' ∧ b'.argv = b.argv ∧ b'.envp = b.envp ∧
    b'.stop p s' = b.stop p s
  above : ∀ a, b.stop p s ≤ a → s'.memory.byte? a = s.memory.byte? a

theorem Block.At.unchanged {s' : Stack} (h : b.At p s) (hpointer : s'.pointer = s.pointer)
    (hsame : ∀ a, s.pointer ≤ a → s'.memory.byte? a = s.memory.byte? a)
    (hshape : SameShape s.memory s'.memory) : b.At p s' where
  space a ha := h.space a (by rwa [← hshape.isSome a])
  words := by
    rw [hpointer]
    exact h.words.same (b := s.pointer) (fun a ha _ => hsame a ha) (Nat.le_refl _) (Nat.le_refl _)
  envp := h.envp
  auxv := h.auxv

theorem Block.At.preserved {b : Block} {s : Stack} (h : b.At p s) {xs : List Adjustment}
    (hkeeps : KeepsEach p xs s) : Preserved p xs b s (applyAll p xs s) := by
  induction xs generalizing b s with
  | nil => exact ⟨⟨b, rfl, h, rfl, rfl, rfl⟩, fun _ _ => rfl⟩
  | cons x xs ih =>
      obtain ⟨hfirst, hrest⟩ := hkeeps
      have hfirst := hfirst b h
      show Preserved p (x :: xs) b s (applyAll p xs (x.apply p s).1)
      unfold Adjustment.Keeps at hfirst
      split at hfirst
      case isTrue =>
        obtain ⟨b₁, hmakes, hat, hstop, hsame⟩ := hfirst
        obtain ⟨⟨b', hmade, hat', hargv, henvp, hstop'⟩, habove⟩ := ih hat hrest
        rw [hstop] at hstop' habove
        obtain ⟨added, hadded, rfl⟩ := hmakes
        exact ⟨⟨b', ⟨_, .inr ⟨added, hadded, rfl⟩, hmade⟩, hat', hargv, henvp, hstop'⟩,
          fun a ha => (habove a ha).trans (hsame a ha)⟩
      case isFalse =>
        obtain ⟨hpointer, hsame⟩ := hfirst
        have hat := h.unchanged hpointer hsame (apply_shape x)
        obtain ⟨⟨b', hmade, hat', hargv, henvp, hstop'⟩, habove⟩ := ih hat hrest
        have hstop : b.stop p (x.apply p s).1 = b.stop p s := by
          unfold Block.stop
          rw [hpointer]
        rw [hstop] at hstop' habove
        have hle : s.pointer ≤ b.stop p s := Nat.le_add_right _ _
        exact ⟨⟨b', ⟨b, .inl rfl, hmade⟩, hat', hargv, henvp, hstop'⟩,
          fun a ha => (habove a ha).trans (hsame a (Nat.le_trans hle ha))⟩

/-- **The initial stack is preserved** by the adjustments of kompat and fake_id0, in whatever order,
exactly when each of them finds what it needs; then the stack pointer designates a block with the
same argc, argv and envp and the new vectors, and nothing above the table has changed. -/
theorem auxv_preserved_iff {b : Block} {s : Stack} (h : b.At p s) (order : List Adjustment) :
    (KeepsEach p order s ↔ FitsEach p order s) ∧
      (FitsEach p order s → Preserved p order b s (applyAll p order s)) := by
  have hiff := keepsEach_iff (p := p) order s
  exact ⟨hiff, fun hfits => h.preserved (hiff.mpr hfits)⟩

/-! ### A stack that can be written -/

def AllWritable (m : Memory) : Prop := ∀ a, (m.byte? a).isSome = true → m.writable a = true

theorem SameShape.allWritable {m' : Memory} (h : SameShape m m') (hall : AllWritable m) :
    AllWritable m' := by
  intro a ha
  rw [h.isSome] at ha
  rw [h.writable]
  exact hall a ha

theorem Block.At.writable (h : b.At p s) (hall : AllWritable s.memory) :
    s.memory.Writable s.pointer (p.word * b.words.length) := fun _ hi =>
  hall _ (h.words.mapped (Nat.le_add_right _ _) (Nat.add_lt_add_left hi _))

theorem Block.At.inPlace (h : b.At p s) (hall : AllWritable s.memory)
    (hedit : EditOf p b.auxv vs) : InPlace p b s vs := by
  left
  have hstop := b.stop_eq (p := p) s
  have htable := b.pointer_le_table (p := p) s
  rw [tableWords_length, hedit.length]
  refine (h.writable hall).part htable (Nat.le_of_eq ?_)
  rw [← hstop]
  rfl

theorem fakeId0_fits (hall : AllWritable s.memory) (ids : Ids)
    (h : b.At p s) : (Adjustment.fakeId0 ids).Fits p b s := fun _ =>
  h.inPlace hall (h.edit_fakeId0 ids)

theorem kompat_fits (hall : AllWritable s.memory)
    (hroom : s.memory.Writable (s.pointer - 2 * p.word) (2 * p.word))
    (halloc : ∀ n, p.allocates n = true) (c : KompatConfig) (h : b.At p s) :
    (Adjustment.kompat c).Fits p b s := by
  intro _
  constructor
  · intro _
    constructor
    · intro _
      have hlow := h.low
      have hword := p.word_le
      rw [Nat.mul_add, Nat.mul_comm p.word 2, Nat.add_comm, Memory.writable_add,
        show s.pointer - 2 * p.word + 2 * p.word = s.pointer by omega]
      exact ⟨hroom, h.writable hall⟩
    · intro hno
      rw [halloc] at hno
      cases hno
  · exact fun _ => h.inPlace hall (h.edit_kompat c)

/-! ### Moving the stack pointer -/

def started : Block := ⟨[8200], [], [⟨atHwcap, 1⟩]⟩

def startedAt (first : Nat) : Stack where
  memory :=
    { byte? := fun a =>
        if first ≤ a ∧ a < 8256 then some ((started.words.flatMap (le 8)).getD (a - 8192) 0)
        else none
      writable := fun a => first ≤ a ∧ a < 8256
      mapped := by
        intro a ha
        rw [decide_eq_true_iff] at ha
        rw [if_pos ha]
        rfl }
  pointer := 8192

def amd64 : Platform := ⟨8, 2 ^ 64, fun _ => true, .inr rfl, .inl rfl⟩

theorem startedAt_mapped {first : Nat}
    (h : ((startedAt first).memory.byte? a).isSome = true) : first ≤ a ∧ a < 8256 := by
  by_contra hno
  rw [startedAt] at h
  simp only at h
  rw [if_neg hno] at h
  cases h

theorem started_at {first : Nat} (hfirst : first = 8176 ∨ first = 8192) :
    started.At amd64 (startedAt first) where
  space a ha := by
    obtain ⟨hle, hlast⟩ := startedAt_mapped ha
    exact ⟨by omega, Nat.lt_of_lt_of_le hlast (by decide)⟩
  words := by
    rcases hfirst with rfl | rfl
    · exact ⟨rfl, rfl, rfl, rfl, rfl, rfl, rfl, rfl, trivial⟩
    · exact ⟨rfl, rfl, rfl, rfl, rfl, rfl, rfl, rfl, trivial⟩
  envp := by decide
  auxv := by decide

theorem startedAt_allWritable (first : Nat) : AllWritable (startedAt first).memory := fun _ ha =>
  decide_eq_true (startedAt_mapped ha)

def older : KompatConfig := ⟨kernelVersion 2 6 18, kernelVersion 2 6 32, none⟩

/-- With two words of room, both adjustments are made. -/
theorem auxv_preserved_started :
    Preserved amd64 [.kompat older, .fakeId0 ⟨0, 0, 0, 0⟩] started (startedAt 8176)
      (applyAll amd64 [.kompat older, .fakeId0 ⟨0, 0, 0, 0⟩] (startedAt 8176)) := by
  have hall := startedAt_allWritable 8176
  refine (auxv_preserved_iff (started_at (.inl rfl)) _).2 ⟨?_, ?_, trivial⟩
  · intro b hb
    refine kompat_fits hall ?_ (fun _ => rfl) older hb
    intro i hi
    show decide (8176 ≤ 8176 + i ∧ 8176 + i < 8256) = true
    have hi : i < 16 := hi
    exact decide_eq_true (by omega)
  · intro b hb
    exact fakeId0_fits ((apply_shape _).allWritable hall) _ hb

/-- **Without them, the stack pointer is moved** to what can't be written. -/
theorem not_keepsEach : ¬ ∀ (p : Platform) (b : Block) (s : Stack) (order : List Adjustment),
    b.At p s → KeepsEach p order s := by
  intro hall
  have hat := started_at (.inr rfl)
  have hkeeps := (hall amd64 started (startedAt 8192)
    [.kompat older, .fakeId0 ⟨0, 0, 0, 0⟩] hat).1 started hat
  have hfits := (hat.keeps_iff (.kompat older)).mp hkeeps fun _ _ => rfl
  have happends : older.Appends amd64 started.auxv := ⟨.inr (by decide), by decide, rfl⟩
  have hwritable := (hfits.1 happends).1 rfl 0 (by decide)
  exact absurd hwritable (by decide)

end Improot.Execve
