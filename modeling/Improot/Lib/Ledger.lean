import Mathlib.Logic.Function.Basic

/-!
# Records kept beside the names of files

Files have names, and each file may have a record of its own. Where the records cannot be stored in
the files they are stored beside the names. A ledger follows the files when what is stored beside
every name is the record of the file of that name.
-/

namespace Improot.Lib

/-- The files that names stand for, what is stored beside the names, and the records of the files.
-/
structure Ledger (Key File Record : Type*) where
  name : Key → Option File
  side : Key → Option Record
  own : File → Option Record

namespace Ledger

variable {Key File Record : Type*} {guest : Key → Prop} {l l' : Ledger Key File Record}

/-- **The records follow the files**, under the names in `guest`. -/
def Follows (guest : Key → Prop) (l : Ledger Key File Record) : Prop :=
  ∀ k, guest k → l.side k = (l.name k).bind l.own

/-- A ledger that is the same under the names in `guest`. -/
theorem Follows.congr (h : l.Follows guest) (hname : ∀ k, guest k → l'.name k = l.name k)
    (hside : ∀ k, guest k → l'.side k = l.side k)
    (hown : ∀ k, guest k → ∀ f, l.name k = some f → l'.own f = l.own f) : l'.Follows guest := by
  intro k hk
  rw [hside k hk, hname k hk, h k hk]
  cases hf : l.name k with
  | none => rfl
  | some f => exact (hown k hk f hf).symm

variable [DecidableEq Key]

/-! ## Names go and move -/

/-- The name `k` goes. -/
def remove (l : Ledger Key File Record) (k : Key) : Ledger Key File Record where
  name := Function.update l.name k none
  side := Function.update l.side k none
  own := l.own

/-- The file named `k` is named `k'`, in place of the file that had this name. -/
def move (l : Ledger Key File Record) (k k' : Key) : Ledger Key File Record where
  name := Function.update (Function.update l.name k' (l.name k)) k none
  side := Function.update (Function.update l.side k' (l.side k)) k none
  own := l.own

theorem Follows.remove (h : l.Follows guest) (k : Key) : (l.remove k).Follows guest := by
  intro j hj
  by_cases hjk : j = k
  · subst hjk
    simp [Ledger.remove]
  · simpa only [Ledger.remove, Function.update_of_ne hjk] using h j hj

theorem Follows.move (h : l.Follows guest) {k : Key} (hk : guest k) (k' : Key) :
    (l.move k k').Follows guest := by
  intro j hj
  by_cases hjk : j = k
  · subst hjk
    simp [Ledger.move]
  · by_cases hjk' : j = k'
    · subst hjk'
      simpa [Ledger.move, Function.update_of_ne hjk] using h k hk
    · simpa only [Ledger.move, Function.update_of_ne hjk, Function.update_of_ne hjk'] using h j hj

/-! ## Files come and records change -/

variable [DecidableEq File]

/-- A new file `f` under the name `k`, with its record. -/
def create (l : Ledger Key File Record) (k : Key) (f : File) (r : Option Record) :
    Ledger Key File Record where
  name := Function.update l.name k (some f)
  side := Function.update l.side k r
  own := Function.update l.own f r

/-- The record of the file `f`, named `k`, changes. -/
def change (l : Ledger Key File Record) (k : Key) (f : File) (r : Record) :
    Ledger Key File Record where
  name := l.name
  side := Function.update l.side k (some r)
  own := Function.update l.own f (some r)

/-- A new file has no other name. -/
theorem Follows.create (h : l.Follows guest) {f : File} (hf : ∀ k, guest k → l.name k ≠ some f)
    (k : Key) (r : Option Record) : (l.create k f r).Follows guest := by
  intro j hj
  by_cases hjk : j = k
  · subst hjk
    simp [Ledger.create]
  · simp only [Ledger.create, Function.update_of_ne hjk, h j hj]
    cases hg : l.name j with
    | none => rfl
    | some g =>
      have hgf : g ≠ f := by
        rintro rfl
        exact hf j hj hg
      simp [Function.update_of_ne hgf]

/-- The record of a file changes beside its only name. -/
theorem Follows.change (h : l.Follows guest) {k : Key} {f : File} (hk : l.name k = some f)
    (honly : ∀ j, guest j → l.name j = some f → j = k) (r : Record) :
    (l.change k f r).Follows guest := by
  intro j hj
  by_cases hjk : j = k
  · subst hjk
    simp [Ledger.change, hk]
  · simp only [Ledger.change, Function.update_of_ne hjk, h j hj]
    cases hg : l.name j with
    | none => rfl
    | some g =>
      have hgf : g ≠ f := by
        rintro rfl
        exact hjk (honly j hj hg)
      simp [Function.update_of_ne hgf]

end Ledger

end Improot.Lib
