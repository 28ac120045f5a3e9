import Improot.Path.TempClean

/-!
# When nothing outside is touched

A run that starts below the temporary directory stays there, as long as other processes leave the
directories that are being cleaned where they are and put no symbolic link in place of an entry that is
about to be used, and symbolic links are reported as such.
-/

namespace Improot.Path.TempClean

open Improot.Lib

variable {temp : List CString} {s s' : State}

/-! ## The condition -/

/-- A working directory to start from: it lies below the temporary directory, or the path of this one is
not what its path begins with. -/
def Begins (temp : List CString) (fs : Fs) (d : Ino) : Prop :=
  Below temp fs d ∨ ¬ HasPrefix temp (fs.path d)

def Control.stream? : Control → Option Ino
  | .reading stream _ | .chmodding stream _ _ _ | .entering stream _ _ | .back stream _ _
  | .removing stream _ _ _ => some stream
  | .enter | .opening | .returning _ => none

def Control.pending? : Control → Option CString
  | .chmodding _ _ name _ | .entering _ _ name => some name
  | _ => none

def State.inUse (s : State) : List Ino :=
  s.cwd :: (s.control.stream?.toList ++ s.callers.map Frame.stream)

/-- **What other processes leave alone.** -/
structure Undisturbed (temp : List CString) (s : State) (fs : Fs) : Prop where
  /-- no directory is moved while it is being cleaned -/
  kept : ∀ d ∈ s.inUse, fs.location d = s.fs.location d ∧ fs.parent d = s.fs.parent d
  /-- no symbolic link takes the place of an entry between two steps that use it -/
  pending : ∀ name ∈ s.control.pending?, ∀ i, fs.entry s.cwd name = some i → fs.kind i = .lnk →
    ∃ j, s.fs.entry s.cwd name = some j ∧ s.fs.kind j = .lnk
  /-- the path of the working directory does not come to look like one of the temporary directory -/
  outside : HasPrefix temp (fs.path s.cwd) → HasPrefix temp (s.fs.path s.cwd)

/-- **The condition on a step**: other processes leave alone what is being cleaned, and readdir(3)
reports a symbolic link as one. -/
def Meets (temp : List CString) (s : State) : Event → Prop
  | .environment fs => Undisturbed temp s fs
  | .answer (.dirent name type) => ∀ i, s.fs.entry s.cwd name = some i → s.fs.kind i = .lnk → type = .lnk
  | .answer _ => True

/-! ## The invariant -/

def Chained (fs : Fs) : Ino → List Frame → Prop
  | _, [] => True
  | d, f :: callers => fs.parent d = f.stream ∧ Chained fs f.stream callers

/-- The directory `d` and those of the calls that wait lie below the temporary one, each in the next. -/
structure Inside (temp : List CString) (fs : Fs) (d : Ino) (callers : List Frame) : Prop where
  below : Below temp fs d
  waiting : ∀ f ∈ callers, Below temp fs f.stream
  chained : Chained fs d callers

def NoLink (fs : Fs) (d : Ino) (name : CString) : Prop := ∀ i, fs.entry d name = some i → fs.kind i ≠ .lnk

def Inv (temp : List CString) (s : State) : Prop :=
  match s.control with
  | .enter =>
    s.detected = false ∧
      (Inside temp s.fs s.cwd s.callers ∨
        s.callers = [] ∧ ¬ HasPrefix temp (s.fs.path s.cwd))
  | .opening => s.detected = false ∧ Inside temp s.fs s.cwd s.callers
  | .reading stream _ | .removing stream _ _ _ =>
    s.detected = false ∧ stream = s.cwd ∧ Inside temp s.fs s.cwd s.callers
  | .chmodding stream _ name _ | .entering stream _ name =>
    s.detected = false ∧ stream = s.cwd ∧ Inside temp s.fs s.cwd s.callers ∧ NoLink s.fs s.cwd name
  | .back stream _ _ =>
    s.detected = false ∧ s.fs.parent s.cwd = stream ∧ Inside temp s.fs stream s.callers
  | .returning status =>
    (s.detected = false ∧ (status < 0 ∨ Inside temp s.fs s.cwd s.callers)) ∨ s.callers = []

theorem Inv.stopped (h : Inv temp s) (hdetected : s.detected = true) : s.control.Leaves := by
  unfold Inv at h
  cases hcontrol : s.control with
  | back | returning => trivial
  | _ =>
      rw [hcontrol] at h
      have hcalm : s.detected = false := h.1
      rw [hdetected] at hcalm
      cases hcalm

theorem Inv.parent (h : Inv temp s) (hchanges : s.control.Changes) : Below temp s.fs s.cwd := by
  unfold Inv at h
  cases hcontrol : s.control with
  | chmodding =>
      rw [hcontrol] at h
      exact h.2.2.1.below
  | removing =>
      rw [hcontrol] at h
      exact h.2.2.below
  | _ =>
      rw [hcontrol] at hchanges
      exact hchanges.elim

variable {name : CString} {fs : Fs} {d : Ino} {a : Answer}

theorem Inv.link {stream : Ino} {nbErrors : Int} {type : DirentType}
    (h : Inv temp s) (hcontrol : s.control = .chmodding stream nbErrors name type) :
    NoLink s.fs s.cwd name := by
  unfold Inv at h
  rw [hcontrol] at h
  exact h.2.2.2

theorem Inv.safe (h : Inv temp s) (e : Event) : Safe temp s e :=
  ⟨fun hchanges _ => h.parent hchanges, fun _ _ _ _ hcontrol _ => h.link hcontrol, h.stopped⟩

/-! ## Steps of the process -/

theorem hasPrefix_of_below (h : Below temp fs d) : HasPrefix temp (fs.path d) := by
  obtain ⟨name, rest, hlocation⟩ := h
  unfold HasPrefix Fs.path
  rw [hlocation]
  unfold Fs.render
  rw [List.flatMap_append, List.append_assoc, List.take_left]

def Kept (fs fs' : Fs) (ds : List Ino) : Prop :=
  ∀ d ∈ ds, fs'.location d = fs.location d ∧ fs'.parent d = fs.parent d

theorem Below.keep {fs' : Fs} (h : Below temp fs d)
    (hkept : fs'.location d = fs.location d) : Below temp fs' d := by
  obtain ⟨name, rest, hlocation⟩ := h
  exact ⟨name, rest, hkept.trans hlocation⟩

theorem Chained.keep {fs' : Fs} {callers : List Frame} (h : Chained fs d callers)
    (hkept : Kept fs fs' (d :: callers.map Frame.stream)) : Chained fs' d callers := by
  induction callers generalizing d with
  | nil => trivial
  | cons f callers ih =>
      have hd := hkept d List.mem_cons_self
      exact ⟨hd.2.trans h.1, ih h.2 fun d' hd' => hkept d' (List.mem_cons_of_mem _ hd')⟩

theorem Inside.keep {fs' : Fs} {callers : List Frame} (h : Inside temp fs d callers)
    (hkept : Kept fs fs' (d :: callers.map Frame.stream)) : Inside temp fs' d callers := by
  refine ⟨h.below.keep (hkept d List.mem_cons_self).1, ?_, h.chained.keep hkept⟩
  intro f hf
  exact (h.waiting f hf).keep
    (hkept f.stream (List.mem_cons_of_mem _ (List.mem_map_of_mem hf))).1

theorem kept_chmod (fs : Fs) (i : Ino) (ds : List Ino) : Kept fs (fs.chmod i) ds :=
  fun _ _ => ⟨rfl, rfl⟩

theorem kept_remove (fs : Fs) (d : Ino) (name : CString) (i : Ino) (ds : List Ino) :
    Kept fs (fs.remove d name i) ds :=
  fun _ _ => ⟨rfl, rfl⟩

theorem Inside.enter {i : Ino} {callers : List Frame} {nbErrors : Int}
    (h : Inside temp fs d callers) (hentry : fs.entry d name = some i) (hkind : fs.kind i = .dir) :
    Inside temp fs i (⟨d, nbErrors, name⟩ :: callers) := by
  obtain ⟨hparent, hlocation⟩ := fs.found d name i hentry hkind
  obtain ⟨first, rest, hbelow⟩ := h.below
  refine ⟨⟨first, rest ++ [name], ?_⟩, ?_, hparent, h.chained⟩
  · rw [hlocation, hbelow, List.append_assoc]
    rfl
  · intro f hf
    cases List.mem_cons.mp hf with
    | inl heq =>
        rw [heq]
        exact h.below
    | inr hmem => exact h.waiting f hmem

theorem lookup_of_noLink {i : Ino} (h : NoLink fs d name)
    (hlookup : fs.lookup d name = some i) : fs.entry d name = some i := by
  unfold Fs.lookup at hlookup
  obtain ⟨j, hentry, heq⟩ := Option.bind_eq_some_iff.mp hlookup
  rw [if_neg (h j hentry)] at heq
  rwa [heq] at hentry

theorem inv_of_enter (hcalm : s.detected = false)
    (hplace : Inside temp s.fs s.cwd s.callers ∨ s.callers = [] ∧ ¬ HasPrefix temp (s.fs.path s.cwd))
    (hstep : cleanTempCwd temp s .enter a = some s') : Inv temp s' := by
  cases a with
  | failed =>
      cases hstep
      cases hplace with
      | inl hinside => exact .inl ⟨hcalm, .inr hinside⟩
      | inr houtside => exact .inr houtside.1
  | done =>
      unfold cleanTempCwd at hstep
      dsimp only at hstep
      split at hstep
      · rename_i hprefix
        cases hstep
        exact ⟨hcalm, hplace.resolve_right fun houtside => houtside.2 hprefix⟩
      · rename_i hprefix
        cases hstep
        cases hplace with
        | inl hinside => exact absurd (hasPrefix_of_below hinside.below) hprefix
        | inr houtside => exact .inr houtside.1
  | dirent | endOfDir => cases hstep

theorem inv_of_reading {stream : Ino} {nbErrors : Int} (h : Inv temp s)
    (hcontrol : s.control = .reading stream nbErrors) (hmeets : Meets temp s (.answer a))
    (hstep : cleanTempCwd temp s (.reading stream nbErrors) a = some s') : Inv temp s' := by
  have hkept := h
  unfold Inv at h
  rw [hcontrol] at h
  obtain ⟨hcalm, rfl, hinside⟩ := h
  cases a with
  | failed =>
      cases hstep
      exact .inl ⟨hcalm, .inr hinside⟩
  | done => cases hstep
  | dirent name type =>
      unfold cleanTempCwd at hstep
      dsimp only at hstep
      split at hstep
      · cases hstep
        exact hkept
      · split at hstep
        · rename_i hlink
          cases hstep
          refine ⟨hcalm, rfl, hinside, ?_⟩
          intro i hentry hkind
          exact hlink (hmeets i hentry hkind)
        · cases hstep
          exact ⟨hcalm, rfl, hinside⟩
  | endOfDir =>
      cases hstep
      exact .inl ⟨hcalm, .inr hinside⟩

theorem inv_of_returning {status : Int}
    (hplace : (s.detected = false ∧ (status < 0 ∨ Inside temp s.fs s.cwd s.callers)) ∨ s.callers = [])
    (hstep : cleanTempCwd temp s (.returning status) a = some s') : Inv temp s' := by
  cases a with
  | done =>
      unfold cleanTempCwd at hstep
      dsimp only at hstep
      cases hcallers : s.callers with
      | nil =>
          rw [hcallers] at hstep
          cases hstep
      | cons f callers =>
          rw [hcallers] at hstep hplace
          obtain ⟨hcalm, hplace⟩ := hplace.resolve_right (List.cons_ne_nil f callers)
          dsimp only at hstep
          split at hstep
          · cases hstep
            exact .inl ⟨hcalm, .inl (by decide)⟩
          · rename_i hstatus
            cases hstep
            have hinside := hplace.resolve_left hstatus
            refine ⟨hcalm, hinside.chained.1, ?_⟩
            exact ⟨hinside.waiting f List.mem_cons_self,
              fun f' hf' => hinside.waiting f' (List.mem_cons_of_mem _ hf'), hinside.chained.2⟩
  | failed | dirent | endOfDir => cases hstep

/-- An answer that meets the condition keeps the cleaning inside. -/
theorem Inv.answer (h : Inv temp s) (hmeets : Meets temp s (.answer a))
    (hstep : cleanTempCwd temp s s.control a = some s') : Inv temp s' := by
  cases hcontrol : s.control with
  | enter =>
      unfold Inv at h
      rw [hcontrol] at h hstep
      exact inv_of_enter h.1 h.2 hstep
  | opening =>
      unfold Inv at h
      rw [hcontrol] at h hstep
      cases a with
      | failed =>
          cases hstep
          exact .inl ⟨h.1, .inr h.2⟩
      | done =>
          cases hstep
          exact ⟨h.1, rfl, h.2⟩
      | dirent | endOfDir => cases hstep
  | reading stream nbErrors =>
      rw [hcontrol] at hstep
      exact inv_of_reading h hcontrol hmeets hstep
  | chmodding stream nbErrors name type =>
      unfold Inv at h
      rw [hcontrol] at h hstep
      obtain ⟨hcalm, rfl, hinside, hlink⟩ := h
      cases a with
      | failed =>
          cases hstep
          exact ⟨hcalm, rfl, hinside⟩
      | done =>
          obtain ⟨i, -, rfl⟩ := Option.map_eq_some_iff.mp hstep
          have hsame := hinside.keep (kept_chmod s.fs i _)
          by_cases hdir : type = .dir
          · rw [if_pos hdir]
            exact ⟨hcalm, rfl, hsame, hlink⟩
          · rw [if_neg hdir]
            exact ⟨hcalm, rfl, hsame⟩
      | dirent | endOfDir => cases hstep
  | entering stream nbErrors name =>
      unfold Inv at h
      rw [hcontrol] at h hstep
      obtain ⟨hcalm, rfl, hinside, hlink⟩ := h
      cases a with
      | failed =>
          cases hstep
          exact ⟨hcalm, rfl, hinside⟩
      | done =>
          obtain ⟨i, hlookup, hstep⟩ := Option.bind_eq_some_iff.mp hstep
          split at hstep
          · rename_i hkind
            cases hstep
            exact ⟨hcalm, .inl (hinside.enter (lookup_of_noLink hlink hlookup) hkind)⟩
          · cases hstep
      | dirent | endOfDir => cases hstep
  | back stream nbErrors name =>
      unfold Inv at h
      rw [hcontrol] at h hstep
      obtain ⟨hcalm, rfl, hinside⟩ := h
      cases a with
      | failed =>
          cases hstep
          exact .inl ⟨hcalm, .inl (by decide)⟩
      | done =>
          cases hstep
          exact ⟨hcalm, rfl, hinside⟩
      | dirent | endOfDir => cases hstep
  | removing stream nbErrors name type =>
      unfold Inv at h
      rw [hcontrol] at h hstep
      obtain ⟨hcalm, rfl, hinside⟩ := h
      cases a with
      | failed =>
          cases hstep
          exact ⟨hcalm, rfl, hinside⟩
      | done =>
          obtain ⟨i, -, hstep⟩ := Option.bind_eq_some_iff.mp hstep
          split at hstep
          · cases hstep
            exact ⟨hcalm, rfl, hinside.keep (kept_remove s.fs s.cwd name i _)⟩
          · cases hstep
      | dirent | endOfDir => cases hstep
  | returning status =>
      unfold Inv at h
      rw [hcontrol] at h hstep
      exact inv_of_returning h hstep

/-! ## Steps of other processes -/

theorem Undisturbed.keep (h : Undisturbed temp s fs) {ds : List Ino}
    (hds : ∀ d ∈ ds, d ∈ s.inUse) : Kept s.fs fs ds :=
  fun d hd => h.kept d (hds d hd)

theorem mem_inUse (h : d ∈ s.cwd :: s.callers.map Frame.stream) : d ∈ s.inUse := by
  unfold State.inUse
  cases List.mem_cons.mp h with
  | inl heq =>
      rw [heq]
      exact List.mem_cons_self
  | inr hmem => exact List.mem_cons_of_mem _ (List.mem_append_right _ hmem)

theorem Undisturbed.noLink (h : Undisturbed temp s fs)
    (hpending : s.control.pending? = some name) (hlink : NoLink s.fs s.cwd name) :
    NoLink fs s.cwd name := by
  intro i hentry hkind
  obtain ⟨j, hentry', hkind'⟩ := h.pending name (by rw [hpending]; rfl) i hentry hkind
  exact hlink j hentry' hkind'

/-- **One step of another process** that leaves alone what is being cleaned. -/
theorem Inv.environment (h : Inv temp s) (hfs : Undisturbed temp s fs) :
    Inv temp { s with fs := fs } := by
  have hkept : Kept s.fs fs (s.cwd :: s.callers.map Frame.stream) := hfs.keep fun d hd => mem_inUse hd
  unfold Inv at h ⊢
  cases hcontrol : s.control with
  | enter =>
      rw [hcontrol] at h
      refine ⟨h.1, ?_⟩
      cases h.2 with
      | inl hinside => exact .inl (hinside.keep hkept)
      | inr houtside => exact .inr ⟨houtside.1, fun hprefix => houtside.2 (hfs.outside hprefix)⟩
  | opening =>
      rw [hcontrol] at h
      exact ⟨h.1, h.2.keep hkept⟩
  | reading | removing =>
      rw [hcontrol] at h
      exact ⟨h.1, h.2.1, h.2.2.keep hkept⟩
  | chmodding | entering =>
      rw [hcontrol] at h
      exact ⟨h.1, h.2.1, h.2.2.1.keep hkept, hfs.noLink (by rw [hcontrol]; rfl) h.2.2.2⟩
  | back stream nbErrors name =>
      rw [hcontrol] at h
      have hcwd := hkept s.cwd List.mem_cons_self
      refine ⟨h.1, hcwd.2.trans h.2.1, h.2.2.keep ?_⟩
      apply hfs.keep
      intro d hd
      unfold State.inUse
      rw [hcontrol]
      exact List.mem_cons_of_mem _ hd
  | returning status =>
      rw [hcontrol] at h
      cases h with
      | inl hcalm =>
          refine .inl ⟨hcalm.1, ?_⟩
          cases hcalm.2 with
          | inl hstatus => exact .inl hstatus
          | inr hinside => exact .inr (hinside.keep hkept)
      | inr hnone => exact .inr hnone

/-! ## Runs -/

theorem inv_of_reach (h : (cleaning temp (Begins temp)).Reach (Meets temp) s) : Inv temp s := by
  apply h.invariant
  · intro s ⟨hcontrol, hcallers, hdetected, hstart⟩
    unfold Inv
    rw [hcontrol]
    refine ⟨hdetected, ?_⟩
    cases hstart with
    | inl hbelow =>
        refine .inl ⟨hbelow, ?_, ?_⟩
        · intro f hf
          rw [hcallers] at hf
          cases hf
        · rw [hcallers]
          trivial
    | inr houtside => exact .inr ⟨hcallers, houtside⟩
  · intro s e s' hinv hmeets hstep
    cases e with
    | answer a => exact hinv.answer hmeets hstep
    | environment fs =>
        cases hstep
        exact hinv.environment hmeets

/-- **Nothing outside is touched** in any run whose steps meet the condition. -/
theorem cleansSafely (temp : List CString) : CleansSafely temp (Begins temp) (Meets temp) :=
  fun _ e _ hreach _ _ => (inv_of_reach hreach).safe e

/-! ## A small tree -/

def nameTmp : CString := ['t', 'm', 'p']

/-- "/top/x" (2) with the directory "d" (3) and the link "l" (5) in it; "d" holds the file "f" (4), and
"l" leads to "/h" (7).  Another link may have taken the place of "d". -/
def tree (top : CString) (replaced : Bool) : Fs where
  kind
    | 0 | 1 | 2 | 3 | 7 => .dir
    | 5 => .lnk
    | _ => .other
  entry d name :=
    match d with
    | 0 => if name = top then some 1 else none
    | 1 => if name = ['x'] then some 2 else none
    | 2 =>
      if name = ['d'] then some (if replaced then 5 else 3)
      else if name = ['l'] then some 5 else none
    | 3 => if name = ['f'] then some 4 else none
    | _ => none
  follow _ := some 7
  parent
    | 3 => 2
    | 2 => 1
    | _ => 0
  location
    | 1 => [top]
    | 2 => [top, ['x']]
    | 3 => [top, ['x'], ['d']]
    | 7 => [['h']]
    | _ => []
  deleted _ := false
  mode _ := 0
  found := by
    intro d name i h hkind
    split at h
    · split at h
      · rename_i heq
        cases h
        rw [heq]
        exact ⟨rfl, rfl⟩
      · cases h
    · split at h
      · rename_i heq
        cases h
        rw [heq]
        exact ⟨rfl, rfl⟩
      · cases h
    · split at h
      · rename_i heq
        cases replaced with
        | true =>
            cases h
            cases hkind
        | false =>
            cases h
            rw [heq]
            exact ⟨rfl, rfl⟩
      · split at h
        · cases h
          cases hkind
        · cases h
    · split at h
      · cases h
        cases hkind
      · cases h
    · cases h

def start (top : CString) : State := ⟨.enter, [], 2, tree top false, false⟩

def Alone (_ : State) (e : Event) : Prop := ∃ a, e = .answer a

theorem begins_start : Begins [nameTmp] (start nameTmp).fs (start nameTmp).cwd :=
  .inl ⟨['x'], [], rfl⟩

theorem reach_answer {start : Fs → Ino → Prop}
    (h : (cleaning temp start).Reach (Meets temp) s) (hmeets : Meets temp s (.answer a))
    (hstep : cleanTempCwd temp s s.control a = some s') : (cleaning temp start).Reach (Meets temp) s' :=
  h.next hmeets hstep

/-- Down in "/tmp/x/d", the file "f" is removed. -/
theorem cleansSafely_nested :
    ∃ s, (cleaning [nameTmp] (Begins [nameTmp])).Reach (Meets [nameTmp]) s ∧
      s.control = .removing 3 0 ['f'] .unknown ∧ Safe [nameTmp] s (.answer .done) := by
  have hstart : (cleaning [nameTmp] (Begins [nameTmp])).Reach (Meets [nameTmp]) (start nameTmp) :=
    .start ⟨rfl, rfl, rfl, begins_start⟩
  have hopened := reach_answer (a := .done) hstart trivial rfl
  have hread := reach_answer (a := .done) hopened trivial rfl
  have hfound := reach_answer (a := .dirent ['d'] .dir) hread
    (fun i hentry hkind => by cases hentry; cases hkind) rfl
  have hchanged := reach_answer (a := .done) hfound trivial rfl
  have hdown := reach_answer (a := .done) hchanged trivial rfl
  have hopened' := reach_answer (a := .done) hdown trivial rfl
  have hread' := reach_answer (a := .done) hopened' trivial rfl
  have hfound' := reach_answer (a := .dirent ['f'] .unknown) hread'
    (fun i hentry hkind => by cases hentry; cases hkind) rfl
  have hremoving := reach_answer (a := .done) hfound' trivial rfl
  exact ⟨_, hremoving, rfl, cleansSafely [nameTmp] _ (.answer .done) _ hremoving trivial rfl⟩

theorem reach_of_exec (temp : List CString) (begins : Fs → Ino → Prop) (ok : State → Event → Prop)
    (top : CString) (events : List Event) (hbegins : begins (start top).fs (start top).cwd)
    (hok : ∀ e ∈ events, ∀ s, ok s e)
    (h : (cleaning temp begins).exec (start top) events = some s) :
    (cleaning temp begins).Reach ok s :=
  System.Reach.exec_of (.start ⟨rfl, rfl, rfl, hbegins⟩) hok h

/-- **What goes wrong otherwise.**  A symbolic link whose type is unknown is followed to change a mode; a
directory "/tmpx" is cleaned like a temporary one; and when a directory is replaced by a link to "/h",
the process finds out that it is outside, and goes on to remove "/d". -/
theorem not_cleansSafely : ¬ CleansSafely [nameTmp] (Below [nameTmp]) Alone ∧
      ¬ CleansSafely [nameTmp] (fun fs d => fs.location d = [nameTmp ++ ['x'], ['x']]) Alone ∧
      ¬ CleansSafely [nameTmp] (Below [nameTmp]) System.Always := by
  have halone : ∀ answers : List Answer, ∀ e ∈ answers.map Event.answer, ∀ s, Alone s e := by
    intro answers e he _
    obtain ⟨a, -, rfl⟩ := List.mem_map.mp he
    exact ⟨a, rfl⟩
  refine ⟨?_, ?_, ?_⟩
  · intro h
    have hreach := reach_of_exec [nameTmp] (Below [nameTmp]) Alone nameTmp _ ⟨['x'], [], rfl⟩
      (halone [.done, .done, .dirent ['l'] .unknown]) rfl
    have hsafe := h _ (.answer .done) _ hreach ⟨.done, rfl⟩ rfl
    exact hsafe.link 2 0 ['l'] .unknown rfl rfl 5 rfl rfl
  · intro h
    have hreach := reach_of_exec [nameTmp] (fun fs d => fs.location d = [nameTmp ++ ['x'], ['x']])
      Alone (nameTmp ++ ['x']) _ rfl (halone [.done, .done, .dirent ['l'] .lnk]) rfl
    have hsafe := h _ (.answer .done) _ hreach ⟨.done, rfl⟩ rfl
    obtain ⟨name, rest, hlocation⟩ := hsafe.parent trivial rfl
    have hhead := (List.cons_eq_cons.mp hlocation).1
    exact absurd hhead (by decide)
  · intro h
    have hreach := reach_of_exec [nameTmp] (Below [nameTmp]) System.Always nameTmp
      [.answer .done, .answer .done, .answer (.dirent ['d'] .dir), .answer .done,
        .environment (tree nameTmp true), .answer .done, .answer .done, .answer .done, .answer .done]
      ⟨['x'], [], rfl⟩ (fun _ _ _ => trivial) rfl
    have hsafe := h _ (.answer .failed) _ hreach trivial rfl
    exact hsafe.stopped rfl

end Improot.Path.TempClean
