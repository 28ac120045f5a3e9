import Improot.Lib.Transition
import Mathlib.Data.List.Nodup

/-!
# The extensions of a tracee

`extension/extension.c`: a tracee has a list of extensions, which are told of its events in order;
the ones of a new tracee are made from those of its parent.
-/

namespace Improot.Extension

/-- `Extension`; a configuration is a reference, which tracees may share. -/
structure Attached (Callback Config : Type*) where
  callback : Callback
  config : Config

/-- What comes of `INHERIT_PARENT`, and of `INHERIT_CHILD` if the configuration isn't shared. -/
inductive Inherits (Config : Type*) where
  | no
  | shared
  | other (config : Config)

variable {Callback Config : Type*}

def newExtension (l : List (Attached Callback Config)) (callback : Callback) (config : Config) :
    List (Attached Callback Config) := ⟨callback, config⟩ :: l

def getExtension [DecidableEq Callback] (l : List (Attached Callback Config))
    (callback : Callback) : Option (Attached Callback Config) :=
  l.find? (·.callback = callback)

/-- `initialize_extension`: the new extension is removed if its initialization fails. -/
def initializeExtension (l : List (Attached Callback Config))
    (option : Callback × Option Config) : List (Attached Callback Config) :=
  match option.2 with
  | some config => newExtension l option.1 config
  | none => l

def inheritExtension (answer : Attached Callback Config → Inherits Config)
    (child : List (Attached Callback Config)) (e : Attached Callback Config) :
    List (Attached Callback Config) :=
  match answer e with
  | .no => child
  | .shared => newExtension child e.callback e.config
  | .other config => newExtension child e.callback config

def inheritExtensions (answer : Attached Callback Config → Inherits Config)
    (parent : List (Attached Callback Config)) : List (Attached Callback Config) :=
  parent.foldl (inheritExtension answer) []

/-! ## Runs -/

structure Forked (Callback Config : Type*) where
  pid : Nat
  generation : Nat
  extensions : List (Attached Callback Config)

inductive ForkEvent (Callback Config : Type*) where
  | newChild (parent child : Nat) (answer : Attached Callback Config → Inherits Config)
  | remove (pid : Nat)

/-- The tracees, from the first one with the extensions of the command line. -/
def forkSystem (options : List (Callback × Option Config)) :
    Lib.System (List (Forked Callback Config)) (ForkEvent Callback Config) where
  init s := ∃ pid, s = [⟨pid, 0, options.foldl initializeExtension []⟩]
  step s
    | .newChild parent child answer =>
      (s.find? (·.pid = parent)).map fun t =>
        ⟨child, t.generation + 1, inheritExtensions answer t.extensions⟩ :: s
    | .remove pid => some (s.filter (·.pid ≠ pid))

def callbacks (l : List (Attached Callback Config)) : List Callback := l.map (·.callback)

def orderOf (generation : Nat) (first : List Callback) : List Callback :=
  if generation % 2 = 0 then first else first.reverse

theorem orderOf_succ (generation : Nat) (first : List Callback) :
    orderOf (generation + 1) first = (orderOf generation first).reverse := by
  unfold orderOf
  by_cases h : generation % 2 = 0
  · rw [if_pos h, if_neg (by omega)]
  · rw [if_neg h, if_pos (by omega), List.reverse_reverse]

theorem inheritExtensions_sublist (answer : Attached Callback Config → Inherits Config)
    (parent : List (Attached Callback Config)) :
    (callbacks (inheritExtensions answer parent)).Sublist (callbacks parent).reverse := by
  have hone (child : List (Attached Callback Config)) (e : Attached Callback Config) :
      (callbacks (inheritExtension answer child e)).Sublist (e.callback :: callbacks child) := by
    unfold inheritExtension
    split
    · exact List.sublist_cons_self _ _
    · exact List.Sublist.refl _
    · exact List.Sublist.refl _
  have hall (l child : List (Attached Callback Config)) :
      (callbacks (l.foldl (inheritExtension answer) child)).Sublist
        ((callbacks l).reverse ++ callbacks child) := by
    induction l generalizing child with
    | nil => exact List.Sublist.refl _
    | cons e l ih =>
        apply (ih _).trans
        rw [show callbacks (e :: l) = e.callback :: callbacks l from rfl, List.reverse_cons,
          List.append_assoc]
        exact (hone child e).append_left _
  simpa [callbacks, inheritExtensions] using hall parent []

/-- **Extensions are inherited in order.** Whatever is forked and whatever the extensions answer, a
tracee of an even generation has some of the extensions of the first tracee in their order, and one
of an odd generation in the reverse order; and if the command line gave none twice, the extension
that a tracee has for a callback is the one that is found. -/
theorem extensions_inherited [DecidableEq Callback] {options : List (Callback × Option Config)}
    {s : List (Forked Callback Config)} (h : (forkSystem options).Reach Lib.System.Always s)
    {t : Forked Callback Config} (ht : t ∈ s) :
    (callbacks t.extensions).Sublist
        (orderOf t.generation (callbacks (options.foldl initializeExtension []))) ∧
      ((callbacks (options.foldl initializeExtension [])).Nodup → ∀ e ∈ t.extensions,
        getExtension t.extensions e.callback = some e) := by
  have hall : ∀ t ∈ s, (callbacks t.extensions).Sublist
      (orderOf t.generation (callbacks (options.foldl initializeExtension []))) := by
    apply @Lib.System.Reach.invariant _ _ _ _ (fun s => ∀ t ∈ s, (callbacks t.extensions).Sublist
      (orderOf t.generation (callbacks (options.foldl initializeExtension [])))) s _ _ h
    · rintro _ ⟨pid, rfl⟩ t ht
      rw [List.mem_singleton.mp ht]
      exact List.Sublist.refl _
    · intro s e s' hs _ hstep t ht
      cases e with
      | newChild parent child answer =>
          obtain ⟨p, hp, rfl⟩ := Option.map_eq_some_iff.mp hstep
          rcases List.mem_cons.mp ht with rfl | ht
          · rw [orderOf_succ]
            exact (inheritExtensions_sublist answer p.extensions).trans
              (hs p (List.mem_of_find?_eq_some hp)).reverse
          · exact hs t ht
      | remove pid =>
          cases hstep
          exact hs t (List.mem_of_mem_filter ht)
  refine ⟨hall t ht, fun hnodup e he => ?_⟩
  have hone : (callbacks t.extensions).Nodup := by
    apply (hall t ht).nodup
    unfold orderOf
    split
    · exact hnodup
    · exact List.nodup_reverse.mpr hnodup
  cases hfind : getExtension t.extensions e.callback with
  | none => simpa using List.find?_eq_none.mp hfind e he
  | some e' =>
      have hsame : e'.callback = e.callback := by simpa using List.find?_some hfind
      rw [List.inj_on_of_nodup_map hone (List.mem_of_find?_eq_some hfind) he hsame]

/-- A child has the extension that was initialized first at the head of its list. -/
theorem extensions_inherited_child :
    ∃ s, (forkSystem [(0, some ()), (1, some ())]).exec [⟨7, 0, [⟨1, ()⟩, ⟨0, ()⟩]⟩]
        [.newChild 7 8 fun _ => .shared] = some s ∧
      ∀ t ∈ s, (callbacks t.extensions).Sublist (orderOf t.generation [1, 0]) := by
  have hstart : (forkSystem [(0, some ()), (1, some ())]).Reach Lib.System.Always
      [⟨7, 0, [⟨1, ()⟩, ⟨0, ()⟩]⟩] := .start ⟨7, rfl⟩
  refine ⟨_, rfl, fun t ht => ?_⟩
  exact (extensions_inherited (.next (e := .newChild 7 8 fun _ => .shared) hstart trivial rfl) ht).1

end Improot.Extension
