import Improot.Lib.Except
import Improot.Path.Length
import Improot.Syscall.Readlink

/-!
# What readlink gives

The guest gets the name that the content of the link has in the name space of the guest, cut to the
size of its buffer, whatever the kernel cut before.  One size is an exception, where the terminator
just fits.
-/

namespace Improot.Syscall

open Improot.Path

theorem guestReferee_sized {w : World} {extensions : ReadlinkProcFd} {referer target g : CString}
    {procFd : Option (Int × Int)} {status : Nat}
    (h : guestReferee w extensions referer procFd target = .ok (some (status, g))) :
    status = g.length + 1 ∧ g.length < pathMax := by
  unfold guestReferee at h
  rw [Lib.bind_eq_ok] at h
  obtain ⟨⟨referee, substituted⟩, -, h⟩ := h
  rw [Lib.bind_eq_ok] at h
  obtain ⟨⟨status', result⟩, hpath, h⟩ := h
  obtain ⟨hlength, hstatus⟩ := detranslatePath_sized hpath
  dsimp only at h
  split at h
  · split at h
    · cases h
    · cases h
      exact ⟨rfl, hlength⟩
  · rename_i hne
    cases h
    exact ⟨hstatus.resolve_left fun hzero => hne hzero.1, hlength⟩

/-! ## What the kernel has done -/

structure ReadlinkCall.Answered (call : ReadlinkCall) (m : Memory) (target : CString) : Prop where
  result : call.result = .ok (min call.maxSize target.length)
  stored : readData m call.output (min call.maxSize target.length) = target.take call.maxSize

theorem ReadlinkCall.Answered.whole {call : ReadlinkCall} {m : Memory} {target referer : CString}
    {w : World} (h : call.Answered m target) (hsize : 1 ≤ call.maxSize)
    (hlength : target.length < pathMax) (hread : w.host.readlink referer = .ok target) :
    (if min call.maxSize target.length = min call.maxSize pathMax then
      fullReferee w referer (readData m call.output (min call.maxSize target.length))
    else readData m call.output (min call.maxSize target.length)) = target := by
  split
  · rename_i hfull
    have hne : target ≠ [] := by
      rintro rfl
      rw [List.length_nil] at hfull hlength
      omega
    unfold fullReferee
    rw [hread]
    dsimp only
    rw [if_neg hne]
    exact List.take_of_length_le (by omega)
  · rw [h.stored]
    exact List.take_of_length_le (by omega)

/-! ## What the guest gets -/

/-- The guest gets the first characters of `g`, as many as the buffer holds: the result is their
number, and nothing past the buffer is written. -/
def ReadlinkCall.Reads (call : ReadlinkCall) (m : Memory) (g : CString)
    (r : Except Failure Nat × Memory) : Prop :=
  r.1 = .ok (min call.maxSize g.length) ∧
  readData r.2 call.output (min call.maxSize g.length) = g.take call.maxSize ∧
  ∀ a, a < call.output ∨ call.output + call.maxSize ≤ a → r.2 a = m a

theorem overwritePath_reads {call : ReadlinkCall} {m : Memory} {g : CString}
    (hlength : g.length < pathMax) (hfits : g.length + 1 ≠ min call.maxSize pathMax) :
    call.Reads m g
      (.ok (overwritePath m call.output (min call.maxSize pathMax) (g.length + 1) g).1,
        (overwritePath m call.output (min call.maxSize pathMax) (g.length + 1) g).2) := by
  unfold overwritePath
  by_cases hroom : g.length + 1 < min call.maxSize pathMax
  · have hmin : min call.maxSize g.length = g.length := by omega
    have hwhole : (g ++ ['\x00']).take (g.length + 1) = g ++ ['\x00'] := by
      rw [List.take_of_length_le]
      simp
    rw [if_pos hroom, hwhole]
    refine ⟨?_, ?_, ?_⟩
    · rw [hmin]
      rfl
    · rw [hmin, List.take_of_length_le (by omega : g.length ≤ call.maxSize)]
      dsimp only
      rw [readData_writeData (by simp), List.take_left']
      rfl
    · intro a ha
      refine writeData_outside ?_
      rw [List.length_append, List.length_singleton]
      omega
  · have hbuffer : min call.maxSize pathMax = call.maxSize := by omega
    have hmin : min call.maxSize g.length = call.maxSize := by omega
    have hcut : (g ++ ['\x00']).take call.maxSize = g.take call.maxSize := by
      rw [List.take_append_of_le_length (by omega)]
    rw [if_neg hroom, hbuffer, hcut]
    refine ⟨?_, ?_, ?_⟩
    · rw [hmin]
    · rw [hmin]
      dsimp only
      rw [readData_writeData (by rw [List.length_take]; omega), List.take_take, Nat.min_self]
    · intro a ha
      refine writeData_outside ?_
      rw [List.length_take]
      omega

theorem overwritePath_counts {m : Memory} {output maxSize : Nat} {g : CString}
    (h : g.length + 1 = maxSize) :
    (overwritePath m output maxSize (g.length + 1) g).1 = g.length + 1 := by
  unfold overwritePath
  rw [if_neg (by omega), h]

/-- **readlink gives the guest's content of the link**, cut to the size of the buffer, if and only
if the content isn't rewritten or isn't one character shorter than the buffer (or than `PATH_MAX`).
The content doesn't depend on the buffer. -/
theorem readlinkExit_reads_iff {w : World} {extensions : ReadlinkProcFd} {call : ReadlinkCall}
    {m : Memory} {target referer : CString} {procFd : Option (Int × Int)}
    {answer : Option (Nat × CString)} (hsize : 1 ≤ call.maxSize)
    (hlength : target.length < pathMax) (hkernel : call.Answered m target)
    (hreferer : call.referer w = .ok (referer, procFd))
    (hread : w.host.readlink referer = .ok target)
    (hguest : guestReferee w extensions referer procFd target = .ok answer) :
    call.Reads m ((answer.map Prod.snd).getD target) (readlinkExit w extensions call m) ↔
      ∀ status g, answer = some (status, g) → g.length + 1 ≠ min call.maxSize pathMax := by
  have hmax : min call.maxSize pathMax ≠ 0 := by
    have : 0 < pathMax := by decide
    omega
  unfold readlinkExit
  rw [hkernel.result]
  dsimp only
  rw [if_neg hmax, hreferer]
  dsimp only
  rewrite [hkernel.whole hsize hlength hread, hguest]
  cases answer with
  | none =>
      refine ⟨fun _ _ _ h => ?_, fun _ => ⟨rfl, hkernel.stored, fun _ _ => rfl⟩⟩
      cases h
  | some answer =>
      obtain ⟨status, g⟩ := answer
      obtain ⟨rfl, hg⟩ := guestReferee_sized hguest
      constructor
      · intro hreads status' g' heq hfull
        cases heq
        have hcount := hreads.1
        dsimp only at hcount
        rw [overwritePath_counts hfull, Option.map_some, Option.getD_some,
          Except.ok.injEq] at hcount
        dsimp only at hcount
        omega
      · intro hne
        exact overwritePath_reads hg (hne _ _ rfl)

/-! ## A buffer for the terminator -/

def linkL : CString := ['/', 'r', '/', 'l']
def linkTarget : CString := ['/', 'r', '/', 'a', 'b', 'c']

def linkWorld : World where
  tracee := ⟨1, ⟨[], [⟨0, ['/', 'r'], ['/'], true⟩], [⟨0, ['/', 'r'], ['/'], true⟩], 1⟩, ['/'],
    none, none, []⟩
  host := ⟨fun _ => .ok .lnk, fun _ => .ok linkTarget, fun _ => .error .enoent, fun _ => false,
    fun _ _ => .error .eacces, none, false, fun _ => none⟩

/-- The link is read into a buffer of `n` bytes. -/
def readLinkL (n : Nat) : ReadlinkCall := ⟨.readlink, .ok (min n 6), 0, n, linkL, 0⟩

def linkMemory (n : Nat) : Memory := writeData (fun _ => ' ') 0 (linkTarget.take n)

def noReadlinkProcFd : ReadlinkProcFd := fun _ _ path => .ok (path, false)

theorem readlinkExit_reads_three :
    (readLinkL 3).Reads (linkMemory 3) ['/', 'a', 'b', 'c']
      (readlinkExit linkWorld noReadlinkProcFd (readLinkL 3) (linkMemory 3)) := by
  have hguest : guestReferee linkWorld noReadlinkProcFd linkL none linkTarget =
      .ok (some (5, ['/', 'a', 'b', 'c'])) := rfl
  refine (readlinkExit_reads_iff (by decide) (by decide) ⟨rfl, by decide⟩ rfl rfl hguest).mpr ?_
  intro status g heq
  cases heq
  decide

/-- Five bytes hold "/abc" and a terminator, and the result counts it. -/
theorem readlinkExit_counts_terminator :
    (readLinkL 5).Answered (linkMemory 5) linkTarget ∧
    guestReferee linkWorld noReadlinkProcFd linkL none linkTarget =
      .ok (some (5, ['/', 'a', 'b', 'c'])) ∧
    (readlinkExit linkWorld noReadlinkProcFd (readLinkL 5) (linkMemory 5)).1 = .ok 5 ∧
    ¬ (readLinkL 5).Reads (linkMemory 5) ['/', 'a', 'b', 'c']
      (readlinkExit linkWorld noReadlinkProcFd (readLinkL 5) (linkMemory 5)) := by
  refine ⟨⟨rfl, by decide⟩, rfl, rfl, ?_⟩
  intro h
  have hcount := h.1
  cases hcount

end Improot.Syscall
