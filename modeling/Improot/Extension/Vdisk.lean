import Improot.Lib.Shell
import Improot.Path.Basic
import Mathlib.Data.List.Basic

/-!
# Command strings of the virtual disk

The strings that `extension/vdisk/vdisk.c` gives to `system()` when it makes the parents of a path
and when it commits and cleans up: paths are put between double quotes as they are, and `snprintf`
cuts what doesn't fit its buffer.
-/

namespace Improot.Extension

open Lib.Shell

/-- `snprintf` to a buffer of `size` bytes. -/
def snprintf (size : Nat) (text : CString) : CString := text.take (size - 1)

/-- A string as it fits a `char [PATH_MAX]`. -/
def PathBuffer : Type := { text : CString // text.length < pathMax }

/-- `snprintf` to a `char [PATH_MAX]`. -/
def PathBuffer.print (text : CString) : PathBuffer :=
  ⟨snprintf pathMax text, Nat.lt_of_le_of_lt (List.length_take_le ..) (by decide)⟩

/-- A string for the shell: its text, the size of the buffer it is printed to, and the tokens that
are meant. -/
structure Command where
  text : CString
  size : Nat
  meaning : List Token

/-- What `system()` is given. -/
def Command.string (c : Command) : CString := snprintf c.size c.text

def Command.Means (c : Command) : Prop := tokenize c.string = some c.meaning

def bareWord (text : String) : Token := .word (bare text.toList)

def literalWord (path : CString) : Token := .word (quoted path)

/-- `2>/dev/null`. -/
def errorsToNull : List Token := [.ioNumber ['2'], .operator ['>'], bareWord "/dev/null"]

/-- `>/dev/null 2>&1`. -/
def outputToNull : List Token :=
  [.operator ['>'], bareWord "/dev/null", .ioNumber ['2'], .operator ['>', '&'], bareWord "1"]

/-! ## The parents of a path -/

/-- The part of a path before its last slash; `none` when there is no slash or only a leading
one. -/
def parentDirectory (path : CString) : Option CString :=
  match path.reverse.dropWhile (· ≠ '/') with
  | [] => none
  | _ :: before => if before = [] then none else some before.reverse

/-- `mkdir -p "%s"`. -/
def mkdirParent (parent : CString) : Command where
  text := "mkdir -p \"".toList ++ (parent ++ ['"'])
  size := pathMax + 16
  meaning := [bareWord "mkdir", bareWord "-p", literalWord parent]

/-- `ensure_parent_dirs`: the string for the shell, if there is one. -/
def ensureParentDirs (path : CString) : Option CString :=
  (parentDirectory (path.take (pathMax - 1))).map fun parent => (mkdirParent parent).string

/-! ## Commit and cleanup -/

inductive Format where
  | qcow2 | vhd | raw

inductive Tools where
  | here | parent | home

/-- `qcow_script` and `vhd_script`. -/
def Tools.script (tools : Tools) (name : String) : CString :=
  (match tools with
    | here => "tools/"
    | parent => "../tools/"
    | home => "/home/shado/Documents/libdsk_api/tools/").toList ++ name.toList

/-- What `vdisk_do_commit_and_cleanup` finds: `TMPDIR`, the process, the image, and how the steps
before each string came out. -/
structure Commit where
  tmpBase : CString
  pid : Nat
  imagePath : PathBuffer
  format : Format
  tools : Tools
  totalSize : BitVec 64
  /-- `config->persistent`, and the safety check found a root file system -/
  persistent : Bool
  /-- `mkfs.ext4` succeeded -/
  rebuilt : Bool

namespace Commit

variable (c : Commit)

def tempCacheDir : PathBuffer :=
  .print (c.tmpBase ++ ("/proot_vdisk_".toList ++ Nat.toDigits 10 c.pid))

def rawTmp : PathBuffer :=
  .print (c.tmpBase ++ ("/proot_commit_".toList ++ (Nat.toDigits 10 c.pid ++ ".raw".toList)))

def removeSub : Command where
  text :=
    let dir := c.tempCacheDir.val
    "rm -rf \"".toList ++ ((dir ++ "/tmp/".toList) ++ '"' :: ("* \"".toList ++
      ((dir ++ "/run/".toList) ++ '"' :: ("* \"".toList ++
        ((dir ++ "/proc/".toList) ++ '"' :: ("* \"".toList ++
          ((dir ++ "/sys/".toList) ++ '"' :: ("* \"".toList ++
            ((dir ++ "/dev/".toList) ++ '"' :: "* 2>/dev/null".toList)))))))))
  size := pathMax * 2
  meaning :=
    let content (sub : String) : Token :=
      .word (quoted (c.tempCacheDir.val ++ sub.toList) ++ bare ['*'])
    [bareWord "rm", bareWord "-rf", content "/tmp/", content "/run/", content "/proc/",
      content "/sys/", content "/dev/"] ++ errorsToNull

/-- `chmod -R u+rwX "%s" 2>/dev/null`. -/
def changeMode : Command where
  text := "chmod -R u+rwX \"".toList ++ (c.tempCacheDir.val ++ '"' :: " 2>/dev/null".toList)
  size := pathMax * 2
  meaning := [bareWord "chmod", bareWord "-R", bareWord "u+rwX", literalWord c.tempCacheDir.val] ++
    errorsToNull

def makeImage : Command where
  text := "truncate -s ".toList ++ (Nat.toDigits 10 c.totalSize.toNat ++ (" \"".toList ++
    (c.rawTmp.val ++ '"' :: (" && /sbin/mkfs.ext4 -F -d \"".toList ++ (c.tempCacheDir.val ++
      '"' :: (" \"".toList ++ (c.rawTmp.val ++ '"' :: " >/dev/null 2>&1".toList)))))))
  size := pathMax * 4
  meaning := [bareWord "truncate", bareWord "-s", .word (bare (Nat.toDigits 10 c.totalSize.toNat)),
    literalWord c.rawTmp.val, .operator ['&', '&'], bareWord "/sbin/mkfs.ext4", bareWord "-F",
    bareWord "-d", literalWord c.tempCacheDir.val, literalWord c.rawTmp.val] ++ outputToNull

def convertBy (script : CString) : Command where
  text := "python3 \"".toList ++ (script ++ '"' :: (" \"".toList ++ (c.rawTmp.val ++
    '"' :: (" \"".toList ++ (c.imagePath.val ++ '"' :: " >/dev/null 2>&1".toList)))))
  size := pathMax * 4
  meaning := [bareWord "python3", literalWord script, literalWord c.rawTmp.val,
    literalWord c.imagePath.val] ++ outputToNull

def replaceImage : Command :=
  match c.format with
  | .qcow2 => c.convertBy (c.tools.script "raw_to_qcow2.py")
  | .vhd => c.convertBy (c.tools.script "raw_to_vhd.py")
  | .raw =>
    { text := "mv -f \"".toList ++ (c.rawTmp.val ++ '"' :: (" \"".toList ++
        (c.imagePath.val ++ ['"'])))
      size := pathMax * 4
      meaning := [bareWord "mv", bareWord "-f", literalWord c.rawTmp.val,
        literalWord c.imagePath.val] }

def removeCache : Command where
  text := "rm -rf \"".toList ++ (c.tempCacheDir.val ++ '"' :: " 2>/dev/null".toList)
  size := pathMax + 16
  meaning := [bareWord "rm", bareWord "-rf", literalWord c.tempCacheDir.val] ++ errorsToNull

/-- The strings `vdisk_do_commit_and_cleanup` gives to `system()`, in order. -/
def commands : List Command :=
  (if c.persistent then
    [c.removeSub, c.changeMode, c.makeImage] ++ (if c.rebuilt then [c.replaceImage] else [])
  else []) ++ [c.removeCache]

/-- `sub` when the host has a `resolv.conf`. -/
def resolvConf : PathBuffer := .print (c.tempCacheDir.val ++ "/etc/resolv.conf".toList)

/-- The copy of the host's `resolv.conf` at the initialization. -/
def copyResolv : Command where
  text := "cp -L /etc/resolv.conf \"".toList ++ (c.resolvConf.val ++ '"' :: " 2>/dev/null".toList)
  size := pathMax + 64
  meaning := [bareWord "cp", bareWord "-L", bareWord "/etc/resolv.conf",
    literalWord c.resolvConf.val] ++ errorsToNull

/-- The copy of the host's terminfo, `src_ti`, at the initialization. -/
def copyTerminfo (source : PathBuffer) : Command where
  text := "cp -rn \"".toList ++ (source.val ++ '"' :: (" \"".toList ++
    ((c.tempCacheDir.val ++ "/usr/share/".toList) ++ '"' :: " 2>/dev/null".toList)))
  size := pathMax * 2 + 64
  meaning := [bareWord "cp", bareWord "-rn", literalWord source.val,
    literalWord (c.tempCacheDir.val ++ "/usr/share/".toList)] ++ errorsToNull

end Commit

/-! ## What the shell reads -/

@[simp] theorem literalWord_weight (path : CString) : (literalWord path).weight = path.length := by
  simp [literalWord, Token.weight, quoted]

variable {parent path rest : CString} {tokens : List Token}

theorem lastPath_tokens {before tail : CString} {after : List Token}
    (hbefore : Scan.start.run before = some (Scan.inside tokens [] false))
    (htail : ∀ c ∈ tail, bland c = true)
    (hafter : (Scan.run ⟨tokens, .word (quoted path), .plain⟩ tail).bind Scan.finish =
      some (tokens ++ literalWord path :: after))
    (hweight : weight after = tail.countP dark) :
    tokenize (before ++ (path ++ '"' :: tail)) = some (tokens ++ literalWord path :: after) ↔
      inert false path = true := by
  apply tokenize_iff hbefore htail hafter
  have hcons : literalWord path :: after = [literalWord path] ++ after := rfl
  rw [hcons, weight_append, weight_append, weight_single, literalWord_weight, hweight]
  simp only [List.length_nil]
  omega

theorem mkdirParent_tokens (parent : CString) :
    tokenize (mkdirParent parent).text = some (mkdirParent parent).meaning ↔
      inert false parent = true := by
  have hbefore : Scan.start.run "mkdir -p \"".toList =
      some (Scan.inside [bareWord "mkdir", bareWord "-p"] [] false) := by decide
  exact lastPath_tokens hbefore (by simp) rfl rfl

variable (c : Commit)

theorem changeMode_tokens : tokenize c.changeMode.text = some c.changeMode.meaning ↔
      inert false c.tempCacheDir.val = true := by
  have hbefore : Scan.start.run "chmod -R u+rwX \"".toList =
      some (Scan.inside [bareWord "chmod", bareWord "-R", bareWord "u+rwX"] [] false) := by decide
  exact lastPath_tokens hbefore (List.all_eq_true.mp (by decide)) rfl (by decide)

theorem removeCache_tokens : tokenize c.removeCache.text = some c.removeCache.meaning ↔
      inert false c.tempCacheDir.val = true := by
  have hbefore : Scan.start.run "rm -rf \"".toList =
      some (Scan.inside [bareWord "rm", bareWord "-rf"] [] false) := by decide
  exact lastPath_tokens hbefore (List.all_eq_true.mp (by decide)) rfl (by decide)

theorem run_content (h : inert false path = true) :
    (Scan.inside tokens [] false).run (path ++ '"' :: ("* \"".toList ++ rest)) =
      (Scan.inside (tokens ++ [.word (quoted path ++ bare ['*'])]) [] false).run rest := by
  rw [run_quoted h, Scan.run_append]
  rfl

theorem removeSub_tokens (h : inert false c.tempCacheDir.val = true) :
    tokenize c.removeSub.text = some c.removeSub.meaning := by
  have hsub : ∀ sub : String, inert false sub.toList = true →
      inert false (c.tempCacheDir.val ++ sub.toList) = true := fun _ => inert_append h
  have hbefore : Scan.start.run "rm -rf \"".toList =
      some (Scan.inside [bareWord "rm", bareWord "-rf"] [] false) := by decide
  unfold tokenize Commit.removeSub
  simp only
  rw [Scan.run_append, hbefore, Option.bind_some, run_content (hsub "/tmp/" (by decide)),
    run_content (hsub "/run/" (by decide)), run_content (hsub "/proc/" (by decide)),
    run_content (hsub "/sys/" (by decide)), run_quoted (hsub "/dev/" (by decide))]
  rfl

theorem operators_no_digit : ∀ text ∈ operators, ∀ c ∈ text, c.isDigit = false := by
  have hall : operators.all (fun text => text.all fun c => !c.isDigit) = true := by decide
  intro text htext c hc
  simpa using List.all_eq_true.mp (List.all_eq_true.mp hall text htext) c hc

theorem step_digit {s : Scan} {c : Char} (hc : c.isDigit = true) (hmode : s.mode = .plain)
    (hcurrent : ∀ text, s.current ≠ .operator text) : s.step c = some (s.push [⟨c, false⟩]) := by
  have hne : ∀ d : Char, d.isDigit = false → c ≠ d := by
    intro d hd hcd
    rw [hcd, hd] at hc
    exact absurd hc (by decide)
  have hop : [c] ∉ operators := by
    intro hmem
    have := operators_no_digit _ hmem c (by simp)
    rw [hc] at this
    exact absurd this (by decide)
  have hplain : s.stepPlain c = some (s.push [⟨c, false⟩]) := by
    simp [Scan.stepPlain, expands, hop, hne '\\' rfl, hne '\'' rfl, hne '"' rfl, hne '$' rfl,
      hne '\x60' rfl, hne ' ' rfl, hne '\t' rfl, hne '#' rfl]
  unfold Scan.step
  rw [hmode]
  cases hcur : s.current with
  | nothing | word => exact hplain
  | operator text => exact absurd hcur (hcurrent text)

theorem run_digits {letters : List Letter} {digits : CString} (h : ∀ c ∈ digits, c.isDigit = true) :
    Scan.run ⟨tokens, .word letters, .plain⟩ (digits ++ rest) =
      Scan.run ⟨tokens, .word (letters ++ bare digits), .plain⟩ rest := by
  induction digits generalizing letters with
  | nil => simp [bare]
  | cons c digits ih =>
      obtain ⟨hc, hdigits⟩ := List.forall_mem_cons.mp h
      rw [List.cons_append, Scan.run_cons, step_digit hc rfl (by simp), Option.bind_some]
      show Scan.run ⟨tokens, .word (letters ++ [⟨c, false⟩]), .plain⟩ (digits ++ rest) = _
      rw [ih hdigits]
      simp [bare]

theorem run_number {n : Nat} :
    Scan.run ⟨tokens, .nothing, .plain⟩ (Nat.toDigits 10 n ++ rest) =
      Scan.run ⟨tokens, .word (bare (Nat.toDigits 10 n)), .plain⟩ rest := by
  have hdigits : ∀ c ∈ Nat.toDigits 10 n, c.isDigit = true := by
    intro c hc
    exact Nat.isDigit_of_mem_toDigits (by decide) (by decide) hc
  cases hn : Nat.toDigits 10 n with
  | nil => exact absurd hn Nat.toDigits_ne_nil
  | cons c digits =>
      rw [hn] at hdigits
      obtain ⟨hc, hdigits⟩ := List.forall_mem_cons.mp hdigits
      rw [List.cons_append, Scan.run_cons, step_digit hc rfl (by simp), Option.bind_some]
      show Scan.run ⟨tokens, .word [⟨c, false⟩], .plain⟩ (digits ++ rest) = _
      rw [run_digits hdigits]
      simp [bare]

theorem run_argument (h : inert false path = true) :
    (Scan.inside tokens [] false).run (path ++ '"' :: (" \"".toList ++ rest)) =
      (Scan.inside (tokens ++ [literalWord path]) [] false).run rest := by
  rw [run_quoted h, Scan.run_append]
  rfl

theorem makeImage_tokens (hdir : inert false c.tempCacheDir.val = true)
    (hraw : inert false c.rawTmp.val = true) :
    tokenize c.makeImage.text = some c.makeImage.meaning := by
  have hbefore : Scan.start.run "truncate -s ".toList =
      some ⟨[bareWord "truncate", bareWord "-s"], .nothing, .plain⟩ := by decide
  have hsize : ∀ tokens digits rest, Scan.run ⟨tokens, .word (bare digits), .plain⟩
      (" \"".toList ++ rest) =
        (Scan.inside (tokens ++ [.word (bare digits)]) [] false).run rest := fun _ _ _ => rfl
  have hand : ∀ tokens path rest, Scan.run ⟨tokens, .word (quoted path), .plain⟩
      (" && /sbin/mkfs.ext4 -F -d \"".toList ++ rest) =
        (Scan.inside (tokens ++ [literalWord path] ++ [.operator ['&', '&']] ++
          [bareWord "/sbin/mkfs.ext4"] ++ [bareWord "-F"] ++ [bareWord "-d"]) [] false).run rest :=
    fun _ _ _ => rfl
  unfold tokenize Commit.makeImage
  simp only
  rw [Scan.run_append, hbefore, Option.bind_some, run_number, hsize, run_quoted hraw, hand,
    run_argument hdir, run_quoted hraw]
  rfl

theorem Tools.script_inert (tools : Tools) :
    inert false (tools.script "raw_to_qcow2.py") = true ∧
      inert false (tools.script "raw_to_vhd.py") = true := by
  cases tools <;> decide

theorem convertBy_tokens {script : CString} (hscript : inert false script = true)
    (hraw : inert false c.rawTmp.val = true) :
    tokenize (c.convertBy script).text = some (c.convertBy script).meaning ↔
      inert false c.imagePath.val = true := by
  have hbefore : Scan.start.run ("python3 \"".toList ++ (script ++ '"' :: (" \"".toList ++
      (c.rawTmp.val ++ '"' :: " \"".toList)))) =
        some (Scan.inside [bareWord "python3", literalWord script, literalWord c.rawTmp.val] []
          false) := by
    have hopen : Scan.start.run "python3 \"".toList =
        some (Scan.inside [bareWord "python3"] [] false) := by decide
    rw [Scan.run_append, hopen, Option.bind_some, run_argument hscript, run_quoted hraw]
    rfl
  have hafter : (Scan.run ⟨[bareWord "python3", literalWord script, literalWord c.rawTmp.val],
      .word (quoted c.imagePath.val), .plain⟩ " >/dev/null 2>&1".toList).bind Scan.finish =
        some ([bareWord "python3", literalWord script, literalWord c.rawTmp.val] ++
          literalWord c.imagePath.val :: outputToNull) := rfl
  have hiff := lastPath_tokens hbefore (List.all_eq_true.mp (by decide)) hafter (by decide)
  simp only [List.append_assoc, List.cons_append] at hiff
  exact hiff

theorem moveImage_tokens (hraw : inert false c.rawTmp.val = true) :
    tokenize ("mv -f \"".toList ++ (c.rawTmp.val ++ '"' :: (" \"".toList ++
        (c.imagePath.val ++ ['"'])))) =
      some [bareWord "mv", bareWord "-f", literalWord c.rawTmp.val, literalWord c.imagePath.val] ↔
      inert false c.imagePath.val = true := by
  have hbefore : Scan.start.run ("mv -f \"".toList ++ (c.rawTmp.val ++ '"' :: " \"".toList)) =
      some (Scan.inside [bareWord "mv", bareWord "-f", literalWord c.rawTmp.val] [] false) := by
    have hopen : Scan.start.run "mv -f \"".toList =
        some (Scan.inside [bareWord "mv", bareWord "-f"] [] false) := by decide
    rw [Scan.run_append, hopen, Option.bind_some, run_quoted hraw]
    rfl
  have hafter : (Scan.run ⟨[bareWord "mv", bareWord "-f", literalWord c.rawTmp.val],
      .word (quoted c.imagePath.val), .plain⟩ []).bind Scan.finish =
        some ([bareWord "mv", bareWord "-f", literalWord c.rawTmp.val] ++
          literalWord c.imagePath.val :: []) := rfl
  have hiff := lastPath_tokens hbefore (by simp) hafter rfl
  simp only [List.append_assoc, List.cons_append] at hiff
  exact hiff

theorem replaceImage_tokens (hraw : inert false c.rawTmp.val = true) :
    tokenize c.replaceImage.text = some c.replaceImage.meaning ↔
      inert false c.imagePath.val = true := by
  unfold Commit.replaceImage
  cases c.format with
  | qcow2 => exact convertBy_tokens c c.tools.script_inert.1 hraw
  | vhd => exact convertBy_tokens c c.tools.script_inert.2 hraw
  | raw => exact moveImage_tokens c hraw

/-! ## The two temporary names -/

theorem inert_of_harmless {text : CString} (h : ∀ c ∈ text, escapable c = false) :
    inert false text = true := by
  induction text with
  | nil => rfl
  | cons c text ih =>
      obtain ⟨hc, htext⟩ := List.forall_mem_cons.mp h
      simp only [escapable, Bool.or_eq_false_iff, decide_eq_false_iff_not] at hc
      obtain ⟨⟨⟨hexp, hquote⟩, hback⟩, -⟩ := hc
      simp [inert, hback, hexp, hquote, ih htext]

theorem inert_cut {a b : CString} {c : Char} {escaped : Bool} (hc : escapable c = false)
    (h : inert escaped (a ++ c :: b) = true) : inert escaped (a ++ [c]) = true := by
  induction a generalizing escaped with
  | nil =>
      cases escaped with
      | false => exact inert_of_harmless (by simpa using hc)
      | true => simp [inert, hc]
  | cons d a ih =>
      cases escaped with
      | false =>
          by_cases hd : d = '\\'
          · simp only [List.cons_append, inert, hd, if_true] at h ⊢
            exact ih h
          · simp only [List.cons_append, inert, hd, if_false, Bool.and_eq_true] at h ⊢
            exact ⟨h.1, ih h.2⟩
      | true =>
          simp only [List.cons_append, inert, Bool.and_eq_true] at h ⊢
          exact ⟨h.1, ih h.2⟩

theorem rawTmp_inert (h : inert false c.tempCacheDir.val = true) :
    inert false c.rawTmp.val = true := by
  have hdigits : ∀ d ∈ Nat.toDigits 10 c.pid, escapable d = false := by
    intro d hd
    have hdigit := Nat.isDigit_of_mem_toDigits (by decide) (by decide) hd
    simp only [escapable, expands, Bool.or_eq_false_iff, decide_eq_false_iff_not]
    refine ⟨⟨⟨⟨?_, ?_⟩, ?_⟩, ?_⟩, ?_⟩ <;>
      (intro heq; rw [heq] at hdigit; exact absurd hdigit (by decide))
  have hname : ∀ d ∈ "proot_commit_".toList ++ (Nat.toDigits 10 c.pid ++ ".raw".toList),
      escapable d = false := by
    have hcommit : ∀ d ∈ "proot_commit_".toList, escapable d = false := by
      simp [escapable, expands]
    have hraw : ∀ d ∈ ".raw".toList, escapable d = false := by simp [escapable, expands]
    intro d hd
    rcases List.mem_append.mp hd with hd | hd
    · exact hcommit d hd
    · rcases List.mem_append.mp hd with hd | hd
      · exact hdigits d hd
      · exact hraw d hd
  show inert false (List.take 4095 (c.tmpBase ++ '/' ::
    ("proot_commit_".toList ++ (Nat.toDigits 10 c.pid ++ ".raw".toList)))) = true
  have hdir : inert false (List.take 4095 (c.tmpBase ++ '/' ::
    ("proot_vdisk_".toList ++ Nat.toDigits 10 c.pid))) = true := h
  by_cases hlen : 4095 ≤ c.tmpBase.length
  · rw [List.take_append_of_le_length hlen] at hdir ⊢
    exact hdir
  · obtain ⟨k, hk⟩ : ∃ k, 4095 - c.tmpBase.length = k + 1 := ⟨4095 - c.tmpBase.length - 1, by omega⟩
    rw [List.take_append, hk, List.take_succ_cons, List.take_of_length_le (by omega)] at hdir ⊢
    have hbase := inert_cut (by decide) hdir
    have hrest : ∀ d ∈ List.take k ("proot_commit_".toList ++
        (Nat.toDigits 10 c.pid ++ ".raw".toList)), escapable d = false :=
      fun d hd => hname d (List.mem_of_mem_take hd)
    have happend := inert_append hbase (inert_of_harmless hrest)
    simpa using happend

/-! ## Strings that do not fit -/

theorem Command.means_iff {c : Command} (hfits : c.text.length < c.size) :
    c.Means ↔ tokenize c.text = some c.meaning := by
  have hstring : c.string = c.text := List.take_of_length_le (by omega)
  rw [Command.Means, hstring]

theorem Command.fits {c : Command} {init : CString} {last : Char} {s : Scan}
    (htext : c.text = init ++ [last]) (hrun : Scan.start.run init = some s)
    (hlast : s.step last = some (s.push [⟨last, false⟩]))
    (htokens : tokenize c.text = some c.meaning) (h : c.Means) : c.text.length < c.size := by
  by_contra hlong
  have hlen : c.size - 1 ≤ init.length := by
    have := congrArg List.length htext
    simp only [List.length_append, List.length_singleton] at this
    omega
  have hcut : c.string = init.take (c.size - 1) := by
    rw [Command.string, snprintf, htext, List.take_append_of_le_length hlen]
  have hsplit : init.take (c.size - 1) ++ init.drop (c.size - 1) = init := List.take_append_drop _ _
  refine @tokenize_cut _ (init.drop (c.size - 1)) _ c.meaning _ (by rw [hsplit]; exact hrun)
    hlast ?_ ?_
  · rw [← List.append_assoc, hsplit, ← htext]
    exact htokens
  · rw [← hcut]
    exact h

theorem removeCache_length : c.removeCache.text.length = c.tempCacheDir.val.length + 21 := by
  have hsum : ∀ n : Nat, 8 + (n + (12 + 1)) = n + 21 := fun n => by omega
  have hbefore : "rm -rf \"".toList.length = 8 := by decide
  have htail : " 2>/dev/null".toList.length = 12 := by decide
  unfold Commit.removeCache
  rw [List.length_append, List.length_append, List.length_cons, hbefore, htail]
  exact hsum _

theorem removeSub_length : c.removeSub.text.length = 5 * c.tempCacheDir.val.length + 64 := by
  have hsum : ∀ n : Nat, 8 + (n + 5 + (3 + (n + 5 + (3 + (n + 6 + (3 + (n + 5 + (3 +
      (n + 5 + (13 + 1)) + 1)) + 1)) + 1)) + 1)) = 5 * n + 64 := fun n => by omega
  have hbefore : "rm -rf \"".toList.length = 8 := by decide
  have hnext : "* \"".toList.length = 3 := by decide
  have htail : "* 2>/dev/null".toList.length = 13 := by decide
  have hsub : "/tmp/".toList.length = 5 ∧ "/run/".toList.length = 5 ∧ "/proc/".toList.length = 6 ∧
      "/sys/".toList.length = 5 ∧ "/dev/".toList.length = 5 := by decide
  have hpiece : ∀ sub rest : CString, ((c.tempCacheDir.val ++ sub) ++ '"' :: rest).length =
      c.tempCacheDir.val.length + sub.length + (rest.length + 1) := by
    intro sub rest
    rw [List.length_append, List.length_append, List.length_cons]
  obtain ⟨htmp, hrun, hproc, hsys, hdev⟩ := hsub
  unfold Commit.removeSub
  dsimp only
  rw [List.length_append, hbefore, hpiece, htmp, List.length_append, hnext, hpiece, hrun,
    List.length_append, hnext, hpiece, hproc, List.length_append, hnext, hpiece, hsys,
    List.length_append, hnext, hpiece, hdev, htail]
  exact hsum _

theorem errorsToNull_dark : weight errorsToNull = " 2>/dev/null".toList.countP dark := by decide

theorem take_behind {a b : CString} {c : Char} {n : Nat} (h : a.length + b.length + 1 ≤ n) :
    (a ++ (b ++ c :: rest)).take n =
      a ++ (b ++ c :: rest.take (n - (a.length + b.length + 1))) := by
  obtain ⟨k, rfl⟩ := Nat.exists_eq_add_of_le h
  have hk : a.length + b.length + 1 + k - a.length - b.length = k + 1 := by omega
  have hrest : a.length + b.length + 1 + k - (a.length + b.length + 1) = k := by omega
  rw [List.take_append, List.take_append, List.take_of_length_le (by omega),
    List.take_of_length_le (by omega), hk, hrest, List.take_succ_cons]

theorem removeCache_inert (h : c.removeCache.Means) : inert false c.tempCacheDir.val = true := by
  have hless : ∀ a n k k' : Nat, k' ≤ k → ¬ a + (n + k) < a + 0 + n + k' := by omega
  have hopen : "rm -rf \"".toList.length = 8 := by decide
  have hfits : "rm -rf \"".toList.length + c.tempCacheDir.val.length + 1 ≤
      c.removeCache.size - 1 := by
    have hlen := c.tempCacheDir.property
    rw [hopen]
    show 8 + c.tempCacheDir.val.length + 1 ≤ pathMax + 16 - 1
    revert hlen
    generalize c.tempCacheDir.val.length = n
    intro hlen
    omega
  have hbefore : Scan.start.run "rm -rf \"".toList =
      some (Scan.inside [bareWord "rm", bareWord "-rf"] [] false) := by decide
  have htail : ∀ d ∈ " 2>/dev/null".toList, bland d = true :=
    List.all_eq_true.mp (by decide)
  by_contra hnot
  have hcut : tokenize (("rm -rf \"".toList ++ (c.tempCacheDir.val ++
      '"' :: " 2>/dev/null".toList)).take (c.removeCache.size - 1)) =
        some c.removeCache.meaning := h
  rw [take_behind hfits, tokenize, Scan.run_append, hbefore, Option.bind_some] at hcut
  have hlight := close_not_inert (by simpa using hnot)
    (fun d hd => htail d (List.mem_of_mem_take hd)) hcut
  have hweight : weight c.removeCache.meaning = weight [bareWord "rm", bareWord "-rf"] +
      (c.tempCacheDir.val.length + " 2>/dev/null".toList.countP dark) := by
    show weight ([bareWord "rm", bareWord "-rf"] ++ ([literalWord c.tempCacheDir.val] ++
      errorsToNull)) = _
    rw [weight_append, weight_append, weight_single, literalWord_weight, errorsToNull_dark]
  rw [hweight] at hlight
  exact hless _ _ _ _ ((List.take_sublist _ _).countP_le) hlight

theorem removeCache_means : c.removeCache.Means ↔
      inert false c.tempCacheDir.val = true ∧ c.removeCache.text.length < c.removeCache.size := by
  constructor
  · intro h
    have hinert := removeCache_inert c h
    have htokens := (removeCache_tokens c).mpr hinert
    refine ⟨hinert, ?_⟩
    have hrun : Scan.start.run ("rm -rf \"".toList ++ (c.tempCacheDir.val ++
        '"' :: " 2>/dev/nul".toList)) = some ⟨[bareWord "rm", bareWord "-rf",
          literalWord c.tempCacheDir.val, .ioNumber ['2'], .operator ['>']],
          .word (bare "/dev/nul".toList), .plain⟩ := by
      have hbefore : Scan.start.run "rm -rf \"".toList =
          some (Scan.inside [bareWord "rm", bareWord "-rf"] [] false) := by decide
      rw [Scan.run_append, hbefore, Option.bind_some, run_quoted hinert]
      rfl
    have htext : c.removeCache.text = ("rm -rf \"".toList ++ (c.tempCacheDir.val ++
        '"' :: " 2>/dev/nul".toList)) ++ ['l'] := by
      rw [List.append_assoc, List.append_assoc, List.cons_append]
      rfl
    exact Command.fits htext hrun rfl htokens h
  · rintro ⟨hinert, hfits⟩
    exact (Command.means_iff hfits).mpr ((removeCache_tokens c).mpr hinert)

theorem removeSub_means (hdir : inert false c.tempCacheDir.val = true) :
    c.removeSub.Means ↔ c.removeSub.text.length < c.removeSub.size := by
  have htokens := removeSub_tokens c hdir
  constructor
  · intro h
    have hsub : ∀ sub : String, inert false sub.toList = true →
        inert false (c.tempCacheDir.val ++ sub.toList) = true := fun _ => inert_append hdir
    have hbefore : Scan.start.run "rm -rf \"".toList =
        some (Scan.inside [bareWord "rm", bareWord "-rf"] [] false) := by decide
    let content (sub : String) : Token :=
      .word (quoted (c.tempCacheDir.val ++ sub.toList) ++ bare ['*'])
    have hrun : Scan.start.run ("rm -rf \"".toList ++ ((c.tempCacheDir.val ++ "/tmp/".toList) ++
        '"' :: ("* \"".toList ++ ((c.tempCacheDir.val ++ "/run/".toList) ++ '"' ::
          ("* \"".toList ++ ((c.tempCacheDir.val ++ "/proc/".toList) ++ '"' ::
            ("* \"".toList ++ ((c.tempCacheDir.val ++ "/sys/".toList) ++ '"' ::
              ("* \"".toList ++ ((c.tempCacheDir.val ++ "/dev/".toList) ++ '"' ::
                "* 2>/dev/nul".toList)))))))))) =
          some ⟨[bareWord "rm", bareWord "-rf", content "/tmp/", content "/run/", content "/proc/",
            content "/sys/", content "/dev/", .ioNumber ['2'], .operator ['>']],
              .word (bare "/dev/nul".toList), .plain⟩ := by
      rw [Scan.run_append, hbefore, Option.bind_some, run_content (hsub "/tmp/" (by decide)),
        run_content (hsub "/run/" (by decide)), run_content (hsub "/proc/" (by decide)),
        run_content (hsub "/sys/" (by decide)), run_quoted (hsub "/dev/" (by decide))]
      rfl
    refine Command.fits ?_ hrun (show _ = some (Scan.push _ [⟨'l', false⟩]) from rfl) htokens h
    have hnull : "* 2>/dev/null".toList = "* 2>/dev/nul".toList ++ ['l'] := by decide
    unfold Commit.removeSub
    simp only [hnull, List.append_assoc, List.cons_append]
  · intro hfits
    exact (Command.means_iff hfits).mpr htokens

/-! ## Strings that always fit -/

theorem changeMode_means : c.changeMode.Means ↔ inert false c.tempCacheDir.val = true := by
  rw [Command.means_iff ?_, changeMode_tokens]
  have hsum : ∀ n : Nat, n < pathMax → 16 + (n + (12 + 1)) < pathMax * 2 := by
    unfold pathMax
    omega
  have hbefore : "chmod -R u+rwX \"".toList.length = 16 := by decide
  have htail : " 2>/dev/null".toList.length = 12 := by decide
  unfold Commit.changeMode
  dsimp only
  rw [List.length_append, List.length_append, List.length_cons, hbefore, htail]
  exact hsum _ c.tempCacheDir.property

theorem makeImage_means (hdir : inert false c.tempCacheDir.val = true) : c.makeImage.Means := by
  refine (Command.means_iff ?_).mpr (makeImage_tokens c hdir (rawTmp_inert c hdir))
  have hsum : ∀ digits raw dir : Nat, digits ≤ 20 → raw < pathMax → dir < pathMax →
      12 + (digits + (2 + (raw + (27 + (dir + (2 + (raw + (16 + 1)) + 1)) + 1)))) <
        pathMax * 4 := by
    unfold pathMax
    omega
  have hdigits : (Nat.toDigits 10 c.totalSize.toNat).length ≤ 20 := by
    have hlt := c.totalSize.isLt
    exact (Nat.length_toDigits_le_iff (by decide) (by decide)).mpr (by omega)
  have hbefore : "truncate -s ".toList.length = 12 := by decide
  have hsize : " \"".toList.length = 2 := by decide
  have hand : " && /sbin/mkfs.ext4 -F -d \"".toList.length = 27 := by decide
  have htail : " >/dev/null 2>&1".toList.length = 16 := by decide
  unfold Commit.makeImage
  dsimp only
  rw [List.length_append, hbefore, List.length_append, List.length_append, hsize,
    List.length_append, List.length_cons, List.length_append, hand, List.length_append,
    List.length_cons, List.length_append, hsize, List.length_append, List.length_cons, htail]
  exact hsum _ _ _ hdigits c.rawTmp.property c.tempCacheDir.property

theorem Tools.script_length (tools : Tools) :
    (tools.script "raw_to_qcow2.py").length ≤ 64 ∧ (tools.script "raw_to_vhd.py").length ≤ 64 := by
  cases tools <;> decide

theorem convertBy_fits {script : CString} (hscript : script.length ≤ 64) :
    (c.convertBy script).text.length < (c.convertBy script).size := by
  have hsum : ∀ script raw image : Nat, script ≤ 64 → raw < pathMax → image < pathMax →
      9 + (script + (2 + (raw + (2 + (image + (16 + 1)) + 1)) + 1)) < pathMax * 4 := by
    unfold pathMax
    omega
  have hbefore : "python3 \"".toList.length = 9 := by decide
  have hnext : " \"".toList.length = 2 := by decide
  have htail : " >/dev/null 2>&1".toList.length = 16 := by decide
  unfold Commit.convertBy
  dsimp only
  rw [List.length_append, hbefore, List.length_append, List.length_cons, List.length_append,
    hnext, List.length_append, List.length_cons, List.length_append, hnext, List.length_append,
    List.length_cons, htail]
  exact hsum _ _ _ hscript c.rawTmp.property c.imagePath.property

theorem replaceImage_fits : c.replaceImage.text.length < c.replaceImage.size := by
  unfold Commit.replaceImage
  cases c.format with
  | qcow2 => exact convertBy_fits c c.tools.script_length.1
  | vhd => exact convertBy_fits c c.tools.script_length.2
  | raw =>
      have hsum : ∀ raw image : Nat, raw < pathMax → image < pathMax →
          7 + (raw + (2 + (image + (0 + 1)) + 1)) < pathMax * 4 := by
        unfold pathMax
        omega
      have hbefore : "mv -f \"".toList.length = 7 := by decide
      have hnext : " \"".toList.length = 2 := by decide
      dsimp only
      rw [List.length_append, hbefore, List.length_append, List.length_cons, List.length_append,
        hnext, List.length_append, List.length_cons, List.length_nil]
      exact hsum _ _ c.rawTmp.property c.imagePath.property

theorem replaceImage_means (hdir : inert false c.tempCacheDir.val = true) :
    c.replaceImage.Means ↔ inert false c.imagePath.val = true :=
  (Command.means_iff (replaceImage_fits c)).trans (replaceImage_tokens c (rawTmp_inert c hdir))

theorem copyResolv_means : c.copyResolv.Means ↔ inert false c.resolvConf.val = true := by
  have hbefore : Scan.start.run "cp -L /etc/resolv.conf \"".toList =
      some (Scan.inside [bareWord "cp", bareWord "-L", bareWord "/etc/resolv.conf"] [] false) := by decide
  refine (Command.means_iff ?_).trans
    (lastPath_tokens hbefore (List.all_eq_true.mp (by decide)) rfl (by decide))
  have hsum : ∀ n : Nat, n < pathMax → 24 + (n + (12 + 1)) < pathMax + 64 := by
    unfold pathMax
    omega
  have hlength : "cp -L /etc/resolv.conf \"".toList.length = 24 := by decide
  have htail : " 2>/dev/null".toList.length = 12 := by decide
  unfold Commit.copyResolv
  dsimp only
  rw [List.length_append, List.length_append, List.length_cons, hlength, htail]
  exact hsum _ c.resolvConf.property

theorem copyTerminfo_means {source : PathBuffer} (hsource : inert false source.val = true) :
    (c.copyTerminfo source).Means ↔
      inert false (c.tempCacheDir.val ++ "/usr/share/".toList) = true := by
  have hbefore : Scan.start.run ("cp -rn \"".toList ++ (source.val ++ '"' :: " \"".toList)) =
      some (Scan.inside [bareWord "cp", bareWord "-rn", literalWord source.val] [] false) := by
    have hopen : Scan.start.run "cp -rn \"".toList =
        some (Scan.inside [bareWord "cp", bareWord "-rn"] [] false) := by decide
    rw [Scan.run_append, hopen, Option.bind_some, run_quoted hsource]
    rfl
  have hafter : (Scan.run ⟨[bareWord "cp", bareWord "-rn", literalWord source.val],
      .word (quoted (c.tempCacheDir.val ++ "/usr/share/".toList)), .plain⟩
        " 2>/dev/null".toList).bind Scan.finish =
      some ([bareWord "cp", bareWord "-rn", literalWord source.val] ++
        literalWord (c.tempCacheDir.val ++ "/usr/share/".toList) :: errorsToNull) := rfl
  have hiff := lastPath_tokens hbefore (List.all_eq_true.mp (by decide)) hafter (by decide)
  have htext : "cp -rn \"".toList ++ (source.val ++ '"' :: " \"".toList) ++
      (c.tempCacheDir.val ++ "/usr/share/".toList ++ '"' :: " 2>/dev/null".toList) =
        (c.copyTerminfo source).text := by
    rw [List.append_assoc, List.append_assoc, List.cons_append]
    rfl
  rw [htext] at hiff
  refine (Command.means_iff ?_).trans hiff
  have hsum : ∀ source dir : Nat, source < pathMax → dir < pathMax →
      8 + (source + (2 + (dir + 11 + (12 + 1)) + 1)) < pathMax * 2 + 64 := by
    unfold pathMax
    omega
  have hlength : "cp -rn \"".toList.length = 8 := by decide
  have hnext : " \"".toList.length = 2 := by decide
  have hsub : "/usr/share/".toList.length = 11 := by decide
  have htail : " 2>/dev/null".toList.length = 12 := by decide
  unfold Commit.copyTerminfo
  dsimp only
  rw [List.length_append, hlength, List.length_append, List.length_cons, List.length_append, hnext,
    List.length_append, List.length_append, hsub, List.length_cons, htail]
  exact hsum _ _ source.property c.tempCacheDir.property

/-- **Commit and cleanup.** Every string is read as meant if and only if the paths are inert and
the two removals fit their buffers. -/
theorem commands_mean : (∀ command ∈ c.commands, command.Means) ↔
      inert false c.tempCacheDir.val = true ∧
      (c.persistent = true → c.rebuilt = true → inert false c.imagePath.val = true) ∧
      c.tempCacheDir.val.length + 21 < pathMax + 16 ∧
      (c.persistent = true → 5 * c.tempCacheDir.val.length + 64 < pathMax * 2) := by
  have hcache := removeCache_means c
  rw [removeCache_length] at hcache
  constructor
  · intro h
    obtain ⟨hdir, hfits⟩ := hcache.mp (h _ (by simp [Commit.commands]))
    refine ⟨hdir, ?_, hfits, ?_⟩
    · intro hpersistent hrebuilt
      exact (replaceImage_means c hdir).mp
        (h _ (by simp [Commit.commands, hpersistent, hrebuilt]))
    · intro hpersistent
      have hsub := (removeSub_means c hdir).mp (h _ (by simp [Commit.commands, hpersistent]))
      rw [removeSub_length] at hsub
      exact hsub
  · rintro ⟨hdir, himage, hfits, hsub⟩ command hcommand
    simp only [Commit.commands, List.mem_append, List.mem_singleton] at hcommand
    rcases hcommand with hcommit | rfl
    · split at hcommit
      · rename_i hpersistent
        rcases List.mem_append.mp hcommit with hfirst | hlast
        · simp only [List.mem_cons, List.not_mem_nil, or_false] at hfirst
          rcases hfirst with rfl | rfl | rfl
          · refine (removeSub_means c hdir).mpr ?_
            rw [removeSub_length]
            exact hsub hpersistent
          · exact (changeMode_means c).mpr hdir
          · exact makeImage_means c hdir
        · split at hlast
          · rename_i hrebuilt
            rw [List.mem_singleton.mp hlast]
            exact (replaceImage_means c hdir).mpr (himage hpersistent hrebuilt)
          · exact absurd hlast List.not_mem_nil
      · exact absurd hcommit List.not_mem_nil
    · exact hcache.mpr ⟨hdir, hfits⟩

/-! ## The parents of a path -/

theorem parentDirectory_append {name : CString} (hname : '/' ∉ name)
    (hparent : parent ≠ []) : parentDirectory (parent ++ '/' :: name) = some parent := by
  have hdrop : (parent ++ '/' :: name).reverse.dropWhile (· ≠ '/') = '/' :: parent.reverse := by
    rw [List.reverse_append, List.reverse_cons, List.append_assoc,
      List.dropWhile_append_of_pos (by
        intro d hd
        have : d ≠ '/' := fun heq => hname (heq ▸ List.mem_reverse.mp hd)
        simpa using this)]
    rfl
  unfold parentDirectory
  rw [hdrop]
  simp [hparent]

theorem parentDirectory_eq_some (h : parentDirectory path = some parent) :
    ∃ name, path = parent ++ '/' :: name ∧ '/' ∉ name ∧ parent ≠ [] := by
  unfold parentDirectory at h
  split at h
  · cases h
  · rename_i d before hdrop
    split at h
    · cases h
    · rename_i hne
      cases h
      have hslash : d = '/' := by
        have hne' : path.reverse.dropWhile (· ≠ '/') ≠ [] := by
          rw [hdrop]
          exact List.cons_ne_nil _ _
        have hhead := List.head_dropWhile_not (· ≠ '/') hne'
        simp only [hdrop] at hhead
        by_contra hne
        simp [hne] at hhead
      have hsplit : path.reverse.takeWhile (· ≠ '/') ++ d :: before = path.reverse := by
        rw [← hdrop]
        exact List.takeWhile_append_dropWhile
      have hname : '/' ∉ path.reverse.takeWhile (· ≠ '/') := by
        intro hmem
        have := List.all_eq_true.mp List.all_takeWhile _ hmem
        simp at this
      refine ⟨(path.reverse.takeWhile (· ≠ '/')).reverse, ?_, ?_, by simpa using hne⟩
      · have hpath := congrArg List.reverse hsplit
        rw [List.reverse_reverse, List.reverse_append, List.reverse_cons, List.append_assoc] at hpath
        rw [hslash] at hpath
        exact hpath.symm
      · rw [List.mem_reverse]
        exact hname

theorem parentDirectory_take {cut : CString} {n : Nat}
    (h : parentDirectory path = some parent) (hcut : parentDirectory (path.take n) = some cut) :
    cut = parent ∨ cut.length < parent.length := by
  obtain ⟨name, rfl, hname, hparent⟩ := parentDirectory_eq_some h
  by_cases hlen : parent.length < n
  · left
    obtain ⟨k, hk⟩ : ∃ k, n - parent.length = k + 1 := ⟨n - parent.length - 1, by omega⟩
    rw [List.take_append, List.take_of_length_le (by omega), hk, List.take_succ_cons,
      parentDirectory_append (fun hmem => hname (List.mem_of_mem_take hmem)) hparent] at hcut
    exact (Option.some.inj hcut).symm
  · right
    obtain ⟨name', htake, -, -⟩ := parentDirectory_eq_some hcut
    have hlength := congrArg List.length htake
    simp only [List.length_take, List.length_append, List.length_cons] at hlength
    omega

/-- What `ensure_parent_dirs` gives to the shell is `mkdir -p` of the parent, if there is one. -/
def EnsureMeans (path : CString) : Prop :=
  (ensureParentDirs path).map tokenize =
    (parentDirectory path).map fun parent => some (mkdirParent parent).meaning

theorem mkdirParent_fits (h : parent.length < pathMax) :
    (mkdirParent parent).text.length < (mkdirParent parent).size := by
  have hsum : ∀ n : Nat, n < pathMax → 10 + (n + (0 + 1)) < pathMax + 16 := by
    unfold pathMax
    omega
  have hbefore : "mkdir -p \"".toList.length = 10 := by decide
  unfold mkdirParent
  dsimp only
  rw [List.length_append, hbefore, List.length_append, List.length_cons, List.length_nil]
  exact hsum _ h

theorem mkdirParent_weight (parent : CString) :
    weight (mkdirParent parent).meaning = 7 + parent.length := by
  show weight ([bareWord "mkdir", bareWord "-p"] ++ [literalWord parent]) = _
  rw [weight_append, weight_single, literalWord_weight]
  rfl

/-- **`ensure_parent_dirs`.** The string is `mkdir -p` of the parent of the path if and only if the
last slash isn't cut off and the parent is inert. -/
theorem ensureParentDirs_means (path : CString) :
    EnsureMeans path ↔
      parentDirectory (path.take (pathMax - 1)) = parentDirectory path ∧
      ∀ parent, parentDirectory path = some parent → inert false parent = true := by
  unfold EnsureMeans ensureParentDirs
  have hshort : ∀ {cut}, parentDirectory (path.take (pathMax - 1)) = some cut →
      cut.length < pathMax := by
    intro cut hcut
    obtain ⟨name, htake, -, -⟩ := parentDirectory_eq_some hcut
    have hlength := congrArg List.length htake
    simp only [List.length_take, List.length_append, List.length_cons, pathMax] at hlength ⊢
    omega
  cases hcut : parentDirectory (path.take (pathMax - 1)) with
  | none => cases parentDirectory path <;> simp
  | some cut =>
      have hread : tokenize (mkdirParent cut).string = tokenize (mkdirParent cut).text := by
        rw [Command.string, snprintf, List.take_of_length_le]
        have := mkdirParent_fits (hshort hcut)
        omega
      cases hparent : parentDirectory path with
      | none => simp
      | some parent =>
          simp only [Option.map_some, Option.some.injEq, hread]
          constructor
          · intro h
            have hweight := mkdirParent_weight parent
            have hshorter := parentDirectory_take hparent hcut
            cases hinert : inert false cut with
            | false =>
                have hbefore : Scan.start.run "mkdir -p \"".toList =
                    some (Scan.inside [bareWord "mkdir", bareWord "-p"] [] false) := by decide
                unfold mkdirParent tokenize at h
                dsimp only at h
                rw [Scan.run_append, hbefore, Option.bind_some] at h
                have hlight := close_not_inert hinert (by simp) h
                have hseven : weight [bareWord "mkdir", bareWord "-p"] = 7 := by decide
                have hless : 7 + parent.length < 7 + 0 + cut.length + 0 := by
                  rw [← hweight, ← hseven]
                  exact hlight
                clear hlight hseven hbefore h
                exact absurd hshorter (by rintro (rfl | hlt) <;> omega)
            | true =>
                rw [(mkdirParent_tokens cut).mpr hinert, Option.some.injEq] at h
                have hlengths := mkdirParent_weight cut
                rw [h, hweight] at hlengths
                have hsame : cut = parent := hshorter.resolve_right (by omega)
                subst hsame
                exact ⟨rfl, fun _ heq => heq ▸ hinert⟩
          · rintro ⟨rfl, hinert⟩
            exact (mkdirParent_tokens cut).mpr (hinert cut rfl)

/-- **The strings for the shell mean what was intended exactly for inert paths that fit.** -/
theorem shell_strings_literal (path : CString) (c : Commit) :
    (EnsureMeans path ↔
      parentDirectory (path.take (pathMax - 1)) = parentDirectory path ∧
      ∀ parent, parentDirectory path = some parent → inert false parent = true) ∧
    ((∀ command ∈ c.commands, command.Means) ↔
      inert false c.tempCacheDir.val = true ∧
      (c.persistent = true → c.rebuilt = true → inert false c.imagePath.val = true) ∧
      c.tempCacheDir.val.length + 21 < pathMax + 16 ∧
      (c.persistent = true → 5 * c.tempCacheDir.val.length + 64 < pathMax * 2)) ∧
    (c.copyResolv.Means ↔ inert false c.resolvConf.val = true) ∧
    (∀ source : PathBuffer, inert false source.val = true →
      ((c.copyTerminfo source).Means ↔
        inert false (c.tempCacheDir.val ++ "/usr/share/".toList) = true)) :=
  ⟨ensureParentDirs_means path, commands_mean c, copyResolv_means c,
    fun _ => copyTerminfo_means c⟩

/-- A name with a double quote in it makes the host's shell run what follows as a command. -/
theorem guest_name_runs_command :
    ∃ string, ensureParentDirs "/cache/a\";id;\"/file".toList = some string ∧
      tokenize string = some [bareWord "mkdir", bareWord "-p", literalWord "/cache/a".toList,
        .operator [';'], bareWord "id", .operator [';'], literalWord []] ∧
      ¬ EnsureMeans "/cache/a\";id;\"/file".toList := by
  refine ⟨_, rfl, by decide, ?_⟩
  unfold EnsureMeans
  decide

end Improot.Extension
