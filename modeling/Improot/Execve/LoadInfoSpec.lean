import Improot.Execve.LoadInfo

/-!
# The lists of mappings

The list of an object is empty if and only if no `PT_LOAD` was read in its file.  Nothing looks at
that before the first and the last elements are read: what is accepted loads if and only if the
lists that are read have elements.
-/

namespace Improot.Execve

variable {w : Nat}

/-! ## The walk over the program headers -/

def headersOf (header : ElfHeader) (count : Nat) (rest : Lib.Bytes) : List ProgramHeader :=
  (List.range count).map fun i => .read header.class64 (rest.drop (i * header.phentsize))

theorem headersOf_succ (header : ElfHeader) (count : Nat) (rest : Lib.Bytes) :
    headersOf header (count + 1) rest =
      .read header.class64 rest :: headersOf header count (rest.drop header.phentsize) := by
  unfold headersOf
  rw [List.range_succ_eq_map, List.map_cons, List.map_map, Nat.zero_mul, List.drop_zero]
  congr 1
  refine List.map_congr_left fun i _ => ?_
  rw [Function.comp_apply, List.drop_drop, Nat.succ_mul, Nat.add_comm]

def programHeaders (file : File) (header : ElfHeader) : List ProgramHeader :=
  if wrapped header.phoff then []
  else headersOf header header.phnum (file.content.drop header.phoff)

variable {file : File} {info : LoadInfo w}

section Walk

variable {σ : Type} {header : ElfHeader} {callback : ProgramHeader → σ → Except Fault σ}

variable {data : σ}

/-- **An invariant of the walk**: what holds of the data before a callback holds after it. -/
theorem iterateHeaders_invariant {Inv : List ProgramHeader → σ → Prop} {count : Nat}
    {rest : Lib.Bytes} {before : List ProgramHeader} {data' : σ}
    (hstep : ∀ before p data data', callback p data = .ok data' → Inv before data →
      Inv (before ++ [p]) data')
    (h : iterateHeaders header callback count rest data = .ok data') (hinv : Inv before data) :
    Inv (before ++ headersOf header count rest) data' := by
  induction count generalizing rest before data with
  | zero =>
      cases h
      rw [headersOf, List.range_zero, List.map_nil, List.append_nil]
      exact hinv
  | succ count ih =>
      rw [iterateHeaders] at h
      split at h
      · cases h
      split at h
      · cases h
      · rename_i data₁ hdata
        rw [headersOf_succ, List.append_cons]
        exact ih h (hstep before _ data data₁ hdata hinv)

theorem iterateHeaders_fault {count : Nat} {rest : Lib.Bytes}
    (hstep : ∀ p data, callback p data ≠ .error .outOfRange) :
    iterateHeaders header callback count rest data ≠ .error .outOfRange := by
  induction count generalizing rest data with
  | zero => nofun
  | succ count ih =>
      rw [iterateHeaders]
      split
      · nofun
      split
      · rename_i fault hfault
        intro h
        cases h
        exact hstep _ _ hfault
      · exact ih

theorem iterateProgramHeaders_invariant (Inv : List ProgramHeader → σ → Prop)
    {errno : Option Errno} {data' : σ}
    (hstep : ∀ before p data data', callback p data = .ok data' → Inv before data →
      Inv (before ++ [p]) data')
    (h : iterateProgramHeaders file errno header callback data = .ok data')
    (hinv : Inv [] data) : Inv (programHeaders file header) data' := by
  unfold iterateProgramHeaders at h
  unfold programHeaders
  split at h
  · cases h
  split at h
  · cases h
  split at h
  · cases h
  split at h
  · rename_i hwrapped
    rw [if_pos hwrapped]
    split at h
    · cases h
    · cases h
      exact hinv
  · rename_i hwrapped
    rw [if_neg hwrapped]
    exact iterateHeaders_invariant hstep h hinv

theorem iterateProgramHeaders_fault {errno : Option Errno}
    (hstep : ∀ p data, callback p data ≠ .error .outOfRange) :
    iterateProgramHeaders file errno header callback data ≠ .error .outOfRange := by
  unfold iterateProgramHeaders
  split
  · nofun
  split
  · nofun
  split
  · nofun
  split
  · split
    · nofun
    · nofun
  · exact iterateHeaders_fault hstep

end Walk

/-! ## What is extracted -/

namespace Loading

variable (l : Loading w)

def elf (path : CString) : Option (File × ElfHeader) :=
  match l.openFile path with
  | .error _ => none
  | .ok file =>
    match openElf file.content with
    | .error _ => none
    | .ok header => some (file, header)

def headers (path : CString) : List ProgramHeader :=
  ((l.elf path).map fun elf => programHeaders elf.1 elf.2).getD []

/-- A `PT_LOAD` is read. -/
def HasSegment (path : CString) : Prop := ∃ p ∈ l.headers path, p.type = ptLoad

def PositionIndependent (path : CString) : Prop :=
  ∃ elf ∈ l.elf path, elf.2.isPositionIndependent = true

/-- The host path of the ELF interpreter that the first `PT_INTERP` names. -/
def interpreter (path : CString) : Option CString :=
  ((l.elf path).bind fun elf =>
    ((programHeaders elf.1 elf.2).find? (·.type = ptInterp)).bind fun p =>
      (l.translateAndCheckExec (l.interpUserPath (interpName elf.1.content p))).toOption)

/-- **The lists that are read have elements**: that of the program, and that of its interpreter if
it is position independent. -/
def Filled (path : CString) : Prop :=
  l.HasSegment path ∧
    ∀ interp ∈ l.interpreter path, l.PositionIndependent interp → l.HasSegment interp

theorem addMapping_ne_nil (mappings : List (Mapping w)) (p : ProgramHeader) :
    l.addMapping mappings p ≠ [] := by
  unfold addMapping
  dsimp only
  split
  · simp
  · simp

structure Lists (file : File) (start : LoadInfo w) (seen : List ProgramHeader) (info : LoadInfo w) :
    Prop where
  mappings : info.mappings = [] ↔ ∀ p ∈ seen, p.type ≠ ptLoad
  elfHeader : info.elfHeader = start.elfHeader
  hostPath : info.hostPath = start.hostPath
  interp : info.interp.map (·.hostPath) = (seen.find? (·.type = ptInterp)).bind fun p =>
    (l.translateAndCheckExec (l.interpUserPath (interpName file.content p))).toOption
  absent : info.interp = none ↔ ∀ p ∈ seen, p.type ≠ ptInterp
  fresh : ∀ interp ∈ info.interp, ∃ userPath, interp = .zero interp.hostPath userPath none

theorem addInterp_eq_ok {info' : LoadInfo w} {p : ProgramHeader}
    (h : l.addInterp file info p = .ok info') :
    info.interp = none ∧ ∃ hostPath,
      l.translateAndCheckExec (l.interpUserPath (interpName file.content p)) = .ok hostPath ∧
      info' = { info with
        interp := some (.zero hostPath (l.interpUserPath (interpName file.content p)) none) } := by
  unfold addInterp at h
  split at h
  · cases h
  rename_i hinterp
  split at h
  · cases h
  split at h
  · cases h
  split at h
  · cases h
  dsimp only at h
  split at h
  · cases h
  · rename_i hostPath hpath
    cases h
    exact ⟨by simpa using hinterp, hostPath, hpath, rfl⟩

theorem addLoadInfo_lists {start info' : LoadInfo w}
    {seen : List ProgramHeader} {p : ProgramHeader} (h : l.addLoadInfo file p info = .ok info')
    (hlists : l.Lists file start seen info) : l.Lists file start (seen ++ [p]) info' := by
  obtain ⟨hmappings, helf, hpath, hinterp, habsent, hfresh⟩ := hlists
  have hload_interp : ptLoad ≠ ptInterp := by decide
  unfold addLoadInfo at h
  split at h
  · -- a segment is added to the list
    rename_i hload
    cases h
    have hother : p.type ≠ ptInterp := by
      rw [hload]
      exact hload_interp
    refine ⟨⟨fun h => absurd h (l.addMapping_ne_nil _ _), fun h => ?_⟩, helf, hpath, ?_, ?_, hfresh⟩
    · exact absurd hload (h p (by simp))
    · rw [List.find?_append]
      simpa [hother] using hinterp
    · simpa [hother, or_imp, forall_and] using habsent
  rename_i hload
  split at h
  · -- the first interpreter
    rename_i htype
    obtain ⟨hnone, hostPath, hhost, rfl⟩ := l.addInterp_eq_ok h
    have hfind : seen.find? (fun p => decide (p.type = ptInterp)) = none := by
      rw [List.find?_eq_none]
      intro q hq
      simpa using habsent.mp hnone q hq
    refine ⟨?_, helf, hpath, ?_, ?_, ?_⟩
    · simpa [hload, or_imp, forall_and] using hmappings
    · rw [List.find?_append, hfind]
      simp [htype, hhost, LoadInfo.zero, Except.toOption]
    · simp [htype, or_imp, forall_and]
    · rintro interp ⟨⟩
      exact ⟨_, rfl⟩
  rename_i htype
  have hsame : ∀ info' : LoadInfo w, info'.mappings = info.mappings →
      info'.elfHeader = info.elfHeader → info'.hostPath = info.hostPath →
      info'.interp = info.interp → l.Lists file start (seen ++ [p]) info' := by
    intro info' hm he hh hi
    refine ⟨?_, he.trans helf, hh.trans hpath, ?_, ?_, ?_⟩
    · rw [hm]
      simpa [hload, or_imp, forall_and] using hmappings
    · rw [hi, List.find?_append]
      simpa [htype] using hinterp
    · rw [hi]
      simpa [htype, or_imp, forall_and] using habsent
    · rw [hi]
      exact hfresh
  split at h
  · cases h
    exact hsame _ rfl rfl rfl rfl
  · cases h
    exact hsame _ rfl rfl rfl rfl

structure Extracted (path : CString) (info : LoadInfo w) : Prop where
  hostPath : info.hostPath = path
  mappings : info.mappings ≠ [] ↔ l.HasSegment path
  dynamic : info.elfHeader.isPositionIndependent = true ↔ l.PositionIndependent path
  interp : info.interp.map (·.hostPath) = l.interpreter path
  fresh : ∀ interp ∈ info.interp, ∃ userPath, interp = .zero interp.hostPath userPath none

/-- **Extraction**: the list is empty if and only if no `PT_LOAD` is read. -/
theorem extractLoadInfo_extracted {path userPath : CString} {rawPath : Option CString}
    (h : l.extractLoadInfo (.zero path userPath rawPath) = .ok info) :
    l.Extracted path info := by
  unfold extractLoadInfo at h
  split at h
  · cases h
  rename_i file hfile
  split at h
  · cases h
  rename_i header hheader
  split at h
  · cases h
  have helf : l.elf path = some (file, header) := by
    have hopen : l.openFile path = .ok file := hfile
    rw [elf, hopen]
    dsimp only
    rw [hheader]
  have hlists := iterateProgramHeaders_invariant (l.Lists file
      { LoadInfo.zero path userPath rawPath with elfHeader := header })
    (fun _ _ _ _ h hinv => l.addLoadInfo_lists h hinv) h
    ⟨by simp [LoadInfo.zero], rfl, rfl, rfl, by simp [LoadInfo.zero], nofun⟩
  refine ⟨hlists.hostPath, ?_, ?_, ?_, hlists.fresh⟩
  · rw [ne_eq, hlists.mappings]
    simp [HasSegment, headers, helf]
  · rw [hlists.elfHeader]
    simp [PositionIndependent, helf]
  · rw [hlists.interp]
    simp [interpreter, helf]

theorem addLoadInfo_fault (file : File) (p : ProgramHeader) (info : LoadInfo w) :
    l.addLoadInfo file p info ≠ .error .outOfRange := by
  have hcheck : ∀ userPath, l.translateAndCheckExec userPath ≠ .error .outOfRange := by
    intro userPath
    unfold translateAndCheckExec
    grind
  unfold addLoadInfo addInterp
  split
  · nofun
  split
  · have h := hcheck (l.interpUserPath (interpName file.content p))
    grind
  · grind

theorem extractLoadInfo_fault (info : LoadInfo w) :
    l.extractLoadInfo info ≠ .error .outOfRange := by
  unfold extractLoadInfo
  split
  · nofun
  split
  · rename_i fault hfault
    intro h
    cases h
    unfold openElf at hfault
    grind
  split
  · nofun
  · exact iterateProgramHeaders_fault (l.addLoadInfo_fault _)

theorem extractAll_fault (info : LoadInfo w) : l.extractAll info ≠ .error .outOfRange := by
  unfold extractAll
  split
  · rename_i fault hfault
    rintro ⟨⟩
    exact l.extractLoadInfo_fault _ hfault
  split
  · nofun
  split
  · rename_i fault hfault
    rintro ⟨⟩
    exact l.extractLoadInfo_fault _ hfault
  · nofun

theorem extractAll_extracted {path userPath : CString} {rawPath : Option CString}
    (h : l.extractAll (.zero path userPath rawPath) = .ok info) :
    (info.mappings ≠ [] ↔ l.HasSegment path) ∧
      (info.elfHeader.isPositionIndependent = true ↔ l.PositionIndependent path) ∧
      info.interp.map (·.hostPath) = l.interpreter path ∧
      ∀ interp ∈ info.interp, (interp.mappings ≠ [] ↔ l.HasSegment interp.hostPath) ∧
        (interp.elfHeader.isPositionIndependent = true ↔
          l.PositionIndependent interp.hostPath) := by
  unfold extractAll at h
  split at h
  · cases h
  rename_i program hprogram
  have hextracted := l.extractLoadInfo_extracted hprogram
  split at h
  · rename_i hnone
    cases h
    refine ⟨hextracted.mappings, hextracted.dynamic, hextracted.interp, ?_⟩
    rw [hnone]
    nofun
  rename_i interp hsome
  split at h
  · cases h
  rename_i interp' hinterp
  obtain ⟨userPath', hzero⟩ := hextracted.fresh interp hsome
  rw [hzero] at hinterp
  have hextracted' := l.extractLoadInfo_extracted hinterp
  cases h
  have hpath := hextracted.interp
  rw [hsome] at hpath
  refine ⟨hextracted.mappings, hextracted.dynamic, ?_, ?_⟩
  · rw [← hpath]
    exact congrArg some hextracted'.hostPath
  · rintro _ ⟨⟩
    show (interp'.mappings ≠ [] ↔ l.HasSegment interp'.hostPath) ∧ _
    rw [hextracted'.hostPath]
    exact ⟨hextracted'.mappings, hextracted'.dynamic⟩

end Loading

/-! ## What is read -/

theorem element_eq_error {α : Type} {value : Option α} {fault : Fault}
    (h : element value = .error fault) : value = none ∧ fault = .outOfRange := by
  cases value with
  | none =>
      cases h
      exact ⟨rfl, rfl⟩
  | some a => cases h

theorem relocate_eq_error {loadBase : BitVec w} {fault : Fault}
    (h : relocate info loadBase = .error fault) :
    info.elfHeader.isPositionIndependent = true ∧ info.mappings = [] ∧ fault = .outOfRange := by
  unfold relocate at h
  split at h
  · rename_i hdynamic
    split at h
    · rename_i hfault
      cases h
      obtain ⟨hnone, rfl⟩ := element_eq_error hfault
      exact ⟨hdynamic, List.head?_eq_none_iff.mp hnone, rfl⟩
    · cases h
  · cases h

theorem relocate_eq_ok {info' : LoadInfo w} {loadBase : BitVec w}
    (h : relocate info loadBase = .ok info') :
    (info.elfHeader.isPositionIndependent = true → info.mappings ≠ []) ∧
      (info'.mappings = [] ↔ info.mappings = []) ∧ info'.interp = info.interp := by
  unfold relocate at h
  split at h
  · split at h
    · cases h
    · rename_i first hfirst
      have hne : info.mappings ≠ [] := by
        intro hnil
        rw [hnil] at hfirst
        cases hfirst
      cases h
      split
      · exact ⟨fun _ => hne, by simp [addLoadBase], rfl⟩
      · exact ⟨fun _ => hne, Iff.rfl, rfl⟩
  · rename_i hstatic
    cases h
    exact ⟨fun h => absurd h hstatic, Iff.rfl, rfl⟩

theorem computeLoadAddresses_cases (arch : Arch w) (info : LoadInfo w) :
    (computeLoadAddresses arch info = .error .outOfRange ∧
      (info.elfHeader.isPositionIndependent = true ∧ info.mappings = [] ∨
        ∃ interp ∈ info.interp,
          interp.elfHeader.isPositionIndependent = true ∧ interp.mappings = [])) ∨
    ∃ info', computeLoadAddresses arch info = .ok info' ∧
      (info'.mappings = [] ↔ info.mappings = []) ∧
      ∀ interp ∈ info.interp,
        interp.elfHeader.isPositionIndependent = true → interp.mappings ≠ [] := by
  unfold computeLoadAddresses
  split
  · rename_i fault hfault
    obtain ⟨hdynamic, hnil, rfl⟩ := relocate_eq_error hfault
    exact .inl ⟨rfl, .inl ⟨hdynamic, hnil⟩⟩
  rename_i moved hmoved
  obtain ⟨-, hmappings, hinterp⟩ := relocate_eq_ok hmoved
  split
  · rename_i hnone
    refine .inr ⟨moved, rfl, hmappings, ?_⟩
    rw [← hinterp, hnone]
    nofun
  rename_i interp hsome
  rw [← hinterp, hsome]
  split
  · rename_i fault hfault
    obtain ⟨hdynamic, hnil, rfl⟩ := relocate_eq_error hfault
    exact .inl ⟨rfl, .inr ⟨interp, rfl, hdynamic, hnil⟩⟩
  · rename_i moved' hmoved'
    refine .inr ⟨_, rfl, hmappings, ?_⟩
    rintro _ ⟨⟩
    exact (relocate_eq_ok hmoved').1

theorem transcriptMappings_size (mappings : List (Mapping w)) :
    ((transcriptMappings mappings).map LoadStatement.size).sum = 6 * mappings.length := by
  unfold transcriptMappings
  rw [List.map_map, List.map_congr_left (g := fun _ => 6)]
  · simp [Nat.mul_comm]
  · intro m _
    dsimp only [Function.comp_apply]
    split
    · rfl
    · rfl

theorem transferLoadScript_of_ne_nil (l : Loading w) (alignment : BitVec w) (traced : Bool)
    (stackPointer : BitVec w) (h : info.mappings ≠ []) :
    ∃ script, transferLoadScript l alignment traced stackPointer info = .ok script := by
  obtain ⟨first, rest, hmappings⟩ := List.exists_cons_of_ne_nil h
  have hfirst : element info.mappings.head? = .ok first := by
    rw [hmappings]
    rfl
  unfold transferLoadScript
  dsimp only
  rw [hfirst]
  dsimp only
  rw [if_neg]
  · exact ⟨_, rfl⟩
  · rw [not_not]
    have hprogram := transcriptMappings_size info.mappings
    cases hinterp : info.interp with
    | none =>
        simp only [Option.map_none, Option.getD_none, List.append_nil, List.map_append,
          List.map_cons, List.sum_append, List.sum_cons, hprogram]
        split
        · simp [LoadStatement.size]
        · simp [LoadStatement.size]
    | some interp =>
        have hinterp := transcriptMappings_size interp.mappings
        simp only [Option.map_some, Option.getD_some, List.map_append,
          List.map_cons, List.sum_append, List.sum_cons, hprogram, hinterp]
        split
        · simp [LoadStatement.size]
        · simp [LoadStatement.size]

theorem transferLoadScript_of_nil (l : Loading w) (alignment : BitVec w) (traced : Bool)
    (stackPointer : BitVec w) (h : info.mappings = []) :
    transferLoadScript l alignment traced stackPointer info = .error .outOfRange := by
  unfold transferLoadScript
  dsimp only
  rw [h]
  rfl

theorem translateBrkEnter_of_ne_nil (h : info.mappings ≠ [])
    (host : Syscall.Host w) (heapOffset : BitVec w) (heap : Syscall.Heap w)
    (regs : Syscall.BrkRegs w) :
    ∃ entered, translateBrkEnter info host heapOffset heap regs = .ok entered := by
  unfold translateBrkEnter
  split
  · rw [List.getLast?_eq_some_getLast h]
    exact ⟨_, rfl⟩
  · exact ⟨_, rfl⟩

/-! ## Every accepted executable -/

/-- An executable is loaded without reading what is not there: the execve(2) fails with an error, or
the script of the loader can be written and the heap can be placed, however the tracee calls
brk(2). -/
def LoadsSafely (l : Loading w) (hostPath userPath : CString) (rawPath : Option CString) : Prop :=
  match translateExecveEnter l hostPath userPath rawPath with
  | .error fault => fault ≠ .outOfRange
  | .ok info =>
    (∀ alignment traced stackPointer,
      ∃ script, transferLoadScript l alignment traced stackPointer info = .ok script) ∧
    ∀ host heapOffset heap regs,
      ∃ entered, translateBrkEnter info host heapOffset heap regs = .ok entered

/-- `extract_load_info` accepts the program and its interpreter. -/
def Loading.Accepts (l : Loading w) (hostPath userPath : CString) (rawPath : Option CString) :
    Prop :=
  ∃ info, l.extractAll (.zero hostPath userPath rawPath) = .ok info

/-- **An accepted executable is loaded safely** if and only if the lists that are read have
elements. -/
theorem loadsSafely_iff (l : Loading w) (hostPath userPath : CString) (rawPath : Option CString) :
    LoadsSafely l hostPath userPath rawPath ↔
      (l.Accepts hostPath userPath rawPath → l.Filled hostPath) := by
  unfold LoadsSafely Loading.Accepts translateExecveEnter
  cases hall : l.extractAll (.zero hostPath userPath rawPath) with
  | error fault =>
      have hfault : fault ≠ .outOfRange := by
        rintro rfl
        exact l.extractAll_fault _ hall
      simp [hfault]
  | ok info =>
      obtain ⟨hmappings, hdynamic, hinterp, hlists⟩ := l.extractAll_extracted hall
      have hfilled : l.Filled hostPath ↔ info.mappings ≠ [] ∧ ∀ interp ∈ info.interp,
          interp.elfHeader.isPositionIndependent = true → interp.mappings ≠ [] := by
        unfold Loading.Filled
        rw [← hmappings, ← hinterp]
        refine and_congr_right fun _ => ⟨fun h interp hsome hpic => ?_, ?_⟩
        · obtain ⟨hsegment, hpic'⟩ := hlists interp hsome
          rw [Option.mem_def] at hsome
          exact hsegment.mpr (h _ (by rw [hsome]; rfl) (hpic'.mp hpic))
        · intro h path hpath hpic
          obtain ⟨interp, hsome, rfl⟩ := Option.mem_map.mp hpath
          obtain ⟨hsegment, hpic'⟩ := hlists interp hsome
          exact hsegment.mp (h interp hsome (hpic'.mpr hpic))
      dsimp only
      rw [hfilled]
      rcases computeLoadAddresses_cases l.arch info with
        ⟨hfault, hempty⟩ | ⟨info', hok, hsame, hread⟩
      · rw [hfault]
        constructor
        · intro h
          exact absurd rfl h
        · intro h
          obtain ⟨hne, hread⟩ := h ⟨info, rfl⟩
          rcases hempty with ⟨-, hnil⟩ | ⟨interp, hsome, hpic, hnil⟩
          · exact absurd hnil hne
          · exact absurd hnil (hread interp hsome hpic)
      · rw [hok]
        dsimp only
        constructor
        · rintro ⟨hscript, -⟩ -
          refine ⟨fun hnil => ?_, hread⟩
          obtain ⟨script, h⟩ := hscript 1 false 0
          rw [transferLoadScript_of_nil l _ _ _ (hsame.mpr hnil)] at h
          cases h
        · intro h
          have hne : info'.mappings ≠ [] := fun hnil => (h ⟨info, rfl⟩).1 (hsame.mp hnil)
          exact ⟨fun _ _ _ => transferLoadScript_of_ne_nil l _ _ _ hne,
            translateBrkEnter_of_ne_nil hne⟩

def headerOnly : Lib.Bytes :=
  [0x7f, 0x45, 0x4c, 0x46, 2, 1, 1, 0, 0, 0, 0, 0, 0, 0, 0, 0, 3, 0, 62, 0, 1, 0, 0, 0] ++
    List.replicate 8 0 ++ [64, 0, 0, 0, 0, 0, 0, 0] ++ List.replicate 12 0 ++
    [64, 0, 56, 0, 0, 0, 0, 0, 0, 0, 0, 0]

def Loading.headerOnly : Loading 64 where
  arch := ⟨0x500000000000, 0x6f0000000000, some 0x0f000000, some 0xaf000000⟩
  host := ⟨0x1000, false⟩
  world :=
    { tracee := ⟨1, .empty, ['/'], none, none, []⟩
      host :=
        { lstat := fun _ => .ok .reg, readlink := fun _ => .error .einval,
          fdPath := fun _ => .error .ebadf, skipped := fun _ => false,
          make := fun _ _ => .error .eacces, tempDirectory := none, dontPollute := true,
          getTracee := fun _ => none } }
  openFile _ := .ok ⟨Execve.headerOnly, 2 ^ 43⟩
  exists? _ := true
  executable _ := true
  lstat _ := true
  qemu := false
  errno _ := none

/-- It is accepted, and the address of its first mapping is read. -/
theorem translateExecveEnter_reads_nothing :
    ¬ ∀ (l : Loading 64) (hostPath userPath : CString) (rawPath : Option CString),
      LoadsSafely l hostPath userPath rawPath := by
  intro h
  have hempty := h .headerOnly "/bin/empty".toList "/bin/empty".toList none
  have hheader : openElf headerOnly = .ok ⟨true, 3, 0, 64, 56, 0⟩ := by decide +kernel
  have hextract : Loading.headerOnly.extractAll
      (.zero "/bin/empty".toList "/bin/empty".toList none) =
        .ok { LoadInfo.zero "/bin/empty".toList "/bin/empty".toList none with
          elfHeader := ⟨true, 3, 0, 64, 56, 0⟩ } := by
    have hopen : ∀ path, Loading.headerOnly.openFile path = .ok ⟨headerOnly, 2 ^ 43⟩ := fun _ => rfl
    unfold Loading.extractAll Loading.extractLoadInfo
    rw [hopen]
    dsimp only
    rw [hheader]
    rfl
  unfold LoadsSafely translateExecveEnter at hempty
  rw [hextract] at hempty
  exact hempty rfl

end Improot.Execve
