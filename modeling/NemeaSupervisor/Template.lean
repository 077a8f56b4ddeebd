import Mathlib.Algebra.Order.BigOperators.Group.List
import NemeaSupervisor.Inclusion
import NemeaSupervisor.RequestFraming

/-!
# The configuration template

`generate_config_file` copies the lines of the template and puts included files in the
place of the directives. A store outside the buffers ends the run, and so does printing a
buffer that has never been allocated; for such a run there is no result.
-/

namespace NemeaSupervisor

open CText

/-! ## The lines of the template -/

/-- The lines that `getline` returns, each with its terminator if it has one. -/
def templateLines : List Char → List (List Char)
  | [] => []
  | c :: text =>
    if c = '\n' then [c] :: templateLines text
    else
      match templateLines text with
      | [] => [[c]]
      | line :: lines => (c :: line) :: lines

/-- `sscanf(s, "<!-- include %s -->", incl_path) == 1`, with the path stored. A blank of the format
matches any white space, or none, and what follows the path decides nothing. -/
def scanInclude (s : List Char) : Option (List Char) :=
  if "<!--".toList <+: s then
    let s := (s.drop 4).dropWhile isspace
    if "include".toList <+: s then
      let path := ((s.drop 7).dropWhile isspace).takeWhile fun c => isspace c = false
      if path = [] then none else some path
    else none
  else none

/-- The path that a line is taken to include. -/
def includePath (line : List Char) : Option (List Char) :=
  scanInclude (cString (line.dropWhile fun c => c = ' '))

/-- `sprintf` stores the line up to a null byte, and the whole length counts. -/
def appendLine (buffer : GenBuffer) (line : List Char) : Option GenBuffer :=
  (checkBufferSpace (line.length % 4294967296) buffer).bind fun buffer =>
    (buffer.store (cString line) ['\x00']).map fun stored =>
      { stored with memUsed := (buffer.memUsed + line.length) % 4294967296 }

/-- The loop over the lines, with the return code. A length is an `int` here, of which −1 means
that there is no line; the number of leading blanks is an `int` as well. -/
def generateLines (before : List Char → List Char) (fs : FileSystem) :
    List (List Char) → GenBuffer → Option (Int × GenBuffer)
  | [], generCont => some (0, generCont)
  | line :: lines, generCont =>
    if line.length % 4294967296 = 4294967295 then some (0, generCont)
    else if 2147483648 ≤ (line.takeWhile fun c => c = ' ').length then none
    else
      match includePath line with
      | some inclPath =>
        if pathMax ≤ inclPath.length then none
        else
          (includeItem before fs inclPath generCont).bind fun r =>
            if r.status then generateLines before fs lines r.buffer else some (-1, r.buffer)
      | none => (appendLine generCont line).bind (generateLines before fs lines)

/-- `fprintf` with `"%s"`, which does not take NULL. -/
def printMem (buffer : GenBuffer) : Option (List Char) := buffer.mem.map cString

/-- `generate_config_file` for a template that opens or not, with the content that is left in the
generated file if this one opens. -/
def generateConfigFile (before : List Char → List Char) (fs : FileSystem)
    (templFd : Option (List Char)) (generFd : Bool) : Option (Int × Option (List Char)) :=
  match templFd with
  | none => some (-1, none)
  | some template =>
    if generFd then
      (generateLines before fs (templateLines template) .init).bind fun (returnCode, generCont) =>
        if returnCode = 0 then (printMem generCont).map fun text => (returnCode, some text)
        else some (returnCode, some [])
    else some (-1, none)

/-! ## What the document is to be -/

/-- A line that is an include directive behind blanks and nothing else. -/
def Directive (path line : List Char) : Prop :=
  path ≠ [] ∧ (∀ c ∈ path, isspace c = false) ∧ ∃ blanks, ∃ ending ∈ [[], ['\n']],
    line = List.replicate blanks ' ' ++
      ("<!-- include ".toList ++ (path ++ (" -->".toList ++ ending)))

/-- What a line becomes: the text that is appended for its path, or the line itself. -/
def Expands (before : List Char → List Char) (fs : FileSystem) (line piece : List Char) : Prop :=
  (∃ path, Directive path line ∧ Appends before fs path piece) ∨
    (¬ ∃ path, Directive path line) ∧ piece = line

def ExpandsTemplate (before : List Char → List Char) (fs : FileSystem)
    (template document : List Char) : Prop :=
  ∃ pieces, List.Forall₂ (Expands before fs) (templateLines template) pieces ∧
    document = pieces.flatten

def NulFree (fs : FileSystem) : Prop := ∀ path st, fs path = some st → '\x00' ∉ st.content

/-- Whatever the files are, a document is what the template is to become. -/
def AlwaysExpands (template : List Char) : Prop :=
  ∀ before fs generFd document, NulFree fs →
    generateConfigFile before fs (some template) generFd = some (0, some document) →
    ExpandsTemplate before fs template document

/-- The lines up to one whose length is taken for the end. -/
def readLines (template : List Char) : List (List Char) :=
  (templateLines template).takeWhile fun line => line.length % 4294967296 ≠ 4294967295

/-- No file can be appended for this path: it does not end in `.sup`, and with the name of an entry
it is too long. -/
def Unusable (path : List Char) : Prop := pathMax ≤ path.length + 1 ∧ ¬ supSuffix <:+ path

/-- The template has a path that is too long for its buffer. Otherwise it is read to its end, and
every line that is taken for a directive is one and nothing else, unless nothing can come into the
buffer. -/
def TemplateFine (template : List Char) : Prop :=
  (∃ line ∈ readLines template, ∃ path ∈ includePath line, pathMax ≤ path.length) ∨
    readLines template = templateLines template ∧
      ((∀ line ∈ templateLines template, ∀ path ∈ includePath line, Directive path line) ∨
        ∀ line ∈ templateLines template, ∃ path ∈ includePath line, Unusable path)

section template

variable {before : List Char → List Char} {fs : FileSystem} {template line path piece : List Char}
  {lines pieces : List (List Char)} {buffer buffer' : GenBuffer} {content document : List Char}

@[simp] theorem templateLines_flatten : (templateLines template).flatten = template := by
  induction template with
  | nil => rfl
  | cons c text ih =>
    rw [templateLines]
    split
    · rw [List.flatten_cons, ih, List.singleton_append]
    · split
      next hlines =>
        rw [hlines, List.flatten_nil] at ih
        rw [← ih]
        rfl
      next line lines hlines =>
        rw [hlines] at ih
        rw [← ih]
        rfl

theorem mem_of_mem_line {c : Char} (hline : line ∈ templateLines template) (hc : c ∈ line) :
    c ∈ template := by
  rw [← @templateLines_flatten template]
  exact List.mem_flatten_of_mem hline hc

/-! ## Directives -/

theorem isspace_blank : isspace ' ' = true := by decide

/-- A directive is scanned as one, with its path. -/
theorem includePath_directive (h : Directive path line) (hnul : '\x00' ∉ line) :
    includePath line = some path := by
  obtain ⟨hne, hpath, blanks, ending, -, rfl⟩ := h
  have hblanks : (List.replicate blanks ' ' ++ ("<!-- include ".toList ++
      (path ++ (" -->".toList ++ ending)))).dropWhile (fun c => c = ' ') =
      "<!-- include ".toList ++ (path ++ (" -->".toList ++ ending)) := by
    rw [List.dropWhile_append_of_pos]
    · rfl
    · intro c hc
      rw [List.eq_of_mem_replicate hc]
      rfl
  have hword :
      (path ++ (" -->".toList ++ ending)).takeWhile (fun c => isspace c = false) = path := by
    rw [List.takeWhile_append_of_pos fun c hc => decide_eq_true (hpath c hc)]
    rw [show " -->".toList ++ ending = ' ' :: ("-->".toList ++ ending) from rfl,
      List.takeWhile_cons_of_neg (by decide), List.append_nil]
  have hskip : ∀ rest, (' ' :: (path ++ rest)).dropWhile isspace = path ++ rest := by
    intro rest
    obtain ⟨c, path, rfl⟩ := List.exists_cons_of_ne_nil hne
    rw [List.dropWhile_cons_of_pos isspace_blank, List.cons_append, List.dropWhile_cons_of_neg]
    rw [hpath c List.mem_cons_self]
    decide
  rw [includePath, hblanks, cString_of_no_null fun hc => hnul (List.mem_append_right _ hc),
    scanInclude, if_pos ⟨" include ".toList ++ (path ++ (" -->".toList ++ ending)), rfl⟩]
  have hinclude : (("<!-- include ".toList ++ (path ++ (" -->".toList ++ ending))).drop 4).dropWhile
      isspace = "include".toList ++ (' ' :: (path ++ (" -->".toList ++ ending))) := rfl
  simp only
  rw [hinclude, if_pos (List.prefix_append _ _)]
  have hdrop : ("include".toList ++ (' ' :: (path ++ (" -->".toList ++ ending)))).drop 7 =
      ' ' :: (path ++ (" -->".toList ++ ending)) := rfl
  rw [hdrop, hskip, hword, if_neg hne]

/-- A line that is scanned as a directive has an opening bracket. -/
theorem bracket_mem_of_includePath (h : includePath line = some path) : '<' ∈ line := by
  rw [includePath, scanInclude] at h
  split at h
  next hstarts =>
    have hmem := hstarts.subset (show '<' ∈ "<!--".toList by decide)
    exact (List.dropWhile_suffix _).subset ((List.takeWhile_prefix _).subset hmem)
  · cases h

/-! ## The buffer -/

theorem appendLine_eq (hnul : '\x00' ∉ line) :
    appendLine buffer line = buffer.append line ['\x00'] := by
  rw [appendLine, GenBuffer.append, cString_of_no_null hnul]
  congr 1
  funext checked
  rw [GenBuffer.store]
  split
  · rfl
  · simp only
    split
    · rfl
    · rfl

/-- What is printed is the text in the buffer. -/
theorem printMem_holds (h : Holds buffer content) (hprint : printMem buffer = some document)
    (hnul : '\x00' ∉ content) : document = content := by
  rcases h.mem with ⟨hnone, -⟩ | ⟨hroom, hsome⟩
  · rw [printMem, hnone] at hprint
    cases hprint
  · obtain ⟨k, hk⟩ := Nat.exists_eq_add_of_lt hroom
    have hzeros : buffer.memSize - content.length = k + 1 := by omega
    rw [printMem, hsome, hzeros, Option.map_some, Option.some_inj] at hprint
    rw [← hprint, cString, List.takeWhile_append_of_pos, List.replicate_succ,
      List.takeWhile_cons_of_neg, List.append_nil]
    · decide
    · intro c hc
      exact decide_eq_true fun heq => hnul (heq ▸ hc)

/-! ## The run -/

/-- A copied line is not a directive. -/
theorem expands_copied (hnul : '\x00' ∉ line) (h : includePath line = none) :
    Expands before fs line line := by
  refine .inr ⟨?_, rfl⟩
  rintro ⟨path, hdirective⟩
  rw [includePath_directive hdirective hnul] at h
  cases h

/-- What the loop does with a line before it goes on to the end. -/
theorem generateLines_cons (hread : line.length % 4294967296 ≠ 4294967295)
    (hrun : generateLines before fs (line :: lines) buffer = some (0, buffer')) :
    (∃ path r, includePath line = some path ∧ path.length < pathMax ∧
      includeItem before fs path buffer = some r ∧ r.status = true ∧
        generateLines before fs lines r.buffer = some (0, buffer')) ∨
    includePath line = none ∧ ∃ buffer₁, appendLine buffer line = some buffer₁ ∧
      generateLines before fs lines buffer₁ = some (0, buffer') := by
  rw [generateLines, if_neg hread] at hrun
  split at hrun
  · cases hrun
  split at hrun
  next path hpath =>
    split at hrun
    · cases hrun
    next hshort =>
      obtain ⟨r, hitem, hrest⟩ := Option.bind_eq_some_iff.mp hrun
      split at hrest
      next hstatus => exact .inl ⟨path, r, hpath, Nat.lt_of_not_le hshort, hitem, hstatus, hrest⟩
      next => cases hrest
  next hcopied => exact .inr ⟨hcopied, Option.bind_eq_some_iff.mp hrun⟩

/-- No null byte comes from the files. -/
theorem null_not_mem_itemText (hfs : NulFree fs) : '\x00' ∉ itemText before fs path := by
  intro hc
  obtain ⟨path, st, hst, hc⟩ := itemText_mem hc
  rw [FileSystem.stat] at hst
  split at hst
  · cases hst
  · exact hfs path st hst hc

/-- The loop over lines of which all that are scanned as directives are directives. -/
theorem generateLines_expands (hfs : NulFree fs) (hnul : ∀ line ∈ lines, '\x00' ∉ line)
    (hread : ∀ line ∈ lines, line.length % 4294967296 ≠ 4294967295)
    (hdirective : ∀ line ∈ lines, ∀ path ∈ includePath line, Directive path line)
    (hbuffer : Holds buffer content)
    (hrun : generateLines before fs lines buffer = some (0, buffer')) :
    ∃ pieces, List.Forall₂ (Expands before fs) lines pieces ∧
      Holds buffer' (content ++ pieces.flatten) ∧ '\x00' ∉ pieces.flatten := by
  induction lines generalizing buffer content with
  | nil =>
    simp only [generateLines, Option.some.injEq, Prod.mk.injEq, true_and] at hrun
    subst hrun
    refine ⟨[], .nil, ?_, by simp⟩
    rw [List.flatten_nil, List.append_nil]
    exact hbuffer
  | cons line lines ih =>
    rw [List.forall_mem_cons] at hnul hread hdirective
    rcases generateLines_cons hread.1 hrun with
      ⟨path, r, hpath, -, hitem, hstatus, hrest⟩ | ⟨hcopied, buffer₁, happend, hrest⟩
    · obtain ⟨hholds, -⟩ := includeItem_text hbuffer hitem hstatus
      obtain ⟨pieces, hpieces, hholds', hnul'⟩ := ih hnul.2 hread.2 hdirective.2 hholds hrest
      refine ⟨itemText before fs path :: pieces, .cons (.inl ⟨path, hdirective.1 path hpath,
        buffer, content, r, hbuffer, hitem, hstatus, hholds⟩) hpieces, ?_, ?_⟩
      · rw [List.flatten_cons, ← List.append_assoc]
        exact hholds'
      · rw [List.flatten_cons, List.mem_append, not_or]
        exact ⟨null_not_mem_itemText hfs, hnul'⟩
    · rw [appendLine_eq hnul.1] at happend
      obtain ⟨hholds, -⟩ := append_holds hbuffer ⟨1, rfl⟩ happend
      obtain ⟨pieces, hpieces, hholds', hnul'⟩ := ih hnul.2 hread.2 hdirective.2 hholds hrest
      refine ⟨line :: pieces, .cons (expands_copied hnul.1 hcopied) hpieces, ?_, ?_⟩
      · rw [List.flatten_cons, ← List.append_assoc]
        exact hholds'
      · rw [List.flatten_cons, List.mem_append, not_or]
        exact ⟨hnul.1, hnul'⟩

/-- For a path that no entry fits behind the directory has nothing to append. -/
theorem includeEntries_unusable {r r' : Inclusion} {entries : List (List Char)}
    (hpath : path.length + 1 = pathMax) (hregular : checkFileTypePerm fs path .regular ≠ true)
    (hentries : includeEntries before fs path entries r = some r') : r' = r := by
  have hsame : ∀ name, dirEntryPath path name = path := by
    intro name
    have hlength : pathMax - 1 = path.length := by omega
    rw [dirEntryPath, joinPath, hlength]
    split
    · exact List.take_left' rfl
    · exact List.take_left' rfl
  induction entries with
  | nil => exact (Option.some.inj hentries).symm
  | cons name entries ih =>
    have hentry : includeEntry before fs path name r = some r := by
      rw [includeEntry, hsame name, if_neg hregular, ite_self]
    rw [includeEntries, hentry, Option.bind_some] at hentries
    split at hentries
    · exact ih hentries
    · exact (Option.some.inj hentries).symm

theorem includeItem_unusable {r : Inclusion} (h : Unusable path)
    (hitem : includeItem before fs path buffer = some r) : r.buffer = buffer := by
  by_cases hregular : checkFileTypePerm fs path .regular = true
  · rw [includeItem_of_regular hregular] at hitem
    have hlength : supSuffix.length ≤ path.length := by
      have hlong := h.1
      have hmax : pathMax = 4096 := rfl
      have hsup : supSuffix.length = 4 := rfl
      omega
    obtain ⟨-, hcase⟩ := includeFile_eq hlength hitem
    rw [if_neg h.2] at hcase
    exact hcase.1
  · rw [includeItem_of_not_regular hregular] at hitem
    split at hitem
    next hdir =>
      have hshort : path.length < pathMax := by
        by_contra hlong
        rw [checkFileTypePerm, stat_of_long (Nat.le_of_not_lt hlong)] at hdir
        cases hdir.1
      have hlong := h.1
      rw [includeEntries_unusable (by omega) hregular hitem]
      rfl
    · rw [← Option.some.inj hitem]
      rfl

/-- Where no file can be appended the buffer stays as it is. -/
theorem generateLines_unusable (hread : ∀ line ∈ lines, line.length % 4294967296 ≠ 4294967295)
    (hlines : ∀ line ∈ lines, ∃ path ∈ includePath line, Unusable path)
    (hrun : generateLines before fs lines buffer = some (0, buffer')) : buffer' = buffer := by
  induction lines generalizing buffer with
  | nil =>
    simp only [generateLines, Option.some.injEq, Prod.mk.injEq, true_and] at hrun
    exact hrun.symm
  | cons line lines ih =>
    rw [List.forall_mem_cons] at hread hlines
    obtain ⟨path, hpath, hunusable⟩ := hlines.1
    rcases generateLines_cons hread.1 hrun with
      ⟨path', r, hpath', -, hitem, -, hrest⟩ | ⟨hcopied, -⟩
    · obtain rfl := Option.some.inj (hpath.symm.trans hpath')
      rw [ih hread.2 hlines.2 hrest, includeItem_unusable hunusable hitem]
    · rw [hcopied] at hpath
      cases hpath

/-- A path that is too long for its buffer keeps the loop from its end. -/
theorem generateLines_overlong (hline : line ∈ lines.takeWhile fun line =>
      line.length % 4294967296 ≠ 4294967295) (hpath : includePath line = some path)
    (hlong : pathMax ≤ path.length) :
    generateLines before fs lines buffer ≠ some (0, buffer') := by
  induction lines generalizing buffer with
  | nil => cases hline
  | cons line' lines ih =>
    intro hrun
    by_cases hread : line'.length % 4294967296 ≠ 4294967295
    swap
    · rw [List.takeWhile_cons_of_neg (by simpa using hread)] at hline
      cases hline
    rw [List.takeWhile_cons_of_pos (p := fun line : List Char =>
      decide (line.length % 4294967296 ≠ 4294967295)) (decide_eq_true hread)] at hline
    rcases List.mem_cons.mp hline with rfl | hline
    · rcases generateLines_cons hread hrun with ⟨path', _, hpath', hshort, -⟩ | ⟨hcopied, -⟩
      · rw [hpath] at hpath'
        rw [Option.some.inj hpath'] at hlong
        exact Nat.not_lt.mpr hlong hshort
      · rw [hpath] at hcopied
        cases hcopied
    · rcases generateLines_cons hread hrun with ⟨_, _, -, -, -, -, hrest⟩ | ⟨-, _, -, hrest⟩
      · exact ih hline hrest
      · exact ih hline hrest

/-! ## Empty files -/

/-- A name that ends in the suffix. -/
def entryName : List Char := "x.sup".toList

/-- One path is an empty file, and every other path is a directory with one entry. -/
def emptyFile (file : List Char) : FileSystem := fun path =>
  some ⟨if path = file then .regular else .directory, true, true, [], [entryName]⟩

/-- The file is included for this path. -/
def IncludedFor (file path : List Char) : Prop :=
  path = file ∧ supSuffix <:+ path ∨ path ≠ file ∧ dirEntryPath path entryName = file

/-- The lines that are not taken for directives. -/
def copiedLines (lines : List (List Char)) : List (List Char) :=
  lines.filter fun line => includePath line = none

theorem nulFree_emptyFile (file : List Char) : NulFree (emptyFile file) := by
  rintro path st hst hnul
  rw [← Option.some.inj hst] at hnul
  cases hnul

theorem includePath_ne_nil (h : includePath line = some path) : path ≠ [] := by
  rw [includePath, scanInclude] at h
  simp only at h
  split_ifs at h with _ _ hne
  rw [← Option.some.inj h]
  exact hne

section emptyFile

variable {file name : List Char} {r : Inclusion}

theorem stat_emptyFile (hne : path ≠ []) (hshort : path.length < pathMax) :
    (emptyFile file).stat path =
      some ⟨if path = file then .regular else .directory, true, true, [], [entryName]⟩ := by
  rw [FileSystem.stat, if_neg (by simp [hne, hshort])]
  rfl

theorem opens_emptyFile (hne : path ≠ []) (hshort : path.length < pathMax) :
    Opens (emptyFile file) path := ⟨_, stat_emptyFile hne hshort, rfl⟩

theorem regular_emptyFile (hne : path ≠ []) (hshort : path.length < pathMax) :
    checkFileTypePerm (emptyFile file) path .regular = true ↔ path = file := by
  rw [checkFileTypePerm, stat_emptyFile hne hshort]
  by_cases hfile : path = file
  · simp [hfile]
  · simp [hfile]

theorem itemText_emptyFile : itemText before (emptyFile file) path = [] := by
  refine List.eq_nil_iff_forall_not_mem.mpr fun c hc => ?_
  obtain ⟨path, st, hst, hc⟩ := itemText_mem hc
  rw [FileSystem.stat] at hst
  split at hst
  · cases hst
  · rw [← Option.some.inj hst] at hc
    cases hc

/-- A file that opens is no reason to stop, and one that is appended makes the buffer. -/
theorem includeFile_opened (hbuffer : Holds r.buffer content) (hopens : Opens fs path)
    (hsmall : content.length + (fileContent fs path).length < 1073740000) :
    ∃ r', includeFile before fs path name r = some r' ∧ r'.status = r.status ∧
      (strsuffixis (before name) name supSuffix = true → r'.buffer.mem.isSome = true) := by
  rw [includeFile]
  simp only
  by_cases hsup : strsuffixis (before name) name supSuffix = true
  · obtain ⟨buffer', happend⟩ := append_isSome hbuffer (show [].length ≤ 1 by decide) hsmall
    rw [if_pos hsup, appendFileContent_opens hopens, happend]
    exact ⟨_, rfl, rfl, fun _ => (append_holds hbuffer ⟨0, rfl⟩ happend).2⟩
  · rw [if_neg hsup]
    exact ⟨_, rfl, rfl, fun h => absurd h hsup⟩

theorem fileContent_emptyFile : (fileContent (emptyFile file) path).length = 0 := by
  rw [fileContent, FileSystem.stat]
  split
  · rfl
  · rfl

theorem dirEntryPath_ne_nil (itemPath : List Char) : dirEntryPath itemPath entryName ≠ [] := by
  have hlength : 0 < (joinPath itemPath entryName).length := by
    rw [joinPath]
    split
    · rw [List.length_append]
      exact Nat.lt_of_lt_of_le (by decide) (Nat.le_add_left entryName.length _)
    · rw [List.length_append, List.length_cons]
      omega
  refine List.ne_nil_of_length_pos ?_
  rw [dirEntryPath, List.length_take]
  exact Nat.lt_min.mpr ⟨by decide, hlength⟩

/-- Whatever path is included, the run goes on, and the one file makes the buffer. -/
theorem includeItem_emptyFile (hne : path ≠ []) (hshort : path.length < pathMax)
    (hbuffer : Holds buffer content) (hsmall : content.length < 1073740000) :
    ∃ r, includeItem before (emptyFile file) path buffer = some r ∧ r.status = true ∧
      (IncludedFor file path → r.buffer.mem.isSome = true) := by
  have hstart : Holds (Inclusion.start buffer).buffer content := hbuffer
  have hfits : ∀ path, content.length + (fileContent (emptyFile file) path).length <
      1073740000 := by
    intro path
    rw [fileContent_emptyFile]
    exact hsmall
  by_cases hfile : path = file
  · rw [includeItem_of_regular ((regular_emptyFile hne hshort).mpr hfile)]
    obtain ⟨r, hr, hstatus, hsome⟩ :=
      @includeFile_opened before _ _ _ path _ hstart (opens_emptyFile hne hshort) (hfits path)
    refine ⟨r, hr, hstatus, ?_⟩
    rintro (⟨-, hsup⟩ | ⟨hother, -⟩)
    · exact hsome ((strsuffixis_iff _ hsup.length_le).mpr hsup)
    · exact absurd hfile hother
  · have hregular := mt (@regular_emptyFile _ file hne hshort).mp hfile
    have hdir : checkFileTypePerm (emptyFile file) path .directory = true := by
      rw [checkFileTypePerm, stat_emptyFile hne hshort]
      simp [hfile]
    have hentries : dirEntries (emptyFile file) path = [entryName] := by
      rw [dirEntries, stat_emptyFile hne hshort]
      rfl
    have hentryShort : (dirEntryPath path entryName).length < pathMax := by
      rw [dirEntryPath, List.length_take]
      exact Nat.lt_of_le_of_lt (Nat.min_le_left _ _) (by decide)
    rw [includeItem_of_not_regular hregular, if_pos ⟨hdir, opens_emptyFile hne hshort⟩, hentries,
      includeEntries, includeEntry, if_neg (by decide)]
    by_cases hentry : dirEntryPath path entryName = file
    · rw [if_pos ((regular_emptyFile (dirEntryPath_ne_nil path) hentryShort).mpr hentry)]
      obtain ⟨r, hr, hstatus, hsome⟩ := @includeFile_opened before _ _ _ entryName _ hstart
        (opens_emptyFile (dirEntryPath_ne_nil path) hentryShort) (hfits _)
      refine ⟨r, ?_, hstatus, fun _ => hsome ((strsuffixis_iff _ (by decide)).mpr (by decide))⟩
      rw [hr, Option.bind_some, includeEntries, ite_self]
    · rw [if_neg (mt (regular_emptyFile (dirEntryPath_ne_nil path) hentryShort).mp hentry)]
      refine ⟨_, rfl, rfl, ?_⟩
      rintro (⟨hsame, -⟩ | ⟨-, hreached⟩)
      · exact absurd hsame hfile
      · exact absurd hreached hentry

/-- A small template is read to its end, and its copied lines make up the document. -/
theorem generateLines_emptyFile (hnul : ∀ line ∈ lines, '\x00' ∉ line)
    (hshort : ∀ line ∈ lines, ∀ path ∈ includePath line, path.length < pathMax)
    (hbuffer : Holds buffer content)
    (hsmall : content.length + lines.flatten.length < 1073740000) :
    ∃ buffer', generateLines before (emptyFile file) lines buffer = some (0, buffer') ∧
      Holds buffer' (content ++ (copiedLines lines).flatten) ∧
      ((buffer.mem.isSome = true ∨ ∃ line ∈ lines, includePath line = none ∨
        ∃ path ∈ includePath line, IncludedFor file path) → buffer'.mem.isSome = true) := by
  induction lines generalizing buffer content with
  | nil =>
    refine ⟨buffer, rfl, ?_, by simp⟩
    rw [copiedLines, List.filter_nil, List.flatten_nil, List.append_nil]
    exact hbuffer
  | cons line lines ih =>
    rw [List.forall_mem_cons] at hnul hshort
    rw [List.flatten_cons, List.length_append] at hsmall
    have hblanks : (line.takeWhile fun c => c = ' ').length ≤ line.length :=
      (List.takeWhile_prefix _).length_le
    rw [generateLines, if_neg (by omega), if_neg (by omega)]
    cases hpath : includePath line with
    | some path =>
      have hfits := hshort.1 path hpath
      simp only [if_neg (Nat.not_le.mpr hfits)]
      obtain ⟨r, hitem, hstatus, hreached⟩ := @includeItem_emptyFile before _ _ _ file
        (includePath_ne_nil hpath) hfits hbuffer (by omega)
      obtain ⟨hholds₁, hkept⟩ := includeItem_text hbuffer hitem hstatus
      rw [itemText_emptyFile, List.append_nil] at hholds₁
      obtain ⟨buffer', hrun, hholds, hsome⟩ := ih hnul.2 hshort.2 hholds₁ (by omega)
      rw [hitem, Option.bind_some, if_pos hstatus]
      refine ⟨buffer', hrun, ?_, ?_⟩
      · rw [copiedLines, List.filter_cons_of_neg (by simp [hpath])]
        exact hholds
      · rintro (hmem | ⟨line', hline', hfills⟩)
        · exact hsome (.inl (hkept hmem))
        · rcases List.mem_cons.mp hline' with rfl | hline'
          · rcases hfills with hcopied | ⟨path', hpath', hincluded⟩
            · rw [hpath] at hcopied
              cases hcopied
            · obtain rfl := Option.some.inj (hpath.symm.trans hpath')
              exact hsome (.inl (hreached hincluded))
          · exact hsome (.inr ⟨line', hline', hfills⟩)
    | none =>
      simp only
      obtain ⟨buffer₁, happend⟩ :=
        append_isSome hbuffer (show ['\x00'].length ≤ 1 by decide)
          (show content.length + line.length < 1073740000 by omega)
      obtain ⟨hholds₁, hsome₁⟩ := append_holds hbuffer ⟨1, rfl⟩ happend
      rw [appendLine_eq hnul.1, happend, Option.bind_some]
      obtain ⟨buffer', hrun, hholds, hsome⟩ := ih hnul.2 hshort.2 hholds₁ (by
        rw [List.length_append]
        omega)
      refine ⟨buffer', hrun, ?_, fun _ => hsome (.inl hsome₁)⟩
      rw [copiedLines, List.filter_cons_of_pos (by simp [hpath]), List.flatten_cons,
        ← List.append_assoc]
      exact hholds

/-- Something is appended for every path that can be used. -/
theorem exists_includedFor (h : ¬ Unusable path) : ∃ file, IncludedFor file path := by
  by_cases hsup : supSuffix <:+ path
  · exact ⟨path, .inl ⟨rfl, hsup⟩⟩
  · have hroom : path.length + 1 < pathMax := Nat.lt_of_not_le fun hlong => h ⟨hlong, hsup⟩
    refine ⟨dirEntryPath path entryName, .inr ⟨fun heq => ?_, rfl⟩⟩
    have hlength := congrArg List.length heq
    rw [dirEntryPath, List.length_take] at hlength
    have hjoin : path.length + 1 ≤ (joinPath path entryName).length := by
      rw [joinPath]
      split
      · rw [List.length_append]
        exact Nat.add_le_add_left (by decide) _
      · rw [List.length_append, List.length_cons]
        omega
    omega

end emptyFile

/-- What a template is to become holds the copied lines, and more if a line is taken for a
directive that is none. -/
theorem expands_length (hnul : ∀ line ∈ lines, '\x00' ∉ line)
    (h : List.Forall₂ (Expands before fs) lines pieces) :
    (copiedLines lines).flatten.length ≤ pieces.flatten.length ∧
      ((∃ line ∈ lines, ∃ path ∈ includePath line, ¬ Directive path line) →
        (copiedLines lines).flatten.length < pieces.flatten.length) := by
  induction h with
  | nil => simp [copiedLines]
  | @cons line piece lines pieces hpiece _ ih =>
    rw [List.forall_mem_cons] at hnul
    obtain ⟨hle, hlt⟩ := ih hnul.2
    rw [List.flatten_cons, List.length_append]
    cases hpath : includePath line with
    | none =>
      have hcopy : piece = line := by
        rcases hpiece with ⟨path, hdirective, -⟩ | ⟨-, hcopy⟩
        · rw [includePath_directive hdirective hnul.1] at hpath
          cases hpath
        · exact hcopy
      rw [copiedLines, List.filter_cons_of_pos (by simp [hpath]), List.flatten_cons,
        List.length_append, ← copiedLines, hcopy]
      refine ⟨by omega, ?_⟩
      rintro ⟨line', hline', path, hpath', hbad⟩
      rcases List.mem_cons.mp hline' with rfl | hrest
      · rw [hpath] at hpath'
        cases hpath'
      · have := hlt ⟨line', hrest, path, hpath', hbad⟩
        omega
    | some path =>
      rw [copiedLines, List.filter_cons_of_neg (by simp [hpath]), ← copiedLines]
      refine ⟨by omega, ?_⟩
      rintro ⟨line', hline', path', hpath', hbad⟩
      rcases List.mem_cons.mp hline' with rfl | hrest
      · have hpos : 0 < piece.length := by
          rcases hpiece with ⟨path'', hdirective, -⟩ | ⟨-, rfl⟩
          · rw [includePath_directive hdirective hnul.1] at hpath'
            exact absurd (Option.some.inj hpath' ▸ hdirective) hbad
          · exact List.length_pos_of_mem (bracket_mem_of_includePath hpath)
        omega
      · have := hlt ⟨line', hrest, path', hpath', hbad⟩
        omega

/-- A line that is no directive is one of the pieces. -/
theorem mem_pieces {fs : FileSystem} (h : List.Forall₂ (Expands before fs) lines pieces)
    (hline : line ∈ lines) (hbad : ¬ ∃ path, Directive path line) : line ∈ pieces := by
  induction h with
  | nil => cases hline
  | cons hpiece _ ih =>
    rcases List.mem_cons.mp hline with rfl | hrest
    · rcases hpiece with ⟨path, hdirective, -⟩ | ⟨-, rfl⟩
      · exact absurd ⟨path, hdirective⟩ hbad
      · exact List.mem_cons_self
    · exact List.mem_cons_of_mem _ (ih hrest)

/-! ## The document -/

theorem generateConfigFile_eq_some {generFd : Bool}
    (h : generateConfigFile before fs (some template) generFd = some (0, some document)) :
    ∃ buffer', generateLines before fs (templateLines template) .init = some (0, buffer') ∧
      printMem buffer' = some document := by
  rw [generateConfigFile] at h
  simp only at h
  split at h
  · obtain ⟨⟨returnCode, buffer'⟩, hrun, heq⟩ := Option.bind_eq_some_iff.mp h
    simp only at heq
    split at heq
    next hzero =>
      obtain ⟨text, hprint, heq⟩ := Option.map_eq_some_iff.mp heq
      simp only [Prod.mk.injEq, Option.some.injEq] at heq
      rw [hzero] at hrun
      exact ⟨buffer', hrun, heq.2 ▸ hprint⟩
    next hcode =>
      simp only [Option.some.injEq, Prod.mk.injEq] at heq
      exact absurd heq.1 hcode
  · simp at h

/-- A fine template becomes what it is to become with any files. -/
theorem alwaysExpands_of_fine (hnul : '\x00' ∉ template) (h : TemplateFine template) :
    AlwaysExpands template := by
  intro before fs generFd document hfs hgenerate
  obtain ⟨buffer', hrun, hprint⟩ := generateConfigFile_eq_some hgenerate
  have hlines : ∀ line ∈ templateLines template, '\x00' ∉ line :=
    fun line hline hc => hnul (mem_of_mem_line hline hc)
  rcases h with ⟨line, hline, path, hpath, hlong⟩ | ⟨hread, hcase⟩
  · exact absurd hrun (generateLines_overlong hline hpath hlong)
  · have hends : ∀ line ∈ templateLines template, line.length % 4294967296 ≠ 4294967295 := by
      intro line hline
      rw [← hread] at hline
      exact of_decide_eq_true (List.mem_takeWhile_imp (p := fun line : List Char =>
        decide (line.length % 4294967296 ≠ 4294967295)) hline)
    rcases hcase with hdirective | hunusable
    · obtain ⟨pieces, hpieces, hholds, hnul'⟩ :=
        generateLines_expands hfs hlines hends hdirective holds_init hrun
      exact ⟨pieces, hpieces, printMem_holds hholds hprint hnul'⟩
    · rw [generateLines_unusable hends hunusable hrun] at hprint
      cases hprint

/-- Where the copied lines are the document, no line is taken for a directive that is none. -/
theorem directive_of_expands (hnul : '\x00' ∉ template)
    (hexpands : ExpandsTemplate before fs template
      (copiedLines (templateLines template)).flatten) :
    ∀ line ∈ templateLines template, ∀ path ∈ includePath line, Directive path line := by
  obtain ⟨pieces, hpieces, hdocument⟩ := hexpands
  by_contra hbad
  push Not at hbad
  have hlt := (expands_length (fun line hline hc => hnul (mem_of_mem_line hline hc)) hpieces).2
    hbad
  rw [← hdocument] at hlt
  exact Nat.lt_irrefl _ hlt

/-- A small template that always becomes what it is to become is fine. -/
theorem fine_of_alwaysExpands (hnul : '\x00' ∉ template) (hsmall : template.length < 1073740000)
    (h : AlwaysExpands template) : TemplateFine template := by
  have hlines : ∀ line ∈ templateLines template, '\x00' ∉ line :=
    fun line hline hc => hnul (mem_of_mem_line hline hc)
  have hread : readLines template = templateLines template := by
    refine List.takeWhile_eq_self_iff.mpr fun line hline => decide_eq_true ?_
    have hle := (List.sublist_flatten_of_mem hline).length_le
    rw [templateLines_flatten] at hle
    omega
  by_cases hlong : ∃ line ∈ templateLines template, ∃ path ∈ includePath line,
      pathMax ≤ path.length
  · exact .inl (hread.symm ▸ hlong)
  have hshort : ∀ line ∈ templateLines template, ∀ path ∈ includePath line,
      path.length < pathMax :=
    fun line hline path hpath => Nat.lt_of_not_le fun hle => hlong ⟨line, hline, path, hpath, hle⟩
  have hsize : ([] : List Char).length + (templateLines template).flatten.length < 1073740000 := by
    rw [templateLines_flatten, List.length_nil, Nat.zero_add]
    exact hsmall
  refine .inr ⟨hread, ?_⟩
  by_contra hcase
  rw [not_or] at hcase
  obtain ⟨hdirective, husable⟩ := hcase
  have hfile : ∃ file, ∃ line ∈ templateLines template, includePath line = none ∨
      ∃ path ∈ includePath line, IncludedFor file path := by
    push Not at husable
    obtain ⟨line, hline, husable⟩ := husable
    cases hpath : includePath line with
    | none => exact ⟨[], line, hline, .inl hpath⟩
    | some path =>
      obtain ⟨file, hincluded⟩ := exists_includedFor (husable path hpath)
      exact ⟨file, line, hline, .inr ⟨path, hpath, hincluded⟩⟩
  obtain ⟨file, hfills⟩ := hfile
  obtain ⟨buffer', hrun, hholds, hsome⟩ :=
    @generateLines_emptyFile (fun _ => []) _ _ _ file hlines hshort holds_init hsize
  obtain ⟨document, hprint⟩ : ∃ document, printMem buffer' = some document := by
    obtain ⟨mem, hmem⟩ := Option.isSome_iff_exists.mp (hsome (.inr hfills))
    exact ⟨cString mem, by rw [printMem, hmem, Option.map_some]⟩
  have hgenerate : generateConfigFile (fun _ => []) (emptyFile file) (some template) true =
      some (0, some document) := by
    simp only [generateConfigFile, hrun, if_true, Option.bind_some, hprint, Option.map_some]
  have hexpands := h _ _ _ _ (nulFree_emptyFile file) hgenerate
  have hnul' : '\x00' ∉ (copiedLines (templateLines template)).flatten := by
    intro hc
    obtain ⟨line, hline, hc⟩ := List.mem_flatten.mp hc
    exact hlines line (List.mem_of_mem_filter hline) hc
  rw [printMem_holds hholds hprint hnul'] at hexpands
  exact hdirective (directive_of_expands hnul hexpands)

/-- The template is expanded as it should be with all files if it is fine, and a template of less
than a gigabyte only then. -/
theorem generateConfigFile_expands (template : List Char) (hnul : '\x00' ∉ template) :
    (TemplateFine template → AlwaysExpands template) ∧
      (template.length < 1073740000 → (AlwaysExpands template ↔ TemplateFine template)) :=
  ⟨alwaysExpands_of_fine hnul, fun hsmall =>
    ⟨fine_of_alwaysExpands hnul hsmall, alwaysExpands_of_fine hnul⟩⟩

/-- A template that includes the files of a directory. -/
def confTemplate : List Char := "<a>\n  <!-- include /etc -->\n</a>\n".toList

theorem generateConfigFile_expands_conf : AlwaysExpands confTemplate ∧
    generateConfigFile (fun _ => []) confDir (some confTemplate) true =
      some (0, some "<a>\n<m/></a>\n".toList) := by
  refine ⟨(generateConfigFile_expands confTemplate (by decide)).1 (.inr ⟨by decide +kernel,
    .inl ?_⟩), by decide +kernel⟩
  have hlines : templateLines confTemplate =
      ["<a>\n".toList, "  <!-- include /etc -->\n".toList, "</a>\n".toList] := by decide +kernel
  have hpaths : (templateLines confTemplate).map includePath =
      [none, some "/etc".toList, none] := by decide +kernel
  rw [hlines] at hpaths ⊢
  simp only [List.map_cons, List.map_nil, List.cons.injEq, and_true] at hpaths
  obtain ⟨hfirst, hsecond, hthird⟩ := hpaths
  intro line hline path hpath
  simp only [List.mem_cons, List.not_mem_nil, or_false] at hline
  rcases hline with rfl | rfl | rfl
  · rw [hfirst] at hpath
    cases hpath
  · rw [hsecond] at hpath
    rw [← Option.some.inj hpath]
    exact ⟨by decide, by simp [isspace], 2, ['\n'], by decide, by simp⟩
  · rw [hthird] at hpath
    cases hpath

/-- A template with a text behind a directive. -/
def lossyTemplate : List Char := "<a>\n<!-- include /etc --><b/>\n</a>\n".toList

/-- What follows a directive on its line is lost. -/
theorem not_generateConfigFile_expands :
    ¬ ∀ template : List Char, '\x00' ∉ template → AlwaysExpands template := by
  intro h
  have hrun : generateConfigFile (fun _ => []) (emptyFile []) (some lossyTemplate) true =
      some (0, some "<a>\n</a>\n".toList) := by decide +kernel
  obtain ⟨pieces, hpieces, hdocument⟩ :=
    h lossyTemplate (by decide) _ _ _ _ (nulFree_emptyFile []) hrun
  have hbad : ¬ ∃ path, Directive path "<!-- include /etc --><b/>\n".toList := by
    rintro ⟨path, -, -, blanks, ending, hending, heq⟩
    have hsuffix : " -->".toList ++ ending <:+ "<!-- include /etc --><b/>\n".toList := by
      rw [heq]
      exact ((List.suffix_append _ _).trans (List.suffix_append _ _)).trans
        (List.suffix_append _ _)
    simp only [List.mem_cons, List.not_mem_nil, or_false] at hending
    rcases hending with rfl | rfl
    · revert hsuffix
      decide +kernel
    · revert hsuffix
      decide +kernel
  have hmem : 'b' ∈ pieces.flatten :=
    List.mem_flatten_of_mem (mem_pieces hpieces (by decide +kernel) hbad) (by decide)
  rw [← hdocument] at hmem
  revert hmem
  decide

end template

end NemeaSupervisor
