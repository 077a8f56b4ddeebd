import NemeaSupervisor.NumberSelection

/-!
# Inclusion of files

The buffer that the configuration is put together in, and `include_item`, which appends
a file or the files of a directory to it. A `Char` stands for a byte. A store
outside the buffer ends the run, for which there is no result.
-/

namespace NemeaSupervisor

open CText

def pathMax : Nat := 4096

/-! ## Files -/

inductive FileType where
  | regular
  | directory
  | other
  deriving DecidableEq, Repr

/-- What a path leads to, whether reading is permitted and opening succeeds; `entries` are the
names of a directory in the order of `readdir`. -/
structure FileNode where
  fileType : FileType
  readable : Bool
  opens : Bool
  content : List Char
  entries : List (List Char)
  deriving DecidableEq, Repr

abbrev FileSystem := List Char → Option FileNode

/-- `stat`, which fails for a path that is empty or too long. -/
def FileSystem.stat (fs : FileSystem) (path : List Char) : Option FileNode :=
  if path = [] ∨ pathMax ≤ path.length then none else fs path

/-- `check_file_type_perm` with `R_OK`. -/
def checkFileTypePerm (fs : FileSystem) (itemPath : List Char) (fileType : FileType) : Bool :=
  match fs.stat itemPath with
  | none => false
  | some st => st.fileType = fileType ∧ st.readable = true

/-! ## The buffer -/

/-- `buffer_t`. -/
structure GenBuffer where
  mem : Option (List Char)
  memSize : Nat
  memUsed : Nat
  deriving DecidableEq, Repr

def GenBuffer.init : GenBuffer := ⟨none, 0, 0⟩

/-- `check_buffer_space`. The sizes are `unsigned int`, but the start of the part to be cleared is
an `int`. -/
def checkBufferSpace (neededSize : Nat) (buffer : GenBuffer) : Option GenBuffer :=
  match buffer.mem with
  | none =>
    let memSize := (512 + neededSize) % 4294967296
    some ⟨some (List.replicate memSize '\x00'), memSize, 0⟩
  | some mem =>
    if buffer.memSize - buffer.memUsed ≤ neededSize then
      let memSize := (buffer.memSize + (1024 + neededSize)) % 4294967296
      if 2147483648 ≤ buffer.memSize ∨ memSize < buffer.memSize then none
      else
        some ⟨some (mem ++ List.replicate (memSize - buffer.memSize) '\x00'), memSize,
          buffer.memUsed⟩
    else some buffer

/-- A text is stored behind what is used, and `terminators` after it that do not count. -/
def GenBuffer.store (buffer : GenBuffer) (text terminators : List Char) : Option GenBuffer :=
  match buffer.mem with
  | none => none
  | some mem =>
    let used := buffer.memUsed
    if used + text.length + terminators.length ≤ mem.length then
      some
        { buffer with
          mem := some (mem.take used ++ text ++ terminators ++
            mem.drop (used + text.length + terminators.length))
          memUsed := (used + text.length) % 4294967296 }
    else none

/-- A text goes into the buffer once there is space for it. -/
def GenBuffer.append (buffer : GenBuffer) (text terminators : List Char) : Option GenBuffer :=
  (checkBufferSpace (text.length % 4294967296) buffer).bind fun buffer =>
    buffer.store text terminators

/-- `append_file_content`: the buffer, and whether the file has been opened. -/
def appendFileContent (fs : FileSystem) (inclPath : List Char) (buffer : GenBuffer) :
    Option (GenBuffer × Bool) :=
  match fs.stat inclPath with
  | none => some (buffer, false)
  | some st =>
    if st.opens then (buffer.append st.content []).map fun buffer => (buffer, true)
    else some (buffer, false)

/-! ## The items -/

/-- `strsuffixis`, where `before` is the memory in front of the string. -/
def strsuffixis (before str suffix : List Char) : Bool :=
  if suffix.length ≤ str.length then str.drop (str.length - suffix.length) = suffix
  else cString (before.drop (before.length - (suffix.length - str.length)) ++ str) = suffix

def supSuffix : List Char := ".sup".toList

/-- What `include_item` leaves, with the entries that it has appended, the one that it could not
open, and the names whose suffix it has tested. -/
structure Inclusion where
  buffer : GenBuffer
  status : Bool
  appended : List (List Char)
  failed : Option (List Char)
  tested : List (List Char)
  deriving DecidableEq, Repr

def Inclusion.start (buffer : GenBuffer) : Inclusion := ⟨buffer, true, [], none, []⟩

/-- The path of an entry, of which `dir_entry_path` holds what fits. -/
def joinPath (itemPath name : List Char) : List Char :=
  if itemPath.getLast? = some '/' then itemPath ++ name else itemPath ++ '/' :: name

def dirEntryPath (itemPath name : List Char) : List Char :=
  (joinPath itemPath name).take (pathMax - 1)

/-- A file is appended under its name if the name ends in `.sup`. -/
def includeFile (before : List Char → List Char) (fs : FileSystem) (path name : List Char)
    (r : Inclusion) : Option Inclusion :=
  let r := { r with tested := r.tested ++ [name] }
  if strsuffixis (before name) name supSuffix then
    (appendFileContent fs path r.buffer).map fun (buffer, opened) =>
      if opened then { r with buffer, appended := r.appended ++ [name] }
      else { r with buffer, status := false, failed := some name }
  else some r

/-- The body of the loop over a directory. -/
def includeEntry (before : List Char → List Char) (fs : FileSystem) (itemPath name : List Char)
    (r : Inclusion) : Option Inclusion :=
  if name = ['.'] ∨ name = ['.', '.'] then some r
  else if checkFileTypePerm fs (dirEntryPath itemPath name) .regular then
    includeFile before fs (dirEntryPath itemPath name) name r
  else some r

def includeEntries (before : List Char → List Char) (fs : FileSystem) (itemPath : List Char) :
    List (List Char) → Inclusion → Option Inclusion
  | [], r => some r
  | name :: entries, r =>
    (includeEntry before fs itemPath name r).bind fun r =>
      if r.status then includeEntries before fs itemPath entries r else some r

def includeItem (before : List Char → List Char) (fs : FileSystem) (itemPath : List Char)
    (buffer : GenBuffer) : Option Inclusion :=
  let r := Inclusion.start buffer
  if checkFileTypePerm fs itemPath .regular then includeFile before fs itemPath itemPath r
  else if checkFileTypePerm fs itemPath .directory = false then some { r with status := false }
  else
    match fs.stat itemPath with
    | none => some { r with status := false }
    | some st =>
      if st.opens then includeEntries before fs itemPath st.entries r
      else some { r with status := false }

/-! ## What the buffer holds -/

/-- The text that has been appended to the buffer, which has zeros behind it. -/
structure Holds (buffer : GenBuffer) (content : List Char) : Prop where
  used : buffer.memUsed = content.length
  size : buffer.memSize < 4294967296
  bound : buffer.memSize ≤ 1536 + 2 * content.length
  mem : buffer.mem = none ∧ content = [] ∨
    content.length < buffer.memSize ∧ buffer.mem =
      some (content ++ List.replicate (buffer.memSize - content.length) '\x00')

section buffer

variable {buffer buffer' : GenBuffer} {content text terminators : List Char} {neededSize : Nat}

theorem holds_init : Holds .init [] := ⟨rfl, by decide, by decide, .inl ⟨rfl, rfl⟩⟩

theorem replicate_split {k m n : Nat} (h : k + m = n) (c : Char) :
    List.replicate k c ++ List.replicate m c = List.replicate n c := by
  rw [List.replicate_append_replicate, h]

/-- The check leaves a buffer with the same text. It has more room than is needed unless the sizes
have wrapped, in which case it has less. -/
theorem checkBufferSpace_spec (h : Holds buffer content)
    (hcheck : checkBufferSpace neededSize buffer = some buffer')
    (hneeded : neededSize < 4294967296) :
    buffer'.memUsed = content.length ∧ buffer'.memSize < 4294967296 ∧
      content.length ≤ buffer'.memSize ∧
      buffer'.mem = some (content ++ List.replicate (buffer'.memSize - content.length) '\x00') ∧
      content.length + neededSize ≠ buffer'.memSize ∧
      buffer'.memSize ≤ 1536 + 2 * (content.length + neededSize) := by
  unfold checkBufferSpace at hcheck
  rcases h.mem with ⟨hmem, rfl⟩ | ⟨hroom, hmem⟩
  · rw [hmem] at hcheck
    rw [← Option.some.inj hcheck]
    simp only [List.length_nil, Nat.sub_zero, List.nil_append, true_and, Nat.zero_le]
    omega
  · have hused := h.used
    have hsize := h.size
    have hbound := h.bound
    rw [hmem] at hcheck
    simp only at hcheck
    split_ifs at hcheck with hfull hfault
    · rw [← Option.some.inj hcheck]
      refine ⟨hused, Nat.mod_lt _ (by decide), ?_, ?_, ?_, ?_⟩
      · simp only
        omega
      · have hsplit : buffer.memSize - content.length +
            ((buffer.memSize + (1024 + neededSize)) % 4294967296 - buffer.memSize) =
            (buffer.memSize + (1024 + neededSize)) % 4294967296 - content.length := by omega
        simp only [List.append_assoc, replicate_split hsplit]
      · simp only
        omega
      · simp only
        omega
    · rw [← Option.some.inj hcheck]
      exact ⟨hused, hsize, by omega, hmem, by omega, by omega⟩

/-- What is appended follows what has been appended before. -/
theorem append_holds (h : Holds buffer content) (hterminators : ∃ n, terminators =
    List.replicate n '\x00') (happend : buffer.append text terminators = some buffer') :
    Holds buffer' (content ++ text) ∧ buffer'.mem.isSome = true := by
  obtain ⟨n, rfl⟩ := hterminators
  obtain ⟨checked, hcheck, hstore⟩ := Option.bind_eq_some_iff.mp happend
  obtain ⟨hused, hsize, hle, hmem, hne, hbound⟩ :=
    checkBufferSpace_spec h hcheck (Nat.mod_lt _ (by decide))
  rw [GenBuffer.store, hmem] at hstore
  simp only [List.length_append, List.length_replicate] at hstore
  split_ifs at hstore with hfits
  rw [hused] at hstore hfits
  rw [← Option.some.inj hstore]
  have hlength : content.length + (checked.memSize - content.length) = checked.memSize := by omega
  rw [hlength] at hfits
  refine ⟨⟨?_, hsize, ?_, .inr ⟨?_, ?_⟩⟩, rfl⟩
  · simp only [List.length_append]
    omega
  · simp only [List.length_append]
    omega
  · simp only [List.length_append]
    omega
  · have hdrop : (content ++ List.replicate (checked.memSize - content.length) '\x00').drop
        (content.length + text.length + n) =
        List.replicate (checked.memSize - content.length - (text.length + n)) '\x00' := by
      rw [Nat.add_assoc, List.drop_append, List.drop_of_length_le (by omega), List.drop_replicate,
        Nat.add_sub_cancel_left, List.nil_append]
    have hsplit : n + (checked.memSize - content.length - (text.length + n)) =
        checked.memSize - (content ++ text).length := by
      rw [List.length_append]
      omega
    simp only
    rw [hdrop, List.take_left' rfl, List.append_assoc, replicate_split hsplit]

/-- Texts of less than a gigabyte can be appended. -/
theorem append_isSome (h : Holds buffer content) (hterminators : terminators.length ≤ 1)
    (hsmall : content.length + text.length < 1073740000) :
    ∃ buffer', buffer.append text terminators = some buffer' := by
  have hneeded : text.length % 4294967296 = text.length := Nat.mod_eq_of_lt (by omega)
  have hchecked : ∃ checked, checkBufferSpace text.length buffer = some checked ∧
      content.length + text.length < checked.memSize := by
    have hbound := h.bound
    have hused := h.used
    unfold checkBufferSpace
    rcases h.mem with ⟨hmem, rfl⟩ | ⟨hroom, hmem⟩
    · rw [hmem]
      refine ⟨_, rfl, ?_⟩
      simp only [List.length_nil]
      omega
    · rw [hmem]
      simp only
      split_ifs with hfull hfault
      · omega
      · refine ⟨_, rfl, ?_⟩
        simp only
        omega
      · exact ⟨_, rfl, by omega⟩
  obtain ⟨checked, hcheck, hroom⟩ := hchecked
  obtain ⟨hused, -, hle, hmem, -⟩ := checkBufferSpace_spec h hcheck (by omega)
  rw [GenBuffer.append, hneeded, hcheck, Option.bind_some, GenBuffer.store, hmem]
  simp only [List.length_append, List.length_replicate, hused]
  rw [if_pos (by omega)]
  exact ⟨_, rfl⟩

end buffer

/-! ## The suffix -/

theorem strsuffixis_iff (before : List Char) {str suffix : List Char}
    (h : suffix.length ≤ str.length) : strsuffixis before str suffix = true ↔ suffix <:+ str := by
  rw [strsuffixis, if_pos h, decide_eq_true_eq]
  constructor
  · rintro heq
    rw [← heq]
    exact List.drop_suffix _ _
  · exact fun hsuffix => (List.suffix_iff_eq_drop.mp hsuffix).symm

/-! ## What is to be included -/

/-- A readable regular file whose name ends in `.sup`. -/
def Includable (fs : FileSystem) (path name : List Char) : Prop :=
  checkFileTypePerm fs path .regular = true ∧ supSuffix <:+ name

instance (fs : FileSystem) (path name : List Char) : Decidable (Includable fs path name) :=
  inferInstanceAs (Decidable (_ ∧ _))

/-- The path can be opened. -/
def Opens (fs : FileSystem) (path : List Char) : Prop := ∃ st ∈ fs.stat path, st.opens = true

instance (fs : FileSystem) (path : List Char) : Decidable (Opens fs path) :=
  inferInstanceAs (Decidable (∃ st ∈ fs.stat path, _))

/-- The names of a directory whose files are to be included. -/
def includable (fs : FileSystem) (itemPath : List Char) (entries : List (List Char)) :
    List (List Char) :=
  entries.filter fun name => name ≠ ['.'] ∧ name ≠ ['.', '.'] ∧
    Includable fs (joinPath itemPath name) name

/-- The content of a file. -/
def fileContent (fs : FileSystem) (path : List Char) : List Char :=
  ((fs.stat path).map FileNode.content).getD []

/-- The names in a directory. -/
def dirEntries (fs : FileSystem) (path : List Char) : List (List Char) :=
  ((fs.stat path).map FileNode.entries).getD []

/-- Files are included in their order up to the first that cannot be opened, behind the `content`
and the names `appended` that have been there before. No test of a suffix reads before a name. -/
structure IncludesFiles (fs : FileSystem) (pathOf : List Char → List Char) (content : List Char)
    (appended names : List (List Char)) (r : Inclusion) : Prop where
  buffer : Holds r.buffer (content ++ ((names.takeWhile fun name => Opens fs (pathOf name)).map
    fun name => fileContent fs (pathOf name)).flatten)
  appended : r.appended = appended ++ names.takeWhile fun name => Opens fs (pathOf name)
  failed : r.failed = names.find? fun name => ¬ Opens fs (pathOf name)
  status : r.status = true ↔ ∀ name ∈ names, Opens fs (pathOf name)
  tested : ∀ name ∈ r.tested, supSuffix.length ≤ name.length

/-- A file is included if its path ends in `.sup`, and a directory with the files in it. Any other
path is an error. -/
def IncludesExactly (fs : FileSystem) (path content : List Char) (r : Inclusion) : Prop :=
  if checkFileTypePerm fs path .regular = true then
    IncludesFiles fs id content [] ([path].filter fun path => supSuffix <:+ path) r
  else if checkFileTypePerm fs path .directory = true ∧ Opens fs path then
    IncludesFiles fs (joinPath path) content [] (includable fs path (dirEntries fs path)) r
  else Holds r.buffer content ∧ r.appended = [] ∧ r.status = false ∧ r.tested = []

/-- Up to the first file that cannot be opened, the name of a file is no shorter than the suffix,
and the path of a file to be included is not cut. -/
def EntriesFine (fs : FileSystem) (itemPath : List Char) : List (List Char) → Prop
  | [] => True
  | name :: entries =>
    if name = ['.'] ∨ name = ['.', '.'] then EntriesFine fs itemPath entries
    else if checkFileTypePerm fs (dirEntryPath itemPath name) .regular = true then
      supSuffix.length ≤ name.length ∧
        if supSuffix <:+ name then
          (joinPath itemPath name).length < pathMax ∧
            (Opens fs (joinPath itemPath name) → EntriesFine fs itemPath entries)
        else EntriesFine fs itemPath entries
    else EntriesFine fs itemPath entries

instance decidableEntriesFine (fs : FileSystem) (itemPath : List Char) :
    (entries : List (List Char)) → Decidable (EntriesFine fs itemPath entries)
  | [] => inferInstanceAs (Decidable True)
  | name :: entries =>
    have := decidableEntriesFine fs itemPath entries
    inferInstanceAs (Decidable (ite (name = ['.'] ∨ name = ['.', '.']) _ (ite _ (_ ∧ ite _ _ _) _)))

/-- No name or path that `include_item` gets to is in its way. -/
def IncludeFine (fs : FileSystem) (path : List Char) : Prop :=
  if checkFileTypePerm fs path .regular = true then supSuffix.length ≤ path.length
  else checkFileTypePerm fs path .directory = true → Opens fs path →
    EntriesFine fs path (dirEntries fs path)

instance (fs : FileSystem) (path : List Char) : Decidable (IncludeFine fs path) :=
  inferInstanceAs (Decidable (ite _ _ _))

section includes

variable {before : List Char → List Char} {fs : FileSystem} {itemPath path name : List Char}
  {content : List Char} {entries appended : List (List Char)} {buffer : GenBuffer}
  {r r' : Inclusion}

theorem stat_of_long (h : pathMax ≤ path.length) : fs.stat path = none := by
  rw [FileSystem.stat, if_pos (.inr h)]

theorem dirEntryPath_of_short (h : (joinPath itemPath name).length < pathMax) :
    dirEntryPath itemPath name = joinPath itemPath name := by
  rw [dirEntryPath, List.take_of_length_le]
  omega

/-- A file whose path is cut is not to be included. -/
theorem not_includable_of_long (h : pathMax ≤ (joinPath itemPath name).length) :
    ¬ Includable fs (joinPath itemPath name) name := by
  rintro ⟨hperm, -⟩
  rw [checkFileTypePerm, stat_of_long h] at hperm
  cases hperm

/-- An entry that `check_file_type_perm` rejects is not to be included. -/
theorem not_includable_of_rejected
    (h : checkFileTypePerm fs (dirEntryPath itemPath name) .regular ≠ true) :
    ¬ Includable fs (joinPath itemPath name) name := by
  rcases Nat.lt_or_ge (joinPath itemPath name).length pathMax with hshort | hlong
  · rw [dirEntryPath_of_short hshort] at h
    exact fun hincl => h hincl.1
  · exact not_includable_of_long hlong

theorem appendFileContent_opens (h : Opens fs path) :
    appendFileContent fs path buffer =
      (buffer.append (fileContent fs path) []).map fun buffer => (buffer, true) := by
  obtain ⟨st, hst, hopens⟩ := h
  rw [appendFileContent, fileContent, Option.mem_def.mp hst]
  simp only [hopens, if_true, Option.map_some, Option.getD_some]

theorem appendFileContent_not_opens (h : ¬ Opens fs path) :
    appendFileContent fs path buffer = some (buffer, false) := by
  rw [appendFileContent]
  cases hst : fs.stat path with
  | none => rfl
  | some st =>
    have hopens : st.opens ≠ true := fun hopens => h ⟨st, hst, hopens⟩
    simp only
    rw [if_neg hopens]

/-- A file with a long enough name is included if its name ends in `.sup`. -/
theorem includeFile_eq (hlength : supSuffix.length ≤ name.length)
    (hfile : includeFile before fs path name r = some r') :
    r'.tested = r.tested ++ [name] ∧
      if supSuffix <:+ name then
        if Opens fs path then
          r.buffer.append (fileContent fs path) [] = some r'.buffer ∧ r'.status = r.status ∧
            r'.appended = r.appended ++ [name] ∧ r'.failed = r.failed
        else r'.buffer = r.buffer ∧ r'.status = false ∧ r'.appended = r.appended ∧
          r'.failed = some name
      else r'.buffer = r.buffer ∧ r'.status = r.status ∧ r'.appended = r.appended ∧
        r'.failed = r.failed := by
  have hsuffix := strsuffixis_iff (before name) hlength
  rw [includeFile] at hfile
  simp only at hfile
  by_cases hsup : supSuffix <:+ name
  · rw [if_pos hsup]
    rw [if_pos (hsuffix.mpr hsup)] at hfile
    by_cases hopens : Opens fs path
    · rw [if_pos hopens]
      rw [appendFileContent_opens hopens, Option.map_map] at hfile
      obtain ⟨buffer', happend, rfl⟩ := Option.map_eq_some_iff.mp hfile
      exact ⟨rfl, happend, rfl, rfl, rfl⟩
    · rw [if_neg hopens]
      rw [appendFileContent_not_opens hopens, Option.map_some] at hfile
      rw [← Option.some.inj hfile]
      exact ⟨rfl, rfl, rfl, rfl, rfl⟩
  · rw [if_neg hsup]
    rw [if_neg fun h => hsup (hsuffix.mp h)] at hfile
    rw [← Option.some.inj hfile]
    exact ⟨rfl, rfl, rfl, rfl, rfl⟩

theorem includeFile_tested (hfile : includeFile before fs path name r = some r') :
    r'.tested = r.tested ++ [name] := by
  rw [includeFile] at hfile
  simp only at hfile
  split at hfile
  · obtain ⟨⟨buffer', opened⟩, -, rfl⟩ := Option.map_eq_some_iff.mp hfile
    cases opened <;> rfl
  · rw [← Option.some.inj hfile]

theorem includeFile_appended (hfile : includeFile before fs path name r = some r') :
    r.appended <+: r'.appended := by
  rw [includeFile] at hfile
  simp only at hfile
  split at hfile
  · obtain ⟨⟨buffer', opened⟩, -, rfl⟩ := Option.map_eq_some_iff.mp hfile
    cases opened
    · exact List.prefix_rfl
    · exact List.prefix_append _ _
  · exact Option.some.inj hfile ▸ List.prefix_rfl

/-- What has been tested and appended stays so in the rest of the directory. -/
theorem includeEntries_extends (hentries : includeEntries before fs itemPath entries r = some r') :
    r.tested <+: r'.tested ∧ r.appended <+: r'.appended := by
  induction entries generalizing r with
  | nil =>
    rw [← Option.some.inj hentries]
    exact ⟨List.prefix_rfl, List.prefix_rfl⟩
  | cons name entries ih =>
    rw [includeEntries] at hentries
    obtain ⟨r₁, hentry, hrest⟩ := Option.bind_eq_some_iff.mp hentries
    have hstep : r.tested <+: r₁.tested ∧ r.appended <+: r₁.appended := by
      rw [includeEntry] at hentry
      split_ifs at hentry
      · rw [← Option.some.inj hentry]
        exact ⟨List.prefix_rfl, List.prefix_rfl⟩
      · rw [includeFile_tested hentry]
        exact ⟨List.prefix_append _ _, includeFile_appended hentry⟩
      · rw [← Option.some.inj hentry]
        exact ⟨List.prefix_rfl, List.prefix_rfl⟩
    split at hrest
    · obtain ⟨htested, happended⟩ := ih hrest
      exact ⟨hstep.1.trans htested, hstep.2.trans happended⟩
    · rw [← Option.some.inj hrest]
      exact hstep

theorem includable_cons_skip
    (h : name = ['.'] ∨ name = ['.', '.'] ∨ ¬ Includable fs (joinPath itemPath name) name) :
    includable fs itemPath (name :: entries) = includable fs itemPath entries := by
  rw [includable, List.filter_cons_of_neg]
  · rfl
  · rw [decide_eq_true_eq]
    tauto

theorem includable_cons_of (hdot : ¬ (name = ['.'] ∨ name = ['.', '.']))
    (h : Includable fs (joinPath itemPath name) name) :
    includable fs itemPath (name :: entries) = name :: includable fs itemPath entries := by
  rw [includable, List.filter_cons_of_pos]
  · rfl
  · rw [decide_eq_true_eq]
    tauto

theorem includable_of_mem (h : name ∈ includable fs itemPath entries) :
    Includable fs (joinPath itemPath name) name := by
  have hmem := (List.mem_filter.mp h).2
  rw [decide_eq_true_eq] at hmem
  exact hmem.2.2

/-- A file that opens is included before the others. -/
theorem includesFiles_cons {pathOf : List Char → List Char} {names : List (List Char)}
    (hopens : Opens fs (pathOf name)) :
    IncludesFiles fs pathOf content appended (name :: names) r ↔
      IncludesFiles fs pathOf (content ++ fileContent fs (pathOf name)) (appended ++ [name]) names
        r := by
  have htake : ((name :: names).takeWhile fun name => Opens fs (pathOf name)) =
      name :: names.takeWhile fun name => Opens fs (pathOf name) :=
    List.takeWhile_cons_of_pos (decide_eq_true hopens)
  have hfind : ((name :: names).find? fun name => ¬ Opens fs (pathOf name)) =
      names.find? fun name => ¬ Opens fs (pathOf name) :=
    List.find?_cons_of_neg (by simpa using hopens)
  constructor
  · rintro ⟨hbuffer, happended, hfailed, hstatus, htested⟩
    rw [htake] at hbuffer happended
    rw [hfind] at hfailed
    refine ⟨?_, ?_, hfailed, ?_, htested⟩
    · simpa only [List.map_cons, List.flatten_cons, List.append_assoc] using hbuffer
    · rw [happended, List.append_assoc, List.singleton_append]
    · rw [hstatus, List.forall_mem_cons]
      exact and_iff_right hopens
  · rintro ⟨hbuffer, happended, hfailed, hstatus, htested⟩
    refine ⟨?_, ?_, ?_, ?_, htested⟩
    · rw [htake]
      simpa only [List.map_cons, List.flatten_cons, List.append_assoc] using hbuffer
    · rw [htake, happended, List.append_assoc, List.singleton_append]
    · rw [hfind, hfailed]
    · rw [hstatus, List.forall_mem_cons]
      exact (and_iff_right hopens).symm

/-- Everything so far has been included. -/
structure Ongoing (content : List Char) (r : Inclusion) : Prop where
  status : r.status = true
  failed : r.failed = none
  buffer : Holds r.buffer content
  tested : ∀ name ∈ r.tested, supSuffix.length ≤ name.length

/-- Everything before the named file has been included, and this one has not been opened. -/
structure Halted (content name : List Char) (r : Inclusion) : Prop where
  status : r.status = false
  failed : r.failed = some name
  buffer : Holds r.buffer content
  tested : ∀ name ∈ r.tested, supSuffix.length ≤ name.length

theorem Ongoing.start (h : Holds buffer content) : Ongoing content (.start buffer) :=
  ⟨rfl, rfl, h, List.forall_mem_nil _⟩

/-- A file whose name is long enough is included, it halts the inclusion, or it is passed over. -/
theorem Ongoing.file (h : Ongoing content r) (hlength : supSuffix.length ≤ name.length)
    (hfile : includeFile before fs path name r = some r') :
    if supSuffix <:+ name then
      if Opens fs path then
        Ongoing (content ++ fileContent fs path) r' ∧ r'.appended = r.appended ++ [name]
      else Halted content name r' ∧ r'.appended = r.appended
    else Ongoing content r' ∧ r'.appended = r.appended := by
  obtain ⟨htested, hcases⟩ := includeFile_eq hlength hfile
  have hall : ∀ name ∈ r'.tested, supSuffix.length ≤ name.length := by
    rw [htested]
    exact List.forall_mem_append.mpr ⟨h.tested, List.forall_mem_singleton.mpr hlength⟩
  by_cases hsup : supSuffix <:+ name
  · rw [if_pos hsup] at hcases ⊢
    by_cases hopens : Opens fs path
    · rw [if_pos hopens] at hcases ⊢
      obtain ⟨happend, hstatus, happended, hfailed⟩ := hcases
      exact ⟨⟨hstatus.trans h.status, hfailed.trans h.failed,
        (append_holds h.buffer ⟨0, rfl⟩ happend).1, hall⟩, happended⟩
    · rw [if_neg hopens] at hcases ⊢
      obtain ⟨hbuffer, hstatus, happended, hfailed⟩ := hcases
      exact ⟨⟨hstatus, hfailed, hbuffer ▸ h.buffer, hall⟩, happended⟩
  · rw [if_neg hsup] at hcases ⊢
    obtain ⟨hbuffer, hstatus, happended, hfailed⟩ := hcases
    exact ⟨⟨hstatus.trans h.status, hfailed.trans h.failed, hbuffer ▸ h.buffer, hall⟩,
      happended⟩

/-- Nothing is left to include. -/
theorem includesFiles_nil {pathOf : List Char → List Char} (h : Ongoing content r) :
    IncludesFiles fs pathOf content r.appended [] r := by
  refine ⟨?_, ?_, h.failed, ?_, h.tested⟩
  · simpa using h.buffer
  · simp
  · simp [h.status]

/-- The first file cannot be opened, and nothing is included. -/
theorem includesFiles_failed {pathOf : List Char → List Char} {names : List (List Char)}
    (hopens : ¬ Opens fs (pathOf name)) (h : Halted content name r) :
    IncludesFiles fs pathOf content r.appended (name :: names) r := by
  have htake : ((name :: names).takeWhile fun name => Opens fs (pathOf name)) = [] :=
    List.takeWhile_cons_of_neg (by simpa using hopens)
  refine ⟨?_, ?_, ?_, ?_, h.tested⟩
  · rw [htake]
    simpa using h.buffer
  · rw [htake, List.append_nil]
  · rw [h.failed, List.find?_cons_of_pos (by simpa using hopens)]
  · rw [h.status, List.forall_mem_cons]
    simp [hopens]

/-- Nothing but what is to be included can have been appended or have failed. -/
theorem not_includesFiles {names : List (List Char)} {pathOf : List Char → List Char}
    (hname : name ∉ names) (h : appended ++ [name] <+: r.appended ∨ r.failed = some name) :
    ¬ IncludesFiles fs pathOf content appended names r := by
  rintro ⟨-, happended, hfailed, -, -⟩
  rcases h with hstarts | hname'
  · rw [happended, List.prefix_append_right_inj] at hstarts
    exact hname ((List.takeWhile_prefix _).subset (hstarts.subset (List.mem_singleton_self name)))
  · rw [hname'] at hfailed
    exact hname (List.mem_of_find?_eq_some hfailed.symm)

/-- What has been tested and appended for an entry stays so, whether the loop goes on or not. -/
theorem includeRest_extends
    (hrest : (if r.status = true then includeEntries before fs itemPath entries r else some r) =
      some r') : r.tested <+: r'.tested ∧ r.appended <+: r'.appended := by
  split at hrest
  · exact includeEntries_extends hrest
  · exact Option.some.inj hrest ▸ ⟨List.prefix_rfl, List.prefix_rfl⟩

/-- A name that is too short for the test is one that has been tested. -/
theorem not_includesFiles_of_short {names : List (List Char)} {pathOf : List Char → List Char}
    {r₁ : Inclusion} (hlength : ¬ supSuffix.length ≤ name.length)
    (hfile : includeFile before fs path name r = some r₁)
    (hrest : (if r₁.status = true then includeEntries before fs itemPath entries r₁ else some r₁) =
      some r') : ¬ IncludesFiles fs pathOf content appended names r' := by
  intro h
  have hmem : name ∈ r₁.tested := by
    rw [includeFile_tested hfile]
    exact List.mem_append_right _ (List.mem_singleton_self name)
  exact hlength (h.tested name ((includeRest_extends hrest).1.subset hmem))

/-- The path has been cut, and another file stands for one that cannot be included. -/
theorem not_includesFiles_of_long {r₁ : Inclusion} (h : Ongoing content r)
    (hlength : supSuffix.length ≤ name.length) (hsup : supSuffix <:+ name)
    (hlong : pathMax ≤ (joinPath itemPath name).length)
    (hfile : includeFile before fs path name r = some r₁)
    (hrest : (if r₁.status = true then includeEntries before fs itemPath entries r₁ else some r₁) =
      some r') :
    ¬ IncludesFiles fs (joinPath itemPath) content r.appended
      (includable fs itemPath (name :: entries)) r' := by
  have hname : name ∉ includable fs itemPath (name :: entries) :=
    fun hmem => not_includable_of_long hlong (includable_of_mem hmem)
  refine not_includesFiles hname ?_
  have hcases := h.file hlength hfile
  rw [if_pos hsup] at hcases
  by_cases hopens : Opens fs path
  · rw [if_pos hopens] at hcases
    exact .inl (hcases.2 ▸ (includeRest_extends hrest).2)
  · rw [if_neg hopens] at hcases
    rw [if_neg (by simp [hcases.1.status])] at hrest
    exact .inr (Option.some.inj hrest ▸ hcases.1.failed)

/-- The loop over a directory includes what it is to include if and only if no name or path that
it gets to is in its way. -/
theorem includeEntries_exact (h : Ongoing content r)
    (hentries : includeEntries before fs itemPath entries r = some r') :
    IncludesFiles fs (joinPath itemPath) content r.appended (includable fs itemPath entries) r' ↔
      EntriesFine fs itemPath entries := by
  induction entries generalizing r content with
  | nil =>
    rw [← Option.some.inj hentries]
    exact iff_of_true (includesFiles_nil h) trivial
  | cons name entries ih =>
    rw [includeEntries] at hentries
    obtain ⟨r₁, hentry, hrest⟩ := Option.bind_eq_some_iff.mp hentries
    rw [includeEntry] at hentry
    rw [EntriesFine]
    by_cases hdot : name = ['.'] ∨ name = ['.', '.']
    · rw [if_pos hdot] at hentry ⊢
      obtain rfl := Option.some.inj hentry
      rw [if_pos h.status] at hrest
      rw [includable_cons_skip (by tauto)]
      exact ih h hrest
    rw [if_neg hdot] at hentry ⊢
    by_cases hperm : checkFileTypePerm fs (dirEntryPath itemPath name) .regular = true
    swap
    · rw [if_neg hperm] at hentry ⊢
      obtain rfl := Option.some.inj hentry
      rw [if_pos h.status] at hrest
      rw [includable_cons_skip (.inr (.inr (not_includable_of_rejected hperm)))]
      exact ih h hrest
    rw [if_pos hperm] at hentry ⊢
    by_cases hlength : supSuffix.length ≤ name.length
    swap
    · exact iff_of_false (not_includesFiles_of_short hlength hentry hrest)
        fun hfine => hlength hfine.1
    have hcases := h.file hlength hentry
    by_cases hsup : supSuffix <:+ name
    swap
    · rw [if_neg hsup] at hcases ⊢
      rw [if_pos hcases.1.status] at hrest
      rw [includable_cons_skip (.inr (.inr fun hincl => hsup hincl.2)), and_iff_right hlength,
        ← hcases.2]
      exact ih hcases.1 hrest
    rw [if_pos hsup] at hcases ⊢
    rcases Nat.lt_or_ge (joinPath itemPath name).length pathMax with hshort | hlong
    swap
    · exact iff_of_false (not_includesFiles_of_long h hlength hsup hlong hentry hrest)
        fun hfine => Nat.not_lt.mpr hlong hfine.2.1
    rw [dirEntryPath_of_short hshort] at hcases hperm
    rw [includable_cons_of hdot ⟨hperm, hsup⟩, and_iff_right hlength, and_iff_right hshort]
    by_cases hopens : Opens fs (joinPath itemPath name)
    · rw [if_pos hopens] at hcases
      rw [if_pos hcases.1.status] at hrest
      rw [includesFiles_cons hopens, ← hcases.2, ih hcases.1 hrest]
      exact ⟨fun hfine _ => hfine, fun hfine => hfine hopens⟩
    · rw [if_neg hopens] at hcases
      rw [if_neg (by simp [hcases.1.status])] at hrest
      obtain rfl := Option.some.inj hrest
      rw [← hcases.2]
      exact iff_of_true (includesFiles_failed hopens hcases.1) fun h => absurd h hopens

/-- A file with less than a gigabyte before and in it is included without a fault. -/
theorem includeFile_isSome (hbuffer : Holds r.buffer content)
    (hsmall : content.length + (fileContent fs path).length < 1073740000) :
    ∃ r', includeFile before fs path name r = some r' ∧ ∃ content', Holds r'.buffer content' ∧
      content'.length ≤ content.length + (fileContent fs path).length := by
  rw [includeFile]
  simp only
  split
  · by_cases hopens : Opens fs path
    · obtain ⟨buffer', happend⟩ := append_isSome hbuffer (show [].length ≤ 1 by decide) hsmall
      rw [appendFileContent_opens hopens, happend]
      refine ⟨_, rfl, _, (append_holds hbuffer ⟨0, rfl⟩ happend).1, ?_⟩
      rw [List.length_append]
    · rw [appendFileContent_not_opens hopens]
      exact ⟨_, rfl, content, hbuffer, Nat.le_add_right _ _⟩
  · exact ⟨_, rfl, content, hbuffer, Nat.le_add_right _ _⟩

/-- The size of all files that the loop over a directory can read. -/
def entriesSize (fs : FileSystem) (itemPath : List Char) (entries : List (List Char)) : Nat :=
  (entries.map fun name => (fileContent fs (dirEntryPath itemPath name)).length).sum

theorem includeEntries_isSome (hbuffer : Holds r.buffer content)
    (hsmall : content.length + entriesSize fs itemPath entries < 1073740000) :
    ∃ r', includeEntries before fs itemPath entries r = some r' := by
  induction entries generalizing r content with
  | nil => exact ⟨r, rfl⟩
  | cons name entries ih =>
    rw [entriesSize, List.map_cons, List.sum_cons, ← entriesSize] at hsmall
    have hentry : ∃ r', includeEntry before fs itemPath name r = some r' ∧
        ∃ content', Holds r'.buffer content' ∧ content'.length ≤
          content.length + (fileContent fs (dirEntryPath itemPath name)).length := by
      rw [includeEntry]
      split_ifs
      · exact ⟨r, rfl, content, hbuffer, Nat.le_add_right _ _⟩
      · exact includeFile_isSome hbuffer (by omega)
      · exact ⟨r, rfl, content, hbuffer, Nat.le_add_right _ _⟩
    obtain ⟨r', hr', content', hbuffer', hle⟩ := hentry
    rw [includeEntries, hr', Option.bind_some]
    split
    · exact ih hbuffer' (by omega)
    · exact ⟨r', rfl⟩

/-- A file is included under its path. -/
theorem includeItem_of_regular (h : checkFileTypePerm fs path .regular = true) :
    includeItem before fs path buffer = includeFile before fs path path (.start buffer) := by
  rw [includeItem, if_pos h]

/-- What is not a file is a directory that opens, or nothing is included. -/
theorem includeItem_of_not_regular (h : checkFileTypePerm fs path .regular ≠ true) :
    includeItem before fs path buffer =
      if checkFileTypePerm fs path .directory = true ∧ Opens fs path then
        includeEntries before fs path (dirEntries fs path) (.start buffer)
      else some { Inclusion.start buffer with status := false } := by
  rw [includeItem, if_neg h]
  by_cases hdir : checkFileTypePerm fs path .directory = true
  · rw [if_neg (by rw [hdir]; decide)]
    cases hstat : fs.stat path with
    | none =>
      rw [checkFileTypePerm, hstat] at hdir
      cases hdir
    | some st =>
      have hopens : Opens fs path ↔ st.opens = true := by
        rw [Opens, hstat]
        simp only [Option.mem_def, Option.some.injEq, exists_eq_left']
      have hentries : dirEntries fs path = st.entries := by
        rw [dirEntries, hstat, Option.map_some, Option.getD_some]
      simp only [hdir, hopens, hentries, true_and]
  · rw [if_pos (Bool.eq_false_iff.mpr hdir), if_neg fun h => hdir h.1]

/-- A file is included as it should if and only if its path is no shorter than the suffix. -/
theorem includeFile_exact (hbuffer : Holds buffer content)
    (hfile : includeFile before fs path path (.start buffer) = some r) :
    IncludesFiles fs id content [] ([path].filter fun path => supSuffix <:+ path) r ↔
      supSuffix.length ≤ path.length := by
  by_cases hlength : supSuffix.length ≤ path.length
  swap
  · refine iff_of_false (fun h => hlength (h.tested path ?_)) hlength
    rw [includeFile_tested hfile]
    exact List.mem_singleton_self path
  refine iff_of_true ?_ hlength
  have hcases := (Ongoing.start hbuffer).file hlength hfile
  by_cases hsup : supSuffix <:+ path
  · have hfilter : ([path].filter fun path => supSuffix <:+ path) = [path] := by
      simp [hsup]
    rw [hfilter]
    rw [if_pos hsup] at hcases
    by_cases hopens : Opens fs path
    · rw [if_pos hopens] at hcases
      have hnil : IncludesFiles fs id _ r.appended [] r := includesFiles_nil hcases.1
      rw [hcases.2] at hnil
      exact (includesFiles_cons (show Opens fs (id path) from hopens)).mpr hnil
    · rw [if_neg hopens] at hcases
      have hfail : IncludesFiles fs id content r.appended [path] r :=
        includesFiles_failed hopens hcases.1
      rw [hcases.2] at hfail
      exact hfail
  · have hfilter : ([path].filter fun path => supSuffix <:+ path) = [] := by
      simp [hsup]
    rw [hfilter]
    rw [if_neg hsup] at hcases
    have hnil : IncludesFiles fs id content r.appended [] r := includesFiles_nil hcases.1
    rw [hcases.2] at hnil
    exact hnil

/-- The run of `include_item` ends unless the files are too large. -/
theorem includeItem_isSome (hbuffer : Holds buffer content)
    (hsmall : content.length + (fileContent fs path).length +
      entriesSize fs path (dirEntries fs path) < 1073740000) :
    ∃ r, includeItem before fs path buffer = some r := by
  have hstart : Holds (Inclusion.start buffer).buffer content := hbuffer
  by_cases hregular : checkFileTypePerm fs path .regular = true
  · rw [includeItem_of_regular hregular]
    obtain ⟨r, hr, -⟩ := includeFile_isSome hstart
      (show content.length + (fileContent fs path).length < 1073740000 by omega)
    exact ⟨r, hr⟩
  · rw [includeItem_of_not_regular hregular]
    split
    · exact includeEntries_isSome hstart
        (show content.length + entriesSize fs path (dirEntries fs path) < 1073740000 by omega)
    · exact ⟨_, rfl⟩

/-- `include_item` includes what it is to include if and only if no name or path that it gets to
is in its way, and it returns unless the files are too large. -/
theorem includeItem_exact (before : List Char → List Char) (fs : FileSystem) (path : List Char)
    (buffer : GenBuffer) (content : List Char) (hbuffer : Holds buffer content) :
    (∀ r, includeItem before fs path buffer = some r →
      (IncludesExactly fs path content r ↔ IncludeFine fs path)) ∧
    (content.length + (fileContent fs path).length + entriesSize fs path (dirEntries fs path) <
        1073740000 → ∃ r, includeItem before fs path buffer = some r) := by
  refine ⟨fun r hr => ?_, includeItem_isSome hbuffer⟩
  rw [IncludesExactly, IncludeFine]
  by_cases hregular : checkFileTypePerm fs path .regular = true
  · rw [includeItem_of_regular hregular] at hr
    rw [if_pos hregular, if_pos hregular]
    exact includeFile_exact hbuffer hr
  · rw [includeItem_of_not_regular hregular] at hr
    rw [if_neg hregular, if_neg hregular]
    split at hr
    next hdir =>
      have hexact := includeEntries_exact (Ongoing.start hbuffer) hr
      rw [if_pos hdir]
      exact hexact.trans ⟨fun h _ _ => h, fun h => h hdir.1 hdir.2⟩
    next hdir =>
      rw [if_neg hdir, ← Option.some.inj hr]
      exact iff_of_true ⟨hbuffer, rfl, rfl, rfl⟩ fun h₁ h₂ => absurd ⟨h₁, h₂⟩ hdir

/-- A directory with the entries `.`, `..`, a file to be included and one that is not. -/
def confDir : FileSystem := fun path =>
  if path = "/etc".toList then
    some ⟨.directory, true, true, [], [['.'], ['.', '.'], "a.sup".toList, "b.xml".toList]⟩
  else if path = "/etc/a.sup".toList then some ⟨.regular, true, true, "<m/>".toList, []⟩
  else if path = "/etc/b.xml".toList then some ⟨.regular, true, true, "<n/>".toList, []⟩
  else none

theorem includeItem_exact_dir : ∃ r,
    includeItem (fun _ => []) confDir "/etc".toList .init = some r ∧
      r.appended = ["a.sup".toList] ∧ IncludesExactly confDir "/etc".toList [] r := by
  have hexact := includeItem_exact (fun _ => []) confDir "/etc".toList .init [] holds_init
  obtain ⟨r, hr⟩ := hexact.2 (by decide +kernel)
  have happended : (includeItem (fun _ => []) confDir "/etc".toList .init).map
      Inclusion.appended = some ["a.sup".toList] := by decide +kernel
  rw [hr] at happended
  exact ⟨r, hr, Option.some.inj happended, (hexact.1 r hr).mpr (by decide +kernel)⟩

/-- A directory with a file whose name is one letter. -/
def shortDir : FileSystem := fun path =>
  if path = "/etc".toList then some ⟨.directory, true, true, [], ["a".toList]⟩
  else if path = "/etc/a".toList then some ⟨.regular, true, true, "<m/>".toList, []⟩
  else none

/-- The test of the suffix reads three bytes before the name. -/
theorem not_includeItem_exact : ¬ ∀ (before : List Char → List Char) (fs : FileSystem)
    (path : List Char) (buffer : GenBuffer) (content : List Char), Holds buffer content →
    ∀ r, includeItem before fs path buffer = some r → IncludesExactly fs path content r := by
  intro h
  have hrun : includeItem (fun _ => []) shortDir "/etc".toList .init =
      some ⟨.init, true, [], none, ["a".toList]⟩ := by decide +kernel
  have hexact := h _ _ _ _ _ holds_init _ hrun
  rw [IncludesExactly, if_neg (by decide +kernel), if_pos (by decide +kernel)] at hexact
  have hlength := hexact.tested "a".toList (List.mem_singleton_self _)
  revert hlength
  decide

/-! ## What is appended for a path -/

/-- The text that `include_item` appends for a path when it succeeds. -/
def Appends (before : List Char → List Char) (fs : FileSystem) (path text : List Char) : Prop :=
  ∃ buffer content r, Holds buffer content ∧ includeItem before fs path buffer = some r ∧
    r.status = true ∧ Holds r.buffer (content ++ text)

/-- What is appended for a file, if anything is. -/
def fileText (before : List Char → List Char) (fs : FileSystem) (path name : List Char) :
    List Char :=
  if strsuffixis (before name) name supSuffix = true ∧ Opens fs path then fileContent fs path
  else []

/-- What is appended for a directory in which every file opens. -/
def entriesText (before : List Char → List Char) (fs : FileSystem) (itemPath : List Char)
    (entries : List (List Char)) : List Char :=
  entries.flatMap fun name =>
    if name = ['.'] ∨ name = ['.', '.'] then []
    else if checkFileTypePerm fs (dirEntryPath itemPath name) .regular = true then
      fileText before fs (dirEntryPath itemPath name) name
    else []

def itemText (before : List Char → List Char) (fs : FileSystem) (path : List Char) : List Char :=
  if checkFileTypePerm fs path .regular = true then fileText before fs path path
  else entriesText before fs path (dirEntries fs path)

theorem holds_unique {content' : List Char} (h : Holds buffer content)
    (h' : Holds buffer content') : content = content' := by
  have hlength : content.length = content'.length := h.used.symm.trans h'.used
  rcases h.mem with ⟨-, rfl⟩ | ⟨-, hmem⟩
  · exact (List.length_eq_zero_iff.mp hlength.symm).symm
  · rcases h'.mem with ⟨-, rfl⟩ | ⟨-, hmem'⟩
    · exact List.length_eq_zero_iff.mp hlength
    · rw [hmem] at hmem'
      exact (List.append_inj (Option.some.inj hmem') hlength).1

/-- A file is appended as its text, and a buffer that has memory keeps it. -/
theorem includeFile_text (hbuffer : Holds r.buffer content)
    (hfile : includeFile before fs path name r = some r') (hstatus : r'.status = true) :
    Holds r'.buffer (content ++ fileText before fs path name) ∧
      (r.buffer.mem.isSome = true → r'.buffer.mem.isSome = true) := by
  rw [includeFile] at hfile
  simp only at hfile
  rw [fileText]
  by_cases hsup : strsuffixis (before name) name supSuffix = true
  · rw [if_pos hsup] at hfile
    by_cases hopens : Opens fs path
    · rw [appendFileContent_opens hopens, Option.map_map] at hfile
      obtain ⟨buffer', happend, rfl⟩ := Option.map_eq_some_iff.mp hfile
      obtain ⟨hholds, hsome⟩ := append_holds hbuffer ⟨0, rfl⟩ happend
      rw [if_pos ⟨hsup, hopens⟩]
      exact ⟨hholds, fun _ => hsome⟩
    · rw [appendFileContent_not_opens hopens, Option.map_some] at hfile
      rw [← Option.some.inj hfile] at hstatus
      cases hstatus
  · rw [if_neg hsup] at hfile
    rw [← Option.some.inj hfile, if_neg fun h => hsup h.1, List.append_nil]
    exact ⟨hbuffer, id⟩

theorem includeEntries_text (hbuffer : Holds r.buffer content)
    (hentries : includeEntries before fs itemPath entries r = some r')
    (hstatus : r'.status = true) :
    Holds r'.buffer (content ++ entriesText before fs itemPath entries) ∧
      (r.buffer.mem.isSome = true → r'.buffer.mem.isSome = true) := by
  induction entries generalizing r content with
  | nil =>
    rw [← Option.some.inj hentries, entriesText, List.flatMap_nil, List.append_nil]
    exact ⟨hbuffer, id⟩
  | cons name entries ih =>
    rw [includeEntries] at hentries
    obtain ⟨r₁, hentry, hrest⟩ := Option.bind_eq_some_iff.mp hentries
    split at hrest
    next hstatus₁ =>
      rw [entriesText, List.flatMap_cons, ← entriesText, ← List.append_assoc]
      rw [includeEntry] at hentry
      split_ifs at hentry ⊢
      · rw [← Option.some.inj hentry] at hrest
        rw [List.append_nil]
        exact ih hbuffer hrest
      · obtain ⟨hbuffer₁, hsome⟩ := includeFile_text hbuffer hentry hstatus₁
        obtain ⟨hholds, hsome'⟩ := ih hbuffer₁ hrest
        exact ⟨hholds, fun h => hsome' (hsome h)⟩
      · rw [← Option.some.inj hentry] at hrest
        rw [List.append_nil]
        exact ih hbuffer hrest
    next hstatus₁ =>
      rw [Option.some.inj hrest] at hstatus₁
      exact absurd hstatus hstatus₁

/-- `include_item` appends the text of its path whatever the buffer has in it. -/
theorem includeItem_text (hbuffer : Holds buffer content)
    (hitem : includeItem before fs path buffer = some r) (hstatus : r.status = true) :
    Holds r.buffer (content ++ itemText before fs path) ∧
      (buffer.mem.isSome = true → r.buffer.mem.isSome = true) := by
  have hstart : Holds (Inclusion.start buffer).buffer content := hbuffer
  rw [itemText]
  by_cases hregular : checkFileTypePerm fs path .regular = true
  · rw [includeItem_of_regular hregular] at hitem
    rw [if_pos hregular]
    exact includeFile_text hstart hitem hstatus
  · rw [includeItem_of_not_regular hregular] at hitem
    rw [if_neg hregular]
    split at hitem
    · exact includeEntries_text hstart hitem hstatus
    · rw [← Option.some.inj hitem] at hstatus
      cases hstatus

theorem appends_eq {text : List Char} (h : Appends before fs path text) :
    text = itemText before fs path := by
  obtain ⟨buffer, content, r, hbuffer, hitem, hstatus, hholds⟩ := h
  exact List.append_cancel_left
    (holds_unique hholds (includeItem_text hbuffer hitem hstatus).1)

/-- Every byte that is appended for a path is from a file. -/
theorem itemText_mem {c : Char} (h : c ∈ itemText before fs path) :
    ∃ path st, fs.stat path = some st ∧ c ∈ st.content := by
  have hfile : ∀ path name, c ∈ fileText before fs path name →
      ∃ path st, fs.stat path = some st ∧ c ∈ st.content := by
    intro path name hc
    rw [fileText] at hc
    split at hc
    next hopens =>
      obtain ⟨-, st, hst, -⟩ := hopens
      rw [fileContent, Option.mem_def.mp hst] at hc
      exact ⟨path, st, hst, hc⟩
    · cases hc
  rw [itemText] at h
  split at h
  · exact hfile _ _ h
  · obtain ⟨name, -, hname⟩ := List.mem_flatMap.mp h
    split_ifs at hname
    · cases hname
    · exact hfile _ _ hname
    · cases hname

end includes

end NemeaSupervisor
