import NemeaSupervisor.Machine
import NemeaSupervisor.Template

/-!
# Browsing the log files

`interactive_browse_log_files` hands the path of a log file over to the client in a temporary
file, with its length, and the client reads both back. A `Char` stands for a byte. A store
outside a buffer ends the run, for which there is no result.
-/

namespace NemeaSupervisor

open CText

def modulesLogsDirName : List Char := "modules_logs".toList

def supervisorLogFileName : List Char := "supervisor_log".toList

def modulesStatsFileName : List Char := "modules_statistics".toList

def modulesEventsFileName : List Char := "modules_events".toList

/-! ## The supervisor -/

/-- The modules have two logs each. -/
def logSuffix (idx : Nat) : List Char :=
  if idx % 2 = 0 then "_stdout".toList else "_stderr".toList

/-- The path of the log with a number, where there are `maxNumOfLogs` of them. -/
def logPath (logsPath : List Char) (loaded : List RunningModule) (maxNumOfLogs idx : Nat) :
    Option (List Char) :=
  if idx + 3 < maxNumOfLogs then
    (loaded[idx / 2]?).bind fun m => m.moduleName.map fun name =>
      logsPath ++ (modulesLogsDirName ++ '/' :: (bytes name ++ logSuffix idx))
  else if idx + 3 = maxNumOfLogs then some (logsPath ++ supervisorLogFileName)
  else if idx + 2 = maxNumOfLogs then some (logsPath ++ modulesStatsFileName)
  else some (logsPath ++ modulesEventsFileName)

/-- `interactive_browse_log_files` in daemon mode: the path that is handed over, if any. Before the
choice the path of every log is put into a buffer of `PATH_MAX` bytes, and `max_num_of_logs` is an
`uint16_t`. -/
def interactiveBrowseLogFiles (access : List Char → Bool) (logsPath : List Char)
    (loaded : List RunningModule) (input : Option (List Char)) (tmpFileOpens : Bool) :
    Option (Option (List Char)) :=
  let maxNumOfLogs := 2 * loaded.length + 3
  if 65536 ≤ maxNumOfLogs then none
  else if ∃ idx < maxNumOfLogs, ∀ path ∈ logPath logsPath loaded maxNumOfLogs idx,
      pathMax ≤ path.length then none
  else
    let chosenLogIdx := getNumberFromInputChoosingOption input
    if chosenLogIdx = -1 ∨ maxNumOfLogs ≤ chosenLogIdx then some none
    else
      (logPath logsPath loaded maxNumOfLogs chosenLogIdx.toNat).map fun filePath =>
        if access filePath = true ∧ tmpFileOpens = true then some filePath else none

/-- The temporary file, with `"%d\n%s"`. -/
def tmpFile (filePath : List Char) : List Char := decimal filePath.length ++ '\n' :: filePath

/-! ## The client -/

/-- `fscanf(f, "%d")`, with what is left. -/
def fscanfInt (s : List Char) : Option (Int × List Char) :=
  let (negative, rest) := numberSign (s.dropWhile isspace)
  let ds := rest.takeWhile Char.isDigit
  if ds = [] then none
  else
    some (longToInt (if negative then -(digitsValue ds : Int) else digitsValue ds),
      rest.dropWhile Char.isDigit)

/-- `fscanf(f, "%s")`. -/
def fscanfWord (s : List Char) : Option (List Char) :=
  let word := (s.dropWhile isspace).takeWhile fun c => isspace c = false
  if word = [] then none else some word

/-- The reader of the client: the length, for which a buffer of one byte more is allocated, and the
path that is stored there with a terminator. -/
def readTmpFile (file : List Char) : Option (Int × List Char) :=
  (fscanfInt file).bind fun (filePathLen, rest) =>
    if 0 < filePathLen then
      (fscanfWord (rest.dropWhile isspace)).map fun filePath => (filePathLen, filePath)
    else none

/-! ## Reading back -/

/-- The client gets the path. -/
def Recovers (filePath : List Char) : Prop :=
  ∃ filePathLen, readTmpFile (tmpFile filePath) = some (filePathLen, filePath)

/-- What the client stores fits into its buffer. -/
def Fits (filePath : List Char) : Prop :=
  ∀ filePathLen stored, readTmpFile (tmpFile filePath) = some (filePathLen, stored) →
    (stored.length : Int) + 1 ≤ filePathLen + 1

def SpaceFree (s : List Char) : Prop := ∀ c ∈ s, isspace c = false

instance (s : List Char) : Decidable (SpaceFree s) := List.decidableBAll _ s

section reading

variable {filePath a b : List Char}

theorem spaceFree_append : SpaceFree (a ++ b) ↔ SpaceFree a ∧ SpaceFree b := List.forall_mem_append

/-- The length is read back, with the line break and the path left. -/
theorem fscanfInt_tmpFile (h : filePath.length < pathMax) :
    fscanfInt (tmpFile filePath) = some (↑filePath.length, '\n' :: filePath) := by
  have hdecimal := decimal_natCast filePath.length
  have hdigits : ∀ c ∈ decimal filePath.length, c.isDigit = true := by
    rw [hdecimal]
    exact fun c hc => Nat.isDigit_of_mem_toDigits (by decide) (by decide) hc
  have htake : (tmpFile filePath).takeWhile Char.isDigit = decimal filePath.length := by
    rw [tmpFile, List.takeWhile_append_of_pos hdigits, List.takeWhile_cons_of_neg (by decide),
      List.append_nil]
  have hdrop : (tmpFile filePath).dropWhile Char.isDigit = '\n' :: filePath := by
    rw [tmpFile, List.dropWhile_append_of_pos hdigits, List.dropWhile_cons_of_neg (by decide)]
  obtain ⟨c, cs, heq⟩ := List.exists_cons_of_ne_nil (decimal_ne_nil filePath.length)
  have hc : c.isDigit = true := hdigits c (by rw [heq]; exact List.mem_cons_self)
  have hfile : tmpFile filePath = c :: (cs ++ '\n' :: filePath) := by
    rw [tmpFile, heq, List.cons_append]
  have hskip : (tmpFile filePath).dropWhile isspace = tmpFile filePath := by
    rw [hfile, List.dropWhile_cons_of_neg]
    rw [isspace_of_isDigit hc]
    decide
  have hvalue : digitsValue (decimal filePath.length) = filePath.length := by
    rw [hdecimal, digitsValue_toDigits]
  have hint : longToInt filePath.length = filePath.length := by
    rw [pathMax] at h
    exact longToInt_int (by omega) (by omega)
  rw [fscanfInt, hskip, hfile, numberSign_of_isDigit hc, ← hfile]
  simp only [htake, hdrop, hvalue, if_neg (decimal_ne_nil filePath.length), Bool.false_eq_true,
    if_false, hint]

theorem readTmpFile_tmpFile (hne : filePath ≠ []) (hlength : filePath.length < pathMax) :
    readTmpFile (tmpFile filePath) =
      (fscanfWord (filePath.dropWhile isspace)).map fun stored => (↑filePath.length, stored) := by
  have hpos : (0 : Int) < filePath.length :=
    Int.natCast_pos.mpr (List.length_pos_iff.mpr hne)
  have hbreak : ('\n' :: filePath).dropWhile isspace = filePath.dropWhile isspace :=
    List.dropWhile_cons_of_pos (by decide)
  rw [readTmpFile, fscanfInt_tmpFile hlength, Option.bind_some]
  simp only [if_pos hpos, hbreak]

/-- The word that is stored is a part of what is read. -/
theorem fscanfWord_spec {s word : List Char} (h : fscanfWord s = some word) :
    SpaceFree word ∧ word.length ≤ s.length := by
  rw [fscanfWord] at h
  split_ifs at h
  rw [← Option.some.inj h]
  refine ⟨fun c hc => of_decide_eq_true
    (List.mem_takeWhile_imp (p := fun c => decide (isspace c = false)) hc), ?_⟩
  exact (List.takeWhile_prefix _).length_le.trans (List.dropWhile_suffix _).length_le

theorem fscanfWord_spaceFree (hne : filePath ≠ []) (h : SpaceFree filePath) :
    fscanfWord (filePath.dropWhile isspace) = some filePath := by
  have hskip : filePath.dropWhile isspace = filePath := by
    obtain ⟨c, cs, rfl⟩ := List.exists_cons_of_ne_nil hne
    rw [List.dropWhile_cons_of_neg]
    rw [h c List.mem_cons_self]
    decide
  have htake : filePath.takeWhile (fun c => isspace c = false) = filePath :=
    List.takeWhile_eq_self_iff.mpr fun c hc => decide_eq_true (h c hc)
  rw [fscanfWord, hskip, hskip]
  simp only [htake, if_neg hne]

theorem recovers_iff (hne : filePath ≠ []) (hlength : filePath.length < pathMax) :
    Recovers filePath ↔ SpaceFree filePath := by
  rw [Recovers, readTmpFile_tmpFile hne hlength]
  constructor
  · rintro ⟨filePathLen, hread⟩
    obtain ⟨stored, hword, heq⟩ := Option.map_eq_some_iff.mp hread
    rw [← (Prod.mk.inj heq).2]
    exact (fscanfWord_spec hword).1
  · intro h
    rw [fscanfWord_spaceFree hne h]
    exact ⟨_, rfl⟩

theorem fits_tmpFile (hne : filePath ≠ []) (hlength : filePath.length < pathMax) :
    Fits filePath := by
  intro filePathLen stored hread
  rw [readTmpFile_tmpFile hne hlength] at hread
  obtain ⟨stored', hword, heq⟩ := Option.map_eq_some_iff.mp hread
  obtain ⟨rfl, rfl⟩ := Prod.mk.inj heq
  have hle := (fscanfWord_spec hword).2.trans (List.dropWhile_suffix isspace).length_le
  omega

end reading

/-! ## The paths of the logs -/

section paths

variable {access : List Char → Bool} {logsPath filePath : List Char}
  {loaded : List RunningModule} {input : Option (List Char)} {tmpFileOpens : Bool} {idx : Nat}

/-- A log path is free of white space if and only if the directory is and the name of the module
is, where there is one. -/
theorem spaceFree_logPath
    (h : logPath logsPath loaded (2 * loaded.length + 3) idx = some filePath) :
    filePath ≠ [] ∧ (SpaceFree filePath ↔ SpaceFree logsPath ∧
      ∀ m ∈ loaded[idx / 2]?, ∀ name ∈ m.moduleName, SpaceFree (bytes name)) := by
  rw [logPath] at h
  split at h
  next hmodule =>
    obtain ⟨m, hm, hpath⟩ := Option.bind_eq_some_iff.mp h
    obtain ⟨name, hname, rfl⟩ := Option.map_eq_some_iff.mp hpath
    have hdir : SpaceFree modulesLogsDirName ∧ SpaceFree ['/'] := by decide
    have hending : SpaceFree (logSuffix idx) := by
      unfold logSuffix
      split
      · decide
      · decide
    have hsplit : modulesLogsDirName ++ '/' :: (bytes name ++ logSuffix idx) =
        (modulesLogsDirName ++ ['/']) ++ (bytes name ++ logSuffix idx) := by
      rw [List.append_assoc, List.singleton_append]
    refine ⟨List.append_ne_nil_of_right_ne_nil _ (List.append_ne_nil_of_right_ne_nil _
      (List.cons_ne_nil _ _)), ?_⟩
    rw [hsplit, spaceFree_append, spaceFree_append, spaceFree_append, spaceFree_append,
      and_iff_right hdir, and_iff_left hending, hm]
    simp only [Option.mem_def, Option.some.injEq, forall_eq', hname]
  next hother =>
    have hnone : loaded[idx / 2]? = none := List.getElem?_eq_none_iff.mpr (by omega)
    have hfile : ∃ name, SpaceFree name ∧ name ≠ [] ∧ filePath = logsPath ++ name := by
      have hsupervisor : SpaceFree supervisorLogFileName := by decide
      have hstats : SpaceFree modulesStatsFileName := by decide
      have hevents : SpaceFree modulesEventsFileName := by decide
      split_ifs at h
      · exact ⟨_, hsupervisor, by decide, (Option.some.inj h).symm⟩
      · exact ⟨_, hstats, by decide, (Option.some.inj h).symm⟩
      · exact ⟨_, hevents, by decide, (Option.some.inj h).symm⟩
    obtain ⟨name, hname, hne, rfl⟩ := hfile
    refine ⟨List.append_ne_nil_of_right_ne_nil _ hne, ?_⟩
    rw [spaceFree_append, and_iff_left hname, hnone]
    exact (and_iff_left fun m hm => nomatch hm).symm

/-- The path that is handed over is that of the chosen log, which is not too long. -/
theorem interactiveBrowseLogFiles_eq_some
    (h : interactiveBrowseLogFiles access logsPath loaded input tmpFileOpens =
      some (some filePath)) :
    filePath.length < pathMax ∧ logPath logsPath loaded (2 * loaded.length + 3)
      (getNumberFromInputChoosingOption input).toNat = some filePath := by
  rw [interactiveBrowseLogFiles] at h
  simp only at h
  split_ifs at h with hmany hlong hwrong
  · simp at h
  obtain ⟨path, hpath, heq⟩ := Option.map_eq_some_iff.mp h
  split_ifs at heq
  obtain rfl := Option.some.inj heq
  refine ⟨Nat.lt_of_not_le fun hle => hlong
    ⟨(getNumberFromInputChoosingOption input).toNat, by omega, fun path' hpath' => ?_⟩, hpath⟩
  rw [hpath] at hpath'
  exact Option.some.inj hpath' ▸ hle

/-- The client gets the path of the log if and only if neither the directory nor the name of the
module has white space in it. What it stores fits into its buffer in any case. -/
theorem interactiveBrowseLogFiles_recovers (access : List Char → Bool) (logsPath : List Char)
    (loaded : List RunningModule) (input : Option (List Char)) (tmpFileOpens : Bool)
    (filePath : List Char)
    (h : interactiveBrowseLogFiles access logsPath loaded input tmpFileOpens =
      some (some filePath)) :
    (Recovers filePath ↔ SpaceFree logsPath ∧
      ∀ m ∈ loaded[(getNumberFromInputChoosingOption input).toNat / 2]?,
        ∀ name ∈ m.moduleName, SpaceFree (bytes name)) ∧ Fits filePath := by
  obtain ⟨hlength, hpath⟩ := interactiveBrowseLogFiles_eq_some h
  obtain ⟨hne, hspace⟩ := spaceFree_logPath hpath
  rw [recovers_iff hne hlength]
  exact ⟨hspace, fits_tmpFile hne hlength⟩

/-- A module with a blank in its name. -/
def flowMeterDocument : XmlNode := profileDocument [moduleElement "flow meter" "/a" "false" []]

def flowProbeDocument : XmlNode := profileDocument [moduleElement "flow_probe" "/a" "false" []]

theorem interactiveBrowseLogFiles_recovers_probe :
    Recovers "/var/log/modules_logs/flow_probe_stderr".toList ∧
      Fits "/var/log/modules_logs/flow_probe_stderr".toList := by
  have h := interactiveBrowseLogFiles_recovers (fun _ => true) "/var/log/".toList
    (boot [] (some flowProbeDocument)).sup.loaded (some ['1']) true
    "/var/log/modules_logs/flow_probe_stderr".toList (by decide +kernel)
  refine ⟨h.1.mpr ⟨by decide +kernel, ?_⟩, h.2⟩
  decide +kernel

/-- The client gets the path up to the blank. -/
theorem not_interactiveBrowseLogFiles_recovers : ¬ ∀ w, Reachable w →
    ∀ access logsPath input tmpFileOpens filePath,
      interactiveBrowseLogFiles access logsPath w.sup.loaded input tmpFileOpens =
        some (some filePath) → Recovers filePath := by
  intro h
  obtain ⟨filePathLen, hread⟩ := h (boot [] (some flowMeterDocument)) ⟨_, _, [], rfl⟩
    (fun _ => true) "/var/log/".toList (some ['0']) true
    "/var/log/modules_logs/flow meter_stdout".toList (by decide +kernel)
  have hstored : (readTmpFile (tmpFile "/var/log/modules_logs/flow meter_stdout".toList)).map
      Prod.snd = some "/var/log/modules_logs/flow".toList := by decide +kernel
  have hne : "/var/log/modules_logs/flow meter_stdout".toList ≠
      "/var/log/modules_logs/flow".toList := by decide +kernel
  rw [hread, Option.map_some] at hstored
  exact hne (Option.some.inj hstored)

end paths

end NemeaSupervisor
