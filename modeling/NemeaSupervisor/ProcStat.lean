import NemeaSupervisor.Template

/-!
# Resource usage of the modules

`update_modules_resources_usage` reads the processor times and the memory sizes of the modules
from the files of `/proc`. The percentages of a period, which are floating point numbers, are
not modelled.
-/

namespace NemeaSupervisor

open CText

/-! ## The files of `/proc` -/

/-- What a slot holds of the resources of its module. -/
structure PeriodUsage where
  lastPeriodCpuUsageUserMode : UInt64
  lastPeriodCpuUsageKernelMode : UInt64
  virtualMemorySize : UInt64
  residentSetSize : UInt64
  deriving DecidableEq, Repr

/-- The body of the loop over the tokens for the token number `y`, without a result where the
`continue` is taken. -/
def storeField (y : Nat) (token : List Char) (usage : PeriodUsage) : Option PeriodUsage :=
  if y = 14 then
    (strtoul token).map fun utime => { usage with lastPeriodCpuUsageUserMode := utime }
  else if y = 15 then
    (strtoul token).map fun stime => { usage with lastPeriodCpuUsageKernelMode := stime }
  else if y = 23 then (strtoul token).map fun num => { usage with virtualMemorySize := num }
  else some usage

/-- The loop over the tokens, of which the first one is the current one. A `continue` counts but
does not go on to the next token. -/
def tokenWalk : Nat → Nat → List (List Char) → PeriodUsage → PeriodUsage
  | 0, _, _, usage => usage
  | _ + 1, _, [], usage => usage
  | n + 1, y, token :: tokens, usage =>
    match storeField y token usage with
    | none => tokenWalk n (y + 1) (token :: tokens) usage
    | some usage => tokenWalk n (y + 1) tokens usage

/-- The number in the first line of `/proc/PID/status` with the resident set size. -/
def residentSetSize (statusLines : List (List Char)) : Option UInt64 :=
  (statusLines.find? fun line => "VmRSS".toList <:+: cString line).bind fun line =>
    (strtok line).findSome? fun token =>
      match strtoul token with
      | some num => if 0 < num then some num else none
      | none => none

/-- The body of `update_modules_resources_usage` for the content of `/proc/PID/stat` and
`/proc/PID/status`, if these files open. -/
def updateModuleUsage (procStat procStatus : Option (List Char)) (usage : PeriodUsage) :
    PeriodUsage :=
  match procStat.bind fun content => (templateLines content).head? with
  | none => usage
  | some line =>
    if strtok line = [] then usage
    else
      let usage := tokenWalk 23 1 (strtok line) usage
      match procStatus.bind fun content => residentSetSize (templateLines content) with
      | none => usage
      | some num => { usage with residentSetSize := num }

/-- `get_total_cpu_usage` for the content of `/proc/stat`. -/
def getTotalCpuUsage (procStat : Option (List Char)) : Option UInt64 :=
  match procStat.bind fun content => (templateLines content).head? with
  | none => none
  | some line =>
    match strtok line with
    | [] => none
    | token :: tokens =>
      if token = "cpu".toList then (tokens.mapM strtoul).map List.sum else none

/-- `update_modules_resources_usage`, with the total of the last period. -/
def updateModulesResourcesUsage (procStat : Option (List Char))
    (procPid : Int → Option (List Char) × Option (List Char)) (lastTotalCpu : UInt64)
    (slots : List (RunningModule × PeriodUsage)) : UInt64 × List (RunningModule × PeriodUsage) :=
  match getTotalCpuUsage procStat with
  | none => (lastTotalCpu, slots)
  | some newTotalCpu =>
    if newTotalCpu - lastTotalCpu = 0 then (lastTotalCpu, slots)
    else
      (newTotalCpu, slots.map fun (m, usage) =>
        if m.moduleStatus then
          (m, updateModuleUsage (procPid m.modulePid).1 (procPid m.modulePid).2 usage)
        else (m, usage))

/-! ## The line of the kernel -/

/-- The name of a process as the kernel prints it. -/
structure Comm where
  text : List Char
  newline : '\n' ∉ text
  null : '\x00' ∉ text

/-- The name in parentheses, the second field. -/
def Comm.parenthesized (comm : Comm) : List Char := '(' :: (comm.text ++ [')'])

/-- A line of `/proc/PID/stat`: the fields 14, 15 and 23 stand behind ten and behind seven
others. -/
structure StatLine where
  pid : Nat
  comm : Comm
  state : Char
  before : List Int
  utime : UInt64
  stime : UInt64
  middle : List Int
  vsize : UInt64
  after : List Int
  state_letter : state.isAlpha = true
  before_length : before.length = 10
  middle_length : middle.length = 7
  after_ne_nil : after ≠ []

namespace StatLine

variable (line : StatLine)

/-- The fields between the name and the user time. -/
def firstFields : List (List Char) := [line.state] :: line.before.map decimal

/-- The fields from the user time to the virtual memory size. -/
def counters : List (List Char) :=
  decimal line.utime.toNat :: decimal line.stime.toNat ::
    (line.middle.map decimal ++ [decimal line.vsize.toNat])

def text : List Char :=
  spaced (decimal line.pid :: line.comm.parenthesized ::
    (line.firstFields ++ (line.counters ++ line.after.map decimal))) ++ ['\n']

end StatLine

/-- The fields 14, 15 and 23 have been stored. -/
def StoresFields (line : StatLine) (usage : PeriodUsage) : Prop :=
  usage.lastPeriodCpuUsageUserMode = line.utime ∧
    usage.lastPeriodCpuUsageKernelMode = line.stime ∧ usage.virtualMemorySize = line.vsize

instance (line : StatLine) (usage : PeriodUsage) : Decidable (StoresFields line usage) :=
  inferInstanceAs (Decidable (_ ∧ _))

/-! ## The walk -/

theorem templateLines_single {w : List Char} (h : '\n' ∉ w) :
    templateLines (w ++ ['\n']) = [w ++ ['\n']] := by
  induction w with
  | nil => rfl
  | cons c w ih =>
    rw [List.mem_cons, not_or] at h
    rw [List.cons_append, templateLines, if_neg (Ne.symm h.1), ih h.2]

section walk

variable {usage : PeriodUsage} {tokens : List (List Char)} {token : List Char} {n y : Nat}

/-- A token that is not one of the three is passed over. -/
theorem tokenWalk_skip (h14 : y ≠ 14) (h15 : y ≠ 15) (h23 : y ≠ 23) :
    tokenWalk (n + 1) y (token :: tokens) usage = tokenWalk n (y + 1) tokens usage := by
  rw [tokenWalk, storeField, if_neg h14, if_neg h15, if_neg h23]

theorem tokenWalk_skips (first : List (List Char))
    (h : ∀ k, y ≤ k → k < y + first.length → k ≠ 14 ∧ k ≠ 15 ∧ k ≠ 23) :
    tokenWalk (first.length + n) y (first ++ tokens) usage =
      tokenWalk n (y + first.length) tokens usage := by
  induction first generalizing y with
  | nil => rw [List.length_nil, Nat.zero_add, List.nil_append, Nat.add_zero]
  | cons token first ih =>
    rw [List.length_cons] at h
    obtain ⟨h14, h15, h23⟩ := h y (Nat.le_refl y) (by omega)
    have hlength : first.length + 1 + n = first.length + n + 1 := by omega
    have hy : y + (first.length + 1) = y + 1 + first.length := by omega
    rw [List.length_cons, List.cons_append, hlength, tokenWalk_skip h14 h15 h23,
      ih fun k hk hlt => h k (by omega) (by omega), hy]

/-- Thirteen tokens are passed over before the first counter. -/
theorem tokenWalk_first {first : List (List Char)} (hfirst : first.length = 13) :
    tokenWalk 23 1 (first ++ tokens) usage = tokenWalk 10 14 tokens usage := by
  have hskips := @tokenWalk_skips usage tokens 10 1 first fun k _ hk => by omega
  rw [hfirst] at hskips
  exact hskips

/-- Seven tokens are passed over between the second counter and the third. -/
theorem tokenWalk_middle {middle : List (List Char)} (hmiddle : middle.length = 7) :
    tokenWalk 8 16 (middle ++ tokens) usage = tokenWalk 1 23 tokens usage := by
  have hskips := @tokenWalk_skips usage tokens 1 16 middle fun k _ hk => by omega
  rw [hmiddle] at hskips
  exact hskips

/-- Behind the token 14 the user time stays. -/
theorem tokenWalk_userMode (hy : 14 < y) :
    (tokenWalk n y tokens usage).lastPeriodCpuUsageUserMode =
      usage.lastPeriodCpuUsageUserMode := by
  induction n generalizing y tokens usage with
  | zero => rfl
  | succ n ih =>
    cases tokens with
    | nil => rfl
    | cons token tokens =>
      rw [tokenWalk]
      split
      · exact ih (by omega)
      next usage' hfield =>
        rw [ih (by omega)]
        rw [storeField, if_neg (by omega)] at hfield
        split_ifs at hfield
        · obtain ⟨stime, -, rfl⟩ := Option.map_eq_some_iff.mp hfield
          rfl
        · obtain ⟨num, -, rfl⟩ := Option.map_eq_some_iff.mp hfield
          rfl
        · rw [Option.some.inj hfield]

/-- The user time is what the token 14 says, if anything. -/
theorem tokenWalk_fourteen {first : List (List Char)} (hfirst : first.length = 13) :
    (tokenWalk 23 1 (first ++ token :: tokens) usage).lastPeriodCpuUsageUserMode =
      (strtoul token).getD usage.lastPeriodCpuUsageUserMode := by
  rw [tokenWalk_first hfirst, tokenWalk, storeField, if_pos rfl]
  cases strtoul token with
  | none => exact tokenWalk_userMode (by decide)
  | some utime => exact tokenWalk_userMode (by decide)

/-- The walk where the three counters are the tokens 14, 15 and 23. -/
theorem tokenWalk_counters {first middle rest : List (List Char)} (hfirst : first.length = 13)
    (hmiddle : middle.length = 7) (utime stime vsize : UInt64) :
    tokenWalk 23 1 (first ++ decimal utime.toNat :: decimal stime.toNat ::
        (middle ++ decimal vsize.toNat :: rest)) usage =
      { usage with
        lastPeriodCpuUsageUserMode := utime
        lastPeriodCpuUsageKernelMode := stime
        virtualMemorySize := vsize } := by
  rw [tokenWalk_first hfirst, tokenWalk, storeField, if_pos rfl, strtoul_decimal]
  simp only [Option.map_some]
  rw [tokenWalk, storeField, if_neg (by decide), if_pos rfl, strtoul_decimal]
  simp only [Option.map_some]
  rw [tokenWalk_middle hmiddle, tokenWalk, storeField, if_neg (by decide), if_neg (by decide),
    if_pos rfl, strtoul_decimal]
  rfl

end walk

/-! ## The tokens of the kernel's line -/

/-- A field without blanks that does not end the line. -/
structure PlainField (field : List Char) : Prop where
  ne_nil : field ≠ []
  blank : ' ' ∉ field
  newline : '\n' ∉ field
  null : '\x00' ∉ field

theorem decimal_plain (v : Int) : PlainField (decimal v) :=
  ⟨decimal_ne_nil v, decimal_not_mem v (by decide) (by decide),
    decimal_not_mem v (by decide) (by decide), decimal_not_mem v (by decide) (by decide)⟩

theorem decimals_plain (vs : List Int) : ∀ field ∈ vs.map decimal, PlainField field := by
  intro field hfield
  obtain ⟨v, -, rfl⟩ := List.mem_map.mp hfield
  exact decimal_plain v

theorem letter_plain {c : Char} (h : c.isAlpha = true) : PlainField [c] := by
  have hne : ∀ d : Char, d.isAlpha = false → d ∉ [c] := by
    intro d hd hmem
    rw [← List.mem_singleton.mp hmem, hd] at h
    cases h
  exact ⟨List.cons_ne_nil _ _, hne _ (by decide), hne _ (by decide), hne _ (by decide)⟩

theorem flatMap_words_plain {fields : List (List Char)} (h : ∀ field ∈ fields, PlainField field) :
    fields.flatMap words = fields :=
  flatMap_words fun field hfield => ⟨(h field hfield).ne_nil, (h field hfield).blank⟩

/-- The name is one token if and only if it has no blank. -/
theorem words_parenthesized (comm : Comm) (h : ' ' ∉ comm.text) :
    words comm.parenthesized = [comm.parenthesized] := by
  refine words_of_no_blank (List.cons_ne_nil _ _) ?_
  simp [Comm.parenthesized, h]

theorem two_le_words_parenthesized (comm : Comm) (h : ' ' ∈ comm.text) :
    2 ≤ (words comm.parenthesized).length := by
  obtain ⟨a, b, htext⟩ := List.append_of_mem h
  have hsplit : comm.parenthesized = ('(' :: a) ++ ' ' :: (b ++ [')']) := by
    rw [Comm.parenthesized, htext, List.append_assoc]
    rfl
  have hopen : words ('(' :: a) ≠ [] := words_ne_nil List.mem_cons_self (by decide)
  have hclose : words (b ++ [')']) ≠ [] :=
    words_ne_nil (List.mem_append_right _ (List.mem_singleton_self ')')) (by decide)
  rw [hsplit, words_append, List.length_append]
  have := List.length_pos_iff.mpr hopen
  have := List.length_pos_iff.mpr hclose
  omega

namespace StatLine

variable (line : StatLine)

theorem firstFields_plain : ∀ field ∈ line.firstFields, PlainField field :=
  List.forall_mem_cons.mpr ⟨letter_plain line.state_letter, decimals_plain _⟩

theorem counters_plain : ∀ field ∈ line.counters, PlainField field := by
  refine List.forall_mem_cons.mpr ⟨decimal_plain _, List.forall_mem_cons.mpr ⟨decimal_plain _, ?_⟩⟩
  exact List.forall_mem_append.mpr
    ⟨decimals_plain _, List.forall_mem_singleton.mpr (decimal_plain _)⟩

theorem firstFields_length : line.firstFields.length = 11 := by
  rw [firstFields, List.length_cons, List.length_map, line.before_length]

/-- What has no place in a field has none before the end of the line. -/
theorem not_mem_spaced {c : Char} (hblank : c ≠ ' ') (hcomm : c ∉ line.comm.parenthesized)
    (hplain : ∀ field, PlainField field → c ∉ field) :
    c ∉ spaced (decimal line.pid :: line.comm.parenthesized ::
      (line.firstFields ++ (line.counters ++ line.after.map decimal))) := by
  intro hmem
  rcases mem_spaced hmem with rfl | ⟨field, hfield, hc⟩
  · exact hblank rfl
  · rcases List.mem_cons.mp hfield with rfl | hfield
    · exact hplain _ (decimal_plain _) hc
    rcases List.mem_cons.mp hfield with rfl | hfield
    · exact hcomm hc
    rcases List.mem_append.mp hfield with hfield | hfield
    · exact hplain _ (line.firstFields_plain field hfield) hc
    rcases List.mem_append.mp hfield with hfield | hfield
    · exact hplain _ (line.counters_plain field hfield) hc
    · exact hplain _ (decimals_plain _ field hfield) hc

theorem newline_not_mem : '\n' ∉ spaced (decimal line.pid :: line.comm.parenthesized ::
    (line.firstFields ++ (line.counters ++ line.after.map decimal))) := by
  refine line.not_mem_spaced (by decide) ?_ fun _ h => h.newline
  simp [Comm.parenthesized, line.comm.newline]

theorem null_not_mem : '\x00' ∉ spaced (decimal line.pid :: line.comm.parenthesized ::
    (line.firstFields ++ (line.counters ++ line.after.map decimal))) := by
  refine line.not_mem_spaced (by decide) ?_ fun _ h => h.null
  simp [Comm.parenthesized, line.comm.null]

/-- The tokens of the line are its fields up to the counters, except that the name may be more
than one token. -/
theorem strtok_text : ∃ rest, strtok line.text =
    decimal line.pid :: words line.comm.parenthesized ++
      (line.firstFields ++ (line.counters ++ rest)) := by
  have hnull : '\x00' ∉ line.text := by
    rw [text, List.mem_append, not_or]
    exact ⟨line.null_not_mem, by decide⟩
  have hafter : line.after.map decimal ≠ [] := by
    rw [Ne, List.map_eq_nil_iff]
    exact line.after_ne_nil
  refine ⟨words (spaced (line.after.map decimal) ++ ['\n']), ?_⟩
  have hfields : decimal line.pid :: line.comm.parenthesized ::
      (line.firstFields ++ (line.counters ++ line.after.map decimal)) =
      ([decimal line.pid] ++ [line.comm.parenthesized] ++ line.firstFields ++ line.counters) ++
        line.after.map decimal := by
    simp only [List.append_assoc, List.cons_append, List.nil_append]
  have hpid : [decimal line.pid].flatMap words = [decimal line.pid] :=
    flatMap_words_plain (List.forall_mem_singleton.mpr (decimal_plain _))
  rw [strtok, cString_of_no_null hnull, text, hfields, words_spaced _ hafter, List.flatMap_append,
    List.flatMap_append, List.flatMap_append, hpid, List.flatMap_singleton,
    flatMap_words_plain line.firstFields_plain, flatMap_words_plain line.counters_plain]
  simp only [List.append_assoc, List.cons_append, List.nil_append]

/-- The module gets what the walk over the tokens of its line stores. -/
theorem storesFields_iff (procStatus : Option (List Char)) (usage : PeriodUsage) :
    StoresFields line (updateModuleUsage (some line.text) procStatus usage) ↔
      StoresFields line (tokenWalk 23 1 (strtok line.text) usage) := by
  have hlines : (some line.text).bind (fun content => (templateLines content).head?) =
      some line.text := by
    rw [Option.bind_some, text, templateLines_single line.newline_not_mem]
    rfl
  have hne : strtok line.text ≠ [] := by
    obtain ⟨rest, htokens⟩ := line.strtok_text
    rw [htokens]
    exact List.cons_ne_nil _ _
  rw [updateModuleUsage, hlines]
  simp only
  rw [if_neg hne]
  generalize tokenWalk 23 1 (strtok line.text) usage = walked
  split
  · exact Iff.rfl
  · exact Iff.rfl

end StatLine

/-- A line with a given name and user time. -/
def lineOf (comm : Comm) (utime : UInt64) : StatLine where
  pid := 1
  comm := comm
  state := 'S'
  before := List.replicate 10 0
  utime := utime
  stime := 0
  middle := List.replicate 7 0
  vsize := 0
  after := [0]
  state_letter := by decide
  before_length := rfl
  middle_length := rfl
  after_ne_nil := List.cons_ne_nil _ _

/-- With a blank in the name the user time is none of the first 14 tokens. -/
theorem lineOf_walk (comm : Comm) (h : ' ' ∈ comm.text) (usage : PeriodUsage) :
    ∃ utime, ∀ n, (tokenWalk 23 1 (strtok (lineOf comm n).text)
      usage).lastPeriodCpuUsageUserMode = utime := by
  let first := decimal (1 : Nat) :: words comm.parenthesized ++ (lineOf comm 0).firstFields
  have hlong : 13 < first.length := by
    have htwo := two_le_words_parenthesized comm h
    rw [List.length_append, List.length_cons, StatLine.firstFields_length]
    omega
  have hsplit : first = first.take 13 ++ first[13] :: first.drop 14 := by
    rw [← List.drop_eq_getElem_cons hlong, List.take_append_drop]
  refine ⟨(strtoul first[13]).getD usage.lastPeriodCpuUsageUserMode, fun n => ?_⟩
  obtain ⟨rest, htokens⟩ := (lineOf comm n).strtok_text
  have hfirst : strtok (lineOf comm n).text = first.take 13 ++ first[13] ::
      (first.drop 14 ++ ((lineOf comm n).counters ++ rest)) := by
    rw [htokens, ← List.cons_append, ← List.append_assoc (first.take 13), ← hsplit]
    exact (List.append_assoc _ _ _).symm
  rw [hfirst]
  exact tokenWalk_fourteen (List.length_take_of_le (Nat.le_of_lt hlong))

/-- The three counters of every line with a given name are stored if and only if the name has no
blank. -/
theorem updateModuleUsage_fields (comm : Comm) :
    (∀ line : StatLine, line.comm = comm → ∀ procStatus usage,
      StoresFields line (updateModuleUsage (some line.text) procStatus usage)) ↔
        ' ' ∉ comm.text := by
  constructor
  · intro h hblank
    let usage : PeriodUsage := ⟨0, 0, 0, 0⟩
    obtain ⟨utime, hutime⟩ := lineOf_walk comm hblank usage
    have hstores : ∀ n, StoresFields (lineOf comm n)
        (tokenWalk 23 1 (strtok (lineOf comm n).text) usage) :=
      fun n => ((lineOf comm n).storesFields_iff none usage).mp (h (lineOf comm n) rfl none usage)
    have hsame : (lineOf comm 0).utime = (lineOf comm 1).utime :=
      ((hstores 0).1.symm.trans (hutime 0)).trans ((hutime 1).symm.trans (hstores 1).1)
    exact absurd hsame (by change ¬ ((0 : UInt64) = 1); decide)
  · rintro hblank line rfl procStatus usage
    rw [line.storesFields_iff]
    obtain ⟨rest, htokens⟩ := line.strtok_text
    have hfirst : (decimal line.pid :: [line.comm.parenthesized] ++ line.firstFields).length =
        13 := by
      rw [List.length_append, line.firstFields_length]
      rfl
    have hmiddle : (line.middle.map decimal).length = 7 := by
      rw [List.length_map, line.middle_length]
    have hsplit : decimal line.pid :: [line.comm.parenthesized] ++
        (line.firstFields ++ (line.counters ++ rest)) =
        (decimal line.pid :: [line.comm.parenthesized] ++ line.firstFields) ++
          decimal line.utime.toNat :: decimal line.stime.toNat ::
            (line.middle.map decimal ++ decimal line.vsize.toNat :: rest) := by
      simp only [StatLine.counters, List.append_assoc, List.cons_append, List.nil_append]
    rw [htokens, words_parenthesized line.comm hblank, hsplit,
      tokenWalk_counters hfirst hmiddle]
    exact ⟨rfl, rfl, rfl⟩

/-- The line of a process whose name has a blank. -/
def flowMeterLine : StatLine where
  pid := 4242
  comm := ⟨"flow meter".toList, by decide, by decide⟩
  state := 'S'
  before := [1, 4242, 4242, 0, -1, 4194304, 120, 0, 0, 0]
  utime := 350
  stime := 120
  middle := [0, 0, 20, 0, 1, 0, 5000]
  vsize := 12000000
  after := [300]
  state_letter := by decide
  before_length := rfl
  middle_length := rfl
  after_ne_nil := List.cons_ne_nil _ _

example : updateModuleUsage (some flowMeterLine.text) none ⟨0, 0, 0, 0⟩ = ⟨0, 350, 5000, 0⟩ := by
  decide +kernel

/-- Each counter gets the field before its own. -/
theorem not_updateModuleUsage_fields : ¬ ∀ (line : StatLine) procStatus usage,
    StoresFields line (updateModuleUsage (some line.text) procStatus usage) := by
  intro h
  have hstores := h flowMeterLine none ⟨0, 0, 0, 0⟩
  revert hstores
  decide +kernel

end NemeaSupervisor
