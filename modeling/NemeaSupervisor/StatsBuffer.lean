import NemeaSupervisor.NumberSelection
import NemeaSupervisor.SocketBuffers
import NemeaSupervisor.StatsExport
import NemeaSupervisor.Thresholds

/-!
# The buffer of the formatted statistics

`make_formated_statistics` prints a line for each interface into a buffer that grows by
half after a line that has filled three fifths of it. There is no test before a line is
printed. A `Char` stands for a byte, and the writes are those of `sprintf`.
-/

namespace NemeaSupervisor

open CText Memory

/-! ## The lines -/

/-- `%s` prints up to a null byte. -/
def printString (s : Option String) : List Char := cString (bytes (s.getD "(null)"))

def printChar (c : UInt8) : List Char := [Char.ofNat c.toNat]

def printCounter (cnt : UInt64) : List Char := decimal cnt.toNat

def statsLine (fields : List (List Char)) : List Char := [','].intercalate fields ++ ['\n']

def inIfcLine (m : RunningModule) (ifc : InIfcStats) : List Char :=
  statsLine [printString m.moduleName, "in".toList, printChar ifc.ifcType,
    printString (some (ifc.ifcId.getD "none")), printCounter ifc.recvMsgCnt,
    printCounter ifc.recvBufferCnt]

def outIfcLine (m : RunningModule) (ifc : OutIfcStats) : List Char :=
  statsLine [printString m.moduleName, "out".toList, printChar ifc.ifcType,
    printString (some (ifc.ifcId.getD "none")), printCounter ifc.sentMsgCnt,
    printCounter ifc.droppedMsgCnt, printCounter ifc.sentBufferCnt, printCounter ifc.autoflushCnt]

def cpuLine (m : RunningModule) (usage : ResourceUsage) : List Char :=
  statsLine [printString m.moduleName, "cpu".toList, printCounter usage.cpuKernelMode,
    printCounter usage.cpuUserMode]

def memLine (m : RunningModule) (usage : ResourceUsage) : List Char :=
  statsLine [printString m.moduleName, "mem".toList,
    printCounter (usage.virtualMemorySize / (1024 * 1024))]

/-- The lines of a connected module. -/
def ifcLines (slot : RunningModule × ModuleStats) : List (List Char) :=
  if slot.1.moduleStatus ∧ slot.1.moduleServiceIfcIsconnected then
    slot.2.inIfcesData.map (inIfcLine slot.1) ++ slot.2.outIfcesData.map (outIfcLine slot.1)
  else []

/-- The line of a running module. -/
def usageLines (line : RunningModule → ResourceUsage → List Char) (usage : Nat → ResourceUsage)
    (slot : (RunningModule × ModuleStats) × Nat) : List (List Char) :=
  if slot.1.1.moduleStatus then [line slot.1.1 (usage slot.2)] else []

/-- All lines in their order. -/
def statsLines (statsMask : UInt8) (usage : Nat → ResourceUsage)
    (slots : List (RunningModule × ModuleStats)) : List (List Char) :=
  (if statsMask &&& 1 = 1 then slots.flatMap ifcLines else []) ++
    (if statsMask &&& 2 = 2 then slots.zipIdx.flatMap (usageLines cpuLine usage) else []) ++
    if statsMask &&& 4 = 4 then slots.zipIdx.flatMap (usageLines memLine usage) else []

/-! ## The buffer -/

/-- The text, where the next line is printed, and the size; the newest write stands first. -/
structure StatsBuffer where
  text : List Char
  ptr : Int
  sizeOfBuffer : Nat
  writes : List Write
  deriving DecidableEq, Repr

def strlen (text : List Char) : Nat := (cString text).length

/-- `size_of_buffer += size_of_buffer / 2`. -/
def nextSize (size : Nat) : Nat := (size + size / 2) % 4294967296

/-- `(3 * size_of_buffer) / 5`. -/
def growsFrom (size : Nat) : Nat := 3 * size % 4294967296 / 5

namespace StatsBuffer

def init : StatsBuffer := ⟨[], 0, 5 * defaultSizeOfBuffer, []⟩

def print (b : StatsBuffer) (line : List Char) : StatsBuffer :=
  { b with
    text := b.text ++ line
    ptr := cInt (b.ptr + line.length)
    writes := ⟨b.ptr, line.length + 1, b.sizeOfBuffer⟩ :: b.writes }

def grow (b : StatsBuffer) : StatsBuffer :=
  if strlen b.text ≥ growsFrom b.sizeOfBuffer then
    { b with sizeOfBuffer := nextSize b.sizeOfBuffer }
  else b

/-- One line. -/
def addLine (b : StatsBuffer) (line : List Char) : StatsBuffer := (b.print line).grow

def AllInside (b : StatsBuffer) : Prop := ∀ w ∈ b.writes, w.Inside

instance (b : StatsBuffer) : Decidable b.AllInside := inferInstanceAs (Decidable (∀ w ∈ _, _))

end StatsBuffer

/-- `make_formated_statistics`, when there is memory enough. -/
def makeFormatedStatistics (statsMask : UInt8) (usage : Nat → ResourceUsage)
    (slots : List (RunningModule × ModuleStats)) : StatsBuffer :=
  (statsLines statsMask usage slots).foldl StatsBuffer.addLine .init

/-! ## What fits -/

/-- The size that the buffer has when it has grown `k` times, 500, 750, 1125 and so on. -/
def statsBufferSize : Nat → Nat
  | 0 => 5 * defaultSizeOfBuffer
  | k + 1 => nextSize (statsBufferSize k)

/-- The length of the text at which a buffer that has grown `k` times grows. -/
def growthThreshold (k : Nat) : Nat := growsFrom (statsBufferSize k)

/-- How long the text is after each of the lines. -/
def filled (lines : List (List Char)) : List Nat :=
  (List.range lines.length).map fun i => strlen (lines.take (i + 1)).flatten

/-- A line starts where an `int` still counts. If it ends behind a size that the lines before it
make the buffer have, they make it have the next one. -/
structure LineFits (before : List (List Char)) (line : List Char) : Prop where
  start : (before.flatten.length : Int) ≤ intMax
  grown : ∀ k, statsBufferSize k ≤ before.flatten.length + line.length →
    Thresholds.Reached growthThreshold k (filled before) →
    Thresholds.Reached growthThreshold (k + 1) (filled before)

def LinesFit (lines : List (List Char)) : Prop :=
  ∀ before line, before ++ [line] <+: lines → LineFits before line

/-! ## The length of a line -/

theorem statsLine_cons (field : List Char) (fields : List (List Char)) (hne : fields ≠ []) :
    statsLine (field :: fields) = field ++ ',' :: statsLine fields := by
  obtain ⟨next, rest, rfl⟩ := List.exists_cons_of_ne_nil hne
  simp [statsLine, List.intercalate]

/-- A separator or the newline goes with every field. -/
theorem statsLine_length {fields : List (List Char)} (hne : fields ≠ []) :
    (statsLine fields).length = (fields.map List.length).sum + fields.length := by
  induction fields with
  | nil => exact absurd rfl hne
  | cons field fields ih =>
    cases fields with
    | nil => simp [statsLine, List.intercalate]
    | cons next rest =>
      rw [statsLine_cons field _ (List.cons_ne_nil _ _), List.length_append, List.length_cons,
        ih (List.cons_ne_nil _ _)]
      simp only [List.map_cons, List.sum_cons, List.length_cons]
      omega

theorem statsLines_one (usage : Nat → ResourceUsage)
    (slots : List (RunningModule × ModuleStats)) :
    statsLines 1 usage slots = slots.flatMap ifcLines := by
  rw [statsLines, if_pos (by decide), if_neg (by decide), if_neg (by decide), List.append_nil,
    List.append_nil]

/-- The name alone takes its length. -/
theorem inIfcLine_name_length (m : RunningModule) (ifc : InIfcStats) :
    (printString m.moduleName).length ≤ (inIfcLine m ifc).length := by
  rw [inIfcLine, statsLine_length (by simp), List.map_cons, List.sum_cons]
  omega

/-! ## The length of the text -/

theorem strlen_append_le (text line : List Char) : strlen text ≤ strlen (text ++ line) := by
  rw [strlen, strlen, cString, cString, List.takeWhile_append]
  split
  · rw [List.length_append]
    exact Nat.le_add_right_of_le (List.takeWhile_prefix _).length_le
  · exact Nat.le_refl _

theorem filled_concat (lines : List (List Char)) (line : List Char) :
    filled (lines ++ [line]) = filled lines ++ [strlen (lines ++ [line]).flatten] := by
  rw [filled, List.length_append, List.length_singleton, List.range_succ, List.map_append, filled,
    List.map_singleton]
  refine congrArg₂ _ (List.map_congr_left fun i hi => ?_) ?_
  · rw [List.take_append_of_le_length (Nat.succ_le_of_lt (List.mem_range.mp hi))]
  · rw [List.take_of_length_le (by simp)]

theorem filled_le (lines : List (List Char)) : ∀ s ∈ filled lines, s ≤ strlen lines.flatten := by
  intro s hs
  obtain ⟨i, -, rfl⟩ := List.mem_map.mp hs
  have hsplit : lines.flatten = (lines.take (i + 1)).flatten ++ (lines.drop (i + 1)).flatten := by
    rw [← List.flatten_append, List.take_append_drop]
  rw [hsplit]
  exact strlen_append_le _ _

/-- The text never gets shorter. -/
theorem filled_pairwise (lines : List (List Char)) : (filled lines).Pairwise (· ≤ ·) := by
  induction lines using List.reverseRecOn with
  | nil => exact List.Pairwise.nil
  | append_singleton lines line ih =>
    rw [filled_concat]
    refine List.pairwise_append.mpr ⟨ih, List.pairwise_singleton _ _, fun s hs s' hs' => ?_⟩
    rw [List.mem_singleton.mp hs', List.flatten_append, List.flatten_singleton]
    exact Nat.le_trans (filled_le lines s hs) (strlen_append_le _ _)

/-! ## The growth -/

theorem nextSize_lt (size : Nat) : nextSize size < 4294967296 := Nat.mod_lt _ (by decide)

theorem statsBufferSize_lt (k : Nat) : statsBufferSize k < 4294967296 := by
  cases k with
  | zero => decide
  | succ k => exact nextSize_lt _

/-- What fits, in terms of the number of times that the buffer has grown. -/
theorem lineFits_iff {before : List (List Char)} {line : List Char} : LineFits before line ↔
    (before.flatten.length : Int) ≤ intMax ∧ before.flatten.length + line.length <
      statsBufferSize (Thresholds.level growthThreshold (filled before)) := by
  have hlevel {k : Nat} : Thresholds.level growthThreshold (filled before) = k ↔ _ :=
    Thresholds.level_eq_iff (filled_pairwise before)
  constructor
  · rintro ⟨hstart, hgrown⟩
    refine ⟨hstart, Nat.lt_of_not_le fun hend => ?_⟩
    obtain ⟨hreached, hnext⟩ := hlevel.mp rfl
    exact hnext (hgrown _ hend hreached)
  · rintro ⟨hstart, hend⟩
    refine ⟨hstart, fun k hk hreached => by_contra fun hnext => ?_⟩
    rw [hlevel.mpr ⟨hreached, hnext⟩] at hend
    omega

/-- An `int` counts on to its maximum, and is negative from there. -/
theorem cInt_cases {n : Nat} (hn : n < 4294967296) :
    n ≤ 2147483647 ∧ cInt n = n ∨ 2147483647 < n ∧ cInt n < 0 := by
  simp only [cInt, Int.bmod]
  split <;> omega

namespace StatsBuffer

/-- The buffer after the lines. -/
structure After (lines : List (List Char)) (b : StatsBuffer) : Prop where
  text : b.text = lines.flatten
  ptr : b.ptr = cInt lines.flatten.length
  size : b.sizeOfBuffer = statsBufferSize (Thresholds.level growthThreshold (filled lines))

theorem init_after : After [] init := ⟨rfl, rfl, rfl⟩

@[simp] theorem grow_text (b : StatsBuffer) : b.grow.text = b.text := by
  rw [grow]
  split <;> rfl

@[simp] theorem grow_ptr (b : StatsBuffer) : b.grow.ptr = b.ptr := by
  rw [grow]
  split <;> rfl

@[simp] theorem grow_writes (b : StatsBuffer) : b.grow.writes = b.writes := by
  rw [grow]
  split <;> rfl

theorem grow_sizeOfBuffer (b : StatsBuffer) : b.grow.sizeOfBuffer =
    if growsFrom b.sizeOfBuffer ≤ strlen b.text then nextSize b.sizeOfBuffer
    else b.sizeOfBuffer := by
  rw [grow]
  split <;> rfl

/-- A line is printed, and the buffer passes the threshold of its size or keeps it. -/
theorem After.addLine {lines : List (List Char)} {b : StatsBuffer} (h : After lines b)
    (line : List Char) : After (lines ++ [line]) (b.addLine line) := by
  have htext : (b.print line).text = (lines ++ [line]).flatten := by
    rw [List.flatten_append, List.flatten_singleton, ← h.text]
    rfl
  refine ⟨(grow_text _).trans htext, ?_, ?_⟩
  · have hadd : (b.print line).ptr = cInt (b.ptr + line.length) := rfl
    rw [StatsBuffer.addLine, grow_ptr, hadd, h.ptr, cInt, cInt, Int.bmod_add_bmod,
      List.flatten_append, List.flatten_singleton, List.length_append, Int.natCast_add]
    rfl
  · have hsize : (b.print line).sizeOfBuffer =
        statsBufferSize (Thresholds.level growthThreshold (filled lines)) := h.size
    rw [StatsBuffer.addLine, grow_sizeOfBuffer, htext, hsize, filled_concat,
      Thresholds.level_concat, Thresholds.pass, apply_ite statsBufferSize]
    rfl

theorem after_foldl (lines : List (List Char)) :
    After lines (lines.foldl StatsBuffer.addLine init) := by
  induction lines using List.reverseRecOn with
  | nil => exact init_after
  | append_singleton lines line ih =>
    rw [List.foldl_append]
    exact ih.addLine line

theorem inside_of_addLine {b : StatsBuffer} {line : List Char} (h : (b.addLine line).AllInside) :
    b.AllInside := by
  rw [AllInside, StatsBuffer.addLine, grow_writes] at h
  exact fun w hw => h w (List.mem_cons_of_mem _ hw)

/-- A line is inside if and only if it fits. -/
theorem After.addLine_inside {lines : List (List Char)} {b : StatsBuffer} (h : After lines b)
    (line : List Char) (hlength : lines.flatten.length < 4294967296) :
    (b.addLine line).AllInside ↔ b.AllInside ∧ LineFits lines line := by
  have hwrites : (b.addLine line).writes = ⟨b.ptr, line.length + 1, b.sizeOfBuffer⟩ :: b.writes :=
    grow_writes _
  rw [AllInside, hwrites, List.forall_mem_cons, Write.Inside, h.ptr, h.size, lineFits_iff, and_comm]
  refine and_congr_right' ?_
  unfold intMax
  dsimp only
  rcases cInt_cases hlength with ⟨hlow, heq⟩ | ⟨hhigh, hneg⟩
  · rw [heq]
    omega
  · omega

end StatsBuffer

theorem linesFit_nil : LinesFit [] := by
  intro before line hstarts
  simpa using hstarts.length_le

theorem linesFit_concat (lines : List (List Char)) (line : List Char) :
    LinesFit (lines ++ [line]) ↔ LinesFit lines ∧ LineFits lines line := by
  constructor
  · intro h
    exact ⟨fun before line' hstarts => h before line' (hstarts.trans (List.prefix_append _ _)),
      h lines line List.prefix_rfl⟩
  · rintro ⟨hlines, hline⟩ before line' hstarts
    rcases List.prefix_concat_iff.mp hstarts with heq | hshort
    · obtain ⟨rfl, hlast⟩ := List.append_inj' heq rfl
      rw [List.singleton_inj.mp hlast]
      exact hline
    · exact hlines before line' hshort

/-- A text that fits is shorter than the buffer. -/
theorem LinesFit.length_lt {lines : List (List Char)} (h : LinesFit lines) :
    lines.flatten.length < 4294967296 := by
  induction lines using List.reverseRecOn with
  | nil => decide
  | append_singleton lines line ih =>
    obtain ⟨-, hend⟩ := lineFits_iff.mp (h lines line List.prefix_rfl)
    rw [List.flatten_append, List.flatten_singleton, List.length_append]
    exact Nat.lt_trans hend (statsBufferSize_lt _)

theorem addLines_inside_iff (lines : List (List Char)) :
    (lines.foldl StatsBuffer.addLine .init).AllInside ↔ LinesFit lines := by
  induction lines using List.reverseRecOn with
  | nil => exact iff_of_true (by simp [StatsBuffer.AllInside, StatsBuffer.init]) linesFit_nil
  | append_singleton lines line ih =>
    have hafter := StatsBuffer.after_foldl lines
    rw [List.foldl_append, List.foldl_cons, List.foldl_nil, linesFit_concat]
    constructor
    · intro h
      have hlines := ih.mp (StatsBuffer.inside_of_addLine h)
      have hiff := hafter.addLine_inside line hlines.length_lt
      exact ⟨hlines, (hiff.mp h).2⟩
    · rintro ⟨hlines, hline⟩
      exact (hafter.addLine_inside line hlines.length_lt).mpr ⟨ih.mpr hlines, hline⟩

/-- The first line has the buffer as it is at first. -/
theorem first_length_lt {line : List Char} {lines : List (List Char)}
    (h : LinesFit (line :: lines)) : line.length < 5 * defaultSizeOfBuffer := by
  obtain ⟨-, hend⟩ := lineFits_iff.mp (h [] line ⟨lines, rfl⟩)
  rwa [List.flatten_nil, List.length_nil, Nat.zero_add] at hend

/-- Every line of the statistics is printed inside of the buffer if and only if the lines fit: each
of them starts where an `int` still counts, and ends inside the size that the lines before it have
made the buffer grow to. -/
theorem makeFormatedStatistics_inside_iff (statsMask : UInt8) (usage : Nat → ResourceUsage)
    (slots : List (RunningModule × ModuleStats)) :
    (makeFormatedStatistics statsMask usage slots).AllInside ↔
      LinesFit (statsLines statsMask usage slots) :=
  addLines_inside_iff _

/-- A module with a name of 500 bytes that has described one interface. -/
def longNamed : ServiceState :=
  Run.run (serviceStep (loadsOf longText longMessage))
    (.boot [] (some (profileDocument
      [moduleElement (String.ofList (List.replicate 500 'm')) "/bin/m" "true" []])))
    [answered longText]

/-- The first line of the module is longer than the buffer. -/
theorem not_makeFormatedStatistics_inside :
    ¬ ∀ (jsonLoads : List UInt8 → Option Json) (alive : List Int) (rootNode : Option XmlNode)
      (as : List ServiceAction) (usage : Nat → ResourceUsage), (makeFormatedStatistics 1 usage
        (Run.run (serviceStep jsonLoads) (.boot alive rootNode) as).slots).AllInside := by
  intro h
  obtain ⟨slot, hslot, hstatus, hconnected, hname, hifces⟩ : ∃ slot ∈ longNamed.slots[0]?,
      slot.1.moduleStatus = true ∧ slot.1.moduleServiceIfcIsconnected = true ∧
      slot.1.moduleName = some (String.ofList (List.replicate 500 'm')) ∧
      slot.2.inIfcesData ≠ [] := by decide +kernel
  have hinside : (makeFormatedStatistics 1 (fun _ => ⟨0, 0, 0, 0⟩) longNamed.slots).AllInside :=
    h _ _ _ _ _
  obtain ⟨ifc, ifces, hifces⟩ := List.exists_cons_of_ne_nil hifces
  obtain ⟨rest, hslots⟩ : ∃ rest, longNamed.slots = slot :: rest :=
    List.head?_eq_some_iff.mp (by rw [List.head?_eq_getElem?]; exact hslot)
  have hlines : statsLines 1 (fun _ => ⟨0, 0, 0, 0⟩) longNamed.slots =
      inIfcLine slot.1 ifc :: (ifces.map (inIfcLine slot.1) ++
        slot.2.outIfcesData.map (outIfcLine slot.1) ++ rest.flatMap ifcLines) := by
    rw [statsLines_one, hslots, List.flatMap_cons, ifcLines, if_pos ⟨hstatus, hconnected⟩, hifces]
    rfl
  have hlength := inIfcLine_name_length slot.1 ifc
  have hprinted : (printString slot.1.moduleName).length = 500 := by
    have hascii : ∀ c ∈ List.replicate 500 'm', c.toNat < 128 := fun c hc => by
      rw [List.eq_of_mem_replicate hc]
      decide
    have hnul : '\x00' ∉ List.replicate 500 'm' := fun hmem =>
      absurd (List.eq_of_mem_replicate hmem) (by decide)
    rw [hname, printString, Option.getD_some, bytes_ascii hascii, cString,
      takeWhile_ne_eq_self_iff.mpr hnul, List.length_replicate]
  have hfirst := first_length_lt (hlines ▸ (addLines_inside_iff _).mp hinside)
  rw [hprinted] at hlength
  exact Nat.not_lt.mpr hlength hfirst

/-! ## Short lines -/

/-- A message that announces 40 interfaces and describes none. -/
def untypedText : String := "\x7b\"in_cnt\":40,\"out_cnt\":0,\"in\":[],\"out\":[]\x7d"

def untypedMessage : Json :=
  .object [("in_cnt", .integer 40), ("out_cnt", .integer 0), ("in", .array []), ("out", .array [])]

/-- The null byte that `%c` prints for an interface without a type ends the text that is measured,
so that the buffer does not grow however short the lines are. -/
theorem untyped_not_inside :
    let slots := (exportedAfter untypedText untypedMessage).slots
    (∀ line ∈ statsLines 1 (fun _ => ⟨0, 0, 0, 0⟩) slots, line.length ≤ 17) ∧
      ¬ (makeFormatedStatistics 1 (fun _ => ⟨0, 0, 0, 0⟩) slots).AllInside := by
  decide +kernel

theorem strlen_of_nulFree {text : List Char} (h : '\x00' ∉ text) : strlen text = text.length := by
  rw [strlen, cString, takeWhile_ne_eq_self_iff.mpr h]

/-- The buffer after lines of at most 200 bytes: there is room for one more. -/
structure Roomy (lines : List (List Char)) (b : StatsBuffer) : Prop where
  after : b.After lines
  inside : b.AllInside
  room : lines.flatten.length + 201 ≤ b.sizeOfBuffer
  initial : 5 * defaultSizeOfBuffer ≤ b.sizeOfBuffer
  size : 2 * b.sizeOfBuffer ≤ 5 * lines.flatten.length + 1000

theorem roomy_init : Roomy [] .init :=
  ⟨StatsBuffer.init_after, by simp [StatsBuffer.AllInside, StatsBuffer.init], by decide,
    Nat.le_refl _, by decide⟩

theorem Roomy.addLine {lines : List (List Char)} {b : StatsBuffer} (h : Roomy lines b)
    {line : List Char} (hline : line.length ≤ 200) (hnul : '\x00' ∉ (lines ++ [line]).flatten)
    (htotal : (lines ++ [line]).flatten.length < 536870912) :
    Roomy (lines ++ [line]) (b.addLine line) := by
  have hafter := h.after.addLine line
  have hlength : (lines ++ [line]).flatten.length = lines.flatten.length + line.length := by
    rw [List.flatten_append, List.flatten_singleton, List.length_append]
  have hroom := h.room
  have hsize := h.size
  have hinitial := h.initial
  rw [defaultSizeOfBuffer] at hinitial
  have hfits : LineFits lines line := by
    refine lineFits_iff.mpr ⟨?_, ?_⟩
    · unfold intMax
      omega
    · rw [← h.after.size]
      omega
  have hstrlen : strlen (b.print line).text = lines.flatten.length + line.length := by
    have htext : (b.print line).text = (lines ++ [line]).flatten :=
      (StatsBuffer.grow_text _).symm.trans hafter.text
    rw [htext, strlen_of_nulFree hnul, hlength]
  have hgrown : (b.addLine line).sizeOfBuffer =
      if growsFrom b.sizeOfBuffer ≤ lines.flatten.length + line.length then
        nextSize b.sizeOfBuffer else b.sizeOfBuffer := by
    rw [StatsBuffer.addLine, StatsBuffer.grow_sizeOfBuffer, hstrlen]
    rfl
  have hthreshold : growsFrom b.sizeOfBuffer = 3 * b.sizeOfBuffer / 5 := by
    rw [growsFrom, Nat.mod_eq_of_lt (by omega)]
  have hnext : nextSize b.sizeOfBuffer = b.sizeOfBuffer + b.sizeOfBuffer / 2 :=
    Nat.mod_eq_of_lt (by omega)
  refine ⟨hafter, (h.after.addLine_inside line (by omega)).mpr ⟨h.inside, hfits⟩, ?_, ?_, ?_⟩
  · rw [hgrown, hthreshold, hnext, hlength]
    split <;> omega
  · rw [hgrown, hthreshold, hnext, defaultSizeOfBuffer]
    split <;> omega
  · rw [hgrown, hthreshold, hnext, hlength]
    split <;> omega

/-- Lines of at most 200 bytes fit, when no null byte is in them and the text is not too long for
the arithmetic on the size. -/
theorem addLines_inside_of_short {lines : List (List Char)}
    (hshort : ∀ line ∈ lines, line.length ≤ 200) (hnul : ∀ line ∈ lines, '\x00' ∉ line)
    (htotal : lines.flatten.length < 536870912) : Roomy lines (lines.foldl .addLine .init) := by
  induction lines using List.reverseRecOn with
  | nil => exact roomy_init
  | append_singleton lines line ih =>
    obtain ⟨hlines, hline⟩ := List.forall_mem_append.mp hshort
    rw [List.foldl_append]
    refine (ih hlines (fun l hl => hnul l (List.mem_append_left _ hl)) ?_).addLine
      (hline line (List.mem_singleton_self line)) ?_ htotal
    · rw [List.flatten_append, List.length_append] at htotal
      omega
    · intro hmem
      obtain ⟨l, hl, hc⟩ := List.mem_flatten.mp hmem
      exact hnul l hl hc

theorem statsLine_nulFree {fields : List (List Char)} (hne : fields ≠ [])
    (h : ∀ field ∈ fields, '\x00' ∉ field) : '\x00' ∉ statsLine fields := by
  induction fields with
  | nil => exact absurd rfl hne
  | cons field fields ih =>
    obtain ⟨hfield, hfields⟩ := List.forall_mem_cons.mp h
    cases fields with
    | nil => simpa [statsLine, List.intercalate] using hfield
    | cons next rest =>
      rw [statsLine_cons field _ (List.cons_ne_nil _ _)]
      simpa using ⟨hfield, ih (List.cons_ne_nil _ _) hfields⟩

theorem printString_nulFree (s : Option String) : '\x00' ∉ printString s := by
  intro hmem
  simpa using List.mem_takeWhile_imp hmem

theorem printCounter_nulFree (cnt : UInt64) : '\x00' ∉ printCounter cnt :=
  decimal_not_mem _ (by decide) (by decide)

/-- A counter has at most 20 digits. -/
theorem printCounter_length (cnt : UInt64) : (printCounter cnt).length ≤ 20 := by
  rw [printCounter, decimal_natCast, Nat.length_toDigits_le_iff (by decide) (by decide)]
  exact Nat.lt_trans cnt.toNat_lt (by decide)

theorem printChar_nulFree {c : UInt8} (h : c ≠ 0) : '\x00' ∉ printChar c := by
  rw [printChar, List.mem_singleton]
  intro heq
  have hlt := c.toNat_lt
  have hvalid : c.toNat.isValidChar := .inl (by omega)
  have hnat : (Char.ofNat c.toNat).toNat = c.toNat := by
    rw [Char.ofNat, dif_pos hvalid]
    rfl
  rw [← heq] at hnat
  exact h (UInt8.toNat_inj.mp hnat.symm)

/-- An interface with a type, and with a name and an identifier that leave room for the counters. -/
structure ShortIfc (m : RunningModule) (ifcType : UInt8) (ifcId : Option String) : Prop where
  typed : ifcType ≠ 0
  length : (printString m.moduleName).length +
    (printString (some (ifcId.getD "none"))).length ≤ 108

/-- A line that keeps the buffer roomy. -/
def ShortLine (line : List Char) : Prop := line.length ≤ 200 ∧ '\x00' ∉ line

theorem inIfcLine_short {m : RunningModule} {ifc : InIfcStats}
    (h : ShortIfc m ifc.ifcType ifc.ifcId) : ShortLine (inIfcLine m ifc) := by
  have hlength := h.length
  have hmessages := printCounter_length ifc.recvMsgCnt
  have hbuffers := printCounter_length ifc.recvBufferCnt
  constructor
  · rw [inIfcLine, statsLine_length (by simp)]
    simp [printChar]
    omega
  · refine statsLine_nulFree (by simp) ?_
    simp [printString_nulFree, printCounter_nulFree, printChar_nulFree h.typed]

theorem outIfcLine_short {m : RunningModule} {ifc : OutIfcStats}
    (h : ShortIfc m ifc.ifcType ifc.ifcId) : ShortLine (outIfcLine m ifc) := by
  have hlength := h.length
  have hsent := printCounter_length ifc.sentMsgCnt
  have hdropped := printCounter_length ifc.droppedMsgCnt
  have hbuffers := printCounter_length ifc.sentBufferCnt
  have hautoflush := printCounter_length ifc.autoflushCnt
  constructor
  · rw [outIfcLine, statsLine_length (by simp)]
    simp [printChar]
    omega
  · refine statsLine_nulFree (by simp) ?_
    simp [printString_nulFree, printCounter_nulFree, printChar_nulFree h.typed]

/-- The statistics of interfaces with short names are printed inside of the buffer, whatever the
counters are. -/
theorem makeFormatedStatistics_inside_of_short (usage : Nat → ResourceUsage)
    {slots : List (RunningModule × ModuleStats)}
    (hin : ∀ slot ∈ slots, ∀ ifc ∈ slot.2.inIfcesData, ShortIfc slot.1 ifc.ifcType ifc.ifcId)
    (hout : ∀ slot ∈ slots, ∀ ifc ∈ slot.2.outIfcesData, ShortIfc slot.1 ifc.ifcType ifc.ifcId)
    (htotal : (statsLines 1 usage slots).flatten.length < 536870912) :
    (makeFormatedStatistics 1 usage slots).AllInside := by
  have hshort : ∀ line ∈ statsLines 1 usage slots, ShortLine line := by
    intro line hline
    rw [statsLines_one] at hline
    obtain ⟨slot, hslot, hline⟩ := List.mem_flatMap.mp hline
    rw [ifcLines] at hline
    split at hline
    · rcases List.mem_append.mp hline with hline | hline
      · obtain ⟨ifc, hifc, rfl⟩ := List.mem_map.mp hline
        exact inIfcLine_short (hin slot hslot ifc hifc)
      · obtain ⟨ifc, hifc, rfl⟩ := List.mem_map.mp hline
        exact outIfcLine_short (hout slot hslot ifc hifc)
    · exact absurd hline List.not_mem_nil
  exact (addLines_inside_of_short (fun line h => (hshort line h).1)
    (fun line h => (hshort line h).2) htotal).inside

end NemeaSupervisor
