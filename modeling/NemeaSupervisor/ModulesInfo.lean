import NemeaSupervisor.ModuleStats
import NemeaSupervisor.Table

/-!
# The JSON document of the modules

`make_json_modules_info` packs the modules one by one and gives up the whole document at the
first interface it cannot pack: one without an identifier, or with a type that is no
text of its own. Texts from the configuration and from messages are UTF-8, as the
libraries that read them see to.
-/

namespace NemeaSupervisor

/-- What is known of the resources of a process. -/
structure ResourceUsage where
  cpuUserMode : UInt64
  cpuKernelMode : UInt64
  virtualMemorySize : UInt64
  residentSetSize : UInt64
  deriving DecidableEq, Repr

/-- A number packed as `int` or as `json_int_t`. -/
def packInt (n : UInt64) : Option Json := some (.integer n.toUInt32.toInt32.toInt)
def packCounter (n : UInt64) : Option Json := some (.integer n.toInt64.toInt)

def packString (s : Option String) : Option Json := s.map Json.string

/-- The string of one `char`; a byte above 127 is not UTF-8. -/
def packIfcType (ifcType : UInt8) : Option Json :=
  if ifcType < 128 then
    some (.string (if ifcType = 0 then "" else String.singleton (Char.ofNat ifcType.toNat)))
  else none

def packInIfc (ifc : InIfcStats) : Option Json :=
  Json.pack
    [("type", packIfcType ifc.ifcType), ("ID", packString ifc.ifcId),
      ("is-conn", some (.integer ifc.ifcState.toNat)), ("messages", packCounter ifc.recvMsgCnt),
      ("buffers", packCounter ifc.recvBufferCnt)]

def packOutIfc (ifc : OutIfcStats) : Option Json :=
  Json.pack
    [("type", packIfcType ifc.ifcType), ("ID", packString ifc.ifcId),
      ("cli-num", some (.integer ifc.numClients.toInt)), ("sent-msg", packCounter ifc.sentMsgCnt),
      ("drop-msg", packCounter ifc.droppedMsgCnt), ("buffers", packCounter ifc.sentBufferCnt),
      ("autoflush", packCounter ifc.autoflushCnt)]

def packResources (usage : ResourceUsage) : List (String × Option Json) :=
  [("CPU-u", packInt usage.cpuUserMode), ("CPU-s", packInt usage.cpuKernelMode),
    ("MEM-vms", packCounter usage.virtualMemorySize),
    ("MEM-rss", packCounter (usage.residentSetSize * 1024))]

/-- The object of one module. -/
def packModule (printDetails : Bool) (usage : ResourceUsage) (x : Nat) (m : RunningModule)
    (inIfcArr outIfcArr : List Json) : Option Json :=
  let details :=
    if printDetails then
      [("idx", some (Json.integer x)), ("params", packString (some (m.moduleParams.getD "none"))),
        ("path", packString m.modulePath),
        ("status", packString (some (if m.moduleStatus then "running" else "stopped")))]
    else []
  Json.pack (details ++ packResources usage ++
    [("inputs", some (.array inIfcArr)), ("outputs", some (.array outIfcArr))])

/-- The named object of one module, made from its slot. -/
def moduleInfo (printDetails : Bool) (usage : ResourceUsage) (x : Nat) (m : RunningModule)
    (stats : ModuleStats) : Option (String × Json) :=
  match Json.packElements (stats.inIfcesData.map packInIfc),
    Json.packElements (stats.outIfcesData.map packOutIfc) with
  | some inIfcArr, some outIfcArr =>
    match packModule printDetails usage x m inIfcArr outIfcArr, m.moduleName with
    | some info, some name => some (name, info)
    | _, _ => none
  | _, _ => none

/-- The first module is the object, the others update it. -/
def addModule (modulesObj : Option (List (String × Json))) (module : String × Json) :
    List (String × Json) :=
  match modulesObj with
  | none => [module]
  | some modulesObj => Json.update modulesObj [module]

/-- The loop over the slots from `x` on; the object is NULL before the first module. -/
def modulesInfoLoop (printDetails : Bool) (usage : Nat → ResourceUsage) :
    Nat → List (RunningModule × ModuleStats) → Option (List (String × Json)) →
      Option (Option (List (String × Json)))
  | _, [], modulesObj => some modulesObj
  | x, (m, stats) :: slots, modulesObj =>
    if printDetails = false ∧ m.moduleStatus = false then
      modulesInfoLoop printDetails usage (x + 1) slots modulesObj
    else
      match moduleInfo printDetails (usage x) x m stats with
      | none => none
      | some module =>
        modulesInfoLoop printDetails usage (x + 1) slots (some (addModule modulesObj module))

/-- `make_json_modules_info`, with what `json_dumps` writes down; there is no text of NULL. -/
def makeJsonModulesInfo (infoMask : UInt8) (usage : Nat → ResourceUsage)
    (slots : List (RunningModule × ModuleStats)) : Option Json :=
  match modulesInfoLoop (infoMask &&& 1 == 1) usage 0 slots none with
  | some (some modulesObj) => some (.object modulesObj)
  | _ => none

/-! ## What can be packed -/

/-- An interface that can be packed: its identifier is known and its type is ASCII. -/
structure PackableIfc (ifcType : UInt8) (ifcId : Option String) : Prop where
  ascii : ifcType < 128
  known : ifcId.isSome = true

def InIfcStats.Packable (ifc : InIfcStats) : Prop := PackableIfc ifc.ifcType ifc.ifcId
def OutIfcStats.Packable (ifc : OutIfcStats) : Prop := PackableIfc ifc.ifcType ifc.ifcId

/-- All interfaces of a module can be packed. -/
structure ModuleStats.Packable (s : ModuleStats) : Prop where
  inIfces : ∀ ifc ∈ s.inIfcesData, ifc.Packable
  outIfces : ∀ ifc ∈ s.outIfcesData, ifc.Packable

theorem packIfcType_isSome {ifcType : UInt8} :
    (packIfcType ifcType).isSome = true ↔ ifcType < 128 := by
  by_cases h : ifcType < 128
  · simp [packIfcType, h]
  · simp [packIfcType, h]

theorem packString_isSome {s : Option String} :
    (packString s).isSome = true ↔ s.isSome = true := by
  rw [packString, Option.isSome_map]

theorem packInIfc_isSome {ifc : InIfcStats} : (packInIfc ifc).isSome = true ↔ ifc.Packable := by
  rw [packInIfc, Json.pack_isSome]
  simp only [List.forall_mem_cons, packIfcType_isSome, packString_isSome, packCounter]
  exact ⟨fun h => ⟨h.1, h.2.1⟩, fun h => ⟨h.ascii, h.known, by simp⟩⟩

theorem packOutIfc_isSome {ifc : OutIfcStats} : (packOutIfc ifc).isSome = true ↔ ifc.Packable := by
  rw [packOutIfc, Json.pack_isSome]
  simp only [List.forall_mem_cons, packIfcType_isSome, packString_isSome, packCounter]
  exact ⟨fun h => ⟨h.1, h.2.1⟩, fun h => ⟨h.ascii, h.known, by simp⟩⟩

/-- The loop does not pass over a slot. -/
def Listed (printDetails : Bool) (m : RunningModule) : Bool := printDetails || m.moduleStatus

/-- A module can be packed. -/
structure PackableModule (printDetails : Bool) (m : RunningModule) (stats : ModuleStats) : Prop where
  name : m.moduleName.isSome = true
  path : printDetails = true → m.modulePath.isSome = true
  stats : stats.Packable

section modules

variable {printDetails : Bool} {usage : ResourceUsage} {x : Nat} {m : RunningModule}
  {stats : ModuleStats}

theorem packModule_isSome {inIfcArr outIfcArr : List Json} :
    (packModule printDetails usage x m inIfcArr outIfcArr).isSome = true ↔
      (printDetails = true → m.modulePath.isSome = true) := by
  rw [packModule, Json.pack_isSome]
  cases printDetails with
  | false => simp [packResources, packInt, packCounter]
  | true => simp [packResources, packInt, packCounter, packString]

theorem packIfces_isSome : ((Json.packElements (stats.inIfcesData.map packInIfc)).isSome = true ∧
    (Json.packElements (stats.outIfcesData.map packOutIfc)).isSome = true) ↔ stats.Packable := by
  rw [Json.packElements_isSome, Json.packElements_isSome, List.forall_mem_map, List.forall_mem_map]
  simp only [packInIfc_isSome, packOutIfc_isSome]
  exact ⟨fun h => ⟨h.1, h.2⟩, fun h => ⟨h.inIfces, h.outIfces⟩⟩

theorem moduleInfo_isSome : (moduleInfo printDetails usage x m stats).isSome = true ↔
    PackableModule printDetails m stats := by
  have hifces := @packIfces_isSome stats
  unfold moduleInfo
  cases hin : Json.packElements (stats.inIfcesData.map packInIfc) with
  | none => exact iff_of_false (by simp) fun h => by simp [hin] at hifces; exact hifces h.stats
  | some inIfcArr =>
    cases hout : Json.packElements (stats.outIfcesData.map packOutIfc) with
    | none => exact iff_of_false (by simp) fun h => by simp [hout] at hifces; exact hifces h.stats
    | some outIfcArr =>
      have hstats : stats.Packable := hifces.mp (by simp [hin, hout])
      have hmodule := @packModule_isSome printDetails usage x m inIfcArr outIfcArr
      cases hinfo : packModule printDetails usage x m inIfcArr outIfcArr with
      | none =>
        rw [hinfo] at hmodule
        exact iff_of_false (by simp [hinfo]) fun h => by simpa using hmodule.mpr h.path
      | some info =>
        rw [hinfo] at hmodule
        cases hname : m.moduleName with
        | none => exact iff_of_false (by simp [hinfo]) fun h => by simpa [hname] using h.name
        | some name =>
          exact iff_of_true (by simp [hinfo]) ⟨by simp [hname], hmodule.mp rfl, hstats⟩

/-- The object of a module bears its name. -/
theorem moduleInfo_name {module : String × Json}
    (h : moduleInfo printDetails usage x m stats = some module) :
    m.moduleName = some module.1 := by
  unfold moduleInfo at h
  split at h
  · split at h
    · next hname =>
      cases h
      exact hname
    · cases h
  · cases h

end modules

section loop

variable {printDetails : Bool} {usage : Nat → ResourceUsage}

/-- The names of the slots that the loop lists. -/
def listedNames (printDetails : Bool) (slots : List (RunningModule × ModuleStats)) :
    List (Option String) :=
  (slots.filter fun p => Listed printDetails p.1).map fun p => p.1.moduleName

def objectNames (modulesObj : Option (List (String × Json))) : List (Option String) :=
  (modulesObj.getD []).map fun f => some f.1

theorem not_listed {m : RunningModule} :
    (printDetails = false ∧ m.moduleStatus = false) ↔ Listed printDetails m = false := by
  rw [Listed, Bool.or_eq_false_iff]

/-- One more module is one more key when its name is new. -/
theorem objectNames_add {modulesObj : Option (List (String × Json))} {module : String × Json}
    (h : some module.1 ∉ objectNames modulesObj) :
    objectNames (some (addModule modulesObj module)) =
      objectNames modulesObj ++ [some module.1] := by
  cases modulesObj with
  | none => rfl
  | some fields =>
    have hnew : module.1 ∉ fields.map Prod.fst := fun hmem => h (by
      obtain ⟨f, hf, heq⟩ := List.mem_map.mp hmem
      exact List.mem_map.mpr ⟨f, hf, by rw [heq]⟩)
    have hkeys := congrArg (List.map some) (Json.setField_keys hnew module.2)
    simpa [objectNames, addModule, Json.update, Function.comp_def] using hkeys

/-- The document names the listed modules, and there is one when all of them can be packed. -/
theorem modulesInfoLoop_spec (x : Nat) {slots : List (RunningModule × ModuleStats)}
    {modulesObj : Option (List (String × Json))}
    (hpack : ∀ p ∈ slots, Listed printDetails p.1 = true → PackableModule printDetails p.1 p.2)
    (hnames : (objectNames modulesObj ++ listedNames printDetails slots).Nodup) :
    ∃ result, modulesInfoLoop printDetails usage x slots modulesObj = some result ∧
      objectNames result = objectNames modulesObj ++ listedNames printDetails slots := by
  induction slots generalizing x modulesObj with
  | nil => exact ⟨modulesObj, rfl, by simp [listedNames]⟩
  | cons p slots ih =>
    obtain ⟨m, stats⟩ := p
    have hrest := fun p hp => hpack p (List.mem_cons_of_mem _ hp)
    rw [modulesInfoLoop]
    cases hlisted : Listed printDetails m with
    | false =>
      have hskip : listedNames printDetails ((m, stats) :: slots) =
          listedNames printDetails slots := by simp [listedNames, hlisted]
      rw [if_pos (not_listed.mpr hlisted), hskip]
      rw [hskip] at hnames
      exact ih (x + 1) hrest hnames
    | true =>
      have hmodule : PackableModule printDetails m stats := hpack (m, stats) (by simp) hlisted
      obtain ⟨module, hinfo⟩ := Option.isSome_iff_exists.mp
        ((@moduleInfo_isSome printDetails (usage x) x m stats).mpr hmodule)
      have hname := moduleInfo_name hinfo
      have hadd : listedNames printDetails ((m, stats) :: slots) =
          some module.1 :: listedNames printDetails slots := by simp [listedNames, hlisted, hname]
      rw [hadd] at hnames
      have hnew : some module.1 ∉ objectNames modulesObj := fun hmem =>
        (List.nodup_append.mp hnames).2.2 _ hmem _ (by simp) rfl
      have hkeys := objectNames_add hnew
      rw [if_neg (by simp [not_listed, hlisted])]
      simp only [hinfo]
      obtain ⟨result, hloop, hresult⟩ := ih (x + 1) hrest (by
        rw [hkeys]
        simpa using hnames)
      exact ⟨result, hloop, by rw [hresult, hkeys, hadd, List.append_assoc, List.singleton_append]⟩

end loop

/-- The document when every listed module can be packed and their names differ. -/
theorem makeJsonModulesInfo_names {infoMask : UInt8} {usage : Nat → ResourceUsage}
    {slots : List (RunningModule × ModuleStats)}
    (hpack : ∀ p ∈ slots, Listed (infoMask &&& 1 == 1) p.1 = true →
      PackableModule (infoMask &&& 1 == 1) p.1 p.2)
    (hnames : (listedNames (infoMask &&& 1 == 1) slots).Nodup)
    (hsome : listedNames (infoMask &&& 1 == 1) slots ≠ []) :
    ∃ modulesObj, makeJsonModulesInfo infoMask usage slots = some (.object modulesObj) ∧
      (modulesObj.map fun f => some f.1) = listedNames (infoMask &&& 1 == 1) slots := by
  obtain ⟨result, hloop, hkeys⟩ :=
    @modulesInfoLoop_spec (infoMask &&& 1 == 1) usage 0 slots none hpack hnames
  cases result with
  | none => exact absurd hkeys.symm hsome
  | some modulesObj =>
    refine ⟨modulesObj, ?_, hkeys⟩
    rw [makeJsonModulesInfo, hloop]

end NemeaSupervisor
