import NemeaSupervisor.Validate

/-!
# Reloading the configuration

`reload_configuration` and the functions of its apply phase. A loop over
siblings is a fold or a recursion over the list of siblings; where the source
moves a cursor of an outer loop from inside an inner function, the recursion
carries how far. Reading the document from a file is not modelled: the argument
is the root element that the parser found.
-/

namespace NemeaSupervisor

open CText XmlNode

inductive ReloadChoice where
  | initLoadConfig
  | defaultConfigFile
  | callbackRootElem
  deriving DecidableEq, Repr

/-- `reload_process_supervisor_element`. -/
def reloadProcessSupervisorElement (s : Supervisor) (children : List XmlNode) : Supervisor :=
  children.foldl (fun s moduleElem =>
    if moduleElem.nodeNamed "module-restarts" then
      match moduleElem.value.bind sscanfInt with
      | some number =>
        if 0 ≤ number ∧ number ≤ maxModuleRestartsNum then
          { s with moduleRestartsNumConfig := number }
        else s
      | none => s
    else s) s

/-- `reload_process_module_atribute`: the stored string and whether it changed. -/
def reloadProcessModuleAtribute (newModule : Bool) (moduleAtr key : Option String) :
    Option String × Bool :=
  match newModule, moduleAtr, key with
  | true, _, key => (key, false)
  | false, some old, some key => if key ≠ old then (some key, true) else (some old, false)
  | false, none, none => (none, false)
  | false, none, some key => (some key, true)
  | false, some _, none => (none, true)

/-- `reload_resolve_module_enabled`: any prefix of `true` counts as true. -/
def reloadResolveModuleEnabled (newModule : Bool) (m : RunningModule) (key : Option String) :
    RunningModule :=
  match key with
  | none => { m with moduleEnabled := false }
  | some key =>
    let configModuleEnabled := key.toList.isPrefixOf "true".toList
    let restarted := configModuleEnabled && (newModule || configModuleEnabled != m.moduleEnabled)
    { m with
      moduleRestartCnt := if restarted then -1 else m.moduleRestartCnt
      moduleEnabled := configModuleEnabled }

/-! ## Interfaces -/

/-- `reload_process_module_interface_atribute`; `none` is the return value -1,
a difference found while comparing. -/
def reloadProcessModuleInterfaceAtribute (moduleIfcInsert : Bool) (moduleIfcAtr key : Option String) :
    Option (Option String) :=
  match moduleIfcInsert, moduleIfcAtr, key with
  | true, _, key => some key
  | false, some old, some key => if key ≠ old then none else some (some old)
  | false, none, none => some none
  | false, _, _ => none

/-- One child of an interface element. -/
def processInterfaceAtribute (moduleIfcInsert : Bool) (ifc : Interface) (ifcAtrElem : XmlNode) :
    Option Interface :=
  let atribute := fun old => reloadProcessModuleInterfaceAtribute moduleIfcInsert old ifcAtrElem.value
  if ifcAtrElem.nodeNamed "note" then
    (atribute ifc.ifcNote).map fun v => { ifc with ifcNote := v }
  else if ifcAtrElem.nodeNamed "type" then
    (atribute ifc.ifcType).map fun v => { ifc with ifcType := v }
  else if ifcAtrElem.nodeNamed "direction" then
    (atribute ifc.ifcDirection).map fun v => { ifc with ifcDirection := v }
  else if ifcAtrElem.nodeNamed "params" then
    (atribute ifc.ifcParams).map fun v => { ifc with ifcParams := v }
  else some ifc

/-- The pass over the children of one interface element. -/
def processInterfaceAtributes (moduleIfcInsert : Bool) (ifc : Interface) (children : List XmlNode) :
    Option Interface :=
  children.foldlM (processInterfaceAtribute moduleIfcInsert) ifc

/-- `reload_check_module_allocated_interfaces`. -/
def reloadCheckModuleAllocatedInterfaces (m : RunningModule) (ifcCnt : Nat) : RunningModule :=
  if m.configIfces.length = 0 then
    { m with
      configIfces := List.replicate ifcesArrayStartSize Interface.zero
      configIfcesCnt := 0 }
  else if ifcCnt = m.configIfces.length then
    { m with
      configIfces := m.configIfces ++ List.replicate (m.configIfces.length / 2) Interface.zero }
  else m

/-- `reload_check_modules_interfaces_count`; the flag is `module_ifc_insert`. -/
def reloadCheckModulesInterfacesCount (m : RunningModule) (moduleIfcInsert : Bool)
    (children : List XmlNode) : RunningModule × Bool :=
  if m.configIfcesCnt ≠ children.countP (nodeNamed "interface") then
    ({ freeModuleInterfacesOnIndex { m with moduleModifiedByReload := true } with
        configIfcesCnt := 0 }, true)
  else (m, moduleIfcInsert)

/-- What the interface loop leaves behind: the module, `module_ifc_insert` and
`ifc_cnt`. -/
abbrev IfcLoopState := RunningModule × Bool × Nat

/-- The loop over the children of a trapinterfaces element. On the first
difference the compared interfaces are freed and the loop goes on as `rewind`. -/
def interfacesLoop (rewind : RunningModule → IfcLoopState) (moduleIfcInsert : Bool) :
    List XmlNode → RunningModule → Nat → IfcLoopState
  | [], m, ifcCnt => (m, moduleIfcInsert, ifcCnt)
  | ifcElem :: next, m, ifcCnt =>
    if ifcElem.nodeNamed "interface" then
      let m := reloadCheckModuleAllocatedInterfaces m ifcCnt
      let ifc := m.configIfces.getD ifcCnt Interface.zero
      match processInterfaceAtributes moduleIfcInsert ifc ifcElem.xmlChildrenNode with
      | some ifc =>
        interfacesLoop rewind moduleIfcInsert next
          { m with configIfces := m.configIfces.set ifcCnt ifc } (ifcCnt + 1)
      | none => rewind (freeModuleInterfacesOnIndex { m with moduleModifiedByReload := true })
    else interfacesLoop rewind moduleIfcInsert next m ifcCnt

/-- The trapinterfaces branch. The rewind puts the cursor on the first child
and the loop then advances it, so insertion starts at the second child; while
inserting there is no difference and thus no further rewind. -/
def processTrapinterfaces (newModule moduleIfcInsert : Bool) (m : RunningModule)
    (children : List XmlNode) : RunningModule × Bool :=
  let (m, moduleIfcInsert) :=
    if newModule then (m, moduleIfcInsert)
    else reloadCheckModulesInterfacesCount m moduleIfcInsert children
  let rewind := fun m => interfacesLoop (fun m => (m, true, 0)) true children.tail m 0
  let (m, moduleIfcInsert, ifcCnt) := interfacesLoop rewind moduleIfcInsert children m 0
  ({ m with configIfcesCnt := ifcCnt }, moduleIfcInsert)

/-- `strncmp(s, p, strlen(p)) == 0`. -/
def hasPrefix (p s : String) : Bool := p.toList.isPrefixOf s.toList

def intIfcDirectionOf : Option String → Int
  | some direction =>
    if hasPrefix "IN" direction then inModuleIfcDirection
    else if hasPrefix "OUT" direction then outModuleIfcDirection
    else if hasPrefix "SERVICE" direction then serviceModuleIfcDirection
    else invalidModuleIfcAttr
  | none => invalidModuleIfcAttr

def intIfcTypeOf : Option String → Int
  | some type =>
    if hasPrefix "TCP" type then tcpModuleIfcType
    else if hasPrefix "UNIXSOCKET" type then unixsocketModuleIfcType
    else if hasPrefix "FILE" type then fileModuleIfcType
    else if hasPrefix "SERVICE" type then serviceModuleIfcType
    else if hasPrefix "BLACKHOLE" type then blackholeModuleIfcType
    else if hasPrefix "TLS" type then tlsModuleIfcType
    else invalidModuleIfcAttr
  | none => invalidModuleIfcAttr

/-- The codes of one interface. -/
def Interface.withCodes (ifc : Interface) : Interface :=
  { ifc with
    intIfcDirection := intIfcDirectionOf ifc.ifcDirection
    intIfcType := intIfcTypeOf ifc.ifcType }

/-- `reload_count_module_interfaces`. -/
def reloadCountModuleInterfaces (m : RunningModule) : RunningModule :=
  { m with configIfces := m.configIfces.mapIdx fun x ifc =>
      if x < m.configIfcesCnt then ifc.withCodes else ifc }

/-! ## One module -/

/-- One child of a module element; the flag is `module_ifc_insert`. -/
def processModuleElement (newModule : Bool) (st : RunningModule × Bool) (moduleAtrElem : XmlNode) :
    RunningModule × Bool :=
  let (m, moduleIfcInsert) := st
  if moduleAtrElem.nodeNamed "enabled" then
    (reloadResolveModuleEnabled newModule m moduleAtrElem.value, moduleIfcInsert)
  else if moduleAtrElem.nodeNamed "module-restarts" then
    match moduleAtrElem.value.bind sscanfInt with
    | some number =>
      if 0 ≤ number then ({ m with moduleMaxRestartsPerMinute := number }, moduleIfcInsert)
      else (m, moduleIfcInsert)
    | none => (m, moduleIfcInsert)
  else if moduleAtrElem.nodeNamed "params" then
    let (moduleParams, modified) :=
      reloadProcessModuleAtribute newModule m.moduleParams moduleAtrElem.value
    ({ m with
        moduleParams
        moduleModifiedByReload := m.moduleModifiedByReload || modified }, moduleIfcInsert)
  else if moduleAtrElem.nodeNamed "name" then
    match newModule, moduleAtrElem.value with
    | true, some key => ({ m with moduleName := some key }, moduleIfcInsert)
    | _, _ => (m, moduleIfcInsert)
  else if moduleAtrElem.nodeNamed "path" then
    let (modulePath, modified) :=
      reloadProcessModuleAtribute newModule m.modulePath moduleAtrElem.value
    ({ m with
        modulePath
        moduleModifiedByReload := m.moduleModifiedByReload || modified }, moduleIfcInsert)
  else if moduleAtrElem.nodeNamed "trapinterfaces" then
    processTrapinterfaces newModule moduleIfcInsert m moduleAtrElem.xmlChildrenNode
  else st

/-- An already loaded module whose element has no trapinterfaces loses its
interfaces; the flag is `module_ifc_insert`. -/
def removeMissingInterfaces (newModule : Bool) (trapifcElems : Int) (m : RunningModule) :
    RunningModule × Bool :=
  if newModule = false ∧ trapifcElems = 0 ∧ m.configIfcesCnt > 0 then
    ({ freeModuleInterfacesOnIndex { m with moduleModifiedByReload := true } with
        configIfcesCnt := 0 }, true)
  else (m, newModule)

/-- After the children of a module element: the codes of new interfaces and the
profile; the flag is `module_ifc_insert`. -/
def finishModuleElement (modulesProfile : Option Nat) (st : RunningModule × Bool) : RunningModule :=
  let m := if st.2 then reloadCountModuleInterfaces st.1 else st.1
  match modulesProfile with
  | some idx => { m with modulesProfile := some idx }
  | none => m

/-- What the apply loop does to the slot of one module element. -/
def applyModuleElement (choice : ReloadChoice) (modulesProfile : Option Nat) (newModule : Bool)
    (trapifcElems : Int) (moduleElem : XmlNode) (m : RunningModule) : RunningModule :=
  let (m, moduleIfcInsert) := removeMissingInterfaces newModule trapifcElems m
  let m := { m with moduleCheckedByReload := true }
  let m :=
    if choice = .initLoadConfig then
      match xmlGetProp "module_pid" moduleElem with
      | some key => { m with modulePid := atoi key }
      | none => m
    else m
  finishModuleElement modulesProfile
    (moduleElem.xmlChildrenNode.foldl (processModuleElement newModule) (m, moduleIfcInsert))

/-! ## Finding the module an element is about -/

/-- `basic_elements` of a module element. -/
structure BasicElements where
  name : Int
  path : Int
  trapifc : Int

/-- The counters and `current_module_idx`, `new_module` during the scan. -/
structure BasicScan where
  elems : BasicElements
  found : Option (Nat × Bool)

def BasicScan.empty : BasicScan := ⟨⟨0, 0, 0⟩, none⟩

/-- One child of a module element; the flag is `move_to_next_module`. -/
def scanBasicElement (s : Supervisor) (b : BasicScan) (moduleAtrElem : XmlNode) :
    BasicScan × Bool :=
  if moduleAtrElem.nodeNamed "name" then
    match moduleAtrElem.value with
    | none => ({ b with elems.name := -1 }, true)
    | some key =>
      let b : BasicScan := { b with elems.name := b.elems.name + 1 }
      if b.elems.name = 1 then
        match findLoadedModule s key with
        | none => ({ b with found := some (s.loadedModulesCnt, true) }, false)
        | some x =>
          ({ b with found := some (x, false) }, (s.loaded[x]?).any (·.moduleCheckedByReload))
      else (b, true)
  else if moduleAtrElem.nodeNamed "path" then
    match moduleAtrElem.value with
    | none => ({ b with elems.path := -1 }, true)
    | some _ =>
      let b : BasicScan := { b with elems.path := b.elems.path + 1 }
      (b, b.elems.path > 1)
  else if moduleAtrElem.nodeNamed "trapinterfaces" then
    let b : BasicScan := { b with elems.trapifc := b.elems.trapifc + 1 }
    (b, b.elems.trapifc > 1)
  else (b, false)

/-- The scan of one module element; `none` when it has to be skipped. -/
def scanBasicElements (s : Supervisor) : List XmlNode → BasicScan → Option BasicScan
  | [], b => some b
  | moduleAtrElem :: next, b =>
    let (b, moveToNextModule) := scanBasicElement s b moduleAtrElem
    if moveToNextModule || (next.isEmpty && (b.elems.name == 0 || b.elems.path == 0)) then none
    else scanBasicElements s next b

/-- `reload_find_and_check_module_basic_elements` from `module_elem` on: how
many siblings were passed over, the element to apply, `current_module_idx`,
`new_module` and the number of trapinterfaces elements. A skipped element moves
the cursor by two siblings; `none` is the return value -1. -/
def reloadFindAndCheckModuleBasicElements (s : Supervisor) :
    List XmlNode → Nat → Option (Nat × XmlNode × Nat × Bool × Int)
  | [], _ => none
  | moduleElem :: rest, skipped =>
    match scanBasicElements s moduleElem.xmlChildrenNode .empty with
    | some b =>
      if b.elems.name ≠ 1 ∨ b.elems.path ≠ 1 ∨ b.elems.trapifc > 1 then none
      else b.found.map fun (x, newModule) => (skipped, moduleElem, x, newModule, b.elems.trapifc)
    | none =>
      match rest with
      | _ :: rest => reloadFindAndCheckModuleBasicElements s rest (skipped + 2)
      | [] => none

/-! ## The document -/

/-- `basic_elements` and the strings of a modules element. -/
structure ProfileScan where
  name : Int
  enabled : Int
  newProfileName : Option String
  newProfileEnabled : Bool

/-- The scan of a modules element, up to its first invalid child. -/
def scanProfileElements : List XmlNode → ProfileScan → ProfileScan
  | [], p => p
  | moduleElem :: next, p =>
    if moduleElem.nodeNamed "name" then
      match moduleElem.value with
      | some key =>
        let p := { p with name := p.name + 1 }
        if p.name = 1 then scanProfileElements next { p with newProfileName := some key } else p
      | none => { p with name := -1 }
    else if moduleElem.nodeNamed "enabled" then
      match moduleElem.value with
      | some key =>
        let p := { p with enabled := p.enabled + 1 }
        if p.enabled = 1 then scanProfileElements next { p with newProfileEnabled := key == "true" }
        else p
      | none => { p with enabled := -1 }
    else scanProfileElements next p

/-- `reload_find_and_check_modules_profile_basic_elements`: the new profile. -/
def reloadFindAndCheckModulesProfileBasicElements (children : List XmlNode) :
    Option ModulesProfile :=
  let p := scanProfileElements children ⟨0, 0, none, false⟩
  if p.name ≠ 1 ∨ p.enabled ≠ 1 then none
  else p.newProfileName.map fun name => ⟨name, p.newProfileEnabled⟩

/-- Apply an element to the slot `x`; the slot after the loaded ones becomes a
loaded one. -/
def applyAt (choice : ReloadChoice) (modulesProfile : Option Nat) (s : Supervisor)
    (moduleElem : XmlNode) (x : Nat) (newModule : Bool) (trapifcElems : Int) : Supervisor :=
  let apply := applyModuleElement choice modulesProfile newModule trapifcElems moduleElem
  if x = s.loaded.length then
    match s.spare with
    | m :: spare => { s with loaded := s.loaded ++ [apply m], spare }
    | [] => s
  else
    match s.loaded[x]? with
    | some m => s.setModule x (apply m)
    | none => s

/-- The loop over the children of a modules element; `skip` siblings were passed
over by the search for the last module. -/
def moduleElemLoop (choice : ReloadChoice) (modulesProfile : Option Nat) :
    List XmlNode → Nat → Supervisor → Supervisor
  | [], _, s => s
  | _ :: next, skip + 1, s => moduleElemLoop choice modulesProfile next skip s
  | moduleElem :: next, 0, s =>
    if moduleElem.nodeNamed "module" then
      let s := checkRunningModulesAllocatedMemory s
      match reloadFindAndCheckModuleBasicElements s (moduleElem :: next) 0 with
      | none => s
      | some (skip, elem, x, newModule, trapifcElems) =>
        moduleElemLoop choice modulesProfile next skip
          (applyAt choice modulesProfile s elem x newModule trapifcElems)
    else moduleElemLoop choice modulesProfile next 0 s

/-- One child of the root. -/
def processNode (choice : ReloadChoice) (s : Supervisor) (currentNode : XmlNode) : Supervisor :=
  if currentNode.nodeNamed "supervisor" then
    reloadProcessSupervisorElement s currentNode.xmlChildrenNode
  else if currentNode.nodeNamed "modules" then
    match reloadFindAndCheckModulesProfileBasicElements currentNode.xmlChildrenNode with
    | some profile =>
      moduleElemLoop choice (some s.profiles.length) currentNode.xmlChildrenNode 0
        { s with
          profiles := s.profiles ++ [profile]
          loadedProfileCnt := s.loadedProfileCnt + 1 }
    | none => moduleElemLoop choice none currentNode.xmlChildrenNode 0 s
  else s

/-- The pass over all slots before the document is applied. -/
def resetReloadFlags (m : RunningModule) : RunningModule :=
  { m with
    moduleCheckedByReload := false
    moduleModifiedByReload := false
    modulesProfile := none
    moduleMaxRestartsPerMinute := -1
    moduleIsMyChild := true
    moduleRootPermNeeded := false
    initModule := false
    removeModule := false }

def resetTable (s : Supervisor) : Supervisor :=
  { s with
    loaded := s.loaded.map resetReloadFlags
    spare := s.spare.map resetReloadFlags
    profiles := []
    loadedProfileCnt := 0 }

/-- Missing modules are to be stopped and removed. -/
def removeIfMissing (m : RunningModule) : RunningModule :=
  if m.moduleCheckedByReload = false then
    { m with moduleEnabled := false, removeModule := true }
  else m

/-- Modified modules that were running are to be restarted. -/
def restartIfModified (m : RunningModule) : RunningModule :=
  let m := { m with moduleServedByServiceThread := false }
  if m.moduleModifiedByReload && m.moduleRunning then
    let m := { m with moduleRunning := false }
    if m.moduleEnabled then { m with moduleEnabled := false, initModule := true } else m
  else m

/-- A PID from the backup belongs to a running process. -/
def adoptIfRunning (choice : ReloadChoice) (m : RunningModule) : RunningModule :=
  if choice = .initLoadConfig ∧ m.modulePid > 0 then initModuleVariables m else m

/-- The passes over the table after the document is applied. -/
def finishReload (choice : ReloadChoice) (originalLoadedModulesCnt : Nat) (s : Supervisor) :
    Supervisor :=
  { s with loaded := s.loaded.mapIdx fun x m =>
      let m := if x < originalLoadedModulesCnt then removeIfMissing m else m
      adoptIfRunning choice (restartIfModified m) }

/-- `reload_configuration` of the parsed document: the new state and the result. -/
def reloadConfiguration (choice : ReloadChoice) (rootNode : Option XmlNode) (s : Supervisor) :
    Supervisor × Bool :=
  match validateConfiguration rootNode, rootNode with
  | .ok _, some root =>
    (finishReload choice s.loadedModulesCnt
      (root.xmlChildrenNode.foldl (processNode choice) (resetTable s)), true)
  | _, _ => (s, false)

end NemeaSupervisor
