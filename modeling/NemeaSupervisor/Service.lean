import NemeaSupervisor.Kernel
import NemeaSupervisor.Loop

/-!
# The service thread

The passes of `service_thread_routine` over the module table and the routine's
loop body. Each pass is an index loop, and its body reads and writes one slot.
The statistics and resource usage that the thread collects are not modelled.
-/

namespace NemeaSupervisor

open Loop Kernel

/-- `service_start_module`. -/
def serviceStartModule (x : Nat) (m : RunningModule) (w : World) : World :=
  let profile := w.sup.profileOf m
  let k := w.kernel.record (.startCalled m profile (w.sup.maxRestarts m)
    (w.kernel.ownerAlive m.moduleName))
  let tracked := fun pid => w.sup.loaded.any fun m => m.modulePid == pid
  let m' := initModuleVariables { m with moduleRunning := true }
  match k.fork tracked m.moduleName m.launch with
  | (none, k) =>
    { w with kernel := k }.setModule x
      { m' with
        modulePid := -1
        moduleStatus := false
        moduleRestartCnt := m.moduleRestartCnt + 1 }
  | (some pid, k) =>
    { w with kernel := k.record (.started m profile pid) }.setModule x
      { m' with
        modulePid := pid
        moduleIsMyChild := true
        moduleStatus := true
        moduleRestartCnt := m.moduleRestartCnt + 1
        moduleRestartTimer := if m.moduleRestartCnt + 1 = 1 then 0 else m.moduleRestartTimer }

/-- `close` of a slot's descriptor unless it is closed already. -/
def closeServiceSd (k : Kernel) (m : RunningModule) : Kernel × RunningModule :=
  if m.moduleServiceSd ≠ -1 then (k.close m.moduleServiceSd, { m with moduleServiceSd := -1 })
  else (k, m)

/-- `service_disconnect_from_module`. -/
def serviceDisconnectFromModule (x : Nat) (m : RunningModule) (w : World) : World :=
  if m.moduleServiceIfcIsconnected then
    let (k, m) := closeServiceSd w.kernel m
    { w with kernel := k }.setModule x
      { m with moduleServiceIfcIsconnected := false, serviceIfcConnTimer := 0 }
  else w.setModule x { m with serviceIfcConnTimer := 0 }

/-- The body of `service_check_modules_status`; the number counts running modules. -/
def checkModuleStatus (x : Nat) (st : World × Nat) : World × Nat :=
  let (w, someModuleRunning) := st
  match w.sup.loaded[x]? with
  | none => st
  | some m =>
    if m.modulePid > 0 then
      match w.kernel.kill0 m.modulePid with
      | (.eperm, k) =>
        ({ w with kernel := k }.setModule x
          { m with moduleRootPermNeeded := true, moduleStatus := true },
          if w.sup.serviceThreadContinue then someModuleRunning + 1 else someModuleRunning)
      | (.esrch, k) =>
        let (k, m) := closeServiceSd k m
        ({ w with kernel := k }.setModule x
          { m with moduleStatus := false, moduleServiceIfcIsconnected := false, modulePid := 0 },
          someModuleRunning)
      | (.ok, k) =>
        ({ w with kernel := k }.setModule x
          { m with moduleStatus := true, moduleRootPermNeeded := false },
          someModuleRunning + 1)
    else st

/-- `service_check_modules_status`. -/
def serviceCheckModulesStatus (w : World) : World × Nat :=
  forRange w.sup.loadedModulesCnt checkModuleStatus (w, 0)

/-- The body of `service_clean_after_children`. -/
def cleanAfterChild (x : Nat) (w : World) : World :=
  match w.sup.loaded[x]? with
  | none => w
  | some m =>
    if m.modulePid > 0 ∧ m.moduleIsMyChild then
      match w.kernel.waitpid m.modulePid with
      | (.echild, k) => { w with kernel := k }.setModule x { m with moduleIsMyChild := false }
      | (_, k) => { w with kernel := k }
    else w

/-- `service_clean_after_children`. -/
def serviceCleanAfterChildren (w : World) : World :=
  forRange w.sup.loadedModulesCnt cleanAfterChild w

/-- The body of `service_stop_modules_sigint`. -/
def stopModuleSigint (x : Nat) (w : World) : World :=
  match w.sup.loaded[x]? with
  | none => w
  | some m =>
    if m.moduleStatus ∧ m.moduleRootPermNeeded = false ∧
        (w.sup.profileDisabled m ∨ m.moduleEnabled = false) ∧ m.sentSigint = false then
      { w with kernel := w.kernel.record (.sigint m (w.sup.profileOf m)) }.setModule x
        { m with sentSigint := true, moduleRestartCnt := -1 }
    else w

/-- `service_stop_modules_sigint`. -/
def serviceStopModulesSigint (w : World) : World :=
  forRange w.sup.loadedModulesCnt stopModuleSigint w

/-- The body of `service_stop_modules_sigkill`, without the removal of socket files. -/
def stopModuleSigkill (x : Nat) (w : World) : World :=
  match w.sup.loaded[x]? with
  | none => w
  | some m =>
    if m.moduleStatus ∧ (m.moduleEnabled = false ∨ w.sup.profileDisabled m) ∧ m.sentSigint then
      { w with kernel := w.kernel.record (.sigkill m (w.sup.profileOf m)) }.setModule x
        { m with moduleRestartCnt := -1 }
    else w

/-- `service_stop_modules_sigkill`. -/
def serviceStopModulesSigkill (w : World) : World :=
  forRange w.sup.loadedModulesCnt stopModuleSigkill w

/-- The restart timer of one module. -/
def tickRestartTimer (m : RunningModule) : RunningModule :=
  if m.moduleRestartTimer + 1 ≥ numServiceIfcPeriods then
    { m with
      moduleRestartTimer := 0
      moduleRestartCnt := if m.moduleRestartCnt > 0 then 0 else m.moduleRestartCnt }
  else { m with moduleRestartTimer := m.moduleRestartTimer + 1 }

/-- The body of `service_update_modules_status`. -/
def updateModuleStatus (x : Nat) (w : World) : World :=
  match w.sup.loaded[x]? with
  | none => w
  | some m =>
    let m := tickRestartTimer m
    let w := w.setModule x m
    if w.sup.profileEnabled m ∧ m.moduleEnabled ∧ m.moduleStatus = false ∧
        m.moduleRestartCnt = w.sup.maxRestarts m then
      w.setModule x { m with moduleEnabled := false }
    else if w.sup.profileEnabled m ∧ m.moduleStatus = false ∧ m.moduleEnabled then
      serviceStartModule x m w
    else w

/-- `service_update_modules_status`. -/
def serviceUpdateModulesStatus (w : World) : World :=
  forRange w.sup.loadedModulesCnt updateModuleStatus w

/-- The body of the pass over modules not yet served: removals and restarts.
The index grows past a slot that a removal has just filled. -/
def serveModule (y : Nat) (w : World) : World :=
  match w.sup.loaded[y]? with
  | none => w
  | some m =>
    if m.moduleServedByServiceThread = false then
      if m.removeModule then
        if m.moduleStatus = false then
          { w with
            sup := freeModuleAndShiftArray w.sup y
            kernel := w.kernel.record (.freed m (w.kernel.ownerAlive m.moduleName)) }
        else w
      else if m.initModule then
        if m.moduleStatus = false then
          w.setModule y
            { m with
              moduleEnabled := true
              moduleRestartCnt := -1
              initModule := false
              moduleServedByServiceThread := true }
        else serviceDisconnectFromModule y m w
      else w.setModule y { m with moduleServedByServiceThread := true }
    else w

/-- The pass over modules not yet served. Its bound is read again in every
iteration; slots past it are left alone. -/
def serveModules (w : World) : World := forRange w.sup.loadedModulesCnt serveModule w

/-- The body of `service_check_connections`. -/
def checkConnection (x : Nat) (w : World) : World :=
  match w.sup.loaded[x]? with
  | none => w
  | some m =>
    if m.moduleStatus ∧ m.moduleServiceIfcIsconnected = false then
      let m := { m with serviceIfcConnTimer := m.serviceIfcConnTimer + 1 }
      if m.serviceIfcConnTimer % numServiceIfcPeriods = 1 then
        let (k, m) := closeServiceSd w.kernel m
        match k.connect with
        | (none, k) =>
          { w with kernel := k }.setModule x { m with moduleServiceIfcIsconnected := false }
        | (some sd, k) =>
          { w with kernel := k }.setModule x
            { m with
              moduleServiceSd := sd
              moduleServiceIfcIsconnected := true
              serviceIfcConnTimer := 0 }
      else w.setModule x m
    else w

/-- `service_check_connections`. -/
def serviceCheckConnections (w : World) : World :=
  forRange w.sup.loadedModulesCnt checkConnection w

/-- One request for statistics. -/
def requestStats (x : Nat) (w : World) : World :=
  match w.sup.loaded[x]? with
  | none => w
  | some m =>
    if m.moduleServiceIfcIsconnected then
      match w.kernel.exchange with
      | (true, k) => { w with kernel := k }
      | (false, k) => serviceDisconnectFromModule x m { w with kernel := k }
    else w

/-- One reply; the exchange fails when any of its four steps does. -/
def receiveStats (x : Nat) (w : World) : World :=
  match w.sup.loaded[x]? with
  | none => w
  | some m =>
    if m.moduleStatus ∧ m.moduleServiceIfcIsconnected then
      match w.kernel.exchange with
      | (true, k) => { w with kernel := k }
      | (false, k) => serviceDisconnectFromModule x m { w with kernel := k }
    else w

def disconnectModule (x : Nat) (w : World) : World :=
  match w.sup.loaded[x]? with
  | none => w
  | some m => serviceDisconnectFromModule x m w

/-- What follows the loop of `service_thread_routine`. -/
def serviceThreadExit (w : World) : World :=
  { forRange w.sup.loadedModulesCnt disconnectModule w with serviceExited := true }

/-- The part of the loop body after the test for termination. -/
def serviceCycleBody (w : World) : World :=
  let w := serviceUpdateModulesStatus w
  let w := serviceStopModulesSigint w
  let w := serviceCleanAfterChildren w
  let w := (serviceCheckModulesStatus w).1
  let w := serviceStopModulesSigkill w
  let w := serviceCleanAfterChildren w
  let w := serveModules w
  let w := (serviceCheckModulesStatus w).1
  let w := serviceCheckConnections w
  let w := forRange w.sup.loadedModulesCnt requestStats w
  let w := (serviceCheckModulesStatus w).1
  forRange w.sup.loadedModulesCnt receiveStats w

/-- One pass through the loop of `service_thread_routine`, from locking the
table to unlocking it. When the loop ends the lock is not released. -/
def serviceCycle (turns : List Turn) (w : World) : World :=
  if w.serviceExited then w
  else
    let (w, runningModulesCnt) :=
      serviceCheckModulesStatus { w with kernel := { w.kernel with turns } }
    if w.sup.serviceThreadContinue = false ∧
        (w.sup.serviceStopAllModules = false ∨ runningModulesCnt = 0) then
      serviceThreadExit w
    else serviceCycleBody w

end NemeaSupervisor
