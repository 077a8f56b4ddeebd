import NemeaSupervisor.Xml

/-!
# The module table

The globals of the supervisor that the configuration and the service thread
work on. The allocated array `running_modules` is kept as its first
`loaded_modules_cnt` slots and the allocated slots above them, so that
`loaded_modules_cnt` and `running_modules_array_size` are lengths; profiles
are the linked list from `first_profile_ptr`, and a `modules_profile` pointer
is a position in that list.
-/

namespace NemeaSupervisor

def defaultModuleRestartsNum : Int := 3
def maxModuleRestartsNum : Int := 30
def runningModulesArrayStartSize : Nat := 10
def ifcesArrayStartSize : Nat := 5
def numServiceIfcPeriods : Nat := 30

def inModuleIfcDirection : Int := 1
def outModuleIfcDirection : Int := 2
def serviceModuleIfcDirection : Int := 3
def tcpModuleIfcType : Int := 1
def unixsocketModuleIfcType : Int := 2
def serviceModuleIfcType : Int := 3
def fileModuleIfcType : Int := 4
def blackholeModuleIfcType : Int := 5
def tlsModuleIfcType : Int := 6
def invalidModuleIfcAttr : Int := -1

/-- `interface_t`; a missing string is a NULL pointer. -/
structure Interface where
  ifcNote : Option String
  ifcType : Option String
  ifcParams : Option String
  ifcDirection : Option String
  intIfcDirection : Int
  intIfcType : Int
  deriving DecidableEq, Repr

/-- An interface slot as `calloc` returns it. -/
def Interface.zero : Interface := ⟨none, none, none, none, 0, 0⟩

/-- `modules_profile_t`. -/
structure ModulesProfile where
  profileName : String
  profileEnabled : Bool
  deriving DecidableEq, Repr

/-- `running_module_t`. `configIfces` is the whole allocated array, so its
length is `config_ifces_arr_size`. -/
structure RunningModule where
  configIfces : List Interface
  configIfcesCnt : Nat
  moduleEnabled : Bool
  moduleName : Option String
  moduleParams : Option String
  modulePath : Option String
  moduleServedByServiceThread : Bool
  moduleModifiedByReload : Bool
  moduleCheckedByReload : Bool
  modulesProfile : Option Nat
  moduleIsMyChild : Bool
  moduleRootPermNeeded : Bool
  removeModule : Bool
  initModule : Bool
  moduleStatus : Bool
  moduleRunning : Bool
  moduleRestartCnt : Int
  moduleRestartTimer : Nat
  moduleMaxRestartsPerMinute : Int
  modulePid : Int
  sentSigint : Bool
  moduleServiceSd : Int
  moduleServiceIfcIsconnected : Bool
  serviceIfcConnTimer : Nat
  deriving DecidableEq, Repr

/-- What `service_start_module` hands to a new process. -/
structure Launch where
  path : Option String
  params : Option String
  ifces : List Interface
  deriving DecidableEq, Repr

namespace RunningModule

/-- A slot whose memory is all zero bytes. -/
def zero : RunningModule where
  configIfces := []
  configIfcesCnt := 0
  moduleEnabled := false
  moduleName := none
  moduleParams := none
  modulePath := none
  moduleServedByServiceThread := false
  moduleModifiedByReload := false
  moduleCheckedByReload := false
  modulesProfile := none
  moduleIsMyChild := false
  moduleRootPermNeeded := false
  removeModule := false
  initModule := false
  moduleStatus := false
  moduleRunning := false
  moduleRestartCnt := 0
  moduleRestartTimer := 0
  moduleMaxRestartsPerMinute := 0
  modulePid := 0
  sentSigint := false
  moduleServiceSd := 0
  moduleServiceIfcIsconnected := false
  serviceIfcConnTimer := 0

/-- A slot of a newly allocated part of the array. -/
def fresh : RunningModule :=
  { zero with configIfces := List.replicate ifcesArrayStartSize Interface.zero }

/-- The interfaces in use, `config_ifces[0 .. config_ifces_cnt)`. -/
def ifces (m : RunningModule) : List Interface := m.configIfces.take m.configIfcesCnt

/-- The launch data in a slot. -/
def launch (m : RunningModule) : Launch := ⟨m.modulePath, m.moduleParams, m.ifces⟩

end RunningModule

/-- The global variables. -/
structure Supervisor where
  loaded : List RunningModule
  spare : List RunningModule
  profiles : List ModulesProfile
  loadedProfileCnt : Nat
  moduleRestartsNumConfig : Int
  serviceThreadContinue : Bool
  serviceStopAllModules : Bool
  deriving DecidableEq, Repr

namespace Supervisor

def loadedModulesCnt (s : Supervisor) : Nat := s.loaded.length
def runningModulesArraySize (s : Supervisor) : Nat := s.loaded.length + s.spare.length

/-- The profile a module's pointer leads to. -/
def profileOf (s : Supervisor) (m : RunningModule) : Option ModulesProfile :=
  m.modulesProfile.bind fun i => s.profiles[i]?

/-- `modules_profile != NULL && modules_profile->profile_enabled == TRUE`. -/
def profileEnabled (s : Supervisor) (m : RunningModule) : Bool :=
  (s.profileOf m).any ModulesProfile.profileEnabled

/-- `modules_profile != NULL && modules_profile->profile_enabled == FALSE`. -/
def profileDisabled (s : Supervisor) (m : RunningModule) : Bool :=
  (s.profileOf m).any fun p => !p.profileEnabled

/-- The limit `service_update_modules_status` compares the restart counter with. -/
def maxRestarts (s : Supervisor) (m : RunningModule) : Int :=
  if m.moduleMaxRestartsPerMinute > -1 then m.moduleMaxRestartsPerMinute
  else s.moduleRestartsNumConfig

/-- Assignment to a loaded slot. -/
def setModule (s : Supervisor) (x : Nat) (m : RunningModule) : Supervisor :=
  { s with loaded := s.loaded.set x m }

end Supervisor

/-- `find_loaded_module`: the first slot holding the name. -/
def findLoadedModule (s : Supervisor) (name : String) : Option Nat :=
  s.loaded.findIdx? fun m => m.moduleName == some name

/-- `check_running_modules_allocated_memory`. -/
def checkRunningModulesAllocatedMemory (s : Supervisor) : Supervisor :=
  if s.runningModulesArraySize = 0 then
    { s with spare := List.replicate runningModulesArrayStartSize RunningModule.fresh }
  else if s.loadedModulesCnt = s.runningModulesArraySize then
    { s with spare := List.replicate (s.runningModulesArraySize / 2) RunningModule.fresh }
  else s

/-- The globals when `supervisor_initialization` has allocated the table. -/
def Supervisor.init : Supervisor :=
  checkRunningModulesAllocatedMemory
    { loaded := [], spare := [], profiles := [], loadedProfileCnt := 0,
      moduleRestartsNumConfig := defaultModuleRestartsNum,
      serviceThreadContinue := false, serviceStopAllModules := false }

/-- `free_module_interfaces_on_index`: the strings go, the codes stay. -/
def freeModuleInterfacesOnIndex (m : RunningModule) : RunningModule :=
  { m with configIfces := m.configIfces.mapIdx fun y ifc =>
      if y < m.configIfcesCnt then
        { ifc with ifcNote := none, ifcType := none, ifcDirection := none, ifcParams := none }
      else ifc }

/-- `free_module_and_shift_array`: the slots above move down and the last
loaded slot is zeroed. -/
def freeModuleAndShiftArray (s : Supervisor) (moduleIdx : Nat) : Supervisor :=
  if moduleIdx < s.loaded.length then
    { s with loaded := s.loaded.eraseIdx moduleIdx, spare := RunningModule.zero :: s.spare }
  else s

/-- `init_module_variables`. -/
def initModuleVariables (m : RunningModule) : RunningModule :=
  { m with
    moduleRunning := true
    sentSigint := false
    moduleServiceSd := -1
    moduleServiceIfcIsconnected := false
    serviceIfcConnTimer := 0 }

end NemeaSupervisor
