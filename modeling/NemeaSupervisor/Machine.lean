import NemeaSupervisor.Operator
import NemeaSupervisor.Reload
import NemeaSupervisor.Run
import NemeaSupervisor.Service

/-!
# The supervisor as a state machine

The critical sections of the service thread, the operator, reloads and the
termination in any order, with the processes moving in between and, through the
script of a cycle, inside a cycle. Commands wait for the lock, which the service
thread keeps when it has left its loop.
-/

namespace NemeaSupervisor

inductive Action where
  | cycle (turns : List Turn)
  | move (mv : Move)
  | setEnabled (selection : Option (List Int))
  | setDisabled (selection : Option (List Int))
  | restartModule (selection : Option (List Int))
  | reloadTemplate (rootNode : Option XmlNode)
  | reloadCallback (rootNode : Option XmlNode)
  | stopConfiguration
  | setStopAllModules (stop : Bool)
  | abortServiceThread

/-- The document of a reload. -/
def Action.reloadRoot : Action → Option XmlNode
  | .reloadTemplate rootNode => rootNode
  | .reloadCallback rootNode => rootNode
  | _ => none

/-- A critical section of another thread. -/
def World.locked (w : World) (f : Supervisor → Supervisor) : World :=
  if w.serviceExited then w else { w with sup := f w.sup }

def step (w : World) : Action → World
  | .cycle turns => serviceCycle turns w
  | .move mv => { w with kernel := w.kernel.move mv }
  | .setEnabled selection => w.locked (interactiveSetEnabled selection)
  | .setDisabled selection => w.locked (interactiveSetDisabled selection)
  | .restartModule selection => w.locked (interactiveRestartModule selection)
  | .reloadTemplate rootNode =>
    w.locked fun s => (reloadConfiguration .defaultConfigFile rootNode s).1
  | .reloadCallback rootNode =>
    w.locked fun s => (reloadConfiguration .callbackRootElem rootNode s).1
  | .stopConfiguration => w.locked interactiveStopConfiguration
  | .setStopAllModules stop => { w with sup := { w.sup with serviceStopAllModules := stop } }
  | .abortServiceThread => { w with sup := { w.sup with serviceThreadContinue := false } }

/-- The table after the initial load. -/
def initialTable (rootNode : Option XmlNode) : Supervisor :=
  (reloadConfiguration .initLoadConfig rootNode .init).1

/-- The processes left by an earlier supervisor whose PIDs the backup names. -/
def adoptedProcesses (alive : List Int) (s : Supervisor) : List Process :=
  s.loaded.filterMap fun m =>
    if m.modulePid > 0 ∧ m.modulePid ∈ alive then
      some ⟨m.modulePid, m.moduleName, false, false, false, none⟩
    else none

/-- `supervisor_initialization`: the initial load, then `start_service_thread`.
Without an initial load, under a NETCONF server, there is no root element. -/
def boot (alive : List Int) (rootNode : Option XmlNode) : World :=
  let s := initialTable rootNode
  let procs := adoptedProcesses alive s
  { sup := { s with serviceThreadContinue := true, serviceStopAllModules := false }
    kernel := ⟨procs, [], procs.map fun p => .adopted p.pid⟩
    serviceExited := false }

/-- The states the supervisor can reach. -/
def Reachable (w : World) : Prop :=
  ∃ alive rootNode as, w = Run.run step (boot alive rootNode) as

/-! Documents with one enabled profile, for runs on given inputs. -/

def profileDocument (modules : List XmlNode) : XmlNode :=
  .element "nemea-supervisor" []
    [.element "modules" [] (.textElement "name" "p" :: .textElement "enabled" "true" :: modules)]

def moduleElement (name path enabled : String) (more : List XmlNode) : XmlNode :=
  .element "module" [] (.textElement "name" name :: .textElement "path" path ::
    .textElement "enabled" enabled :: more)

end NemeaSupervisor
