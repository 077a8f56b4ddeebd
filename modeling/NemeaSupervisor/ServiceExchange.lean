import Mathlib.Algebra.Group.Nat.Defs
import Mathlib.Logic.Function.Basic
import NemeaSupervisor.Machine
import NemeaSupervisor.ModulesInfo
import NemeaSupervisor.StatsMessages

/-!
# The exchanges of a service cycle

The service cycle with what goes over the connections: sockets that are opened and
fail to connect, partial sends and receives with their timeouts, the header and the
buffer that all modules share, and the statistics that replies leave behind. What the
calls on a slot return in a cycle is given by a script.
-/

namespace NemeaSupervisor

open Loop

def serviceWaitMaxTry : Nat := 8
def serviceGetCom : UInt8 := 10
def serviceOkReply : UInt8 := 12

/-! ## Messages -/

/-- The bytes of `service_msg_header_t`; the three after `com` are padding. -/
abbrev ServiceMsgHeader := Fin 8 → UInt8

namespace ServiceMsgHeader

def com (header : ServiceMsgHeader) : UInt8 := header 0

def dataSize (header : ServiceMsgHeader) : Nat :=
  (header 4).toNat + 256 * ((header 5).toNat + 256 * ((header 6).toNat + 256 * (header 7).toNat))

def bytes (header : ServiceMsgHeader) : List UInt8 := List.ofFn header

/-- The header of a request; the padding is what the last reply has left. -/
def request (header : ServiceMsgHeader) : ServiceMsgHeader := fun i =>
  if i = 0 then serviceGetCom else if 4 ≤ i then 0 else header i

/-- Received bytes overwrite the header from its start. -/
def overwrite (header : ServiceMsgHeader) (received : List UInt8) : ServiceMsgHeader := fun i =>
  received.getD i (header i)

end ServiceMsgHeader

/-- What `send` and `recv` return. -/
inductive SendResult where
  | sent (n : Nat)
  | wouldBlock
  | failed
  deriving DecidableEq, Repr

inductive RecvResult where
  | received (bytes : List UInt8)
  | wouldBlock
  | failed
  deriving DecidableEq, Repr

/-- The loop of `service_send_data`: the number of bytes sent, and whether these are all. The end
of the script is an error. -/
def sendLoop (size : Nat) : Nat → Nat → List SendResult → Nat × Bool
  | _, totalSent, [] => (totalSent, decide (size ≤ totalSent))
  | numOfTimeouts, totalSent, r :: results =>
    if size ≤ totalSent then (totalSent, true)
    else
      match r with
      | .sent n => sendLoop size numOfTimeouts (totalSent + min n (size - totalSent)) results
      | .wouldBlock =>
        if numOfTimeouts + 1 > serviceWaitMaxTry then (totalSent, false)
        else sendLoop size (numOfTimeouts + 1) totalSent results
      | .failed => (totalSent, false)

/-- `service_send_data`: what has been sent, and the result. -/
def serviceSendData (data : List UInt8) (results : List SendResult) : List UInt8 × Bool :=
  let (totalSent, ok) := sendLoop data.length 0 0 results
  (data.take totalSent, ok)

/-- What a receiving loop leaves: the bytes received, whether these are all, and the rest of
the script. -/
structure Received where
  bytes : List UInt8
  ok : Bool
  results : List RecvResult
  deriving DecidableEq, Repr

/-- The loop of `service_recv_data`; a socket closed by the module yields no bytes. -/
def recvLoop (size : Nat) : Nat → List UInt8 → List RecvResult → Received
  | _, received, [] => ⟨received, decide (size ≤ received.length), []⟩
  | numOfTimeouts, received, r :: results =>
    if size ≤ received.length then ⟨received, true, r :: results⟩
    else
      match r with
      | .received [] => ⟨received, false, results⟩
      | .received bytes =>
        recvLoop size numOfTimeouts (received ++ bytes.take (size - received.length)) results
      | .wouldBlock =>
        if numOfTimeouts + 1 > serviceWaitMaxTry then ⟨received, false, results⟩
        else recvLoop size (numOfTimeouts + 1) received results
      | .failed => ⟨received, false, results⟩

def serviceRecvData (size : Nat) (results : List RecvResult) : Received :=
  recvLoop size 0 [] results

/-! ## The state -/

/-- Bytes that have gone over a service connection. -/
inductive Transfer where
  | sent (bytes : List UInt8)
  | received (bytes : List UInt8)
  deriving DecidableEq, Repr

/-- What has gone over a service connection since it was opened, the oldest first. -/
abbrev Wire := List Transfer

/-- The descriptors of service connections that are open after a trace. A socket is on the
trace as connected from its opening on. -/
def openSds : List Event → List Int
  | [] => []
  | .connected sd :: older => sd :: openSds older
  | .closed sd :: older => (openSds older).erase sd
  | _ :: older => openSds older

/-- The buffer for the data of a reply: grown when it is too small, and cleared. Its size is a
`uint32_t`. -/
def clearBuffer (dataSize : Nat) (buffer : List UInt8) : List UInt8 :=
  List.replicate (if dataSize > buffer.length then (dataSize + 1) % 2 ^ 32 else buffer.length) 0

/-- The text that `json_loads` reads from a buffer; without a terminator it goes on with the bytes
that follow in memory. -/
def bufferText (buffer beyond : List UInt8) : List UInt8 :=
  (buffer ++ beyond).takeWhile fun c => c ≠ 0

/-- What `recv` returns to a buffer; without one, as `realloc` leaves it for no bytes at all, there
is nowhere to store what has come. -/
def recvInto (buffer : List UInt8) (results : List RecvResult) : List RecvResult :=
  if buffer = [] then
    results.map fun
      | .received (_ :: _) => .failed
      | r => r
  else results

/-- `json_loads` of a buffer, which refuses NULL. -/
def loadsBuffer (jsonLoads : List UInt8 → Option Json) (buffer beyond : List UInt8) : Option Json :=
  if buffer = [] then none else jsonLoads (bufferText buffer beyond)

/-- The data of a reply: how much its header has announced, what has been received, the buffer
with it, and whether it is all, so that the decoder is called. -/
structure Reading where
  dataSize : Nat
  data : List UInt8
  buffer : List UInt8
  complete : Bool
  deriving DecidableEq, Repr

/-- The supervisor with the statistics of its slots and what its connections have carried; `decoded`
lists the calls of the decoder and `readings` the data received, the newest first. -/
structure ServiceState where
  world : World
  stats : List ModuleStats
  header : ServiceMsgHeader
  buffer : List UInt8
  wires : Int → Wire
  decoded : List DecodeCall
  readings : List Reading

/-- What the calls of a cycle return, by slot, and what the memory after the buffer holds. -/
structure ServiceScript where
  turns : List Turn
  connects : Nat → Bool
  sends : Nat → List SendResult
  recvs : Nat → List RecvResult
  callocs : Nat → Allocations
  beyond : Nat → List UInt8

namespace ServiceState

/-- A pass that has nothing to do with the exchanges. -/
def lift (f : World → World) (d : ServiceState) : ServiceState := { d with world := f d.world }

def disconnect (x : Nat) (m : RunningModule) (d : ServiceState) : ServiceState :=
  d.lift (serviceDisconnectFromModule x m)

/-- The module is removed in the pass over modules not yet served. -/
def Freed (m : RunningModule) : Prop :=
  m.moduleServedByServiceThread = false ∧ m.removeModule = true ∧ m.moduleStatus = false

instance (m : RunningModule) : Decidable (Freed m) := inferInstanceAs (Decidable (_ ∧ _))

/-- The statistics go with the slot they belong to. -/
def serveModule (y : Nat) (d : ServiceState) : ServiceState :=
  { d with
    world := NemeaSupervisor.serveModule y d.world
    stats := if ∃ m ∈ d.world.sup.loaded[y]?, Freed m then d.stats.eraseIdx y else d.stats }

/-- `service_connect_to_module`; a new socket has a number that no open one has. -/
def serviceConnectToModule (connects : Bool) (x : Nat) (m : RunningModule) (d : ServiceState) :
    ServiceState :=
  let (t, k) := d.world.kernel.turn
  let sockfd := t.connectSd
  if sockfd ≥ 0 ∧ sockfd ∉ openSds k.trace then
    let k := k.record (.connected sockfd)
    if connects then
      { d with
        world := ({ d.world with kernel := k } : World).setModule x
          { m with
            moduleServiceSd := sockfd
            moduleServiceIfcIsconnected := true
            serviceIfcConnTimer := 0 }
        wires := Function.update d.wires sockfd [] }
    else
      { d with
        world := ({ d.world with kernel := k.close sockfd } : World).setModule x
          { m with moduleServiceIfcIsconnected := false } }
  else
    { d with
      world := ({ d.world with kernel := k } : World).setModule x
        { m with moduleServiceIfcIsconnected := false } }

/-- The body of `service_check_connections`. -/
def checkConnection (script : ServiceScript) (x : Nat) (d : ServiceState) : ServiceState :=
  match d.world.sup.loaded[x]? with
  | none => d
  | some m =>
    if m.moduleStatus ∧ m.moduleServiceIfcIsconnected = false then
      let m := { m with serviceIfcConnTimer := m.serviceIfcConnTimer + 1 }
      if m.serviceIfcConnTimer % numServiceIfcPeriods = 1 then
        let (k, m) := closeServiceSd d.world.kernel m
        serviceConnectToModule (script.connects x) x m (d.lift fun w => { w with kernel := k })
      else d.lift fun w => w.setModule x m
    else d

/-- Bytes go out or come in over a connection. -/
def transfer (sd : Int) (t : Transfer) (d : ServiceState) : ServiceState :=
  { d with wires := Function.update d.wires sd (d.wires sd ++ [t]) }

/-- The world moves while the thread waits for a socket. -/
def wait (d : ServiceState) : ServiceState := d.lift fun w => { w with kernel := w.kernel.turn.2 }

/-- The body of the loop that sends the requests. -/
def requestStats (script : ServiceScript) (x : Nat) (d : ServiceState) : ServiceState :=
  match d.world.sup.loaded[x]? with
  | none => d
  | some m =>
    if m.moduleServiceIfcIsconnected then
      let (bytes, ok) := serviceSendData d.header.bytes (script.sends x)
      let d := d.wait.transfer m.moduleServiceSd (.sent bytes)
      if ok then d else d.disconnect x m
    else d

/-- The text of the buffer is decoded into the statistics of a slot. -/
def decode (jsonLoads : List UInt8 → Option Json) (script : ServiceScript) (x : Nat)
    (d : ServiceState) : ServiceState × Bool :=
  match d.stats[x]? with
  | none => (d, false)
  | some s =>
    let jsonStruct := loadsBuffer jsonLoads d.buffer (script.beyond x)
    let (s', ok) := serviceDecodeModuleStats (script.callocs x) jsonStruct s
    ({ d with
        stats := d.stats.set x s'
        decoded :=
          ⟨jsonStruct, script.callocs x, s.inIfcesData.length, s.outIfcesData.length⟩ ::
            d.decoded }, ok)

/-- The four steps of a reply, each of which can fail. -/
def receiveReply (jsonLoads : List UInt8 → Option Json) (script : ServiceScript) (x : Nat) (sd : Int)
    (d : ServiceState) : ServiceState × Bool :=
  let head := serviceRecvData d.header.bytes.length (script.recvs x)
  let d := { d.transfer sd (.received head.bytes) with
    header := d.header.overwrite head.bytes }
  if head.ok = false then (d, false)
  else if d.header.com ≠ serviceOkReply then (d, false)
  else
    let buffer := clearBuffer d.header.dataSize d.buffer
    let data := serviceRecvData d.header.dataSize (recvInto buffer head.results)
    let buffer := data.bytes ++ buffer.drop data.bytes.length
    let d := { d.transfer sd (.received data.bytes) with
      buffer
      readings := ⟨d.header.dataSize, data.bytes, buffer, data.ok⟩ :: d.readings }
    if data.ok = false then (d, false)
    else d.decode jsonLoads script x

/-- The body of the loop that receives the replies. -/
def receiveStats (jsonLoads : List UInt8 → Option Json) (script : ServiceScript) (x : Nat)
    (d : ServiceState) : ServiceState :=
  match d.world.sup.loaded[x]? with
  | none => d
  | some m =>
    if m.moduleStatus ∧ m.moduleServiceIfcIsconnected then
      let (d, ok) := d.wait.receiveReply jsonLoads script x m.moduleServiceSd
      if ok then d else d.disconnect x m
    else d

def forModules (body : Nat → ServiceState → ServiceState) (d : ServiceState) : ServiceState :=
  forRange d.world.sup.loadedModulesCnt body d

/-- The loops over the slots that connect, request and receive. -/
def exchange (jsonLoads : List UInt8 → Option Json) (script : ServiceScript) (d : ServiceState) :
    ServiceState :=
  let d := { d with header := d.header.request }
  let d := d.forModules (checkConnection script)
  let d := d.forModules (requestStats script)
  let d := d.lift fun w => (serviceCheckModulesStatus w).1
  d.forModules (receiveStats jsonLoads script)

/-- The part of a cycle before the exchanges. -/
def beforeExchange (d : ServiceState) : ServiceState :=
  let d := d.lift fun w => serviceCleanAfterChildren (serviceStopModulesSigkill
    (serviceCheckModulesStatus (serviceCleanAfterChildren (serviceStopModulesSigint
      (serviceUpdateModulesStatus w)))).1)
  let d := d.forModules serveModule
  d.lift fun w => (serviceCheckModulesStatus w).1

/-- One pass through the loop of `service_thread_routine`, with its exchanges. -/
def cycle (jsonLoads : List UInt8 → Option Json) (script : ServiceScript) (d : ServiceState) :
    ServiceState :=
  if d.world.serviceExited then d
  else
    let (w, runningModulesCnt) := serviceCheckModulesStatus
      { d.world with kernel := { d.world.kernel with turns := script.turns } }
    if w.sup.serviceThreadContinue = false ∧
        (w.sup.serviceStopAllModules = false ∨ runningModulesCnt = 0) then
      { d with world := serviceThreadExit w }
    else ({ d with world := w } : ServiceState).beforeExchange.exchange jsonLoads script

/-- `interactive_print_supervisor_info`, which checks the modules without taking the lock; it runs
between the steps of the others. -/
def supervisorInfo (turns : List Turn) (d : ServiceState) : ServiceState :=
  d.lift fun w => (serviceCheckModulesStatus { w with kernel := { w.kernel with turns } }).1

/-- The slots after a command; new ones have no statistics. -/
def command (a : Action) (d : ServiceState) : ServiceState :=
  let w := step d.world a
  { d with
    world := w
    stats := d.stats ++ List.replicate (w.sup.loaded.length - d.stats.length) .zero }

def boot (alive : List Int) (rootNode : Option XmlNode) : ServiceState :=
  let w := NemeaSupervisor.boot alive rootNode
  ⟨w, List.replicate w.sup.loaded.length .zero, fun _ => 0, List.replicate 256 0, fun _ => [], [],
    []⟩

end ServiceState

/-- A cycle with its exchanges, or any other step of the supervisor. -/
inductive ServiceAction where
  | cycle (script : ServiceScript)
  | info (turns : List Turn)
  | command (a : Action) (h : ∀ turns, a ≠ .cycle turns)

def serviceStep (jsonLoads : List UInt8 → Option Json) (d : ServiceState) :
    ServiceAction → ServiceState
  | .cycle script => d.cycle jsonLoads script
  | .info turns => d.supervisorInfo turns
  | .command a _ => d.command a

end NemeaSupervisor
