import Mathlib.Algebra.Group.Nat.Defs
import Mathlib.Logic.Function.Basic
import NemeaSupervisor.Run

/-!
# The daemon and its clients

The server routine accepts connections, puts each into a free slot and creates a
thread for it; the threads serve their clients and release the slots. A step is one
statement that touches what the threads share, or one critical section under the lock
of `server_internals`, and any thread may take the next one. A stream opened on a
connection is named by the connection; a descriptor number can be handed out again
as soon as it is closed. The termination frees the slots under the threads that are
left, and what touches freed memory is not modelled: such a thread does not move.
-/

namespace NemeaSupervisor

def maxNumberSupClients : Nat := 5

def clientConfigModeCode : Int := 789123
def clientStatsModeCode : Int := 456987
def clientInfoModeCode : Int := 113366
def clientReloadModeCode : Int := 115599

/-- A `FILE`; those of a client know the number of their descriptor. -/
inductive Stream where
  | stdin
  | supervisorLogFd
  | input (conn : Nat) (fd : Int)
  | output (conn : Nat) (fd : Int)
  deriving DecidableEq, Repr

def Stream.fileno : Stream → Int
  | .stdin => 0
  | .supervisorLogFd => -1
  | .input _ fd => fd
  | .output _ fd => fd

/-- `sup_client_t`; a missing stream is NULL. -/
structure Client where
  clientInputStream : Option Stream
  clientOutputStream : Option Stream
  clientInputStreamFd : Int
  clientSd : Int
  clientConnected : Bool
  clientId : Nat
  deriving DecidableEq, Repr

/-- What an open descriptor stands for. -/
inductive Owner where
  | connection (conn : Nat)
  | other
  deriving DecidableEq, Repr

/-- A `close` on a number, for a disconnecting connection, and what it closed. -/
structure CloseRecord where
  conn : Nat
  fd : Int
  victim : Option Owner
  deriving DecidableEq, Repr

/-- `server_internals`, the global streams and the descriptors of the process. -/
structure Server where
  clients : Fin maxNumberSupClients → Client
  clientsCnt : Int
  daemonTerminated : Bool
  nextClientId : Nat
  configModeActive : Bool
  inputFd : Option Stream
  outputFd : Option Stream
  openStreams : List Stream
  descriptors : Int → Option Owner
  closes : List CloseRecord
  uncounted : List Nat

/-- Where a thread of `daemon_serve_client_routine` stands. -/
inductive ClientPc where
  | openInput
  | openOutput
  | openFileno
  | getCode
  | testConfigMode
  | setOutput
  | setInput
  | testLoop
  | waiting
  | resetInput
  | resetOutput
  | clearConfigMode
  | reporting
  | disconnect
  | closeInputFd
  | unsetInputFd
  | fcloseInput
  | unsetInput
  | fcloseOutput
  | unsetOutput
  | closeSd
  | unsetSd
  | uncount
  | reloading
  | exited
  deriving DecidableEq, Repr

/-- A thread: the slot it was given, the connection that was in it, and its locals. -/
structure ClientThread where
  client : Fin maxNumberSupClients
  conn : Nat
  pc : ClientPc
  nineCnt : Nat
  reloads : Bool
  deriving DecidableEq, Repr

/-- What the calls of a step return. -/
inductive Outcome where
  | done
  | failed
  | code (code : Int)
  | disconnected
  | request (request : Int)
  | timeout
  deriving DecidableEq, Repr

/-- Where `daemon_mode_server_routine` stands, with the connection it has accepted. -/
inductive AcceptorPc where
  | listening
  | selecting
  | testing (conn : Nat) (newClient : Int)
  | scanning (conn : Nat) (newClient : Int) (x : Nat)
  | claimed (conn : Nat) (x : Fin maxNumberSupClients)
  | filled (conn : Nat) (x : Fin maxNumberSupClients)
  | creating (conn : Nat) (x : Fin maxNumberSupClients)
  | unservedClose (conn : Nat) (x : Fin maxNumberSupClients)
  | unservedUnset (conn : Nat) (x : Fin maxNumberSupClients)
  | unservedDisconnect (conn : Nat) (x : Fin maxNumberSupClients)
  | unservedUncount (conn : Nat) (x : Fin maxNumberSupClients)
  | rejecting (conn : Nat) (newClient : Int)
  | returned
  deriving DecidableEq, Repr

/-- The whole daemon, with what has become of the connections accepted so far: those
accepted while the counter was below the maximum, those that passed the test for it,
the slots they were placed in, and those that were closed without a thread. -/
structure Daemon where
  server : Server
  acceptor : AcceptorPc
  threads : List ClientThread
  freed : Bool
  accepted : Nat
  below : List Nat
  admitted : List Nat
  placed : List (Nat × Fin maxNumberSupClients)
  rejected : List Nat
  unserved : List Nat

def Client.init : Client := ⟨none, none, -1, -1, false, 0⟩

/-- After `daemon_mode_initialization`, with the descriptors that are open then. -/
def Daemon.init (held : Int → Bool) : Daemon where
  server :=
    { clients := fun _ => .init
      clientsCnt := 0
      daemonTerminated := false
      nextClientId := 0
      configModeActive := false
      inputFd := some .stdin
      outputFd := some .supervisorLogFd
      openStreams := []
      descriptors := fun fd => if held fd then some .other else none
      closes := []
      uncounted := [] }
  acceptor := .listening
  threads := []
  freed := false
  accepted := 0
  below := []
  admitted := []
  placed := []
  rejected := []
  unserved := []

namespace Server

def setClient (s : Server) (x : Fin maxNumberSupClients) (c : Client) : Server :=
  { s with clients := Function.update s.clients x c }

/-- A number is handed out. -/
def grant (s : Server) (fd : Int) (owner : Owner) : Server :=
  { s with descriptors := Function.update s.descriptors fd (some owner) }

/-- `close` by the server routine. -/
def close (s : Server) (fd : Int) : Server :=
  { s with descriptors := Function.update s.descriptors fd none }

/-- `close` by a disconnecting client. -/
def closeFor (s : Server) (conn : Nat) (fd : Int) : Server :=
  { s.close fd with closes := s.closes ++ [⟨conn, fd, s.descriptors fd⟩] }

/-- `fclose`, which also closes the descriptor. -/
def fcloseFor (s : Server) (conn : Nat) (f : Stream) : Server :=
  { s.closeFor conn f.fileno with openStreams := s.openStreams.filter fun g => g ≠ f }

/-- The counter under the lock. -/
def uncount (s : Server) (conn : Nat) : Server :=
  { s with clientsCnt := s.clientsCnt - 1, uncounted := s.uncounted ++ [conn] }

variable (s : Server) (x : Fin maxNumberSupClients) (c : Client) (conn : Nat) (fd : Int) (f : Stream)

@[simp] theorem setClient_self : (s.setClient x c).clients x = c := Function.update_self ..
theorem setClient_other {y : Fin maxNumberSupClients} (h : y ≠ x) :
    (s.setClient x c).clients y = s.clients y := Function.update_of_ne h ..
@[simp] theorem grant_self (owner : Owner) : (s.grant fd owner).descriptors fd = some owner :=
  Function.update_self ..
theorem grant_other (owner : Owner) {n : Int} (h : n ≠ fd) :
    (s.grant fd owner).descriptors n = s.descriptors n := Function.update_of_ne h ..
@[simp] theorem close_self : (s.close fd).descriptors fd = none := Function.update_self ..
theorem close_other {n : Int} (h : n ≠ fd) : (s.close fd).descriptors n = s.descriptors n :=
  Function.update_of_ne h ..
@[simp] theorem close_clients : (s.close fd).clients = s.clients := rfl
@[simp] theorem closeFor_clients : (s.closeFor conn fd).clients = s.clients := rfl
@[simp] theorem fcloseFor_clients : (s.fcloseFor conn f).clients = s.clients := rfl
@[simp] theorem uncount_clients : (s.uncount conn).clients = s.clients := rfl

end Server

def ClientThread.goto (t : ClientThread) (pc : ClientPc) : ClientThread := { t with pc }

/-- The steps of `daemon_open_client_streams`. -/
def openStreamsStep (t : ClientThread) (outcome : Outcome) (s : Server) : Server × ClientThread :=
  let c := s.clients t.client
  match t.pc with
  | .openInput =>
    if outcome = .failed then
      (s.setClient t.client { c with clientInputStream := none }, t.goto .disconnect)
    else
      let f := Stream.input t.conn c.clientSd
      ({ s.setClient t.client { c with clientInputStream := some f } with
        openStreams := f :: s.openStreams }, t.goto .openOutput)
  | .openOutput =>
    if outcome = .failed then
      (s.setClient t.client { c with clientOutputStream := none }, t.goto .disconnect)
    else
      let f := Stream.output t.conn c.clientSd
      ({ s.setClient t.client { c with clientOutputStream := some f } with
        openStreams := f :: s.openStreams }, t.goto .openFileno)
  | .openFileno =>
    if outcome = .failed then
      (s.setClient t.client { c with clientInputStreamFd := -1 }, t.goto .disconnect)
    else
      let fd := (c.clientInputStream.map Stream.fileno).getD (-1)
      (s.setClient t.client { c with clientInputStreamFd := fd }, t.goto .getCode)
  | _ => (s, t)

/-- The steps of the mode dispatch. -/
def dispatchStep (t : ClientThread) (outcome : Outcome) (s : Server) : Server × ClientThread :=
  match t.pc with
  | .getCode =>
    match outcome with
    | .code code =>
      if code = clientConfigModeCode then (s, t.goto .testConfigMode)
      else if code = clientReloadModeCode then (s, { t with pc := .disconnect, reloads := true })
      else if code = clientStatsModeCode ∨ code = clientInfoModeCode then (s, t.goto .reporting)
      else (s, t.goto .disconnect)
    | _ => (s, t.goto .disconnect)
  | .testConfigMode =>
    if s.configModeActive then (s, t.goto .disconnect)
    else ({ s with configModeActive := true }, t.goto .setOutput)
  | .setOutput =>
    ({ s with outputFd := (s.clients t.client).clientOutputStream }, t.goto .setInput)
  | .setInput =>
    ({ s with inputFd := (s.clients t.client).clientInputStream }, t.goto .testLoop)
  | .reporting => (s, t.goto .disconnect)
  | _ => (s, t)

/-- The steps of the configuration mode loop and of its three exits. -/
def configLoopStep (t : ClientThread) (outcome : Outcome) (s : Server) : Server × ClientThread :=
  match t.pc with
  | .testLoop =>
    if (s.clients t.client).clientConnected ∧ s.daemonTerminated = false then (s, t.goto .waiting)
    else (s, t.goto .resetInput)
  | .waiting =>
    match outcome with
    | .failed => (s, t.goto .resetInput)
    | .disconnected => (s, t.goto .resetInput)
    | .request request =>
      if request = 0 then
        ({ s with daemonTerminated := s.daemonTerminated || t.nineCnt + 1 = 3 },
          { t with pc := .testLoop, nineCnt := t.nineCnt + 1 })
      else (s, t.goto .testLoop)
    | .timeout => (s, { t with pc := .testLoop, nineCnt := 0 })
    | _ => (s, t.goto .testLoop)
  | .resetInput => ({ s with inputFd := some .stdin }, t.goto .resetOutput)
  | .resetOutput => ({ s with outputFd := some .supervisorLogFd }, t.goto .clearConfigMode)
  | .clearConfigMode => ({ s with configModeActive := false }, t.goto .disconnect)
  | _ => (s, t)

/-- The steps of `daemon_disconnect_client`, and of a reload after it. -/
def disconnectStep (t : ClientThread) (s : Server) : Server × ClientThread :=
  let c := s.clients t.client
  match t.pc with
  | .disconnect => (s.setClient t.client { c with clientConnected := false }, t.goto .closeInputFd)
  | .closeInputFd =>
    if c.clientInputStreamFd ≥ 0 then
      (s.closeFor t.conn c.clientInputStreamFd, t.goto .unsetInputFd)
    else (s, t.goto .fcloseInput)
  | .unsetInputFd => (s.setClient t.client { c with clientInputStreamFd := -1 }, t.goto .fcloseInput)
  | .fcloseInput =>
    match c.clientInputStream with
    | some f => (s.fcloseFor t.conn f, t.goto .unsetInput)
    | none => (s, t.goto .fcloseOutput)
  | .unsetInput => (s.setClient t.client { c with clientInputStream := none }, t.goto .fcloseOutput)
  | .fcloseOutput =>
    match c.clientOutputStream with
    | some f => (s.fcloseFor t.conn f, t.goto .unsetOutput)
    | none => (s, t.goto .closeSd)
  | .unsetOutput => (s.setClient t.client { c with clientOutputStream := none }, t.goto .closeSd)
  | .closeSd =>
    if c.clientSd ≥ 0 then (s.closeFor t.conn c.clientSd, t.goto .unsetSd)
    else (s, t.goto .uncount)
  | .unsetSd => (s.setClient t.client { c with clientSd := -1 }, t.goto .uncount)
  | .uncount => (s.uncount t.conn, t.goto (if t.reloads then .reloading else .exited))
  | .reloading => (s, t.goto .exited)
  | _ => (s, t)

/-- The next step of a client's thread. -/
def clientStep (t : ClientThread) (outcome : Outcome) (s : Server) : Server × ClientThread :=
  match t.pc with
  | .openInput | .openOutput | .openFileno => openStreamsStep t outcome s
  | .getCode | .testConfigMode | .setOutput | .setInput | .reporting => dispatchStep t outcome s
  | .testLoop | .waiting | .resetInput | .resetOutput | .clearConfigMode =>
    configLoopStep t outcome s
  | _ => disconnectStep t s

/-- The next step of the server routine; `created` is what `pthread_create` says. -/
def acceptorStep (created : Bool) (d : Daemon) : Daemon :=
  let s := d.server
  match d.acceptor with
  | .listening =>
    if s.daemonTerminated then { d with acceptor := .returned } else { d with acceptor := .selecting }
  | .selecting => { d with acceptor := .listening }
  | .testing conn newClient =>
    if s.clientsCnt < maxNumberSupClients then
      { d with acceptor := .scanning conn newClient 0, admitted := d.admitted ++ [conn] }
    else { d with acceptor := .rejecting conn newClient }
  | .scanning conn newClient x =>
    if hx : x < maxNumberSupClients then
      if (s.clients ⟨x, hx⟩).clientSd = -1 then
        { d with
          server := s.setClient ⟨x, hx⟩ { s.clients ⟨x, hx⟩ with clientSd := newClient }
          acceptor := .claimed conn ⟨x, hx⟩
          placed := d.placed ++ [(conn, ⟨x, hx⟩)] }
      else { d with acceptor := .scanning conn newClient (x + 1) }
    else { d with acceptor := .listening }
  | .claimed conn x =>
    { d with
      server := { s.setClient x { s.clients x with
          clientId := s.nextClientId, clientConnected := true } with
        nextClientId := (s.nextClientId + 1) % 2 ^ 16 }
      acceptor := .filled conn x }
  | .filled conn x =>
    { d with server := { s with clientsCnt := s.clientsCnt + 1 }, acceptor := .creating conn x }
  | .creating conn x =>
    if created then
      { d with threads := d.threads ++ [⟨x, conn, .openInput, 0, false⟩], acceptor := .listening }
    else { d with acceptor := .unservedClose conn x }
  | .unservedClose conn x =>
    { d with server := s.close (s.clients x).clientSd, acceptor := .unservedUnset conn x }
  | .unservedUnset conn x =>
    { d with
      server := s.setClient x { s.clients x with clientSd := -1 }
      acceptor := .unservedDisconnect conn x }
  | .unservedDisconnect conn x =>
    { d with
      server := s.setClient x { s.clients x with clientConnected := false }
      acceptor := .unservedUncount conn x }
  | .unservedUncount conn _ =>
    { d with
      server := s.uncount conn
      acceptor := .listening
      unserved := d.unserved ++ [conn] }
  | .rejecting conn newClient =>
    { d with
      server := s.close newClient
      acceptor := .listening
      rejected := d.rejected ++ [conn] }
  | .returned => d

/-- What can happen next. -/
inductive DaemonAction where
  | accept (newClient : Int)
  | selectFails
  | acceptor (created : Bool)
  | client (i : Nat) (outcome : Outcome)
  | terminate
  | free
  | openOther (fd : Int)
  | closeOther (fd : Int)
  deriving DecidableEq, Repr

/-- The steps that use neither the slot of the thread nor `server_internals`. -/
def ClientPc.untouched : ClientPc → Bool
  | .resetInput | .resetOutput | .reloading => true
  | _ => false

/-- The number can be handed out. -/
def Server.Free (s : Server) (fd : Int) : Prop := 0 ≤ fd ∧ s.descriptors fd = none

instance (s : Server) (fd : Int) : Decidable (s.Free fd) := inferInstanceAs (Decidable (_ ∧ _))

def daemonStep (d : Daemon) : DaemonAction → Daemon
  | .accept newClient =>
    if d.acceptor = .selecting ∧ d.freed = false ∧ d.server.Free newClient then
      { d with
        server := d.server.grant newClient (.connection d.accepted)
        acceptor := .testing d.accepted newClient
        accepted := d.accepted + 1
        below := if d.server.clientsCnt < maxNumberSupClients then d.below ++ [d.accepted]
          else d.below }
    else d
  | .selectFails => if d.acceptor = .selecting then { d with acceptor := .returned } else d
  | .acceptor created => if d.freed then d else acceptorStep created d
  | .client i outcome =>
    match d.threads[i]? with
    | some t =>
      if d.freed = true ∧ t.pc.untouched = false then d
      else
        let (server, t) := clientStep t outcome d.server
        { d with server, threads := d.threads.set i t }
    | none => d
  | .terminate => { d with server := { d.server with daemonTerminated := true } }
  | .free => if d.server.daemonTerminated then { d with freed := true } else d
  | .openOther fd =>
    if d.server.Free fd then
      { d with server := d.server.grant fd .other }
    else d
  | .closeOther fd =>
    if d.server.descriptors fd = some .other then { d with server := d.server.close fd } else d

/-- The states of the daemon. -/
def DaemonReachable (d : Daemon) : Prop :=
  ∃ held as, d = Run.run daemonStep (.init held) as

end NemeaSupervisor
