import NemeaSupervisor.Table

/-!
# Processes and the operating system

The processes the supervisor has started or adopted, as the system calls of the
service thread see them, and a script of what the rest of the world does. Every
call first plays the next turn of the script, so that processes may exit, be
reaped by another parent or change their owner at any moment. The trace is a
record for the statements: no function of the supervisor reads it.
-/

namespace NemeaSupervisor

/-- A process started (`launch` is known) or adopted from a backup. -/
structure Process where
  pid : Int
  owner : Option String
  zombie : Bool
  child : Bool
  foreign : Bool
  launch : Option Launch
  deriving DecidableEq, Repr

/-- What happens outside the supervisor. -/
inductive Move where
  /-- The process ends; it stays a zombie until its parent has waited for it. -/
  | exits (pid : Int)
  /-- The parent of an adopted process waits for it. -/
  | reaped (pid : Int)
  /-- The process changes its owner, so that signals to it are (not) permitted. -/
  | setForeign (pid : Int) (foreign : Bool)
  deriving DecidableEq, Repr

/-- The outcome of the next system call, and what happens right before it. -/
structure Turn where
  moves : List Move
  forkPid : Int
  connectSd : Int
  exchanged : Bool
  deriving DecidableEq, Repr

/-- Nothing happens; a fork or a connection fails. -/
def Turn.idle : Turn := ⟨[], -1, -1, false⟩

/-- Calls whose discipline is stated over whole runs, with the slot they are for. -/
inductive Event where
  /-- `service_start_module` is entered; `alive` tells whether a process of that module exists. -/
  | startCalled (m : RunningModule) (profile : Option ModulesProfile) (limit : Int) (alive : Bool)
  | started (m : RunningModule) (profile : Option ModulesProfile) (pid : Int)
  | adopted (pid : Int)
  | sigint (m : RunningModule) (profile : Option ModulesProfile)
  | sigkill (m : RunningModule) (profile : Option ModulesProfile)
  /-- The slot is freed; `alive` tells whether a process of that module exists. -/
  | freed (m : RunningModule) (alive : Bool)
  | connected (sd : Int)
  | closed (sd : Int)
  deriving DecidableEq, Repr

structure Kernel where
  procs : List Process
  turns : List Turn
  /-- The newest event first. -/
  trace : List Event
  deriving DecidableEq, Repr

namespace Kernel

def hasProcess (k : Kernel) (pid : Int) : Bool := k.procs.any fun p => p.pid == pid

/-- A process of the module with this name exists. -/
def ownerAlive (k : Kernel) (name : Option String) : Bool := k.procs.any fun p => p.owner == name

def record (k : Kernel) (e : Event) : Kernel := { k with trace := e :: k.trace }

/-- One move of the world. -/
def move (k : Kernel) : Move → Kernel
  | .exits pid =>
    { k with procs := k.procs.map fun p => if p.pid = pid then { p with zombie := true } else p }
  | .reaped pid =>
    { k with procs := k.procs.filter fun p => !(p.pid == pid && p.zombie && !p.child) }
  | .setForeign pid foreign =>
    { k with procs := k.procs.map fun p =>
        if p.pid = pid then { p with foreign := foreign } else p }

/-- Play the next turn of the script. -/
def turn (k : Kernel) : Turn × Kernel :=
  match k.turns with
  | [] => (.idle, k)
  | t :: turns => (t, t.moves.foldl move { k with turns })

inductive KillResult where
  | ok
  | esrch
  | eperm
  deriving DecidableEq, Repr

/-- `kill(pid, 0)` of a positive PID; a zombie still receives signals. -/
def kill0 (k : Kernel) (pid : Int) : KillResult × Kernel :=
  let (_, k) := k.turn
  match k.procs.find? fun p => p.pid == pid with
  | none => (.esrch, k)
  | some p => (if p.foreign then .eperm else .ok, k)

/-- `fork`. A new PID is a positive `pid_t` that no process has and that is not tracked. -/
def fork (k : Kernel) (tracked : Int → Bool) (owner : Option String) (launch : Launch) :
    Option Int × Kernel :=
  let (t, k) := k.turn
  if (t.forkPid > 0 ∧ t.forkPid ≤ 2147483647) ∧ k.hasProcess t.forkPid = false ∧
      tracked t.forkPid = false then
    (some t.forkPid,
      { k with procs := ⟨t.forkPid, owner, false, true, false, some launch⟩ :: k.procs })
  else (none, k)

inductive WaitResult where
  | stillAlive
  | exited
  | echild
  deriving DecidableEq, Repr

/-- `waitpid(pid, &status, WNOHANG)`. -/
def waitpid (k : Kernel) (pid : Int) : WaitResult × Kernel :=
  let (_, k) := k.turn
  match k.procs.find? fun p => p.pid == pid with
  | none => (.echild, k)
  | some p =>
    if p.child = false then (.echild, k)
    else if p.zombie = false then (.stillAlive, k)
    else (.exited, { k with procs := k.procs.filter fun p => p.pid != pid })

/-- `close` of a service connection. -/
def close (k : Kernel) (sd : Int) : Kernel := k.record (.closed sd)

/-- `socket` and `connect`; a socket that cannot connect is closed at once. -/
def connect (k : Kernel) : Option Int × Kernel :=
  let (t, k) := k.turn
  if t.connectSd ≥ 0 then (some t.connectSd, k.record (.connected t.connectSd)) else (none, k)

/-- One request or one reply over a service connection. -/
def exchange (k : Kernel) : Bool × Kernel :=
  let (t, k) := k.turn
  (t.exchanged, k)

end Kernel

/-- The supervisor with the system it runs on. -/
structure World where
  sup : Supervisor
  kernel : Kernel
  /-- The service thread has left its loop and keeps the lock. -/
  serviceExited : Bool
  deriving DecidableEq, Repr

def World.setModule (w : World) (x : Nat) (m : RunningModule) : World :=
  { w with sup := w.sup.setModule x m }

end NemeaSupervisor
