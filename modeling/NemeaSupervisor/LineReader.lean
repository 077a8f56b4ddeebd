import NemeaSupervisor.ArgumentMemory
import NemeaSupervisor.Daemon
import NemeaSupervisor.LineStream
import NemeaSupervisor.Xml

/-!
# The input of a client in configuration mode

The bytes of the client arrive at the socket in segments. `fgets` takes them from the
buffer of the `FILE`, which a read of the socket refills when it is empty; `select`
and `FIONREAD` see the socket alone. A step of the daemon takes one byte, refills
the buffer or waits, so that segments can arrive at any point of a line.
-/

namespace NemeaSupervisor

open CText

/-- Who called `get_input_from_stream`; commands ask for selections without a `select`. -/
inductive Caller where
  | code
  | option
  | selection
  deriving DecidableEq, Repr

/-- Where `daemon_serve_client_routine` stands as a reader of its client. -/
inductive SessionPc where
  | getCode
  | testLoop
  | waiting
  | reading (caller : Caller)
  | exited
  deriving DecidableEq, Repr

/-- A session, with the bytes that have arrived and those taken out of the stream so far, the
lines acted on with their places, and whether `buffer[-1]` was read. -/
structure Session where
  kernel : List Char
  eof : Bool
  stdio : List Char
  buffer : List Char
  pc : SessionPc
  nineCnt : Nat
  daemonTerminated : Bool
  arrived : List Char
  consumed : Nat
  acted : List (Nat × Option (List Char))
  underflow : Bool
  deriving DecidableEq, Repr

/-- The client is connected and has sent nothing. -/
def Session.init : Session := ⟨[], false, [], [], .getCode, 0, false, [], 0, [], false⟩

inductive SessionAction where
  | arrive (segment : List Char)
  | close
  | terminate
  | timeout
  | selectFails
  | daemon (prompts : Bool)
  deriving DecidableEq, Repr

/-- `buffer[buffer_len-1] == '\n'` and what follows from it. -/
def stripNewline (text : List Char) : List Char :=
  if text.getLast? = some '\n' then text.dropLast else text

/-- The test of `get_input_from_stream` for an over-long line. -/
def TooLong (buffer : List Char) : Prop := defaultSizeOfBuffer - 1 ≤ (cString buffer).length

instance (buffer : List Char) : Decidable (TooLong buffer) := inferInstanceAs (Decidable (_ ≤ _))

/-- `get_input_from_stream` once `fgets` has stored a line; it has stored nothing at the end
of the stream. -/
def getInputFromStream (line : List Char) : Option (List Char) :=
  if line = [] ∨ TooLong line then none else some (stripNewline (cString line))

def getNumberFromInputChoosingOption (input : Option (List Char)) : Int :=
  match input with
  | none => -1
  | some input =>
    if input.length > 3 ∨ input.length < 1 then -1
    else if input.any fun x => x < '0' ∨ x > '9' then -1
    else
      match sscanfInt (String.ofList input) with
      | some option => if option < 0 then -1 else option
      | none => -1

/-- `daemon_get_code_from_client` on its input, as far as configuration mode goes. -/
def isConfigModeCode (input : Option (List Char)) : Bool :=
  (input.bind fun buffer => sscanfInt (String.ofList buffer)) == some clientConfigModeCode

/-- What the caller does with its input. A command may prompt for a selection. -/
def Session.serve (s : Session) (caller : Caller) (input : Option (List Char)) (prompts : Bool) :
    Session :=
  match caller with
  | .code => if isConfigModeCode input then { s with pc := .testLoop } else { s with pc := .exited }
  | .option =>
    let request := getNumberFromInputChoosingOption input
    if request = 0 then
      { s with
        pc := .testLoop
        nineCnt := s.nineCnt + 1
        daemonTerminated := s.daemonTerminated || s.nineCnt + 1 = 3 }
    else if request ∈ [1, 2, 3, 9] ∧ prompts = true then { s with pc := .reading .selection }
    else { s with pc := .testLoop }
  | .selection => { s with pc := .testLoop }

/-- The line leaves the stream, and with an over-long one the whole buffer of the `FILE`. -/
def Session.take (s : Session) (line : List Char) : Session :=
  let purged := if TooLong line then s.stdio else []
  { s with
    stdio := if TooLong line then [] else s.stdio
    buffer := []
    consumed := s.consumed + line.length + purged.length
    acted := s.acted ++ [(s.consumed, getInputFromStream line)]
    underflow := s.underflow || (line ≠ [] ∧ cString line = []) }

/-- One step of `fgets`, and of its callers when it returns. A read of the socket stores at most
`size` bytes. -/
def Session.fgets (size : Nat) (s : Session) (caller : Caller) (prompts : Bool) : Session :=
  match s.stdio with
  | [] =>
    if s.kernel ≠ [] then { s with stdio := s.kernel.take size, kernel := s.kernel.drop size }
    else if s.eof then (s.take s.buffer).serve caller (getInputFromStream s.buffer) prompts
    else s
  | c :: stdio =>
    let line := s.buffer ++ [c]
    if c = '\n' ∨ line.length = defaultSizeOfBuffer - 1 then
      (({ s with stdio } : Session).take line).serve caller (getInputFromStream line) prompts
    else { s with stdio, buffer := line }

/-- A descriptor is ready with bytes to read, with the end of the stream, or not at all. -/
def Session.select (s : Session) (caller : Caller) : Session :=
  if s.kernel ≠ [] then { s with pc := .reading caller }
  else if s.eof then { s with pc := .exited }
  else s

def sessionStep (size : Nat) (s : Session) : SessionAction → Session
  | .arrive segment =>
    if s.eof then s
    else { s with kernel := s.kernel ++ segment, arrived := s.arrived ++ segment }
  | .close => { s with eof := true }
  | .terminate => { s with daemonTerminated := true }
  | .timeout =>
    if s.kernel ≠ [] ∨ s.eof then s
    else
      match s.pc with
      | .getCode => { s with pc := .exited }
      | .waiting => { s with pc := .testLoop, nineCnt := 0 }
      | _ => s
  | .selectFails =>
    match s.pc with
    | .getCode | .waiting => { s with pc := .exited }
    | _ => s
  | .daemon prompts =>
    match s.pc with
    | .getCode => s.select .code
    | .testLoop => if s.daemonTerminated then { s with pc := .exited } else { s with pc := .waiting }
    | .waiting => s.select .option
    | .reading caller => s.fgets size caller prompts
    | .exited => s

/-- The line that `fgets` returns at its next step, and what it leaves in the buffer. -/
def Session.ending (s : Session) : Option (List Char × List Char) :=
  match s.stdio with
  | [] => if s.kernel = [] ∧ s.eof then some (s.buffer, []) else none
  | c :: stdio =>
    if c = '\n' ∨ (s.buffer ++ [c]).length = defaultSizeOfBuffer - 1 then
      some (s.buffer ++ [c], stdio)
    else none

/-- A whole line that needs the room of its newline too is over-long. -/
def lineRequest (line : List Char) : Option (List Char) :=
  if defaultSizeOfBuffer - 1 ≤ line.length + 1 then none else some (cString line)

/-- The requests of a stream: one for each complete line, with its place. -/
def requests (stream : List Char) : List (Nat × Option (List Char)) :=
  LineStream.placed lineRequest 0 (LineStream.completeLines '\n' stream)

/-- The loop waits in `select` and nothing has arrived for it. -/
def Session.Waits (s : Session) : Prop := s.pc = .waiting ∧ s.kernel = [] ∧ s.eof = false

instance (s : Session) : Decidable s.Waits := inferInstanceAs (Decidable (_ ∧ _))

end NemeaSupervisor
