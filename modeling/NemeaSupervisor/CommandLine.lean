import NemeaSupervisor.LogBrowsing
import NemeaSupervisor.Progress
import NemeaSupervisor.RequestFraming

/-!
# The command line client

`supervisor_cli` sends the code of its mode to the daemon, and then the lines of its
standard input, and prints what the daemon sends. A turn of its loop is one step; what
`fgets` stores in a turn in which the standard input is ready is given with the step. The
session of the daemon reads what the client has written, in whatever segments it arrives.
-/

namespace NemeaSupervisor

open CText LineStream

def readBuffSize : Nat := 99999

/-- What `getopt` returns. -/
inductive CliOption where
  | help
  | socketPath
  | stats
  | info
  | reload
  | unknown
  deriving DecidableEq, Repr

structure CliFlags where
  modulesStatsFlag : Bool
  modulesInfoFlag : Bool
  reloadCommandFlag : Bool
  flagCnt : Nat
  deriving DecidableEq, Repr

def CliFlags.init : CliFlags := ⟨false, false, false, 0⟩

inductive ExitStatus where
  | success
  | failure
  | sigpipe
  deriving DecidableEq, Repr

/-- The loop over the options, and the test after it. -/
def parseCliOptions : List CliOption → CliFlags → Except ExitStatus CliFlags
  | [], flags => if flags.flagCnt > 1 then .error .failure else .ok flags
  | .help :: _, _ => .error .success
  | .socketPath :: opts, flags => parseCliOptions opts flags
  | .stats :: opts, flags =>
    parseCliOptions opts { flags with modulesStatsFlag := true, flagCnt := flags.flagCnt + 1 }
  | .info :: opts, flags =>
    parseCliOptions opts { flags with modulesInfoFlag := true, flagCnt := flags.flagCnt + 1 }
  | .reload :: opts, flags =>
    parseCliOptions opts { flags with reloadCommandFlag := true, flagCnt := flags.flagCnt + 1 }
  | .unknown :: _, _ => .error .failure

/-- The code that is sent first. -/
def CliFlags.code (flags : CliFlags) : Int :=
  if flags.modulesStatsFlag then clientStatsModeCode
  else if flags.modulesInfoFlag then clientInfoModeCode
  else if flags.reloadCommandFlag then clientReloadModeCode
  else clientConfigModeCode

/-- The client, with the bytes in its socket, all that the daemon has sent, the lines that
`fgets` has stored, the temporary file and the paths shown with the pager so far. -/
structure Cli where
  flags : CliFlags
  timeouts : Nat
  exit : Option ExitStatus
  socket : List Char
  closed : Bool
  received : List Char
  lines : List (List Char)
  written : List Char
  printed : List Char
  tmpFile : Option (List Char)
  shown : List (List Char)
  deriving DecidableEq, Repr

/-- The client has connected and sent its code; for a reload that is all. -/
def Cli.start (flags : CliFlags) : Cli where
  flags := flags
  timeouts := 0
  exit := if flags.code = clientReloadModeCode then some .success else none
  socket := []
  closed := false
  received := []
  lines := []
  written := decimal flags.code ++ ['\n']
  printed := []
  tmpFile := none
  shown := []

inductive CliAction where
  | sends (segment : List Char)
  | closes
  | handsOver (file : List Char)
  | selectFails
  | turn (line : Option (List Char))
  deriving DecidableEq, Repr

/-- A write to a socket that the daemon has closed raises SIGPIPE. -/
def Cli.write (c : Cli) (text : List Char) : Cli :=
  if c.closed then { c with exit := some .sigpipe } else { c with written := c.written ++ text }

/-- The standard input is ready. -/
def Cli.readLine (c : Cli) (line : List Char) : Cli :=
  let c := { c with lines := c.lines ++ [line] }
  match getInputFromStream line with
  | none => c
  | some buffer =>
    if buffer = "Cquit".toList then { c with exit := some .success }
    else if buffer = "Dstop".toList then c.write "0\n0\n0\n".toList
    else c.write (buffer ++ ['\n'])

/-- The socket is ready; no byte to read is the end of the connection. -/
def Cli.receive (c : Cli) : Cli :=
  if c.socket = [] then { c with exit := some .success }
  else
    { c with
      printed := c.printed ++ c.socket.take readBuffSize
      socket := c.socket.drop readBuffSize }

/-- `select` times out, and the temporary file is looked for. -/
def Cli.timeout (c : Cli) : Cli :=
  let c := { c with timeouts := (c.timeouts + 1) % 2 ^ 64 }
  match c.tmpFile.bind readTmpFile with
  | some (_, filePath) => { c with tmpFile := none, shown := c.shown ++ [filePath] }
  | none => c

/-- The test at the end of a turn. -/
def Cli.giveUp (c : Cli) : Cli :=
  if (c.flags.modulesStatsFlag ∨ c.flags.modulesInfoFlag) ∧ c.timeouts > 3 then
    { c with exit := some .success }
  else c

/-- The socket is ready. -/
def Cli.Ready (c : Cli) : Prop := c.socket ≠ [] ∨ c.closed = true

instance (c : Cli) : Decidable c.Ready := inferInstanceAs (Decidable (_ ∨ _))

/-- A turn of the loop. Readiness is that of the `select` at its start. -/
def Cli.turn (c : Cli) (line : Option (List Char)) : Cli :=
  match line with
  | none => if c.Ready then c.receive.giveUp else c.timeout.giveUp
  | some line =>
    if (c.readLine line).exit.isSome then c.readLine line
    else if c.Ready then (c.readLine line).receive.giveUp
    else (c.readLine line).giveUp

def cliStep (c : Cli) (a : CliAction) : Cli :=
  if c.exit.isSome then c
  else
    match a with
    | .sends segment =>
      if c.closed then c
      else { c with socket := c.socket ++ segment, received := c.received ++ segment }
    | .closes => { c with closed := true }
    | .handsOver file => { c with tmpFile := some file }
    | .selectFails => { c with exit := some .failure }
    | .turn line => c.turn line

/-! ## What is written and what is printed -/

/-- What a line of the standard input has the client write, line by line. -/
def typedRequests (line : List Char) : List (List Char) :=
  match getInputFromStream line with
  | none => []
  | some buffer =>
    if buffer = "Cquit".toList then []
    else if buffer = "Dstop".toList then [['0'], ['0'], ['0']]
    else [buffer]

/-- The lines on the way to the daemon. -/
def Cli.texts (c : Cli) : List (List Char) := decimal c.flags.code :: c.lines.flatMap typedRequests

/-- As long as the daemon has not closed the connection, the client writes the lines of its
input; it prints what it has received, in order. -/
structure CliInv (c : Cli) : Prop where
  written : c.written <+: terminated '\n' c.texts
  all : c.closed = false → c.written = terminated '\n' c.texts
  printed : c.printed ++ c.socket = c.received
  patient : c.exit = none → c.flags.modulesStatsFlag = true ∨ c.flags.modulesInfoFlag = true →
    c.timeouts ≤ 3

section operations

variable {c : Cli} {line : List Char}

/-- What a line does. -/
theorem Cli.readLine_cases (c : Cli) (line : List Char) :
    ∃ exit, c.readLine line = { c with
        exit
        lines := c.lines ++ [line]
        written := if c.closed then c.written
          else c.written ++ terminated '\n' (typedRequests line) } ∧
      (exit = none → c.exit = none) ∧
      (getInputFromStream line = none → exit = c.exit) := by
  unfold Cli.readLine typedRequests
  cases getInputFromStream line with
  | none => exact ⟨c.exit, by simp, id, fun _ => rfl⟩
  | some buffer =>
    cases hclosed : c.closed with
    | true =>
      simp only [Cli.write, if_true]
      split_ifs
      · exact ⟨some .success, rfl, by simp, by simp⟩
      · exact ⟨some .sigpipe, rfl, by simp, by simp⟩
      · exact ⟨some .sigpipe, rfl, by simp, by simp⟩
    | false =>
      simp only [Cli.write, Bool.false_eq_true, if_false]
      split_ifs
      · exact ⟨some .success, by simp, by simp, by simp⟩
      · exact ⟨c.exit, rfl, id, by simp⟩
      · exact ⟨c.exit, by simp [terminated], id, by simp⟩

/-- A line written or not, the daemon has been sent the lines so far. -/
theorem CliInv.readLine (h : CliInv c) : CliInv (c.readLine line) := by
  obtain ⟨exit, heq, hexit, -⟩ := c.readLine_cases line
  have htexts : terminated '\n' ({ c with
      exit, lines := c.lines ++ [line], written := if c.closed then c.written
        else c.written ++ terminated '\n' (typedRequests line) } : Cli).texts =
      terminated '\n' c.texts ++ terminated '\n' (typedRequests line) := by
    simp [Cli.texts, terminated]
  rw [heq]
  refine ⟨?_, fun hopen => ?_, h.printed, fun hnone => h.patient (hexit hnone)⟩
  · rw [htexts]
    cases hclosed : c.closed with
    | true => exact h.written.trans (List.prefix_append ..)
    | false =>
      rw [h.all hclosed]
      exact List.prefix_refl _
  · rw [htexts, if_neg (Bool.eq_false_iff.mp hopen), h.all hopen]

theorem CliInv.receive (h : CliInv c) : CliInv c.receive := by
  unfold Cli.receive
  split_ifs with hempty
  · exact ⟨h.written, h.all, h.printed, fun hnone => by cases hnone⟩
  · refine ⟨h.written, h.all, ?_, h.patient⟩
    rw [← h.printed]
    simp only [List.append_assoc, List.take_append_drop]

/-- What the timeouts count may have passed its limit. -/
theorem Cli.timeout_cases (c : Cli) : ∃ tmpFile shown, c.timeout =
    { c with timeouts := (c.timeouts + 1) % 2 ^ 64, tmpFile, shown } := by
  unfold Cli.timeout
  simp only []
  split
  · exact ⟨_, _, rfl⟩
  · exact ⟨_, _, rfl⟩

/-- The end of a turn restores the limit. -/
theorem CliInv.giveUp (hwritten : c.written <+: terminated '\n' c.texts)
    (hall : c.closed = false → c.written = terminated '\n' c.texts)
    (hprinted : c.printed ++ c.socket = c.received) : CliInv c.giveUp := by
  unfold Cli.giveUp
  split_ifs with hlate
  · exact ⟨hwritten, hall, hprinted, fun hnone => by cases hnone⟩
  · refine ⟨hwritten, hall, hprinted, fun _ hflag => ?_⟩
    exact Nat.le_of_not_lt fun hlt => hlate ⟨hflag, hlt⟩

theorem CliInv.turn (h : CliInv c) (line : Option (List Char)) : CliInv (c.turn line) := by
  unfold Cli.turn
  cases line with
  | none =>
    simp only []
    split_ifs
    · exact .giveUp h.receive.written h.receive.all h.receive.printed
    · obtain ⟨tmpFile, shown, heq⟩ := c.timeout_cases
      rw [heq]
      exact .giveUp h.written h.all h.printed
  | some line =>
    have hline := @CliInv.readLine c line h
    simp only []
    split_ifs
    · exact hline
    · exact .giveUp hline.receive.written hline.receive.all hline.receive.printed
    · exact .giveUp hline.written hline.all hline.printed

theorem CliInv.step (h : CliInv c) (a : CliAction) : CliInv (cliStep c a) := by
  unfold cliStep
  split
  · exact h
  cases a with
  | sends segment =>
    simp only []
    split_ifs
    · exact h
    · refine ⟨h.written, h.all, ?_, h.patient⟩
      rw [← List.append_assoc, h.printed]
  | closes => exact ⟨h.written, fun hopen => (by cases hopen), h.printed, h.patient⟩
  | handsOver file => exact ⟨h.written, h.all, h.printed, h.patient⟩
  | selectFails => exact ⟨h.written, h.all, h.printed, fun hnone => by cases hnone⟩
  | turn line => exact h.turn line

end operations

theorem cliInv_start (flags : CliFlags) : CliInv (.start flags) := by
  have hcode : (Cli.start flags).written = terminated '\n' (Cli.start flags).texts := by
    simp [Cli.start, Cli.texts, terminated]
  exact ⟨hcode ▸ List.prefix_refl _, fun _ => hcode, rfl, fun _ _ => Nat.zero_le _⟩

theorem run_cliInv (flags : CliFlags) (as : List CliAction) :
    CliInv (Run.run cliStep (.start flags) as) :=
  Run.run_invariant (fun _ a h => h.step a) (cliInv_start flags) as

/-! ## The output -/

def CliAction.isTurn : CliAction → Bool
  | .turn _ => true
  | _ => false

/-- The standard input gives nothing that is sent or ends the client, and `select` works. -/
def Listens (_ : Cli) : CliAction → Prop
  | .selectFails => False
  | .turn line => ∀ l ∈ line, getInputFromStream l = none
  | _ => True

instance (c : Cli) (a : CliAction) : Decidable (Listens c a) := by
  cases a <;> unfold Listens <;> infer_instance

/-- The daemon has closed the connection, and the client is still there or has printed all. -/
structure Finishing (received : List Char) (c : Cli) : Prop where
  inv : CliInv c
  closed : c.closed = true
  received : c.received = received
  exit : c.exit = none ∨ c.exit = some .success ∧ c.socket = []

/-- How many turns are left at most: one for each read of the socket, and one for its end. -/
def Cli.turnsLeft (c : Cli) : Nat :=
  if c.exit = none then (c.socket.length + (readBuffSize - 1)) / readBuffSize + 1 else 0

section output

variable {received : List Char} {c : Cli}

/-- There are bytes to print, or the end of the connection is found. -/
theorem Finishing.receive (h : Finishing received c) (hlive : c.exit = none) :
    Finishing received c.receive.giveUp ∧ c.receive.giveUp.turnsLeft < c.turnsLeft := by
  have hinv : CliInv c.receive.giveUp :=
    .giveUp h.inv.receive.written h.inv.receive.all h.inv.receive.printed
  by_cases hempty : c.socket = []
  · have hend : c.receive.giveUp = { c with exit := some .success } := by
      simp only [Cli.receive, hempty, if_true, Cli.giveUp]
      split_ifs <;> rfl
    rw [hend] at hinv ⊢
    exact ⟨⟨hinv, h.closed, h.received, .inr ⟨rfl, hempty⟩⟩, by simp [Cli.turnsLeft, hlive]⟩
  · have hgoes : c.receive.giveUp = c.receive := by
      refine if_neg fun ⟨hflag, hlate⟩ => ?_
      simp only [Cli.receive, hempty, if_false] at hflag hlate
      exact absurd hlate (Nat.not_lt.mpr (h.inv.patient hlive hflag))
    rw [hgoes] at hinv ⊢
    simp only [Cli.receive, hempty, if_false] at hinv ⊢
    refine ⟨⟨hinv, h.closed, h.received, .inl hlive⟩, ?_⟩
    have hpos : 0 < c.socket.length := List.length_pos_iff.mpr hempty
    simp only [Cli.turnsLeft, hlive, if_true, List.length_drop, readBuffSize]
    omega

/-- A turn with nothing typed reads the rest, or finds its end. -/
theorem Finishing.turn (h : Finishing received c) (hlive : c.exit = none) {line : Option (List Char)}
    (hline : ∀ l ∈ line, getInputFromStream l = none) :
    Finishing received (c.turn line) ∧ (c.turn line).turnsLeft < c.turnsLeft := by
  have hready : c.Ready := .inr h.closed
  cases line with
  | none =>
    have hturn : c.turn none = c.receive.giveUp := if_pos hready
    rw [hturn]
    exact h.receive hlive
  | some line =>
    have hread : c.readLine line = { c with lines := c.lines ++ [line] } := by
      unfold Cli.readLine
      rw [hline line rfl]
    have hturn : c.turn (some line) = (c.readLine line).receive.giveUp := by
      simp only [Cli.turn, if_pos hready]
      rw [if_neg]
      simp [hread, hlive]
    have hinv := @CliInv.readLine c line h.inv
    rw [hturn, hread]
    rw [hread] at hinv
    exact Finishing.receive ⟨hinv, h.closed, h.received, h.exit⟩ hlive

theorem Finishing.step (h : Finishing received c) {a : CliAction} (ha : Listens c a) :
    Finishing received (cliStep c a) ∧ (cliStep c a).turnsLeft ≤ c.turnsLeft ∧
      (a.isTurn = true → c.turnsLeft ≠ 0 → (cliStep c a).turnsLeft < c.turnsLeft) := by
  cases hexit : c.exit with
  | some status =>
    have hsame : cliStep c a = c := by simp [cliStep, hexit]
    rw [hsame]
    refine ⟨h, Nat.le_refl _, fun _ hleft => absurd ?_ hleft⟩
    simp [Cli.turnsLeft, hexit]
  | none =>
    have hstep := h.inv.step a
    cases a with
    | sends segment =>
      have hsame : cliStep c (.sends segment) = c := by simp [cliStep, hexit, h.closed]
      rw [hsame]
      exact ⟨h, Nat.le_refl _, fun hc => by cases hc⟩
    | closes =>
      have hgoes : cliStep c .closes = { c with closed := true } := if_neg (by simp [hexit])
      rw [hgoes] at hstep ⊢
      exact ⟨⟨hstep, rfl, h.received, h.exit⟩, Nat.le_refl _, fun hc => by cases hc⟩
    | handsOver file =>
      have hgoes : cliStep c (.handsOver file) = { c with tmpFile := some file } :=
        if_neg (by simp [hexit])
      rw [hgoes] at hstep ⊢
      exact ⟨⟨hstep, h.closed, h.received, h.exit⟩, Nat.le_refl _, fun hc => by cases hc⟩
    | selectFails => exact absurd ha id
    | turn line =>
      have hturn : cliStep c (.turn line) = c.turn line := by simp [cliStep, hexit]
      rw [hturn]
      obtain ⟨hfinishing, hless⟩ := h.turn hexit ha
      exact ⟨hfinishing, hless.le, fun _ _ => hless⟩

end output

/-- What `fgets` stores of a terminal: nothing at its end, a line, or as much of a longer
line as fits. -/
inductive Entered : List Char → Prop
  | ended : Entered []
  | line {text : List Char} (h : '\n' ∉ text) (hlen : text.length + 1 < defaultSizeOfBuffer) :
      Entered (text ++ ['\n'])
  | cut {text : List Char} (h : '\x00' ∉ text) (hlen : text.length + 1 = defaultSizeOfBuffer) :
      Entered text

/-- A line that the daemon reads as it is. -/
structure Sendable (text : List Char) : Prop where
  noBreak : '\n' ∉ text
  noNull : '\x00' ∉ text
  fits : text.length + 1 < defaultSizeOfBuffer - 1

theorem Sendable.request {text : List Char} (h : Sendable text) : lineRequest text = some text := by
  have hfits := h.fits
  rw [lineRequest, if_neg (by omega), cString_of_no_null h.noNull]

/-- What the client makes of a line has room for its newline at the daemon. -/
theorem Entered.sendable {line : List Char} (h : Entered line) :
    ∀ text ∈ typedRequests line, Sendable text := by
  intro text htext
  cases h with
  | ended => simp [typedRequests, getInputFromStream] at htext
  | cut hnull hlen =>
    have hlong := tooLong_of_no_null hnull (by omega)
    simp [typedRequests, getInputFromStream_tooLong hlong] at htext
  | @line entered hbreak hlen =>
    by_cases hlong : TooLong (entered ++ ['\n'])
    · simp [typedRequests, getInputFromStream_tooLong hlong] at htext
    have hread : getInputFromStream (entered ++ ['\n']) = some (cString entered) := by
      rw [getInputFromStream, if_neg (by simp [hlong]), stripNewline_cString hbreak]
    simp only [typedRequests, hread] at htext
    split_ifs at htext
    · cases htext
    · have hzero : text = ['0'] := by simpa using htext
      rw [hzero]
      exact ⟨by decide, by decide, by decide⟩
    · rw [List.mem_singleton.mp htext]
      refine ⟨fun hmem => hbreak ((List.takeWhile_sublist _).mem hmem), no_null_cString entered, ?_⟩
      -- the newline counts for the client unless a NUL comes before it
      by_cases hnull : '\x00' ∈ entered
      · have := cString_length_lt hnull
        omega
      · have hwhole : '\x00' ∉ entered ++ ['\n'] := by simpa using hnull
        rw [TooLong, cString_of_no_null hwhole, List.length_append, List.length_singleton] at hlong
        rw [cString_of_no_null hnull]
        omega

/-! ### The daemon's session -/

/-- The bytes of a stream come in order, in any segments. -/
def FromClient (w : List Char) (s : Session) : SessionAction → Prop
  | .arrive segment => s.arrived ++ segment <+: w
  | _ => True

instance (w : List Char) (s : Session) : (a : SessionAction) → Decidable (FromClient w s a)
  | .arrive segment => inferInstanceAs (Decidable (s.arrived ++ segment <+: w))
  | .daemon _ | .close | .terminate | .timeout | .selectFails => .isTrue trivial

/-- The whole lines left in the buffer of the `FILE`, which `select` does not see. -/
def Session.unread (s : Session) : List (List Char) := completeLines '\n' s.stdio

section session

variable {texts : List (List Char)} {w : List Char} {s : Session}

theorem separable_short {line stdio : List Char} (hlen : line.length < defaultSizeOfBuffer - 1)
    (hnull : '\x00' ∉ line) : Separable line stdio :=
  ⟨fun hhead => hnull (List.mem_of_head? hhead), fun heq => absurd heq hlen.ne,
    fun heq => absurd heq hlen.ne, fun heq => absurd heq hlen.ne⟩

theorem no_null_terminated (htexts : ∀ t ∈ texts, Sendable t) : '\x00' ∉ terminated '\n' texts := by
  intro h
  obtain ⟨t, ht, hmem⟩ := List.mem_flatMap.mp h
  rcases List.mem_append.mp hmem with hmem | hmem
  · exact (htexts t ht).noNull hmem
  · exact absurd (List.mem_singleton.mp hmem) (by decide)

/-- `fgets` stops at the end of a line of the client, with room to spare. -/
theorem separable_of_sendable (htexts : ∀ t ∈ texts, Sendable t) (hw : w <+: terminated '\n' texts)
    (h : SessionInv s) (harrived : s.arrived <+: w) :
    ∀ line ∈ s.ending, Separable line.1 line.2 := by
  intro line hline
  obtain ⟨more, hmore⟩ := harrived.trans hw
  have hnull : ∀ c ∈ s.arrived, c ≠ '\x00' := fun c hc heq =>
    no_null_terminated htexts (heq ▸ hmore ▸ List.mem_append_left _ hc)
  unfold Session.ending at hline
  cases hstdio : s.stdio with
  | nil =>
    simp only [hstdio] at hline
    split_ifs at hline
    · cases hline
      rcases h.framing with ⟨ls, hf⟩ | ⟨-, -, -, hbuffer⟩
      · refine separable_short hf.room fun hmem => hnull _ ?_ rfl
        rw [hf.stream]
        exact List.mem_append_right _ (List.mem_append_left _ hmem)
      · rw [hbuffer]
        exact separable_short (by decide) (by simp)
    · cases hline
  | cons c stdio =>
    simp only [hstdio] at hline
    split_ifs at hline
    · cases hline
      obtain ⟨ls, hf⟩ := h.framing.resolve_right fun hend => by simp [hstdio] at hend
      have hstream : s.arrived =
          terminated '\n' ls ++ (s.buffer ++ c :: (stdio ++ s.kernel)) := by
        rw [hf.stream, hstdio, List.cons_append]
      refine separable_short ?_ fun hmem => hnull _ ?_ rfl
      · rw [hstream, List.append_assoc, List.append_assoc, List.cons_append] at hmore
        obtain ⟨rest, rfl, hrest⟩ := lines_prefix hf.lines (fun t ht => (htexts t ht).noBreak) hmore
        obtain ⟨t, ht, hstart, hnext⟩ := start_of_line hf.buffer hrest
        have hfits := (htexts t (List.mem_append_right _ ht)).fits
        rw [List.length_append, List.length_singleton]
        have := hstart.length_le
        omega
      · rw [hstream, List.append_cons]
        exact List.mem_append_right _ (List.mem_append_left _ hmem)
    · cases hline

theorem separates_of_arrived (htexts : ∀ t ∈ texts, Sendable t)
    (hw : w <+: terminated '\n' texts) (h : SessionInv s) (harrived : s.arrived <+: w)
    (a : SessionAction) : SeparatesRead s a := by
  unfold SeparatesRead
  cases a with
  | daemon prompts =>
    cases s.pc with
    | reading caller => exact separable_of_sendable htexts hw h harrived
    | _ => trivial
  | _ => trivial

theorem fgets_arrived (size : Nat) (s : Session) (caller : Caller) (prompts : Bool) :
    (s.fgets size caller prompts).arrived = s.arrived := by
  have hserve : ∀ (t : Session) (line : List Char),
      ((t.take line).serve caller (getInputFromStream line) prompts).arrived = t.arrived := by
    intro t line
    obtain ⟨pc, nineCnt, daemonTerminated, heq, -⟩ :=
      (t.take line).serve_eq caller (getInputFromStream line) prompts
    rw [heq]
    rfl
  unfold Session.fgets
  cases s.stdio with
  | nil =>
    simp only []
    split_ifs
    · rfl
    · exact hserve s s.buffer
    · rfl
  | cons c stdio =>
    simp only []
    split_ifs
    · exact hserve { s with stdio } (s.buffer ++ [c])
    · rfl

/-- Only an arrival adds to what has arrived. -/
theorem sessionStep_arrived (size : Nat) {w : List Char} {a : SessionAction} (h : s.arrived <+: w)
    (ha : FromClient w s a) : (sessionStep size s a).arrived <+: w := by
  have hselect : ∀ caller, (s.select caller).arrived = s.arrived := by
    intro caller
    unfold Session.select
    split_ifs <;> rfl
  cases a with
  | arrive segment =>
    simp only [sessionStep]
    split_ifs
    · exact h
    · exact ha
  | close => exact h
  | terminate => exact h
  | timeout =>
    simp only [sessionStep]
    split_ifs
    · exact h
    · split <;> exact h
  | selectFails =>
    simp only [sessionStep]
    split <;> exact h
  | daemon prompts =>
    cases hpc : s.pc with
    | getCode =>
      simp only [sessionStep, hpc, hselect]
      exact h
    | testLoop =>
      simp only [sessionStep, hpc]
      split_ifs <;> exact h
    | waiting =>
      simp only [sessionStep, hpc, hselect]
      exact h
    | reading caller =>
      simp only [sessionStep, hpc, fgets_arrived]
      exact h
    | exited =>
      simp only [sessionStep, hpc]
      exact h

theorem placed_map_snd {α β : Type} (read : List α → β) (place : Nat) (ls : List (List α)) :
    (placed read place ls).map Prod.snd = ls.map read := by
  induction ls generalizing place with
  | nil => rfl
  | cons l ls ih => simp [placed, ih]

/-- A session that reads lines of a client acts on the first of them as they are, and when it
waits only those left in the buffer of the `FILE` are missing. -/
theorem session_of_lines {size : Nat} {as : List SessionAction}
    (htexts : ∀ t ∈ texts, Sendable t) (hw : w <+: terminated '\n' texts)
    (has : Run.Along (sessionStep size) (FromClient w) .init as) :
    let s := Run.run (sessionStep size) .init as
    s.underflow = false ∧ (s.eof = false → s.acted.map Prod.snd <+: texts.map some) ∧
      (s.Waits → s.arrived = terminated '\n' texts →
        s.acted.map Prod.snd ++ s.unread.map some = texts.map some) := by
  have hinv := Run.along_invariant (C := FromClient w)
    (I := fun s => SessionInv s ∧ s.arrived <+: w)
    (fun s a ⟨hs, harrived⟩ ha =>
      ⟨hs.step size s a (separates_of_arrived htexts hw hs harrived a),
        sessionStep_arrived size harrived ha⟩)
    ⟨sessionInv_init, List.nil_prefix⟩ has
  intro s
  obtain ⟨hs, harrived⟩ := hinv
  have hread : texts.map lineRequest = texts.map some :=
    List.map_congr_left fun t ht => (htexts t ht).request
  -- the lines acted on are the first of the texts
  have hframing : s.eof = false →
      ∃ ls rest, Framing ls s ∧ texts = ls ++ rest ∧ s.acted.map Prod.snd = ls.map some := by
    intro hopen
    obtain ⟨ls, hf⟩ := hs.framing.resolve_right fun hend => by
      rw [hend.1] at hopen
      cases hopen
    obtain ⟨more, hmore⟩ := harrived.trans hw
    rw [hf.stream, List.append_assoc] at hmore
    obtain ⟨rest, rfl, -⟩ := lines_prefix hf.lines (fun t ht => (htexts t ht).noBreak) hmore
    refine ⟨ls, rest, hf, rfl, ?_⟩
    rw [List.map_append, List.map_append] at hread
    rw [hf.acted, placed_map_snd]
    exact (List.append_inj hread (by simp)).1
  refine ⟨hs.underflow, fun hopen => ?_, fun ⟨hpc, hkernel, hopen⟩ hall => ?_⟩
  · obtain ⟨ls, rest, -, rfl, hacted⟩ := hframing hopen
    rw [hacted]
    exact (List.prefix_append ls rest).map _
  · obtain ⟨ls, rest, hf, htext, hacted⟩ := hframing hopen
    have hlines : completeLines '\n' (terminated '\n' texts) = texts := by
      have hsplit := @completeLines_terminated _ '\n' _ texts (fun t ht => (htexts t ht).noBreak) []
      rw [List.append_nil] at hsplit
      rw [hsplit, completeLines_unterminated List.not_mem_nil, List.append_nil]
    have hbuffer : s.buffer = [] := hs.idle fun caller hreading => by
      cases hpc.symm.trans hreading
    have hstream := hf.stream
    rw [hbuffer, hkernel, List.append_nil, List.nil_append, hall] at hstream
    rw [hacted, ← List.map_append, Session.unread, ← completeLines_terminated hf.lines, ← hstream,
      hlines]

end session

/-- Every line of the standard input is one that `fgets` stores of a terminal. -/
def CliAction.Typed : CliAction → Prop
  | .turn line => ∀ l ∈ line, Entered l
  | _ => True

theorem Cli.receive_lines (c : Cli) : c.receive.lines = c.lines := by
  unfold Cli.receive
  split_ifs <;> rfl

theorem Cli.giveUp_lines (c : Cli) : c.giveUp.lines = c.lines := by
  unfold Cli.giveUp
  split_ifs <;> rfl

theorem Cli.turn_lines (c : Cli) (typed : Option (List Char)) : (c.turn typed).lines = c.lines ∨
    ∃ line ∈ typed, (c.turn typed).lines = c.lines ++ [line] := by
  unfold Cli.turn
  cases typed with
  | none =>
    left
    simp only []
    split_ifs
    · rw [giveUp_lines, receive_lines]
    · obtain ⟨tmpFile, shown, heq⟩ := c.timeout_cases
      rw [giveUp_lines, heq]
  | some line =>
    have hread : (c.readLine line).lines = c.lines ++ [line] := by
      obtain ⟨exit, heq, -⟩ := c.readLine_cases line
      rw [heq]
    refine .inr ⟨line, rfl, ?_⟩
    simp only []
    split_ifs
    · exact hread
    · rw [giveUp_lines, receive_lines, hread]
    · rw [giveUp_lines, hread]

theorem entered_lines {flags : CliFlags} {as : List CliAction} (has : ∀ a ∈ as, a.Typed) :
    ∀ line ∈ (Run.run cliStep (.start flags) as).lines, Entered line := by
  refine Run.along_invariant (C := fun _ (a : CliAction) => a.Typed)
    (I := fun c : Cli => ∀ line ∈ c.lines, Entered line)
    (fun c a hlines ha => ?_) (fun line hline => by cases hline)
    (Run.along_of_forall cliStep has _)
  unfold cliStep
  split
  · exact hlines
  cases a with
  | sends segment =>
    simp only []
    split_ifs <;> exact hlines
  | turn typed =>
    have hkept : (c.turn typed).lines = c.lines ∨
        ∃ line ∈ typed, (c.turn typed).lines = c.lines ++ [line] := c.turn_lines typed
    rcases hkept with hsame | ⟨line, hline, hmore⟩
    · simp only []
      rwa [hsame]
    · simp only []
      rw [hmore]
      intro l hl
      rcases List.mem_append.mp hl with hl | hl
      · exact hlines l hl
      · rw [List.mem_singleton.mp hl]
        exact ha line hline
  | _ => exact hlines

theorem code_sendable (flags : CliFlags) : Sendable (decimal flags.code) := by
  unfold CliFlags.code
  split_ifs <;> exact ⟨by decide, by decide, by decide⟩

end NemeaSupervisor
