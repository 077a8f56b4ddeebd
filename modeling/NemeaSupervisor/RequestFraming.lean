import NemeaSupervisor.LineReader

/-!
# Requests and segments

Lines read through the buffer of the `FILE` are the lines of the stream when no line
begins with NUL, an over-long line is read with its own rest alone in the buffer, and
the loop goes to wait for bytes only when no whole line is left there.
-/

namespace NemeaSupervisor

open CText LineStream

/-! ## The condition -/

/-- What `fgets` returns can be told from other lines by its text and what is left behind it. -/
structure Separable (line stdio : List Char) : Prop where
  noNull : line.head? ≠ some '\x00'
  noNulls : line.length = defaultSizeOfBuffer - 1 → '\x00' ∉ line
  ended : line.length = defaultSizeOfBuffer - 1 → line.getLast? = some '\n' → stdio = []
  cut : line.length = defaultSizeOfBuffer - 1 → line.getLast? ≠ some '\n' →
    stdio.getLast? = some '\n' ∧ '\n' ∉ stdio.dropLast

instance (line stdio : List Char) : Decidable (Separable line stdio) :=
  decidable_of_iff (line.head? ≠ some '\x00' ∧
      (line.length = defaultSizeOfBuffer - 1 → '\x00' ∉ line) ∧
      (line.length = defaultSizeOfBuffer - 1 → line.getLast? = some '\n' → stdio = []) ∧
      (line.length = defaultSizeOfBuffer - 1 → line.getLast? ≠ some '\n' →
        stdio.getLast? = some '\n' ∧ '\n' ∉ stdio.dropLast))
    ⟨fun ⟨hnull, hnulls, hended, hcut⟩ => ⟨hnull, hnulls, hended, hcut⟩,
      fun h => ⟨h.noNull, h.noNulls, h.ended, h.cut⟩⟩

/-- Nothing that could be served now is left behind when the loop goes to wait. -/
def Session.Drained (s : Session) : Prop :=
  s.daemonTerminated = false → s.kernel = [] → s.eof = false → '\n' ∉ s.stdio

instance (s : Session) : Decidable s.Drained := inferInstanceAs (Decidable (_ → _))

/-- The steps that keep the lines apart. -/
def SeparatesLines (s : Session) (a : SessionAction) : Prop :=
  match a, s.pc with
  | .daemon _, .reading _ => ∀ line ∈ s.ending, Separable line.1 line.2
  | .daemon _, .testLoop => s.Drained
  | _, _ => True

instance (s : Session) (a : SessionAction) : Decidable (SeparatesLines s a) := by
  unfold SeparatesLines
  split <;> infer_instance

/-- The same of the lines alone that `fgets` returns. -/
def SeparatesRead (s : Session) (a : SessionAction) : Prop :=
  match a, s.pc with
  | .daemon _, .reading _ => ∀ line ∈ s.ending, Separable line.1 line.2
  | _, _ => True

theorem SeparatesLines.read {s : Session} {a : SessionAction} (h : SeparatesLines s a) :
    SeparatesRead s a := by
  unfold SeparatesLines at h
  unfold SeparatesRead
  cases a with
  | daemon prompts =>
    cases hpc : s.pc with
    | reading caller => rwa [hpc] at h
    | _ => trivial
  | _ => trivial

/-! ## One line -/

section line

variable {line : List Char}

theorem stripNewline_cString (h : '\n' ∉ line) :
    stripNewline (cString (line ++ ['\n'])) = cString line := by
  by_cases hnull : '\x00' ∈ line
  · have hlast : (cString line).getLast? ≠ some '\n' := fun hlast =>
      h ((List.takeWhile_sublist _).mem (List.mem_of_getLast? hlast))
    rw [cString_append_of_null hnull, stripNewline, if_neg hlast]
  · have hnull' : '\x00' ∉ line ++ ['\n'] := by simpa using hnull
    rw [cString_of_no_null hnull, cString_of_no_null hnull', stripNewline]
    simp

theorem not_tooLong (h : line.length < defaultSizeOfBuffer - 1) : ¬ TooLong line := fun hlong => by
  have hle := cString_length_le line
  unfold TooLong at hlong
  omega

theorem tooLong_of_no_null (h : '\x00' ∉ line) (hlen : line.length = defaultSizeOfBuffer - 1) :
    TooLong line := by
  rw [TooLong, cString_of_no_null h, hlen]

theorem getInputFromStream_tooLong (h : TooLong line) : getInputFromStream line = none :=
  if_pos (.inr h)

/-- A line that fits its buffer is read as the request it is. -/
theorem getInputFromStream_line (h : '\n' ∉ line) (hlen : line.length + 1 < defaultSizeOfBuffer - 1) :
    getInputFromStream (line ++ ['\n']) = lineRequest line := by
  have hshort : ¬ TooLong (line ++ ['\n']) := not_tooLong (by simpa using hlen)
  rw [getInputFromStream, if_neg (by simp [hshort]), stripNewline_cString h, lineRequest,
    if_neg (by omega)]

theorem lineRequest_long (h : defaultSizeOfBuffer - 1 ≤ line.length + 1) : lineRequest line = none :=
  if_pos h

end line

/-! ## The invariant -/

/-- The stream is the lines acted on, the line being read, and what waits in the two buffers. -/
structure Framing (ls : List (List Char)) (s : Session) : Prop where
  stream : s.arrived = terminated '\n' ls ++ (s.buffer ++ (s.stdio ++ s.kernel))
  acted : s.acted = placed lineRequest 0 ls
  consumed : s.consumed = (terminated '\n' ls).length
  lines : ∀ l ∈ ls, '\n' ∉ l
  buffer : '\n' ∉ s.buffer
  room : s.buffer.length < defaultSizeOfBuffer - 1

/-- What the caller does touches no byte and does not wait. -/
theorem Session.serve_eq (s : Session) (caller : Caller) (input : Option (List Char))
    (prompts : Bool) : ∃ pc nineCnt daemonTerminated,
      s.serve caller input prompts = { s with pc, nineCnt, daemonTerminated } ∧ pc ≠ .waiting := by
  cases caller with
  | code =>
    simp only [Session.serve]
    split
    · exact ⟨_, _, _, rfl, by simp⟩
    · exact ⟨_, _, _, rfl, by simp⟩
  | option =>
    simp only [Session.serve]
    split
    · exact ⟨_, _, _, rfl, by simp⟩
    · split
      · exact ⟨_, _, _, rfl, by simp⟩
      · exact ⟨_, _, _, rfl, by simp⟩
  | selection => exact ⟨_, _, _, rfl, by simp⟩

section framing

variable {ls : List (List Char)} {s : Session} {c : Char} {stdio : List Char}

/-- Only the line and the buffers are left to check when another byte has been taken. -/
theorem Framing.push (h : Framing ls s) (hstdio : s.stdio = c :: stdio) (hc : c ≠ '\n')
    (hroom : (s.buffer ++ [c]).length < defaultSizeOfBuffer - 1) :
    Framing ls { s with stdio, buffer := s.buffer ++ [c] } := by
  refine ⟨?_, h.acted, h.consumed, h.lines, ?_, hroom⟩
  · rw [h.stream, hstdio]
    simp
  · simp only [List.mem_append, List.mem_singleton, not_or]
    exact ⟨h.buffer, Ne.symm hc⟩

/-- A whole line `l` taken out of the stream is one more line acted on. -/
theorem Framing.takeLine (h : Framing ls s) {line l : List Char} (hl : '\n' ∉ l)
    (hstream : line ++ (if TooLong line then stdio else []) = l ++ ['\n'])
    (hstdio : s.buffer ++ s.stdio = line ++ stdio)
    (hread : getInputFromStream line = lineRequest l) :
    Framing (ls ++ [l]) (({ s with stdio } : Session).take line) := by
  have hall : s.buffer ++ (s.stdio ++ s.kernel) =
      (l ++ ['\n']) ++ ((if TooLong line then [] else stdio) ++ s.kernel) := by
    rw [← List.append_assoc, hstdio, ← hstream]
    split_ifs
    · simp
    · simp
  have hlength : line.length + (if TooLong line then stdio else []).length = l.length + 1 := by
    have := congrArg List.length hstream
    simpa using this
  refine ⟨?_, ?_, ?_, ?_, by simp [Session.take], by simp [Session.take, defaultSizeOfBuffer]⟩
  · simp only [Session.take]
    rw [h.stream, hall, terminated_concat]
    simp only [List.append_assoc, List.nil_append]
  · simp only [Session.take]
    rw [@placed_append _ _ '\n', h.acted, h.consumed, hread, Nat.zero_add]
    rfl
  · simp only [Session.take]
    rw [terminated_concat, List.length_append, h.consumed, Nat.add_assoc, hlength]
    simp
  · intro l' hl'
    rcases List.mem_append.mp hl' with hold | hnew
    · exact h.lines l' hold
    · rwa [List.mem_singleton.mp hnew]

/-- What changes no byte keeps the lines. -/
theorem Framing.withControl (h : Framing ls s) (pc : SessionPc) (nineCnt : Nat)
    (daemonTerminated eof : Bool) : Framing ls { s with pc, nineCnt, daemonTerminated, eof } :=
  ⟨h.stream, h.acted, h.consumed, h.lines, h.buffer, h.room⟩

/-- A line that can be told from the others is one line of the stream. -/
theorem Framing.endLine (h : Framing ls s) (hstdio : s.stdio = c :: stdio)
    (hends : c = '\n' ∨ (s.buffer ++ [c]).length = defaultSizeOfBuffer - 1)
    (hsep : Separable (s.buffer ++ [c]) stdio) :
    ∃ l, Framing (ls ++ [l]) (({ s with stdio } : Session).take (s.buffer ++ [c])) := by
  have hsplit : s.buffer ++ s.stdio = s.buffer ++ [c] ++ stdio := by simp [hstdio]
  have hroom := h.room
  by_cases hlen : (s.buffer ++ [c]).length = defaultSizeOfBuffer - 1
  · have hlong := tooLong_of_no_null (hsep.noNulls hlen) hlen
    have hlen' : s.buffer.length + 1 = defaultSizeOfBuffer - 1 := by simpa using hlen
    by_cases hc : c = '\n'
    · have hnil : stdio = [] := hsep.ended hlen (by simp [hc])
      have hread : getInputFromStream (s.buffer ++ [c]) = lineRequest s.buffer := by
        rw [getInputFromStream_tooLong hlong, lineRequest_long (by omega)]
      exact ⟨s.buffer, h.takeLine h.buffer (by simp [hnil, hc]) hsplit hread⟩
    · -- the rest of the line is all that the purge throws away
      obtain ⟨hlast, hrest⟩ := hsep.cut hlen (by simpa using hc)
      obtain ⟨rest, rfl⟩ : ∃ rest, stdio = rest ++ ['\n'] := List.getLast?_eq_some_iff.mp hlast
      rw [List.dropLast_concat] at hrest
      have hl : '\n' ∉ s.buffer ++ [c] ++ rest := by
        simp only [List.mem_append, List.mem_singleton, not_or]
        exact ⟨⟨h.buffer, Ne.symm hc⟩, hrest⟩
      have hread : getInputFromStream (s.buffer ++ [c]) = lineRequest (s.buffer ++ [c] ++ rest) := by
        have hle : defaultSizeOfBuffer - 1 ≤ (s.buffer ++ [c] ++ rest).length + 1 := by
          rw [List.length_append, hlen]
          omega
        rw [getInputFromStream_tooLong hlong, lineRequest_long hle]
      exact ⟨_, h.takeLine hl (by simp [hlong]) hsplit hread⟩
  · have hc : c = '\n' := hends.resolve_right hlen
    subst hc
    have hshort : s.buffer.length + 1 < defaultSizeOfBuffer - 1 := by
      have : s.buffer.length + 1 ≠ defaultSizeOfBuffer - 1 := by simpa using hlen
      omega
    have hnot : ¬ TooLong (s.buffer ++ ['\n']) := not_tooLong (by simpa using hshort)
    have hread := getInputFromStream_line h.buffer hshort
    exact ⟨s.buffer, h.takeLine h.buffer (by simp [hnot]) hsplit hread⟩

end framing

/-- What every run keeps whose lines are separable when they are read. At the end of the stream
nothing is left of it, and the last line may have been cut. -/
structure SessionInv (s : Session) : Prop where
  underflow : s.underflow = false
  framing : (∃ ls, Framing ls s) ∨
    s.eof = true ∧ s.kernel = [] ∧ s.stdio = [] ∧ s.buffer = []
  idle : (∀ caller, s.pc ≠ .reading caller) → s.buffer = []

section steps

variable {s : Session}

/-- A step that only goes elsewhere. -/
theorem SessionInv.withControl (h : SessionInv s) {pc : SessionPc} {nineCnt : Nat}
    {daemonTerminated : Bool} (hidle : ∀ caller, s.pc ≠ .reading caller) :
    SessionInv { s with pc, nineCnt, daemonTerminated } :=
  ⟨h.underflow, h.framing.imp_left fun ⟨ls, hf⟩ => ⟨ls, hf.withControl _ _ _ _⟩,
    fun _ => h.idle hidle⟩

/-- `fgets` returns, and its caller goes on. -/
theorem SessionInv.endLine {stdio line : List Char} {caller : Caller}
    (hbefore : s.underflow = false) (hnull : line.head? ≠ some '\x00')
    (hframing : (∃ ls, Framing ls (({ s with stdio } : Session).take line)) ∨
      s.eof = true ∧ s.kernel = [] ∧ stdio = [])
    (input : Option (List Char)) (prompts : Bool) :
    SessionInv ((({ s with stdio } : Session).take line).serve caller input prompts) := by
  have hunderflow : (({ s with stdio } : Session).take line).underflow = false := by
    have hclean : ¬ (line ≠ [] ∧ cString line = []) := fun ⟨hne, hnil⟩ =>
      (cString_eq_nil.mp hnil).elim hne hnull
    simp [Session.take, hbefore, hclean]
  obtain ⟨pc, nineCnt, daemonTerminated, hserve, -⟩ :=
    Session.serve_eq (({ s with stdio } : Session).take line) caller input prompts
  rw [hserve]
  refine ⟨hunderflow, ?_, fun _ => rfl⟩
  rcases hframing with ⟨ls, hf⟩ | ⟨heof, hkernel, hstdio⟩
  · exact .inl ⟨ls, hf.withControl _ _ _ _⟩
  · exact .inr ⟨heof, hkernel, by simp [Session.take, hstdio], rfl⟩

/-- No return of `fgets` leads straight back to `select`. -/
theorem Session.fgets_not_waiting (size : Nat) (s : Session) (caller : Caller) (prompts : Bool)
    (hpc : s.pc ≠ .waiting) : (s.fgets size caller prompts).pc ≠ .waiting := by
  have hserve : ∀ (t : Session) (input : Option (List Char)),
      (t.serve caller input prompts).pc ≠ .waiting := by
    intro t input
    obtain ⟨pc, nineCnt, daemonTerminated, heq, hne⟩ := t.serve_eq caller input prompts
    rwa [heq]
  unfold Session.fgets
  split
  · split_ifs
    · exact hpc
    · exact hserve _ _
    · exact hpc
  · simp only
    split_ifs
    · exact hserve _ _
    · exact hpc

theorem SessionInv.fgets (h : SessionInv s) (size : Nat) {caller : Caller}
    (hpc : s.pc = .reading caller) (hsep : ∀ line ∈ s.ending, Separable line.1 line.2)
    (prompts : Bool) : SessionInv (s.fgets size caller prompts) := by
  unfold Session.fgets
  cases hstdio : s.stdio with
  | nil =>
    simp only
    split_ifs with hkernel heof
    · -- the buffer is refilled from the socket
      have hframing : ∃ ls, Framing ls s :=
        h.framing.resolve_right fun hend => hkernel hend.2.1
      obtain ⟨ls, hf⟩ := hframing
      refine ⟨h.underflow, .inl ⟨ls, ?_, hf.acted, hf.consumed, hf.lines, hf.buffer, hf.room⟩,
        fun hidle => absurd hpc (hidle caller)⟩
      rw [hf.stream, hstdio, List.nil_append, List.take_append_drop]
    · -- the stream ends within the line
      have hkernel : s.kernel = [] := not_not.mp hkernel
      have hline : s.ending = some (s.buffer, []) := by simp [Session.ending, hstdio, hkernel, heof]
      have hnull := (hsep _ hline).noNull
      have hs : ({ s with stdio := [] } : Session) = s := by rw [← hstdio]
      have := @SessionInv.endLine s [] s.buffer caller h.underflow hnull
        (.inr ⟨heof, hkernel, rfl⟩) (getInputFromStream s.buffer) prompts
      rwa [hs] at this
    · exact h
  | cons c stdio =>
    have hframing : ∃ ls, Framing ls s :=
      h.framing.resolve_right fun hend => by simp [hstdio] at hend
    obtain ⟨ls, hf⟩ := hframing
    simp only
    split_ifs with hends
    · have hline : s.ending = some (s.buffer ++ [c], stdio) := by
        simp only [Session.ending, hstdio, if_pos hends]
      obtain ⟨l, hf'⟩ := hf.endLine hstdio hends (hsep _ hline)
      exact SessionInv.endLine h.underflow (hsep _ hline).noNull (.inl ⟨_, hf'⟩) _ _
    · obtain ⟨hc, hlen⟩ := not_or.mp hends
      have hroom : (s.buffer ++ [c]).length < defaultSizeOfBuffer - 1 := by
        have hold := hf.room
        rw [List.length_append, List.length_singleton] at hlen ⊢
        omega
      exact ⟨h.underflow, .inl ⟨ls, hf.push hstdio hc hroom⟩,
        fun hidle => absurd hpc (hidle caller)⟩

theorem SessionInv.select (h : SessionInv s) (hidle : ∀ caller, s.pc ≠ .reading caller)
    (caller : Caller) : SessionInv (s.select caller) := by
  unfold Session.select
  split_ifs
  · exact h.withControl hidle
  · exact h.withControl hidle
  · exact h

theorem SessionInv.daemon (h : SessionInv s) (size : Nat) (prompts : Bool)
    (hsep : SeparatesRead s (.daemon prompts)) :
    SessionInv (sessionStep size s (.daemon prompts)) := by
  unfold sessionStep
  unfold SeparatesRead at hsep
  cases hpc : s.pc with
  | getCode => exact h.select (by simp [hpc]) .code
  | testLoop =>
    simp only
    split_ifs
    · exact h.withControl (by simp [hpc])
    · exact h.withControl (by simp [hpc])
  | waiting => exact h.select (by simp [hpc]) .option
  | reading caller =>
    simp only [hpc] at hsep
    exact h.fgets size hpc hsep prompts
  | exited => exact h

/-- Bytes arrive behind those that have. -/
theorem SessionInv.arrive (h : SessionInv s) (size : Nat) (segment : List Char) :
    SessionInv (sessionStep size s (.arrive segment)) := by
  simp only [sessionStep]
  split_ifs with heof
  · exact h
  · obtain ⟨ls, hf⟩ : ∃ ls, Framing ls s := h.framing.resolve_right fun hend => heof hend.1
    refine ⟨h.underflow, .inl ⟨ls, ?_, hf.acted, hf.consumed, hf.lines, hf.buffer, hf.room⟩,
      h.idle⟩
    simp [hf.stream]

theorem SessionInv.step (size : Nat) (s : Session) (a : SessionAction) (h : SessionInv s)
    (hsep : SeparatesRead s a) : SessionInv (sessionStep size s a) := by
  cases a with
  | arrive segment => exact h.arrive size segment
  | close =>
    refine ⟨h.underflow, ?_, h.idle⟩
    exact h.framing.imp (fun ⟨ls, hf⟩ => ⟨ls, hf.withControl _ _ _ _⟩) fun hend => ⟨rfl, hend.2⟩
  | terminate =>
    exact ⟨h.underflow, h.framing.imp_left fun ⟨ls, hf⟩ => ⟨ls, hf.withControl _ _ _ _⟩, h.idle⟩
  | timeout =>
    simp only [sessionStep]
    split_ifs
    · exact h
    · cases hpc : s.pc with
      | getCode => exact h.withControl (by simp [hpc])
      | waiting => exact h.withControl (by simp [hpc])
      | testLoop => exact h
      | reading caller => exact h
      | exited => exact h
  | selectFails =>
    simp only [sessionStep]
    cases hpc : s.pc with
    | getCode => exact h.withControl (by simp [hpc])
    | waiting => exact h.withControl (by simp [hpc])
    | testLoop => exact h
    | reading caller => exact h
    | exited => exact h
  | daemon prompts => exact h.daemon size prompts hsep

/-- Where the loop waits, nothing is left behind that could be served. -/
def Session.WaitsDrained (s : Session) : Prop :=
  s.pc = .waiting → s.kernel = [] → s.eof = false → '\n' ∉ s.stdio

theorem Session.waitsDrained_of_pc {s : Session} (h : s.pc ≠ .waiting) : s.WaitsDrained :=
  fun hw => absurd hw h

theorem Session.WaitsDrained.select {s : Session} (h : s.WaitsDrained) (caller : Caller) :
    (s.select caller).WaitsDrained := by
  unfold Session.select
  split_ifs
  · exact Session.waitsDrained_of_pc (by simp)
  · exact Session.waitsDrained_of_pc (by simp)
  · exact h

/-- The loop goes to wait from its test alone. -/
theorem Session.WaitsDrained.step (size : Nat) (s : Session) (a : SessionAction)
    (h : s.WaitsDrained) (hsep : SeparatesLines s a) : (sessionStep size s a).WaitsDrained := by
  cases a with
  | arrive segment =>
    simp only [sessionStep]
    split_ifs
    · exact h
    · exact fun hw hkernel hopen => h hw (List.append_eq_nil_iff.mp hkernel).1 hopen
  | close => exact fun _ _ hopen => by cases hopen
  | terminate => exact h
  | timeout =>
    simp only [sessionStep]
    split_ifs
    · exact h
    · split
      · exact Session.waitsDrained_of_pc (by simp)
      · exact Session.waitsDrained_of_pc (by simp)
      · exact h
  | selectFails =>
    simp only [sessionStep]
    split
    · exact Session.waitsDrained_of_pc (by simp)
    · exact Session.waitsDrained_of_pc (by simp)
    · exact h
  | daemon prompts =>
    unfold SeparatesLines at hsep
    cases hpc : s.pc with
    | getCode =>
      simp only [sessionStep, hpc]
      exact h.select .code
    | testLoop =>
      simp only [hpc] at hsep
      simp only [sessionStep, hpc]
      split_ifs with hterminated
      · exact Session.waitsDrained_of_pc (by simp)
      · exact fun _ => hsep (by simpa using hterminated)
    | waiting =>
      simp only [sessionStep, hpc]
      exact h.select .option
    | reading caller =>
      simp only [sessionStep, hpc]
      exact Session.waitsDrained_of_pc (s.fgets_not_waiting size caller prompts (by simp [hpc]))
    | exited =>
      simp only [sessionStep, hpc]
      exact h

end steps

theorem sessionInv_init : SessionInv .init :=
  ⟨rfl, .inl ⟨[], rfl, rfl, rfl, by simp, by simp [Session.init], by decide⟩, fun _ => rfl⟩

/-! ## Every run -/

/-- The requests acted on are those of the stream, and the reader stays in its buffer. -/
structure RequestsFramed (s : Session) : Prop where
  sound : s.eof = false → s.acted <+: requests s.arrived
  complete : s.Waits → s.acted = requests s.arrived
  inside : s.underflow = false

theorem Framing.requests {ls : List (List Char)} {s : Session} (h : Framing ls s) :
    requests s.arrived = s.acted ++ placed lineRequest (terminated '\n' ls).length
      (completeLines '\n' (s.buffer ++ (s.stdio ++ s.kernel))) := by
  rw [NemeaSupervisor.requests, h.stream, completeLines_terminated h.lines,
    @placed_append _ _ '\n', h.acted, Nat.zero_add]

theorem SessionInv.requestsFramed {s : Session} (h : SessionInv s) (hdrained : s.WaitsDrained) :
    RequestsFramed s := by
  have framing : s.eof = false → ∃ ls, Framing ls s := fun hopen =>
    h.framing.resolve_right fun hend => by simp [hopen] at hend
  refine ⟨fun hopen => ?_, fun ⟨hpc, hkernel, hopen⟩ => ?_, h.underflow⟩
  · obtain ⟨ls, hf⟩ := framing hopen
    exact ⟨_, hf.requests.symm⟩
  · obtain ⟨ls, hf⟩ := framing hopen
    have hbuffer : s.buffer = [] := h.idle (by simp [hpc])
    have hnone : '\n' ∉ s.buffer ++ (s.stdio ++ s.kernel) := by
      simpa [hbuffer, hkernel] using hdrained hpc hkernel hopen
    rw [hf.requests, completeLines_unterminated hnone]
    simp [placed]

/-- A run whose lines are kept apart acts on the lines of the stream, however they arrive. -/
theorem requests_framed (size : Nat) (as : List SessionAction)
    (h : Run.Along (sessionStep size) SeparatesLines .init as) :
    RequestsFramed (Run.run (sessionStep size) .init as) :=
  (Run.along_invariant (fun s a hs hsep => hs.step size s a hsep.read) sessionInv_init h).requestsFramed
    (Run.along_invariant (Session.WaitsDrained.step size) (fun hw => by cases hw) h)

/-- The mode code, and a choice whose newline comes later. -/
def splitChoice : List SessionAction :=
  .arrive "789123\n".toList :: List.replicate 10 (.daemon false) ++
    .arrive ['4'] :: List.replicate 3 (.daemon false) ++
      .arrive ['\n'] :: List.replicate 3 (.daemon false)

theorem requests_framed_split :
    (Run.run (sessionStep 4096) .init splitChoice).Waits ∧
      requests "789123\n4\n".toList = [(0, some "789123".toList), (7, some ['4'])] ∧
      (Run.run (sessionStep 4096) .init splitChoice).acted =
        requests (Run.run (sessionStep 4096) .init splitChoice).arrived :=
  ⟨by decide, by decide, (requests_framed 4096 splitChoice (by decide)).complete (by decide)⟩

/-- A choice that comes with the mode code stays in the buffer of the `FILE`. -/
theorem not_requests_framed :
    ¬ ∀ (size : Nat) (as : List SessionAction), 0 < size →
      RequestsFramed (Run.run (sessionStep size) .init as) := fun h => by
  have hrun := h 4096 (.arrive "789123\n4\n".toList :: List.replicate 10 (.daemon false)) (by simp)
  exact absurd (hrun.complete (by decide)) (by decide)

end NemeaSupervisor
