import NemeaSupervisor.ClientSlots

/-!
# The configuration mode

One client at a time is in the configuration mode, and the global streams are its
streams for as long as it reads and writes through them. The flag is set under the
lock, the streams are set after it and reset before it is cleared, and the client's
streams are closed last.
-/

namespace NemeaSupervisor

namespace ClientPc

/-- The thread is inside of the loop. -/
def inLoop : ClientPc → Bool
  | testLoop | waiting => true
  | _ => false

/-- The global input is the stream of the thread. -/
def holdsInput : ClientPc → Bool
  | testLoop | waiting | resetInput => true
  | _ => false

/-- The global output is the stream of the thread. -/
def holdsOutput : ClientPc → Bool
  | setInput | testLoop | waiting | resetInput | resetOutput => true
  | _ => false

end ClientPc

section client

variable {t : ClientThread} {outcome : Outcome} {s : Server}

/-- The flag is set by the thread that enters and cleared by the thread that leaves. -/
theorem clientStep_config :
    s.configModeActive = false ∧ (clientStep t outcome s).1.configModeActive = true ∧
        t.pc.configures = false ∧ (clientStep t outcome s).2.pc.configures = true ∨
      (clientStep t outcome s).1.configModeActive = false ∧ t.pc.configures = true ∧
        (clientStep t outcome s).2.pc.configures = false ∨
      (clientStep t outcome s).1.configModeActive = s.configModeActive ∧
        (clientStep t outcome s).2.pc.configures = t.pc.configures := by
  generalize hr : clientStep t outcome s = r
  cases hpc : t.pc <;>
    simp only [clientStep, openStreamsStep, dispatchStep, configLoopStep, disconnectStep,
      hpc] at hr <;>
    repeat' split at hr
  all_goals subst hr
  all_goals first
    | exact .inr (.inr ⟨rfl, rfl⟩)
    | exact .inr (.inl ⟨rfl, rfl, rfl⟩)
    | exact .inr (.inr ⟨rfl, congrArg ClientPc.configures hpc⟩)
    | skip
  · next hactive => exact .inl ⟨by simpa using hactive, rfl, rfl, rfl⟩

theorem clientStep_inputFd :
    (clientStep t outcome s).1.inputFd = some .stdin ∨
      (clientStep t outcome s).1.inputFd =
          ((clientStep t outcome s).1.clients t.client).clientInputStream ∧
        (clientStep t outcome s).2.pc.holdsInput = true ∨
      (clientStep t outcome s).1.inputFd = s.inputFd ∧ (t.pc.holdsInput = true →
        (clientStep t outcome s).2.pc.holdsInput = true ∧
        (clientStep t outcome s).1.clients = s.clients) := by
  generalize hr : clientStep t outcome s = r
  cases hpc : t.pc <;>
    simp only [clientStep, openStreamsStep, dispatchStep, configLoopStep, disconnectStep,
      hpc] at hr <;>
    repeat' split at hr
  all_goals subst hr
  all_goals first
    | exact .inr (.inr ⟨rfl, fun h => absurd h Bool.false_ne_true⟩)
    | exact .inr (.inr ⟨rfl, fun _ => ⟨rfl, rfl⟩⟩)
    | exact .inr (.inl ⟨rfl, rfl⟩)
    | exact .inl rfl

theorem clientStep_outputFd :
    (clientStep t outcome s).1.outputFd = some .supervisorLogFd ∨
      (clientStep t outcome s).1.outputFd =
          ((clientStep t outcome s).1.clients t.client).clientOutputStream ∧
        (clientStep t outcome s).2.pc.holdsOutput = true ∨
      (clientStep t outcome s).1.outputFd = s.outputFd ∧ (t.pc.holdsOutput = true →
        (clientStep t outcome s).2.pc.holdsOutput = true ∧
        (clientStep t outcome s).1.clients = s.clients) := by
  generalize hr : clientStep t outcome s = r
  cases hpc : t.pc <;>
    simp only [clientStep, openStreamsStep, dispatchStep, configLoopStep, disconnectStep,
      hpc] at hr <;>
    repeat' split at hr
  all_goals subst hr
  all_goals first
    | exact .inr (.inr ⟨rfl, fun h => absurd h Bool.false_ne_true⟩)
    | exact .inr (.inr ⟨rfl, fun _ => ⟨rfl, rfl⟩⟩)
    | exact .inr (.inl ⟨rfl, rfl⟩)
    | exact .inl rfl

end client

/-- The flag counts the threads in the mode, and a global stream that is not the default
one is the stream of a thread that uses it. -/
structure ConfigInv (d : Daemon) : Prop where
  flag : d.threads.countP (fun t => t.pc.configures) = d.server.configModeActive.toNat
  input : d.server.inputFd = some .stdin ∨ ∃ t ∈ d.threads, t.pc.holdsInput = true ∧
    (d.server.clients t.client).clientInputStream = d.server.inputFd
  output : d.server.outputFd = some .supervisorLogFd ∨ ∃ t ∈ d.threads,
    t.pc.holdsOutput = true ∧ (d.server.clients t.client).clientOutputStream = d.server.outputFd

theorem ClientPc.owns_of_configures {pc : ClientPc} (h : pc.configures = true) :
    pc.owns = true := by
  cases pc <;> first | rfl | cases h

theorem ClientPc.configures_of_holdsInput {pc : ClientPc} (h : pc.holdsInput = true) :
    pc.configures = true := by
  cases pc <;> first | rfl | cases h

theorem ClientPc.configures_of_holdsOutput {pc : ClientPc} (h : pc.holdsOutput = true) :
    pc.configures = true := by
  cases pc <;> first | rfl | cases h

theorem ClientPc.mem_demands_of_configures {pc : ClientPc} (h : pc.configures = true) :
    Demand.inputOpen ∈ pc.demands ∧ Demand.outputOpen ∈ pc.demands := by
  cases pc <;> first | exact ⟨by decide, by decide⟩ | cases h

section invariant

variable {d : Daemon} {i : Nat} {t : ClientThread}

theorem ConfigInv.flag_client (hc : ConfigInv d) (hi : d.threads[i]? = some t) (outcome : Outcome) :
    (d.threads.set i (clientStep t outcome d.server).2).countP (fun u => u.pc.configures) =
      (clientStep t outcome d.server).1.configModeActive.toNat := by
  have hflag := hc.flag
  have hset := Pool.countP_set (fun u => u.pc.configures) (clientStep t outcome d.server).2 hi
  rcases @clientStep_config t outcome d.server with ⟨hoff, hon, hout, hin⟩ | ⟨hoff, hin, hout⟩ |
    ⟨hsame, hpc⟩
  · rw [hoff, Bool.toNat_false] at hflag
    rw [hout, hin, Bool.toNat_true, Bool.toNat_false] at hset
    rw [hon, Bool.toNat_true]
    omega
  · have hle := d.server.configModeActive.toNat_le
    rw [hin, hout, Bool.toNat_true, Bool.toNat_false] at hset
    rw [hoff, Bool.toNat_false]
    omega
  · rw [hpc] at hset
    rw [hsame]
    omega

/-- A thread that uses a slot keeps it while another thread takes a step. -/
theorem other_slot (h : SlotInv d) (hi : d.threads[i]? = some t) (outcome : Outcome) {j : Nat}
    {u : ClientThread} (hj : d.threads[j]? = some u) (hji : j ≠ i) (hu : u.pc.owns = true) :
    (clientStep t outcome d.server).1.clients u.client = d.server.clients u.client :=
  (clientStep_effect (h.own t (List.mem_of_getElem? hi)) outcome).other u.client
    fun howns heq => hji (h.client_unique hj hi hu howns heq)

/-- A global stream after a step: the default, set by the thread, or still that of the
thread that uses it. -/
theorem global_client (h : SlotInv d) (hi : d.threads[i]? = some t) {outcome : Outcome}
    {stream : Client → Option Stream} {holds : ClientPc → Bool} {default old new : Option Stream}
    (howns : ∀ pc, holds pc = true → pc.owns = true)
    (hold : old = default ∨
      ∃ u ∈ d.threads, holds u.pc = true ∧ stream (d.server.clients u.client) = old)
    (hstep : new = default ∨
      new = stream ((clientStep t outcome d.server).1.clients t.client) ∧
        holds (clientStep t outcome d.server).2.pc = true ∨
      new = old ∧ (holds t.pc = true → holds (clientStep t outcome d.server).2.pc = true ∧
        (clientStep t outcome d.server).1.clients = d.server.clients)) :
    new = default ∨ ∃ u ∈ d.threads.set i (clientStep t outcome d.server).2,
      holds u.pc = true ∧ stream ((clientStep t outcome d.server).1.clients u.client) = new := by
  have hclient := (@clientStep_thread t outcome d.server).1
  rcases hstep with hdefault | ⟨hset, hpc⟩ | ⟨hsame, hkeep⟩
  · exact .inl hdefault
  · refine .inr ⟨_, Pool.mem_set_self hi, hpc, ?_⟩
    rw [hclient]
    exact hset.symm
  · rcases hold with hdefault | ⟨u, hu, hholds, hstream⟩
    · exact .inl (hsame.trans hdefault)
    · obtain ⟨j, hj⟩ := List.mem_iff_getElem?.mp hu
      by_cases hji : j = i
      · subst hji
        rw [hi] at hj
        cases hj
        obtain ⟨hholds', hclients⟩ := hkeep hholds
        refine .inr ⟨_, Pool.mem_set_self hi, hholds', ?_⟩
        rw [hclient, hclients, hsame, hstream]
      · refine .inr ⟨u, Pool.mem_set_of_ne hj hji, hholds, ?_⟩
        rw [other_slot h hi outcome hj hji (howns _ hholds), hsame, hstream]

theorem ConfigInv.client (h : SlotInv d) (hc : ConfigInv d) (hi : d.threads[i]? = some t)
    (outcome : Outcome) : ConfigInv { d with
      server := (clientStep t outcome d.server).1
      threads := d.threads.set i (clientStep t outcome d.server).2 } where
  flag := hc.flag_client hi outcome
  input := global_client h hi
    (fun _ hpc => ClientPc.owns_of_configures (ClientPc.configures_of_holdsInput hpc))
    hc.input clientStep_inputFd
  output := global_client h hi
    (fun _ hpc => ClientPc.owns_of_configures (ClientPc.configures_of_holdsOutput hpc))
    hc.output clientStep_outputFd

/-- The server routine leaves the streams in the slots of the threads alone. -/
theorem acceptorStep_slots (h : SlotInv d) (created : Bool) (ht : t ∈ d.threads)
    (howns : t.pc.owns = true) : ∃ connected id,
      (acceptorStep created d).server.clients t.client =
        { d.server.clients t.client with clientConnected := connected, clientId := id } := by
  cases hacc : d.acceptor with
  | scanning conn newClient x =>
    simp only [acceptorStep, hacc]
    split
    · split
      · next hsd => exact ⟨_, _, Server.setClient_other _ _ _ (h.free_ne hsd ht howns)⟩
      · exact ⟨_, _, rfl⟩
    · exact ⟨_, _, rfl⟩
  | claimed conn x | unservedUnset conn x =>
    simp only [acceptorStep, hacc]
    exact ⟨_, _, Server.setClient_other _ _ _ (h.slot_ne (by rw [hacc]; rfl) ht howns)⟩
  | unservedDisconnect conn x =>
    simp only [acceptorStep, hacc]
    by_cases hx : t.client = x
    · rw [hx]
      exact ⟨_, _, Server.setClient_self ..⟩
    · exact ⟨_, _, Server.setClient_other _ _ _ hx⟩
  | listening | testing conn newClient | creating conn x =>
    simp only [acceptorStep, hacc]
    split <;> exact ⟨_, _, rfl⟩
  | _ =>
    simp only [acceptorStep, hacc]
    exact ⟨_, _, rfl⟩

/-- It adds threads at their start, and leaves the global streams alone. -/
theorem acceptorStep_frame (created : Bool) :
    ((acceptorStep created d).threads = d.threads ∨ ∃ x conn,
        (acceptorStep created d).threads = d.threads ++ [⟨x, conn, .openInput, 0, false⟩]) ∧
      (acceptorStep created d).server.configModeActive = d.server.configModeActive ∧
      (acceptorStep created d).server.inputFd = d.server.inputFd ∧
      (acceptorStep created d).server.outputFd = d.server.outputFd := by
  cases hacc : d.acceptor <;> simp only [acceptorStep, hacc] <;> repeat' split
  all_goals
    refine ⟨?_, ?_, ?_, ?_⟩ <;>
      first | rfl | trivial | exact .inl rfl | exact .inl trivial | exact .inr ⟨_, _, rfl⟩

/-- The threads are still there, and new ones hold nothing. -/
theorem global_acceptor (h : SlotInv d) (created : Bool) {stream : Client → Option Stream}
    {holds : ClientPc → Bool} {default old : Option Stream}
    (howns : ∀ pc, holds pc = true → pc.owns = true)
    (hstream : ∀ c connected id, stream { c with clientConnected := connected, clientId := id } =
      stream c)
    (hold : old = default ∨
      ∃ u ∈ d.threads, holds u.pc = true ∧ stream (d.server.clients u.client) = old) :
    old = default ∨ ∃ u ∈ (acceptorStep created d).threads, holds u.pc = true ∧
      stream ((acceptorStep created d).server.clients u.client) = old := by
  rcases hold with hdefault | ⟨u, hu, hholds, heq⟩
  · exact .inl hdefault
  · obtain ⟨connected, id, hslot⟩ := acceptorStep_slots h created hu (howns _ hholds)
    refine .inr ⟨u, ?_, hholds, ?_⟩
    · rcases (acceptorStep_frame created).1 with hthreads | ⟨x, conn, hthreads⟩
      · rw [hthreads]
        exact hu
      · rw [hthreads]
        exact List.mem_append_left _ hu
    · rw [hslot, hstream, heq]

theorem ConfigInv.acceptor (h : SlotInv d) (hc : ConfigInv d) (created : Bool) :
    ConfigInv (acceptorStep created d) := by
  obtain ⟨hthreads, hflag, hin, hout⟩ := @acceptorStep_frame d created
  constructor
  · rw [hflag, ← hc.flag]
    rcases hthreads with heq | ⟨x, conn, heq⟩
    · rw [heq]
    · rw [heq, List.countP_append]
      rfl
  · rw [hin]
    exact global_acceptor h created
      (fun _ hpc => ClientPc.owns_of_configures (ClientPc.configures_of_holdsInput hpc))
      (fun _ _ _ => rfl) hc.input
  · rw [hout]
    exact global_acceptor h created
      (fun _ hpc => ClientPc.owns_of_configures (ClientPc.configures_of_holdsOutput hpc))
      (fun _ _ _ => rfl) hc.output

theorem configInv_step (h : SlotInv d) (hc : ConfigInv d) (a : DaemonAction) :
    ConfigInv (daemonStep d a) := by
  cases a with
  | acceptor created =>
    simp only [daemonStep]
    split
    · exact hc
    · exact hc.acceptor h created
  | client i outcome =>
    simp only [daemonStep]
    split
    · next t ht =>
      split
      · exact hc
      · exact hc.client h ht outcome
    · exact hc
  | terminate => exact ⟨hc.flag, hc.input, hc.output⟩
  | accept newClient | selectFails | free | openOther fd | closeOther fd =>
    simp only [daemonStep]
    split
    · exact ⟨hc.flag, hc.input, hc.output⟩
    · exact hc

theorem reachable_configInv (h : DaemonReachable d) : ConfigInv d := by
  obtain ⟨held, as, rfl⟩ := h
  have hinv := Run.run_invariant (I := fun d => SlotInv d ∧ ConfigInv d)
    (fun d a hd => ⟨hd.1.step a, configInv_step hd.1 hd.2 a⟩)
    ⟨slotInv_init held, rfl, .inl rfl, .inl rfl⟩ as
  exact hinv.2

/-- One thread at most is in the configuration mode, the flag is set exactly while there
is one, and the global streams are the default ones or its own, which are open. -/
theorem config_mode_exclusive (h : DaemonReachable d) :
    (∀ (i j : Nat) (t u : ClientThread), d.threads[i]? = some t → d.threads[j]? = some u →
      t.pc.inLoop = true → u.pc.inLoop = true → i = j) ∧
    (d.server.configModeActive = true ↔ ∃ t ∈ d.threads, t.pc.configures = true) ∧
    (∀ (i j : Nat) (t u : ClientThread), d.threads[i]? = some t → d.threads[j]? = some u →
      t.pc.configures = true → u.pc.configures = true → i = j) ∧
    (d.server.inputFd = some .stdin ∨ ∃ t ∈ d.threads, t.pc.configures = true ∧
      ∃ f ∈ d.server.openStreams, (d.server.clients t.client).clientInputStream = some f ∧
        d.server.inputFd = some f) ∧
    (d.server.outputFd = some .supervisorLogFd ∨ ∃ t ∈ d.threads, t.pc.configures = true ∧
      ∃ f ∈ d.server.openStreams, (d.server.clients t.client).clientOutputStream = some f ∧
        d.server.outputFd = some f) := by
  have hslots := reachable_slotInv h
  have hc := reachable_configInv h
  have hone : d.threads.countP (fun t => t.pc.configures) ≤ 1 := by
    rw [hc.flag]
    exact Bool.toNat_le _
  have hunique : ∀ (i j : Nat) (t u : ClientThread), d.threads[i]? = some t →
      d.threads[j]? = some u → t.pc.configures = true → u.pc.configures = true → i = j :=
    fun i j t u hi hj ht hu => Pool.index_unique hone hi hj ht hu
  have hloop : ∀ pc : ClientPc, pc.inLoop = true → pc.configures = true := by
    intro pc hpc
    cases pc <;> first | rfl | cases hpc
  refine ⟨fun i j t u hi hj ht hu => hunique i j t u hi hj (hloop _ ht) (hloop _ hu), ?_,
    hunique, ?_, ?_⟩
  · rw [← List.countP_pos_iff, hc.flag]
    cases d.server.configModeActive <;> simp
  · rcases hc.input with hdefault | ⟨t, ht, hholds, hstream⟩
    · exact .inl hdefault
    · have hconfig := ClientPc.configures_of_holdsInput hholds
      have hown := hslots.own t ht (ClientPc.owns_of_configures hconfig)
      obtain ⟨f, hf, heq⟩ := hown.met .inputOpen (ClientPc.mem_demands_of_configures hconfig).1
      exact .inr ⟨t, ht, hconfig, f, hf, heq, hstream.symm.trans heq⟩
  · rcases hc.output with hdefault | ⟨t, ht, hholds, hstream⟩
    · exact .inl hdefault
    · have hconfig := ClientPc.configures_of_holdsOutput hholds
      have hown := hslots.own t ht (ClientPc.owns_of_configures hconfig)
      obtain ⟨f, hf, heq⟩ := hown.met .outputOpen (ClientPc.mem_demands_of_configures hconfig).2
      exact .inr ⟨t, ht, hconfig, f, hf, heq, hstream.symm.trans heq⟩

end invariant

/-- A client connects, opens its streams and enters the configuration mode. -/
def entersConfigMode : List DaemonAction :=
  [.acceptor true, .accept 7] ++ List.replicate 5 (.acceptor true) ++
    [.client 0 .done, .client 0 .done, .client 0 .done, .client 0 (.code clientConfigModeCode),
      .client 0 .done, .client 0 .done, .client 0 .done, .client 0 .done]

theorem config_mode_exclusive_entered :
    ∃ f ∈ (Run.run daemonStep (.init fun fd => decide (fd ≤ 6)) entersConfigMode).server.openStreams,
      (Run.run daemonStep (.init fun fd => decide (fd ≤ 6)) entersConfigMode).server.inputFd =
        some f := by
  rcases (config_mode_exclusive ⟨fun fd => decide (fd ≤ 6), entersConfigMode, rfl⟩).2.2.2.1 with
    hdefault | ⟨t, ht, hpc, f, hf, hslot, hinput⟩
  · exact absurd hdefault (by decide)
  · exact ⟨f, hf, hinput⟩

end NemeaSupervisor
