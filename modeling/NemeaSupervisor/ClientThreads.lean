import NemeaSupervisor.Daemon

/-!
# What a client's thread does

A thread works on the slot it was given until it has set its descriptor to -1. Each
step is summed up once: what it does to its own slot, which holds nothing but the
streams and the descriptor of its connection, and what it leaves alone.
-/

namespace NemeaSupervisor

namespace ClientPc

/-- The slot is still used for the connection of the thread. -/
def owns : ClientPc → Bool
  | uncount | reloading | exited => false
  | _ => true

/-- The connection is still in the counter. -/
def counts : ClientPc → Bool
  | reloading | exited => false
  | _ => true

/-- A `close` of the connection is still to come. -/
def closes : ClientPc → Bool
  | unsetSd | uncount | reloading | exited => false
  | _ => true

/-- The thread has entered the configuration mode and not yet left it. -/
def configures : ClientPc → Bool
  | setOutput | setInput | testLoop | waiting | resetInput | resetOutput | clearConfigMode => true
  | _ => false

end ClientPc

/-- The slot holds nothing but streams and numbers of the connection. -/
structure Client.Of (c : Client) (conn : Nat) : Prop where
  sd : 0 ≤ c.clientSd
  input : ∀ f ∈ c.clientInputStream, f = .input conn c.clientSd
  output : ∀ f ∈ c.clientOutputStream, f = .output conn c.clientSd
  inputFd : c.clientInputStreamFd = -1 ∨ c.clientInputStreamFd = c.clientSd

/-- Nothing is left in the slot beside the descriptor. -/
structure Client.Bare (c : Client) : Prop where
  input : c.clientInputStream = none
  output : c.clientOutputStream = none
  inputFd : c.clientInputStreamFd = -1

/-- What a step needs of the slot. -/
inductive Demand where
  | inputOpen
  | outputOpen
  | fdUnset
  | inputUnset
  | outputUnset
  deriving DecidableEq

def Demand.Met (openStreams : List Stream) (c : Client) : Demand → Prop
  | inputOpen => ∃ f ∈ openStreams, c.clientInputStream = some f
  | outputOpen => ∃ f ∈ openStreams, c.clientOutputStream = some f
  | fdUnset => c.clientInputStreamFd = -1
  | inputUnset => c.clientInputStream = none
  | outputUnset => c.clientOutputStream = none

def ClientPc.demands : ClientPc → List Demand
  | openOutput => [.inputOpen]
  | openFileno | getCode | testConfigMode | setOutput | setInput | testLoop | waiting
  | resetInput | resetOutput | clearConfigMode | reporting => [.inputOpen, .outputOpen]
  | fcloseInput | unsetInput => [.fdUnset]
  | fcloseOutput | unsetOutput => [.fdUnset, .inputUnset]
  | closeSd | unsetSd => [.fdUnset, .inputUnset, .outputUnset]
  | _ => []

/-- What a thread relies on while it uses its slot. -/
structure OwnSlot (s : Server) (t : ClientThread) : Prop where
  slot : (s.clients t.client).Of t.conn
  met : ∀ q ∈ t.pc.demands, q.Met s.openStreams (s.clients t.client)

section client

variable {t : ClientThread} {outcome : Outcome} {s : Server}

theorem clientStep_thread :
    (clientStep t outcome s).2.client = t.client ∧ (clientStep t outcome s).2.conn = t.conn := by
  cases hpc : t.pc <;>
    simp only [clientStep, openStreamsStep, dispatchStep, configLoopStep, disconnectStep, hpc,
      ClientThread.goto, and_self] <;>
    repeat' split
  all_goals exact ⟨rfl, rfl⟩

/-- A thread leaves the slots of the others alone. -/
theorem clientStep_other {x : Fin maxNumberSupClients} (hx : x ≠ t.client) :
    (clientStep t outcome s).1.clients x = s.clients x := by
  cases hpc : t.pc <;>
    simp only [clientStep, openStreamsStep, dispatchStep, configLoopStep, disconnectStep, hpc] <;>
    repeat' split
  all_goals simp [Server.setClient, Server.closeFor, Server.close, Server.fcloseFor,
    Server.uncount, hx]

/-- A thread that has released its slot touches no slot, stream or descriptor. -/
theorem clientStep_released (h : t.pc.owns = false) :
    (clientStep t outcome s).2.pc.owns = false ∧
      (clientStep t outcome s).1.clients = s.clients ∧
      (clientStep t outcome s).1.openStreams = s.openStreams ∧
      (clientStep t outcome s).1.descriptors = s.descriptors ∧
      (clientStep t outcome s).1.closes = s.closes := by
  cases hpc : t.pc <;> rw [hpc] at h <;> first | exact absurd h (by decide) | skip
  case uncount =>
    simp only [clientStep, disconnectStep, hpc, ClientThread.goto]
    split <;> exact ⟨rfl, rfl, rfl, rfl, rfl⟩
  case reloading => simp [clientStep, disconnectStep, hpc, ClientThread.goto, ClientPc.owns]
  case exited => simp [clientStep, disconnectStep, hpc, ClientPc.owns]

/-- A step that leaves the slot alone and demands no more of it. -/
theorem OwnSlot.move {s' : Server} {t' : ClientThread} (h : OwnSlot s t)
    (hclient : t'.client = t.client) (hconn : t'.conn = t.conn)
    (hslot : s'.clients t.client = s.clients t.client) (hstreams : s'.openStreams = s.openStreams)
    (hpc : t'.pc.demands ⊆ t.pc.demands) : OwnSlot s' t' := by
  rw [← hclient] at hslot
  constructor
  · rw [hslot, hconn, hclient]
    exact h.slot
  · intro q hq
    rw [hslot, hclient, hstreams]
    exact h.met q (hpc hq)

/-- The slot of a thread that goes on using it. -/
def Kept (s : Server) (t : ClientThread) (r : Server × ClientThread) : Prop :=
  r.2.pc.owns = true ∧ OwnSlot r.1 r.2 ∧ (r.1.clients t.client).clientSd = (s.clients t.client).clientSd

theorem OwnSlot.kept_move {s' : Server} {t' : ClientThread} (h : OwnSlot s t)
    (hclient : t'.client = t.client) (hconn : t'.conn = t.conn)
    (hslot : s'.clients t.client = s.clients t.client) (hstreams : s'.openStreams = s.openStreams)
    (hpc : t'.pc.owns = true ∧ t'.pc.demands ⊆ t.pc.demands) : Kept s t (s', t') :=
  ⟨hpc.1, h.move hclient hconn hslot hstreams hpc.2, congrArg Client.clientSd hslot⟩

/-- The thread changes its slot to `c`. -/
theorem kept_set {s' : Server} {c : Client} {pc : ClientPc}
    (hslot : s'.clients t.client = c) (hof : c.Of t.conn)
    (hsd : c.clientSd = (s.clients t.client).clientSd) (howns : pc.owns = true)
    (hmet : ∀ q ∈ pc.demands, q.Met s'.openStreams c) : Kept s t (s', t.goto pc) := by
  refine ⟨howns, ⟨?_, ?_⟩, ?_⟩
  · rw [show (t.goto pc).client = t.client from rfl, hslot]
    exact hof
  · rw [show (t.goto pc).client = t.client from rfl, hslot]
    exact hmet
  · rw [hslot, hsd]

/-- `daemon_open_client_streams` fills the slot with the streams of the connection. -/
theorem openStreamsStep_own (h : OwnSlot s t)
    (hpc : t.pc = .openInput ∨ t.pc = .openOutput ∨ t.pc = .openFileno) :
    Kept s t (openStreamsStep t outcome s) := by
  obtain ⟨hsd, hin, hout, hfd⟩ := h.slot
  have hmet := h.met
  rcases hpc with hpc | hpc | hpc <;> rw [hpc] at hmet <;> simp only [openStreamsStep, hpc] <;> split
  · exact kept_set (Function.update_self ..) ⟨hsd, by simp, hout, hfd⟩ rfl rfl
      (by simp [ClientPc.demands])
  · refine kept_set (Function.update_self ..) ⟨hsd, by simp, hout, hfd⟩ rfl rfl ?_
    simp [ClientPc.demands, Demand.Met]
  · exact kept_set (Function.update_self ..) ⟨hsd, hin, by simp, hfd⟩ rfl rfl
      (by simp [ClientPc.demands])
  · obtain ⟨f, hf, heq⟩ := hmet .inputOpen (by decide)
    refine kept_set (Function.update_self ..) ⟨hsd, hin, by simp, hfd⟩ rfl rfl ?_
    simp [ClientPc.demands, Demand.Met, heq, hf]
  · exact kept_set (Function.update_self ..) ⟨hsd, hin, hout, .inl rfl⟩ rfl rfl
      (by simp [ClientPc.demands])
  · obtain ⟨f, hf, heq⟩ := hmet .inputOpen (by decide)
    obtain ⟨g, hg, heq'⟩ := hmet .outputOpen (by decide)
    refine kept_set (Function.update_self ..) ⟨hsd, hin, hout, .inr ?_⟩ rfl rfl ?_
    · rw [heq, hin f heq]
      rfl
    · simp [ClientPc.demands, Demand.Met, heq, hf, heq', hg, Server.setClient]

/-- The dispatch and the loop do not change the slot. -/
theorem dispatchStep_own (h : OwnSlot s t)
    (hpc : t.pc = .getCode ∨ t.pc = .testConfigMode ∨ t.pc = .setOutput ∨ t.pc = .setInput ∨
      t.pc = .reporting) : Kept s t (dispatchStep t outcome s) := by
  rcases hpc with hpc | hpc | hpc | hpc | hpc <;> simp only [dispatchStep, hpc] <;> repeat' split
  all_goals
    refine h.kept_move rfl rfl rfl rfl ?_
    rw [hpc]
    exact ⟨rfl, by simp [ClientPc.demands, ClientThread.goto]⟩

theorem configLoopStep_own (h : OwnSlot s t)
    (hpc : t.pc = .testLoop ∨ t.pc = .waiting ∨ t.pc = .resetInput ∨ t.pc = .resetOutput ∨
      t.pc = .clearConfigMode) : Kept s t (configLoopStep t outcome s) := by
  rcases hpc with hpc | hpc | hpc | hpc | hpc <;> simp only [configLoopStep, hpc] <;> repeat' split
  all_goals
    refine h.kept_move rfl rfl rfl rfl ?_
    rw [hpc]
    exact ⟨rfl, by simp [ClientPc.demands, ClientThread.goto]⟩

/-- `daemon_disconnect_client` empties the slot and releases it at last. -/
theorem disconnectStep_own (h : OwnSlot s t)
    (hpc : t.pc = .disconnect ∨ t.pc = .closeInputFd ∨ t.pc = .unsetInputFd ∨ t.pc = .fcloseInput ∨
      t.pc = .unsetInput ∨ t.pc = .fcloseOutput ∨ t.pc = .unsetOutput ∨ t.pc = .closeSd) :
    Kept s t (disconnectStep t s) := by
  obtain ⟨hsd, hin, hout, hfd⟩ := h.slot
  have hmet := h.met
  rcases hpc with hpc | hpc | hpc | hpc | hpc | hpc | hpc | hpc <;> rw [hpc] at hmet <;>
    simp only [disconnectStep, hpc]
  · exact kept_set (Function.update_self ..) ⟨hsd, hin, hout, hfd⟩ rfl rfl
      (by simp [ClientPc.demands])
  · split
    · refine h.kept_move rfl rfl rfl rfl ?_
      rw [hpc]
      exact ⟨rfl, by simp [ClientPc.demands, ClientThread.goto]⟩
    · refine kept_set rfl h.slot rfl rfl ?_
      simp only [ClientPc.demands, List.mem_singleton, forall_eq, Demand.Met]
      omega
  · refine kept_set (Function.update_self ..) ⟨hsd, hin, hout, .inl rfl⟩ rfl rfl ?_
    simp [ClientPc.demands, Demand.Met]
  · have hunset := hmet .fdUnset (by decide)
    split
    · refine kept_set rfl h.slot rfl rfl ?_
      simpa [ClientPc.demands, Demand.Met] using hunset
    · next hnone =>
      refine kept_set rfl h.slot rfl rfl ?_
      simpa [ClientPc.demands, Demand.Met, hnone] using hunset
  · have hunset := hmet .fdUnset (by decide)
    refine kept_set (Function.update_self ..) ⟨hsd, by simp, hout, hfd⟩ rfl rfl ?_
    simpa [ClientPc.demands, Demand.Met] using hunset
  · have hunset := hmet .fdUnset (by decide)
    have hnoin := hmet .inputUnset (by decide)
    split
    · refine kept_set rfl h.slot rfl rfl ?_
      simpa [ClientPc.demands, Demand.Met] using ⟨hunset, hnoin⟩
    · next hnone =>
      refine kept_set rfl h.slot rfl rfl ?_
      simpa [ClientPc.demands, Demand.Met, hnone] using ⟨hunset, hnoin⟩
  · have hunset := hmet .fdUnset (by decide)
    have hnoin := hmet .inputUnset (by decide)
    refine kept_set (Function.update_self ..) ⟨hsd, hin, by simp, hfd⟩ rfl rfl ?_
    simpa [ClientPc.demands, Demand.Met] using ⟨hunset, hnoin⟩
  · rw [if_pos hsd]
    exact kept_set rfl h.slot rfl rfl hmet

/-- Its own slot after a step of the thread: still its own, or released and bare. -/
theorem clientStep_own (h : OwnSlot s t) (howns : t.pc.owns = true) :
    Kept s t (clientStep t outcome s) ∨
      (clientStep t outcome s).2.pc.owns = false ∧
        ((clientStep t outcome s).1.clients t.client).clientSd = -1 ∧
        ((clientStep t outcome s).1.clients t.client).Bare := by
  cases hpc : t.pc with
  | openInput | openOutput | openFileno =>
    have hstep : clientStep t outcome s = openStreamsStep t outcome s := by rw [clientStep, hpc]
    rw [hstep]
    exact .inl (openStreamsStep_own h (by simp [hpc]))
  | getCode | testConfigMode | setOutput | setInput | reporting =>
    have hstep : clientStep t outcome s = dispatchStep t outcome s := by rw [clientStep, hpc]
    rw [hstep]
    exact .inl (dispatchStep_own h (by simp [hpc]))
  | testLoop | waiting | resetInput | resetOutput | clearConfigMode =>
    have hstep : clientStep t outcome s = configLoopStep t outcome s := by rw [clientStep, hpc]
    rw [hstep]
    exact .inl (configLoopStep_own h (by simp [hpc]))
  | unsetSd =>
    have hmet := h.met
    rw [hpc] at hmet
    simp only [clientStep, disconnectStep, hpc]
    refine .inr ⟨rfl, ?_, ?_⟩
    · rw [Server.setClient_self]
    · rw [Server.setClient_self]
      exact ⟨hmet .inputUnset (by decide), hmet .outputUnset (by decide), hmet .fdUnset (by decide)⟩
  | uncount | reloading | exited => simp [hpc, ClientPc.owns] at howns
  | _ =>
    have hstep : clientStep t outcome s = disconnectStep t s := by rw [clientStep, hpc]
    rw [hstep]
    exact .inl (disconnectStep_own h (by simp [hpc]))

/-- Streams of other connections stay open. -/
theorem clientStep_openStreams (h : t.pc.owns = true → OwnSlot s t) {conn : Nat}
    (hne : conn ≠ t.conn) {f : Stream} (hf : f ∈ s.openStreams)
    (hconn : ∃ fd, f = .input conn fd ∨ f = .output conn fd) :
    f ∈ (clientStep t outcome s).1.openStreams := by
  have hother : ∀ fd, f ≠ .input t.conn fd ∧ f ≠ .output t.conn fd := by
    intro fd
    obtain ⟨fd', rfl | rfl⟩ := hconn <;> simp [hne]
  cases hpc : t.pc <;> rw [hpc] at h <;>
    simp only [clientStep, openStreamsStep, dispatchStep, configLoopStep, disconnectStep, hpc] <;>
    repeat' split
  all_goals first
    | exact hf
    | exact List.mem_cons_of_mem _ hf
    | skip
  · next g hg =>
    have hown := (h rfl).slot.input g hg
    refine List.mem_filter.mpr ⟨hf, ?_⟩
    rw [decide_eq_true_eq, hown]
    exact (hother _).1
  · next g hg =>
    have hown := (h rfl).slot.output g hg
    refine List.mem_filter.mpr ⟨hf, ?_⟩
    rw [decide_eq_true_eq, hown]
    exact (hother _).2

/-- The counter changes in one step only. -/
theorem clientStep_counter :
    t.pc = .uncount ∧ (clientStep t outcome s).2.pc.counts = false ∧
        (clientStep t outcome s).1.clientsCnt = s.clientsCnt - 1 ∧
        (clientStep t outcome s).1.uncounted = s.uncounted ++ [t.conn] ∨
      (clientStep t outcome s).2.pc.counts = t.pc.counts ∧
        (clientStep t outcome s).1.clientsCnt = s.clientsCnt ∧
        (clientStep t outcome s).1.uncounted = s.uncounted := by
  by_cases huncount : t.pc = .uncount
  · refine .inl ⟨huncount, ?_⟩
    simp only [clientStep, disconnectStep, huncount]
    cases t.reloads <;> exact ⟨rfl, rfl, rfl⟩
  · refine .inr ?_
    cases hpc : t.pc <;>
      simp only [clientStep, openStreamsStep, dispatchStep, configLoopStep, disconnectStep, hpc] <;>
      repeat' split
    all_goals first
      | exact ⟨rfl, rfl, rfl⟩
      | exact ⟨rfl, trivial, trivial⟩
      | simp [hpc] at huncount ⊢

/-- A step closes nothing, or the number of the connection. -/
theorem clientStep_descriptors (h : t.pc.owns = true → OwnSlot s t) :
    (clientStep t outcome s).2.pc.closes = t.pc.closes ∧
        (clientStep t outcome s).1.descriptors = s.descriptors ∧
        (clientStep t outcome s).1.closes = s.closes ∨
      t.pc.closes = true ∧
        (clientStep t outcome s).1.descriptors =
          Function.update s.descriptors (s.clients t.client).clientSd none ∧
        (clientStep t outcome s).1.closes = s.closes ++
          [⟨t.conn, (s.clients t.client).clientSd, s.descriptors (s.clients t.client).clientSd⟩] := by
  cases hpc : t.pc <;> rw [hpc] at h <;>
    simp only [clientStep, openStreamsStep, dispatchStep, configLoopStep, disconnectStep, hpc] <;>
    repeat' split
  all_goals first
    | exact .inl ⟨rfl, rfl, rfl⟩
    | exact .inl ⟨rfl, trivial, trivial⟩
    | exact .inl ⟨trivial, trivial, trivial⟩
    | skip
  · next hfd =>
    rw [(h rfl).slot.inputFd.resolve_left (by omega)]
    exact .inr ⟨rfl, rfl, rfl⟩
  · next f hf =>
    rw [(h rfl).slot.input f hf]
    exact .inr ⟨rfl, rfl, rfl⟩
  · next f hf =>
    rw [(h rfl).slot.output f hf]
    exact .inr ⟨rfl, rfl, rfl⟩
  · exact .inr ⟨rfl, rfl, rfl⟩
  · next hsd => exact absurd (h rfl).slot.sd hsd

end client

/-- The slot of a thread when only its marks have changed and its streams are open. -/
theorem OwnSlot.frame {s s' : Server} {t : ClientThread} (h : OwnSlot s t)
    (hslot : ∃ connected id, s'.clients t.client =
      { s.clients t.client with clientConnected := connected, clientId := id })
    (hstreams : ∀ f ∈ s.openStreams, (∃ fd, f = .input t.conn fd ∨ f = .output t.conn fd) →
      f ∈ s'.openStreams) : OwnSlot s' t := by
  obtain ⟨connected, id, hslot⟩ := hslot
  constructor
  · rw [hslot]
    exact ⟨h.slot.sd, h.slot.input, h.slot.output, h.slot.inputFd⟩
  · intro q hq
    have hmet := h.met q hq
    rw [hslot]
    cases q with
    | inputOpen =>
      obtain ⟨f, hf, heq⟩ := hmet
      exact ⟨f, hstreams f hf ⟨_, .inl (h.slot.input f heq)⟩, heq⟩
    | outputOpen =>
      obtain ⟨f, hf, heq⟩ := hmet
      exact ⟨f, hstreams f hf ⟨_, .inr (h.slot.output f heq)⟩, heq⟩
    | fdUnset => exact hmet
    | inputUnset => exact hmet
    | outputUnset => exact hmet

/-- What a step of a thread does, for the invariants. -/
structure Effect (s : Server) (t : ClientThread) (s' : Server) (t' : ClientThread) : Prop where
  client : t'.client = t.client
  conn : t'.conn = t.conn
  other : ∀ x, (t.pc.owns = true → x ≠ t.client) → s'.clients x = s.clients x
  openStreams : ∀ conn, conn ≠ t.conn → ∀ f ∈ s.openStreams,
    (∃ fd, f = .input conn fd ∨ f = .output conn fd) → f ∈ s'.openStreams
  released : t.pc.owns = false → t'.pc.owns = false
  own : t.pc.owns = true → Kept s t (s', t') ∨ t'.pc.owns = false ∧
    (s'.clients t.client).clientSd = -1 ∧ (s'.clients t.client).Bare
  counter : t.pc = .uncount ∧ t'.pc.counts = false ∧ s'.clientsCnt = s.clientsCnt - 1 ∧
      s'.uncounted = s.uncounted ++ [t.conn] ∨
    t'.pc.counts = t.pc.counts ∧ s'.clientsCnt = s.clientsCnt ∧ s'.uncounted = s.uncounted

theorem clientStep_effect {s : Server} {t : ClientThread} (h : t.pc.owns = true → OwnSlot s t)
    (outcome : Outcome) :
    Effect s t (clientStep t outcome s).1 (clientStep t outcome s).2 where
  client := clientStep_thread.1
  conn := clientStep_thread.2
  other := by
    intro x hx
    cases howns : t.pc.owns with
    | true => exact clientStep_other (hx howns)
    | false => rw [(clientStep_released howns).2.1]
  openStreams := fun _ hne _ hf hconn => clientStep_openStreams h hne hf hconn
  released := fun howns => (clientStep_released howns).1
  own := fun howns => clientStep_own (h howns) howns
  counter := clientStep_counter

end NemeaSupervisor
