import NemeaSupervisor.ConfigMode
import NemeaSupervisor.Connections
import NemeaSupervisor.Progress

/-!
# The daemon stops

From outside or by a client's third stop request without a pause the daemon is told to
terminate. From then on every step of a thread takes it closer to its end, whatever its
client does, and so does every step of the server routine. When all have come to their end,
nothing that belonged to a client is left, and the slots can be freed.
-/

namespace NemeaSupervisor

/-! ## Three requests without a pause -/

/-- The thread waits for a request. -/
def Awaits (i : Nat) (d : Daemon) : Prop :=
  d.freed = false ∧ ∃ t, d.threads[i]? = some t ∧ t.pc = .waiting

/-- The step is not a pause of the client that makes the thread forget the requests to stop. -/
def NoPause (i : Nat) (d : Daemon) (a : DaemonAction) : Prop :=
  a = .client i .timeout → ¬ Awaits i d

/-- A run from `d0` in which the client of a thread has at last asked so many times to stop,
without a pause in between. Its other requests do not count, and do not clear the count. -/
inductive StopRequests (d0 : Daemon) (i : Nat) : Nat → List DaemonAction → Prop
  | none (as : List DaemonAction) : StopRequests d0 i 0 as
  | more {n : Nat} {as bs : List DaemonAction} (before : StopRequests d0 i n as)
      (awaits : Awaits i (Run.run daemonStep d0 as))
      (pauses : Run.Along daemonStep (NoPause i)
        (Run.run daemonStep d0 (as ++ [.client i (.request 0)])) bs) :
      StopRequests d0 i (n + 1) (as ++ .client i (.request 0) :: bs)

section request

variable {d0 : Daemon} {i n : Nat} {as : List DaemonAction} {a : DaemonAction}

theorem StopRequests.concat (h : StopRequests d0 i n as)
    (ha : NoPause i (Run.run daemonStep d0 as) a) : StopRequests d0 i n (as ++ [a]) := by
  cases h with
  | none => exact .none _
  | @more n as bs before awaits pauses =>
    rw [List.append_assoc, List.cons_append]
    refine .more before awaits (Run.along_concat pauses ?_)
    rwa [List.append_cons, Run.run_append] at ha

theorem StopRequests.request (h : StopRequests d0 i n as)
    (hawaits : Awaits i (Run.run daemonStep d0 as)) :
    StopRequests d0 i (n + 1) (as ++ [.client i (.request 0)]) :=
  .more h hawaits trivial

end request

section step

variable {t : ClientThread} {outcome : Outcome} {s : Server}

/-- What a step does to the count of a thread and to the flag. -/
theorem clientStep_nineCnt :
    t.pc = .waiting ∧ outcome = .request 0 ∧
        (clientStep t outcome s).2.nineCnt = t.nineCnt + 1 ∧
        (clientStep t outcome s).1.daemonTerminated =
          (s.daemonTerminated || decide (t.nineCnt + 1 = 3)) ∨
      (clientStep t outcome s).1.daemonTerminated = s.daemonTerminated ∧
        ((clientStep t outcome s).2.nineCnt = 0 ∨
          (clientStep t outcome s).2.nineCnt = t.nineCnt ∧
            ¬ (t.pc = .waiting ∧ outcome = .timeout)) := by
  cases hpc : t.pc with
  | waiting =>
    cases outcome with
    | request request =>
      by_cases hzero : request = 0
      · subst hzero
        exact .inl ⟨rfl, rfl, by simp [clientStep, configLoopStep, hpc],
          by simp [clientStep, configLoopStep, hpc]⟩
      · exact .inr (by simp [clientStep, configLoopStep, hpc, hzero, ClientThread.goto])
    | _ => exact .inr (by simp [clientStep, configLoopStep, hpc, ClientThread.goto])
  | _ =>
    refine .inr ?_
    simp only [clientStep, openStreamsStep, dispatchStep, configLoopStep, disconnectStep, hpc]
    repeat' split
    all_goals simp [ClientThread.goto, Server.setClient, Server.closeFor, Server.close,
      Server.fcloseFor, Server.uncount]

end step

section daemon

variable {d : Daemon} {a : DaemonAction}

@[simp] theorem acceptorStep_terminated (created : Bool) (d : Daemon) :
    (acceptorStep created d).server.daemonTerminated = d.server.daemonTerminated := by
  cases hacc : d.acceptor <;> simp only [acceptorStep, hacc] <;> repeat' split
  all_goals rfl

/-- What happens around the server routine and the threads. -/
def DaemonAction.isOuter : DaemonAction → Bool
  | .acceptor _ | .client .. | .terminate => false
  | _ => true

theorem daemonStep_outer (ha : a.isOuter = true) :
    (daemonStep d a).threads = d.threads ∧
      (daemonStep d a).server.daemonTerminated = d.server.daemonTerminated := by
  cases a with
  | acceptor | client | terminate => cases ha
  | _ =>
    simp only [daemonStep]
    split <;> exact ⟨rfl, rfl⟩

/-- A thread is not there or does not move, or it takes its step. -/
theorem daemonStep_client (d : Daemon) (i : Nat) (outcome : Outcome) :
    (¬ Awaits i d ∧ daemonStep d (.client i outcome) = d) ∨
      ∃ t, d.threads[i]? = some t ∧ (d.freed = true → t.pc.untouched = true) ∧
        daemonStep d (.client i outcome) =
          { d with
            server := (clientStep t outcome d.server).1
            threads := d.threads.set i (clientStep t outcome d.server).2 } := by
  cases hi : d.threads[i]? with
  | none =>
    refine .inl ⟨?_, by simp [daemonStep, hi]⟩
    rintro ⟨-, t, ht, -⟩
    rw [hi] at ht
    cases ht
  | some t =>
    by_cases hblocked : d.freed = true ∧ t.pc.untouched = false
    · refine .inl ⟨fun hawaits => ?_, by simp [daemonStep, hi, hblocked]⟩
      rw [hawaits.1] at hblocked
      cases hblocked.1
    · refine .inr ⟨t, rfl, fun hfreed => ?_, ?_⟩
      · simpa [hfreed] using hblocked
      · simp only [daemonStep, hi]
        rw [if_neg hblocked]

end daemon

/-- The counts of the threads, and what the daemon has been told. -/
structure RequestInv (d0 : Daemon) (as : List DaemonAction) : Prop where
  counts : ∀ i t, (Run.run daemonStep d0 as).threads[i]? = some t →
    StopRequests d0 i t.nineCnt as
  told : (Run.run daemonStep d0 as).server.daemonTerminated = true → .terminate ∈ as ∨
    ∃ i bs, bs <+: as ∧ StopRequests d0 i 3 bs

section run

variable {d0 : Daemon} {as : List DaemonAction}

theorem RequestInv.still_told (h : RequestInv d0 as) (a : DaemonAction)
    (hterm : (Run.run daemonStep d0 as).server.daemonTerminated = true) :
    .terminate ∈ as ++ [a] ∨ ∃ i bs, bs <+: as ++ [a] ∧ StopRequests d0 i 3 bs :=
  (h.told hterm).imp (List.mem_append_left _)
    fun ⟨i, bs, hbs, hstop⟩ => ⟨i, bs, hbs.trans (List.prefix_append ..), hstop⟩

/-- A step that counts no request and is no pause. -/
theorem RequestInv.quiet (h : RequestInv d0 as) {a : DaemonAction}
    (hpause : ∀ i, a ≠ .client i .timeout)
    (hthreads : ∀ (i : Nat) (t : ClientThread),
      (daemonStep (Run.run daemonStep d0 as) a).threads[i]? = some t →
      (Run.run daemonStep d0 as).threads[i]? = some t ∨ t.nineCnt = 0)
    (htold : (daemonStep (Run.run daemonStep d0 as) a).server.daemonTerminated = true →
      a = .terminate ∨ (Run.run daemonStep d0 as).server.daemonTerminated = true) :
    RequestInv d0 (as ++ [a]) := by
  constructor
  · intro i t ht
    rw [Run.run_concat] at ht
    rcases hthreads i t ht with hold | hzero
    · exact (h.counts i t hold).concat fun heq => absurd heq (hpause i)
    · rw [hzero]
      exact .none _
  · intro hterm
    rw [Run.run_concat] at hterm
    rcases htold hterm with rfl | hold
    · exact .inl (by simp)
    · exact h.still_told a hold

theorem RequestInv.outer (h : RequestInv d0 as) {a : DaemonAction} (ha : a.isOuter = true) :
    RequestInv d0 (as ++ [a]) := by
  obtain ⟨hthreads, hterm⟩ := @daemonStep_outer (Run.run daemonStep d0 as) a ha
  refine h.quiet (fun i heq => ?_) (fun _ _ ht => .inl (hthreads ▸ ht)) fun ht => .inr (hterm ▸ ht)
  rw [heq] at ha
  cases ha

/-- A step of a thread: one more request, or the count is kept or forgotten. -/
theorem RequestInv.client (h : RequestInv d0 as) {i : Nat} {t : ClientThread} {outcome : Outcome}
    (hi : (Run.run daemonStep d0 as).threads[i]? = some t)
    (hfreed : (Run.run daemonStep d0 as).freed = true → t.pc.untouched = true)
    (hstep : daemonStep (Run.run daemonStep d0 as) (.client i outcome) =
      { Run.run daemonStep d0 as with
        server := (clientStep t outcome (Run.run daemonStep d0 as).server).1
        threads := (Run.run daemonStep d0 as).threads.set i
          (clientStep t outcome (Run.run daemonStep d0 as).server).2 }) :
    RequestInv d0 (as ++ [.client i outcome]) := by
  have hcount := h.counts i t hi
  have hother : ∀ j u, j ≠ i → (Run.run daemonStep d0 as).threads[j]? = some u →
      StopRequests d0 j u.nineCnt (as ++ [.client i outcome]) := fun j u hji hj =>
    (h.counts j u hj).concat fun heq => absurd (DaemonAction.client.inj heq).1.symm hji
  obtain ⟨hlt, -⟩ := List.getElem?_eq_some_iff.mp hi
  have hthreads : ∀ j u, (Run.run daemonStep d0 (as ++ [.client i outcome])).threads[j]? = some u →
      j = i ∧ u = (clientStep t outcome (Run.run daemonStep d0 as).server).2 ∨
        j ≠ i ∧ (Run.run daemonStep d0 as).threads[j]? = some u := by
    intro j u hu
    rw [Run.run_concat, hstep] at hu
    by_cases hji : j = i
    · subst hji
      rw [List.getElem?_set_self hlt] at hu
      exact .inl ⟨rfl, (Option.some.inj hu).symm⟩
    · rw [List.getElem?_set_ne (Ne.symm hji)] at hu
      exact .inr ⟨hji, hu⟩
  rcases @clientStep_nineCnt t outcome (Run.run daemonStep d0 as).server with
    ⟨hpc, rfl, hnine, hterm⟩ | ⟨hterm, hnine⟩
  · have hnot : (Run.run daemonStep d0 as).freed = false := by
      by_contra htrue
      have := hfreed (by simpa using htrue)
      rw [hpc] at this
      cases this
    have hmore := hcount.request ⟨hnot, t, hi, hpc⟩
    constructor
    · intro j u hu
      rcases hthreads j u hu with ⟨rfl, rfl⟩ | ⟨hji, hj⟩
      · rwa [hnine]
      · exact hother j u hji hj
    · intro htold
      rw [Run.run_concat, hstep] at htold
      change (clientStep t _ _).1.daemonTerminated = true at htold
      rw [hterm, Bool.or_eq_true, decide_eq_true_eq] at htold
      rcases htold with hold | hthree
      · exact h.still_told _ hold
      · exact .inr ⟨i, _, List.prefix_refl _, hthree ▸ hmore⟩
  · constructor
    · intro j u hu
      rcases hthreads j u hu with ⟨rfl, rfl⟩ | ⟨hji, hj⟩
      · rcases hnine with hzero | ⟨hsame, hpause⟩
        · rw [hzero]
          exact .none _
        · rw [hsame]
          refine hcount.concat fun heq => ?_
          rintro ⟨-, t', ht', hpc⟩
          rw [hi] at ht'
          cases ht'
          exact hpause ⟨hpc, (DaemonAction.client.inj heq).2⟩
      · exact hother j u hji hj
    · intro htold
      rw [Run.run_concat, hstep] at htold
      exact h.still_told _ (hterm ▸ htold)

theorem RequestInv.step (h : RequestInv d0 as) (a : DaemonAction) : RequestInv d0 (as ++ [a]) := by
  cases a with
  | acceptor created =>
    refine h.quiet (by simp) ?_ ?_ <;> simp only [daemonStep] <;> split
    · exact fun _ _ => .inl
    · intro i t ht
      rcases (@acceptorStep_frame (Run.run daemonStep d0 as) created).1 with heq | ⟨x, conn, heq⟩
      · exact .inl (heq ▸ ht)
      · rw [heq, List.getElem?_append] at ht
        split_ifs at ht
        · exact .inl ht
        · refine .inr ?_
          rw [List.mem_singleton.mp (List.mem_of_getElem? ht)]
    · exact .inr
    · rw [acceptorStep_terminated]
      exact .inr
  | client i outcome =>
    rcases daemonStep_client (Run.run daemonStep d0 as) i outcome with
      ⟨hidle, hstep⟩ | ⟨t, hi, hfreed, hstep⟩
    · constructor
      · intro j t ht
        rw [Run.run_concat, hstep] at ht
        refine (h.counts j t ht).concat fun heq hawaits => hidle ?_
        rwa [(DaemonAction.client.inj heq).1]
      · intro hterm
        rw [Run.run_concat, hstep] at hterm
        exact h.still_told _ hterm
    · exact h.client hi hfreed hstep
  | terminate => exact h.quiet (by simp) (fun _ _ => .inl) fun _ => .inl rfl
  | accept | selectFails | free | openOther | closeOther => exact h.outer rfl

theorem requestInv_run (held : Int → Bool) (as : List DaemonAction) :
    RequestInv (.init held) as := by
  induction as using List.reverseRecOn with
  | nil => exact ⟨fun i t ht => by simp [Daemon.init] at ht, fun hterm => by cases hterm⟩
  | append_singleton as a ih => exact ih.step a

end run

/-- How many steps a thread has left at most once the daemon terminates. -/
def ClientPc.stepsLeft : ClientPc → Nat
  | openInput => 23
  | openOutput => 22
  | openFileno => 21
  | getCode => 20
  | testConfigMode => 19
  | setOutput => 18
  | setInput => 17
  | waiting => 16
  | testLoop => 15
  | resetInput => 14
  | resetOutput => 13
  | clearConfigMode => 12
  | reporting => 12
  | disconnect => 11
  | closeInputFd => 10
  | unsetInputFd => 9
  | fcloseInput => 8
  | unsetInput => 7
  | fcloseOutput => 6
  | unsetOutput => 5
  | closeSd => 4
  | unsetSd => 3
  | uncount => 2
  | reloading => 1
  | exited => 0

/-- The same for the server routine, where the search for a slot counts by the slot. -/
def AcceptorPc.stepsLeft : AcceptorPc → Nat
  | selecting => 16
  | testing .. => 15
  | scanning _ _ x => 9 + (maxNumberSupClients - x)
  | claimed .. => 8
  | filled .. => 7
  | creating .. => 6
  | unservedClose .. => 5
  | unservedUnset .. => 4
  | unservedDisconnect .. => 3
  | unservedUncount .. => 2
  | rejecting .. => 2
  | listening => 1
  | returned => 0

section stepsLeft

variable {t : ClientThread} {outcome : Outcome} {s : Server}

theorem ClientPc.stepsLeft_eq_zero {pc : ClientPc} : pc.stepsLeft = 0 ↔ pc = .exited := by
  cases pc <;> simp [stepsLeft]

theorem AcceptorPc.stepsLeft_eq_zero {pc : AcceptorPc} : pc.stepsLeft = 0 ↔ pc = .returned := by
  cases pc <;> simp [stepsLeft]

theorem clientStep_exited (h : t.pc = .exited) : clientStep t outcome s = (s, t) := by
  simp [clientStep, disconnectStep, h]

theorem clientStep_terminated (h : s.daemonTerminated = true) :
    (clientStep t outcome s).1.daemonTerminated = true := by
  rcases @clientStep_nineCnt t outcome s with ⟨-, -, -, hterm⟩ | ⟨hterm, -⟩
  · rw [hterm, h, Bool.true_or]
  · rw [hterm, h]

/-- Once the daemon terminates, no answer of the client takes the thread back. -/
theorem clientStep_stepsLeft (h : s.daemonTerminated = true) (hpc : t.pc ≠ .exited) :
    (clientStep t outcome s).2.pc.stepsLeft < t.pc.stepsLeft := by
  cases ht : t.pc with
  | exited => exact absurd ht hpc
  | testLoop => simp [clientStep, configLoopStep, ht, h, ClientThread.goto, ClientPc.stepsLeft]
  | _ =>
    simp only [clientStep, openStreamsStep, dispatchStep, configLoopStep, disconnectStep, ht,
      ClientThread.goto]
    repeat' split
    all_goals simp [ClientPc.stepsLeft]

theorem acceptorStep_stepsLeft {d : Daemon} (h : d.server.daemonTerminated = true)
    (hpc : d.acceptor ≠ .returned) (created : Bool) :
    (acceptorStep created d).acceptor.stepsLeft < d.acceptor.stepsLeft := by
  cases hacc : d.acceptor with
  | returned => exact absurd hacc hpc
  | listening => simp [acceptorStep, hacc, h, AcceptorPc.stepsLeft]
  | scanning conn newClient x =>
    simp only [acceptorStep, hacc]
    repeat' split
    all_goals
      simp only [AcceptorPc.stepsLeft]
      omega
  | _ =>
    simp only [acceptorStep, hacc]
    repeat' split
    all_goals simp [AcceptorPc.stepsLeft, maxNumberSupClients]

end stepsLeft

/-- The daemon has been told to terminate, and its slots are there. -/
structure Terminating (d : Daemon) : Prop where
  told : d.server.daemonTerminated = true
  slots : d.freed = false

/-- The steps before the slots are freed. -/
def BeforeFree (_ : Daemon) (a : DaemonAction) : Prop := a ≠ .free

instance (d : Daemon) (a : DaemonAction) : Decidable (BeforeFree d a) :=
  inferInstanceAs (Decidable (a ≠ .free))

def DaemonAction.isAcceptor : DaemonAction → Bool
  | .acceptor _ => true
  | _ => false

def DaemonAction.isClient (i : Nat) : DaemonAction → Bool
  | .client j _ => i = j
  | _ => false

/-- What a thread has left. -/
def Daemon.clientLeft (d : Daemon) (i : Nat) : Nat :=
  (d.threads[i]?.map fun t => t.pc.stepsLeft).getD 0

section terminating

variable {d : Daemon} {a : DaemonAction} {as : List DaemonAction}

theorem daemonStep_acceptor (h : Terminating d) (created : Bool) :
    daemonStep d (.acceptor created) = acceptorStep created d := by
  simp [daemonStep, h.slots]

/-- A thread of a terminating daemon takes its step. -/
theorem daemonStep_thread (h : Terminating d) {i : Nat} {t : ClientThread}
    (hi : d.threads[i]? = some t) (outcome : Outcome) : daemonStep d (.client i outcome) =
      { d with
        server := (clientStep t outcome d.server).1
        threads := d.threads.set i (clientStep t outcome d.server).2 } := by
  simp [daemonStep, hi, h.slots]

theorem acceptorStep_freed (created : Bool) (d : Daemon) :
    (acceptorStep created d).freed = d.freed := by
  cases hacc : d.acceptor <;> simp only [acceptorStep, hacc] <;> repeat' split
  all_goals rfl

theorem Terminating.step (h : Terminating d) (ha : BeforeFree d a) :
    Terminating (daemonStep d a) := by
  cases a with
  | acceptor created =>
    rw [daemonStep_acceptor h]
    exact ⟨(acceptorStep_terminated created d).trans h.told,
      (acceptorStep_freed created d).trans h.slots⟩
  | client i outcome =>
    rcases daemonStep_client d i outcome with ⟨-, hstep⟩ | ⟨t, -, -, hstep⟩
    · rwa [hstep]
    · rw [hstep]
      exact ⟨clientStep_terminated h.told, h.slots⟩
  | terminate => exact ⟨rfl, h.slots⟩
  | free => exact absurd rfl ha
  | _ =>
    simp only [daemonStep]
    split <;> exact ⟨h.told, h.slots⟩

/-- The server routine is moved by its own steps and by what it waits for. -/
theorem acceptor_stepsLeft (h : Terminating d) :
    (daemonStep d a).acceptor.stepsLeft ≤ d.acceptor.stepsLeft ∧
      (a.isAcceptor = true → d.acceptor.stepsLeft ≠ 0 →
        (daemonStep d a).acceptor.stepsLeft < d.acceptor.stepsLeft) := by
  cases a with
  | acceptor created =>
    rw [daemonStep_acceptor h]
    by_cases hreturned : d.acceptor = .returned
    · have hsame : acceptorStep created d = d := by simp [acceptorStep, hreturned]
      rw [hsame]
      exact ⟨Nat.le_refl _, fun _ hzero => absurd (AcceptorPc.stepsLeft_eq_zero.mpr hreturned) hzero⟩
    · have := acceptorStep_stepsLeft h.told hreturned created
      exact ⟨by omega, fun _ _ => this⟩
  | client i outcome =>
    refine ⟨?_, fun hc => by cases hc⟩
    rcases daemonStep_client d i outcome with ⟨-, hstep⟩ | ⟨t, -, -, hstep⟩ <;> rw [hstep]
  | accept newClient =>
    refine ⟨?_, fun hc => by cases hc⟩
    simp only [daemonStep]
    split
    · next hacc =>
      rw [hacc.1]
      exact Nat.le_succ 15
    · exact Nat.le_refl _
  | selectFails =>
    refine ⟨?_, fun hc => by cases hc⟩
    simp only [daemonStep]
    split
    · exact Nat.zero_le _
    · exact Nat.le_refl _
  | terminate => exact ⟨Nat.le_refl _, fun hc => by cases hc⟩
  | _ =>
    refine ⟨?_, fun hc => by cases hc⟩
    simp only [daemonStep]
    split <;> exact Nat.le_refl _

/-- Once the server routine has returned, there are no new threads. -/
structure Winding (n : Nat) (d : Daemon) : Prop where
  terminating : Terminating d
  returned : d.acceptor = .returned
  threads : d.threads.length = n

theorem Winding.step {n : Nat} (h : Winding n d) (ha : BeforeFree d a) :
    Winding n (daemonStep d a) := by
  refine ⟨h.terminating.step ha, ?_, ?_⟩
  · have hleft := (@acceptor_stepsLeft d a h.terminating).1
    rw [AcceptorPc.stepsLeft_eq_zero.mpr h.returned] at hleft
    exact AcceptorPc.stepsLeft_eq_zero.mp (Nat.le_zero.mp hleft)
  · rw [← h.threads]
    cases a with
    | acceptor created =>
      rw [daemonStep_acceptor h.terminating]
      simp [acceptorStep, h.returned]
    | client i outcome =>
      rcases daemonStep_client d i outcome with ⟨-, hstep⟩ | ⟨t, -, -, hstep⟩ <;> rw [hstep]
      exact List.length_set
    | terminate => rfl
    | _ => rw [(daemonStep_outer rfl).1]

/-- A thread is moved by its own steps alone. -/
theorem client_stepsLeft {n : Nat} (h : Winding n d) (i : Nat) :
    (daemonStep d a).clientLeft i ≤ d.clientLeft i ∧
      (a.isClient i = true → d.clientLeft i ≠ 0 →
        (daemonStep d a).clientLeft i < d.clientLeft i) := by
  unfold Daemon.clientLeft
  cases a with
  | acceptor created =>
    rw [daemonStep_acceptor h.terminating]
    have hsame : acceptorStep created d = d := by simp [acceptorStep, h.returned]
    rw [hsame]
    exact ⟨Nat.le_refl _, fun hc => by cases hc⟩
  | client j outcome =>
    cases hj : d.threads[j]? with
    | none =>
      have hsame : daemonStep d (.client j outcome) = d := by simp [daemonStep, hj]
      rw [hsame]
      refine ⟨Nat.le_refl _, fun hc hleft => ?_⟩
      have hij : i = j := of_decide_eq_true hc
      rw [hij, hj] at hleft
      exact absurd rfl hleft
    | some t =>
      rw [daemonStep_thread h.terminating hj]
      obtain ⟨hlt, -⟩ := List.getElem?_eq_some_iff.mp hj
      by_cases hij : i = j
      · subst hij
        rw [List.getElem?_set_self hlt, hj]
        simp only [Option.map_some, Option.getD_some]
        by_cases hexited : t.pc = .exited
        · rw [clientStep_exited hexited]
          exact ⟨Nat.le_refl _, fun _ hleft =>
            absurd (ClientPc.stepsLeft_eq_zero.mpr hexited) hleft⟩
        · have := @clientStep_stepsLeft t outcome d.server h.terminating.told hexited
          exact ⟨by omega, fun _ _ => this⟩
      · rw [List.getElem?_set_ne (Ne.symm hij)]
        exact ⟨Nat.le_refl _, fun hc => absurd (of_decide_eq_true hc) hij⟩
  | terminate => exact ⟨Nat.le_refl _, fun hc => by cases hc⟩
  | _ =>
    rw [(daemonStep_outer rfl).1]
    exact ⟨Nat.le_refl _, fun hc => by cases hc⟩

theorem acceptor_returns (h : Terminating d) (has : Run.Along daemonStep BeforeFree d as)
    (henough : 16 ≤ as.countP DaemonAction.isAcceptor) :
    Terminating (Run.run daemonStep d as) ∧ (Run.run daemonStep d as).acceptor = .returned := by
  have hleft : d.acceptor.stepsLeft ≤ 16 := by
    cases d.acceptor <;> simp only [AcceptorPc.stepsLeft, maxNumberSupClients] <;> omega
  have hend := @Run.rank_of_rounds _ _ daemonStep BeforeFree DaemonAction.isAcceptor Terminating
    (fun d => d.acceptor.stepsLeft)
    (fun _ _ ht ha => ⟨ht.step ha, (acceptor_stepsLeft ht).1⟩)
    (fun _ _ ht _ hround hzero => (acceptor_stepsLeft ht).2 hround hzero) d as h has (by omega)
  exact ⟨hend.1, AcceptorPc.stepsLeft_eq_zero.mp hend.2⟩

theorem client_exits {n : Nat} (h : Winding n d) (has : Run.Along daemonStep BeforeFree d as)
    {i : Nat} (henough : 23 ≤ as.countP (DaemonAction.isClient i)) :
    Winding n (Run.run daemonStep d as) ∧
      ∀ t, (Run.run daemonStep d as).threads[i]? = some t → t.pc = .exited := by
  have hleft : d.clientLeft i ≤ 23 := by
    unfold Daemon.clientLeft
    cases d.threads[i]? with
    | none => exact Nat.zero_le _
    | some t =>
      simp only [Option.map_some, Option.getD_some]
      cases t.pc <;> simp [ClientPc.stepsLeft]
  have hend := @Run.rank_of_rounds _ _ daemonStep BeforeFree (DaemonAction.isClient i) (Winding n)
    (fun d => d.clientLeft i)
    (fun _ _ hw ha => ⟨hw.step ha, (client_stepsLeft hw i).1⟩)
    (fun _ _ hw _ hround hzero => (client_stepsLeft hw i).2 hround hzero) d as h has (by omega)
  refine ⟨hend.1, fun t ht => ClientPc.stepsLeft_eq_zero.mp ?_⟩
  have hzero := hend.2
  unfold Daemon.clientLeft at hzero
  rwa [ht] at hzero

end terminating

/-! ## Nothing is left -/

/-- The server routine has returned, all threads have exited, and nothing of a client is left:
no slot, no count, no mode, no stream in use and no descriptor. -/
structure ShutDown (d : Daemon) : Prop where
  returned : d.acceptor = .returned
  exited : ∀ t ∈ d.threads, t.pc = .exited
  counter : d.server.clientsCnt = 0
  slots : ∀ x, (d.server.clients x).clientSd = -1 ∧ (d.server.clients x).Bare
  mode : d.server.configModeActive = false
  streams : d.server.inputFd = some .stdin ∧ d.server.outputFd = some .supervisorLogFd
  descriptors : ∀ fd conn, d.server.descriptors fd ≠ some (.connection conn)

/-- What the exited threads and the server routine have left behind. -/
theorem shutDown_of_exited {d : Daemon} (h : DaemonReachable d) (hreturned : d.acceptor = .returned)
    (hexited : ∀ t ∈ d.threads, t.pc = .exited) : ShutDown d := by
  obtain ⟨hslots, -, hclosable⟩ := reachable_inv h
  have hconfig := reachable_configInv h
  have hnone : ∀ p : ClientPc → Bool, p .exited = false →
      d.threads.countP (fun t => p t.pc) = 0 := by
    intro p hp
    refine List.countP_eq_zero.mpr fun t ht => ?_
    rw [hexited t ht, hp]
    exact Bool.false_ne_true
  have hfree : ∀ x, (d.server.clients x).clientSd = -1 := by
    intro x
    by_contra hused
    have husers := hslots.users x
    rw [if_neg hused, Daemon.users, hreturned] at husers
    have hzero : d.threads.countP (fun t => t.pc.owns && decide (t.client = x)) = 0 := by
      refine List.countP_eq_zero.mpr fun t ht => ?_
      rw [hexited t ht]
      exact Bool.false_ne_true
    rw [hzero] at husers
    simp [AcceptorPc.slot] at husers
  refine ⟨hreturned, hexited, ?_, fun x => ⟨hfree x, hslots.bare x (hfree x)⟩, ?_, ⟨?_, ?_⟩, ?_⟩
  · rw [hslots.counter, hnone ClientPc.counts rfl, hreturned]
    rfl
  · have hflag := hconfig.flag
    rw [hnone ClientPc.configures rfl] at hflag
    cases hmode : d.server.configModeActive with
    | false => rfl
    | true =>
      rw [hmode] at hflag
      cases hflag
  · refine hconfig.input.resolve_right fun hheld => ?_
    obtain ⟨t, ht, hholds, -⟩ := hheld
    rw [hexited t ht] at hholds
    cases hholds
  · refine hconfig.output.resolve_right fun hheld => ?_
    obtain ⟨t, ht, hholds, -⟩ := hheld
    rw [hexited t ht] at hholds
    cases hholds
  · intro fd conn hfd
    rcases hclosable conn fd hfd with hheld | ⟨t, ht, hcloses, -⟩
    · simp [Daemon.held, hreturned] at hheld
    · rw [hexited t ht] at hcloses
      cases hcloses

/-- The server routine and all threads have come to their end. -/
structure Ended (d : Daemon) : Prop where
  told : d.server.daemonTerminated = true
  returned : d.acceptor = .returned
  exited : ∀ t ∈ d.threads, t.pc = .exited

section ended

variable {d : Daemon}

/-- Nothing moves any more, whether the slots are still there or not. -/
theorem Ended.step (h : Ended d) (a : DaemonAction) : Ended (daemonStep d a) := by
  cases a with
  | acceptor created =>
    have hsame : daemonStep d (.acceptor created) = d := by
      simp [daemonStep, acceptorStep, h.returned]
    rwa [hsame]
  | client i outcome =>
    rcases daemonStep_client d i outcome with ⟨-, hstep⟩ | ⟨t, hi, -, hstep⟩ <;> rw [hstep]
    · exact h
    · have hexited := h.exited t (List.mem_of_getElem? hi)
      rw [clientStep_exited hexited]
      exact ⟨h.told, h.returned, Pool.forall_set hexited fun j u _ hu =>
        h.exited u (List.mem_of_getElem? hu)⟩
  | accept newClient =>
    have hsame : daemonStep d (.accept newClient) = d := by simp [daemonStep, h.returned]
    rwa [hsame]
  | selectFails =>
    have hsame : daemonStep d .selectFails = d := by simp [daemonStep, h.returned]
    rwa [hsame]
  | terminate => exact ⟨rfl, h.returned, h.exited⟩
  | _ =>
    simp only [daemonStep]
    split <;> exact ⟨h.told, h.returned, h.exited⟩

theorem Ended.run (h : Ended d) (cs : List DaemonAction) : Ended (Run.run daemonStep d cs) :=
  Run.run_invariant (fun _ a hd => hd.step a) h cs

theorem daemonStep_freed (hfreed : d.freed = true) (a : DaemonAction) :
    (daemonStep d a).freed = true := by
  cases a with
  | client i outcome =>
    rcases daemonStep_client d i outcome with ⟨-, hstep⟩ | ⟨t, -, -, hstep⟩ <;> rwa [hstep]
  | acceptor created => simp [daemonStep, hfreed]
  | terminate => exact hfreed
  | _ =>
    simp only [daemonStep]
    split <;> first | rfl | exact hfreed

/-- The clean-up frees the slots whenever its turn comes. -/
theorem Ended.frees (h : Ended d) {cs : List DaemonAction} (hcs : .free ∈ cs) :
    (Run.run daemonStep d cs).freed = true := by
  obtain ⟨bs, cs, rfl⟩ := List.append_of_mem hcs
  rw [Run.run_append, Run.run_cons]
  refine Run.run_invariant (I := fun d : Daemon => d.freed = true)
    (fun _ a hfreed => daemonStep_freed hfreed a) ?_ cs
  simp [daemonStep, (h.run bs).told]

end ended

/-- Told to terminate, the daemon ends by its own steps, in whatever order they come and
whatever the clients do: once the server routine has taken 16 steps and then every thread 23,
if the clean-up has not given up its wait for the clients by then. From there on the slots
can be freed: nobody uses them. -/
theorem daemon_shuts_down {d : Daemon} (h : DaemonReachable d) (hd : Terminating d)
    (as bs : List DaemonAction) (has : Run.Along daemonStep BeforeFree d (as ++ bs))
    (hacceptor : 16 ≤ as.countP DaemonAction.isAcceptor)
    (hclients : ∀ i < (Run.run daemonStep d as).threads.length,
      23 ≤ bs.countP (DaemonAction.isClient i)) (cs : List DaemonAction) :
    ShutDown (Run.run daemonStep d (as ++ bs ++ cs)) ∧
      (.free ∈ cs → (Run.run daemonStep d (as ++ bs ++ cs)).freed = true) := by
  obtain ⟨hfirst, hsecond⟩ := Run.along_append has
  obtain ⟨hterminating, hreturned⟩ := acceptor_returns hd hfirst hacceptor
  have hwinding : Winding _ (Run.run daemonStep d as) := ⟨hterminating, hreturned, rfl⟩
  have hend := Run.along_invariant (fun _ _ hw ha => Winding.step hw ha) hwinding hsecond
  have hended : Ended (Run.run daemonStep d (as ++ bs)) := by
    rw [Run.run_append]
    refine ⟨hend.terminating.told, hend.returned, fun t ht => ?_⟩
    obtain ⟨i, hi⟩ := List.mem_iff_getElem?.mp ht
    obtain ⟨hlt, -⟩ := List.getElem?_eq_some_iff.mp hi
    rw [hend.threads] at hlt
    exact (client_exits hwinding hsecond (hclients i hlt)).2 t hi
  have hreachable : DaemonReachable (Run.run daemonStep d (as ++ bs ++ cs)) := by
    obtain ⟨held, ds, rfl⟩ := h
    exact ⟨held, ds ++ (as ++ bs ++ cs), (Run.run_append ..).symm⟩
  rw [Run.run_append _ (as ++ bs)] at hreachable ⊢
  have hstays := hended.run cs
  exact ⟨shutDown_of_exited hreachable hstays.returned hstays.exited, hended.frees⟩

/-- One client is in configuration mode when the daemon is told to terminate; the slots are
freed afterwards. -/
theorem daemon_shuts_down_one :
    let d := Run.run daemonStep
      (Run.run daemonStep (.init fun fd => decide (fd ≤ 6)) (entersConfigMode ++ [.terminate]))
      (List.replicate 16 (.acceptor true) ++ List.replicate 23 (.client 0 .timeout) ++ [.free])
    ShutDown d ∧ d.freed = true := by
  have h := daemon_shuts_down (d := Run.run daemonStep (.init fun fd => decide (fd ≤ 6))
      (entersConfigMode ++ [.terminate])) ⟨_, _, rfl⟩ ⟨by decide, by decide⟩
    (List.replicate 16 (.acceptor true)) (List.replicate 23 (.client 0 .timeout)) (by decide)
    (by decide) (by decide) [.free]
  exact ⟨h.1, h.2 (by decide)⟩

end NemeaSupervisor
