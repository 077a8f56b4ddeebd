import NemeaSupervisor.Descriptors

/-!
# What becomes of a connection

A connection that passes the test for the maximal number of clients is placed in a slot
and, if its thread can be created, served by exactly one thread; every other connection
is closed by the server routine. The counter is decremented once for each placed one.
-/

namespace NemeaSupervisor

namespace AcceptorPc

/-- The connection has passed the test. -/
def admits : AcceptorPc → Option Nat
  | scanning conn _ _ | claimed conn _ | filled conn _ | creating conn _ | unservedClose conn _
  | unservedUnset conn _ | unservedDisconnect conn _ | unservedUncount conn _ => some conn
  | _ => none

/-- The connection and the slot it was put in. -/
def places : AcceptorPc → Option (Nat × Fin maxNumberSupClients)
  | claimed conn x | filled conn x | creating conn x | unservedClose conn x
  | unservedUnset conn x | unservedDisconnect conn x | unservedUncount conn x => some (conn, x)
  | _ => none

/-- Between claiming the slot and incrementing the counter. -/
def claiming : AcceptorPc → Bool
  | claimed .. | filled .. => true
  | _ => false

end AcceptorPc

/-- Those that have passed the test, and where they were placed. -/
structure AdmissionInv (d : Daemon) : Prop where
  below : ∀ conn ∈ d.below, conn ∈ d.admitted ∨
    (∃ fd, d.acceptor = .testing conn fd) ∧ d.server.clientsCnt < maxNumberSupClients
  old : ∀ conn ∈ d.admitted, conn < d.accepted
  acceptor : ∀ conn, d.acceptor.conn = some conn →
    (conn ∈ d.admitted ↔ d.acceptor.admits = some conn)
  rejected : ∀ conn ∈ d.rejected, conn ∉ d.admitted
  threads : ∀ t ∈ d.threads, t.conn ∈ d.admitted ∧ (t.conn, t.client) ∈ d.placed
  unserved : ∀ conn ∈ d.unserved, conn ∈ d.admitted ∧ ∃ x, (conn, x) ∈ d.placed
  placing : ∀ p ∈ d.acceptor.places, p ∈ d.placed
  placed : ∀ p ∈ d.placed, p.1 ∈ d.admitted

section steps

variable {d : Daemon}

/-- The server routine goes on without a decision. -/
theorem AdmissionInv.goto (h : AdmissionInv d) {a b : AcceptorPc} (hacc : d.acceptor = b)
    (hb : ∀ conn fd, b ≠ .testing conn fd) (s' : Server) (hconn : a.conn = b.conn)
    (hadmits : a.admits = b.admits) (hplaces : a.places = b.places) :
    AdmissionInv { d with server := s', acceptor := a } := by
  subst hacc
  refine ⟨fun conn hbelow => .inl ?_, h.old, fun conn ha => ?_, h.rejected, h.threads, h.unserved,
    ?_, h.placed⟩
  · rcases h.below conn hbelow with hin | ⟨⟨fd, htesting⟩, -⟩
    · exact hin
    · exact absurd htesting (hb conn fd)
  · rw [hadmits]
    exact h.acceptor conn (hconn ▸ ha)
  · rw [hplaces]
    exact h.placing

theorem AdmissionInv.below_admitted (h : AdmissionInv d)
    (hb : ∀ conn fd, d.acceptor ≠ .testing conn fd) : ∀ conn ∈ d.below, conn ∈ d.admitted := by
  intro conn hbelow
  rcases h.below conn hbelow with hin | ⟨⟨fd, htesting⟩, -⟩
  · exact hin
  · exact absurd htesting (hb conn fd)

/-- The connection that the server routine deals with is nowhere else. -/
theorem SlotInv.conn_alone (h : SlotInv d) {conn : Nat} (hconn : d.acceptor.conn = some conn) :
    conn < d.accepted ∧ conn ∉ d.rejected ∧ conn ∉ d.unserved := by
  have hplaces := h.places conn
  simp only [Daemon.places, hconn, decide_true, Bool.toNat_true] at hplaces
  rw [← List.count_eq_zero, ← List.count_eq_zero]
  split_ifs at hplaces
  exact ⟨by assumption, by omega, by omega⟩

theorem AdmissionInv.admit (h : AdmissionInv d) (hs : SlotInv d) {conn : Nat} {newClient : Int}
    (hacc : d.acceptor = .testing conn newClient) :
    AdmissionInv { d with
      acceptor := .scanning conn newClient 0, admitted := d.admitted ++ [conn] } := by
  have hconn : d.acceptor.conn = some conn := by rw [hacc]; rfl
  obtain ⟨hlt, hrejected, -⟩ := hs.conn_alone hconn
  refine ⟨fun c hbelow => .inl ?_, fun c hc => ?_, fun c hc => ?_, fun c hc hmem => ?_,
    fun t ht => ?_, fun c hc => ?_, ?_, fun p hp => ?_⟩
  · rcases h.below c hbelow with hin | ⟨⟨fd, htesting⟩, -⟩
    · exact List.mem_append_left _ hin
    · rw [hacc] at htesting
      cases htesting
      simp
  · rcases List.mem_append.mp hc with hc | hc
    · exact h.old c hc
    · rw [List.mem_singleton.mp hc]
      exact hlt
  · cases hc
    simp [AcceptorPc.admits]
  · rcases List.mem_append.mp hmem with hmem | hmem
    · exact h.rejected c hc hmem
    · rw [List.mem_singleton.mp hmem] at hc
      exact hrejected hc
  · exact ⟨List.mem_append_left _ (h.threads t ht).1, (h.threads t ht).2⟩
  · exact ⟨List.mem_append_left _ (h.unserved c hc).1, (h.unserved c hc).2⟩
  · simp [AcceptorPc.places]
  · exact List.mem_append_left _ (h.placed p hp)

theorem AdmissionInv.refuse (h : AdmissionInv d) {conn : Nat} {newClient : Int}
    (hacc : d.acceptor = .testing conn newClient)
    (hcnt : ¬ d.server.clientsCnt < maxNumberSupClients) :
    AdmissionInv { d with acceptor := .rejecting conn newClient } := by
  have hold := h.acceptor conn (by rw [hacc]; rfl)
  rw [hacc] at hold
  refine ⟨fun c hbelow => .inl ?_, h.old, fun c hc => ?_, h.rejected, h.threads, h.unserved,
    by simp [AcceptorPc.places], h.placed⟩
  · rcases h.below c hbelow with hin | ⟨-, hlt⟩
    · exact hin
    · exact absurd hlt hcnt
  · cases hc
    simpa [AcceptorPc.admits] using hold

theorem AdmissionInv.place (h : AdmissionInv d) {conn : Nat} {newClient : Int} {n : Nat}
    (hacc : d.acceptor = .scanning conn newClient n) (s' : Server) (x : Fin maxNumberSupClients) :
    AdmissionInv { d with
      server := s', acceptor := .claimed conn x, placed := d.placed ++ [(conn, x)] } := by
  have hold := h.acceptor conn (by rw [hacc]; rfl)
  rw [hacc] at hold
  have hin : conn ∈ d.admitted := hold.mpr rfl
  refine ⟨fun c hbelow => .inl (h.below_admitted (by simp [hacc]) c hbelow), h.old, fun c hc => ?_,
    h.rejected, fun t ht => ?_, fun c hc => ?_, fun p hp => ?_, fun p hp => ?_⟩
  · cases hc
    simpa [AcceptorPc.admits] using hin
  · exact ⟨(h.threads t ht).1, List.mem_append_left _ (h.threads t ht).2⟩
  · obtain ⟨hc, y, hy⟩ := h.unserved c hc
    exact ⟨hc, y, List.mem_append_left _ hy⟩
  · cases hp
    simp
  · rcases List.mem_append.mp hp with hp | hp
    · exact h.placed p hp
    · rw [List.mem_singleton.mp hp]
      exact hin

theorem AdmissionInv.acceptorStep (h : AdmissionInv d) (hs : SlotInv d) (created : Bool) :
    AdmissionInv (acceptorStep created d) := by
  have hbelow := h.below_admitted
  have hplacing := h.placing
  have hacceptor := h.acceptor
  cases hacc : d.acceptor with
  | listening =>
    simp only [NemeaSupervisor.acceptorStep, hacc]
    split <;> exact h.goto hacc (by simp) d.server rfl rfl rfl
  | testing conn newClient =>
    simp only [NemeaSupervisor.acceptorStep, hacc]
    split
    · exact h.admit hs hacc
    · next hcnt => exact h.refuse hacc hcnt
  | scanning conn newClient x =>
    have hscan := hs.scan
    rw [hacc] at hscan
    obtain ⟨y, hxy, -⟩ := hscan x rfl
    simp only [NemeaSupervisor.acceptorStep, hacc]
    split
    · split
      · exact h.place hacc _ _
      · exact h.goto hacc (by simp) d.server rfl rfl rfl
    · exact absurd y.isLt (by omega)
  | creating conn x =>
    rw [hacc] at hbelow hplacing hacceptor
    have hin : conn ∈ d.admitted := (hacceptor conn rfl).mpr rfl
    simp only [NemeaSupervisor.acceptorStep, hacc]
    split
    · refine ⟨fun c hc => .inl (hbelow (by simp) c hc), h.old, by simp [AcceptorPc.conn], h.rejected,
        fun t ht => ?_, h.unserved, by simp [AcceptorPc.places], h.placed⟩
      rcases List.mem_append.mp ht with ht | ht
      · exact h.threads t ht
      · rw [List.mem_singleton.mp ht]
        exact ⟨hin, hplacing _ rfl⟩
    · exact h.goto hacc (by simp) d.server rfl rfl rfl
  | unservedUncount conn x =>
    rw [hacc] at hbelow hplacing hacceptor
    have hin : conn ∈ d.admitted := (hacceptor conn rfl).mpr rfl
    simp only [NemeaSupervisor.acceptorStep, hacc]
    refine ⟨fun c hc => .inl (hbelow (by simp) c hc), h.old, by simp [AcceptorPc.conn], h.rejected,
      h.threads, fun c hc => ?_, by simp [AcceptorPc.places], h.placed⟩
    rcases List.mem_append.mp hc with hc | hc
    · exact h.unserved c hc
    · rw [List.mem_singleton.mp hc]
      exact ⟨hin, x, hplacing _ rfl⟩
  | rejecting conn newClient =>
    rw [hacc] at hbelow hacceptor
    have hout : conn ∉ d.admitted := fun hin => by
      simpa [AcceptorPc.admits] using (hacceptor conn rfl).mp hin
    simp only [NemeaSupervisor.acceptorStep, hacc]
    refine ⟨fun c hc => .inl (hbelow (by simp) c hc), h.old, by simp [AcceptorPc.conn],
      fun c hc => ?_, h.threads, h.unserved, by simp [AcceptorPc.places], h.placed⟩
    rcases List.mem_append.mp hc with hc | hc
    · exact h.rejected c hc
    · rw [List.mem_singleton.mp hc]
      exact hout
  | returned =>
    simp only [NemeaSupervisor.acceptorStep, hacc]
    exact h
  | _ =>
    simp only [NemeaSupervisor.acceptorStep, hacc]
    exact h.goto hacc (by simp) _ rfl rfl rfl

theorem AdmissionInv.accept (h : AdmissionInv d) (hacc : d.acceptor = .selecting) (s' : Server)
    (hcnt : s'.clientsCnt = d.server.clientsCnt) (newClient : Int) :
    AdmissionInv { d with
      server := s'
      acceptor := .testing d.accepted newClient
      accepted := d.accepted + 1
      below := if d.server.clientsCnt < maxNumberSupClients then d.below ++ [d.accepted]
        else d.below } := by
  refine ⟨fun c hc => ?_, fun c hc => Nat.lt_succ_of_lt (h.old c hc), fun c hc => ?_, h.rejected,
    h.threads, h.unserved, by simp [AcceptorPc.places], h.placed⟩
  · have hold := h.below_admitted (by simp [hacc]) c
    split at hc
    · next hlt =>
      rcases List.mem_append.mp hc with hc | hc
      · exact .inl (hold hc)
      · rw [List.mem_singleton.mp hc]
        refine .inr ⟨⟨newClient, rfl⟩, ?_⟩
        rw [hcnt]
        exact hlt
    · exact .inl (hold hc)
  · cases hc
    simp only [AcceptorPc.admits, reduceCtorEq, iff_false]
    exact fun hin => absurd (h.old _ hin) (Nat.lt_irrefl _)

theorem AdmissionInv.client (h : AdmissionInv d) {i : Nat} {t t' : ClientThread} {s' : Server}
    (hi : d.threads[i]? = some t) (e : Effect d.server t s' t') :
    AdmissionInv { d with server := s', threads := d.threads.set i t' } := by
  refine ⟨fun c hc => ?_, h.old, h.acceptor, h.rejected, ?_, h.unserved, h.placing, h.placed⟩
  · rcases h.below c hc with hin | ⟨htesting, hlt⟩
    · exact .inl hin
    · refine .inr ⟨htesting, ?_⟩
      rcases e.counter with ⟨-, -, hcnt, -⟩ | ⟨-, hcnt, -⟩ <;> simp only <;> omega
  · refine Pool.forall_set ?_ fun j u _ hj => h.threads u (List.mem_of_getElem? hj)
    rw [e.conn, e.client]
    exact h.threads t (List.mem_of_getElem? hi)

theorem admissionInv_step (hs : SlotInv d) (h : AdmissionInv d) (a : DaemonAction) :
    AdmissionInv (daemonStep d a) := by
  cases a with
  | accept newClient =>
    simp only [daemonStep]
    split
    · next hacc =>
      exact h.accept hacc.1 (d.server.grant newClient (.connection d.accepted)) rfl newClient
    · exact h
  | selectFails =>
    simp only [daemonStep]
    split
    · next hacc => exact h.goto hacc (by simp) d.server rfl rfl rfl
    · exact h
  | acceptor created =>
    simp only [daemonStep]
    split
    · exact h
    · exact h.acceptorStep hs created
  | client i outcome =>
    simp only [daemonStep]
    split
    · next t ht =>
      split
      · exact h
      · exact h.client ht (clientStep_effect (hs.own t (List.mem_of_getElem? ht)) outcome)
    · exact h
  | terminate =>
    exact ⟨h.below, h.old, h.acceptor, h.rejected, h.threads, h.unserved, h.placing, h.placed⟩
  | free | openOther fd | closeOther fd =>
    simp only [daemonStep]
    split
    · exact ⟨h.below, h.old, h.acceptor, h.rejected, h.threads, h.unserved, h.placing, h.placed⟩
    · exact h

end steps

variable {d : Daemon}

theorem admissionInv_init (held : Int → Bool) : AdmissionInv (.init held) := by
  constructor <;> simp [Daemon.init, AcceptorPc.conn, AcceptorPc.places]

/-- Everything that holds of the daemon in every state. -/
theorem reachable_inv (h : DaemonReachable d) : SlotInv d ∧ AdmissionInv d ∧ d.Closable := by
  obtain ⟨held, as, rfl⟩ := h
  refine Run.run_invariant (I := fun d => SlotInv d ∧ AdmissionInv d ∧ d.Closable)
    (fun d a ⟨hs, ha, hc⟩ => ⟨hs.step a, admissionInv_step hs ha a, closable_step hs hc a⟩)
    ⟨slotInv_init held, admissionInv_init held, fun conn fd hfd => ?_⟩ as
  simp only [Daemon.init] at hfd
  split_ifs at hfd
  cases hfd

/-- No descriptor stands for the connection any more. -/
def Daemon.Closed (d : Daemon) (conn : Nat) : Prop :=
  ∀ fd, d.server.descriptors fd ≠ some (.connection conn)

/-- A connection that neither the server routine nor a thread will close is closed. -/
theorem closed_of_done (hc : d.Closable) {conn : Nat} (hacc : d.acceptor.conn ≠ some conn)
    (hthreads : ∀ t ∈ d.threads, t.conn ≠ conn) : d.Closed conn := by
  intro fd hfd
  rcases hc conn fd hfd with hheld | ⟨t, ht, -, hconn, -⟩
  · exact hacc (held_conn hheld)
  · exact hthreads t ht hconn

/-- A connection that the server routine is done with is in one thread, or refused, or
without a thread. -/
theorem SlotInv.place_cases (h : SlotInv d) {conn : Nat} (hlt : conn < d.accepted)
    (hacc : d.acceptor.conn ≠ some conn) :
    d.threads.countP (fun t => decide (t.conn = conn)) = 1 ∧ conn ∉ d.rejected ∧ conn ∉ d.unserved ∨
      (∀ t ∈ d.threads, t.conn ≠ conn) ∧ (conn ∈ d.rejected ∨ conn ∈ d.unserved) := by
  have hplaces := h.places conn
  rw [if_pos hlt, Daemon.places, decide_eq_false hacc, Bool.toNat_false] at hplaces
  rw [← List.count_eq_zero, ← List.count_eq_zero, ← List.count_pos_iff, ← List.count_pos_iff]
  rcases Nat.eq_zero_or_pos (d.threads.countP fun t => decide (t.conn = conn)) with hzero | hpos
  · refine .inr ⟨fun t ht => ?_, by omega⟩
    simpa using List.countP_eq_zero.mp hzero t ht
  · exact .inl ⟨by omega, by omega, by omega⟩

/-- The decrements of a placed connection: none before its thread, or the server routine
for it, has made it, and one after that. -/
theorem uncounted_eq (hs : SlotInv d) {conn : Nat} (hlt : conn < d.accepted)
    (hrejected : conn ∉ d.rejected) : d.server.uncounted.count conn =
      if d.acceptor.conn = some conn ∨ ∃ t ∈ d.threads, t.conn = conn ∧ t.pc.counts = true
        then 0 else 1 := by
  have hplaces := hs.places conn
  have hsplit : d.threads.countP (fun t => decide (t.conn = conn)) =
      d.threads.countP (fun t => !t.pc.counts && decide (t.conn = conn)) +
        d.threads.countP (fun t => t.pc.counts && decide (t.conn = conn)) := by
    induction d.threads with
    | nil => rfl
    | cons t threads ih =>
      simp only [List.countP_cons, ih]
      cases t.pc.counts <;> by_cases ht : t.conn = conn <;> simp [ht] <;> omega
  have hcounting : (∃ t ∈ d.threads, t.conn = conn ∧ t.pc.counts = true) ↔
      0 < d.threads.countP fun t => t.pc.counts && decide (t.conn = conn) := by
    simp [List.countP_pos_iff, and_comm]
  rw [hs.uncounted conn]
  rw [if_pos hlt, Daemon.places, List.count_eq_zero.mpr hrejected, hsplit] at hplaces
  by_cases hacc : d.acceptor.conn = some conn
  · rw [if_pos (.inl hacc)]
    rw [decide_eq_true hacc, Bool.toNat_true] at hplaces
    omega
  · rw [decide_eq_false hacc, Bool.toNat_false] at hplaces
    split_ifs with hor
    · have hpos := hcounting.mp (hor.resolve_left hacc)
      omega
    · have hzero := mt hcounting.mpr fun hsome => hor (.inr hsome)
      omega

/-- What has become of a connection that the server routine is done with. -/
theorem connection_done (h : DaemonReachable d) {conn : Nat} (hlt : conn < d.accepted)
    (hacc : d.acceptor.conn ≠ some conn) :
    (conn ∈ d.below → conn ∈ d.admitted) ∧
      (conn ∈ d.admitted → (∃ x, (conn, x) ∈ d.placed) ∧
        (d.threads.countP (fun t => decide (t.conn = conn)) = 1 ∨
          conn ∈ d.unserved ∧ d.Closed conn ∧ ∀ t ∈ d.threads, t.conn ≠ conn)) ∧
      (conn ∉ d.admitted → d.Closed conn) := by
  obtain ⟨hs, ha, hc⟩ := reachable_inv h
  refine ⟨fun hbelow => ?_, fun hin => ?_, fun hout => ?_⟩
  · rcases ha.below conn hbelow with hin | ⟨⟨fd, htesting⟩, -⟩
    · exact hin
    · rw [htesting] at hacc
      exact absurd rfl hacc
  · rcases hs.place_cases hlt hacc with ⟨hone, -, -⟩ | ⟨hnone, hrejected | hunserved⟩
    · obtain ⟨t, ht, hconn⟩ := List.countP_pos_iff.mp (hone.symm ▸ Nat.one_pos)
      have hplaced := (ha.threads t ht).2
      rw [of_decide_eq_true hconn] at hplaced
      exact ⟨⟨t.client, hplaced⟩, .inl hone⟩
    · exact absurd hin (ha.rejected conn hrejected)
    · exact ⟨(ha.unserved conn hunserved).2, .inr ⟨hunserved, closed_of_done hc hacc hnone, hnone⟩⟩
  · refine closed_of_done hc hacc fun t ht hconn => hout ?_
    rw [← hconn]
    exact (ha.threads t ht).1

/-- The counter and the slots; the connections that the server routine is done with; the
slots of the threads; the decrements. -/
theorem client_slots_kept (h : DaemonReachable d) :
    (0 ≤ d.server.clientsCnt ∧ d.server.clientsCnt ≤ maxNumberSupClients) ∧
    (d.acceptor.claiming = false →
      ((Finset.univ.filter fun x => (d.server.clients x).clientSd ≠ -1).card : Int) ≤
        d.server.clientsCnt) ∧
    (∀ conn < d.accepted, d.acceptor.conn ≠ some conn →
      (conn ∈ d.below → conn ∈ d.admitted) ∧
      (conn ∈ d.admitted → (∃ x, (conn, x) ∈ d.placed) ∧
        (d.threads.countP (fun t => decide (t.conn = conn)) = 1 ∨
          conn ∈ d.unserved ∧ d.Closed conn ∧ ∀ t ∈ d.threads, t.conn ≠ conn)) ∧
      (conn ∉ d.admitted → d.Closed conn)) ∧
    (∀ (i j : Nat) (t u : ClientThread), d.threads[i]? = some t → d.threads[j]? = some u →
      t.pc.owns = true → u.pc.owns = true → t.client = u.client → i = j) ∧
    ∀ p ∈ d.placed, d.server.uncounted.count p.1 =
      if d.acceptor.conn = some p.1 ∨ ∃ t ∈ d.threads, t.conn = p.1 ∧ t.pc.counts = true
        then 0 else 1 := by
  obtain ⟨hs, ha, -⟩ := reachable_inv h
  refine ⟨⟨?_, ?_⟩, fun hclaiming => hs.used_le fun hslot => ?_,
    fun conn hlt hacc => connection_done h hlt hacc, fun i j t u => hs.client_unique, fun p hp => ?_⟩
  · have hcnt := hs.counter
    omega
  · have hlimit := hs.limit
    omega
  · cases hpc : d.acceptor <;> rw [hpc] at hslot hclaiming <;>
      first
        | rfl
        | exact absurd hslot Bool.false_ne_true
        | exact absurd hclaiming.symm Bool.false_ne_true
  · have hin := ha.placed p hp
    exact uncounted_eq hs (ha.old p.1 hin) fun hrejected => ha.rejected p.1 hrejected hin

/-- A connection is accepted and its thread cannot be created. -/
def unservedConnection : List DaemonAction :=
  [.acceptor true, .accept 7] ++ List.replicate 5 (.acceptor false) ++
    List.replicate 4 (.acceptor false)

theorem client_slots_kept_unserved :
    (Run.run daemonStep (.init fun fd => decide (fd ≤ 6)) unservedConnection).Closed 0 := by
  have hkept := (client_slots_kept ⟨fun fd => decide (fd ≤ 6), unservedConnection, rfl⟩).2.2.1 0
    (by decide) (by decide)
  rcases (hkept.2.1 (by decide)).2 with hone | ⟨-, hclosed, -⟩
  · exact absurd hone (by decide)
  · exact hclosed

/-- The connection without a thread was accepted below the maximum. -/
theorem not_client_slots_kept :
    ¬ ∀ d : Daemon, DaemonReachable d → ∀ conn ∈ d.below, d.acceptor.conn ≠ some conn →
      (∃ x, (conn, x) ∈ d.placed) ∧ d.threads.countP (fun t => decide (t.conn = conn)) = 1 := by
  intro hall
  have hone := (hall (Run.run daemonStep (.init fun fd => decide (fd ≤ 6)) unservedConnection)
    ⟨_, _, rfl⟩ 0 (by decide) (by decide)).2
  exact absurd hone (by decide)

end NemeaSupervisor
