import NemeaSupervisor.ClientThreads
import NemeaSupervisor.Pool

/-!
# The slots of the clients

Every slot in use belongs to exactly one thread, or to the server routine while it
fills the slot, and every accepted connection is in exactly one place. The counter
follows the connections that are placed, one step behind the slots.
-/

namespace NemeaSupervisor

namespace AcceptorPc

/-- The slot that the server routine has claimed. -/
def slot : AcceptorPc → Option (Fin maxNumberSupClients)
  | claimed _ x | filled _ x | creating _ x | unservedClose _ x | unservedUnset _ x => some x
  | _ => none

/-- The connection that the server routine deals with. -/
def conn : AcceptorPc → Option Nat
  | testing conn _ | scanning conn _ _ | claimed conn _ | filled conn _ | creating conn _
  | unservedClose conn _ | unservedUnset conn _ | unservedDisconnect conn _
  | unservedUncount conn _ | rejecting conn _ => some conn
  | _ => none

def newClient : AcceptorPc → Option Int
  | testing _ fd | scanning _ fd _ | rejecting _ fd => some fd
  | _ => none

/-- The position of the search for a free slot. -/
def scanned : AcceptorPc → Option Nat
  | scanning _ _ x => some x
  | _ => none

/-- A slot is promised or claimed, but not counted yet. -/
def pending : AcceptorPc → Bool
  | scanning .. | claimed .. | filled .. => true
  | _ => false

/-- The connection is counted and has no thread. -/
def counts : AcceptorPc → Bool
  | creating .. | unservedClose .. | unservedUnset .. | unservedDisconnect ..
  | unservedUncount .. => true
  | _ => false

end AcceptorPc

namespace Daemon

/-- How many use the slot. -/
def users (d : Daemon) (x : Fin maxNumberSupClients) : Nat :=
  d.threads.countP (fun t => t.pc.owns && decide (t.client = x)) +
    (decide (d.acceptor.slot = some x)).toNat

/-- In how many places the connection is. -/
def places (d : Daemon) (conn : Nat) : Nat :=
  d.threads.countP (fun t => decide (t.conn = conn)) + d.rejected.count conn +
    d.unserved.count conn + (decide (d.acceptor.conn = some conn)).toNat

end Daemon

/-- The slots of the daemon and the connections in them. -/
structure SlotInv (d : Daemon) : Prop where
  own : ∀ t ∈ d.threads, t.pc.owns = true → OwnSlot d.server t
  claimed : ∀ x ∈ d.acceptor.slot,
    0 ≤ (d.server.clients x).clientSd ∧ (d.server.clients x).Bare
  bare : ∀ x, (d.server.clients x).clientSd = -1 → (d.server.clients x).Bare
  users : ∀ x, d.users x = if (d.server.clients x).clientSd = -1 then 0 else 1
  places : ∀ conn, d.places conn = if conn < d.accepted then 1 else 0
  newClient : ∀ fd ∈ d.acceptor.newClient, 0 ≤ fd
  counter : d.server.clientsCnt =
    (d.threads.countP (fun t => t.pc.counts) + d.acceptor.counts.toNat : Nat)
  limit : d.server.clientsCnt + (d.acceptor.pending.toNat : Int) ≤ maxNumberSupClients
  scan : ∀ x ∈ d.acceptor.scanned, ∃ y : Fin maxNumberSupClients,
    x ≤ y ∧ (d.server.clients y).clientSd = -1
  uncounted : ∀ conn, d.server.uncounted.count conn =
    d.threads.countP (fun t => !t.pc.counts && decide (t.conn = conn)) + d.unserved.count conn

section invariant

variable {d : Daemon}

theorem SlotInv.conn_unique (h : SlotInv d) {i j : Nat} {t u : ClientThread}
    (hi : d.threads[i]? = some t) (hj : d.threads[j]? = some u) (hconn : t.conn = u.conn) :
    i = j := by
  have hplaces := h.places u.conn
  refine Pool.index_unique (p := fun t => decide (t.conn = u.conn)) ?_ hi hj (by simp [hconn])
    (by simp)
  rw [Daemon.places] at hplaces
  split_ifs at hplaces <;> omega

/-- Two threads that still use one slot are the same. -/
theorem SlotInv.client_unique (h : SlotInv d) {i j : Nat} {t u : ClientThread}
    (hi : d.threads[i]? = some t) (hj : d.threads[j]? = some u) (ht : t.pc.owns = true)
    (hu : u.pc.owns = true) (hclient : t.client = u.client) : i = j := by
  have husers := h.users u.client
  refine Pool.index_unique (p := fun t => t.pc.owns && decide (t.client = u.client)) ?_ hi hj
    (by simp [hclient, ht]) (by simp [hu])
  rw [Daemon.users] at husers
  split_ifs at husers <;> omega

/-- The slot that the server routine has claimed is used by no thread. -/
theorem SlotInv.slot_ne (h : SlotInv d) {x : Fin maxNumberSupClients} (hx : d.acceptor.slot = some x)
    {t : ClientThread} (ht : t ∈ d.threads) (howns : t.pc.owns = true) : t.client ≠ x := by
  rintro rfl
  have husers := h.users t.client
  have hpos : 0 < d.threads.countP fun u => u.pc.owns && decide (u.client = t.client) :=
    List.countP_pos_iff.mpr ⟨t, ht, by simp [howns]⟩
  simp only [Daemon.users, hx, decide_true, Bool.toNat_true] at husers
  split_ifs at husers
  omega

/-- A free slot is used by no thread. -/
theorem SlotInv.free_ne (h : SlotInv d) {x : Fin maxNumberSupClients}
    (hx : (d.server.clients x).clientSd = -1) {t : ClientThread} (ht : t ∈ d.threads)
    (howns : t.pc.owns = true) : t.client ≠ x := by
  rintro rfl
  have := (h.own t ht howns).slot.sd
  omega

variable {i : Nat} {t t' : ClientThread} {s' : Server}

theorem SlotInv.own_step (h : SlotInv d) (hi : d.threads[i]? = some t)
    (e : Effect d.server t s' t') : ∀ u ∈ d.threads.set i t', u.pc.owns = true → OwnSlot s' u := by
  have ht := List.mem_of_getElem? hi
  refine Pool.forall_set ?_ ?_
  · intro howns'
    cases howns : t.pc.owns with
    | false =>
      rw [e.released howns] at howns'
      cases howns'
    | true =>
      rcases e.own howns with hkept | ⟨hout, -⟩
      · exact hkept.2.1
      · rw [hout] at howns'
        cases howns'
  · intro j u hj hu howns
    have hne : t.pc.owns = true → u.client ≠ t.client := fun ht' heq =>
      hj (h.client_unique hu hi howns ht' heq)
    refine (h.own u (List.mem_of_getElem? hu) howns).frame ⟨_, _, e.other u.client hne⟩ ?_
    exact e.openStreams u.conn fun heq => hj (h.conn_unique hu hi heq)

theorem SlotInv.bare_step (h : SlotInv d) (ht : t ∈ d.threads) (e : Effect d.server t s' t')
    (x : Fin maxNumberSupClients) (hx : (s'.clients x).clientSd = -1) : (s'.clients x).Bare := by
  by_cases hxt : t.pc.owns = true ∧ x = t.client
  · obtain ⟨howns, rfl⟩ := hxt
    rcases e.own howns with hkept | ⟨-, -, hbare⟩
    · have hsd := (h.own t ht howns).slot.sd
      rw [hkept.2.2] at hx
      omega
    · exact hbare
  · rw [e.other x fun howns heq => hxt ⟨howns, heq⟩] at hx ⊢
    exact h.bare x hx

/-- A slot loses its user in the step that sets its descriptor to -1. -/
theorem SlotInv.users_step (h : SlotInv d) (hi : d.threads[i]? = some t)
    (e : Effect d.server t s' t') (x : Fin maxNumberSupClients) :
    (d.threads.set i t').countP (fun u => u.pc.owns && decide (u.client = x)) +
        (decide (d.acceptor.slot = some x)).toNat =
      if (s'.clients x).clientSd = -1 then 0 else 1 := by
  have husers := h.users x
  have hcount := Pool.countP_set (fun u => u.pc.owns && decide (u.client = x)) t' hi
  rw [Daemon.users] at husers
  rw [e.client] at hcount
  by_cases hxt : t.pc.owns = true ∧ t.client = x
  · obtain ⟨howns, rfl⟩ := hxt
    have hsd := (h.own t (List.mem_of_getElem? hi) howns).slot.sd
    rw [if_neg (by omega)] at husers
    rcases e.own howns with hkept | ⟨howns', hsd', -⟩
    · rw [hkept.2.2, if_neg (by omega)]
      simp only [howns, hkept.1] at hcount
      omega
    · rw [hsd', if_pos rfl]
      simp only [howns, howns', decide_true, Bool.and_self, Bool.false_and, Bool.toNat_true,
        Bool.toNat_false] at hcount
      omega
  · have hsame : (t'.pc.owns && decide (t.client = x)) = (t.pc.owns && decide (t.client = x)) := by
      by_cases hx : t.client = x
      · have howns : t.pc.owns = false := by simpa [hx] using hxt
        rw [e.released howns, howns]
      · simp [hx]
    rw [hsame] at hcount
    rw [e.other x fun howns heq => hxt ⟨howns, heq.symm⟩]
    omega

theorem SlotInv.counter_step (h : SlotInv d) (hi : d.threads[i]? = some t)
    (e : Effect d.server t s' t') : s'.clientsCnt =
      ((d.threads.set i t').countP (fun u => u.pc.counts) + d.acceptor.counts.toNat : Nat) := by
  have hcnt := h.counter
  have hset := Pool.countP_set (fun u => u.pc.counts) t' hi
  rcases e.counter with ⟨hpc, hout, hcnt', -⟩ | ⟨hsame, hcnt', -⟩
  · have hone : t.pc.counts = true := by
      rw [hpc]
      rfl
    rw [hone, hout, Bool.toNat_true, Bool.toNat_false] at hset
    omega
  · rw [hsame] at hset
    omega

theorem SlotInv.uncounted_step (h : SlotInv d) (hi : d.threads[i]? = some t)
    (e : Effect d.server t s' t') (conn : Nat) : s'.uncounted.count conn =
      (d.threads.set i t').countP (fun u => !u.pc.counts && decide (u.conn = conn)) +
        d.unserved.count conn := by
  have hcount := h.uncounted conn
  have hset := Pool.countP_set (fun u => !u.pc.counts && decide (u.conn = conn)) t' hi
  rw [e.conn] at hset
  rcases e.counter with ⟨hpc, hout, -, hlist⟩ | ⟨hsame, -, hlist⟩
  · have hone : t.pc.counts = true := by
      rw [hpc]
      rfl
    rw [hone, hout, Bool.not_true, Bool.not_false, Bool.false_and, Bool.true_and,
      Bool.toNat_false] at hset
    rw [hlist, List.count_append, List.count_singleton]
    by_cases hc : t.conn = conn
    · simp only [hc, decide_true, Bool.toNat_true, beq_self_eq_true, if_true] at hset ⊢
      omega
    · simp only [hc, decide_false, Bool.toNat_false, beq_eq_false_iff_ne.mpr hc,
        Bool.false_eq_true, if_false] at hset ⊢
      omega
  · rw [hsame] at hset
    rw [hlist]
    omega

theorem SlotInv.client (h : SlotInv d) (hi : d.threads[i]? = some t)
    (e : Effect d.server t s' t') :
    SlotInv { d with server := s', threads := d.threads.set i t' } := by
  have ht := List.mem_of_getElem? hi
  constructor
  · exact h.own_step hi e
  · intro x hx
    have hne : t.pc.owns = true → x ≠ t.client := fun howns heq => h.slot_ne hx ht howns heq.symm
    rw [e.other x hne]
    exact h.claimed x hx
  · exact h.bare_step ht e
  · exact h.users_step hi e
  · intro conn
    rw [← h.places conn]
    simp only [Daemon.places]
    rw [Pool.countP_set_same hi (by rw [e.conn])]
  · exact h.newClient
  · exact h.counter_step hi e
  · have hlimit := h.limit
    simp only
    rcases e.counter with ⟨-, -, hcnt, -⟩ | ⟨-, hcnt, -⟩ <;> omega
  · intro x hx
    obtain ⟨y, hy, hfree⟩ := h.scan x hx
    refine ⟨y, hy, ?_⟩
    rw [e.other y fun howns heq => h.free_ne hfree ht howns heq.symm]
    exact hfree
  · exact h.uncounted_step hi e

theorem ClientPc.counts_of_owns {pc : ClientPc} (h : pc.owns = true) : pc.counts = true := by
  cases pc <;> first | rfl | cases h

/-- The counted slots are those in use: while none is pending, no more than the counter. -/
theorem SlotInv.used_le (h : SlotInv d) (hpending : d.acceptor.slot.isSome → d.acceptor.counts) :
    ((Finset.univ.filter fun x => (d.server.clients x).clientSd ≠ -1).card : Int) ≤
      d.server.clientsCnt := by
  have hsum : ∑ x : Fin maxNumberSupClients, d.users x =
      (Finset.univ.filter fun x => (d.server.clients x).clientSd ≠ -1).card := by
    rw [Finset.card_filter]
    refine Finset.sum_congr rfl fun x _ => ?_
    rw [h.users x]
    split_ifs <;> simp_all
  have hslots : ∑ x : Fin maxNumberSupClients, (decide (d.acceptor.slot = some x)).toNat ≤
      d.acceptor.counts.toNat := by
    cases hslot : d.acceptor.slot with
    | none => simp
    | some y =>
      rw [hslot] at hpending
      rw [hpending rfl]
      simp [Bool.toNat, Bool.cond_decide]
  have hthreads := Pool.sum_countP (fun t : ClientThread => t.pc.owns) (·.client) d.threads
  have hle : d.threads.countP (fun t => t.pc.owns) ≤ d.threads.countP fun t => t.pc.counts :=
    List.countP_mono_left fun t _ howns => ClientPc.counts_of_owns howns
  simp only [Daemon.users, Finset.sum_add_distrib] at hsum
  have hcnt := h.counter
  omega

theorem SlotInv.exists_free (h : SlotInv d) (hslot : d.acceptor.slot = none)
    (hcnt : d.server.clientsCnt < maxNumberSupClients) :
    ∃ x, (d.server.clients x).clientSd = -1 := by
  by_contra hall
  rw [not_exists] at hall
  have hused := h.used_le (by simp [hslot])
  rw [Finset.filter_true_of_mem fun x _ => hall x, Finset.card_univ, Fintype.card_fin] at hused
  omega

/-- The server routine goes on, and a slot changes in its marks at most. -/
theorem SlotInv.goto (h : SlotInv d) {a b : AcceptorPc} (hacc : d.acceptor = b)
    {placed : List (Nat × Fin maxNumberSupClients)} {admitted : List Nat}
    (hclients : ∀ x, ∃ connected id, s'.clients x =
      { d.server.clients x with clientConnected := connected, clientId := id })
    (hstreams : s'.openStreams = d.server.openStreams)
    (hslot : a.slot = b.slot) (hconn : a.conn = b.conn) (hnew : ∀ fd ∈ a.newClient, 0 ≤ fd)
    (hcounter : s'.clientsCnt + b.counts.toNat = d.server.clientsCnt + a.counts.toNat)
    (hlimit : s'.clientsCnt + a.pending.toNat ≤ maxNumberSupClients)
    (hscan : ∀ x ∈ a.scanned, ∃ y : Fin maxNumberSupClients,
      x ≤ y ∧ (d.server.clients y).clientSd = -1)
    (huncounted : s'.uncounted = d.server.uncounted) :
    SlotInv { d with server := s', acceptor := a, admitted, placed } := by
  subst hacc
  have hsame : ∀ x, (s'.clients x).clientSd = (d.server.clients x).clientSd ∧
      ((d.server.clients x).Bare → (s'.clients x).Bare) := by
    intro x
    obtain ⟨connected, id, hx⟩ := hclients x
    rw [hx]
    exact ⟨rfl, fun hbare => ⟨hbare.input, hbare.output, hbare.inputFd⟩⟩
  constructor
  · intro t ht howns
    refine (h.own t ht howns).frame (hclients t.client) fun f hf _ => ?_
    rw [hstreams]
    exact hf
  · intro x hx
    obtain ⟨hsd, hbare⟩ := h.claimed x (by rwa [← hslot])
    rw [(hsame x).1]
    exact ⟨hsd, (hsame x).2 hbare⟩
  · intro x hx
    rw [(hsame x).1] at hx
    exact (hsame x).2 (h.bare x hx)
  · intro x
    rw [(hsame x).1, ← h.users x]
    simp only [Daemon.users, hslot]
  · intro conn
    rw [← h.places conn]
    simp only [Daemon.places, hconn]
  · exact hnew
  · have hcnt := h.counter
    simp only
    omega
  · exact hlimit
  · intro x hx
    obtain ⟨y, hy, hfree⟩ := hscan x hx
    exact ⟨y, hy, by rw [(hsame y).1, hfree]⟩
  · intro conn
    rw [huncounted]
    exact h.uncounted conn

/-- The server routine goes on and changes nothing. -/
theorem SlotInv.pass (h : SlotInv d) {a b : AcceptorPc} (hacc : d.acceptor = b)
    (hslot : a.slot = b.slot) (hconn : a.conn = b.conn) (hcounts : a.counts = b.counts)
    (hpending : a.pending = b.pending) (hnew : a.newClient = none) (hscan : a.scanned = none) :
    SlotInv { d with acceptor := a } := by
  have hlimit := h.limit
  rw [hacc, ← hpending] at hlimit
  exact h.goto hacc (fun x => ⟨_, _, rfl⟩) rfl hslot hconn (by simp [hnew]) (by rw [hcounts])
    hlimit (by simp [hscan]) rfl

/-- What the server routine writes into a slot that is taken are marks. -/
theorem setClient_marks (s : Server) (x : Fin maxNumberSupClients) (connected : Bool) (id : Nat)
    (y : Fin maxNumberSupClients) : ∃ connected' id',
      (s.setClient x { s.clients x with clientConnected := connected, clientId := id }).clients y =
        { s.clients y with clientConnected := connected', clientId := id' } := by
  by_cases hy : y = x
  · subst hy
    exact ⟨_, _, Server.setClient_self ..⟩
  · exact ⟨_, _, Server.setClient_other _ _ _ hy⟩

/-- The server routine claims or gives back a slot that no thread uses. -/
theorem SlotInv.setSlot (h : SlotInv d) {a b : AcceptorPc} (hacc : d.acceptor = b)
    {x : Fin maxNumberSupClients} {c : Client} {placed : List (Nat × Fin maxNumberSupClients)}
    (hne : ∀ t ∈ d.threads, t.pc.owns = true → t.client ≠ x)
    (hbare : c.Bare) (hslot : ∀ y ≠ x, a.slot ≠ some y) (hold : ∀ y ≠ x, b.slot ≠ some y)
    (hsd : a.slot = some x ∧ 0 ≤ c.clientSd ∨ a.slot = none ∧ c.clientSd = -1)
    (hconn : a.conn = b.conn) (hnew : a.newClient = none) (hcounts : a.counts = b.counts)
    (hpending : a.pending = b.pending) (hscan : a.scanned = none) :
    SlotInv { d with server := d.server.setClient x c, acceptor := a, placed } := by
  subst hacc
  constructor
  · intro t ht howns
    refine (h.own t ht howns).frame ⟨_, _, d.server.setClient_other x c (hne t ht howns)⟩ ?_
    exact fun f hf _ => hf
  · intro y hy
    by_cases hyx : y = x
    · subst hyx
      rw [Server.setClient_self]
      rcases hsd with ⟨-, hsd⟩ | ⟨hnone, -⟩
      · exact ⟨hsd, hbare⟩
      · rw [hnone] at hy
        cases hy
    · exact absurd hy (hslot y hyx)
  · intro y hy
    by_cases hyx : y = x
    · subst hyx
      rw [Server.setClient_self]
      exact hbare
    · rw [Server.setClient_other _ _ _ hyx] at hy ⊢
      exact h.bare y hy
  · intro y
    by_cases hyx : y = x
    · subst hyx
      have hnone : d.threads.countP (fun t => t.pc.owns && decide (t.client = y)) = 0 := by
        rw [List.countP_eq_zero]
        intro t ht
        simpa using hne t ht
      rw [Daemon.users, hnone, Server.setClient_self]
      rcases hsd with ⟨hsome, hsd⟩ | ⟨hnone', hsd⟩
      · rw [hsome, if_neg (by omega)]
        simp
      · rw [hnone', hsd]
        simp
    · rw [Server.setClient_other _ _ _ hyx, ← h.users y]
      simp only [Daemon.users, hslot y hyx, hold y hyx]
  · intro conn
    rw [← h.places conn]
    simp only [Daemon.places, hconn]
  · simp [hnew]
  · have hcnt := h.counter
    rw [← hcounts] at hcnt
    exact hcnt
  · have hlimit := h.limit
    rw [← hpending] at hlimit
    exact hlimit
  · simp [hscan]
  · exact h.uncounted

/-- A thread takes over the slot that was claimed for it. -/
theorem SlotInv.create (h : SlotInv d) {conn : Nat} {x : Fin maxNumberSupClients}
    (hacc : d.acceptor = .creating conn x) :
    SlotInv { d with
      threads := d.threads ++ [⟨x, conn, .openInput, 0, false⟩], acceptor := .listening } := by
  have hslot : d.acceptor.slot = some x := by rw [hacc]; rfl
  obtain ⟨hsd, hbare⟩ := h.claimed x hslot
  constructor
  · intro t ht howns
    rcases List.mem_append.mp ht with ht | ht
    · exact h.own t ht howns
    · rw [List.mem_singleton.mp ht]
      refine ⟨⟨hsd, ?_, ?_, .inl hbare.inputFd⟩, by simp [ClientPc.demands]⟩
      · simp [hbare.input]
      · simp [hbare.output]
  · simp [AcceptorPc.slot]
  · exact h.bare
  · intro y
    rw [← h.users y]
    simp only [Daemon.users, List.countP_append, List.countP_singleton, hslot]
    by_cases hy : x = y
    · simp [hy, ClientPc.owns, AcceptorPc.slot]
    · simp [hy, AcceptorPc.slot]
  · intro c
    rw [← h.places c]
    simp only [Daemon.places, List.countP_append, List.countP_singleton, hacc]
    by_cases hc : conn = c
    · simp only [hc, AcceptorPc.conn, decide_true, if_true, Bool.toNat_true, reduceCtorEq,
        decide_false, Bool.toNat_false]
      omega
    · simp [hc, AcceptorPc.conn]
  · simp [AcceptorPc.newClient]
  · have hcnt := h.counter
    rw [hacc] at hcnt
    simpa [ClientPc.counts, AcceptorPc.counts] using hcnt
  · have hlimit := h.limit
    rw [hacc] at hlimit
    exact hlimit
  · simp [AcceptorPc.scanned]
  · intro c
    rw [h.uncounted c]
    simp [ClientPc.counts]

/-- The server routine is done with a connection that it has closed: `rejected` and
`unserved` together gain it. -/
theorem SlotInv.finish (h : SlotInv d) {conn : Nat} {s' : Server} {rejected unserved : List Nat}
    (hconn : d.acceptor.conn = some conn) (hslot : d.acceptor.slot = none)
    (hclients : s'.clients = d.server.clients) (hstreams : s'.openStreams = d.server.openStreams)
    (hlists : ∀ c, rejected.count c + unserved.count c =
      d.rejected.count c + d.unserved.count c + if conn = c then 1 else 0)
    (hcounter : s'.clientsCnt + d.acceptor.counts.toNat = d.server.clientsCnt)
    (huncounted : ∀ c, s'.uncounted.count c + d.unserved.count c =
      d.server.uncounted.count c + unserved.count c) :
    SlotInv { d with server := s', acceptor := .listening, rejected, unserved } := by
  constructor
  · intro t ht howns
    refine (h.own t ht howns).frame ⟨_, _, congrFun hclients t.client⟩ fun f hf _ => ?_
    rw [hstreams]
    exact hf
  · simp [AcceptorPc.slot]
  · simp only [hclients]
    exact h.bare
  · intro x
    rw [hclients, ← h.users x]
    simp only [Daemon.users, hslot]
    rfl
  · intro c
    have hplaces := h.places c
    have hc := hlists c
    have hlisten : (decide (AcceptorPc.conn .listening = some c)).toNat = 0 := rfl
    rw [← hplaces]
    simp only [Daemon.places, hconn, hlisten, Option.some.injEq]
    by_cases heq : conn = c
    · simp only [heq, if_true, decide_true, Bool.toNat_true] at hc ⊢
      omega
    · simp only [heq, if_false, decide_false, Bool.toNat_false] at hc ⊢
      omega
  · simp [AcceptorPc.newClient]
  · have hcnt := h.counter
    simp only [AcceptorPc.counts, Bool.toNat_false]
    omega
  · have hlimit := h.limit
    simp only [AcceptorPc.pending, Bool.toNat_false]
    omega
  · simp [AcceptorPc.scanned]
  · intro c
    have hc := h.uncounted c
    have hu := huncounted c
    simp only
    omega

section acceptor

variable {conn : Nat} {newClient : Int} {x : Fin maxNumberSupClients} (created : Bool)

/-- The clients are as they were. -/
theorem clients_marks (s : Server) (y : Fin maxNumberSupClients) : ∃ connected id,
    s.clients y = { s.clients y with clientConnected := connected, clientId := id } := ⟨_, _, rfl⟩

/-- The routine starts its search when a slot is free. -/
theorem SlotInv.test (h : SlotInv d) (hacc : d.acceptor = .testing conn newClient) :
    SlotInv (acceptorStep created d) := by
  have hnew := h.newClient
  have hlimit := h.limit
  rw [hacc] at hlimit hnew
  simp only [acceptorStep, hacc]
  split
  · next hcnt =>
    have hroom : d.server.clientsCnt + 1 ≤ maxNumberSupClients := hcnt
    obtain ⟨y, hy⟩ := h.exists_free (by rw [hacc]; rfl) hcnt
    refine h.goto hacc (clients_marks _) rfl rfl rfl hnew rfl hroom ?_ rfl
    intro z hz
    cases hz
    exact ⟨y, Nat.zero_le _, hy⟩
  · exact h.goto hacc (clients_marks _) rfl rfl rfl hnew rfl hlimit (by simp [AcceptorPc.scanned])
      rfl

/-- The search claims a free slot, and does not run past the last one. -/
theorem SlotInv.search (h : SlotInv d) {y : Nat} (hacc : d.acceptor = .scanning conn newClient y) :
    SlotInv (acceptorStep created d) := by
  have hnew := h.newClient
  have hlimit := h.limit
  have hscan := h.scan
  rw [hacc] at hlimit hnew hscan
  obtain ⟨z, hyz, hfree⟩ := hscan y rfl
  simp only [acceptorStep, hacc]
  split
  · next hy =>
    split
    · next hsd =>
      have hbare := h.bare ⟨y, hy⟩ hsd
      refine h.setSlot hacc (fun t ht howns => h.free_ne hsd ht howns)
        ⟨hbare.input, hbare.output, hbare.inputFd⟩ ?_ ?_ (.inl ⟨rfl, hnew newClient rfl⟩)
        rfl rfl rfl rfl rfl
      · intro u hu heq
        exact hu (Option.some.inj heq).symm
      · simp [AcceptorPc.slot]
    · next hsd =>
      refine h.goto hacc (clients_marks _) rfl rfl rfl hnew rfl hlimit ?_ rfl
      intro u hu
      cases hu
      refine ⟨z, ?_, hfree⟩
      rcases Nat.eq_or_lt_of_le hyz with heq | hlt
      · exact absurd hfree (by rwa [← show (⟨y, hy⟩ : Fin maxNumberSupClients) = z from Fin.ext heq])
      · exact hlt
  · next hy => exact absurd z.isLt (by omega)

/-- The routine marks the client in its slot. -/
theorem SlotInv.mark (h : SlotInv d)
    (hacc : d.acceptor = .claimed conn x ∨ d.acceptor = .unservedDisconnect conn x) :
    SlotInv (acceptorStep created d) := by
  have hlimit := h.limit
  rcases hacc with hacc | hacc <;> rw [hacc] at hlimit <;> simp only [acceptorStep, hacc]
  · exact h.goto hacc (setClient_marks d.server x true _) rfl rfl rfl
      (by simp [AcceptorPc.newClient]) rfl hlimit (by simp [AcceptorPc.scanned]) rfl
  · exact h.goto hacc (setClient_marks d.server x false _) rfl rfl rfl
      (by simp [AcceptorPc.newClient]) rfl hlimit (by simp [AcceptorPc.scanned]) rfl

/-- The client is counted. -/
theorem SlotInv.fill (h : SlotInv d) (hacc : d.acceptor = .filled conn x) :
    SlotInv (acceptorStep created d) := by
  have hlimit := h.limit
  rw [hacc] at hlimit
  simp only [acceptorStep, hacc]
  refine h.goto hacc (clients_marks _) rfl rfl rfl (by simp [AcceptorPc.newClient]) ?_ ?_
    (by simp [AcceptorPc.scanned]) rfl
  · simp [AcceptorPc.counts]
  · simpa [AcceptorPc.pending] using hlimit

/-- Without a thread the slot is given back. -/
theorem SlotInv.unset (h : SlotInv d) (hacc : d.acceptor = .unservedUnset conn x) :
    SlotInv (acceptorStep created d) := by
  have hclaimed := h.claimed
  rw [hacc] at hclaimed
  obtain ⟨-, hbare⟩ := hclaimed x rfl
  simp only [acceptorStep, hacc]
  refine h.setSlot hacc (fun t ht howns => h.slot_ne (by rw [hacc]; rfl) ht howns)
    ⟨hbare.input, hbare.output, hbare.inputFd⟩ (by simp [AcceptorPc.slot]) ?_ (.inr ⟨rfl, rfl⟩)
    rfl rfl rfl rfl rfl
  intro y hy heq
  exact hy (Option.some.inj heq).symm

/-- A connection without a thread is done with. -/
theorem SlotInv.uncount (h : SlotInv d) (hacc : d.acceptor = .unservedUncount conn x) :
    SlotInv (acceptorStep created d) := by
  simp only [acceptorStep, hacc]
  refine h.finish (by rw [hacc]; rfl) (by rw [hacc]; rfl) rfl rfl (fun c => ?_) ?_ fun c => ?_
  · rw [List.count_append, List.count_singleton, Nat.add_assoc]
    simp
  · simp [Server.uncount, hacc, AcceptorPc.counts]
  · simp only [Server.uncount, List.count_append]
    omega

/-- A connection without a slot is done with. -/
theorem SlotInv.reject (h : SlotInv d) (hacc : d.acceptor = .rejecting conn newClient) :
    SlotInv (acceptorStep created d) := by
  simp only [acceptorStep, hacc]
  refine h.finish (by rw [hacc]; rfl) (by rw [hacc]; rfl) rfl rfl (fun c => ?_) ?_ fun c => rfl
  · rw [List.count_append, List.count_singleton, Nat.add_right_comm]
    simp
  · simp [Server.close, hacc, AcceptorPc.counts]

/-- The slots after a step of the server routine. -/
theorem SlotInv.acceptor (h : SlotInv d) : SlotInv (acceptorStep created d) := by
  cases hacc : d.acceptor with
  | listening =>
    simp only [acceptorStep, hacc]
    split
    · exact h.pass hacc rfl rfl rfl rfl rfl rfl
    · exact h.pass hacc rfl rfl rfl rfl rfl rfl
  | selecting =>
    simp only [acceptorStep, hacc]
    exact h.pass hacc rfl rfl rfl rfl rfl rfl
  | testing => exact h.test created hacc
  | scanning => exact h.search created hacc
  | claimed => exact h.mark created (.inl hacc)
  | filled => exact h.fill created hacc
  | creating conn x =>
    simp only [acceptorStep, hacc]
    split
    · exact h.create hacc
    · exact h.pass hacc rfl rfl rfl rfl rfl rfl
  | unservedClose conn x =>
    have hlimit := h.limit
    rw [hacc] at hlimit
    simp only [acceptorStep, hacc]
    exact h.goto hacc (clients_marks _) rfl rfl rfl (by simp [AcceptorPc.newClient]) rfl hlimit
      (by simp [AcceptorPc.scanned]) rfl
  | unservedUnset => exact h.unset created hacc
  | unservedDisconnect => exact h.mark created (.inr hacc)
  | unservedUncount => exact h.uncount created hacc
  | rejecting => exact h.reject created hacc
  | returned =>
    simp only [acceptorStep, hacc]
    exact h

end acceptor

/-- What concerns descriptors and the termination alone. -/
theorem SlotInv.congr (h : SlotInv d) {s' : Server} {freed : Bool}
    (hclients : s'.clients = d.server.clients) (hstreams : s'.openStreams = d.server.openStreams)
    (hcnt : s'.clientsCnt = d.server.clientsCnt) (huncounted : s'.uncounted = d.server.uncounted) :
    SlotInv { d with server := s', freed } := by
  refine ⟨fun t ht howns => ?_, ?_, ?_, ?_, h.places, h.newClient, ?_, ?_, ?_, ?_⟩
  · refine (h.own t ht howns).frame ⟨_, _, congrFun hclients t.client⟩ fun f hf _ => ?_
    rw [hstreams]
    exact hf
  all_goals simp only [hclients, hcnt, huncounted]
  · exact h.claimed
  · exact h.bare
  · exact h.users
  · exact h.counter
  · exact h.limit
  · exact h.scan
  · exact h.uncounted

/-- A connection is accepted: the server routine deals with it next. -/
theorem SlotInv.accept (h : SlotInv d) {newClient : Int} {below : List Nat}
    (hacc : d.acceptor = .selecting) (hfree : d.server.Free newClient) :
    SlotInv { d with
      server := d.server.grant newClient (.connection d.accepted)
      acceptor := .testing d.accepted newClient
      accepted := d.accepted + 1
      below } := by
  have hcnt := h.counter
  have hlimit := h.limit
  rw [hacc] at hcnt hlimit
  refine ⟨fun t ht howns => ?_, ?_, h.bare, ?_, ?_, ?_, hcnt, hlimit, ?_, h.uncounted⟩
  · exact (h.own t ht howns).frame ⟨_, _, rfl⟩ fun f hf _ => hf
  · simp [AcceptorPc.slot]
  · intro x
    rw [Server.grant, ← h.users x]
    simp only [Daemon.users, hacc]
    rfl
  · intro c
    have hplaces := h.places c
    simp only [Daemon.places, hacc, AcceptorPc.conn, Option.some.injEq, reduceCtorEq, decide_false,
      Bool.toNat_false] at hplaces ⊢
    by_cases hc : d.accepted = c
    · rw [if_neg (by omega)] at hplaces
      rw [if_pos (by omega)]
      simp only [hc, decide_true, Bool.toNat_true]
      omega
    · simp only [hc, decide_false, Bool.toNat_false]
      rw [hplaces]
      split_ifs <;> omega
  · intro fd hfd
    cases hfd
    exact hfree.1
  · simp [AcceptorPc.scanned]

theorem SlotInv.step (h : SlotInv d) (a : DaemonAction) : SlotInv (daemonStep d a) := by
  cases a with
  | accept newClient =>
    simp only [daemonStep]
    split
    · next hacc => exact h.accept hacc.1 hacc.2.2
    · exact h
  | selectFails =>
    simp only [daemonStep]
    split
    · next hacc =>
      have hlimit := h.limit
      rw [hacc] at hlimit
      exact h.goto hacc (fun x => ⟨_, _, rfl⟩) rfl rfl rfl (by simp [AcceptorPc.newClient]) rfl
        hlimit (by simp [AcceptorPc.scanned]) rfl
    · exact h
  | acceptor created =>
    simp only [daemonStep]
    split
    · exact h
    · exact h.acceptor created
  | client i outcome =>
    simp only [daemonStep]
    split
    · next t ht =>
      split
      · exact h
      · exact h.client ht (clientStep_effect (h.own t (List.mem_of_getElem? ht)) outcome)
    · exact h
  | terminate => exact h.congr rfl rfl rfl rfl
  | free =>
    simp only [daemonStep]
    split
    · exact h.congr rfl rfl rfl rfl
    · exact h
  | openOther fd =>
    simp only [daemonStep]
    split
    · exact h.congr rfl rfl rfl rfl
    · exact h
  | closeOther fd =>
    simp only [daemonStep]
    split
    · exact h.congr rfl rfl rfl rfl
    · exact h

theorem slotInv_init (held : Int → Bool) : SlotInv (.init held) := by
  refine ⟨by simp [Daemon.init], by simp [Daemon.init, AcceptorPc.slot], ?_, ?_, ?_,
    by simp [Daemon.init, AcceptorPc.newClient], rfl, ?_, ?_, ?_⟩
  · exact fun x _ => ⟨rfl, rfl, rfl⟩
  · exact fun x => rfl
  · exact fun conn => (if_neg (Nat.not_lt_zero conn)).symm
  · exact Int.natCast_nonneg maxNumberSupClients
  · simp [Daemon.init, AcceptorPc.scanned]
  · exact fun conn => rfl

theorem reachable_slotInv (h : DaemonReachable d) : SlotInv d := by
  obtain ⟨held, as, rfl⟩ := h
  exact Run.run_invariant (I := SlotInv) (fun _ a hd => hd.step a) (slotInv_init held) as

end invariant

end NemeaSupervisor
