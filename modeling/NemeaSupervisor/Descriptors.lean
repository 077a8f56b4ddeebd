import NemeaSupervisor.ClientSlots

/-!
# The descriptors of the clients

A connection is closed by whoever holds it: the server routine until the thread is
created, and then the thread. The thread closes one number up to four times, through the
number of its input stream, its two streams and the number of the slot, and only the
first of these closes its connection. Which descriptor the others close depends on
whether the number has been handed out again.
-/

namespace NemeaSupervisor

/-- The connection that the server routine still has to close or to hand over. -/
def Daemon.held (d : Daemon) : Option (Nat × Int) :=
  match d.acceptor with
  | .testing conn fd | .scanning conn fd _ | .rejecting conn fd => some (conn, fd)
  | .claimed conn x | .filled conn x | .creating conn x | .unservedClose conn x =>
    some (conn, (d.server.clients x).clientSd)
  | _ => none

/-- A thread still has to close the connection under the number. -/
def Daemon.Serves (d : Daemon) (conn : Nat) (fd : Int) : Prop :=
  ∃ t ∈ d.threads, t.pc.closes = true ∧ t.conn = conn ∧ (d.server.clients t.client).clientSd = fd

/-- The step does not hand out a number that a thread is going to close. -/
def NotPending (d : Daemon) : DaemonAction → Prop
  | .accept fd | .openOther fd =>
    ∀ t ∈ d.threads, t.pc.closes = true → (d.server.clients t.client).clientSd ≠ fd
  | _ => True

instance (d : Daemon) (a : DaemonAction) : Decidable (NotPending d a) := by
  cases a <;> unfold NotPending <;> infer_instance

theorem ClientPc.owns_of_closes {pc : ClientPc} (h : pc.closes = true) : pc.owns = true := by
  cases pc <;> first | rfl | cases h

section acceptor

variable {d : Daemon}

/-- The descriptors of the threads' slots, when the server routine changes none of them. -/
theorem serves_congr {d' : Daemon} {conn : Nat} {fd : Int} (hthreads : d'.threads = d.threads)
    (hslots : ∀ t ∈ d.threads, t.pc.owns = true →
      (d'.server.clients t.client).clientSd = (d.server.clients t.client).clientSd) :
    d'.Serves conn fd ↔ d.Serves conn fd := by
  unfold Daemon.Serves
  rw [hthreads]
  constructor
  · rintro ⟨t, ht, hcloses, hconn, hfd⟩
    exact ⟨t, ht, hcloses, hconn, by rw [← hslots t ht (ClientPc.owns_of_closes hcloses), hfd]⟩
  · rintro ⟨t, ht, hcloses, hconn, hfd⟩
    exact ⟨t, ht, hcloses, hconn, by rw [hslots t ht (ClientPc.owns_of_closes hcloses), hfd]⟩

/-- What a step of the server routine does about descriptors: nothing, or it hands its
connection over to a thread, or it closes it. -/
inductive AcceptorMove (d d' : Daemon) : Prop where
  | keep (held : d'.held = d.held) (descriptors : d'.server.descriptors = d.server.descriptors)
      (serves : ∀ conn fd, d'.Serves conn fd ↔ d.Serves conn fd)
  | handOver (conn : Nat) (fd : Int) (before : d.held = some (conn, fd)) (after : d'.held = none)
      (descriptors : d'.server.descriptors = d.server.descriptors)
      (serves : ∀ c n, d'.Serves c n ↔ d.Serves c n ∨ c = conn ∧ n = fd)
  | close (conn : Nat) (fd : Int) (before : d.held = some (conn, fd)) (after : d'.held = none)
      (descriptors : d'.server.descriptors = Function.update d.server.descriptors fd none)
      (serves : ∀ c n, d'.Serves c n ↔ d.Serves c n)

theorem acceptorStep_move (h : SlotInv d) (created : Bool) :
    AcceptorMove d (acceptorStep created d) := by
  cases hacc : d.acceptor with
  | listening =>
    simp only [acceptorStep, hacc]
    split <;> exact .keep (by simp [Daemon.held, hacc]) rfl fun _ _ => serves_congr rfl fun _ _ _ => rfl
  | selecting =>
    simp only [acceptorStep, hacc]
    exact .keep (by simp [Daemon.held, hacc]) rfl fun _ _ => serves_congr rfl fun _ _ _ => rfl
  | testing conn newClient =>
    simp only [acceptorStep, hacc]
    split <;> exact .keep (by simp [Daemon.held, hacc]) rfl fun _ _ => serves_congr rfl fun _ _ _ => rfl
  | scanning conn newClient x =>
    have hscan := h.scan
    rw [hacc] at hscan
    obtain ⟨y, hxy, -⟩ := hscan x rfl
    simp only [acceptorStep, hacc]
    split
    · next hx =>
      split
      · next hsd =>
        refine .keep (by simp [Daemon.held, hacc]) rfl fun _ _ => serves_congr rfl ?_
        intro t ht howns
        simp only [Server.setClient_other _ _ _ (h.free_ne hsd ht howns)]
      · exact .keep (by simp [Daemon.held, hacc]) rfl fun _ _ => serves_congr rfl fun _ _ _ => rfl
    · exact absurd y.isLt (by omega)
  | claimed conn x =>
    simp only [acceptorStep, hacc]
    refine .keep (by simp [Daemon.held, hacc]) rfl fun _ _ => serves_congr rfl ?_
    intro t ht howns
    simp only [Server.setClient_other _ _ _ (h.slot_ne (by rw [hacc]; rfl) ht howns)]
  | filled conn x =>
    simp only [acceptorStep, hacc]
    exact .keep (by simp [Daemon.held, hacc]) rfl fun _ _ => serves_congr rfl fun _ _ _ => rfl
  | creating conn x =>
    simp only [acceptorStep, hacc]
    split
    · refine .handOver conn (d.server.clients x).clientSd (by simp [Daemon.held, hacc])
        (by simp [Daemon.held]) rfl fun c n => ?_
      simp only [Daemon.Serves, List.mem_append, List.mem_singleton, or_and_right, exists_or,
        exists_eq_left, ClientPc.closes, true_and]
      exact or_congr_right (and_congr eq_comm eq_comm)
    · exact .keep (by simp [Daemon.held, hacc]) rfl fun _ _ => serves_congr rfl fun _ _ _ => rfl
  | unservedClose conn x =>
    simp only [acceptorStep, hacc]
    exact .close conn (d.server.clients x).clientSd (by simp [Daemon.held, hacc])
      (by simp [Daemon.held]) rfl fun _ _ => serves_congr rfl fun _ _ _ => rfl
  | unservedUnset conn x =>
    simp only [acceptorStep, hacc]
    refine .keep (by simp [Daemon.held, hacc]) rfl fun _ _ => serves_congr rfl ?_
    intro t ht howns
    simp only [Server.setClient_other _ _ _ (h.slot_ne (by rw [hacc]; rfl) ht howns)]
  | unservedDisconnect conn x =>
    simp only [acceptorStep, hacc]
    refine .keep (by simp [Daemon.held, hacc]) rfl fun _ _ => serves_congr rfl ?_
    intro t ht howns
    by_cases hx : t.client = x
    · simp only [hx, Server.setClient_self]
    · simp only [Server.setClient_other _ _ _ hx]
  | unservedUncount conn x =>
    simp only [acceptorStep, hacc]
    exact .keep (by simp [Daemon.held, hacc]) rfl fun _ _ => serves_congr rfl fun _ _ _ => rfl
  | rejecting conn newClient =>
    simp only [acceptorStep, hacc]
    exact .close conn newClient (by simp [Daemon.held, hacc]) (by simp [Daemon.held]) rfl
      fun _ _ => serves_congr rfl fun _ _ _ => rfl
  | returned =>
    simp only [acceptorStep, hacc]
    exact .keep rfl rfl fun _ _ => Iff.rfl

theorem acceptorStep_closes (created : Bool) :
    (acceptorStep created d).server.closes = d.server.closes := by
  cases hacc : d.acceptor <;> simp only [acceptorStep, hacc] <;> repeat' split
  all_goals rfl

end acceptor

section client

variable {d : Daemon} {i : Nat} {t t' : ClientThread} {s' : Server}

/-- What a step of a thread does about descriptors: nothing, or it closes its number. -/
inductive ClientMove (d d' : Daemon) : Prop where
  | keep (descriptors : d'.server.descriptors = d.server.descriptors)
      (closes : d'.server.closes = d.server.closes)
      (serves : ∀ conn fd, d'.Serves conn fd ↔ d.Serves conn fd)
  | close (conn : Nat) (fd : Int) (before : d.Serves conn fd)
      (descriptors : d'.server.descriptors = Function.update d.server.descriptors fd none)
      (closes : d'.server.closes = d.server.closes ++ [⟨conn, fd, d.server.descriptors fd⟩])
      (serves : ∀ c n, d'.Serves c n → d.Serves c n)
      (others : ∀ c n, d.Serves c n → n ≠ fd → d'.Serves c n)

/-- The slots of the threads that still have to close keep their descriptor. -/
theorem sd_step (h : SlotInv d) (hi : d.threads[i]? = some t) (e : Effect d.server t s' t')
    {j : Nat} {u : ClientThread} (hj : d.threads[j]? = some u) (hu : u.pc.owns = true)
    (hown : j = i → t'.pc.owns = true) :
    (s'.clients u.client).clientSd = (d.server.clients u.client).clientSd := by
  by_cases hji : j = i
  · subst hji
    rw [hi] at hj
    cases hj
    rcases e.own hu with hkept | ⟨hout, -⟩
    · exact hkept.2.2
    · rw [hown rfl] at hout
      cases hout
  · rw [e.other u.client fun howns heq => hji (h.client_unique hj hi hu howns heq)]

theorem serves_of_step (h : SlotInv d) (hi : d.threads[i]? = some t) (e : Effect d.server t s' t')
    (hcloses : t'.pc.closes = true → t.pc.closes = true) {conn : Nat} {fd : Int}
    (hs : Daemon.Serves { d with server := s', threads := d.threads.set i t' } conn fd) :
    d.Serves conn fd := by
  obtain ⟨u, hu, hucloses, huconn, hufd⟩ := hs
  have howns := ClientPc.owns_of_closes hucloses
  obtain ⟨j, hj⟩ := List.mem_iff_getElem?.mp hu
  by_cases hji : j = i
  · subst hji
    rw [List.getElem?_set_self (List.getElem?_eq_some_iff.mp hi).1] at hj
    cases hj
    have hsd := sd_step h hi e hi (ClientPc.owns_of_closes (hcloses hucloses)) fun _ => howns
    rw [e.client, hsd] at hufd
    exact ⟨t, List.mem_of_getElem? hi, hcloses hucloses, e.conn ▸ huconn, hufd⟩
  · rw [List.getElem?_set_ne (Ne.symm hji)] at hj
    rw [sd_step h hi e hj howns fun heq => absurd heq hji] at hufd
    exact ⟨u, List.mem_of_getElem? hj, hucloses, huconn, hufd⟩

theorem serves_step (h : SlotInv d) (hi : d.threads[i]? = some t) (e : Effect d.server t s' t')
    {conn : Nat} {fd : Int} (hs : d.Serves conn fd)
    (hcloses : t.pc.closes = true → (d.server.clients t.client).clientSd = fd →
      t'.pc.closes = true) :
    Daemon.Serves { d with server := s', threads := d.threads.set i t' } conn fd := by
  obtain ⟨u, hu, hucloses, huconn, hufd⟩ := hs
  have howns := ClientPc.owns_of_closes hucloses
  obtain ⟨j, hj⟩ := List.mem_iff_getElem?.mp hu
  by_cases hji : j = i
  · subst hji
    rw [hi] at hj
    cases hj
    have hcloses' := hcloses hucloses hufd
    have hsd := sd_step h hi e hi howns fun _ => ClientPc.owns_of_closes hcloses'
    refine ⟨t', Pool.mem_set_self hi, hcloses', e.conn ▸ huconn, ?_⟩
    rw [e.client, hsd, hufd]
  · refine ⟨u, Pool.mem_set_of_ne hj hji, hucloses, huconn, ?_⟩
    rw [sd_step h hi e hj howns fun heq => absurd heq hji, hufd]

theorem held_step (h : SlotInv d) (ht : t ∈ d.threads) (e : Effect d.server t s' t')
    (threads : List ClientThread) :
    Daemon.held { d with server := s', threads } = d.held := by
  have hslot : ∀ x, d.acceptor.slot = some x → s'.clients x = d.server.clients x := by
    intro x hx
    exact e.other x fun howns heq => h.slot_ne hx ht howns heq.symm
  unfold Daemon.held
  cases hacc : d.acceptor with
  | claimed conn x | filled conn x | creating conn x | unservedClose conn x =>
    simp only [hslot x (by rw [hacc]; rfl)]
  | _ => rfl

theorem clientStep_move (h : SlotInv d) (hi : d.threads[i]? = some t) (outcome : Outcome) :
    ClientMove d { d with
      server := (clientStep t outcome d.server).1
      threads := d.threads.set i (clientStep t outcome d.server).2 } := by
  have ht := List.mem_of_getElem? hi
  have e := clientStep_effect (h.own t ht) outcome
  rcases @clientStep_descriptors t outcome d.server (h.own t ht) with
    ⟨hpc, hdescriptors, hcloses⟩ | ⟨hpc, hdescriptors, hcloses⟩
  · refine .keep hdescriptors hcloses fun conn fd => ⟨fun hs => ?_, fun hs => ?_⟩
    · exact serves_of_step h hi e (fun hc => hpc ▸ hc) hs
    · exact serves_step h hi e hs fun hc _ => hpc.symm ▸ hc
  · refine .close t.conn (d.server.clients t.client).clientSd ⟨t, ht, hpc, rfl, rfl⟩ hdescriptors
      hcloses (fun c n hs => ?_) fun c n hs hn => ?_
    · exact serves_of_step h hi e (fun _ => hpc) hs
    · exact serves_step h hi e hs fun _ heq => absurd heq.symm hn

end client

/-! ## Who owns the descriptors -/

/-- A descriptor of a connection is still known to who has to close it. -/
def Daemon.Closable (d : Daemon) : Prop :=
  ∀ conn fd, d.server.descriptors fd = some (.connection conn) →
    d.held = some (conn, fd) ∨ d.Serves conn fd

/-- The numbers that are going to be closed stand for the connection or for nothing, and
so did those that have been closed. -/
structure OwnNumbers (d : Daemon) : Prop where
  held : ∀ conn fd, d.held = some (conn, fd) → d.server.descriptors fd = some (.connection conn)
  serves : ∀ conn fd, d.Serves conn fd →
    d.server.descriptors fd = none ∨ d.server.descriptors fd = some (.connection conn)
  closes : ∀ r ∈ d.server.closes, r.victim = none ∨ r.victim = some (.connection r.conn)

variable {d : Daemon}

theorem held_conn {conn : Nat} {fd : Int} (h : d.held = some (conn, fd)) :
    d.acceptor.conn = some conn := by
  unfold Daemon.held at h
  cases hacc : d.acceptor <;> rw [hacc] at h <;> simp_all [AcceptorPc.conn]

/-- The connection that the server routine deals with has no thread yet. -/
theorem SlotInv.conn_ne (h : SlotInv d) {conn : Nat} (hconn : d.acceptor.conn = some conn)
    {t : ClientThread} (ht : t ∈ d.threads) : t.conn ≠ conn := by
  rintro rfl
  have hplaces := h.places t.conn
  have hpos : 0 < d.threads.countP fun u => decide (u.conn = t.conn) :=
    List.countP_pos_iff.mpr ⟨t, ht, by simp⟩
  simp only [Daemon.places, hconn, decide_true, Bool.toNat_true] at hplaces
  split_ifs at hplaces
  omega

theorem Daemon.Closable.acceptor (hc : d.Closable) {d' : Daemon} (hm : AcceptorMove d d') :
    d'.Closable := by
  intro conn fd hfd
  cases hm with
  | keep held descriptors serves =>
    rw [descriptors] at hfd
    rw [held, serves]
    exact hc conn fd hfd
  | handOver conn' fd' before after descriptors serves =>
    rw [descriptors] at hfd
    rw [serves]
    rcases hc conn fd hfd with hheld | hserves
    · rw [before] at hheld
      cases hheld
      exact .inr (.inr ⟨rfl, rfl⟩)
    · exact .inr (.inl hserves)
  | close conn' fd' before after descriptors serves =>
    rw [descriptors] at hfd
    rw [serves]
    by_cases heq : fd = fd'
    · rw [heq, Function.update_self] at hfd
      cases hfd
    · rw [Function.update_of_ne heq] at hfd
      rcases hc conn fd hfd with hheld | hserves
      · rw [before] at hheld
        cases hheld
        exact absurd rfl heq
      · exact .inr hserves

theorem Daemon.Closable.client (hc : d.Closable) {d' : Daemon} (hheld : d'.held = d.held)
    (hm : ClientMove d d') : d'.Closable := by
  intro conn fd hfd
  cases hm with
  | keep descriptors closes serves =>
    rw [descriptors] at hfd
    rw [hheld, serves]
    exact hc conn fd hfd
  | close conn' fd' before descriptors closes serves others =>
    rw [descriptors] at hfd
    by_cases heq : fd = fd'
    · rw [heq, Function.update_self] at hfd
      cases hfd
    · rw [Function.update_of_ne heq] at hfd
      rcases hc conn fd hfd with hd | hserves
      · exact .inl (hheld ▸ hd)
      · exact .inr (others conn fd hserves heq)

/-- No connection is left open without someone to close it. -/
theorem closable_step (h : SlotInv d) (hc : d.Closable) (a : DaemonAction) :
    (daemonStep d a).Closable := by
  cases a with
  | accept newClient =>
    simp only [daemonStep]
    split
    · next hacc =>
      intro conn fd hfd
      by_cases heq : fd = newClient
      · subst heq
        simp only [Server.grant_self, Option.some.injEq, Owner.connection.injEq] at hfd
        exact .inl (by rw [← hfd]; rfl)
      · simp only [Server.grant_other _ _ _ heq] at hfd
        rcases hc conn fd hfd with hheld | hserves
        · simp [Daemon.held, hacc.1] at hheld
        · exact .inr hserves
    · exact hc
  | selectFails =>
    simp only [daemonStep]
    split
    · next hacc =>
      intro conn fd hfd
      rcases hc conn fd hfd with hheld | hserves
      · simp [Daemon.held, hacc] at hheld
      · exact .inr hserves
    · exact hc
  | acceptor created =>
    simp only [daemonStep]
    split
    · exact hc
    · exact hc.acceptor (acceptorStep_move h created)
  | client i outcome =>
    simp only [daemonStep]
    split
    · next t ht =>
      split
      · exact hc
      · have hmem := List.mem_of_getElem? ht
        exact hc.client (held_step h hmem (clientStep_effect (h.own t hmem) outcome) _)
          (clientStep_move h ht outcome)
    · exact hc
  | terminate => exact hc
  | free =>
    simp only [daemonStep]
    split <;> exact hc
  | openOther fd' =>
    simp only [daemonStep]
    split
    · intro conn fd hfd
      by_cases heq : fd = fd'
      · simp [heq] at hfd
      · simp only [Server.grant_other _ _ _ heq] at hfd
        exact hc conn fd hfd
    · exact hc
  | closeOther fd' =>
    simp only [daemonStep]
    split
    · intro conn fd hfd
      by_cases heq : fd = fd'
      · simp [heq] at hfd
      · simp only [Server.close_other _ _ heq] at hfd
        exact hc conn fd hfd
    · exact hc

theorem OwnNumbers.acceptor (ho : OwnNumbers d) {d' : Daemon} (hm : AcceptorMove d d')
    (hcloses : d'.server.closes = d.server.closes) : OwnNumbers d' := by
  cases hm with
  | keep held descriptors serves =>
    refine ⟨fun conn fd hheld => ?_, fun conn fd hserves => ?_, ?_⟩
    · rw [descriptors]
      exact ho.held conn fd (held ▸ hheld)
    · rw [descriptors]
      exact ho.serves conn fd ((serves conn fd).mp hserves)
    · rw [hcloses]
      exact ho.closes
  | handOver conn' fd' before after descriptors serves =>
    refine ⟨fun conn fd hheld => ?_, fun conn fd hserves => ?_, ?_⟩
    · rw [after] at hheld
      cases hheld
    · rw [descriptors]
      rcases (serves conn fd).mp hserves with hserves | ⟨rfl, rfl⟩
      · exact ho.serves conn fd hserves
      · exact .inr (ho.held _ _ before)
    · rw [hcloses]
      exact ho.closes
  | close conn' fd' before after descriptors serves =>
    refine ⟨fun conn fd hheld => ?_, fun conn fd hserves => ?_, ?_⟩
    · rw [after] at hheld
      cases hheld
    · rw [descriptors]
      by_cases heq : fd = fd'
      · rw [heq, Function.update_self]
        exact .inl rfl
      · rw [Function.update_of_ne heq]
        exact ho.serves conn fd ((serves conn fd).mp hserves)
    · rw [hcloses]
      exact ho.closes

theorem OwnNumbers.client (h : SlotInv d) (ho : OwnNumbers d) {d' : Daemon}
    (hheld : d'.held = d.held) (hm : ClientMove d d') : OwnNumbers d' := by
  cases hm with
  | keep descriptors closes serves =>
    refine ⟨fun conn fd hd => ?_, fun conn fd hserves => ?_, ?_⟩
    · rw [descriptors]
      exact ho.held conn fd (hheld ▸ hd)
    · rw [descriptors]
      exact ho.serves conn fd ((serves conn fd).mp hserves)
    · rw [closes]
      exact ho.closes
  | close conn' fd' before descriptors closes serves others =>
    refine ⟨fun conn fd hd => ?_, fun conn fd hserves => ?_, ?_⟩
    · rw [hheld] at hd
      have howner := ho.held conn fd hd
      rw [descriptors]
      -- the number would stand for two connections
      by_cases heq : fd = fd'
      · subst heq
        rcases ho.serves _ _ before with hnone | hsome
        · rw [howner] at hnone
          cases hnone
        · rw [howner] at hsome
          cases hsome
          obtain ⟨t, ht, -, hconn, -⟩ := before
          exact absurd hconn (h.conn_ne (held_conn hd) ht)
      · rw [Function.update_of_ne heq]
        exact howner
    · rw [descriptors]
      by_cases heq : fd = fd'
      · rw [heq, Function.update_self]
        exact .inl rfl
      · rw [Function.update_of_ne heq]
        exact ho.serves conn fd (serves conn fd hserves)
    · rw [closes]
      intro r hr
      rcases List.mem_append.mp hr with hr | hr
      · exact ho.closes r hr
      · rw [List.mem_singleton.mp hr]
        exact ho.serves conn' fd' before

/-- A number that no thread is going to close is handed out. -/
theorem OwnNumbers.grant (ho : OwnNumbers d) {fd : Int} (owner : Owner) {d' : Daemon}
    (hfree : d.server.Free fd) (hfd : ∀ t ∈ d.threads, t.pc.closes = true →
      (d.server.clients t.client).clientSd ≠ fd)
    (hserver : d'.server = d.server.grant fd owner) (hthreads : d'.threads = d.threads)
    (hheld : ∀ conn n, d'.held = some (conn, n) →
      d.held = some (conn, n) ∨ n = fd ∧ owner = .connection conn) : OwnNumbers d' := by
  refine ⟨fun conn n hd => ?_, fun conn n hserves => ?_, ?_⟩
  · rw [hserver]
    rcases hheld conn n hd with hd | ⟨rfl, rfl⟩
    · have howner := ho.held conn n hd
      have hne : n ≠ fd := by
        rintro rfl
        rw [hfree.2] at howner
        cases howner
      rw [Server.grant_other _ _ _ hne]
      exact howner
    · exact Server.grant_self ..
  · have hold : d.Serves conn n := by
      rw [← serves_congr hthreads fun t _ _ => by rw [hserver]; rfl]
      exact hserves
    have hne : n ≠ fd := by
      rintro rfl
      obtain ⟨t, ht, hcloses, -, hn⟩ := hold
      exact hfd t ht hcloses hn
    rw [hserver, Server.grant_other _ _ _ hne]
    exact ho.serves conn n hold
  · rw [hserver]
    exact ho.closes

theorem ownNumbers_step (h : SlotInv d) (ho : OwnNumbers d) {a : DaemonAction}
    (ha : NotPending d a) : OwnNumbers (daemonStep d a) := by
  cases a with
  | accept newClient =>
    simp only [daemonStep]
    split
    · next hacc =>
      refine ho.grant (.connection d.accepted) hacc.2.2 ha rfl rfl fun conn n hd => .inr ?_
      cases hd
      exact ⟨rfl, rfl⟩
    · exact ho
  | selectFails =>
    simp only [daemonStep]
    split
    · next hacc =>
      refine ⟨fun conn n hd => ?_, ho.serves, ho.closes⟩
      cases hd
    · exact ho
  | acceptor created =>
    simp only [daemonStep]
    split
    · exact ho
    · exact ho.acceptor (acceptorStep_move h created) (acceptorStep_closes created)
  | client i outcome =>
    simp only [daemonStep]
    split
    · next t ht =>
      split
      · exact ho
      · have hmem := List.mem_of_getElem? ht
        exact ho.client h (held_step h hmem (clientStep_effect (h.own t hmem) outcome) _)
          (clientStep_move h ht outcome)
    · exact ho
  | terminate => exact ⟨ho.held, ho.serves, ho.closes⟩
  | free =>
    simp only [daemonStep]
    split
    · exact ⟨ho.held, ho.serves, ho.closes⟩
    · exact ho
  | openOther fd =>
    simp only [daemonStep]
    split
    · next hfree => exact ho.grant .other hfree ha rfl rfl fun conn n hd => .inl hd
    · exact ho
  | closeOther fd =>
    simp only [daemonStep]
    split
    · next hother =>
      refine ⟨fun conn n hd => ?_, fun conn n hserves => ?_, ho.closes⟩
      · have howner := ho.held conn n hd
        have hne : n ≠ fd := by
          rintro rfl
          rw [hother] at howner
          cases howner
        simp only [Server.close_other _ _ hne]
        exact howner
      · by_cases hne : n = fd
        · simp [hne]
        · simp only [Server.close_other _ _ hne]
          exact ho.serves conn n hserves
    · exact ho

theorem ownNumbers_init (held : Int → Bool) : OwnNumbers (.init held) := by
  refine ⟨fun conn n hd => ?_, fun conn n hserves => ?_, fun r hr => ?_⟩
  · cases hd
  · obtain ⟨t, ht, -⟩ := hserves
    cases ht
  · cases hr

/-- In a run in which no number is handed out that a thread is going to close, a
disconnecting client closes nothing but its own connection. -/
theorem disconnect_closes_own {held : Int → Bool} {as : List DaemonAction}
    (h : Run.Along daemonStep NotPending (.init held) as) :
    ∀ r ∈ (Run.run daemonStep (.init held) as).server.closes,
      r.victim = none ∨ r.victim = some (.connection r.conn) := by
  have hinv := Run.along_invariant (I := fun d => SlotInv d ∧ OwnNumbers d)
    (fun d a hd ha => ⟨hd.1.step a, ownNumbers_step hd.1 hd.2 ha⟩)
    ⟨slotInv_init held, ownNumbers_init held⟩ h
  exact hinv.2.closes

/-- The server routine accepts a connection and creates its thread. -/
def connects (newClient : Int) : List DaemonAction :=
  [.acceptor true, .accept newClient] ++ List.replicate 5 (.acceptor true)

/-- A thread opens its streams, gets no mode code and disconnects down to the first
`close`. -/
def timesOut (i : Nat) : List DaemonAction :=
  [.client i .done, .client i .done, .client i .done, .client i (.code (-3)), .client i .done,
    .client i .done]

/-- The first client disconnects while the second one stays connected. -/
theorem disconnect_closes_own_two :
    ∃ r ∈ (Run.run daemonStep (.init fun fd => decide (fd ≤ 6)) (connects 7 ++ connects 8 ++
        timesOut 0 ++ List.replicate 8 (.client 0 .done))).server.closes,
      r.conn = 0 ∧ (r.victim = none ∨ r.victim = some (.connection r.conn)) := by
  have hclosed : (⟨0, 7, some (.connection 0)⟩ : CloseRecord) ∈ (Run.run daemonStep
      (.init fun fd => decide (fd ≤ 6)) (connects 7 ++ connects 8 ++ timesOut 0 ++
        List.replicate 8 (.client 0 .done))).server.closes := by decide
  exact ⟨_, hclosed, rfl, disconnect_closes_own (by decide) _ hclosed⟩

/-- The number is handed out to the next client while the first one is disconnecting. -/
theorem not_disconnect_closes_own :
    ¬ ∀ (held : Int → Bool) (as : List DaemonAction),
      ∀ r ∈ (Run.run daemonStep (.init held) as).server.closes,
        r.victim = none ∨ r.victim = some (.connection r.conn) := by
  intro h
  have hclosed : (⟨0, 7, some (.connection 1)⟩ : CloseRecord) ∈ (Run.run daemonStep
      (.init fun fd => decide (fd ≤ 6)) (connects 7 ++ timesOut 0 ++ connects 7 ++
        [.client 0 .done, .client 0 .done])).server.closes := by decide
  rcases h _ _ _ hclosed with hv | hv <;> cases hv

end NemeaSupervisor
