import NemeaSupervisor.ServiceLinks

/-!
# Requests and replies of a service cycle

What has gone over a connection is a sequence of rounds: one request and one
complete reply. A cycle adds one round to every connection that is still open
when it ends, so a reply is never left for a later request; whatever fails in
between ends the connection.
-/

namespace NemeaSupervisor

open Loop

/-- A request for statistics: a header that announces no data. -/
def IsRequest (bytes : List UInt8) : Prop :=
  ∃ header : ServiceMsgHeader, bytes = header.bytes ∧ header.com = serviceGetCom ∧
    header.dataSize = 0

/-- A positive reply with as much data as its header announces. -/
def IsReply (head data : List UInt8) : Prop :=
  ∃ header : ServiceMsgHeader, head = header.bytes ∧ header.com = serviceOkReply ∧
    data.length = header.dataSize

/-- One request and then its complete reply. -/
inductive Round : Wire → Prop where
  | mk {request head data : List UInt8} (hrequest : IsRequest request) (hreply : IsReply head data) :
    Round [.sent request, .received head, .received data]

/-- Nothing but rounds. -/
def Rounds (wire : Wire) : Prop := ∃ rounds : List Wire, wire = rounds.flatten ∧ ∀ r ∈ rounds, Round r

theorem Rounds.nil : Rounds [] := ⟨[], rfl, fun _ h => absurd h List.not_mem_nil⟩

theorem Rounds.snoc {wire r : Wire} (h : Rounds wire) (hr : Round r) : Rounds (wire ++ r) := by
  obtain ⟨rounds, rfl, hrounds⟩ := h
  refine ⟨rounds ++ [r], by simp, fun r' hr' => ?_⟩
  rcases List.mem_append.mp hr' with hr' | hr'
  · exact hrounds r' hr'
  · exact List.mem_singleton.mp hr' ▸ hr

/-- What a connection had carried before: nothing if it has been opened since. -/
def carriedBefore (newer : List Event) (wires : Int → Wire) (sd : Int) : Wire :=
  if .connected sd ∈ newer then [] else wires sd

/-- A cycle has added exactly one round to every connection that it leaves open. -/
def Exchanged (d d' : ServiceState) : Prop :=
  ∃ newer, d'.world.kernel.trace = newer ++ d.world.kernel.trace ∧
    ∀ m ∈ d'.world.sup.loaded, m.moduleServiceIfcIsconnected = true →
      ∃ round, Round round ∧ d'.wires m.moduleServiceSd =
        carriedBefore newer d.wires m.moduleServiceSd ++ round

/-! ## Sending and receiving -/

theorem request_isRequest (header : ServiceMsgHeader) : IsRequest header.request.bytes :=
  ⟨header.request, rfl, rfl, rfl⟩

theorem length_bytes (header : ServiceMsgHeader) : header.bytes.length = 8 := List.length_ofFn

/-- A header received as a whole is the one that was sent. -/
theorem overwrite_bytes (header : ServiceMsgHeader) {received : List UInt8}
    (h : received.length = 8) : (header.overwrite received).bytes = received := by
  apply List.ext_getElem
  · rw [length_bytes, h]
  · intro i _ hi
    simp only [ServiceMsgHeader.bytes, ServiceMsgHeader.overwrite, List.getElem_ofFn]
    rw [List.getD_eq_getElem?_getD, List.getElem?_eq_getElem hi, Option.getD_some]

theorem sendLoop_ok {size numOfTimeouts totalSent : Nat} {results : List SendResult}
    (h : (sendLoop size numOfTimeouts totalSent results).2 = true) :
    size ≤ (sendLoop size numOfTimeouts totalSent results).1 := by
  induction results generalizing numOfTimeouts totalSent with
  | nil => simpa [sendLoop] using h
  | cons r results ih =>
    unfold sendLoop at h ⊢
    by_cases hdone : size ≤ totalSent
    · rw [if_pos hdone]
      exact hdone
    · rw [if_neg hdone] at h ⊢
      cases r with
      | sent n => exact ih h
      | failed => exact absurd h (by simp)
      | wouldBlock =>
        simp only [] at h ⊢
        split_ifs at h ⊢ with hmax
        exact ih h

/-- A send that succeeds has sent everything. -/
theorem serviceSendData_ok {data : List UInt8} {results : List SendResult}
    (h : (serviceSendData data results).2 = true) : (serviceSendData data results).1 = data :=
  List.take_of_length_le (sendLoop_ok h)

theorem recvLoop_length {size numOfTimeouts : Nat} {received : List UInt8}
    {results : List RecvResult} (hle : received.length ≤ size) :
    (recvLoop size numOfTimeouts received results).bytes.length ≤ size ∧
      ((recvLoop size numOfTimeouts received results).ok = true →
        size ≤ (recvLoop size numOfTimeouts received results).bytes.length) := by
  induction results generalizing numOfTimeouts received with
  | nil => exact ⟨hle, fun h => by simpa [recvLoop] using h⟩
  | cons r results ih =>
    unfold recvLoop
    by_cases hdone : size ≤ received.length
    · rw [if_pos hdone]
      exact ⟨hle, fun _ => hdone⟩
    · rw [if_neg hdone]
      cases r with
      | failed => exact ⟨hle, fun h => absurd h (by simp)⟩
      | wouldBlock =>
        simp only []
        split_ifs
        · exact ⟨hle, fun h => absurd h (by simp)⟩
        · exact ih hle
      | received bytes =>
        cases bytes with
        | nil => exact ⟨hle, fun h => absurd h (by simp)⟩
        | cons b bytes =>
          refine ih ?_
          rw [List.length_append, List.length_take]
          omega

/-- A receive that succeeds has received exactly what was asked for. -/
theorem serviceRecvData_ok {size : Nat} {results : List RecvResult}
    (h : (serviceRecvData size results).ok = true) :
    (serviceRecvData size results).bytes.length = size := by
  obtain ⟨hle, hge⟩ := @recvLoop_length size 0 [] results (Nat.zero_le size)
  exact Nat.le_antisymm hle (hge h)

/-! ## A loop that sends or receives -/

/-- Only the connection `sd` carries something while the world moves. -/
structure OnWire (sd : Int) (d d1 : ServiceState) : Prop where
  world : d1.world = d.wait.world
  wires : ∀ sd' ≠ sd, d1.wires sd' = d.wires sd'

/-- What an iteration does to its slot: nothing where there is no connection, else the exchange
succeeds or ends the connection. -/
inductive SlotExchange (H : ServiceMsgHeader → Prop) (P Q : Int → Wire → Prop) (x : Nat)
    (d : ServiceState) : ServiceState → Prop where
  | off (hoff : ∀ m, d.world.sup.loaded[x]? = some m → m.moduleServiceIfcIsconnected = false) :
    SlotExchange H P Q x d d
  | done {m : RunningModule} {d1 : ServiceState} (hx : d.world.sup.loaded[x]? = some m)
    (hconnected : m.moduleServiceIfcIsconnected = true) (hwire : OnWire m.moduleServiceSd d d1)
    (hheader : H d1.header)
    (hdone : P m.moduleServiceSd (d.wires m.moduleServiceSd) →
      Q m.moduleServiceSd (d1.wires m.moduleServiceSd)) :
    SlotExchange H P Q x d d1
  | failed {m : RunningModule} {d1 : ServiceState} (hx : d.world.sup.loaded[x]? = some m)
    (hconnected : m.moduleServiceIfcIsconnected = true) (hwire : OnWire m.moduleServiceSd d d1)
    (hheader : H d1.header) :
    SlotExchange H P Q x d (d1.disconnect x m)

section exchange

variable {H : ServiceMsgHeader → Prop} {P Q : Int → Wire → Prop} {x : Nat} {d d' : ServiceState}
  {w0 : World}

theorem SlotExchange.header (h : SlotExchange H P Q x d d') (hd : H d.header) : H d'.header := by
  cases h with
  | off => exact hd
  | done _ _ _ hheader => exact hheader
  | failed _ _ _ hheader => exact hheader

theorem SlotExchange.linked (h : SlotExchange H P Q x d d') (hd : LinkedSince w0 d.world) :
    LinkedSince w0 d'.world := by
  cases h with
  | off => exact hd
  | done hx hconnected hwire =>
    rw [hwire.world]
    exact hd.kernel (turn_sameLinks _)
  | failed hx hconnected hwire =>
    simp only [ServiceState.disconnect, ServiceState.lift, hwire.world]
    exact (hd.kernel (turn_sameLinks _)).disconnect hx

theorem SlotExchange.quietly (h : SlotExchange H P Q x d d') : Quietly d.world d'.world := by
  cases h with
  | off => exact .refl
  | done hx hconnected hwire =>
    rw [hwire.world]
    exact turn_quietly d.world
  | failed hx hconnected hwire =>
    simp only [ServiceState.disconnect, ServiceState.lift, hwire.world]
    exact (turn_quietly d.world).trans
      (serviceDisconnectFromModule_quietly (w := { d.world with kernel := _ }) hx)

/-- A connection after an iteration: of its slot, with the exchange made, or of another slot,
where nothing has happened. -/
theorem SlotExchange.get (h : SlotExchange H P Q x d d') {y : Nat} {m : RunningModule}
    (hinv : LinkInv d.world) (hy : d'.world.sup.loaded[y]? = some m)
    (hconnected : m.moduleServiceIfcIsconnected = true) :
    d.world.sup.loaded[y]? = some m ∧
      (y = x ∧ (P m.moduleServiceSd (d.wires m.moduleServiceSd) →
          Q m.moduleServiceSd (d'.wires m.moduleServiceSd)) ∨
        y ≠ x ∧ d'.wires m.moduleServiceSd = d.wires m.moduleServiceSd) := by
  have other : ∀ {m0 : RunningModule} {d1 : ServiceState}, d.world.sup.loaded[x]? = some m0 →
      m0.moduleServiceIfcIsconnected = true → OnWire m0.moduleServiceSd d d1 →
      d.world.sup.loaded[y]? = some m → y ≠ x →
        d1.wires m.moduleServiceSd = d.wires m.moduleServiceSd := by
    intro m0 d1 hx hconnected0 hwire hy hne
    refine hwire.wires _ fun hsd => hne ?_
    exact connections_inj (hinv.held.nodup_iff.mp hinv.distinct) hy hx
      (link_eq_some.mpr ⟨hconnected, rfl⟩) (link_eq_some.mpr ⟨hconnected0, hsd.symm⟩)
  cases h with
  | off hoff =>
    refine ⟨hy, .inr ⟨?_, rfl⟩⟩
    rintro rfl
    exact absurd ((hoff m hy).symm.trans hconnected) (by decide)
  | @done m0 _ hx hconnected0 hwire _ hdone =>
    rw [hwire.world] at hy
    have hy : d.world.sup.loaded[y]? = some m := hy
    refine ⟨hy, ?_⟩
    by_cases hxy : y = x
    · subst hxy
      rw [hx, Option.some.injEq] at hy
      exact .inl ⟨rfl, hy ▸ hdone⟩
    · exact .inr ⟨hxy, other hx hconnected0 hwire hy hxy⟩
  | @failed m0 d1 hx hconnected0 hwire =>
    obtain ⟨k, m', heq, hoff⟩ := disconnect_spec x m0 d1.world
    have hx' : d1.world.sup.loaded[x]? = some m0 := by rw [hwire.world]; exact hx
    simp only [ServiceState.disconnect, ServiceState.lift, heq] at hy
    rcases getElem?_setModule hx' hy with ⟨-, rfl⟩ | ⟨hne, hy⟩
    · exact absurd (hoff.symm.trans hconnected) (by decide)
    · rw [hwire.world] at hy
      have hsame := other hx hconnected0 hwire hy hne
      exact ⟨hy, .inr ⟨hne, hsame⟩⟩

theorem SlotExchange.length (h : SlotExchange H P Q x d d') :
    d'.world.sup.loaded.length = d.world.sup.loaded.length := by
  cases h with
  | off => rfl
  | done hx hconnected hwire =>
    rw [hwire.world]
    rfl
  | @failed m0 d1 hx hconnected hwire =>
    obtain ⟨k, m', heq, -⟩ := disconnect_spec x m0 d1.world
    simp only [ServiceState.disconnect, ServiceState.lift, heq, World.setModule,
      Supervisor.setModule, List.length_set]
    rw [hwire.world]
    rfl

end exchange

/-- The slot that holds an open descriptor. -/
theorem LinkInv.slot {w : World} (h : LinkInv w) {sd : Int} (hsd : sd ∈ openSds w.kernel.trace) :
    ∃ (y : Nat) (m : RunningModule), w.sup.loaded[y]? = some m ∧
      m.moduleServiceIfcIsconnected = true ∧ m.moduleServiceSd = sd := by
  obtain ⟨m, hm, hconnected, hsd⟩ := mem_connections.mp (h.held.mem_iff.mp hsd)
  obtain ⟨y, hy⟩ := List.mem_iff_getElem?.mp hm
  exact ⟨y, m, hy, hconnected, hsd⟩

/-- The descriptor of a connected slot is open. -/
theorem LinkInv.opened {w : World} (h : LinkInv w) {m : RunningModule} (hm : m ∈ w.sup.loaded)
    (hconnected : m.moduleServiceIfcIsconnected = true) :
    m.moduleServiceSd ∈ openSds w.kernel.trace :=
  h.held.mem_iff.mpr (mem_connections.mpr ⟨m, hm, hconnected, rfl⟩)

/-- After the loop every connection that is left has made its exchange. -/
theorem forModules_exchange {H : ServiceMsgHeader → Prop} {P Q : Int → Wire → Prop}
    {body : Nat → ServiceState → ServiceState} {w0 : World}
    (hbody : ∀ x t, LinkInv t.world → H t.header → SlotExchange H P Q x t (body x t))
    {d : ServiceState} (hd : LinkedSince w0 d.world) (hheader : H d.header)
    (hwires : ∀ sd ∈ openSds d.world.kernel.trace, P sd (d.wires sd)) :
    LinkedSince w0 (d.forModules body).world ∧ Quietly d.world (d.forModules body).world ∧
      ∀ sd ∈ openSds (d.forModules body).world.kernel.trace, Q sd ((d.forModules body).wires sd) := by
  have hloop := @forRange_invariant _ d.world.sup.loadedModulesCnt body d
    (fun x t => LinkedSince w0 t.world ∧ H t.header ∧ Quietly d.world t.world ∧
      t.world.sup.loaded.length = d.world.sup.loaded.length ∧
      ∀ y m, t.world.sup.loaded[y]? = some m → m.moduleServiceIfcIsconnected = true →
        if y < x then Q m.moduleServiceSd (t.wires m.moduleServiceSd)
        else P m.moduleServiceSd (t.wires m.moduleServiceSd)) ?_ ?_
  · obtain ⟨hlinked, -, hquiet, hlen, hdone⟩ := hloop
    refine ⟨hlinked, hquiet, fun sd hsd => ?_⟩
    obtain ⟨y, m, hy, hconnected, rfl⟩ := hlinked.slot hsd
    have hy' := hdone y m hy hconnected
    have hlt := (List.getElem?_eq_some_iff.mp hy).1
    rwa [if_pos (by rwa [hlen] at hlt)] at hy'
  · refine ⟨hd, hheader, .refl, rfl, fun y m hy hconnected => ?_⟩
    rw [if_neg (Nat.not_lt_zero y)]
    exact hwires _ (hd.opened (List.mem_of_getElem? hy) hconnected)
  · intro x t hx ⟨hlinked, hheader, hquiet, hlen, hdone⟩
    have hslot := hbody x t hlinked.toLinkInv hheader
    refine ⟨hslot.linked hlinked, hslot.header hheader, hquiet.trans hslot.quietly,
      hslot.length.trans hlen, fun y m hy hconnected => ?_⟩
    obtain ⟨hget, ⟨rfl, hmade⟩ | ⟨hne, hsame⟩⟩ := hslot.get hlinked.toLinkInv hy hconnected
    · have hbefore := hdone y m hget hconnected
      rw [if_neg (Nat.lt_irrefl y)] at hbefore
      rw [if_pos (Nat.lt_succ_self y)]
      exact hmade hbefore
    · have hbefore := hdone y m hget hconnected
      rw [hsame]
      by_cases hlt : y < x
      · rw [if_pos hlt] at hbefore
        rwa [if_pos (by omega)]
      · rw [if_neg hlt] at hbefore
        rwa [if_neg (by omega)]

theorem transfer_onWire (sd : Int) (t : Transfer) (d : ServiceState) :
    OnWire sd d (d.wait.transfer sd t) :=
  ⟨rfl, fun _ hne => Function.update_of_ne hne _ _⟩

/-- A request goes out as a whole or ends the connection. -/
theorem requestStats_exchange (base : Int → Wire) (script : ServiceScript) (x : Nat)
    {d : ServiceState} (hheader : IsRequest d.header.bytes) :
    SlotExchange (fun header => IsRequest header.bytes) (fun sd wire => wire = base sd)
      (fun sd wire => ∃ request, IsRequest request ∧ wire = base sd ++ [.sent request])
      x d (d.requestStats script x) := by
  unfold ServiceState.requestStats
  cases hx : d.world.sup.loaded[x]? with
  | none => exact .off (by simp [hx])
  | some m =>
    simp only []
    by_cases hconnected : m.moduleServiceIfcIsconnected = true
    · have hwire := fun t => transfer_onWire m.moduleServiceSd t d
      rw [if_pos hconnected]
      by_cases hok : (serviceSendData d.header.bytes (script.sends x)).2 = true
      · rw [if_pos hok, serviceSendData_ok hok]
        refine .done hx hconnected (hwire _) hheader fun hbase => ⟨_, hheader, ?_⟩
        rw [← hbase]
        exact Function.update_self _ _ _
      · rw [if_neg hok]
        exact .failed hx hconnected (hwire _) hheader
    · rw [if_neg hconnected]
      refine .off fun m' hm' => ?_
      rw [hx, Option.some.injEq] at hm'
      rw [← hm']
      simpa using hconnected

/-- What the decoder leaves alone. -/
theorem decode_spec (jsonLoads : List UInt8 → Option Json) (script : ServiceScript) (x : Nat)
    (d : ServiceState) :
    (d.decode jsonLoads script x).1.world = d.world ∧
      (d.decode jsonLoads script x).1.wires = d.wires := by
  unfold ServiceState.decode
  cases d.stats[x]? with
  | none => exact ⟨rfl, rfl⟩
  | some s => exact ⟨rfl, rfl⟩

/-- A reply is received completely, or the result is a failure. -/
theorem receiveReply_spec (jsonLoads : List UInt8 → Option Json) (script : ServiceScript) (x : Nat)
    (sd : Int) (d : ServiceState) :
    OnWire sd d (d.wait.receiveReply jsonLoads script x sd).1 ∧
      ((d.wait.receiveReply jsonLoads script x sd).2 = true → ∃ head data, IsReply head data ∧
        (d.wait.receiveReply jsonLoads script x sd).1.wires sd =
          d.wires sd ++ [.received head, .received data]) := by
  unfold ServiceState.receiveReply
  simp only []
  generalize hhead : serviceRecvData d.wait.header.bytes.length (script.recvs x) = head
  by_cases hok : head.ok = false
  · rw [if_pos hok]
    exact ⟨⟨rfl, fun _ hne => Function.update_of_ne hne _ _⟩, fun h => absurd h (by simp)⟩
  · rw [if_neg hok]
    by_cases hcom : (d.wait.header.overwrite head.bytes).com ≠ serviceOkReply
    · rw [if_pos hcom]
      exact ⟨⟨rfl, fun _ hne => Function.update_of_ne hne _ _⟩, fun h => absurd h (by simp)⟩
    · rw [if_neg hcom]
      generalize hdata : serviceRecvData (d.wait.header.overwrite head.bytes).dataSize
        (recvInto (clearBuffer (d.wait.header.overwrite head.bytes).dataSize
          (d.wait.transfer sd (.received head.bytes)).buffer) head.results) = data
      have hother : ∀ sd' ≠ sd, (((d.wait.transfer sd (.received head.bytes)).transfer sd
          (.received data.bytes)).wires sd') = d.wires sd' := fun sd' hne => by
        simp only [ServiceState.transfer, Function.update_of_ne hne]
        rfl
      by_cases hdok : data.ok = false
      · rw [if_pos hdok]
        exact ⟨⟨rfl, hother⟩, fun h => absurd h (by simp)⟩
      · rw [if_neg hdok]
        have hdecode := decode_spec jsonLoads script x
        refine ⟨⟨by rw [(hdecode _).1]; rfl, fun sd' hne => ?_⟩, fun _ => ?_⟩
        · rw [(hdecode _).2]
          exact hother sd' hne
        · have hlen : head.bytes.length = 8 := by
            rw [← hhead, serviceRecvData_ok (by rw [hhead]; simpa using hok), length_bytes]
          refine ⟨head.bytes, data.bytes, ⟨d.wait.header.overwrite head.bytes,
            (overwrite_bytes _ hlen).symm, by simpa using hcom, ?_⟩, ?_⟩
          · rw [← hdata]
            exact serviceRecvData_ok (by rw [hdata]; simpa using hdok)
          · rw [(hdecode _).2]
            simp only [ServiceState.transfer, Function.update_self, List.append_assoc]
            rfl

/-- A reply is consumed completely or ends the connection. -/
theorem receiveStats_exchange (base : Int → Wire) (jsonLoads : List UInt8 → Option Json)
    (script : ServiceScript) (x : Nat) {d : ServiceState} (h : LinkInv d.world) :
    SlotExchange (fun _ => True)
      (fun sd wire => ∃ request, IsRequest request ∧ wire = base sd ++ [.sent request])
      (fun sd wire => ∃ round, Round round ∧ wire = base sd ++ round)
      x d (d.receiveStats jsonLoads script x) := by
  unfold ServiceState.receiveStats
  cases hx : d.world.sup.loaded[x]? with
  | none => exact .off (by simp [hx])
  | some m =>
    simp only []
    by_cases hconnected : m.moduleServiceIfcIsconnected = true
    · have hstatus := ((h.slots m (List.mem_of_getElem? hx)).connected hconnected).1
      obtain ⟨hwire, hreply⟩ := receiveReply_spec jsonLoads script x m.moduleServiceSd d
      rw [if_pos ⟨hstatus, hconnected⟩]
      by_cases hok : (d.wait.receiveReply jsonLoads script x m.moduleServiceSd).2 = true
      · rw [if_pos hok]
        refine .done hx hconnected hwire trivial fun ⟨request, hrequest, hbase⟩ => ?_
        obtain ⟨head, data, hisReply, heq⟩ := hreply hok
        refine ⟨_, .mk hrequest hisReply, ?_⟩
        rw [heq, hbase, List.append_assoc]
        rfl
      · rw [if_neg hok]
        exact .failed hx hconnected hwire trivial
    · rw [if_neg fun hc => hconnected hc.2]
      refine .off fun m' hm' => ?_
      rw [hx, Option.some.injEq] at hm'
      rw [← hm']
      simpa using hconnected

/-! ## The loop that connects -/

theorem carriedBefore_append {newest newer : List Event} {wires wires' : Int → Wire} {sd : Int}
    (h : .connected sd ∉ newest → wires' sd = carriedBefore newer wires sd) :
    carriedBefore newest wires' sd = carriedBefore (newest ++ newer) wires sd := by
  unfold carriedBefore at h ⊢
  by_cases hnewest : .connected sd ∈ newest
  · rw [if_pos hnewest, if_pos (List.mem_append_left _ hnewest)]
  · rw [if_neg hnewest, h hnewest]
    simp only [List.mem_append, hnewest, false_or]

/-- Connections are only opened and closed, and carry nothing. -/
def KeepsWires (d d' : ServiceState) : Prop :=
  ∃ newer, d'.world.kernel.trace = newer ++ d.world.kernel.trace ∧
    ∀ sd ∈ openSds d'.world.kernel.trace, d'.wires sd = carriedBefore newer d.wires sd

/-- Every connection that is open has carried one more round. -/
def AddsRound (d d' : ServiceState) : Prop :=
  ∃ newer, d'.world.kernel.trace = newer ++ d.world.kernel.trace ∧
    ∀ sd ∈ openSds d'.world.kernel.trace,
      ∃ round, Round round ∧ d'.wires sd = carriedBefore newer d.wires sd ++ round

theorem KeepsWires.of_noneOpened {d d' : ServiceState}
    (h : NoneOpened d.world.kernel.trace d'.world.kernel.trace) (hwires : d'.wires = d.wires) :
    KeepsWires d d' := by
  obtain ⟨newer, heq, hnew⟩ := h
  refine ⟨newer, heq, fun sd _ => ?_⟩
  rw [carriedBefore, if_neg (hnew sd), hwires]

theorem KeepsWires.refl (d : ServiceState) : KeepsWires d d :=
  .of_noneOpened ⟨[], rfl, fun _ => List.not_mem_nil⟩ rfl

theorem KeepsWires.trans {d d1 d2 : ServiceState} (h : KeepsWires d d1) (h' : KeepsWires d1 d2) :
    KeepsWires d d2 := by
  obtain ⟨newer, heq, hwires⟩ := h
  obtain ⟨newest, heq', hwires'⟩ := h'
  refine ⟨newest ++ newer, by rw [heq', heq, List.append_assoc], fun sd hsd => ?_⟩
  rw [hwires' sd hsd]
  exact carriedBefore_append fun hnew => hwires sd (mem_openSds_older (heq' ▸ hsd) hnew)

theorem KeepsWires.addsRound {d d1 d2 : ServiceState} (h : KeepsWires d d1) (h' : AddsRound d1 d2) :
    AddsRound d d2 := by
  obtain ⟨newer, heq, hwires⟩ := h
  obtain ⟨newest, heq', hwires'⟩ := h'
  refine ⟨newest ++ newer, by rw [heq', heq, List.append_assoc], fun sd hsd => ?_⟩
  obtain ⟨round, hround, hsame⟩ := hwires' sd hsd
  refine ⟨round, hround, hsame.trans ?_⟩
  rw [carriedBefore_append fun hnew => hwires sd (mem_openSds_older (heq' ▸ hsd) hnew)]

/-- What an iteration of `service_check_connections` keeps. -/
structure Connects (d d' : ServiceState) : Prop where
  linked : LinkInv d'.world
  quietly : Quietly d.world d'.world
  exited : d'.world.serviceExited = d.world.serviceExited
  header : d'.header = d.header
  carries : KeepsWires d d'

theorem Connects.trans {d d1 d2 : ServiceState} (h : Connects d d1) (h' : Connects d1 d2) :
    Connects d d2 :=
  ⟨h'.linked, h.quietly.trans h'.quietly, h'.exited.trans h.exited, h'.header.trans h.header,
    h.carries.trans h'.carries⟩

/-- The socket of a connection that is refused is open for a moment only. -/
theorem LinkInv.refused {w : World} (h : LinkInv w) (sd : Int) :
    LinkInv { w with kernel := (w.kernel.record (.connected sd)).close sd } := by
  have hsame : openSds ((w.kernel.record (.connected sd)).close sd).trace =
      openSds w.kernel.trace := List.erase_cons_head sd _
  exact ⟨h.slots, hsame.symm ▸ h.held, hsame.symm ▸ h.distinct, List.mem_cons_self, h.closes⟩

section connect

variable {d : ServiceState} {x : Nat} {m : RunningModule}

/-- The timer of a slot is written, and no connection is opened. -/
theorem Connects.timer (h : LinkInv d.world) (hx : d.world.sup.loaded[x]? = some m) (timer : Nat) :
    Connects d (d.lift fun w => w.setModule x { m with serviceIfcConnTimer := timer }) := by
  have hslot := h.slots m (List.mem_of_getElem? hx)
  have hlinked : LinkedSince d.world
      (d.world.setModule x { m with serviceIfcConnTimer := timer }) :=
    h.self.keep hx (.refl _) (hslot.congr rfl rfl rfl rfl) rfl
  exact ⟨hlinked.toLinkInv,
    .single (.slot hx (.link m.moduleServiceSd m.moduleServiceIfcIsconnected timer)
      (.kept rfl rfl rfl rfl) rfl), rfl, rfl, .of_noneOpened hlinked.since rfl⟩

theorem serviceConnectToModule_connects (h : LinkInv d.world)
    (hx : d.world.sup.loaded[x]? = some m) (hstatus : m.moduleStatus = true)
    (hoff : m.moduleServiceIfcIsconnected = false) (connects : Bool) (timer : Nat) :
    Connects d (d.serviceConnectToModule connects x { m with serviceIfcConnTimer := timer }) := by
  have hsd := (h.slots m (List.mem_of_getElem? hx)).started hoff (.inl hstatus)
  have hnone := link_eq_none.mpr hoff
  have htrace : ∀ newer, newer ++ d.world.kernel.turn.2.trace = newer ++ d.world.kernel.trace :=
    fun newer => by rw [turn_trace]
  have hturn := turn_quietly d.world
  have hkept : LinkedSince d.world
      (({ d.world with kernel := d.world.kernel.turn.2 } : World).setModule x
        { m with serviceIfcConnTimer := timer, moduleServiceIfcIsconnected := false }) :=
    h.self.keep hx (turn_sameLinks _) (.none rfl hsd) hnone.symm
  unfold ServiceState.serviceConnectToModule
  simp only []
  generalize d.world.kernel.turn.1.connectSd = sd
  split_ifs with hsocket hconnects
  · obtain ⟨hge, hfresh⟩ := hsocket
    refine ⟨h.connect hx (turn_sameLinks _) hfresh ⟨fun _ => ⟨hstatus, hge⟩, fun hc => ?_⟩ hnone
      (link_eq_some.mpr ⟨rfl, rfl⟩), ?_, rfl, rfl, [.connected sd],
      htrace [.connected sd], fun sd' hsd' => ?_⟩
    · simp at hc
    · exact (hturn.tail (.outside (.connected sd))).tail
        (Quiet.slot (w := { d.world with kernel := _ }) hx (.link _ _ _) (.kept rfl rfl rfl rfl) rfl)
    · by_cases hne : sd' = sd
      · subst hne
        simp [carriedBefore]
      · simp [carriedBefore, hne]
  · refine ⟨hkept.toLinkInv.refused sd, ?_, rfl, rfl, [.closed sd, .connected sd],
      htrace [.closed sd, .connected sd], fun sd' hsd' => ?_⟩
    · exact ((hturn.tail (.outside (.connected sd))).tail
        (Quiet.outside (w := { d.world with kernel := _ }) (.closed sd))).tail
        (Quiet.slot (w := { d.world with kernel := _ }) hx (.link m.moduleServiceSd false timer)
          (.kept rfl rfl rfl rfl) rfl)
    · have hopen : sd' ∈ openSds d.world.kernel.turn.2.trace := by
        rwa [World.setModule, Kernel.close, Kernel.record, Kernel.record, openSds, openSds,
          List.erase_cons_head] at hsd'
      have hne : sd' ≠ sd := fun he => hsocket.2 (he ▸ hopen)
      simp [carriedBefore, hne]
  · exact ⟨hkept.toLinkInv, hturn.tail
      (Quiet.slot (w := { d.world with kernel := _ }) hx (.link m.moduleServiceSd false timer)
        (.kept rfl rfl rfl rfl) rfl), rfl, rfl, .of_noneOpened hkept.since rfl⟩

theorem checkConnection_connects (script : ServiceScript) (x : Nat) (h : LinkInv d.world) :
    Connects d (d.checkConnection script x) := by
  unfold ServiceState.checkConnection
  have hrefl : Connects d d := ⟨h, .refl, rfl, rfl, .refl d⟩
  cases hx : d.world.sup.loaded[x]? with
  | none => exact hrefl
  | some m =>
    simp only []
    split_ifs with hoff hperiod
    · obtain ⟨hstatus, hoff⟩ := hoff
      have hsd := (h.slots m (List.mem_of_getElem? hx)).started hoff (.inl hstatus)
      have hclosed : closeServiceSd d.world.kernel
          { m with serviceIfcConnTimer := m.serviceIfcConnTimer + 1 } =
            (d.world.kernel, { m with serviceIfcConnTimer := m.serviceIfcConnTimer + 1 }) := by
        unfold closeServiceSd
        rw [if_neg (by simp [hsd])]
      rw [hclosed]
      exact serviceConnectToModule_connects h hx hstatus hoff _ _
    · exact .timer h hx _
    · exact hrefl

end connect

theorem connects_loop (script : ServiceScript) {d : ServiceState} (h : LinkInv d.world) :
    Connects d (d.forModules (ServiceState.checkConnection script)) :=
  forRange_invariant (fun _ => Connects d) ⟨h, .refl, rfl, rfl, .refl d⟩
    fun x _ _ ht => ht.trans (checkConnection_connects script x ht.linked)

/-! ## The cycle -/

section cycle

variable (jsonLoads : List UInt8 → Option Json) (script : ServiceScript) {d : ServiceState}

/-- The exchanges add one round to every connection that is left. -/
theorem exchange_addsRound (h : LinkInv d.world) :
    LinkInv (d.exchange jsonLoads script).world ∧
      Quietly d.world (d.exchange jsonLoads script).world ∧
      (d.exchange jsonLoads script).world.serviceExited = d.world.serviceExited ∧
      AddsRound d (d.exchange jsonLoads script) := by
  have hconnects := connects_loop script (d := { d with header := d.header.request }) h
  unfold ServiceState.exchange
  simp only []
  generalize ServiceState.forModules (ServiceState.checkConnection script)
    { d with header := d.header.request } = d1 at hconnects
  obtain ⟨hlinked, hquiet, hexited, hheader, hkeeps⟩ := hconnects
  have hrequest : IsRequest d1.header.bytes := hheader ▸ request_isRequest d.header
  obtain ⟨hlinked2, hquiet2, hsent⟩ := forModules_exchange
    (H := fun header => IsRequest header.bytes)
    (fun x t _ => requestStats_exchange d1.wires script x) hlinked.self hrequest
    fun _ _ => rfl
  generalize d1.forModules (ServiceState.requestStats script) = d2 at hlinked2 hquiet2 hsent
  have hlinked3 := serviceCheckModulesStatus_linked hlinked2
  have hwithin := (serviceCheckModulesStatus_linked hlinked2.toLinkInv.self).since
  have hsent3 : ∀ sd ∈ openSds (serviceCheckModulesStatus d2.world).1.kernel.trace,
      ∃ request, IsRequest request ∧ d2.wires sd = d1.wires sd ++ [.sent request] := by
    obtain ⟨newer, heq, hnew⟩ := hwithin
    exact fun sd hsd => hsent sd (mem_openSds_older (heq ▸ hsd) (hnew sd))
  obtain ⟨hlinked4, hquiet4, hdone⟩ := forModules_exchange
    (H := fun _ => True) (d := d2.lift fun w => (serviceCheckModulesStatus w).1)
    (fun x t ht _ => receiveStats_exchange d1.wires jsonLoads script x ht) hlinked3
    trivial hsent3
  refine ⟨hlinked4.toLinkInv, ?_, hlinked4.exited.trans hexited, hkeeps.addsRound ?_⟩
  · exact ((hquiet.trans hquiet2).trans (serviceCheckModulesStatus_quietly _).1).trans hquiet4
  · obtain ⟨newer, heq, hnew⟩ := hlinked4.since
    refine ⟨newer, heq, fun sd hsd => ?_⟩
    rw [carriedBefore, if_neg (hnew sd)]
    exact hdone sd hsd

theorem serveModules_linked {w0 w : World} (h : LinkedSince w0 w) :
    LinkedSince w0 (({ d with world := w } : ServiceState).forModules
        ServiceState.serveModule).world ∧
      (({ d with world := w } : ServiceState).forModules ServiceState.serveModule).wires =
        d.wires := by
  refine forRange_invariant
    (fun _ (t : ServiceState) => LinkedSince w0 t.world ∧ t.wires = d.wires) ⟨h, rfl⟩ ?_
  exact fun x t _ ht => ⟨serveModule_linked x t.world ht.1, ht.2⟩

theorem serveModules_quietly {w : World} (h : Synced w) :
    Quietly w (({ d with world := w } : ServiceState).forModules
      ServiceState.serveModule).world := by
  refine forRange_invariant (fun _ (t : ServiceState) => Quietly w t.world) .refl
    fun x t _ ht => ?_
  exact ht.trans (serveModule_quietly x t.world (h.reaches ht.reaches))

/-- The passes before the removals. -/
theorem passes_linked {w0 w : World} (h : LinkedSince w0 w) :
    LinkedSince w0 (serviceCleanAfterChildren (serviceStopModulesSigkill
      (serviceCheckModulesStatus (serviceCleanAfterChildren (serviceStopModulesSigint
        (serviceUpdateModulesStatus w)))).1)) := by
  have pass : ∀ {body : Nat → World → World},
      (∀ x w, LinkedSince w0 w → LinkedSince w0 (body x w)) → ∀ {t : World},
        LinkedSince w0 t → LinkedSince w0 (forRange t.sup.loadedModulesCnt body t) :=
    fun hbody _ ht => loop_linked hbody ht _
  exact pass cleanAfterChild_linked (pass stopModuleSigkill_linked (serviceCheckModulesStatus_linked
    (pass cleanAfterChild_linked (pass stopModuleSigint_linked (pass updateModuleStatus_linked h)))))

theorem passes_quietly {w : World} (h : Synced w) :
    Quietly (serviceUpdateModulesStatus w) (serviceCleanAfterChildren (serviceStopModulesSigkill
      (serviceCheckModulesStatus (serviceCleanAfterChildren (serviceStopModulesSigint
        (serviceUpdateModulesStatus w)))).1)) := by
  have hw1 := h.reaches (serviceUpdateModulesStatus_reaches h)
  have pass : ∀ {body : Nat → World → World}, (∀ x w, Quietly w (body x w)) → ∀ {t : World},
      Quietly (serviceUpdateModulesStatus w) t →
        Quietly (serviceUpdateModulesStatus w) (forRange t.sup.loadedModulesCnt body t) :=
    fun hbody _ ht => ht.trans (forRange_quietly (fun x w _ => hbody x w) _ (hw1.reaches ht.reaches))
  exact pass cleanAfterChild_quietly (pass stopModuleSigkill_quietly (Relation.ReflTransGen.trans
    (pass cleanAfterChild_quietly (pass stopModuleSigint_quietly .refl))
    (serviceCheckModulesStatus_quietly _).1))

/-- Before the exchanges connections are only closed. -/
theorem beforeExchange_linked (h : LinkInv d.world) :
    LinkedSince d.world d.beforeExchange.world ∧ d.beforeExchange.wires = d.wires := by
  obtain ⟨hserved, hwires⟩ := serveModules_linked (d := d) (passes_linked h.self)
  simp only [ServiceState.beforeExchange, ServiceState.lift]
  exact ⟨serviceCheckModulesStatus_linked hserved, hwires⟩

theorem beforeExchange_reaches (h : Synced d.world) : Reaches d.world d.beforeExchange.world := by
  have hupdate := serviceUpdateModulesStatus_reaches h
  have hpasses := passes_quietly h
  have hsync := (h.reaches hupdate).reaches hpasses.reaches
  have hserved := serveModules_quietly (d := d) hsync
  have hcheck : Quietly _ _ := hpasses.trans (hserved.trans (serviceCheckModulesStatus_quietly _).1)
  simp only [ServiceState.beforeExchange, ServiceState.lift]
  exact hupdate.trans hcheck.reaches

/-- The check at the start of a cycle. -/
theorem check_spec (turns : List Turn) (h : LinkInv d.world) :
    LinkedSince d.world (serviceCheckModulesStatus
        { d.world with kernel := { d.world.kernel with turns } }).1 ∧
      Quietly d.world (serviceCheckModulesStatus
        { d.world with kernel := { d.world.kernel with turns } }).1 ∧
      Synced (serviceCheckModulesStatus
        { d.world with kernel := { d.world.kernel with turns } }).1 := by
  have hscript : Quietly d.world { d.world with kernel := { d.world.kernel with turns } } :=
    .single (.outside (.script turns))
  obtain ⟨hcheck, hsync⟩ := serviceCheckModulesStatus_quietly
    { d.world with kernel := { d.world.kernel with turns } }
  exact ⟨serviceCheckModulesStatus_linked (h.self.kernel (.of_trace rfl)), hscript.trans hcheck,
    hsync⟩

/-- What holds between the steps of the supervisor. -/
structure LinksSettled (d : ServiceState) : Prop where
  linked : LinkInv d.world
  ended : d.world.serviceExited = true → openSds d.world.kernel.trace = []

/-- A cycle is a chain of atomic changes, keeps the connections in order, and adds one round to
each that it leaves open. -/
theorem cycle_spec (h : LinksSettled d) :
    LinksSettled (d.cycle jsonLoads script) ∧
      Reaches d.world (d.cycle jsonLoads script).world ∧
      AddsRound d (d.cycle jsonLoads script) := by
  unfold ServiceState.cycle
  split_ifs with hexited
  · exact ⟨h, .refl, [], rfl, fun sd hsd => by simp [h.ended hexited] at hsd⟩
  · obtain ⟨hlinked, hquiet, hsync⟩ := check_spec script.turns h.linked
    simp only []
    generalize serviceCheckModulesStatus
      { d.world with kernel := { d.world.kernel with turns := script.turns } } = st
      at hlinked hquiet hsync
    obtain ⟨w, runningModulesCnt⟩ := st
    simp only [] at hlinked hquiet hsync ⊢
    split_ifs with hstop
    · obtain ⟨hexit, ⟨newer, heq, -⟩, hnone⟩ := serviceThreadExit_linked hlinked
      refine ⟨⟨hexit, fun _ => hnone⟩, ?_, newer, heq, fun sd hsd => by simp [hnone] at hsd⟩
      have hloop := forRange_quietly (fun x w _ => disconnectModule_quietly x w)
        w.sup.loadedModulesCnt hsync
      exact (hquiet.reaches.trans hloop.reaches).tail .exited
    · obtain ⟨hbefore, hwires⟩ := beforeExchange_linked (d := { d with world := w })
        hlinked.toLinkInv
      have hreaches := beforeExchange_reaches (d := { d with world := w }) hsync
      obtain ⟨hafter, hquietly, hexit, hround⟩ :=
        exchange_addsRound jsonLoads script hbefore.toLinkInv
      refine ⟨⟨hafter, fun hc => ?_⟩, ?_, KeepsWires.addsRound (.of_noneOpened ?_ hwires) hround⟩
      · rw [hexit, hbefore.exited, hlinked.exited] at hc
        exact absurd hc hexited
      · exact hquiet.reaches.trans (hreaches.trans hquietly.reaches)
      · exact hlinked.since.trans hbefore.since

end cycle

/-! ## Every run -/

/-- The invariant of a run. -/
structure ServiceInv (d : ServiceState) : Prop where
  table : TableInv d.world.sup
  settled : LinksSettled d
  rounds : ∀ sd ∈ openSds d.world.kernel.trace, Rounds (d.wires sd)

theorem ServiceInv.cycle {d : ServiceState} (h : ServiceInv d) (jsonLoads : List UInt8 → Option Json)
    (script : ServiceScript) : ServiceInv (d.cycle jsonLoads script) := by
  obtain ⟨hsettled, hreaches, newer, heq, hround⟩ :=
    cycle_spec jsonLoads script h.settled
  refine ⟨reaches_invariant (I := fun w : World => TableInv w.sup)
    (fun _ _ hs hc => hs.change hc) hreaches h.table, hsettled, fun sd hsd => ?_⟩
  obtain ⟨round, hr, hwire⟩ := hround sd hsd
  rw [hwire, carriedBefore]
  split_ifs with hnew
  · exact Rounds.nil.snoc hr
  · exact (h.rounds sd (mem_openSds_older (heq ▸ hsd) hnew)).snoc hr

/-- Commands, reloads and processes leave the connections alone. -/
theorem ServiceInv.command {d : ServiceState} (h : ServiceInv d) {a : Action}
    (ha : ∀ turns, a ≠ .cycle turns) : ServiceInv (d.command a) := by
  have hstep := command_invariant (w := d.world) (a := a)
    (I := fun w => (TableInv w.sup ∧ LinkInv w ∧ w.kernel.trace = d.world.kernel.trace) ∧
      (w.serviceExited = true → openSds w.kernel.trace = []))
    (fun _ hw => hw.1.1) ?_ ?_ ?_ ha ⟨⟨h.table, h.settled.linked, rfl⟩, h.settled.ended⟩ ?_
  · obtain ⟨⟨htable, hlinked, htrace⟩, hended⟩ := hstep
    exact ⟨htable, ⟨hlinked, hended⟩, fun sd hsd => h.rounds sd (htrace ▸ hsd)⟩
  · intro mv ⟨⟨htable, hlinked, htrace⟩, hended⟩
    have hmove : (d.world.kernel.move mv).trace = d.world.kernel.trace := by cases mv <;> rfl
    exact ⟨⟨htable, (hlinked.self.kernel (.of_trace hmove)).toLinkInv, hmove⟩,
      fun hc => hmove ▸ hended hc⟩
  · intro enabling w s' ⟨⟨htable, hlinked, htrace⟩, hended⟩ hc
    exact ⟨⟨htable.command hc, hlinked.command hc, htrace⟩, hended⟩
  · intro w b c ⟨⟨htable, hlinked, htrace⟩, hended⟩
    exact ⟨⟨htable.flags b c, hlinked.table hlinked.slots rfl, htrace⟩, hended⟩
  · intro choice root s' _ hc hg hr
    exact ⟨⟨hr.tableInv h.table hg, h.settled.linked.reload h.table hc hg hr, rfl⟩, h.settled.ended⟩

/-- A check between the cycles closes connections at most. -/
theorem ServiceInv.supervisorInfo {d : ServiceState} (h : ServiceInv d) (turns : List Turn) :
    ServiceInv (d.supervisorInfo turns) := by
  obtain ⟨hlinked, hquiet, -⟩ := check_spec turns h.settled.linked
  obtain ⟨newer, heq, hnew⟩ := hlinked.since
  have hopen : ∀ sd ∈ openSds (d.supervisorInfo turns).world.kernel.trace,
      sd ∈ openSds d.world.kernel.trace :=
    fun sd hsd => mem_openSds_older (heq ▸ hsd) (hnew sd)
  refine ⟨reaches_invariant (I := fun w : World => TableInv w.sup)
    (fun _ _ hs hc => hs.change hc) hquiet.reaches h.table, ⟨hlinked.toLinkInv, fun hc => ?_⟩,
    fun sd hsd => h.rounds sd (hopen sd hsd)⟩
  have hnone := h.settled.ended (hlinked.exited ▸ hc)
  exact List.eq_nil_iff_forall_not_mem.mpr fun sd hsd => by simpa [hnone] using hopen sd hsd

theorem boot_serviceInv (alive : List Int) (rootNode : Option XmlNode) :
    ServiceInv (.boot alive rootNode) := by
  have hopened : openSds (ServiceState.boot alive rootNode).world.kernel.trace = [] :=
    (boot_opened alive rootNode).1
  exact ⟨boot_tableInv alive rootNode, ⟨boot_linkInv alive rootNode, fun _ => hopened⟩,
    fun sd hsd => by simp [hopened] at hsd⟩

theorem run_serviceInv (jsonLoads : List UInt8 → Option Json) (alive : List Int)
    (rootNode : Option XmlNode) (as : List ServiceAction) :
    ServiceInv (Run.run (serviceStep jsonLoads) (.boot alive rootNode) as) := by
  refine Run.run_invariant (fun d a h => ?_) (boot_serviceInv alive rootNode) as
  cases a with
  | cycle script => exact h.cycle jsonLoads script
  | info turns => exact h.supervisorInfo turns
  | command a ha => exact h.command ha

/-- The protocol of the service connections. -/
structure ServiceProtocol (jsonLoads : List UInt8 → Option Json) (d : ServiceState) : Prop where
  /-- A connected module runs, and its descriptor has been opened and not been closed. -/
  connected : ∀ m ∈ d.world.sup.loaded, m.moduleServiceIfcIsconnected = true →
    m.moduleStatus = true ∧ m.moduleServiceSd ∈ openSds d.world.kernel.trace
  /-- Each open descriptor is held by one connected module, so none has been dropped. -/
  held : (openSds d.world.kernel.trace).Perm (connections d.world.sup.loaded)
  distinct : (openSds d.world.kernel.trace).Nodup
  closes : ClosesOpen d.world.kernel.trace
  /-- The thread has closed all when it ends. -/
  ended : d.world.serviceExited = true → openSds d.world.kernel.trace = []
  rounds : ∀ m ∈ d.world.sup.loaded, m.moduleServiceIfcIsconnected = true →
    Rounds (d.wires m.moduleServiceSd)
  cycle : ∀ script, Exchanged d (d.cycle jsonLoads script)

theorem run_serviceProtocol (jsonLoads : List UInt8 → Option Json) (alive : List Int)
    (rootNode : Option XmlNode) (as : List ServiceAction) :
    ServiceProtocol jsonLoads (Run.run (serviceStep jsonLoads) (.boot alive rootNode) as) := by
  have h := run_serviceInv jsonLoads alive rootNode as
  have hlinked := h.settled.linked
  refine ⟨fun m hm hc => ⟨((hlinked.slots m hm).connected hc).1, hlinked.opened hm hc⟩,
    hlinked.held, hlinked.distinct, hlinked.closes, h.settled.ended,
    fun m hm hc => h.rounds _ (hlinked.opened hm hc), fun script => ?_⟩
  obtain ⟨hsettled, -, newer, heq, hround⟩ :=
    cycle_spec jsonLoads script h.settled
  exact ⟨newer, heq, fun m hm hc => hround _ (hsettled.linked.opened hm hc)⟩

end NemeaSupervisor
