import NemeaSupervisor.StatsExport

/-!
# The buffer of the replies

All replies go through one buffer, which grows with the sizes that their headers
announce. It has room for a terminator unless a reply announces exactly the size
that the buffer has at that time.
-/

namespace NemeaSupervisor

open Loop

/-- The size of the buffer after replies of these sizes, the newest first. -/
def bufferSize : List Nat → Nat
  | [] => 256
  | dataSize :: older =>
    if dataSize > bufferSize older then (dataSize + 1) % 2 ^ 32 else bufferSize older

/-- The decoder finds a string of bytes of this reply that ends in the buffer. -/
structure Reading.Terminated (r : Reading) : Prop where
  longer : r.dataSize < r.buffer.length
  terminator : r.buffer[r.dataSize]? = some 0
  text : ∀ beyond, bufferText r.buffer beyond <+: r.data

/-- Every call of the decoder finds such a string unless its reply has announced the size of the
buffer. -/
def ReadingsInv : List Reading → Prop
  | [] => True
  | r :: older =>
    (r.complete = true → (r.Terminated ↔ r.dataSize ≠ bufferSize (older.map Reading.dataSize))) ∧
      ReadingsInv older

/-! ## One reply -/

section reply

variable {dataSize : Nat} {buffer data : List UInt8} {results : List RecvResult}

theorem dataSize_lt (header : ServiceMsgHeader) : header.dataSize < 2 ^ 32 := by
  have h₄ := (header 4).toNat_lt
  have h₅ := (header 5).toNat_lt
  have h₆ := (header 6).toNat_lt
  have h₇ := (header 7).toNat_lt
  unfold ServiceMsgHeader.dataSize
  omega

theorem clearBuffer_length :
    (clearBuffer dataSize buffer).length =
      if dataSize > buffer.length then (dataSize + 1) % 2 ^ 32 else buffer.length :=
  List.length_replicate

/-- Nothing is received where there is no buffer. -/
theorem recvLoop_nowhere (numOfTimeouts : Nat) (results : List RecvResult) :
    (recvLoop dataSize numOfTimeouts [] (recvInto [] results)).bytes = [] := by
  rw [recvInto, if_pos rfl]
  induction results generalizing numOfTimeouts with
  | nil => rfl
  | cons r results ih =>
    rw [List.map_cons]
    unfold recvLoop
    by_cases hdone : dataSize ≤ ([] : List UInt8).length
    · rw [if_pos hdone]
    · rw [if_neg hdone]
      cases r with
      | failed => rfl
      | wouldBlock =>
        simp only []
        split_ifs
        · rfl
        · exact ih _
      | received bytes => cases bytes <;> rfl

theorem serviceRecvData_length :
    (serviceRecvData dataSize results).bytes.length ≤ dataSize :=
  (recvLoop_length (Nat.zero_le _)).1

/-- What is received fits into the buffer. -/
theorem serviceRecvData_fits (hsize : dataSize < 2 ^ 32) :
    (serviceRecvData dataSize (recvInto (clearBuffer dataSize buffer) results)).bytes.length ≤
      (clearBuffer dataSize buffer).length := by
  by_cases hnil : clearBuffer dataSize buffer = []
  · rw [hnil, serviceRecvData, recvLoop_nowhere]
  · have hbytes := @serviceRecvData_length dataSize (recvInto (clearBuffer dataSize buffer) results)
    have hpos := List.length_pos_of_ne_nil hnil
    rw [clearBuffer_length] at hpos ⊢
    split_ifs at hpos ⊢ <;> omega

/-- A text is cut off at the first byte that is zero. -/
theorem bufferText_prefix (data buffer beyond : List UInt8) :
    bufferText (data ++ 0 :: buffer) beyond <+: data := by
  rw [bufferText, List.append_assoc, List.cons_append, List.takeWhile_append]
  split_ifs
  · simp
  · exact List.takeWhile_prefix _

/-- A complete reply is terminated unless it has the size of the buffer. -/
theorem terminated_iff (hlen : data.length = dataSize)
    (hfits : data.length ≤ (clearBuffer dataSize buffer).length) (complete : Bool) :
    (⟨dataSize, data, data ++ (clearBuffer dataSize buffer).drop data.length, complete⟩ :
      Reading).Terminated ↔ dataSize ≠ buffer.length := by
  have hcleared := @clearBuffer_length dataSize buffer
  constructor
  · intro h hsame
    have hlonger := h.longer
    simp only [List.length_append, List.length_drop] at hlonger
    rw [hcleared, if_neg (by omega)] at hlonger
    omega
  · intro hne
    have hroom : dataSize < (clearBuffer dataSize buffer).length := by
      rw [hcleared] at hfits ⊢
      split_ifs at hfits ⊢ <;> omega
    have hdrop : (clearBuffer dataSize buffer).drop data.length =
        0 :: List.replicate ((clearBuffer dataSize buffer).length - dataSize - 1) 0 := by
      rw [hlen, clearBuffer, List.drop_replicate, List.length_replicate, ← List.replicate_succ]
      rw [clearBuffer, List.length_replicate] at hroom
      congr 1
      omega
    rw [hdrop]
    refine ⟨?_, ?_, bufferText_prefix _ _⟩
    · simp [hlen]
    · simp [← hlen]

end reply

/-! ## The steps of a cycle -/

/-- What holds of the buffer between the steps. -/
structure BufferInv (d : ServiceState) : Prop where
  size : d.buffer.length = bufferSize (d.readings.map Reading.dataSize)
  readings : ReadingsInv d.readings

/-- The buffer is left alone. -/
structure SameBuffer (d d' : ServiceState) : Prop where
  buffer : d'.buffer = d.buffer
  readings : d'.readings = d.readings

section steps

variable {d d' d'' : ServiceState}

theorem SameBuffer.refl (d : ServiceState) : SameBuffer d d := ⟨rfl, rfl⟩

theorem SameBuffer.trans (h : SameBuffer d d') (h' : SameBuffer d' d'') : SameBuffer d d'' :=
  ⟨h'.buffer.trans h.buffer, h'.readings.trans h.readings⟩

theorem BufferInv.same (hd : BufferInv d) (h : SameBuffer d d') : BufferInv d' := by
  obtain ⟨hsize, hreadings⟩ := hd
  rw [← h.buffer, ← h.readings] at hsize
  rw [← h.readings] at hreadings
  exact ⟨hsize, hreadings⟩

theorem forModules_sameBuffer {body : Nat → ServiceState → ServiceState}
    (h : ∀ x t, SameBuffer t (body x t)) (d : ServiceState) : SameBuffer d (d.forModules body) :=
  forRange_invariant (fun _ => SameBuffer d) (.refl d) fun x t _ ht => ht.trans (h x t)

theorem checkConnection_sameBuffer (script : ServiceScript) (x : Nat) (d : ServiceState) :
    SameBuffer d (d.checkConnection script x) := by
  unfold ServiceState.checkConnection
  split
  · exact .refl d
  · split_ifs
    · unfold ServiceState.serviceConnectToModule
      simp only []
      split_ifs <;> exact ⟨rfl, rfl⟩
    · exact ⟨rfl, rfl⟩

theorem requestStats_sameBuffer (script : ServiceScript) (x : Nat) (d : ServiceState) :
    SameBuffer d (d.requestStats script x) := by
  unfold ServiceState.requestStats
  split
  · exact .refl d
  · split_ifs
    · simp only []
      split_ifs <;> exact ⟨rfl, rfl⟩
    · exact .refl d

theorem decode_sameBuffer (jsonLoads : List UInt8 → Option Json) (script : ServiceScript) (x : Nat)
    (d : ServiceState) : SameBuffer d (d.decode jsonLoads script x).1 := by
  unfold ServiceState.decode
  split <;> exact ⟨rfl, rfl⟩

/-- The data of a reply is received. -/
theorem BufferInv.read (h : BufferInv d) (header : ServiceMsgHeader) (results : List RecvResult)
    (hbuffer : d'.buffer =
      (serviceRecvData header.dataSize
          (recvInto (clearBuffer header.dataSize d.buffer) results)).bytes ++
        (clearBuffer header.dataSize d.buffer).drop
          (serviceRecvData header.dataSize
            (recvInto (clearBuffer header.dataSize d.buffer) results)).bytes.length)
    (hreadings : d'.readings = ⟨header.dataSize,
        (serviceRecvData header.dataSize
          (recvInto (clearBuffer header.dataSize d.buffer) results)).bytes, d'.buffer,
        (serviceRecvData header.dataSize
          (recvInto (clearBuffer header.dataSize d.buffer) results)).ok⟩ :: d.readings) :
    BufferInv d' := by
  have hfits := @serviceRecvData_fits header.dataSize d.buffer results (dataSize_lt header)
  have hok := @serviceRecvData_ok header.dataSize
    (recvInto (clearBuffer header.dataSize d.buffer) results)
  generalize serviceRecvData header.dataSize
    (recvInto (clearBuffer header.dataSize d.buffer) results) = data at *
  constructor
  · rw [hreadings, List.map_cons, bufferSize, ← h.size, hbuffer, List.length_append,
      List.length_drop, Nat.add_sub_cancel' hfits, clearBuffer_length]
  · rw [hreadings, ReadingsInv, ← h.size, hbuffer]
    exact ⟨fun hcomplete => terminated_iff (hok hcomplete) hfits _, h.readings⟩

theorem BufferInv.receiveReply (h : BufferInv d) (jsonLoads : List UInt8 → Option Json)
    (script : ServiceScript) (x : Nat) (sd : Int) :
    BufferInv (d.receiveReply jsonLoads script x sd).1 := by
  unfold ServiceState.receiveReply
  simp only []
  split_ifs
  · exact h.same ⟨rfl, rfl⟩
  · exact h.same ⟨rfl, rfl⟩
  · exact h.read _ _ rfl rfl
  · refine BufferInv.same ?_ (decode_sameBuffer jsonLoads script x _)
    exact h.read _ _ rfl rfl

theorem BufferInv.receiveStats (h : BufferInv d) (jsonLoads : List UInt8 → Option Json)
    (script : ServiceScript) (x : Nat) : BufferInv (d.receiveStats jsonLoads script x) := by
  unfold ServiceState.receiveStats
  split
  · exact h
  · rename_i m _
    have hwait : BufferInv d.wait := h.same ⟨rfl, rfl⟩
    have hreply := hwait.receiveReply jsonLoads script x m.moduleServiceSd
    split_ifs
    · simp only []
      split_ifs
      · exact hreply
      · exact hreply.same ⟨rfl, rfl⟩
    · exact h

theorem BufferInv.exchange (h : BufferInv d) (jsonLoads : List UInt8 → Option Json)
    (script : ServiceScript) : BufferInv (d.exchange jsonLoads script) := by
  unfold ServiceState.exchange
  simp only []
  have hconnected := forModules_sameBuffer (checkConnection_sameBuffer script)
    { d with header := d.header.request }
  generalize ServiceState.forModules (ServiceState.checkConnection script)
    { d with header := d.header.request } = d1 at hconnected
  have hrequested := forModules_sameBuffer (requestStats_sameBuffer script) d1
  generalize d1.forModules (ServiceState.requestStats script) = d2 at hrequested
  have hasked : BufferInv (d2.lift fun w => (serviceCheckModulesStatus w).1) :=
    (h.same ⟨hconnected.buffer, hconnected.readings⟩).same ⟨hrequested.buffer, hrequested.readings⟩
  exact forRange_invariant (fun _ => BufferInv) hasked
    fun x _ _ ht => ht.receiveStats jsonLoads script x

theorem lift_sameBuffer (f : World → World) (d : ServiceState) : SameBuffer d (d.lift f) :=
  ⟨rfl, rfl⟩

theorem serveModule_sameBuffer (x : Nat) (d : ServiceState) : SameBuffer d (d.serveModule x) :=
  ⟨rfl, rfl⟩

theorem beforeExchange_sameBuffer (d : ServiceState) : SameBuffer d d.beforeExchange := by
  unfold ServiceState.beforeExchange
  apply (lift_sameBuffer _ d).trans
  apply (forModules_sameBuffer serveModule_sameBuffer _).trans
  exact lift_sameBuffer _ _

theorem BufferInv.cycle (h : BufferInv d) (jsonLoads : List UInt8 → Option Json)
    (script : ServiceScript) : BufferInv (d.cycle jsonLoads script) := by
  unfold ServiceState.cycle
  split_ifs
  · exact h
  · simp only []
    generalize serviceCheckModulesStatus
      { d.world with kernel := { d.world.kernel with turns := script.turns } } = st
    obtain ⟨w, runningModulesCnt⟩ := st
    simp only []
    split_ifs
    · exact h.same ⟨rfl, rfl⟩
    · have hstart : BufferInv { d with world := w } := h.same ⟨rfl, rfl⟩
      exact (hstart.same (beforeExchange_sameBuffer _)).exchange jsonLoads script

theorem BufferInv.step (h : BufferInv d) (jsonLoads : List UInt8 → Option Json)
    (a : ServiceAction) : BufferInv (serviceStep jsonLoads d a) := by
  cases a with
  | cycle script => exact h.cycle jsonLoads script
  | info turns => exact h.same ⟨rfl, rfl⟩
  | command a ha => exact h.same ⟨rfl, rfl⟩

end steps

/-! ## Every run -/

theorem boot_bufferInv (alive : List Int) (rootNode : Option XmlNode) :
    BufferInv (.boot alive rootNode) :=
  ⟨List.length_replicate, trivial⟩

theorem run_bufferInv (jsonLoads : List UInt8 → Option Json) (alive : List Int)
    (rootNode : Option XmlNode) (as : List ServiceAction) :
    BufferInv (Run.run (serviceStep jsonLoads) (.boot alive rootNode) as) :=
  Run.run_invariant (fun _ a h => h.step jsonLoads a) (boot_bufferInv alive rootNode) as

theorem ReadingsInv.get {newer older : List Reading} {r : Reading}
    (h : ReadingsInv (newer ++ r :: older)) (hcomplete : r.complete = true) :
    r.Terminated ↔ r.dataSize ≠ bufferSize (older.map Reading.dataSize) := by
  induction newer with
  | nil => exact h.1 hcomplete
  | cons r' newer ih => exact ih h.2

/-- Whatever sizes are announced, the decoder finds a terminated reply unless the reply has just the
size to which the replies before it have brought the buffer. -/
theorem run_terminated (jsonLoads : List UInt8 → Option Json) (alive : List Int)
    (rootNode : Option XmlNode) (as : List ServiceAction) (newer older : List Reading) (r : Reading)
    (hreadings : (Run.run (serviceStep jsonLoads) (.boot alive rootNode) as).readings =
      newer ++ r :: older) (hcomplete : r.complete = true) :
    r.Terminated ↔ r.dataSize ≠ bufferSize (older.map Reading.dataSize) := by
  have h := (run_bufferInv jsonLoads alive rootNode as).readings
  rw [hreadings] at h
  exact h.get hcomplete

theorem run_terminated_one :
    ∃ r, (exportedAfter longText longMessage).readings = [r] ∧ r.dataSize = 109 ∧ r.Terminated := by
  obtain ⟨hreadings, hall⟩ : (exportedAfter longText longMessage).readings.length = 1 ∧
      ∀ r ∈ (exportedAfter longText longMessage).readings,
        r.dataSize = 109 ∧ r.complete = true := by decide +kernel
  obtain ⟨r, hr⟩ := List.length_eq_one_iff.mp hreadings
  obtain ⟨hsize, hcomplete⟩ := hall r (by simp [hr])
  refine ⟨r, hr, hsize, ?_⟩
  unfold exportedAfter at hr
  exact (run_terminated _ _ _ _ [] [] r hr hcomplete).mpr (by simp [bufferSize, hsize])

/-- One module that has sent 256 blanks. -/
def blanksReceived : ServiceState :=
  Run.run (serviceStep fun _ => none)
    (.boot [] (some (profileDocument [moduleElement "m" "/bin/m" "true" []])))
    [.cycle
      { turns := List.replicate 10 ⟨[], 100, 5, true⟩
        connects := fun _ => true
        sends := fun _ => [.sent 8]
        recvs := fun _ =>
          [.received [serviceOkReply, 0, 0, 0, 0, 1, 0, 0], .received (List.replicate 256 32)]
        callocs := fun _ => ⟨true, true⟩
        beyond := fun _ => [] }]

/-- They fill the buffer, and there is no terminator. -/
theorem not_run_terminated :
    ¬ ∀ (jsonLoads : List UInt8 → Option Json) (alive : List Int) (rootNode : Option XmlNode)
      (as : List ServiceAction),
      ∀ r ∈ (Run.run (serviceStep jsonLoads) (.boot alive rootNode) as).readings,
        r.complete = true → r.Terminated := by
  intro h
  have hfull : blanksReceived.readings.any (fun r =>
      r.complete && r.buffer.length == r.dataSize) = true := by decide +kernel
  obtain ⟨r, hr, hboth⟩ := List.any_eq_true.mp hfull
  simp only [Bool.and_eq_true, beq_iff_eq] at hboth
  unfold blanksReceived at hr
  have hlonger := (h _ _ _ _ r hr hboth.1).longer
  omega

end NemeaSupervisor
