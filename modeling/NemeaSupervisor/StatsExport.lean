import NemeaSupervisor.ServiceRounds

/-!
# The document over a run

Statistics belong to slots and survive every step; they change where a reply is
decoded and go where a slot is freed. As long as no message has left an interface
that cannot be packed, the document names every module it is asked for; one such
message of one module is enough to hide all of them.
-/

namespace NemeaSupervisor

open Loop

/-- What `make_json_modules_info` reads. -/
def ServiceState.slots (d : ServiceState) : List (RunningModule × ModuleStats) :=
  d.world.sup.loaded.zip d.stats

/-- The keys of a document. -/
def documentKeys : Option Json → Option (List (Option String))
  | some (.object fields) => some (fields.map fun f => some f.1)
  | _ => none

/-- The document names the running modules, and with details all of them. -/
def Exported (d : ServiceState) : Prop := ∀ usage,
  documentKeys (makeJsonModulesInfo 0 usage d.slots) =
      some ((d.world.sup.loaded.filter fun m => m.moduleStatus).map RunningModule.moduleName) ∧
    documentKeys (makeJsonModulesInfo 1 usage d.slots) =
      some (d.world.sup.loaded.map RunningModule.moduleName)

/-! ## The number of slots -/

@[simp] theorem length_setModule (w : World) (x : Nat) (m : RunningModule) :
    (w.setModule x m).sup.loaded.length = w.sup.loaded.length := List.length_set

/-- A pass that keeps the number of slots. -/
def KeepsLength (f : World → World) : Prop :=
  ∀ w, (f w).sup.loaded.length = w.sup.loaded.length

theorem KeepsLength.loop {body : Nat → World → World} (h : ∀ x, KeepsLength (body x))
    (n : Nat) : KeepsLength (forRange n body) := fun w =>
  forRange_invariant (fun _ (t : World) => t.sup.loaded.length = w.sup.loaded.length) rfl
    fun x t _ ht => (h x t).trans ht

theorem serviceStartModule_length (x : Nat) (m : RunningModule) :
    KeepsLength (serviceStartModule x m) := by
  intro w
  unfold serviceStartModule
  simp only []
  split <;> simp

theorem disconnect_length (x : Nat) (m : RunningModule) :
    KeepsLength (serviceDisconnectFromModule x m) := by
  intro w
  obtain ⟨k, m', heq, -⟩ := disconnect_spec x m w
  rw [heq, length_setModule]

theorem updateModuleStatus_length (x : Nat) : KeepsLength (updateModuleStatus x) := by
  intro w
  unfold updateModuleStatus
  cases w.sup.loaded[x]? with
  | none => rfl
  | some m =>
    simp only []
    split_ifs
    · simp
    · rw [serviceStartModule_length, length_setModule]
    · simp

theorem stopModuleSigint_length (x : Nat) : KeepsLength (stopModuleSigint x) := by
  intro w
  unfold stopModuleSigint
  cases w.sup.loaded[x]? with
  | none => rfl
  | some m =>
    simp only []
    split_ifs <;> simp

theorem stopModuleSigkill_length (x : Nat) : KeepsLength (stopModuleSigkill x) := by
  intro w
  unfold stopModuleSigkill
  cases w.sup.loaded[x]? with
  | none => rfl
  | some m =>
    simp only []
    split_ifs <;> simp

theorem cleanAfterChild_length (x : Nat) : KeepsLength (cleanAfterChild x) := by
  intro w
  unfold cleanAfterChild
  cases w.sup.loaded[x]? with
  | none => rfl
  | some m =>
    simp only []
    split_ifs
    · split <;> simp
    · rfl

theorem disconnectModule_length (x : Nat) : KeepsLength (disconnectModule x) := by
  intro w
  unfold disconnectModule
  cases w.sup.loaded[x]? with
  | none => rfl
  | some m => exact disconnect_length x m w

theorem checkModuleStatus_length (x : Nat) (st : World × Nat) :
    (checkModuleStatus x st).1.sup.loaded.length = st.1.sup.loaded.length := by
  obtain ⟨w, n⟩ := st
  unfold checkModuleStatus
  simp only []
  cases w.sup.loaded[x]? with
  | none => rfl
  | some m =>
    by_cases hpid : m.modulePid > 0
    · simp only [hpid, if_true]
      split <;> simp
    · simp only [hpid, if_false]

theorem serviceCheckModulesStatus_length : KeepsLength fun w => (serviceCheckModulesStatus w).1 :=
  fun w => forRange_invariant (s := (w, 0))
    (fun _ (st : World × Nat) => st.1.sup.loaded.length = w.sup.loaded.length) rfl
    fun x st _ ht => (checkModuleStatus_length x st).trans ht

/-! ## The statistics along a run -/

/-- The statistics belong to the slots, and as long as all messages fit they can be packed. -/
structure StatsInv (d : ServiceState) : Prop where
  length : d.stats.length = d.world.sup.loaded.length
  packable : (∀ call ∈ d.decoded, call.Fits) → ∀ s ∈ d.stats, s.Packable

section stats

variable {d d' : ServiceState}

theorem StatsInv.congr (h : StatsInv d) (hstats : d'.stats = d.stats)
    (hdecoded : d'.decoded = d.decoded)
    (hlength : d'.world.sup.loaded.length = d.world.sup.loaded.length) : StatsInv d' :=
  ⟨by rw [hstats, h.length, hlength], by rw [hstats, hdecoded]; exact h.packable⟩

theorem StatsInv.lift (h : StatsInv d) {f : World → World} (hf : KeepsLength f) :
    StatsInv (d.lift f) :=
  h.congr rfl rfl (hf d.world)

theorem StatsInv.forModules {body : Nat → ServiceState → ServiceState}
    (hbody : ∀ x t, StatsInv t → StatsInv (body x t)) (h : StatsInv d) :
    StatsInv (d.forModules body) :=
  forRange_invariant (fun _ => StatsInv) h fun x t _ ht => hbody x t ht

theorem serveModule_freed {y : Nat} {w : World} {m : RunningModule}
    (hy : w.sup.loaded[y]? = some m) (h : ServiceState.Freed m) :
    (serveModule y w).sup.loaded = w.sup.loaded.eraseIdx y := by
  obtain ⟨hserved, hremove, hstatus⟩ := h
  have hlt := (List.getElem?_eq_some_iff.mp hy).1
  simp only [serveModule, hy, hserved, hremove, hstatus, if_true, freeModuleAndShiftArray, hlt]

theorem serveModule_length {y : Nat} {w : World}
    (h : ¬ ∃ m ∈ w.sup.loaded[y]?, ServiceState.Freed m) :
    (serveModule y w).sup.loaded.length = w.sup.loaded.length := by
  unfold serveModule
  cases hy : w.sup.loaded[y]? with
  | none => rfl
  | some m =>
    simp only []
    split_ifs with hserved hremove hstatus hinit hstatus
    · exact absurd ⟨m, hy, hserved, hremove, hstatus⟩ h
    · rfl
    · exact length_setModule w y _
    · exact disconnect_length y m w
    · exact length_setModule w y _
    · rfl

/-- The statistics of a slot go with it. -/
theorem StatsInv.serveModule (h : StatsInv d) (y : Nat) : StatsInv (d.serveModule y) := by
  unfold ServiceState.serveModule
  by_cases hfreed : ∃ m ∈ d.world.sup.loaded[y]?, ServiceState.Freed m
  · rw [if_pos hfreed]
    obtain ⟨m, hy, hm⟩ := hfreed
    refine ⟨?_, fun hfits s hs => h.packable hfits s (List.mem_of_mem_eraseIdx hs)⟩
    simp only [serveModule_freed hy hm, List.length_eraseIdx, h.length]
  · rw [if_neg hfreed]
    exact h.congr rfl rfl (serveModule_length hfreed)

/-- A message adds what it leaves of a slot's statistics. -/
theorem StatsInv.decode (h : StatsInv d) (jsonLoads : List UInt8 → Option Json)
    (script : ServiceScript) (x : Nat) : StatsInv (d.decode jsonLoads script x).1 := by
  unfold ServiceState.decode
  cases hx : d.stats[x]? with
  | none => exact h
  | some s =>
    refine ⟨?_, fun hfits s' hs' => ?_⟩
    · rw [List.length_set, h.length]
    · have hold := h.packable fun call hcall => hfits call (List.mem_cons_of_mem _ hcall)
      rcases List.mem_or_eq_of_mem_set hs' with hs' | rfl
      · exact hold s' hs'
      · exact serviceDecodeModuleStats_packable (hold s (List.mem_of_getElem? hx))
          (hfits _ List.mem_cons_self)

theorem StatsInv.checkConnection (h : StatsInv d) (script : ServiceScript) (x : Nat) :
    StatsInv (d.checkConnection script x) := by
  unfold ServiceState.checkConnection
  cases d.world.sup.loaded[x]? with
  | none => exact h
  | some m =>
    simp only []
    split_ifs
    · unfold ServiceState.serviceConnectToModule
      simp only []
      split_ifs <;> exact h.congr rfl rfl (length_setModule _ x _)
    · exact h.congr rfl rfl (length_setModule _ x _)
    · exact h

theorem StatsInv.disconnect (h : StatsInv d) (x : Nat) (m : RunningModule) :
    StatsInv (d.disconnect x m) := h.lift (disconnect_length x m)

theorem StatsInv.requestStats (h : StatsInv d) (script : ServiceScript) (x : Nat) :
    StatsInv (d.requestStats script x) := by
  unfold ServiceState.requestStats
  cases d.world.sup.loaded[x]? with
  | none => exact h
  | some m =>
    have hsent : ∀ bytes, StatsInv (d.wait.transfer m.moduleServiceSd (.sent bytes)) :=
      fun bytes => h.congr rfl rfl rfl
    simp only []
    split_ifs
    · exact hsent _
    · exact (hsent _).disconnect x m
    · exact h

theorem StatsInv.receiveReply (h : StatsInv d) (jsonLoads : List UInt8 → Option Json)
    (script : ServiceScript) (x : Nat) (sd : Int) :
    StatsInv (d.receiveReply jsonLoads script x sd).1 := by
  unfold ServiceState.receiveReply
  simp only []
  split_ifs
  · exact h.congr rfl rfl rfl
  · exact h.congr rfl rfl rfl
  · exact h.congr rfl rfl rfl
  · refine StatsInv.decode ?_ jsonLoads script x
    exact h.congr rfl rfl rfl

theorem StatsInv.receiveStats (h : StatsInv d) (jsonLoads : List UInt8 → Option Json)
    (script : ServiceScript) (x : Nat) : StatsInv (d.receiveStats jsonLoads script x) := by
  unfold ServiceState.receiveStats
  cases d.world.sup.loaded[x]? with
  | none => exact h
  | some m =>
    have hwait : StatsInv d.wait := h.congr rfl rfl rfl
    have hreply := hwait.receiveReply jsonLoads script x m.moduleServiceSd
    simp only []
    split_ifs
    · exact hreply
    · exact hreply.disconnect x m
    · exact h

theorem StatsInv.exchange (h : StatsInv d) (jsonLoads : List UInt8 → Option Json)
    (script : ServiceScript) : StatsInv (d.exchange jsonLoads script) := by
  have hrequest : StatsInv { d with header := d.header.request } := h.congr rfl rfl rfl
  have hconnected := hrequest.forModules fun x _ ht => ht.checkConnection script x
  have hsent := hconnected.forModules fun x _ ht => ht.requestStats script x
  exact (hsent.lift serviceCheckModulesStatus_length).forModules
    fun x _ ht => ht.receiveStats jsonLoads script x

theorem passes_length : KeepsLength fun w => serviceCleanAfterChildren
    (serviceStopModulesSigkill (serviceCheckModulesStatus (serviceCleanAfterChildren
      (serviceStopModulesSigint (serviceUpdateModulesStatus w)))).1) := by
  intro w
  have pass : ∀ {body : Nat → World → World}, (∀ x, KeepsLength (body x)) → ∀ t : World,
      (forRange t.sup.loadedModulesCnt body t).sup.loaded.length = t.sup.loaded.length :=
    fun hbody t => KeepsLength.loop hbody _ t
  simp only [serviceCleanAfterChildren, serviceStopModulesSigkill, serviceStopModulesSigint,
    serviceUpdateModulesStatus]
  rw [pass cleanAfterChild_length, pass stopModuleSigkill_length, serviceCheckModulesStatus_length,
    pass cleanAfterChild_length, pass stopModuleSigint_length, pass updateModuleStatus_length]

theorem StatsInv.beforeExchange (h : StatsInv d) : StatsInv d.beforeExchange := by
  have hserved := (h.lift passes_length).forModules fun x _ ht => ht.serveModule x
  unfold ServiceState.beforeExchange
  exact hserved.lift serviceCheckModulesStatus_length

theorem StatsInv.cycle (h : StatsInv d) (jsonLoads : List UInt8 → Option Json)
    (script : ServiceScript) : StatsInv (d.cycle jsonLoads script) := by
  have hcheck := serviceCheckModulesStatus_length
    { d.world with kernel := { d.world.kernel with turns := script.turns } }
  unfold ServiceState.cycle
  split_ifs
  · exact h
  · simp only [] at hcheck ⊢
    generalize serviceCheckModulesStatus
      { d.world with kernel := { d.world.kernel with turns := script.turns } } = st at hcheck
    obtain ⟨w, runningModulesCnt⟩ := st
    simp only [] at hcheck ⊢
    split_ifs
    · have hexit : (serviceThreadExit w).sup.loaded.length = w.sup.loaded.length :=
        KeepsLength.loop disconnectModule_length _ w
      exact h.congr rfl rfl (hexit.trans hcheck)
    · have hw : StatsInv { d with world := w } := h.congr rfl rfl hcheck
      exact hw.beforeExchange.exchange jsonLoads script

theorem packable_zero : ModuleStats.zero.Packable :=
  ⟨fun _ h => absurd h List.not_mem_nil, fun _ h => absurd h List.not_mem_nil⟩

/-- A command adds slots at most. -/
theorem StatsInv.command (h : StatsInv d) (htable : TableInv d.world.sup) {a : Action}
    (ha : ∀ turns, a ≠ .cycle turns) : StatsInv (d.command a) := by
  have hle : d.world.sup.loaded.length ≤ (step d.world a).sup.loaded.length := by
    refine (command_invariant (w := d.world) (a := a)
      (I := fun w => TableInv w.sup ∧ d.world.sup.loaded.length ≤ w.sup.loaded.length)
      (fun _ hw => hw.1) (fun _ hw => hw) ?_ (fun w b c hw => ⟨hw.1.flags b c, hw.2⟩) ha
      ⟨htable, Nat.le_refl _⟩ ?_).2
    · intro enabling w s' hw hc
      refine ⟨hw.1.command hc, hw.2.trans ?_⟩
      cases hc with
      | enable | disable | restart => exact List.length_set.ge
      | profile => exact Nat.le_refl _
      | stop => exact (List.length_map _).ge
    · intro choice root s' _ hc hg hr
      refine ⟨hr.tableInv htable hg, ?_⟩
      rw [hr.loaded, List.length_append, List.length_map]
      exact Nat.le_add_right _ _
  refine ⟨?_, fun hfits s hs => ?_⟩
  · simp only [ServiceState.command, List.length_append, List.length_replicate, h.length]
    omega
  · rcases List.mem_append.mp hs with hs | hs
    · exact h.packable hfits s hs
    · exact List.eq_of_mem_replicate hs ▸ packable_zero

end stats

theorem boot_statsInv (alive : List Int) (rootNode : Option XmlNode) :
    StatsInv (.boot alive rootNode) := by
  refine ⟨List.length_replicate, fun _ s hs => ?_⟩
  exact List.eq_of_mem_replicate hs ▸ packable_zero

theorem run_statsInv (jsonLoads : List UInt8 → Option Json) (alive : List Int)
    (rootNode : Option XmlNode) (as : List ServiceAction) :
    StatsInv (Run.run (serviceStep jsonLoads) (.boot alive rootNode) as) := by
  refine (Run.run_invariant (I := fun d => ServiceInv d ∧ StatsInv d) (fun d a h => ?_)
    ⟨boot_serviceInv alive rootNode, boot_statsInv alive rootNode⟩ as).2
  cases a with
  | cycle script => exact ⟨h.1.cycle jsonLoads script, h.2.cycle jsonLoads script⟩
  | info turns =>
    have hlength : KeepsLength fun w =>
        (serviceCheckModulesStatus { w with kernel := { w.kernel with turns } }).1 :=
      fun w => serviceCheckModulesStatus_length _
    exact ⟨h.1.supervisorInfo turns, h.2.lift hlength⟩
  | command a ha => exact ⟨h.1.command ha, h.2.command h.1.table ha⟩

/-! ## The document -/

/-- The names that the loop lists are names of slots. -/
theorem listedNames_slots {d : ServiceState} (h : StatsInv d) (printDetails : Bool) :
    listedNames printDetails d.slots =
      (d.world.sup.loaded.filter (Listed printDetails)).map RunningModule.moduleName := by
  have hfst : d.slots.map Prod.fst = d.world.sup.loaded := List.map_fst_zip h.length.ge
  rw [listedNames, ← hfst, List.filter_map, List.map_map]
  rfl

/-- A document of modules that can be packed. -/
theorem exported_keys {d : ServiceState} (h : StatsInv d) (htable : TableInv d.world.sup)
    (hfits : ∀ call ∈ d.decoded, call.Fits) (infoMask : UInt8)
    (hlisted : ∃ m ∈ d.world.sup.loaded, Listed (infoMask &&& 1 == 1) m = true)
    (usage : Nat → ResourceUsage) :
    documentKeys (makeJsonModulesInfo infoMask usage d.slots) =
      some ((d.world.sup.loaded.filter (Listed (infoMask &&& 1 == 1))).map
        RunningModule.moduleName) := by
  have hnames := listedNames_slots h (infoMask &&& 1 == 1)
  have hpack : ∀ p ∈ d.slots, PackableModule (infoMask &&& 1 == 1) p.1 p.2 := by
    intro p hp
    obtain ⟨hm, hs⟩ := List.of_mem_zip hp
    obtain ⟨name, hname⟩ := (htable.slots p.1 hm).name
    obtain ⟨path, hpath⟩ := (htable.slots p.1 hm).path
    exact ⟨by rw [hname]; rfl, fun _ => by rw [hpath]; rfl, h.packable hfits p.2 hs⟩
  have hdistinct : (listedNames (infoMask &&& 1 == 1) d.slots).Nodup := by
    rw [hnames]
    exact htable.distinct.sublist (List.Sublist.map _ List.filter_sublist)
  have hsome : listedNames (infoMask &&& 1 == 1) d.slots ≠ [] := by
    obtain ⟨m, hm, hlist⟩ := hlisted
    rw [hnames]
    exact List.ne_nil_of_mem (List.mem_map_of_mem (List.mem_filter.mpr ⟨hm, hlist⟩))
  obtain ⟨modulesObj, hdocument, hkeys⟩ :=
    @makeJsonModulesInfo_names infoMask usage d.slots (fun p hp _ => hpack p hp) hdistinct hsome
  rw [hdocument, ← hnames, ← hkeys, documentKeys]

/-- In a run whose messages all fit the document names every module it is asked for. -/
theorem run_exported (jsonLoads : List UInt8 → Option Json) (alive : List Int)
    (rootNode : Option XmlNode) (as : List ServiceAction)
    (hrunning : ∃ m ∈ (Run.run (serviceStep jsonLoads) (.boot alive rootNode) as).world.sup.loaded,
      m.moduleStatus = true)
    (hfits : ∀ call ∈ (Run.run (serviceStep jsonLoads) (.boot alive rootNode) as).decoded,
      call.Fits) :
    Exported (Run.run (serviceStep jsonLoads) (.boot alive rootNode) as) := by
  have hstats := run_statsInv jsonLoads alive rootNode as
  have htable := (run_serviceInv jsonLoads alive rootNode as).table
  obtain ⟨m, hm, hstatus⟩ := hrunning
  intro usage
  constructor
  · exact exported_keys hstats htable hfits 0 ⟨m, hm, hstatus⟩ usage
  · have hall : ∀ m, Listed ((1 : UInt8) &&& 1 == 1) m = true := fun _ => rfl
    rw [exported_keys hstats htable hfits 1 ⟨m, hm, hall m⟩ usage,
      List.filter_eq_self.mpr fun m _ => hall m]

/-! ## One module and one message -/

/-- The bytes of an ASCII text. -/
def asciiBytes (text : String) : List UInt8 := text.toList.map fun c => UInt8.ofNat c.toNat

/-- A reply with a text: its header and its data. -/
def replyBytes (text : String) : List RecvResult :=
  let bytes := asciiBytes text
  [.received [serviceOkReply, 0, 0, 0, UInt8.ofNat bytes.length, 0, 0, 0], .received bytes]

/-- A cycle in which every module answers with one text. -/
def answered (text : String) : ServiceAction :=
  .cycle
    { turns := List.replicate 10 ⟨[], 100, 5, true⟩
      connects := fun _ => true
      sends := fun _ => [.sent 8]
      recvs := fun _ => replyBytes text
      callocs := fun _ => ⟨true, true⟩
      beyond := fun _ => [] }

/-- A message that announces an input interface and describes none. -/
def shortText : String := "\x7b\"in_cnt\":1,\"out_cnt\":0,\"in\":[],\"out\":[]\x7d"

def shortMessage : Json :=
  .object [("in_cnt", .integer 1), ("out_cnt", .integer 0), ("in", .array []), ("out", .array [])]

def loadsOf (text : String) (message : Json) (bytes : List UInt8) : Option Json :=
  if bytes = asciiBytes text then some message else none

/-- One module that has sent one message. -/
def exportedAfter (text : String) (message : Json) : ServiceState :=
  Run.run (serviceStep (loadsOf text message))
    (.boot [] (some (profileDocument [moduleElement "m" "/bin/m" "true" []]))) [answered text]

/-- A message that describes its interface. -/
def longText : String :=
  "\x7b\"in_cnt\":1,\"out_cnt\":0,\"in\":[\x7b\"messages\":7,\"buffers\":2,\"ifc_type\":116," ++
    "\"ifc_state\":1,\"ifc_id\":\"a\"\x7d],\"out\":[]\x7d"

def longMessage : Json :=
  .object [("in_cnt", .integer 1), ("out_cnt", .integer 0),
    ("in", .array [.object [("messages", .integer 7), ("buffers", .integer 2),
      ("ifc_type", .integer 116), ("ifc_state", .integer 1), ("ifc_id", .string "a")]]),
    ("out", .array [])]

theorem run_exported_one : (exportedAfter longText longMessage).decoded.length = 1 ∧
    Exported (exportedAfter longText longMessage) := by
  obtain ⟨hrunning, hfits, hdecoded⟩ : (exportedAfter longText longMessage).world.sup.loaded.any
        (fun m => m.moduleStatus) = true ∧
      (∀ call ∈ (exportedAfter longText longMessage).decoded, call.Fits) ∧
      (exportedAfter longText longMessage).decoded.length = 1 := by decide +kernel
  refine ⟨hdecoded, ?_⟩
  unfold exportedAfter at hrunning hfits ⊢
  exact run_exported _ _ _ _ (List.any_eq_true.mp hrunning) hfits

/-- The module is running, and there is no document. -/
theorem not_run_exported :
    ¬ ∀ (jsonLoads : List UInt8 → Option Json) (alive : List Int) (rootNode : Option XmlNode)
      (as : List ServiceAction),
      (∃ m ∈ (Run.run (serviceStep jsonLoads) (.boot alive rootNode) as).world.sup.loaded,
        m.moduleStatus = true) →
      Exported (Run.run (serviceStep jsonLoads) (.boot alive rootNode) as) := by
  intro h
  obtain ⟨hrunning, hnone⟩ : (exportedAfter shortText shortMessage).world.sup.loaded.any
        (fun m => m.moduleStatus) = true ∧
      (makeJsonModulesInfo 0 (fun _ => ⟨0, 0, 0, 0⟩)
        (exportedAfter shortText shortMessage).slots).isNone = true := by decide +kernel
  rw [Option.isNone_iff_eq_none] at hnone
  unfold exportedAfter at hrunning hnone
  have hdocument := h _ _ _ _ (List.any_eq_true.mp hrunning) fun _ => ⟨0, 0, 0, 0⟩
  rw [hnone] at hdocument
  exact absurd hdocument.1 (by simp [documentKeys])

end NemeaSupervisor
