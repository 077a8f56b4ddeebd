import NemeaSupervisor.DocumentReload

/-!
# The invariant of the table

Between the critical sections every loaded slot holds a configuration that a
document could have given it, the names are distinct and the slots above the
loaded ones are blank. A reload of an accepted document keeps this, and under it
the reload has the closed description `Reloaded`.
-/

namespace NemeaSupervisor

open XmlNode

/-- The configuration in a slot: what neither an operator nor the service thread
changes. -/
def RunningModule.config (m : RunningModule) : RunningModule :=
  { m with
    moduleEnabled := false
    moduleServedByServiceThread := false
    moduleIsMyChild := false
    moduleRootPermNeeded := false
    removeModule := false
    initModule := false
    moduleStatus := false
    moduleRunning := false
    moduleRestartCnt := 0
    moduleRestartTimer := 0
    modulePid := 0
    sentSigint := false
    moduleServiceSd := 0
    moduleServiceIfcIsconnected := false
    serviceIfcConnTimer := 0 }

/-- A field of the configuration. -/
theorem field_of_config {α : Type} (π : RunningModule → α)
    (hπ : ∀ m : RunningModule, π m.config = π m) {m m' : RunningModule}
    (h : m'.config = m.config) : π m' = π m := by
  rw [← hπ, h, hπ]

/-- A slot that holds no module. The reset before a reload writes its flags too. -/
structure BlankSlot (m : RunningModule) : Prop where
  ifces : Filled 0 m.configIfces
  zero : { m with
    configIfces := []
    moduleIsMyChild := false
    moduleMaxRestartsPerMinute := 0 } = RunningModule.zero

theorem filled_nil : Filled 0 [] := ⟨.inl ⟨rfl, rfl⟩, by simp⟩

theorem filled_fresh : Filled 0 RunningModule.fresh.configIfces :=
  ⟨.inr ⟨by decide, Nat.zero_le _⟩, fun _ _ _ h => blank_replicate h⟩

theorem BlankSlot.fresh : BlankSlot RunningModule.fresh := ⟨filled_fresh, rfl⟩

theorem BlankSlot.ofZero : BlankSlot RunningModule.zero := ⟨filled_nil, rfl⟩

theorem BlankSlot.reset {m : RunningModule} (h : BlankSlot m) : BlankSlot (resetReloadFlags m) := by
  obtain ⟨hifces, hzero⟩ := h
  refine ⟨hifces, ?_⟩
  rw [RunningModule.mk.injEq] at hzero
  simp only [resetReloadFlags, hzero]
  rfl

/-- What a field of a blank slot is, unless the reset writes it. -/
theorem BlankSlot.field {α : Type} {m : RunningModule} (h : BlankSlot m) (π : RunningModule → α)
    (hπ : ∀ (m : RunningModule) arr b l,
      π { m with configIfces := arr, moduleIsMyChild := b, moduleMaxRestartsPerMinute := l } = π m) :
    π m = π RunningModule.zero := by
  rw [← h.zero]
  exact (hπ m _ _ _).symm

/-- The texts the validation lets through for an interface. -/
structure ValidInterface (ifc : Interface) : Prop where
  type : ∀ t, ifc.ifcType = some t → t ∈ ["TCP", "UNIXSOCKET", "FILE", "BLACKHOLE", "TLS"]
  direction : ∀ d, ifc.ifcDirection = some d → d ∈ ["IN", "OUT"]

/-- The configuration of a loaded slot. -/
structure LoadedSlot (profileCnt : Nat) (m : RunningModule) : Prop where
  name : ∃ name, m.moduleName = some name
  path : ∃ path, m.modulePath = some path
  profile : ∀ i, m.modulesProfile = some i → i < profileCnt
  limit : -1 ≤ m.moduleMaxRestartsPerMinute
  ifces : IfcArray m
  valid : ∀ ifc ∈ m.ifces, ValidInterface ifc

theorem LoadedSlot.congr {n : Nat} {m m' : RunningModule} (h : m'.config = m.config)
    (hm : LoadedSlot n m) : LoadedSlot n m' := by
  have heq := h
  rw [RunningModule.config, RunningModule.config, RunningModule.mk.injEq] at heq
  obtain ⟨harr, hcnt, -, hname, -, hpath, -, -, -, hprofile, -, -, -, -, -, -, -, -, hlimit, -⟩ := heq
  have hifces : m'.ifces = m.ifces := by simp [RunningModule.ifces, harr, hcnt]
  constructor
  · rw [hname]; exact hm.name
  · rw [hpath]; exact hm.path
  · rw [hprofile]; exact hm.profile
  · rw [hlimit]; exact hm.limit
  · exact ⟨by rw [harr, hcnt]; exact hm.ifces.filled, by rw [hifces]; exact hm.ifces.codes⟩
  · rw [hifces]; exact hm.valid

/-- The invariant of the table. -/
structure TableInv (s : Supervisor) : Prop where
  slots : ∀ m ∈ s.loaded, LoadedSlot s.profiles.length m
  distinct : (s.loaded.map RunningModule.moduleName).Nodup
  profileNames : (s.profiles.map ModulesProfile.profileName).Nodup
  profileCnt : s.loadedProfileCnt = s.profiles.length
  limit : 0 ≤ s.moduleRestartsNumConfig
  spare : ∀ k, BlankSlot (slotAt s k)
  size : 2 ≤ s.runningModulesArraySize

theorem slotAt_blank {s : Supervisor} (h : ∀ m ∈ s.spare, BlankSlot m) (k : Nat) :
    BlankSlot (slotAt s k) := by
  rw [slotAt, List.getD_eq_getElem?_getD]
  cases hk : s.spare[k]? with
  | none => exact BlankSlot.fresh
  | some m => exact h m (List.mem_of_getElem? hk)

theorem init_loaded : Supervisor.init.loaded = [] := rfl

theorem TableInv.init : TableInv Supervisor.init := by
  refine ⟨by simp [init_loaded], by decide, by decide, rfl, by decide, ?_, by decide⟩
  refine slotAt_blank fun m hm => ?_
  have : m = RunningModule.fresh := List.eq_of_mem_replicate hm
  rw [this]
  exact BlankSlot.fresh

/-- The invariant is about the configuration only. -/
theorem TableInv.congr {s s' : Supervisor} (h : TableInv s)
    (hl : s'.loaded.map RunningModule.config = s.loaded.map RunningModule.config)
    (hs : s'.spare = s.spare)
    (hp : s'.profiles.map ModulesProfile.profileName = s.profiles.map ModulesProfile.profileName)
    (hc : s'.loadedProfileCnt = s.loadedProfileCnt)
    (hr : s'.moduleRestartsNumConfig = s.moduleRestartsNumConfig) : TableInv s' := by
  have hlen : s'.loaded.length = s.loaded.length := by simpa using congrArg List.length hl
  have hplen : s'.profiles.length = s.profiles.length := by simpa using congrArg List.length hp
  have hnames : ∀ l : List RunningModule, l.map RunningModule.moduleName =
      (l.map RunningModule.config).map RunningModule.moduleName := by
    intro l
    rw [List.map_map]
    rfl
  constructor
  · intro m hm
    have hmem : m.config ∈ s.loaded.map RunningModule.config := hl ▸ List.mem_map_of_mem hm
    obtain ⟨m0, hm0, heq⟩ := List.mem_map.mp hmem
    rw [hplen]
    exact (h.slots m0 hm0).congr heq.symm
  · rw [hnames, hl, ← hnames]
    exact h.distinct
  · rw [hp]
    exact h.profileNames
  · rw [hc, hplen]
    exact h.profileCnt
  · rw [hr]
    exact h.limit
  · intro k
    rw [slotAt, hs]
    exact h.spare k
  · rw [Supervisor.runningModulesArraySize, hlen, hs]
    exact h.size

/-! ## The reload of an accepted document -/

/-- The slot of a loaded module after a reload. -/
def reloadOld (choice : ReloadChoice) (ds : List (Nat × XmlNode)) (m : RunningModule) :
    RunningModule :=
  adoptIfRunning choice (restartIfModified (removeIfMissing
    (placeOld choice ds (resetReloadFlags m))))

/-- The slot of a new module after a reload. -/
def reloadNew (choice : ReloadChoice) (d : Nat × XmlNode) (m : RunningModule) : RunningModule :=
  adoptIfRunning choice (restartIfModified (placeElement choice true d m))

/-- What `reload_configuration` makes of a state and an accepted document. -/
structure Reloaded (choice : ReloadChoice) (s : Supervisor) (nodes : List XmlNode)
    (s' : Supervisor) : Prop where
  loaded : s'.loaded = s.loaded.map (reloadOld choice (docModules nodes)) ++
    (newDocs s (docModules nodes)).mapIdx fun k d => reloadNew choice d (slotAt (resetTable s) k)
  spare : ∀ k, slotAt s' k =
    slotAt (resetTable s) ((newDocs s (docModules nodes)).length + k)
  size : 2 ≤ s'.runningModulesArraySize
  profiles : s'.profiles = docProfiles nodes
  profileCnt : s'.loadedProfileCnt = (docProfiles nodes).length
  limit : s'.moduleRestartsNumConfig = (docRestarts nodes).getD s.moduleRestartsNumConfig
  continues : s'.serviceThreadContinue = s.serviceThreadContinue
  stopAll : s'.serviceStopAllModules = s.serviceStopAllModules

theorem slotAt_resetTable (s : Supervisor) (k : Nat) :
    slotAt (resetTable s) k = if k < s.spare.length then resetReloadFlags (slotAt s k)
      else RunningModule.fresh := by
  simp only [slotAt, resetTable, List.getD_eq_getElem?_getD, List.getElem?_map]
  by_cases hk : k < s.spare.length
  · simp [hk]
  · simp [hk]

theorem TableInv.spare_reset {s : Supervisor} (h : TableInv s) (k : Nat) :
    BlankSlot (slotAt (resetTable s) k) := by
  rw [slotAt_resetTable]
  split_ifs
  · exact (h.spare k).reset
  · exact BlankSlot.fresh

theorem BlankSlot.slotFor {m : RunningModule} (h : BlankSlot m) : SlotFor true m :=
  ⟨h.ifces, h.field RunningModule.configIfcesCnt fun _ _ _ _ => rfl⟩

theorem newDocs_resetTable (s : Supervisor) (ds : List (Nat × XmlNode)) :
    newDocs (resetTable s) ds = newDocs s ds := by
  simp only [newDocs, resetTable, List.all_map]
  rfl

/-- The reset makes the table ready for the apply loop. -/
theorem TableInv.ready {s : Supervisor} (h : TableInv s) : Ready (resetTable s) := by
  have hold : ∀ m ∈ (resetTable s).loaded, ∃ m0 ∈ s.loaded, m = resetReloadFlags m0 := by
    intro m hm
    obtain ⟨m0, hm0, rfl⟩ := List.mem_map.mp hm
    exact ⟨m0, hm0, rfl⟩
  constructor
  · intro m hm
    obtain ⟨m0, hm0, rfl⟩ := hold m hm
    exact (h.slots m0 hm0).name
  · have : (resetTable s).loaded.map RunningModule.moduleName =
        s.loaded.map RunningModule.moduleName := by
      simp only [resetTable, List.map_map]
      rfl
    rw [this]
    exact h.distinct
  · intro m hm
    obtain ⟨m0, -, rfl⟩ := hold m hm
    rfl
  · intro m hm
    obtain ⟨m0, hm0, rfl⟩ := hold m hm
    exact ⟨(h.slots m0 hm0).ifces.filled, (h.slots m0 hm0).ifces.codes⟩
  · exact fun k => (h.spare_reset k).slotFor
  · have := h.size
    simpa [Supervisor.runningModulesArraySize, resetTable] using this

/-- The state after an accepted document. -/
theorem reloadConfiguration_accepted {s : Supervisor} (h : TableInv s) {root : XmlNode}
    (hg : Grammar root) (choice : ReloadChoice) :
    (reloadConfiguration choice (some root) s).2 = true ∧
      Reloaded choice s root.xmlChildrenNode (reloadConfiguration choice (some root) s).1 := by
  have hok : validateConfiguration (some root) = .ok () :=
    validateConfiguration_eq_ok.mpr ⟨root, rfl, hg⟩
  have hfold := foldl_processNode choice h.ready rfl rfl hg.goodDocs hg.supervisorOnce
    fun c hc => (hg.nodes c hc).imp_right (Or.imp_left fun hs => ⟨hs.1, hs.2.2⟩)
  have heq : reloadConfiguration choice (some root) s =
      (finishReload choice s.loadedModulesCnt
        (root.xmlChildrenNode.foldl (processNode choice) (resetTable s)), true) := by
    simp only [reloadConfiguration, hok]
  rw [heq]
  refine ⟨rfl, ?_⟩
  generalize root.xmlChildrenNode.foldl (processNode choice) (resetTable s) = s1 at hfold
  have hrest := hfold.rest
  simp only [Supervisor.sansTable, resetTable, Supervisor.mk.injEq] at hrest
  obtain ⟨-, -, hprofiles, hcnt, hlimit, hcontinue, hstop⟩ := hrest
  refine ⟨?_, fun k => ?_, ?_, hprofiles, hcnt, hlimit, hcontinue, hstop⟩
  · simp only [finishReload]
    rw [hfold.placed.loaded, List.mapIdx_append]
    congr 1
    · apply List.ext_getElem?
      intro x
      simp only [List.getElem?_mapIdx, List.getElem?_map, resetTable, List.map_map]
      cases hx : s.loaded[x]? with
      | none => rfl
      | some m =>
        have hlt : x < s.loadedModulesCnt := (List.getElem?_eq_some_iff.mp hx).1
        simp [hlt, reloadOld]
    · apply List.ext_getElem?
      intro k
      have hlen : (resetTable s).loaded.length = s.loaded.length := List.length_map _
      have hge : ∀ y, ¬ y + s.loaded.length < s.loadedModulesCnt := by
        intro y
        simp only [Supervisor.loadedModulesCnt]
        omega
      simp only [List.getElem?_mapIdx, newModules, newDocs_resetTable, List.length_map, hlen,
        Option.map_map]
      cases (newDocs s (docModules root.xmlChildrenNode))[k]? with
      | none => rfl
      | some d => simp [hge, reloadNew]
  · have := hfold.placed.spare k
    rw [newDocs_resetTable] at this
    exact this
  · have := hfold.placed.size
    simpa [finishReload, Supervisor.runningModulesArraySize] using this

/-- A rejected document changes nothing. -/
theorem reloadConfiguration_rejected {root : Option XmlNode} (hg : ¬ ∃ r, root = some r ∧ Grammar r)
    (choice : ReloadChoice) (s : Supervisor) : reloadConfiguration choice root s = (s, false) := by
  unfold reloadConfiguration
  cases hv : validateConfiguration root with
  | error e => rfl
  | ok u =>
    cases u
    exact absurd (validateConfiguration_eq_ok.mp hv) hg

/-! ## Where the slots after a reload come from -/

/-- The passes after the apply loop over a slot that an element was applied to. -/
def finishSlot (choice : ReloadChoice) (m : RunningModule) : RunningModule :=
  adoptIfRunning choice (restartIfModified m)

/-- The slot of a module that the document does not name. -/
def missingSlot (m : RunningModule) : RunningModule :=
  { resetReloadFlags m with moduleEnabled := false, removeModule := true }

inductive ReloadedSlot (choice : ReloadChoice) (s : Supervisor) (ds : List (Nat × XmlNode)) :
    RunningModule → Prop where
  | missing {m : RunningModule} (hm : m ∈ s.loaded) (hdoc : docFor ds m = none) :
    ReloadedSlot choice s ds (finishSlot choice (missingSlot m))
  | kept {m m1 : RunningModule} {d : Nat × XmlNode} (hm : m ∈ s.loaded) (hd : d ∈ ds)
    (hname : moduleName d.2 = m.moduleName)
    (happlied : Applied choice d.1 false d.2 (resetReloadFlags m) m1) :
    ReloadedSlot choice s ds (finishSlot choice m1)
  | new {k : Nat} {m1 : RunningModule} {d : Nat × XmlNode} (hd : d ∈ ds)
    (hnew : ∀ m ∈ s.loaded, m.moduleName ≠ moduleName d.2)
    (happlied : Applied choice d.1 true d.2 (slotAt (resetTable s) k) m1) :
    ReloadedSlot choice s ds (finishSlot choice m1)

/-- An element that was applied is checked, so its slot is not removed. -/
theorem Applied.checked {choice : ReloadChoice} {i : Nat} {newModule : Bool} {e : XmlNode}
    {m m1 : RunningModule} (h : Applied choice i newModule e m m1) :
    m1.moduleCheckedByReload = true := by
  have := congrArg RunningModule.moduleCheckedByReload h.frame
  simpa [RunningModule.sansConfig, RunningModule.sansIfces] using this

theorem Applied.running {choice : ReloadChoice} {i : Nat} {newModule : Bool} {e : XmlNode}
    {m m1 : RunningModule} (h : Applied choice i newModule e m m1) :
    m1.moduleRunning = m.moduleRunning := by
  have := congrArg RunningModule.moduleRunning h.frame
  simpa [RunningModule.sansConfig, RunningModule.sansIfces] using this

theorem reloadOld_some {choice : ReloadChoice} {ds : List (Nat × XmlNode)} {m m1 : RunningModule}
    {d : Nat × XmlNode} (hdoc : docFor ds m = some d)
    (hm1 : m1 = placeElement choice false d (resetReloadFlags m))
    (happlied : Applied choice d.1 false d.2 (resetReloadFlags m) m1) :
    reloadOld choice ds m = finishSlot choice m1 := by
  have hplace : placeOld choice ds (resetReloadFlags m) = m1 := by
    have : docFor ds (resetReloadFlags m) = some d := hdoc
    rw [placeOld, this, hm1]
  rw [reloadOld, hplace, removeIfMissing, happlied.checked]
  rfl

theorem reloadOld_none {choice : ReloadChoice} {ds : List (Nat × XmlNode)} {m : RunningModule}
    (hdoc : docFor ds m = none) : reloadOld choice ds m = finishSlot choice (missingSlot m) := by
  have hplace : placeOld choice ds (resetReloadFlags m) = resetReloadFlags m := by
    have : docFor ds (resetReloadFlags m) = none := hdoc
    rw [placeOld, this]
  rw [reloadOld, hplace]
  rfl

theorem TableInv.reset_slotFor {s : Supervisor} (h : TableInv s) {m : RunningModule}
    (hm : m ∈ s.loaded) : SlotFor false (resetReloadFlags m) :=
  ⟨(h.slots m hm).ifces.filled, (h.slots m hm).ifces.codes⟩

/-- The slot of an already loaded module. -/
theorem reloadedSlot_old {choice : ReloadChoice} {s : Supervisor} (h : TableInv s)
    {ds : List (Nat × XmlNode)} (hd : GoodDocs ds) {m : RunningModule} (hm : m ∈ s.loaded) :
    ReloadedSlot choice s ds (reloadOld choice ds m) := by
  cases hdoc : docFor ds m with
  | none =>
    rw [reloadOld_none hdoc]
    exact .missing hm hdoc
  | some d =>
    obtain ⟨hmem, hname⟩ := docFor_mem hdoc
    have happlied := placeElement_applied choice (hd.grammar d hmem) (h.reset_slotFor hm)
    rw [reloadOld_some hdoc rfl happlied]
    exact .kept hm hmem hname happlied

theorem mem_newDocs {s : Supervisor} {ds : List (Nat × XmlNode)} {d : Nat × XmlNode} :
    d ∈ newDocs s ds ↔ d ∈ ds ∧ ∀ m ∈ s.loaded, m.moduleName ≠ moduleName d.2 := by
  simp [newDocs]

/-- Every slot after a reload comes from one of the three places. -/
theorem Reloaded.slot {choice : ReloadChoice} {s s' : Supervisor} (h : TableInv s)
    {nodes : List XmlNode} (hd : GoodDocs (docModules nodes)) (hr : Reloaded choice s nodes s')
    {m' : RunningModule} (hm' : m' ∈ s'.loaded) : ReloadedSlot choice s (docModules nodes) m' := by
  rw [hr.loaded, List.mem_append, List.mem_map, List.mem_mapIdx] at hm'
  rcases hm' with ⟨m, hm, rfl⟩ | ⟨k, hk, rfl⟩
  · exact reloadedSlot_old h hd hm
  · obtain ⟨hmem, hnew⟩ := mem_newDocs.mp (List.getElem_mem hk)
    exact .new hmem hnew (placeElement_applied choice (hd.grammar _ hmem)
      (h.spare_reset k).slotFor)

/-- A restart is pending for a modified module that was running and is enabled. -/
theorem restartIfModified_eq (m : RunningModule) :
    restartIfModified m =
      { m with
        moduleServedByServiceThread := false
        moduleRunning := m.moduleRunning && !m.moduleModifiedByReload
        moduleEnabled := m.moduleEnabled && !(m.moduleModifiedByReload && m.moduleRunning)
        initModule :=
          m.initModule || (m.moduleModifiedByReload && m.moduleRunning && m.moduleEnabled) } := by
  obtain ⟨_, _, enabled, _, _, _, _, modified, _, _, _, _, _, init, _, running, _, _, _, _, _, _, _,
    _⟩ := m
  cases modified <;> cases running <;> cases enabled <;> simp [restartIfModified]

theorem adoptIfRunning_later {choice : ReloadChoice} (h : choice ≠ .initLoadConfig)
    (m : RunningModule) : adoptIfRunning choice m = m := by
  rw [adoptIfRunning, if_neg fun hc => h hc.1]

@[simp] theorem finishSlot_config (choice : ReloadChoice) (m : RunningModule) :
    (finishSlot choice m).config = m.config := by
  rw [finishSlot, restartIfModified_eq]
  unfold adoptIfRunning
  split_ifs <;> rfl

@[simp] theorem finishSlot_name (choice : ReloadChoice) (m : RunningModule) :
    (finishSlot choice m).moduleName = m.moduleName :=
  field_of_config RunningModule.moduleName (fun _ => rfl) (finishSlot_config choice m)

theorem ReloadedSlot.name {choice : ReloadChoice} {s : Supervisor} {ds : List (Nat × XmlNode)}
    {m' : RunningModule} (h : ReloadedSlot choice s ds m') :
    (∃ m ∈ s.loaded, m'.moduleName = m.moduleName) ∨ ∃ d ∈ ds, m'.moduleName = moduleName d.2 := by
  cases h with
  | missing hm _ => exact .inl ⟨_, hm, finishSlot_name choice _⟩
  | kept hm _ _ happlied => exact .inl ⟨_, hm, (finishSlot_name choice _).trans happlied.name⟩
  | new hd _ happlied => exact .inr ⟨_, hd, (finishSlot_name choice _).trans happlied.name⟩

/-- The names after a reload: those of the loaded modules, then the new ones. -/
theorem Reloaded.names {choice : ReloadChoice} {s s' : Supervisor} (h : TableInv s)
    {nodes : List XmlNode} (hd : GoodDocs (docModules nodes)) (hr : Reloaded choice s nodes s') :
    s'.loaded.map RunningModule.moduleName = s.loaded.map RunningModule.moduleName ++
      (newDocs s (docModules nodes)).map fun d => moduleName d.2 := by
  rw [hr.loaded, List.map_append, List.map_map]
  congr 1
  · refine List.map_congr_left fun m hm => ?_
    simp only [Function.comp]
    cases hdoc : docFor (docModules nodes) m with
    | none =>
      rw [reloadOld_none hdoc, finishSlot_name]
      rfl
    | some d =>
      have happlied := placeElement_applied choice (hd.grammar d (docFor_mem hdoc).1)
        (h.reset_slotFor hm)
      rw [reloadOld_some hdoc rfl happlied, finishSlot_name, happlied.name]
      rfl
  · apply List.ext_getElem?
    intro k
    simp only [List.getElem?_map, List.getElem?_mapIdx, Option.map_map]
    cases hk : (newDocs s (docModules nodes))[k]? with
    | none => rfl
    | some d =>
      obtain ⟨hmem, -⟩ := mem_newDocs.mp (List.mem_of_getElem? hk)
      have happlied := placeElement_applied choice (hd.grammar d hmem)
        (h.spare_reset k).slotFor
      exact congrArg some ((finishSlot_name choice _).trans happlied.name)

/-! ## What a reload leaves to the service thread -/

/-- The fields that only the service thread writes once the initial load is done. -/
def RunningModule.process (m : RunningModule) : RunningModule :=
  { RunningModule.zero with
    moduleStatus := m.moduleStatus
    moduleRestartTimer := m.moduleRestartTimer
    modulePid := m.modulePid
    sentSigint := m.sentSigint
    moduleServiceSd := m.moduleServiceSd
    moduleServiceIfcIsconnected := m.moduleServiceIfcIsconnected
    serviceIfcConnTimer := m.serviceIfcConnTimer }

/-- A field of the process part. -/
theorem field_of_process {α : Type} (π : RunningModule → α)
    (hπ : ∀ m : RunningModule, π m.process = π m) {m m' : RunningModule}
    (h : m'.process = m.process) : π m' = π m := by
  rw [← hπ, h, hπ]

theorem Applied.process {choice : ReloadChoice} {i : Nat} {newModule : Bool} {e : XmlNode}
    {m m1 : RunningModule} (h : Applied choice i newModule e m m1)
    (hc : choice ≠ .initLoadConfig) : m1.process = m.process := by
  have hpid : appliedPid choice e m = m.modulePid := by rw [appliedPid, if_neg hc]
  have hframe := congrArg RunningModule.process h.frame
  rw [hpid] at hframe
  exact hframe

theorem finishSlot_process {choice : ReloadChoice} (hc : choice ≠ .initLoadConfig)
    (m : RunningModule) : (finishSlot choice m).process = m.process := by
  rw [finishSlot, adoptIfRunning_later hc, restartIfModified_eq]
  rfl

theorem BlankSlot.process {m : RunningModule} (h : BlankSlot m) : m.process = RunningModule.zero :=
  h.field RunningModule.process fun _ _ _ _ => rfl

/-- The slot at an index: of the module that was there, or a new one above. -/
theorem Reloaded.get {choice : ReloadChoice} {s s' : Supervisor} {nodes : List XmlNode}
    (hr : Reloaded choice s nodes s') {x : Nat} {m' : RunningModule}
    (hx : s'.loaded[x]? = some m') :
    (∃ m, s.loaded[x]? = some m ∧ m' = reloadOld choice (docModules nodes) m) ∨
      s.loaded.length ≤ x ∧ ∃ d, (newDocs s (docModules nodes))[x - s.loaded.length]? = some d ∧
        m' = reloadNew choice d (slotAt (resetTable s) (x - s.loaded.length)) := by
  rw [hr.loaded, List.getElem?_append, List.length_map] at hx
  split_ifs at hx with hlt
  · rw [List.getElem?_map, Option.map_eq_some_iff] at hx
    obtain ⟨m, hm, rfl⟩ := hx
    exact .inl ⟨m, hm, rfl⟩
  · rw [List.getElem?_mapIdx, Option.map_eq_some_iff] at hx
    obtain ⟨d, hd, rfl⟩ := hx
    exact .inr ⟨by omega, d, hd, rfl⟩

theorem reloadOld_process {choice : ReloadChoice} (hc : choice ≠ .initLoadConfig) {s : Supervisor}
    (h : TableInv s) {ds : List (Nat × XmlNode)} (hd : GoodDocs ds) {m : RunningModule}
    (hm : m ∈ s.loaded) :
    (reloadOld choice ds m).process = m.process ∧
      (reloadOld choice ds m).moduleName = m.moduleName := by
  cases hdoc : docFor ds m with
  | none =>
    rw [reloadOld_none hdoc]
    exact ⟨finishSlot_process hc _, finishSlot_name choice _⟩
  | some d =>
    have happlied := placeElement_applied choice (hd.grammar d (docFor_mem hdoc).1)
      (h.reset_slotFor hm)
    rw [reloadOld_some hdoc rfl happlied]
    exact ⟨(finishSlot_process hc _).trans (happlied.process hc),
      (finishSlot_name choice _).trans happlied.name⟩

theorem reloadNew_process {choice : ReloadChoice} (hc : choice ≠ .initLoadConfig) {s : Supervisor}
    (h : TableInv s) {d : Nat × XmlNode} (hg : ModuleGrammar d.2) (k : Nat) :
    (reloadNew choice d (slotAt (resetTable s) k)).process = RunningModule.zero :=
  (finishSlot_process hc _).trans (((placeElement_applied choice hg
    (h.spare_reset k).slotFor).process hc).trans (h.spare_reset k).process)

/-! ## The reload keeps the invariant -/

theorem getD_ge {o : Option Int} {a b : Int} (ho : ∀ v, o = some v → b ≤ v) (ha : b ≤ a) :
    b ≤ o.getD a := by
  cases o with
  | none => exact ha
  | some v => exact ho v rfl

theorem configRestarts_nonneg {key : Option String} {v : Int} (h : configRestarts key = some v) :
    0 ≤ v := by
  simpa using (Option.filter_eq_some_iff.mp h).2

theorem mem_interfaceElems_grammar {e : XmlNode} (hg : ModuleGrammar e) {t : XmlNode}
    (ht : trapElem e = some t) {c : XmlNode} (hc : c ∈ interfaceElems t.xmlChildrenNode) :
    InterfaceGrammar c := by
  obtain ⟨hmem, hel⟩ := List.mem_filter.mp hc
  rcases trap_children hg ht c hmem with hs | ⟨-, hi⟩
  · rw [isSkipped_not_elementNamed hs] at hel
    exact absurd hel (by simp)
  · exact hi

/-- The texts of an accepted interface element. -/
theorem interfaceOf_valid {c : XmlNode} (hg : InterfaceGrammar c) :
    ValidInterface (interfaceOf c) := by
  have oneOf : ∀ {tag} expected {allowed},
      ⟨tag, true, checkOneOf tag expected allowed⟩ ∈ interfaceRules →
      ∀ t, childValue tag c.xmlChildrenNode = some t → t ∈ allowed := by
    intro tag expected allowed hrule t ht
    cases hf : c.xmlChildrenNode.find? (elementNamed tag) with
    | none => simp [childValue, hf] at ht
    | some d =>
      have hv : d.value = some t := by simpa [childValue, hf] using ht
      rcases hg.allowed.kinds d (List.mem_of_find?_eq_some hf) with hs | ⟨r, hr, hn, hcheck⟩
      · have := List.find?_some hf
        rw [isSkipped_not_elementNamed hs] at this
        exact absurd this (by simp)
      · have := rule_unique interfaceRules_distinct hr hrule hn (List.find?_some hf)
        subst this
        obtain ⟨key, hkey, hin⟩ := checkOneOf_eq_ok.mp hcheck
        rw [hv, Option.some.injEq] at hkey
        rwa [hkey]
  constructor
  · exact oneOf "\x7bTCP,UNIXSOCKET,FILE,BLACKHOLE,TLS\x7d" (by simp [interfaceRules])
  · exact oneOf "\x7bIN,OUT\x7d" (by simp [interfaceRules])

theorem reloadedIfces_valid {newModule : Bool} {old : List Interface} {e : XmlNode}
    (hg : ModuleGrammar e) (hold : ∀ ifc ∈ old, ValidInterface ifc) :
    ∀ ifc ∈ reloadedIfces newModule old e, ValidInterface ifc := by
  unfold reloadedIfces
  cases ht : trapElem e with
  | none => simp
  | some t =>
    have hvalid : ∀ c ∈ interfaceElems t.xmlChildrenNode, ValidInterface (interfaceOf c) :=
      fun c hc => interfaceOf_valid (mem_interfaceElems_grammar hg ht hc)
    simp only []
    split_ifs
    · intro ifc hifc
      obtain ⟨c, hc, rfl⟩ := List.mem_map.mp hifc
      exact hvalid c hc
    · exact hold
    · intro ifc hifc
      obtain ⟨c, hc, rfl⟩ := List.mem_map.mp hifc
      obtain ⟨hmem, hel⟩ := List.mem_filter.mp hc
      exact hvalid c (List.mem_filter.mpr ⟨List.mem_of_mem_tail hmem, hel⟩)

theorem childValue_path {e : XmlNode} (hg : ModuleGrammar e) :
    ∃ path, childValue "path" e.xmlChildrenNode = some path := by
  obtain ⟨c, hc, hn⟩ := List.countP_pos_iff.mp hg.path
  have hvalue := value_of_allowed (moduleRules_distinct []) hg.allowed
    (r := ⟨"path", true, checkNonEmpty "path"⟩) (by simp [moduleRules]) hc
    (nodeNamed_of_elementNamed hn) (by decide) (by decide)
  obtain ⟨path, hpath⟩ := checkNonEmpty_eq_ok.mp hvalue
  exact ⟨path, (childValue_eq hg.allowed (r := ⟨"path", true, checkNonEmpty "path"⟩)
    (by simp [moduleRules]) rfl hc hn).trans hpath⟩

/-- An applied slot is a loaded one. -/
theorem Applied.loadedSlot {choice : ReloadChoice} {i n : Nat} {newModule : Bool} {e : XmlNode}
    {m m1 : RunningModule} (h : Applied choice i newModule e m m1) (hg : ModuleGrammar e)
    (hi : i < n) (hname : newModule = false → ∃ name, m.moduleName = some name)
    (hlimit : -1 ≤ m.moduleMaxRestartsPerMinute) (hvalid : ∀ ifc ∈ m.ifces, ValidInterface ifc) :
    LoadedSlot n m1 := by
  constructor
  · rw [h.name]
    cases newModule with
    | true => exact hg.name
    | false => exact hname rfl
  · rw [h.path]
    exact childValue_path hg
  · intro j hj
    have hprofile : m1.modulesProfile = some i :=
      congrArg RunningModule.modulesProfile h.frame
    rw [hprofile, Option.some.injEq] at hj
    omega
  · rw [h.limit]
    exact getD_ge (fun v hv => Int.le_trans (by decide) (configRestarts_nonneg hv)) hlimit
  · exact h.ifcArray
  · rw [h.ifces]
    exact reloadedIfces_valid hg hvalid

theorem BlankSlot.ifces_nil {m : RunningModule} (h : BlankSlot m) : m.ifces = [] := by
  have : m.configIfcesCnt = 0 := h.field RunningModule.configIfcesCnt fun _ _ _ _ => rfl
  simp [RunningModule.ifces, this]

theorem slotAt_reset_limit (s : Supervisor) (k : Nat) :
    (slotAt (resetTable s) k).moduleMaxRestartsPerMinute = if k < s.spare.length then -1 else 0 := by
  rw [slotAt_resetTable]
  split_ifs <;> rfl

theorem docModules_profile {nodes : List XmlNode} {d : Nat × XmlNode} (hd : d ∈ docModules nodes) :
    ∃ ms, (modulesElems nodes)[d.1]? = some ms ∧ d.2 ∈ moduleElems ms := by
  obtain ⟨⟨ms, i⟩, hms, hd⟩ := List.mem_flatMap.mp hd
  obtain ⟨e, he, rfl⟩ := List.mem_map.mp hd
  exact ⟨ms, by simpa [List.mem_zipIdx_iff_getElem?] using hms, he⟩

theorem docModules_lt {nodes : List XmlNode} {d : Nat × XmlNode} (hd : d ∈ docModules nodes) :
    d.1 < (docProfiles nodes).length := by
  obtain ⟨ms, hms, -⟩ := docModules_profile hd
  rw [docProfiles, List.length_map]
  exact (List.getElem?_eq_some_iff.mp hms).1

theorem ReloadedSlot.loadedSlot {choice : ReloadChoice} {s : Supervisor} (h : TableInv s)
    {nodes : List XmlNode} (hd : GoodDocs (docModules nodes)) {m' : RunningModule}
    (hm' : ReloadedSlot choice s (docModules nodes) m') :
    LoadedSlot (docProfiles nodes).length m' := by
  cases hm' with
  | @missing m hm hdoc =>
    have hold := h.slots m hm
    have hmissing : LoadedSlot (docProfiles nodes).length (missingSlot m) :=
      ⟨hold.name, hold.path, by simp [missingSlot, resetReloadFlags], Int.le_refl _,
        ⟨hold.ifces.filled, hold.ifces.codes⟩, hold.valid⟩
    exact hmissing.congr (finishSlot_config choice _)
  | @kept m m1 d hm hdoc hname happlied =>
    have hold := h.slots m hm
    exact (happlied.loadedSlot (hd.grammar d hdoc) (docModules_lt hdoc) (fun _ => hold.name)
      (Int.le_refl _) hold.valid).congr (finishSlot_config choice _)
  | @new k m1 d hdoc hnew happlied =>
    refine (happlied.loadedSlot (hd.grammar d hdoc) (docModules_lt hdoc) (fun h => by simp at h)
      ?_ ?_).congr (finishSlot_config choice _)
    · rw [slotAt_reset_limit]
      split_ifs <;> decide
    · rw [(h.spare_reset k).ifces_nil]
      simp

theorem Grammar.docProfiles_nodup {root : XmlNode} (hg : Grammar root) :
    ((docProfiles root.xmlChildrenNode).map ModulesProfile.profileName).Nodup := by
  have hname : ∀ ms ∈ modulesElems root.xmlChildrenNode, ∃ name, moduleName ms = some name :=
    fun ms hms => (hg.modulesGrammar hms).name
  have heq : ((docProfiles root.xmlChildrenNode).map ModulesProfile.profileName).map some =
      (profileNames root.xmlChildrenNode).map some := by
    rw [profileNames, filterMap_map_some hname, docProfiles, List.map_map, List.map_map]
    refine List.map_congr_left fun ms hms => ?_
    obtain ⟨name, hn⟩ := hname ms hms
    simp [profileOfElem, hn]
  have hnd := hg.profiles.map (f := some) fun _ _ h => Option.some.inj h
  rw [← heq] at hnd
  exact hnd.of_map some

/-- A reload of an accepted document keeps the invariant of the table. -/
theorem Reloaded.tableInv {choice : ReloadChoice} {s s' : Supervisor} (h : TableInv s)
    {root : XmlNode} (hg : Grammar root) (hr : Reloaded choice s root.xmlChildrenNode s') :
    TableInv s' := by
  have hd := hg.goodDocs
  constructor
  · intro m' hm'
    rw [hr.profiles]
    exact (hr.slot h hd hm').loadedSlot h hd
  · rw [hr.names h hd, List.nodup_append]
    refine ⟨h.distinct, hd.distinct.sublist (List.Sublist.map _ List.filter_sublist), ?_⟩
    intro n hn n' hn' he
    obtain ⟨m, hm, rfl⟩ := List.mem_map.mp hn
    obtain ⟨d, hd', rfl⟩ := List.mem_map.mp hn'
    exact (mem_newDocs.mp hd').2 m hm he
  · rw [hr.profiles]
    exact hg.docProfiles_nodup
  · rw [hr.profileCnt, hr.profiles]
  · rw [hr.limit]
    refine getD_ge (fun v hv => ?_) h.limit
    obtain ⟨c, -, hc⟩ := Option.bind_eq_some_iff.mp hv
    exact configRestarts_nonneg hc
  · intro k
    rw [hr.spare]
    exact h.spare_reset _
  · exact hr.size

theorem TableInv.reload {s : Supervisor} (h : TableInv s) (choice : ReloadChoice)
    (root : Option XmlNode) : TableInv (reloadConfiguration choice root s).1 := by
  by_cases hg : ∃ r, root = some r ∧ Grammar r
  · obtain ⟨r, rfl, hg⟩ := hg
    exact (reloadConfiguration_accepted h hg choice).2.tableInv h hg
  · rw [reloadConfiguration_rejected hg]
    exact h

end NemeaSupervisor
