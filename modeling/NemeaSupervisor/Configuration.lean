import NemeaSupervisor.Invariants

/-!
# The configuration after a reload

A reload compares the document with the table and changes what differs. Each
module element ends up with one slot, which is the slot of the loaded module of
that name or a new one; the module-level configuration in it is the element's,
up to parameters that the element leaves out.
-/

namespace NemeaSupervisor

open XmlNode

/-- A call of `reload_configuration`: the initial load into the allocated table,
or a reload in a reachable state. -/
inductive ReloadCall : ReloadChoice → Supervisor → Prop where
  | initial : ReloadCall .initLoadConfig .init
  | later {choice : ReloadChoice} {w : World} (hc : choice ≠ .initLoadConfig) (hw : Reachable w) :
    ReloadCall choice w.sup

theorem ReloadCall.tableInv {choice : ReloadChoice} {s : Supervisor} (h : ReloadCall choice s) :
    TableInv s := by
  cases h with
  | initial => exact .init
  | later _ hw => exact reachable_tableInv hw

theorem ReloadCall.reloaded {choice : ReloadChoice} {s : Supervisor} (h : ReloadCall choice s)
    {root : XmlNode} (hv : validateConfiguration (some root) = .ok ()) :
    Grammar root ∧
      Reloaded choice s root.xmlChildrenNode (reloadConfiguration choice (some root) s).1 := by
  obtain ⟨_, heq, hg⟩ := validateConfiguration_eq_ok.mp hv
  cases heq
  exact ⟨hg, (reloadConfiguration_accepted h.tableInv hg choice).2⟩

/-! ## The slot of an element -/

/-- The slot of a module element after a reload: that of the loaded module of
its name, or the one after the loaded modules and the new ones before it. -/
inductive ElementSlot (choice : ReloadChoice) (s : Supervisor) (nodes : List XmlNode)
    (d : Nat × XmlNode) : RunningModule → Prop where
  | kept {m m1 : RunningModule} (hm : m ∈ s.loaded) (hname : m.moduleName = moduleName d.2)
    (happlied : Applied choice d.1 false d.2 (resetReloadFlags m) m1) :
    ElementSlot choice s nodes d (finishSlot choice m1)
  | new {k : Nat} {m1 : RunningModule} (hk : (newDocs s (docModules nodes))[k]? = some d)
    (happlied : Applied choice d.1 true d.2 (slotAt (resetTable s) k) m1) :
    ElementSlot choice s nodes d (finishSlot choice m1)

theorem Reloaded.element {choice : ReloadChoice} {s s' : Supervisor} (h : TableInv s)
    {nodes : List XmlNode} (hg : GoodDocs (docModules nodes)) (hr : Reloaded choice s nodes s')
    {d : Nat × XmlNode} (hd : d ∈ docModules nodes) {m' : RunningModule} (hm' : m' ∈ s'.loaded)
    (hname : m'.moduleName = moduleName d.2) : ElementSlot choice s nodes d m' := by
  obtain ⟨x, hx⟩ := List.mem_iff_getElem?.mp hm'
  rcases hr.get hx with ⟨m, hm, rfl⟩ | ⟨-, d', hd', rfl⟩
  · have hmem := List.mem_of_getElem? hm
    cases hdoc : docFor (docModules nodes) m with
    | none =>
      rw [reloadOld_none hdoc, finishSlot_name] at hname
      have hother := List.find?_eq_none.mp hdoc d hd
      exact absurd (beq_iff_eq.mpr hname.symm) hother
    | some d' =>
      obtain ⟨hd', hname'⟩ := docFor_mem hdoc
      have happlied := placeElement_applied choice (hg.grammar d' hd') (h.reset_slotFor hmem)
      rw [reloadOld_some hdoc rfl happlied] at hname ⊢
      rw [finishSlot_name, happlied.name] at hname
      have hsame : d' = d := List.inj_on_of_nodup_map hg.distinct hd' hd (hname'.trans hname)
      subst hsame
      exact .kept hmem hname'.symm happlied
  · obtain ⟨hd'', -⟩ := mem_newDocs.mp (List.mem_of_getElem? hd')
    have happlied := placeElement_applied choice (hg.grammar d' hd'')
      (h.spare_reset (x - s.loaded.length)).slotFor
    have hname' : (reloadNew choice d' (slotAt (resetTable s) (x - s.loaded.length))).moduleName =
        moduleName d'.2 := (finishSlot_name choice _).trans happlied.name
    have hsame : d' = d :=
      List.inj_on_of_nodup_map hg.distinct hd'' hd (hname'.symm.trans hname)
    subst hsame
    exact .new hd' happlied

/-- Every element has exactly one slot. -/
theorem Reloaded.element_count {choice : ReloadChoice} {s s' : Supervisor} (h : TableInv s)
    {root : XmlNode} (hg : Grammar root) (hr : Reloaded choice s root.xmlChildrenNode s')
    {d : Nat × XmlNode} (hd : d ∈ docModules root.xmlChildrenNode) :
    (s'.loaded.map RunningModule.moduleName).count (moduleName d.2) = 1 := by
  refine List.count_eq_one_of_mem (hr.tableInv h hg).distinct ?_
  rw [hr.names h hg.goodDocs, List.mem_append]
  by_cases hold : ∃ m ∈ s.loaded, m.moduleName = moduleName d.2
  · obtain ⟨m, hm, hname⟩ := hold
    exact .inl (List.mem_map.mpr ⟨m, hm, hname⟩)
  · refine .inr (List.mem_map.mpr ⟨d, mem_newDocs.mpr ⟨hd, fun m hm hname => ?_⟩, rfl⟩)
    exact hold ⟨m, hm, hname⟩

theorem Reloaded.exists_slot {choice : ReloadChoice} {s s' : Supervisor} (h : TableInv s)
    {root : XmlNode} (hg : Grammar root) (hr : Reloaded choice s root.xmlChildrenNode s')
    {d : Nat × XmlNode} (hd : d ∈ docModules root.xmlChildrenNode) :
    ∃ m' ∈ s'.loaded, m'.moduleName = moduleName d.2 := by
  have hpos : 0 < (s'.loaded.map RunningModule.moduleName).count (moduleName d.2) := by
    rw [hr.element_count h hg hd]
    exact Nat.one_pos
  exact List.mem_map.mp (List.count_pos_iff.mp hpos)

/-- The slot of an element whose name was loaded before comes from that module. -/
theorem ElementSlot.of_loaded {choice : ReloadChoice} {s : Supervisor} (h : TableInv s)
    {nodes : List XmlNode} {d : Nat × XmlNode} {m' : RunningModule}
    (hs : ElementSlot choice s nodes d m') {m : RunningModule} (hm : m ∈ s.loaded)
    (hname : m.moduleName = moduleName d.2) :
    ∃ m1, m' = finishSlot choice m1 ∧
      Applied choice d.1 false d.2 (resetReloadFlags m) m1 := by
  cases hs with
  | kept hm0 hname0 happlied =>
    have hsame := List.inj_on_of_nodup_map h.distinct hm0 hm (hname0.trans hname.symm)
    subst hsame
    exact ⟨_, rfl, happlied⟩
  | new hk => exact absurd hname ((mem_newDocs.mp (List.mem_of_getElem? hk)).2 m hm)

/-- The element is one of the document. -/
theorem mem_docModules {nodes : List XmlNode} {ms e : XmlNode} (hms : ms ∈ modulesElems nodes)
    (he : e ∈ moduleElems ms) :
    ∃ i, (i, e) ∈ docModules nodes ∧ (modulesElems nodes)[i]? = some ms := by
  obtain ⟨i, hi⟩ := List.mem_iff_getElem?.mp hms
  refine ⟨i, List.mem_flatMap.mpr ⟨(ms, i), ?_, List.mem_map.mpr ⟨e, he, rfl⟩⟩, hi⟩
  exact List.mem_zipIdx_iff_getElem?.mpr hi

/-! ## The module level -/

theorem finishSlot_enabled (choice : ReloadChoice) (m : RunningModule) :
    (finishSlot choice m).moduleEnabled =
        (m.moduleEnabled && !(m.moduleModifiedByReload && m.moduleRunning)) ∧
      (finishSlot choice m).initModule =
        (m.initModule || (m.moduleModifiedByReload && m.moduleRunning && m.moduleEnabled)) := by
  rw [finishSlot, restartIfModified_eq]
  unfold adoptIfRunning
  split_ifs <;> exact ⟨rfl, rfl⟩

theorem finishSlot_modified (choice : ReloadChoice) (m : RunningModule) :
    (finishSlot choice m).moduleModifiedByReload = m.moduleModifiedByReload :=
  field_of_config RunningModule.moduleModifiedByReload (fun _ => rfl) (finishSlot_config choice m)

theorem finishSlot_remove (choice : ReloadChoice) (m : RunningModule) :
    (finishSlot choice m).removeModule = m.removeModule := by
  rw [finishSlot, restartIfModified_eq]
  unfold adoptIfRunning
  split_ifs <;> rfl

/-- A listed module is not to be removed. -/
theorem ElementSlot.remove {choice : ReloadChoice} {s : Supervisor} (h : TableInv s)
    {nodes : List XmlNode} {d : Nat × XmlNode} {m' : RunningModule}
    (hs : ElementSlot choice s nodes d m') : m'.removeModule = false := by
  cases hs with
  | kept _ _ happlied =>
    exact (finishSlot_remove choice _).trans (congrArg RunningModule.removeModule happlied.frame)
  | @new k m1 _ happlied =>
    exact (finishSlot_remove choice _).trans
      ((congrArg RunningModule.removeModule happlied.frame).trans
        ((h.spare_reset k).field RunningModule.removeModule fun _ _ _ _ => rfl))

/-- A restart is pending: the reload has modified the module, which was running. -/
def ModifiedWhileRunning (s : Supervisor) (m' : RunningModule) : Prop :=
  m'.moduleModifiedByReload = true ∧
    ∃ m ∈ s.loaded, m.moduleName = m'.moduleName ∧ m.moduleRunning = true

/-- The slot holds what the element in this modules element says. -/
structure ModuleAsElement (s s' : Supervisor) (ms e : XmlNode) (m : RunningModule) : Prop where
  path : m.modulePath = childValue "path" e.xmlChildrenNode
  params : m.moduleParams = childValue "params" e.xmlChildrenNode
  profile : s'.profileOf m = some (profileOfElem ms)
  enabled : m.moduleEnabled = (moduleElemEnabled e && !m.initModule)
  restart : m.initModule = true ↔ moduleElemEnabled e = true ∧ ModifiedWhileRunning s m

/-- The module-level configuration is that of the document. -/
structure ModulesAsDocument (s : Supervisor) (nodes : List XmlNode) (s' : Supervisor) : Prop where
  count : ∀ ms ∈ modulesElems nodes, ∀ e ∈ moduleElems ms,
    (s'.loaded.map RunningModule.moduleName).count (moduleName e) = 1
  element : ∀ ms ∈ modulesElems nodes, ∀ e ∈ moduleElems ms, ∀ m ∈ s'.loaded,
    m.moduleName = moduleName e → ModuleAsElement s s' ms e m
  other : ∀ m ∈ s'.loaded, (∀ ms ∈ modulesElems nodes, ∀ e ∈ moduleElems ms,
    moduleName e ≠ m.moduleName) → m.moduleEnabled = false ∧ m.removeModule = true

/-- No loaded module has parameters that its element leaves out. -/
def ParamsStay (s : Supervisor) (nodes : List XmlNode) : Prop :=
  ∀ ms ∈ modulesElems nodes, ∀ e ∈ moduleElems ms, hasChild "params" e.xmlChildrenNode = false →
    ∀ m ∈ s.loaded, m.moduleName = moduleName e → m.moduleParams = none

theorem finishSlot_params (choice : ReloadChoice) (m : RunningModule) :
    (finishSlot choice m).moduleParams = m.moduleParams :=
  field_of_config RunningModule.moduleParams (fun _ => rfl) (finishSlot_config choice m)

theorem ElementSlot.path {choice : ReloadChoice} {s : Supervisor} {nodes : List XmlNode}
    {d : Nat × XmlNode} {m' : RunningModule} (hs : ElementSlot choice s nodes d m') :
    m'.modulePath = childValue "path" d.2.xmlChildrenNode := by
  have hfinish := fun m => field_of_config RunningModule.modulePath (fun _ => rfl)
    (finishSlot_config choice m)
  cases hs with
  | kept _ _ happlied => exact (hfinish _).trans happlied.path
  | new _ happlied => exact (hfinish _).trans happlied.path

theorem ElementSlot.profile {choice : ReloadChoice} {s : Supervisor} {nodes : List XmlNode}
    {d : Nat × XmlNode} {m' : RunningModule} (hs : ElementSlot choice s nodes d m') :
    m'.modulesProfile = some d.1 := by
  have hfinish := fun m => field_of_config RunningModule.modulesProfile (fun _ => rfl)
    (finishSlot_config choice m)
  cases hs with
  | kept _ _ happlied =>
    exact (hfinish _).trans (congrArg RunningModule.modulesProfile happlied.frame)
  | new _ happlied =>
    exact (hfinish _).trans (congrArg RunningModule.modulesProfile happlied.frame)

theorem ElementSlot.params {choice : ReloadChoice} {s : Supervisor} (h : TableInv s)
    {nodes : List XmlNode} {d : Nat × XmlNode} {m' : RunningModule}
    (hs : ElementSlot choice s nodes d m')
    (hstay : hasChild "params" d.2.xmlChildrenNode = false →
      ∀ m ∈ s.loaded, m.moduleName = moduleName d.2 → m.moduleParams = none) :
    m'.moduleParams = childValue "params" d.2.xmlChildrenNode := by
  cases hs with
  | @kept m _ hm hname happlied =>
    rw [finishSlot_params, happlied.params]
    cases hp : hasChild "params" d.2.xmlChildrenNode with
    | true => rfl
    | false =>
      rw [childValue_absent hp]
      exact hstay hp m hm hname
  | @new k _ _ happlied =>
    rw [finishSlot_params, happlied.params]
    cases hp : hasChild "params" d.2.xmlChildrenNode with
    | true => rfl
    | false =>
      rw [childValue_absent hp]
      exact (h.spare_reset k).field RunningModule.moduleParams fun _ _ _ _ => rfl

theorem ElementSlot.enabled {choice : ReloadChoice} {s : Supervisor} (h : TableInv s)
    {nodes : List XmlNode} {d : Nat × XmlNode} {m' : RunningModule}
    (hs : ElementSlot choice s nodes d m') (hname' : m'.moduleName = moduleName d.2) :
    m'.moduleEnabled = (moduleElemEnabled d.2 && !m'.initModule) ∧
      (m'.initModule = true ↔ moduleElemEnabled d.2 = true ∧ ModifiedWhileRunning s m') := by
  cases hs with
  | @kept m m1 hm hname happlied =>
    have hinit : m1.initModule = false := by
      have := congrArg RunningModule.initModule happlied.frame
      exact this
    have hrunning : m1.moduleRunning = m.moduleRunning := happlied.running
    obtain ⟨hon, hrestart⟩ := finishSlot_enabled choice m1
    rw [hinit, hrunning, happlied.enabled] at hrestart
    rw [hrunning, happlied.enabled] at hon
    have hiff : ModifiedWhileRunning s (finishSlot choice m1) ↔
        m1.moduleModifiedByReload = true ∧ m.moduleRunning = true := by
      rw [ModifiedWhileRunning, finishSlot_modified, hname']
      refine and_congr_right fun _ => ⟨fun ⟨m0, hm0, hname0, h0⟩ => ?_, fun h0 => ⟨m, hm, hname, h0⟩⟩
      rwa [List.inj_on_of_nodup_map h.distinct hm hm0 (hname.trans hname0.symm)]
    rw [hon, hrestart, hiff]
    cases moduleElemEnabled d.2 <;> cases m1.moduleModifiedByReload <;>
      cases m.moduleRunning <;> simp
  | @new k m1 hk happlied =>
    have hblank := h.spare_reset k
    have hinit : m1.initModule = false := by
      have := congrArg RunningModule.initModule happlied.frame
      exact this.trans (hblank.field RunningModule.initModule fun _ _ _ _ => rfl)
    have hrunning : m1.moduleRunning = false :=
      happlied.running.trans (hblank.field RunningModule.moduleRunning fun _ _ _ _ => rfl)
    obtain ⟨hon, hrestart⟩ := finishSlot_enabled choice m1
    rw [hinit, hrunning] at hrestart
    rw [hrunning, happlied.enabled] at hon
    have hnone : ¬ ModifiedWhileRunning s (finishSlot choice m1) := by
      rintro ⟨-, m0, hm0, hname0, -⟩
      exact (mem_newDocs.mp (List.mem_of_getElem? hk)).2 m0 hm0 (hname0.trans hname')
    rw [hon, hrestart]
    simp [hnone]

/-- A module that no element names is disabled and to be removed. -/
theorem Reloaded.other {choice : ReloadChoice} {s s' : Supervisor} (h : TableInv s)
    {nodes : List XmlNode} (hg : GoodDocs (docModules nodes)) (hr : Reloaded choice s nodes s')
    {m' : RunningModule} (hm' : m' ∈ s'.loaded)
    (hother : ∀ d ∈ docModules nodes, moduleName d.2 ≠ m'.moduleName) :
    m'.moduleEnabled = false ∧ m'.removeModule = true := by
  cases hr.slot h hg hm' with
  | missing =>
    refine ⟨(finishSlot_enabled choice _).1, ?_⟩
    rw [finishSlot, restartIfModified_eq]
    unfold adoptIfRunning
    split_ifs <;> rfl
  | kept _ hd hname happlied =>
    exact absurd (hname.trans (happlied.name.symm.trans (finishSlot_name choice _).symm))
      (hother _ hd)
  | new hd _ happlied =>
    exact absurd (happlied.name.symm.trans (finishSlot_name choice _).symm) (hother _ hd)

/-- After a reload the module-level configuration is that of the document
exactly when no module keeps parameters that its element leaves out. -/
theorem modules_as_document {choice : ReloadChoice} {s : Supervisor} (hcall : ReloadCall choice s)
    {root : XmlNode} (hv : validateConfiguration (some root) = .ok ()) :
    ModulesAsDocument s root.xmlChildrenNode (reloadConfiguration choice (some root) s).1 ↔
      ParamsStay s root.xmlChildrenNode := by
  have h := hcall.tableInv
  obtain ⟨hg, hr⟩ := hcall.reloaded hv
  constructor
  · intro hdoc ms hms e he hparams m hm hname
    obtain ⟨i, hd, -⟩ := mem_docModules hms he
    obtain ⟨m', hm', hname'⟩ := hr.exists_slot h hg hd
    have helement := (hdoc.element ms hms e he m' hm' hname').params
    obtain ⟨m1, rfl, happlied⟩ := (hr.element h hg.goodDocs hd hm' hname').of_loaded h hm hname
    rw [finishSlot_params, happlied.params, hparams, childValue_absent hparams] at helement
    exact helement
  · intro hstay
    refine ⟨fun ms hms e he => ?_, fun ms hms e he m' hm' hname' => ?_, fun m' hm' hother => ?_⟩
    · obtain ⟨i, hd, -⟩ := mem_docModules hms he
      exact hr.element_count h hg hd
    · obtain ⟨i, hd, hi⟩ := mem_docModules hms he
      have hs := hr.element h hg.goodDocs hd hm' hname'
      obtain ⟨hon, hrestart⟩ := hs.enabled h hname'
      refine ⟨hs.path, hs.params h (hstay ms hms e he), ?_, hon, hrestart⟩
      rw [Supervisor.profileOf, hs.profile, hr.profiles, Option.bind_some, docProfiles,
        List.getElem?_map, hi]
      rfl
    · refine hr.other h hg.goodDocs hm' fun d hd => ?_
      obtain ⟨ms, hms, he⟩ := docModules_profile hd
      exact hother ms (List.mem_of_getElem? hms) d.2 he

/-- A module that is started with these parameters. -/
def loadedWithParams (params : List XmlNode) : World :=
  boot [] (some (profileDocument [moduleElement "m" "/bin/m" "true" params]))

theorem modules_as_document_params :
    let s := (loadedWithParams []).sup
    let root := profileDocument
      [moduleElement "m" "/bin/m" "true" [.textElement "params" "-v"]]
    ModulesAsDocument s root.xmlChildrenNode
        (reloadConfiguration .defaultConfigFile (some root) s).1 ↔
      ParamsStay s root.xmlChildrenNode :=
  modules_as_document (.later (by simp) ⟨[], _, [], rfl⟩) (by decide)

/-- The element no longer has the parameters it was loaded with. -/
theorem not_modules_as_document :
    ¬ ∀ choice s root, ReloadCall choice s → validateConfiguration (some root) = .ok () →
      ModulesAsDocument s root.xmlChildrenNode
        (reloadConfiguration choice (some root) s).1 := by
  intro h
  have hdoc := h .defaultConfigFile (loadedWithParams [.textElement "params" "-v"]).sup
    (profileDocument [moduleElement "m" "/bin/m" "true" []]) (.later (by simp) ⟨[], _, [], rfl⟩)
    (by decide)
  have hparams : ∀ m ∈ (reloadConfiguration .defaultConfigFile
      (some (profileDocument [moduleElement "m" "/bin/m" "true" []]))
      (loadedWithParams [.textElement "params" "-v"]).sup).1.loaded,
      m.moduleName = some "m" ∧ m.moduleParams = some "-v" := by decide
  have hlt : 0 < (reloadConfiguration .defaultConfigFile
      (some (profileDocument [moduleElement "m" "/bin/m" "true" []]))
      (loadedWithParams [.textElement "params" "-v"]).sup).1.loaded.length := by decide
  obtain ⟨hname, hold⟩ := hparams _ (List.getElem_mem hlt)
  have hnew := (hdoc.element _ (List.mem_singleton.mpr rfl) _ (List.mem_singleton.mpr rfl) _
    (List.getElem_mem hlt) hname).params
  rw [hold] at hnew
  exact absurd hnew (by decide)

end NemeaSupervisor
