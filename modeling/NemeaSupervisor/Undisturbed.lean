import NemeaSupervisor.InterfaceLists

/-!
# Modules that a reload leaves alone

An element that carries the current configuration of its module is compared with
the slot child by child, without a difference. The reload then keeps what the
service thread knows about the module, whatever else the document says.
-/

namespace NemeaSupervisor

open XmlNode

/-! ## Interfaces without a difference -/

/-- Where every kind occurs once, the text of a kind is that of each of its children. -/
theorem child_value {rules : List ChildRule} {children : List XmlNode} (h : Allowed rules children)
    (honce : ∀ r ∈ rules, r.once = true) {c : XmlNode} (hc : c ∈ children) {tag : String}
    (ht : tag ≠ "text") (hcom : tag ≠ "comment") (hn : c.nodeNamed tag = true) :
    c.value = childValue tag children := by
  rcases h.kinds c hc with hs | ⟨r, hr, hrn, -⟩
  · rw [nodeNamed_of_isSkipped hs ht hcom] at hn
    exact absurd hn (by simp)
  · have htag : r.tag = tag := nodeNamed_unique (nodeNamed_of_elementNamed hrn) hn
    subst htag
    exact (childValue_eq h hr (honce r hr) hc hrn).symm

theorem interfaceRules_once : ∀ r ∈ interfaceRules, r.once = true := by simp [interfaceRules]

theorem moduleRules_once : ∀ r ∈ moduleRules [], r.once = true := by simp [moduleRules]

/-- An element agrees with the interface it describes. -/
theorem docInterface_agrees {c : XmlNode} (hg : InterfaceGrammar c) :
    c.xmlChildrenNode.all (docInterface c).agrees = true := by
  rw [List.all_eq_true]
  intro d hd
  have value : ∀ tag, tag ≠ "text" → tag ≠ "comment" → d.nodeNamed tag = true →
      (d.value == childValue tag c.xmlChildrenNode) = true := fun tag ht hcom hn =>
    beq_iff_eq.mpr (child_value hg.allowed interfaceRules_once hd ht hcom hn)
  unfold Interface.agrees
  split_ifs with hnote htype hdirection hparams
  · exact value _ (by decide) (by decide) hnote
  · exact value _ (by decide) (by decide) htype
  · exact value _ (by decide) (by decide) hdirection
  · exact value _ (by decide) (by decide) hparams
  · rfl

theorem allAgree_docInterface {elems : List XmlNode} (hg : ∀ c ∈ elems, InterfaceGrammar c) :
    allAgree (elems.map docInterface) elems = true := by
  induction elems with
  | nil => rfl
  | cons c elems ih =>
    simp only [allAgree, List.map_cons, List.zip_cons_cons, List.all_cons, Bool.and_eq_true]
    exact ⟨docInterface_agrees (hg c (by simp)), ih fun c hc => hg c (List.mem_cons_of_mem _ hc)⟩

/-! ## Children without a difference -/

/-- The element carries what the slot holds. -/
structure Carries (e : XmlNode) (m : RunningModule) : Prop where
  path : childValue "path" e.xmlChildrenNode = m.modulePath
  params : childValue "params" e.xmlChildrenNode = m.moduleParams
  ifces : docInterfaces e = m.ifces
  enabled : moduleElemEnabled e = m.moduleEnabled

theorem reloadProcessModuleAtribute_same (key : Option String) :
    reloadProcessModuleAtribute false key key = (key, false) := by
  cases key with
  | none => rfl
  | some key => simp [reloadProcessModuleAtribute]

/-- A child of an element that carries the slot changes nothing that makes a
restart necessary. -/
theorem Carries.child {e : XmlNode} (hg : ModuleGrammar e) {m : RunningModule} (hm : IfcArray m)
    (h : Carries e m) {c : XmlNode} (hc : c ∈ e.xmlChildrenNode) {st : RunningModule × Bool}
    (hst : restartFields st = restartFields (m, false)) :
    restartFields (processModuleElement false st c) = restartFields (m, false) := by
  have value := @child_value _ _ hg.allowed moduleRules_once c hc
  have hfields := hst
  simp only [restartFields, Prod.mk.injEq] at hfields
  obtain ⟨hmod, hpath, hparams, harr, hcnt, hins⟩ := hfields
  refine processModuleElement_cases (P := fun r => restartFields r = restartFields (m, false))
    (fun _ => ?_) (fun _ => hst) (fun hn => ?_) (fun _ => hst) (fun hn => ?_) (fun hn => ?_)
    (fun _ => hst)
  · rw [reloadResolveModuleEnabled_eq]
    exact hst
  · rw [value (by decide) (by decide) hn, h.params, ← hparams, reloadProcessModuleAtribute_same]
    simpa [restartFields] using hst
  · rw [value (by decide) (by decide) hn, h.path, ← hpath, reloadProcessModuleAtribute_same]
    simpa [restartFields] using hst
  · rw [nodeNamed_eq_elementNamed hg.allowed (by decide) (by decide) hc] at hn
    have ht : trapElem e = some c := find?_once hg.allowed
      (r := ⟨"trapinterfaces", true, checkAny⟩) (by simp [moduleRules]) rfl hc hn
    have htrap := trap_children hg ht
    have hdoc : (interfaceElems c.xmlChildrenNode).map docInterface = m.ifces := by
      rw [← h.ifces, docInterfaces, ht]
    have hifces : st.1.ifces = m.ifces := by simp [RunningModule.ifces, harr, hcnt]
    have hlen : st.1.configIfcesCnt = (interfaceElems c.xmlChildrenNode).length := by
      rw [hcnt, ← hm.filled.length_ifces, ← hdoc, List.length_map]
    have hfill : Filled st.1.configIfcesCnt st.1.configIfces := by
      rw [harr, hcnt]
      exact hm.filled
    have hagree : allAgree st.1.ifces (interfaceElems c.xmlChildrenNode) = true := by
      rw [hifces, ← hdoc]
      exact allAgree_docInterface fun i hi => mem_interfaceElems_grammar hg ht hi
    rw [hins, processTrapinterfaces_same htrap hfill hlen hagree]
    simpa [restartFields, hins] using hst

/-- The whole element. -/
theorem Carries.unmodified {e : XmlNode} (hg : ModuleGrammar e) {m : RunningModule}
    (hm : IfcArray m) (h : Carries e m) (hmod : m.moduleModifiedByReload = false)
    (choice : ReloadChoice) (i : Nat) :
    (placeElement choice false (i, e) m).moduleModifiedByReload = false := by
  have hfold : ∀ children : List XmlNode, (∀ c ∈ children, c ∈ e.xmlChildrenNode) →
      ∀ st, restartFields st = restartFields (m, false) →
        restartFields (children.foldl (processModuleElement false) st) =
          restartFields (m, false) := by
    intro children
    induction children with
    | nil => exact fun _ st hst => hst
    | cons c children ih =>
      intro hsub st hst
      exact ih (fun d hd => hsub d (List.mem_cons_of_mem c hd)) _
        (h.child hg hm (hsub c (by simp)) hst)
  have hstart : restartFields (startState choice false e m) = restartFields (m, false) := by
    have hkeep : ¬ ((e.xmlChildrenNode.countP (nodeNamed "trapinterfaces") : Int) = 0 ∧
        m.configIfcesCnt > 0) := by
      rintro ⟨hz, hpos⟩
      have hnone : trapElem e = none := by
        rw [countP_nodeNamed hg.allowed (by decide) (by decide)] at hz
        exact List.find?_eq_none.mpr (List.countP_eq_zero.mp (by omega))
      have hnil : m.ifces = [] := by rw [← h.ifces, docInterfaces, hnone]
      rw [← hm.filled.length_ifces, hnil] at hpos
      exact absurd hpos (by simp)
    rw [startState, removeMissingInterfaces, if_neg fun hc => hkeep hc.2]
    rfl
  have hlast := hfold e.xmlChildrenNode (fun _ hc => hc) _ hstart
  rw [placeElement, applyModuleElement_eq, finishModuleElement_modified]
  exact (congrArg Prod.fst hlast).trans hmod

/-! ## The slot of a module without a difference -/

/-- What the service thread and the operator know about a module is as before,
and neither a restart nor the removal is pending. -/
structure LeftAlone (m m' : RunningModule) : Prop where
  name : m'.moduleName = m.moduleName
  pid : m'.modulePid = m.modulePid
  status : m'.moduleStatus = m.moduleStatus
  enabled : m'.moduleEnabled = m.moduleEnabled
  running : m'.moduleRunning = m.moduleRunning
  restartCnt : m'.moduleRestartCnt = m.moduleRestartCnt
  restartTimer : m'.moduleRestartTimer = m.moduleRestartTimer
  sentSigint : m'.sentSigint = m.sentSigint
  serviceSd : m'.moduleServiceSd = m.moduleServiceSd
  isconnected : m'.moduleServiceIfcIsconnected = m.moduleServiceIfcIsconnected
  connTimer : m'.serviceIfcConnTimer = m.serviceIfcConnTimer
  noRestart : m'.initModule = false
  noRemoval : m'.removeModule = false

theorem reloadOld_leftAlone {choice : ReloadChoice} (hc : choice ≠ .initLoadConfig)
    {s : Supervisor} (h : TableInv s) {ds : List (Nat × XmlNode)} (hd : GoodDocs ds)
    {m : RunningModule} (hm : m ∈ s.loaded) {d : Nat × XmlNode} (hdoc : docFor ds m = some d)
    (hcarries : Carries d.2 m) : LeftAlone m (reloadOld choice ds m) := by
  obtain ⟨hmem, -⟩ := docFor_mem hdoc
  have hgrammar := hd.grammar d hmem
  have hslot := h.reset_slotFor hm
  have happlied := placeElement_applied choice hgrammar hslot
  obtain ⟨hprocess, hname⟩ := reloadOld_process hc h hd hm
  have hmod : (placeElement choice false d (resetReloadFlags m)).moduleModifiedByReload = false :=
    Carries.unmodified hgrammar hslot
      ⟨hcarries.path, hcarries.params, hcarries.ifces, hcarries.enabled⟩ rfl choice d.1
  have hframe := happlied.frame
  have hinit : (placeElement choice false d (resetReloadFlags m)).initModule = false :=
    congrArg RunningModule.initModule hframe
  have hremove : (placeElement choice false d (resetReloadFlags m)).removeModule = false :=
    congrArg RunningModule.removeModule hframe
  have hrunning : (placeElement choice false d (resetReloadFlags m)).moduleRunning =
      m.moduleRunning := happlied.running
  have hon : (placeElement choice false d (resetReloadFlags m)).moduleEnabled = m.moduleEnabled :=
    happlied.enabled.trans hcarries.enabled
  have hcnt : (placeElement choice false d (resetReloadFlags m)).moduleRestartCnt =
      m.moduleRestartCnt := by
    have hreset : (resetReloadFlags m).moduleEnabled = m.moduleEnabled := rfl
    rw [happlied.restartCnt, hcarries.enabled, hreset]
    cases m.moduleEnabled <;> rfl
  have field := fun {α : Type} (π : RunningModule → α)
    (hπ : ∀ m : RunningModule, π m.process = π m) => field_of_process π hπ hprocess
  have hslot' : reloadOld choice ds m =
      restartIfModified (placeElement choice false d (resetReloadFlags m)) := by
    rw [reloadOld_some hdoc rfl happlied, finishSlot, adoptIfRunning_later hc]
  constructor
  · exact hname
  · exact field RunningModule.modulePid fun _ => rfl
  · exact field RunningModule.moduleStatus fun _ => rfl
  · rw [hslot', restartIfModified_eq]
    simp [hmod, hon]
  · rw [hslot', restartIfModified_eq]
    simp [hmod, hrunning]
  · rw [hslot', restartIfModified_eq]
    exact hcnt
  · exact field RunningModule.moduleRestartTimer fun _ => rfl
  · exact field RunningModule.sentSigint fun _ => rfl
  · exact field RunningModule.moduleServiceSd fun _ => rfl
  · exact field RunningModule.moduleServiceIfcIsconnected fun _ => rfl
  · exact field RunningModule.serviceIfcConnTimer fun _ => rfl
  · rw [hslot', restartIfModified_eq]
    simp [hmod, hinit]
  · rw [hslot', restartIfModified_eq]
    exact hremove

/-- A reload leaves a module alone when its element carries what the slot holds,
whatever the document says about other modules. -/
theorem untouched_undisturbed {choice : ReloadChoice} (hc : choice ≠ .initLoadConfig) {w : World}
    (hw : Reachable w) {root : XmlNode} (hv : validateConfiguration (some root) = .ok ())
    {x : Nat} {m : RunningModule} (hx : w.sup.loaded[x]? = some m) {ms e : XmlNode}
    (hms : ms ∈ modulesElems root.xmlChildrenNode) (he : e ∈ moduleElems ms)
    (hname : moduleName e = m.moduleName) (hcarries : Carries e m) :
    ∃ m', (reloadConfiguration choice (some root) w.sup).1.loaded[x]? = some m' ∧
      LeftAlone m m' := by
  have h := reachable_tableInv hw
  obtain ⟨hg, hr⟩ := (ReloadCall.later hc hw).reloaded hv
  have hd := hg.goodDocs
  obtain ⟨i, hmem, -⟩ := mem_docModules hms he
  have hdoc : docFor (docModules root.xmlChildrenNode) m = some (i, e) := by
    cases hf : docFor (docModules root.xmlChildrenNode) m with
    | none => exact absurd (beq_iff_eq.mpr hname) (List.find?_eq_none.mp hf (i, e) hmem)
    | some d =>
      obtain ⟨hd', hname'⟩ := docFor_mem hf
      rw [List.inj_on_of_nodup_map hd.distinct hd' hmem (hname'.trans hname.symm)]
  refine ⟨reloadOld choice (docModules root.xmlChildrenNode) m, ?_,
    reloadOld_leftAlone hc h hd (List.mem_of_getElem? hx) hdoc hcarries⟩
  have hlt := (List.getElem?_eq_some_iff.mp hx).1
  rw [hr.loaded, List.getElem?_append_left (by rw [List.length_map]; exact hlt),
    List.getElem?_map, hx]
  rfl

/-- The module as it is loaded and as it is listed again. -/
def keptElement : XmlNode :=
  moduleElement "m" "/bin/m" "true" [.textElement "params" "-v"]

/-- The document adds a module before one that is loaded. -/
theorem untouched_undisturbed_moved :
    let w := boot [] (some (profileDocument [keptElement]))
    let root := profileDocument [moduleElement "n" "/bin/n" "true" [], keptElement]
    ∃ m m', w.sup.loaded[0]? = some m ∧
      (reloadConfiguration .defaultConfigFile (some root) w.sup).1.loaded[0]? = some m' ∧
      LeftAlone m m' := by
  intro w root
  have hx : w.sup.loaded[0]? = some (w.sup.loaded.getD 0 RunningModule.zero) := by decide
  obtain ⟨m', hm', hleft⟩ := @untouched_undisturbed .defaultConfigFile (by simp) w
    ⟨[], some (profileDocument [keptElement]), [], rfl⟩ root (by decide) 0 _ hx _ keptElement
    (List.mem_singleton.mpr rfl) (List.mem_cons_of_mem _ (List.mem_singleton.mpr rfl)) (by decide)
    ⟨by decide, by decide, by decide, by decide⟩
  exact ⟨_, m', hx, hm', hleft⟩

end NemeaSupervisor
