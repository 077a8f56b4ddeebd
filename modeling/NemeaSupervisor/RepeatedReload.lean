import NemeaSupervisor.InterfaceLists
import NemeaSupervisor.Progress
import NemeaSupervisor.Undisturbed

/-!
# Reloading the same document

The first reload of a document may leave a module without its first interface, which
the second one finds missing. After two reloads nothing differs any more: whatever happens
in between, the next reload of this document restarts no module, and one more is without
any effect on the modules.
-/

namespace NemeaSupervisor

open XmlNode

/-! ## What a reload leaves of the differences -/

/-- The interfaces agree with the element wherever the element says something. -/
def IfcesAgree (ifces : List Interface) (e : XmlNode) : Prop :=
  match trapElem e with
  | none => ifces = []
  | some t => ifces.length = (interfaceElems t.xmlChildrenNode).length ∧
      allAgree ifces (interfaceElems t.xmlChildrenNode) = true

/-- The element has another number of interfaces. -/
def IfcesMissing (ifces : List Interface) (e : XmlNode) : Prop :=
  ∃ t, trapElem e = some t ∧ ifces.length ≠ (interfaceElems t.xmlChildrenNode).length

/-- The slot follows its element, up to an interface that one reload has lost. -/
structure FollowsElement (reloads : Nat) (e : XmlNode) (m : RunningModule) : Prop where
  path : m.modulePath = childValue "path" e.xmlChildrenNode
  params : hasChild "params" e.xmlChildrenNode = true →
    m.moduleParams = childValue "params" e.xmlChildrenNode
  ifces : IfcesAgree m.ifces e ∨ reloads < 2 ∧ IfcesMissing m.ifces e

section ifces

variable {e : XmlNode} {old : List Interface}

theorem ifcesAgree_all (hg : ModuleGrammar e) {t : XmlNode} (ht : trapElem e = some t) :
    IfcesAgree ((interfaceElems t.xmlChildrenNode).map interfaceOf) e := by
  have helems : ∀ c ∈ interfaceElems t.xmlChildrenNode, InterfaceGrammar c :=
    fun c hc => mem_interfaceElems_grammar hg ht hc
  have hdoc : (interfaceElems t.xmlChildrenNode).map interfaceOf =
      (interfaceElems t.xmlChildrenNode).map docInterface :=
    List.map_congr_left fun c hc => interfaceOf_eq (helems c hc)
  simp only [IfcesAgree, ht]
  exact ⟨List.length_map _, hdoc ▸ allAgree_docInterface helems⟩

theorem reloadedIfces_agreed (h : IfcesAgree old e) : reloadedIfces false old e = old := by
  unfold IfcesAgree at h
  cases ht : trapElem e with
  | none =>
    simp only [ht] at h
    simp only [reloadedIfces, ht, h]
  | some t =>
    simp only [ht] at h
    simp only [reloadedIfces, ht, h.1, h.2, Bool.false_eq_true, ne_eq, not_true_eq_false, or_self,
      if_false, if_true]

/-- All interfaces are there again when one was missing. -/
theorem reloadedIfces_missing (hg : ModuleGrammar e) (h : IfcesMissing old e) :
    IfcesAgree (reloadedIfces false old e) e := by
  obtain ⟨t, ht, hlen⟩ := h
  have hall : reloadedIfces false old e = (interfaceElems t.xmlChildrenNode).map interfaceOf := by
    simp only [reloadedIfces, ht, hlen, ne_eq, not_false_eq_true, or_true, if_true]
  rw [hall]
  exact ifcesAgree_all hg ht

theorem reloadedIfces_new (hg : ModuleGrammar e) : IfcesAgree (reloadedIfces true old e) e := by
  cases ht : trapElem e with
  | none => simp only [IfcesAgree, reloadedIfces, ht]
  | some t =>
    have hall : reloadedIfces true old e = (interfaceElems t.xmlChildrenNode).map interfaceOf := by
      simp only [reloadedIfces, ht, true_or, if_true]
    rw [hall]
    exact ifcesAgree_all hg ht

/-- At a difference the first child of the element is lost, which may be an interface. -/
theorem reloadedIfces_once (hg : ModuleGrammar e) :
    IfcesAgree (reloadedIfces false old e) e ∨ IfcesMissing (reloadedIfces false old e) e := by
  cases ht : trapElem e with
  | none => exact .inl (by simp only [IfcesAgree, reloadedIfces, ht])
  | some t =>
    by_cases hlen : old.length = (interfaceElems t.xmlChildrenNode).length
    · cases hagree : allAgree old (interfaceElems t.xmlChildrenNode) with
      | true =>
        have hold : IfcesAgree old e := by
          simp only [IfcesAgree, ht]
          exact ⟨hlen, hagree⟩
        exact .inl ((reloadedIfces_agreed hold).symm ▸ hold)
      | false =>
        have htail : reloadedIfces false old e =
            (interfaceElems t.xmlChildrenNode.tail).map interfaceOf := by
          simp only [reloadedIfces, ht, hlen, hagree, Bool.false_eq_true, ne_eq, not_true_eq_false,
            or_self, if_false]
        rw [htail]
        by_cases hfirst : t.xmlChildrenNode.head?.any (elementNamed "interface") = false
        · rw [(interfaceElems_tail_iff t.xmlChildrenNode).mpr hfirst]
          exact .inl (ifcesAgree_all hg ht)
        · refine .inr ⟨t, ht, fun hsame => ?_⟩
          obtain ⟨c, hc⟩ : ∃ c, t.xmlChildrenNode.head? = some c := by
            cases hhead : t.xmlChildrenNode.head? with
            | none => simp [hhead] at hfirst
            | some c => exact ⟨c, rfl⟩
          obtain ⟨children, hcons⟩ := List.head?_eq_some_iff.mp hc
          have hnamed : c.elementNamed "interface" = true := by
            simpa [hc] using hfirst
          rw [hcons, List.tail_cons, List.length_map, interfaceElems, interfaceElems,
            List.filter_cons_of_pos hnamed, List.length_cons] at hsame
          omega
    · exact .inl (reloadedIfces_missing hg ⟨t, ht, hlen⟩)

end ifces

/-- The slot after one more reload of its element. -/
theorem Applied.followsElement {choice : ReloadChoice} {i : Nat} {e : XmlNode}
    {m m' : RunningModule} (h : Applied choice i false e m m') (hg : ModuleGrammar e)
    {reloads : Nat} (hm : 1 ≤ reloads → FollowsElement reloads e m) :
    FollowsElement (reloads + 1) e m' := by
  refine ⟨h.path, fun hparams => by rw [h.params, if_pos hparams], ?_⟩
  rw [h.ifces]
  by_cases hfirst : 1 ≤ reloads
  · rcases (hm hfirst).ifces with hagree | ⟨-, hmissing⟩
    · exact .inl ((reloadedIfces_agreed hagree).symm ▸ hagree)
    · exact .inl (reloadedIfces_missing hg hmissing)
  · exact (reloadedIfces_once hg).imp_right fun hmissing => ⟨by omega, hmissing⟩

theorem Applied.followsElement_new {choice : ReloadChoice} {i : Nat} {e : XmlNode}
    {m m' : RunningModule} (h : Applied choice i true e m m') (hg : ModuleGrammar e)
    {reloads : Nat} : FollowsElement reloads e m' :=
  ⟨h.path, fun hparams => by rw [h.params, if_pos hparams], .inl (h.ifces ▸ reloadedIfces_new hg)⟩

theorem FollowsElement.congr {reloads : Nat} {e : XmlNode} {m m' : RunningModule}
    (h : FollowsElement reloads e m) (hconfig : m'.config = m.config) :
    FollowsElement reloads e m' where
  path := (field_of_config RunningModule.modulePath (fun _ => rfl) hconfig).trans h.path
  params hparams :=
    (field_of_config RunningModule.moduleParams (fun _ => rfl) hconfig).trans (h.params hparams)
  ifces := (field_of_config RunningModule.ifces (fun _ => rfl) hconfig) ▸ h.ifces

/-! ## The modules of the document -/

/-- After so many reloads of the document every module of it is loaded and stays. -/
def Stage (reloads : Nat) (nodes : List XmlNode) (s : Supervisor) : Prop :=
  1 ≤ reloads → ∀ d ∈ docModules nodes, ∃ m ∈ s.loaded, m.moduleName = moduleName d.2 ∧
    m.removeModule = false ∧ FollowsElement reloads d.2 m

section stage

variable {reloads : Nat} {nodes : List XmlNode} {s s' : Supervisor}

/-- Only the configuration of the modules that stay counts. -/
theorem Stage.congr (h : Stage reloads nodes s) (hkept : ∀ m ∈ s.loaded, m.removeModule = false →
    ∃ m' ∈ s'.loaded, m'.config = m.config ∧ m'.removeModule = false) :
    Stage reloads nodes s' := by
  intro hfirst d hd
  obtain ⟨m, hm, hname, hstays, hfollows⟩ := h hfirst d hd
  obtain ⟨m', hm', hconfig, hstays'⟩ := hkept m hm hstays
  exact ⟨m', hm', (field_of_config RunningModule.moduleName (fun _ => rfl) hconfig).trans hname,
    hstays', hfollows.congr hconfig⟩

theorem Stage.setModule (h : Stage reloads nodes s) {x : Nat} {m m' : RunningModule}
    (hx : s.loaded[x]? = some m) (hconfig : m'.config = m.config)
    (hremove : m'.removeModule = m.removeModule) : Stage reloads nodes (s.setModule x m') := by
  refine h.congr fun m1 hm1 hstays => ?_
  obtain ⟨y, hy⟩ := List.mem_iff_getElem?.mp hm1
  have hlt := (List.getElem?_eq_some_iff.mp hx).1
  by_cases hxy : x = y
  · subst hxy
    rw [hx, Option.some.injEq] at hy
    subst hy
    exact ⟨m', List.mem_of_getElem? (List.getElem?_set_self hlt), hconfig, hremove.trans hstays⟩
  · exact ⟨m1, List.mem_of_getElem? ((List.getElem?_set_ne hxy).trans hy), rfl, hstays⟩

theorem Stage.change {w w' : World} (h : Stage reloads nodes w.sup) (hc : Change w w') :
    Stage reloads nodes w'.sup := by
  cases hc with
  | outside | exited => exact h
  | slot hx hs => exact h.setModule hx hs.config hs.removeModule
  | @freed x m hx hremove =>
    refine h.congr fun m1 hm1 hstays => ⟨m1, ?_, rfl, hstays⟩
    obtain ⟨y, hy⟩ := List.mem_iff_getElem?.mp hm1
    have hne : y ≠ x := by
      rintro rfl
      rw [hx, Option.some.injEq] at hy
      rw [← hy, hremove] at hstays
      cases hstays
    rw [freeModuleAndShiftArray, if_pos (List.getElem?_eq_some_iff.mp hx).1]
    exact List.mem_eraseIdx_iff_getElem?.mpr ⟨y, hne, hy⟩

theorem Stage.command {enabling : Bool} (h : Stage reloads nodes s) (hc : Command enabling s s') :
    Stage reloads nodes s' := by
  cases hc with
  | enable _ hx => exact h.setModule hx rfl rfl
  | disable hx => exact h.setModule hx rfl rfl
  | restart hx => exact h.setModule hx rfl rfl
  | profile => exact h
  | stop =>
    refine h.congr fun m hm hstays => ⟨_, List.mem_map.mpr ⟨m, hm, rfl⟩, ?_, ?_⟩
    · rfl
    · exact hstays

/-- One more reload. -/
theorem Stage.reload {choice : ReloadChoice} {root : XmlNode}
    (h : Stage reloads root.xmlChildrenNode s) (htable : TableInv s) (hg : Grammar root)
    (hr : Reloaded choice s root.xmlChildrenNode s') :
    Stage (reloads + 1) root.xmlChildrenNode s' := by
  intro _ d hd
  have hgrammar := hg.goodDocs.grammar d hd
  obtain ⟨m', hm', hname'⟩ := hr.exists_slot htable hg hd
  have hs := hr.element htable hg.goodDocs hd hm' hname'
  refine ⟨m', hm', hname', hs.remove htable, ?_⟩
  cases hs with
  | @kept m m1 hm hname happlied =>
    refine (happlied.followsElement hgrammar fun hfirst => ?_).congr (finishSlot_config choice m1)
    obtain ⟨m0, hm0, hname0, -, hfollows⟩ := h hfirst d hd
    have hsame := List.inj_on_of_nodup_map htable.distinct hm0 hm (hname0.trans hname.symm)
    subst hsame
    exact ⟨hfollows.path, hfollows.params, hfollows.ifces⟩
  | @new k m1 _ happlied =>
    exact (happlied.followsElement_new hgrammar).congr (finishSlot_config choice m1)

end stage

/-! ## A reload without a difference -/

/-- The slot after a reload whose element differs in nothing that is compared. -/
def settledSlot (d : Nat × XmlNode) (m : RunningModule) : RunningModule :=
  { m with
    moduleEnabled := moduleElemEnabled d.2
    moduleServedByServiceThread := false
    moduleModifiedByReload := false
    moduleCheckedByReload := true
    modulesProfile := some d.1
    moduleIsMyChild := true
    moduleRootPermNeeded := false
    removeModule := false
    initModule := false
    moduleRestartCnt :=
      if moduleElemEnabled d.2 && !m.moduleEnabled then -1 else m.moduleRestartCnt
    moduleMaxRestartsPerMinute := (moduleRestarts d.2).getD (-1) }

theorem settledSlot_twice (d : Nat × XmlNode) (m : RunningModule) :
    settledSlot d (settledSlot d m) = settledSlot d m := by
  simp [settledSlot]

section unmodified

variable {reloads : Nat} {e : XmlNode} {m m' : RunningModule}

theorem FollowsElement.child (h : FollowsElement reloads e m) (hn : 2 ≤ reloads)
    (hg : ModuleGrammar e) (hm : IfcArray m) {c : XmlNode} (hc : c ∈ e.xmlChildrenNode)
    {st : RunningModule × Bool} (hst : restartFields st = restartFields (m, false)) :
    restartFields (processModuleElement false st c) = restartFields (m, false) := by
  have value := @child_value _ _ hg.allowed moduleRules_once c hc
  have hfields := hst
  simp only [restartFields, Prod.mk.injEq] at hfields
  obtain ⟨-, hpath, hparams, harr, hcnt, hins⟩ := hfields
  refine processModuleElement_cases (P := fun r => restartFields r = restartFields (m, false))
    (fun _ => ?enabled) (fun _ => hst) (fun hparam => ?params) (fun _ => hst) (fun hn => ?path)
    (fun ht => ?trapinterfaces) (fun _ => hst)
  case enabled =>
    rw [reloadResolveModuleEnabled_eq]
    exact hst
  case params =>
    have hthere : hasChild "params" e.xmlChildrenNode = true := by
      rw [nodeNamed_eq_elementNamed hg.allowed (by decide) (by decide) hc] at hparam
      exact List.any_eq_true.mpr ⟨c, hc, hparam⟩
    rw [value (by decide) (by decide) hparam, ← h.params hthere, ← hparams,
      reloadProcessModuleAtribute_same]
    simpa [restartFields] using hst
  case path =>
    rw [value (by decide) (by decide) hn, ← h.path, ← hpath, reloadProcessModuleAtribute_same]
    simpa [restartFields] using hst
  case trapinterfaces =>
    rw [nodeNamed_eq_elementNamed hg.allowed (by decide) (by decide) hc] at ht
    have htrap : trapElem e = some c := find?_once hg.allowed
      (r := ⟨"trapinterfaces", true, checkAny⟩) (by simp [moduleRules]) rfl hc ht
    have hagree := h.ifces.resolve_right fun hmissing => absurd hmissing.1 (by omega)
    simp only [IfcesAgree, htrap] at hagree
    have hifces : st.1.ifces = m.ifces := by simp [RunningModule.ifces, harr, hcnt]
    have hfill : Filled st.1.configIfcesCnt st.1.configIfces := by
      rw [harr, hcnt]
      exact hm.filled
    have hlen : st.1.configIfcesCnt = (interfaceElems c.xmlChildrenNode).length := by
      rw [hcnt, ← hm.filled.length_ifces, hagree.1]
    rw [hins, processTrapinterfaces_same (trap_children hg htrap) hfill hlen
      (by rw [hifces, hagree.2])]
    simpa [restartFields, hins] using hst

theorem FollowsElement.start (h : FollowsElement reloads e m) (hn : 2 ≤ reloads)
    (hg : ModuleGrammar e) (hm : IfcArray m) (choice : ReloadChoice) :
    restartFields (startState choice false e m) = restartFields (m, false) := by
  have hkeep : ¬ ((e.xmlChildrenNode.countP (nodeNamed "trapinterfaces") : Int) = 0 ∧
      m.configIfcesCnt > 0) := by
    rintro ⟨hz, hpos⟩
    have hnone : trapElem e = none := by
      rw [countP_nodeNamed hg.allowed (by decide) (by decide)] at hz
      exact List.find?_eq_none.mpr (List.countP_eq_zero.mp (by omega))
    have hnil := h.ifces.resolve_right fun hmissing => absurd hmissing.1 (by omega)
    simp only [IfcesAgree, hnone] at hnil
    rw [← hm.filled.length_ifces, hnil] at hpos
    exact absurd hpos (by simp)
  rw [startState, removeMissingInterfaces, if_neg fun hc => hkeep hc.2]
  rfl

theorem FollowsElement.fold (h : FollowsElement reloads e m) (hn : 2 ≤ reloads)
    (hg : ModuleGrammar e) (hm : IfcArray m) (choice : ReloadChoice) :
    restartFields (e.xmlChildrenNode.foldl (processModuleElement false)
      (startState choice false e m)) = restartFields (m, false) := by
  have hchildren : ∀ children : List XmlNode, (∀ c ∈ children, c ∈ e.xmlChildrenNode) →
      ∀ st, restartFields st = restartFields (m, false) →
        restartFields (children.foldl (processModuleElement false) st) =
          restartFields (m, false) := by
    intro children
    induction children with
    | nil => exact fun _ st hst => hst
    | cons c children ih =>
      intro hsub st hst
      exact ih (fun d hd => hsub d (List.mem_cons_of_mem c hd)) _
        (h.child hn hg hm (hsub c (by simp)) hst)
  exact hchildren _ (fun _ hc => hc) _ (h.start hn hg hm choice)

/-- What a module element does not write, and what it writes. -/
theorem eq_of_sansConfig (hframe : m'.sansConfig = m.sansConfig)
    (harr : m'.configIfces = m.configIfces) (hcnt : m'.configIfcesCnt = m.configIfcesCnt)
    (hmodified : m'.moduleModifiedByReload = m.moduleModifiedByReload)
    (henabled : m'.moduleEnabled = m.moduleEnabled) (hname : m'.moduleName = m.moduleName)
    (hparams : m'.moduleParams = m.moduleParams) (hpath : m'.modulePath = m.modulePath)
    (hrestart : m'.moduleRestartCnt = m.moduleRestartCnt)
    (hlimit : m'.moduleMaxRestartsPerMinute = m.moduleMaxRestartsPerMinute) : m' = m := by
  cases m
  cases m'
  simp_all [RunningModule.sansConfig, RunningModule.sansIfces]

/-- The reload of a module that follows its element. -/
theorem FollowsElement.reloadOld {choice : ReloadChoice} (hc : choice ≠ .initLoadConfig)
    {ds : List (Nat × XmlNode)} {d : Nat × XmlNode} (h : FollowsElement reloads d.2 m)
    (hn : 2 ≤ reloads) (hg : ModuleGrammar d.2) (hm : IfcArray m) (hdoc : docFor ds m = some d) :
    reloadOld choice ds m = settledSlot d m := by
  have hreset : FollowsElement reloads d.2 (resetReloadFlags m) := ⟨h.path, h.params, h.ifces⟩
  have hslot : IfcArray (resetReloadFlags m) := ⟨hm.filled, hm.codes⟩
  have happlied : Applied choice d.1 false d.2 (resetReloadFlags m)
      (placeElement choice false d (resetReloadFlags m)) := placeElement_applied choice hg hslot
  have hfold := hreset.fold hn hg hslot choice
  have hfinish : finishModuleElement (some d.1) (d.2.xmlChildrenNode.foldl
      (processModuleElement false) (startState choice false d.2 (resetReloadFlags m))) =
        placeElement choice false d (resetReloadFlags m) := (applyModuleElement_eq ..).symm
  simp only [restartFields, Prod.mk.injEq] at hfold
  obtain ⟨hmodified, hpath, hparams, harr, hcnt, hins⟩ := hfold
  have hplaced : placeElement choice false d (resetReloadFlags m) =
      { settledSlot d m with moduleServedByServiceThread := m.moduleServedByServiceThread } := by
    have hpid : appliedPid choice d.2 (resetReloadFlags m) = m.modulePid := by
      rw [appliedPid, if_neg hc]
      rfl
    refine eq_of_sansConfig ?_ ?_ ?_ ?_ happlied.enabled happlied.name ?_ ?_ ?_ happlied.limit
    · rw [happlied.frame, hpid]
      rfl
    · rw [← hfinish, finishModuleElement, hins]
      exact harr
    · rw [← hfinish, finishModuleElement, hins]
      exact hcnt
    · rw [← hfinish, finishModuleElement_modified]
      exact hmodified
    · rw [← hfinish, finishModuleElement, hins]
      exact hparams
    · rw [← hfinish, finishModuleElement, hins]
      exact hpath
    · rw [happlied.restartCnt, Bool.false_or]
      rfl
  rw [reloadOld_some hdoc hplaced.symm (hplaced ▸ happlied), finishSlot, adoptIfRunning_later hc,
    restartIfModified_eq]
  simp [settledSlot]

/-- The reload of a module that the document does not list. -/
theorem missingSlot_settled {choice : ReloadChoice} (hc : choice ≠ .initLoadConfig) :
    finishSlot choice (missingSlot m) =
      { missingSlot m with moduleServedByServiceThread := false } := by
  rw [finishSlot, adoptIfRunning_later hc, restartIfModified_eq]
  simp [missingSlot, resetReloadFlags]

end unmodified

/-- Every slot after a reload without a difference. -/
def settle (ds : List (Nat × XmlNode)) (m : RunningModule) : RunningModule :=
  match docFor ds m with
  | some d => settledSlot d m
  | none => { missingSlot m with moduleServedByServiceThread := false }

theorem settle_name (ds : List (Nat × XmlNode)) (m : RunningModule) :
    (settle ds m).moduleName = m.moduleName := by
  unfold settle
  split <;> rfl

theorem settle_twice (ds : List (Nat × XmlNode)) (m : RunningModule) :
    settle ds (settle ds m) = settle ds m := by
  have hdoc : docFor ds (settle ds m) = docFor ds m := by
    simp only [docFor, settle_name]
  cases hm : docFor ds m with
  | some d =>
    have hsettle : settle ds m = settledSlot d m := by rw [settle, hm]
    rw [settle, hdoc, hm, hsettle]
    exact settledSlot_twice d m
  | none =>
    have hsettle : settle ds m = { missingSlot m with moduleServedByServiceThread := false } := by
      rw [settle, hm]
    rw [settle, hdoc, hm, hsettle]
    rfl

theorem Stage.settled {reloads : Nat} {choice : ReloadChoice} {s s' : Supervisor} {root : XmlNode}
    (h : Stage reloads root.xmlChildrenNode s) (hn : 2 ≤ reloads) (hc : choice ≠ .initLoadConfig)
    (htable : TableInv s) (hg : Grammar root) (hr : Reloaded choice s root.xmlChildrenNode s') :
    s'.loaded = s.loaded.map (settle (docModules root.xmlChildrenNode)) := by
  have hnew : newDocs s (docModules root.xmlChildrenNode) = [] := by
    refine List.eq_nil_iff_forall_not_mem.mpr fun d hd => ?_
    obtain ⟨hmem, hother⟩ := mem_newDocs.mp hd
    obtain ⟨m, hm, hname, -⟩ := h (by omega) d hmem
    exact hother m hm hname
  rw [hr.loaded, hnew, List.mapIdx_nil, List.append_nil]
  refine List.map_congr_left fun m hm => ?_
  cases hdoc : docFor (docModules root.xmlChildrenNode) m with
  | none => rw [reloadOld_none hdoc, settle, hdoc, missingSlot_settled hc]
  | some d =>
    obtain ⟨hmem, hname⟩ := docFor_mem hdoc
    obtain ⟨m0, hm0, hname0, -, hfollows⟩ := h (by omega) d hmem
    have hsame := List.inj_on_of_nodup_map htable.distinct hm0 hm (hname0.trans hname)
    subst hsame
    rw [hfollows.reloadOld hc hn (hg.goodDocs.grammar d hmem) (htable.slots m0 hm0).ifces hdoc,
      settle, hdoc]

/-! ## The reloads of a run -/

def Action.isReload (a : Action) : Bool := a.reloadRoot.isSome

/-- A step that reloads no other document, while the lock can be taken. -/
def ReloadsOnly (root : XmlNode) (w : World) (a : Action) : Prop :=
  ∀ r, a.reloadRoot = some r → r = root ∧ w.serviceExited = false

theorem reload_step_later {w : World} (hlive : w.serviceExited = false) {a : Action}
    {root : XmlNode} (ha : a.reloadRoot = some root) : ∃ choice, choice ≠ .initLoadConfig ∧
      step w a = { w with sup := (reloadConfiguration choice (some root) w.sup).1 } := by
  cases a with
  | reloadTemplate =>
    cases ha
    exact ⟨.defaultConfigFile, by simp, by simp [step, World.locked, hlive]⟩
  | reloadCallback =>
    cases ha
    exact ⟨.callbackRootElem, by simp, by simp [step, World.locked, hlive]⟩
  | _ => cases ha

/-- The stage of a run is the number of its reloads. -/
theorem run_stage {w : World} (hw : TableInv w.sup) {root : XmlNode} (hg : Grammar root)
    {as : List Action} (has : Run.Along step (ReloadsOnly root) w as) :
    TableInv (Run.run step w as).sup ∧
      Stage (as.countP Action.isReload) root.xmlChildrenNode (Run.run step w as).sup := by
  have hkeep : ∀ n w a, TableInv w.sup ∧ Stage n root.xmlChildrenNode w.sup →
      ReloadsOnly root w a → a.isReload = false →
        TableInv (step w a).sup ∧ Stage n root.xmlChildrenNode (step w a).sup := by
    intro n w a h _ hno
    refine step_invariant (I := fun w => TableInv w.sup ∧ Stage n root.xmlChildrenNode w.sup)
      (fun _ h => h.1) (fun _ _ h hc => ⟨h.1.change hc, h.2.change hc⟩)
      (fun _ _ _ h hc => ⟨h.1.command hc, h.2.command hc⟩)
      (fun _ b c h => ⟨h.1.flags b c, h.2⟩) h fun _ r _ hr => ?_
    rw [Action.isReload, hr] at hno
    cases hno
  have hround : ∀ n w a, TableInv w.sup ∧ Stage n root.xmlChildrenNode w.sup →
      ReloadsOnly root w a → a.isReload = true →
        TableInv (step w a).sup ∧ Stage (n + 1) root.xmlChildrenNode (step w a).sup := by
    intro n w a h hdocument hreload
    obtain ⟨r, hr⟩ := Option.isSome_iff_exists.mp hreload
    obtain ⟨rfl, hlive⟩ := hdocument r hr
    obtain ⟨choice, -, hstep⟩ := reload_step_later hlive hr
    have hreloaded := (reloadConfiguration_accepted h.1 hg choice).2
    rw [hstep]
    exact ⟨hreloaded.tableInv h.1 hg, h.2.reload h.1 hg hreloaded⟩
  have hstart : Stage 0 root.xmlChildrenNode w.sup := fun h => absurd h (by omega)
  have hstages := @Run.stage_of_rounds _ _ step _ Action.isReload
    (fun n w => TableInv w.sup ∧ Stage n root.xmlChildrenNode w.sup) hkeep hround w as 0
    ⟨hw, hstart⟩ has
  rwa [Nat.zero_add] at hstages

/-- What a reload leaves of the modules when it restarts none. -/
structure WithoutRestart (s s' : Supervisor) : Prop where
  modules : s'.loaded.map (fun m => (m.moduleName, m.launch, m.process, m.moduleRunning)) =
    s.loaded.map fun m => (m.moduleName, m.launch, m.process, m.moduleRunning)
  unmodified : ∀ m ∈ s'.loaded, m.moduleModifiedByReload = false
  noRestart : ∀ m ∈ s'.loaded, m.initModule = false

theorem withoutRestart_settle {ds : List (Nat × XmlNode)} {s s' : Supervisor}
    (h : s'.loaded = s.loaded.map (settle ds)) : WithoutRestart s s' := by
  have hslot : ∀ m, (settle ds m).launch = m.launch ∧ (settle ds m).process = m.process ∧
      (settle ds m).moduleRunning = m.moduleRunning ∧
      (settle ds m).moduleModifiedByReload = false ∧ (settle ds m).initModule = false := by
    intro m
    unfold settle
    split <;> exact ⟨rfl, rfl, rfl, rfl, rfl⟩
  refine ⟨?_, fun m' hm' => ?_, fun m' hm' => ?_⟩
  · rw [h, List.map_map]
    refine List.map_congr_left fun m _ => ?_
    obtain ⟨hlaunch, hprocess, hrunning, -⟩ := hslot m
    rw [Function.comp_apply, settle_name, hlaunch, hprocess, hrunning]
  · rw [h] at hm'
    obtain ⟨m, -, rfl⟩ := List.mem_map.mp hm'
    exact (hslot m).2.2.2.1
  · rw [h] at hm'
    obtain ⟨m, -, rfl⟩ := List.mem_map.mp hm'
    exact (hslot m).2.2.2.2

/-- After two reloads of a document the next one finds no difference, whatever has
happened in between: no module gets another command line or is restarted, and a further
reload of the document leaves every module as it is. -/
theorem reloads_settle {w : World} (hw : Reachable w) {root : XmlNode}
    (hv : validateConfiguration (some root) = .ok ()) {as : List Action}
    (has : Run.Along step (ReloadsOnly root) w as) (htwice : 2 ≤ as.countP Action.isReload)
    (hlive : (Run.run step w as).serviceExited = false) {a b : Action}
    (ha : a.reloadRoot = some root) (hb : b.reloadRoot = some root) :
    WithoutRestart (Run.run step w as).sup (step (Run.run step w as) a).sup ∧
      (step (step (Run.run step w as) a) b).sup.loaded =
        (step (Run.run step w as) a).sup.loaded := by
  obtain ⟨_, heq, hg⟩ := validateConfiguration_eq_ok.mp hv
  cases heq
  obtain ⟨htable, hstage⟩ := run_stage (reachable_tableInv hw) hg has
  generalize Run.run step w as = w1 at htable hstage hlive
  obtain ⟨choice, hc, hstep⟩ := reload_step_later hlive ha
  have hreloaded := (reloadConfiguration_accepted htable hg choice).2
  have hsettled := hstage.settled htwice hc htable hg hreloaded
  obtain ⟨choice', hc', hstep'⟩ := reload_step_later (w := step w1 a) (hstep ▸ hlive) hb
  have hstage' := hstage.reload htable hg hreloaded
  have htable' := hreloaded.tableInv htable hg
  rw [hstep', hstep]
  refine ⟨withoutRestart_settle hsettled, ?_⟩
  have hagain := hstage'.settled (by omega) hc' htable' hg
    (reloadConfiguration_accepted htable' hg choice').2
  rw [hagain, hsettled, List.map_map]
  exact List.map_congr_left fun m _ => settle_twice _ m

/-- The first reload loses the only interface, the second brings it back. -/
theorem reloads_settle_lost :
    let root := interfaceDocument [] "5001"
    let w := boot [] (some (interfaceDocument [] "5000"))
    let as := [Action.reloadTemplate (some root), .cycle [], .reloadCallback (some root)]
    let a := Action.reloadTemplate (some root)
    (step w a).sup.loaded.map RunningModule.configIfcesCnt = [0] ∧
      (Run.run step w as).sup.loaded.map RunningModule.configIfcesCnt = [1] ∧
      WithoutRestart (Run.run step w as).sup (step (Run.run step w as) a).sup ∧
      (step (step (Run.run step w as) a) a).sup.loaded =
        (step (Run.run step w as) a).sup.loaded := by
  refine ⟨by decide, by decide, reloads_settle ⟨[], _, [], rfl⟩ (by decide) ?_ (by decide)
    (by decide) rfl rfl⟩
  refine ⟨fun r hr => ?_, fun r hr => ?_, fun r hr => ?_, trivial⟩
  · cases hr
    exact ⟨rfl, rfl⟩
  · cases hr
  · cases hr
    exact ⟨rfl, by decide⟩

end NemeaSupervisor
