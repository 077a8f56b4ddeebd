import NemeaSupervisor.Interfaces

/-!
# One module under a reload

What the apply loop makes of the slot of a module element, field by field. A
field of the slot is touched by the children of one tag only, and an accepted
element has at most one such child, so each field is either the text of that
child or what it was.
-/

namespace NemeaSupervisor

open CText XmlNode

/-- The module without the fields that the trapinterfaces branch writes. -/
def RunningModule.sansIfces (m : RunningModule) : RunningModule :=
  { m with configIfces := [], configIfcesCnt := 0, moduleModifiedByReload := false }

/-- The module without the fields that a module element writes. -/
def RunningModule.sansConfig (m : RunningModule) : RunningModule :=
  { m.sansIfces with
    moduleEnabled := false
    moduleName := none
    moduleParams := none
    modulePath := none
    moduleRestartCnt := 0
    moduleMaxRestartsPerMinute := 0 }

theorem reloadCheckModuleAllocatedInterfaces_sansIfces (m : RunningModule) (n : Nat) :
    (reloadCheckModuleAllocatedInterfaces m n).sansIfces = m.sansIfces := by
  unfold reloadCheckModuleAllocatedInterfaces
  split_ifs <;> rfl

theorem interfacesLoop_sansIfces {rewind : RunningModule → IfcLoopState}
    (hrewind : ∀ m, (rewind m).1.sansIfces = m.sansIfces) (ins : Bool) (children : List XmlNode)
    (m : RunningModule) (n : Nat) :
    (interfacesLoop rewind ins children m n).1.sansIfces = m.sansIfces := by
  induction children generalizing m n with
  | nil => rfl
  | cons i children ih =>
    unfold interfacesLoop
    by_cases hi : i.nodeNamed "interface" = true
    · rw [if_pos hi]
      simp only []
      split
      · rw [ih]
        exact reloadCheckModuleAllocatedInterfaces_sansIfces m n
      · rw [hrewind]
        exact reloadCheckModuleAllocatedInterfaces_sansIfces m n
    · rw [if_neg hi]
      exact ih m n

theorem processTrapinterfaces_sansIfces (newModule ins : Bool) (m : RunningModule)
    (children : List XmlNode) :
    (processTrapinterfaces newModule ins m children).1.sansIfces = m.sansIfces := by
  have hcount : (if newModule then (m, ins)
      else reloadCheckModulesInterfacesCount m ins children).1.sansIfces = m.sansIfces := by
    unfold reloadCheckModulesInterfacesCount
    split_ifs <;> rfl
  have hrewind : ∀ m : RunningModule,
      (interfacesLoop (fun m => (m, true, 0)) true children.tail m 0).1.sansIfces = m.sansIfces :=
    fun m => interfacesLoop_sansIfces (fun _ => rfl) true children.tail m 0
  exact (interfacesLoop_sansIfces hrewind _ children _ 0).trans hcount

/-! ## The fold over the children of a module element -/

/-- The value of an enabled element. -/
def configEnabled : Option String → Bool
  | none => false
  | some key => key.toList.isPrefixOf "true".toList

theorem reloadResolveModuleEnabled_eq (newModule : Bool) (m : RunningModule)
    (key : Option String) :
    reloadResolveModuleEnabled newModule m key =
      { m with
        moduleEnabled := configEnabled key
        moduleRestartCnt :=
          if configEnabled key && (newModule || !m.moduleEnabled) then -1
          else m.moduleRestartCnt } := by
  cases key with
  | none => simp [reloadResolveModuleEnabled, configEnabled]
  | some key =>
    have hchanged : ∀ b : Bool,
        (b && (newModule || b != m.moduleEnabled)) = (b && (newModule || !m.moduleEnabled)) := by
      intro b
      cases b <;> simp
    simp only [reloadResolveModuleEnabled, configEnabled, hchanged]
    rfl

/-- The value of a module-restarts element that can be stored. -/
def configRestarts (key : Option String) : Option Int :=
  (key.bind sscanfInt).filter fun number => 0 ≤ number

section fields

variable {newModule : Bool} {st : RunningModule × Bool} {c : XmlNode}

/-- What a child does, by its tag. -/
theorem processModuleElement_cases {P : RunningModule × Bool → Prop}
    (enabled : c.nodeNamed "enabled" = true →
      P (reloadResolveModuleEnabled newModule st.1 c.value, st.2))
    (restarts : c.nodeNamed "module-restarts" = true →
      P ({ st.1 with
            moduleMaxRestartsPerMinute :=
              (configRestarts c.value).getD st.1.moduleMaxRestartsPerMinute }, st.2))
    (params : c.nodeNamed "params" = true →
      P ({ st.1 with
            moduleParams :=
              (reloadProcessModuleAtribute newModule st.1.moduleParams c.value).1
            moduleModifiedByReload := st.1.moduleModifiedByReload ||
              (reloadProcessModuleAtribute newModule st.1.moduleParams c.value).2 }, st.2))
    (name : c.nodeNamed "name" = true →
      P ({ st.1 with
            moduleName := if newModule then c.value.or st.1.moduleName else st.1.moduleName },
          st.2))
    (path : c.nodeNamed "path" = true →
      P ({ st.1 with
            modulePath := (reloadProcessModuleAtribute newModule st.1.modulePath c.value).1
            moduleModifiedByReload := st.1.moduleModifiedByReload ||
              (reloadProcessModuleAtribute newModule st.1.modulePath c.value).2 }, st.2))
    (trapinterfaces : c.nodeNamed "trapinterfaces" = true →
      P (processTrapinterfaces newModule st.2 st.1 c.xmlChildrenNode))
    (rest : (∀ tag ∈ ["enabled", "module-restarts", "params", "name", "path", "trapinterfaces"],
      c.nodeNamed tag = false) → P st) : P (processModuleElement newModule st c) := by
  obtain ⟨m, ins⟩ := st
  unfold processModuleElement
  dsimp only
  by_cases h1 : c.nodeNamed "enabled" = true
  · rw [if_pos h1]
    exact enabled h1
  rw [if_neg h1]
  by_cases h2 : c.nodeNamed "module-restarts" = true
  · rw [if_pos h2]
    have h := restarts h2
    unfold configRestarts at h
    cases hv : c.value.bind sscanfInt with
    | none => simpa [hv] using h
    | some number =>
      by_cases hn : 0 ≤ number
      · simpa [hv, hn, Option.filter] using h
      · simpa [hv, hn, Option.filter] using h
  rw [if_neg h2]
  by_cases h3 : c.nodeNamed "params" = true
  · rw [if_pos h3]
    exact params h3
  rw [if_neg h3]
  by_cases h4 : c.nodeNamed "name" = true
  · rw [if_pos h4]
    have h := name h4
    cases hn : newModule with
    | false => simpa [hn] using h
    | true =>
      cases hv : c.value with
      | none => simpa [hn, hv] using h
      | some key => simpa [hn, hv] using h
  rw [if_neg h4]
  by_cases h5 : c.nodeNamed "path" = true
  · rw [if_pos h5]
    exact path h5
  rw [if_neg h5]
  by_cases h6 : c.nodeNamed "trapinterfaces" = true
  · rw [if_pos h6]
    exact trapinterfaces h6
  · rw [if_neg h6]
    exact rest (by simp [h1, h2, h3, h4, h5, h6])

theorem processTrapinterfaces_field {α : Type} (π : RunningModule → α)
    (hπ : ∀ m : RunningModule, π m.sansIfces = π m) (ins : Bool) (m : RunningModule)
    (children : List XmlNode) :
    π (processTrapinterfaces newModule ins m children).1 = π m := by
  rw [← hπ, processTrapinterfaces_sansIfces, hπ]

/-- The fields that no child writes. -/
theorem processModuleElement_sansConfig :
    (processModuleElement newModule st c).1.sansConfig = st.1.sansConfig := by
  refine processModuleElement_cases (P := fun r => r.1.sansConfig = st.1.sansConfig) (fun _ => ?_)
    (fun _ => rfl) (fun _ => rfl) (fun _ => rfl) (fun _ => rfl) (fun _ => ?_) (fun _ => rfl)
  · rw [reloadResolveModuleEnabled_eq]
    rfl
  · exact processTrapinterfaces_field RunningModule.sansConfig (fun _ => rfl) _ _ _

theorem processModuleElement_enabled_other (h : c.nodeNamed "enabled" = false) :
    ((processModuleElement newModule st c).1.moduleEnabled,
      (processModuleElement newModule st c).1.moduleRestartCnt) =
    (st.1.moduleEnabled, st.1.moduleRestartCnt) :=
  processModuleElement_cases (P := fun r => (r.1.moduleEnabled, r.1.moduleRestartCnt) = _)
    (fun h' => absurd h' (by simp [h])) (fun _ => rfl) (fun _ => rfl) (fun _ => rfl)
    (fun _ => rfl)
    (fun _ => processTrapinterfaces_field (fun m => (m.moduleEnabled, m.moduleRestartCnt))
      (fun _ => rfl) _ _ _) (fun _ => rfl)

theorem processModuleElement_restarts_other (h : c.nodeNamed "module-restarts" = false) :
    (processModuleElement newModule st c).1.moduleMaxRestartsPerMinute =
      st.1.moduleMaxRestartsPerMinute :=
  processModuleElement_cases (P := fun r => r.1.moduleMaxRestartsPerMinute = _)
    (fun _ => by rw [reloadResolveModuleEnabled_eq]) (fun h' => absurd h' (by simp [h]))
    (fun _ => rfl) (fun _ => rfl) (fun _ => rfl)
    (fun _ => processTrapinterfaces_field _ (fun _ => rfl) _ _ _) (fun _ => rfl)

theorem processModuleElement_params_other (h : c.nodeNamed "params" = false) :
    (processModuleElement newModule st c).1.moduleParams = st.1.moduleParams :=
  processModuleElement_cases (P := fun r => r.1.moduleParams = _)
    (fun _ => by rw [reloadResolveModuleEnabled_eq]) (fun _ => rfl)
    (fun h' => absurd h' (by simp [h])) (fun _ => rfl) (fun _ => rfl)
    (fun _ => processTrapinterfaces_field _ (fun _ => rfl) _ _ _) (fun _ => rfl)

theorem processModuleElement_name_other (h : c.nodeNamed "name" = false) :
    (processModuleElement newModule st c).1.moduleName = st.1.moduleName :=
  processModuleElement_cases (P := fun r => r.1.moduleName = _)
    (fun _ => by rw [reloadResolveModuleEnabled_eq]) (fun _ => rfl) (fun _ => rfl)
    (fun h' => absurd h' (by simp [h])) (fun _ => rfl)
    (fun _ => processTrapinterfaces_field _ (fun _ => rfl) _ _ _) (fun _ => rfl)

theorem processModuleElement_path_other (h : c.nodeNamed "path" = false) :
    (processModuleElement newModule st c).1.modulePath = st.1.modulePath :=
  processModuleElement_cases (P := fun r => r.1.modulePath = _)
    (fun _ => by rw [reloadResolveModuleEnabled_eq]) (fun _ => rfl) (fun _ => rfl)
    (fun _ => rfl) (fun h' => absurd h' (by simp [h]))
    (fun _ => processTrapinterfaces_field _ (fun _ => rfl) _ _ _) (fun _ => rfl)

/-- The interfaces and `module_ifc_insert`, which only a trapinterfaces child touches. -/
theorem processModuleElement_ifces_other (h : c.nodeNamed "trapinterfaces" = false) :
    ((processModuleElement newModule st c).1.configIfces,
      (processModuleElement newModule st c).1.configIfcesCnt,
      (processModuleElement newModule st c).2) =
    (st.1.configIfces, st.1.configIfcesCnt, st.2) :=
  processModuleElement_cases (P := fun r => (r.1.configIfces, r.1.configIfcesCnt, r.2) = _)
    (fun _ => by rw [reloadResolveModuleEnabled_eq]) (fun _ => rfl) (fun _ => rfl)
    (fun _ => rfl) (fun _ => rfl) (fun h' => absurd h' (by simp [h]))
    (fun _ => rfl)

theorem processModuleElement_enabled (h : c.nodeNamed "enabled" = true) :
    processModuleElement newModule st c =
      (reloadResolveModuleEnabled newModule st.1 c.value, st.2) := by
  simp [processModuleElement, h]

theorem processModuleElement_trapinterfaces (h : c.nodeNamed "trapinterfaces" = true) :
    processModuleElement newModule st c =
      processTrapinterfaces newModule st.2 st.1 c.xmlChildrenNode := by
  have hne : ∀ tag, "trapinterfaces" ≠ tag → c.nodeNamed tag = false :=
    fun tag ht => nodeNamed_ne ht h
  simp [processModuleElement, h, hne "enabled" (by decide), hne "module-restarts" (by decide),
    hne "params" (by decide), hne "name" (by decide), hne "path" (by decide)]

theorem processModuleElement_restarts (h : c.nodeNamed "module-restarts" = true) :
    (processModuleElement newModule st c).1.moduleMaxRestartsPerMinute =
      (configRestarts c.value).getD st.1.moduleMaxRestartsPerMinute :=
  processModuleElement_cases (P := fun r => r.1.moduleMaxRestartsPerMinute = _)
    (fun h' => absurd (nodeNamed_unique h h') (by decide)) (fun _ => rfl)
    (fun h' => absurd (nodeNamed_unique h h') (by decide))
    (fun h' => absurd (nodeNamed_unique h h') (by decide))
    (fun h' => absurd (nodeNamed_unique h h') (by decide))
    (fun h' => absurd (nodeNamed_unique h h') (by decide))
    (fun hr => absurd (hr "module-restarts" (by simp)) (by simp [h]))

theorem reloadProcessModuleAtribute_key (old key : Option String) :
    (reloadProcessModuleAtribute newModule old key).1 = key := by
  cases newModule with
  | true => rfl
  | false =>
    cases old with
    | none => cases key <;> rfl
    | some o =>
      cases key with
      | none => rfl
      | some k =>
        by_cases hk : k = o
        · simp [reloadProcessModuleAtribute, hk]
        · simp [reloadProcessModuleAtribute, hk]

theorem processModuleElement_params (h : c.nodeNamed "params" = true) :
    (processModuleElement newModule st c).1.moduleParams = c.value :=
  processModuleElement_cases (P := fun r => r.1.moduleParams = _)
    (fun h' => absurd (nodeNamed_unique h h') (by decide))
    (fun h' => absurd (nodeNamed_unique h h') (by decide))
    (fun _ => reloadProcessModuleAtribute_key _ _)
    (fun h' => absurd (nodeNamed_unique h h') (by decide))
    (fun h' => absurd (nodeNamed_unique h h') (by decide))
    (fun h' => absurd (nodeNamed_unique h h') (by decide))
    (fun hr => absurd (hr "params" (by simp)) (by simp [h]))

theorem processModuleElement_name (h : c.nodeNamed "name" = true) :
    (processModuleElement newModule st c).1.moduleName =
      if newModule then c.value.or st.1.moduleName else st.1.moduleName :=
  processModuleElement_cases (P := fun r => r.1.moduleName = _)
    (fun h' => absurd (nodeNamed_unique h h') (by decide))
    (fun h' => absurd (nodeNamed_unique h h') (by decide))
    (fun h' => absurd (nodeNamed_unique h h') (by decide)) (fun _ => rfl)
    (fun h' => absurd (nodeNamed_unique h h') (by decide))
    (fun h' => absurd (nodeNamed_unique h h') (by decide))
    (fun hr => absurd (hr "name" (by simp)) (by simp [h]))

theorem processModuleElement_path (h : c.nodeNamed "path" = true) :
    (processModuleElement newModule st c).1.modulePath = c.value :=
  processModuleElement_cases (P := fun r => r.1.modulePath = _)
    (fun h' => absurd (nodeNamed_unique h h') (by decide))
    (fun h' => absurd (nodeNamed_unique h h') (by decide))
    (fun h' => absurd (nodeNamed_unique h h') (by decide))
    (fun h' => absurd (nodeNamed_unique h h') (by decide))
    (fun _ => reloadProcessModuleAtribute_key _ _)
    (fun h' => absurd (nodeNamed_unique h h') (by decide))
    (fun hr => absurd (hr "path" (by simp)) (by simp [h]))

end fields

/-! ## The fields of the slot -/

/-- The module's own limit in the document. -/
def moduleRestarts (e : XmlNode) : Option Int :=
  configRestarts (childValue "module-restarts" e.xmlChildrenNode)

/-- The enabled value of a module element. -/
def moduleElemEnabled (e : XmlNode) : Bool :=
  childValue "enabled" e.xmlChildrenNode == some "true"

/-- The children of the trapinterfaces element, if there is one. -/
def trapElem (e : XmlNode) : Option XmlNode :=
  e.xmlChildrenNode.find? (elementNamed "trapinterfaces")

theorem fold_sansConfig (newModule : Bool) (children : List XmlNode) (st : RunningModule × Bool) :
    (children.foldl (processModuleElement newModule) st).1.sansConfig = st.1.sansConfig :=
  Loop.foldl_const (π := fun st : RunningModule × Bool => st.1.sansConfig)
    (fun _ _ => processModuleElement_sansConfig) children st

section fold

variable {e : XmlNode} (hg : ModuleGrammar e) (newModule : Bool) (st : RunningModule × Bool)
include hg

theorem enabled_child : ∃ c, e.xmlChildrenNode.find? (elementNamed "enabled") = some c ∧
    configEnabled c.value = moduleElemEnabled e := by
  obtain ⟨c, -, hf, hv, hcheck⟩ := hg.allowed.child (moduleRules_distinct [])
    (r := ⟨"enabled", true, checkEnabled⟩) (by simp [moduleRules]) hg.enabled
  refine ⟨c, hf, ?_⟩
  rw [moduleElemEnabled, hv]
  rcases checkEnabled_eq_ok.mp hcheck with h | h
  · rw [h]
    decide
  · rw [h]
    decide

theorem fold_enabled :
    ((e.xmlChildrenNode.foldl (processModuleElement newModule) st).1.moduleEnabled,
      (e.xmlChildrenNode.foldl (processModuleElement newModule) st).1.moduleRestartCnt) =
    (moduleElemEnabled e,
      if moduleElemEnabled e && (newModule || !st.1.moduleEnabled) then -1
      else st.1.moduleRestartCnt) := by
  obtain ⟨c, hf, hv⟩ := enabled_child hg
  have h := foldl_allowed (f := processModuleElement newModule)
    (π := fun st => (st.1.moduleEnabled, st.1.moduleRestartCnt))
    (g := fun c p => (configEnabled c.value,
      if configEnabled c.value && (newModule || !p.1) then -1 else p.2))
    hg.allowed (r := ⟨"enabled", true, checkEnabled⟩) (by simp [moduleRules]) rfl (by decide)
    (by decide) (fun _ _ h => processModuleElement_enabled_other h)
    (fun _ _ h => by rw [processModuleElement_enabled h, reloadResolveModuleEnabled_eq]) st
  rw [h, hf]
  simp only [hv]

theorem fold_restarts :
    (e.xmlChildrenNode.foldl (processModuleElement newModule) st).1.moduleMaxRestartsPerMinute =
      (moduleRestarts e).getD st.1.moduleMaxRestartsPerMinute := by
  have h := foldl_allowed (f := processModuleElement newModule)
    (π := fun st => st.1.moduleMaxRestartsPerMinute)
    (g := fun c v => (configRestarts c.value).getD v) hg.allowed
    (r := ⟨"module-restarts", true, checkRestarts⟩) (by simp [moduleRules]) rfl (by decide)
    (by decide) (fun _ _ h => processModuleElement_restarts_other h)
    (fun _ _ h => processModuleElement_restarts h) st
  rw [h, moduleRestarts, childValue]
  cases e.xmlChildrenNode.find? (elementNamed "module-restarts") <;> rfl

theorem fold_params :
    (e.xmlChildrenNode.foldl (processModuleElement newModule) st).1.moduleParams =
      if hasChild "params" e.xmlChildrenNode then childValue "params" e.xmlChildrenNode
      else st.1.moduleParams :=
  foldl_childValue (f := processModuleElement newModule) (π := fun st => st.1.moduleParams) hg.allowed
    (r := ⟨"params", true, checkAny⟩) (by simp [moduleRules]) rfl (by decide) (by decide)
    (fun _ _ h => processModuleElement_params_other h)
    (fun _ _ h => processModuleElement_params h) st

theorem fold_path :
    (e.xmlChildrenNode.foldl (processModuleElement newModule) st).1.modulePath =
      childValue "path" e.xmlChildrenNode := by
  have h := foldl_childValue (f := processModuleElement newModule) (π := fun st => st.1.modulePath)
    hg.allowed
    (r := ⟨"path", true, checkNonEmpty "path"⟩) (by simp [moduleRules]) rfl (by decide) (by decide)
    (fun _ _ h => processModuleElement_path_other h)
    (fun _ _ h => processModuleElement_path h) st
  have hpath : hasChild "path" e.xmlChildrenNode = true := by
    obtain ⟨c, hc, hp⟩ := List.countP_pos_iff.mp hg.path
    exact List.any_eq_true.mpr ⟨c, hc, hp⟩
  rw [h]
  simp only [hpath, if_true]

theorem fold_name :
    (e.xmlChildrenNode.foldl (processModuleElement newModule) st).1.moduleName =
      if newModule then moduleName e else st.1.moduleName := by
  have h := foldl_allowed (f := processModuleElement newModule) (π := fun st => st.1.moduleName)
    (g := fun c v => if newModule then c.value.or v else v) hg.allowed
    (r := ⟨"name", true, checkUnique "module" []⟩) (by simp [moduleRules]) rfl (by decide)
    (by decide) (fun _ _ h => processModuleElement_name_other h)
    (fun _ _ h => processModuleElement_name h) st
  obtain ⟨name, hname⟩ := hg.name
  rw [h, moduleName]
  cases hf : e.xmlChildrenNode.find? (elementNamed "name") with
  | none => simp [childValue, hf] at hname
  | some c =>
    have hv : c.value = some name := by simpa [childValue, hf] using hname
    simp [childValue, hf, hv]

theorem trap_children {t : XmlNode} (ht : trapElem e = some t) :
    TrapChildren t.xmlChildrenNode :=
  hg.trapinterfaces t (List.mem_of_find?_eq_some ht) (List.find?_some ht)

theorem fold_noTrap (ht : trapElem e = none) :
    ((e.xmlChildrenNode.foldl (processModuleElement newModule) st).1.configIfces,
      (e.xmlChildrenNode.foldl (processModuleElement newModule) st).1.configIfcesCnt,
      (e.xmlChildrenNode.foldl (processModuleElement newModule) st).2) =
    (st.1.configIfces, st.1.configIfcesCnt, st.2) := by
  have hz : e.xmlChildrenNode.countP (nodeNamed "trapinterfaces") = 0 := by
    rw [countP_nodeNamed hg.allowed (by decide) (by decide), List.countP_eq_zero]
    exact List.find?_eq_none.mp ht
  exact Loop.foldl_unaffected (p := nodeNamed "trapinterfaces")
    (π := fun st : RunningModule × Bool => (st.1.configIfces, st.1.configIfcesCnt, st.2))
    (fun _ _ h => processModuleElement_ifces_other h) _ st hz

theorem fold_trap {t : XmlNode} (ht : trapElem e = some t) :
    ∃ m, m.configIfces = st.1.configIfces ∧ m.configIfcesCnt = st.1.configIfcesCnt ∧
      ((e.xmlChildrenNode.foldl (processModuleElement newModule) st).1.configIfces,
        (e.xmlChildrenNode.foldl (processModuleElement newModule) st).1.configIfcesCnt,
        (e.xmlChildrenNode.foldl (processModuleElement newModule) st).2) =
      ((processTrapinterfaces newModule st.2 m t.xmlChildrenNode).1.configIfces,
        (processTrapinterfaces newModule st.2 m t.xmlChildrenNode).1.configIfcesCnt,
        (processTrapinterfaces newModule st.2 m t.xmlChildrenNode).2) := by
  have hle : e.xmlChildrenNode.countP (nodeNamed "trapinterfaces") ≤ 1 := by
    rw [countP_nodeNamed hg.allowed (by decide) (by decide)]
    exact hg.allowed.once ⟨"trapinterfaces", true, checkAny⟩ (by simp [moduleRules]) rfl
  have hfind : e.xmlChildrenNode.find? (nodeNamed "trapinterfaces") = some t := by
    rw [find?_nodeNamed hg.allowed (by decide) (by decide)]
    exact ht
  obtain ⟨s', hs', hfold⟩ := Loop.foldl_single (f := processModuleElement newModule)
    (π := fun st : RunningModule × Bool => (st.1.configIfces, st.1.configIfcesCnt, st.2))
    (fun _ _ h => processModuleElement_ifces_other h) _ st hle hfind
  simp only [Prod.mk.injEq] at hs'
  refine ⟨s'.1, hs'.1, hs'.2.1, ?_⟩
  rw [← hs'.2.2, ← processModuleElement_trapinterfaces (List.find?_some hfind)]
  exact hfold

end fold

/-! ## What a reload counts as a change -/

theorem reloadProcessModuleAtribute_unmodified {old key : Option String}
    (h : (reloadProcessModuleAtribute false old key).2 = false) :
    (reloadProcessModuleAtribute false old key).1 = old := by
  cases old with
  | none => cases key <;> simp_all [reloadProcessModuleAtribute]
  | some o =>
    cases key with
    | none => simp [reloadProcessModuleAtribute] at h
    | some k =>
      by_cases hk : k = o
      · simp [reloadProcessModuleAtribute, hk]
      · simp [reloadProcessModuleAtribute, hk] at h

theorem interfacesLoop_modified {rewind : RunningModule → IfcLoopState}
    (hrewind : ∀ m : RunningModule, m.moduleModifiedByReload = true →
      (rewind m).1.moduleModifiedByReload = true) (ins : Bool) (children : List XmlNode)
    (m : RunningModule) (n : Nat) (h : m.moduleModifiedByReload = true) :
    (interfacesLoop rewind ins children m n).1.moduleModifiedByReload = true := by
  induction children generalizing m n with
  | nil => exact h
  | cons i children ih =>
    have halloc : (reloadCheckModuleAllocatedInterfaces m n).moduleModifiedByReload = true := by
      unfold reloadCheckModuleAllocatedInterfaces
      split_ifs <;> exact h
    unfold interfacesLoop
    by_cases hi : i.nodeNamed "interface" = true
    · rw [if_pos hi]
      simp only []
      split
      · exact ih _ _ halloc
      · exact hrewind _ rfl
    · rw [if_neg hi]
      exact ih m n h

/-- A module once marked as modified stays marked. -/
theorem processModuleElement_modified {newModule : Bool} {st : RunningModule × Bool} {c : XmlNode}
    (h : st.1.moduleModifiedByReload = true) :
    (processModuleElement newModule st c).1.moduleModifiedByReload = true := by
  refine processModuleElement_cases (P := fun r => r.1.moduleModifiedByReload = true) (fun _ => ?_)
    (fun _ => h) (fun _ => ?_) (fun _ => h) (fun _ => ?_) (fun _ => ?_) (fun _ => h)
  · rw [reloadResolveModuleEnabled_eq]
    exact h
  · simp [h]
  · simp [h]
  · have hcount : (if newModule then (st.1, st.2)
        else reloadCheckModulesInterfacesCount st.1 st.2 c.xmlChildrenNode).1.moduleModifiedByReload
          = true := by
      unfold reloadCheckModulesInterfacesCount
      split_ifs <;> first | exact h | rfl
    have hrewind : ∀ m : RunningModule, m.moduleModifiedByReload = true →
        (interfacesLoop (fun m => (m, true, 0)) true c.xmlChildrenNode.tail m 0).1.moduleModifiedByReload
          = true :=
      fun m hm => interfacesLoop_modified (fun _ h => h) true _ m 0 hm
    exact interfacesLoop_modified hrewind _ c.xmlChildrenNode _ 0 hcount

theorem fold_modified {newModule : Bool} {children : List XmlNode} {st : RunningModule × Bool}
    (h : st.1.moduleModifiedByReload = true) :
    (children.foldl (processModuleElement newModule) st).1.moduleModifiedByReload = true := by
  induction children generalizing st with
  | nil => exact h
  | cons c children ih => exact ih (processModuleElement_modified h)

/-- The fields whose change makes a restart necessary, with the flags around them. -/
def restartFields (st : RunningModule × Bool) :
    Bool × Option String × Option String × List Interface × Nat × Bool :=
  (st.1.moduleModifiedByReload, st.1.modulePath, st.1.moduleParams, st.1.configIfces,
    st.1.configIfcesCnt, st.2)

theorem processModuleElement_unmodified {st : RunningModule × Bool} {c : XmlNode}
    (htrap : c.nodeNamed "trapinterfaces" = true → TrapChildren c.xmlChildrenNode)
    (hfill : Filled st.1.configIfcesCnt st.1.configIfces) (hins : st.2 = false)
    (h : (processModuleElement false st c).1.moduleModifiedByReload = false) :
    restartFields (processModuleElement false st c) = restartFields st := by
  revert h
  refine processModuleElement_cases (P := fun r => r.1.moduleModifiedByReload = false →
    restartFields r = restartFields st) (fun _ _ => ?_) (fun _ _ => rfl) (fun _ h => ?_)
    (fun _ _ => rfl) (fun _ h => ?_) (fun ht h => ?_) (fun _ _ => rfl)
  · rw [reloadResolveModuleEnabled_eq]
    rfl
  · simp only [Bool.or_eq_false_iff] at h
    simp [restartFields, h.1, h.2, reloadProcessModuleAtribute_unmodified h.2]
  · simp only [Bool.or_eq_false_iff] at h
    simp [restartFields, h.1, h.2, reloadProcessModuleAtribute_unmodified h.2]
  · rw [hins] at h ⊢
    by_cases hcnt : st.1.configIfcesCnt = (interfaceElems c.xmlChildrenNode).length
    · cases ha : allAgree st.1.ifces (interfaceElems c.xmlChildrenNode) with
      | true =>
        rw [processTrapinterfaces_same (htrap ht) hfill hcnt ha]
        simp [restartFields, hins]
      | false =>
        obtain ⟨arr, heq, -⟩ := processTrapinterfaces_differs (htrap ht) hfill hcnt ha
        rw [heq] at h
        simp at h
    · obtain ⟨arr, heq, -⟩ := processTrapinterfaces_count (htrap ht) hfill hcnt
      rw [heq] at h
      simp at h

theorem fold_unmodified {children : List XmlNode} {st : RunningModule × Bool}
    (htrap : ∀ c ∈ children, c.nodeNamed "trapinterfaces" = true → TrapChildren c.xmlChildrenNode)
    (hfill : Filled st.1.configIfcesCnt st.1.configIfces) (hins : st.2 = false)
    (h : (children.foldl (processModuleElement false) st).1.moduleModifiedByReload = false) :
    restartFields (children.foldl (processModuleElement false) st) = restartFields st := by
  induction children generalizing st with
  | nil => rfl
  | cons c children ih =>
    have hrest := fun d hd => htrap d (List.mem_cons_of_mem c hd)
    rw [List.foldl_cons] at h ⊢
    cases hm : (processModuleElement false st c).1.moduleModifiedByReload with
    | true =>
      rw [fold_modified hm] at h
      exact absurd h (by simp)
    | false =>
      have hstep := processModuleElement_unmodified (htrap c (by simp)) hfill hins hm
      simp only [restartFields, Prod.mk.injEq] at hstep
      obtain ⟨-, -, -, harr, hcnt, hflag⟩ := hstep
      rw [ih hrest (by rw [harr, hcnt]; exact hfill) (hflag.trans hins) h]
      exact processModuleElement_unmodified (htrap c (by simp)) hfill hins hm

/-! ## Applying an element to a slot -/

/-- The interfaces a slot has after its element is applied. -/
def reloadedIfces (newModule : Bool) (old : List Interface) (e : XmlNode) : List Interface :=
  match trapElem e with
  | none => []
  | some t =>
    let elems := interfaceElems t.xmlChildrenNode
    if newModule ∨ old.length ≠ elems.length then elems.map interfaceOf
    else if allAgree old elems then old
    else (interfaceElems t.xmlChildrenNode.tail).map interfaceOf

/-- A slot a new module may take, or the slot of a loaded module. -/
def SlotFor (newModule : Bool) (m : RunningModule) : Prop :=
  if newModule then Filled 0 m.configIfces ∧ m.configIfcesCnt = 0 else IfcArray m

/-- The slot after the loop over the children, before the codes are counted. -/
structure Collected (expected : List Interface) (st : RunningModule × Bool) : Prop where
  filled : Filled st.1.configIfcesCnt st.1.configIfces
  inserted : st.2 = true → st.1.ifces.map Interface.withCodes = expected
  kept : st.2 = false → st.1.ifces = expected ∧ ∀ ifc ∈ expected, ifc.withCodes = ifc

theorem reloadCountModuleInterfaces_ifces (m : RunningModule) :
    (reloadCountModuleInterfaces m).ifces = m.ifces.map Interface.withCodes := by
  apply List.ext_getElem?
  intro y
  simp only [RunningModule.ifces, reloadCountModuleInterfaces, List.getElem?_take,
    List.getElem?_mapIdx, List.getElem?_map]
  by_cases hy : y < m.configIfcesCnt
  · simp [hy]
  · simp [hy]

/-- The codes are among the fields of the interfaces. -/
theorem finishModuleElement_field {α : Type} {i : Nat} {st : RunningModule × Bool}
    (π : RunningModule → α) (hs : ∀ m : RunningModule, π m.sansIfces = π m)
    (hp : ∀ (m : RunningModule) (i : Nat), π { m with modulesProfile := some i } = π m) :
    π (finishModuleElement (some i) st) = π st.1 := by
  refine (hp _ i).trans ?_
  rw [← hs]
  cases st.2 <;> exact hs st.1

theorem finishModuleElement_modified (i : Nat) (st : RunningModule × Bool) :
    (finishModuleElement (some i) st).moduleModifiedByReload = st.1.moduleModifiedByReload := by
  unfold finishModuleElement
  cases st.2 <;> rfl

theorem finishModuleElement_sansConfig (i : Nat) (st : RunningModule × Bool) :
    (finishModuleElement (some i) st).sansConfig =
      { st.1.sansConfig with modulesProfile := some i } := by
  unfold finishModuleElement
  cases st.2 <;> rfl

theorem Collected.ifcArray {expected : List Interface} {st : RunningModule × Bool}
    (h : Collected expected st) (i : Nat) :
    (finishModuleElement (some i) st).ifces = expected ∧
      IfcArray (finishModuleElement (some i) st) := by
  obtain ⟨m, ins⟩ := st
  cases ins with
  | true =>
    have hifces : (finishModuleElement (some i) (m, true)).ifces = m.ifces.map Interface.withCodes :=
      reloadCountModuleInterfaces_ifces m
    refine ⟨hifces.trans (h.inserted rfl), ⟨?_, ?_⟩, ?_⟩
    · have := h.filled.room
      simpa [finishModuleElement, reloadCountModuleInterfaces] using this
    · intro y ifc hy hget
      simp only [finishModuleElement, reloadCountModuleInterfaces, if_true] at hy hget
      rw [List.getElem?_mapIdx, Option.map_eq_some_iff] at hget
      obtain ⟨old, hold, rfl⟩ := hget
      rw [if_neg (by omega)]
      exact h.filled.blank y old hy hold
    · intro ifc hifc
      rw [hifces, List.mem_map] at hifc
      obtain ⟨old, -, rfl⟩ := hifc
      rfl
  | false =>
    obtain ⟨heq, hcodes⟩ := h.kept rfl
    exact ⟨heq, h.filled, fun ifc hifc => hcodes ifc (heq ▸ hifc)⟩

theorem Collected.congr {expected : List Interface} {st st' : RunningModule × Bool}
    (harr : st'.1.configIfces = st.1.configIfces) (hcnt : st'.1.configIfcesCnt = st.1.configIfcesCnt)
    (hins : st'.2 = st.2) (h : Collected expected st) : Collected expected st' := by
  have hifces : st'.1.ifces = st.1.ifces := by simp [RunningModule.ifces, harr, hcnt]
  refine ⟨?_, ?_, ?_⟩
  · rw [harr, hcnt]
    exact h.filled
  · rw [hifces, hins]
    exact h.inserted
  · rw [hifces, hins]
    exact h.kept

/-- A freshly inserted list of interfaces. -/
theorem collected_insert {m : RunningModule} {arr : List Interface} {elems : List XmlNode}
    (hfill : Filled elems.length arr)
    (hmap : (arr.take elems.length).map Interface.withCodes = elems.map interfaceOf)
    (harr : m.configIfces = arr) (hcnt : m.configIfcesCnt = elems.length) :
    Collected (elems.map interfaceOf) (m, true) := by
  refine ⟨?_, fun _ => ?_, fun h => absurd h (by simp)⟩
  · rw [harr, hcnt]
    exact hfill
  · simpa only [RunningModule.ifces, harr, hcnt] using hmap

theorem removeMissingInterfaces_trap {e : XmlNode} (hg : ModuleGrammar e) {t : XmlNode}
    (ht : trapElem e = some t) (newModule : Bool) (m : RunningModule) :
    removeMissingInterfaces newModule (e.xmlChildrenNode.countP (nodeNamed "trapinterfaces")) m =
      (m, newModule) := by
  have hpos : 0 < e.xmlChildrenNode.countP (nodeNamed "trapinterfaces") := by
    rw [countP_nodeNamed hg.allowed (by decide) (by decide), List.countP_pos_iff]
    exact ⟨t, List.mem_of_find?_eq_some ht, List.find?_some ht⟩
  unfold removeMissingInterfaces
  rw [if_neg (by omega)]

/-- Without a trapinterfaces element no interface is left. -/
theorem fold_collected_none {e : XmlNode} (hg : ModuleGrammar e) {newModule : Bool}
    {m : RunningModule} (h : SlotFor newModule m) (ht : trapElem e = none) :
    Collected [] (e.xmlChildrenNode.foldl (processModuleElement newModule)
      (removeMissingInterfaces newModule (e.xmlChildrenNode.countP (nodeNamed "trapinterfaces")) m)) := by
  have hz : e.xmlChildrenNode.countP (nodeNamed "trapinterfaces") = 0 := by
    rw [countP_nodeNamed hg.allowed (by decide) (by decide), List.countP_eq_zero]
    exact List.find?_eq_none.mp ht
  have hfold := fold_noTrap hg newModule
    (removeMissingInterfaces newModule (e.xmlChildrenNode.countP (nodeNamed "trapinterfaces")) m) ht
  simp only [Prod.mk.injEq] at hfold
  refine Collected.congr hfold.1 hfold.2.1 hfold.2.2 ?_
  have hempty : ∀ (st : RunningModule × Bool), st.1.configIfcesCnt = 0 →
      Filled 0 st.1.configIfces → Collected [] st := by
    intro st hcnt hfill
    have hnil : st.1.ifces = [] := by simp [RunningModule.ifces, hcnt]
    exact ⟨by rw [hcnt]; exact hfill, fun _ => by simp [hnil], fun _ => ⟨hnil, by simp⟩⟩
  cases newModule with
  | true =>
    obtain ⟨hfill, hcnt⟩ : Filled 0 m.configIfces ∧ m.configIfcesCnt = 0 := by
      simpa [SlotFor] using h
    simp only [removeMissingInterfaces, Bool.true_eq_false, false_and, if_false]
    exact hempty _ hcnt hfill
  | false =>
    have harr : IfcArray m := by simpa [SlotFor] using h
    by_cases hcnt : m.configIfcesCnt > 0
    · obtain ⟨arr, hfree, hfill⟩ := freeModuleInterfacesOnIndex_filled
        (m := { m with moduleModifiedByReload := true }) harr.filled
      rw [hz, removeMissingInterfaces, if_pos ⟨rfl, rfl, hcnt⟩, hfree]
      exact hempty _ rfl hfill
    · have hcnt0 : m.configIfcesCnt = 0 := by omega
      simp only [removeMissingInterfaces, hcnt, and_false, if_false]
      exact hempty _ hcnt0 (hcnt0 ▸ harr.filled)

/-- The interfaces after the loop over the children of the element. -/
theorem fold_collected {e : XmlNode} (hg : ModuleGrammar e) {newModule : Bool} {m : RunningModule}
    (h : SlotFor newModule m) :
    Collected (reloadedIfces newModule m.ifces e)
      (e.xmlChildrenNode.foldl (processModuleElement newModule)
        (removeMissingInterfaces newModule (e.xmlChildrenNode.countP (nodeNamed "trapinterfaces")) m)) := by
  cases ht : trapElem e with
  | none =>
    simp only [reloadedIfces, ht]
    exact fold_collected_none hg h ht
  | some t =>
    rw [removeMissingInterfaces_trap hg ht]
    have htc := trap_children hg ht
    obtain ⟨m', harr', hcnt', hfold⟩ := fold_trap hg newModule (m, newModule) ht
    simp only [Prod.mk.injEq] at hfold
    refine Collected.congr hfold.1 hfold.2.1 hfold.2.2 ?_
    simp only at harr' hcnt'
    have hifces : m'.ifces = m.ifces := by simp [RunningModule.ifces, harr', hcnt']
    simp only [reloadedIfces, ht]
    cases newModule with
    | true =>
      obtain ⟨hfill, -⟩ : Filled 0 m.configIfces ∧ m.configIfcesCnt = 0 := by
        simpa [SlotFor] using h
      obtain ⟨arr, heq, hfill', hmap⟩ := processTrapinterfaces_new htc (harr' ▸ hfill)
      rw [heq, if_pos (.inl rfl)]
      exact collected_insert hfill' hmap rfl rfl
    | false =>
      have hia : IfcArray m := by simpa [SlotFor] using h
      have hfill : Filled m'.configIfcesCnt m'.configIfces := by
        rw [harr', hcnt']
        exact hia.filled
      have hlen : m.ifces.length = m'.configIfcesCnt := by
        rw [hia.filled.length_ifces, hcnt']
      by_cases hcnt : m'.configIfcesCnt = (interfaceElems t.xmlChildrenNode).length
      · rw [if_neg (by rw [hlen]; simp [hcnt])]
        cases hagree : allAgree m.ifces (interfaceElems t.xmlChildrenNode) with
        | true =>
          rw [processTrapinterfaces_same htc hfill hcnt (hifces ▸ hagree)]
          exact ⟨hfill, fun h => absurd h (by simp), fun _ => ⟨hifces, hia.codes⟩⟩
        | false =>
          obtain ⟨arr, heq, hfill', hmap⟩ :=
            processTrapinterfaces_differs htc hfill hcnt (hifces ▸ hagree)
          rw [heq]
          exact collected_insert hfill' hmap rfl rfl
      · rw [if_pos (.inr (by rw [hlen]; exact hcnt))]
        obtain ⟨arr, heq, hfill', hmap⟩ := processTrapinterfaces_count htc hfill hcnt
        rw [heq]
        exact collected_insert hfill' hmap rfl rfl

/-- The PID of a slot whose element is applied: the initial load takes it from
the document. -/
def appliedPid (choice : ReloadChoice) (e : XmlNode) (m : RunningModule) : Int :=
  if choice = .initLoadConfig then ((xmlGetProp "module_pid" e).map atoi).getD m.modulePid
  else m.modulePid

/-- The state of the loop over the children before the first child. -/
def startState (choice : ReloadChoice) (newModule : Bool) (e : XmlNode) (m : RunningModule) :
    RunningModule × Bool :=
  removeMissingInterfaces newModule (e.xmlChildrenNode.countP (nodeNamed "trapinterfaces"))
    { m with moduleCheckedByReload := true, modulePid := appliedPid choice e m }

theorem applyModuleElement_eq (choice : ReloadChoice) (i : Nat) (newModule : Bool) (e : XmlNode)
    (m : RunningModule) :
    applyModuleElement choice (some i) newModule
        (e.xmlChildrenNode.countP (nodeNamed "trapinterfaces")) e m =
      finishModuleElement (some i) (e.xmlChildrenNode.foldl (processModuleElement newModule)
        (startState choice newModule e m)) := by
  unfold applyModuleElement startState removeMissingInterfaces appliedPid
  by_cases hc : choice = .initLoadConfig
  · simp only [hc, if_true]
    cases xmlGetProp "module_pid" e <;> split_ifs <;> rfl
  · simp only [hc, if_false]
    split_ifs <;> rfl

theorem startState_field {α : Type} (π : RunningModule → α)
    (hπ : ∀ (m : RunningModule) (p : Int),
      π { m with moduleCheckedByReload := true, modulePid := p } = π m)
    (hs : ∀ m : RunningModule, π m.sansIfces = π m) (choice : ReloadChoice) (newModule : Bool)
    (e : XmlNode) (m : RunningModule) : π (startState choice newModule e m).1 = π m := by
  have hm : (startState choice newModule e m).1.sansIfces =
      RunningModule.sansIfces
        { m with moduleCheckedByReload := true, modulePid := appliedPid choice e m } := by
    unfold startState removeMissingInterfaces
    split_ifs <;> rfl
  rw [← hs, hm, hs, hπ]

theorem startState_sansConfig (choice : ReloadChoice) (newModule : Bool) (e : XmlNode)
    (m : RunningModule) :
    (startState choice newModule e m).1.sansConfig =
      { m.sansConfig with
        moduleCheckedByReload := true, modulePid := appliedPid choice e m } := by
  unfold startState removeMissingInterfaces
  split_ifs <;> rfl

/-- Interfaces removed before the first child mark the module as modified. -/
theorem startState_unmodified {choice : ReloadChoice} {e : XmlNode} {m : RunningModule}
    (h : (e.xmlChildrenNode.foldl (processModuleElement false)
      (startState choice false e m)).1.moduleModifiedByReload = false) :
    startState choice false e m =
      ({ m with moduleCheckedByReload := true, modulePid := appliedPid choice e m }, false) := by
  unfold startState removeMissingInterfaces at h ⊢
  split_ifs at h ⊢ with hc
  · rw [fold_modified rfl] at h
    exact absurd h (by simp)
  · rfl

/-- An element that leaves a loaded module unmarked leaves its command line. -/
theorem finishModuleElement_unmodified {e : XmlNode} (hg : ModuleGrammar e) {choice : ReloadChoice}
    {i : Nat} {m : RunningModule} (h : IfcArray m)
    (hmod : (finishModuleElement (some i) (e.xmlChildrenNode.foldl (processModuleElement false)
      (startState choice false e m))).moduleModifiedByReload = false) :
    m.moduleModifiedByReload = false ∧
      (finishModuleElement (some i) (e.xmlChildrenNode.foldl (processModuleElement false)
        (startState choice false e m))).launch = m.launch := by
  rw [finishModuleElement_modified] at hmod
  have hstart := startState_unmodified hmod
  rw [hstart] at hmod ⊢
  have htrap : ∀ c ∈ e.xmlChildrenNode, c.nodeNamed "trapinterfaces" = true →
      TrapChildren c.xmlChildrenNode := by
    intro c hc hn
    rw [nodeNamed_eq_elementNamed hg.allowed (by decide) (by decide) hc] at hn
    exact hg.trapinterfaces c hc hn
  have hkept := fold_unmodified htrap h.filled rfl hmod
  simp only [restartFields, Prod.mk.injEq] at hkept
  obtain ⟨hm, hpath, hparams, harr, hcnt, hins⟩ := hkept
  refine ⟨hm.symm.trans hmod, ?_⟩
  simp only [finishModuleElement, hins, Bool.false_eq_true, if_false, RunningModule.launch,
    RunningModule.ifces, hpath, hparams, harr, hcnt]

/-- What applying an accepted element does to its slot. -/
structure Applied (choice : ReloadChoice) (i : Nat) (newModule : Bool) (e : XmlNode)
    (m m' : RunningModule) : Prop where
  enabled : m'.moduleEnabled = moduleElemEnabled e
  restartCnt : m'.moduleRestartCnt =
    if moduleElemEnabled e && (newModule || !m.moduleEnabled) then -1 else m.moduleRestartCnt
  limit : m'.moduleMaxRestartsPerMinute =
    (moduleRestarts e).getD m.moduleMaxRestartsPerMinute
  params : m'.moduleParams =
    if hasChild "params" e.xmlChildrenNode then childValue "params" e.xmlChildrenNode
    else m.moduleParams
  path : m'.modulePath = childValue "path" e.xmlChildrenNode
  name : m'.moduleName = if newModule then moduleName e else m.moduleName
  ifces : m'.ifces = reloadedIfces newModule m.ifces e
  ifcArray : IfcArray m'
  unmodified : newModule = false → m'.moduleModifiedByReload = false →
    m.moduleModifiedByReload = false ∧ m'.launch = m.launch
  frame : m'.sansConfig =
    { m.sansConfig with
      moduleCheckedByReload := true
      modulePid := appliedPid choice e m
      modulesProfile := some i }

theorem applyModuleElement_applied {e : XmlNode} (hg : ModuleGrammar e) (choice : ReloadChoice)
    (i : Nat) {newModule : Bool} {m : RunningModule} (h : SlotFor newModule m) :
    Applied choice i newModule e m
      (applyModuleElement choice (some i) newModule
        (e.xmlChildrenNode.countP (nodeNamed "trapinterfaces")) e m) := by
  rw [applyModuleElement_eq]
  have henabled := fold_enabled hg newModule (startState choice newModule e m)
  have hold := startState_field (fun m => (m.moduleEnabled, m.moduleRestartCnt))
    (fun _ _ => rfl) (fun _ => rfl) choice newModule e m
  simp only [Prod.mk.injEq] at henabled hold
  have hcollected : Collected (reloadedIfces newModule m.ifces e)
      (e.xmlChildrenNode.foldl (processModuleElement newModule)
        (startState choice newModule e m)) := by
    have hslot : SlotFor newModule
        { m with moduleCheckedByReload := true, modulePid := appliedPid choice e m } := by
      cases newModule with
      | true => exact h
      | false => exact ⟨h.filled, h.codes⟩
    exact fold_collected hg hslot
  obtain ⟨hifces, hfill, hcodes⟩ := hcollected.ifcArray i
  constructor
  · exact (finishModuleElement_field RunningModule.moduleEnabled (fun _ => rfl) (fun _ _ => rfl)).trans
      henabled.1
  · refine (finishModuleElement_field RunningModule.moduleRestartCnt (fun _ => rfl)
      (fun _ _ => rfl)).trans ?_
    rw [henabled.2, hold.1, hold.2]
  · refine (finishModuleElement_field RunningModule.moduleMaxRestartsPerMinute (fun _ => rfl)
      (fun _ _ => rfl)).trans ?_
    rw [fold_restarts hg]
    exact congrArg _ (startState_field _ (fun _ _ => rfl) (fun _ => rfl) choice newModule e m)
  · refine (finishModuleElement_field RunningModule.moduleParams (fun _ => rfl)
      (fun _ _ => rfl)).trans ?_
    rw [fold_params hg,
      startState_field RunningModule.moduleParams (fun _ _ => rfl) (fun _ => rfl)]
  · exact (finishModuleElement_field RunningModule.modulePath (fun _ => rfl)
      (fun _ _ => rfl)).trans
      (fold_path hg newModule _)
  · refine (finishModuleElement_field RunningModule.moduleName (fun _ => rfl)
      (fun _ _ => rfl)).trans ?_
    rw [fold_name hg, startState_field RunningModule.moduleName (fun _ _ => rfl) (fun _ => rfl)]
  · exact hifces
  · exact ⟨hfill, hcodes⟩
  · intro hnew hmod
    subst hnew
    exact finishModuleElement_unmodified hg h hmod
  · rw [finishModuleElement_sansConfig, fold_sansConfig, startState_sansConfig]

end NemeaSupervisor
