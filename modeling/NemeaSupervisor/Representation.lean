import NemeaSupervisor.ApplyTrace

/-!
# The representation of the module table

The table is an array that grows at its end, shrinks by shifting and holds an
interface array in every slot. Between critical sections the slots in use and
the spare ones keep one shape, and while a reload inserts modules and
interfaces it stays inside both kinds of array, whatever the document says.
-/

namespace NemeaSupervisor

open CText XmlNode

/-! ## The indices of a reload -/

/-- An index that an insertion uses, and the size of the array at that moment. -/
structure Access where
  idx : Nat
  size : Nat

def Access.InRange (a : Access) : Prop := a.idx < a.size

/-- The interface slots that `interfacesLoop` uses. -/
def interfacesLoopAccesses (rewind : RunningModule → List Access) (moduleIfcInsert : Bool) :
    List XmlNode → RunningModule → Nat → List Access
  | [], _, _ => []
  | ifcElem :: next, m, ifcCnt =>
    if ifcElem.nodeNamed "interface" then
      let m := reloadCheckModuleAllocatedInterfaces m ifcCnt
      let ifc := m.configIfces.getD ifcCnt Interface.zero
      ⟨ifcCnt, m.configIfces.length⟩ ::
        match processInterfaceAtributes moduleIfcInsert ifc ifcElem.xmlChildrenNode with
        | some ifc =>
          interfacesLoopAccesses rewind moduleIfcInsert next
            { m with configIfces := m.configIfces.set ifcCnt ifc } (ifcCnt + 1)
        | none => rewind (freeModuleInterfacesOnIndex { m with moduleModifiedByReload := true })
    else interfacesLoopAccesses rewind moduleIfcInsert next m ifcCnt

/-- The interface slots that `processTrapinterfaces` uses. -/
def trapinterfacesAccesses (newModule moduleIfcInsert : Bool) (m : RunningModule)
    (children : List XmlNode) : List Access :=
  let (m, moduleIfcInsert) :=
    if newModule then (m, moduleIfcInsert)
    else reloadCheckModulesInterfacesCount m moduleIfcInsert children
  let rewind := fun m => interfacesLoopAccesses (fun _ => []) true children.tail m 0
  interfacesLoopAccesses rewind moduleIfcInsert children m 0

/-- The interface slots that one child of a module element uses. -/
def moduleElementAccesses (newModule : Bool) (st : RunningModule × Bool)
    (moduleAtrElem : XmlNode) : List Access :=
  if moduleAtrElem.nodeNamed "trapinterfaces" then
    trapinterfacesAccesses newModule st.2 st.1 moduleAtrElem.xmlChildrenNode
  else []

/-- The interface slots that `applyModuleElement` uses. -/
def applyModuleAccesses (choice : ReloadChoice) (newModule : Bool) (trapifcElems : Int)
    (moduleElem : XmlNode) (m : RunningModule) : List Access :=
  let (m, moduleIfcInsert) := removeMissingInterfaces newModule trapifcElems m
  let m := { m with moduleCheckedByReload := true }
  let m :=
    if choice = .initLoadConfig then
      match xmlGetProp "module_pid" moduleElem with
      | some key => { m with modulePid := atoi key }
      | none => m
    else m
  Loop.trace (processModuleElement newModule) (moduleElementAccesses newModule)
    (m, moduleIfcInsert) moduleElem.xmlChildrenNode

/-- The module slot that `applyAt` uses after a search, and the interface slots in it. -/
def searchAccesses (choice : ReloadChoice) (d : ModuleSearch) : List Access :=
  match d with
  | (_, none) => []
  | (s, some (_, elem, x, newModule, trapifcElems)) =>
    ⟨x, s.runningModulesArraySize⟩ ::
      match (s.loaded ++ s.spare)[x]? with
      | some m => applyModuleAccesses choice newModule trapifcElems elem m
      | none => []

def eventAccesses (choice : ReloadChoice) : ApplyEvent → List Access
  | .profile _ => []
  | .module d => searchAccesses choice d

/-- The indices that the apply phase inserts modules and interfaces at. -/
def reloadAccesses (choice : ReloadChoice) (s : Supervisor) (nodes : List XmlNode) :
    List Access :=
  (applyEvents choice s nodes).flatMap (eventAccesses choice)

/-! ## Interface arrays that can grow -/

/-- An interface array that is not allocated, or long enough to grow by half. -/
def Growable (m : RunningModule) : Prop :=
  m.configIfces.length = 0 ∨ 2 ≤ m.configIfces.length

theorem Growable.congr {m m' : RunningModule} (h : Growable m)
    (hlen : m'.configIfces.length = m.configIfces.length) : Growable m' := by
  unfold Growable
  rw [hlen]
  exact h

theorem Filled.growable {m : RunningModule} {n : Nat} (h : Filled n m.configIfces) :
    Growable m := by
  have := h.room
  unfold Growable
  omega

/-- The allocation check makes room for the next interface. -/
theorem Growable.allocated {m : RunningModule} (h : Growable m) {n : Nat}
    (hn : n ≤ m.configIfces.length) :
    n < (reloadCheckModuleAllocatedInterfaces m n).configIfces.length ∧
      2 ≤ (reloadCheckModuleAllocatedInterfaces m n).configIfces.length := by
  unfold Growable at h
  unfold reloadCheckModuleAllocatedInterfaces
  split_ifs with h0 hfull
  · simp only [List.length_replicate, ifcesArrayStartSize]
    omega
  · simp only [List.length_append, List.length_replicate]
    omega
  · omega

theorem Growable.freed {m : RunningModule} (h : Growable m) :
    Growable (freeModuleInterfacesOnIndex m) :=
  h.congr (by simp [freeModuleInterfacesOnIndex])

/-- The loop over interfaces keeps the array growable and stays inside it. -/
theorem Growable.interfacesLoop {rewind : RunningModule → IfcLoopState}
    {rewindAccesses : RunningModule → List Access}
    (hrewind : ∀ m, Growable m → Growable (rewind m).1 ∧ ∀ a ∈ rewindAccesses m, a.InRange)
    (ins : Bool) (children : List XmlNode) {m : RunningModule} (h : Growable m) {n : Nat}
    (hn : n ≤ m.configIfces.length) :
    Growable (interfacesLoop rewind ins children m n).1 ∧
      ∀ a ∈ interfacesLoopAccesses rewindAccesses ins children m n, a.InRange := by
  induction children generalizing m n with
  | nil => exact ⟨h, by simp [interfacesLoopAccesses]⟩
  | cons i next ih =>
    rw [NemeaSupervisor.interfacesLoop, interfacesLoopAccesses]
    by_cases hi : i.nodeNamed "interface" = true
    · obtain ⟨hlt, htwo⟩ := h.allocated hn
      simp only [hi, if_true, List.forall_mem_cons]
      generalize reloadCheckModuleAllocatedInterfaces m n = m1 at hlt htwo
      cases processInterfaceAtributes ins (m1.configIfces.getD n Interface.zero)
          i.xmlChildrenNode with
      | none =>
        have hfreed : Growable
            (freeModuleInterfacesOnIndex { m1 with moduleModifiedByReload := true }) :=
          Growable.freed (.inr htwo)
        exact ⟨(hrewind _ hfreed).1, hlt, (hrewind _ hfreed).2⟩
      | some ifc =>
        have hset : Growable { m1 with configIfces := m1.configIfces.set n ifc } :=
          Growable.congr (m := m1) (.inr htwo) (by simp)
        obtain ⟨hlast, hall⟩ := ih hset (n := n + 1) (by rw [List.length_set]; exact hlt)
        exact ⟨hlast, hlt, hall⟩
    · simp only [hi, Bool.false_eq_true, if_false]
      exact ih h hn

theorem Growable.trapinterfaces {m : RunningModule} (h : Growable m) (newModule ins : Bool)
    (children : List XmlNode) :
    Growable (processTrapinterfaces newModule ins m children).1 ∧
      ∀ a ∈ trapinterfacesAccesses newModule ins m children, a.InRange := by
  have hcount : ∀ r, r = (if newModule then (m, ins)
      else reloadCheckModulesInterfacesCount m ins children) → Growable r.1 := by
    rintro r rfl
    unfold reloadCheckModulesInterfacesCount
    split_ifs
    · exact h
    · exact h.congr (by simp [freeModuleInterfacesOnIndex])
    · exact h
  have hrewind : ∀ m, Growable m →
      Growable (NemeaSupervisor.interfacesLoop (fun m => (m, true, 0)) true children.tail m 0).1 ∧
        ∀ a ∈ interfacesLoopAccesses (fun _ => []) true children.tail m 0, a.InRange :=
    fun m hm => hm.interfacesLoop (fun m hm => ⟨hm, by simp⟩) true children.tail (Nat.zero_le _)
  unfold processTrapinterfaces trapinterfacesAccesses
  generalize hr : (if newModule then (m, ins)
      else reloadCheckModulesInterfacesCount m ins children) = r
  exact (hcount r hr.symm).interfacesLoop hrewind r.2 children (Nat.zero_le _)

theorem Growable.child {st : RunningModule × Bool} (h : Growable st.1) (newModule : Bool)
    (c : XmlNode) :
    Growable (processModuleElement newModule st c).1 ∧
      ∀ a ∈ moduleElementAccesses newModule st c, a.InRange := by
  unfold moduleElementAccesses
  by_cases hc : c.nodeNamed "trapinterfaces" = true
  · rw [if_pos hc, processModuleElement_trapinterfaces hc]
    exact h.trapinterfaces newModule st.2 c.xmlChildrenNode
  · rw [if_neg hc]
    have hother := @processModuleElement_ifces_other newModule st c (by simpa using hc)
    simp only [Prod.mk.injEq] at hother
    exact ⟨h.congr (by rw [hother.1]), by simp⟩

/-- Applying an element to a slot. -/
theorem Growable.applied {m : RunningModule} (h : Growable m) (choice : ReloadChoice)
    (i : Option Nat) (newModule : Bool) (n : Int) (e : XmlNode) :
    Growable (applyModuleElement choice i newModule n e m) ∧
      ∀ a ∈ applyModuleAccesses choice newModule n e m, a.InRange := by
  have hremoved : Growable (removeMissingInterfaces newModule n m).1 := by
    unfold removeMissingInterfaces
    split_ifs
    · exact h.congr (by simp [freeModuleInterfacesOnIndex])
    · exact h
  have hfold : ∀ st : RunningModule × Bool, Growable st.1 →
      Growable (finishModuleElement i
        (e.xmlChildrenNode.foldl (processModuleElement newModule) st)) ∧
      ∀ a ∈ Loop.trace (processModuleElement newModule) (moduleElementAccesses newModule) st
        e.xmlChildrenNode, a.InRange := by
    intro st hst
    have hlast : Growable (e.xmlChildrenNode.foldl (processModuleElement newModule) st).1 :=
      Run.run_invariant (I := fun st : RunningModule × Bool => Growable st.1)
        (fun st (c : XmlNode) (hst : Growable st.1) => (hst.child newModule c).1) hst
        e.xmlChildrenNode
    refine ⟨hlast.congr ?_, Loop.trace_forall (I := fun st => Growable st.1)
      (fun st c hst => (hst.child newModule c).1) (fun st c hst => (hst.child newModule c).2)
      hst e.xmlChildrenNode⟩
    unfold finishModuleElement reloadCountModuleInterfaces
    cases i <;> split_ifs <;> simp
  unfold applyModuleElement applyModuleAccesses
  refine hfold _ (hremoved.congr ?_)
  split_ifs
  · cases xmlGetProp "module_pid" e <;> rfl
  · rfl

/-! ## The table during the apply phase -/

/-- A table that can grow, with interface arrays that can grow. -/
structure GrowableTable (s : Supervisor) : Prop where
  loaded : ∀ m ∈ s.loaded, Growable m
  spare : ∀ k, Growable (slotAt s k)
  size : 2 ≤ s.runningModulesArraySize

theorem GrowableTable.allocated {s : Supervisor} (h : GrowableTable s) :
    GrowableTable (checkRunningModulesAllocatedMemory s) ∧
      (checkRunningModulesAllocatedMemory s).spare ≠ [] := by
  obtain ⟨spare, heq, hne, hgrow, hslots⟩ := checkRunningModulesAllocatedMemory_slots h.size
  rw [heq]
  refine ⟨⟨h.loaded, fun k => ?_, ?_⟩, hne⟩
  · rw [slotAt, hslots k]
    exact h.spare k
  · have := h.size
    simp only [Supervisor.runningModulesArraySize] at this ⊢
    omega

theorem mem_spare_growable {s : Supervisor} (h : GrowableTable s) {m : RunningModule}
    (hm : m ∈ s.spare) : Growable m := by
  obtain ⟨k, hk⟩ := List.mem_iff_getElem?.mp hm
  have := h.spare k
  rwa [slotAt, List.getD_eq_getElem?_getD, hk] at this

theorem GrowableTable.applyAt {s : Supervisor} (h : GrowableTable s) (choice : ReloadChoice)
    (i : Option Nat) (e : XmlNode) (x : Nat) (newModule : Bool) (n : Int) :
    GrowableTable (applyAt choice i s e x newModule n) := by
  unfold NemeaSupervisor.applyAt
  by_cases hx : x = s.loaded.length
  · simp only [hx, if_true]
    cases hspare : s.spare with
    | nil => exact h
    | cons m rest =>
      refine ⟨fun m' hm' => ?_, fun k => ?_, ?_⟩
      · rcases List.mem_append.mp hm' with hm' | hm'
        · exact h.loaded m' hm'
        · rw [List.mem_singleton.mp hm']
          exact ((mem_spare_growable h (by simp [hspare])).applied choice i newModule n e).1
      · have := h.spare (k + 1)
        rwa [slotAt, hspare] at this
      · have := h.size
        simp only [Supervisor.runningModulesArraySize, hspare, List.length_cons,
          List.length_append, List.length_nil] at this ⊢
        omega
  · simp only [hx, if_false]
    cases hm : s.loaded[x]? with
    | none => exact h
    | some m =>
      refine ⟨fun m' hm' => ?_, h.spare, ?_⟩
      · rcases List.mem_or_eq_of_mem_set hm' with hm' | rfl
        · exact h.loaded m' hm'
        · exact ((h.loaded m (List.mem_of_getElem? hm)).applied choice i newModule n e).1
      · have := h.size
        simpa [Supervisor.runningModulesArraySize, Supervisor.setModule] using this

/-! ## The index of a search -/

theorem scanBasicElement_idx {s : Supervisor} {b : BasicScan} {c : XmlNode}
    (h : ∀ t, b.found = some t → t.1 ≤ s.loadedModulesCnt) :
    ∀ t, (scanBasicElement s b c).1.found = some t → t.1 ≤ s.loadedModulesCnt := by
  unfold scanBasicElement
  split_ifs
  · cases c.value with
    | none => exact h
    | some key =>
      simp only []
      split_ifs
      · cases hx : findLoadedModule s key with
        | none =>
          rintro t ht
          cases ht
          exact Nat.le_refl _
        | some x =>
          rintro t ht
          cases ht
          rw [findLoadedModule, List.findIdx?_eq_some_iff_getElem] at hx
          obtain ⟨hlt, -⟩ := hx
          exact Nat.le_of_lt hlt
      · exact h
  · cases c.value <;> exact h
  · exact h
  · exact h

theorem scanBasicElements_idx {s : Supervisor} {children : List XmlNode} {b b' : BasicScan}
    (h : ∀ t, b.found = some t → t.1 ≤ s.loadedModulesCnt)
    (hscan : scanBasicElements s children b = some b') :
    ∀ t, b'.found = some t → t.1 ≤ s.loadedModulesCnt := by
  induction children generalizing b with
  | nil =>
    cases hscan
    exact h
  | cons c children ih =>
    rw [scanBasicElements] at hscan
    simp only [] at hscan
    split_ifs at hscan
    exact ih (scanBasicElement_idx h) hscan

/-- A search leads to a loaded slot or to the one after them. -/
theorem reloadFindAndCheckModuleBasicElements_idx {s : Supervisor} {nodes : List XmlNode}
    {k skip x : Nat} {e : XmlNode} {newModule : Bool} {n : Int}
    (h : reloadFindAndCheckModuleBasicElements s nodes k = some (skip, e, x, newModule, n)) :
    x ≤ s.loadedModulesCnt := by
  fun_induction reloadFindAndCheckModuleBasicElements s nodes k with
  | case1 => cases h
  | case2 => cases h
  | case3 e _ _ b hscan _ =>
    obtain ⟨⟨y, new⟩, hfound, heq⟩ := Option.map_eq_some_iff.mp h
    cases heq
    exact scanBasicElements_idx (by simp [BasicScan.empty]) hscan _ hfound
  | case4 _ _ _ _ _ ih => exact ih h
  | case5 => cases h

theorem searchAccesses_inRange {s : Supervisor} (h : GrowableTable s) (hspare : s.spare ≠ [])
    (choice : ReloadChoice) (nodes : List XmlNode) (k : Nat) :
    ∀ a ∈ searchAccesses choice (s, reloadFindAndCheckModuleBasicElements s nodes k),
      a.InRange := by
  cases hfound : reloadFindAndCheckModuleBasicElements s nodes k with
  | none => simp [searchAccesses]
  | some found =>
    obtain ⟨skip, e, x, newModule, n⟩ := found
    have hle := reloadFindAndCheckModuleBasicElements_idx hfound
    have hpos := List.length_pos_iff.mpr hspare
    rw [searchAccesses, List.forall_mem_cons]
    constructor
    · simp only [Access.InRange, Supervisor.runningModulesArraySize]
      rw [Supervisor.loadedModulesCnt] at hle
      omega
    · cases hm : (s.loaded ++ s.spare)[x]? with
      | none => simp
      | some m =>
        have hgrow : Growable m := by
          rcases List.mem_append.mp (List.mem_of_getElem? hm) with hm | hm
          · exact h.loaded m hm
          · exact mem_spare_growable h hm
        exact (hgrow.applied choice none newModule n e).2

/-- The loop over the children of a modules element. -/
theorem GrowableTable.loop (choice : ReloadChoice) (i : Option Nat) (children : List XmlNode)
    (skip : Nat) {s : Supervisor} (h : GrowableTable s) :
    GrowableTable (moduleElemLoop choice i children skip s) ∧
      ∀ d ∈ moduleSearches choice i children skip s, ∀ a ∈ searchAccesses choice d,
        a.InRange := by
  induction children generalizing skip s with
  | nil => exact ⟨h, by simp [moduleSearches]⟩
  | cons c next ih =>
    cases skip with
    | succ skip => exact ih skip h
    | zero =>
      rw [moduleElemLoop, moduleSearches]
      by_cases hc : c.nodeNamed "module" = true
      · obtain ⟨hgrown, hspare⟩ := h.allocated
        have hsearch := searchAccesses_inRange hgrown hspare choice (c :: next) 0
        simp only [hc, if_true, List.forall_mem_cons]
        generalize checkRunningModulesAllocatedMemory s = s1 at hgrown hsearch
        cases hfound : reloadFindAndCheckModuleBasicElements s1 (c :: next) 0 with
        | none => exact ⟨hgrown, by rwa [hfound] at hsearch, by simp⟩
        | some found =>
          obtain ⟨skip, e, x, newModule, n⟩ := found
          rw [hfound] at hsearch
          obtain ⟨hlast, hall⟩ := ih skip (hgrown.applyAt choice i e x newModule n)
          exact ⟨hlast, hsearch, hall⟩
      · simp only [hc, Bool.false_eq_true, if_false]
        exact ih 0 h

theorem GrowableTable.congr {s s' : Supervisor} (h : GrowableTable s)
    (hl : s'.loaded = s.loaded) (hs : s'.spare = s.spare) : GrowableTable s' := by
  refine ⟨by rw [hl]; exact h.loaded, fun k => ?_, ?_⟩
  · rw [slotAt, hs]
    exact h.spare k
  · rw [Supervisor.runningModulesArraySize, hl, hs]
    exact h.size

theorem reloadProcessSupervisorElement_slots (s : Supervisor) (children : List XmlNode) :
    ((reloadProcessSupervisorElement s children).loaded,
      (reloadProcessSupervisorElement s children).spare) = (s.loaded, s.spare) := by
  refine Loop.foldl_const (π := fun s : Supervisor => (s.loaded, s.spare)) (fun s c => ?_)
    children s
  split_ifs
  · cases c.value.bind sscanfInt with
    | none => rfl
    | some number => simp only []; split_ifs <;> rfl
  · rfl

/-- One child of the root. -/
theorem GrowableTable.node (choice : ReloadChoice) {s : Supervisor} (h : GrowableTable s)
    (c : XmlNode) :
    GrowableTable (processNode choice s c) ∧
      ∀ ev ∈ nodeEvents choice s c, ∀ a ∈ eventAccesses choice ev, a.InRange := by
  unfold processNode nodeEvents
  by_cases hsup : c.nodeNamed "supervisor" = true
  · have hslots := reloadProcessSupervisorElement_slots s c.xmlChildrenNode
    simp only [Prod.mk.injEq] at hslots
    simp only [hsup, if_true]
    exact ⟨h.congr hslots.1 hslots.2, by simp⟩
  · by_cases hmod : c.nodeNamed "modules" = true
    · simp only [hsup, hmod, Bool.false_eq_true, if_false, if_true, List.forall_mem_cons,
        List.forall_mem_map, eventAccesses]
      cases reloadFindAndCheckModulesProfileBasicElements c.xmlChildrenNode with
      | none =>
        obtain ⟨hlast, hall⟩ := h.loop choice none c.xmlChildrenNode 0
        exact ⟨hlast, by simp, hall⟩
      | some profile =>
        have hs : GrowableTable { s with
            profiles := s.profiles ++ [profile], loadedProfileCnt := s.loadedProfileCnt + 1 } :=
          h.congr rfl rfl
        obtain ⟨hlast, hall⟩ := hs.loop choice (some s.profiles.length) c.xmlChildrenNode 0
        exact ⟨hlast, by simp, hall⟩
    · simp only [hsup, hmod, Bool.false_eq_true, if_false]
      exact ⟨h, by simp⟩

theorem TableInv.growable {s : Supervisor} (h : TableInv s) : GrowableTable (resetTable s) := by
  refine ⟨fun m hm => ?_, fun k => (h.spare_reset k).ifces.growable, h.ready.size⟩
  exact (h.ready.ifces m hm).filled.growable

/-- A reload inserts modules and interfaces inside the arrays. -/
theorem TableInv.reloadAccesses {s : Supervisor} (h : TableInv s) (choice : ReloadChoice)
    (nodes : List XmlNode) : ∀ a ∈ reloadAccesses choice s nodes, a.InRange := by
  intro a ha
  obtain ⟨ev, hev, ha⟩ := List.mem_flatMap.mp ha
  exact Loop.trace_forall (I := GrowableTable)
    (P := fun ev => ∀ a ∈ eventAccesses choice ev, a.InRange) (fun s c hs => (hs.node choice c).1)
    (fun s c hs => (hs.node choice c).2) h.growable nodes ev hev a ha

/-! ## The table between critical sections -/

/-- The shape of the table. -/
structure Representation (s : Supervisor) : Prop where
  loadedCnt : s.loadedModulesCnt ≤ s.runningModulesArraySize
  named : ∀ m ∈ s.loaded, m.moduleName ≠ none
  distinct : (s.loaded.map RunningModule.moduleName).Nodup
  profile : ∀ m ∈ s.loaded, m.modulesProfile = none ∨ ∃ p ∈ s.profiles, s.profileOf m = some p
  profileNames : (s.profiles.map ModulesProfile.profileName).Nodup
  profileCnt : s.profiles.length = s.loadedProfileCnt
  ifcesCnt : ∀ m ∈ s.loaded, m.configIfcesCnt ≤ m.configIfces.length
  spare : ∀ m ∈ s.spare, m.moduleName = none ∧ m.configIfcesCnt = 0 ∧
    ∀ ifc ∈ m.configIfces, ifc.Blank

theorem TableInv.profileOf {s : Supervisor} (h : TableInv s) {m : RunningModule}
    (hm : m ∈ s.loaded) :
    m.modulesProfile = none ∨ ∃ p ∈ s.profiles, s.profileOf m = some p := by
  cases hp : m.modulesProfile with
  | none => exact .inl rfl
  | some i =>
    have hlt := (h.slots m hm).profile i hp
    exact .inr ⟨s.profiles[i], List.getElem_mem hlt, by simp [Supervisor.profileOf, hp, hlt]⟩

theorem BlankSlot.blank {m : RunningModule} (h : BlankSlot m) :
    m.moduleName = none ∧ m.configIfcesCnt = 0 ∧ ∀ ifc ∈ m.configIfces, ifc.Blank := by
  refine ⟨h.field RunningModule.moduleName fun _ _ _ _ => rfl,
    h.field RunningModule.configIfcesCnt fun _ _ _ _ => rfl, fun ifc hifc => ?_⟩
  obtain ⟨y, hy⟩ := List.mem_iff_getElem?.mp hifc
  exact h.ifces.blank y ifc (Nat.zero_le y) hy

theorem TableInv.representation {s : Supervisor} (h : TableInv s) : Representation s := by
  constructor
  · exact Nat.le_add_right _ _
  · intro m hm
    obtain ⟨name, hname⟩ := (h.slots m hm).name
    simp [hname]
  · exact h.distinct
  · exact fun m hm => h.profileOf hm
  · exact h.profileNames
  · exact h.profileCnt.symm
  · exact fun m hm => (h.slots m hm).ifces.filled.le
  · intro m hm
    obtain ⟨k, hk⟩ := List.mem_iff_getElem?.mp hm
    have hblank := (h.spare k).blank
    rwa [slotAt, List.getD_eq_getElem?_getD, hk] at hblank

/-- The table keeps its shape in every reachable state, and no reload inserts a
module or an interface outside the arrays. -/
theorem table_representation :
    (∀ w, Reachable w → Representation w.sup) ∧
      ∀ choice s nodes, ReloadCall choice s →
        ∀ a ∈ reloadAccesses choice s nodes, a.idx < a.size := by
  constructor
  · exact fun w hw => (reachable_tableInv hw).representation
  · exact fun choice s nodes hcall => hcall.tableInv.reloadAccesses choice nodes

/-- The first reload of a document with a module and an interface. -/
theorem table_representation_loaded :
    let root := profileDocument [moduleElement "m" "/bin/m" "true"
      [.element "trapinterfaces" [] [.element "interface" [] [.textElement "type" "TCP"]]]]
    Representation (boot [] (some root)).sup ∧
      ∀ a ∈ reloadAccesses .initLoadConfig .init root.xmlChildrenNode, a.idx < a.size :=
  ⟨table_representation.1 _ ⟨[], some _, [], rfl⟩, table_representation.2 _ _ _ .initial⟩

end NemeaSupervisor
