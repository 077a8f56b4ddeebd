import NemeaSupervisor.Configuration

/-!
# The apply phase, event by event

What the apply phase of `reload_configuration` finds on its way through a
document, and the state it finds it in. The searches for profiles and modules
repeat checks of the validation; on an accepted document none of them fails,
skips an element or leaves a loop early.
-/

namespace NemeaSupervisor

open XmlNode

/-! ## The events -/

/-- A search for the module of an element: the state it is made in and its result. -/
abbrev ModuleSearch := Supervisor × Option (Nat × XmlNode × Nat × Bool × Int)

/-- The searches of `moduleElemLoop`. -/
def moduleSearches (choice : ReloadChoice) (modulesProfile : Option Nat) :
    List XmlNode → Nat → Supervisor → List ModuleSearch
  | [], _, _ => []
  | _ :: next, skip + 1, s => moduleSearches choice modulesProfile next skip s
  | moduleElem :: next, 0, s =>
    if moduleElem.nodeNamed "module" then
      let s := checkRunningModulesAllocatedMemory s
      let found := reloadFindAndCheckModuleBasicElements s (moduleElem :: next) 0
      (s, found) :: match found with
        | none => []
        | some (skip, elem, x, newModule, trapifcElems) =>
          moduleSearches choice modulesProfile next skip
            (applyAt choice modulesProfile s elem x newModule trapifcElems)
    else moduleSearches choice modulesProfile next 0 s

/-- The state after a search. -/
def afterSearch (choice : ReloadChoice) (modulesProfile : Option Nat) (d : ModuleSearch) :
    Supervisor :=
  match d with
  | (s, none) => s
  | (s, some (_, elem, x, newModule, trapifcElems)) =>
    applyAt choice modulesProfile s elem x newModule trapifcElems

/-- The searches tell all that the loop does. -/
theorem moduleElemLoop_eq_searches (choice : ReloadChoice) (modulesProfile : Option Nat)
    (children : List XmlNode) (skip : Nat) (s : Supervisor) :
    moduleElemLoop choice modulesProfile children skip s =
      (moduleSearches choice modulesProfile children skip s).foldl
        (fun _ d => afterSearch choice modulesProfile d) s := by
  induction children generalizing skip s with
  | nil => rfl
  | cons c next ih =>
    cases skip with
    | succ skip => exact ih skip s
    | zero =>
      rw [moduleElemLoop, moduleSearches]
      by_cases hc : c.nodeNamed "module" = true
      · simp only [hc, if_true, List.foldl_cons]
        cases hfound : reloadFindAndCheckModuleBasicElements
            (checkRunningModulesAllocatedMemory s) (c :: next) 0 with
        | none => rfl
        | some found =>
          obtain ⟨skip, elem, x, newModule, n⟩ := found
          exact ih skip _
      · simp only [hc, Bool.false_eq_true, if_false]
        exact ih 0 s

inductive ApplyEvent where
  | profile (found : Option ModulesProfile)
  | module (search : ModuleSearch)

/-- The events of one child of the root. -/
def nodeEvents (choice : ReloadChoice) (s : Supervisor) (currentNode : XmlNode) :
    List ApplyEvent :=
  if currentNode.nodeNamed "supervisor" then []
  else if currentNode.nodeNamed "modules" then
    let found := reloadFindAndCheckModulesProfileBasicElements currentNode.xmlChildrenNode
    .profile found :: (match found with
      | some profile =>
        moduleSearches choice (some s.profiles.length) currentNode.xmlChildrenNode 0
          { s with
            profiles := s.profiles ++ [profile]
            loadedProfileCnt := s.loadedProfileCnt + 1 }
      | none => moduleSearches choice none currentNode.xmlChildrenNode 0 s).map .module
  else []

/-- The events of a reload of the document. -/
def applyEvents (choice : ReloadChoice) (s : Supervisor) (nodes : List XmlNode) :
    List ApplyEvent :=
  Loop.trace (processNode choice) (nodeEvents choice) (resetTable s) nodes

/-! ## The events of an accepted document -/

/-- The elements that the apply phase is about, in document order. -/
inductive DocElement where
  | modules (ms : XmlNode)
  | module (e : XmlNode)

def elementsOf (ms : XmlNode) : List DocElement := .modules ms :: (moduleElems ms).map .module

def docElements (nodes : List XmlNode) : List DocElement := (modulesElems nodes).flatMap elementsOf

/-- The event of an element that is applied: its profile or its slot is found at
the first attempt, and the slot is in the allocated table. -/
inductive Applies : DocElement → ApplyEvent → Prop where
  | modules (ms : XmlNode) : Applies (.modules ms) (.profile (some (profileOfElem ms)))
  | module {e : XmlNode} {s : Supervisor} {name : String} {n : Int}
    (hname : moduleName e = some name)
    (hroom : (targetOf s name).1 < s.runningModulesArraySize) :
    Applies (.module e) (.module (s, some (0, e, (targetOf s name).1, (targetOf s name).2, n)))

theorem targetOf_lt {s : Supervisor} (hspare : s.spare ≠ []) (name : String) :
    (targetOf s name).1 < s.runningModulesArraySize := by
  have hpos := List.length_pos_iff.mpr hspare
  unfold targetOf Supervisor.runningModulesArraySize
  cases hx : findLoadedModule s name with
  | none =>
    simp only [Supervisor.loadedModulesCnt]
    omega
  | some x =>
    rw [findLoadedModule, List.findIdx?_eq_some_iff_getElem] at hx
    obtain ⟨hlt, -⟩ := hx
    simp only []
    omega

section loop

variable {choice : ReloadChoice} {s0 : Supervisor} {ds : List (Nat × XmlNode)}

/-- The search for a module element of an accepted document. -/
theorem Placed.applies {s : Supervisor} (h : Placed choice s0 ds s) {e : XmlNode} {name : String}
    (hname : moduleName e = some name) (n : Int) :
    Applies (.module e) (.module (checkRunningModulesAllocatedMemory s,
      some (0, e, (targetOf (checkRunningModulesAllocatedMemory s) name).1,
        (targetOf (checkRunningModulesAllocatedMemory s) name).2, n))) := by
  obtain ⟨spare, heq, hne, -⟩ := checkRunningModulesAllocatedMemory_slots h.size
  refine .module hname (targetOf_lt ?_ name)
  rw [heq]
  exact hne

/-- The searches of the loop over the children of an accepted modules element. -/
theorem moduleSearches_applies (h0 : Ready s0) {i : Nat} (children : List XmlNode)
    (hkinds : ∀ c ∈ children, c.nodeNamed "module" = c.elementNamed "module")
    {s : Supervisor} (h : Placed choice s0 ds s)
    (hd : GoodDocs (ds ++ (children.filter (elementNamed "module")).map fun e => (i, e))) :
    List.Forall₂ Applies ((children.filter (elementNamed "module")).map .module)
      ((moduleSearches choice (some i) children 0 s).map .module) := by
  induction children generalizing ds s with
  | nil => exact .nil
  | cons c children ih =>
    have hrest := fun d hd => hkinds d (List.mem_cons_of_mem c hd)
    rw [moduleSearches, hkinds c (by simp)]
    by_cases hc : c.elementNamed "module" = true
    · rw [List.filter_cons_of_pos hc, List.map_cons] at hd ⊢
      rw [List.append_cons] at hd
      obtain ⟨s', hplaced, -, name, target, n, hname, htarget, hsearch, heq⟩ :=
        h.element h0 hd.left children
      simp only [hc, if_true, hsearch, ← heq, List.map_cons]
      rw [htarget]
      exact .cons (h.applies hname n) (ih hrest hplaced hd)
    · rw [List.filter_cons_of_neg hc] at hd ⊢
      simp only [hc, Bool.false_eq_true, if_false]
      exact ih hrest h hd

end loop

theorem docElements_append (nodes : List XmlNode) (c : XmlNode) :
    docElements (nodes ++ [c]) =
      docElements nodes ++ if c.elementNamed "modules" then elementsOf c else [] := by
  rw [docElements, modulesElems_append, List.flatMap_append, ← docElements]
  split_ifs <;> simp

/-- The events of one more child of the root. -/
theorem Folded.nodeEvents {choice : ReloadChoice} {s0 : Supervisor} (h0 : Ready s0)
    {nodes : List XmlNode} {c : XmlNode} {s : Supervisor} (h : Folded choice s0 nodes s)
    (hd : GoodDocs (docModules (nodes ++ [c])))
    (hc : c.isSkipped = true ∨
      (c.elementNamed "supervisor" = true ∧ Allowed supervisorRules c.xmlChildrenNode) ∨
      (c.elementNamed "modules" = true ∧ ModulesGrammar c)) :
    List.Forall₂ Applies (if c.elementNamed "modules" then elementsOf c else [])
      (nodeEvents choice s c) := by
  have hkind : ∀ tag, tag ≠ "text" → tag ≠ "comment" → c.nodeNamed tag = c.elementNamed tag := by
    intro tag ht hcom
    exact nodeNamed_child (hc.imp_right (Or.imp And.left And.left)) ht hcom
  rw [NemeaSupervisor.nodeEvents, hkind "supervisor" (by decide) (by decide),
    hkind "modules" (by decide) (by decide)]
  rcases hc with hs | ⟨hs, -⟩ | ⟨hs, hg⟩
  · simp [isSkipped_not_elementNamed hs]
  · simp [hs, elementNamed_ne (by decide : "supervisor" ≠ "modules") hs]
  · have hsup := elementNamed_ne (by decide : "modules" ≠ "supervisor") hs
    have hprofiles : s.profiles = docProfiles nodes :=
      congrArg Supervisor.profiles h.rest
    simp only [hsup, hs, Bool.false_eq_true, if_false, if_true,
      reloadFindAndCheckModulesProfileBasicElements_ok hg]
    rw [docModules_append_modules nodes hs, ← hprofiles] at hd
    have hsearches := moduleSearches_applies h0 (i := s.profiles.length)
      c.xmlChildrenNode
      (fun d hd => nodeNamed_eq_elementNamed hg.allowed (by decide) (by decide) hd)
      (s := { s with profiles := s.profiles ++ [profileOfElem c],
                     loadedProfileCnt := s.loadedProfileCnt + 1 })
      (h.placed.congr rfl rfl) hd
    exact .cons (.modules c) hsearches

/-- The events of the loop over the children of the root of an accepted document. -/
theorem trace_applies (choice : ReloadChoice) {s0 : Supervisor} (h0 : Ready s0)
    (hprofiles : s0.profiles = []) (hcnt : s0.loadedProfileCnt = 0) {nodes : List XmlNode}
    (hd : GoodDocs (docModules nodes)) (hone : nodes.countP (elementNamed "supervisor") ≤ 1)
    (hnodes : ∀ c ∈ nodes, c.isSkipped = true ∨
      (c.elementNamed "supervisor" = true ∧ Allowed supervisorRules c.xmlChildrenNode) ∨
      (c.elementNamed "modules" = true ∧ ModulesGrammar c)) :
    List.Forall₂ Applies (docElements nodes)
      (Loop.trace (processNode choice) (nodeEvents choice) s0 nodes) := by
  induction nodes using List.reverseRecOn with
  | nil => exact .nil
  | append_singleton nodes c ih =>
    have hle : nodes.countP (elementNamed "supervisor") ≤ 1 := by
      rw [List.countP_append] at hone
      omega
    have hbefore := fun d hd => hnodes d (List.mem_append_left _ hd)
    have hfolded := foldl_processNode choice h0 hprofiles hcnt hd.nodesLeft hle hbefore
    have hevents := hfolded.nodeEvents h0 hd (hnodes c (by simp))
    rw [docElements_append, Loop.trace_append]
    refine List.rel_append (ih hd.nodesLeft hle hbefore) ?_
    rwa [Loop.trace, Loop.trace, List.append_nil]

/-! ## All or nothing -/

/-- The document is applied element by element, and the table grows by the
modules that were not loaded. -/
structure AllApplied (choice : ReloadChoice) (s : Supervisor) (nodes : List XmlNode)
    (s' : Supervisor) : Prop where
  events : List.Forall₂ Applies (docElements nodes) (applyEvents choice s nodes)
  profiles : s'.profiles = (modulesElems nodes).map profileOfElem
  profileCnt : s'.loadedProfileCnt = (modulesElems nodes).length
  modules : ∀ ms ∈ modulesElems nodes, ∀ e ∈ moduleElems ms,
    (s'.loaded.map RunningModule.moduleName).count (moduleName e) = 1
  grows : s'.loadedModulesCnt = s.loadedModulesCnt +
    ((modulesElems nodes).flatMap moduleElems).countP fun e =>
      s.loaded.all fun m => m.moduleName != moduleName e

theorem newDocs_length (s : Supervisor) (nodes : List XmlNode) :
    (newDocs s (docModules nodes)).length =
      ((modulesElems nodes).flatMap moduleElems).countP fun e =>
        s.loaded.all fun m => m.moduleName != moduleName e := by
  rw [← docModules_names, List.countP_map, newDocs, ← List.countP_eq_length_filter]
  rfl

/-- A reload changes nothing or applies every element of the document once. -/
theorem reload_all_or_nothing (choice : ReloadChoice) (s : Supervisor) (root : Option XmlNode) :
    (∀ e, validateConfiguration root = .error e →
      reloadConfiguration choice root s = (s, false)) ∧
    ∀ r, ReloadCall choice s → root = some r → validateConfiguration root = .ok () →
      AllApplied choice s r.xmlChildrenNode (reloadConfiguration choice root s).1 := by
  constructor
  · intro e he
    simp only [reloadConfiguration, he]
  · rintro r hcall rfl hv
    have h := hcall.tableInv
    obtain ⟨hg, hr⟩ := hcall.reloaded hv
    constructor
    · exact trace_applies choice h.ready rfl rfl hg.goodDocs hg.supervisorOnce
        fun c hc => (hg.nodes c hc).imp_right (Or.imp_left fun hs => ⟨hs.1, hs.2.2⟩)
    · exact hr.profiles
    · rw [hr.profileCnt, docProfiles, List.length_map]
    · intro ms hms e he
      obtain ⟨i, hd, -⟩ := mem_docModules hms he
      exact hr.element_count h hg hd
    · rw [Supervisor.loadedModulesCnt, hr.loaded, List.length_append, List.length_map,
        List.length_mapIdx, newDocs_length]
      rfl

/-- A rejected document, and one that adds a module to a loaded one. -/
theorem reload_all_or_nothing_added :
    let s := (loadedWithParams []).sup
    let root := profileDocument
      [moduleElement "m" "/bin/m" "true" [], moduleElement "n" "/bin/n" "true" []]
    reloadConfiguration .defaultConfigFile none s = (s, false) ∧
      AllApplied .defaultConfigFile s root.xmlChildrenNode
        (reloadConfiguration .defaultConfigFile (some root) s).1 :=
  ⟨(reload_all_or_nothing _ _ none).1 _ rfl,
    (reload_all_or_nothing _ _ (some _)).2 _ (.later (by simp) ⟨[], _, [], rfl⟩) rfl (by decide)⟩

end NemeaSupervisor
