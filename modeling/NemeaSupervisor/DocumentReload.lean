import Mathlib.Data.List.Induction
import NemeaSupervisor.TableReload

/-!
# A whole document under a reload

The loops over the module elements of a profile and over the profiles of a
document go through the slot steps, so an accepted document decides the table,
the profiles and the global limit; the passes after the loop then finish each
slot. `Reloaded` is the resulting description of `reload_configuration`.
-/

namespace NemeaSupervisor

open CText XmlNode

/-! ## One modules element -/

/-- The state without the module table. -/
def Supervisor.sansTable (s : Supervisor) : Supervisor := { s with loaded := [], spare := [] }

theorem checkRunningModulesAllocatedMemory_sansTable (s : Supervisor) :
    (checkRunningModulesAllocatedMemory s).sansTable = s.sansTable := by
  unfold checkRunningModulesAllocatedMemory
  split_ifs <;> rfl

theorem applyAt_sansTable (choice : ReloadChoice) (i : Option Nat) (s : Supervisor) (e : XmlNode)
    (x : Nat) (newModule : Bool) (n : Int) :
    (applyAt choice i s e x newModule n).sansTable = s.sansTable := by
  unfold applyAt
  by_cases hx : x = s.loaded.length
  · simp only [hx, if_true]
    cases s.spare <;> rfl
  · simp only [hx, if_false]
    cases s.loaded[x]? <;> rfl

section loop

variable {choice : ReloadChoice} {s0 : Supervisor} {ds : List (Nat × XmlNode)}

/-- One module element of the loop: it is found, and applied to its slot. -/
theorem Placed.element {s : Supervisor} (h0 : Ready s0) (h : Placed choice s0 ds s) {i : Nat}
    {e : XmlNode} (hd : GoodDocs (ds ++ [(i, e)])) (next : List XmlNode) :
    ∃ s', Placed choice s0 (ds ++ [(i, e)]) s' ∧ s'.sansTable = s.sansTable ∧
      ∃ name target n, moduleName e = some name ∧
        target = targetOf (checkRunningModulesAllocatedMemory s) name ∧
        reloadFindAndCheckModuleBasicElements (checkRunningModulesAllocatedMemory s)
          (e :: next) 0 = some (0, e, target.1, target.2, n) ∧
        s' = applyAt choice (some i) (checkRunningModulesAllocatedMemory s) e target.1 target.2 n := by
  have hg : ModuleGrammar e := hd.grammar (i, e) (by simp)
  obtain ⟨name, hname⟩ := hg.name
  change moduleName e = some name at hname
  have hfirst : ∀ d ∈ ds, moduleName d.2 ≠ moduleName e := by
    intro d hmem he
    have hnd := hd.distinct
    rw [List.map_append, List.nodup_append] at hnd
    exact hnd.2.2 _ (List.mem_map_of_mem hmem) (moduleName e) (by simp) he
  obtain ⟨spare, hgrown, -⟩ := checkRunningModulesAllocatedMemory_slots h.size
  have hfind : findLoadedModule (checkRunningModulesAllocatedMemory s) name =
      findLoadedModule s0 name := by
    rw [hgrown]
    exact h.find h0 hd.left fun d hmem he => hfirst d hmem (he.trans hname.symm)
  have hfree : ∀ x, findLoadedModule (checkRunningModulesAllocatedMemory s) name = some x →
      ((checkRunningModulesAllocatedMemory s).loaded[x]?).any (·.moduleCheckedByReload) = false := by
    intro x hx
    rw [hfind, findLoadedModule, List.findIdx?_eq_some_iff_getElem] at hx
    obtain ⟨hlt, hm, -⟩ := hx
    have hm' : s0.loaded[x].moduleName = some name := by simpa using hm
    have hsame : s.loaded[x]? = some s0.loaded[x] :=
      h.unchanged (List.getElem?_eq_getElem hlt)
        (fun d hmem he => hfirst d hmem (by rw [he, hm', hname]))
    rw [hgrown]
    simp [hsame, h0.unchecked _ (List.getElem_mem hlt)]
  have hsearch := reloadFindAndCheckModuleBasicElements_ok hg hname hfree next
  refine ⟨_, ?_, ?_, name, _, _, hname, rfl, hsearch, rfl⟩
  · cases hx : findLoadedModule s0 name with
    | none =>
      simp only [targetOf, hfind, hx]
      refine h.new (d := (i, e)) ?_ rfl
      intro m hm he
      have := List.findIdx?_eq_none_iff.mp hx m hm
      rw [he, hname] at this
      simp at this
    | some x =>
      simp only [targetOf, hfind, hx]
      rw [findLoadedModule, List.findIdx?_eq_some_iff_getElem] at hx
      obtain ⟨hlt, hm, -⟩ := hx
      refine h.old h0 (d := (i, e)) hfirst (List.getElem?_eq_getElem hlt) ?_ rfl
      rw [hname]
      simpa using hm
  · rw [applyAt_sansTable, checkRunningModulesAllocatedMemory_sansTable]

/-- The loop over the children of an accepted modules element. -/
theorem moduleElemLoop_placed (h0 : Ready s0) {i : Nat} (children : List XmlNode)
    (hkinds : ∀ c ∈ children, c.nodeNamed "module" = c.elementNamed "module")
    {s : Supervisor} (h : Placed choice s0 ds s)
    (hd : GoodDocs (ds ++ (children.filter (elementNamed "module")).map fun e => (i, e))) :
    Placed choice s0 (ds ++ (children.filter (elementNamed "module")).map fun e => (i, e))
        (moduleElemLoop choice (some i) children 0 s) ∧
      (moduleElemLoop choice (some i) children 0 s).sansTable = s.sansTable := by
  induction children generalizing ds s with
  | nil =>
    simp only [List.filter_nil, List.map_nil, List.append_nil] at hd ⊢
    exact ⟨h, rfl⟩
  | cons c children ih =>
    have hrest := fun d hd => hkinds d (List.mem_cons_of_mem c hd)
    rw [moduleElemLoop, hkinds c (by simp)]
    by_cases hc : c.elementNamed "module" = true
    · rw [List.filter_cons_of_pos hc, List.map_cons, List.append_cons] at hd ⊢
      obtain ⟨s', hplaced, hframe, name, target, n, -, -, hsearch, heq⟩ :=
        h.element h0 hd.left children
      simp only [hc, if_true, hsearch, ← heq]
      obtain ⟨hp, hf⟩ := ih hrest hplaced hd
      exact ⟨hp, hf.trans hframe⟩
    · rw [List.filter_cons_of_neg hc] at hd ⊢
      simp only [hc, Bool.false_eq_true, if_false]
      exact ih hrest h hd

end loop

/-! ## The children of the root -/

/-- The profiles of the document. -/
def docProfiles (nodes : List XmlNode) : List ModulesProfile := (modulesElems nodes).map profileOfElem

/-- The module elements of the document, with the positions of their profiles. -/
def docModules (nodes : List XmlNode) : List (Nat × XmlNode) :=
  (modulesElems nodes).zipIdx.flatMap fun p => (moduleElems p.1).map fun e => (p.2, e)

/-- The global limit of the document. -/
def docRestarts (nodes : List XmlNode) : Option Int :=
  (nodes.find? (elementNamed "supervisor")).bind fun c =>
    configRestarts (childValue "module-restarts" c.xmlChildrenNode)

theorem modulesElems_append (nodes : List XmlNode) (c : XmlNode) :
    modulesElems (nodes ++ [c]) =
      modulesElems nodes ++ if c.elementNamed "modules" then [c] else [] := by
  rw [modulesElems, List.filter_append, ← modulesElems, List.filter_cons, List.filter_nil]

theorem docModules_append_modules (nodes : List XmlNode) {c : XmlNode}
    (hc : c.elementNamed "modules" = true) :
    docModules (nodes ++ [c]) =
      docModules nodes ++ (moduleElems c).map fun e => ((docProfiles nodes).length, e) := by
  rw [docModules, modulesElems_append, if_pos hc, List.zipIdx_append, List.flatMap_append,
    ← docModules]
  simp [docProfiles]

theorem docModules_append_other (nodes : List XmlNode) {c : XmlNode}
    (hc : c.elementNamed "modules" = false) : docModules (nodes ++ [c]) = docModules nodes := by
  rw [docModules, modulesElems_append, hc]
  simp [docModules]

theorem docModules_names (nodes : List XmlNode) :
    (docModules nodes).map Prod.snd = (modulesElems nodes).flatMap moduleElems := by
  rw [docModules, List.map_flatMap]
  simp only [List.map_map, Function.comp_def, List.map_id']
  rw [List.flatMap_def, List.flatMap_def]
  congr 1
  apply List.ext_getElem?
  intro k
  simp [List.getElem?_zipIdx]
  cases (modulesElems nodes)[k]? <;> rfl

theorem Grammar.modulesGrammar {root : XmlNode} (hg : Grammar root) {ms : XmlNode}
    (hms : ms ∈ modulesElems root.xmlChildrenNode) : ModulesGrammar ms := by
  obtain ⟨hmem, hel⟩ := List.mem_filter.mp hms
  rcases hg.nodes ms hmem with hs | ⟨hs, -⟩ | ⟨-, hm⟩
  · rw [isSkipped_not_elementNamed hs] at hel
    exact absurd hel (by simp)
  · rw [elementNamed_ne (by decide : "supervisor" ≠ "modules") hs] at hel
    exact absurd hel (by simp)
  · exact hm

/-- A function that is defined on a whole list maps it. -/
theorem filterMap_map_some {α β : Type} {f : α → Option β} {l : List α}
    (h : ∀ a ∈ l, ∃ b, f a = some b) : (l.filterMap f).map some = l.map f := by
  induction l with
  | nil => rfl
  | cons a l ih =>
    obtain ⟨b, hb⟩ := h a (by simp)
    rw [List.filterMap_cons_some hb, List.map_cons, List.map_cons, hb,
      ih fun a ha => h a (List.mem_cons_of_mem _ ha)]

theorem Grammar.goodDocs {root : XmlNode} (hg : Grammar root) :
    GoodDocs (docModules root.xmlChildrenNode) := by
  have hgrammar : ∀ e ∈ (docModules root.xmlChildrenNode).map Prod.snd, ModuleGrammar e := by
    intro e he
    rw [docModules_names] at he
    obtain ⟨ms, hms, he⟩ := List.mem_flatMap.mp he
    exact (hg.modulesGrammar hms).modules e he
  refine ⟨fun d hd => hgrammar d.2 (List.mem_map_of_mem hd), ?_⟩
  have hnd := hg.modules
  rw [moduleNames, ← docModules_names] at hnd
  have hmap : (docModules root.xmlChildrenNode).map (fun d => moduleName d.2) =
      ((docModules root.xmlChildrenNode).map Prod.snd).map moduleName := by
    rw [List.map_map]
    rfl
  rw [hmap, ← filterMap_map_some (f := moduleName) fun e he => (hgrammar e he).name]
  exact hnd.map fun _ _ h => Option.some.inj h

/-- The supervisor element sets the global limit and nothing else. -/
theorem reloadProcessSupervisorElement_ok {children : List XmlNode}
    (h : Allowed supervisorRules children) (s : Supervisor) :
    reloadProcessSupervisorElement s children =
      { s with moduleRestartsNumConfig :=
          (configRestarts (childValue "module-restarts" children)).getD s.moduleRestartsNumConfig } := by
  have hlimit : (reloadProcessSupervisorElement s children).moduleRestartsNumConfig =
      (configRestarts (childValue "module-restarts" children)).getD s.moduleRestartsNumConfig := by
    refine (foldl_allowed (π := Supervisor.moduleRestartsNumConfig)
      (g := fun c old => ((c.value.bind sscanfInt).filter fun number =>
        decide (0 ≤ number ∧ number ≤ maxModuleRestartsNum)).getD old)
      h (r := ⟨"module-restarts", true, checkRestarts⟩) (by simp [supervisorRules]) rfl
      (by decide) (by decide) ?_ ?_ s).trans ?_
    · intro s c hc
      rw [if_neg (by rw [hc]; simp)]
    · intro s c hc
      rw [if_pos hc]
      cases c.value.bind sscanfInt with
      | none => rfl
      | some number => simp only [Option.filter_some, decide_eq_true_eq]; split_ifs <;> rfl
    · cases hf : children.find? (elementNamed "module-restarts") with
      | none => simp [childValue, hf, configRestarts]
      | some c =>
        obtain ⟨key, number, hkey, hnumber, hlow, hhigh⟩ :=
          checkRestarts_eq_ok.mp (value_of_allowed supervisorRules_distinct h
            (r := ⟨"module-restarts", true, checkRestarts⟩) (by simp [supervisorRules])
            (List.mem_of_find?_eq_some hf)
            (nodeNamed_of_elementNamed (List.find?_some hf)) (by decide) (by decide))
        simp [childValue, hf, configRestarts, hkey, hnumber, hlow, hhigh, maxModuleRestartsNum,
          Option.filter]
  have hrest : ({ reloadProcessSupervisorElement s children with moduleRestartsNumConfig := 0 } :
      Supervisor) = { s with moduleRestartsNumConfig := 0 } := by
    refine Loop.foldl_const (π := fun s : Supervisor => { s with moduleRestartsNumConfig := 0 })
      (fun s c => ?_) children s
    split_ifs
    · cases c.value.bind sscanfInt with
      | none => rfl
      | some number => simp only []; split_ifs <;> rfl
    · rfl
  generalize reloadProcessSupervisorElement s children = s' at hlimit hrest
  obtain ⟨l, sp, p, n, g, c, st⟩ := s'
  simp only [Supervisor.mk.injEq] at hrest hlimit
  obtain ⟨rfl, rfl, rfl, rfl, -, rfl, rfl⟩ := hrest
  rw [← hlimit]

/-- What the children of the root seen so far have led to. -/
structure Folded (choice : ReloadChoice) (s0 : Supervisor) (nodes : List XmlNode)
    (s : Supervisor) : Prop where
  placed : Placed choice s0 (docModules nodes) s
  rest : s.sansTable = { s0.sansTable with
    profiles := docProfiles nodes
    loadedProfileCnt := (docProfiles nodes).length
    moduleRestartsNumConfig := (docRestarts nodes).getD s0.moduleRestartsNumConfig }

theorem Placed.congr {choice : ReloadChoice} {s0 s s' : Supervisor} {ds : List (Nat × XmlNode)}
    (h : Placed choice s0 ds s) (hl : s'.loaded = s.loaded) (hs : s'.spare = s.spare) :
    Placed choice s0 ds s' := by
  refine ⟨hl.trans h.loaded, fun k => ?_, ?_⟩
  · rw [← h.spare k, slotAt, slotAt, hs]
  · have := h.size
    rwa [Supervisor.runningModulesArraySize, hl, hs]

theorem nodeNamed_child {c : XmlNode} {tag : String}
    (h : c.isSkipped = true ∨ c.elementNamed "supervisor" = true ∨
      c.elementNamed "modules" = true) (ht : tag ≠ "text") (hc : tag ≠ "comment") :
    c.nodeNamed tag = c.elementNamed tag := by
  rcases h with hs | hs
  · rw [nodeNamed_of_isSkipped hs ht hc, isSkipped_not_elementNamed hs]
  · cases c with
    | element name props children => simp [elementNamed]
    | _ => simp [elementNamed] at hs

theorem docProfiles_append (nodes : List XmlNode) (c : XmlNode) :
    docProfiles (nodes ++ [c]) =
      docProfiles nodes ++ if c.elementNamed "modules" then [profileOfElem c] else [] := by
  rw [docProfiles, modulesElems_append, List.map_append, ← docProfiles]
  split_ifs <;> rfl

theorem docRestarts_append (nodes : List XmlNode) {c : XmlNode}
    (hc : c.elementNamed "supervisor" = false) :
    docRestarts (nodes ++ [c]) = docRestarts nodes := by
  rw [docRestarts, List.find?_append, ← List.find?_append]
  simp [docRestarts, hc]

theorem GoodDocs.nodesLeft {nodes : List XmlNode} {c : XmlNode}
    (h : GoodDocs (docModules (nodes ++ [c]))) : GoodDocs (docModules nodes) := by
  by_cases hc : c.elementNamed "modules" = true
  · rw [docModules_append_modules nodes hc] at h
    exact h.left
  · rwa [docModules_append_other nodes (by simpa using hc)] at h

section folded

variable {choice : ReloadChoice} {s0 : Supervisor} {nodes : List XmlNode} {c : XmlNode}
  {s : Supervisor}

theorem Folded.skipped (h : Folded choice s0 nodes s)
    (hsup : c.elementNamed "supervisor" = false) (hmod : c.elementNamed "modules" = false) :
    Folded choice s0 (nodes ++ [c]) s := by
  refine ⟨?_, ?_⟩
  · rw [docModules_append_other nodes hmod]
    exact h.placed
  · have hrest := h.rest
    rw [docProfiles_append, hmod, docRestarts_append nodes hsup]
    simpa using hrest

/-- The first supervisor element sets the default limit. -/
theorem Folded.supervisor (h : Folded choice s0 nodes s)
    (hs : c.elementNamed "supervisor" = true) (hallowed : Allowed supervisorRules c.xmlChildrenNode)
    (hnone : nodes.find? (elementNamed "supervisor") = none) :
    Folded choice s0 (nodes ++ [c]) (reloadProcessSupervisorElement s c.xmlChildrenNode) := by
  have hmod := elementNamed_ne (by decide : "supervisor" ≠ "modules") hs
  rw [reloadProcessSupervisorElement_ok hallowed]
  refine ⟨?_, ?_⟩
  · rw [docModules_append_other nodes hmod]
    exact h.placed.congr rfl rfl
  · have hnow : docRestarts (nodes ++ [c]) =
        configRestarts (childValue "module-restarts" c.xmlChildrenNode) := by
      simp [docRestarts, List.find?_append, hnone, hs]
    have hbefore : docRestarts nodes = none := by simp [docRestarts, hnone]
    have hrest := h.rest
    rw [hbefore] at hrest
    rw [docProfiles_append, hmod, hnow]
    simp only [Supervisor.sansTable, Supervisor.mk.injEq, Option.getD_none] at hrest ⊢
    simp [hrest]

/-- A modules element adds its profile and applies its modules. -/
theorem Folded.modules (h0 : Ready s0) (h : Folded choice s0 nodes s)
    (hs : c.elementNamed "modules" = true) (hg : ModulesGrammar c)
    (hd : GoodDocs (docModules (nodes ++ [c]))) :
    Folded choice s0 (nodes ++ [c])
      (moduleElemLoop choice (some s.profiles.length) c.xmlChildrenNode 0
        { s with profiles := s.profiles ++ [profileOfElem c],
                 loadedProfileCnt := s.loadedProfileCnt + 1 }) := by
  have hsup := elementNamed_ne (by decide : "modules" ≠ "supervisor") hs
  have hrest := h.rest
  simp only [Supervisor.sansTable, Supervisor.mk.injEq] at hrest
  obtain ⟨-, -, hprofiles, hcnt, hlimit, hcontinue, hstop⟩ := hrest
  rw [docModules_append_modules nodes hs] at hd
  obtain ⟨hplaced, hframe⟩ := moduleElemLoop_placed h0 (i := (docProfiles nodes).length)
    c.xmlChildrenNode
    (fun d hd => nodeNamed_eq_elementNamed hg.allowed (by decide) (by decide) hd)
    (s := { s with profiles := s.profiles ++ [profileOfElem c],
                   loadedProfileCnt := s.loadedProfileCnt + 1 })
    (h.placed.congr rfl rfl) hd
  rw [hprofiles] at hplaced hframe ⊢
  refine ⟨?_, ?_⟩
  · rw [docModules_append_modules nodes hs]
    exact hplaced
  · rw [hframe, docProfiles_append, hs, docRestarts_append nodes hsup]
    simp [Supervisor.sansTable, hcnt, hlimit, hcontinue, hstop]

/-- One more child of the root. -/
theorem Folded.step (h0 : Ready s0) (h : Folded choice s0 nodes s)
    (hd : GoodDocs (docModules (nodes ++ [c])))
    (hone : (nodes ++ [c]).countP (elementNamed "supervisor") ≤ 1)
    (hc : c.isSkipped = true ∨
      (c.elementNamed "supervisor" = true ∧ Allowed supervisorRules c.xmlChildrenNode) ∨
      (c.elementNamed "modules" = true ∧ ModulesGrammar c)) :
    Folded choice s0 (nodes ++ [c]) (processNode choice s c) := by
  have hkind : ∀ tag, tag ≠ "text" → tag ≠ "comment" → c.nodeNamed tag = c.elementNamed tag := by
    intro tag ht hcom
    exact nodeNamed_child (hc.imp_right (Or.imp And.left And.left)) ht hcom
  unfold processNode
  rw [hkind "supervisor" (by decide) (by decide), hkind "modules" (by decide) (by decide)]
  rcases hc with hs | ⟨hs, hallowed⟩ | ⟨hs, hg⟩
  · have hsup := isSkipped_not_elementNamed hs "supervisor"
    have hmod := isSkipped_not_elementNamed hs "modules"
    simp only [hsup, hmod, Bool.false_eq_true, if_false]
    exact h.skipped hsup hmod
  · have hnone : nodes.find? (elementNamed "supervisor") = none := by
      rw [List.countP_append, List.countP_cons_of_pos hs] at hone
      rw [List.find?_eq_none, ← List.countP_eq_zero]
      omega
    simp only [hs, if_true]
    exact h.supervisor hs hallowed hnone
  · have hsup := elementNamed_ne (by decide : "modules" ≠ "supervisor") hs
    simp only [hsup, hs, Bool.false_eq_true, if_false, if_true,
      reloadFindAndCheckModulesProfileBasicElements_ok hg]
    exact h.modules h0 hs hg hd

end folded

/-- The loop over the children of the root of an accepted document. -/
theorem foldl_processNode (choice : ReloadChoice) {s0 : Supervisor} (h0 : Ready s0)
    (hprofiles : s0.profiles = []) (hcnt : s0.loadedProfileCnt = 0) {nodes : List XmlNode}
    (hd : GoodDocs (docModules nodes)) (hone : nodes.countP (elementNamed "supervisor") ≤ 1)
    (hnodes : ∀ c ∈ nodes, c.isSkipped = true ∨
      (c.elementNamed "supervisor" = true ∧ Allowed supervisorRules c.xmlChildrenNode) ∨
      (c.elementNamed "modules" = true ∧ ModulesGrammar c)) :
    Folded choice s0 nodes (nodes.foldl (processNode choice) s0) := by
  induction nodes using List.reverseRecOn with
  | nil =>
    refine ⟨⟨?_, fun k => ?_, h0.size⟩, ?_⟩
    · have hid : placeOld choice [] = id := rfl
      simp [docModules, modulesElems, newModules, newDocs, hid]
    · simp [docModules, modulesElems, newDocs]
    · simp [docProfiles, modulesElems, docRestarts, Supervisor.sansTable, hprofiles, hcnt]
  | append_singleton nodes c ih =>
    have hle : nodes.countP (elementNamed "supervisor") ≤ 1 := by
      rw [List.countP_append] at hone
      omega
    rw [List.foldl_append]
    exact (ih hd.nodesLeft hle fun d hd => hnodes d (List.mem_append_left _ hd)).step h0 hd hone
      (hnodes c (by simp))

end NemeaSupervisor
