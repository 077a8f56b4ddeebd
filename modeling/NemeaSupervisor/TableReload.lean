import NemeaSupervisor.ModuleReload

/-!
# The whole table under a reload

The apply phase on an accepted document: the searches for profiles and modules
find what the document says, every module element is applied to the slot with
its name or else to the next free one, and the passes after the loop finish each
slot on its own. The table after the reload is therefore given slot by slot.
-/

namespace NemeaSupervisor

open XmlNode

/-! ## The searches succeed -/

theorem value_of_allowed {rules : List ChildRule} {children : List XmlNode}
    (hd : Distinct rules) (h : Allowed rules children) {r : ChildRule} (hr : r ∈ rules)
    {c : XmlNode} (hc : c ∈ children) (hn : c.nodeNamed r.tag = true) (ht : r.tag ≠ "text")
    (hcom : r.tag ≠ "comment") : r.check c.value = .ok () := by
  rw [nodeNamed_eq_elementNamed h ht hcom hc] at hn
  rcases h.kinds c hc with hs | ⟨r', hr', hcr', hcheck⟩
  · rw [isSkipped_not_elementNamed hs] at hn
    exact absurd hn (by simp)
  · rwa [rule_unique hd hr hr' hn hcr']

theorem scanBasicElements_step {s : Supervisor} {b b' : BasicScan} {c : XmlNode}
    {children : List XmlNode} (hstep : scanBasicElement s b c = (b', false))
    (hlast : children = [] → b'.elems.name = 1 ∧ b'.elems.path = 1) :
    scanBasicElements s (c :: children) b = scanBasicElements s children b' := by
  rw [scanBasicElements, hstep]
  cases children with
  | nil =>
    obtain ⟨hn, hp⟩ := hlast rfl
    simp [hn, hp]
  | cons d children => simp

/-- The first name fixes the slot, unless a reload already took it. -/
theorem scanBasicElement_name {s : Supervisor} {b : BasicScan} {c : XmlNode} {key : String}
    (hn : c.nodeNamed "name" = true) (hkey : c.value = some key) (hb : b.elems.name + 1 = 1)
    (hfree : ∀ x, findLoadedModule s key = some x →
      (s.loaded[x]?).any (·.moduleCheckedByReload) = false) :
    scanBasicElement s b c =
      (⟨{ b.elems with name := 1 }, some (match findLoadedModule s key with
        | none => (s.loadedModulesCnt, true)
        | some x => (x, false))⟩, false) := by
  rw [scanBasicElement, if_pos hn, hkey]
  simp only [hb, if_true]
  cases hx : findLoadedModule s key with
  | none => rfl
  | some x => simp [hfree x hx]

theorem scanBasicElement_path {s : Supervisor} {b : BasicScan} {c : XmlNode} {key : String}
    (hp : c.nodeNamed "path" = true) (hkey : c.value = some key) (hb : b.elems.path + 1 = 1) :
    scanBasicElement s b c = (⟨{ b.elems with path := 1 }, b.found⟩, false) := by
  have hn := nodeNamed_ne (by decide : "path" ≠ "name") hp
  rw [scanBasicElement, if_neg (by rw [hn]; simp), if_pos hp, hkey]
  simp [hb]

theorem scanBasicElement_trapinterfaces {s : Supervisor} {b : BasicScan} {c : XmlNode}
    (ht : c.nodeNamed "trapinterfaces" = true) (hb : b.elems.trapifc + 1 ≤ 1) :
    scanBasicElement s b c =
      (⟨{ b.elems with trapifc := b.elems.trapifc + 1 }, b.found⟩, false) := by
  have hn := nodeNamed_ne (by decide : "trapinterfaces" ≠ "name") ht
  have hp := nodeNamed_ne (by decide : "trapinterfaces" ≠ "path") ht
  have hle : ¬ b.elems.trapifc + 1 > 1 := by omega
  rw [scanBasicElement, if_neg (by rw [hn]; simp), if_neg (by rw [hp]; simp), if_pos ht]
  simp [hle]

theorem scanBasicElement_other {s : Supervisor} {b : BasicScan} {c : XmlNode}
    (hn : ¬ c.nodeNamed "name" = true) (hp : ¬ c.nodeNamed "path" = true)
    (ht : ¬ c.nodeNamed "trapinterfaces" = true) : scanBasicElement s b c = (b, false) := by
  rw [scanBasicElement, if_neg hn, if_neg hp, if_neg ht]

/-- Scanning the rest of an accepted module element. The counters so far and
the occurrences to come make up exactly one name and one path. -/
theorem scanBasicElements_ok {s : Supervisor} (target : Nat × Bool) {children : List XmlNode}
    {b : BasicScan}
    (hname : ∀ c ∈ children, c.nodeNamed "name" = true → ∃ key, c.value = some key ∧
      (match findLoadedModule s key with
        | none => (s.loadedModulesCnt, true)
        | some x => (x, false)) = target ∧
      ∀ x, findLoadedModule s key = some x → (s.loaded[x]?).any (·.moduleCheckedByReload) = false)
    (hpath : ∀ c ∈ children, c.nodeNamed "path" = true → ∃ key, c.value = some key)
    (h0 : 0 ≤ b.elems.name ∧ 0 ≤ b.elems.path ∧ 0 ≤ b.elems.trapifc)
    (h1 : b.elems.name + children.countP (nodeNamed "name") = 1)
    (h2 : b.elems.path + children.countP (nodeNamed "path") = 1)
    (h3 : b.elems.trapifc + children.countP (nodeNamed "trapinterfaces") ≤ 1)
    (hfound : b.elems.name = 1 → b.found = some target) :
    scanBasicElements s children b =
      some ⟨⟨1, 1, b.elems.trapifc + children.countP (nodeNamed "trapinterfaces")⟩, some target⟩ := by
  induction children generalizing b with
  | nil =>
    obtain ⟨⟨n, p, t⟩, f⟩ := b
    simp only [List.countP_nil] at h1 h2
    have hn : n = 1 := by simpa using h1
    have hp : p = 1 := by simpa using h2
    subst hn hp
    have := hfound rfl
    simp only at this
    simp [scanBasicElements, this]
  | cons c children ih =>
    have hnameR := fun d hd => hname d (List.mem_cons_of_mem c hd)
    have hpathR := fun d hd => hpath d (List.mem_cons_of_mem c hd)
    by_cases hn : c.nodeNamed "name" = true
    · have hp := nodeNamed_ne (by decide : "name" ≠ "path") hn
      have ht := nodeNamed_ne (by decide : "name" ≠ "trapinterfaces") hn
      rw [List.countP_cons_of_pos hn] at h1
      rw [List.countP_cons_of_neg (by rw [hp]; simp)] at h2
      rw [List.countP_cons_of_neg (by rw [ht]; simp)] at h3 ⊢
      obtain ⟨key, hkey, rfl, hfree⟩ := hname c (by simp) hn
      have hlast : children = [] → (1 : Int) = 1 ∧ b.elems.path = 1 := by
        rintro rfl
        exact ⟨rfl, by simpa using h2⟩
      rw [scanBasicElements_step (scanBasicElement_name hn hkey (by omega) hfree) hlast]
      exact ih hnameR hpathR ⟨by simp, h0.2⟩ (by simp only; omega) h2 h3 (fun _ => rfl)
    · rw [List.countP_cons_of_neg hn] at h1
      by_cases hp : c.nodeNamed "path" = true
      · have ht := nodeNamed_ne (by decide : "path" ≠ "trapinterfaces") hp
        rw [List.countP_cons_of_pos hp] at h2
        rw [List.countP_cons_of_neg (by rw [ht]; simp)] at h3 ⊢
        obtain ⟨key, hkey⟩ := hpath c (by simp) hp
        have hlast : children = [] → b.elems.name = 1 ∧ (1 : Int) = 1 := by
          rintro rfl
          exact ⟨by simpa using h1, rfl⟩
        rw [scanBasicElements_step (scanBasicElement_path hp hkey (by omega)) hlast]
        exact ih hnameR hpathR ⟨h0.1, by simp, h0.2.2⟩ h1 (by simp only; omega) h3 hfound
      · rw [List.countP_cons_of_neg hp] at h2
        have hlast : children = [] → b.elems.name = 1 ∧ b.elems.path = 1 := by
          rintro rfl
          exact ⟨by simpa using h1, by simpa using h2⟩
        by_cases ht : c.nodeNamed "trapinterfaces" = true
        · rw [List.countP_cons_of_pos ht] at h3 ⊢
          have hsum : b.elems.trapifc + (children.countP (nodeNamed "trapinterfaces") + 1 : Nat) =
              b.elems.trapifc + 1 + children.countP (nodeNamed "trapinterfaces") := by omega
          rw [scanBasicElements_step (scanBasicElement_trapinterfaces ht (by omega)) hlast, hsum]
          exact ih hnameR hpathR ⟨h0.1, h0.2.1, by simp only; omega⟩ h1 h2 (by simp only; omega)
            hfound
        · rw [List.countP_cons_of_neg ht] at h3 ⊢
          rw [scanBasicElements_step (scanBasicElement_other hn hp ht) hlast]
          exact ih hnameR hpathR h0 h1 h2 h3 hfound

/-- A kind that occurs at most once is found wherever it stands. -/
theorem find?_once {rules : List ChildRule} {children : List XmlNode} (h : Allowed rules children)
    {r : ChildRule} (hr : r ∈ rules) (ho : r.once = true) {c : XmlNode} (hc : c ∈ children)
    (hn : c.elementNamed r.tag = true) : children.find? (elementNamed r.tag) = some c := by
  have hone := h.once r hr ho
  rw [List.countP_eq_length_filter] at hone
  have hmem : c ∈ children.filter (elementNamed r.tag) := by simp [hc, hn]
  rw [← List.head?_filter]
  match hl : children.filter (elementNamed r.tag), hmem, hone with
  | [d], hmem, _ => simpa using (List.mem_singleton.mp hmem).symm

theorem childValue_eq {rules : List ChildRule} {children : List XmlNode} (h : Allowed rules children)
    {r : ChildRule} (hr : r ∈ rules) (ho : r.once = true) {c : XmlNode} (hc : c ∈ children)
    (hn : c.elementNamed r.tag = true) : childValue r.tag children = c.value := by
  simp [childValue, find?_once h hr ho hc hn]

/-- The slot an element is applied to, when the loaded names are distinct. -/
def targetOf (s : Supervisor) (name : String) : Nat × Bool :=
  match findLoadedModule s name with
  | none => (s.loadedModulesCnt, true)
  | some x => (x, false)

theorem reloadFindAndCheckModuleBasicElements_ok {s : Supervisor} {e : XmlNode}
    (hg : ModuleGrammar e) {name : String} (hname : moduleName e = some name)
    (hfree : ∀ x, findLoadedModule s name = some x →
      (s.loaded[x]?).any (·.moduleCheckedByReload) = false) (next : List XmlNode) :
    reloadFindAndCheckModuleBasicElements s (e :: next) 0 =
      some (0, e, (targetOf s name).1, (targetOf s name).2,
        ((e.xmlChildrenNode.countP (nodeNamed "trapinterfaces") : Nat) : Int)) := by
  have hd := moduleRules_distinct []
  have hcount : ∀ tag, tag ≠ "text" → tag ≠ "comment" →
      e.xmlChildrenNode.countP (nodeNamed tag) = e.xmlChildrenNode.countP (elementNamed tag) :=
    fun tag ht hc => countP_nodeNamed hg.allowed ht hc
  have hnames : ∀ c ∈ e.xmlChildrenNode, c.nodeNamed "name" = true → c.value = some name := by
    intro c hc hn
    rw [nodeNamed_eq_elementNamed hg.allowed (by decide) (by decide) hc] at hn
    rw [← hname, moduleName]
    exact (childValue_eq hg.allowed (r := ⟨"name", true, checkUnique "module" []⟩)
      (by simp [moduleRules]) rfl hc hn).symm
  have hname1 : e.xmlChildrenNode.countP (nodeNamed "name") = 1 := by
    rw [hcount "name" (by decide) (by decide)]
    have hle := hg.allowed.once ⟨"name", true, checkUnique "module" []⟩ (by simp [moduleRules]) rfl
    have hpos : 0 < e.xmlChildrenNode.countP (elementNamed "name") := by
      rw [List.countP_pos_iff]
      cases hf : e.xmlChildrenNode.find? (elementNamed "name") with
      | none => simp [moduleName, childValue, hf] at hname
      | some c => exact ⟨c, List.mem_of_find?_eq_some hf, List.find?_some hf⟩
    simp only at hle
    omega
  have hpath1 : e.xmlChildrenNode.countP (nodeNamed "path") = 1 := by
    rw [hcount "path" (by decide) (by decide)]
    have hle := hg.allowed.once ⟨"path", true, checkNonEmpty "path"⟩ (by simp [moduleRules]) rfl
    have hpos := hg.path
    simp only at hle
    omega
  have htrap1 : e.xmlChildrenNode.countP (nodeNamed "trapinterfaces") ≤ 1 := by
    rw [hcount "trapinterfaces" (by decide) (by decide)]
    exact hg.allowed.once ⟨"trapinterfaces", true, checkAny⟩ (by simp [moduleRules]) rfl
  have hscan := scanBasicElements_ok (s := s) (targetOf s name) (b := .empty)
    (fun c hc hn => ⟨name, hnames c hc hn, rfl, hfree⟩)
    (fun c hc hn => checkNonEmpty_eq_ok.mp (value_of_allowed hd hg.allowed
      (r := ⟨"path", true, checkNonEmpty "path"⟩) (by simp [moduleRules]) hc hn (by decide)
      (by decide)))
    (by simp [BasicScan.empty]) (by simp [BasicScan.empty, hname1])
    (by simp [BasicScan.empty, hpath1]) (by simp [BasicScan.empty]; omega)
    (by simp [BasicScan.empty])
  unfold reloadFindAndCheckModuleBasicElements
  rw [hscan]
  have htrap : ¬ (BasicScan.empty.elems.trapifc +
      (e.xmlChildrenNode.countP (nodeNamed "trapinterfaces") : Int) > 1) := by
    simp only [BasicScan.empty]
    omega
  simp only [ne_eq, not_true_eq_false, false_or, htrap, if_false, Option.map_some]
  simp [BasicScan.empty]

theorem scanProfileElements_ok {children : List XmlNode} {p : ProfileScan} (name : String)
    (enabled : Bool)
    (hname : ∀ c ∈ children, c.nodeNamed "name" = true → c.value = some name)
    (henabled : ∀ c ∈ children, c.nodeNamed "enabled" = true →
      ∃ key, c.value = some key ∧ (key == "true") = enabled)
    (h0 : 0 ≤ p.name ∧ 0 ≤ p.enabled)
    (h1 : p.name + children.countP (nodeNamed "name") = 1)
    (h2 : p.enabled + children.countP (nodeNamed "enabled") = 1)
    (hn : p.name = 1 → p.newProfileName = some name)
    (he : p.enabled = 1 → p.newProfileEnabled = enabled) :
    scanProfileElements children p = ⟨1, 1, some name, enabled⟩ := by
  induction children generalizing p with
  | nil =>
    obtain ⟨n, e, s, b⟩ := p
    simp only [List.countP_nil] at h1 h2
    have hn1 : n = 1 := by simpa using h1
    have he1 : e = 1 := by simpa using h2
    subst hn1 he1
    have hs := hn rfl
    have hb := he rfl
    simp only at hs hb
    simp [scanProfileElements, hs, hb]
  | cons c children ih =>
    have hnameR := fun d hd => hname d (List.mem_cons_of_mem c hd)
    have henabledR := fun d hd => henabled d (List.mem_cons_of_mem c hd)
    by_cases hcn : c.nodeNamed "name" = true
    · have hce := nodeNamed_ne (by decide : "name" ≠ "enabled") hcn
      rw [List.countP_cons_of_pos hcn] at h1
      rw [List.countP_cons_of_neg (by rw [hce]; simp)] at h2
      have hp : p.name + 1 = 1 := by omega
      rw [scanProfileElements, if_pos hcn, hname c (by simp) hcn]
      simp only [hp, if_true]
      exact ih hnameR henabledR ⟨by simp, h0.2⟩ (by simp only; omega) h2 (fun _ => rfl) he
    · rw [List.countP_cons_of_neg hcn] at h1
      by_cases hce : c.nodeNamed "enabled" = true
      · rw [List.countP_cons_of_pos hce] at h2
        obtain ⟨key, hkey, htrue⟩ := henabled c (by simp) hce
        have hp : p.enabled + 1 = 1 := by omega
        rw [scanProfileElements, if_neg hcn, if_pos hce, hkey]
        simp only [hp, if_true]
        exact ih hnameR henabledR ⟨h0.1, by simp⟩ h1 (by simp only; omega) hn (fun _ => htrue)
      · rw [List.countP_cons_of_neg hce] at h2
        rw [scanProfileElements, if_neg hcn, if_neg hce]
        exact ih hnameR henabledR h0 h1 h2 hn he

/-- The profile that a modules element describes. -/
def profileOfElem (ms : XmlNode) : ModulesProfile :=
  ⟨(moduleName ms).getD "", moduleElemEnabled ms⟩

theorem reloadFindAndCheckModulesProfileBasicElements_ok {ms : XmlNode} (hg : ModulesGrammar ms) :
    reloadFindAndCheckModulesProfileBasicElements ms.xmlChildrenNode = some (profileOfElem ms) := by
  obtain ⟨name, hname⟩ := hg.name
  have hd := modulesRules_distinct []
  have hnamed : ∀ {c tag}, c ∈ ms.xmlChildrenNode → tag ≠ "text" → tag ≠ "comment" →
      c.nodeNamed tag = true → c.elementNamed tag = true := by
    intro c tag hc ht hcom hn
    rwa [← nodeNamed_eq_elementNamed hg.allowed ht hcom hc]
  have hname1 : ms.xmlChildrenNode.countP (nodeNamed "name") = 1 := by
    rw [countP_nodeNamed hg.allowed (by decide) (by decide)]
    have hle := hg.allowed.once ⟨"name", true, checkUnique "profile" []⟩ (by simp [modulesRules]) rfl
    have hpos : 0 < ms.xmlChildrenNode.countP (elementNamed "name") := by
      rw [List.countP_pos_iff]
      cases hf : ms.xmlChildrenNode.find? (elementNamed "name") with
      | none => simp [childValue, hf] at hname
      | some c => exact ⟨c, List.mem_of_find?_eq_some hf, List.find?_some hf⟩
    simp only at hle
    omega
  have henabled1 : ms.xmlChildrenNode.countP (nodeNamed "enabled") = 1 := by
    rw [countP_nodeNamed hg.allowed (by decide) (by decide)]
    have hle := hg.allowed.once ⟨"enabled", true, checkEnabled⟩ (by simp [modulesRules]) rfl
    have hpos := hg.enabled
    simp only at hle
    omega
  have hscan := scanProfileElements_ok (p := ⟨0, 0, none, false⟩) name (moduleElemEnabled ms)
    (fun c hc hn => (childValue_eq hg.allowed (r := ⟨"name", true, checkUnique "profile" []⟩)
      (by simp [modulesRules]) rfl hc (hnamed hc (by decide) (by decide) hn)).symm.trans hname)
    (fun c hc hn => by
      have hcheck := value_of_allowed hd hg.allowed (r := ⟨"enabled", true, checkEnabled⟩)
        (by simp [modulesRules]) hc hn (by decide) (by decide)
      have hv := childValue_eq hg.allowed (r := ⟨"enabled", true, checkEnabled⟩)
        (by simp [modulesRules]) rfl hc (hnamed hc (by decide) (by decide) hn)
      simp only at hv
      rcases checkEnabled_eq_ok.mp hcheck with h | h
      · exact ⟨"true", h, by simp [moduleElemEnabled, hv, h]⟩
      · exact ⟨"false", h, by simp [moduleElemEnabled, hv, h]⟩)
    (by simp) (by simp [hname1]) (by simp [henabled1]) (by simp) (by simp)
  simp [reloadFindAndCheckModulesProfileBasicElements, hscan, profileOfElem, moduleName, hname]

/-! ## The apply loop, slot by slot -/

/-- Apply a module element, paired with the position of its profile, to a slot. -/
def placeElement (choice : ReloadChoice) (newModule : Bool) (d : Nat × XmlNode)
    (m : RunningModule) : RunningModule :=
  applyModuleElement choice (some d.1) newModule
    (d.2.xmlChildrenNode.countP (nodeNamed "trapinterfaces")) d.2 m

/-- The element with the name of a loaded module. -/
def docFor (ds : List (Nat × XmlNode)) (m : RunningModule) : Option (Nat × XmlNode) :=
  ds.find? fun d => moduleName d.2 == m.moduleName

def placeOld (choice : ReloadChoice) (ds : List (Nat × XmlNode)) (m : RunningModule) :
    RunningModule :=
  match docFor ds m with
  | some d => placeElement choice false d m
  | none => m

/-- The elements whose names are not loaded. -/
def newDocs (s : Supervisor) (ds : List (Nat × XmlNode)) : List (Nat × XmlNode) :=
  ds.filter fun d => s.loaded.all fun m => m.moduleName != moduleName d.2

/-- The `k`-th slot after the loaded ones, also when the table has to grow for it. -/
def slotAt (s : Supervisor) (k : Nat) : RunningModule := s.spare.getD k RunningModule.fresh

def newModules (choice : ReloadChoice) (s : Supervisor) (ds : List (Nat × XmlNode)) :
    List RunningModule :=
  (newDocs s ds).mapIdx fun k d => placeElement choice true d (slotAt s k)

/-- A table on which the apply loop may start. -/
structure Ready (s : Supervisor) : Prop where
  named : ∀ m ∈ s.loaded, ∃ name, m.moduleName = some name
  distinct : (s.loaded.map RunningModule.moduleName).Nodup
  unchecked : ∀ m ∈ s.loaded, m.moduleCheckedByReload = false
  ifces : ∀ m ∈ s.loaded, IfcArray m
  spare : ∀ k, SlotFor true (slotAt s k)
  size : 2 ≤ s.runningModulesArraySize

/-- The table after the elements `ds` have been applied. -/
structure Placed (choice : ReloadChoice) (s0 : Supervisor) (ds : List (Nat × XmlNode))
    (s : Supervisor) : Prop where
  loaded : s.loaded = s0.loaded.map (placeOld choice ds) ++ newModules choice s0 ds
  spare : ∀ k, slotAt s k = slotAt s0 ((newDocs s0 ds).length + k)
  size : 2 ≤ s.runningModulesArraySize

/-- The elements of a document that the loop may be given. -/
structure GoodDocs (ds : List (Nat × XmlNode)) : Prop where
  grammar : ∀ d ∈ ds, ModuleGrammar d.2
  distinct : (ds.map fun d => moduleName d.2).Nodup

theorem GoodDocs.left {ds es : List (Nat × XmlNode)} (h : GoodDocs (ds ++ es)) : GoodDocs ds := by
  refine ⟨fun d hd => h.grammar d (List.mem_append_left _ hd), ?_⟩
  have := h.distinct
  rw [List.map_append] at this
  exact this.of_append_left

theorem placeElement_applied (choice : ReloadChoice) {newModule : Bool} {d : Nat × XmlNode}
    (hg : ModuleGrammar d.2) {m : RunningModule} (h : SlotFor newModule m) :
    Applied choice d.1 newModule d.2 m (placeElement choice newModule d m) :=
  applyModuleElement_applied hg choice d.1 h

section loop

variable {choice : ReloadChoice} {s0 : Supervisor} {ds : List (Nat × XmlNode)}

theorem docFor_mem {m : RunningModule} {d : Nat × XmlNode} (h : docFor ds m = some d) :
    d ∈ ds ∧ moduleName d.2 = m.moduleName :=
  ⟨List.mem_of_find?_eq_some h, by simpa using List.find?_some h⟩

theorem placeOld_name (hd : GoodDocs ds) {m : RunningModule} (h : IfcArray m) :
    (placeOld choice ds m).moduleName = m.moduleName := by
  unfold placeOld
  cases hf : docFor ds m with
  | none => rfl
  | some d =>
    have hslot : SlotFor false m := h
    exact (placeElement_applied choice (hd.grammar d (docFor_mem hf).1) hslot).name

/-- The names in the table: the old ones in place, then the new ones. -/
theorem Placed.names {s : Supervisor} (h0 : Ready s0) (hd : GoodDocs ds)
    (h : Placed choice s0 ds s) :
    s.loaded.map RunningModule.moduleName =
      s0.loaded.map RunningModule.moduleName ++ (newDocs s0 ds).map fun d => moduleName d.2 := by
  rw [h.loaded, List.map_append, List.map_map]
  congr 1
  · exact List.map_congr_left fun m hm => placeOld_name hd (h0.ifces m hm)
  · apply List.ext_getElem?
    intro k
    simp only [newModules, List.getElem?_map, List.getElem?_mapIdx, Option.map_map]
    cases hk : (newDocs s0 ds)[k]? with
    | none => rfl
    | some d =>
      have hmem : d ∈ ds := List.mem_of_mem_filter (List.mem_of_getElem? hk)
      simpa using (placeElement_applied choice (hd.grammar d hmem) (h0.spare k)).name

theorem findLoadedModule_eq (s : Supervisor) (name : String) :
    findLoadedModule s name =
      (s.loaded.map RunningModule.moduleName).findIdx? (· == some name) := by
  rw [findLoadedModule, List.findIdx?_map]
  rfl

/-- A name that was not applied yet is found where it was at the start. -/
theorem Placed.find {s : Supervisor} (h0 : Ready s0) (hd : GoodDocs ds)
    (h : Placed choice s0 ds s) {name : String} (hnew : ∀ d ∈ ds, moduleName d.2 ≠ some name) :
    findLoadedModule s name = findLoadedModule s0 name := by
  have hnone : ((newDocs s0 ds).map fun d => moduleName d.2).findIdx? (· == some name) = none := by
    rw [List.findIdx?_eq_none_iff]
    intro n hn
    obtain ⟨d, hdm, rfl⟩ := List.mem_map.mp hn
    simpa using hnew d (List.mem_of_mem_filter hdm)
  rw [findLoadedModule_eq, findLoadedModule_eq, h.names h0 hd, List.findIdx?_append, hnone]
  simp

/-- Growing the table changes no slot. -/
theorem checkRunningModulesAllocatedMemory_slots {s : Supervisor}
    (hsize : 2 ≤ s.runningModulesArraySize) :
    ∃ spare, checkRunningModulesAllocatedMemory s = { s with spare } ∧ spare ≠ [] ∧
      s.spare.length ≤ spare.length ∧ ∀ k, spare.getD k RunningModule.fresh = slotAt s k := by
  unfold checkRunningModulesAllocatedMemory
  rw [if_neg (by omega)]
  by_cases hfull : s.loadedModulesCnt = s.runningModulesArraySize
  · have hnil : s.spare = [] := by
      simp only [Supervisor.loadedModulesCnt, Supervisor.runningModulesArraySize] at hfull
      exact List.eq_nil_of_length_eq_zero (by omega)
    rw [if_pos hfull]
    refine ⟨_, rfl, ?_, by simp [hnil], ?_⟩
    · intro h
      have := congrArg List.length h
      simp only [List.length_replicate, List.length_nil] at this
      omega
    · intro k
      simp only [slotAt, hnil, List.getD_eq_getElem?_getD, List.getElem?_replicate,
        List.getElem?_nil]
      split_ifs <;> rfl
  · rw [if_neg hfull]
    refine ⟨s.spare, rfl, ?_, Nat.le_refl _, fun k => rfl⟩
    intro h
    apply hfull
    simp [Supervisor.loadedModulesCnt, Supervisor.runningModulesArraySize, h]

theorem newDocs_append (s : Supervisor) (ds : List (Nat × XmlNode)) (d : Nat × XmlNode) :
    newDocs s (ds ++ [d]) =
      newDocs s ds ++ if s.loaded.all fun m => m.moduleName != moduleName d.2 then [d] else [] := by
  rw [newDocs, List.filter_append, ← newDocs]
  congr 1
  rw [List.filter_cons, List.filter_nil]

theorem docFor_none {m : RunningModule} (h : ∀ d' ∈ ds, moduleName d'.2 ≠ m.moduleName) :
    docFor ds m = none := by
  rw [docFor, List.find?_eq_none]
  intro d' hd'
  simpa using h d' hd'

/-- A module no earlier element names meets the one that does. -/
theorem docFor_snoc {d : Nat × XmlNode} {m : RunningModule} (hd : moduleName d.2 = m.moduleName)
    (h : ∀ d' ∈ ds, moduleName d'.2 ≠ m.moduleName) : docFor (ds ++ [d]) m = some d := by
  rw [docFor, List.find?_append, ← docFor, docFor_none h]
  simp [hd]

theorem placeOld_append {d : Nat × XmlNode} {m : RunningModule}
    (hne : moduleName d.2 ≠ m.moduleName) :
    placeOld choice (ds ++ [d]) m = placeOld choice ds m := by
  have : docFor (ds ++ [d]) m = docFor ds m := by
    rw [docFor, List.find?_append, ← docFor]
    simp [hne]
  simp only [placeOld, this]

/-- The element of a name that is not loaded takes the next slot. -/
theorem Placed.new {s : Supervisor} (h : Placed choice s0 ds s) {d : Nat × XmlNode}
    (hnew : ∀ m ∈ s0.loaded, m.moduleName ≠ moduleName d.2) {s' : Supervisor}
    (hs' : s' = checkRunningModulesAllocatedMemory s) :
    Placed choice s0 (ds ++ [d])
      (applyAt choice (some d.1) s' d.2 s'.loadedModulesCnt true
        (d.2.xmlChildrenNode.countP (nodeNamed "trapinterfaces"))) := by
  obtain ⟨spare, heq, hne, hgrow, hslots⟩ := checkRunningModulesAllocatedMemory_slots h.size
  rw [← hs'] at heq
  subst heq
  obtain ⟨m, rest, rfl⟩ := List.exists_cons_of_ne_nil hne
  have hm : m = slotAt s0 (newDocs s0 ds).length := by
    have := (hslots 0).trans (h.spare 0)
    simpa using this
  have hall : (s0.loaded.all fun m => m.moduleName != moduleName d.2) = true := by
    rw [List.all_eq_true]
    intro m' hm'
    simpa using hnew m' hm'
  have hdocs : newDocs s0 (ds ++ [d]) = newDocs s0 ds ++ [d] := by
    rw [newDocs_append, if_pos hall]
  have hmods : newModules choice s0 (ds ++ [d]) =
      newModules choice s0 ds ++ [placeElement choice true d m] := by
    rw [newModules, hdocs, List.mapIdx_append, ← newModules, hm]
    simp
  have hold : s0.loaded.map (placeOld choice (ds ++ [d])) = s0.loaded.map (placeOld choice ds) :=
    List.map_congr_left fun m' hm' => placeOld_append (hnew m' hm').symm
  have happly : applyAt choice (some d.1) { s with spare := m :: rest } d.2
      (Supervisor.loadedModulesCnt { s with spare := m :: rest }) true
      (d.2.xmlChildrenNode.countP (nodeNamed "trapinterfaces")) =
      { s with loaded := s.loaded ++ [placeElement choice true d m], spare := rest } := by
    simp [applyAt, Supervisor.loadedModulesCnt, placeElement]
  rw [happly]
  refine ⟨?_, ?_, ?_⟩
  · rw [hmods, hold, ← List.append_assoc, ← h.loaded]
  · intro k
    have hk := (hslots (k + 1)).trans (h.spare (k + 1))
    have hlen : (newDocs s0 (ds ++ [d])).length + k = (newDocs s0 ds).length + (k + 1) := by
      rw [hdocs, List.length_append, List.length_singleton]
      omega
    rw [hlen, ← hk]
    simp [slotAt]
  · have hsize := h.size
    simp only [List.length_cons] at hgrow
    simp only [Supervisor.runningModulesArraySize, List.length_append, List.length_singleton]
      at hsize ⊢
    omega

/-- Applying an element to the slot of its module settles that slot and no other. -/
theorem map_placeOld_set {mods : List RunningModule} (hdistinct : (mods.map (·.moduleName)).Nodup)
    {d : Nat × XmlNode} {x : Nat} {m : RunningModule} (hx : mods[x]? = some m)
    (hd : moduleName d.2 = m.moduleName) (h : ∀ d' ∈ ds, moduleName d'.2 ≠ m.moduleName) :
    (mods.map (placeOld choice ds)).set x (placeElement choice false d m) =
      mods.map (placeOld choice (ds ++ [d])) := by
  apply List.ext_getElem?
  intro y
  rw [List.getElem?_set, List.getElem?_map, List.getElem?_map, List.length_map]
  have hlt := (List.getElem?_eq_some_iff.mp hx).1
  by_cases hxy : x = y
  · subst hxy
    simp only [hlt, if_true, hx, Option.map_some, placeOld, docFor_snoc hd h]
  · rw [if_neg hxy]
    cases hy : mods[y]? with
    | none => rfl
    | some m' =>
      have hne : moduleName d.2 ≠ m'.moduleName := by
        intro he
        have hlen : x < (mods.map (·.moduleName)).length := by rwa [List.length_map]
        apply hxy
        apply (List.getElem?_inj hlen hdistinct).mp
        rw [List.getElem?_map, List.getElem?_map, hx, hy, Option.map_some, Option.map_some,
          ← hd, he]
      rw [Option.map_some, Option.map_some, placeOld_append hne]

/-- A module no earlier element names is still in its slot, as it was. -/
theorem Placed.unchanged {s : Supervisor} (h : Placed choice s0 ds s) {x : Nat} {m : RunningModule}
    (hx : s0.loaded[x]? = some m) (hfirst : ∀ d ∈ ds, moduleName d.2 ≠ m.moduleName) :
    s.loaded[x]? = some m := by
  have hlt : x < s0.loaded.length := (List.getElem?_eq_some_iff.mp hx).1
  rw [h.loaded, List.getElem?_append_left (by rw [List.length_map]; exact hlt), List.getElem?_map,
    hx]
  simp [placeOld, docFor_none hfirst]

/-- The element of a loaded name is applied to that module's slot. -/
theorem Placed.old {s : Supervisor} (h0 : Ready s0) (h : Placed choice s0 ds s)
    {d : Nat × XmlNode} (hfirst : ∀ d' ∈ ds, moduleName d'.2 ≠ moduleName d.2) {x : Nat}
    {m : RunningModule} (hx : s0.loaded[x]? = some m) (hm : m.moduleName = moduleName d.2)
    {s' : Supervisor} (hs' : s' = checkRunningModulesAllocatedMemory s) :
    Placed choice s0 (ds ++ [d])
      (applyAt choice (some d.1) s' d.2 x false
        (d.2.xmlChildrenNode.countP (nodeNamed "trapinterfaces"))) := by
  obtain ⟨spare, heq, hne, hgrow, hslots⟩ := checkRunningModulesAllocatedMemory_slots h.size
  rw [← hs'] at heq
  subst heq
  have hlt : x < s0.loaded.length := by
    rw [List.getElem?_eq_some_iff] at hx
    exact hx.1
  have hlen : s.loaded.length = s0.loaded.length + (newModules choice s0 ds).length := by
    rw [h.loaded, List.length_append, List.length_map]
  have hother : ∀ d' ∈ ds, moduleName d'.2 ≠ m.moduleName := by
    rw [hm]
    exact hfirst
  have hslot : s.loaded[x]? = some m := h.unchanged hx hother
  have hin : (s0.loaded.all fun m => m.moduleName != moduleName d.2) = false := by
    rw [List.all_eq_false]
    exact ⟨m, List.mem_of_getElem? hx, by simp [hm]⟩
  have hdocs : newDocs s0 (ds ++ [d]) = newDocs s0 ds := by
    rw [newDocs_append, hin]
    simp
  have happly : applyAt choice (some d.1) { s with spare } d.2 x false
      (d.2.xmlChildrenNode.countP (nodeNamed "trapinterfaces")) =
      { s with loaded := s.loaded.set x (placeElement choice false d m), spare } := by
    simp only [applyAt]
    rw [if_neg (by omega), hslot]
    rfl
  rw [happly]
  refine ⟨?_, ?_, ?_⟩
  · rw [h.loaded, List.set_append_left _ _ (by rw [List.length_map]; exact hlt),
      map_placeOld_set h0.distinct hx hm.symm hother]
    simp only [newModules, hdocs]
  · intro k
    rw [hdocs, ← h.spare k]
    exact hslots k
  · have hsize := h.size
    simp only [Supervisor.runningModulesArraySize, List.length_set] at hsize ⊢
    omega

end loop

end NemeaSupervisor
