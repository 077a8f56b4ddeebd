import NemeaSupervisor.TableInvariant

/-!
# The grammar of configuration documents

The documents that `validate_configuration` accepts, said without its check
functions: which elements stand below which, how often, and with what text. Text
nodes and comments may stand anywhere.
-/

namespace NemeaSupervisor

open CText XmlNode

/-! ## Lists of children -/

/-- Every child is a text, a comment or an element with one of the tags. -/
def Only (tags : List String) (children : List XmlNode) : Prop :=
  ∀ c ∈ children, c.isSkipped = true ∨ ∃ tag ∈ tags, c.elementNamed tag = true

/-- Every element with the tag has a text that meets `P`. -/
def Texts (tag : String) (P : Option String → Prop) (children : List XmlNode) : Prop :=
  ∀ c ∈ children, c.elementNamed tag = true → P c.value

def AtMostOne (tag : String) (P : Option String → Prop) (children : List XmlNode) : Prop :=
  children.countP (elementNamed tag) ≤ 1 ∧ Texts tag P children

def ExactlyOne (tag : String) (P : Option String → Prop) (children : List XmlNode) : Prop :=
  children.countP (elementNamed tag) = 1 ∧ Texts tag P children

/-! ## Texts -/

def AnyText (_ : Option String) : Prop := True

def NonEmptyText (v : Option String) : Prop := ∃ text, v = some text

def TextIn (texts : List String) (v : Option String) : Prop := ∃ text ∈ texts, v = some text

/-- A text that `sscanf` reads as a number from 0 to 30. -/
def RestartsText (v : Option String) : Prop :=
  ∃ text number, v = some text ∧ sscanfInt text = some number ∧ 0 ≤ number ∧ number ≤ 30

/-! ## Elements -/

structure InterfaceElement (e : XmlNode) : Prop where
  nonempty : e.xmlChildrenNode ≠ []
  only : Only ["note", "type", "direction", "params"] e.xmlChildrenNode
  note : AtMostOne "note" NonEmptyText e.xmlChildrenNode
  type : AtMostOne "type" (TextIn ["TCP", "UNIXSOCKET", "FILE", "BLACKHOLE", "TLS"])
    e.xmlChildrenNode
  direction : AtMostOne "direction" (TextIn ["IN", "OUT"]) e.xmlChildrenNode
  params : AtMostOne "params" AnyText e.xmlChildrenNode

structure TrapinterfacesElement (e : XmlNode) : Prop where
  only : Only ["interface"] e.xmlChildrenNode
  interfaces : ∀ i ∈ e.xmlChildrenNode, i.elementNamed "interface" = true → InterfaceElement i

structure ModuleElement (e : XmlNode) : Prop where
  nonempty : e.xmlChildrenNode ≠ []
  only : Only ["name", "enabled", "path", "trapinterfaces", "module-restarts", "params"]
    e.xmlChildrenNode
  name : ExactlyOne "name" NonEmptyText e.xmlChildrenNode
  path : ExactlyOne "path" NonEmptyText e.xmlChildrenNode
  enabled : ExactlyOne "enabled" (TextIn ["true", "false"]) e.xmlChildrenNode
  params : AtMostOne "params" AnyText e.xmlChildrenNode
  trapinterfaces : AtMostOne "trapinterfaces" AnyText e.xmlChildrenNode
  restarts : AtMostOne "module-restarts" RestartsText e.xmlChildrenNode
  interfaces : ∀ t ∈ e.xmlChildrenNode, t.elementNamed "trapinterfaces" = true →
    TrapinterfacesElement t

structure ModulesElement (e : XmlNode) : Prop where
  only : Only ["name", "enabled", "module"] e.xmlChildrenNode
  name : ExactlyOne "name" NonEmptyText e.xmlChildrenNode
  enabled : ExactlyOne "enabled" (TextIn ["true", "false"]) e.xmlChildrenNode
  modules : ∀ m ∈ e.xmlChildrenNode, m.elementNamed "module" = true → ModuleElement m

structure SupervisorElement (e : XmlNode) : Prop where
  nonempty : e.xmlChildrenNode ≠ []
  only : Only ["module-restarts"] e.xmlChildrenNode
  restarts : AtMostOne "module-restarts" RestartsText e.xmlChildrenNode

/-- The grammar of the whole document. -/
structure ConfigurationDocument (root : XmlNode) : Prop where
  named : root.elementNamed "nemea-supervisor" = true
  nonempty : root.xmlChildrenNode ≠ []
  only : Only ["supervisor", "modules"] root.xmlChildrenNode
  supervisorOnce : root.xmlChildrenNode.countP (elementNamed "supervisor") ≤ 1
  supervisor : ∀ c ∈ root.xmlChildrenNode, c.elementNamed "supervisor" = true →
    SupervisorElement c
  modules : ∀ c ∈ root.xmlChildrenNode, c.elementNamed "modules" = true → ModulesElement c
  profileNames : ((modulesElems root.xmlChildrenNode).map moduleName).Nodup
  moduleNames : (((modulesElems root.xmlChildrenNode).flatMap moduleElems).map moduleName).Nodup

/-! ## The rules of a check function -/

/-- What a rule says about the elements with its tag. -/
def RuleHolds (children : List XmlNode) (r : ChildRule) : Prop :=
  (r.once = true → children.countP (elementNamed r.tag) ≤ 1) ∧
    Texts r.tag (fun v => r.check v = .ok ()) children

theorem allowed_iff {rules : List ChildRule} (hd : Distinct rules) {children : List XmlNode} :
    Allowed rules children ↔
      Only (rules.map ChildRule.tag) children ∧ ∀ r ∈ rules, RuleHolds children r := by
  constructor
  · intro h
    refine ⟨fun c hc => ?_, fun r hr => ⟨h.once r hr, fun c hc hn => ?_⟩⟩
    · rcases h.kinds c hc with hs | ⟨r, hr, hn, -⟩
      · exact .inl hs
      · exact .inr ⟨r.tag, List.mem_map_of_mem hr, hn⟩
    · rcases h.kinds c hc with hs | ⟨r', hr', hn', hcheck⟩
      · rw [isSkipped_not_elementNamed hs] at hn
        exact absurd hn (by simp)
      · rwa [rule_unique hd hr hr' hn hn']
  · rintro ⟨honly, hrules⟩
    refine ⟨fun c hc => ?_, fun r hr => (hrules r hr).1⟩
    rcases honly c hc with hs | ⟨tag, htag, hn⟩
    · exact .inl hs
    · obtain ⟨r, hr, rfl⟩ := List.mem_map.mp htag
      exact .inr ⟨r, hr, hn, (hrules r hr).2 c hc hn⟩

theorem ruleHolds_once {tag : String} {check : Option String → Except String Unit}
    {P : Option String → Prop} (hP : ∀ v, check v = .ok () ↔ P v) {children : List XmlNode} :
    RuleHolds children ⟨tag, true, check⟩ ↔ AtMostOne tag P children := by
  simp only [RuleHolds, AtMostOne, Texts, hP, true_imp_iff]

theorem checkNonEmpty_iff (tag : String) (v : Option String) :
    checkNonEmpty tag v = .ok () ↔ NonEmptyText v := checkNonEmpty_eq_ok

theorem checkUnique_iff (what : String) (v : Option String) :
    checkUnique what [] v = .ok () ↔ NonEmptyText v := by
  simp [checkUnique_eq_ok, NonEmptyText]

theorem checkOneOf_iff (tag expected : String) (texts : List String) (v : Option String) :
    checkOneOf tag expected texts v = .ok () ↔ TextIn texts v := by
  rw [checkOneOf_eq_ok, TextIn]
  exact exists_congr fun _ => and_comm

theorem checkEnabled_iff (v : Option String) :
    checkEnabled v = .ok () ↔ TextIn ["true", "false"] v := checkOneOf_iff _ _ _ v

theorem checkRestarts_iff (v : Option String) : checkRestarts v = .ok () ↔ RestartsText v :=
  checkRestarts_eq_ok

theorem checkAny_iff (v : Option String) : checkAny v = .ok () ↔ AnyText v :=
  ⟨fun _ => trivial, fun _ => rfl⟩

theorem exactlyOne_iff {tag : String} {P : Option String → Prop} {children : List XmlNode} :
    ExactlyOne tag P children ↔
      AtMostOne tag P children ∧ 0 < children.countP (elementNamed tag) := by
  unfold ExactlyOne AtMostOne
  constructor
  · rintro ⟨hone, htexts⟩
    exact ⟨⟨by omega, htexts⟩, by omega⟩
  · rintro ⟨⟨hle, htexts⟩, hpos⟩
    exact ⟨by omega, htexts⟩

/-! ## The elements -/

theorem interfaceGrammar_iff {e : XmlNode} : InterfaceGrammar e ↔ InterfaceElement e := by
  have hrules : Allowed interfaceRules e.xmlChildrenNode ↔
      Only ["note", "type", "direction", "params"] e.xmlChildrenNode ∧
        AtMostOne "note" NonEmptyText e.xmlChildrenNode ∧
        AtMostOne "type" (TextIn ["TCP", "UNIXSOCKET", "FILE", "BLACKHOLE", "TLS"])
          e.xmlChildrenNode ∧
        AtMostOne "direction" (TextIn ["IN", "OUT"]) e.xmlChildrenNode ∧
        AtMostOne "params" AnyText e.xmlChildrenNode := by
    rw [allowed_iff interfaceRules_distinct]
    simp only [interfaceRules, List.map_cons, List.map_nil, List.forall_mem_cons,
      List.not_mem_nil, false_imp_iff, implies_true, and_true,
      ruleHolds_once (checkNonEmpty_iff _), ruleHolds_once (checkOneOf_iff _ _ _),
      ruleHolds_once checkAny_iff]
  constructor
  · intro h
    obtain ⟨honly, hnote, htype, hdirection, hparams⟩ := hrules.mp h.allowed
    exact ⟨h.nonempty, honly, hnote, htype, hdirection, hparams⟩
  · intro h
    exact ⟨h.nonempty, hrules.mpr ⟨h.only, h.note, h.type, h.direction, h.params⟩⟩

theorem trapinterfacesGrammar_iff {e : XmlNode} :
    TrapinterfacesGrammar e ↔ TrapinterfacesElement e := by
  constructor
  · intro h
    refine ⟨fun i hi => ?_, fun i hi hn => ?_⟩
    · rcases h i hi with hs | ⟨hn, -⟩
      · exact .inl hs
      · exact .inr ⟨"interface", by simp, hn⟩
    · rcases h i hi with hs | ⟨-, hg⟩
      · rw [isSkipped_not_elementNamed hs] at hn
        exact absurd hn (by simp)
      · exact interfaceGrammar_iff.mp hg
  · intro h i hi
    rcases h.only i hi with hs | ⟨tag, htag, hn⟩
    · exact .inl hs
    · rw [List.mem_singleton.mp htag] at hn
      exact .inr ⟨hn, interfaceGrammar_iff.mpr (h.interfaces i hi hn)⟩

/-- The name is the text of the one name element. -/
theorem exists_name_iff {children : List XmlNode}
    (h : Texts "name" NonEmptyText children) :
    (∃ name, childValue "name" children = some name) ↔
      0 < children.countP (elementNamed "name") := by
  rw [List.countP_pos_iff]
  constructor
  · rintro ⟨name, hname⟩
    obtain ⟨c, hc, -⟩ := Option.bind_eq_some_iff.mp hname
    exact ⟨c, List.mem_of_find?_eq_some hc, List.find?_some hc⟩
  · rintro ⟨c, hc, hn⟩
    cases hf : children.find? (elementNamed "name") with
    | none => exact absurd hn (List.find?_eq_none.mp hf c hc)
    | some d =>
      obtain ⟨name, hname⟩ := h d (List.mem_of_find?_eq_some hf) (List.find?_some hf)
      exact ⟨name, by rw [childValue, hf]; exact hname⟩

theorem moduleGrammar_iff {e : XmlNode} : ModuleGrammar e ↔ ModuleElement e := by
  have hrules : Allowed (moduleRules []) e.xmlChildrenNode ↔
      Only ["name", "enabled", "path", "trapinterfaces", "module-restarts", "params"]
          e.xmlChildrenNode ∧
        AtMostOne "name" NonEmptyText e.xmlChildrenNode ∧
        AtMostOne "enabled" (TextIn ["true", "false"]) e.xmlChildrenNode ∧
        AtMostOne "path" NonEmptyText e.xmlChildrenNode ∧
        AtMostOne "trapinterfaces" AnyText e.xmlChildrenNode ∧
        AtMostOne "module-restarts" RestartsText e.xmlChildrenNode ∧
        AtMostOne "params" AnyText e.xmlChildrenNode := by
    rw [allowed_iff (moduleRules_distinct [])]
    simp only [moduleRules, List.map_cons, List.map_nil, List.forall_mem_cons,
      List.not_mem_nil, false_imp_iff, implies_true, and_true,
      ruleHolds_once (checkUnique_iff _), ruleHolds_once checkEnabled_iff,
      ruleHolds_once (checkNonEmpty_iff _), ruleHolds_once checkAny_iff,
      ruleHolds_once checkRestarts_iff]
  constructor
  · intro h
    obtain ⟨honly, hname, henabled, hpath, htrap, hrestarts, hparams⟩ := hrules.mp h.allowed
    refine ⟨fun hnil => ?_, honly, exactlyOne_iff.mpr ⟨hname, (exists_name_iff hname.2).mp h.name⟩,
      exactlyOne_iff.mpr ⟨hpath, h.path⟩, exactlyOne_iff.mpr ⟨henabled, h.enabled⟩, hparams, htrap,
      hrestarts, fun t ht hn => trapinterfacesGrammar_iff.mp (h.trapinterfaces t ht hn)⟩
    have hpos := h.path
    rw [hnil] at hpos
    exact absurd hpos (by simp)
  · intro h
    obtain ⟨hname, hnamed⟩ := exactlyOne_iff.mp h.name
    obtain ⟨hpath, hpathed⟩ := exactlyOne_iff.mp h.path
    obtain ⟨henabled, hon⟩ := exactlyOne_iff.mp h.enabled
    exact ⟨hrules.mpr ⟨h.only, hname, henabled, hpath, h.trapinterfaces, h.restarts, h.params⟩,
      (exists_name_iff hname.2).mpr hnamed, hpathed, hon,
      fun t ht hn => trapinterfacesGrammar_iff.mpr (h.interfaces t ht hn)⟩

theorem modulesGrammar_iff {e : XmlNode} : ModulesGrammar e ↔ ModulesElement e := by
  have hmodule : RuleHolds e.xmlChildrenNode ⟨"module", false, checkAny⟩ ↔ True := by
    simp [RuleHolds, Texts, checkAny_iff, AnyText]
  have hrules : Allowed (modulesRules []) e.xmlChildrenNode ↔
      Only ["name", "enabled", "module"] e.xmlChildrenNode ∧
        AtMostOne "name" NonEmptyText e.xmlChildrenNode ∧
        AtMostOne "enabled" (TextIn ["true", "false"]) e.xmlChildrenNode := by
    rw [allowed_iff (modulesRules_distinct [])]
    simp only [modulesRules, List.map_cons, List.map_nil, List.forall_mem_cons,
      List.not_mem_nil, false_imp_iff, implies_true, and_true, hmodule,
      ruleHolds_once (checkUnique_iff _), ruleHolds_once checkEnabled_iff]
  have hmodules : (∀ m ∈ moduleElems e, ModuleGrammar m) ↔
      ∀ m ∈ e.xmlChildrenNode, m.elementNamed "module" = true → ModuleElement m := by
    simp only [moduleElems, List.mem_filter, and_imp, moduleGrammar_iff]
  constructor
  · intro h
    obtain ⟨honly, hname, henabled⟩ := hrules.mp h.allowed
    exact ⟨honly, exactlyOne_iff.mpr ⟨hname, (exists_name_iff hname.2).mp h.name⟩,
      exactlyOne_iff.mpr ⟨henabled, h.enabled⟩, hmodules.mp h.modules⟩
  · intro h
    obtain ⟨hname, hnamed⟩ := exactlyOne_iff.mp h.name
    obtain ⟨henabled, hon⟩ := exactlyOne_iff.mp h.enabled
    exact ⟨hrules.mpr ⟨h.only, hname, henabled⟩, (exists_name_iff hname.2).mpr hnamed, hon,
      hmodules.mpr h.modules⟩

theorem supervisorGrammar_iff {e : XmlNode} :
    e.xmlChildrenNode ≠ [] ∧ Allowed supervisorRules e.xmlChildrenNode ↔ SupervisorElement e := by
  rw [allowed_iff supervisorRules_distinct]
  simp only [supervisorRules, List.map_cons, List.map_nil, List.forall_mem_cons,
    List.not_mem_nil, false_imp_iff, implies_true, and_true, ruleHolds_once checkRestarts_iff]
  constructor
  · rintro ⟨hne, honly, hrestarts⟩
    exact ⟨hne, honly, hrestarts⟩
  · intro h
    exact ⟨h.nonempty, h.only, h.restarts⟩

/-! ## The document -/

/-- Texts that are all there are distinct as texts. -/
theorem nodup_map_iff {α : Type} {f : α → Option String} {l : List α}
    (h : ∀ a ∈ l, ∃ text, f a = some text) : (l.map f).Nodup ↔ (l.filterMap f).Nodup := by
  rw [← filterMap_map_some h]
  exact ⟨fun hnd => hnd.of_map some, fun hnd => hnd.map fun _ _ => Option.some.inj⟩

theorem grammar_iff {root : XmlNode} : Grammar root ↔ ConfigurationDocument root := by
  have names : (∀ c ∈ root.xmlChildrenNode, c.elementNamed "modules" = true → ModulesGrammar c) →
      (∀ ms ∈ modulesElems root.xmlChildrenNode, ∃ name, moduleName ms = some name) ∧
        ∀ m ∈ (modulesElems root.xmlChildrenNode).flatMap moduleElems,
          ∃ name, moduleName m = some name := by
    intro h
    have hms : ∀ ms ∈ modulesElems root.xmlChildrenNode, ModulesGrammar ms := fun ms hms =>
      h ms (List.mem_filter.mp hms).1 (List.mem_filter.mp hms).2
    refine ⟨fun ms hmem => (hms ms hmem).name, fun m hm => ?_⟩
    obtain ⟨ms, hmem, hm⟩ := List.mem_flatMap.mp hm
    exact ((hms ms hmem).modules m hm).name
  constructor
  · intro h
    have kind : ∀ c ∈ root.xmlChildrenNode,
        (c.elementNamed "supervisor" = true → SupervisorElement c) ∧
          (c.elementNamed "modules" = true → ModulesGrammar c) := by
      intro c hc
      rcases h.nodes c hc with hs | ⟨hn, hg⟩ | ⟨hn, hg⟩
      · simp [isSkipped_not_elementNamed hs]
      · exact ⟨fun _ => supervisorGrammar_iff.mp hg,
          fun hm => absurd hm (by simp [elementNamed_ne (b := "modules") (by decide) hn])⟩
      · exact ⟨fun hm => absurd hm (by simp [elementNamed_ne (b := "supervisor") (by decide) hn]),
          fun _ => hg⟩
    obtain ⟨hprofiles, hmodules⟩ := names fun c hc => (kind c hc).2
    refine ⟨?_, h.nonempty, fun c hc => ?_, h.supervisorOnce, fun c hc => (kind c hc).1,
      fun c hc hn => modulesGrammar_iff.mp ((kind c hc).2 hn), (nodup_map_iff hprofiles).mpr
      h.profiles, (nodup_map_iff hmodules).mpr h.modules⟩
    · have hnamed := h.named
      cases root with
      | element name props children => simpa [elementNamed] using hnamed
      | _ => exact absurd rfl h.nonempty
    · rcases h.nodes c hc with hs | ⟨hn, -⟩ | ⟨hn, -⟩
      · exact .inl hs
      · exact .inr ⟨_, by simp, hn⟩
      · exact .inr ⟨_, by simp, hn⟩
  · intro h
    obtain ⟨hprofiles, hmodules⟩ := names fun c hc hn => modulesGrammar_iff.mpr (h.modules c hc hn)
    refine ⟨nodeNamed_of_elementNamed h.named, h.nonempty, fun c hc => ?_, h.supervisorOnce,
      (nodup_map_iff hprofiles).mp h.profileNames, (nodup_map_iff hmodules).mp h.moduleNames⟩
    rcases h.only c hc with hs | ⟨tag, htag, hn⟩
    · exact .inl hs
    · simp only [List.mem_cons, List.not_mem_nil, or_false] at htag
      rcases htag with rfl | rfl
      · exact .inr (.inl ⟨hn, supervisorGrammar_iff.mpr (h.supervisor c hc hn)⟩)
      · exact .inr (.inr ⟨hn, modulesGrammar_iff.mpr (h.modules c hc hn)⟩)

/-- `validate_configuration` returns 0 exactly for the documents of the grammar. -/
theorem validate_iff_document (root : XmlNode) :
    validateConfiguration (some root) = .ok () ↔ ConfigurationDocument root := by
  rw [validateConfiguration_eq_ok, ← grammar_iff]
  constructor
  · rintro ⟨r, hr, hg⟩
    rwa [Option.some.inj hr]
  · intro hg
    exact ⟨root, rfl, hg⟩

end NemeaSupervisor
