import NemeaSupervisor.Configuration

/-!
# The interface lists after a reload

The slot of a module element has one interface for each interface element, in
document order, unless the comparison with the old list goes wrong: at a
difference the rewind skips the first child, and an attribute that the element
leaves out is not compared at all.
-/

namespace NemeaSupervisor

open XmlNode

/-! ## What the document says -/

def typeCode : Option String → Int
  | some "TCP" => tcpModuleIfcType
  | some "UNIXSOCKET" => unixsocketModuleIfcType
  | some "SERVICE" => serviceModuleIfcType
  | some "FILE" => fileModuleIfcType
  | some "BLACKHOLE" => blackholeModuleIfcType
  | some "TLS" => tlsModuleIfcType
  | _ => invalidModuleIfcAttr

def directionCode : Option String → Int
  | some "IN" => inModuleIfcDirection
  | some "OUT" => outModuleIfcDirection
  | some "SERVICE" => serviceModuleIfcDirection
  | _ => invalidModuleIfcAttr

/-- The interface of an interface element, with the codes of its own texts. -/
def docInterface (ifcElem : XmlNode) : Interface :=
  let value := fun tag => childValue tag ifcElem.xmlChildrenNode
  { ifcNote := value "note"
    ifcType := value "type"
    ifcParams := value "params"
    ifcDirection := value "direction"
    intIfcDirection := directionCode (value "direction")
    intIfcType := typeCode (value "type") }

/-- The interfaces of a module element. -/
def docInterfaces (e : XmlNode) : List Interface :=
  match trapElem e with
  | none => []
  | some t => (interfaceElems t.xmlChildrenNode).map docInterface

/-- On the texts of an accepted document the prefix tests tell the kinds apart. -/
theorem ValidInterface.codes {ifc : Interface} (h : ValidInterface ifc) :
    intIfcTypeOf ifc.ifcType = typeCode ifc.ifcType ∧
      intIfcDirectionOf ifc.ifcDirection = directionCode ifc.ifcDirection := by
  constructor
  · cases ht : ifc.ifcType with
    | none => rfl
    | some t =>
      have hmem := h.type t ht
      simp only [List.mem_cons, List.not_mem_nil, or_false] at hmem
      rcases hmem with rfl | rfl | rfl | rfl | rfl <;> decide
  · cases hd : ifc.ifcDirection with
    | none => rfl
    | some d =>
      have hmem := h.direction d hd
      simp only [List.mem_cons, List.not_mem_nil, or_false] at hmem
      rcases hmem with rfl | rfl <;> decide

theorem interfaceOf_eq {c : XmlNode} (hg : InterfaceGrammar c) : interfaceOf c = docInterface c := by
  obtain ⟨htype, hdirection⟩ := (interfaceOf_valid hg).codes
  rw [docInterface]
  simp only [interfaceOf, Interface.withCodes] at htype hdirection ⊢
  rw [htype, hdirection]

theorem docInterfaces_eq {e : XmlNode} (hg : ModuleGrammar e) {t : XmlNode}
    (ht : trapElem e = some t) :
    docInterfaces e = (interfaceElems t.xmlChildrenNode).map interfaceOf := by
  rw [docInterfaces, ht]
  exact List.map_congr_left fun c hc => (interfaceOf_eq (mem_interfaceElems_grammar hg ht hc)).symm

/-! ## When the comparison finds what has changed -/

/-- An interface with the text of an attribute that the element leaves out. -/
def Interface.vanished (ifc : Interface) (ifcElem : XmlNode) : Bool :=
  [("note", ifc.ifcNote), ("type", ifc.ifcType), ("params", ifc.ifcParams),
    ("direction", ifc.ifcDirection)].any fun (tag, old) =>
      old.isSome && !hasChild tag ifcElem.xmlChildrenNode

/-- An attribute on which the interface and the element agree, or that the
element leaves out. -/
theorem Interface.agrees_child {rules : List ChildRule} {children : List XmlNode}
    (hg : Allowed rules children) {r : ChildRule} (hr : r ∈ rules) (ho : r.once = true)
    {old : Option String}
    (hagree : ∀ c ∈ children, c.elementNamed r.tag = true → c.value = old)
    (hstay : (old.isSome && !hasChild r.tag children) = false) :
    old = childValue r.tag children := by
  cases hc : hasChild r.tag children with
  | true =>
    obtain ⟨c, hmem, hn⟩ := List.any_eq_true.mp hc
    rw [childValue_eq hg hr ho hmem hn, hagree c hmem hn]
  | false =>
    rw [childValue_absent hc]
    simpa [hc] using hstay

/-- An interface that agrees with its element is the element's unless an
attribute has vanished. -/
theorem interface_unchanged_iff {c : XmlNode} (hg : InterfaceGrammar c) {ifc : Interface}
    (hcodes : ifc.withCodes = ifc) (hagree : c.xmlChildrenNode.all ifc.agrees = true) :
    ifc = interfaceOf c ↔ ifc.vanished c = false := by
  constructor
  · rintro rfl
    have absent : ∀ tag, ((childValue tag c.xmlChildrenNode).isSome &&
        !hasChild tag c.xmlChildrenNode) = false := by
      intro tag
      cases hc : hasChild tag c.xmlChildrenNode with
      | true => simp
      | false => simp [childValue_absent hc]
    simp only [Interface.vanished, List.any_cons, List.any_nil, interfaceOf, Interface.withCodes,
      absent, Bool.or_self]
  · intro hstay
    simp only [Interface.vanished, List.any_cons, List.any_nil, Bool.or_false,
      Bool.or_eq_false_iff] at hstay
    obtain ⟨hnote, htype, hparams, hdirection⟩ := hstay
    have named : ∀ c' ∈ c.xmlChildrenNode, ∀ tag, c'.elementNamed tag = true →
        ifc.agrees c' = true ∧ c'.nodeNamed tag = true := fun c' hc' tag hn =>
      ⟨List.all_eq_true.mp hagree c' hc', nodeNamed_of_elementNamed hn⟩
    rw [← hcodes]
    apply Interface.withCodes_congr
    · refine Interface.agrees_child (r := ⟨"note", true, checkNonEmpty "note"⟩) hg.allowed
        (by simp [interfaceRules]) rfl (fun c' hc' hn => ?_) hnote
      obtain ⟨ha, hn⟩ := named c' hc' _ hn
      simpa [Interface.agrees, hn] using ha
    · refine Interface.agrees_child hg.allowed
        (by simp [interfaceRules]; exact .inr (.inl rfl)) rfl (fun c' hc' hn => ?_) htype
      obtain ⟨ha, hn⟩ := named c' hc' _ hn
      simpa [Interface.agrees, hn, nodeNamed_ne (by decide : "type" ≠ "note") hn] using ha
    · refine Interface.agrees_child (r := ⟨"params", true, checkAny⟩) hg.allowed
        (by simp [interfaceRules]) rfl (fun c' hc' hn => ?_) hparams
      obtain ⟨ha, hn⟩ := named c' hc' _ hn
      simpa [Interface.agrees, hn, nodeNamed_ne (by decide : "params" ≠ "note") hn,
        nodeNamed_ne (by decide : "params" ≠ "type") hn,
        nodeNamed_ne (by decide : "params" ≠ "direction") hn] using ha
    · refine Interface.agrees_child hg.allowed
        (by simp [interfaceRules]; exact .inr (.inr (.inl rfl))) rfl (fun c' hc' hn => ?_) hdirection
      obtain ⟨ha, hn⟩ := named c' hc' _ hn
      simpa [Interface.agrees, hn, nodeNamed_ne (by decide : "direction" ≠ "note") hn,
        nodeNamed_ne (by decide : "direction" ≠ "type") hn] using ha

/-- Where the two lists are equally long: the first difference is not preceded
by an interface as the first child, and without a difference no attribute has
vanished. -/
def IfcListFollows (old : List Interface) (children : List XmlNode) : Prop :=
  let elems := interfaceElems children
  old.length = elems.length →
    (allAgree old elems = false → children.head?.any (elementNamed "interface") = false) ∧
    (allAgree old elems = true → ∀ p ∈ old.zip elems, p.1.vanished p.2 = false)

theorem interfaceElems_tail_iff (children : List XmlNode) :
    ((interfaceElems children.tail).map interfaceOf = (interfaceElems children).map interfaceOf) ↔
      children.head?.any (elementNamed "interface") = false := by
  cases children with
  | nil => simp
  | cons c children =>
    cases hc : c.elementNamed "interface" with
    | true =>
      simp only [interfaceElems, List.tail_cons, List.filter_cons_of_pos hc, List.map_cons,
        List.head?_cons, Option.any_some, hc, Bool.true_eq_false, iff_false]
      exact fun h => absurd (congrArg List.length h) (by simp)
    | false => simp [interfaceElems, hc]

theorem interfaces_unchanged_iff {old : List Interface} {elems : List XmlNode}
    (hg : ∀ c ∈ elems, InterfaceGrammar c) (hcodes : ∀ ifc ∈ old, ifc.withCodes = ifc)
    (hlen : old.length = elems.length) (hagree : allAgree old elems = true) :
    old = elems.map interfaceOf ↔ ∀ p ∈ old.zip elems, p.1.vanished p.2 = false := by
  induction old generalizing elems with
  | nil => cases elems <;> simp_all
  | cons ifc old ih =>
    cases elems with
    | nil => simp at hlen
    | cons c elems =>
      simp only [allAgree, List.zip_cons_cons, List.all_cons, Bool.and_eq_true] at hagree
      have hhead := interface_unchanged_iff (hg c (by simp)) (hcodes ifc (by simp)) hagree.1
      have htail := ih (fun c' hc' => hg c' (by simp [hc'])) (fun i hi => hcodes i (by simp [hi]))
        (by simpa using hlen) hagree.2
      simp only [List.map_cons, List.cons.injEq, List.zip_cons_cons, List.forall_mem_cons, hhead,
        htail]

/-- The list of an already loaded module follows its element. -/
theorem reloadedIfces_iff {e : XmlNode} (hg : ModuleGrammar e) {m : RunningModule}
    (h : IfcArray m) {t : XmlNode} (ht : trapElem e = some t) :
    reloadedIfces false m.ifces e = docInterfaces e ↔ IfcListFollows m.ifces t.xmlChildrenNode := by
  rw [docInterfaces_eq hg ht]
  have helems : ∀ c ∈ interfaceElems t.xmlChildrenNode, InterfaceGrammar c :=
    fun c hc => mem_interfaceElems_grammar hg ht hc
  simp only [reloadedIfces, ht, Bool.false_eq_true, false_or, IfcListFollows]
  by_cases hlen : m.ifces.length = (interfaceElems t.xmlChildrenNode).length
  · simp only [hlen, ne_eq, not_true_eq_false, if_false, true_imp_iff]
    cases hagree : allAgree m.ifces (interfaceElems t.xmlChildrenNode) with
    | true =>
      simp only [if_true, Bool.true_eq_false, false_imp_iff, true_and, true_imp_iff]
      exact interfaces_unchanged_iff helems h.codes hlen hagree
    | false =>
      simp only [Bool.false_eq_true, if_false, false_imp_iff, and_true, true_imp_iff]
      exact interfaceElems_tail_iff _
  · simp [hlen]

/-- The same for the slot of an element. -/
theorem ElementSlot.ifces {choice : ReloadChoice} {s : Supervisor} (h : TableInv s)
    {nodes : List XmlNode} (hg : GoodDocs (docModules nodes)) {d : Nat × XmlNode}
    (hd : d ∈ docModules nodes) {m' : RunningModule} (hs : ElementSlot choice s nodes d m') :
    m'.configIfcesCnt = m'.ifces.length ∧
      (m'.ifces = docInterfaces d.2 ↔ ∀ t, trapElem d.2 = some t → ∀ m ∈ s.loaded,
        m.moduleName = moduleName d.2 → IfcListFollows m.ifces t.xmlChildrenNode) := by
  have hgrammar := hg.grammar d hd
  have hfinish := fun m => field_of_config RunningModule.ifces (fun _ => rfl)
    (finishSlot_config choice m)
  have hcnt := fun m => field_of_config RunningModule.configIfcesCnt (fun _ => rfl)
    (finishSlot_config choice m)
  cases hs with
  | @kept m m1 hm hname happlied =>
    rw [hfinish, hcnt, happlied.ifces, ← happlied.ifces]
    refine ⟨happlied.ifcArray.filled.length_ifces.symm, ?_⟩
    rw [happlied.ifces]
    cases ht : trapElem d.2 with
    | none => simp [reloadedIfces, docInterfaces, ht]
    | some t =>
      have hiff := reloadedIfces_iff (m := m) hgrammar (h.slots m hm).ifces ht
      refine hiff.trans ⟨fun hf t' ht' m0 hm0 hname0 => ?_, fun hf => hf t rfl m hm hname⟩
      cases ht'
      rwa [List.inj_on_of_nodup_map h.distinct hm0 hm (hname0.trans hname.symm)]
  | @new k m1 hk happlied =>
    rw [hfinish, hcnt]
    refine ⟨happlied.ifcArray.filled.length_ifces.symm, ?_⟩
    rw [happlied.ifces]
    have hnew := (mem_newDocs.mp (List.mem_of_getElem? hk)).2
    refine iff_of_true ?_ fun t _ m hm hname => absurd hname (hnew m hm)
    cases ht : trapElem d.2 with
    | none => simp [reloadedIfces, docInterfaces, ht]
    | some t =>
      rw [docInterfaces_eq hgrammar ht]
      simp [reloadedIfces, ht]

/-! ## What the document says -/

/-- Every module of the document has the interfaces of its element. -/
def InterfacesAsDocument (nodes : List XmlNode) (s' : Supervisor) : Prop :=
  ∀ ms ∈ modulesElems nodes, ∀ e ∈ moduleElems ms, ∀ m ∈ s'.loaded,
    m.moduleName = moduleName e →
      m.configIfcesCnt = (docInterfaces e).length ∧ m.ifces = docInterfaces e

/-- Where a loaded module has as many interfaces as its element, the comparison
finds what has changed and the rewind loses nothing. -/
def ComparisonsSucceed (s : Supervisor) (nodes : List XmlNode) : Prop :=
  ∀ ms ∈ modulesElems nodes, ∀ e ∈ moduleElems ms, ∀ t, trapElem e = some t →
    ∀ m ∈ s.loaded, m.moduleName = moduleName e → IfcListFollows m.ifces t.xmlChildrenNode

theorem interfaces_as_document {choice : ReloadChoice} {s : Supervisor}
    (hcall : ReloadCall choice s) {root : XmlNode}
    (hv : validateConfiguration (some root) = .ok ()) :
    InterfacesAsDocument root.xmlChildrenNode (reloadConfiguration choice (some root) s).1 ↔
      ComparisonsSucceed s root.xmlChildrenNode := by
  have h := hcall.tableInv
  obtain ⟨hg, hr⟩ := hcall.reloaded hv
  constructor
  · intro hdoc ms hms e he t ht m hm hname
    obtain ⟨i, hd, -⟩ := mem_docModules hms he
    obtain ⟨m', hm', hname'⟩ := hr.exists_slot h hg hd
    have hs := hr.element h hg.goodDocs hd hm' hname'
    exact (hs.ifces h hg.goodDocs hd).2.mp (hdoc ms hms e he m' hm' hname').2 t ht m hm hname
  · intro hcond ms hms e he m' hm' hname'
    obtain ⟨i, hd, -⟩ := mem_docModules hms he
    have hs := hr.element h hg.goodDocs hd hm' hname'
    obtain ⟨hcnt, hiff⟩ := hs.ifces h hg.goodDocs hd
    have hsame := hiff.mpr (hcond ms hms e he)
    exact ⟨by rw [hcnt, hsame], hsame⟩

/-- A document with one module that has one interface with these parameters,
and this in front of the interface. -/
def interfaceDocument (before : List XmlNode) (params : String) : XmlNode :=
  profileDocument [moduleElement "m" "/bin/m" "true"
    [.element "trapinterfaces" [] (before ++ [.element "interface" []
      [.textElement "type" "TCP", .textElement "direction" "IN",
        .textElement "params" params]])]]

theorem interfaces_as_document_changed :
    let s := (boot [] (some (interfaceDocument [] "5000"))).sup
    let root := interfaceDocument [.text " "] "5001"
    InterfacesAsDocument root.xmlChildrenNode
        (reloadConfiguration .defaultConfigFile (some root) s).1 ↔
      ComparisonsSucceed s root.xmlChildrenNode :=
  interfaces_as_document (.later (by simp) ⟨[], _, [], rfl⟩) (by decide)

/-- The parameters of the only interface have changed, and it is the first child. -/
theorem not_interfaces_as_document :
    ¬ ∀ choice s root, ReloadCall choice s → validateConfiguration (some root) = .ok () →
      InterfacesAsDocument root.xmlChildrenNode
        (reloadConfiguration choice (some root) s).1 := by
  intro h
  have hdoc := h .defaultConfigFile (boot [] (some (interfaceDocument [] "5000"))).sup
    (interfaceDocument [] "5001") (.later (by simp) ⟨[], _, [], rfl⟩) (by decide)
  have hname : ∀ m ∈ (reloadConfiguration .defaultConfigFile
      (some (interfaceDocument [] "5001"))
      (boot [] (some (interfaceDocument [] "5000"))).sup).1.loaded,
      m.moduleName = some "m" ∧ m.configIfcesCnt = 0 := by decide
  have hlt : 0 < (reloadConfiguration .defaultConfigFile (some (interfaceDocument [] "5001"))
      (boot [] (some (interfaceDocument [] "5000"))).sup).1.loaded.length := by decide
  obtain ⟨hname, hcnt⟩ := hname _ (List.getElem_mem hlt)
  have hone := (hdoc _ (List.mem_singleton.mpr rfl) _ (List.mem_singleton.mpr rfl) _
    (List.getElem_mem hlt) hname).1
  rw [hcnt] at hone
  exact absurd hone (by decide)

end NemeaSupervisor
