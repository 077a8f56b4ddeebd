import Mathlib.Data.List.Nodup
import NemeaSupervisor.Validate

/-!
# What an accepted document looks like

The check functions accept exactly the sibling lists that their rules allow,
so `validate_configuration` accepts exactly the trees of `Grammar`. Everything
the reload relies on is read off the grammar, never off the validation code.
-/

namespace NemeaSupervisor

open CText XmlNode

/-- Peel one computation off a validation. -/
theorem bind_eq_ok {α β : Type} {x : Except String α} {f : α → Except String β} {b : β} :
    (x >>= f) = .ok b ↔ ∃ a, x = .ok a ∧ f a = .ok b := by
  cases x with
  | error e => simp [bind, Except.bind]
  | ok a => simp [bind, Except.bind]

@[simp] theorem throw_ne_ok {α : Type} {e : String} {a : α} :
    ¬ (throw e : Except String α) = .ok a := by
  simp [throw, throwThe, MonadExceptOf.throw]

@[simp] theorem pure_eq_ok {α : Type} {a b : α} :
    (pure a : Except String α) = .ok b ↔ a = b := by
  simp [pure, Except.pure]

/-- A check whose list of seen tags is dropped. -/
theorem discard_eq_ok {α : Type} {x : Except String α} :
    (do let _ ← x : Except String Unit) = .ok () ↔ ∃ a, x = .ok a := by
  cases x with
  | error e => constructor <;> (intro h; simp_all [bind, Except.bind])
  | ok a => exact ⟨fun _ => ⟨a, rfl⟩, fun _ => rfl⟩

theorem forM_eq_ok {α : Type} {f : α → Except String Unit} {l : List α} :
    l.forM f = .ok () ↔ ∀ a ∈ l, f a = .ok () := by
  induction l with
  | nil => simp
  | cons a l ih =>
    rw [List.forM_eq_forM, List.forM_cons, bind_eq_ok, List.forall_mem_cons, ← ih]
    exact ⟨fun ⟨_, ha, hl⟩ => ⟨ha, hl⟩, fun ⟨ha, hl⟩ => ⟨(), ha, hl⟩⟩

/-- The sibling lists that a list of rules allows. -/
structure Allowed (rules : List ChildRule) (children : List XmlNode) : Prop where
  kinds : ∀ c ∈ children, c.isSkipped = true ∨
    ∃ r ∈ rules, c.elementNamed r.tag = true ∧ r.check c.value = .ok ()
  once : ∀ r ∈ rules, r.once = true → children.countP (elementNamed r.tag) ≤ 1

/-- A rule list names each tag once. -/
def Distinct (rules : List ChildRule) : Prop := (rules.map ChildRule.tag).Nodup

theorem rule_unique {rules : List ChildRule} (hd : Distinct rules) {r r' : ChildRule}
    (hr : r ∈ rules) (hr' : r' ∈ rules) {c : XmlNode} (hc : c.elementNamed r.tag = true)
    (hc' : c.elementNamed r'.tag = true) : r = r' :=
  List.inj_on_of_nodup_map hd hr hr' (elementNamed_unique hc hc')

theorem isSkipped_not_elementNamed {c : XmlNode} (h : c.isSkipped = true) (tag : String) :
    c.elementNamed tag = false := by
  cases c <;> simp_all [isSkipped, elementNamed]

theorem find_rule {rules : List ChildRule} (hd : Distinct rules) {r : ChildRule}
    (hr : r ∈ rules) {c : XmlNode} (hc : c.elementNamed r.tag = true) :
    (rules.find? fun r => c.elementNamed r.tag) = some r := by
  cases hf : rules.find? (fun r => c.elementNamed r.tag) with
  | none => simpa [hc] using List.find?_eq_none.mp hf r hr
  | some r' =>
    have hc' := List.find?_some hf
    rw [rule_unique hd (List.mem_of_find?_eq_some hf) hr hc' hc]

theorem checkChild_skipped {parent : String} {rules : List ChildRule} {seen : List String}
    {c : XmlNode} (h : c.isSkipped = true) : checkChild parent rules seen c = .ok seen := by
  have hn : (rules.find? fun r => c.elementNamed r.tag) = none := by
    simp [isSkipped_not_elementNamed h]
  simp [checkChild, hn, h]

theorem checkChild_rule {parent : String} {rules : List ChildRule} (hd : Distinct rules)
    {seen : List String} {c : XmlNode} {r : ChildRule} (hr : r ∈ rules)
    (hc : c.elementNamed r.tag = true) {seen' : List String} :
    checkChild parent rules seen c = .ok seen' ↔
      r.check c.value = .ok () ∧ ¬ (r.once = true ∧ r.tag ∈ seen) ∧
        seen' = if r.once then r.tag :: seen else seen := by
  simp only [checkChild, find_rule hd hr hc, Bool.and_eq_true, List.contains_iff_mem]
  by_cases ho : r.once = true ∧ r.tag ∈ seen
  · simp [ho]
  · simp only [ho, if_false, bind_eq_ok, pure_eq_ok, not_false_iff, true_and]
    exact ⟨fun ⟨_, h, h'⟩ => ⟨h, h'.symm⟩, fun ⟨h, h'⟩ => ⟨(), h, h'.symm⟩⟩

theorem checkChild_other {parent : String} {rules : List ChildRule} {seen seen' : List String}
    {c : XmlNode} (h : c.isSkipped = false) (hr : ∀ r ∈ rules, c.elementNamed r.tag = false) :
    ¬ checkChild parent rules seen c = .ok seen' := by
  have hn : (rules.find? fun r => c.elementNamed r.tag) = none := by
    simpa using hr
  simp [checkChild, hn, h]

/-- How often a tag may still occur once the tags `seen` have occurred. -/
def room (seen : List String) (tag : String) : Nat := if tag ∈ seen then 0 else 1

/-- An element uses up the room of its own tag and of no other. -/
theorem room_cons {rules : List ChildRule} (hd : Distinct rules) {r r' : ChildRule}
    (hr : r ∈ rules) (hr' : r' ∈ rules) (ho' : r'.once = true) {c : XmlNode}
    (hcr : c.elementNamed r.tag = true) {seen : List String}
    (hnew : ¬ (r.once = true ∧ r.tag ∈ seen)) (children : List XmlNode) :
    ((c :: children).countP (elementNamed r'.tag) ≤ room seen r'.tag ↔
      children.countP (elementNamed r'.tag) ≤
        room (if r.once then r.tag :: seen else seen) r'.tag) ∧
    (r'.tag ∈ seen ∨ 0 < (c :: children).countP (elementNamed r'.tag) ↔
      r'.tag ∈ (if r.once then r.tag :: seen else seen) ∨
        0 < children.countP (elementNamed r'.tag)) := by
  by_cases hsame : c.elementNamed r'.tag = true
  · have heq := rule_unique hd hr hr' hcr hsame
    subst heq
    have hnot : r.tag ∉ seen := fun hm => hnew ⟨ho', hm⟩
    rw [List.countP_cons_of_pos hsame, if_pos ho']
    simp [room, hnot]
  · have hne : r'.tag ≠ r.tag := by
      intro he
      rw [he] at hsame
      exact hsame hcr
    have hmem : r'.tag ∈ (if r.once then r.tag :: seen else seen) ↔ r'.tag ∈ seen := by
      split <;> simp [hne]
    rw [List.countP_cons_of_neg hsame]
    simp only [room, hmem, and_self]

/-- The check of a whole sibling list, from any tags already seen. -/
theorem foldlM_checkChild {parent : String} {rules : List ChildRule} (hd : Distinct rules)
    (children : List XmlNode) (seen seen' : List String) :
    children.foldlM (checkChild parent rules) seen = .ok seen' →
      (∀ c ∈ children, c.isSkipped = true ∨
        ∃ r ∈ rules, c.elementNamed r.tag = true ∧ r.check c.value = .ok ()) ∧
      (∀ r ∈ rules, r.once = true →
        children.countP (elementNamed r.tag) ≤ room seen r.tag ∧
        (r.tag ∈ seen' ↔ r.tag ∈ seen ∨ 0 < children.countP (elementNamed r.tag))) := by
  induction children generalizing seen with
  | nil =>
    intro h
    have he : seen = seen' := by simpa using h
    subst he
    simp
  | cons c children ih =>
    intro h
    rw [List.foldlM_cons] at h
    obtain ⟨mid, hc, hrest⟩ := bind_eq_ok.mp h
    obtain ⟨hkinds, honce⟩ := ih mid hrest
    by_cases hs : c.isSkipped = true
    · have he : mid = seen := by
        rw [checkChild_skipped hs] at hc
        exact (Except.ok.inj hc).symm
      subst he
      refine ⟨List.forall_mem_cons.mpr ⟨.inl hs, hkinds⟩, fun r hr ho => ?_⟩
      rw [List.countP_cons_of_neg (by simp [isSkipped_not_elementNamed hs])]
      exact honce r hr ho
    · by_cases hr : ∃ r ∈ rules, c.elementNamed r.tag = true
      · obtain ⟨r, hr, hcr⟩ := hr
        obtain ⟨hcheck, hnew, rfl⟩ := (checkChild_rule hd hr hcr).mp hc
        refine ⟨List.forall_mem_cons.mpr ⟨.inr ⟨r, hr, hcr, hcheck⟩, hkinds⟩, ?_⟩
        intro r' hr' ho'
        obtain ⟨hroom, hseen⟩ := room_cons hd hr hr' ho' hcr hnew children
        obtain ⟨hle, hiff⟩ := honce r' hr' ho'
        exact ⟨hroom.mpr hle, hiff.trans hseen.symm⟩
      · push Not at hr
        exact absurd hc (checkChild_other (by simpa using hs) (by simpa using hr))

/-- Conversely a sibling list within its rules passes. -/
theorem foldlM_checkChild_ok {parent : String} {rules : List ChildRule} (hd : Distinct rules)
    (children : List XmlNode) (seen : List String)
    (hkinds : ∀ c ∈ children, c.isSkipped = true ∨
      ∃ r ∈ rules, c.elementNamed r.tag = true ∧ r.check c.value = .ok ())
    (honce : ∀ r ∈ rules, r.once = true →
      children.countP (elementNamed r.tag) ≤ room seen r.tag) :
    ∃ seen', children.foldlM (checkChild parent rules) seen = .ok seen' := by
  induction children generalizing seen with
  | nil => exact ⟨seen, rfl⟩
  | cons c children ih =>
    obtain ⟨hc, hrest⟩ := List.forall_mem_cons.mp hkinds
    rcases hc with hs | ⟨r, hr, hcr, hcheck⟩
    · obtain ⟨seen', h⟩ := ih seen hrest (fun r hr ho => by
        have := honce r hr ho
        rwa [List.countP_cons_of_neg (by simp [isSkipped_not_elementNamed hs])] at this)
      exact ⟨seen', by rw [List.foldlM_cons]; exact bind_eq_ok.mpr ⟨_, checkChild_skipped hs, h⟩⟩
    · have hnew : ¬ (r.once = true ∧ r.tag ∈ seen) := by
        rintro ⟨ho, hm⟩
        have hle := honce r hr ho
        rw [List.countP_cons_of_pos hcr, room, if_pos hm] at hle
        omega
      obtain ⟨seen', h⟩ := ih (if r.once then r.tag :: seen else seen) hrest
        fun r' hr' ho' => (room_cons hd hr hr' ho' hcr hnew children).1.mp (honce r' hr' ho')
      refine ⟨seen', ?_⟩
      rw [List.foldlM_cons]
      exact bind_eq_ok.mpr ⟨_, (checkChild_rule hd hr hcr).mpr ⟨hcheck, hnew, rfl⟩, h⟩

/-- A check function passes exactly on what its rules allow, and it has then
seen the once-only tags that occur. -/
theorem checkChildren_eq_ok (parent : String) {rules : List ChildRule} (hd : Distinct rules)
    {children : List XmlNode} :
    (∃ seen, checkChildren parent rules children = .ok seen) ↔ Allowed rules children := by
  constructor
  · rintro ⟨seen, h⟩
    obtain ⟨hkinds, honce⟩ := foldlM_checkChild hd children [] seen h
    exact ⟨hkinds, fun r hr ho => by simpa [room] using (honce r hr ho).1⟩
  · intro h
    exact foldlM_checkChild_ok hd children [] h.kinds
      (fun r hr ho => by simpa [room] using h.once r hr ho)

theorem checkChildren_seen {parent : String} {rules : List ChildRule} (hd : Distinct rules)
    {children : List XmlNode} {seen : List String}
    (h : checkChildren parent rules children = .ok seen) {r : ChildRule} (hr : r ∈ rules)
    (ho : r.once = true) : r.tag ∈ seen ↔ 0 < children.countP (elementNamed r.tag) := by
  simpa using ((foldlM_checkChild hd children [] seen h).2 r hr ho).2

/-! ## The tests of the texts -/

theorem checkNonEmpty_eq_ok {tag : String} {v : Option String} :
    checkNonEmpty tag v = .ok () ↔ ∃ key, v = some key := by
  cases v <;> simp [checkNonEmpty]

theorem checkOneOf_eq_ok {tag expected : String} {allowed : List String} {v : Option String} :
    checkOneOf tag expected allowed v = .ok () ↔ ∃ key, v = some key ∧ key ∈ allowed := by
  cases v with
  | none => simp [checkOneOf]
  | some key => by_cases h : key ∈ allowed <;> simp [checkOneOf, h]

theorem checkEnabled_eq_ok {v : Option String} :
    checkEnabled v = .ok () ↔ v = some "true" ∨ v = some "false" := by
  rw [checkEnabled, checkOneOf_eq_ok]
  constructor
  · rintro ⟨key, rfl, hk⟩
    simpa using hk
  · rintro (rfl | rfl) <;> simp

theorem checkRestarts_eq_ok {v : Option String} :
    checkRestarts v = .ok () ↔
      ∃ key number, v = some key ∧ sscanfInt key = some number ∧ 0 ≤ number ∧ number ≤ 30 := by
  cases v with
  | none => simp [checkRestarts]
  | some key =>
    cases hk : sscanfInt key with
    | none => simp [checkRestarts, hk]
    | some number =>
      by_cases h : number < 0 ∨ number > maxModuleRestartsNum
      · simp only [maxModuleRestartsNum] at h
        simp [checkRestarts, hk, maxModuleRestartsNum, h]
        omega
      · simp only [maxModuleRestartsNum] at h
        simp [checkRestarts, hk, maxModuleRestartsNum, h]
        omega

theorem checkUnique_eq_ok {what : String} {names : List String} {v : Option String} :
    checkUnique what names v = .ok () ↔ ∃ key, v = some key ∧ key ∉ names := by
  cases v with
  | none => simp [checkUnique]
  | some key => by_cases h : key ∈ names <;> simp [checkUnique, h]

theorem supervisorRules_distinct : Distinct supervisorRules := by
  simp [Distinct, supervisorRules]

theorem interfaceRules_distinct : Distinct interfaceRules := by
  simp [Distinct, interfaceRules]

theorem moduleRules_distinct (names : List String) : Distinct (moduleRules names) := by
  simp [Distinct, moduleRules]

theorem modulesRules_distinct (names : List String) : Distinct (modulesRules names) := by
  simp [Distinct, modulesRules]

/-- The first child of a kind that occurs, with the test its text passed. -/
theorem Allowed.child {rules : List ChildRule} {children : List XmlNode}
    (hd : Distinct rules) (h : Allowed rules children) {r : ChildRule} (hr : r ∈ rules)
    (hpos : 0 < children.countP (elementNamed r.tag)) :
    ∃ c ∈ children, children.find? (elementNamed r.tag) = some c ∧
      childValue r.tag children = c.value ∧ r.check c.value = .ok () := by
  cases hf : children.find? (elementNamed r.tag) with
  | none =>
    obtain ⟨c, hc, hcr⟩ := List.countP_pos_iff.mp hpos
    simpa [hcr] using List.find?_eq_none.mp hf c hc
  | some c =>
    have hc := List.mem_of_find?_eq_some hf
    have hcr := List.find?_some hf
    refine ⟨c, hc, rfl, by simp [childValue, hf], ?_⟩
    rcases h.kinds c hc with hs | ⟨r', hr', hcr', hcheck⟩
    · rw [isSkipped_not_elementNamed hs] at hcr
      exact absurd hcr (by simp)
    · rwa [rule_unique hd hr hr' hcr hcr']

/-- Only the name test depends on the names found before. -/
theorem allowed_named {tag what : String} {rules : List String → List ChildRule}
    {rest : List ChildRule}
    (hrules : ∀ names, rules names = ⟨tag, true, checkUnique what names⟩ :: rest)
    (hd : ∀ names, Distinct (rules names)) {names : List String} {children : List XmlNode} :
    Allowed (rules names) children ∧ 0 < children.countP (elementNamed tag) ↔
      Allowed (rules []) children ∧
        ∃ name, childValue tag children = some name ∧ name ∉ names := by
  have hmem : ∀ names, (⟨tag, true, checkUnique what names⟩ : ChildRule) ∈ rules names := by
    intro names
    simp [hrules]
  constructor
  · rintro ⟨h, hpos⟩
    obtain ⟨c, hc, hf, hv, hcheck⟩ := h.child (hd names) (hmem names) hpos
    obtain ⟨name, hname, hnew⟩ := checkUnique_eq_ok.mp hcheck
    refine ⟨⟨fun d hdm => ?_, fun r hr ho => ?_⟩, name, hv.trans hname, hnew⟩
    · rcases h.kinds d hdm with hs | ⟨r, hr, hdr, hok⟩
      · exact .inl hs
      · rw [hrules, List.mem_cons] at hr
        rcases hr with rfl | hr
        · obtain ⟨key, hkey, -⟩ := checkUnique_eq_ok.mp hok
          exact .inr ⟨_, hmem [], hdr, checkUnique_eq_ok.mpr ⟨key, hkey, by simp⟩⟩
        · exact .inr ⟨r, by simp [hrules, hr], hdr, hok⟩
    · rw [hrules, List.mem_cons] at hr
      rcases hr with rfl | hr
      · exact h.once ⟨tag, true, checkUnique what names⟩ (hmem names) rfl
      · exact h.once r (by simp [hrules, hr]) ho
  · rintro ⟨h, name, hname, hnew⟩
    have hpos : 0 < children.countP (elementNamed tag) := by
      rw [List.countP_pos_iff]
      cases hf : children.find? (elementNamed tag) with
      | none => simp [childValue, hf] at hname
      | some c => exact ⟨c, List.mem_of_find?_eq_some hf, List.find?_some hf⟩
    obtain ⟨c, hc, hf, hv, -⟩ := h.child (hd []) (hmem []) hpos
    refine ⟨⟨fun d hdm => ?_, fun r hr ho => ?_⟩, hpos⟩
    · rcases h.kinds d hdm with hs | ⟨r, hr, hdr, hok⟩
      · exact .inl hs
      · rw [hrules, List.mem_cons] at hr
        rcases hr with rfl | hr
        · have hsame : d = c := by
            have hone := h.once _ (hmem []) rfl
            rw [List.countP_eq_length_filter] at hone
            have h1 : d ∈ children.filter (elementNamed tag) := by simp [hdm, hdr]
            have h2 : c ∈ children.filter (elementNamed tag) := by
              simp [hc, List.find?_some hf]
            match hl : children.filter (elementNamed tag), h1, h2, hone with
            | [e], h1, h2, _ => simp_all
          exact .inr ⟨_, hmem names, hdr, checkUnique_eq_ok.mpr ⟨name, by rw [hsame, ← hv, hname], hnew⟩⟩
        · exact .inr ⟨r, by simp [hrules, hr], hdr, hok⟩
    · rw [hrules, List.mem_cons] at hr
      rcases hr with rfl | hr
      · exact h.once ⟨tag, true, checkUnique what []⟩ (hmem []) rfl
      · exact h.once r (by simp [hrules, hr]) ho

/-! ## The elements -/

/-- The contents of an interface element. -/
structure InterfaceGrammar (i : XmlNode) : Prop where
  nonempty : i.xmlChildrenNode ≠ []
  allowed : Allowed interfaceRules i.xmlChildrenNode

/-- The contents of a trapinterfaces element. -/
def TrapinterfacesGrammar (t : XmlNode) : Prop :=
  ∀ i ∈ t.xmlChildrenNode,
    i.isSkipped = true ∨ (i.elementNamed "interface" = true ∧ InterfaceGrammar i)

/-- The contents of a module element, up to the uniqueness of its name. -/
structure ModuleGrammar (m : XmlNode) : Prop where
  allowed : Allowed (moduleRules []) m.xmlChildrenNode
  name : ∃ name, childValue "name" m.xmlChildrenNode = some name
  path : 0 < m.xmlChildrenNode.countP (elementNamed "path")
  enabled : 0 < m.xmlChildrenNode.countP (elementNamed "enabled")
  trapinterfaces : ∀ t ∈ m.xmlChildrenNode, t.elementNamed "trapinterfaces" = true →
    TrapinterfacesGrammar t

/-- The module elements below a modules element. -/
def moduleElems (ms : XmlNode) : List XmlNode :=
  ms.xmlChildrenNode.filter (elementNamed "module")

def moduleName (m : XmlNode) : Option String := childValue "name" m.xmlChildrenNode

/-- The contents of a modules element, up to the uniqueness of its name. -/
structure ModulesGrammar (ms : XmlNode) : Prop where
  allowed : Allowed (modulesRules []) ms.xmlChildrenNode
  name : ∃ name, childValue "name" ms.xmlChildrenNode = some name
  enabled : 0 < ms.xmlChildrenNode.countP (elementNamed "enabled")
  modules : ∀ m ∈ moduleElems ms, ModuleGrammar m

def modulesElems (nodes : List XmlNode) : List XmlNode := nodes.filter (elementNamed "modules")

def profileNames (nodes : List XmlNode) : List String :=
  (modulesElems nodes).filterMap moduleName

def moduleNames (ms : List XmlNode) : List String :=
  (ms.flatMap moduleElems).filterMap moduleName

/-- The documents `validate_configuration` accepts. -/
structure Grammar (root : XmlNode) : Prop where
  named : root.nodeNamed "nemea-supervisor" = true
  nonempty : root.xmlChildrenNode ≠ []
  nodes : ∀ c ∈ root.xmlChildrenNode, c.isSkipped = true ∨
    (c.elementNamed "supervisor" = true ∧ c.xmlChildrenNode ≠ [] ∧
      Allowed supervisorRules c.xmlChildrenNode) ∨
    (c.elementNamed "modules" = true ∧ ModulesGrammar c)
  supervisorOnce : root.xmlChildrenNode.countP (elementNamed "supervisor") ≤ 1
  profiles : (profileNames root.xmlChildrenNode).Nodup
  modules : (moduleNames (modulesElems root.xmlChildrenNode)).Nodup

theorem elementNamed_ne {a b : String} (h : a ≠ b) {c : XmlNode} (hc : c.elementNamed a = true) :
    c.elementNamed b = false := by
  cases hb : c.elementNamed b with
  | false => rfl
  | true => exact absurd (elementNamed_unique hc hb) h

theorem elementNamed_not_isSkipped {tag : String} {c : XmlNode} (hc : c.elementNamed tag = true) :
    c.isSkipped = false := by
  cases c <;> simp_all [isSkipped, elementNamed]

theorem validateInterface_eq_ok {i : XmlNode} :
    validateInterface i = .ok () ↔
      i.isSkipped = true ∨ (i.elementNamed "interface" = true ∧ InterfaceGrammar i) := by
  unfold validateInterface
  by_cases hi : i.elementNamed "interface" = true
  · have hs := elementNamed_not_isSkipped hi
    by_cases he : i.xmlChildrenNode = []
    · simp only [hi, he, List.isEmpty_nil, if_true, throw_ne_ok, hs, false_iff]
      rintro (h | ⟨-, h⟩)
      · simp at h
      · exact h.nonempty he
    · have hne : i.xmlChildrenNode.isEmpty = false := by simpa using he
      simp only [hi, hne, if_true, hs, Bool.false_eq_true, if_false, false_or, true_and]
      rw [reloadCheckInterfaceElement, discard_eq_ok, checkChildren_eq_ok _ interfaceRules_distinct]
      exact ⟨fun h => ⟨he, h⟩, fun h => h.allowed⟩
  · by_cases hs : i.isSkipped = true <;> simp [hi, hs]

theorem validateTrapinterfaces_eq_ok {t : XmlNode} :
    validateTrapinterfaces t = .ok () ↔
      (t.elementNamed "trapinterfaces" = true → TrapinterfacesGrammar t) := by
  unfold validateTrapinterfaces
  by_cases ht : t.elementNamed "trapinterfaces" = true
  · simp only [ht, if_true, forM_eq_ok, validateInterface_eq_ok, true_imp_iff]
    rfl
  · simp [ht]

theorem reloadCheckModuleElement_eq_ok {names names' : List String} {m : XmlNode} :
    (reloadCheckModuleElement names m.xmlChildrenNode = .ok names' ∧
      m.xmlChildrenNode.forM validateTrapinterfaces = .ok ()) ↔
      ModuleGrammar m ∧ ∃ name, moduleName m = some name ∧ name ∉ names ∧
        names' = names ++ [name] := by
  have hrules : ∀ names, moduleRules names =
      ⟨"name", true, checkUnique "module" names⟩ :: (moduleRules []).tail := fun _ => rfl
  simp only [reloadCheckModuleElement, bind_eq_ok, forM_eq_ok, validateTrapinterfaces_eq_ok]
  constructor
  · rintro ⟨⟨seen, hseen, hrest⟩, htrap⟩
    have hd := moduleRules_distinct names
    have hall := (checkChildren_eq_ok _ hd).mp ⟨seen, hseen⟩
    have hmem : ∀ r ∈ moduleRules names, r.once = true →
        (r.tag ∈ seen ↔ 0 < m.xmlChildrenNode.countP (elementNamed r.tag)) :=
      fun r hr ho => checkChildren_seen hd hseen hr ho
    by_cases hn : "name" ∈ seen
    · by_cases hp : "path" ∈ seen
      · by_cases he : "enabled" ∈ seen
        · simp only [hn, hp, he, Bool.not_true, pure_eq_ok,
            List.contains_eq_mem, decide_true, Bool.false_eq_true, if_false] at hrest
          have hname := (hmem ⟨"name", true, checkUnique "module" names⟩ (by simp [moduleRules]) rfl).mp hn
          have hpath := (hmem ⟨"path", true, checkNonEmpty "path"⟩ (by simp [moduleRules]) rfl).mp hp
          have hen := (hmem ⟨"enabled", true, checkEnabled⟩ (by simp [moduleRules]) rfl).mp he
          obtain ⟨hall', name, hv, hnew⟩ :=
            (allowed_named hrules moduleRules_distinct).mp ⟨hall, hname⟩
          refine ⟨⟨hall', ⟨name, hv⟩, hpath, hen, htrap⟩, name, hv, hnew, ?_⟩
          rw [← hrest, hv]
          rfl
        · simp [hn, hp, he] at hrest
      · simp [hn, hp] at hrest
    · simp [hn] at hrest
  · rintro ⟨hm, name, hv, hnew, rfl⟩
    obtain ⟨hall, hname⟩ :=
      (allowed_named hrules moduleRules_distinct).mpr ⟨hm.allowed, name, hv, hnew⟩
    have hd := moduleRules_distinct names
    obtain ⟨seen, hseen⟩ := (checkChildren_eq_ok "module" hd).mpr hall
    have hmem : ∀ r ∈ moduleRules names, r.once = true →
        (r.tag ∈ seen ↔ 0 < m.xmlChildrenNode.countP (elementNamed r.tag)) :=
      fun r hr ho => checkChildren_seen hd hseen hr ho
    have hn := (hmem ⟨"name", true, checkUnique "module" names⟩ (by simp [moduleRules]) rfl).mpr hname
    have hp := (hmem ⟨"path", true, checkNonEmpty "path"⟩ (by simp [moduleRules]) rfl).mpr hm.path
    have he := (hmem ⟨"enabled", true, checkEnabled⟩ (by simp [moduleRules]) rfl).mpr hm.enabled
    simp only at hn hp he
    unfold moduleName at hv
    exact ⟨⟨seen, hseen, by simp [hn, hp, he, hv]⟩, hm.trapinterfaces⟩

/-- One iteration over the children of a modules element. -/
theorem validateModule_eq_ok {names names' : List String} {m : XmlNode} :
    validateModule names m = .ok names' ↔
      (m.elementNamed "module" = true → ModuleGrammar m ∧
        ∃ name, moduleName m = some name ∧ name ∉ names ∧ names' = names ++ [name]) ∧
      (m.elementNamed "module" = false → names' = names) := by
  unfold validateModule
  by_cases hm : m.elementNamed "module" = true
  · by_cases he : m.xmlChildrenNode = []
    · simp only [hm, he, List.isEmpty_nil, if_true, throw_ne_ok, false_iff]
      intro h
      have := (h.1 trivial).1.path
      simp [he] at this
    · have hne : m.xmlChildrenNode.isEmpty = false := by simpa using he
      simp only [hm, hne, if_true, Bool.false_eq_true, if_false, bind_eq_ok, pure_eq_ok,
        true_imp_iff, Bool.true_eq_false, false_imp_iff, and_true]
      rw [← reloadCheckModuleElement_eq_ok]
      constructor
      · rintro ⟨ns, hns, _, htrap, rfl⟩
        exact ⟨hns, htrap⟩
      · rintro ⟨hns, htrap⟩
        exact ⟨names', hns, (), htrap, rfl⟩
  · simp only [hm, Bool.false_eq_true, if_false, pure_eq_ok, false_imp_iff, true_and, true_imp_iff]
    exact eq_comm

theorem moduleElems_names_cons {c : XmlNode} {cs : List XmlNode} (hc : c.elementNamed "module" = true) :
    ((c :: cs).filter (elementNamed "module")).filterMap moduleName =
      (moduleName c).toList ++ (cs.filter (elementNamed "module")).filterMap moduleName := by
  rw [List.filter_cons_of_pos hc, List.filterMap_cons]
  cases moduleName c <;> rfl

/-- The pass over the module elements extends the list of names by theirs. -/
theorem foldlM_validateModule {cs : List XmlNode} {names names' : List String}
    (hnd : names.Nodup) :
    cs.foldlM validateModule names = .ok names' ↔
      (∀ m ∈ cs.filter (elementNamed "module"), ModuleGrammar m) ∧
      names' = names ++ (cs.filter (elementNamed "module")).filterMap moduleName ∧
      names'.Nodup := by
  induction cs generalizing names with
  | nil =>
    simp only [List.foldlM_nil, pure_eq_ok, List.filter_nil, List.filterMap_nil, List.append_nil]
    exact ⟨fun h => ⟨by simp, h.symm, h ▸ hnd⟩, fun h => h.2.1.symm⟩
  | cons c cs ih =>
    rw [List.foldlM_cons]
    by_cases hc : c.elementNamed "module" = true
    · simp only [bind_eq_ok, validateModule_eq_ok, hc, true_imp_iff, Bool.true_eq_false,
        false_imp_iff, and_true, moduleElems_names_cons hc]
      rw [List.filter_cons_of_pos hc]
      constructor
      · rintro ⟨mid, ⟨hg, name, hname, hnew, rfl⟩, hrest⟩
        have hnd' : (names ++ [name]).Nodup := by
          simp [List.nodup_append, hnd]
          intro a ha he
          exact hnew (he ▸ ha)
        obtain ⟨hall, heq, hn⟩ := (ih hnd').mp hrest
        refine ⟨List.forall_mem_cons.mpr ⟨hg, hall⟩, ?_, hn⟩
        simp [heq, hname]
      · rintro ⟨hall, heq, hn⟩
        obtain ⟨hg, hrest⟩ := List.forall_mem_cons.mp hall
        obtain ⟨name, hname⟩ := hg.name
        change moduleName c = some name at hname
        rw [hname] at heq
        have heq' : names' = (names ++ [name]) ++
            (cs.filter (elementNamed "module")).filterMap moduleName := by
          simp [heq]
        have hnd' : (names ++ [name]).Nodup := by
          rw [heq'] at hn
          exact hn.of_append_left
        have hnew : name ∉ names := by
          intro hm
          exact (List.nodup_append.mp hnd').2.2 name hm name (by simp) rfl
        exact ⟨_, ⟨hg, name, hname, hnew, rfl⟩, (ih hnd').mpr ⟨hrest, heq', hn⟩⟩
    · have hf : c.elementNamed "module" = false := by simpa using hc
      simp only [bind_eq_ok, validateModule_eq_ok, hf, Bool.false_eq_true, false_imp_iff,
        true_imp_iff, true_and, exists_eq_left]
      rw [List.filter_cons_of_neg hc]
      exact ih hnd

theorem reloadCheckModulesElement_eq_ok {names names' : List String} {ms : XmlNode} :
    reloadCheckModulesElement names ms.xmlChildrenNode = .ok names' ↔
      (Allowed (modulesRules []) ms.xmlChildrenNode ∧
        0 < ms.xmlChildrenNode.countP (elementNamed "enabled")) ∧
      ∃ name, moduleName ms = some name ∧ name ∉ names ∧ names' = names ++ [name] := by
  have hrules : ∀ names, modulesRules names =
      ⟨"name", true, checkUnique "profile" names⟩ :: (modulesRules []).tail := fun _ => rfl
  have hd := modulesRules_distinct names
  simp only [reloadCheckModulesElement, bind_eq_ok]
  constructor
  · rintro ⟨seen, hseen, hrest⟩
    have hall := (checkChildren_eq_ok _ hd).mp ⟨seen, hseen⟩
    have hname := checkChildren_seen hd hseen
      (r := ⟨"name", true, checkUnique "profile" names⟩) (by simp [modulesRules]) rfl
    have hen := checkChildren_seen hd hseen
      (r := ⟨"enabled", true, checkEnabled⟩) (by simp [modulesRules]) rfl
    by_cases hn : "name" ∈ seen
    · by_cases he : "enabled" ∈ seen
      · simp only [hn, he, Bool.not_true, pure_eq_ok, List.contains_eq_mem, decide_true,
          Bool.false_eq_true, if_false] at hrest
        obtain ⟨hall', name, hv, hnew⟩ :=
          (allowed_named hrules modulesRules_distinct).mp ⟨hall, hname.mp hn⟩
        refine ⟨⟨hall', hen.mp he⟩, name, hv, hnew, ?_⟩
        rw [← hrest, hv]
        rfl
      · simp [hn, he] at hrest
    · simp [hn] at hrest
  · rintro ⟨⟨hall, he⟩, name, hv, hnew, rfl⟩
    obtain ⟨hall', hname⟩ :=
      (allowed_named hrules modulesRules_distinct).mpr ⟨hall, name, hv, hnew⟩
    obtain ⟨seen, hseen⟩ := (checkChildren_eq_ok "modules" hd).mpr hall'
    have hn := (checkChildren_seen hd hseen
      (r := ⟨"name", true, checkUnique "profile" names⟩) (by simp [modulesRules]) rfl).mpr hname
    have hen := (checkChildren_seen hd hseen
      (r := ⟨"enabled", true, checkEnabled⟩) (by simp [modulesRules]) rfl).mpr he
    simp only at hn hen
    unfold moduleName at hv
    exact ⟨seen, hseen, by simp [hn, hen, hv]⟩

theorem reloadCheckSupervisorElement_eq_ok {children : List XmlNode} {u : Unit} :
    reloadCheckSupervisorElement children = .ok u ↔ Allowed supervisorRules children := by
  rw [reloadCheckSupervisorElement, discard_eq_ok, checkChildren_eq_ok _ supervisorRules_distinct]

theorem validateNode_supervisor {st st' : ValidateState} {c : XmlNode}
    (hc : c.elementNamed "supervisor" = true) :
    validateNode st c = .ok st' ↔
      st.supervisorElemCnt = 0 ∧ c.xmlChildrenNode ≠ [] ∧
        Allowed supervisorRules c.xmlChildrenNode ∧
        st' = { st with supervisorElemCnt := st.supervisorElemCnt + 1 } := by
  unfold validateNode
  by_cases hcnt : st.supervisorElemCnt = 0
  · by_cases he : c.xmlChildrenNode = []
    · simp [hc, hcnt, he]
    · have hne : c.xmlChildrenNode.isEmpty = false := by simpa using he
      have hone : ¬ (0 + 1 > 1) := by omega
      simp only [hc, hcnt, hne, hone, if_true, Bool.false_eq_true, if_false, true_and,
        ne_eq, he, not_false_eq_true]
      rw [bind_eq_ok]
      simp only [reloadCheckSupervisorElement_eq_ok, pure_eq_ok]
      exact ⟨fun ⟨_, h, h'⟩ => ⟨h, h'.symm⟩, fun ⟨h, h'⟩ => ⟨(), h, h'.symm⟩⟩
  · have hmore : st.supervisorElemCnt + 1 > 1 := by omega
    simp only [hc, hmore, if_true, throw_ne_ok, hcnt, false_and]

theorem validateNode_modules {st st' : ValidateState} {c : XmlNode}
    (hc : c.elementNamed "modules" = true) (hnd : st.moduleNames.Nodup) :
    validateNode st c = .ok st' ↔
      ModulesGrammar c ∧ ∃ name, moduleName c = some name ∧ name ∉ st.profileNames ∧
        st' = ⟨st.supervisorElemCnt, st.profileNames ++ [name],
          st.moduleNames ++ (moduleElems c).filterMap moduleName⟩ ∧ st'.moduleNames.Nodup := by
  have hs := elementNamed_ne (b := "supervisor") (by decide) hc
  unfold validateNode
  by_cases he : c.xmlChildrenNode = []
  · simp only [hc, hs, he, List.isEmpty_nil, if_true, Bool.false_eq_true, if_false, throw_ne_ok,
      false_iff]
    rintro ⟨hg, -⟩
    have := hg.enabled
    simp [he] at this
  · have hne : c.xmlChildrenNode.isEmpty = false := by simpa using he
    simp only [hc, hs, hne, if_true, Bool.false_eq_true, if_false, bind_eq_ok, pure_eq_ok,
      reloadCheckModulesElement_eq_ok, foldlM_validateModule hnd]
    constructor
    · rintro ⟨ps, ⟨⟨hall, hen⟩, name, hv, hnew, rfl⟩, ms, ⟨hmods, rfl, hn⟩, rfl⟩
      exact ⟨⟨hall, ⟨name, hv⟩, hen, hmods⟩, name, hv, hnew, rfl, hn⟩
    · rintro ⟨hg, name, hv, hnew, rfl, hn⟩
      exact ⟨_, ⟨⟨hg.allowed, hg.enabled⟩, name, hv, hnew, rfl⟩, _, ⟨hg.modules, rfl, hn⟩, rfl⟩

theorem validateNode_other {st st' : ValidateState} {c : XmlNode}
    (hs : c.elementNamed "supervisor" = false) (hm : c.elementNamed "modules" = false) :
    validateNode st c = .ok st' ↔ c.isSkipped = true ∧ st' = st := by
  unfold validateNode
  by_cases h : c.isSkipped = true
  · simp only [hs, hm, h, Bool.false_eq_true, if_false, if_true, pure_eq_ok, true_and]
    exact eq_comm
  · simp [hs, hm, h]

/-- What the pass over the children `nodes` of the root accepts, from the counts
and names in `st` to those in `st'`. -/
structure NodesAccepted (st : ValidateState) (nodes : List XmlNode) (st' : ValidateState) :
    Prop where
  kinds : ∀ c ∈ nodes, c.isSkipped = true ∨
    (c.elementNamed "supervisor" = true ∧ c.xmlChildrenNode ≠ [] ∧
      Allowed supervisorRules c.xmlChildrenNode) ∨
    (c.elementNamed "modules" = true ∧ ModulesGrammar c)
  count : st'.supervisorElemCnt =
    st.supervisorElemCnt + nodes.countP (elementNamed "supervisor")
  once : st'.supervisorElemCnt ≤ 1
  profileList : st'.profileNames = st.profileNames ++ profileNames nodes
  profiles : st'.profileNames.Nodup
  moduleList : st'.moduleNames = st.moduleNames ++ moduleNames (modulesElems nodes)
  modules : st'.moduleNames.Nodup

theorem NodesAccepted.nil_iff {st st' : ValidateState} (hcnt : st.supervisorElemCnt ≤ 1)
    (hp : st.profileNames.Nodup) (hm : st.moduleNames.Nodup) :
    NodesAccepted st [] st' ↔ st = st' := by
  constructor
  · intro h
    have h1 := h.count
    have h2 := h.profileList
    have h3 := h.moduleList
    cases st
    cases st'
    simp_all [profileNames, modulesElems, moduleNames]
  · rintro rfl
    exact ⟨by simp, by simp, hcnt, by simp [profileNames, modulesElems], hp,
      by simp [moduleNames, modulesElems], hm⟩

/-- A supervisor element is the only one. -/
theorem NodesAccepted.supervisor_iff {st st' : ValidateState} {c : XmlNode}
    {nodes : List XmlNode} (hc : c.elementNamed "supervisor" = true) :
    NodesAccepted st (c :: nodes) st' ↔
      st.supervisorElemCnt = 0 ∧ c.xmlChildrenNode ≠ [] ∧
        Allowed supervisorRules c.xmlChildrenNode ∧
        NodesAccepted { st with supervisorElemCnt := st.supervisorElemCnt + 1 } nodes st' := by
  have hm := elementNamed_ne (b := "modules") (by decide) hc
  have hms : modulesElems (c :: nodes) = modulesElems nodes :=
    List.filter_cons_of_neg (by simp [hm])
  have hcount : (c :: nodes).countP (elementNamed "supervisor") =
      nodes.countP (elementNamed "supervisor") + 1 := List.countP_cons_of_pos hc
  constructor
  · intro h
    obtain ⟨hself, hnodes⟩ := List.forall_mem_cons.mp h.kinds
    have hone := h.count
    have hle := h.once
    rw [hcount] at hone
    rcases hself with hskip | ⟨-, hne, hall⟩ | ⟨hmodules, -⟩
    · rw [elementNamed_not_isSkipped hc] at hskip
      exact absurd hskip (by simp)
    · refine ⟨by omega, hne, hall, hnodes, by simp only; omega, hle, ?_, h.profiles, ?_, h.modules⟩
      · rw [h.profileList, profileNames, hms, profileNames]
      · rw [h.moduleList, hms]
    · rw [hm] at hmodules
      exact absurd hmodules (by simp)
  · rintro ⟨hzero, hne, hall, h⟩
    have hone := h.count
    simp only at hone
    refine ⟨List.forall_mem_cons.mpr ⟨.inr (.inl ⟨hc, hne, hall⟩), h.kinds⟩, ?_, h.once, ?_,
      h.profiles, ?_, h.modules⟩
    · rw [hcount]
      omega
    · rw [h.profileList, profileNames, profileNames, hms]
    · rw [h.moduleList, hms]

/-- A modules element adds its name and those of its modules. -/
theorem NodesAccepted.modules_iff {st st' : ValidateState} {c : XmlNode} {nodes : List XmlNode}
    (hc : c.elementNamed "modules" = true) :
    NodesAccepted st (c :: nodes) st' ↔
      ModulesGrammar c ∧ ∃ name, moduleName c = some name ∧
        NodesAccepted ⟨st.supervisorElemCnt, st.profileNames ++ [name],
          st.moduleNames ++ (moduleElems c).filterMap moduleName⟩ nodes st' := by
  have hs := elementNamed_ne (b := "supervisor") (by decide) hc
  have hms : modulesElems (c :: nodes) = c :: modulesElems nodes := List.filter_cons_of_pos hc
  have hcount : (c :: nodes).countP (elementNamed "supervisor") =
      nodes.countP (elementNamed "supervisor") := List.countP_cons_of_neg (by simp [hs])
  have hmodules : moduleNames (modulesElems (c :: nodes)) =
      (moduleElems c).filterMap moduleName ++ moduleNames (modulesElems nodes) := by
    rw [hms, moduleNames, List.flatMap_cons, List.filterMap_append]
    rfl
  have hprofiles : ∀ {name}, moduleName c = some name →
      profileNames (c :: nodes) =
        name :: profileNames nodes := by
    intro name hname
    rw [profileNames, hms, List.filterMap_cons_some hname]
    rfl
  constructor
  · intro h
    obtain ⟨hself, hnodes⟩ := List.forall_mem_cons.mp h.kinds
    rcases hself with hskip | ⟨hsup, -⟩ | ⟨-, hg⟩
    · rw [elementNamed_not_isSkipped hc] at hskip
      exact absurd hskip (by simp)
    · rw [hs] at hsup
      exact absurd hsup (by simp)
    · obtain ⟨name, hname⟩ := hg.name
      refine ⟨hg, name, hname, hnodes, by rw [h.count, hcount], h.once, ?_, h.profiles, ?_,
        h.modules⟩
      · rw [h.profileList, hprofiles hname]
        simp
      · rw [h.moduleList, hmodules]
        simp
  · rintro ⟨hg, name, hname, h⟩
    refine ⟨List.forall_mem_cons.mpr ⟨.inr (.inr ⟨hc, hg⟩), h.kinds⟩, ?_, h.once, ?_, h.profiles,
      ?_, h.modules⟩
    · rw [h.count, hcount]
    · rw [h.profileList, hprofiles hname]
      simp
    · rw [h.moduleList, hmodules]
      simp

theorem NodesAccepted.other_iff {st st' : ValidateState} {c : XmlNode} {nodes : List XmlNode}
    (hs : c.elementNamed "supervisor" = false) (hm : c.elementNamed "modules" = false) :
    NodesAccepted st (c :: nodes) st' ↔ c.isSkipped = true ∧ NodesAccepted st nodes st' := by
  have hms : modulesElems (c :: nodes) = modulesElems nodes :=
    List.filter_cons_of_neg (by simp [hm])
  have hcount : (c :: nodes).countP (elementNamed "supervisor") =
      nodes.countP (elementNamed "supervisor") := List.countP_cons_of_neg (by simp [hs])
  have hprofiles : profileNames (c :: nodes) =
      profileNames nodes := by
    rw [profileNames, hms, profileNames]
  constructor
  · intro h
    obtain ⟨hself, hnodes⟩ := List.forall_mem_cons.mp h.kinds
    refine ⟨?_, hnodes, hcount ▸ h.count, h.once, hprofiles ▸ h.profileList, h.profiles,
      hms ▸ h.moduleList, h.modules⟩
    simpa [hs, hm] using hself
  · rintro ⟨hskip, h⟩
    exact ⟨List.forall_mem_cons.mpr ⟨.inl hskip, h.kinds⟩, hcount.symm ▸ h.count, h.once,
      hprofiles.symm ▸ h.profileList, h.profiles, hms.symm ▸ h.moduleList, h.modules⟩

theorem nodup_snoc {l : List String} {a : String} : (l ++ [a]).Nodup ↔ a ∉ l ∧ l.Nodup := by
  rw [← List.concat_eq_append, List.nodup_concat]

/-- The pass over the children of the root. -/
theorem foldlM_validateNode {nodes : List XmlNode} (st : ValidateState) {st' : ValidateState}
    (hcnt : st.supervisorElemCnt ≤ 1) (hp : st.profileNames.Nodup) (hm : st.moduleNames.Nodup) :
    nodes.foldlM validateNode st = .ok st' ↔ NodesAccepted st nodes st' := by
  induction nodes generalizing st with
  | nil => rw [List.foldlM_nil, pure_eq_ok, NodesAccepted.nil_iff hcnt hp hm]
  | cons c nodes ih =>
    rw [List.foldlM_cons, bind_eq_ok]
    cases hs : c.elementNamed "supervisor" with
    | true =>
      simp only [validateNode_supervisor hs, NodesAccepted.supervisor_iff hs]
      have hone := fun hzero : st.supervisorElemCnt = 0 =>
        ih { st with supervisorElemCnt := st.supervisorElemCnt + 1 } (by simp [hzero]) hp hm
      constructor
      · rintro ⟨mid, ⟨hzero, hne, hall, rfl⟩, hrest⟩
        exact ⟨hzero, hne, hall, (hone hzero).mp hrest⟩
      · rintro ⟨hzero, hne, hall, hrest⟩
        exact ⟨_, ⟨hzero, hne, hall, rfl⟩, (hone hzero).mpr hrest⟩
    | false =>
      cases hmods : c.elementNamed "modules" with
      | true =>
        simp only [validateNode_modules hmods hm, NodesAccepted.modules_iff hmods]
        have hadd := fun name => ih ⟨st.supervisorElemCnt, st.profileNames ++ [name],
          st.moduleNames ++ (moduleElems c).filterMap moduleName⟩ hcnt
        constructor
        · rintro ⟨mid, ⟨hg, name, hname, hnew, rfl, hn⟩, hrest⟩
          exact ⟨hg, name, hname, (hadd name (nodup_snoc.mpr ⟨hnew, hp⟩) hn).mp hrest⟩
        · rintro ⟨hg, name, hname, hrest⟩
          have hp' : (st.profileNames ++ [name]).Nodup :=
            (hrest.profileList ▸ hrest.profiles).of_append_left
          have hn : (st.moduleNames ++ (moduleElems c).filterMap moduleName).Nodup :=
            (hrest.moduleList ▸ hrest.modules).of_append_left
          exact ⟨_, ⟨hg, name, hname, (nodup_snoc.mp hp').1, rfl, hn⟩, (hadd name hp' hn).mpr hrest⟩
      | false =>
        simp only [validateNode_other hs hmods, NodesAccepted.other_iff hs hmods]
        constructor
        · rintro ⟨mid, ⟨hskip, rfl⟩, hrest⟩
          exact ⟨hskip, (ih _ hcnt hp hm).mp hrest⟩
        · rintro ⟨hskip, hrest⟩
          exact ⟨st, ⟨hskip, rfl⟩, (ih _ hcnt hp hm).mpr hrest⟩

/-- `validate_configuration` accepts exactly its grammar. -/
theorem validateConfiguration_eq_ok {root : Option XmlNode} :
    validateConfiguration root = .ok () ↔ ∃ r, root = some r ∧ Grammar r := by
  cases root with
  | none => simp [validateConfiguration]
  | some r =>
    simp only [validateConfiguration, Option.some.injEq, exists_eq_left']
    by_cases hn : r.nodeNamed "nemea-supervisor" = true
    · by_cases he : r.xmlChildrenNode = []
      · simp only [hn, he, Bool.not_true, Bool.false_eq_true, if_false, List.isEmpty_nil, if_true,
          throw_ne_ok, false_iff]
        intro h
        exact h.nonempty he
      · have hne : r.xmlChildrenNode.isEmpty = false := by simpa using he
        simp only [hn, hne, Bool.not_true, Bool.false_eq_true, if_false, discard_eq_ok,
          foldlM_validateNode ⟨0, [], []⟩ (Nat.zero_le 1) List.nodup_nil List.nodup_nil]
        constructor
        · rintro ⟨st, h⟩
          have hcount := h.count
          have hprofiles := h.profileList
          have hmodules := h.moduleList
          simp only [List.nil_append, Nat.zero_add] at hcount hprofiles hmodules
          exact ⟨hn, he, h.kinds, hcount ▸ h.once, hprofiles ▸ h.profiles, hmodules ▸ h.modules⟩
        · intro h
          exact ⟨⟨_, _, _⟩, h.nodes, Nat.zero_add _ ▸ rfl, h.supervisorOnce,
            (List.nil_append _).symm, h.profiles, (List.nil_append _).symm, h.modules⟩
    · simp only [hn, Bool.not_false, if_true, throw_ne_ok, false_iff]
      intro h
      exact hn h.named

end NemeaSupervisor
