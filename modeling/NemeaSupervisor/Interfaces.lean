import NemeaSupervisor.Grammar
import NemeaSupervisor.Loop
import NemeaSupervisor.Reload

/-!
# The interface array under a reload

What the trapinterfaces branch leaves in the array of a module: while inserting,
the interfaces of the elements it walks; while comparing, the array itself or,
after a difference, the interfaces of all children of the element but the first.
-/

namespace NemeaSupervisor

open XmlNode

/-- The interface that an element describes. -/
def interfaceOf (ifcElem : XmlNode) : Interface :=
  let atribute := fun tag => childValue tag ifcElem.xmlChildrenNode
  Interface.withCodes
    ⟨atribute "note", atribute "type", atribute "params", atribute "direction", 0, 0⟩

def interfaceElems (children : List XmlNode) : List XmlNode :=
  children.filter (elementNamed "interface")

/-- A slot whose strings are NULL. -/
structure Interface.Blank (ifc : Interface) : Prop where
  note : ifc.ifcNote = none
  type : ifc.ifcType = none
  params : ifc.ifcParams = none
  direction : ifc.ifcDirection = none

theorem Interface.blank_zero : Interface.zero.Blank := ⟨rfl, rfl, rfl, rfl⟩

/-- The codes are a function of the strings. -/
theorem Interface.withCodes_congr {a b : Interface} (hn : a.ifcNote = b.ifcNote)
    (ht : a.ifcType = b.ifcType) (hp : a.ifcParams = b.ifcParams)
    (hd : a.ifcDirection = b.ifcDirection) : a.withCodes = b.withCodes := by
  simp [withCodes, hn, ht, hp, hd]

/-! ## One interface element -/

/-- While inserting, a child overwrites its string. -/
def setAtribute (ifc : Interface) (ifcAtrElem : XmlNode) : Interface :=
  if ifcAtrElem.nodeNamed "note" then { ifc with ifcNote := ifcAtrElem.value }
  else if ifcAtrElem.nodeNamed "type" then { ifc with ifcType := ifcAtrElem.value }
  else if ifcAtrElem.nodeNamed "direction" then { ifc with ifcDirection := ifcAtrElem.value }
  else if ifcAtrElem.nodeNamed "params" then { ifc with ifcParams := ifcAtrElem.value }
  else ifc

theorem processInterfaceAtribute_insert (ifc : Interface) (c : XmlNode) :
    processInterfaceAtribute true ifc c = some (setAtribute ifc c) := by
  simp only [processInterfaceAtribute, reloadProcessModuleInterfaceAtribute, Option.map_some,
    setAtribute]
  split_ifs <;> rfl

theorem processInterfaceAtributes_insert (ifc : Interface) (children : List XmlNode) :
    processInterfaceAtributes true ifc children = some (children.foldl setAtribute ifc) := by
  induction children generalizing ifc with
  | nil => rfl
  | cons c children ih =>
    rw [processInterfaceAtributes, List.foldlM_cons, processInterfaceAtribute_insert]
    exact ih (setAtribute ifc c)

/-- While comparing, a child agrees when its string is the stored one. -/
def Interface.agrees (ifc : Interface) (ifcAtrElem : XmlNode) : Bool :=
  if ifcAtrElem.nodeNamed "note" then ifcAtrElem.value == ifc.ifcNote
  else if ifcAtrElem.nodeNamed "type" then ifcAtrElem.value == ifc.ifcType
  else if ifcAtrElem.nodeNamed "direction" then ifcAtrElem.value == ifc.ifcDirection
  else if ifcAtrElem.nodeNamed "params" then ifcAtrElem.value == ifc.ifcParams
  else true

theorem reloadProcessModuleInterfaceAtribute_compare (old key : Option String) :
    reloadProcessModuleInterfaceAtribute false old key = if key == old then some old else none := by
  cases old with
  | none => cases key <;> simp [reloadProcessModuleInterfaceAtribute]
  | some o =>
    cases key with
    | none => simp [reloadProcessModuleInterfaceAtribute]
    | some k => by_cases h : k = o <;> simp [reloadProcessModuleInterfaceAtribute, h]

theorem processInterfaceAtribute_compare (ifc : Interface) (c : XmlNode) :
    processInterfaceAtribute false ifc c = if ifc.agrees c then some ifc else none := by
  simp only [processInterfaceAtribute, reloadProcessModuleInterfaceAtribute_compare,
    Interface.agrees]
  split_ifs <;> first | rfl | contradiction

theorem processInterfaceAtributes_compare (ifc : Interface) (children : List XmlNode) :
    processInterfaceAtributes false ifc children =
      if children.all ifc.agrees then some ifc else none := by
  induction children with
  | nil => rfl
  | cons c children ih =>
    rw [processInterfaceAtributes, List.foldlM_cons, processInterfaceAtribute_compare]
    by_cases hc : ifc.agrees c = true
    · simp only [hc, if_true, List.all_cons, Bool.true_and]
      exact ih
    · simp [hc]

/-- The kinds of nodes that occur in accepted documents. -/
theorem nodeNamed_eq_elementNamed {rules : List ChildRule} {children : List XmlNode}
    (h : Allowed rules children) {tag : String} (ht : tag ≠ "text") (hc : tag ≠ "comment")
    {c : XmlNode} (hm : c ∈ children) : c.nodeNamed tag = c.elementNamed tag := by
  rcases h.kinds c hm with hs | ⟨r, -, hr, -⟩
  · rw [nodeNamed_of_isSkipped hs ht hc, isSkipped_not_elementNamed hs]
  · cases c with
    | element name props children => simp [elementNamed]
    | _ => simp [elementNamed] at hr

theorem countP_nodeNamed {rules : List ChildRule} {children : List XmlNode}
    (h : Allowed rules children) {tag : String} (ht : tag ≠ "text") (hc : tag ≠ "comment") :
    children.countP (nodeNamed tag) = children.countP (elementNamed tag) :=
  List.countP_congr fun c hm => by rw [nodeNamed_eq_elementNamed h ht hc hm]

theorem find?_nodeNamed {rules : List ChildRule} {children : List XmlNode}
    (h : Allowed rules children) {tag : String} (ht : tag ≠ "text") (hc : tag ≠ "comment") :
    children.find? (nodeNamed tag) = children.find? (elementNamed tag) := by
  have hfilter : children.filter (nodeNamed tag) = children.filter (elementNamed tag) :=
    List.filter_congr fun c hm => nodeNamed_eq_elementNamed h ht hc hm
  rw [← List.head?_filter, ← List.head?_filter, hfilter]

/-- A child element of this kind is there. -/
def hasChild (tag : String) (children : List XmlNode) : Bool := children.any (elementNamed tag)

theorem childValue_absent {tag : String} {children : List XmlNode}
    (h : hasChild tag children = false) : childValue tag children = none := by
  have hf : children.find? (elementNamed tag) = none := by
    rw [List.find?_eq_none]
    simpa [hasChild] using h
  simp [childValue, hf]

/-- In an accepted sibling list a fold applies to the projected state exactly
the update of the one child of a kind. -/
theorem foldl_allowed {σ γ : Type} {f : σ → XmlNode → σ} {π : σ → γ} {g : XmlNode → γ → γ}
    {rules : List ChildRule} {children : List XmlNode} (h : Allowed rules children) {r : ChildRule}
    (hr : r ∈ rules) (ho : r.once = true) (ht : r.tag ≠ "text") (hc : r.tag ≠ "comment")
    (hother : ∀ s c, c.nodeNamed r.tag = false → π (f s c) = π s)
    (hself : ∀ s c, c.nodeNamed r.tag = true → π (f s c) = g c (π s)) (s : σ) :
    π (children.foldl f s) =
      match children.find? (elementNamed r.tag) with
      | some c => g c (π s)
      | none => π s := by
  have hle : children.countP (nodeNamed r.tag) ≤ 1 := by
    rw [countP_nodeNamed h ht hc]
    exact h.once r hr ho
  rw [Loop.foldl_unique hother hself children s hle, find?_nodeNamed h ht hc]
  cases children.find? (elementNamed r.tag) <;> rfl

/-- The same for an update that stores the text of the child. -/
theorem foldl_childValue {σ : Type} {f : σ → XmlNode → σ} {π : σ → Option String}
    {rules : List ChildRule} {children : List XmlNode} (h : Allowed rules children) {r : ChildRule}
    (hr : r ∈ rules) (ho : r.once = true) (ht : r.tag ≠ "text") (hc : r.tag ≠ "comment")
    (hother : ∀ s c, c.nodeNamed r.tag = false → π (f s c) = π s)
    (hself : ∀ s c, c.nodeNamed r.tag = true → π (f s c) = c.value) (s : σ) :
    π (children.foldl f s) =
      if hasChild r.tag children then childValue r.tag children else π s := by
  rw [foldl_allowed (g := fun c _ => c.value) h hr ho ht hc hother hself]
  cases hf : children.find? (elementNamed r.tag) with
  | none =>
    have hno : hasChild r.tag children = false := by
      simpa [hasChild] using List.find?_eq_none.mp hf
    simp [hno]
  | some c =>
    have hyes : hasChild r.tag children = true :=
      List.any_eq_true.mpr ⟨c, List.mem_of_find?_eq_some hf, List.find?_some hf⟩
    simp [hyes, childValue, hf]

/-- Inserting into a blank slot stores what the element describes. -/
theorem foldl_setAtribute {e : XmlNode} (hg : InterfaceGrammar e) {ifc : Interface}
    (hb : ifc.Blank) : (e.xmlChildrenNode.foldl setAtribute ifc).withCodes = interfaceOf e := by
  have atribute : ∀ (π : Interface → Option String) (r : ChildRule), r ∈ interfaceRules →
      r.once = true → r.tag ≠ "text" → r.tag ≠ "comment" →
      (∀ s c, c.nodeNamed r.tag = false → π (setAtribute s c) = π s) →
      (∀ s c, c.nodeNamed r.tag = true → π (setAtribute s c) = c.value) → π ifc = none →
      π (e.xmlChildrenNode.foldl setAtribute ifc) = childValue r.tag e.xmlChildrenNode := by
    intro π r hr ho ht hc hother hself hnone
    rw [foldl_childValue hg.allowed hr ho ht hc hother hself]
    cases hp : hasChild r.tag e.xmlChildrenNode with
    | true => rfl
    | false => simp [hnone, childValue_absent hp]
  have hself : ∀ (s : Interface) (c : XmlNode),
      (c.nodeNamed "note" = true → (setAtribute s c).ifcNote = c.value) ∧
      (c.nodeNamed "type" = true → (setAtribute s c).ifcType = c.value) ∧
      (c.nodeNamed "params" = true → (setAtribute s c).ifcParams = c.value) ∧
      (c.nodeNamed "direction" = true → (setAtribute s c).ifcDirection = c.value) := by
    intro s c
    refine ⟨fun h => ?_, fun h => ?_, fun h => ?_, fun h => ?_⟩
    · simp [setAtribute, h]
    · simp [setAtribute, h, nodeNamed_ne (by decide : "type" ≠ "note") h]
    · simp [setAtribute, h, nodeNamed_ne (by decide : "params" ≠ "note") h,
        nodeNamed_ne (by decide : "params" ≠ "type") h,
        nodeNamed_ne (by decide : "params" ≠ "direction") h]
    · simp [setAtribute, h, nodeNamed_ne (by decide : "direction" ≠ "note") h,
        nodeNamed_ne (by decide : "direction" ≠ "type") h]
  have hother : ∀ (s : Interface) (c : XmlNode),
      (c.nodeNamed "note" = false → (setAtribute s c).ifcNote = s.ifcNote) ∧
      (c.nodeNamed "type" = false → (setAtribute s c).ifcType = s.ifcType) ∧
      (c.nodeNamed "params" = false → (setAtribute s c).ifcParams = s.ifcParams) ∧
      (c.nodeNamed "direction" = false → (setAtribute s c).ifcDirection = s.ifcDirection) := by
    intro s c
    unfold setAtribute
    split_ifs <;> simp_all
  apply Interface.withCodes_congr
  · exact atribute Interface.ifcNote ⟨"note", true, checkNonEmpty "note"⟩
      (by simp [interfaceRules]) rfl (by decide) (by decide) (fun s c => (hother s c).1)
      (fun s c => (hself s c).1) hb.note
  · exact atribute Interface.ifcType _ (by simp [interfaceRules]; exact .inr (.inl rfl)) rfl
      (by decide) (by decide) (fun s c => (hother s c).2.1) (fun s c => (hself s c).2.1) hb.type
  · exact atribute Interface.ifcParams ⟨"params", true, checkAny⟩ (by simp [interfaceRules]) rfl
      (by decide) (by decide) (fun s c => (hother s c).2.2.1) (fun s c => (hself s c).2.2.1)
      hb.params
  · exact atribute Interface.ifcDirection _ (by simp [interfaceRules]; exact .inr (.inr (.inl rfl)))
      rfl (by decide) (by decide) (fun s c => (hother s c).2.2.2) (fun s c => (hself s c).2.2.2)
      hb.direction

/-! ## The array -/

/-- An array whose first `n` slots are in use and whose other slots are blank. -/
structure Filled (n : Nat) (arr : List Interface) : Prop where
  room : (arr.length = 0 ∧ n = 0) ∨ (2 ≤ arr.length ∧ n ≤ arr.length)
  blank : ∀ y ifc, n ≤ y → arr[y]? = some ifc → ifc.Blank

theorem Filled.le {n : Nat} {arr : List Interface} (h : Filled n arr) : n ≤ arr.length := by
  have := h.room
  omega

theorem blank_replicate {k y : Nat} {ifc : Interface}
    (h : (List.replicate k Interface.zero)[y]? = some ifc) : ifc.Blank := by
  rw [List.eq_of_mem_replicate (List.mem_of_getElem? h)]
  exact Interface.blank_zero

/-- The allocation check makes room for one more interface. -/
theorem reloadCheckModuleAllocatedInterfaces_filled {m : RunningModule} {n : Nat}
    (h : Filled n m.configIfces) :
    ∃ arr cnt, reloadCheckModuleAllocatedInterfaces m n =
        { m with configIfces := arr, configIfcesCnt := cnt } ∧
      Filled n arr ∧ n < arr.length ∧ arr.take n = m.configIfces.take n := by
  unfold reloadCheckModuleAllocatedInterfaces
  by_cases h0 : m.configIfces.length = 0
  · have hn : n = 0 := by
      have := h.room
      omega
    rw [if_pos h0]
    refine ⟨List.replicate 5 Interface.zero, 0, rfl, ⟨.inr ⟨?_, ?_⟩, ?_⟩, ?_, ?_⟩
    · simp
    · simp [hn]
    · intro y ifc _ hy
      exact blank_replicate hy
    · simp [hn]
    · simp [hn]
  · by_cases hfull : n = m.configIfces.length
    · have hlen : 2 ≤ m.configIfces.length := by
        have := h.room
        omega
      rw [if_neg h0, if_pos hfull]
      refine ⟨_, m.configIfcesCnt, rfl, ⟨.inr ⟨?_, ?_⟩, ?_⟩, ?_, ?_⟩
      · simp only [List.length_append, List.length_replicate]
        omega
      · simp only [List.length_append, List.length_replicate]
        omega
      · intro y ifc hy hget
        rw [List.getElem?_append_right (by omega)] at hget
        exact blank_replicate hget
      · simp only [List.length_append, List.length_replicate]
        omega
      · rw [hfull, List.take_left', List.take_length]
        rfl
    · rw [if_neg h0, if_neg hfull]
      refine ⟨m.configIfces, m.configIfcesCnt, rfl, h, ?_, rfl⟩
      have := h.le
      omega

theorem Filled.set {n : Nat} {arr : List Interface} (h : Filled n arr) (hn : n < arr.length)
    (ifc : Interface) : Filled (n + 1) (arr.set n ifc) := by
  refine ⟨.inr ⟨?_, ?_⟩, ?_⟩
  · have := h.room
    rw [List.length_set]
    omega
  · rw [List.length_set]
    omega
  · intro y i hy hget
    rw [List.getElem?_set_ne (by omega)] at hget
    exact h.blank y i (by omega) hget

theorem take_set_succ {α : Type} {n : Nat} {arr : List α} (hn : n < arr.length) (a : α) :
    (arr.set n a).take (n + 1) = arr.take n ++ [a] := by
  rw [List.take_add_one, List.take_set_of_le (Nat.le_refl n)]
  simp [List.getElem?_set_self hn]

/-- Children of an accepted trapinterfaces element. -/
def TrapChildren (children : List XmlNode) : Prop :=
  ∀ i ∈ children,
    i.isSkipped = true ∨ (i.elementNamed "interface" = true ∧ InterfaceGrammar i)

theorem TrapChildren.interface_iff {children : List XmlNode} (h : TrapChildren children)
    {i : XmlNode} (hi : i ∈ children) :
    i.nodeNamed "interface" = i.elementNamed "interface" := by
  rcases h i hi with hs | ⟨he, -⟩
  · rw [nodeNamed_of_isSkipped hs (by decide) (by decide), isSkipped_not_elementNamed hs]
  · rw [he, nodeNamed_of_elementNamed he]

/-- The loop in insert mode appends the interfaces of the elements it walks. -/
theorem interfacesLoop_insert (rewind : RunningModule → IfcLoopState) {children : List XmlNode}
    (hg : TrapChildren children) (m : RunningModule) (n : Nat) (h : Filled n m.configIfces) :
    ∃ arr cnt, interfacesLoop rewind true children m n =
        ({ m with configIfces := arr, configIfcesCnt := cnt }, true,
          n + (interfaceElems children).length) ∧
      Filled (n + (interfaceElems children).length) arr ∧
      (arr.take (n + (interfaceElems children).length)).map Interface.withCodes =
        (m.configIfces.take n).map Interface.withCodes ++
          (interfaceElems children).map interfaceOf := by
  induction children generalizing m n with
  | nil => exact ⟨m.configIfces, m.configIfcesCnt, rfl, h, by simp [interfaceElems]⟩
  | cons i children ih =>
    have hrest : TrapChildren children := fun j hj => hg j (by simp [hj])
    have hnamed := hg.interface_iff (i := i) (by simp)
    by_cases hi : i.elementNamed "interface" = true
    · have hig : InterfaceGrammar i := by
        rcases hg i (by simp) with hs | ⟨-, hig⟩
        · rw [isSkipped_not_elementNamed hs] at hi
          exact absurd hi (by simp)
        · exact hig
      obtain ⟨arr, cnt, halloc, hfill, hlt, htake⟩ :=
        reloadCheckModuleAllocatedInterfaces_filled h
      have hblank : (arr.getD n Interface.zero).Blank := by
        rw [List.getD_eq_getElem?_getD, List.getElem?_eq_getElem hlt]
        exact hfill.blank n _ (Nat.le_refl n) (List.getElem?_eq_getElem hlt)
      let ifc := i.xmlChildrenNode.foldl setAtribute (arr.getD n Interface.zero)
      have hcodes : ifc.withCodes = interfaceOf i := foldl_setAtribute hig hblank
      obtain ⟨arr', cnt', heq, hfill', hmap⟩ :=
        ih hrest { m with configIfces := arr.set n ifc, configIfcesCnt := cnt } (n + 1)
          (hfill.set hlt ifc)
      have helems : interfaceElems (i :: children) = i :: interfaceElems children := by
        simp [interfaceElems, hi]
      have hlen : n + (interfaceElems (i :: children)).length =
          n + 1 + (interfaceElems children).length := by
        rw [helems, List.length_cons]
        omega
      refine ⟨arr', cnt', ?_, ?_, ?_⟩
      · rw [interfacesLoop, if_pos (by rw [hnamed, hi])]
        simp only [halloc, processInterfaceAtributes_insert, hlen]
        exact heq
      · rw [hlen]
        exact hfill'
      · rw [hlen, hmap, helems, take_set_succ hlt, htake]
        simp [hcodes]
    · obtain ⟨arr, cnt, heq, hfill, hmap⟩ := ih hrest m n h
      have helems : interfaceElems (i :: children) = interfaceElems children := by
        simp [interfaceElems, hi]
      refine ⟨arr, cnt, ?_, ?_, ?_⟩
      · rw [interfacesLoop, if_neg (by rw [hnamed]; exact hi), helems]
        exact heq
      · rw [helems]
        exact hfill
      · rw [helems]
        exact hmap

/-- The elements agree with the interfaces they are compared with. -/
def allAgree (ifces : List Interface) (elems : List XmlNode) : Bool :=
  (ifces.zip elems).all fun (ifc, e) => e.xmlChildrenNode.all ifc.agrees

/-- The loop in compare mode walks the array or rewinds at a difference. -/
theorem interfacesLoop_compare (rewind : RunningModule → IfcLoopState) {children : List XmlNode}
    (hg : TrapChildren children) (m : RunningModule) (n : Nat)
    (h : n + (interfaceElems children).length ≤ m.configIfces.length) :
    interfacesLoop rewind false children m n =
      if allAgree (m.configIfces.drop n) (interfaceElems children) then
        (m, false, n + (interfaceElems children).length)
      else rewind (freeModuleInterfacesOnIndex { m with moduleModifiedByReload := true }) := by
  induction children generalizing n with
  | nil => simp [interfacesLoop, interfaceElems, allAgree]
  | cons i children ih =>
    have hrest : TrapChildren children := fun j hj => hg j (by simp [hj])
    have hnamed := hg.interface_iff (i := i) (by simp)
    by_cases hi : i.elementNamed "interface" = true
    · have helems : interfaceElems (i :: children) = i :: interfaceElems children := by
        simp [interfaceElems, hi]
      rw [helems, List.length_cons] at h
      have hlt : n < m.configIfces.length := by omega
      have halloc : reloadCheckModuleAllocatedInterfaces m n = m := by
        unfold reloadCheckModuleAllocatedInterfaces
        rw [if_neg (by omega), if_neg (by omega)]
      have hget : m.configIfces.getD n Interface.zero = m.configIfces[n] := by
        simp [List.getD_eq_getElem?_getD, List.getElem?_eq_getElem hlt]
      rw [interfacesLoop, if_pos (by rw [hnamed, hi])]
      simp only [halloc, processInterfaceAtributes_compare, hget]
      rw [helems, List.drop_eq_getElem_cons hlt]
      by_cases ha : i.xmlChildrenNode.all m.configIfces[n].agrees = true
      · simp only [ha, if_true, List.set_getElem_self]
        rw [ih hrest (n + 1) (by omega)]
        have hlen : n + 1 + (interfaceElems children).length =
            n + ((interfaceElems children).length + 1) := by omega
        simp only [allAgree, List.zip_cons_cons, List.all_cons, ha, Bool.true_and,
          List.length_cons, hlen]
      · simp only [allAgree, List.zip_cons_cons, List.all_cons, ha, Bool.false_and,
          Bool.false_eq_true, if_false]
    · have helems : interfaceElems (i :: children) = interfaceElems children := by
        simp [interfaceElems, hi]
      rw [interfacesLoop, if_neg (by rw [hnamed]; exact hi), helems]
      exact ih hrest n (by rwa [helems] at h)

/-! ## The trapinterfaces branch -/

/-- The interface array of a loaded module. -/
structure IfcArray (m : RunningModule) : Prop where
  filled : Filled m.configIfcesCnt m.configIfces
  codes : ∀ ifc ∈ m.ifces, ifc.withCodes = ifc

theorem Filled.length_ifces {m : RunningModule} (h : Filled m.configIfcesCnt m.configIfces) :
    m.ifces.length = m.configIfcesCnt := by
  have := h.le
  simp only [RunningModule.ifces, List.length_take]
  omega

theorem freeModuleInterfacesOnIndex_filled {m : RunningModule}
    (h : Filled m.configIfcesCnt m.configIfces) :
    ∃ arr, freeModuleInterfacesOnIndex m = { m with configIfces := arr } ∧ Filled 0 arr := by
  refine ⟨_, rfl, ?_, ?_⟩
  · have := h.room
    rw [List.length_mapIdx]
    omega
  · intro y ifc _ hy
    rw [List.getElem?_mapIdx, Option.map_eq_some_iff] at hy
    obtain ⟨old, hold, rfl⟩ := hy
    by_cases hlt : y < m.configIfcesCnt
    · rw [if_pos hlt]
      exact ⟨rfl, rfl, rfl, rfl⟩
    · rw [if_neg hlt]
      exact h.blank y old (by omega) hold

/-- The branch while inserting, from an array without strings. -/
theorem processTrapinterfaces_new {children : List XmlNode} (hg : TrapChildren children)
    {m : RunningModule} (h : Filled 0 m.configIfces) :
    ∃ arr, processTrapinterfaces true true m children =
        ({ m with configIfces := arr, configIfcesCnt := (interfaceElems children).length }, true) ∧
      Filled (interfaceElems children).length arr ∧
      (arr.take (interfaceElems children).length).map Interface.withCodes =
        (interfaceElems children).map interfaceOf := by
  obtain ⟨arr, cnt, heq, hfill, hmap⟩ := interfacesLoop_insert
    (fun m => interfacesLoop (fun m => (m, true, 0)) true children.tail m 0) hg m 0 h
  rw [Nat.zero_add] at heq hfill hmap
  refine ⟨arr, ?_, hfill, by simpa using hmap⟩
  simp only [processTrapinterfaces, if_true, heq]

/-- The branch for a loaded module with another number of interfaces. -/
theorem processTrapinterfaces_count {children : List XmlNode} (hg : TrapChildren children)
    {m : RunningModule} (h : Filled m.configIfcesCnt m.configIfces)
    (hcnt : m.configIfcesCnt ≠ (interfaceElems children).length) :
    ∃ arr, processTrapinterfaces false false m children =
        ({ m with
            configIfces := arr
            configIfcesCnt := (interfaceElems children).length
            moduleModifiedByReload := true }, true) ∧
      Filled (interfaceElems children).length arr ∧
      (arr.take (interfaceElems children).length).map Interface.withCodes =
        (interfaceElems children).map interfaceOf := by
  have hcount : children.countP (nodeNamed "interface") = (interfaceElems children).length := by
    rw [interfaceElems, ← List.countP_eq_length_filter]
    exact List.countP_congr fun i hi => by rw [hg.interface_iff hi]
  obtain ⟨arr0, hfree, hfill0⟩ := freeModuleInterfacesOnIndex_filled
    (m := { m with moduleModifiedByReload := true }) h
  obtain ⟨arr, cnt, heq, hfill, hmap⟩ := interfacesLoop_insert
    (fun m => interfacesLoop (fun m => (m, true, 0)) true children.tail m 0) hg
    { m with configIfces := arr0, configIfcesCnt := 0, moduleModifiedByReload := true } 0 hfill0
  rw [Nat.zero_add] at heq hfill hmap
  refine ⟨arr, ?_, hfill, by simpa using hmap⟩
  simp only [processTrapinterfaces, reloadCheckModulesInterfacesCount, hcount, ne_eq, hcnt,
    not_false_eq_true, if_true, Bool.false_eq_true, if_false, hfree, heq]

theorem interfacesLoop_compare_ifces (rewind : RunningModule → IfcLoopState)
    {children : List XmlNode} (hg : TrapChildren children) {m : RunningModule}
    (h : Filled m.configIfcesCnt m.configIfces)
    (hcnt : m.configIfcesCnt = (interfaceElems children).length) :
    interfacesLoop rewind false children m 0 =
      if allAgree m.ifces (interfaceElems children) then (m, false, m.configIfcesCnt)
      else rewind (freeModuleInterfacesOnIndex { m with moduleModifiedByReload := true }) := by
  have hle : 0 + (interfaceElems children).length ≤ m.configIfces.length := by
    have := h.le
    omega
  have hzip : allAgree (m.configIfces.drop 0) (interfaceElems children) =
      allAgree m.ifces (interfaceElems children) := by
    have hmin : min m.configIfces.length (interfaceElems children).length = m.configIfcesCnt := by
      omega
    rw [allAgree, allAgree, List.drop_zero, List.zip_eq_zip_take_min, hmin, hcnt, List.take_length,
      ← hcnt]
    rfl
  rw [interfacesLoop_compare rewind hg m 0 hle, hzip, Nat.zero_add, hcnt]

theorem reloadCheckModulesInterfacesCount_same {children : List XmlNode}
    (hg : TrapChildren children) {m : RunningModule}
    (hcnt : m.configIfcesCnt = (interfaceElems children).length) :
    reloadCheckModulesInterfacesCount m false children = (m, false) := by
  have hcount : children.countP (nodeNamed "interface") = m.configIfcesCnt := by
    rw [hcnt, interfaceElems, ← List.countP_eq_length_filter]
    exact List.countP_congr fun i hi => by rw [hg.interface_iff hi]
  simp [reloadCheckModulesInterfacesCount, hcount]

/-- The branch for a loaded module whose interfaces all agree. -/
theorem processTrapinterfaces_same {children : List XmlNode} (hg : TrapChildren children)
    {m : RunningModule} (h : Filled m.configIfcesCnt m.configIfces)
    (hcnt : m.configIfcesCnt = (interfaceElems children).length)
    (hagree : allAgree m.ifces (interfaceElems children) = true) :
    processTrapinterfaces false false m children = (m, false) := by
  have hloop := interfacesLoop_compare_ifces
    (fun m => interfacesLoop (fun m => (m, true, 0)) true children.tail m 0) hg h hcnt
  rw [if_pos hagree] at hloop
  simp only [processTrapinterfaces, Bool.false_eq_true, if_false,
    reloadCheckModulesInterfacesCount_same hg hcnt, hloop]

/-- The branch for a loaded module at a difference. -/
theorem processTrapinterfaces_differs {children : List XmlNode} (hg : TrapChildren children)
    {m : RunningModule} (h : Filled m.configIfcesCnt m.configIfces)
    (hcnt : m.configIfcesCnt = (interfaceElems children).length)
    (hagree : allAgree m.ifces (interfaceElems children) = false) :
    ∃ arr, processTrapinterfaces false false m children =
        ({ m with
            configIfces := arr
            configIfcesCnt := (interfaceElems children.tail).length
            moduleModifiedByReload := true }, true) ∧
      Filled (interfaceElems children.tail).length arr ∧
      (arr.take (interfaceElems children.tail).length).map Interface.withCodes =
        (interfaceElems children.tail).map interfaceOf := by
  obtain ⟨arr0, hfree, hfill0⟩ := freeModuleInterfacesOnIndex_filled
    (m := { m with moduleModifiedByReload := true }) h
  have hgt : TrapChildren children.tail := fun i hi => hg i (List.mem_of_mem_tail hi)
  obtain ⟨arr, cnt, heq, hfill, hmap⟩ := interfacesLoop_insert (fun m => (m, true, 0)) hgt
    { m with configIfces := arr0, moduleModifiedByReload := true } 0 hfill0
  rw [Nat.zero_add] at heq hfill hmap
  have hloop := interfacesLoop_compare_ifces
    (fun m => interfacesLoop (fun m => (m, true, 0)) true children.tail m 0) hg h hcnt
  rw [hagree, hfree, if_neg (by simp), heq] at hloop
  refine ⟨arr, ?_, hfill, by simpa using hmap⟩
  simp only [processTrapinterfaces, Bool.false_eq_true, if_false,
    reloadCheckModulesInterfacesCount_same hg hcnt, hloop]

end NemeaSupervisor
