import NemeaSupervisor.InterfaceLists

/-!
# The backup file

`generate_backup_config_file` writes the profiles and, under each, the modules
whose profile has its name. The model is the document that the parser reads back
from the file. Formatted output puts white space between elements. A string is not
always the text of its element again: `xmlNewChild` takes `&` for the start of a
reference, and an empty string leaves an element without children.
-/

namespace NemeaSupervisor

open XmlNode

/-- What libxml2 does to a file that it writes and reads: the children of an element that
`xmlNewChild` has made with a content, if the parser can read them, and white space. -/
structure Libxml2 where
  content : String → Option (List XmlNode)
  indent : Nat → List XmlNode → List XmlNode

namespace Libxml2

def nodes (lib : Libxml2) (v : String) : List XmlNode := (lib.content v).getD []

/-- The string that comes back for a string; for NULL there is no element. -/
def reread (lib : Libxml2) (o : Option String) : Option String :=
  o.bind fun v => xmlNodeListGetString (lib.nodes v)

end Libxml2

section
variable (lib : Libxml2)

/-- The children that `xmlNewChild` adds for strings, none for a NULL pointer. -/
def textChildren (l : List (String × Option String)) : List XmlNode :=
  l.filterMap fun p => p.2.map fun v => .element p.1 [] (lib.nodes v)

def enabledText (enabled : Bool) : String := if enabled then "true" else "false"

def interfaceTexts (ifc : Interface) : List (String × Option String) :=
  [("note", ifc.ifcNote), ("params", ifc.ifcParams), ("direction", ifc.ifcDirection),
   ("type", ifc.ifcType)]

def moduleTexts (m : RunningModule) : List (String × Option String) :=
  [("name", m.moduleName), ("path", m.modulePath), ("params", m.moduleParams),
   ("enabled", some (enabledText m.moduleEnabled))]

def profileTexts (profile : ModulesProfile) : List (String × Option String) :=
  [("name", some profile.profileName), ("enabled", some (enabledText profile.profileEnabled))]

def backupInterface (ifc : Interface) : XmlNode :=
  .element "interface" [] (lib.indent 5 (textChildren lib (interfaceTexts ifc)))

def backupTrapinterfaces (m : RunningModule) : List XmlNode :=
  if m.configIfcesCnt > 0 then
    [.element "trapinterfaces" [] (lib.indent 4 (m.ifces.map (backupInterface lib)))]
  else []

def backupModule (m : RunningModule) : XmlNode :=
  .element "module" [("module_pid", toString m.modulePid)]
    (lib.indent 3 (textChildren lib (moduleTexts m) ++ backupTrapinterfaces lib m))

/-- The loaded modules that a profile of this name lists. -/
def profileModules (s : Supervisor) (profile : ModulesProfile) : List RunningModule :=
  s.loaded.filter fun m => (s.profileOf m).any fun p => p.profileName == profile.profileName

def backupModules (s : Supervisor) (profile : ModulesProfile) : XmlNode :=
  .element "modules" [] (lib.indent 2 (textChildren lib (profileTexts profile) ++
    (profileModules s profile).map (backupModule lib)))

/-- `generate_backup_config_file`. -/
def generateBackupConfigFile (s : Supervisor) : XmlNode :=
  .element "nemea-supervisor" [] (lib.indent 1 (s.profiles.map (backupModules lib s)))

/-- All strings that are written. -/
def backupStrings (s : Supervisor) : List String :=
  s.profiles.flatMap fun profile =>
    (profileTexts profile ++ (profileModules s profile).flatMap fun m =>
      moduleTexts m ++ m.ifces.flatMap interfaceTexts).filterMap Prod.snd

/-- The parser can read every element of the file. -/
def Readable (s : Supervisor) : Prop := ∀ v ∈ backupStrings s, (lib.content v).isSome

instance (s : Supervisor) : Decidable (Readable lib s) :=
  inferInstanceAs (Decidable (∀ v ∈ backupStrings s, (lib.content v).isSome))

/-- `xmlParseFile` on the backup file. -/
def parsedBackup (s : Supervisor) : Option XmlNode :=
  if Readable lib s then some (generateBackupConfigFile lib s) else none

/-- The words that the format itself has. -/
def fixedWords : List String :=
  ["true", "false", "IN", "OUT", "TCP", "UNIXSOCKET", "FILE", "BLACKHOLE", "TLS"]

/-- Formatted output puts nodes that are skipped between the elements, an element without
children stays so, and the fixed words come back. -/
structure Formats : Prop where
  elements : ∀ depth l, (∀ c ∈ l, c.isSkipped = false) →
    (lib.indent depth l).filter (fun c => !c.isSkipped) = l
  empty : ∀ depth, lib.indent depth [] = []
  words : ∀ v ∈ fixedWords, lib.content v = some [.text v]

end

/-! ## Formatted children -/

section
variable {lib : Libxml2} (hf : Formats lib) {depth : Nat} {l : List XmlNode}
  (hl : ∀ c ∈ l, c.isSkipped = false)
include hf hl

theorem Formats.mem {c : XmlNode} (hc : c ∈ lib.indent depth l) : c.isSkipped = true ∨ c ∈ l := by
  cases hs : c.isSkipped with
  | true => exact .inl rfl
  | false =>
    right
    rw [← hf.elements depth l hl]
    exact List.mem_filter.mpr ⟨hc, by rw [hs]; rfl⟩

theorem Formats.subset : l ⊆ lib.indent depth l := by
  intro c hc
  rw [← hf.elements depth l hl] at hc
  exact (List.mem_filter.mp hc).1

theorem Formats.filter (tag : String) :
    (lib.indent depth l).filter (elementNamed tag) = l.filter (elementNamed tag) := by
  conv_rhs => rw [← hf.elements depth l hl]
  rw [List.filter_filter]
  refine List.filter_congr fun c _ => ?_
  cases hs : c.isSkipped with
  | true => simp [isSkipped_not_elementNamed hs]
  | false => simp

theorem Formats.find? (tag : String) :
    (lib.indent depth l).find? (elementNamed tag) = l.find? (elementNamed tag) := by
  rw [← List.head?_filter, hf.filter hl, List.head?_filter]

theorem Formats.childValue (tag : String) :
    childValue tag (lib.indent depth l) = childValue tag l := by
  rw [NemeaSupervisor.childValue, hf.find? hl]
  rfl

theorem Formats.countP (tag : String) :
    (lib.indent depth l).countP (elementNamed tag) = l.countP (elementNamed tag) := by
  rw [List.countP_eq_length_filter, hf.filter hl, ← List.countP_eq_length_filter]

theorem Formats.allowed {rules : List ChildRule} (h : Allowed rules l) :
    Allowed rules (lib.indent depth l) := by
  refine ⟨fun c hc => ?_, fun r hr ho => ?_⟩
  · rcases hf.mem hl hc with hs | hc
    · exact .inl hs
    · exact h.kinds c hc
  · rw [hf.countP hl]
    exact h.once r hr ho

end

/-! ## Text children -/

section
variable {lib : Libxml2} {l : List (String × Option String)}

theorem Formats.reread (hf : Formats lib) {v : String} (hv : v ∈ fixedWords) :
    lib.reread (some v) = some v := by
  rw [Libxml2.reread, Option.bind_some, Libxml2.nodes, hf.words v hv]
  rfl

theorem Formats.reread_enabledText (hf : Formats lib) (b : Bool) :
    lib.reread (some (enabledText b)) = some (enabledText b) :=
  hf.reread (by cases b <;> decide)

theorem mem_textChildren {c : XmlNode} (hc : c ∈ textChildren lib l) :
    ∃ name v, (name, some v) ∈ l ∧ c = .element name [] (lib.nodes v) := by
  obtain ⟨⟨name, o⟩, hp, hc⟩ := List.mem_filterMap.mp hc
  obtain ⟨v, hv, rfl⟩ := Option.map_eq_some_iff.mp hc
  simp only at hv
  subst hv
  exact ⟨name, v, hp, rfl⟩

theorem mem_textChildren_of {name v : String} (h : (name, some v) ∈ l) :
    .element name [] (lib.nodes v) ∈ textChildren lib l :=
  List.mem_filterMap.mpr ⟨_, h, rfl⟩

theorem textChildren_not_isSkipped : ∀ c ∈ textChildren lib l, c.isSkipped = false := by
  intro c hc
  obtain ⟨name, v, -, rfl⟩ := mem_textChildren hc
  rfl

theorem countP_textChildren (l : List (String × Option String)) (tag : String) :
    (textChildren lib l).countP (elementNamed tag) ≤ (l.map Prod.fst).count tag := by
  induction l with
  | nil => simp [textChildren]
  | cons p l ih =>
    obtain ⟨name, o⟩ := p
    cases o with
    | none => exact Nat.le_trans ih List.count_le_count_cons
    | some v =>
      change (.element name [] (lib.nodes v) :: textChildren lib l).countP (elementNamed tag) ≤ _
      rw [List.countP_cons, List.map_cons, List.count_cons]
      exact Nat.add_le_add ih (Nat.le_refl _)

theorem find?_textChildren_none {tag : String} (h : tag ∉ l.map Prod.fst) :
    (textChildren lib l).find? (elementNamed tag) = none := by
  rw [List.find?_eq_none, ← List.countP_eq_zero]
  exact Nat.le_zero.mp (List.count_eq_zero.mpr h ▸ countP_textChildren l tag)

/-- The text of a child is what comes back of the string it was written for. -/
theorem childValue_textChildren (hnodup : (l.map Prod.fst).Nodup) {tag : String}
    {o : Option String} (h : (tag, o) ∈ l) :
    childValue tag (textChildren lib l) = lib.reread o := by
  induction l with
  | nil => simp at h
  | cons p l ih =>
    obtain ⟨name, v⟩ := p
    rw [List.map_cons, List.nodup_cons] at hnodup
    rcases List.mem_cons.mp h with heq | hmem
    · cases heq
      cases o with
      | none =>
        change childValue tag (textChildren lib l) = none
        rw [childValue, find?_textChildren_none hnodup.1]
        rfl
      | some v =>
        change childValue tag (.element tag [] (lib.nodes v) :: textChildren lib l) = _
        simp [childValue, elementNamed]
        rfl
    · have hne : name ≠ tag := fun heq => hnodup.1 (heq ▸ List.mem_map.mpr ⟨_, hmem, rfl⟩)
      cases v with
      | none => exact ih hnodup.2 hmem
      | some v =>
        change childValue tag (.element name [] (lib.nodes v) :: textChildren lib l) = _
        rw [← ih hnodup.2 hmem]
        simp [childValue, elementNamed, hne]

theorem allowed_textChildren {rules : List ChildRule} (hnodup : (l.map Prod.fst).Nodup)
    (h : ∀ name v, (name, some v) ∈ l →
      ∃ r ∈ rules, r.tag = name ∧ r.check (lib.reread (some v)) = .ok ()) :
    Allowed rules (textChildren lib l) := by
  refine ⟨fun c hc => ?_, fun r _ _ => ?_⟩
  · obtain ⟨name, v, hmem, rfl⟩ := mem_textChildren hc
    obtain ⟨r, hr, rfl, hcheck⟩ := h name v hmem
    exact .inr ⟨r, hr, by simp [elementNamed], hcheck⟩
  · exact Nat.le_trans (countP_textChildren l r.tag) (List.nodup_iff_count_le_one.mp hnodup r.tag)

/-- What an accepted list of children says about a string in it. -/
theorem check_of_allowed {rules : List ChildRule} (hd : Distinct rules) {children : List XmlNode}
    (h : Allowed rules children) (hsub : textChildren lib l ⊆ children) {r : ChildRule}
    (hr : r ∈ rules) {v : String} (hv : (r.tag, some v) ∈ l) :
    r.check (lib.reread (some v)) = .ok () := by
  have hnamed : elementNamed r.tag (.element r.tag [] (lib.nodes v)) = true := by
    simp [elementNamed]
  rcases h.kinds _ (hsub (mem_textChildren_of hv)) with hskip | ⟨r', hr', hnamed', hcheck⟩
  · cases hskip
  · rw [← rule_unique hd hr hr' hnamed hnamed'] at hcheck
    exact hcheck

theorem countP_textChildren_pos {tag v : String} (h : (tag, some v) ∈ l) :
    0 < (textChildren lib l).countP (elementNamed tag) :=
  List.countP_pos_iff.mpr ⟨_, mem_textChildren_of h, by simp [elementNamed]⟩

/-- Elements of one further kind after the text children. -/
theorem allowed_append {rules : List ChildRule} (hd : Distinct rules) {more : List XmlNode}
    (h : Allowed rules (textChildren lib l)) {q : ChildRule} (hq : q ∈ rules)
    (hmore : ∀ c ∈ more, c.elementNamed q.tag = true ∧ q.check c.value = .ok ())
    (hfresh : q.tag ∉ l.map Prod.fst) (honce : q.once = true → more.length ≤ 1) :
    Allowed rules (textChildren lib l ++ more) := by
  refine ⟨fun c hc => ?_, fun r hr ho => ?_⟩
  · rcases List.mem_append.mp hc with hc | hc
    · exact h.kinds c hc
    · exact .inr ⟨q, hq, hmore c hc⟩
  · rw [List.countP_append]
    by_cases htag : r.tag = q.tag
    · have hsame : r = q := List.inj_on_of_nodup_map hd hr hq htag
      subst hsame
      have htext := @countP_textChildren lib l r.tag
      rw [List.count_eq_zero.mpr hfresh] at htext
      have hlen := List.countP_le_length (p := elementNamed r.tag) (l := more)
      have := honce ho
      omega
    · have hzero : more.countP (elementNamed r.tag) = 0 := by
        refine List.countP_eq_zero.mpr fun c hc hn => ?_
        exact htag (elementNamed_unique hn (hmore c hc).1)
      rw [hzero]
      exact h.once r hr ho

end

/-! ## What the backup says -/

/-- At least one string of the interface is not NULL. -/
def Interface.described (ifc : Interface) : Bool :=
  ifc.ifcNote.isSome || ifc.ifcParams.isSome || ifc.ifcDirection.isSome || ifc.ifcType.isSome

/-- A string that is not NULL comes back as one. -/
def Libxml2.Keeps (lib : Libxml2) (o : Option String) : Prop := o ≠ none → lib.reread o ≠ none

instance (lib : Libxml2) (o : Option String) : Decidable (lib.Keeps o) :=
  inferInstanceAs (Decidable (_ → _))

/-- The interface is written with a string, and its note comes back. -/
def InterfaceAccepted (lib : Libxml2) (ifc : Interface) : Prop :=
  ifc.described = true ∧ lib.Keeps ifc.ifcNote

instance (lib : Libxml2) (ifc : Interface) : Decidable (InterfaceAccepted lib ifc) :=
  inferInstanceAs (Decidable (_ ∧ _))

/-- The name and the path come back, and the interfaces are accepted. -/
structure ModuleAccepted (lib : Libxml2) (m : RunningModule) : Prop where
  name : lib.reread m.moduleName ≠ none
  path : lib.reread m.modulePath ≠ none
  ifces : ∀ ifc ∈ m.ifces, InterfaceAccepted lib ifc

section
variable {lib : Libxml2} (hf : Formats lib)
include hf

omit hf in
theorem directions_fixed {d : String} (h : d ∈ ["IN", "OUT"]) : d ∈ fixedWords := by
  simp only [List.mem_cons, List.not_mem_nil, or_false] at h
  rcases h with rfl | rfl <;> decide

omit hf in
theorem types_fixed {t : String} (h : t ∈ ["TCP", "UNIXSOCKET", "FILE", "BLACKHOLE", "TLS"]) :
    t ∈ fixedWords := by
  simp only [List.mem_cons, List.not_mem_nil, or_false] at h
  rcases h with rfl | rfl | rfl | rfl | rfl <;> decide

theorem backupInterface_value (ifc : Interface) {tag : String} {o : Option String}
    (h : (tag, o) ∈ interfaceTexts ifc) :
    childValue tag (backupInterface lib ifc).xmlChildrenNode = lib.reread o :=
  (hf.childValue textChildren_not_isSkipped tag).trans
    (childValue_textChildren (by simp [interfaceTexts]) h)

/-- An interface comes back as it was when its note and its parameters do. -/
theorem docInterface_backup {ifc : Interface} (hv : ValidInterface ifc)
    (hcodes : ifc.withCodes = ifc) (hnote : lib.reread ifc.ifcNote = ifc.ifcNote)
    (hparams : lib.reread ifc.ifcParams = ifc.ifcParams) :
    docInterface (backupInterface lib ifc) = ifc := by
  have hdirection : lib.reread ifc.ifcDirection = ifc.ifcDirection := by
    cases hd : ifc.ifcDirection with
    | none => rfl
    | some d => exact hf.reread (directions_fixed (hv.direction d hd))
  have htype : lib.reread ifc.ifcType = ifc.ifcType := by
    cases ht : ifc.ifcType with
    | none => rfl
    | some t => exact hf.reread (types_fixed (hv.type t ht))
  have hvalue : ∀ tag o, (tag, o) ∈ interfaceTexts ifc → lib.reread o = o →
      childValue tag (backupInterface lib ifc).xmlChildrenNode = o := fun _ _ h heq =>
    (backupInterface_value hf ifc h).trans heq
  have hn := hvalue "note" _ (by simp [interfaceTexts]) hnote
  have hp := hvalue "params" _ (by simp [interfaceTexts]) hparams
  have hd := hvalue "direction" _ (by simp [interfaceTexts]) hdirection
  have ht := hvalue "type" _ (by simp [interfaceTexts]) htype
  simp only [docInterface, hn, hp, hd, ht, ← hv.codes.1, ← hv.codes.2]
  exact hcodes

theorem interfaceGrammar_backup {ifc : Interface} (hv : ValidInterface ifc) :
    InterfaceGrammar (backupInterface lib ifc) ↔ InterfaceAccepted lib ifc := by
  have hnil : textChildren lib (interfaceTexts ifc) = [] ↔ ifc.described = false := by
    rw [Interface.described, interfaceTexts]
    cases ifc.ifcNote <;> cases ifc.ifcParams <;> cases ifc.ifcDirection <;>
      cases ifc.ifcType <;> simp [textChildren]
  constructor
  · intro hg
    constructor
    · cases hd : ifc.described with
      | true => rfl
      | false =>
        refine absurd ?_ hg.nonempty
        change lib.indent 5 _ = []
        rw [hnil.mpr hd, hf.empty]
    · intro hnote
      obtain ⟨v, hv⟩ := Option.ne_none_iff_exists'.mp hnote
      have hcheck := check_of_allowed interfaceRules_distinct hg.allowed
        (hf.subset textChildren_not_isSkipped) (r := ⟨"note", true, checkNonEmpty "note"⟩)
        (by simp [interfaceRules]) (v := v) (by simp [interfaceTexts, hv])
      rw [hv]
      exact Option.ne_none_iff_exists'.mpr (checkNonEmpty_eq_ok.mp hcheck)
  · rintro ⟨hd, hnote⟩
    refine ⟨fun h => ?_, hf.allowed textChildren_not_isSkipped
      (allowed_textChildren (by simp [interfaceTexts]) ?_)⟩
    · have hempty := hf.elements 5 (textChildren lib (interfaceTexts ifc))
        textChildren_not_isSkipped
      change lib.indent 5 _ = [] at h
      rw [h, List.filter_nil] at hempty
      rw [hnil.mp hempty.symm] at hd
      exact absurd hd (by simp)
    · intro name v hmem
      simp only [interfaceTexts, List.mem_cons, List.not_mem_nil, or_false, Prod.mk.injEq] at hmem
      rcases hmem with ⟨rfl, hn⟩ | ⟨rfl, -⟩ | ⟨rfl, hd⟩ | ⟨rfl, ht⟩
      · refine ⟨⟨"note", true, checkNonEmpty "note"⟩, by simp [interfaceRules], rfl, ?_⟩
        rw [hn]
        exact checkNonEmpty_eq_ok.mpr
          (Option.ne_none_iff_exists'.mp (hnote (by rw [← hn]; simp)))
      · exact ⟨⟨"params", true, checkAny⟩, by simp [interfaceRules], rfl, rfl⟩
      · exact ⟨_, by simp [interfaceRules]; exact .inr (.inr (.inl rfl)), rfl,
          checkOneOf_eq_ok.mpr ⟨v, hf.reread (directions_fixed (hv.direction v hd.symm)),
            hv.direction v hd.symm⟩⟩
      · exact ⟨_, by simp [interfaceRules]; exact .inr (.inl rfl), rfl,
          checkOneOf_eq_ok.mpr ⟨v, hf.reread (types_fixed (hv.type v ht.symm)),
            hv.type v ht.symm⟩⟩

omit hf in
theorem moduleChildren_not_isSkipped (m : RunningModule) (l : List (String × Option String)) :
    ∀ c ∈ textChildren lib l ++ backupTrapinterfaces lib m, c.isSkipped = false := by
  intro c hc
  rcases List.mem_append.mp hc with hc | hc
  · exact textChildren_not_isSkipped c hc
  · unfold backupTrapinterfaces at hc
    split_ifs at hc
    · rw [List.mem_singleton.mp hc]
      rfl
    · exact absurd hc (by simp)

omit hf in
theorem trapinterfaces_find? (m : RunningModule) {tag : String} (ht : tag ≠ "trapinterfaces") :
    (backupTrapinterfaces lib m).find? (elementNamed tag) = none := by
  unfold backupTrapinterfaces
  split_ifs <;> simp [elementNamed, ht.symm]

theorem backupModule_value (m : RunningModule) {tag : String} (ht : tag ≠ "trapinterfaces") :
    childValue tag (backupModule lib m).xmlChildrenNode =
      childValue tag (textChildren lib (moduleTexts m)) := by
  refine (hf.childValue (moduleChildren_not_isSkipped m _) tag).trans ?_
  rw [childValue, List.find?_append, trapinterfaces_find? m ht, Option.or_none]
  rfl

theorem backupModule_text (m : RunningModule) {tag : String} {o : Option String}
    (ht : tag ≠ "trapinterfaces") (h : (tag, o) ∈ moduleTexts m) :
    childValue tag (backupModule lib m).xmlChildrenNode = lib.reread o :=
  (backupModule_value hf m ht).trans (childValue_textChildren (by simp [moduleTexts]) h)

theorem backupModule_name (m : RunningModule) :
    moduleName (backupModule lib m) = lib.reread m.moduleName :=
  backupModule_text hf m (by decide) (by simp [moduleTexts])

/-- The backup holds no limit. -/
theorem backupModule_restarts (m : RunningModule) :
    moduleRestarts (backupModule lib m) = none := by
  rw [moduleRestarts, backupModule_value hf m (by decide), childValue,
    find?_textChildren_none (by simp [moduleTexts])]
  rfl

theorem trapElem_backup (m : RunningModule) :
    trapElem (backupModule lib m) =
      if m.configIfcesCnt > 0 then
        some (.element "trapinterfaces" [] (lib.indent 4 (m.ifces.map (backupInterface lib))))
      else none := by
  refine (hf.find? (moduleChildren_not_isSkipped m _) "trapinterfaces").trans ?_
  rw [List.find?_append, find?_textChildren_none (by simp [moduleTexts]), Option.none_or,
    backupTrapinterfaces]
  split_ifs <;> rfl

omit hf in
theorem backupInterfaces_not_isSkipped (ifces : List Interface) :
    ∀ c ∈ ifces.map (backupInterface lib), c.isSkipped = false := by
  intro c hc
  obtain ⟨ifc, -, rfl⟩ := List.mem_map.mp hc
  rfl

theorem interfaceElems_backup (ifces : List Interface) :
    interfaceElems (lib.indent 4 (ifces.map (backupInterface lib))) =
      ifces.map (backupInterface lib) := by
  rw [interfaceElems, hf.filter (backupInterfaces_not_isSkipped ifces), List.filter_eq_self]
  intro c hc
  obtain ⟨ifc, -, rfl⟩ := List.mem_map.mp hc
  rfl

/-- The interfaces come back as they were when their strings do. -/
theorem docInterfaces_backup {n : Nat} {m : RunningModule} (h : LoadedSlot n m)
    (hkept : ∀ ifc ∈ m.ifces, lib.reread ifc.ifcNote = ifc.ifcNote ∧
      lib.reread ifc.ifcParams = ifc.ifcParams) :
    docInterfaces (backupModule lib m) = m.ifces := by
  rw [docInterfaces, trapElem_backup hf]
  by_cases hcnt : m.configIfcesCnt > 0
  · rw [if_pos hcnt]
    change (interfaceElems (lib.indent 4 _)).map docInterface = m.ifces
    rw [interfaceElems_backup hf, List.map_map]
    refine (List.map_congr_left fun ifc hifc => ?_).trans (List.map_id _)
    exact docInterface_backup hf (h.valid ifc hifc) (h.ifces.codes ifc hifc) (hkept ifc hifc).1
      (hkept ifc hifc).2
  · rw [if_neg hcnt]
    have hlen := h.ifces.filled.length_ifces
    exact (List.eq_nil_of_length_eq_zero (by omega)).symm

omit hf in
theorem mem_backupTrapinterfaces {m : RunningModule} {c : XmlNode}
    (hc : c ∈ backupTrapinterfaces lib m) :
    c = .element "trapinterfaces" [] (lib.indent 4 (m.ifces.map (backupInterface lib))) := by
  unfold backupTrapinterfaces at hc
  split_ifs at hc
  · exact List.mem_singleton.mp hc
  · exact absurd hc (by simp)

theorem checkEnabled_reread (b : Bool) :
    checkEnabled (lib.reread (some (enabledText b))) = .ok () := by
  rw [hf.reread_enabledText]
  cases b <;> decide

theorem allowed_moduleTexts {m : RunningModule} (hname : lib.reread m.moduleName ≠ none)
    (hpath : lib.reread m.modulePath ≠ none) :
    Allowed (moduleRules []) (textChildren lib (moduleTexts m)) := by
  obtain ⟨name', hname'⟩ := Option.ne_none_iff_exists'.mp hname
  refine allowed_textChildren (by simp [moduleTexts]) fun name v hmem => ?_
  simp only [moduleTexts, List.mem_cons, List.not_mem_nil, or_false, Prod.mk.injEq] at hmem
  rcases hmem with ⟨rfl, hv⟩ | ⟨rfl, hv⟩ | ⟨rfl, -⟩ | ⟨rfl, hv⟩
  · rw [hv]
    exact ⟨⟨"name", true, checkUnique "module" []⟩, by simp [moduleRules], rfl,
      checkUnique_eq_ok.mpr ⟨name', hname', List.not_mem_nil⟩⟩
  · rw [hv]
    exact ⟨⟨"path", true, checkNonEmpty "path"⟩, by simp [moduleRules], rfl,
      checkNonEmpty_eq_ok.mpr (Option.ne_none_iff_exists'.mp hpath)⟩
  · exact ⟨⟨"params", true, checkAny⟩, by simp [moduleRules], rfl, rfl⟩
  · rw [hv]
    exact ⟨⟨"enabled", true, checkEnabled⟩, by simp [moduleRules], rfl,
      checkEnabled_reread hf m.moduleEnabled⟩

theorem allowed_moduleChildren {m : RunningModule} (hname : lib.reread m.moduleName ≠ none)
    (hpath : lib.reread m.modulePath ≠ none) :
    Allowed (moduleRules []) (textChildren lib (moduleTexts m) ++ backupTrapinterfaces lib m) := by
  refine allowed_append (moduleRules_distinct []) (allowed_moduleTexts hf hname hpath)
    (q := ⟨"trapinterfaces", true, checkAny⟩) (by simp [moduleRules]) (fun c hc => ?_)
    (by simp [moduleTexts]) fun _ => ?_
  · rw [mem_backupTrapinterfaces hc]
    exact ⟨rfl, rfl⟩
  · unfold backupTrapinterfaces
    split_ifs <;> simp

/-- What an accepted element says about the strings and the interfaces of its module. -/
theorem moduleAccepted_of_grammar {n : Nat} {m : RunningModule} (h : LoadedSlot n m)
    (hg : ModuleGrammar (backupModule lib m)) : ModuleAccepted lib m := by
  constructor
  · obtain ⟨name, hname⟩ := hg.name
    have hsome := (backupModule_name hf m).symm.trans hname
    rw [hsome]
    simp
  · obtain ⟨path, hpath⟩ := h.path
    have hsub : textChildren lib (moduleTexts m) ++ backupTrapinterfaces lib m ⊆
        (backupModule lib m).xmlChildrenNode :=
      hf.subset (moduleChildren_not_isSkipped m (moduleTexts m))
    have hcheck := check_of_allowed (moduleRules_distinct []) hg.allowed
      (List.Subset.trans (List.subset_append_left _ _) hsub)
      (r := ⟨"path", true, checkNonEmpty "path"⟩)
      (by simp [moduleRules]) (v := path) (by simp [moduleTexts, hpath])
    rw [hpath]
    exact Option.ne_none_iff_exists'.mpr (checkNonEmpty_eq_ok.mp hcheck)
  · intro ifc hifc
    have hpos : m.configIfcesCnt > 0 := by
      have hlen := h.ifces.filled.length_ifces
      have := List.length_pos_of_mem hifc
      omega
    have ht := trapElem_backup hf m
    rw [if_pos hpos] at ht
    refine (interfaceGrammar_backup hf (h.valid ifc hifc)).mp
      (mem_interfaceElems_grammar hg ht ?_)
    change backupInterface lib ifc ∈ interfaceElems (lib.indent 4 _)
    rw [interfaceElems_backup hf]
    exact List.mem_map.mpr ⟨ifc, hifc, rfl⟩

/-- The element of a module is accepted when its name, its path and its interfaces are. -/
theorem moduleGrammar_backup {n : Nat} {m : RunningModule} (h : LoadedSlot n m) :
    ModuleGrammar (backupModule lib m) ↔ ModuleAccepted lib m := by
  refine ⟨moduleAccepted_of_grammar hf h, fun hm => ?_⟩
  have hskip : ∀ c ∈ textChildren lib (moduleTexts m) ++ backupTrapinterfaces lib m,
      c.isSkipped = false := moduleChildren_not_isSkipped m _
  have hcount : ∀ {tag v}, (tag, some v) ∈ moduleTexts m →
      0 < (backupModule lib m).xmlChildrenNode.countP (elementNamed tag) := by
    intro tag v hmem
    change 0 < (lib.indent 3 _).countP _
    rw [hf.countP hskip, List.countP_append]
    have := @countP_textChildren_pos lib _ _ _ hmem
    omega
  constructor
  · exact hf.allowed hskip (allowed_moduleChildren hf hm.name hm.path)
  · obtain ⟨name, hname⟩ := Option.ne_none_iff_exists'.mp hm.name
    exact ⟨name, (backupModule_name hf m).trans hname⟩
  · obtain ⟨path, hpath⟩ := h.path
    exact hcount (v := path) (by simp [moduleTexts, hpath])
  · exact hcount (v := enabledText m.moduleEnabled) (by simp [moduleTexts])
  · intro t ht hn i hi
    rcases hf.mem hskip ht with hs | ht
    · exact absurd hs (by simp [elementNamed_not_isSkipped hn])
    · rcases List.mem_append.mp ht with ht | ht
      · have hnone : (textChildren lib (moduleTexts m)).find? (elementNamed "trapinterfaces") =
            none := find?_textChildren_none (by simp [moduleTexts])
        exact absurd hn (List.find?_eq_none.mp hnone t ht)
      · rw [mem_backupTrapinterfaces ht] at hi
        rcases hf.mem (backupInterfaces_not_isSkipped m.ifces) hi with hs | hi
        · exact .inl hs
        · obtain ⟨ifc, hifc, rfl⟩ := List.mem_map.mp hi
          exact .inr ⟨rfl, (interfaceGrammar_backup hf (h.valid ifc hifc)).mpr
            (hm.ifces ifc hifc)⟩

end

end NemeaSupervisor
