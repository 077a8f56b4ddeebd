import NemeaSupervisor.Configuration
import NemeaSupervisor.RestartLimit

/-!
# The restart limits after a reload

A module without a limit of its own is to get the limit of the document, or the
default where the document has none. It does when its slot was reset to -1
before the apply loop and the global limit is still the default; a slot that the
table grew for during the loop holds 0 instead.
-/

namespace NemeaSupervisor

open XmlNode

/-- The limit that the document asks for. -/
def docLimit (nodes : List XmlNode) (e : XmlNode) : Int :=
  (moduleRestarts e).getD ((docRestarts nodes).getD defaultModuleRestartsNum)

/-- Every module of the document has the limit that the document asks for. -/
def LimitsAsDocument (nodes : List XmlNode) (s' : Supervisor) : Prop :=
  ∀ ms ∈ modulesElems nodes, ∀ e ∈ moduleElems ms, ∀ m ∈ s'.loaded,
    m.moduleName = moduleName e → s'.maxRestarts m = docLimit nodes e

/-- The element is new and the allocated slots do not reach for it. -/
def OutgrowsTable (s : Supervisor) (nodes : List XmlNode) (e : XmlNode) : Prop :=
  ∃ i, (i, e) ∈ (newDocs s (docModules nodes)).drop s.spare.length

/-- An element without a limit of its own stays in the allocated table, and the
document has a global limit or the current one is the default; or it outgrows
the table and the global limit of the document is 0. -/
def LimitsFollow (s : Supervisor) (nodes : List XmlNode) : Prop :=
  ∀ ms ∈ modulesElems nodes, ∀ e ∈ moduleElems ms, moduleRestarts e = none →
    (OutgrowsTable s nodes e → docRestarts nodes = some 0) ∧
    (¬ OutgrowsTable s nodes e → docRestarts nodes = none →
      s.moduleRestartsNumConfig = defaultModuleRestartsNum)

/-- The index of an element among the new ones decides whether it outgrows the table. -/
theorem outgrowsTable_iff {s : Supervisor} {nodes : List XmlNode}
    (hg : GoodDocs (docModules nodes)) {d : Nat × XmlNode} {k : Nat}
    (hk : (newDocs s (docModules nodes))[k]? = some d) :
    OutgrowsTable s nodes d.2 ↔ s.spare.length ≤ k := by
  have hnodup : ((newDocs s (docModules nodes)).map fun d => moduleName d.2).Nodup :=
    hg.distinct.sublist (List.Sublist.map _ List.filter_sublist)
  constructor
  · rintro ⟨i, hi⟩
    obtain ⟨y, hy⟩ := List.mem_iff_getElem?.mp hi
    rw [List.getElem?_drop] at hy
    have hnames : ((newDocs s (docModules nodes)).map fun d => moduleName d.2)[s.spare.length + y]? =
        ((newDocs s (docModules nodes)).map fun d => moduleName d.2)[k]? := by
      rw [List.getElem?_map, List.getElem?_map, hy, hk]
      rfl
    have hlt : s.spare.length + y < ((newDocs s (docModules nodes)).map
        fun d => moduleName d.2).length := by
      rw [List.length_map]
      exact (List.getElem?_eq_some_iff.mp hy).1
    have := (List.getElem?_inj hlt hnodup).mp hnames
    omega
  · intro hle
    refine ⟨d.1, List.mem_iff_getElem?.mpr ⟨k - s.spare.length, ?_⟩⟩
    rw [List.getElem?_drop, Nat.add_sub_cancel' hle]
    exact hk

/-- The limit in the slot of an element. -/
theorem ElementSlot.limit {choice : ReloadChoice} {s s' : Supervisor} {nodes : List XmlNode}
    (hg : GoodDocs (docModules nodes)) (hr : Reloaded choice s nodes s') {d : Nat × XmlNode}
    {m' : RunningModule} (hs : ElementSlot choice s nodes d m') :
    (OutgrowsTable s nodes d.2 → s'.maxRestarts m' = (moduleRestarts d.2).getD 0) ∧
    (¬ OutgrowsTable s nodes d.2 → s'.maxRestarts m' =
      (moduleRestarts d.2).getD ((docRestarts nodes).getD s.moduleRestartsNumConfig)) := by
  have hnonneg : ∀ v, moduleRestarts d.2 = some v → 0 ≤ v := fun v hv => configRestarts_nonneg hv
  cases hs with
  | @kept m m1 hm hname happlied =>
    rw [finishSlot_maxRestarts, ← hr.limit]
    refine ⟨fun ⟨i, hi⟩ => ?_, fun _ => maxRestarts_reset happlied.limit hnonneg⟩
    exact absurd hname ((mem_newDocs.mp (List.mem_of_mem_drop hi)).2 m hm)
  | @new k m1 hk happlied =>
    rw [finishSlot_maxRestarts, outgrowsTable_iff hg hk, ← hr.limit]
    have hlimit := happlied.limit
    rw [slotAt_reset_limit] at hlimit
    constructor
    · intro hle
      rw [if_neg (by omega)] at hlimit
      rw [Supervisor.maxRestarts, hlimit, if_pos]
      exact Int.lt_of_lt_of_le (by decide) (getD_ge hnonneg (Int.le_refl 0))
    · intro hlt
      rw [if_pos (by omega)] at hlimit
      exact maxRestarts_reset hlimit hnonneg

theorem limits_as_document {choice : ReloadChoice} {s : Supervisor} (hcall : ReloadCall choice s)
    {root : XmlNode} (hv : validateConfiguration (some root) = .ok ()) :
    LimitsAsDocument root.xmlChildrenNode (reloadConfiguration choice (some root) s).1 ↔
      LimitsFollow s root.xmlChildrenNode := by
  have h := hcall.tableInv
  obtain ⟨hg, hr⟩ := hcall.reloaded hv
  constructor
  · intro hdoc ms hms e he hnone
    obtain ⟨i, hd, -⟩ := mem_docModules hms he
    obtain ⟨m', hm', hname'⟩ := hr.exists_slot h hg hd
    have hasked := hdoc ms hms e he m' hm' hname'
    obtain ⟨hout, hin⟩ := (hr.element h hg.goodDocs hd hm' hname').limit hg.goodDocs hr
    simp only [docLimit, hnone, Option.getD_none] at hasked hout hin
    refine ⟨fun ho => ?_, fun ho hglobal => ?_⟩
    · rw [hout ho] at hasked
      cases hglobal : docRestarts root.xmlChildrenNode with
      | none => simp [hglobal, defaultModuleRestartsNum] at hasked
      | some v => rw [hglobal, Option.getD_some] at hasked; rw [hasked]
    · rw [hin ho, hglobal] at hasked
      exact hasked
  · intro hcond ms hms e he m' hm' hname'
    obtain ⟨i, hd, -⟩ := mem_docModules hms he
    obtain ⟨hout, hin⟩ := (hr.element h hg.goodDocs hd hm' hname').limit hg.goodDocs hr
    rw [docLimit]
    cases hown : moduleRestarts e with
    | some v =>
      by_cases ho : OutgrowsTable s root.xmlChildrenNode e
      · rw [hout ho, hown]
        rfl
      · rw [hin ho, hown]
        rfl
    | none =>
      obtain ⟨hcout, hcin⟩ := hcond ms hms e he hown
      by_cases ho : OutgrowsTable s root.xmlChildrenNode e
      · rw [hout ho, hown, hcout ho]
        rfl
      · rw [hin ho, hown]
        cases hglobal : docRestarts root.xmlChildrenNode with
        | some v => rfl
        | none => exact hcin ho hglobal

/-- A document with this global limit and one module. -/
def globalDocument (supervisor : List XmlNode) : XmlNode :=
  .element "nemea-supervisor" [] (supervisor ++ [.element "modules" []
    [.textElement "name" "p", .textElement "enabled" "true",
      moduleElement "m" "/bin/m" "true" []]])

def globalLimit (limit : String) : XmlNode :=
  .element "supervisor" [] [.textElement "module-restarts" limit]

theorem limits_as_document_global :
    let s := (boot [] (some (globalDocument [globalLimit "7"]))).sup
    let root := globalDocument [globalLimit "5"]
    LimitsAsDocument root.xmlChildrenNode
        (reloadConfiguration .defaultConfigFile (some root) s).1 ↔
      LimitsFollow s root.xmlChildrenNode :=
  limits_as_document (.later (by simp) ⟨[], _, [], rfl⟩) (by decide)

/-- One module more than the table is allocated for. -/
def elevenModules : XmlNode :=
  profileDocument (["a", "b", "c", "d", "e", "f", "g", "h", "i", "j", "k"].map fun name =>
    moduleElement name "/bin/m" "true" [])

/-- The table grows for the last module, which may not be restarted at all. -/
theorem not_limits_as_document :
    ¬ ∀ choice s root, ReloadCall choice s → validateConfiguration (some root) = .ok () →
      LimitsAsDocument root.xmlChildrenNode (reloadConfiguration choice (some root) s).1 := by
  intro h
  have hdoc := h .initLoadConfig .init elevenModules .initial (by decide)
  have hlast : ∃ m ∈ (reloadConfiguration .initLoadConfig (some elevenModules) .init).1.loaded,
      m.moduleName = some "k" ∧
        (reloadConfiguration .initLoadConfig (some elevenModules) .init).1.maxRestarts m = 0 := by
    decide
  obtain ⟨m, hm, hname, hzero⟩ := hlast
  have hasked := hdoc _ (List.mem_singleton.mpr rfl) (moduleElement "k" "/bin/m" "true" [])
    (by simp [moduleElems, elementNamed, moduleElement, XmlNode.textElement, xmlChildrenNode])
    m hm hname
  rw [hzero] at hasked
  exact absurd hasked (by decide)

end NemeaSupervisor
