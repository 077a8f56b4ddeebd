import NemeaSupervisor.Configuration
import NemeaSupervisor.Disable

/-!
# Modules awaiting removal

A reload that does not list a loaded module flags it to be removed. Until its
process has ended the module stays in the table, where every command can still
reach it. The module is followed by its name from that reload on.
-/

namespace NemeaSupervisor

/-- The document is accepted and has an element for the module. -/
def Lists (rootNode : Option XmlNode) (name : String) : Prop :=
  validateConfiguration rootNode = .ok () ∧ ∃ root, rootNode = some root ∧
    ∃ ms ∈ modulesElems root.xmlChildrenNode, ∃ e ∈ moduleElems ms, moduleName e = some name

/-- A step that does not list the module again. -/
def Unlisted (name : String) (a : Action) : Prop := ¬ Lists a.reloadRoot name

/-- Nor does it enable the module by its number. -/
def LeavesRemoved (name : String) (w : World) (a : Action) : Prop :=
  Unlisted name a ∧ ∀ selection, a = .setEnabled selection → ¬ Selects selection w.sup name

structure RemovedInv (name : String) (before : List Event) (w : World) : Prop where
  table : TableInv w.sup
  disabled : DisabledInv name before w
  flagged : ∀ m ∈ w.sup.loaded, m.moduleName = some name → m.removeModule = true

section invariant

variable {name : String} {before : List Event}

theorem RemovedInv.change {w w' : World} (h : RemovedInv name before w) (hc : Change w w') :
    RemovedInv name before w' := by
  refine ⟨h.table.change hc, h.disabled.change hc, ?_⟩
  cases hc with
  | outside => exact h.flagged
  | @slot x m m' k hx hs =>
    intro m1 hm1 hname
    rcases mem_setModule hm1 with rfl | hm1
    · rw [hs.removeModule]
      exact h.flagged m (List.mem_of_getElem? hx) (hs.name.symm.trans hname)
    · exact h.flagged m1 hm1 hname
  | freed => exact fun m hm => h.flagged m (mem_freed hm)
  | exited => exact h.flagged

theorem RemovedInv.command {w : World} {s' : Supervisor} (h : RemovedInv name before w)
    (hc : Command false w.sup s') : RemovedInv name before { w with sup := s' } := by
  refine ⟨h.table.command hc, h.disabled.command hc, ?_⟩
  have set : ∀ {x m m'}, w.sup.loaded[x]? = some m → m'.moduleName = m.moduleName →
      m'.removeModule = m.removeModule → ∀ m1 ∈ (w.sup.setModule x m').loaded,
        m1.moduleName = some name → m1.removeModule = true := by
    intro x m m' hx hname hremove m1 hm1 hname1
    rcases List.mem_or_eq_of_mem_set hm1 with hm1 | rfl
    · exact h.flagged m1 hm1 hname1
    · rw [hremove]
      exact h.flagged m (List.mem_of_getElem? hx) (hname.symm.trans hname1)
  cases hc with
  | enable he => exact absurd he (by simp)
  | disable hx => exact set hx rfl rfl
  | restart hx => exact set hx rfl rfl
  | profile => exact h.flagged
  | stop =>
    intro m1 hm1 hname
    obtain ⟨m, hm, rfl⟩ := List.mem_map.mp hm1
    exact h.flagged m hm hname

/-- A reload that does not list the module flags it again. -/
theorem flagged_of_reload {choice : ReloadChoice} {w : World} (h : TableInv w.sup)
    {root : XmlNode} (hg : Grammar root) {s' : Supervisor}
    (hr : Reloaded choice w.sup root.xmlChildrenNode s')
    (hunlisted : ¬ Lists (some root) name) (hbefore : startsOf name w = before) :
    RemovedInv name before { w with sup := s' } := by
  have hother : ∀ m' ∈ s'.loaded, m'.moduleName = some name →
      m'.moduleEnabled = false ∧ m'.removeModule = true := by
    intro m' hm' hname
    refine hr.other h hg.goodDocs hm' fun d hd he => hunlisted ?_
    obtain ⟨ms, hms, hmem⟩ := docModules_profile hd
    exact ⟨validateConfiguration_eq_ok.mpr ⟨root, rfl, hg⟩, root, rfl, ms, List.mem_of_getElem? hms,
      d.2, hmem, he.trans hname⟩
  refine ⟨hr.tableInv h hg, ⟨fun m' hm' hname => ⟨(hother m' hm' hname).1, fun hp => ?_⟩, hbefore⟩,
    fun m' hm' hname => (hother m' hm' hname).2⟩
  rw [PendingRestart, (hother m' hm' hname).2] at hp
  exact absurd hp.2 (by simp)

theorem RemovedInv.step {w : World} {a : Action} (h : RemovedInv name before w)
    (ha : LeavesRemoved name w a) : RemovedInv name before (step w a) := by
  have commands : ∀ {f : Supervisor → Supervisor}, (∀ s, Commands false s (f s)) →
      RemovedInv name before (w.locked f) :=
    fun hf => locked_invariant h (commands_invariant (fun _ _ h hc => h.command hc) (hf w.sup) h)
  have reload : ∀ choice rootNode, ¬ Lists rootNode name →
      RemovedInv name before (w.locked fun s => (reloadConfiguration choice rootNode s).1) := by
    intro choice rootNode hunlisted
    refine reload_invariant h.table h fun root s' heq hg hr => ?_
    subst heq
    exact flagged_of_reload h.table hg hr hunlisted h.disabled.starts
  cases a with
  | cycle turns =>
    exact Loop.reaches_invariant (fun _ _ h hc => h.change hc) (serviceCycle_reaches turns w) h
  | move mv => exact h.change (.outside (.move mv))
  | setEnabled selection =>
    have hnot := ha.2 selection rfl
    refine locked_invariant h ⟨Loop.reaches_invariant (fun _ _ h hc => h.command hc)
      (interactiveSetEnabled_commands selection w.sup) h.table, ⟨?_, h.disabled.starts⟩, ?_⟩
    · intro m' hm' hname
      obtain ⟨y, hy⟩ := List.mem_iff_getElem?.mp hm'
      rcases interactiveSetEnabled_get hy with hold | ⟨m, hm, -, hsel, rfl⟩
      · exact h.disabled.slots m' (List.mem_of_getElem? hold) hname
      · exact absurd ⟨y, m, hsel, hm, hname⟩ hnot
    · intro m' hm' hname
      obtain ⟨y, hy⟩ := List.mem_iff_getElem?.mp hm'
      rcases interactiveSetEnabled_get hy with hold | ⟨m, hm, -, hsel, rfl⟩
      · exact h.flagged m' (List.mem_of_getElem? hold) hname
      · exact absurd ⟨y, m, hsel, hm, hname⟩ hnot
  | setDisabled selection => exact commands (interactiveSetDisabled_commands selection)
  | restartModule selection => exact commands (interactiveRestartModule_commands selection)
  | reloadTemplate rootNode => exact reload _ rootNode ha.1
  | reloadCallback rootNode => exact reload _ rootNode ha.1
  | stopConfiguration => exact commands fun s => .single .stop
  | setStopAllModules =>
    exact ⟨h.table.congr rfl rfl rfl rfl rfl, ⟨h.disabled.slots, h.disabled.starts⟩, h.flagged⟩
  | abortServiceThread =>
    exact ⟨h.table.congr rfl rfl rfl rfl rfl, ⟨h.disabled.slots, h.disabled.starts⟩, h.flagged⟩

end invariant

/-! ## From the reload that flags the module -/

theorem reload_step {w : World} (hlive : w.serviceExited = false) {a : Action} {root : XmlNode}
    (ha : a.reloadRoot = some root) : ∃ choice,
      step w a = { w with sup := (reloadConfiguration choice (some root) w.sup).1 } := by
  cases a with
  | reloadTemplate | reloadCallback =>
    cases ha
    exact ⟨_, by simp only [step, World.locked, hlive, Bool.false_eq_true, if_false]; rfl⟩
  | _ => cases ha

/-- After a reload that does not list a module, the module stays disabled and is
not started until a command selects it or a later reload lists it. -/
theorem removal_kept {w : World} (hw : Reachable w) (hlive : w.serviceExited = false) {a : Action}
    {root : XmlNode} (ha : a.reloadRoot = some root)
    (hv : validateConfiguration (some root) = .ok ()) {name : String}
    (hunlisted : ¬ Lists (some root) name) (as : List Action)
    (has : Run.Along step (LeavesRemoved name) (step w a) as) :
    let w' := Run.run step (step w a) as
    (∀ m ∈ w'.sup.loaded, m.moduleName = some name →
      m.removeModule = true ∧ m.moduleEnabled = false) ∧
      startsOf name w' = startsOf name w := by
  have htable := reachable_tableInv hw
  obtain ⟨_, heq, hg⟩ := validateConfiguration_eq_ok.mp hv
  cases heq
  have hbegin : RemovedInv name (startsOf name w) (step w a) := by
    obtain ⟨choice, hstep⟩ := reload_step hlive ha
    rw [hstep]
    exact flagged_of_reload htable hg (reloadConfiguration_accepted htable hg choice).2 hunlisted rfl
  have h := Run.along_invariant (fun w a h ha => h.step ha) hbegin has
  exact ⟨fun m hm hname => ⟨h.flagged m hm hname, (h.disabled.slots m hm hname).disabled⟩,
    h.disabled.starts⟩

theorem not_lists_empty (name : String) : ¬ Lists (some (profileDocument [])) name := by
  rintro ⟨-, root, heq, ms, hms, e, he, -⟩
  cases heq
  rw [List.mem_singleton.mp hms] at he
  exact List.not_mem_nil he

theorem unlisted_of_no_reload {a : Action} (ha : a.reloadRoot = none) (name : String) :
    Unlisted name a := by
  rintro ⟨-, root, heq, -⟩
  rw [ha] at heq
  exact absurd heq (by simp)

/-- A running module that a reload no longer lists, until its entry is freed. -/
theorem removal_kept_running :
    let w' := Run.run step (step oneRunning (.reloadTemplate (some (profileDocument []))))
      [.setEnabled (some [1]), .cycle [], .restartModule (some [0])]
    (∀ m ∈ w'.sup.loaded, m.moduleName = some "m" →
      m.removeModule = true ∧ m.moduleEnabled = false) ∧
      startsOf "m" w' = startsOf "m" oneRunning := by
  have hlen : (step oneRunning (.reloadTemplate (some (profileDocument [])))).sup.loaded.length = 1 :=
    by decide
  refine removal_kept (w := oneRunning) ⟨_, _, _, rfl⟩ (by decide)
    (a := .reloadTemplate (some (profileDocument []))) rfl (by decide) (not_lists_empty "m")
    [.setEnabled (some [1]), .cycle [], .restartModule (some [0])]
    ⟨⟨unlisted_of_no_reload rfl _, ?_⟩, ⟨unlisted_of_no_reload rfl _, fun _ h => by cases h⟩,
      ⟨unlisted_of_no_reload rfl _, fun _ h => by cases h⟩, trivial⟩
  rintro selection heq ⟨y, m, hsel, hy, -⟩
  cases heq
  have hlt := (List.getElem?_eq_some_iff.mp hy).1
  rw [Option.getD_some, List.mem_singleton] at hsel
  omega

/-- The operator enables the module while it waits to be removed. -/
theorem not_removal_kept :
    ¬ ∀ w, Reachable w → w.serviceExited = false → ∀ (a : Action) (root : XmlNode),
      a.reloadRoot = some root → validateConfiguration (some root) = .ok () → ∀ name : String,
      ¬ Lists (some root) name → ∀ as : List Action, (∀ b ∈ as, Unlisted name b) →
      let w' := Run.run step (step w a) as
      (∀ m ∈ w'.sup.loaded, m.moduleName = some name →
        m.removeModule = true ∧ m.moduleEnabled = false) ∧
        startsOf name w' = startsOf name w := by
  intro h
  have hw := (h oneRunning ⟨_, _, _, rfl⟩ (by decide)
    (.reloadTemplate (some (profileDocument []))) (profileDocument []) rfl (by decide) "m"
    (not_lists_empty "m") [.setEnabled (some [0])]
    (List.forall_mem_singleton.mpr (unlisted_of_no_reload rfl _))).1
  revert hw
  decide

end NemeaSupervisor
