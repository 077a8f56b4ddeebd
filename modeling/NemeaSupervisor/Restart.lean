import NemeaSupervisor.RestartLimit

/-!
# Restarts of modified modules

A live process runs with the path, parameters and interfaces it was started
with. A reload that changes them disables the module until the service thread
has stopped it and marks it for a restart; the mark is what connects the process
to the configuration, and it survives every step but two: a later reload that
enables the module again while the mark is set, and an enable command after a
reload has changed a module that was disabled.
-/

namespace NemeaSupervisor

/-- What tells how a process was started: a start that was seen is told as it was, and
otherwise the owner decides. -/
structure LaunchView (launchOf : Process → Option Launch) : Prop where
  started : ∀ p l, p.launch = some l → launchOf p = some l
  same : ∀ p q, p.owner = q.owner → p.launch = q.launch → launchOf p = launchOf q

/-- Nothing is known of adopted processes. -/
theorem launchView_launch : LaunchView Process.launch := ⟨fun _ _ => id, fun _ _ _ => id⟩

/-- The process of a module is alive and was started with this. -/
def RunsWith (launchOf : Process → Option Launch) (w : World) (m : RunningModule) (l : Launch) :
    Prop :=
  ∃ p ∈ w.kernel.procs, p.zombie = false ∧ p.pid = m.modulePid ∧ launchOf p = some l

/-- The module is current, or it has to be stopped before it may be enabled. -/
def Carried (l : Launch) (m : RunningModule) : Prop :=
  l = m.launch ∨ m.moduleRunning = false ∧
    (m.moduleEnabled = false ∨ m.initModule = true ∨ m.removeModule = true)

structure RestartInv (launchOf : Process → Option Launch) (w : World) : Prop where
  table : TableInv w.sup
  positive : ∀ p ∈ w.kernel.procs, p.pid > 0
  carried : ∀ m ∈ w.sup.loaded, ∀ l, RunsWith launchOf w m l → Carried l m

variable {launchOf : Process → Option Launch}

/-! ## The service thread -/

/-- The process of another module was there before the change. -/
theorem SlotChange.procs_other {s : Supervisor} {k k' : Kernel} {m m' : RunningModule}
    (h : SlotChange s k m m' k') {p : Process} (hp : p ∈ k'.procs) {m0 : RunningModule}
    (hm0 : m0 ∈ s.loaded) (hpid : p.pid = m0.modulePid) : p ∈ k.procs := by
  cases h with
  | waited => exact List.mem_of_mem_filter hp
  | started _ _ _ htracked =>
    rcases List.mem_cons.mp hp with rfl | hp
    · exact absurd hpid.symm (htracked m0 hm0)
    · exact hp
  | _ => exact hp

theorem SlotChange.carried (hv : LaunchView launchOf) {s : Supervisor} {k k' : Kernel}
    {m m' : RunningModule} (h : SlotChange s k m m' k') (hpos : ∀ p ∈ k.procs, p.pid > 0)
    (hm : ∀ p ∈ k.procs, p.zombie = false → p.pid = m.modulePid → ∀ l, launchOf p = some l →
      Carried l m) {p : Process} (hp : p ∈ k'.procs) (hlive : p.zombie = false)
    (hpid : p.pid = m'.modulePid) {l : Launch} (hl : launchOf p = some l) : Carried l m' := by
  cases h with
  | gone =>
    have := hpos p hp
    simp only at hpid
    omega
  | waited => exact hm p (List.mem_of_mem_filter hp) hlive hpid l hl
  | tick =>
    unfold tickRestartTimer at hpid ⊢
    split_ifs at hpid ⊢ <;> exact hm p hp hlive hpid l hl
  | limit =>
    rcases hm p hp hlive hpid l hl with hcurrent | ⟨hrunning, -⟩
    · exact .inl hcurrent
    · exact .inr ⟨hrunning, .inl rfl⟩
  | startFailed =>
    have := hpos p hp
    simp only at hpid
    omega
  | started h _ hproc =>
    rcases List.mem_cons.mp hp with rfl | hp
    · exact .inl (Option.some.inj ((hv.started _ _ rfl).symm.trans hl)).symm
    · have := List.any_eq_false.mp hproc p hp
      simp only [hpid, beq_self_eq_true, not_true_eq_false] at this
  | reenabled _ _ hpid' =>
    have := hpos p hp
    simp only at hpid
    omega
  | _ => exact hm p hp hlive hpid l hl

theorem RestartInv.change (hv : LaunchView launchOf) {w w' : World} (h : RestartInv launchOf w)
    (hc : Change w w') : RestartInv launchOf w' := by
  have htable := h.table.change hc
  cases hc with
  | outside ho =>
    refine ⟨htable, fun p hp => ?_, fun m hm l ⟨p, hp, hlive, hpid, hl⟩ => ?_⟩
    · obtain ⟨q, hq, hsame⟩ := ho.procs hp
      rw [hsame.pid]
      exact h.positive q hq
    · obtain ⟨q, hq, hsame⟩ := ho.procs hp
      exact h.carried m hm l ⟨q, hq, hsame.alive hlive, hsame.pid.symm.trans hpid,
        (hv.same p q hsame.owner hsame.launch).symm.trans hl⟩
  | @slot x m m' k hx hs =>
    refine ⟨htable, fun p hp => ?_, fun m1 hm1 l ⟨p, hp, hlive, hpid, hl⟩ => ?_⟩
    · rcases hs.procs hp with hp | ⟨-, -, hpos, -⟩
      · exact h.positive p hp
      · exact hpos
    · rcases mem_setModule hm1 with rfl | hm1
      · exact hs.carried hv h.positive (fun p hp hlive hpid l hl =>
          h.carried m (List.mem_of_getElem? hx) l ⟨p, hp, hlive, hpid, hl⟩) hp hlive hpid hl
      · exact h.carried m1 hm1 l ⟨p, hs.procs_other hp hm1 hpid, hlive, hpid, hl⟩
  | freed => exact ⟨htable, h.positive, fun m hm => h.carried m (mem_freed hm)⟩
  | exited => exact ⟨htable, h.positive, h.carried⟩

/-! ## The commands -/

/-- A command that enables nothing. -/
theorem RestartInv.command {w : World} (h : RestartInv launchOf w) {s' : Supervisor}
    (hc : Command false w.sup s') : RestartInv launchOf { w with sup := s' } := by
  refine ⟨h.table.command hc, h.positive, ?_⟩
  cases hc with
  | enable he => exact absurd he (by simp)
  | disable hx =>
    intro m1 hm1 l hl
    rcases List.mem_or_eq_of_mem_set hm1 with hm1 | rfl
    · exact h.carried m1 hm1 l hl
    · exact (h.carried _ (List.mem_of_getElem? hx) l hl).imp_right fun hr => ⟨hr.1, .inl rfl⟩
  | restart hx =>
    intro m1 hm1 l hl
    rcases List.mem_or_eq_of_mem_set hm1 with hm1 | rfl
    · exact h.carried m1 hm1 l hl
    · exact (h.carried _ (List.mem_of_getElem? hx) l hl).imp_right fun hr => ⟨hr.1, .inl rfl⟩
  | profile => exact h.carried
  | stop =>
    intro m1 hm1 l hl
    obtain ⟨m, hm, rfl⟩ := List.mem_map.mp hm1
    exact (h.carried m hm l hl).imp_right fun hr => ⟨hr.1, .inl rfl⟩

/-- No selected module runs with a configuration that was replaced while it was disabled. -/
def EnablesCurrent (launchOf : Process → Option Launch) (w : World) (selection : List Int) : Prop :=
  ∀ (y : Nat) (m : RunningModule), (y : Int) ∈ selection → w.sup.loaded[y]? = some m →
    m.moduleEnabled = false → m.initModule = false → m.removeModule = false →
    ∀ l, RunsWith launchOf w m l → l = m.launch

theorem RestartInv.enable {w : World} (h : RestartInv launchOf w) {selection : Option (List Int)}
    (hsel : EnablesCurrent launchOf w (selection.getD [])) :
    RestartInv launchOf { w with sup := interactiveSetEnabled selection w.sup } := by
  refine ⟨Loop.reaches_invariant (fun _ _ h hc => h.command hc)
    (interactiveSetEnabled_commands selection w.sup) h.table, h.positive, fun m' hm' l hl => ?_⟩
  obtain ⟨y, hy⟩ := List.mem_iff_getElem?.mp hm'
  rcases interactiveSetEnabled_get hy with hold | ⟨m, hm, hoff, hmem, rfl⟩
  · exact h.carried m' (List.mem_of_getElem? hold) l hl
  · rcases h.carried m (List.mem_of_getElem? hm) l hl with hcurrent | ⟨hrunning, -⟩
    · exact .inl hcurrent
    · by_cases hinit : m.initModule = true
      · exact .inr ⟨hrunning, .inr (.inl hinit)⟩
      · by_cases hremove : m.removeModule = true
        · exact .inr ⟨hrunning, .inr (.inr hremove)⟩
        · exact .inl (hsel y m hmem hm hoff (Bool.eq_false_iff.mpr hinit)
            (Bool.eq_false_iff.mpr hremove) l hl)

/-! ## The reload -/

/-- What a loaded module would be started with after its element is applied. -/
def docLaunch (e : XmlNode) (m : RunningModule) : Launch :=
  ⟨childValue "path" e.xmlChildrenNode,
   if hasChild "params" e.xmlChildrenNode then childValue "params" e.xmlChildrenNode
   else m.moduleParams,
   reloadedIfces false m.ifces e⟩

/-- No element enables a module whose restart has begun, unless it brings back
the configuration the process was started with. -/
def ReloadKeepsRestarts (launchOf : Process → Option Launch) (w : World) (root : XmlNode) : Prop :=
  ∀ m ∈ w.sup.loaded, ∀ d, docFor (docModules root.xmlChildrenNode) m = some d →
    moduleElemEnabled d.2 = true → m.moduleRunning = false →
    ∀ l, RunsWith launchOf w m l → l = docLaunch d.2 m

theorem finishSlot_launch (choice : ReloadChoice) (m : RunningModule) :
    (finishSlot choice m).launch = m.launch :=
  field_of_config RunningModule.launch (fun _ => rfl) (finishSlot_config choice m)

theorem Applied.launch {choice : ReloadChoice} {i : Nat} {e : XmlNode} {m m1 : RunningModule}
    (h : Applied choice i false e (resetReloadFlags m) m1) : m1.launch = docLaunch e m := by
  rw [RunningModule.launch, h.path, h.params, h.ifces]
  rfl

theorem finishSlot_later {choice : ReloadChoice} (hc : choice ≠ .initLoadConfig) (m : RunningModule) :
    finishSlot choice m = restartIfModified m := by
  rw [finishSlot, adoptIfRunning_later hc]

/-- One module under a reload. -/
theorem Carried.reload {choice : ReloadChoice} (hc : choice ≠ .initLoadConfig) {s : Supervisor}
    (h : TableInv s) {ds : List (Nat × XmlNode)} (hd : GoodDocs ds) {m : RunningModule}
    (hm : m ∈ s.loaded) {l : Launch} (hl : Carried l m)
    (hkeep : ∀ d, docFor ds m = some d → moduleElemEnabled d.2 = true → m.moduleRunning = false →
      l = docLaunch d.2 m) : Carried l (reloadOld choice ds m) := by
  cases hdoc : docFor ds m with
  | none =>
    rw [reloadOld_none hdoc]
    rcases hl with hcurrent | ⟨hrunning, -⟩
    · exact .inl (hcurrent.trans (finishSlot_launch choice (missingSlot m)).symm)
    · rw [finishSlot_later hc, restartIfModified_eq]
      exact .inr ⟨by simp [missingSlot, resetReloadFlags, hrunning], .inl rfl⟩
  | some d =>
    have happlied := placeElement_applied choice (hd.grammar d (docFor_mem hdoc).1)
      (h.reset_slotFor hm)
    rw [reloadOld_some hdoc rfl happlied]
    generalize placeElement choice false d (resetReloadFlags m) = m1 at happlied
    have hlaunch := finishSlot_launch choice m1
    have hrunning1 : m1.moduleRunning = m.moduleRunning := happlied.running
    cases hrunning : m.moduleRunning with
    | false =>
      cases hon : moduleElemEnabled d.2 with
      | true =>
        left
        rw [hlaunch, happlied.launch]
        exact hkeep d hdoc hon hrunning
      | false =>
        right
        have henabled : m1.moduleEnabled = false := happlied.enabled.trans hon
        rw [finishSlot_later hc, restartIfModified_eq]
        exact ⟨by simp [hrunning1, hrunning], .inl (by simp [henabled])⟩
    | true =>
      have hcurrent : l = m.launch := by
        rcases hl with hcurrent | ⟨hfalse, -⟩
        · exact hcurrent
        · rw [hrunning] at hfalse
          exact absurd hfalse (by simp)
      cases hmodified : m1.moduleModifiedByReload with
      | false =>
        left
        rw [hlaunch, (happlied.unmodified rfl hmodified).2, hcurrent]
        rfl
      | true =>
        right
        rw [finishSlot_later hc, restartIfModified_eq]
        exact ⟨by simp [hmodified], .inl (by simp [hmodified, hrunning1, hrunning])⟩

theorem RestartInv.reload {w : World} (h : RestartInv launchOf w) {choice : ReloadChoice}
    (hc : choice ≠ .initLoadConfig) {root : XmlNode} (hg : Grammar root) {s' : Supervisor}
    (hr : Reloaded choice w.sup root.xmlChildrenNode s')
    (hkeep : ReloadKeepsRestarts launchOf w root) : RestartInv launchOf { w with sup := s' } := by
  refine ⟨hr.tableInv h.table hg, h.positive, fun m' hm' l ⟨p, hp, hlive, hpid, hl⟩ => ?_⟩
  obtain ⟨x, hx⟩ := List.mem_iff_getElem?.mp hm'
  rcases hr.get hx with ⟨m, hm, rfl⟩ | ⟨-, d, hdoc, rfl⟩
  · have hmem := List.mem_of_getElem? hm
    have hpid' : p.pid = m.modulePid := hpid.trans (field_of_process RunningModule.modulePid
      (fun _ => rfl) (reloadOld_process hc h.table hg.goodDocs hmem).1)
    have hruns : RunsWith launchOf w m l := ⟨p, hp, hlive, hpid', hl⟩
    exact (h.carried m hmem l hruns).reload hc h.table hg.goodDocs hmem
      fun d hdoc hon hrunning => hkeep m hmem d hdoc hon hrunning l hruns
  · obtain ⟨hmem, -⟩ := mem_newDocs.mp (List.mem_of_getElem? hdoc)
    have hzero : (reloadNew choice d
        (slotAt (resetTable w.sup) (x - w.sup.loaded.length))).modulePid = 0 :=
      congrArg RunningModule.modulePid (reloadNew_process hc h.table (hg.goodDocs.grammar d hmem) _)
    have hpos := h.positive p hp
    have hpid0 : p.pid = 0 := hpid.trans hzero
    omega

/-! ## Whole runs -/

/-- The condition on a step. -/
def StepKeepsRestarts (launchOf : Process → Option Launch) (w : World) (a : Action) : Prop :=
  (∀ root, a.reloadRoot = some root → Grammar root → ReloadKeepsRestarts launchOf w root) ∧
    ∀ selection, a = .setEnabled (some selection) → EnablesCurrent launchOf w selection

theorem step_restartInv (hv : LaunchView launchOf) (w : World) (a : Action)
    (h : RestartInv launchOf w) (hk : StepKeepsRestarts launchOf w a) :
    RestartInv launchOf (step w a) := by
  have commands : ∀ {f : Supervisor → Supervisor}, (∀ s, Commands false s (f s)) →
      RestartInv launchOf (w.locked f) :=
    fun hf => locked_invariant h (commands_invariant (fun _ _ h hc => h.command hc) (hf w.sup) h)
  cases a with
  | cycle turns =>
    exact Loop.reaches_invariant (fun _ _ h hc => h.change hv hc) (serviceCycle_reaches turns w) h
  | move mv => exact h.change hv (.outside (.move mv))
  | setEnabled selection =>
    refine locked_invariant h (h.enable ?_)
    cases selection with
    | none => exact fun y m hmem => absurd hmem (by simp)
    | some selection => exact hk.2 selection rfl
  | setDisabled selection => exact commands (interactiveSetDisabled_commands selection)
  | restartModule selection => exact commands (interactiveRestartModule_commands selection)
  | reloadTemplate rootNode =>
    exact reload_invariant h.table h fun root _ hroot hg hr =>
      h.reload (by simp) hg hr (hk.1 root hroot hg)
  | reloadCallback rootNode =>
    exact reload_invariant h.table h fun root _ hroot hg hr =>
      h.reload (by simp) hg hr (hk.1 root hroot hg)
  | stopConfiguration => exact commands fun s => .single .stop
  | setStopAllModules stop => exact ⟨h.table.flags _ _, h.positive, h.carried⟩
  | abortServiceThread => exact ⟨h.table.flags _ _, h.positive, h.carried⟩

theorem boot_adopted {alive : List Int} {rootNode : Option XmlNode} {p : Process}
    (hp : p ∈ (boot alive rootNode).kernel.procs) : p.pid > 0 ∧ p.launch = none := by
  obtain ⟨m, -, hp⟩ := List.mem_filterMap.mp hp
  split_ifs at hp with hpid
  rw [Option.some.injEq] at hp
  subst hp
  exact ⟨hpid.1, rfl⟩

theorem boot_restartInv (alive : List Int) (rootNode : Option XmlNode) :
    RestartInv Process.launch (boot alive rootNode) := by
  refine ⟨boot_tableInv alive rootNode, fun p hp => (boot_adopted hp).1,
    fun m _ l ⟨p, hp, _, _, hl⟩ => ?_⟩
  rw [(boot_adopted hp).2] at hl
  exact absurd hl (by simp)

/-- In a run whose steps keep the pending restarts, an enabled module of an
enabled profile that is not to be restarted or removed runs with its current
configuration. -/
theorem restart_not_lost (alive : List Int) (rootNode : Option XmlNode) (as : List Action)
    (has : Run.Along step (StepKeepsRestarts Process.launch) (boot alive rootNode) as) :
    let w := Run.run step (boot alive rootNode) as
    ∀ m ∈ w.sup.loaded, m.moduleEnabled = true → w.sup.profileEnabled m = true →
      m.initModule = false → m.removeModule = false →
      ∀ l, RunsWith Process.launch w m l → l = m.launch := by
  have h := Run.along_invariant (step_restartInv launchView_launch) (boot_restartInv alive rootNode)
    has
  intro w m hm hon _ hinit hremove l hl
  rcases h.carried m hm l hl with hcurrent | ⟨-, hoff | hoff | hoff⟩
  · exact hcurrent
  · rw [hon] at hoff
    exact absurd hoff (by simp)
  · rw [hinit] at hoff
    exact absurd hoff (by simp)
  · rw [hremove] at hoff
    exact absurd hoff (by simp)

/-- A document with one module and this path. -/
def pathDocument (path : String) : XmlNode := profileDocument [moduleElement "m" path "true" []]

/-- The module is started, then its path is changed by so many reloads. -/
def moved (reloads : Nat) : List Action :=
  .cycle [forkTurn 100] ::
    List.replicate reloads (.reloadTemplate (some (pathDocument "/bin/n")))

/-- One reload, and the cycles in which the module is stopped and started again. -/
theorem restart_not_lost_moved :
    let w := Run.run step (boot [] (some (pathDocument "/bin/m")))
      (moved 1 ++ [.cycle [.idle, { Turn.idle with moves := [.exits 100] }], .cycle [forkTurn 101]])
    ∀ m ∈ w.sup.loaded, m.moduleEnabled = true → w.sup.profileEnabled m = true →
      m.initModule = false → m.removeModule = false →
      ∀ l, RunsWith Process.launch w m l → l = m.launch := by
  refine restart_not_lost [] (some (pathDocument "/bin/m")) _
    ⟨⟨?_, ?_⟩, ⟨?_, ?_⟩, ⟨?_, ?_⟩, ⟨?_, ?_⟩, trivial⟩
  · exact fun _ hr => absurd hr (by simp [Action.reloadRoot])
  · exact fun _ ha => absurd ha (by simp)
  · intro root hr _
    have hroot : pathDocument "/bin/n" = root := by simpa [Action.reloadRoot] using hr
    subst hroot
    have hrunning : ∀ m ∈ (Run.run step (boot [] (some (pathDocument "/bin/m")))
        (moved 0)).sup.loaded, m.moduleRunning = true := by decide
    intro m hm _ _ _ hfalse
    rw [hrunning m hm] at hfalse
    exact absurd hfalse (by simp)
  · exact fun _ ha => absurd ha (by simp)
  · exact fun _ hr => absurd hr (by simp [Action.reloadRoot])
  · exact fun _ ha => absurd ha (by simp)
  · exact fun _ hr => absurd hr (by simp [Action.reloadRoot])
  · exact fun _ ha => absurd ha (by simp)

/-- The second reload finds the module disabled by the first, enables it and
clears the mark. -/
theorem not_restart_not_lost :
    ¬ ∀ w, Reachable w → ∀ m ∈ w.sup.loaded, m.moduleEnabled = true →
      w.sup.profileEnabled m = true → m.initModule = false → m.removeModule = false →
      ∀ l, RunsWith Process.launch w m l → l = m.launch := by
  intro h
  have hfacts : ∀ m ∈ (Run.run step (boot [] (some (pathDocument "/bin/m")))
        (moved 2)).sup.loaded, m.moduleEnabled = true ∧ m.initModule = false ∧
      m.removeModule = false ∧ m.modulePid = 100 ∧ m.modulePath = some "/bin/n" := by decide
  have hprofile : ∀ m ∈ (Run.run step (boot [] (some (pathDocument "/bin/m")))
      (moved 2)).sup.loaded, (Run.run step (boot [] (some (pathDocument "/bin/m")))
        (moved 2)).sup.profileEnabled m = true := by decide
  have hproc : ⟨100, some "m", false, true, false, some ⟨some "/bin/m", none, []⟩⟩ ∈
      (Run.run step (boot [] (some (pathDocument "/bin/m"))) (moved 2)).kernel.procs := by decide
  have hlt : 0 < (Run.run step (boot [] (some (pathDocument "/bin/m")))
      (moved 2)).sup.loaded.length := by decide
  have hmem := List.getElem_mem hlt
  obtain ⟨hon, hinit, hremove, hpid, hpath⟩ := hfacts _ hmem
  have hlaunch := h _ ⟨[], some (pathDocument "/bin/m"), moved 2, rfl⟩ _ hmem hon
    (hprofile _ hmem) hinit hremove _ ⟨_, hproc, rfl, hpid.symm, rfl⟩
  have hsame := congrArg Launch.path hlaunch
  rw [RunningModule.launch, hpath] at hsame
  exact absurd (Option.some.inj hsame) (by decide)

end NemeaSupervisor
