import NemeaSupervisor.Meter
import NemeaSupervisor.RestartLimit

/-!
# The restart counter and its timer

The counter and the timer of a slot are a rate meter: `service_update_modules_status`
ticks it once in each cycle, right before the test of the limit, and a start is an
attempt. The other passes, the operator and reloads leave the meter alone or set the
counter back, so it is never ahead of the timer. The counter is below 30 at every
test, so a limit of 30 is no limit.
-/

namespace NemeaSupervisor

open Loop RateMeter

def RunningModule.meter (m : RunningModule) : Meter := ⟨m.moduleRestartCnt, m.moduleRestartTimer⟩

theorem tickRestartTimer_meter (m : RunningModule) :
    (tickRestartTimer m).meter = m.meter.tick numServiceIfcPeriods := by
  unfold tickRestartTimer Meter.tick RunningModule.meter
  split_ifs <;> rfl

/-- The timer is all that a tick changes. -/
theorem tickRestartTimer_eq (m : RunningModule) : tickRestartTimer m =
    { m with
      moduleRestartCnt := (tickRestartTimer m).moduleRestartCnt
      moduleRestartTimer := (tickRestartTimer m).moduleRestartTimer } := by
  unfold tickRestartTimer
  split_ifs <;> rfl

/-! ## The update of one slot -/

/-- A successful start of the module with this name. -/
def Event.isStartedOf (name : String) : Event → Bool
  | .started m _ _ => m.moduleName == some name
  | _ => false

/-- What the update of the status makes of a slot, with the events it records. -/
inductive Updated (s : Supervisor) (m : RunningModule) : RunningModule → List Event → Prop where
  | kept : Updated s m (tickRestartTimer m) []
  | limit (hcnt : (tickRestartTimer m).moduleRestartCnt = s.maxRestarts m) :
    Updated s m { tickRestartTimer m with moduleEnabled := false } []
  | start (hprofile : s.profileEnabled m = true) (henabled : m.moduleEnabled = true)
    (hcnt : (tickRestartTimer m).moduleRestartCnt ≠ s.maxRestarts m) {m' : RunningModule}
    {es : List Event} {success : Bool}
    (hmeter : m'.meter = (m.meter.tick numServiceIfcPeriods).charge success)
    (hconfig : m'.config = m.config)
    (hflags : m'.moduleEnabled = m.moduleEnabled ∧ m'.initModule = m.initModule ∧
      m'.removeModule = m.removeModule)
    (hstarted : ∀ name, es.countP (Event.isStartedOf name) =
      if success = true ∧ m.moduleName = some name then 1 else 0) :
    Updated s m m' es

/-- The update does not depend on the other slots. -/
theorem Updated.ofLoaded {s : Supervisor} {l : List RunningModule} {m m' : RunningModule}
    {es : List Event} (h : Updated { s with loaded := l } m m' es) : Updated s m m' es := by
  cases h with
  | kept => exact .kept
  | limit hcnt => exact .limit hcnt
  | start hprofile henabled hcnt hmeter hconfig hflags hstarted =>
    exact Updated.start (s := s) hprofile henabled hcnt hmeter hconfig hflags hstarted

theorem Updated.config {s : Supervisor} {m m' : RunningModule} {es : List Event}
    (h : Updated s m m' es) : m'.config = m.config := by
  cases h with
  | kept => exact tickRestartTimer_config m
  | limit => exact tickRestartTimer_config m
  | start _ _ _ _ hconfig => exact hconfig

theorem Updated.name {s : Supervisor} {m m' : RunningModule} {es : List Event}
    (h : Updated s m m' es) : m'.moduleName = m.moduleName :=
  field_of_config RunningModule.moduleName (fun _ => rfl) h.config

theorem setModule_setModule (w : World) (x : Nat) (m1 m2 : RunningModule) (k : Kernel) :
    ({ w.setModule x m1 with kernel := k } : World).setModule x m2 =
      ({ w with kernel := k } : World).setModule x m2 := by
  simp [World.setModule, Supervisor.setModule]

/-- The start of a module whose timer has just been ticked. -/
theorem serviceStartModule_updated {x : Nat} {m m1 : RunningModule} {w w1 : World}
    (hm1 : m1 = tickRestartTimer m) (hw1 : w1 = w.setModule x m1)
    (hprofile : w.sup.profileEnabled m = true) (henabled : m.moduleEnabled = true)
    (hcnt : m1.moduleRestartCnt ≠ w.sup.maxRestarts m) :
    ∃ m' es k, Updated w.sup m m' es ∧ k.trace = es ++ w.kernel.trace ∧
      serviceStartModule x m1 w1 = ({ w with kernel := k } : World).setModule x m' := by
  have hmeter : m1.meter = m.meter.tick numServiceIfcPeriods := hm1 ▸ tickRestartTimer_meter m
  have hcntm : m1.moduleRestartCnt = (m.meter.tick numServiceIfcPeriods).cnt := by
    rw [← hmeter]
    rfl
  have htimer : m1.moduleRestartTimer = (m.meter.tick numServiceIfcPeriods).timer := by
    rw [← hmeter]
    rfl
  have hconfig : m1.config = m.config := hm1 ▸ tickRestartTimer_config m
  have hname : m1.moduleName = m.moduleName :=
    field_of_config RunningModule.moduleName (fun _ => rfl) hconfig
  have hflags : m1.moduleEnabled = m.moduleEnabled ∧ m1.initModule = m.initModule ∧
      m1.removeModule = m.removeModule := by
    rw [hm1, tickRestartTimer_eq]
    exact ⟨rfl, rfl, rfl⟩
  have htrace : w1.kernel.trace = w.kernel.trace := by rw [hw1]; rfl
  unfold serviceStartModule
  simp only []
  generalize hk : w1.kernel.record (.startCalled m1 (w1.sup.profileOf m1) (w1.sup.maxRestarts m1)
    (w1.kernel.ownerAlive m1.moduleName)) = k
  have hcalled : k.turn.2.trace = [.startCalled m1 (w1.sup.profileOf m1) (w1.sup.maxRestarts m1)
      (w1.kernel.ownerAlive m1.moduleName)] ++ w.kernel.trace := by
    rw [turn_trace, ← hk, ← htrace]
    rfl
  rcases fork_spec k (fun pid => w1.sup.loaded.any fun m => m.modulePid == pid)
    m1.moduleName m1.launch with hf | ⟨pid, -, -, -, hf⟩
  · rw [hf, hw1]
    refine ⟨_, _, _, ?_, hcalled, setModule_setModule w x m1 _ _⟩
    refine @Updated.start w.sup m hprofile henabled (hm1 ▸ hcnt) _ _ false ?_ hconfig hflags
      fun name => ?_
    · simp [RunningModule.meter, Meter.charge, initModuleVariables, hcntm, htimer]
    · simp [Event.isStartedOf]
  · rw [hf, hw1]
    refine ⟨_, .started m1 _ pid :: [_], _, ?_, congrArg (Event.started m1 _ pid :: ·) hcalled,
      setModule_setModule w x m1 _ _⟩
    refine @Updated.start w.sup m hprofile henabled (hm1 ▸ hcnt) _ _ true ?_ hconfig hflags
      fun name => ?_
    · simp [RunningModule.meter, Meter.charge, hcntm, htimer]
    · simp [Event.isStartedOf, hname, List.countP_cons]

/-- The update of the status changes one slot and records what it did. -/
theorem updateModuleStatus_spec {x : Nat} {w : World} {m : RunningModule}
    (hx : w.sup.loaded[x]? = some m) :
    ∃ m' es k, Updated w.sup m m' es ∧ k.trace = es ++ w.kernel.trace ∧
      updateModuleStatus x w = ({ w with kernel := k } : World).setModule x m' := by
  have htick : tickRestartTimer m = { m with
      moduleRestartCnt := (tickRestartTimer m).moduleRestartCnt
      moduleRestartTimer := (tickRestartTimer m).moduleRestartTimer } := tickRestartTimer_eq m
  have hprofile : (w.setModule x (tickRestartTimer m)).sup.profileEnabled (tickRestartTimer m) =
      w.sup.profileEnabled m := by
    rw [htick]
    rfl
  have hlimit : (w.setModule x (tickRestartTimer m)).sup.maxRestarts (tickRestartTimer m) =
      w.sup.maxRestarts m := maxRestarts_congr (tickRestartTimer_config m) rfl
  have henabled : (tickRestartTimer m).moduleEnabled = m.moduleEnabled := by rw [htick]
  unfold updateModuleStatus
  simp only [hx, hprofile, hlimit, henabled]
  split_ifs with hreached hstart
  · exact ⟨_, [], w.kernel, .limit hreached.2.2.2, rfl, setModule_setModule w x _ _ w.kernel⟩
  · exact serviceStartModule_updated rfl rfl hstart.1 hstart.2.2
      fun hcnt => hreached ⟨hstart.1, hstart.2.2, hstart.2.1, hcnt⟩
  · exact ⟨_, [], w.kernel, .kept, rfl, rfl⟩

/-! ## The pass over the table -/

/-- The successful starts of a module so far. -/
def startedOf (name : String) (w : World) : Nat := w.kernel.trace.countP (Event.isStartedOf name)

theorem Updated.countP_other {s : Supervisor} {m m' : RunningModule} {es : List Event}
    (h : Updated s m m' es) {name : String} (hname : m.moduleName ≠ some name) :
    es.countP (Event.isStartedOf name) = 0 := by
  cases h with
  | kept | limit => rfl
  | start _ _ _ _ _ _ hstarted =>
    rw [hstarted]
    exact if_neg fun h => hname h.2

/-- The slot of a name is the only one. -/
theorem TableInv.index {s : Supervisor} (h : TableInv s) {x y : Nat} {m m1 : RunningModule}
    (hx : s.loaded[x]? = some m) (hy : s.loaded[y]? = some m1)
    (hname : m.moduleName = m1.moduleName) : x = y := by
  have hlt : x < (s.loaded.map RunningModule.moduleName).length := by
    simpa using (List.getElem?_eq_some_iff.mp hx).1
  refine (List.getElem?_inj hlt h.distinct).mp ?_
  rw [List.getElem?_map, List.getElem?_map, hx, hy, Option.map_some, Option.map_some, hname]

/-- The pass over the slots of `w` has come to the slot `x`. -/
structure UpdatePass (w : World) (x : Nat) (t : World) : Prop where
  frame : ∃ l k, t = { w with sup := { w.sup with loaded := l }, kernel := k }
  rest : ∀ y, x ≤ y → t.sup.loaded[y]? = w.sup.loaded[y]?
  others : ∀ name, (∀ y m, y < x → w.sup.loaded[y]? = some m → m.moduleName ≠ some name) →
    startedOf name t = startedOf name w
  done : ∀ y m, y < x → w.sup.loaded[y]? = some m → ∃ m' es, Updated w.sup m m' es ∧
    t.sup.loaded[y]? = some m' ∧ ∀ name, m.moduleName = some name →
      startedOf name t = es.countP (Event.isStartedOf name) + startedOf name w

theorem updateModuleStatus_absent {w : World} {x : Nat} (hx : w.sup.loaded[x]? = none) :
    updateModuleStatus x w = w := by
  rw [updateModuleStatus, hx]

/-- The update of a slot that is there leaves the others alone. -/
theorem updateModuleStatus_effect {w : World} {x : Nat} {m : RunningModule}
    (hx : w.sup.loaded[x]? = some m) : ∃ m' es, Updated w.sup m m' es ∧
      (updateModuleStatus x w).sup.loaded[x]? = some m' ∧
      (∀ y, y ≠ x → (updateModuleStatus x w).sup.loaded[y]? = w.sup.loaded[y]?) ∧
      (∃ l k, updateModuleStatus x w =
        { w with sup := { w.sup with loaded := l }, kernel := k }) ∧
      ∀ name, startedOf name (updateModuleStatus x w) =
        es.countP (Event.isStartedOf name) + startedOf name w := by
  obtain ⟨m', es, k, hupdated, htrace, heq⟩ := updateModuleStatus_spec hx
  refine ⟨m', es, hupdated, ?_, fun y hy => ?_, ?_, fun name => ?_⟩
  · rw [heq]
    exact setModule_get hx
  · rw [heq]
    exact List.getElem?_set_ne (Ne.symm hy)
  · rw [heq]
    exact ⟨_, _, rfl⟩
  · rw [heq]
    exact (congrArg (List.countP (Event.isStartedOf name)) htrace).trans List.countP_append

theorem UpdatePass.next_absent {w t : World} {x : Nat} (h : UpdatePass w x t)
    (hx : w.sup.loaded[x]? = none) : UpdatePass w (x + 1) t := by
  refine ⟨h.frame, fun y hy => h.rest y (by omega), fun name hother =>
    h.others name fun y m hy => hother y m (by omega), fun y m hy hm => ?_⟩
  have hyx : y ≠ x := by
    rintro rfl
    rw [hx] at hm
    cases hm
  exact h.done y m (by omega) hm

theorem UpdatePass.next {w t : World} (htable : TableInv w.sup) {x : Nat} (h : UpdatePass w x t) :
    UpdatePass w (x + 1) (updateModuleStatus x t) := by
  have hslot := h.rest x (Nat.le_refl x)
  cases hx : w.sup.loaded[x]? with
  | none =>
    rw [updateModuleStatus_absent (hslot.trans hx)]
    exact h.next_absent hx
  | some m =>
    obtain ⟨m', es, hnew, hm', hother, ⟨l', k', hframe⟩, hstarted⟩ :=
      updateModuleStatus_effect (hslot.trans hx)
    obtain ⟨l, k, ht⟩ := h.frame
    have hupdated : Updated w.sup m m' es := by
      rw [ht] at hnew
      exact hnew.ofLoaded
    refine ⟨⟨l', k', ?_⟩, fun y hy => ?_, fun name hname => ?_, fun y m1 hy hm1 => ?_⟩
    · rw [hframe, ht]
    · rw [hother y (by omega)]
      exact h.rest y (by omega)
    · rw [hstarted, hupdated.countP_other (hname x m (Nat.lt_succ_self x) hx), Nat.zero_add]
      exact h.others name fun y m1 hy => hname y m1 (by omega)
    · by_cases hyx : y = x
      · subst hyx
        rw [hx, Option.some.injEq] at hm1
        subst hm1
        refine ⟨m', es, hupdated, hm', fun name hname => ?_⟩
        rw [hstarted]
        refine congrArg _ (h.others name fun y1 m1 hlt1 hm1 hname1 => ?_)
        have := htable.index hm1 hx (hname1.trans hname.symm)
        omega
      · obtain ⟨m1', es1, hupdated1, hslot1, hstarted1⟩ := h.done y m1 (by omega) hm1
        refine ⟨m1', es1, hupdated1, (hother y hyx).trans hslot1, fun name hname => ?_⟩
        rw [hstarted, hupdated.countP_other, Nat.zero_add]
        · exact hstarted1 name hname
        · exact fun hname1 => hyx (htable.index hm1 hx (hname.trans hname1.symm))

theorem updatePass {w : World} (htable : TableInv w.sup) (x : Nat) :
    UpdatePass w x (forRange x updateModuleStatus w) := by
  refine forRange_invariant (UpdatePass w) ?_ fun x t _ ht => ht.next htable
  exact ⟨⟨_, _, rfl⟩, fun _ _ => rfl, fun _ _ => rfl, fun y _ hy => absurd hy (Nat.not_lt_zero y)⟩

/-- Where a slot after the pass comes from. -/
theorem serviceUpdateModulesStatus_slot {w : World} (htable : TableInv w.sup) {y : Nat}
    {m' : RunningModule} (hy : (serviceUpdateModulesStatus w).sup.loaded[y]? = some m') :
    ∃ m es, w.sup.loaded[y]? = some m ∧ Updated w.sup m m' es ∧
      ∀ name, m.moduleName = some name → startedOf name (serviceUpdateModulesStatus w) =
        es.countP (Event.isStartedOf name) + startedOf name w := by
  have hpass := updatePass htable w.sup.loadedModulesCnt
  cases hold : w.sup.loaded[y]? with
  | none =>
    rw [serviceUpdateModulesStatus, hpass.rest y (List.getElem?_eq_none_iff.mp hold), hold] at hy
    cases hy
  | some m =>
    obtain ⟨m1, es, hupdated, hm1, hstarted⟩ :=
      hpass.done y m (List.getElem?_eq_some_iff.mp hold).1 hold
    rw [serviceUpdateModulesStatus, hm1, Option.some.injEq] at hy
    exact ⟨m, es, rfl, hy ▸ hupdated, hstarted⟩

/-! ## The counter in every reachable state -/

def TimelyInv (w : World) : Prop := ∀ m ∈ w.sup.loaded, m.meter.Timely

theorem timely_of_reset {m m' : RunningModule} (hm : m.meter.Timely)
    (hcnt : m'.moduleRestartCnt = -1 ∨ m'.moduleRestartCnt = m.moduleRestartCnt)
    (htimer : m'.moduleRestartTimer = m.moduleRestartTimer) : m'.meter.Timely := by
  have ⟨hlow, hhigh⟩ := hm
  simp only [Meter.Timely, RunningModule.meter] at hlow hhigh ⊢
  omega

theorem Calm.timely {s : Supervisor} {m m' : RunningModule} (h : Calm s m m')
    (hm : m.meter.Timely) : m'.meter.Timely := by
  cases h with
  | kept hcnt htimer => exact timely_of_reset hm (.inr hcnt) htimer
  | stopped _ hcnt htimer => exact timely_of_reset hm (.inl hcnt) htimer
  | reenabled _ hcnt htimer => exact timely_of_reset hm (.inl hcnt) htimer

theorem Updated.timely {s : Supervisor} {m m' : RunningModule} {es : List Event}
    (h : Updated s m m' es) (hm : m.meter.Timely) : m'.meter.Timely := by
  have htick := hm.tick numServiceIfcPeriods
  have hkept : (tickRestartTimer m).meter.Timely := by
    rw [tickRestartTimer_meter]
    exact ⟨htick.1, by omega⟩
  cases h with
  | kept => exact hkept
  | limit => exact hkept
  | start _ _ _ hmeter =>
    rw [hmeter]
    exact Meter.timely_charge htick _

theorem TimelyInv.quiet {w w' : World} (h : TimelyInv w) (hq : Quiet w w') : TimelyInv w' := by
  cases hq with
  | outside => exact h
  | slot hx _ hcalm =>
    intro m1 hm1
    rcases mem_setModule hm1 with rfl | hm1
    · exact hcalm.timely (h _ (List.mem_of_getElem? hx))
    · exact h m1 hm1
  | freed => exact fun m hm => h m (mem_freed hm)
  | exited => exact h

theorem TimelyInv.command {w : World} (h : TimelyInv w) {enabling : Bool} {s' : Supervisor}
    (hc : Command enabling w.sup s') : TimelyInv { w with sup := s' } := by
  have set : ∀ {x : Nat} {m m1 : RunningModule}, w.sup.loaded[x]? = some m →
      (m1.moduleRestartCnt = -1 ∨ m1.moduleRestartCnt = m.moduleRestartCnt) →
      m1.moduleRestartTimer = m.moduleRestartTimer →
      ∀ m0 ∈ (w.sup.setModule x m1).loaded, m0.meter.Timely := by
    intro x m m1 hx hcnt htimer m0 hm0
    rcases List.mem_or_eq_of_mem_set hm0 with hm0 | rfl
    · exact h m0 hm0
    · exact timely_of_reset (h m (List.mem_of_getElem? hx)) hcnt htimer
  cases hc with
  | enable _ hx => exact set hx (.inl rfl) rfl
  | disable hx => exact set hx (.inr rfl) rfl
  | restart hx => exact set hx (.inr rfl) rfl
  | profile => exact h
  | stop =>
    intro m' hm'
    obtain ⟨m, hm, rfl⟩ := List.mem_map.mp hm'
    exact h m hm

theorem finishSlot_restartTimer (choice : ReloadChoice) (m : RunningModule) :
    (finishSlot choice m).moduleRestartTimer = m.moduleRestartTimer := by
  rw [finishSlot, restartIfModified_eq]
  unfold adoptIfRunning
  split_ifs <;> rfl

theorem Applied.timely {choice : ReloadChoice} {i : Nat} {newModule : Bool} {e : XmlNode}
    {m m1 : RunningModule} (h : Applied choice i newModule e m m1) (hm : m.meter.Timely) :
    (finishSlot choice m1).meter.Timely := by
  refine timely_of_reset hm ?_ ((finishSlot_restartTimer choice m1).trans ?_)
  · rw [finishSlot_restartCnt, h.restartCnt]
    split_ifs
    · exact .inl rfl
    · exact .inr rfl
  · have htimer := congrArg RunningModule.moduleRestartTimer h.frame
    exact htimer

/-- A reload keeps the timer of a module and starts the one of a new module at 0. -/
theorem ReloadedSlot.timely {choice : ReloadChoice} {s : Supervisor} (h : TableInv s)
    {ds : List (Nat × XmlNode)} {m' : RunningModule} (hslot : ReloadedSlot choice s ds m')
    (hs : ∀ m ∈ s.loaded, m.meter.Timely) : m'.meter.Timely := by
  cases hslot with
  | missing hm =>
    exact timely_of_reset (hs _ hm) (.inr (finishSlot_restartCnt choice (missingSlot _)))
      (finishSlot_restartTimer choice (missingSlot _))
  | @kept m _ _ hm _ _ happlied => exact happlied.timely (hs m hm)
  | @new k _ _ _ _ happlied =>
    have hblank := h.spare_reset k
    refine happlied.timely ?_
    have hcnt := hblank.field RunningModule.moduleRestartCnt fun _ _ _ _ => rfl
    have htimer := hblank.field RunningModule.moduleRestartTimer fun _ _ _ _ => rfl
    rw [RunningModule.meter, hcnt, htimer]
    exact ⟨by decide, by decide⟩

theorem Reloaded.timely {choice : ReloadChoice} {s s' : Supervisor} (h : TableInv s)
    {root : XmlNode} (hg : Grammar root) (hr : Reloaded choice s root.xmlChildrenNode s')
    (hs : ∀ m ∈ s.loaded, m.meter.Timely) : ∀ m ∈ s'.loaded, m.meter.Timely :=
  fun _ hm => (hr.slot h hg.goodDocs hm).timely h hs

theorem serviceUpdateModulesStatus_timely {w : World} (htable : TableInv w.sup)
    (h : TimelyInv w) : TimelyInv (serviceUpdateModulesStatus w) := by
  intro m' hm'
  obtain ⟨y, hy⟩ := List.mem_iff_getElem?.mp hm'
  obtain ⟨m, es, hold, hupdated, -⟩ := serviceUpdateModulesStatus_slot htable hy
  exact hupdated.timely (h m (List.mem_of_getElem? hold))

theorem serviceCycle_timely {w : World} (turns : List Turn) (htable : TableInv w.sup)
    (h : TimelyInv w) : TimelyInv (serviceCycle turns w) := by
  have quietly : ∀ {t t' : World}, TimelyInv t → Quietly t t' → TimelyInv t' :=
    fun ht hq => reaches_invariant (fun _ _ h hq => h.quiet hq) hq ht
  rcases serviceCycle_cases turns w with hq | ⟨w0, hbefore, -, hafter⟩
  · exact quietly h hq
  · have htable0 : TableInv w0.sup :=
      reaches_invariant (I := fun w : World => TableInv w.sup) (fun _ _ h hc => h.change hc)
        hbefore.reaches htable
    exact quietly (serviceUpdateModulesStatus_timely htable0 (quietly h hbefore)) hafter

theorem step_timely {w : World} (a : Action) (htable : TableInv w.sup) (h : TimelyInv w) :
    TableInv (step w a).sup ∧ TimelyInv (step w a) :=
  step_invariant_of_cycle (I := fun w => TableInv w.sup ∧ TimelyInv w) (fun _ h => h.1)
    (fun turns h => ⟨step_tableInv (.cycle turns) h.1, serviceCycle_timely turns h.1 h.2⟩)
    (fun _ h => h) (fun _ _ _ h hc => ⟨h.1.command hc, h.2.command hc⟩)
    (fun _ b c h => ⟨h.1.flags b c, h.2⟩) ⟨htable, h⟩
    fun _ _ _ _ _ hg hr => ⟨hr.tableInv htable hg, hr.timely htable hg h⟩

theorem boot_timely (alive : List Int) (rootNode : Option XmlNode) :
    TimelyInv (boot alive rootNode) := by
  intro m hm
  by_cases hg : ∃ r, rootNode = some r ∧ Grammar r
  · obtain ⟨r, rfl, hg⟩ := hg
    have hr := (reloadConfiguration_accepted TableInv.init hg .initLoadConfig).2
    exact hr.timely TableInv.init hg (by simp [init_loaded]) m hm
  · have hloaded : (boot alive rootNode).sup.loaded = [] := by
      simp [boot, initialTable, reloadConfiguration_rejected hg, init_loaded]
    rw [hloaded] at hm
    cases hm

theorem reachable_timely {w : World} (h : Reachable w) : TimelyInv w := by
  obtain ⟨alive, rootNode, as, rfl⟩ := h
  exact (Run.run_invariant (I := fun w : World => TableInv w.sup ∧ TimelyInv w)
    (fun _ a h => step_timely a h.1 h.2)
    ⟨boot_tableInv alive rootNode, boot_timely alive rootNode⟩ as).2

/-! ## A limit of 30 -/

/-- When the update of the status comes to a module, its counter after the tick is
not 30, so a module with the limit 30 is not disabled. -/
theorem unlimited_not_disabled {w : World} (hw : Reachable w) (turns : List Turn) {x : Nat}
    {m : RunningModule} :
    let w0 := (serviceCheckModulesStatus { w with kernel := { w.kernel with turns } }).1
    let w1 := forRange x updateModuleStatus w0
    w1.sup.loaded[x]? = some m →
      (tickRestartTimer m).moduleRestartCnt ≠ maxModuleRestartsNum ∧
        (w1.sup.maxRestarts m = maxModuleRestartsNum → ∃ m',
          (updateModuleStatus x w1).sup.loaded[x]? = some m' ∧
            m'.moduleEnabled = m.moduleEnabled) := by
  intro w0 w1 hx
  have hcheck : Quietly w w0 := (Relation.ReflTransGen.single (.outside (.script turns))).trans
    (serviceCheckModulesStatus_quietly _).1
  have htimely : TimelyInv w0 :=
    reaches_invariant (fun _ _ h hq => h.quiet hq) hcheck (reachable_timely hw)
  have htable : TableInv w0.sup :=
    reaches_invariant (I := fun w : World => TableInv w.sup) (fun _ _ h hc => h.change hc)
      hcheck.reaches (reachable_tableInv hw)
  have hold : w0.sup.loaded[x]? = some m :=
    ((updatePass htable x).rest x (Nat.le_refl x)).symm.trans hx
  have hm : m.meter.Timely := htimely m (List.mem_of_getElem? hold)
  -- after the tick the counter is at most the timer, which is below the period
  have hcnt : (tickRestartTimer m).moduleRestartCnt ≠ maxModuleRestartsNum := by
    have htick := hm.tick numServiceIfcPeriods
    have hlt := @Meter.tick_timer_lt numServiceIfcPeriods (by decide) m.meter
    rw [← tickRestartTimer_meter] at htick hlt
    simp only [RunningModule.meter, numServiceIfcPeriods] at htick hlt
    rw [maxModuleRestartsNum]
    omega
  refine ⟨hcnt, fun hlimit => ?_⟩
  obtain ⟨m', es, k, hupdated, -, heq⟩ := updateModuleStatus_spec hx
  refine ⟨m', ?_, ?_⟩
  · rw [heq]
    exact setModule_get hx
  · cases hupdated with
    | kept => rw [tickRestartTimer_eq]
    | limit hreached => exact absurd (hreached.trans hlimit) hcnt
    | start _ _ _ _ _ hflags => exact hflags.1

/-- A module with the limit 30 whose process has crashed. -/
def crashed : World :=
  Run.run step (boot [] (some (limitDocument "30")))
    [.cycle [forkTurn 100], .move (.exits 100), .cycle []]

theorem unlimited_not_disabled_crashed :
    let w0 := (serviceCheckModulesStatus
      { crashed with kernel := { crashed.kernel with turns := [forkTurn 101] } }).1
    ∃ m, w0.sup.loaded[0]? = some m ∧ (tickRestartTimer m).moduleRestartCnt ≠ 30 ∧
      ∃ m', (updateModuleStatus 0 w0).sup.loaded[0]? = some m' ∧ m'.moduleEnabled = true := by
  intro w0
  have hlimit : ∀ m ∈ w0.sup.loaded[0]?, w0.sup.maxRestarts m = 30 ∧ m.moduleEnabled = true := by
    decide
  obtain ⟨m, hm⟩ : ∃ m, w0.sup.loaded[0]? = some m := Option.isSome_iff_exists.mp (by decide)
  obtain ⟨hcnt, hkept⟩ := unlimited_not_disabled (w := crashed)
    ⟨[], some (limitDocument "30"), _, rfl⟩ [forkTurn 101] (x := 0) hm
  obtain ⟨m', hm', henabled⟩ := hkept (hlimit m hm).1
  exact ⟨m, hm, hcnt, m', hm', henabled.trans (hlimit m hm).2⟩

end NemeaSupervisor
