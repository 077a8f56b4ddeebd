import Mathlib.Algebra.Group.Nat.Defs
import NemeaSupervisor.Generations
import NemeaSupervisor.RemovalPass
import NemeaSupervisor.Response
import NemeaSupervisor.RestartRate
import NemeaSupervisor.Thinning

/-!
# How fast removed modules leave the table

A cycle may leave a module in the table that it should have freed, but never more
than half of them. A mark of a pending removal or restart is there only until the
module has been served, so once their processes are gone all marked modules are
freed in a number of cycles that is logarithmic in their number.
-/

namespace NemeaSupervisor

open Loop ServiceState

def awaitingRemoval (s : Supervisor) : Nat := s.loaded.countP RunningModule.removeModule

/-- The names of the modules that stay, in the order of the table. -/
def stayingNames (s : Supervisor) : List (Option String) :=
  (s.loaded.filter fun m => !m.removeModule).map RunningModule.moduleName

/-! ## Served modules carry no mark -/

/-- What the service thread has served waits for nothing, and what is to be removed belongs to
no profile. -/
structure Marked (m : RunningModule) : Prop where
  served : m.moduleServedByServiceThread = true → m.removeModule = false ∧ m.initModule = false
  orphan : m.removeModule = true → m.modulesProfile = none

def MarkInv (w : World) : Prop := ∀ m ∈ w.sup.loaded, Marked m

theorem SlotChange.initModule {s : Supervisor} {k k' : Kernel} {m m' : RunningModule}
    (h : SlotChange s k m m' k') (hinit : m'.initModule = true) : m.initModule = true := by
  cases h with
  | tick =>
    unfold tickRestartTimer at hinit
    split_ifs at hinit <;> exact hinit
  | reenabled => cases hinit
  | _ => exact hinit

theorem Marked.slot {s : Supervisor} {k k' : Kernel} {m m' : RunningModule} (h : Marked m)
    (hc : SlotChange s k m m' k') (ho : Observed k k' m m') : Marked m' := by
  refine ⟨fun hserved => ?_, fun hremove => ?_⟩
  · rw [hc.removeModule]
    rcases ho.served hserved with hold | hnew
    · refine ⟨(h.served hold).1, Bool.eq_false_iff.mpr fun hinit => ?_⟩
      have hbefore := hc.initModule hinit
      rw [(h.served hold).2] at hbefore
      cases hbefore
    · exact hnew
  · rw [field_of_config RunningModule.modulesProfile (fun _ => rfl) hc.config]
    exact h.orphan (hc.removeModule ▸ hremove)

theorem mark_step {w w' : World} (h : MarkInv w) (hs : CycleStep w w') : MarkInv w' := by
  refine hs.invariant (N := fun _ => True) (fun _ _ _ => trivial) (fun _ h => h) (fun _ _ h _ => h)
    (fun w x m m' k h hx hc ho _ m1 hm1 => ?_) (fun w x m h hx _ _ m1 hm1 => h m1 (mem_freed hm1)) h
  rcases mem_setModule hm1 with rfl | hm1
  · exact (h m (List.mem_of_getElem? hx)).slot hc ho
  · exact h m1 hm1

theorem finishSlot_unserved (choice : ReloadChoice) (m : RunningModule) :
    (finishSlot choice m).moduleServedByServiceThread = false := by
  rw [finishSlot, restartIfModified_eq]
  unfold adoptIfRunning
  split_ifs <;> rfl

theorem Reloaded.marked {choice : ReloadChoice} {s s' : Supervisor} (h : TableInv s)
    {nodes : List XmlNode} (hd : GoodDocs (docModules nodes)) (hr : Reloaded choice s nodes s')
    {m : RunningModule} (hm : m ∈ s'.loaded) : Marked m := by
  have hunserved : m.moduleServedByServiceThread = false := by
    cases hr.slot h hd hm <;> exact finishSlot_unserved choice _
  have hlisted : m.removeModule = true → ∀ d ∈ docModules nodes, moduleName d.2 ≠ m.moduleName := by
    intro hremove d hd' hname
    rw [(hr.element h hd hd' hm hname.symm).remove h] at hremove
    cases hremove
  refine ⟨fun hserved => ?_, fun hremove => ?_⟩
  · rw [hunserved] at hserved
    cases hserved
  · have hother := hlisted hremove
    cases hr.slot h hd hm with
    | missing =>
      exact field_of_config RunningModule.modulesProfile (fun _ => rfl) (finishSlot_config choice _)
    | kept _ hd' hname happlied =>
      exact absurd (hname.trans (happlied.name.symm.trans (finishSlot_name choice _).symm))
        (hother _ hd')
    | new hd' _ happlied =>
      exact absurd (happlied.name.symm.trans (finishSlot_name choice _).symm) (hother _ hd')

theorem MarkInv.command {enabling : Bool} {w : World} {s' : Supervisor} (h : MarkInv w)
    (hc : Command enabling w.sup s') : MarkInv { w with sup := s' } := by
  have set : ∀ {x m m'}, w.sup.loaded[x]? = some m → (Marked m → Marked m') →
      ∀ m1 ∈ (w.sup.setModule x m').loaded, Marked m1 := by
    intro x m m' hx hm m1 hm1
    rcases List.mem_or_eq_of_mem_set hm1 with hm1 | rfl
    · exact h m1 hm1
    · exact hm (h m (List.mem_of_getElem? hx))
  cases hc with
  | enable _ hx => exact set hx fun hm => ⟨hm.served, hm.orphan⟩
  | disable hx => exact set hx fun hm => ⟨hm.served, hm.orphan⟩
  | restart hx => exact set hx fun hm => ⟨fun hserved => (by cases hserved), hm.orphan⟩
  | profile => exact h
  | stop =>
    intro m1 hm1
    obtain ⟨m, hm, rfl⟩ := List.mem_map.mp hm1
    exact ⟨(h m hm).served, (h m hm).orphan⟩

theorem step_markInv (w : World) (a : Action) (h : TableInv w.sup ∧ MarkInv w) :
    TableInv (step w a).sup ∧ MarkInv (step w a) := by
  refine ⟨step_tableInv a h.1, (step_invariant_of_cycle
    (I := fun w => TableInv w.sup ∧ MarkInv w) (fun _ h => h.1) (fun turns h => ?_) (fun _ h => h)
    (fun _ _ _ h hc => ⟨h.1.command hc, h.2.command hc⟩) (fun _ b c h => ⟨h.1.flags b c, h.2⟩) h
    fun _ _ _ _ _ hg hr => ⟨hr.tableInv h.1 hg, fun m hm => hr.marked h.1 hg.goodDocs hm⟩).2⟩
  exact ⟨reaches_invariant (I := fun w => TableInv w.sup) (fun _ _ h hc => h.change hc)
    (serviceCycle_reaches turns w) h.1, serviceCycle_invariant (fun _ _ h => h)
      (fun _ _ h hs => mark_step h hs) (fun _ h => h) turns h.2⟩

theorem boot_markInv (alive : List Int) (rootNode : Option XmlNode) :
    MarkInv (boot alive rootNode) := by
  intro m hm
  by_cases hg : ∃ r, rootNode = some r ∧ Grammar r
  · obtain ⟨r, rfl, hg⟩ := hg
    exact (reloadConfiguration_accepted TableInv.init hg .initLoadConfig).2.marked .init
      hg.goodDocs hm
  · change m ∈ (initialTable rootNode).loaded at hm
    rw [initialTable_rejected hg, init_loaded] at hm
    exact absurd hm (by simp)

theorem reachable_markInv {w : World} (hw : Reachable w) : MarkInv w := by
  obtain ⟨alive, rootNode, as, rfl⟩ := hw
  exact (Run.run_invariant (I := fun w => TableInv w.sup ∧ MarkInv w) step_markInv
    ⟨boot_tableInv alive rootNode, boot_markInv alive rootNode⟩ as).2

/-! ## A cycle while no marked module runs -/

/-- A module to be removed has no process. -/
def MarkedDown (w : World) : Prop := ∀ m ∈ w.sup.loaded, m.removeModule = true → m.modulePid ≤ 0

structure Removing (w : World) : Prop where
  signals : SignalInv w
  marks : MarkInv w
  down : MarkedDown w

/-- Without a profile it is not started, even if it is enabled. -/
theorem SlotChange.markedDown {s : Supervisor} {k k' : Kernel} {m m' : RunningModule}
    (h : SlotChange s k m m' k') (hmarked : Marked m) (hm : m.removeModule = true → m.modulePid ≤ 0)
    (hremove : m'.removeModule = true) : m'.modulePid ≤ 0 := by
  have hbefore : m.removeModule = true := h.removeModule ▸ hremove
  have hpid := hm hbefore
  have hstopped : ¬ Startable s m := fun hs => by
    have hprofile := hs.profile
    rw [Supervisor.profileEnabled, Supervisor.profileOf, hmarked.orphan hbefore] at hprofile
    cases hprofile
  cases h with
  | seen _ hpos => exact absurd hpid (by omega)
  | gone hpos => exact absurd hpid (by omega)
  | startFailed hs | started hs => exact absurd hs hstopped
  | tick => exact (tickRestartTimer_kept m).2.2.2.1 ▸ hpid
  | reenabled hnot =>
    rw [hbefore] at hnot
    cases hnot
  | _ => exact hpid

/-- A state with these names and at most so many modules to be removed. -/
structure RemovingFrom (n : Nat) (names : List (Option String)) (w : World) : Prop extends
    Removing w where
  bound : awaitingRemoval w.sup ≤ n
  names : stayingNames w.sup = names

theorem awaitingRemoval_eq (s : Supervisor) :
    awaitingRemoval s = (s.loaded.map fun m => (m.removeModule, m.moduleName)).countP Prod.fst := by
  rw [awaitingRemoval, List.countP_map]
  rfl

theorem stayingNames_eq (s : Supervisor) : stayingNames s =
    ((s.loaded.map fun m => (m.removeModule, m.moduleName)).filter fun m => !m.1).map Prod.snd := by
  rw [stayingNames, List.filter_map, List.map_map]
  rfl

/-- No step of a cycle marks a module for removal. -/
theorem awaitingRemoval_step {w w' : World} (hs : CycleStep w w') :
    awaitingRemoval w'.sup ≤ awaitingRemoval w.sup := by
  refine hs.invariant (I := fun t => awaitingRemoval t.sup ≤ awaitingRemoval w.sup)
    (N := fun _ => True) (fun _ _ _ => trivial) (fun _ h => h) (fun _ _ h _ => h)
    (fun t x m m' k h hx hc _ _ => ?_) (fun t x m h hx _ _ => ?_) (Nat.le_refl _)
  · refine Nat.le_trans (Nat.le_of_eq ?_) h
    rw [awaitingRemoval_eq, awaitingRemoval_eq]
    exact congrArg _ (map_set_same hx (by rw [hc.removeModule, hc.name]))
  · refine Nat.le_trans ?_ h
    rw [awaitingRemoval, awaitingRemoval, freeModuleAndShiftArray,
      if_pos (List.getElem?_eq_some_iff.mp hx).1]
    exact (List.eraseIdx_sublist _ _).countP_le

/-- It frees marked modules only. -/
theorem stayingNames_step {w w' : World} (hs : CycleStep w w') :
    stayingNames w'.sup = stayingNames w.sup := by
  refine hs.invariant (I := fun t => stayingNames t.sup = stayingNames w.sup)
    (N := fun _ => True) (fun _ _ _ => trivial) (fun _ h => h) (fun _ _ h _ => h)
    (fun t x m m' k h hx hc _ _ => ?_) (fun t x m h hx hfreed _ => ?_) rfl
  · have hsame : (t.sup.setModule x m').loaded.map (fun m => (m.removeModule, m.moduleName)) =
        t.sup.loaded.map fun m => (m.removeModule, m.moduleName) :=
      map_set_same hx (by rw [hc.removeModule, hc.name])
    rw [← h, stayingNames_eq, stayingNames_eq t.sup, ← hsame]
    rfl
  · rw [← h, stayingNames, stayingNames, freeModuleAndShiftArray,
      if_pos (List.getElem?_eq_some_iff.mp hx).1, Sweep.filter_eraseIdx hx (by simp [hfreed.2.1])]

theorem awaitingRemoval_steps {w w' : World} (hs : CycleSteps w w') :
    awaitingRemoval w'.sup ≤ awaitingRemoval w.sup :=
  reaches_invariant (I := fun t => awaitingRemoval t.sup ≤ awaitingRemoval w.sup)
    (fun _ _ h hstep => Nat.le_trans (awaitingRemoval_step hstep) h) hs (Nat.le_refl _)

theorem stayingNames_steps {w w' : World} (hs : CycleSteps w w') :
    stayingNames w'.sup = stayingNames w.sup :=
  reaches_invariant (I := fun t => stayingNames t.sup = stayingNames w.sup)
    (fun _ _ h hstep => (stayingNames_step hstep).trans h) hs rfl

section removing

variable {n : Nat} {names : List (Option String)} {w w' : World}

theorem Removing.step (h : Removing w) (hs : CycleStep w w') : Removing w' := by
  refine ⟨reaches_invariant (fun _ _ hi hc => hi.change hc) hs.reaches h.signals,
    mark_step h.marks hs, ?_⟩
  refine (hs.invariant (I := fun w => MarkInv w ∧ MarkedDown w) (N := fun _ => True)
    (fun _ _ _ => trivial) (fun _ h => h) (fun _ _ h _ => h) (fun w x m m' k h hx hc ho _ => ?_)
    (fun _ _ _ h _ _ _ => ⟨fun m1 hm1 => h.1 m1 (mem_freed hm1),
      fun m1 hm1 => h.2 m1 (mem_freed hm1)⟩) ⟨h.marks, h.down⟩).2
  have hm := List.mem_of_getElem? hx
  refine ⟨fun m1 hm1 => ?_, fun m1 hm1 => ?_⟩ <;> rcases mem_setModule hm1 with rfl | hm1
  · exact (h.1 m hm).slot hc ho
  · exact h.1 m1 hm1
  · exact hc.markedDown (h.1 m hm) (h.2 m hm)
  · exact h.2 m1 hm1

theorem RemovingFrom.step (h : RemovingFrom n names w) (hs : CycleStep w w') :
    RemovingFrom n names w' :=
  ⟨h.toRemoving.step hs, Nat.le_trans (awaitingRemoval_step hs) h.bound,
    (stayingNames_step hs).trans h.names⟩

theorem RemovingFrom.steps (h : RemovingFrom n names w) (hs : CycleSteps w w') :
    RemovingFrom n names w' :=
  reaches_invariant (fun _ _ hi hstep => hi.step hstep) hs h

/-- The marked modules are the ones that a pass frees. -/
theorem Removing.freed_iff (h : Removing w) {m : RunningModule} (hm : m ∈ w.sup.loaded) :
    Freed m ↔ m.removeModule = true := by
  refine ⟨fun hfreed => hfreed.2.1, fun hremove => ⟨?_, hremove, ?_⟩⟩
  · refine Bool.eq_false_iff.mpr fun hserved => ?_
    rw [((h.marks m hm).served hserved).1] at hremove
    cases hremove
  · refine Bool.eq_false_iff.mpr fun hstatus => ?_
    have := h.signals.status m hm hstatus
    have := h.down m hm hremove
    omega

theorem serveModules_loaded (w : World) :
    (serveModules w).sup.loaded = Sweep.thin Freed served w.sup.loaded := by
  rw [← Sweep.sweep_slots, ← tracedPass_toPass, ← tracedPass_world]
  rfl

theorem RemovingFrom.serveModules (h : RemovingFrom n names w) (hsync : Synced w) :
    RemovingFrom (n / 2) names (serveModules w) := by
  have hafter := h.steps (serveModules_steps hsync)
  refine ⟨hafter.toRemoving, ?_, hafter.names⟩
  have hhalf := @Sweep.countP_thin_le _ Freed _ served (fun _ => served_not_freed) w.sup.loaded
  rw [← serveModules_loaded] at hhalf
  have hcount : ∀ {w : World}, Removing w →
      w.sup.loaded.countP (fun m => decide (Freed m)) = awaitingRemoval w.sup := fun hw =>
    List.countP_congr fun m hm => by simpa using hw.freed_iff hm
  rw [hcount hafter.toRemoving, hcount h.toRemoving] at hhalf
  have := h.bound
  omega

/-- A cycle in which the thread stays in its loop. -/
theorem RemovingFrom.cycle (h : RemovingFrom n names w) {turns : List Turn}
    (hgoes : (serviceCycle turns w).serviceExited = false) :
    RemovingFrom (n / 2) names (serviceCycle turns w) := by
  have hscript : RemovingFrom n names { w with kernel := { w.kernel with turns } } :=
    ⟨⟨h.signals.change (.outside (.script turns)), h.marks, h.down⟩, h.bound, h.names⟩
  have hcheck := hscript.steps (check_steps _)
  have hsync := (serviceCheckModulesStatus_quietly
    { w with kernel := { w.kernel with turns } }).2
  rw [serviceCycle_goes_on hgoes]
  have hbefore := beforeServing_steps hsync
  exact ((hcheck.steps hbefore).serveModules (hsync.reaches hbefore.reaches)).steps
    (afterServing_steps _)

end removing

/-! ## Runs -/

/-- Only a reload marks modules for removal. -/
def Action.leavesMarks : Action → Prop
  | .reloadTemplate _ => False
  | .reloadCallback _ => False
  | _ => True

section runs

variable {n : Nat} {names : List (Option String)} {w : World}

theorem RemovingFrom.command {enabling : Bool} (h : RemovingFrom n names w) {s' : Supervisor}
    (hc : Command enabling w.sup s') : RemovingFrom n names { w with sup := s' } := by
  have hsignals : SignalInv { w with sup := s' } := h.signals.congr (h.signals.table.command hc)
    fun _ hm' => .inr (hc.process hm')
  have set : ∀ {x m m'}, w.sup.loaded[x]? = some m → m'.removeModule = m.removeModule →
      m'.moduleName = m.moduleName → m'.modulePid = m.modulePid →
      SignalInv { w with sup := w.sup.setModule x m' } →
      MarkInv { w with sup := w.sup.setModule x m' } →
      RemovingFrom n names { w with sup := w.sup.setModule x m' } := by
    intro x m m' hx hremove hname hpid hsignals hmarks
    have hsame : (w.sup.setModule x m').loaded.map (fun m => (m.removeModule, m.moduleName)) =
        w.sup.loaded.map fun m => (m.removeModule, m.moduleName) :=
      map_set_same hx (by rw [hremove, hname])
    refine ⟨⟨hsignals, hmarks, fun m1 hm1 hremove1 => ?_⟩, ?_, ?_⟩
    · rcases List.mem_or_eq_of_mem_set hm1 with hm1 | rfl
      · exact h.down m1 hm1 hremove1
      · exact hpid ▸ h.down m (List.mem_of_getElem? hx) (hremove ▸ hremove1)
    · rw [awaitingRemoval_eq, hsame, ← awaitingRemoval_eq]
      exact h.bound
    · rw [stayingNames_eq, hsame, ← stayingNames_eq]
      exact h.names
  have hmarks := h.marks.command hc
  cases hc with
  | enable _ hx => exact set hx rfl rfl rfl hsignals hmarks
  | disable hx => exact set hx rfl rfl rfl hsignals hmarks
  | restart hx => exact set hx rfl rfl rfl hsignals hmarks
  | profile => exact ⟨⟨hsignals, hmarks, h.down⟩, h.bound, h.names⟩
  | stop =>
    have hsame : (interactiveStopConfiguration w.sup).loaded.map
        (fun m => (m.removeModule, m.moduleName)) =
          w.sup.loaded.map fun m => (m.removeModule, m.moduleName) := by
      rw [interactiveStopConfiguration, List.map_map]
      rfl
    refine ⟨⟨hsignals, hmarks, fun m1 hm1 hremove => ?_⟩, ?_, ?_⟩
    · obtain ⟨m, hm, rfl⟩ := List.mem_map.mp hm1
      exact h.down m hm hremove
    · rw [awaitingRemoval_eq, hsame, ← awaitingRemoval_eq]
      exact h.bound
    · rw [stayingNames_eq, hsame, ← stayingNames_eq]
      exact h.names

theorem RemovingFrom.commands {enabling : Bool} (h : RemovingFrom n names w)
    {f : Supervisor → Supervisor} (hf : ∀ s, Commands enabling s (f s)) :
    RemovingFrom n names (w.locked f) :=
  locked_invariant h (commands_invariant (fun _ _ h hc => h.command hc) (hf w.sup) h)

theorem RemovingFrom.other (h : RemovingFrom n names w) {a : Action} (ha : a.leavesMarks)
    (hcycle : a.isCycle = false) : RemovingFrom n names (NemeaSupervisor.step w a) := by
  have commands : ∀ {f : Supervisor → Supervisor}, (∀ s, Commands false s (f s)) →
      RemovingFrom n names (w.locked f) := fun hf => h.commands hf
  cases a with
  | cycle => cases hcycle
  | move mv => exact ⟨⟨h.signals.change (.outside (.move mv)), h.marks, h.down⟩, h.bound, h.names⟩
  | setEnabled selection => exact h.commands (interactiveSetEnabled_commands selection)
  | setDisabled selection => exact commands (interactiveSetDisabled_commands selection)
  | restartModule selection => exact commands (interactiveRestartModule_commands selection)
  | stopConfiguration => exact commands fun s => .single .stop
  | setStopAllModules | abortServiceThread =>
    exact ⟨⟨⟨h.signals.table.flags _ _, h.signals.status, h.signals.sent, h.signals.trace⟩,
      h.marks, h.down⟩, h.bound, h.names⟩
  | _ => exact absurd ha id

end runs

/-- The service thread stays in its loop. -/
def GoesOn (w : World) (a : Action) : Prop := (step w a).serviceExited = false

/-- As long as the thread runs and nothing is reloaded, every cycle frees at least half of
the modules that wait for their removal; the others stay in their order. -/
theorem removals_halved {w : World} (hw : Reachable w) (hdown : MarkedDown w) (as : List Action)
    (has : Run.Along step (fun w a => a.leavesMarks ∧ GoesOn w a) w as) :
    let w' := Run.run step w as
    awaitingRemoval w'.sup ≤ awaitingRemoval w.sup / 2 ^ as.countP Action.isCycle ∧
      stayingNames w'.sup = stayingNames w.sup := by
  have hmarks := reachable_markInv hw
  obtain ⟨alive, rootNode, bs, rfl⟩ := hw
  have hsignals := Run.run_invariant step_signalInv (boot_signalInv alive rootNode) bs
  generalize Run.run step (boot alive rootNode) bs = w at hmarks hsignals hdown has ⊢
  have hend := @Run.stage_of_rounds _ _ step (fun w a => a.leavesMarks ∧ GoesOn w a) Action.isCycle
    (fun n t => RemovingFrom (awaitingRemoval w.sup / 2 ^ n) (stayingNames w.sup) t)
    (fun n t a ht ha hcycle => ht.other ha.1 hcycle)
    (fun n t a ht ha hcycle => by
      cases a with
      | cycle turns =>
        rw [Nat.pow_succ, ← Nat.div_div_eq_div_mul]
        exact ht.cycle ha.2
      | _ => cases hcycle)
    w as 0 ⟨⟨hsignals, hmarks, hdown⟩, by simp, rfl⟩ has
  rw [Nat.zero_add] at hend
  exact ⟨hend.bound, hend.names⟩

/-- Three modules are dropped by a reload; the second of them is left until the next cycle. -/
theorem removals_halved_three :
    let w := Run.run step (boot [] (some (profileDocument
      [moduleElement "a" "/a" "false" [], moduleElement "b" "/b" "false" [],
        moduleElement "c" "/c" "false" [], moduleElement "d" "/d" "false" []])))
      [.reloadTemplate (some (profileDocument [moduleElement "d" "/d" "false" []]))]
    let w' := Run.run step w [.cycle [], .cycle []]
    awaitingRemoval w'.sup ≤ awaitingRemoval w.sup / 2 ^ 2 ∧
      stayingNames w'.sup = stayingNames w.sup :=
  removals_halved ⟨_, _, _, rfl⟩ (by unfold MarkedDown; decide +kernel) [.cycle [], .cycle []]
    ⟨⟨trivial, by unfold GoesOn; decide +kernel⟩, ⟨trivial, by unfold GoesOn; decide +kernel⟩,
      trivial⟩

end NemeaSupervisor
