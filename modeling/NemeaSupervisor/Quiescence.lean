import NemeaSupervisor.Convergence

/-!
# The rest state and the end

A table that has converged stays as it is: in a cooperative world nothing more is
started, signalled or freed. When everything is stopped, the same two cycles that
bring the processes down let the third one end the thread, and no process is left.
-/

namespace NemeaSupervisor

open Loop

/-! ## A converged table is at rest -/

/-- A start, a signal or a removal. -/
def Event.acts : Event → Bool
  | .connected _ => false
  | .closed _ => false
  | _ => true

/-- The starts, signals and removals so far. -/
def actions (w : World) : List Event := w.kernel.trace.filter Event.acts

/-- What a table at rest keeps inside of a cycle. -/
structure AtRest (w : World) : Prop where
  down : Gone w ∧ AllDown w
  up : Up w

section rest

variable {doomed : Int → Prop} {before : List Event} {w w' : World}

theorem lastsIn_atRest : LastsIn doomed AtRest where
  turn := fun h hw => ⟨lastsIn_allDown.turn h hw.down, lastsIn_up.turn h hw.up⟩
  noted := fun hw => ⟨(lastsIn_allDown : LastsIn doomed _).noted hw.down,
    (lastsIn_up : LastsIn doomed Up).noted hw.up⟩
  slot := fun h hw hx hc ho => ⟨lastsIn_allDown.slot h hw.down hx hc ho,
    lastsIn_up.slot h hw.up hx hc ho⟩
  freed := fun hw => ⟨(lastsIn_allDown : LastsIn doomed _).freed hw.down,
    (lastsIn_up : LastsIn doomed Up).freed hw.up⟩

/-- Nothing gives cause to a start or a signal. -/
theorem SlotChange.at_rest (hw : AtRest w) {x : Nat} {m m' : RunningModule} {k : Kernel}
    (hx : w.sup.loaded[x]? = some m) (hc : SlotChange w.sup w.kernel m m' k) :
    k.trace.filter Event.acts = w.kernel.trace.filter Event.acts := by
  have hm := List.mem_of_getElem? hx
  have hup : ∀ {P : Prop}, Startable w.sup m → P := fun hs => by
    have := hw.up.up m hm hs.toRun
    rw [hs.status] at this
    cases this
  have hdown : ∀ {P : Prop}, m.moduleStatus = true → ToStop m (w.sup.profileOf m) → P :=
    fun hstatus hstop => by
      rw [hw.down.2 m hm hstop] at hstatus
      cases hstatus
  cases hc with
  | sigint hstatus _ hdisabled => exact hdown hstatus hdisabled.symm
  | sigkill hstatus hdisabled => exact hdown hstatus hdisabled
  | startCalled hs | startFailed hs | started hs => exact hup hs
  | _ => rfl

theorem AtRest.step (h : Steady doomed w) (hw : AtRest w) (hs : CycleStep w w') :
    Steady doomed w' ∧ AtRest w' ∧ actions w' = actions w := by
  have hafter := lastsIn_atRest.step h hw hs
  refine ⟨hafter.1, hafter.2, ?_⟩
  have hturn : ∀ k : Kernel, k.turn.2.trace.filter Event.acts = k.trace.filter Event.acts :=
    fun k => by rw [turn_trace]
  cases hs with
  | turn => exact hturn w.kernel
  | noted e he =>
    refine List.filter_cons_of_neg ?_
    cases e <;> first | exact absurd he id | exact Bool.false_ne_true
  | slot hx hc => exact hc.at_rest hw hx
  | forked hx hc =>
    exact (SlotChange.at_rest (w := { w with kernel := w.kernel.turn.2 })
      (lastsIn_atRest.turn h hw) hx hc).trans (hturn w.kernel)
  | freed hx hfreed =>
    have := (hw.up.marks _ (List.mem_of_getElem? hx)).1
    rw [hfreed.2.1] at this
    cases this

theorem AtRest.steps (h : Steady doomed w) (hw : AtRest w) (hs : CycleSteps w w') :
    actions w' = actions w :=
  (reaches_invariant (I := fun t => Steady doomed t ∧ AtRest t ∧ actions t = actions w)
    (fun _ _ ⟨ht, hrest, heq⟩ hstep => by
      obtain ⟨ht', hrest', heq'⟩ := hrest.step ht hstep
      exact ⟨ht', hrest', heq'.trans heq⟩) hs ⟨h, hw, rfl⟩).2.2

end rest

/-- The modules that have to stop have no process at all once they are down. -/
theorem Cycled.gone {w : World} (h : Cycled w) (hdown : AllDown w) : Gone w := by
  intro m hm hstop p hp hpid
  have := h.synced m hm (hdown m hm hstop)
  have := h.sane.parents.processes.positive p hp
  omega

theorem Converging.at_rest {n0 j n : Nat} {names : List (Option String)} {w : World}
    (h : Converging n0 j n names w) (hn : 3 + j ≤ n) : AtRest w :=
  have hcycled := h.cycled (by omega)
  have hdown := h.down (by omega)
  ⟨⟨hcycled.gone hdown, hdown⟩, hcycled.lives, h.unmarked (by omega), h.up hn⟩

/-- After the cycles that bring the table to the configuration nothing is started, signalled
or freed any more, however long the run goes on. -/
theorem converged_at_rest {w : World} (hw : Supervised w) (hwaiting : Waiting w) {j : Nat}
    (hj : awaitingRemoval w.sup < 2 ^ j) (as bs : List Action)
    (has : Run.Along step Cooperative w (as ++ bs)) (hcycles : 3 + j ≤ as.countP Action.isCycle) :
    actions (Run.run step w (as ++ bs)) = actions (Run.run step w as) := by
  obtain ⟨hfirst, hrest⟩ := Run.along_append has
  have hconverging := hw.converging hwaiting hj hfirst
  rw [Run.run, List.foldl_append]
  change actions (Run.run step (Run.run step w as) bs) = _
  generalize Run.run step w as = t at hrest hconverging ⊢
  refine (Run.along_invariant (C := Cooperative) (I := fun t' => actions t' = actions t ∧
    ∃ n, 3 + j ≤ n ∧ Converging (awaitingRemoval w.sup) j n (stayingNames w.sup) t')
    (fun t' a hkept ha => ?_) ⟨rfl, _, hcycles, hconverging⟩ hrest).1
  obtain ⟨heq, n, hn, ht'⟩ := hkept
  cases a with
  | cycle turns =>
    refine ⟨?_, n + 1, by omega, ht'.cycle hj ha⟩
    have hc : CooperativeCycle t' turns := ha
    have hsteady := ht'.sane.steady hc
    obtain ⟨w1, hcheck⟩ := ht'.sane.firstCheck hc
    have h0 := ht'.at_rest hn
    have hrest0 : AtRest { t' with kernel := { t'.kernel with turns } } :=
      ⟨h0.down, h0.up.lives, h0.up.marks, h0.up.up⟩
    have hsteps := hcheck.steps.trans ((serviceUpdateModulesStatus_steps hcheck.synced).trans
      (afterStarts_steps hcheck.synced))
    rw [← heq]
    change actions (serviceCycle turns t') = _
    rw [hcheck.cycle]
    have hend := AtRest.steps hsteady hrest0 hsteps
    exact hend
  | move mv =>
    have htrace : (t'.kernel.move mv).trace = t'.kernel.trace := by cases mv <;> rfl
    exact ⟨(congrArg (List.filter Event.acts) htrace).trans heq, n, hn, ht'.move ha⟩
  | _ => exact absurd ha id

/-- After the table of the two modules has converged, two more cycles do nothing. -/
theorem converged_at_rest_droppedAndChanged :
    let as := [.cycle [], .move (.exits 100), .move (.exits 101), .cycle [], .cycle [],
      .cycle [{ Turn.idle with forkPid := 102 }]]
    actions (Run.run step droppedAndChanged (as ++ [.cycle [], .cycle []])) =
      actions (Run.run step droppedAndChanged as) := by
  refine @converged_at_rest droppedAndChanged ⟨[], _, _, .template (by decide), rfl⟩
    (by unfold Waiting; decide +kernel) 1 (by decide +kernel) _ _
    ⟨?_, ?_, ?_, ?_, ?_, ?_, ?_, ?_, trivial⟩ (by decide)
  · exact .calm (by decide) (by decide +kernel)
  · exact fun pid he => he ▸ by unfold MayEnd ToStop; decide +kernel
  · exact fun pid he => he ▸ by unfold MayEnd ToStop; decide +kernel
  · exact .calm (by decide) (by decide +kernel)
  · exact .calm (by decide) (by decide +kernel)
  · exact .calm (by decide) (by decide +kernel)
  · exact .calm (by decide) (by decide +kernel)
  · exact .calm (by decide) (by decide +kernel)

/-! ## The end -/

/-- The check counts every process that signals may be sent to. -/
theorem checkModuleStatus_count {x : Nat} {w : World} (h : Permitted w.kernel) (n : Nat) :
    n ≤ (checkModuleStatus x (w, n)).2 ∧ ((checkModuleStatus x (w, n)).2 = n →
      ∀ m, (checkSlot x w).sup.loaded[x]? = some m → m.modulePid ≤ 0) := by
  by_cases hidle : ∀ m ∈ w.sup.loaded[x]?, m.modulePid ≤ 0
  · rw [checkSlot_idle hidle]
    unfold checkModuleStatus
    simp only []
    cases hx : w.sup.loaded[x]? with
    | none => exact ⟨Nat.le_refl n, fun _ m hm => by cases hm⟩
    | some m =>
      have hpid : ¬ m.modulePid > 0 := Int.not_lt.mpr (hidle m hx)
      simp only [hpid, if_false]
      exact ⟨Nat.le_refl n, fun _ m' hm' => hidle m' (hx.trans hm')⟩
  obtain ⟨m, hx, hpid⟩ := running_of_not_idle hidle
  rw [checkSlot_found hx hpid]
  unfold checkModuleStatus
  simp only [hx, hpid, if_true, kill0_process]
  cases hp : w.kernel.turn.2.process m.modulePid with
  | none =>
    refine ⟨Nat.le_refl n, fun _ m' hm' => ?_⟩
    exact Int.le_of_eq (congrArg RunningModule.modulePid (setModule_slot hx hm'))
  | some p =>
    have hown := h.turn.own p (mem_of_process hp).1
    simp only [hown, Bool.false_eq_true, if_false]
    exact ⟨Nat.le_succ n, fun heq => absurd heq (Nat.succ_ne_self n)⟩

/-- If the check counts nothing, no module has a process. -/
theorem serviceCheckModulesStatus_none {w : World} (h : Permitted w.kernel)
    (hnone : (serviceCheckModulesStatus w).2 = 0) :
    ∀ m ∈ (serviceCheckModulesStatus w).1.sup.loaded, m.modulePid ≤ 0 := by
  have hloop := @forRange_invariant (World × Nat) w.sup.loadedModulesCnt checkModuleStatus (w, 0)
    (fun k st => Permitted st.1.kernel ∧ st.1.sup.loaded.length = w.sup.loadedModulesCnt ∧
      (st.2 = 0 → ∀ y m, y < k → st.1.sup.loaded[y]? = some m → m.modulePid ≤ 0))
    ⟨h, rfl, fun _ y m hy => absurd hy (Nat.not_lt_zero y)⟩
    (fun x st _ ⟨hp, hlength, hdone⟩ => by
      obtain ⟨hmore, hthis⟩ := checkModuleStatus_count (x := x) hp st.2
      refine ⟨?_, ?_, fun hzero y m hy hm => ?_⟩
      · rw [checkModuleStatus_fst]
        exact reaches_invariant (I := fun t => Permitted t.kernel) (fun _ _ hi hs => hi.step hs)
          (checkSlot_steps x st.1) hp
      · rw [checkModuleStatus_fst]
        exact (checkSlot_oneSlot.length x st.1).trans hlength
      · rw [checkModuleStatus_fst] at hm
        have hbefore : st.2 = 0 := by
          change (checkModuleStatus x (st.1, st.2)).2 = 0 at hzero
          omega
        by_cases hyx : y = x
        · subst hyx
          exact hthis (hzero.trans hbefore.symm) m hm
        · rw [checkSlot_oneSlot.other hyx] at hm
          exact hdone hbefore y m (by omega) hm)
  obtain ⟨-, hlength, hall⟩ := hloop
  intro m hm
  obtain ⟨y, hy⟩ := List.mem_iff_getElem?.mp hm
  have hlt := (List.getElem?_eq_some_iff.mp hy).1
  exact hall hnone y m (hlength ▸ hlt) hy

/-- Every process belongs to a module with a PID. -/
theorem ProcessInv.no_process {w : World} (h : ProcessInv w)
    (hdown : ∀ m ∈ w.sup.loaded, m.modulePid ≤ 0) : w.kernel.procs = [] := by
  refine List.eq_nil_iff_forall_not_mem.mpr fun p hp => ?_
  obtain ⟨m, hm, hpid, -⟩ := h.owned p hp
  have := h.positive p hp
  have := hdown m hm
  omega

/-- A cycle sets none of the flags of the termination. -/
theorem CycleStep.flags {w w' : World} (hs : CycleStep w w') :
    w'.sup.serviceThreadContinue = w.sup.serviceThreadContinue ∧
      w'.sup.serviceStopAllModules = w.sup.serviceStopAllModules ∧
      w'.serviceExited = w.serviceExited := by
  cases hs with
  | freed =>
    unfold freeModuleAndShiftArray
    split_ifs <;> exact ⟨rfl, rfl, rfl⟩
  | _ => exact ⟨rfl, rfl, rfl⟩

/-- The state in the middle of a cycle. -/
structure StillClosing (w : World) : Prop where
  stopped : ∀ m ∈ w.sup.loaded, Stopped m
  flags : w.sup.serviceThreadContinue = false ∧ w.sup.serviceStopAllModules = true
  loop : w.serviceExited = false

theorem StillClosing.steps {w w' : World} (h : StillClosing w) (hs : CycleSteps w w') :
    StillClosing w' := by
  refine reaches_invariant (I := StillClosing) (fun t t' ht hstep => ?_) hs h
  have hslots : StoppedInv (starts t) t := ⟨ht.stopped, rfl⟩
  obtain ⟨hcontinue, hstop, hexited⟩ := hstep.flags
  exact ⟨(reaches_invariant (I := StoppedInv (starts t)) (fun _ _ hi hc => hi.change hc)
    hstep.reaches hslots).slots, hcontinue ▸ hstop ▸ ht.flags, hexited.trans ht.loop⟩

theorem serviceThreadExit_procs (w : World) :
    (serviceThreadExit w).kernel.procs = w.kernel.procs := by
  refine forRange_invariant (s := w) (fun _ t => t.kernel.procs = w.kernel.procs) rfl
    fun x t _ ht => ?_
  rw [← ht]
  unfold disconnectModule serviceDisconnectFromModule
  cases t.sup.loaded[x]? with
  | none => rfl
  | some m =>
    simp only []
    split_ifs
    · exact (closeServiceSd_kernel t.kernel m).2.1
    · rfl

/-- The state after the order to stop everything, as long as the thread is in its loop. -/
structure Closing (w : World) : Prop where
  sane : Sane w
  still : StillClosing w

section closing

variable {w : World} {turns : List Turn}

/-- A cycle goes on as before, or it leaves the loop and has found no process. -/
theorem Closing.cycle_cases (h : Closing w) (hp : Permitted { w.kernel with turns }) :
    (serviceCycle turns w).serviceExited = false ∧ StillClosing (serviceCycle turns w) ∨
      (serviceCycle turns w).serviceExited = true ∧ (serviceCycle turns w).kernel.procs = [] := by
  have hscript : ProcessInv { w with kernel := { w.kernel with turns } } :=
    h.sane.parents.processes.change (.outside (.script turns))
  have hstill : StillClosing { w with kernel := { w.kernel with turns } } :=
    ⟨h.still.stopped, h.still.flags, h.still.loop⟩
  have hcheck := check_steps { w with kernel := { w.kernel with turns } }
  have hnone := serviceCheckModulesStatus_none (w := { w with kernel := { w.kernel with turns } }) hp
  have hsync := (serviceCheckModulesStatus_quietly
    { w with kernel := { w.kernel with turns } }).2
  unfold serviceCycle
  rw [if_neg (by simp [h.still.loop])]
  generalize serviceCheckModulesStatus { w with kernel := { w.kernel with turns } } = st
    at hcheck hnone hsync ⊢
  have h1 := hstill.steps hcheck
  simp only []
  split_ifs with hstop
  · refine .inr ⟨rfl, ?_⟩
    rw [serviceThreadExit_procs]
    refine (reaches_invariant (fun _ _ hi hc => hi.change hc) hcheck.reaches hscript).no_process
      (hnone (hstop.2.resolve_left ?_))
    rw [h1.flags.2]
    simp
  · have hbody := h1.steps (serviceCycleBody_steps hsync)
    exact .inl ⟨hbody.loop, hbody⟩

/-- Once everything is down the next cycle leaves the loop. -/
theorem Closing.last (h : Closing w) (hsync : Synced w) (hdown : AllDown w) (turns : List Turn) :
    (serviceCycle turns w).serviceExited = true := by
  have hdrained : Drained (starts w) w := by
    refine ⟨fun m hm => (h.still.stopped m hm).disabled, rfl, fun m hm hpos => ?_, h.still.flags.1⟩
    have := hsync m hm (hdown m hm (.inl (h.still.stopped m hm).disabled))
    omega
  exact (serviceCycle_drained hdrained h.still.loop turns).2

end closing

/-- Processes may end as they like; signals are permitted, and a cycle in which the thread
stays in its loop is a cooperative one. -/
def Unhindered (w : World) : Action → Prop
  | .cycle turns => Permitted { w.kernel with turns } ∧
      ((serviceCycle turns w).serviceExited = false → CooperativeCycle w turns)
  | .move _ => True
  | _ => False

/-- The thread has left its loop and no process is left, or so many cycles have passed. -/
def ClosingStage (n : Nat) (w : World) : Prop :=
  w.serviceExited = true ∧ w.kernel.procs = [] ∨
    n ≤ 2 ∧ Closing w ∧ (1 ≤ n → Cycled w) ∧ (2 ≤ n → AllDown w)

theorem ClosingStage.move {n : Nat} {w : World} (h : ClosingStage n w) (mv : Move) :
    ClosingStage n { w with kernel := w.kernel.move mv } := by
  rcases h with ⟨hexited, hprocs⟩ | ⟨hn, hending, hcycled, hdown⟩
  · refine .inl ⟨hexited, List.eq_nil_iff_forall_not_mem.mpr fun p hp => ?_⟩
    obtain ⟨q, hq, -⟩ := move_procs hp
    rw [hprocs] at hq
    cases hq
  · refine .inr ⟨hn, ⟨hending.sane.move mv, hending.still.stopped, hending.still.flags,
      hending.still.loop⟩, fun h1 => (hcycled h1).move fun pid _ m hm _ => ?_, hdown⟩
    exact .inl (hending.still.stopped m hm).disabled

theorem ClosingStage.cycle {n : Nat} {w : World} {turns : List Turn} (h : ClosingStage n w)
    (hp : Permitted { w.kernel with turns })
    (hc : (serviceCycle turns w).serviceExited = false → CooperativeCycle w turns) :
    ClosingStage (n + 1) (serviceCycle turns w) := by
  rcases h with ⟨hexited, hprocs⟩ | ⟨hn, hending, hcycled, hdown⟩
  · have hsame : serviceCycle turns w = w := by simp [serviceCycle, hexited]
    rw [hsame]
    exact .inl ⟨hexited, hprocs⟩
  rcases hending.cycle_cases hp with ⟨hgoes, hstill⟩ | hexit
  swap
  · exact .inl hexit
  have hcoop := hc hgoes
  obtain ⟨hcycled', -⟩ := hending.sane.cycled hcoop
  refine .inr ⟨?_, ⟨hcycled'.sane, hstill⟩, fun _ => hcycled',
    fun h1 => ((hcycled (by omega)).stopped hcoop).1⟩
  by_contra hthird
  have hlast := hending.last (hcycled (by omega)).synced (hdown (by omega)) turns
  rw [hgoes] at hlast
  cases hlast

/-- With no restart pending, the order to stop everything ends the thread by its third cycle,
and no process that the supervisor has started or adopted is left. -/
theorem stop_all_ends {w : World} (hw : Supervised w) (hlive : w.serviceExited = false)
    (hpending : ∀ m ∈ w.sup.loaded, ¬ PendingRestart m) (as : List Action)
    (has : Run.Along step Unhindered (Run.run step w stopAllTermination) as)
    (hcycles : 3 ≤ as.countP Action.isCycle) :
    let w' := Run.run step (Run.run step w stopAllTermination) as
    w'.serviceExited = true ∧ w'.kernel.procs = [] := by
  have hstopped : Supervised (Run.run step w stopAllTermination) := by
    obtain ⟨alive, rootNode, bs, hload, rfl⟩ := hw
    refine ⟨alive, rootNode, bs ++ stopAllTermination, hload, ?_⟩
    rw [Run.run, Run.run, Run.run, List.foldl_append]
  have hslots : ∀ m ∈ (Run.run step w stopAllTermination).sup.loaded, Stopped m := by
    rw [run_stopAllTermination hlive]
    intro m' hm'
    obtain ⟨m, hm, rfl⟩ := List.mem_map.mp hm'
    exact ⟨rfl, hpending m hm⟩
  have hflags : StillClosing (Run.run step w stopAllTermination) := by
    refine ⟨hslots, ?_, ?_⟩ <;> rw [run_stopAllTermination hlive]
    · exact ⟨rfl, rfl⟩
    · exact hlive
  generalize Run.run step w stopAllTermination = t at has hstopped hslots hflags ⊢
  have hsane := hstopped.sane fun m hm _ => (hslots m hm).disabled
  have hend := @Run.stage_of_rounds _ _ step Unhindered Action.isCycle ClosingStage
    (fun n t a ht ha hcycle => by
      cases a with
      | cycle => cases hcycle
      | move mv => exact ht.move mv
      | _ => exact absurd ha id)
    (fun n t a ht ha hcycle => by
      cases a with
      | cycle turns => exact ht.cycle ha.1 ha.2
      | _ => cases hcycle)
    t as 0 (.inr ⟨by omega, ⟨hsane, hflags⟩, fun hn => absurd hn (by omega),
      fun hn => absurd hn (by omega)⟩) has
  rcases hend with hend | ⟨hn, -⟩
  · exact hend
  · omega

/-- The running module gets SIGINT in the first cycle, ends, and the third cycle is the last. -/
theorem stop_all_ends_running :
    let w' := Run.run step (Run.run step oneRunning stopAllTermination)
      [.cycle [], .move (.exits 100), .cycle [], .cycle []]
    w'.serviceExited = true ∧ w'.kernel.procs = [] := by
  have hsettled : ∀ m ∈ oneRunning.sup.loaded, m.initModule = false := by decide +kernel
  have hpermitted : ∀ {k : Kernel}, (∀ p ∈ k.procs, p.foreign = false) →
      Permitted { k with turns := [] } := fun h => ⟨h, fun t ht => by cases ht⟩
  refine @stop_all_ends oneRunning ⟨[], _, _, .template (by decide), rfl⟩ (by decide +kernel)
    (fun m hm hp => ?_) _ ⟨⟨?_, fun _ => ?_⟩, trivial, ⟨?_, fun _ => ?_⟩, ⟨?_, ?_⟩, trivial⟩
    (by decide)
  · rw [PendingRestart, hsettled m hm] at hp
    exact absurd hp.1 (by simp)
  · exact hpermitted (by decide +kernel)
  · exact .calm (by decide) (by decide +kernel)
  · exact hpermitted (by decide +kernel)
  · exact .calm (by decide) (by decide +kernel)
  · exact hpermitted (by decide +kernel)
  · exact fun hgoes => absurd hgoes (by decide +kernel)

end NemeaSupervisor
