import NemeaSupervisor.Processes

/-!
# Stopping all modules

After the termination has disabled all modules and set its flags, only the
service thread and the processes go on. The service thread still carries out
restarts that were pending, so the modules stay stopped in every run that starts
without a pending restart, or without a process that would keep the thread going.
-/

namespace NemeaSupervisor

/-- A restart that the service thread still has to complete. -/
def PendingRestart (m : RunningModule) : Prop := m.initModule = true ∧ m.removeModule = false

/-- `supervisor_termination` up to the point where it waits for the service thread. -/
def stopAllTermination : List Action :=
  [.stopConfiguration, .setStopAllModules true, .abortServiceThread]

/-- The steps that are left then. -/
def Action.outlivesStop : Action → Prop
  | .cycle _ => True
  | .move _ => True
  | _ => False

/-- The starts so far. -/
def starts (w : World) : List Event := w.kernel.trace.filter Event.isStart

/-- A stopped module stays so as long as no restart of it is pending. -/
structure Stopped (m : RunningModule) : Prop where
  disabled : m.moduleEnabled = false
  settled : ¬ PendingRestart m

structure StoppedInv (before : List Event) (w : World) : Prop where
  slots : ∀ m ∈ w.sup.loaded, Stopped m
  starts : starts w = before

theorem Startable.not_stopped {s : Supervisor} {m : RunningModule} (h : Startable s m) :
    ¬ m.moduleEnabled = false := by
  rw [h.enabled]
  simp

theorem SlotChange.stopped {s : Supervisor} {k k' : Kernel} {m m' : RunningModule}
    (h : SlotChange s k m m' k') (hm : Stopped m) : Stopped m' := by
  cases h with
  | startCalled h | startFailed h | started h =>
    exact absurd hm.disabled h.not_stopped
  | reenabled hremove hinit => exact absurd ⟨hinit, hremove⟩ hm.settled
  | tick =>
    unfold tickRestartTimer
    split_ifs <;> exact ⟨hm.disabled, hm.settled⟩
  | limit => exact ⟨rfl, hm.settled⟩
  | _ => exact ⟨hm.disabled, hm.settled⟩

/-- A service step on a stopped module starts nothing. -/
theorem SlotChange.no_start {s : Supervisor} {k k' : Kernel} {m m' : RunningModule}
    (h : SlotChange s k m m' k') (hm : Stopped m) :
    k'.trace.filter Event.isStart = k.trace.filter Event.isStart := by
  cases h with
  | startCalled h | startFailed h | started h =>
    exact absurd hm.disabled h.not_stopped
  | _ => rfl

theorem Outside.no_start {k k' : Kernel} (h : Outside k k') :
    k'.trace.filter Event.isStart = k.trace.filter Event.isStart := by
  rcases h.trace with he | ⟨sd, he⟩ | ⟨sd, he⟩ <;> rw [he] <;> rfl

theorem StoppedInv.change {before : List Event} {w w' : World} (h : StoppedInv before w)
    (hc : Change w w') : StoppedInv before w' := by
  cases hc with
  | outside ho => exact ⟨h.slots, ho.no_start.trans h.starts⟩
  | @slot x m m' k hx hs =>
    have hm := h.slots m (List.mem_of_getElem? hx)
    refine ⟨fun m1 hm1 => ?_, (hs.no_start hm).trans h.starts⟩
    rcases mem_setModule hm1 with rfl | hm1
    · exact hs.stopped hm
    · exact h.slots m1 hm1
  | freed => exact ⟨fun m hm => h.slots m (mem_freed hm), h.starts⟩
  | exited => exact ⟨h.slots, h.starts⟩

theorem StoppedInv.step {before : List Event} {w : World} {a : Action} (h : StoppedInv before w)
    (ha : a.outlivesStop) : StoppedInv before (step w a) := by
  cases a with
  | cycle turns =>
    exact Loop.reaches_invariant (fun _ _ h hc => h.change hc) (serviceCycle_reaches turns w) h
  | move mv => exact h.change (.outside (.move mv))
  | _ => exact absurd ha id

/-! ## Without processes the service thread ends at once -/

/-- No module has a process. -/
def NoProcess (w : World) : Prop :=
  ∀ m ∈ w.sup.loaded, m.modulePid > 0 → w.kernel.hasProcess m.modulePid = false

structure Drained (before : List Event) (w : World) : Prop where
  disabled : ∀ m ∈ w.sup.loaded, m.moduleEnabled = false
  starts : starts w = before
  processes : NoProcess w
  ending : w.sup.serviceThreadContinue = false

theorem Outside.hasProcess {k k' : Kernel} (h : Outside k k') {pid : Int}
    (hk : k.hasProcess pid = false) : k'.hasProcess pid = false := by
  rw [Kernel.hasProcess, List.any_eq_false] at hk ⊢
  intro p hp
  obtain ⟨q, hq, hsame⟩ := h.procs hp
  rw [hsame.pid]
  exact hk q hq

theorem Drained.outside {before : List Event} {w : World} {k : Kernel} (h : Drained before w)
    (ho : Relation.ReflTransGen Outside w.kernel k) : Drained before { w with kernel := k } := by
  induction ho with
  | refl => exact h
  | tail _ hstep ih =>
    exact ⟨ih.disabled, hstep.no_start.trans ih.starts,
      fun m hm hpid => hstep.hasProcess (ih.processes m hm hpid), ih.ending⟩

theorem Drained.setModule {before : List Event} {w : World} {x : Nat} {m m' : RunningModule}
    (h : Drained before w) (hx : w.sup.loaded[x]? = some m)
    (henabled : m'.moduleEnabled = m.moduleEnabled)
    (hpid : m'.modulePid = m.modulePid ∨ m'.modulePid = 0) : Drained before (w.setModule x m') := by
  have hm := List.mem_of_getElem? hx
  refine ⟨fun m1 hm1 => ?_, h.starts, fun m1 hm1 hpos => ?_, h.ending⟩
  · rcases mem_setModule hm1 with rfl | hm1
    · rw [henabled]
      exact h.disabled m hm
    · exact h.disabled m1 hm1
  · rcases mem_setModule hm1 with rfl | hm1
    · rcases hpid with hpid | hpid
      · have := h.processes m hm (by omega)
        rwa [hpid]
      · omega
    · exact h.processes m1 hm1 hpos

/-- A drained check finds no process. -/
theorem checkModuleStatus_drained {before : List Event} {w : World} (h : Drained before w) (x : Nat) :
    ∃ w', checkModuleStatus x (w, 0) = (w', 0) ∧ Drained before w' := by
  unfold checkModuleStatus
  simp only []
  cases hx : w.sup.loaded[x]? with
  | none => exact ⟨w, rfl, h⟩
  | some m =>
    by_cases hpid : m.modulePid > 0
    · simp only [hpid, if_true]
      have hturn : Drained before { w with kernel := w.kernel.turn.2 } := h.outside (turn_outside _)
      obtain ⟨r, hr, hgone⟩ := kill0_spec w.kernel m.modulePid
      have hesrch : r = .esrch := hgone.mpr (hturn.processes m (List.mem_of_getElem? hx) hpid)
      subst hesrch
      obtain ⟨hclose, -, hm⟩ := closeServiceSd_kernel w.kernel.turn.2 m
      rw [hr]
      simp only [hm]
      exact ⟨_, rfl, (hturn.outside hclose).setModule hx rfl (.inr rfl)⟩
    · simp only [hpid, if_false]
      exact ⟨w, rfl, h⟩

theorem serviceCheckModulesStatus_drained {before : List Event} {w : World} (h : Drained before w) :
    ∃ w', serviceCheckModulesStatus w = (w', 0) ∧ Drained before w' := by
  have hloop : Drained before (serviceCheckModulesStatus w).1 ∧
      (serviceCheckModulesStatus w).2 = 0 := by
    refine Loop.forRange_invariant (s := (w, 0))
      (fun _ (st : World × Nat) => Drained before st.1 ∧ st.2 = 0) ⟨h, rfl⟩ ?_
    rintro x ⟨t, n⟩ - ⟨ht, rfl⟩
    obtain ⟨w', heq, hw'⟩ := checkModuleStatus_drained ht x
    rw [heq]
    exact ⟨hw', rfl⟩
  exact ⟨_, Prod.ext rfl hloop.2, hloop.1⟩

theorem disconnectModule_drained {before : List Event} {w : World} (h : Drained before w) (x : Nat) :
    Drained before (disconnectModule x w) := by
  unfold disconnectModule
  cases hx : w.sup.loaded[x]? with
  | none => exact h
  | some m =>
    simp only [serviceDisconnectFromModule]
    split_ifs
    · obtain ⟨hclose, -, hm⟩ := closeServiceSd_kernel w.kernel m
      simp only [hm]
      exact (h.outside hclose).setModule hx rfl (.inl rfl)
    · exact h.setModule hx rfl (.inl rfl)

/-- The service thread of a drained state leaves its loop. -/
theorem serviceCycle_drained {before : List Event} {w : World} (h : Drained before w)
    (hlive : w.serviceExited = false) (turns : List Turn) :
    Drained before (serviceCycle turns w) ∧ (serviceCycle turns w).serviceExited = true := by
  have hscript : Drained before { w with kernel := { w.kernel with turns } } :=
    h.outside (.single (.script turns))
  obtain ⟨w', hcheck, hw'⟩ := serviceCheckModulesStatus_drained hscript
  have hloop : Drained before (Loop.forRange w'.sup.loadedModulesCnt disconnectModule w') :=
    Loop.forRange_invariant (fun _ => Drained before) hw'
      fun x t _ ht => disconnectModule_drained ht x
  have heq : serviceCycle turns w = serviceThreadExit w' := by
    rw [serviceCycle, if_neg (by rw [hlive]; simp), hcheck]
    exact if_pos ⟨hw'.ending, .inr rfl⟩
  rw [heq]
  exact ⟨⟨hloop.disabled, hloop.starts, hloop.processes, hloop.ending⟩, rfl⟩

theorem Drained.step {before : List Event} {w : World} {a : Action} (h : Drained before w)
    (ha : a.outlivesStop) : Drained before (step w a) := by
  cases a with
  | cycle turns =>
    cases hlive : w.serviceExited with
    | false => exact (serviceCycle_drained h hlive turns).1
    | true =>
      have : NemeaSupervisor.step w (.cycle turns) = w := by
        simp [NemeaSupervisor.step, serviceCycle, hlive]
      rw [this]
      exact h
  | move mv => exact h.outside (.single (.move mv))
  | _ => exact absurd ha id

/-! ## The whole termination -/

/-- No restart is pending, or no process is left that keeps the service thread going. -/
def Stoppable (w : World) : Prop := (∀ m ∈ w.sup.loaded, ¬ PendingRestart m) ∨ NoProcess w

theorem run_stopAllTermination {w : World} (hlive : w.serviceExited = false) :
    Run.run step w stopAllTermination =
      { w with sup := { interactiveStopConfiguration w.sup with
          serviceThreadContinue := false
          serviceStopAllModules := true } } := by
  simp [stopAllTermination, step, World.locked, hlive]

/-- After the termination of a stoppable state has begun, every module stays
disabled and none is started. -/
theorem stop_all_stays_stopped {w : World} (hlive : w.serviceExited = false) (hw : Stoppable w)
    (as : List Action) (has : ∀ a ∈ as, a.outlivesStop) :
    let w' := Run.run step (Run.run step w stopAllTermination) as
    (∀ m ∈ w'.sup.loaded, m.moduleEnabled = false) ∧ starts w' = starts w := by
  rw [run_stopAllTermination hlive]
  have hslots : ∀ m' ∈ (interactiveStopConfiguration w.sup).loaded, ∃ m ∈ w.sup.loaded,
      m' = { m with moduleEnabled := false } := by
    intro m' hm'
    obtain ⟨m, hm, rfl⟩ := List.mem_map.mp hm'
    exact ⟨m, hm, rfl⟩
  have halong := fun w0 => Run.along_of_forall step has w0
  rcases hw with hpending | hprocess
  · have hbegin : StoppedInv (starts w) { w with sup :=
        { interactiveStopConfiguration w.sup with
          serviceThreadContinue := false, serviceStopAllModules := true } } := by
      refine ⟨fun m' hm' => ?_, rfl⟩
      obtain ⟨m, hm, rfl⟩ := hslots m' hm'
      exact ⟨rfl, hpending m hm⟩
    have h := Run.along_invariant (fun w a h ha => h.step ha) hbegin (halong _)
    exact ⟨fun m hm => (h.slots m hm).disabled, h.starts⟩
  · have hbegin : Drained (starts w) { w with sup :=
        { interactiveStopConfiguration w.sup with
          serviceThreadContinue := false, serviceStopAllModules := true } } := by
      refine ⟨fun m' hm' => ?_, rfl, fun m' hm' => ?_, rfl⟩
      · obtain ⟨m, -, rfl⟩ := hslots m' hm'
        rfl
      · obtain ⟨m, hm, rfl⟩ := hslots m' hm'
        exact hprocess m hm
    have h := Run.along_invariant (fun w a h ha => h.step ha) hbegin (halong _)
    exact ⟨h.disabled, h.starts⟩

/-- One module that the first cycle has started. -/
def oneRunning : World :=
  Run.run step (boot [] (some (profileDocument [moduleElement "m" "/bin/m" "true" []])))
    [.cycle [{ Turn.idle with forkPid := 100 }]]

theorem stop_all_stays_stopped_running :
    let w' := Run.run step (Run.run step oneRunning stopAllTermination) [.cycle [], .cycle []]
    (∀ m ∈ w'.sup.loaded, m.moduleEnabled = false) ∧ starts w' = starts oneRunning := by
  have hsettled : ∀ m ∈ oneRunning.sup.loaded, m.initModule = false := by decide
  refine stop_all_stays_stopped (w := oneRunning) (by decide) (.inl fun m hm hp => ?_)
    [.cycle [], .cycle []] (by simp [Action.outlivesStop])
  rw [PendingRestart, hsettled m hm] at hp
  exact absurd hp.1 (by simp)

/-- A restart was ordered right before the termination; the process ends in the
middle of the next cycle, which then enables the module again. -/
theorem not_stop_all_stays_stopped :
    ¬ ∀ w, Reachable w → w.serviceExited = false → ∀ as : List Action,
      (∀ a ∈ as, a.outlivesStop) →
      let w' := Run.run step (Run.run step w stopAllTermination) as
      (∀ m ∈ w'.sup.loaded, m.moduleEnabled = false) ∧ starts w' = starts w := by
  intro h
  have hw := (h (step oneRunning (.restartModule (some [0])))
    ⟨[], some (profileDocument [moduleElement "m" "/bin/m" "true" []]),
      [.cycle [{ Turn.idle with forkPid := 100 }], .restartModule (some [0])], rfl⟩
    (by decide) [.cycle [.idle, { Turn.idle with moves := [.exits 100] }]]
    (by simp [Action.outlivesStop])).1
  revert hw
  decide

end NemeaSupervisor
