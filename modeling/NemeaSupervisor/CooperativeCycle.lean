import NemeaSupervisor.Cooperation

/-!
# What a cooperative cycle brings about

The first one sends the signals and leaves live processes only to modules that are to
run. The second waits for what was killed, frees modules and completes restarts, at
least half of the removals and, once none are left, all restarts. One without marks
starts whatever is to run.
-/

namespace NemeaSupervisor

open Loop

/-! ## The passes that wait for children and look at the processes -/

section passes

variable {doomed : Int → Prop} {w : World}

/-- A pass over the processes shows or removes them as a turn leaves them. -/
theorem cleanAfterChild_procs (x : Nat) (w : World) {p : Process}
    (hp : p ∈ (cleanAfterChild x w).kernel.procs) :
    p ∈ w.kernel.procs ∨ p ∈ w.kernel.turn.2.procs := by
  unfold cleanAfterChild at hp
  cases hx : w.sup.loaded[x]? with
  | none => exact .inl (by simpa [hx] using hp)
  | some m =>
    simp only [hx] at hp
    split_ifs at hp
    · right
      unfold Kernel.waitpid at hp
      simp only [] at hp
      cases hf : w.kernel.turn.2.procs.find? fun p => p.pid == m.modulePid with
      | none => simpa [hf, World.setModule] using hp
      | some q =>
        simp only [hf] at hp
        split_ifs at hp
        · exact hp
        · exact hp
        · exact List.mem_of_mem_filter hp
    · exact .inl hp

/-- After a slot has been treated its process is no zombie of the supervisor. -/
theorem cleanAfterChild_waited (h : ParentInv w) {x : Nat} {m : RunningModule}
    (hm : (cleanAfterChild x w).sup.loaded[x]? = some m) {p : Process}
    (hp : p ∈ (cleanAfterChild x w).kernel.procs) (hpid : p.pid = m.modulePid)
    (hchild : p.child = true) : p.zombie = false := by
  have hturn := h.turn
  unfold cleanAfterChild at hm hp
  cases hx : w.sup.loaded[x]? with
  | none => simp [hx] at hm
  | some m0 =>
    simp only [hx] at hm hp
    split_ifs at hm hp with hmine
    · simp only [Kernel.waitpid] at hm hp
      cases hf : w.kernel.turn.2.procs.find? fun p => p.pid == m0.modulePid with
      | none =>
        simp only [hf] at hm hp
        have hm := setModule_slot hx hm
        exact absurd (List.find?_eq_none.mp hf p hp) (by simp [hpid, hm])
      | some q =>
        have hfound : ∀ {p : Process}, p ∈ w.kernel.turn.2.procs → p.pid = m0.modulePid → p = q := by
          intro p hp hpid
          have := process_of_mem hturn.unique hp
          rw [hpid] at this
          exact Option.some.inj (this.symm.trans hf)
        simp only [hf] at hm hp
        split_ifs at hm hp with hc hz
        · have hm := setModule_slot hx hm
          have := hfound hp (hpid.trans (by rw [hm]))
          rw [this, hc] at hchild
          cases hchild
        · rw [hx, Option.some.injEq] at hm
          rw [hfound hp (hm ▸ hpid)]
          exact hz
        · rw [hx, Option.some.injEq] at hm
          have := (List.mem_filter.mp hp).2
          simp [hpid, hm] at this
    · rw [hx, Option.some.injEq] at hm
      subst hm
      have hpos := h.processes.positive p hp
      exact absurd ⟨by omega, h.children m0 (List.mem_of_getElem? hx) p hp hpid hchild⟩ hmine

theorem serviceCleanAfterChildren_noZombies (h : Steady doomed w) :
    NoZombies (serviceCleanAfterChildren w) :=
  (cleanAfterChild_oneSlot.pass (I := Steady doomed)
    (P := fun t m => ¬ ToStop m (t.sup.profileOf m) → ∀ p ∈ t.kernel.procs,
      p.pid = m.modulePid → p.zombie = false)
    (fun x t ht => ht.steps (cleanAfterChild_steps x t))
    (fun x t m ht hm hrun p hp hpid => by
      have hafter := ht.steps (cleanAfterChild_steps x t)
      by_contra hzombie
      rcases hafter.reaped p hp (by simpa using hzombie) with hchild | hdoomed
      · exact hzombie (cleanAfterChild_waited ht.parents hm hp hpid hchild)
      · refine hafter.safe m (List.mem_of_getElem? hm) hrun ?_ (hpid ▸ hdoomed)
        exact hpid ▸ hafter.parents.processes.positive p hp)
    (fun x t ht m hm hold hrun p hp hpid => by
      rw [cleanAfterChild_oneSlot.profileOf] at hrun
      rcases cleanAfterChild_procs x t hp with hp | hp
      · exact hold hrun p hp hpid
      · obtain ⟨q, hq, hqpid, hsame⟩ := turn_safe ht hm hrun hp hpid
        by_contra hzombie
        have := hold hrun q hq hqpid
        rw [hsame (by simpa using hzombie)] at this
        cases this) h).2

theorem serviceCleanAfterChildren_gone (h : Steady doomed w) (hw : Dying w) :
    Gone (serviceCleanAfterChildren w) :=
  (cleanAfterChild_oneSlot.pass (I := fun t => Steady doomed t ∧ Dying t)
    (P := fun t m => ToStop m (t.sup.profileOf m) → ∀ p ∈ t.kernel.procs, p.pid ≠ m.modulePid)
    (fun x t ht => lastsIn_dying.steps ht.1 ht.2 (cleanAfterChild_steps x t))
    (fun x t m ht hm hstop p hp hpid => by
      obtain ⟨-, hdying⟩ := lastsIn_dying.steps ht.1 ht.2 (cleanAfterChild_steps x t)
      obtain ⟨hzombie, hchild⟩ := hdying m (List.mem_of_getElem? hm) hstop p hp hpid
      rw [cleanAfterChild_waited ht.1.parents hm hp hpid hchild] at hzombie
      cases hzombie)
    (fun x t ht m hm hold hstop p hp hpid => by
      rw [cleanAfterChild_oneSlot.profileOf] at hstop
      rcases cleanAfterChild_procs x t hp with hp | hp
      · exact hold hstop p hp hpid
      · obtain ⟨q, hq, haged⟩ := turn_from ht.1.ends hp
        exact hold hstop q hq (haged.pid.symm.trans hpid)) ⟨h, hw⟩).2

theorem checkSlot_procs (x : Nat) (w : World) : (checkSlot x w).kernel.procs = w.kernel.procs ∨
    (checkSlot x w).kernel.procs = w.kernel.turn.2.procs := by
  by_cases hidle : ∀ m ∈ w.sup.loaded[x]?, m.modulePid ≤ 0
  · rw [checkSlot_idle hidle]
    exact .inl rfl
  obtain ⟨m, hx, hpid⟩ := running_of_not_idle hidle
  rw [checkSlot_found hx hpid]
  cases w.kernel.turn.2.process m.modulePid with
  | none => exact .inr (closeServiceSd_kernel w.kernel.turn.2 m).2.1
  | some p => exact .inr rfl

theorem serviceCheckModulesStatus_lives (h : Steady doomed w) (hw : NoZombies w) :
    Lives (serviceCheckModulesStatus w).1 := by
  rw [serviceCheckModulesStatus_eq]
  exact (checkSlot_oneSlot.pass (I := fun t => Steady doomed t ∧ NoZombies t)
    (P := fun t m => ¬ ToStop m (t.sup.profileOf m) → m.moduleStatus = true → Live t m)
    (fun x t ht => lastsIn_noZombies.steps ht.1 ht.2 (checkSlot_steps x t))
    (fun x t m' ht hm' hrun hstatus => by
      obtain ⟨hafter, hzombies⟩ := lastsIn_noZombies.steps ht.1 ht.2 (checkSlot_steps x t)
      have hmem := List.mem_of_getElem? hm'
      have hpos := hafter.signals.status m' hmem hstatus
      refine ⟨hpos, ?_⟩
      rcases checkSlot_cases hm' with ⟨hidle, -⟩ | ⟨hprocs, m, -, -, ⟨-, hdown, -⟩ | ⟨p, hp, rfl⟩⟩
      · omega
      · rw [hstatus] at hdown
        cases hdown
      · obtain ⟨hp, hpid⟩ := mem_of_process hp
        rw [← hprocs] at hp
        exact ⟨p, hp, hpid, hzombies _ hmem hrun p hp hpid⟩)
    (fun x t ht m hm hold hrun hstatus => by
      rw [checkSlot_oneSlot.profileOf] at hrun
      have hlive := hold hrun hstatus
      refine ⟨hlive.1, ?_⟩
      rcases checkSlot_procs x t with hprocs | hprocs <;> rw [hprocs]
      · exact hlive.2
      · exact turn_live ht.1 hm hrun hlive) ⟨h, hw⟩).2

theorem serviceCheckModulesStatus_allDown (h : Steady doomed w) (hw : Gone w) :
    AllDown (serviceCheckModulesStatus w).1 := by
  rw [serviceCheckModulesStatus_eq]
  exact (checkSlot_oneSlot.pass (I := fun t => Steady doomed t ∧ Gone t)
    (P := fun t m => ToStop m (t.sup.profileOf m) → m.moduleStatus = false)
    (fun x t ht => lastsIn_gone.steps ht.1 ht.2 (checkSlot_steps x t))
    (fun x t m' ht hm' hstop => by
      obtain ⟨hafter, hgone⟩ := lastsIn_gone.steps ht.1 ht.2 (checkSlot_steps x t)
      have hmem := List.mem_of_getElem? hm'
      rcases checkSlot_cases hm' with ⟨hidle, -⟩ | ⟨hprocs, m, -, -, ⟨-, hdown, -⟩ | ⟨p, hp, rfl⟩⟩
      · refine Bool.eq_false_iff.mpr fun hstatus => ?_
        have := hafter.signals.status m' hmem hstatus
        omega
      · exact hdown
      · obtain ⟨hp, hpid⟩ := mem_of_process hp
        rw [← hprocs] at hp
        exact absurd hpid (hgone _ hmem hstop p hp))
    (fun x t _ m _ hold hstop => hold (checkSlot_oneSlot.profileOf x t m ▸ hstop)) ⟨h, hw⟩).2

end passes

/-! ## The pass that starts modules -/

def Event.isStartCall : Event → Bool
  | .startCalled .. => true
  | _ => false

def Event.isStarted : Event → Bool
  | .started .. => true
  | _ => false

/-- The starts that no process has come from. -/
def failedStarts (trace : List Event) : Int :=
  trace.countP Event.isStartCall - trace.countP Event.isStarted

theorem failedStarts_filter (trace : List Event) :
    failedStarts (trace.filter Event.isStart) = failedStarts trace := by
  have hcall : trace.countP (fun e => e.isStartCall && e.isStart) = trace.countP Event.isStartCall :=
    List.countP_congr fun e _ => by cases e <;> simp [Event.isStartCall, Event.isStart]
  have hstarted : trace.countP (fun e => e.isStarted && e.isStart) = trace.countP Event.isStarted :=
    List.countP_congr fun e _ => by cases e <;> simp [Event.isStarted, Event.isStart]
  rw [failedStarts, failedStarts, List.countP_filter, List.countP_filter, hcall, hstarted]

/-- What the update makes of a module whose start does not fail. -/
inductive UpdateOutcome (s : Supervisor) (k : Kernel) (m : RunningModule) : RunningModule → Prop where
  | ticked (hup : ToRun m (s.profileOf m) → m.moduleStatus = true) :
    UpdateOutcome s k m (tickRestartTimer m)
  | disabled (henabled : m.moduleEnabled = true)
    (hcnt : (tickRestartTimer m).moduleRestartCnt = s.maxRestarts m) :
    UpdateOutcome s k m { tickRestartTimer m with moduleEnabled := false }
  | started {m' : RunningModule} (hconfig : m'.config = m.config)
    (hremove : m'.removeModule = m.removeModule) (henabled : m'.moduleEnabled = true)
    (hstatus : m'.moduleStatus = true) (hpid : m'.modulePid > 0)
    (hproc : ∃ p ∈ k.procs, p.pid = m'.modulePid ∧ p.zombie = false) : UpdateOutcome s k m m'

theorem tickRestartTimer_remove (m : RunningModule) :
    (tickRestartTimer m).removeModule = m.removeModule := by
  unfold tickRestartTimer
  split_ifs <;> rfl

theorem tickRestartTimer_profile (s : Supervisor) (m : RunningModule) :
    s.profileOf (tickRestartTimer m) = s.profileOf m :=
  profileOf_congr (tickRestartTimer_kept m).2.2.1

theorem updateModuleStatus_cases {x : Nat} {w : World} {m : RunningModule}
    (hx : w.sup.loaded[x]? = some m) :
    failedStarts (updateModuleStatus x w).kernel.trace = failedStarts w.kernel.trace + 1 ∨
      failedStarts (updateModuleStatus x w).kernel.trace = failedStarts w.kernel.trace ∧
        ∃ m', (updateModuleStatus x w).sup.loaded[x]? = some m' ∧
          UpdateOutcome w.sup (updateModuleStatus x w).kernel m m' := by
  have hx1 : (w.setModule x (tickRestartTimer m)).sup.loaded[x]? = some (tickRestartTimer m) :=
    setModule_get hx
  have hprofile : (w.setModule x (tickRestartTimer m)).sup.profileOf (tickRestartTimer m) =
      w.sup.profileOf m := tickRestartTimer_profile w.sup m
  obtain ⟨hstatus, henabled, -, -, -⟩ := tickRestartTimer_kept m
  unfold updateModuleStatus
  simp only [hx]
  split_ifs with hlimit hstart
  · refine .inr ⟨rfl, _, setModule_get hx1, .disabled (henabled ▸ hlimit.2.1) ?_⟩
    exact hlimit.2.2.2.trans (maxRestarts_congr (tickRestartTimer_config m) rfl)
  · unfold serviceStartModule
    simp only []
    generalize hk : (w.setModule x (tickRestartTimer m)).kernel.record _ = k
    have htrace : failedStarts k.trace = failedStarts w.kernel.trace + 1 := by
      rw [← hk]
      simp only [failedStarts, Kernel.record, World.setModule, List.countP_cons, Event.isStartCall,
        Event.isStarted]
      push_cast
      simp
      omega
    rcases fork_spec k _ (tickRestartTimer m).moduleName (tickRestartTimer m).launch with
      hf | ⟨pid, hpid, -, -, hf⟩ <;> rw [hf]
    · left
      change failedStarts k.turn.2.trace = _
      rw [turn_trace, htrace]
    · refine .inr ⟨?_, _, setModule_get (w := { w.setModule x (tickRestartTimer m) with
        kernel := _ }) hx1, .started ?_ (tickRestartTimer_remove m) hstart.2.2 rfl hpid.1
          ⟨_, List.mem_cons_self, rfl, rfl⟩⟩
      · change failedStarts (.started _ _ pid :: k.turn.2.trace) = _
        rw [turn_trace]
        simp only [failedStarts, List.countP_cons, Event.isStartCall, Event.isStarted] at htrace ⊢
        push_cast
        simp
        omega
      · exact tickRestartTimer_config m
  · refine .inr ⟨rfl, _, hx1, .ticked fun hrun => ?_⟩
    by_contra hdown
    refine hstart ⟨?_, by rw [hstatus]; simpa using hdown, henabled.trans hrun.1⟩
    rw [Supervisor.profileEnabled, hprofile]
    exact hrun.2

/-- A module that is to run is seen running after an update in which no start failed. -/
theorem UpdateOutcome.up {s : Supervisor} {k : Kernel} {m m' : RunningModule}
    (h : UpdateOutcome s k m m') (hrun : ToRun m' (s.profileOf m')) : m'.moduleStatus = true := by
  cases h with
  | ticked hup =>
    obtain ⟨hstatus, henabled, -⟩ := tickRestartTimer_kept m
    rw [tickRestartTimer_profile, ToRun, henabled] at hrun
    exact hstatus.trans (hup hrun)
  | disabled => cases hrun.1
  | started _ _ _ hstatus => exact hstatus

theorem updateModuleStatus_failed (x : Nat) (w : World) :
    failedStarts w.kernel.trace ≤ failedStarts (updateModuleStatus x w).kernel.trace := by
  cases hx : w.sup.loaded[x]? with
  | none => exact Int.le_of_eq (by rw [updateModuleStatus_absent hx])
  | some m =>
    rcases updateModuleStatus_cases hx with hfailed | ⟨hsame, -⟩
    · omega
    · exact Int.le_of_eq hsame.symm

theorem updateModuleStatus_oneSlot : OneSlot updateModuleStatus := by
  intro x w
  cases hx : w.sup.loaded[x]? with
  | none => exact .inl (by rw [updateModuleStatus_absent hx])
  | some m =>
    obtain ⟨m', es, k, -, -, heq⟩ := updateModuleStatus_spec hx
    refine .inr ⟨m, m', rfl, ?_⟩
    rw [heq]
    rfl

/-- If no start fails, everything that is to run is seen running after the pass. -/
theorem serviceUpdateModulesStatus_allUp {w : World}
    (h : failedStarts (serviceUpdateModulesStatus w).kernel.trace ≤ failedStarts w.kernel.trace) :
    AllUp (serviceUpdateModulesStatus w) := by
  have hpass := updateModuleStatus_oneSlot.pass
    (I := fun t => failedStarts w.kernel.trace ≤ failedStarts t.kernel.trace)
    (P := fun t m => failedStarts t.kernel.trace ≤ failedStarts w.kernel.trace →
      ToRun m (t.sup.profileOf m) → m.moduleStatus = true)
    (fun x t ht => Int.le_trans ht (updateModuleStatus_failed x t))
    (fun x t m' ht hm' hbound hrun => by
      rw [updateModuleStatus_oneSlot.profileOf] at hrun
      cases hx : t.sup.loaded[x]? with
      | none =>
        rw [updateModuleStatus_absent hx, hx] at hm'
        cases hm'
      | some m =>
        rcases updateModuleStatus_cases hx with hfailed | ⟨-, m1, hm1, hout⟩
        · omega
        · rw [hm1, Option.some.injEq] at hm'
          subst hm'
          exact hout.up hrun)
    (fun x t _ m _ hold hbound hrun => by
      rw [updateModuleStatus_oneSlot.profileOf] at hrun
      exact hold (Int.le_trans (updateModuleStatus_failed x t) hbound) hrun)
    (w := w) (Int.le_refl _)
  exact fun m hm => hpass.2 m hm h

/-- Only the pass that starts modules can fail to. -/
theorem Quietly.failedStarts {w w' : World} (h : Quietly w w') :
    failedStarts w'.kernel.trace = failedStarts w.kernel.trace := by
  induction h with
  | refl => rfl
  | tail _ hstep ih => rw [← failedStarts_filter, hstep.no_start, failedStarts_filter, ih]

/-! ## The cycle -/

/-- What can end in a cycle. -/
def Doomed (turns : List Turn) (pid : Int) : Prop := ∃ t ∈ turns, ∃ mv ∈ t.moves, mv.ends pid

/-- No module that is to run has this process. -/
def MayEnd (w : World) (pid : Int) : Prop :=
  ∀ m ∈ w.sup.loaded, m.modulePid = pid → ToStop m (w.sup.profileOf m)

/-- The world cooperates with a cycle. Signals are permitted; a process that has been killed is
dead by now; a dead process whose parent is not the supervisor is gone; only processes of
modules that have to stop end in the middle of the cycle; the starts succeed, and the thread
stays in its loop. -/
structure CooperativeCycle (w : World) (turns : List Turn) : Prop where
  permitted : Permitted { w.kernel with turns }
  killed : ∀ p ∈ w.kernel.procs, SigkillSince p.pid w.kernel.trace → p.zombie = true
  reaped : ∀ p ∈ w.kernel.procs, p.zombie = true → p.child = true
  spared : ∀ pid, Doomed turns pid → MayEnd w pid ∧ ∀ t ∈ turns, t.forkPid ≠ pid
  started : failedStarts (serviceCycle turns w).kernel.trace = failedStarts w.kernel.trace
  goesOn : (serviceCycle turns w).serviceExited = false

/-- What holds in every state of a supervisor, and that nothing enables a waiting module. -/
structure Sane (w : World) : Prop where
  signals : SignalInv w
  parents : ParentInv w
  marks : MarkInv w
  waiting : Waiting w

theorem Sane.steady {w : World} (h : Sane w) {turns : List Turn} (hc : CooperativeCycle w turns) :
    Steady (Doomed turns) { w with kernel := { w.kernel with turns } } where
  signals := h.signals.change (.outside (.script turns))
  parents := ⟨h.parents.processes.change (.outside (.script turns)), h.parents.unique,
    h.parents.children⟩
  marks := h.marks
  waiting := h.waiting
  permitted := hc.permitted
  ends := fun t ht mv hmv _ he => ⟨t, ht, mv, hmv, he⟩
  forks := fun t ht hdoomed => (hc.spared _ hdoomed).2 t ht rfl
  safe := fun m hm hrun _ hdoomed => hrun ((hc.spared _ hdoomed).1 m hm rfl)
  reaped := fun p hp hzombie => .inl (hc.reaped p hp hzombie)

theorem Steady.sane {doomed : Int → Prop} {w : World} (h : Steady doomed w) : Sane w :=
  ⟨h.signals, h.parents, h.marks, h.waiting⟩

section cycle

variable {doomed : Int → Prop} {w : World}

theorem beforeServing_lives (h : Steady doomed w) (hsync : Synced w) :
    NoZombies (beforeServing w) ∧ Lives (beforeServing w) := by
  have h1 := h.steps ((serviceUpdateModulesStatus_steps hsync).trans
    (serviceStopModulesSigint_steps _))
  unfold beforeServing
  generalize serviceStopModulesSigint (serviceUpdateModulesStatus w) = w1 at h1 ⊢
  have hclean := serviceCleanAfterChildren_noZombies h1
  have h2 := h1.steps (serviceCleanAfterChildren_steps w1)
  generalize serviceCleanAfterChildren w1 = w2 at h2 hclean ⊢
  have hlives := serviceCheckModulesStatus_lives h2 hclean
  obtain ⟨h3, hzombies⟩ := lastsIn_noZombies.steps h2 hclean (check_steps w2)
  generalize (serviceCheckModulesStatus w2).1 = w3 at h3 hlives hzombies ⊢
  exact (lastsIn_lives.steps h3 ⟨hzombies, hlives⟩ ((serviceStopModulesSigkill_steps w3).trans
    (serviceCleanAfterChildren_steps _))).2

theorem beforeServing_allDown (h : Steady doomed w) (hsync : Synced w) (hw : Dying w) :
    Gone (beforeServing w) ∧ AllDown (beforeServing w) := by
  obtain ⟨h1, hdying⟩ := lastsIn_dying.steps h hw ((serviceUpdateModulesStatus_steps hsync).trans
    (serviceStopModulesSigint_steps _))
  unfold beforeServing
  generalize serviceStopModulesSigint (serviceUpdateModulesStatus w) = w1 at h1 hdying ⊢
  have hclean := serviceCleanAfterChildren_gone h1 hdying
  have h2 := h1.steps (serviceCleanAfterChildren_steps w1)
  generalize serviceCleanAfterChildren w1 = w2 at h2 hclean ⊢
  have hdown := serviceCheckModulesStatus_allDown h2 hclean
  obtain ⟨h3, hgone⟩ := lastsIn_gone.steps h2 hclean (check_steps w2)
  generalize (serviceCheckModulesStatus w2).1 = w3 at h3 hgone hdown ⊢
  exact (lastsIn_allDown.steps h3 ⟨hgone, hdown⟩ ((serviceStopModulesSigkill_steps w3).trans
    (serviceCleanAfterChildren_steps _))).2

/-- Once nothing that is marked runs, the pass that serves modules carries out the marks: at
least half of the removals, and the restarts when there are no removals left. -/
theorem serveModules_halves (h : Steady doomed w) (hsync : Synced w) (hdown : AllDown w) :
    awaitingRemoval (serveModules w).sup ≤ awaitingRemoval w.sup / 2 := by
  have hstart : RemovingFrom (awaitingRemoval w.sup) (stayingNames w.sup) w := by
    refine ⟨⟨h.signals, h.marks, fun m hm hremove => ?_⟩, Nat.le_refl _, rfl⟩
    exact hsync m hm (hdown m hm (.inl (h.waiting m hm (.inl hremove))))
  exact (hstart.serveModules hsync).bound

theorem serveModules_noMarks (h : Steady doomed w) (hdown : AllDown w)
    (hnone : awaitingRemoval w.sup = 0) : NoMarks (serveModules w) := by
  have hremove : ∀ m ∈ w.sup.loaded, m.removeModule = false := by
    simpa [awaitingRemoval] using hnone
  have hkept : ∀ m ∈ w.sup.loaded, ¬ ServiceState.Freed m := by
    intro m hm hfreed
    rw [ServiceState.Freed, hremove m hm] at hfreed
    cases hfreed.2.1
  intro m' hm'
  rw [serveModules_loaded, Sweep.thin_eq_map hkept] at hm'
  obtain ⟨m, hm, rfl⟩ := List.mem_map.mp hm'
  have hserved := (h.marks m hm).served
  have hwaits : m.initModule = true → m.moduleStatus = false := fun hinit =>
    hdown m hm (.inl (h.waiting m hm (.inr hinit)))
  unfold served
  split_ifs with hfresh hr hinit hstatus hconnected
  · rw [hremove m hm] at hr
    cases hr
  · exact ⟨hremove m hm, rfl⟩
  · exact absurd (hwaits hinit) hstatus
  · exact absurd (hwaits hinit) hstatus
  · exact ⟨hremove m hm, by simpa using hinit⟩
  · exact hserved (by simpa using hfresh)

end cycle

/-- The first check of a cooperative cycle, after which the thread stays in its loop. -/
structure FirstCheck (turns : List Turn) (w w1 : World) : Prop where
  steps : CycleSteps { w with kernel := { w.kernel with turns } } w1
  quiet : Quietly { w with kernel := { w.kernel with turns } } w1
  steady : Steady (Doomed turns) w1
  synced : Synced w1
  cycle : serviceCycle turns w = serviceCycleBody w1

theorem Sane.firstCheck {w : World} (h : Sane w) {turns : List Turn}
    (hc : CooperativeCycle w turns) : ∃ w1, FirstCheck turns w w1 := by
  have hsteps := check_steps { w with kernel := { w.kernel with turns } }
  obtain ⟨hquiet, hsync⟩ := serviceCheckModulesStatus_quietly
    { w with kernel := { w.kernel with turns } }
  exact ⟨_, hsteps, hquiet, (h.steady hc).steps hsteps, hsync, serviceCycle_goes_on hc.goesOn⟩

/-- The pass that starts modules is the one that the success of the starts is about. -/
theorem FirstCheck.no_failure {turns : List Turn} {w w1 : World} (h : FirstCheck turns w w1)
    (hc : CooperativeCycle w turns) :
    failedStarts (serviceUpdateModulesStatus w1).kernel.trace = failedStarts w1.kernel.trace := by
  have hend := hc.started
  rw [h.cycle] at hend
  exact (serviceCycleBody_quietly h.synced).failedStarts.symm.trans
    (hend.trans h.quiet.failedStarts.symm)

/-- What follows the starts in a cycle. -/
theorem afterStarts_steps {w : World} (hw : Synced w) :
    CycleSteps (serviceUpdateModulesStatus w) (serviceCycleBody w) := by
  have hbefore := afterUpdate_steps w
  have hsync := hw.reaches (beforeServing_steps hw).reaches
  have hafter := afterServing_steps w
  generalize serviceCycleBody w = w3 at hafter ⊢
  generalize beforeServing w = w2 at hbefore hsync hafter
  exact (hbefore.trans (serveModules_steps hsync)).trans hafter

/-- What every cooperative cycle brings about. -/
structure Cycled (w : World) : Prop where
  sane : Sane w
  synced : Synced w
  killed : Stopping KilledSince w
  lives : NoZombies w ∧ Lives w

theorem Sane.cycled {w : World} (h : Sane w) {turns : List Turn} (hc : CooperativeCycle w turns) :
    Cycled (serviceCycle turns w) ∧
      awaitingRemoval (serviceCycle turns w).sup ≤ awaitingRemoval w.sup := by
  obtain ⟨-, -, hkilled⟩ := serviceCycle_killed h.signals hc.permitted hc.goesOn
  obtain ⟨w1, hcheck, -, h1, hsync, heq⟩ := h.firstCheck hc
  rw [heq] at hkilled ⊢
  have hbefore := beforeServing_steps hsync
  have hlives := beforeServing_lives h1 hsync
  have hrest := afterServing_steps w1
  generalize serviceCycleBody w1 = w3 at hkilled hrest ⊢
  generalize beforeServing w1 = w2 at hbefore hlives hrest
  have hafter : CycleSteps w2 w3 := (serveModules_steps (hsync.reaches hbefore.reaches)).trans hrest
  have hall : CycleSteps w1 w3 := hbefore.trans hafter
  obtain ⟨h3, hlives⟩ := lastsIn_lives.steps (h1.steps hbefore) hlives hafter
  have hbound := awaitingRemoval_steps (hcheck.trans hall)
  exact ⟨⟨h3.sane, hsync.reaches hall.reaches, hkilled, hlives⟩, hbound⟩

theorem Cycled.dying {w : World} (h : Cycled w) {turns : List Turn} (hc : CooperativeCycle w turns) :
    Dying w := by
  intro m hm hstop p hp hpid
  have hpos := h.sane.parents.processes.positive p hp
  have hstatus : m.moduleStatus = true := by
    by_contra hdown
    have := h.synced m hm (by simpa using hdown)
    omega
  have hzombie := hc.killed p hp (hpid ▸ h.killed m hm hstatus hstop)
  exact ⟨hzombie, hc.reaped p hp hzombie⟩

/-- The second cycle finds everything dead that has to stop. -/
theorem Cycled.stopped {w : World} (h : Cycled w) {turns : List Turn}
    (hc : CooperativeCycle w turns) : AllDown (serviceCycle turns w) ∧
      awaitingRemoval (serviceCycle turns w).sup ≤ awaitingRemoval w.sup / 2 ∧
      (awaitingRemoval w.sup = 0 → NoMarks (serviceCycle turns w)) := by
  obtain ⟨w1, hcheck, -, h1, hsync, heq⟩ := h.sane.firstCheck hc
  have hdying : Dying w1 := (lastsIn_dying.steps (h.sane.steady hc) (h.dying hc) hcheck).2
  rw [heq]
  have hbefore := beforeServing_steps hsync
  have hdown := beforeServing_allDown h1 hsync hdying
  have hbound := awaitingRemoval_steps (hcheck.trans hbefore)
  change _ ≤ awaitingRemoval w.sup at hbound
  have hafter := afterServing_steps w1
  have h2 := h1.steps hbefore
  have hsync2 := hsync.reaches hbefore.reaches
  generalize serviceCycleBody w1 = w3 at hafter ⊢
  generalize beforeServing w1 = w2 at hbefore hdown hbound hafter h2 hsync2
  have hserve := serveModules_steps hsync2
  have hhalf := serveModules_halves h2 hsync2 hdown.2
  refine ⟨(lastsIn_allDown.steps h2 hdown (hserve.trans hafter)).2.2, ?_, fun hnone => ?_⟩
  · have := awaitingRemoval_steps hafter
    omega
  · have hmarks := serveModules_noMarks h2 hdown.2 (by omega)
    exact (lastsIn_noMarks.steps (h2.steps hserve) hmarks hafter).2

/-- A cycle without marks starts what is to run. -/
theorem Cycled.started {w : World} (h : Cycled w) {turns : List Turn}
    (hc : CooperativeCycle w turns) (hmarks : NoMarks w) : Up (serviceCycle turns w) := by
  obtain ⟨w1, hfirst⟩ := h.sane.firstCheck hc
  obtain ⟨-, hlives⟩ := lastsIn_lives.steps (h.sane.steady hc) h.lives hfirst.steps
  obtain ⟨-, hmarks⟩ := lastsIn_noMarks.steps (h.sane.steady hc) hmarks hfirst.steps
  have hup := serviceUpdateModulesStatus_allUp (Int.le_of_eq (hfirst.no_failure hc))
  have hupdate := serviceUpdateModulesStatus_steps hfirst.synced
  obtain ⟨h2, hlives2⟩ := lastsIn_lives.steps hfirst.steady hlives hupdate
  obtain ⟨-, hmarks2⟩ := lastsIn_noMarks.steps hfirst.steady hmarks hupdate
  rw [hfirst.cycle]
  exact (lastsIn_up.steps h2 ⟨hlives2, hmarks2, hup⟩ (afterStarts_steps hfirst.synced)).2

end NemeaSupervisor
