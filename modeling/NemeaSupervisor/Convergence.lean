import NemeaSupervisor.CooperativeCycle

/-!
# Convergence to the configuration

In every run of cycles in a cooperative world the table reaches the state that the
configuration asks for, and stays there: the modules to be removed are gone, what is
meant to run has a live process and nothing else has one. The number of cycles is
logarithmic in the number of removals.
-/

namespace NemeaSupervisor

open Loop

/-! ## Modules that will run -/

/-- The module is kept, and it is enabled with restarts left or waits for its restart. -/
structure Destined (s : Supervisor) (m : RunningModule) : Prop where
  kept : m.removeModule = false
  profile : s.profileEnabled m = true
  meant : m.moduleEnabled = true ∧ m.moduleRestartCnt < s.maxRestarts m ∨ m.initModule = true

/-- The module is kept and runs. -/
structure Runs (w : World) (m : RunningModule) : Prop where
  kept : m.removeModule = false
  toRun : ToRun m (w.sup.profileOf m)
  status : m.moduleStatus = true
  live : Live w m

/-- The condition holds of the module with this name. -/
def Named (name : Option String) (P : RunningModule → Prop) (w : World) : Prop :=
  ∀ m ∈ w.sup.loaded, m.moduleName = name → P m

section destined

variable {name : Option String} {doomed : Int → Prop} {w w' : World}

theorem lastsIn_runs (name : Option String) :
    LastsIn doomed fun w => Named name (Runs w) w where
  turn := fun {w} h hw m hm hname => by
    have hruns := hw m hm hname
    exact ⟨hruns.kept, hruns.toRun, hruns.status, hruns.live.1,
      turn_live h hm (ToRun.not_toStop hruns.toRun) hruns.live⟩
  noted := fun hw m hm hname => ⟨(hw m hm hname).kept, (hw m hm hname).toRun, (hw m hm hname).status,
    (hw m hm hname).live⟩
  slot := fun {w x m m' k} h hw hx hc ho m1 hm1 hname => by
    have hm := List.mem_of_getElem? hx
    rcases mem_setModule hm1 with rfl | hm1
    · have hruns := hw m hm (hc.name.symm.trans hname)
      have hprofile : w.sup.profileOf m1 = w.sup.profileOf m := hc.profileOf
      obtain ⟨p, hp, hpid, halive⟩ := SlotChange.live h.parents ho hruns.live
      have hsame : m1.moduleEnabled = m.moduleEnabled → m1.moduleStatus = m.moduleStatus →
          m1.modulePid = m.modulePid → Runs (({ w with kernel := k } : World).setModule x m1) m1 :=
        fun henabled hstatus hmpid => ⟨hc.removeModule.trans hruns.kept,
          ⟨henabled.trans hruns.toRun.1, (congrArg _ hprofile).trans hruns.toRun.2⟩,
          hstatus.trans hruns.status, hmpid ▸ hruns.live.1, p, hp, hpid.trans hmpid.symm, halive⟩
      have hup : ∀ {P : Prop}, m.moduleStatus = false → P := fun hdown => by
        rw [hruns.status] at hdown
        cases hdown
      cases hc with
      | seen => exact hsame rfl hruns.status.symm rfl
      | gone _ hproc =>
        have := List.any_eq_false.mp hproc p hp
        simp [hpid] at this
      | startFailed hs | started hs => exact hup hs.status
      | limit hdown => exact hup hdown
      | tick =>
        obtain ⟨hstatus, henabled, -, hmpid, -⟩ := tickRestartTimer_kept m
        exact hsame henabled hstatus hmpid
      | reenabled => exact hsame hruns.toRun.1.symm rfl rfl
      | _ => exact hsame rfl rfl rfl
    · have hruns := hw m1 hm1 hname
      exact ⟨hruns.kept, hruns.toRun, hruns.status, hruns.live.1,
        SlotChange.live h.parents ho hruns.live⟩
  freed := fun {w x e} hw m hm hname => by
    have hruns := hw m (mem_freed hm) hname
    have htoRun := hruns.toRun
    rw [← profileOf_freed w.sup x m] at htoRun
    exact ⟨hruns.kept, htoRun, hruns.status, hruns.live⟩

theorem Destined.congr {s s' : Supervisor} {m m' : RunningModule} (h : Destined s m)
    (hprofiles : s'.profiles = s.profiles)
    (hlimit : s'.moduleRestartsNumConfig = s.moduleRestartsNumConfig) (hconfig : m'.config = m.config)
    (hremove : m'.removeModule = m.removeModule)
    (hmeant : m'.moduleEnabled = true ∧ m'.moduleRestartCnt < s.maxRestarts m ∨
      m'.initModule = true) : Destined s' m' := by
  have hprofile : s'.profileEnabled m' = s.profileEnabled m := by
    have hindex : m'.modulesProfile = m.modulesProfile :=
      field_of_config RunningModule.modulesProfile (fun _ => rfl) hconfig
    rw [Supervisor.profileEnabled, Supervisor.profileOf, hindex, hprofiles]
    rfl
  refine ⟨hremove.trans h.kept, hprofile.trans h.profile, ?_⟩
  rwa [maxRestarts_congr hconfig hlimit]

/-- A pending restart is completed or stays pending. -/
theorem SlotChange.pending {s : Supervisor} {k k' : Kernel} {m m' : RunningModule}
    (h : SlotChange s k m m' k') (hinit : m.initModule = true) :
    m'.initModule = true ∨ m'.moduleEnabled = true := by
  cases h with
  | reenabled => exact .inr rfl
  | tick =>
    unfold tickRestartTimer
    split_ifs <;> exact .inl hinit
  | _ => exact .inl hinit

/-- Outside of the pass that starts modules nothing is disabled that is destined to run. -/
theorem quiet_destined (h : TableInv w.sup ∧ Named name (Destined w.sup) w) (hq : Quiet w w') :
    TableInv w'.sup ∧ Named name (Destined w'.sup) w' := by
  refine ⟨h.1.change hq.change, ?_⟩
  obtain ⟨htable, hw⟩ := h
  cases hq with
  | outside => exact hw
  | exited => exact hw
  | @slot x m m' k hx hc hcalm =>
    intro m1 hm1 hname
    rcases mem_setModule hm1 with rfl | hm1
    · have hm := hw m (List.mem_of_getElem? hx) (hc.name.symm.trans hname)
      refine hm.congr rfl rfl hc.config hc.removeModule ?_
      cases hcalm with
      | kept hcnt _ henabled hinit => rw [hcnt, henabled, hinit]; exact hm.meant
      | stopped hdisabled _ _ henabled hinit =>
        refine .inr (hinit.trans (hm.meant.resolve_left fun hon => ?_))
        exact ToRun.not_toStop ⟨hon.1, hm.profile⟩ hdisabled.symm
      | reenabled hpending hcnt =>
        have hpositive := htable.maxRestarts_nonneg m
        exact (hc.pending hpending).symm.imp_left fun henabled => ⟨henabled, by omega⟩
    · have hm := hw m1 hm1 hname
      exact hm.congr rfl rfl rfl rfl hm.meant
  | @freed x m =>
    obtain ⟨hprofiles, hlimit⟩ := freed_profiles w.sup x
    intro m1 hm1 hname
    have hm := hw m1 (mem_freed hm1) hname
    exact hm.congr hprofiles hlimit rfl rfl hm.meant

theorem quietly_destined (htable : TableInv w.sup) (hw : Named name (Destined w.sup) w)
    (hq : Quietly w w') : Named name (Destined w'.sup) w' :=
  (reaches_invariant (I := fun w => TableInv w.sup ∧ Named name (Destined w.sup) w)
    (fun _ _ h hstep => quiet_destined h hstep) hq ⟨htable, hw⟩).2

/-- What holds of one module with a name holds of the module with that name. -/
theorem TableInv.named {s : Supervisor} (h : TableInv s) {m m1 : RunningModule} (hm : m ∈ s.loaded)
    (hm1 : m1 ∈ s.loaded) (hname : m1.moduleName = m.moduleName) : m1 = m :=
  List.inj_on_of_nodup_map h.distinct hm1 hm hname

theorem UpdateOutcome.config {s : Supervisor} {k : Kernel} {m m' : RunningModule}
    (h : UpdateOutcome s k m m') : m'.config = m.config := by
  cases h with
  | ticked => exact tickRestartTimer_config m
  | disabled => exact tickRestartTimer_config m
  | started hconfig => exact hconfig

/-- The update starts what is destined to run, or leaves it so. -/
theorem UpdateOutcome.destined {k : Kernel} {m m' : RunningModule} (hkernel : w'.kernel = k)
    (hprofiles : w'.sup.profiles = w.sup.profiles)
    (hlimit : w'.sup.moduleRestartsNumConfig = w.sup.moduleRestartsNumConfig)
    (hwaiting : m.initModule = true → m.moduleEnabled = false)
    (h : UpdateOutcome w.sup k m m') (hm : Destined w.sup m) :
    Destined w'.sup m' ∨ Runs w' m' := by
  obtain ⟨-, henabled, -, -, -⟩ := tickRestartTimer_kept m
  have hticked : m.moduleEnabled = true ∧ m.moduleRestartCnt < w.sup.maxRestarts m →
      (tickRestartTimer m).moduleRestartCnt < w.sup.maxRestarts m := by
    rintro ⟨-, hcnt⟩
    unfold tickRestartTimer
    split_ifs <;> simp only <;> omega
  cases h with
  | ticked =>
    refine .inl (hm.congr hprofiles hlimit (tickRestartTimer_config m) (tickRestartTimer_remove m) ?_)
    rcases hm.meant with hon | hinit
    · exact .inl ⟨henabled.trans hon.1, hticked hon⟩
    · refine .inr ?_
      unfold tickRestartTimer
      split_ifs <;> exact hinit
  | disabled hon hcnt =>
    rcases hm.meant with hbelow | hinit
    · have := hticked hbelow
      omega
    · rw [hwaiting hinit] at hon
      cases hon
  | started hconfig hremove hon hstatus hpid hproc =>
    have hindex : m'.modulesProfile = m.modulesProfile :=
      field_of_config RunningModule.modulesProfile (fun _ => rfl) hconfig
    have hprofile : w'.sup.profileOf m' = w.sup.profileOf m := by
      rw [Supervisor.profileOf, hindex, hprofiles]
      rfl
    exact .inr ⟨hremove.trans hm.kept, ⟨hon, hprofile ▸ hm.profile⟩, hstatus, hpid, hkernel ▸ hproc⟩

theorem updateModuleStatus_destined (h : Steady doomed w) (hsync : Synced w) (x : Nat)
    (hfailed : failedStarts (updateModuleStatus x w).kernel.trace ≤ failedStarts w.kernel.trace)
    (hw : Named name (Destined w.sup) w) :
    Named name (Destined (updateModuleStatus x w).sup) (updateModuleStatus x w) ∨
      Named name (Runs (updateModuleStatus x w)) (updateModuleStatus x w) := by
  have hafter := h.steps (updateModuleStatus_steps x w hsync)
  have hslot := updateModuleStatus_oneSlot x w
  cases hx : w.sup.loaded[x]? with
  | none =>
    rw [updateModuleStatus_absent hx]
    exact .inl hw
  | some m =>
    have hframe : (updateModuleStatus x w).sup.profiles = w.sup.profiles ∧
        (updateModuleStatus x w).sup.moduleRestartsNumConfig = w.sup.moduleRestartsNumConfig := by
      rcases hslot with heq | ⟨_, _, -, heq⟩ <;> rw [heq] <;> exact ⟨rfl, rfl⟩
    rcases updateModuleStatus_cases hx with hmore | ⟨-, m', hm', hout⟩
    · omega
    have hname : m'.moduleName = m.moduleName :=
      field_of_config RunningModule.moduleName (fun _ => rfl) hout.config
    have hmem := List.mem_of_getElem? hx
    by_cases hthis : m.moduleName = name
    · have hall : ∀ m1 ∈ (updateModuleStatus x w).sup.loaded, m1.moduleName = name → m1 = m' :=
        fun m1 hm1 hname1 => hafter.signals.table.named (List.mem_of_getElem? hm') hm1
          (hname1.trans (hthis.symm.trans hname.symm))
      rcases hout.destined rfl hframe.1 hframe.2 (fun hinit => h.waiting m hmem (.inr hinit))
        (hw m hmem hthis) with hdestined | hruns
      · exact .inl fun m1 hm1 hname1 => hall m1 hm1 hname1 ▸ hdestined
      · exact .inr fun m1 hm1 hname1 => hall m1 hm1 hname1 ▸ hruns
    · refine .inl fun m1 hm1 hname1 => ?_
      obtain ⟨y, hy⟩ := List.mem_iff_getElem?.mp hm1
      by_cases hyx : y = x
      · subst hyx
        rw [hm', Option.some.injEq] at hy
        exact absurd (hname.symm.trans (hy ▸ hname1)) hthis
      · rw [updateModuleStatus_oneSlot.other hyx] at hy
        have hold := hw m1 (List.mem_of_getElem? hy) hname1
        exact hold.congr hframe.1 hframe.2 rfl rfl hold.meant

/-- If no start fails, what is destined to run runs after the pass or still is. -/
theorem serviceUpdateModulesStatus_destined (h : Steady doomed w) (hsync : Synced w)
    (hfailed : failedStarts (serviceUpdateModulesStatus w).kernel.trace ≤
      failedStarts w.kernel.trace) (hw : Named name (Destined w.sup) w) :
    Named name (Destined (serviceUpdateModulesStatus w).sup) (serviceUpdateModulesStatus w) ∨
      Named name (Runs (serviceUpdateModulesStatus w)) (serviceUpdateModulesStatus w) := by
  have hloop := @forRange_invariant World w.sup.loadedModulesCnt updateModuleStatus w
    (fun _ t => Steady doomed t ∧ Synced t ∧
      failedStarts w.kernel.trace ≤ failedStarts t.kernel.trace ∧
      (failedStarts t.kernel.trace ≤ failedStarts w.kernel.trace →
        Named name (Destined t.sup) t ∨ Named name (Runs t) t))
    ⟨h, hsync, Int.le_refl _, fun _ => .inl hw⟩
    (fun x t _ ⟨ht, htsync, hbelow, hdone⟩ => by
      have hsteps := updateModuleStatus_steps x t htsync
      have hmore := updateModuleStatus_failed x t
      refine ⟨ht.steps hsteps, htsync.reaches hsteps.reaches, Int.le_trans hbelow hmore,
        fun hbound => ?_⟩
      rcases hdone (Int.le_trans hmore hbound) with hdestined | hruns
      · exact updateModuleStatus_destined ht htsync x (by omega) hdestined
      · exact .inr ((lastsIn_runs name).steps ht hruns hsteps).2)
  exact hloop.2.2.2 hfailed

/-- After a cooperative cycle a module that runs still does, and one that is destined to
is or does. -/
theorem Sane.destined (h : Sane w) {turns : List Turn} (hc : CooperativeCycle w turns)
    (hw : Named name (Destined w.sup) w ∨ Named name (Runs w) w) :
    Named name (Destined (serviceCycle turns w).sup) (serviceCycle turns w) ∨
      Named name (Runs (serviceCycle turns w)) (serviceCycle turns w) := by
  obtain ⟨w1, hfirst⟩ := h.firstCheck hc
  have hupdate := serviceUpdateModulesStatus_steps hfirst.synced
  have hstarts := afterStarts_steps hfirst.synced
  rw [hfirst.cycle]
  rcases hw with hdestined | hruns
  · have h1 := quietly_destined (w := { w with kernel := { w.kernel with turns } })
      h.signals.table hdestined hfirst.quiet
    rcases serviceUpdateModulesStatus_destined hfirst.steady hfirst.synced
      (Int.le_of_eq (hfirst.no_failure hc)) h1 with hdestined | hruns
    · have htable := (hfirst.steady.steps hupdate).signals.table
      exact .inl (quietly_destined htable hdestined (serviceCycleBody_quietly hfirst.synced))
    · exact .inr ((lastsIn_runs name).steps (hfirst.steady.steps hupdate) hruns hstarts).2
  · have h0 : Named name (Runs { w with kernel := { w.kernel with turns } })
        { w with kernel := { w.kernel with turns } } := fun m hm hname =>
      ⟨(hruns m hm hname).kept, (hruns m hm hname).toRun, (hruns m hm hname).status,
        (hruns m hm hname).live⟩
    exact .inr ((lastsIn_runs name).steps (h.steady hc) h0
      ((hfirst.steps.trans hupdate).trans hstarts)).2

end destined

/-! ## Runs -/

/-- Between cycles, too, only processes of modules that have to stop end, and nobody
gives an order. -/
def Cooperative (w : World) : Action → Prop
  | .cycle turns => CooperativeCycle w turns
  | .move mv => ∀ pid, mv.ends pid → MayEnd w pid
  | _ => False

section move

variable {w : World} {mv : Move}

theorem move_lives (hmv : ∀ pid, mv.ends pid → MayEnd w pid)
    (hw : NoZombies w ∧ Lives w) : NoZombies { w with kernel := w.kernel.move mv } ∧
      Lives { w with kernel := w.kernel.move mv } := by
  have hsafe : ∀ m ∈ w.sup.loaded, ¬ ToStop m (w.sup.profileOf m) → ¬ mv.ends m.modulePid :=
    fun m hm hrun he => hrun (hmv _ he m hm rfl)
  constructor
  · intro m hm hrun p hp hpid
    obtain ⟨q, hq, haged⟩ := move_from (D := mv.ends) (fun _ he => he) hp
    have hqpid := haged.pid.symm.trans hpid
    by_contra hzombie
    rcases haged.ended (by simpa using hzombie) with hold | hended
    · rw [hw.1 m hm hrun q hq hqpid] at hold
      cases hold
    · exact hsafe m hm hrun (hqpid ▸ hended)
  · intro m hm hrun hstatus
    obtain ⟨hpos, q, hq, hqpid, halive⟩ := hw.2 m hm hrun hstatus
    have hkept := hsafe m hm hrun
    rw [← hqpid] at hkept
    obtain ⟨p, hp, haged⟩ := move_to (D := mv.ends) hq hkept
    refine ⟨hpos, p, hp, haged.pid.trans hqpid, Bool.eq_false_iff.mpr fun hzombie => ?_⟩
    rcases haged.ended hzombie with hold | hended
    · rw [halive] at hold
      cases hold
    · exact hkept hended

end move

/-- The state after so many cycles, from one with at most `n0` removals to carry out. -/
structure Converging (n0 j n : Nat) (names : List (Option String)) (w : World) : Prop where
  sane : Sane w
  names : stayingNames w.sup = names
  bound : awaitingRemoval w.sup ≤ n0 / 2 ^ (n - 1)
  cycled : 1 ≤ n → Cycled w
  down : 2 ≤ n → AllDown w
  unmarked : 2 + j ≤ n → NoMarks w
  up : 3 + j ≤ n → AllUp w

theorem Sane.move {w : World} (h : Sane w) (mv : Move) :
    Sane { w with kernel := w.kernel.move mv } :=
  ⟨h.signals.change (.outside (.move mv)), h.parents.move mv, h.marks, h.waiting⟩

theorem Cycled.move {w : World} (h : Cycled w) {mv : Move}
    (hmv : ∀ pid, mv.ends pid → MayEnd w pid) : Cycled { w with kernel := w.kernel.move mv } := by
  refine ⟨h.sane.move mv, h.synced, fun m hm hstatus hstop => ?_, move_lives hmv h.lives⟩
  have htrace : (w.kernel.move mv).trace = w.kernel.trace := by cases mv <;> rfl
  have := h.killed m hm hstatus hstop
  rwa [← htrace] at this

section converging

variable {n0 j n : Nat} {names : List (Option String)} {w : World}

theorem Converging.move (h : Converging n0 j n names w) {mv : Move}
    (hmv : ∀ pid, mv.ends pid → MayEnd w pid) :
    Converging n0 j n names { w with kernel := w.kernel.move mv } :=
  ⟨h.sane.move mv, h.names, h.bound, fun hn => (h.cycled hn).move hmv, h.down, h.unmarked, h.up⟩

theorem Converging.cycle (hj : n0 < 2 ^ j) (h : Converging n0 j n names w) {turns : List Turn}
    (hc : CooperativeCycle w turns) : Converging n0 j (n + 1) names (serviceCycle turns w) := by
  obtain ⟨hcycled, hfewer⟩ := h.sane.cycled hc
  have hnames : stayingNames (serviceCycle turns w).sup = stayingNames w.sup := by
    obtain ⟨w1, hfirst⟩ := h.sane.firstCheck hc
    rw [hfirst.cycle]
    have hall := stayingNames_steps (hfirst.steps.trans
      ((serviceUpdateModulesStatus_steps hfirst.synced).trans (afterStarts_steps hfirst.synced)))
    exact hall
  have hstopped := fun hn => (h.cycled hn).stopped hc
  refine ⟨hcycled.sane, hnames.trans h.names, ?_, fun _ => hcycled,
    fun hn => (hstopped (by omega)).1, fun hn => (hstopped (by omega)).2.2 ?_,
    fun hn => ((h.cycled (by omega)).started hc (h.unmarked (by omega))).up⟩
  · rcases Nat.eq_zero_or_pos n with rfl | hn
    · exact Nat.le_trans hfewer h.bound
    · obtain ⟨k, rfl⟩ : ∃ k, n = k + 1 := ⟨n - 1, by omega⟩
      have hbound := h.bound
      rw [Nat.add_sub_cancel] at hbound ⊢
      rw [Nat.pow_succ, ← Nat.div_div_eq_div_mul]
      exact Nat.le_trans (hstopped hn).2.1 (Nat.div_le_div_right hbound)
  · have hfew : 2 ^ j ≤ 2 ^ (n - 1) := Nat.pow_le_pow_right (by omega) (by omega)
    have hzero : n0 / 2 ^ (n - 1) = 0 := Nat.div_eq_of_lt (Nat.lt_of_lt_of_le hj hfew)
    have := h.bound
    omega

end converging

/-- Nothing waits for its restart or removal, nothing runs that has to stop, and everything runs
that is to run. -/
structure Converged (w : World) : Prop where
  unmarked : NoMarks w
  stopped : ∀ m ∈ w.sup.loaded, ToStop m (w.sup.profileOf m) → ∀ p ∈ w.kernel.procs,
    p.pid ≠ m.modulePid
  running : ∀ m ∈ w.sup.loaded, ToRun m (w.sup.profileOf m) → m.moduleStatus = true ∧ Live w m

theorem Converging.converged {n0 j n : Nat} {names : List (Option String)} {w : World}
    (h : Converging n0 j n names w) (hn : 3 + j ≤ n) : Converged w := by
  have hcycled := h.cycled (by omega)
  refine ⟨h.unmarked (by omega), fun m hm hstop p hp hpid => ?_, fun m hm hrun => ?_⟩
  · have hdown := hcycled.synced m hm (h.down (by omega) m hm hstop)
    have := h.sane.parents.processes.positive p hp
    omega
  · have hstatus := h.up hn m hm hrun
    exact ⟨hstatus, hcycled.lives.2 m hm (ToRun.not_toStop hrun) hstatus⟩

/-- A state of a supervisor that has read a template or the backup of an earlier one. -/
def Supervised (w : World) : Prop :=
  ∃ alive rootNode as, InitialLoad rootNode ∧ w = Run.run step (boot alive rootNode) as

theorem Supervised.sane {w : World} (hw : Supervised w) (hwaiting : Waiting w) : Sane w := by
  obtain ⟨alive, rootNode, as, hload, rfl⟩ := hw
  exact ⟨Run.run_invariant step_signalInv (boot_signalInv alive rootNode) as,
    Run.run_invariant step_parentInv (boot_parentInv alive hload) as,
    reachable_markInv ⟨alive, rootNode, as, rfl⟩, hwaiting⟩

theorem Sane.cooperative {w : World} (h : Sane w) {a : Action} (ha : Cooperative w a) :
    Sane (step w a) := by
  cases a with
  | cycle turns => exact (h.cycled ha).1.sane
  | move mv => exact h.move mv
  | _ => exact absurd ha id

/-- Along the run, what is destined to run is started, and what runs is left alone. -/
theorem Sane.destined_along {w : World} (h : Sane w) {as : List Action}
    (has : Run.Along step Cooperative w as) {m : RunningModule} (hm : m ∈ w.sup.loaded)
    (hmeant : Destined w.sup m ∨ Runs w m) :
    let w' := Run.run step w as
    Named m.moduleName (Destined w'.sup) w' ∨ Named m.moduleName (Runs w') w' := by
  have hall : ∀ {P : RunningModule → Prop}, P m → Named m.moduleName P w := fun hp m1 hm1 hname =>
    h.signals.table.named hm hm1 hname ▸ hp
  refine (Run.along_invariant (C := Cooperative) (I := fun w => Sane w ∧
    (Named m.moduleName (Destined w.sup) w ∨ Named m.moduleName (Runs w) w))
    (fun w a ⟨hw, hnamed⟩ ha => ⟨hw.cooperative ha, ?_⟩) ⟨h, hmeant.imp hall hall⟩ has).2
  cases a with
  | cycle turns => exact hw.destined ha hnamed
  | move mv =>
    refine hnamed.imp id fun hruns m1 hm1 hname => ?_
    have hm1' := hruns m1 hm1 hname
    obtain ⟨hpos, q, hq, hqpid, halive⟩ := hm1'.live
    have hrun := ToRun.not_toStop hm1'.toRun
    have hkept : ¬ mv.ends q.pid := fun he => hrun (ha _ he m1 hm1 hqpid.symm)
    obtain ⟨p, hp, haged⟩ := move_to (D := mv.ends) hq hkept
    refine ⟨hm1'.kept, hm1'.toRun, hm1'.status, hpos, p, hp, haged.pid.trans hqpid,
      Bool.eq_false_iff.mpr fun hzombie => ?_⟩
    rcases haged.ended hzombie with hold | hended
    · rw [halive] at hold
      cases hold
    · exact hkept hended
  | _ => exact absurd ha id

theorem Supervised.converging {w : World} (hw : Supervised w) (hwaiting : Waiting w) {j : Nat}
    (hj : awaitingRemoval w.sup < 2 ^ j) {as : List Action}
    (has : Run.Along step Cooperative w as) :
    Converging (awaitingRemoval w.sup) j (as.countP Action.isCycle) (stayingNames w.sup)
      (Run.run step w as) := by
  have hend := @Run.stage_of_rounds _ _ step Cooperative Action.isCycle
    (fun n t => Converging (awaitingRemoval w.sup) j n (stayingNames w.sup) t)
    (fun n t a ht ha hcycle => by
      cases a with
      | cycle => cases hcycle
      | move mv => exact ht.move ha
      | _ => exact absurd ha id)
    (fun n t a ht ha hcycle => by
      cases a with
      | cycle turns => exact ht.cycle hj ha
      | _ => cases hcycle)
    w as 0 ⟨hw.sane hwaiting, rfl, by simp, fun hn => absurd hn (by omega),
      fun hn => absurd hn (by omega), fun hn => absurd hn (by omega),
      fun hn => absurd hn (by omega)⟩ has
  rwa [Nat.zero_add] at hend

/-- From any state in which nothing enables a module that waits for its restart or removal, in
every run with three cycles more than the number of removals has binary digits, the table
converges: it lists the modules that were not to be removed, in their order, what was destined
to run runs, and nothing runs that has to stop. -/
theorem converges {w : World} (hw : Supervised w) (hwaiting : Waiting w) {j : Nat}
    (hj : awaitingRemoval w.sup < 2 ^ j) (as : List Action) (has : Run.Along step Cooperative w as)
    (hcycles : 3 + j ≤ as.countP Action.isCycle) :
    let w' := Run.run step w as
    Converged w' ∧ w'.sup.loaded.map RunningModule.moduleName = stayingNames w.sup ∧
      ∀ m ∈ w.sup.loaded, Destined w.sup m ∨ Runs w m →
        ∃ m' ∈ w'.sup.loaded, m'.moduleName = m.moduleName ∧ Runs w' m' := by
  have hend := hw.converging hwaiting hj has
  have hconverged := hend.converged hcycles
  have hnames : (Run.run step w as).sup.loaded.map RunningModule.moduleName =
      stayingNames w.sup := by
    rw [← hend.names, stayingNames]
    congr 1
    exact (List.filter_eq_self.mpr fun m hm => by simp [(hconverged.unmarked m hm).1]).symm
  refine ⟨hconverged, hnames, fun m hm hmeant => ?_⟩
  have hkept : m.removeModule = false := hmeant.elim (·.kept) (·.kept)
  have hlisted : m.moduleName ∈ stayingNames w.sup :=
    List.mem_map_of_mem (List.mem_filter.mpr ⟨hm, by simp [hkept]⟩)
  rw [← hnames] at hlisted
  obtain ⟨m', hm', hname⟩ := List.mem_map.mp hlisted
  refine ⟨m', hm', hname, ?_⟩
  rcases (hw.sane hwaiting).destined_along has hm hmeant with hdestined | hruns
  · have hd := hdestined m' hm' hname
    have henabled : m'.moduleEnabled = true := by
      rcases hd.meant with hon | hinit
      · exact hon.1
      · rw [(hconverged.unmarked m' hm').2] at hinit
        cases hinit
    obtain ⟨hstatus, hlive⟩ := hconverged.running m' hm' ⟨henabled, hd.profile⟩
    exact ⟨hd.kept, ⟨henabled, hd.profile⟩, hstatus, hlive⟩
  · exact hruns m' hm' hname

/-! Two modules run. A reload drops the first and changes the second, which waits behind it. -/

theorem not_doomed {turns : List Turn} (h : ∀ t ∈ turns, t.moves = []) (pid : Int) :
    ¬ Doomed turns pid := by
  rintro ⟨t, ht, mv, hmv, -⟩
  rw [h t ht] at hmv
  cases hmv

/-- A cycle in the middle of which no process ends. -/
theorem CooperativeCycle.calm {w : World} {turns : List Turn} (hmoves : ∀ t ∈ turns, t.moves = [])
    (h : (∀ p ∈ w.kernel.procs, p.foreign = false ∧ (p.zombie = true → p.child = true) ∧
      (SigkillSince p.pid w.kernel.trace → p.zombie = true)) ∧
      failedStarts (serviceCycle turns w).kernel.trace = failedStarts w.kernel.trace ∧
      (serviceCycle turns w).serviceExited = false) : CooperativeCycle w turns := by
  refine ⟨⟨fun p hp => (h.1 p hp).1, fun t ht mv hmv => ?_⟩, fun p hp => (h.1 p hp).2.2,
    fun p hp => (h.1 p hp).2.1, fun pid hd => absurd hd (not_doomed hmoves pid), h.2.1, h.2.2⟩
  rw [hmoves t ht] at hmv
  cases hmv

def droppedAndChanged : World :=
  Run.run step (boot [] (some (profileDocument
    [moduleElement "a" "/a" "true" [], moduleElement "b" "/b" "true" []])))
    [.cycle [{ Turn.idle with forkPid := 100 }, { Turn.idle with forkPid := 101 }],
      .reloadTemplate (some (profileDocument [moduleElement "b" "/changed" "true" []]))]

theorem converges_droppedAndChanged :
    let w := droppedAndChanged
    let w' := Run.run step w [.cycle [], .move (.exits 100), .move (.exits 101), .cycle [],
      .cycle [], .cycle [{ Turn.idle with forkPid := 102 }]]
    Converged w' ∧ w'.sup.loaded.map RunningModule.moduleName = stayingNames w.sup ∧
      ∀ m ∈ w.sup.loaded, Destined w.sup m ∨ Runs w m →
        ∃ m' ∈ w'.sup.loaded, m'.moduleName = m.moduleName ∧ Runs w' m' := by
  refine @converges droppedAndChanged ⟨[], _, _, .template (by decide), rfl⟩
    (by unfold Waiting; decide +kernel) 1 (by decide +kernel) _
    ⟨?_, ?_, ?_, ?_, ?_, ?_, trivial⟩ (by decide)
  · exact .calm (by decide) (by decide +kernel)
  · exact fun pid he => he ▸ by unfold MayEnd ToStop; decide +kernel
  · exact fun pid he => he ▸ by unfold MayEnd ToStop; decide +kernel
  · exact .calm (by decide) (by decide +kernel)
  · exact .calm (by decide) (by decide +kernel)
  · exact .calm (by decide) (by decide +kernel)

end NemeaSupervisor
