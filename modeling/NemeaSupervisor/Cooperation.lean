import NemeaSupervisor.Parents
import NemeaSupervisor.RunState

/-!
# A cycle in a world that cooperates

Which processes the script of a cycle can end is known before the cycle, and none of
them belongs to a module that is to run. Then the processes of these modules outlast
the cycle, and those of the others, once killed, are waited for in it: the pass that
waits for children leaves no zombie, and the check after it sees what is left.
-/

namespace NemeaSupervisor

open Loop

/-- A module awaiting its restart or its removal is disabled. -/
def Waiting (w : World) : Prop :=
  ∀ m ∈ w.sup.loaded, m.removeModule = true ∨ m.initModule = true → m.moduleEnabled = false

/-- The state inside of a cycle that can end doomed processes only. -/
structure Steady (doomed : Int → Prop) (w : World) : Prop where
  signals : SignalInv w
  parents : ParentInv w
  marks : MarkInv w
  waiting : Waiting w
  permitted : Permitted w.kernel
  ends : EndsOnly doomed w.kernel.turns
  forks : ∀ t ∈ w.kernel.turns, ¬ doomed t.forkPid
  safe : ∀ m ∈ w.sup.loaded, ¬ ToStop m (w.sup.profileOf m) → m.modulePid > 0 →
    ¬ doomed m.modulePid
  reaped : ∀ p ∈ w.kernel.procs, p.zombie = true → p.child = true ∨ doomed p.pid

/-! ## Changes of a slot -/

section slot

variable {s : Supervisor} {k k' : Kernel} {m m' : RunningModule}

theorem SlotChange.turns (h : SlotChange s k m m' k') : k'.turns = k.turns := by
  cases h <;> rfl

theorem SlotChange.profileOf (h : SlotChange s k m m' k') : s.profileOf m' = s.profileOf m :=
  profileOf_congr (field_of_config RunningModule.modulesProfile (fun _ => rfl) h.config)

/-- As long as its process is the same a module that has to stop stays one. -/
theorem SlotChange.toStop (h : SlotChange s k m m' k') (hsame : m'.modulePid = m.modulePid)
    (hpos : m.modulePid > 0) (hstop : ToStop m (s.profileOf m)) : ToStop m' (s.profileOf m') := by
  rw [h.profileOf]
  refine hstop.imp_left fun hdisabled => ?_
  cases h with
  | startFailed hs | started hs => exact absurd hdisabled hs.not_stopped
  | reenabled _ _ hpid => omega
  | limit => rfl
  | tick => exact (tickRestartTimer_kept m).2.1.trans hdisabled
  | _ => exact hdisabled

/-- A module has to stop since before the change, unless it has no process. -/
theorem SlotChange.toStop_before (h : SlotChange s k m m' k') (ho : Observed k k' m m')
    (hstop : ToStop m' (s.profileOf m')) : ToStop m (s.profileOf m) ∨ m.modulePid ≤ 0 := by
  rw [h.profileOf] at hstop
  rcases hstop with hdisabled | hprofile
  · exact (ho.enabled hdisabled).imp_left .inl
  · exact .inl (.inr hprofile)

theorem SlotChange.waiting (h : SlotChange s k m m' k')
    (hm : m.removeModule = true ∨ m.initModule = true → m.moduleEnabled = false)
    (hm' : m'.removeModule = true ∨ m'.initModule = true) : m'.moduleEnabled = false := by
  have hdisabled := hm (hm'.imp (fun hr => h.removeModule ▸ hr) h.initModule)
  cases h with
  | startFailed hs | started hs => exact absurd hdisabled hs.not_stopped
  | limit => rfl
  | tick => exact (tickRestartTimer_kept m).2.1.trans hdisabled
  | reenabled hremove =>
    rcases hm' with hr | hi
    · rw [show m.removeModule = true from hr] at hremove
      cases hremove
    · cases hi
  | _ => exact hdisabled

end slot

section steady

variable {doomed : Int → Prop} {w w' : World}

theorem Steady.turn (h : Steady doomed w) : Steady doomed { w with kernel := w.kernel.turn.2 } := by
  refine ⟨reaches_invariant (fun _ _ hi hc => hi.change hc) (turn_quietly w).reaches h.signals,
    h.parents.turn, h.marks, h.waiting, h.permitted.turn, fun t ht => h.ends t (turn_turns ht),
    fun t ht => h.forks t (turn_turns ht), h.safe, fun p hp hzombie => ?_⟩
  obtain ⟨q, hq, haged⟩ := turn_from h.ends hp
  rw [haged.pid, haged.child]
  rcases haged.ended hzombie with hold | hdoomed
  · exact h.reaped q hq hold
  · exact .inr hdoomed

theorem Steady.slot (h : Steady doomed w) {x : Nat} {m m' : RunningModule} {k : Kernel}
    (hx : w.sup.loaded[x]? = some m) (hc : SlotChange w.sup w.kernel m m' k)
    (ho : Observed w.kernel k m m') (hnew : ∀ p ∈ k.procs, p ∈ w.kernel.procs ∨ ¬ doomed p.pid) :
    Steady doomed (({ w with kernel := k } : World).setModule x m') := by
  have hm := List.mem_of_getElem? hx
  refine ⟨h.signals.change (.slot hx hc), h.parents.slot hx hc ho, fun m1 hm1 => ?_,
    fun m1 hm1 => ?_, hc.permitted h.permitted, ?_, ?_, fun m1 hm1 hrun hpos => ?_,
    fun p hp hzombie => ?_⟩
  · rcases mem_setModule hm1 with rfl | hm1
    · exact (h.marks m hm).slot hc ho
    · exact h.marks m1 hm1
  · rcases mem_setModule hm1 with rfl | hm1
    · exact hc.waiting (h.waiting m hm)
    · exact h.waiting m1 hm1
  · have hends : EndsOnly doomed k.turns := by
      rw [hc.turns]
      exact h.ends
    exact hends
  · have hforks : ∀ t ∈ k.turns, ¬ doomed t.forkPid := by
      rw [hc.turns]
      exact h.forks
    exact hforks
  · rcases mem_setModule hm1 with rfl | hm1
    · rcases hc.pid_origin with hsame | hdown | ⟨p, hp, hp'⟩
      · rw [hsame] at hpos ⊢
        exact h.safe m hm (fun hstop => hrun (hc.toStop hsame hpos hstop)) hpos
      · omega
      · rw [← hp'.pid]
        rcases hnew p hp with hold | hnot
        · exact absurd rfl (hp'.fresh p hold)
        · exact hnot
    · exact h.safe m1 hm1 hrun hpos
  · rcases hc.process_cases hp with hold | hp'
    · exact h.reaped p hold hzombie
    · rw [hp'.alive] at hzombie
      cases hzombie

theorem Steady.noted (h : Steady doomed w) {e : Event} (he : e.linked) :
    Steady doomed { w with kernel := w.kernel.record e } :=
  ⟨reaches_invariant (fun _ _ hi hc => hi.change hc) (CycleStep.noted e he).reaches h.signals,
    h.parents.noted he, h.marks, h.waiting, ⟨h.permitted.own, h.permitted.script⟩, h.ends, h.forks,
    h.safe, h.reaped⟩

theorem Steady.freed (h : Steady doomed w) {x : Nat} {m : RunningModule}
    (hx : w.sup.loaded[x]? = some m) (hfreed : ServiceState.Freed m) (hpid : m.modulePid ≤ 0) :
    Steady doomed { w with
      sup := freeModuleAndShiftArray w.sup x
      kernel := w.kernel.record (.freed m (w.kernel.ownerAlive m.moduleName)) } where
  signals := h.signals.change (.freed hx hfreed.2.1 hpid)
  parents := h.parents.freed hx hfreed hpid
  marks := fun m1 hm1 => h.marks m1 (mem_freed hm1)
  waiting := fun m1 hm1 => h.waiting m1 (mem_freed hm1)
  permitted := ⟨h.permitted.own, h.permitted.script⟩
  ends := h.ends
  forks := h.forks
  safe := fun m1 hm1 hrun => h.safe m1 (mem_freed hm1) (profileOf_freed w.sup x m1 ▸ hrun)
  reaped := h.reaped

theorem Steady.fork (h : Steady doomed w) (hpos : w.kernel.turn.1.forkPid > 0) :
    ¬ doomed w.kernel.turn.1.forkPid := by
  obtain ⟨t, ht, heq⟩ := turn_forkPid w.kernel hpos
  exact heq ▸ h.forks t ht

/-- A fact that lasts through a steady cycle has to survive a turn, a change of a
slot and a removal. -/
structure LastsIn (doomed : Int → Prop) (F : World → Prop) : Prop where
  turn : ∀ {w}, Steady doomed w → F w → F { w with kernel := w.kernel.turn.2 }
  noted : ∀ {w e}, F w → F { w with kernel := w.kernel.record e }
  slot : ∀ {w x m m' k}, Steady doomed w → F w → w.sup.loaded[x]? = some m →
    SlotChange w.sup w.kernel m m' k → Observed w.kernel k m m' →
    F (({ w with kernel := k } : World).setModule x m')
  freed : ∀ {w x e}, F w → F { w with
    sup := freeModuleAndShiftArray w.sup x
    kernel := w.kernel.record e }

theorem LastsIn.step {F : World → Prop} (hf : LastsIn doomed F) (h : Steady doomed w) (hw : F w)
    (hs : CycleStep w w') : Steady doomed w' ∧ F w' :=
  hs.invariant (I := fun w => Steady doomed w ∧ F w) (N := fun pid => ¬ doomed pid)
    (fun _ h hpos => h.1.fork hpos) (fun _ h => ⟨h.1.turn, hf.turn h.1 h.2⟩)
    (fun _ _ h he => ⟨h.1.noted he, hf.noted h.2⟩)
    (fun _ _ _ _ _ h hx hc ho hnew => ⟨h.1.slot hx hc ho hnew, hf.slot h.1 h.2 hx hc ho⟩)
    (fun _ _ _ h hx hfreed hpid => ⟨h.1.freed hx hfreed hpid, hf.freed h.2⟩) ⟨h, hw⟩

theorem LastsIn.steps {F : World → Prop} (hf : LastsIn doomed F) (h : Steady doomed w) (hw : F w)
    (hs : CycleSteps w w') : Steady doomed w' ∧ F w' :=
  reaches_invariant (I := fun w => Steady doomed w ∧ F w)
    (fun _ _ hi hstep => hf.step hi.1 hi.2 hstep) hs ⟨h, hw⟩

theorem lastsIn_true : LastsIn doomed fun _ => True :=
  ⟨fun _ _ => trivial, fun _ => trivial, fun _ _ _ _ _ => trivial, fun _ => trivial⟩

theorem Steady.steps (h : Steady doomed w) (hs : CycleSteps w w') : Steady doomed w' :=
  (lastsIn_true.steps h trivial hs).1

end steady

/-! ## Modules that are to run -/

/-- No module that is to run has a zombie for its process. -/
def NoZombies (w : World) : Prop :=
  ∀ m ∈ w.sup.loaded, ¬ ToStop m (w.sup.profileOf m) → ∀ p ∈ w.kernel.procs,
    p.pid = m.modulePid → p.zombie = false

/-- A module that is to run and is seen running has a live process. -/
def Lives (w : World) : Prop :=
  ∀ m ∈ w.sup.loaded, ¬ ToStop m (w.sup.profileOf m) → m.moduleStatus = true → Live w m

/-- Nothing waits for its restart or its removal. -/
def NoMarks (w : World) : Prop :=
  ∀ m ∈ w.sup.loaded, m.removeModule = false ∧ m.initModule = false

/-- Every module that is to run is seen running. -/
def AllUp (w : World) : Prop :=
  ∀ m ∈ w.sup.loaded, ToRun m (w.sup.profileOf m) → m.moduleStatus = true

section lasting

variable {doomed : Int → Prop}

/-- A turn leaves the process of a module that is to run as it is. -/
theorem turn_safe {w : World} (h : Steady doomed w) {m : RunningModule} (hm : m ∈ w.sup.loaded)
    (hrun : ¬ ToStop m (w.sup.profileOf m)) {p : Process} (hp : p ∈ w.kernel.turn.2.procs)
    (hpid : p.pid = m.modulePid) : ∃ q ∈ w.kernel.procs, q.pid = m.modulePid ∧
      (p.zombie = true → q.zombie = true) := by
  obtain ⟨q, hq, haged⟩ := turn_from h.ends hp
  have hqpid := haged.pid.symm.trans hpid
  refine ⟨q, hq, hqpid, fun hzombie => (haged.ended hzombie).resolve_right ?_⟩
  rw [hqpid]
  exact h.safe m hm hrun (hqpid ▸ h.parents.processes.positive q hq)

theorem lastsIn_noZombies : LastsIn doomed NoZombies where
  turn := fun {w} h hw m hm hrun p hp hpid => by
    obtain ⟨q, hq, hqpid, hsame⟩ := turn_safe h hm hrun hp hpid
    by_contra hzombie
    have := hw m hm hrun q hq hqpid
    rw [hsame (by simpa using hzombie)] at this
    cases this
  noted := fun hw => hw
  slot := fun {w x m m' k} h hw hx hc ho m1 hm1 hrun p hp hpid => by
    have hm := List.mem_of_getElem? hx
    rcases hc.process_cases hp with hold | hnew
    · rcases mem_setModule hm1 with rfl | hm1
      · have hpos := h.parents.processes.positive p hold
        rcases hc.pid_origin with hsame | hdown | ⟨q, -, hq⟩
        · exact hw m hm (fun hstop => hrun (hc.toStop hsame (by omega) hstop)) p hold
            (hpid.trans hsame)
        · omega
        · exact absurd (hpid.trans hq.pid.symm) (hq.fresh p hold)
      · exact hw m1 hm1 hrun p hold hpid
    · exact hnew.alive
  freed := fun {w x e} hw m hm hrun => hw m (mem_freed hm) (profileOf_freed w.sup x m ▸ hrun)

/-- A live process of a module that is to run outlasts a turn. -/
theorem turn_live {w : World} (h : Steady doomed w) {m : RunningModule} (hm : m ∈ w.sup.loaded)
    (hrun : ¬ ToStop m (w.sup.profileOf m)) (hlive : Live w m) :
    ∃ p ∈ w.kernel.turn.2.procs, p.pid = m.modulePid ∧ p.zombie = false := by
  obtain ⟨hpos, q, hq, hqpid, halive⟩ := hlive
  have hsafe := h.safe m hm hrun hpos
  rw [← hqpid] at hsafe
  obtain ⟨p, hp, haged⟩ := turn_to h.ends hq hsafe
  refine ⟨p, hp, haged.pid.trans hqpid, Bool.eq_false_iff.mpr fun hzombie => ?_⟩
  rcases haged.ended hzombie with hold | hdoomed
  · rw [halive] at hold
    cases hold
  · exact hsafe hdoomed

/-- Nobody waits for a live process. -/
theorem SlotChange.live {w : World} (h : ParentInv w) {m m' : RunningModule} {k : Kernel}
    (ho : Observed w.kernel k m m') {m1 : RunningModule} (hlive : Live w m1) :
    ∃ p ∈ k.procs, p.pid = m1.modulePid ∧ p.zombie = false := by
  obtain ⟨-, p, hp, hpid, halive⟩ := hlive
  refine ⟨p, ?_, hpid, halive⟩
  rcases ho.waited p hp with hkept | ⟨hsame, q, hq, hzombie⟩
  · exact hkept
  · rw [← hsame, process_of_mem h.unique hp, Option.mem_some_iff] at hq
    rw [← hq, halive] at hzombie
    cases hzombie

theorem lastsIn_lives : LastsIn doomed fun w => NoZombies w ∧ Lives w where
  turn := fun {w} h hw => ⟨lastsIn_noZombies.turn h hw.1, fun m hm hrun hstatus =>
    ⟨(hw.2 m hm hrun hstatus).1, turn_live h hm hrun (hw.2 m hm hrun hstatus)⟩⟩
  noted := fun hw => hw
  slot := fun {w x m m' k} h hw hx hc ho => by
    refine ⟨lastsIn_noZombies.slot h hw.1 hx hc ho, fun m1 hm1 hrun hstatus => ?_⟩
    have hsignals := h.signals.change (.slot hx hc)
    refine ⟨hsignals.status m1 hm1 hstatus, ?_⟩
    have hm := List.mem_of_getElem? hx
    rcases mem_setModule hm1 with rfl | hm1
    · have hpos := hsignals.status m1 hm1 hstatus
      have hold : m1.modulePid = m.modulePid → m.moduleStatus = true →
          ∃ p ∈ k.procs, p.pid = m1.modulePid ∧ p.zombie = false := by
        intro hsame hrunning
        rw [hsame]
        exact SlotChange.live h.parents ho
          (hw.2 m hm (fun hstop => hrun (hc.toStop hsame (by omega) hstop)) hrunning)
      cases hc with
      | seen b hpid hproc =>
        obtain ⟨p, hp⟩ := hasProcess_iff.mp hproc
        obtain ⟨hmem, hpid⟩ := mem_of_process hp
        exact ⟨p, hmem, hpid, hw.1 m hm hrun p hmem hpid⟩
      | gone | startFailed => cases hstatus
      | started => exact ⟨_, List.mem_cons_self, rfl, rfl⟩
      | tick =>
        obtain ⟨hsame, -, -, hpid, -⟩ := tickRestartTimer_kept m
        exact hold hpid (hsame.symm.trans hstatus)
      | _ => exact hold rfl hstatus
    · exact SlotChange.live h.parents ho (hw.2 m1 hm1 hrun hstatus)
  freed := fun {w x e} hw => ⟨(lastsIn_noZombies : LastsIn doomed NoZombies).freed hw.1,
    fun m hm hrun hstatus => hw.2 m (mem_freed hm) (profileOf_freed w.sup x m ▸ hrun) hstatus⟩

theorem lastsIn_noMarks : LastsIn doomed NoMarks where
  turn := fun _ hw => hw
  noted := fun hw => hw
  slot := fun {w x m m' k} h hw hx hc ho m1 hm1 => by
    rcases mem_setModule hm1 with rfl | hm1
    · have hm := hw m (List.mem_of_getElem? hx)
      refine ⟨hc.removeModule.trans hm.1, Bool.eq_false_iff.mpr fun hinit => ?_⟩
      have := hc.initModule hinit
      rw [hm.2] at this
      cases this
    · exact hw m1 hm1
  freed := fun hw m hm => hw m (mem_freed hm)

theorem ToRun.not_toStop {m : RunningModule} {profile : Option ModulesProfile}
    (h : ToRun m profile) : ¬ ToStop m profile := by
  rintro (hdisabled | hprofile)
  · rw [h.1] at hdisabled
    cases hdisabled
  · have := h.2
    cases profile with
    | none => cases hprofile
    | some p => simp_all

theorem Startable.toRun {s : Supervisor} {m : RunningModule} (h : Startable s m) :
    ToRun m (s.profileOf m) := ⟨h.enabled, h.profile⟩

/-- What lasts once everything runs that is to run. -/
structure Up (w : World) : Prop where
  lives : NoZombies w ∧ Lives w
  marks : NoMarks w
  up : AllUp w

theorem lastsIn_up : LastsIn doomed Up where
  turn := fun h hw => ⟨lastsIn_lives.turn h hw.lives, hw.marks, hw.up⟩
  noted := fun hw => ⟨hw.lives, hw.marks, hw.up⟩
  slot := fun {w x m m' k} h hw hx hc ho => by
    refine ⟨lastsIn_lives.slot h hw.lives hx hc ho, lastsIn_noMarks.slot h hw.marks hx hc ho,
      fun m1 hm1 hrun => ?_⟩
    have hm := List.mem_of_getElem? hx
    rcases mem_setModule hm1 with rfl | hm1
    · have hprofile : w.sup.profileOf m1 = w.sup.profileOf m := hc.profileOf
      have hup : m1.moduleEnabled = m.moduleEnabled → m.moduleStatus = true := fun henabled =>
        hw.up m hm ⟨henabled ▸ hrun.1, hprofile ▸ hrun.2⟩
      cases hc with
      | seen | started => rfl
      | gone hpid hproc =>
        obtain ⟨-, p, hp, hppid, -⟩ := hw.lives.2 m hm (ToRun.not_toStop hrun) (hup rfl)
        have := List.any_eq_false.mp hproc p hp
        simp [hppid] at this
      | startFailed hs =>
        have := hw.up m hm hs.toRun
        rw [hs.status] at this
        cases this
      | tick =>
        obtain ⟨hstatus, henabled, -⟩ := tickRestartTimer_kept m
        exact hstatus.trans (hup henabled)
      | limit => exact absurd hrun.1 (by simp)
      | reenabled _ hinit =>
        rw [(hw.marks m hm).2] at hinit
        cases hinit
      | _ => exact hup rfl
    · exact hw.up m1 hm1 hrun
  freed := fun {w x e} hw => ⟨(lastsIn_lives : LastsIn doomed _).freed hw.lives,
    (lastsIn_noMarks : LastsIn doomed NoMarks).freed hw.marks,
    fun m hm hrun => hw.up m (mem_freed hm) (profileOf_freed w.sup x m ▸ hrun)⟩

end lasting

/-! ## Modules that have to stop -/

/-- The processes of modules that have to stop are zombies of the supervisor. -/
def Dying (w : World) : Prop :=
  ∀ m ∈ w.sup.loaded, ToStop m (w.sup.profileOf m) → ∀ p ∈ w.kernel.procs,
    p.pid = m.modulePid → p.zombie = true ∧ p.child = true

/-- There are no such processes. -/
def Gone (w : World) : Prop :=
  ∀ m ∈ w.sup.loaded, ToStop m (w.sup.profileOf m) → ∀ p ∈ w.kernel.procs, p.pid ≠ m.modulePid

/-- No module that has to stop is seen running. -/
def AllDown (w : World) : Prop :=
  ∀ m ∈ w.sup.loaded, ToStop m (w.sup.profileOf m) → m.moduleStatus = false

section lasting

variable {doomed : Int → Prop}

/-- Where the process of a module that has to stop comes from. -/
theorem SlotChange.stopping_process {w : World} (h : Steady doomed w) {x : Nat}
    {m m' : RunningModule} {k : Kernel} (hx : w.sup.loaded[x]? = some m)
    (hc : SlotChange w.sup w.kernel m m' k) (ho : Observed w.kernel k m m') {m1 : RunningModule}
    (hm1 : m1 ∈ (w.sup.setModule x m').loaded) (hstop : ToStop m1 (w.sup.profileOf m1))
    {p : Process} (hp : p ∈ k.procs) (hpid : p.pid = m1.modulePid) :
    p ∈ w.kernel.procs ∧ ∃ m0 ∈ w.sup.loaded, ToStop m0 (w.sup.profileOf m0) ∧
      p.pid = m0.modulePid := by
  have hm := List.mem_of_getElem? hx
  rcases List.mem_or_eq_of_mem_set hm1 with hm1 | rfl
  · rcases hc.process_cases hp with hold | hnew
    · exact ⟨hold, m1, hm1, hstop, hpid⟩
    · exact absurd hpid.symm (hnew.untracked m1 hm1)
  · rcases hc.process_cases hp with hold | hnew
    · have hpos := h.parents.processes.positive p hold
      rcases hc.pid_origin with hsame | hdown | ⟨q, -, hq⟩
      · refine ⟨hold, m, hm, ?_, hpid.trans hsame⟩
        exact (hc.toStop_before ho hstop).resolve_right (by omega)
      · omega
      · exact absurd (hpid.trans hq.pid.symm) (hq.fresh p hold)
    · exact absurd hstop hnew.toRun

theorem lastsIn_dying : LastsIn doomed Dying where
  turn := fun {w} h hw m hm hstop p hp hpid => by
    obtain ⟨q, hq, haged⟩ := turn_from h.ends hp
    obtain ⟨hzombie, hchild⟩ := hw m hm hstop q hq (haged.pid.symm.trans hpid)
    exact ⟨haged.zombie hzombie, haged.child.trans hchild⟩
  noted := fun hw => hw
  slot := fun {w x m m' k} h hw hx hc ho m1 hm1 hstop p hp hpid => by
    obtain ⟨hold, m0, hm0, hstop0, hpid0⟩ := hc.stopping_process h hx ho hm1 hstop hp hpid
    exact hw m0 hm0 hstop0 p hold hpid0
  freed := fun {w x e} hw m hm hstop => hw m (mem_freed hm) (profileOf_freed w.sup x m ▸ hstop)

theorem lastsIn_gone : LastsIn doomed Gone where
  turn := fun {w} h hw m hm hstop p hp hpid => by
    obtain ⟨q, hq, haged⟩ := turn_from h.ends hp
    exact hw m hm hstop q hq (haged.pid.symm.trans hpid)
  noted := fun hw => hw
  slot := fun {w x m m' k} h hw hx hc ho m1 hm1 hstop p hp hpid => by
    obtain ⟨hold, m0, hm0, hstop0, hpid0⟩ := hc.stopping_process h hx ho hm1 hstop hp hpid
    exact hw m0 hm0 hstop0 p hold hpid0
  freed := fun {w x e} hw m hm hstop => hw m (mem_freed hm) (profileOf_freed w.sup x m ▸ hstop)

theorem lastsIn_allDown : LastsIn doomed fun w => Gone w ∧ AllDown w where
  turn := fun h hw => ⟨lastsIn_gone.turn h hw.1, hw.2⟩
  noted := fun hw => hw
  slot := fun {w x m m' k} h hw hx hc ho => by
    refine ⟨lastsIn_gone.slot h hw.1 hx hc ho, fun m1 hm1 hstop => ?_⟩
    have hm := List.mem_of_getElem? hx
    rcases mem_setModule hm1 with rfl | hm1
    · have hbefore := hc.toStop_before ho hstop
      have hdown : m.moduleStatus = false := by
        rcases hbefore with hold | hpid
        · exact hw.2 m hm hold
        · refine Bool.eq_false_iff.mpr fun hstatus => ?_
          have := h.signals.status m hm hstatus
          omega
      cases hc with
      | seen b hpid hproc =>
        obtain ⟨p, hp⟩ := hasProcess_iff.mp hproc
        obtain ⟨hmem, hppid⟩ := mem_of_process hp
        exact absurd hppid (hw.1 m hm (hbefore.resolve_right (by omega)) p hmem)
      | gone | startFailed => rfl
      | started hs => exact absurd hstop hs.not_toStop
      | tick => exact (tickRestartTimer_kept m).1.trans hdown
      | _ => exact hdown
    · exact hw.2 m1 hm1 hstop
  freed := fun {w x e} hw => ⟨(lastsIn_gone : LastsIn doomed Gone).freed hw.1, fun m hm hstop =>
    hw.2 m (mem_freed hm) (profileOf_freed w.sup x m ▸ hstop)⟩

end lasting

end NemeaSupervisor
