import NemeaSupervisor.CycleSteps
import NemeaSupervisor.Termination

/-!
# How fast a module is stopped

A module that has to stop is sent both signals in the next cycle, unless its process
is found dead before: the check of the status lifts an old mark of a missing permission,
the two passes that send signals come after it, and nothing in between makes
a module that has to stop run again.
-/

namespace NemeaSupervisor

open Loop

/-- A SIGKILL was sent to the process, and since then no process has got its PID. -/
def SigkillSince (pid : Int) : List Event → Prop
  | [] => False
  | .sigkill m _ :: earlier => m.modulePid = pid ∨ SigkillSince pid earlier
  | e :: earlier => ¬ e.introduces pid ∧ SigkillSince pid earlier

instance (pid : Int) : (e : Event) → Decidable (e.introduces pid)
  | .started _ _ p => inferInstanceAs (Decidable (p = pid))
  | .adopted p => inferInstanceAs (Decidable (p = pid))
  | .startCalled _ _ _ _ | .sigint _ _ | .sigkill _ _ | .freed _ _ | .connected _ | .closed _ =>
    .isFalse id

instance decidableSigkillSince (pid : Int) :
    (trace : List Event) → Decidable (SigkillSince pid trace)
  | [] => .isFalse id
  | .sigkill m _ :: earlier =>
    have := decidableSigkillSince pid earlier
    inferInstanceAs (Decidable (m.modulePid = pid ∨ SigkillSince pid earlier))
  | .startCalled _ _ _ _ :: earlier | .started _ _ _ :: earlier | .adopted _ :: earlier
  | .sigint _ _ :: earlier | .freed _ _ :: earlier | .connected _ :: earlier
  | .closed _ :: earlier =>
    have := decidableSigkillSince pid earlier
    inferInstanceAs (Decidable (¬ Event.introduces pid _ ∧ SigkillSince pid earlier))

theorem SigkillSince.cons {pid : Int} {e : Event} {earlier : List Event} (he : ¬ e.introduces pid)
    (h : SigkillSince pid earlier) : SigkillSince pid (e :: earlier) := by
  cases e with
  | sigkill m profile => exact .inr h
  | _ => exact ⟨he, h⟩

/-- The move lets the supervisor send signals. -/
def Move.permits : Move → Prop
  | .setForeign _ foreign => foreign = false
  | _ => True

instance (mv : Move) : Decidable mv.permits := by
  cases mv <;> unfold Move.permits <;> infer_instance

/-- The supervisor may send signals to all processes, as long as the script lasts. -/
structure Permitted (k : Kernel) : Prop where
  own : ∀ p ∈ k.procs, p.foreign = false
  script : ∀ t ∈ k.turns, ∀ mv ∈ t.moves, mv.permits

theorem move_permitted {k : Kernel} (h : ∀ p ∈ k.procs, p.foreign = false) {mv : Move}
    (hmv : mv.permits) : ∀ p ∈ (k.move mv).procs, p.foreign = false := by
  intro p hp
  cases mv with
  | exits pid =>
    obtain ⟨q, hq, rfl⟩ := List.mem_map.mp hp
    split_ifs
    · exact h q hq
    · exact h q hq
  | reaped pid => exact h p (List.mem_of_mem_filter hp)
  | setForeign pid foreign =>
    obtain ⟨q, hq, rfl⟩ := List.mem_map.mp hp
    split_ifs
    · exact hmv
    · exact h q hq

theorem Permitted.turn {k : Kernel} (h : Permitted k) : Permitted k.turn.2 := by
  unfold Kernel.turn
  cases ht : k.turns with
  | nil => exact h
  | cons t turns =>
    have hmoves : ∀ (mvs : List Move) (k : Kernel), (∀ mv ∈ mvs, mv.permits) →
        (∀ p ∈ k.procs, p.foreign = false) →
        (∀ p ∈ (mvs.foldl Kernel.move k).procs, p.foreign = false) ∧
          (mvs.foldl Kernel.move k).turns = k.turns := by
      intro mvs
      induction mvs with
      | nil => exact fun k _ hown => ⟨hown, rfl⟩
      | cons mv mvs ih =>
        intro k hmvs hown
        obtain ⟨hprocs, hturns⟩ := ih (k.move mv) (fun mv' hmv' => hmvs mv' (by simp [hmv']))
          (move_permitted hown (hmvs mv (by simp)))
        exact ⟨hprocs, hturns.trans (by cases mv <;> rfl)⟩
    obtain ⟨hprocs, hturns⟩ := hmoves t.moves { k with turns } (h.script t (by simp [ht])) h.own
    refine ⟨hprocs, fun t' ht' => ?_⟩
    have hold : t' ∈ turns := by
      have : t' ∈ (t.moves.foldl Kernel.move { k with turns }).turns := ht'
      rwa [hturns] at this
    exact h.script t' (by simp [ht, hold])

/-! ## The way of a module that has to stop -/

/-- The state in the middle of a cycle. -/
structure MidCycle (w : World) : Prop where
  signals : SignalInv w
  synced : Synced w
  permitted : Permitted w.kernel

theorem SlotChange.permitted {s : Supervisor} {k k' : Kernel} {m m' : RunningModule}
    (h : SlotChange s k m m' k') (hp : Permitted k) : Permitted k' := by
  cases h with
  | waited => exact ⟨fun p hp' => hp.own p (List.mem_of_mem_filter hp'), hp.script⟩
  | started =>
    refine ⟨fun p hp' => ?_, hp.script⟩
    rcases List.mem_cons.mp hp' with rfl | hp'
    · rfl
    · exact hp.own p hp'
  | _ => exact ⟨hp.own, hp.script⟩

theorem Permitted.step {w w' : World} (h : Permitted w.kernel) (hs : CycleStep w w') :
    Permitted w'.kernel :=
  hs.invariant (I := fun w => Permitted w.kernel) (N := fun _ => True)
    (fun _ _ _ => trivial) (fun _ hp => hp.turn) (fun _ _ hp _ => ⟨hp.own, hp.script⟩)
    (fun _ _ _ _ _ hp _ hc _ _ => hc.permitted hp) (fun _ _ _ hp _ _ _ => ⟨hp.own, hp.script⟩) h

theorem permitted_step {w w' : World} (h : SignalInv w ∧ Permitted w.kernel) (hs : CycleStep w w') :
    SignalInv w' ∧ Permitted w'.kernel :=
  ⟨reaches_invariant (fun _ _ hi hc => hi.change hc) hs.reaches h.1, h.2.step hs⟩

theorem MidCycle.turn {w : World} (h : MidCycle w) :
    MidCycle { w with kernel := w.kernel.turn.2 } :=
  ⟨reaches_invariant (fun _ _ hi hc => hi.change hc) (turn_quietly w).reaches h.signals, h.synced,
    h.permitted.turn⟩

theorem MidCycle.noted {w : World} (h : MidCycle w) {e : Event} (he : e.linked) :
    MidCycle { w with kernel := w.kernel.record e } :=
  ⟨reaches_invariant (fun _ _ hi hc => hi.change hc) (CycleStep.noted e he).reaches h.signals,
    h.synced, ⟨h.permitted.own, h.permitted.script⟩⟩

theorem MidCycle.slot {w : World} (h : MidCycle w) {x : Nat} {m m' : RunningModule} {k : Kernel}
    (hx : w.sup.loaded[x]? = some m) (hc : SlotChange w.sup w.kernel m m' k) :
    MidCycle (({ w with kernel := k } : World).setModule x m') :=
  ⟨h.signals.change (.slot hx hc), h.synced.change (.slot hx hc), hc.permitted h.permitted⟩

theorem MidCycle.freed {w : World} (h : MidCycle w) {x : Nat} {m : RunningModule}
    (hx : w.sup.loaded[x]? = some m) (hfreed : ServiceState.Freed m) (hpid : m.modulePid ≤ 0) :
    MidCycle { w with
      sup := freeModuleAndShiftArray w.sup x
      kernel := w.kernel.record (.freed m (w.kernel.ownerAlive m.moduleName)) } :=
  ⟨h.signals.change (.freed hx hfreed.2.1 hpid), h.synced.change (.freed hx hfreed.2.1 hpid),
    ⟨h.permitted.own, h.permitted.script⟩⟩

theorem MidCycle.step {w w' : World} (h : MidCycle w) (hs : CycleStep w w') : MidCycle w' :=
  hs.invariant (N := fun _ => True) (fun _ _ _ => trivial) (fun _ h => h.turn)
    (fun _ _ h he => h.noted he) (fun _ _ _ _ _ h hx hc _ _ => h.slot hx hc)
    (fun _ _ _ h hx hfreed hpid => h.freed hx hfreed hpid) h

theorem MidCycle.steps {w w' : World} (h : MidCycle w) (hs : CycleSteps w w') : MidCycle w' :=
  Loop.reaches_invariant (fun _ _ hi hstep => hi.step hstep) hs h

theorem Startable.not_toStop {s : Supervisor} {m : RunningModule} (h : Startable s m) :
    ¬ ToStop m (s.profileOf m) := by
  rintro (hdisabled | hprofile)
  · rw [h.enabled] at hdisabled
    cases hdisabled
  · have henabled := h.profile
    unfold Supervisor.profileEnabled at henabled
    cases hp : s.profileOf m with
    | none => simp [hp] at hprofile
    | some p => simp_all

/-- A change of a slot records at most one event, which makes no PID of a slot known. -/
theorem SlotChange.trace {s : Supervisor} {k k' : Kernel} {m m' : RunningModule}
    (h : SlotChange s k m m' k') : k'.trace = k.trace ∨
      ∃ e, k'.trace = e :: k.trace ∧ ∀ m0 ∈ s.loaded, ¬ e.introduces m0.modulePid := by
  cases h with
  | sigint | sigkill | startCalled => exact .inr ⟨_, rfl, fun _ _ => id⟩
  | started _ _ _ htracked => exact .inr ⟨_, rfl, fun m0 hm0 he => htracked m0 hm0 he.symm⟩
  | _ => exact .inl rfl

/-- What a step leaves of a module that has to stop and is still seen running. -/
structure StaysStopping (s : Supervisor) (k : Kernel) (m m' : RunningModule) : Prop where
  status : m.moduleStatus = true
  toStop : ToStop m (s.profileOf m)
  pid : m'.modulePid = m.modulePid
  sent : m.sentSigint = true → m'.sentSigint = true
  permission : m'.moduleRootPermNeeded = m.moduleRootPermNeeded ∨
    ∃ p ∈ k.procs, m'.moduleRootPermNeeded = p.foreign

theorem profileOf_congr {s : Supervisor} {m m' : RunningModule}
    (h : m'.modulesProfile = m.modulesProfile) : s.profileOf m' = s.profileOf m := by
  rw [Supervisor.profileOf, h, Supervisor.profileOf]

theorem profileOf_freed (s : Supervisor) (x : Nat) (m : RunningModule) :
    (freeModuleAndShiftArray s x).profileOf m = s.profileOf m := by
  unfold freeModuleAndShiftArray
  split_ifs <;> rfl

theorem tickRestartTimer_kept (m : RunningModule) :
    (tickRestartTimer m).moduleStatus = m.moduleStatus ∧
      (tickRestartTimer m).moduleEnabled = m.moduleEnabled ∧
      (tickRestartTimer m).modulesProfile = m.modulesProfile ∧
      (tickRestartTimer m).modulePid = m.modulePid ∧
      (tickRestartTimer m).sentSigint = m.sentSigint := by
  unfold tickRestartTimer
  split_ifs <;> exact ⟨rfl, rfl, rfl, rfl, rfl⟩

theorem SlotChange.staysStopping {w : World} (h : MidCycle w) {k : Kernel} {m m' : RunningModule}
    (hm : m ∈ w.sup.loaded) (hc : SlotChange w.sup w.kernel m m' k) (ho : Observed w.kernel k m m')
    (hstatus : m'.moduleStatus = true) (hstop : ToStop m' (w.sup.profileOf m')) :
    StaysStopping w.sup w.kernel m m' := by
  have hperm : m'.moduleRootPermNeeded = m.moduleRootPermNeeded ∨
      ∃ p ∈ w.kernel.procs, m'.moduleRootPermNeeded = p.foreign :=
    ho.permission.imp_right fun ⟨p, hp, heq⟩ => ⟨p, List.mem_of_find?_eq_some hp, heq⟩
  cases hc with
  | seen b hpid =>
    have hrun : m.moduleStatus = true := by
      by_contra hdown
      have := h.synced m hm (by simpa using hdown)
      omega
    exact ⟨hrun, hstop, rfl, id, hperm⟩
  | gone | startFailed => cases hstatus
  | sigint => exact ⟨hstatus, hstop, rfl, fun _ => rfl, hperm⟩
  | tick =>
    obtain ⟨hst, hen, hprofile, hpid, hsent⟩ := tickRestartTimer_kept m
    rw [profileOf_congr hprofile, ToStop, hen] at hstop
    exact ⟨hst ▸ hstatus, hstop, hpid, fun hs => hsent.trans hs, hperm⟩
  | limit hdown =>
    rw [show m.moduleStatus = true from hstatus] at hdown
    cases hdown
  | startCalled hs => exact absurd hstop hs.not_toStop
  | started hs => exact absurd hstop hs.not_toStop
  | reenabled _ _ hpid =>
    have := h.signals.status m hm hstatus
    omega
  | _ => exact ⟨hstatus, hstop, rfl, id, hperm⟩

/-- The modules that have to stop but are seen running meet a condition. -/
def Stopping (P : List Event → RunningModule → Prop) (w : World) : Prop :=
  ∀ m ∈ w.sup.loaded, m.moduleStatus = true → ToStop m (w.sup.profileOf m) → P w.kernel.trace m

/-- A condition that outlives the events that are not about its process, and the
changes that leave a module stopping. -/
structure Lasting (P : List Event → RunningModule → Prop) : Prop where
  later : ∀ {trace e m}, ¬ e.introduces m.modulePid → P trace m → P (e :: trace) m
  kept : ∀ {s k m m' trace}, (∀ p ∈ k.procs, p.foreign = false) → StaysStopping s k m m' →
    P trace m → P trace m'

section stopping

variable {P : List Event → RunningModule → Prop} {w w' : World}

theorem Stopping.slot (hP : Lasting P) (h : MidCycle w) (hw : Stopping P w) {x : Nat}
    {m m' : RunningModule} {k : Kernel} (hx : w.sup.loaded[x]? = some m)
    (hc : SlotChange w.sup w.kernel m m' k) (ho : Observed w.kernel k m m') :
    Stopping P (({ w with kernel := k } : World).setModule x m') := by
  intro m1 hm1 hstatus hstop
  have hlater : ∀ m2 ∈ w.sup.loaded, P w.kernel.trace m2 → P k.trace m2 := by
    intro m2 hm2 hold
    rcases hc.trace with heq | ⟨e, heq, hother⟩ <;> rw [heq]
    · exact hold
    · exact hP.later (hother m2 hm2) hold
  obtain ⟨y, hy⟩ := List.mem_iff_getElem?.mp hm1
  rcases getElem?_setModule hx hy with ⟨-, rfl⟩ | ⟨-, hy⟩
  · have hm := List.mem_of_getElem? hx
    have hstays := hc.staysStopping h hm ho hstatus hstop
    exact hP.kept h.permitted.own hstays (hlater m hm (hw m hm hstays.status hstays.toStop))
  · have hm1 := List.mem_of_getElem? hy
    exact hlater m1 hm1 (hw m1 hm1 hstatus hstop)

theorem Stopping.freed (hP : Lasting P) (hw : Stopping P w) {x : Nat} {e : Event}
    (he : ∀ pid, ¬ e.introduces pid) :
    Stopping P { w with
      sup := freeModuleAndShiftArray w.sup x
      kernel := w.kernel.record e } := by
  intro m hm hstatus hstop
  rw [profileOf_freed] at hstop
  exact hP.later (he _) (hw m (mem_freed hm) hstatus hstop)

theorem Stopping.step (hP : Lasting P) (h : MidCycle w) (hw : Stopping P w)
    (hs : CycleStep w w') : MidCycle w' ∧ Stopping P w' := by
  refine hs.invariant (I := fun w => MidCycle w ∧ Stopping P w) (N := fun _ => True)
    (fun _ _ _ => trivial) (fun w ⟨h, hw⟩ => ⟨h.turn, fun m hm hstatus hstop => ?_⟩)
    (fun w e ⟨h, hw⟩ he => ⟨h.noted he, fun m hm hstatus hstop => ?_⟩)
    (fun _ _ _ _ _ ⟨h, hw⟩ hx hc ho _ => ⟨h.slot hx hc, hw.slot hP h hx hc ho⟩)
    (fun _ _ _ ⟨h, hw⟩ hx hfreed hpid => ⟨h.freed hx hfreed hpid, hw.freed hP fun _ => id⟩) ⟨h, hw⟩
  · have hold : P w.kernel.trace m := hw m hm hstatus hstop
    rwa [← turn_trace] at hold
  · refine hP.later ?_ (hw m hm hstatus hstop)
    cases e <;> first | exact absurd he id | exact id

theorem Stopping.steps (hP : Lasting P) (h : MidCycle w) (hw : Stopping P w)
    (hs : CycleSteps w w') : MidCycle w' ∧ Stopping P w' :=
  Loop.reaches_invariant (I := fun w => MidCycle w ∧ Stopping P w)
    (fun _ _ hi hstep => hi.2.step hP hi.1 hstep) hs ⟨h, hw⟩

end stopping

/-- A signal can be sent to the module. -/
def Signallable (_ : List Event) (m : RunningModule) : Prop := m.moduleRootPermNeeded = false

def Interrupted (_ : List Event) (m : RunningModule) : Prop := m.sentSigint = true

def KilledSince (trace : List Event) (m : RunningModule) : Prop := SigkillSince m.modulePid trace

theorem lasting_signallable : Lasting Signallable where
  later := fun _ h => h
  kept := fun {s k m m' trace} hown hs h => by
    rcases hs.permission with heq | ⟨p, hp, heq⟩
    · exact heq.trans h
    · exact heq.trans (hown p hp)

theorem lasting_interrupted : Lasting Interrupted where
  later := fun _ h => h
  kept := fun _ hs h => hs.sent h

theorem lasting_killedSince : Lasting KilledSince where
  later := fun he h => h.cons he
  kept := fun {s k m m' trace} _ hs h => by
    rw [KilledSince, hs.pid]
    exact h

/-! ## The passes of a cycle -/

/-- A pass that sends signals. -/
structure SignalPass (body : Nat → World → World) (P Q : List Event → RunningModule → Prop) :
    Prop where
  oneSlot : OneSlot body
  steps : ∀ x w, CycleSteps w (body x w)
  trace : ∀ x w, (body x w).kernel.trace = w.kernel.trace ∨
    ∃ e, (body x w).kernel.trace = e :: w.kernel.trace ∧ ∀ pid, ¬ e.introduces pid
  own : ∀ x w, Stopping P w → ∀ m, (body x w).sup.loaded[x]? = some m → m.moduleStatus = true →
    ToStop m ((body x w).sup.profileOf m) → Q (body x w).kernel.trace m

theorem SignalPass.pass {body : Nat → World → World} {P Q : List Event → RunningModule → Prop}
    (hbody : SignalPass body P Q) (hP : Lasting P) (hQ : Lasting Q) {w : World} (h : MidCycle w)
    (hw : Stopping P w) :
    let w' := forRange w.sup.loadedModulesCnt body w
    MidCycle w' ∧ Stopping Q w' := by
  have hpass := hbody.oneSlot.pass (I := fun t => MidCycle t ∧ Stopping P t)
    (P := fun t m => m.moduleStatus = true → ToStop m (t.sup.profileOf m) → Q t.kernel.trace m)
    (fun x t ⟨hi, hp⟩ => hp.steps hP hi (hbody.steps x t))
    (fun x t m ⟨_, hp⟩ hm => hbody.own x t hp m hm)
    (fun x t _ m _ hold hstatus hstop => by
      rw [hbody.oneSlot.profileOf] at hstop
      rcases hbody.trace x t with heq | ⟨e, heq, hother⟩ <;> rw [heq]
      · exact hold hstatus hstop
      · exact hQ.later (hother _) (hold hstatus hstop))
    ⟨h, hw⟩
  exact ⟨hpass.1.1, hpass.2⟩

theorem stopModuleSigint_pass : SignalPass stopModuleSigint Signallable Interrupted where
  oneSlot := stopModuleSigint_oneSlot
  steps := stopModuleSigint_steps
  trace := fun x w => by
    unfold stopModuleSigint
    cases w.sup.loaded[x]? with
    | none => exact .inl rfl
    | some m =>
      simp only []
      split_ifs
      · exact .inr ⟨_, rfl, fun _ => id⟩
      · exact .inl rfl
  own := fun x w hw m' hm' hstatus hstop => by
    unfold stopModuleSigint at hm' hstop
    cases hx : w.sup.loaded[x]? with
    | none => simp [hx] at hm'
    | some m =>
      simp only [hx] at hm' hstop
      split_ifs at hm' hstop with hsend
      · rw [setModule_slot hx hm']
        rfl
      · obtain rfl : m = m' := Option.some.inj (hx.symm.trans hm')
        by_contra hnot
        have hperm : m.moduleRootPermNeeded = false := hw m (List.mem_of_getElem? hx) hstatus hstop
        exact hsend ⟨hstatus, hperm, hstop.symm, by simpa [Interrupted] using hnot⟩

theorem stopModuleSigkill_pass : SignalPass stopModuleSigkill Interrupted KilledSince where
  oneSlot := stopModuleSigkill_oneSlot
  steps := stopModuleSigkill_steps
  trace := fun x w => by
    unfold stopModuleSigkill
    cases w.sup.loaded[x]? with
    | none => exact .inl rfl
    | some m =>
      simp only []
      split_ifs
      · exact .inr ⟨_, rfl, fun _ => id⟩
      · exact .inl rfl
  own := fun x w hw m' hm' hstatus hstop => by
    unfold stopModuleSigkill at hm' hstop ⊢
    cases hx : w.sup.loaded[x]? with
    | none => simp [hx] at hm'
    | some m =>
      simp only [hx] at hm' hstop ⊢
      split_ifs at hm' hstop ⊢ with hsend
      · rw [setModule_slot hx hm']
        exact .inl rfl
      · obtain rfl : m = m' := Option.some.inj (hx.symm.trans hm')
        have hsent : m.sentSigint = true := hw m (List.mem_of_getElem? hx) hstatus hstop
        exact absurd ⟨hstatus, hstop, hsent⟩ hsend

/-- The first check of a cycle lifts the marks of permissions that are no longer missing. -/
theorem serviceCheckModulesStatus_signallable {w : World} (h : SignalInv w)
    (hp : Permitted w.kernel) :
    MidCycle (serviceCheckModulesStatus w).1 ∧ Stopping Signallable (serviceCheckModulesStatus w).1 := by
  have hsync := (serviceCheckModulesStatus_quietly w).2
  rw [serviceCheckModulesStatus_eq] at hsync ⊢
  have hkeep : ∀ (x : Nat) (t : World), SignalInv t ∧ Permitted t.kernel →
      SignalInv (checkSlot x t) ∧ Permitted (checkSlot x t).kernel := fun x t hi =>
    Loop.reaches_invariant (I := fun t => SignalInv t ∧ Permitted t.kernel)
      (fun _ _ hi hs => permitted_step hi hs) (checkSlot_steps x t) hi
  have hpass := checkSlot_oneSlot.pass (I := fun t => SignalInv t ∧ Permitted t.kernel)
    (P := fun _ m => m.moduleStatus = true → m.moduleRootPermNeeded = false) hkeep
    (fun x t m' hi hm' hstatus => by
      rcases checkSlot_cases hm' with ⟨hidle, -⟩ | ⟨-, m, -, -, ⟨-, hdown, -⟩ | ⟨p, hp, rfl⟩⟩
      · have := (hkeep x t hi).1.status m' (List.mem_of_getElem? hm') hstatus
        omega
      · rw [hstatus] at hdown
        cases hdown
      · exact hi.2.turn.own p (List.mem_of_find?_eq_some hp))
    (fun _ _ _ _ _ hold => hold) ⟨h, hp⟩
  exact ⟨⟨hpass.1.1, hsync, hpass.1.2⟩, fun m hm hstatus _ => hpass.2 m hm hstatus⟩

section cycle

variable {w : World}

theorem serviceStopModulesSigint_interrupted (h : MidCycle w) (hw : Stopping Signallable w) :
    MidCycle (serviceStopModulesSigint w) ∧ Stopping Interrupted (serviceStopModulesSigint w) :=
  stopModuleSigint_pass.pass lasting_signallable lasting_interrupted h hw

theorem serviceStopModulesSigkill_killed (h : MidCycle w) (hw : Stopping Interrupted w) :
    MidCycle (serviceStopModulesSigkill w) ∧ Stopping KilledSince (serviceStopModulesSigkill w) :=
  stopModuleSigkill_pass.pass lasting_interrupted lasting_killedSince h hw

/-- In a cycle with permission to send signals, a module that has to stop and is still seen
running has been sent them. -/
theorem serviceCycleBody_killed (h : MidCycle w) (hw : Stopping Signallable w) :
    MidCycle (serviceCycleBody w) ∧ Stopping Interrupted (serviceCycleBody w) ∧
      Stopping KilledSince (serviceCycleBody w) := by
  unfold serviceCycleBody
  simp only []
  obtain ⟨h1, hw1⟩ := hw.steps lasting_signallable h (serviceUpdateModulesStatus_steps h.synced)
  generalize serviceUpdateModulesStatus w = w1 at h1 hw1 ⊢
  obtain ⟨h2, hw2⟩ := serviceStopModulesSigint_interrupted h1 hw1
  generalize serviceStopModulesSigint w1 = w2 at h2 hw2 ⊢
  have hclean := serviceCleanAfterChildren_steps w2
  generalize serviceCleanAfterChildren w2 = w3 at hclean ⊢
  have hcheck := check_steps w3
  generalize (serviceCheckModulesStatus w3).1 = w4 at hcheck ⊢
  obtain ⟨h4, hw4⟩ := hw2.steps lasting_interrupted h2 (hclean.trans hcheck)
  have hkill := serviceStopModulesSigkill_steps w4
  obtain ⟨h5, hw5⟩ := serviceStopModulesSigkill_killed h4 hw4
  generalize serviceStopModulesSigkill w4 = w5 at hkill h5 hw5 ⊢
  have hreap := serviceCleanAfterChildren_steps w5
  have h6 := h5.steps hreap
  generalize serviceCleanAfterChildren w5 = w6 at hreap h6 ⊢
  have hserve := serveModules_steps h6.synced
  generalize serveModules w6 = w7 at hserve ⊢
  have hexchanges := exchanges_steps w7
  simp only [] at hexchanges
  generalize forRange _ receiveStats _ = w8 at hexchanges ⊢
  have hrest := (hreap.trans hserve).trans hexchanges
  obtain ⟨h8, hw8⟩ := hw5.steps lasting_killedSince h5 hrest
  exact ⟨h8, (hw4.steps lasting_interrupted h4 (hkill.trans hrest)).2, hw8⟩

theorem serviceCycle_killed (h : SignalInv w) {turns : List Turn}
    (hp : Permitted { w.kernel with turns })
    (hgoes : (serviceCycle turns w).serviceExited = false) :
    MidCycle (serviceCycle turns w) ∧ Stopping Interrupted (serviceCycle turns w) ∧
      Stopping KilledSince (serviceCycle turns w) := by
  obtain ⟨hmid, hsignallable⟩ := serviceCheckModulesStatus_signallable
    (w := { w with kernel := { w.kernel with turns } }) ⟨h.table, h.status, h.sent, h.trace⟩ hp
  rw [serviceCycle_goes_on hgoes]
  exact serviceCycleBody_killed hmid hsignallable

end cycle

/-- After every cycle of every run, a module that is disabled or whose profile is, and that is
still seen running, has been sent a SIGINT and a SIGKILL since its process was started. -/
theorem stopped_within_cycle {w : World} (hw : Reachable w) {turns : List Turn}
    (hp : Permitted { w.kernel with turns })
    (hgoes : (serviceCycle turns w).serviceExited = false) :
    let w' := step w (.cycle turns)
    ∀ m ∈ w'.sup.loaded, m.moduleStatus = true → ToStop m (w'.sup.profileOf m) →
      SigintSince m.modulePid w'.kernel.trace ∧ SigkillSince m.modulePid w'.kernel.trace := by
  obtain ⟨alive, rootNode, as, rfl⟩ := hw
  have hsignals := Run.run_invariant step_signalInv (boot_signalInv alive rootNode) as
  obtain ⟨hmid, hinterrupted, hkilled⟩ := serviceCycle_killed hsignals hp hgoes
  intro w' m hm hstatus hstop
  exact ⟨hmid.signals.sent m hm (hmid.signals.status m hm hstatus) (hinterrupted m hm hstatus hstop),
    hkilled m hm hstatus hstop⟩

/-- The module is disabled while it runs, and survives the next cycle. -/
theorem stopped_within_cycle_disabled :
    let w := step oneRunning (.setDisabled (some [0]))
    let w' := step w (.cycle [])
    ∀ m ∈ w'.sup.loaded, m.moduleStatus = true → ToStop m (w'.sup.profileOf m) →
      SigintSince m.modulePid w'.kernel.trace ∧ SigkillSince m.modulePid w'.kernel.trace :=
  stopped_within_cycle
    ⟨[], some (profileDocument [moduleElement "m" "/bin/m" "true" []]),
      [.cycle [{ Turn.idle with forkPid := 100 }], .setDisabled (some [0])], rfl⟩
    ⟨by decide, by decide⟩ (by decide)

end NemeaSupervisor
