import NemeaSupervisor.Progress
import NemeaSupervisor.ServiceExchange
import NemeaSupervisor.Signals

/-!
# A cycle between the moves of its script

The atomic changes of a cycle once more, with the script of the world: nothing moves
outside the supervisor but by the turns of the script, and every change of a slot comes
with what the system call before it has found. What a module waits for can be
followed through a cycle with them.
-/

namespace NemeaSupervisor

open Loop

/-- The process that a system call on this PID finds. -/
def Kernel.process (k : Kernel) (pid : Int) : Option Process := k.procs.find? fun p => p.pid == pid

/-- A note about a service connection. -/
def Event.linked : Event → Prop
  | .connected _ => True
  | .closed _ => True
  | _ => False

/-- What `SlotChange` leaves open: permissions and children are as found, only a zombie is
waited for, and the marks of a pending restart or removal stay. -/
structure Observed (k k' : Kernel) (m m' : RunningModule) : Prop where
  permission : m'.moduleRootPermNeeded = m.moduleRootPermNeeded ∨
    ∃ p ∈ k.process m.modulePid, m'.moduleRootPermNeeded = p.foreign
  child : m'.moduleIsMyChild = false → m.moduleIsMyChild = false ∨
    ∀ p ∈ k.process m.modulePid, p.child = false
  waited : ∀ p ∈ k.procs, p ∈ k'.procs ∨
    p.pid = m.modulePid ∧ ∃ q ∈ k.process m.modulePid, q.zombie = true
  served : m'.moduleServedByServiceThread = true → m.moduleServedByServiceThread = true ∨
    m.removeModule = false ∧ m'.initModule = false
  enabled : m'.moduleEnabled = false → m.moduleEnabled = false ∨ m.modulePid ≤ 0

/-- One step of a cycle. A process that it creates has the PID of the turn before. -/
inductive CycleStep : World → World → Prop where
  | turn {w : World} : CycleStep w { w with kernel := w.kernel.turn.2 }
  | noted {w : World} (e : Event) (he : e.linked) :
    CycleStep w { w with kernel := w.kernel.record e }
  | slot {w : World} {x : Nat} {m m' : RunningModule} {k : Kernel}
    (hx : w.sup.loaded[x]? = some m) (h : SlotChange w.sup w.kernel m m' k)
    (ho : Observed w.kernel k m m') (hold : ∀ p ∈ k.procs, p ∈ w.kernel.procs) :
    CycleStep w (({ w with kernel := k } : World).setModule x m')
  | forked {w : World} {x : Nat} {m m' : RunningModule} {k : Kernel}
    (hx : w.sup.loaded[x]? = some m) (h : SlotChange w.sup w.kernel.turn.2 m m' k)
    (ho : Observed w.kernel.turn.2 k m m')
    (hnew : ∀ p ∈ k.procs, p ∈ w.kernel.turn.2.procs ∨
      p.pid = w.kernel.turn.1.forkPid ∧ w.kernel.turn.1.forkPid > 0) :
    CycleStep w (({ w with kernel := k } : World).setModule x m')
  | freed {w : World} {x : Nat} {m : RunningModule} (hx : w.sup.loaded[x]? = some m)
    (hfreed : ServiceState.Freed m) (hpid : m.modulePid ≤ 0) :
    CycleStep w
      { w with
        sup := freeModuleAndShiftArray w.sup x
        kernel := w.kernel.record (.freed m (w.kernel.ownerAlive m.moduleName)) }

abbrev CycleSteps : World → World → Prop := Relation.ReflTransGen CycleStep

theorem CycleStep.reaches {w w' : World} (h : CycleStep w w') : Reaches w w' := by
  cases h with
  | turn => exact (turn_quietly w).reaches
  | noted e he =>
    cases e with
    | connected sd => exact .single (.outside (.connected sd))
    | closed sd => exact .single (.outside (.closed sd))
    | _ => exact absurd he id
  | slot hx h => exact .single (.slot hx h)
  | forked hx h => exact slot_after_turn hx h
  | freed hx hfreed hpid => exact .single (.freed hx hfreed.2.1 hpid)

theorem CycleSteps.reaches {w w' : World} (h : CycleSteps w w') : Reaches w w' := by
  induction h with
  | refl => exact .refl
  | tail _ hstep ih => exact ih.trans hstep.reaches

/-- An invariant of the steps. `N` is what is known of the PIDs that the script gives to
new processes. -/
theorem CycleStep.invariant {I : World → Prop} {N : Int → Prop}
    (hnew : ∀ w : World, I w → w.kernel.turn.1.forkPid > 0 → N w.kernel.turn.1.forkPid)
    (hturn : ∀ w : World, I w → I { w with kernel := w.kernel.turn.2 })
    (hnoted : ∀ (w : World) (e : Event), I w → e.linked → I { w with kernel := w.kernel.record e })
    (hslot : ∀ (w : World) (x : Nat) (m m' : RunningModule) (k : Kernel), I w →
      w.sup.loaded[x]? = some m → SlotChange w.sup w.kernel m m' k → Observed w.kernel k m m' →
      (∀ p ∈ k.procs, p ∈ w.kernel.procs ∨ N p.pid) →
      I (({ w with kernel := k } : World).setModule x m'))
    (hfreed : ∀ (w : World) (x : Nat) (m : RunningModule), I w → w.sup.loaded[x]? = some m →
      ServiceState.Freed m → m.modulePid ≤ 0 →
      I { w with
        sup := freeModuleAndShiftArray w.sup x
        kernel := w.kernel.record (.freed m (w.kernel.ownerAlive m.moduleName)) })
    {w w' : World} (hs : CycleStep w w') (h : I w) : I w' := by
  cases hs with
  | turn => exact hturn w h
  | noted e he => exact hnoted w e h he
  | slot hx hc ho hold => exact hslot w _ _ _ _ h hx hc ho fun p hp => .inl (hold p hp)
  | forked hx hc ho hforked =>
    refine hslot { w with kernel := w.kernel.turn.2 } _ _ _ _ (hturn w h) hx hc ho fun p hp => ?_
    refine (hforked p hp).imp_right fun ⟨hpid, hpos⟩ => ?_
    rw [hpid]
    exact hnew w h hpos
  | freed hx hgone hpid => exact hfreed w _ _ h hx hgone hpid

/-! ## Single changes -/

theorem Observed.same {k k' : Kernel} {m m' : RunningModule} (hprocs : k'.procs = k.procs)
    (hperm : m'.moduleRootPermNeeded = m.moduleRootPermNeeded)
    (hchild : m'.moduleIsMyChild = m.moduleIsMyChild)
    (hserved : m'.moduleServedByServiceThread = m.moduleServedByServiceThread)
    (henabled : m'.moduleEnabled = m.moduleEnabled) : Observed k k' m m' where
  permission := .inl hperm
  child := fun h => .inl (hchild.symm.trans h)
  waited := fun _ hp => .inl (hprocs ▸ hp)
  served := fun h => .inl (hserved.symm.trans h)
  enabled := fun h => .inl (henabled.symm.trans h)

theorem noted_step {w : World} {k : Kernel} {e : Event} (hk : k = w.kernel.record e)
    (he : e.linked) : CycleSteps w { w with kernel := k } := by
  rw [hk]
  exact .single (.noted e he)

theorem closeServiceSd_steps (w : World) (m : RunningModule) :
    CycleSteps w { w with kernel := (closeServiceSd w.kernel m).1 } := by
  unfold closeServiceSd
  split_ifs
  · exact noted_step rfl trivial
  · exact .refl

/-- A slot changes after the world has moved. -/
theorem slot_after_move {w : World} {x : Nat} {m m' : RunningModule} {k : Kernel}
    (hx : w.sup.loaded[x]? = some m) (h : SlotChange w.sup w.kernel.turn.2 m m' k)
    (ho : Observed w.kernel.turn.2 k m m') (hold : ∀ p ∈ k.procs, p ∈ w.kernel.turn.2.procs) :
    CycleSteps w (({ w with kernel := k } : World).setModule x m') :=
  (Relation.ReflTransGen.single .turn).tail
    (CycleStep.slot (w := { w with kernel := w.kernel.turn.2 }) hx h ho hold)

theorem fork_pid {k k' : Kernel} {tracked : Int → Bool} {owner : Option String} {launch : Launch}
    {pid : Int} (h : k.fork tracked owner launch = (some pid, k')) : pid = k.turn.1.forkPid := by
  unfold Kernel.fork at h
  simp only [] at h
  split_ifs at h
  · simp only [Prod.mk.injEq, Option.some.injEq] at h
    exact h.1.symm
  · simp at h

/-! ## The passes -/

theorem kill0_process (k : Kernel) (pid : Int) :
    k.kill0 pid = ((match k.turn.2.process pid with
      | none => .esrch
      | some p => if p.foreign then .eperm else .ok), k.turn.2) := by
  unfold Kernel.kill0 Kernel.process
  simp only []
  cases k.turn.2.procs.find? fun p => p.pid == pid <;> rfl

theorem hasProcess_iff {k : Kernel} {pid : Int} :
    k.hasProcess pid = true ↔ ∃ p, k.process pid = some p := by
  rw [Kernel.hasProcess, List.any_eq_true, Kernel.process, ← Option.isSome_iff_exists,
    List.find?_isSome]

theorem hasProcess_of_none {k : Kernel} {pid : Int} (h : k.process pid = none) :
    k.hasProcess pid = false := by
  rw [← Bool.not_eq_true, hasProcess_iff, h]
  simp

/-- The check makes of a slot what the process with its PID says. -/
theorem checkModuleStatus_found {x : Nat} {w : World} {m : RunningModule}
    (hx : w.sup.loaded[x]? = some m) (hpid : m.modulePid > 0) (n : Nat) :
    (checkModuleStatus x (w, n)).1 = match w.kernel.turn.2.process m.modulePid with
      | none => ({ w with kernel := (closeServiceSd w.kernel.turn.2 m).1 } : World).setModule x
          { m with
            moduleServiceSd := -1
            moduleStatus := false
            moduleServiceIfcIsconnected := false
            modulePid := 0 }
      | some p => ({ w with kernel := w.kernel.turn.2 } : World).setModule x
          { m with moduleStatus := true, moduleRootPermNeeded := p.foreign } := by
  unfold checkModuleStatus
  simp only [hx, hpid, if_true, kill0_process]
  cases w.kernel.turn.2.process m.modulePid with
  | none =>
    obtain ⟨-, -, hm⟩ := closeServiceSd_kernel w.kernel.turn.2 m
    simp only [hm]
  | some p =>
    cases hf : p.foreign <;> simp [hf]

theorem checkModuleStatus_idle {x : Nat} {w : World}
    (h : ∀ m ∈ w.sup.loaded[x]?, m.modulePid ≤ 0) (n : Nat) :
    (checkModuleStatus x (w, n)).1 = w := by
  unfold checkModuleStatus
  simp only []
  cases hx : w.sup.loaded[x]? with
  | none => rfl
  | some m =>
    have hpid : ¬ m.modulePid > 0 := Int.not_lt.mpr (h m hx)
    simp only [hpid, if_false]

theorem running_of_not_idle {x : Nat} {w : World}
    (h : ¬ ∀ m ∈ w.sup.loaded[x]?, m.modulePid ≤ 0) :
    ∃ m, w.sup.loaded[x]? = some m ∧ m.modulePid > 0 := by
  simpa using h

theorem checkModuleStatus_steps (x : Nat) (w : World) (n : Nat) :
    CycleSteps w (checkModuleStatus x (w, n)).1 := by
  by_cases hidle : ∀ m ∈ w.sup.loaded[x]?, m.modulePid ≤ 0
  · rw [checkModuleStatus_idle hidle]
  obtain ⟨m, hx, hpid⟩ := running_of_not_idle hidle
  rw [checkModuleStatus_found hx hpid]
  cases hp : w.kernel.turn.2.process m.modulePid with
  | none =>
    have hclose := closeServiceSd_steps { w with kernel := w.kernel.turn.2 } m
    obtain ⟨-, hprocs, -⟩ := closeServiceSd_kernel w.kernel.turn.2 m
    refine ((Relation.ReflTransGen.single .turn).trans hclose).tail
      (CycleStep.slot (w := { w with kernel := _ }) hx (.gone hpid ?_)
        (.same rfl rfl rfl rfl rfl) fun _ => id)
    have hgone := hasProcess_of_none hp
    rwa [Kernel.hasProcess, ← hprocs] at hgone
  | some p =>
    exact slot_after_move hx (.seen p.foreign hpid (hasProcess_iff.mpr ⟨p, hp⟩))
      ⟨.inr ⟨p, hp, rfl⟩, .inl, fun p hp => .inl hp, .inl, .inl⟩ fun _ => id

theorem serviceStartModule_steps {x : Nat} {m : RunningModule} {w : World}
    (hx : w.sup.loaded[x]? = some m) (h : Startable w.sup m) :
    CycleSteps w (serviceStartModule x m w) := by
  have hcalled : CycleSteps w { w with kernel := w.kernel.record (.startCalled m (w.sup.profileOf m)
      (w.sup.maxRestarts m) (w.kernel.ownerAlive m.moduleName)) } := by
    have hslot := Relation.ReflTransGen.single
      (CycleStep.slot hx (.startCalled h) (.same rfl rfl rfl rfl rfl) fun _ => id)
    rwa [setModule_same hx] at hslot
  unfold serviceStartModule
  simp only []
  generalize w.kernel.record (.startCalled m (w.sup.profileOf m) (w.sup.maxRestarts m)
    (w.kernel.ownerAlive m.moduleName)) = k at hcalled
  rcases fork_spec k (fun pid => w.sup.loaded.any fun m => m.modulePid == pid)
    m.moduleName m.launch with
    hf | ⟨pid, hpid, hproc, htracked, hf⟩
  · rw [hf]
    exact hcalled.trans (slot_after_move (w := { w with kernel := k }) hx (.startFailed h)
      (.same rfl rfl rfl rfl rfl) fun _ => id)
  · rw [hf]
    have hother : ∀ m' ∈ w.sup.loaded, m'.modulePid ≠ pid := by
      intro m' hm' he
      have := List.any_eq_false.mp htracked m' hm'
      simp [he] at this
    refine hcalled.tail (CycleStep.forked (w := { w with kernel := k }) hx
      (.started h hpid hproc hother) ?_ fun p hp => ?_)
    · exact ⟨.inl rfl, fun hc => (by cases hc), fun p hp => .inl (List.mem_cons_of_mem _ hp), .inl,
        .inl⟩
    · rcases List.mem_cons.mp hp with rfl | hp
      · have hturn := fork_pid hf
        exact .inr ⟨hturn, hturn ▸ hpid.1⟩
      · exact .inl hp

theorem updateModuleStatus_steps (x : Nat) (w : World) (hw : Synced w) :
    CycleSteps w (updateModuleStatus x w) := by
  unfold updateModuleStatus
  cases hx : w.sup.loaded[x]? with
  | none => exact .refl
  | some m =>
    have hsame : Observed w.kernel w.kernel m (tickRestartTimer m) := by
      unfold tickRestartTimer
      split_ifs <;> exact .same rfl rfl rfl rfl rfl
    have htick : CycleSteps w (w.setModule x (tickRestartTimer m)) :=
      .single (.slot hx .tick hsame fun _ => id)
    have hx' : (w.setModule x (tickRestartTimer m)).sup.loaded[x]? = some (tickRestartTimer m) :=
      setModule_get hx
    have hsync := hw.reaches htick.reaches _ (List.mem_of_getElem? hx')
    simp only []
    split_ifs with hlimit hstart
    · obtain ⟨-, -, hstatus, hcnt⟩ := hlimit
      exact htick.tail (.slot hx' (.limit hstatus hcnt)
        ⟨.inl rfl, .inl, fun p hp => .inl hp, .inl, fun _ => .inr (hsync hstatus)⟩ fun _ => id)
    · obtain ⟨hprofile, hstatus, henabled⟩ := hstart
      refine htick.trans (serviceStartModule_steps hx' ⟨hprofile, henabled, hstatus, ?_,
        hsync hstatus⟩)
      exact fun hcnt => hlimit ⟨hprofile, henabled, hstatus, hcnt⟩
    · exact htick

theorem cleanAfterChild_steps (x : Nat) (w : World) : CycleSteps w (cleanAfterChild x w) := by
  unfold cleanAfterChild
  cases hx : w.sup.loaded[x]? with
  | none => exact .refl
  | some m =>
    by_cases hchild : m.modulePid > 0 ∧ m.moduleIsMyChild
    swap
    · simp only [hchild, if_false]
      exact .refl
    simp only [hchild, and_self, if_true, Kernel.waitpid]
    cases hp : w.kernel.turn.2.procs.find? fun p => p.pid == m.modulePid with
    | none =>
      refine slot_after_move hx .notChild
        ⟨.inl rfl, fun _ => .inr ?_, fun p hp => .inl hp, .inl, .inl⟩ fun _ => id
      simp [Kernel.process, hp]
    | some p =>
      simp only []
      split_ifs with hc hz
      · refine slot_after_move hx .notChild
          ⟨.inl rfl, fun _ => .inr ?_, fun p hp => .inl hp, .inl, .inl⟩ fun _ => id
        simpa [Kernel.process, hp] using hc
      · exact .single .turn
      · have hzombie : p.zombie = true := by simpa using hz
        have hslot := slot_after_move hx .waited
          ⟨.inl rfl, .inl, fun q hq => ?_, .inl, .inl⟩ fun q hq => List.mem_of_mem_filter hq
        · rwa [setModule_same hx] at hslot
        · by_cases hpid : q.pid = m.modulePid
          · exact .inr ⟨hpid, p, hp, hzombie⟩
          · exact .inl (List.mem_filter.mpr ⟨hq, by simpa using hpid⟩)

theorem stopModuleSigint_steps (x : Nat) (w : World) : CycleSteps w (stopModuleSigint x w) := by
  unfold stopModuleSigint
  cases hx : w.sup.loaded[x]? with
  | none => exact .refl
  | some m =>
    simp only []
    split_ifs with hstop
    · obtain ⟨hstatus, hroot, hdisabled, hsent⟩ := hstop
      exact .single (.slot hx (.sigint hstatus hroot hdisabled hsent)
        (.same rfl rfl rfl rfl rfl) fun _ => id)
    · exact .refl

theorem stopModuleSigkill_steps (x : Nat) (w : World) : CycleSteps w (stopModuleSigkill x w) := by
  unfold stopModuleSigkill
  cases hx : w.sup.loaded[x]? with
  | none => exact .refl
  | some m =>
    simp only []
    split_ifs with hstop
    · obtain ⟨hstatus, hdisabled, hsent⟩ := hstop
      exact .single (.slot hx (.sigkill hstatus hdisabled hsent)
        (.same rfl rfl rfl rfl rfl) fun _ => id)
    · exact .refl

theorem serviceDisconnectFromModule_steps {x : Nat} {m : RunningModule} {w : World}
    (hx : w.sup.loaded[x]? = some m) : CycleSteps w (serviceDisconnectFromModule x m w) := by
  unfold serviceDisconnectFromModule
  split_ifs
  · obtain ⟨-, -, hm⟩ := closeServiceSd_kernel w.kernel m
    simp only [hm]
    exact (closeServiceSd_steps w m).tail
      (CycleStep.slot (w := { w with kernel := _ }) hx (.link _ _ _)
        (.same rfl rfl rfl rfl rfl) fun _ => id)
  · exact .single (.slot hx (.link _ _ _) (.same rfl rfl rfl rfl rfl) fun _ => id)

theorem checkConnection_steps (x : Nat) (w : World) : CycleSteps w (checkConnection x w) := by
  unfold checkConnection
  cases hx : w.sup.loaded[x]? with
  | none => exact .refl
  | some m =>
    simp only []
    split_ifs with hconnect hperiod
    · have hclosed := closeServiceSd_steps w
        { m with serviceIfcConnTimer := m.serviceIfcConnTimer + 1 }
      obtain ⟨-, -, hm⟩ := closeServiceSd_kernel w.kernel
        { m with serviceIfcConnTimer := m.serviceIfcConnTimer + 1 }
      simp only [hm, Kernel.connect]
      generalize (closeServiceSd w.kernel
        { m with serviceIfcConnTimer := m.serviceIfcConnTimer + 1 }).1 = k at hclosed
      have hmoved : CycleSteps w { w with kernel := k.turn.2 } :=
        hclosed.tail (CycleStep.turn (w := { w with kernel := k }))
      split_ifs with hsd
      · have hnoted := hmoved.trans (noted_step (w := { w with kernel := k.turn.2 })
          (e := .connected k.turn.1.connectSd) rfl trivial)
        exact hnoted.tail
          (CycleStep.slot (w := { w with kernel := _ }) hx (.link _ _ _)
            (.same rfl rfl rfl rfl rfl) fun _ => id)
      · exact hmoved.tail
          (CycleStep.slot (w := { w with kernel := _ }) hx (.link _ _ _)
            (.same rfl rfl rfl rfl rfl) fun _ => id)
    · exact .single (.slot hx (.link m.moduleServiceSd m.moduleServiceIfcIsconnected _)
        (.same rfl rfl rfl rfl rfl) fun _ => id)
    · exact .refl

theorem exchange_steps {x : Nat} {m : RunningModule} {w : World}
    (hx : w.sup.loaded[x]? = some m) :
    CycleSteps w (match w.kernel.exchange with
      | (true, k) => { w with kernel := k }
      | (false, k) => serviceDisconnectFromModule x m { w with kernel := k }) := by
  simp only [Kernel.exchange]
  cases w.kernel.turn.1.exchanged with
  | true => exact .single .turn
  | false =>
    exact (Relation.ReflTransGen.single .turn).trans
      (serviceDisconnectFromModule_steps (w := { w with kernel := _ }) hx)

theorem requestStats_steps (x : Nat) (w : World) : CycleSteps w (requestStats x w) := by
  unfold requestStats
  cases hx : w.sup.loaded[x]? with
  | none => exact .refl
  | some m =>
    simp only []
    split_ifs
    · exact exchange_steps hx
    · exact .refl

theorem receiveStats_steps (x : Nat) (w : World) : CycleSteps w (receiveStats x w) := by
  unfold receiveStats
  cases hx : w.sup.loaded[x]? with
  | none => exact .refl
  | some m =>
    simp only []
    split_ifs
    · exact exchange_steps hx
    · exact .refl

/-- A module not yet served loses its marks only when they are acted on. -/
theorem serveModule_steps (y : Nat) (w : World) (hw : Synced w) :
    CycleSteps w (serveModule y w) := by
  unfold serveModule
  cases hy : w.sup.loaded[y]? with
  | none => exact .refl
  | some m =>
    have hsync := hw m (List.mem_of_getElem? hy)
    simp only []
    split_ifs with hserved hremove hstatus hinit hstatus
    · exact .single (.freed hy ⟨hserved, hremove, hstatus⟩ (hsync hstatus))
    · exact .refl
    · have hremove : m.removeModule = false := by simpa using hremove
      exact .single (.slot hy (.reenabled hremove hinit (hsync hstatus))
        ⟨.inl rfl, .inl, fun p hp => .inl hp, fun _ => .inr ⟨hremove, rfl⟩,
          fun h => by simp at h⟩ fun _ => id)
    · exact serviceDisconnectFromModule_steps hy
    · have hremove : m.removeModule = false := by simpa using hremove
      have hinit : m.initModule = false := by simpa using hinit
      exact .single (.slot hy .served
        ⟨.inl rfl, .inl, fun p hp => .inl hp, fun _ => .inr ⟨hremove, hinit⟩, .inl⟩
        fun _ => id)
    · exact .refl

/-! ## Passes that keep every slot in its place -/

/-- The body of a pass changes at most the slot of its index. -/
def OneSlot (body : Nat → World → World) : Prop :=
  ∀ x w, (body x w).sup = w.sup ∨
    ∃ m m', w.sup.loaded[x]? = some m ∧ (body x w).sup = w.sup.setModule x m'

theorem OneSlot.length {body : Nat → World → World} (h : OneSlot body) (x : Nat) (w : World) :
    (body x w).sup.loaded.length = w.sup.loaded.length := by
  rcases h x w with heq | ⟨m, m', -, heq⟩ <;> rw [heq]
  simp [Supervisor.setModule]

theorem OneSlot.other {body : Nat → World → World} (h : OneSlot body) {x y : Nat} (hne : y ≠ x)
    (w : World) : (body x w).sup.loaded[y]? = w.sup.loaded[y]? := by
  rcases h x w with heq | ⟨m, m', -, heq⟩ <;> rw [heq]
  simp [Supervisor.setModule, List.getElem?_set_ne (Ne.symm hne)]

theorem OneSlot.profileOf {body : Nat → World → World} (h : OneSlot body) (x : Nat) (w : World)
    (m : RunningModule) : (body x w).sup.profileOf m = w.sup.profileOf m := by
  rcases h x w with heq | ⟨m, m', -, heq⟩ <;> rw [heq]
  rfl

/-- What the body establishes of its slot and keeps of the others holds of all slots after
the pass. -/
theorem OneSlot.pass {body : Nat → World → World} (hbody : OneSlot body) {I : World → Prop}
    {P : World → RunningModule → Prop} (hkeep : ∀ x w, I w → I (body x w))
    (hown : ∀ x w m, I w → (body x w).sup.loaded[x]? = some m → P (body x w) m)
    (hother : ∀ x w, I w → ∀ m ∈ w.sup.loaded, P w m → P (body x w) m) {w : World} (h : I w) :
    let w' := forRange w.sup.loadedModulesCnt body w
    I w' ∧ ∀ m ∈ w'.sup.loaded, P w' m := by
  have hloop := @forRange_invariant World w.sup.loadedModulesCnt body w
    (fun k t => I t ∧ t.sup.loaded.length = w.sup.loadedModulesCnt ∧
      ∀ y m, y < k → t.sup.loaded[y]? = some m → P t m)
    ⟨h, rfl, fun y m hy => absurd hy (Nat.not_lt_zero y)⟩
    (fun x t hx ⟨hi, hlength, hdone⟩ => by
      refine ⟨hkeep x t hi, (hbody.length x t).trans hlength, fun y m hy hm => ?_⟩
      by_cases hyx : y = x
      · subst hyx
        exact hown y t m hi hm
      · rw [hbody.other hyx] at hm
        exact hother x t hi m (List.mem_of_getElem? hm) (hdone y m (by omega) hm))
  obtain ⟨hi, hlength, hall⟩ := hloop
  refine ⟨hi, fun m hm => ?_⟩
  obtain ⟨y, hy⟩ := List.mem_iff_getElem?.mp hm
  have hlt := (List.getElem?_eq_some_iff.mp hy).1
  exact hall y m (hlength ▸ hlt) hy

/-- The check of one slot without the number of running modules. -/
def checkSlot (x : Nat) (w : World) : World := (checkModuleStatus x (w, 0)).1

theorem checkSlot_found {x : Nat} {w : World} {m : RunningModule}
    (hx : w.sup.loaded[x]? = some m) (hpid : m.modulePid > 0) :
    checkSlot x w = match w.kernel.turn.2.process m.modulePid with
      | none => ({ w with kernel := (closeServiceSd w.kernel.turn.2 m).1 } : World).setModule x
          { m with
            moduleServiceSd := -1
            moduleStatus := false
            moduleServiceIfcIsconnected := false
            modulePid := 0 }
      | some p => ({ w with kernel := w.kernel.turn.2 } : World).setModule x
          { m with moduleStatus := true, moduleRootPermNeeded := p.foreign } :=
  checkModuleStatus_found hx hpid 0

theorem checkSlot_idle {x : Nat} {w : World} (h : ∀ m ∈ w.sup.loaded[x]?, m.modulePid ≤ 0) :
    checkSlot x w = w := checkModuleStatus_idle h 0

theorem checkSlot_steps (x : Nat) (w : World) : CycleSteps w (checkSlot x w) :=
  checkModuleStatus_steps x w 0

theorem setModule_slot {w : World} {k : Kernel} {x : Nat} {m m' m1 : RunningModule}
    (hx : w.sup.loaded[x]? = some m)
    (h : (({ w with kernel := k } : World).setModule x m').sup.loaded[x]? = some m1) : m1 = m' := by
  rw [setModule_get (w := { w with kernel := k }) hx] at h
  exact (Option.some.inj h).symm

/-- A slot after its check. -/
theorem checkSlot_cases {x : Nat} {w : World} {m' : RunningModule}
    (h : (checkSlot x w).sup.loaded[x]? = some m') :
    m'.modulePid ≤ 0 ∧ checkSlot x w = w ∨
      (checkSlot x w).kernel.procs = w.kernel.turn.2.procs ∧
      ∃ m, w.sup.loaded[x]? = some m ∧ m.modulePid > 0 ∧
        (w.kernel.turn.2.process m.modulePid = none ∧ m'.moduleStatus = false ∧ m'.modulePid = 0 ∨
          ∃ p, w.kernel.turn.2.process m.modulePid = some p ∧
            m' = { m with moduleStatus := true, moduleRootPermNeeded := p.foreign }) := by
  by_cases hidle : ∀ m ∈ w.sup.loaded[x]?, m.modulePid ≤ 0
  · rw [checkSlot_idle hidle] at h
    exact .inl ⟨hidle m' h, checkSlot_idle hidle⟩
  obtain ⟨m, hx, hpid⟩ := running_of_not_idle hidle
  rw [checkSlot_found hx hpid] at h ⊢
  cases hproc : w.kernel.turn.2.process m.modulePid with
  | none =>
    simp only [hproc] at h ⊢
    have hm' := setModule_slot hx h
    refine .inr ⟨(closeServiceSd_kernel w.kernel.turn.2 m).2.1, m, hx, hpid, .inl ⟨hproc, ?_, ?_⟩⟩ <;>
      rw [hm']
  | some p =>
    simp only [hproc] at h ⊢
    exact .inr ⟨rfl, m, hx, hpid, .inr ⟨p, hproc, setModule_slot hx h⟩⟩

/-- The number only counts. -/
theorem checkModuleStatus_fst (x : Nat) (st : World × Nat) :
    (checkModuleStatus x st).1 = checkSlot x st.1 := by
  obtain ⟨t, n⟩ := st
  by_cases hidle : ∀ m ∈ t.sup.loaded[x]?, m.modulePid ≤ 0
  · rw [checkModuleStatus_idle hidle, checkSlot_idle hidle]
  · obtain ⟨m, hx, hpid⟩ := running_of_not_idle hidle
    rw [checkModuleStatus_found hx hpid, checkSlot_found hx hpid]

theorem serviceCheckModulesStatus_eq (w : World) : (serviceCheckModulesStatus w).1 =
    forRange w.sup.loadedModulesCnt checkSlot w :=
  forRange_map Prod.fst checkModuleStatus_fst _ (w, 0)

theorem checkSlot_oneSlot : OneSlot checkSlot := by
  intro x w
  by_cases hidle : ∀ m ∈ w.sup.loaded[x]?, m.modulePid ≤ 0
  · exact .inl (by rw [checkSlot_idle hidle])
  obtain ⟨m, hx, hpid⟩ := running_of_not_idle hidle
  refine .inr ⟨m, ?_⟩
  rw [checkSlot_found hx hpid]
  cases w.kernel.turn.2.process m.modulePid with
  | none => exact ⟨_, hx, rfl⟩
  | some p => exact ⟨_, hx, rfl⟩

theorem stopModuleSigint_oneSlot : OneSlot stopModuleSigint := by
  intro x w
  unfold stopModuleSigint
  cases hx : w.sup.loaded[x]? with
  | none => exact .inl rfl
  | some m =>
    simp only []
    split_ifs
    · exact .inr ⟨m, _, rfl, rfl⟩
    · exact .inl rfl

theorem stopModuleSigkill_oneSlot : OneSlot stopModuleSigkill := by
  intro x w
  unfold stopModuleSigkill
  cases hx : w.sup.loaded[x]? with
  | none => exact .inl rfl
  | some m =>
    simp only []
    split_ifs
    · exact .inr ⟨m, _, rfl, rfl⟩
    · exact .inl rfl

theorem cleanAfterChild_oneSlot : OneSlot cleanAfterChild := by
  intro x w
  unfold cleanAfterChild
  cases hx : w.sup.loaded[x]? with
  | none => exact .inl rfl
  | some m =>
    simp only []
    split_ifs
    · cases w.kernel.waitpid m.modulePid with
      | mk r k =>
        cases r with
        | echild => exact .inr ⟨m, _, rfl, rfl⟩
        | stillAlive => exact .inl rfl
        | exited => exact .inl rfl
    · exact .inl rfl

/-! ## The whole cycle -/

/-- A cycle in which the thread stays in its loop. -/
theorem serviceCycle_goes_on {w : World} {turns : List Turn}
    (h : (serviceCycle turns w).serviceExited = false) : serviceCycle turns w =
      serviceCycleBody (serviceCheckModulesStatus { w with kernel := { w.kernel with turns } }).1 := by
  unfold serviceCycle at h ⊢
  split_ifs at h ⊢ with hexited
  · rw [hexited] at h
    cases h
  · simp only [] at h ⊢
    split_ifs at h ⊢
    · cases h
    · rfl

section cycle

variable {w : World}

theorem pass_steps {body : Nat → World → World} (hbody : ∀ x w, CycleSteps w (body x w))
    (n : Nat) (w : World) : CycleSteps w (forRange n body w) :=
  (forRange_reaches (fun _ _ => True) trivial fun x t _ _ => ⟨hbody x t, trivial⟩).1

theorem pass_steps_synced {body : Nat → World → World}
    (hbody : ∀ x w, Synced w → CycleSteps w (body x w)) (n : Nat) {w : World} (hw : Synced w) :
    CycleSteps w (forRange n body w) :=
  (forRange_reaches (fun _ => Synced) hw fun x t _ ht =>
    ⟨hbody x t ht, ht.reaches (hbody x t ht).reaches⟩).1

theorem check_steps (w : World) : CycleSteps w (serviceCheckModulesStatus w).1 := by
  rw [serviceCheckModulesStatus_eq]
  exact pass_steps checkSlot_steps _ w

theorem serveModules_steps (hw : Synced w) : CycleSteps w (serveModules w) :=
  pass_steps_synced serveModule_steps _ hw

theorem serviceUpdateModulesStatus_steps (hw : Synced w) :
    CycleSteps w (serviceUpdateModulesStatus w) :=
  pass_steps_synced updateModuleStatus_steps _ hw

theorem serviceCleanAfterChildren_steps (w : World) : CycleSteps w (serviceCleanAfterChildren w) :=
  pass_steps cleanAfterChild_steps _ w

theorem serviceStopModulesSigkill_steps (w : World) : CycleSteps w (serviceStopModulesSigkill w) :=
  pass_steps stopModuleSigkill_steps _ w

theorem serviceCheckConnections_steps (w : World) : CycleSteps w (serviceCheckConnections w) :=
  pass_steps checkConnection_steps _ w

/-- The end of a cycle, after the modules have been served. -/
theorem exchanges_steps (w : World) : CycleSteps w
    (let w := (serviceCheckModulesStatus w).1
     let w := serviceCheckConnections w
     let w := forRange w.sup.loadedModulesCnt requestStats w
     let w := (serviceCheckModulesStatus w).1
     forRange w.sup.loadedModulesCnt receiveStats w) := by
  have h1 := check_steps w
  have h2 := serviceCheckConnections_steps (serviceCheckModulesStatus w).1
  simp only []
  generalize (serviceCheckModulesStatus w).1 = w1 at h1 h2 ⊢
  generalize serviceCheckConnections w1 = w2 at h2 ⊢
  have h3 := pass_steps requestStats_steps w2.sup.loadedModulesCnt w2
  generalize forRange w2.sup.loadedModulesCnt requestStats w2 = w3 at h3 ⊢
  have h4 := check_steps w3
  generalize (serviceCheckModulesStatus w3).1 = w4 at h4 ⊢
  exact (((h1.trans h2).trans h3).trans h4).trans (pass_steps receiveStats_steps _ w4)

theorem serviceStopModulesSigint_steps (w : World) : CycleSteps w (serviceStopModulesSigint w) :=
  pass_steps stopModuleSigint_steps _ w

/-- A cycle up to the pass that serves modules. -/
def beforeServing (w : World) : World :=
  serviceCleanAfterChildren (serviceStopModulesSigkill (serviceCheckModulesStatus
    (serviceCleanAfterChildren (serviceStopModulesSigint (serviceUpdateModulesStatus w)))).1)

theorem afterUpdate_steps (w : World) :
    CycleSteps (serviceUpdateModulesStatus w) (beforeServing w) :=
  ((((serviceStopModulesSigint_steps _).trans (serviceCleanAfterChildren_steps _)).trans
    (check_steps _)).trans (serviceStopModulesSigkill_steps _)).trans
      (serviceCleanAfterChildren_steps _)

theorem beforeServing_steps (hw : Synced w) : CycleSteps w (beforeServing w) :=
  (serviceUpdateModulesStatus_steps hw).trans (afterUpdate_steps w)

theorem afterServing_steps (w : World) :
    CycleSteps (serveModules (beforeServing w)) (serviceCycleBody w) := by
  have h := exchanges_steps (serveModules (beforeServing w))
  unfold serviceCycleBody
  unfold beforeServing at h ⊢
  simp only [] at h ⊢
  exact h

theorem serviceCycleBody_steps (hw : Synced w) : CycleSteps w (serviceCycleBody w) := by
  have hbefore := beforeServing_steps hw
  exact (hbefore.trans (serveModules_steps (hw.reaches hbefore.reaches))).trans
    (afterServing_steps w)

theorem serviceThreadExit_steps (w : World) : ∃ w1, CycleSteps w w1 ∧
    serviceThreadExit w = { w1 with serviceExited := true } := by
  refine ⟨_, pass_steps (fun x t => ?_) _ w, rfl⟩
  unfold disconnectModule
  cases hx : t.sup.loaded[x]? with
  | none => exact .refl
  | some m => exact serviceDisconnectFromModule_steps hx

/-- Any cycle, also one that changes nothing or that leaves the loop. -/
theorem serviceCycle_steps (turns : List Turn) (w : World) : serviceCycle turns w = w ∨
    ∃ w1, CycleSteps { w with kernel := { w.kernel with turns } } w1 ∧
      (serviceCycle turns w = w1 ∨ serviceCycle turns w = { w1 with serviceExited := true }) := by
  unfold serviceCycle
  split_ifs
  · exact .inl rfl
  have hcheck := check_steps { w with kernel := { w.kernel with turns } }
  have hsync := (serviceCheckModulesStatus_quietly { w with kernel := { w.kernel with turns } }).2
  generalize serviceCheckModulesStatus { w with kernel := { w.kernel with turns } } = st
    at hcheck hsync ⊢
  simp only []
  split_ifs
  · obtain ⟨w1, hexit, heq⟩ := serviceThreadExit_steps st.1
    exact .inr ⟨w1, hcheck.trans hexit, .inr heq⟩
  · exact .inr ⟨_, hcheck.trans (serviceCycleBody_steps hsync), .inl rfl⟩

/-- What the steps of a cycle preserve, every cycle preserves. -/
theorem serviceCycle_invariant {I : World → Prop} (hscript : ∀ w turns, I w →
      I { w with kernel := { w.kernel with turns } })
    (hstep : ∀ w w', I w → CycleStep w w' → I w')
    (hexit : ∀ w, I w → I { w with serviceExited := true }) (turns : List Turn) (h : I w) :
    I (serviceCycle turns w) := by
  rcases serviceCycle_steps turns w with heq | ⟨w1, hsteps, heq | heq⟩ <;> rw [heq]
  · exact h
  · exact reaches_invariant hstep hsteps (hscript w turns h)
  · exact hexit w1 (reaches_invariant hstep hsteps (hscript w turns h))

end cycle

end NemeaSupervisor
