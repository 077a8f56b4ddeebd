import NemeaSupervisor.Service

/-!
# The atomic changes of a service cycle

A service cycle is a chain of atomic changes, each of one slot or of the system
outside. `SlotChange` says all that may happen to a slot, guards included; every
invariant of a run is proved for the atomic changes only. The guards on the PID
are not tests of the source: they hold because the first check of a cycle has
brought the status of every module in line with its PID.
-/

namespace NemeaSupervisor

open Loop

/-- What the system does on its own, and the record of connections. -/
inductive Outside : Kernel → Kernel → Prop where
  | move {k : Kernel} (mv : Move) : Outside k (k.move mv)
  | script {k : Kernel} (turns : List Turn) : Outside k { k with turns }
  | connected {k : Kernel} (sd : Int) : Outside k (k.record (.connected sd))
  | closed {k : Kernel} (sd : Int) : Outside k (k.record (.closed sd))

/-- A module that `service_update_modules_status` starts. -/
structure Startable (s : Supervisor) (m : RunningModule) : Prop where
  profile : s.profileEnabled m = true
  enabled : m.moduleEnabled = true
  status : m.moduleStatus = false
  limit : m.moduleRestartCnt ≠ s.maxRestarts m
  pid : m.modulePid ≤ 0

/-- One change of a slot, with the system before and after it. -/
inductive SlotChange (s : Supervisor) (k : Kernel) (m : RunningModule) :
    RunningModule → Kernel → Prop where
  | seen (rootPermNeeded : Bool) (hpid : m.modulePid > 0)
    (hproc : k.hasProcess m.modulePid = true) :
    SlotChange s k m { m with moduleStatus := true, moduleRootPermNeeded := rootPermNeeded } k
  | gone (hpid : m.modulePid > 0) (hproc : k.hasProcess m.modulePid = false) :
    SlotChange s k m
      { m with
        moduleServiceSd := -1
        moduleStatus := false
        moduleServiceIfcIsconnected := false
        modulePid := 0 } k
  | notChild : SlotChange s k m { m with moduleIsMyChild := false } k
  | waited : SlotChange s k m m { k with procs := k.procs.filter fun p => p.pid != m.modulePid }
  | sigint (hstatus : m.moduleStatus = true) (hroot : m.moduleRootPermNeeded = false)
    (hdisabled : s.profileDisabled m = true ∨ m.moduleEnabled = false)
    (hsent : m.sentSigint = false) :
    SlotChange s k m { m with sentSigint := true, moduleRestartCnt := -1 }
      (k.record (.sigint m (s.profileOf m)))
  | sigkill (hstatus : m.moduleStatus = true)
    (hdisabled : m.moduleEnabled = false ∨ s.profileDisabled m = true)
    (hsent : m.sentSigint = true) :
    SlotChange s k m { m with moduleRestartCnt := -1 } (k.record (.sigkill m (s.profileOf m)))
  | tick : SlotChange s k m (tickRestartTimer m) k
  | limit (hstatus : m.moduleStatus = false) (hcnt : m.moduleRestartCnt = s.maxRestarts m) :
    SlotChange s k m { m with moduleEnabled := false } k
  | startCalled (h : Startable s m) :
    SlotChange s k m m
      (k.record (.startCalled m (s.profileOf m) (s.maxRestarts m) (k.ownerAlive m.moduleName)))
  | startFailed (h : Startable s m) :
    SlotChange s k m
      { initModuleVariables m with
        modulePid := -1
        moduleStatus := false
        moduleRestartCnt := m.moduleRestartCnt + 1 } k
  | started (h : Startable s m) {pid : Int} (hpid : pid > 0 ∧ pid ≤ 2147483647)
    (hproc : k.hasProcess pid = false)
    (htracked : ∀ m ∈ s.loaded, m.modulePid ≠ pid) :
    SlotChange s k m
      { initModuleVariables m with
        modulePid := pid
        moduleIsMyChild := true
        moduleStatus := true
        moduleRestartCnt := m.moduleRestartCnt + 1
        moduleRestartTimer := if m.moduleRestartCnt + 1 = 1 then 0 else m.moduleRestartTimer }
      (Kernel.record
        { k with procs := ⟨pid, m.moduleName, false, true, false, some m.launch⟩ :: k.procs }
        (.started m (s.profileOf m) pid))
  | reenabled (hremove : m.removeModule = false) (hinit : m.initModule = true)
    (hpid : m.modulePid ≤ 0) :
    SlotChange s k m
      { m with
        moduleEnabled := true
        moduleRestartCnt := -1
        initModule := false
        moduleServedByServiceThread := true } k
  | served : SlotChange s k m { m with moduleServedByServiceThread := true } k
  | link (sd : Int) (connected : Bool) (timer : Nat) :
    SlotChange s k m
      { m with
        moduleServiceSd := sd
        moduleServiceIfcIsconnected := connected
        serviceIfcConnTimer := timer } k

/-- One atomic change. -/
inductive Change : World → World → Prop where
  | outside {w : World} {k : Kernel} (h : Outside w.kernel k) : Change w { w with kernel := k }
  | slot {w : World} {x : Nat} {m m' : RunningModule} {k : Kernel}
    (hx : w.sup.loaded[x]? = some m) (h : SlotChange w.sup w.kernel m m' k) :
    Change w (({ w with kernel := k } : World).setModule x m')
  | freed {w : World} {x : Nat} {m : RunningModule} (hx : w.sup.loaded[x]? = some m)
    (hremove : m.removeModule = true) (hpid : m.modulePid ≤ 0) :
    Change w
      { w with
        sup := freeModuleAndShiftArray w.sup x
        kernel := w.kernel.record (.freed m (w.kernel.ownerAlive m.moduleName)) }
  | exited {w : World} : Change w { w with serviceExited := true }

/-- A chain of atomic changes. -/
abbrev Reaches : World → World → Prop := Relation.ReflTransGen Change

/-! ## Changes outside `service_update_modules_status` -/

def Event.isStart : Event → Bool
  | .startCalled .. => true
  | .started .. => true
  | _ => false

/-- What the other passes do to the restart counter of a slot and what decides on
starts: nothing, unless the module is being stopped or a restart was pending. -/
inductive Calm (s : Supervisor) (m m' : RunningModule) : Prop where
  | kept (hcnt : m'.moduleRestartCnt = m.moduleRestartCnt)
    (htimer : m'.moduleRestartTimer = m.moduleRestartTimer)
    (henabled : m'.moduleEnabled = m.moduleEnabled) (hinit : m'.initModule = m.initModule)
  | stopped (hdisabled : s.profileDisabled m = true ∨ m.moduleEnabled = false)
    (hcnt : m'.moduleRestartCnt = -1) (htimer : m'.moduleRestartTimer = m.moduleRestartTimer)
    (henabled : m'.moduleEnabled = m.moduleEnabled) (hinit : m'.initModule = m.initModule)
  | reenabled (hpending : m.initModule = true) (hcnt : m'.moduleRestartCnt = -1)
    (htimer : m'.moduleRestartTimer = m.moduleRestartTimer)

/-- An atomic change that neither ticks nor starts. -/
inductive Quiet : World → World → Prop where
  | outside {w : World} {k : Kernel} (h : Outside w.kernel k) : Quiet w { w with kernel := k }
  | slot {w : World} {x : Nat} {m m' : RunningModule} {k : Kernel}
    (hx : w.sup.loaded[x]? = some m) (h : SlotChange w.sup w.kernel m m' k)
    (hcalm : Calm w.sup m m')
    (hstarts : k.trace.filter Event.isStart = w.kernel.trace.filter Event.isStart) :
    Quiet w (({ w with kernel := k } : World).setModule x m')
  | freed {w : World} {x : Nat} {m : RunningModule} (hx : w.sup.loaded[x]? = some m)
    (hremove : m.removeModule = true) (hpid : m.modulePid ≤ 0) :
    Quiet w
      { w with
        sup := freeModuleAndShiftArray w.sup x
        kernel := w.kernel.record (.freed m (w.kernel.ownerAlive m.moduleName)) }
  | exited {w : World} : Quiet w { w with serviceExited := true }

theorem Quiet.change {w w' : World} (h : Quiet w w') : Change w w' := by
  cases h with
  | outside h => exact .outside h
  | slot hx h => exact .slot hx h
  | freed hx hremove hpid => exact .freed hx hremove hpid
  | exited => exact .exited

abbrev Quietly : World → World → Prop := Relation.ReflTransGen Quiet

theorem Quietly.reaches {w w' : World} (h : Quietly w w') : Reaches w w' :=
  Relation.ReflTransGen.mono (r := Quiet) (fun _ _ hq => hq.change) w w' h

/-! ## The effect on the loaded slots -/

theorem setModule_get {w : World} {x : Nat} {m m' : RunningModule}
    (hx : w.sup.loaded[x]? = some m) : (w.setModule x m').sup.loaded[x]? = some m' := by
  have hlt : x < w.sup.loaded.length := (List.getElem?_eq_some_iff.mp hx).1
  simp [World.setModule, Supervisor.setModule, hlt]

theorem setModule_same {w : World} {x : Nat} {m : RunningModule}
    (hx : w.sup.loaded[x]? = some m) (k : Kernel) :
    ({ w with kernel := k } : World).setModule x m = { w with kernel := k } := by
  obtain ⟨hlt, rfl⟩ := List.getElem?_eq_some_iff.mp hx
  simp [World.setModule, Supervisor.setModule]

/-- A slot after an assignment is the assigned one or an old one. -/
theorem mem_setModule {w : World} {x : Nat} {m m1 : RunningModule}
    (h : m1 ∈ (w.setModule x m).sup.loaded) : m1 = m ∨ m1 ∈ w.sup.loaded :=
  (List.mem_or_eq_of_mem_set h).symm

theorem getElem?_setModule {s : Supervisor} {x y : Nat} {m m1 m' : RunningModule}
    (hx : s.loaded[x]? = some m) (h : (s.setModule x m').loaded[y]? = some m1) :
    y = x ∧ m1 = m' ∨ y ≠ x ∧ s.loaded[y]? = some m1 := by
  have hlt := (List.getElem?_eq_some_iff.mp hx).1
  simp only [Supervisor.setModule, List.getElem?_set] at h
  by_cases hxy : x = y
  · rw [if_pos hxy, if_pos hlt] at h
    exact .inl ⟨hxy.symm, (Option.some.inj h).symm⟩
  · rw [if_neg hxy] at h
    exact .inr ⟨fun he => hxy he.symm, h⟩

theorem mem_freed {s : Supervisor} {x : Nat} {m : RunningModule}
    (h : m ∈ (freeModuleAndShiftArray s x).loaded) : m ∈ s.loaded := by
  unfold freeModuleAndShiftArray at h
  split_ifs at h
  · exact List.mem_of_mem_eraseIdx h
  · exact h

/-! ## The status is in line with the PIDs -/

/-- A module without a running process has no PID. -/
def Synced (w : World) : Prop := ∀ m ∈ w.sup.loaded, m.moduleStatus = false → m.modulePid ≤ 0

theorem SlotChange.synced {s : Supervisor} {k k' : Kernel} {m m' : RunningModule}
    (h : SlotChange s k m m' k') (hm : m.moduleStatus = false → m.modulePid ≤ 0) :
    m'.moduleStatus = false → m'.modulePid ≤ 0 := by
  cases h with
  | gone | startFailed => simp
  | tick =>
    unfold tickRestartTimer
    split_ifs <;> exact hm
  | seen | started => simp
  | _ => exact hm

theorem Synced.change {w w' : World} (hw : Synced w) (h : Change w w') : Synced w' := by
  cases h with
  | outside => exact hw
  | slot hx h =>
    intro m hm
    rcases mem_setModule hm with rfl | hm
    · exact h.synced (hw _ (List.mem_of_getElem? hx))
    · exact hw m hm
  | freed hx => exact fun m hm => hw m (mem_freed hm)
  | exited => exact hw

theorem Synced.reaches {w w' : World} (hw : Synced w) (h : Reaches w w') : Synced w' :=
  reaches_invariant (fun _ _ hs hc => hs.change hc) h hw

/-- A loop whose body is a chain of changes on synced states. -/
theorem forRange_changes {body : Nat → World → World}
    (hbody : ∀ x w, Synced w → Reaches w (body x w)) (n : Nat) {w : World} (hw : Synced w) :
    Reaches w (forRange n body w) :=
  (forRange_reaches (fun _ => Synced) hw fun x t _ ht =>
    ⟨hbody x t ht, ht.reaches (hbody x t ht)⟩).1

theorem forRange_quietly {body : Nat → World → World}
    (hbody : ∀ x w, Synced w → Quietly w (body x w)) (n : Nat) {w : World} (hw : Synced w) :
    Quietly w (forRange n body w) :=
  (forRange_reaches (fun _ => Synced) hw fun x t _ ht =>
    ⟨hbody x t ht, ht.reaches (hbody x t ht).reaches⟩).1

/-! ## System calls -/

theorem outside_quietly {k k' : Kernel} (h : Relation.ReflTransGen Outside k k') (w : World)
    (hw : w.kernel = k) : Quietly w { w with kernel := k' } := by
  induction h with
  | refl =>
    subst hw
    exact .refl
  | tail _ hstep ih => exact ih.tail (Quiet.outside (w := { w with kernel := _ }) hstep)

theorem moves_outside (k : Kernel) (mvs : List Move) :
    Relation.ReflTransGen Outside k (mvs.foldl Kernel.move k) := by
  induction mvs generalizing k with
  | nil => exact .refl
  | cons mv mvs ih => exact (Relation.ReflTransGen.single (.move mv)).trans (ih _)

theorem turn_outside (k : Kernel) : Relation.ReflTransGen Outside k k.turn.2 := by
  unfold Kernel.turn
  cases k.turns with
  | nil => exact .refl
  | cons t turns => exact (Relation.ReflTransGen.single (.script turns)).trans (moves_outside _ _)

theorem turn_trace (k : Kernel) : k.turn.2.trace = k.trace := by
  unfold Kernel.turn
  cases k.turns with
  | nil => rfl
  | cons t turns =>
    refine foldl_const (π := Kernel.trace) (fun k mv => ?_) t.moves { k with turns }
    cases mv <;> rfl

theorem turn_quietly (w : World) : Quietly w { w with kernel := w.kernel.turn.2 } :=
  outside_quietly (turn_outside w.kernel) w rfl

/-- A slot change right after the world has moved. -/
theorem slot_after_turn {w : World} {x : Nat} {m m' : RunningModule} {k : Kernel}
    (hx : w.sup.loaded[x]? = some m) (h : SlotChange w.sup w.kernel.turn.2 m m' k) :
    Reaches w (({ w with kernel := k } : World).setModule x m') :=
  (turn_quietly w).reaches.tail (Change.slot (w := { w with kernel := w.kernel.turn.2 }) hx h)

theorem quietly_after_turn {w : World} {x : Nat} {m m' : RunningModule} {k : Kernel}
    (hx : w.sup.loaded[x]? = some m) (h : SlotChange w.sup w.kernel.turn.2 m m' k)
    (hcalm : Calm w.sup m m') (htrace : k.trace = w.kernel.turn.2.trace) :
    Quietly w (({ w with kernel := k } : World).setModule x m') :=
  (turn_quietly w).tail
    (Quiet.slot (w := { w with kernel := w.kernel.turn.2 }) hx h hcalm (by rw [htrace]))

/-- `kill(pid, 0)` fails with ESRCH exactly when the process is gone. -/
theorem kill0_spec (k : Kernel) (pid : Int) :
    ∃ r, k.kill0 pid = (r, k.turn.2) ∧
      (r = .esrch ↔ k.turn.2.hasProcess pid = false) := by
  unfold Kernel.kill0
  simp only []
  cases hf : k.turn.2.procs.find? fun p => p.pid == pid with
  | none =>
    refine ⟨.esrch, rfl, ?_⟩
    rw [Kernel.hasProcess, List.any_eq_false]
    exact ⟨fun _ => List.find?_eq_none.mp hf, fun _ => rfl⟩
  | some p =>
    have hproc : k.turn.2.hasProcess pid = true :=
      List.any_eq_true.mpr ⟨p, List.mem_of_find?_eq_some hf, by simpa using List.find?_some hf⟩
    rw [hproc]
    refine ⟨_, rfl, ?_⟩
    cases p.foreign <;> simp

/-- What waiting for a child does to the processes. -/
theorem waitpid_spec (k : Kernel) (pid : Int) :
    ∃ r, (k.waitpid pid = (r, k.turn.2) ∧ r ≠ .exited) ∨
      k.waitpid pid =
        (.exited, { k.turn.2 with procs := k.turn.2.procs.filter fun p => p.pid != pid }) := by
  unfold Kernel.waitpid
  simp only []
  cases k.turn.2.procs.find? fun p => p.pid == pid with
  | none => exact ⟨.echild, .inl ⟨rfl, by simp⟩⟩
  | some p =>
    simp only []
    split_ifs
    · exact ⟨.echild, .inl ⟨rfl, by simp⟩⟩
    · exact ⟨.stillAlive, .inl ⟨rfl, by simp⟩⟩
    · exact ⟨.exited, .inr rfl⟩

theorem closeServiceSd_kernel (k : Kernel) (m : RunningModule) :
    Relation.ReflTransGen Outside k (closeServiceSd k m).1 ∧ (closeServiceSd k m).1.procs = k.procs ∧
      (closeServiceSd k m).2 = { m with moduleServiceSd := -1 } := by
  unfold closeServiceSd
  split_ifs with h
  · exact ⟨.single (.closed _), rfl, rfl⟩
  · have hsd : m.moduleServiceSd = -1 := by simpa using h
    exact ⟨.refl, rfl, by rw [← hsd]⟩

/-! ## The passes -/

/-- The body of the check brings one slot in line and leaves the others alone. -/
theorem checkModuleStatus_spec (x : Nat) (w : World) (n : Nat) :
    Quietly w (checkModuleStatus x (w, n)).1 ∧
      ((checkModuleStatus x (w, n)).1 = w ∧
          (∀ m, w.sup.loaded[x]? = some m → m.modulePid ≤ 0) ∨
        ∃ m' k, (checkModuleStatus x (w, n)).1 = ({ w with kernel := k } : World).setModule x m' ∧
          (m'.moduleStatus = false → m'.modulePid ≤ 0)) := by
  unfold checkModuleStatus
  simp only []
  cases hx : w.sup.loaded[x]? with
  | none => exact ⟨.refl, .inl ⟨rfl, by simp⟩⟩
  | some m =>
    by_cases hpid : m.modulePid > 0
    · simp only [hpid, if_true]
      obtain ⟨r, hr, hgone⟩ := kill0_spec w.kernel m.modulePid
      have hproc : r ≠ .esrch → w.kernel.turn.2.hasProcess m.modulePid = true := by
        intro hne
        rwa [← Bool.not_eq_false, ← hgone]
      rw [hr]
      cases r with
      | eperm =>
        exact ⟨quietly_after_turn hx (.seen true hpid (hproc (by simp))) (.kept rfl rfl rfl rfl) rfl,
          .inr ⟨_, _, rfl, by simp⟩⟩
      | ok =>
        exact ⟨quietly_after_turn hx (.seen false hpid (hproc (by simp))) (.kept rfl rfl rfl rfl) rfl,
          .inr ⟨_, _, rfl, by simp⟩⟩
      | esrch =>
        obtain ⟨hclose, hprocs, hm⟩ := closeServiceSd_kernel w.kernel.turn.2 m
        simp only [hm]
        refine ⟨((turn_quietly w).trans (outside_quietly hclose _ rfl)).tail
          (Quiet.slot (w := { w with kernel := (closeServiceSd w.kernel.turn.2 m).1 }) hx ?_
            (.kept rfl rfl rfl rfl) rfl), .inr ⟨_, _, rfl, by simp⟩⟩
        refine .gone hpid ?_
        rw [Kernel.hasProcess, hprocs]
        exact hgone.mp rfl
    · simp only [hpid, if_false]
      refine ⟨.refl, .inl ⟨trivial, ?_⟩⟩
      rintro _ ⟨⟩
      omega

/-- The check pass brings every slot in line, whatever it was before. -/
theorem serviceCheckModulesStatus_quietly (w : World) :
    Quietly w (serviceCheckModulesStatus w).1 ∧ Synced (serviceCheckModulesStatus w).1 := by
  have hloop : Quietly w (serviceCheckModulesStatus w).1 ∧
      (serviceCheckModulesStatus w).1.sup.loaded.length = w.sup.loaded.length ∧
      ∀ y m, y < w.sup.loadedModulesCnt →
        (serviceCheckModulesStatus w).1.sup.loaded[y]? = some m →
        m.moduleStatus = false → m.modulePid ≤ 0 := by
    refine forRange_invariant (s := (w, 0)) (fun x (st : World × Nat) => Quietly w st.1 ∧
      st.1.sup.loaded.length = w.sup.loaded.length ∧
      ∀ y m, y < x → st.1.sup.loaded[y]? = some m → m.moduleStatus = false → m.modulePid ≤ 0)
      ⟨.refl, rfl, fun y m hy => absurd hy (Nat.not_lt_zero y)⟩ ?_
    rintro x ⟨t, n⟩ hx ⟨hreach, hlen, hdone⟩
    obtain ⟨hbody, hslot⟩ := checkModuleStatus_spec x t n
    refine ⟨hreach.trans hbody, ?_⟩
    rcases hslot with ⟨heq, hpid⟩ | ⟨m', k, heq, hsync⟩
    · rw [heq]
      refine ⟨hlen, fun y m hy hm hs => ?_⟩
      rcases Nat.lt_succ_iff_lt_or_eq.mp hy with hlt | rfl
      · exact hdone y m hlt hm hs
      · exact hpid m hm
    · rw [heq]
      refine ⟨by simpa [World.setModule, Supervisor.setModule] using hlen, fun y m hy hm hs => ?_⟩
      simp only [World.setModule, Supervisor.setModule, List.getElem?_set] at hm
      by_cases hxy : x = y
      · rw [if_pos hxy] at hm
        split_ifs at hm
        · rw [← Option.some.inj hm] at hs ⊢
          exact hsync hs
      · rw [if_neg hxy] at hm
        exact hdone y m (by omega) hm hs
  obtain ⟨hreach, hlen, hall⟩ := hloop
  refine ⟨hreach, fun m hm hs => ?_⟩
  obtain ⟨y, hy⟩ := List.mem_iff_getElem?.mp hm
  have hlt : y < w.sup.loadedModulesCnt := by
    have := (List.getElem?_eq_some_iff.mp hy).1
    rwa [hlen] at this
  exact hall y m hlt hy hs

theorem cleanAfterChild_quietly (x : Nat) (w : World) : Quietly w (cleanAfterChild x w) := by
  unfold cleanAfterChild
  cases hx : w.sup.loaded[x]? with
  | none => exact .refl
  | some m =>
    by_cases hchild : m.modulePid > 0 ∧ m.moduleIsMyChild
    · simp only [hchild, and_self, if_true]
      obtain ⟨r, ⟨hr, hne⟩ | hr⟩ := waitpid_spec w.kernel m.modulePid
      · rw [hr]
        cases r with
        | echild => exact quietly_after_turn hx .notChild (.kept rfl rfl rfl rfl) rfl
        | stillAlive => exact turn_quietly w
        | exited => exact absurd rfl hne
      · rw [hr]
        have hslot := quietly_after_turn hx .waited (.kept rfl rfl rfl rfl) rfl
        rwa [setModule_same hx] at hslot
    · simp only [hchild, if_false]
      exact .refl

theorem stopModuleSigint_quietly (x : Nat) (w : World) : Quietly w (stopModuleSigint x w) := by
  unfold stopModuleSigint
  cases hx : w.sup.loaded[x]? with
  | none => exact .refl
  | some m =>
    simp only []
    split_ifs with hstop
    · obtain ⟨hstatus, hroot, hdisabled, hsent⟩ := hstop
      exact .single (.slot hx (.sigint hstatus hroot hdisabled hsent)
        (.stopped hdisabled rfl rfl rfl rfl) rfl)
    · exact .refl

theorem stopModuleSigkill_quietly (x : Nat) (w : World) : Quietly w (stopModuleSigkill x w) := by
  unfold stopModuleSigkill
  cases hx : w.sup.loaded[x]? with
  | none => exact .refl
  | some m =>
    simp only []
    split_ifs with hstop
    · obtain ⟨hstatus, hdisabled, hsent⟩ := hstop
      exact .single (.slot hx (.sigkill hstatus hdisabled hsent)
        (.stopped hdisabled.symm rfl rfl rfl rfl) rfl)
    · exact .refl

/-- `fork` after the start has been recorded. -/
theorem fork_spec (k : Kernel) (tracked : Int → Bool) (owner : Option String) (launch : Launch) :
    k.fork tracked owner launch = (none, k.turn.2) ∨
      ∃ pid, (pid > 0 ∧ pid ≤ 2147483647) ∧ k.turn.2.hasProcess pid = false ∧ tracked pid = false ∧
        k.fork tracked owner launch = (some pid,
          { k.turn.2 with
            procs := ⟨pid, owner, false, true, false, some launch⟩ :: k.turn.2.procs }) := by
  unfold Kernel.fork
  simp only []
  split_ifs with hf
  · exact .inr ⟨_, hf.1, hf.2.1, hf.2.2, rfl⟩
  · exact .inl rfl

theorem serviceStartModule_reaches {x : Nat} {m : RunningModule} {w : World}
    (hx : w.sup.loaded[x]? = some m) (h : Startable w.sup m) :
    Reaches w (serviceStartModule x m w) := by
  have hcalled : Reaches w { w with kernel := w.kernel.record (.startCalled m (w.sup.profileOf m)
      (w.sup.maxRestarts m) (w.kernel.ownerAlive m.moduleName)) } := by
    have hslot := Relation.ReflTransGen.single (Change.slot hx (.startCalled h))
    rwa [setModule_same hx] at hslot
  unfold serviceStartModule
  simp only []
  generalize w.kernel.record (.startCalled m (w.sup.profileOf m) (w.sup.maxRestarts m)
    (w.kernel.ownerAlive m.moduleName)) = k at hcalled
  rcases fork_spec k (fun pid => w.sup.loaded.any fun m => m.modulePid == pid)
    m.moduleName m.launch with
    hf | ⟨pid, hpid, hproc, htracked, hf⟩
  · rw [hf]
    exact hcalled.trans (slot_after_turn (w := { w with kernel := k }) hx (.startFailed h))
  · rw [hf]
    refine hcalled.trans (slot_after_turn (w := { w with kernel := k }) hx
      (.started h hpid hproc ?_))
    intro m' hm' he
    have := List.any_eq_false.mp htracked m' hm'
    simp [he] at this

theorem updateModuleStatus_reaches (x : Nat) (w : World) (hw : Synced w) :
    Reaches w (updateModuleStatus x w) := by
  unfold updateModuleStatus
  cases hx : w.sup.loaded[x]? with
  | none => exact .refl
  | some m =>
    have htick : Reaches w (w.setModule x (tickRestartTimer m)) := .single (.slot hx .tick)
    have hx' : (w.setModule x (tickRestartTimer m)).sup.loaded[x]? = some (tickRestartTimer m) :=
      setModule_get hx
    have hsync := hw.reaches htick _ (List.mem_of_getElem? hx')
    simp only []
    split_ifs with hlimit hstart
    · obtain ⟨-, -, hstatus, hcnt⟩ := hlimit
      exact htick.tail (.slot hx' (.limit hstatus hcnt))
    · obtain ⟨hprofile, hstatus, henabled⟩ := hstart
      refine htick.trans (serviceStartModule_reaches hx' ⟨hprofile, henabled, hstatus, ?_,
        hsync hstatus⟩)
      exact fun hcnt => hlimit ⟨hprofile, henabled, hstatus, hcnt⟩
    · exact htick

theorem serviceDisconnectFromModule_quietly {x : Nat} {m : RunningModule} {w : World}
    (hx : w.sup.loaded[x]? = some m) : Quietly w (serviceDisconnectFromModule x m w) := by
  unfold serviceDisconnectFromModule
  split_ifs with hconnected
  · obtain ⟨hclose, -, hm⟩ := closeServiceSd_kernel w.kernel m
    simp only [hm]
    exact (outside_quietly hclose w rfl).tail
      (Quiet.slot (w := { w with kernel := (closeServiceSd w.kernel m).1 }) hx (.link _ _ _)
        (.kept rfl rfl rfl rfl) rfl)
  · exact .single (.slot hx (.link _ _ _) (.kept rfl rfl rfl rfl) rfl)

theorem serveModule_quietly (y : Nat) (w : World) (hw : Synced w) :
    Quietly w (serveModule y w) := by
  unfold serveModule
  cases hy : w.sup.loaded[y]? with
  | none => exact .refl
  | some m =>
    have hsync := hw m (List.mem_of_getElem? hy)
    simp only []
    split_ifs with hserved hremove hstatus hinit hstatus
    · exact .single (.freed hy hremove (hsync hstatus))
    · exact .refl
    · exact .single (.slot hy (.reenabled (by simpa using hremove) hinit (hsync hstatus))
        (.reenabled hinit rfl rfl) rfl)
    · exact serviceDisconnectFromModule_quietly hy
    · exact .single (.slot hy .served (.kept rfl rfl rfl rfl) rfl)
    · exact .refl

theorem checkConnection_quietly (x : Nat) (w : World) : Quietly w (checkConnection x w) := by
  unfold checkConnection
  cases hx : w.sup.loaded[x]? with
  | none => exact .refl
  | some m =>
    simp only []
    split_ifs with hconnect hperiod
    · obtain ⟨hclose, -, hm⟩ := closeServiceSd_kernel w.kernel
        { m with serviceIfcConnTimer := m.serviceIfcConnTimer + 1 }
      have hclosed := outside_quietly hclose w rfl
      simp only [hm, Kernel.connect]
      generalize (closeServiceSd w.kernel
        { m with serviceIfcConnTimer := m.serviceIfcConnTimer + 1 }).1 = k at hclosed
      have hturn := hclosed.trans (turn_quietly { w with kernel := k })
      split_ifs with hsd
      · exact (hturn.tail (.outside (.connected _))).tail
          (Quiet.slot (w := { w with kernel := _ }) hx (.link _ _ _) (.kept rfl rfl rfl rfl) rfl)
      · exact hturn.tail
          (Quiet.slot (w := { w with kernel := _ }) hx (.link _ _ _) (.kept rfl rfl rfl rfl) rfl)
    · exact .single (.slot hx (.link m.moduleServiceSd m.moduleServiceIfcIsconnected _)
        (.kept rfl rfl rfl rfl) rfl)
    · exact .refl

/-- A failed exchange over a connection ends it. -/
theorem exchange_quietly {x : Nat} {m : RunningModule} {w : World}
    (hx : w.sup.loaded[x]? = some m) :
    Quietly w (match w.kernel.exchange with
      | (true, k) => { w with kernel := k }
      | (false, k) => serviceDisconnectFromModule x m { w with kernel := k }) := by
  have hturn := turn_quietly w
  simp only [Kernel.exchange]
  cases w.kernel.turn.1.exchanged with
  | true => exact hturn
  | false =>
    exact hturn.trans (serviceDisconnectFromModule_quietly (w := { w with kernel := _ }) hx)

theorem requestStats_quietly (x : Nat) (w : World) : Quietly w (requestStats x w) := by
  unfold requestStats
  cases hx : w.sup.loaded[x]? with
  | none => exact .refl
  | some m =>
    simp only []
    split_ifs
    · exact exchange_quietly hx
    · exact .refl

theorem receiveStats_quietly (x : Nat) (w : World) : Quietly w (receiveStats x w) := by
  unfold receiveStats
  cases hx : w.sup.loaded[x]? with
  | none => exact .refl
  | some m =>
    simp only []
    split_ifs
    · exact exchange_quietly hx
    · exact .refl

theorem disconnectModule_quietly (x : Nat) (w : World) : Quietly w (disconnectModule x w) := by
  unfold disconnectModule
  cases hx : w.sup.loaded[x]? with
  | none => exact .refl
  | some m => exact serviceDisconnectFromModule_quietly hx

/-! ## The whole cycle -/

theorem serviceUpdateModulesStatus_reaches {w : World} (hw : Synced w) :
    Reaches w (serviceUpdateModulesStatus w) :=
  forRange_changes updateModuleStatus_reaches _ hw

/-- What follows the update of the status in a cycle. -/
theorem serviceCycleBody_quietly {w : World} (hw : Synced w) :
    Quietly (serviceUpdateModulesStatus w) (serviceCycleBody w) := by
  have hw1 : Synced (serviceUpdateModulesStatus w) :=
    hw.reaches (serviceUpdateModulesStatus_reaches hw)
  have pass : ∀ {body : Nat → World → World}, (∀ x w, Synced w → Quietly w (body x w)) →
      ∀ {t : World}, Quietly (serviceUpdateModulesStatus w) t →
        Quietly (serviceUpdateModulesStatus w) (forRange t.sup.loadedModulesCnt body t) :=
    fun hbody _ ht => ht.trans (forRange_quietly hbody _ (hw1.reaches ht.reaches))
  have check : ∀ {t : World}, Quietly (serviceUpdateModulesStatus w) t →
      Quietly (serviceUpdateModulesStatus w) (serviceCheckModulesStatus t).1 :=
    fun ht => ht.trans (serviceCheckModulesStatus_quietly _).1
  have clean := fun x w (_ : Synced w) => cleanAfterChild_quietly x w
  exact pass (fun x w _ => receiveStats_quietly x w) (check
    (pass (fun x w _ => requestStats_quietly x w)
      (pass (fun x w _ => checkConnection_quietly x w) (check
        (pass serveModule_quietly (pass clean
          (pass (fun x w _ => stopModuleSigkill_quietly x w) (check
            (pass clean (pass (fun x w _ => stopModuleSigint_quietly x w) .refl))))))))))

/-- Before its update of the status a cycle only looks at the processes; when the
thread ends there is no update. -/
theorem serviceCycle_cases (turns : List Turn) (w : World) :
    Quietly w (serviceCycle turns w) ∨
      ∃ w0, Quietly w w0 ∧ Synced w0 ∧
        Quietly (serviceUpdateModulesStatus w0) (serviceCycle turns w) := by
  unfold serviceCycle
  split_ifs with hexited
  · exact .inl .refl
  · have hscript : Quietly w { w with kernel := { w.kernel with turns } } :=
      .single (.outside (.script turns))
    obtain ⟨hcheck, hsync⟩ := serviceCheckModulesStatus_quietly
      { w with kernel := { w.kernel with turns } }
    simp only []
    split_ifs with hstop
    · exact .inl ((hscript.trans (hcheck.trans (forRange_quietly
        (fun x w _ => disconnectModule_quietly x w) _ hsync))).tail .exited)
    · exact .inr ⟨_, hscript.trans hcheck, hsync, serviceCycleBody_quietly hsync⟩

/-- A service cycle is a chain of atomic changes. -/
theorem serviceCycle_reaches (turns : List Turn) (w : World) : Reaches w (serviceCycle turns w) := by
  rcases serviceCycle_cases turns w with h | ⟨w0, hbefore, hsync, hafter⟩
  · exact h.reaches
  · exact hbefore.reaches.trans
      ((serviceUpdateModulesStatus_reaches hsync).trans hafter.reaches)

end NemeaSupervisor
