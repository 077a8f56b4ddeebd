import NemeaSupervisor.Generations
import NemeaSupervisor.RemovalRounds

/-!
# Children and their parents

No two processes have one PID, and the mark of a module that its process is a child
of the supervisor is right for every child. What the world does to a process between
two system calls is told by two views: where a process comes from, and what becomes
of one that no move ends.
-/

namespace NemeaSupervisor

open Loop

/-! ## Moves -/

/-- The move can end the process. -/
def Move.ends (pid : Int) : Move → Prop
  | .exits p => p = pid
  | .reaped p => p = pid
  | .setForeign _ _ => False

instance (pid : Int) : (mv : Move) → Decidable (mv.ends pid)
  | .exits p => inferInstanceAs (Decidable (p = pid))
  | .reaped p => inferInstanceAs (Decidable (p = pid))
  | .setForeign _ _ => inferInstanceAs (Decidable False)

/-- A process and what has become of it; only a doomed one may have ended. -/
structure Aged (D : Int → Prop) (q p : Process) : Prop where
  pid : p.pid = q.pid
  child : p.child = q.child
  zombie : q.zombie = true → p.zombie = true
  ended : p.zombie = true → q.zombie = true ∨ D q.pid

section moves

variable {D : Int → Prop} {k : Kernel}

theorem Aged.refl (p : Process) : Aged D p p := ⟨rfl, rfl, id, .inl⟩

theorem Aged.trans {p q r : Process} (h : Aged D p q) (h' : Aged D q r) :
    Aged D p r := by
  refine ⟨h'.pid.trans h.pid, h'.child.trans h.child, fun hp => h'.zombie (h.zombie hp), fun hr => ?_⟩
  rcases h'.ended hr with hq | hq
  · exact h.ended hq
  · exact .inr (h.pid ▸ hq)

theorem move_pids (k : Kernel) (mv : Move) :
    ((k.move mv).procs.map Process.pid).Sublist (k.procs.map Process.pid) := by
  have hsame : ∀ f : Process → Process, (∀ p, (f p).pid = p.pid) →
      ((k.procs.map f).map Process.pid).Sublist (k.procs.map Process.pid) := by
    intro f hf
    rw [List.map_map, show Process.pid ∘ f = Process.pid from funext hf]
  cases mv with
  | exits pid => exact hsame _ fun p => by split_ifs <;> rfl
  | reaped pid => exact List.filter_sublist.map Process.pid
  | setForeign pid foreign => exact hsame _ fun p => by split_ifs <;> rfl

theorem move_from {mv : Move} (hmv : ∀ pid, mv.ends pid → D pid) {p : Process}
    (hp : p ∈ (k.move mv).procs) : ∃ q ∈ k.procs, Aged D q p := by
  cases mv with
  | exits pid =>
    obtain ⟨q, hq, rfl⟩ := List.mem_map.mp hp
    refine ⟨q, hq, ?_⟩
    split_ifs with hpid
    · exact ⟨rfl, rfl, fun _ => rfl, fun _ => .inr (hmv q.pid hpid.symm)⟩
    · exact .refl q
  | reaped pid => exact ⟨p, List.mem_of_mem_filter hp, .refl p⟩
  | setForeign pid foreign =>
    obtain ⟨q, hq, rfl⟩ := List.mem_map.mp hp
    refine ⟨q, hq, ?_⟩
    split_ifs
    · exact ⟨rfl, rfl, id, .inl⟩
    · exact .refl q

theorem move_to {mv : Move} {q : Process} (hq : q ∈ k.procs) (hmv : ¬ mv.ends q.pid) :
    ∃ p ∈ (k.move mv).procs, Aged D q p := by
  cases mv with
  | exits pid =>
    refine ⟨_, List.mem_map.mpr ⟨q, hq, rfl⟩, ?_⟩
    split_ifs with hpid
    · exact absurd hpid.symm hmv
    · exact .refl q
  | reaped pid =>
    refine ⟨q, List.mem_filter.mpr ⟨hq, ?_⟩, .refl q⟩
    have hpid : ¬ q.pid = pid := fun heq => hmv heq.symm
    simp [hpid]
  | setForeign pid foreign =>
    refine ⟨_, List.mem_map.mpr ⟨q, hq, rfl⟩, ?_⟩
    split_ifs
    · exact ⟨rfl, rfl, id, .inl⟩
    · exact .refl q

/-- The script ends doomed processes only. -/
def EndsOnly (D : Int → Prop) (turns : List Turn) : Prop :=
  ∀ t ∈ turns, ∀ mv ∈ t.moves, ∀ pid, mv.ends pid → D pid

theorem moves_from {mvs : List Move} (hmvs : ∀ mv ∈ mvs, ∀ pid, mv.ends pid → D pid)
    {p : Process} (hp : p ∈ (mvs.foldl Kernel.move k).procs) : ∃ q ∈ k.procs, Aged D q p := by
  induction mvs generalizing k with
  | nil => exact ⟨p, hp, .refl p⟩
  | cons mv mvs ih =>
    obtain ⟨q, hq, hqp⟩ := ih (k := k.move mv) (fun mv' hmv' => hmvs mv' (by simp [hmv'])) hp
    obtain ⟨r, hr, hrq⟩ := move_from (hmvs mv (by simp)) hq
    exact ⟨r, hr, hrq.trans hqp⟩

theorem moves_to {mvs : List Move} (hmvs : ∀ mv ∈ mvs, ∀ pid, mv.ends pid → D pid)
    {q : Process} (hq : q ∈ k.procs) (hsafe : ¬ D q.pid) :
    ∃ p ∈ (mvs.foldl Kernel.move k).procs, Aged D q p := by
  induction mvs generalizing k q with
  | nil => exact ⟨q, hq, .refl q⟩
  | cons mv mvs ih =>
    obtain ⟨r, hr, hqr⟩ := move_to (D := D) hq fun he => hsafe (hmvs mv (by simp) _ he)
    obtain ⟨p, hp, hrp⟩ := ih (k := k.move mv) (fun mv' hmv' => hmvs mv' (by simp [hmv'])) hr
      (hqr.pid ▸ hsafe)
    exact ⟨p, hp, hqr.trans hrp⟩

theorem moves_pids (mvs : List Move) (k : Kernel) :
    ((mvs.foldl Kernel.move k).procs.map Process.pid).Sublist (k.procs.map Process.pid) := by
  induction mvs generalizing k with
  | nil => exact .refl _
  | cons mv mvs ih => exact (ih (k.move mv)).trans (move_pids k mv)

theorem moves_turns (mvs : List Move) (k : Kernel) :
    (mvs.foldl Kernel.move k).turns = k.turns :=
  foldl_const (π := Kernel.turns) (fun _ mv => by cases mv <;> rfl) mvs k

theorem turn_pids (k : Kernel) :
    (k.turn.2.procs.map Process.pid).Sublist (k.procs.map Process.pid) := by
  unfold Kernel.turn
  cases k.turns with
  | nil => exact .refl _
  | cons t turns => exact moves_pids t.moves { k with turns }

theorem turn_turns {k : Kernel} {t : Turn} (ht : t ∈ k.turn.2.turns) : t ∈ k.turns := by
  unfold Kernel.turn at ht
  cases hturns : k.turns with
  | nil => simp [hturns] at ht
  | cons t0 turns =>
    simp only [hturns, moves_turns] at ht
    exact List.mem_cons_of_mem t0 ht

theorem turn_from (h : EndsOnly D k.turns) {p : Process} (hp : p ∈ k.turn.2.procs) :
    ∃ q ∈ k.procs, Aged D q p := by
  unfold Kernel.turn at hp
  cases hturns : k.turns with
  | nil => exact ⟨p, by simpa [hturns] using hp, .refl p⟩
  | cons t turns =>
    simp only [hturns] at hp
    exact moves_from (k := { k with turns }) (h t (by simp [hturns])) hp

theorem turn_to (h : EndsOnly D k.turns) {q : Process} (hq : q ∈ k.procs)
    (hsafe : ¬ D q.pid) : ∃ p ∈ k.turn.2.procs, Aged D q p := by
  unfold Kernel.turn
  cases hturns : k.turns with
  | nil => exact ⟨q, hq, .refl q⟩
  | cons t turns =>
    exact moves_to (k := { k with turns }) (h t (by simp [hturns])) hq hsafe

/-- The PID that a turn has for a fork is one of its script. -/
theorem turn_forkPid (k : Kernel) (hpos : k.turn.1.forkPid > 0) :
    ∃ t ∈ k.turns, t.forkPid = k.turn.1.forkPid := by
  unfold Kernel.turn at hpos ⊢
  cases hturns : k.turns with
  | nil =>
    simp only [hturns] at hpos
    exact absurd hpos (by decide)
  | cons t turns => exact ⟨t, by simp, rfl⟩

end moves

/-! ## The process of a slot change -/

/-- A process that has just been started for a slot. -/
structure NewProcess (s : Supervisor) (k : Kernel) (m m' : RunningModule) (p : Process) : Prop where
  pid : p.pid = m'.modulePid
  alive : p.zombie = false
  child : m'.moduleIsMyChild = true
  untracked : ∀ m0 ∈ s.loaded, m0.modulePid ≠ p.pid
  fresh : ∀ q ∈ k.procs, q.pid ≠ p.pid
  toRun : ¬ ToStop m' (s.profileOf m')

section slot

variable {s : Supervisor} {k k' : Kernel} {m m' : RunningModule}

theorem SlotChange.process_cases (h : SlotChange s k m m' k') {p : Process} (hp : p ∈ k'.procs) :
    p ∈ k.procs ∨ NewProcess s k m m' p := by
  cases h with
  | waited => exact .inl (List.mem_of_mem_filter hp)
  | started h hpid hproc htracked =>
    rcases List.mem_cons.mp hp with rfl | hp
    · refine .inr ⟨rfl, rfl, rfl, htracked, fun q hq heq => ?_, h.not_toStop⟩
      have := List.any_eq_false.mp hproc q hq
      simp [heq] at this
    · exact .inl hp
  | _ => exact .inl hp

theorem SlotChange.pid_origin (h : SlotChange s k m m' k') : m'.modulePid = m.modulePid ∨
    m'.modulePid ≤ 0 ∨ ∃ p ∈ k'.procs, NewProcess s k m m' p := by
  cases h with
  | gone | startFailed => exact .inr (.inl (by simp))
  | started h hpid hproc htracked =>
    refine .inr (.inr ⟨_, List.mem_cons_self, rfl, rfl, rfl, htracked, fun q hq heq => ?_,
      h.not_toStop⟩)
    have := List.any_eq_false.mp hproc q hq
    simp [heq] at this
  | tick => exact .inl (tickRestartTimer_kept m).2.2.2.1
  | _ => exact .inl rfl

theorem SlotChange.unique (h : SlotChange s k m m' k') (hk : (k.procs.map Process.pid).Nodup) :
    (k'.procs.map Process.pid).Nodup := by
  cases h with
  | waited => exact hk.sublist (List.filter_sublist.map Process.pid)
  | started _ _ hproc =>
    refine List.nodup_cons.mpr ⟨fun hmem => ?_, hk⟩
    obtain ⟨q, hq, heq⟩ := List.mem_map.mp hmem
    have := List.any_eq_false.mp hproc q hq
    simp [heq] at this
  | _ => exact hk

end slot

/-! ## The invariant -/

structure ParentInv (w : World) : Prop where
  processes : ProcessInv w
  unique : (w.kernel.procs.map Process.pid).Nodup
  children : ∀ m ∈ w.sup.loaded, ∀ p ∈ w.kernel.procs, p.pid = m.modulePid → p.child = true →
    m.moduleIsMyChild = true

theorem process_of_mem {k : Kernel} (h : (k.procs.map Process.pid).Nodup) {p : Process}
    (hp : p ∈ k.procs) : k.process p.pid = some p := by
  unfold Kernel.process
  cases hf : k.procs.find? fun q => q.pid == p.pid with
  | none => exact absurd (List.find?_eq_none.mp hf p hp) (by simp)
  | some q =>
    have hpid : q.pid = p.pid := by simpa using List.find?_some hf
    rw [List.inj_on_of_nodup_map h (List.mem_of_find?_eq_some hf) hp hpid]

theorem mem_of_process {k : Kernel} {pid : Int} {p : Process} (h : k.process pid = some p) :
    p ∈ k.procs ∧ p.pid = pid :=
  ⟨List.mem_of_find?_eq_some h, by simpa using List.find?_some h⟩

theorem ParentInv.slot {w : World} (h : ParentInv w) {x : Nat} {m m' : RunningModule} {k : Kernel}
    (hx : w.sup.loaded[x]? = some m) (hc : SlotChange w.sup w.kernel m m' k)
    (ho : Observed w.kernel k m m') : ParentInv (({ w with kernel := k } : World).setModule x m') := by
  have hm := List.mem_of_getElem? hx
  refine ⟨h.processes.slot hx hc, hc.unique h.unique, fun m1 hm1 p hp hpid hchild => ?_⟩
  rcases mem_setModule hm1 with rfl | hm1
  · rcases hc.process_cases hp with hold | hnew
    · have hpos := h.processes.positive p hold
      rcases hc.pid_origin with hsame | hdown | ⟨q, -, hq⟩
      · by_contra hnot
        rcases ho.child (by simpa using hnot) with hbefore | hfound
        · have := h.children m hm p hold (hpid.trans hsame) hchild
          rw [hbefore] at this
          cases this
        · have := hfound p (by rw [← hsame, ← hpid]; exact process_of_mem h.unique hold)
          rw [hchild] at this
          cases this
      · omega
      · exact absurd (hpid.trans hq.pid.symm) (hq.fresh p hold)
    · exact hnew.child
  · rcases hc.process_cases hp with hold | hnew
    · exact h.children m1 hm1 p hold hpid hchild
    · exact absurd hpid.symm (hnew.untracked m1 hm1)

theorem ParentInv.turn {w : World} (h : ParentInv w) :
    ParentInv { w with kernel := w.kernel.turn.2 } := by
  refine ⟨reaches_invariant (fun _ _ hi hc => hi.change hc) (turn_quietly w).reaches h.processes,
    h.unique.sublist (turn_pids _), fun m hm p hp hpid hchild => ?_⟩
  obtain ⟨q, hq, haged⟩ := turn_from (D := fun _ => True) (fun _ _ _ _ _ _ => trivial) hp
  exact h.children m hm q hq (haged.pid.symm.trans hpid) (haged.child.symm.trans hchild)

theorem ParentInv.noted {w : World} (h : ParentInv w) {e : Event} (he : e.linked) :
    ParentInv { w with kernel := w.kernel.record e } :=
  ⟨reaches_invariant (fun _ _ hi hc => hi.change hc) (CycleStep.noted e he).reaches h.processes,
    h.unique, h.children⟩

theorem ParentInv.freed {w : World} (h : ParentInv w) {x : Nat} {m : RunningModule}
    (hx : w.sup.loaded[x]? = some m) (hfreed : ServiceState.Freed m) (hpid : m.modulePid ≤ 0) :
    ParentInv { w with
      sup := freeModuleAndShiftArray w.sup x
      kernel := w.kernel.record (.freed m (w.kernel.ownerAlive m.moduleName)) } :=
  ⟨h.processes.change (.freed hx hfreed.2.1 hpid), h.unique,
    fun m1 hm1 => h.children m1 (mem_freed hm1)⟩

theorem ParentInv.step {w w' : World} (h : ParentInv w) (hs : CycleStep w w') : ParentInv w' :=
  hs.invariant (N := fun _ => True) (fun _ _ _ => trivial) (fun _ h => h.turn)
    (fun _ _ h he => h.noted he) (fun _ _ _ _ _ h hx hc ho _ => h.slot hx hc ho)
    (fun _ _ _ h hx hfreed hpid => h.freed hx hfreed hpid) h

theorem ParentInv.move {w : World} (h : ParentInv w) (mv : Move) :
    ParentInv { w with kernel := w.kernel.move mv } := by
  refine ⟨h.processes.change (.outside (.move mv)), h.unique.sublist (move_pids _ mv),
    fun m hm p hp hpid hchild => ?_⟩
  obtain ⟨q, hq, haged⟩ := move_from (D := fun _ => True) (fun _ _ => trivial) hp
  exact h.children m hm q hq (haged.pid.symm.trans hpid) (haged.child.symm.trans hchild)

theorem ParentInv.cycle {w : World} (h : ParentInv w) (turns : List Turn) :
    ParentInv (serviceCycle turns w) :=
  serviceCycle_invariant (fun _ turns h =>
      ⟨h.processes.change (.outside (.script turns)), h.unique, h.children⟩)
    (fun _ _ h hs => h.step hs) (fun _ h => ⟨h.processes.change .exited, h.unique, h.children⟩)
    turns h

theorem ParentInv.command {w : World} (h : ParentInv w) {enabling : Bool} {s' : Supervisor}
    (hc : Command enabling w.sup s') : ParentInv { w with sup := s' } := by
  refine ⟨h.processes.command hc, h.unique, ?_⟩
  have set : ∀ {x m m'}, w.sup.loaded[x]? = some m → m'.modulePid = m.modulePid →
      m'.moduleIsMyChild = m.moduleIsMyChild → ∀ m1 ∈ (w.sup.setModule x m').loaded,
        ∀ p ∈ w.kernel.procs, p.pid = m1.modulePid → p.child = true →
          m1.moduleIsMyChild = true := by
    intro x m m' hx hpid hmine m1 hm1
    rcases List.mem_or_eq_of_mem_set hm1 with hm1 | rfl
    · exact h.children m1 hm1
    · rw [hpid, hmine]
      exact h.children m (List.mem_of_getElem? hx)
  cases hc with
  | enable _ hx => exact set hx rfl rfl
  | disable hx => exact set hx rfl rfl
  | restart hx => exact set hx rfl rfl
  | profile => exact h.children
  | stop =>
    intro m1 hm1
    obtain ⟨m, hm, rfl⟩ := List.mem_map.mp hm1
    exact h.children m hm

theorem finishSlot_myChild (choice : ReloadChoice) (m : RunningModule) :
    (finishSlot choice m).moduleIsMyChild = m.moduleIsMyChild := by
  rw [finishSlot, restartIfModified_eq]
  unfold adoptIfRunning
  split_ifs <;> rfl

theorem Applied.myChild {choice : ReloadChoice} {i : Nat} {newModule : Bool} {e : XmlNode}
    {m m1 : RunningModule} (h : Applied choice i newModule e m m1) :
    m1.moduleIsMyChild = m.moduleIsMyChild := by
  have := congrArg RunningModule.moduleIsMyChild h.frame
  simpa [RunningModule.sansConfig, RunningModule.sansIfces] using this

/-- A reload marks every module as a child until the next check. -/
theorem Reloaded.myChild {choice : ReloadChoice} {s s' : Supervisor} (hc : choice ≠ .initLoadConfig)
    (h : TableInv s) {nodes : List XmlNode} (hd : GoodDocs (docModules nodes))
    (hr : Reloaded choice s nodes s') {m : RunningModule} (hm : m ∈ s'.loaded)
    (hpid : m.modulePid > 0) : m.moduleIsMyChild = true := by
  obtain ⟨x, hx⟩ := List.mem_iff_getElem?.mp hm
  cases hr.slot h hd hm with
  | missing => exact finishSlot_myChild choice _
  | kept _ _ _ happlied => exact (finishSlot_myChild choice _).trans happlied.myChild
  | @new k m1 d hdoc hnew happlied =>
    have hfinish : (finishSlot choice m1).process = (slotAt (resetTable s) k).process :=
      (finishSlot_process hc m1).trans (happlied.process hc)
    have hzero : (slotAt (resetTable s) k).modulePid = 0 :=
      (h.spare_reset k).field RunningModule.modulePid fun _ _ _ _ => rfl
    have := field_of_process RunningModule.modulePid (fun _ => rfl) hfinish
    omega

theorem ParentInv.reload {w : World} (h : ParentInv w) {choice : ReloadChoice}
    (hc : choice ≠ .initLoadConfig) {root : XmlNode} (hg : Grammar root) {s' : Supervisor}
    (hr : Reloaded choice w.sup root.xmlChildrenNode s') : ParentInv { w with sup := s' } := by
  refine ⟨h.processes.reload hc hg hr, h.unique, fun m hm p hp hpid _ => ?_⟩
  have hpos := h.processes.positive p hp
  exact hr.myChild hc h.processes.table hg.goodDocs hm (by omega)

theorem step_parentInv (w : World) (a : Action) (h : ParentInv w) : ParentInv (step w a) :=
  step_invariant_of_cycle (fun _ h => h.processes.table) (fun turns h => h.cycle turns)
    (fun mv h => h.move mv) (fun _ _ _ h hc => h.command hc)
    (fun _ b c h => ⟨⟨h.processes.table.flags b c, h.processes.positive, h.processes.owned,
      h.processes.distinct, h.processes.alone⟩, h.unique, h.children⟩) h
    fun _ _ _ _ hc hg hr => h.reload hc hg hr

/-- No process that a supervisor adopts is its child. -/
theorem boot_parentInv (alive : List Int) {rootNode : Option XmlNode} (h : InitialLoad rootNode) :
    ParentInv (boot alive rootNode) := by
  have hdistinct := h.distinctPids
  have hnodup : ∀ l : List RunningModule, l.Pairwise (fun m m' => m.modulePid > 0 →
      m.modulePid ≠ m'.modulePid) → ((l.filterMap fun m =>
        if m.modulePid > 0 ∧ m.modulePid ∈ alive then
          some (⟨m.modulePid, m.moduleName, false, false, false, none⟩ : Process)
        else none).map Process.pid).Nodup := by
    intro l
    induction l with
    | nil => exact fun _ => .nil
    | cons m l ih =>
      intro hpair
      obtain ⟨hm, hl⟩ := List.pairwise_cons.mp hpair
      rw [List.filterMap_cons]
      split_ifs with hadopted
      · refine List.nodup_cons.mpr ⟨fun hmem => ?_, ih hl⟩
        obtain ⟨p, hp, hpid⟩ := List.mem_map.mp hmem
        obtain ⟨m', hm', hp⟩ := List.mem_filterMap.mp hp
        split_ifs at hp
        cases hp
        exact hm m' hm' hadopted.1 hpid.symm
      · exact ih hl
  refine ⟨boot_processInv alive rootNode hdistinct, hnodup _ ?_, fun m hm p hp _ hchild => ?_⟩
  · rw [List.pairwise_iff_getElem]
    intro i j hi hj hij hpos heq
    have := hdistinct i j _ _ (List.getElem?_eq_getElem hi) (List.getElem?_eq_getElem hj) hpos heq
    omega
  · obtain ⟨m', -, hp⟩ := List.mem_filterMap.mp hp
    split_ifs at hp
    cases hp
    cases hchild

end NemeaSupervisor
