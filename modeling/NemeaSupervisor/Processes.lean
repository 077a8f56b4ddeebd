import NemeaSupervisor.Invariants

/-!
# At most one process for each module

Every process the supervisor has started or adopted is the process of exactly
one loaded module, in every reachable state. The invariant relates the process
table to the PIDs in the slots, not to their statuses, so it holds also between
the atomic changes of a cycle.
-/

namespace NemeaSupervisor

/-- No two loaded modules have the same process. -/
def DistinctPids (s : Supervisor) : Prop :=
  ∀ (x y : Nat) (m m' : RunningModule), s.loaded[x]? = some m → s.loaded[y]? = some m' →
    m.modulePid > 0 → m.modulePid = m'.modulePid → x = y

/-- The process of a slot. -/
def IsProcessOf (p : Process) (m : RunningModule) : Prop :=
  m.modulePid = p.pid ∧ m.moduleName = p.owner

/-- Starts and removals that no process of the module survives. -/
def Event.alone : Event → Bool
  | .startCalled _ _ _ alive => !alive
  | .freed _ alive => !alive
  | _ => true

structure ProcessInv (w : World) : Prop where
  table : TableInv w.sup
  positive : ∀ p ∈ w.kernel.procs, p.pid > 0
  owned : ∀ p ∈ w.kernel.procs, ∃ m ∈ w.sup.loaded, IsProcessOf p m
  distinct : DistinctPids w.sup
  alone : ∀ e ∈ w.kernel.trace, e.alone = true

/-- A module without a PID has no process. -/
theorem ProcessInv.not_alive {w : World} (h : ProcessInv w) {x : Nat} {m : RunningModule}
    (hx : w.sup.loaded[x]? = some m) (hpid : m.modulePid ≤ 0) :
    w.kernel.ownerAlive m.moduleName = false := by
  rw [Kernel.ownerAlive, List.any_eq_false]
  intro p hp
  obtain ⟨m', hm', hpid', hname⟩ := h.owned p hp
  have hpos := h.positive p hp
  intro howner
  have hsame : m' = m := by
    refine List.inj_on_of_nodup_map h.table.distinct hm' (List.mem_of_getElem? hx) ?_
    rw [hname]
    simpa using howner
  subst hsame
  omega

/-! ## Processes move on their own -/

/-- A process after a move, and the process it was before. -/
structure SameProcess (p q : Process) : Prop where
  pid : p.pid = q.pid
  owner : p.owner = q.owner
  launch : p.launch = q.launch
  alive : p.zombie = false → q.zombie = false

theorem SameProcess.refl (p : Process) : SameProcess p p := ⟨rfl, rfl, rfl, id⟩

theorem move_procs {k : Kernel} {mv : Move} {p : Process} (hp : p ∈ (k.move mv).procs) :
    ∃ q ∈ k.procs, SameProcess p q := by
  cases mv with
  | exits pid =>
    obtain ⟨q, hq, rfl⟩ := List.mem_map.mp hp
    refine ⟨q, hq, ?_⟩
    split_ifs
    · exact ⟨rfl, rfl, rfl, fun h => absurd h (by simp)⟩
    · exact .refl q
  | reaped pid => exact ⟨p, List.mem_of_mem_filter hp, .refl p⟩
  | setForeign pid foreign =>
    obtain ⟨q, hq, rfl⟩ := List.mem_map.mp hp
    refine ⟨q, hq, ?_⟩
    split_ifs
    · exact ⟨rfl, rfl, rfl, id⟩
    · exact .refl q

theorem Outside.procs {k k' : Kernel} (h : Outside k k') {p : Process} (hp : p ∈ k'.procs) :
    ∃ q ∈ k.procs, SameProcess p q := by
  cases h with
  | move mv => exact move_procs hp
  | script turns | connected sd | closed sd => exact ⟨p, hp, .refl p⟩

theorem Outside.trace {k k' : Kernel} (h : Outside k k') :
    k'.trace = k.trace ∨ (∃ sd, k'.trace = .connected sd :: k.trace) ∨
      ∃ sd, k'.trace = .closed sd :: k.trace := by
  cases h with
  | move mv => cases mv <;> exact .inl rfl
  | script turns => exact .inl rfl
  | connected sd => exact .inr (.inl ⟨sd, rfl⟩)
  | closed sd => exact .inr (.inr ⟨sd, rfl⟩)

/-! ## A slot change and the processes -/

/-- A process after a slot change was there before, or it has just been started
for the slot. -/
theorem SlotChange.procs {s : Supervisor} {k k' : Kernel} {m m' : RunningModule}
    (h : SlotChange s k m m' k') {p : Process} (hp : p ∈ k'.procs) :
    p ∈ k.procs ∨ p.pid = m'.modulePid ∧ p.owner = m.moduleName ∧ p.pid > 0 ∧
      p.launch = some m.launch := by
  cases h with
  | waited => exact .inl (List.mem_of_mem_filter hp)
  | started h hpid =>
    rcases List.mem_cons.mp hp with rfl | hp
    · exact .inr ⟨rfl, rfl, hpid.1, rfl⟩
    · exact .inl hp
  | _ => exact .inl hp

/-- A slot keeps the PID of a process that is still there. -/
theorem SlotChange.keeps_pid {s : Supervisor} {k k' : Kernel} {m m' : RunningModule}
    (h : SlotChange s k m m' k') {p : Process} (hp : p ∈ k.procs) (hpos : p.pid > 0)
    (hm : m.modulePid = p.pid) : m'.modulePid = p.pid := by
  cases h with
  | gone _ hproc =>
    have := List.any_eq_false.mp hproc p hp
    simp [hm] at this
  | startFailed h | started h =>
    have := h.pid
    omega
  | tick =>
    unfold tickRestartTimer
    split_ifs <;> exact hm
  | _ => exact hm

/-- The PID of a slot stays, goes, or is one that no module has. -/
theorem SlotChange.pid_cases {s : Supervisor} {k k' : Kernel} {m m' : RunningModule}
    (h : SlotChange s k m m' k') :
    m'.modulePid = m.modulePid ∨ m'.modulePid ≤ 0 ∨ ∀ m0 ∈ s.loaded, m0.modulePid ≠ m'.modulePid := by
  cases h with
  | gone | startFailed => exact .inr (.inl (by simp))
  | started _ _ _ htracked => exact .inr (.inr htracked)
  | tick =>
    unfold tickRestartTimer
    split_ifs <;> exact .inl rfl
  | _ => exact .inl rfl

theorem SlotChange.name {s : Supervisor} {k k' : Kernel} {m m' : RunningModule}
    (h : SlotChange s k m m' k') : m'.moduleName = m.moduleName :=
  field_of_config RunningModule.moduleName (fun _ => rfl) h.config

theorem DistinctPids.setModule {s : Supervisor} (h : DistinctPids s) {x : Nat}
    {m m' : RunningModule} (hx : s.loaded[x]? = some m)
    (hpid : m'.modulePid = m.modulePid ∨ m'.modulePid ≤ 0 ∨
      ∀ m0 ∈ s.loaded, m0.modulePid ≠ m'.modulePid) : DistinctPids (s.setModule x m') := by
  intro y z a b ha hb hpos heq
  rcases getElem?_setModule hx ha with ⟨rfl, rfl⟩ | ⟨hy, ha'⟩ <;>
    rcases getElem?_setModule hx hb with ⟨rfl, rfl⟩ | ⟨hz, hb'⟩
  · rfl
  · rcases hpid with hpid | hpid | hpid
    · exact h y z m b hx hb' (by omega) (by omega)
    · omega
    · exact absurd heq.symm (hpid b (List.mem_of_getElem? hb'))
  · rcases hpid with hpid | hpid | hpid
    · exact h y z a m ha' hx hpos (by omega)
    · omega
    · exact absurd heq (hpid a (List.mem_of_getElem? ha'))
  · exact h y z a b ha' hb' hpos heq

theorem DistinctPids.freed {s : Supervisor} (h : DistinctPids s) (x : Nat) :
    DistinctPids (freeModuleAndShiftArray s x) := by
  unfold freeModuleAndShiftArray
  split_ifs
  · intro y z a b ha hb hpos heq
    simp only [List.getElem?_eraseIdx] at ha hb
    split_ifs at ha hb <;> have := h _ _ a b ha hb hpos heq <;> omega
  · exact h

theorem ProcessInv.slot {w : World} (h : ProcessInv w) {x : Nat} {m m' : RunningModule} {k : Kernel}
    (hx : w.sup.loaded[x]? = some m) (hc : SlotChange w.sup w.kernel m m' k) :
    ProcessInv (({ w with kernel := k } : World).setModule x m') := by
  have hlt := (List.getElem?_eq_some_iff.mp hx).1
  have hnew : m' ∈ (w.sup.setModule x m').loaded := List.mem_set hlt m'
  constructor
  · exact h.table.setModule hx hc.config
  · intro p hp
    rcases hc.procs hp with hp | ⟨-, -, hpos, -⟩
    · exact h.positive p hp
    · exact hpos
  · intro p hp
    rcases hc.procs hp with hp | ⟨hpid, howner, -, -⟩
    · obtain ⟨m0, hm0, hpid, hname⟩ := h.owned p hp
      obtain ⟨y, hy⟩ := List.mem_iff_getElem?.mp hm0
      by_cases hxy : x = y
      · subst hxy
        rw [hx, Option.some.injEq] at hy
        subst hy
        exact ⟨m', hnew, hc.keeps_pid hp (h.positive p hp) hpid, hc.name.trans hname⟩
      · refine ⟨m0, List.mem_iff_getElem?.mpr ⟨y, ?_⟩, hpid, hname⟩
        simp only [World.setModule, Supervisor.setModule, List.getElem?_set, if_neg hxy, hy]
    · exact ⟨m', hnew, hpid.symm, hc.name.trans howner.symm⟩
  · exact h.distinct.setModule hx hc.pid_cases
  · intro e he
    cases hc with
    | sigint | sigkill | started =>
      rcases List.mem_cons.mp he with rfl | he
      · rfl
      · exact h.alone e he
    | startCalled hs =>
      rcases List.mem_cons.mp he with rfl | he
      · simp [Event.alone, h.not_alive hx hs.pid]
      · exact h.alone e he
    | _ => exact h.alone e he

theorem ProcessInv.change {w w' : World} (h : ProcessInv w) (hc : Change w w') : ProcessInv w' := by
  cases hc with
  | outside ho =>
    refine ⟨h.table, fun p hp => ?_, fun p hp => ?_, h.distinct, fun e he => ?_⟩
    · obtain ⟨q, hq, hsame⟩ := ho.procs hp
      rw [hsame.pid]
      exact h.positive q hq
    · obtain ⟨q, hq, hsame⟩ := ho.procs hp
      obtain ⟨m, hm, hpid, hname⟩ := h.owned q hq
      exact ⟨m, hm, hpid.trans hsame.pid.symm, hname.trans hsame.owner.symm⟩
    · rcases ho.trace with ht | ⟨sd, ht⟩ | ⟨sd, ht⟩
      · exact h.alone e (ht ▸ he)
      · rcases List.mem_cons.mp (ht ▸ he) with rfl | he
        · rfl
        · exact h.alone e he
      · rcases List.mem_cons.mp (ht ▸ he) with rfl | he
        · rfl
        · exact h.alone e he
  | slot hx hs => exact h.slot hx hs
  | @freed x m hx hremove hpid =>
    refine ⟨h.table.freed _, h.positive, fun p hp => ?_, h.distinct.freed _, fun e he => ?_⟩
    · obtain ⟨m0, hm0, hpid0, hname⟩ := h.owned p hp
      refine ⟨m0, ?_, hpid0, hname⟩
      have hpos := h.positive p hp
      have hlt := (List.getElem?_eq_some_iff.mp hx).1
      obtain ⟨y, hy⟩ := List.mem_iff_getElem?.mp hm0
      have hxy : y ≠ x := by
        rintro rfl
        rw [hx, Option.some.injEq] at hy
        subst hy
        omega
      simp only [freeModuleAndShiftArray, if_pos hlt]
      exact List.mem_eraseIdx_iff_getElem?.mpr ⟨y, hxy, hy⟩
    · rcases List.mem_cons.mp he with rfl | he
      · simp [Event.alone, h.not_alive hx hpid]
      · exact h.alone e he
  | exited => exact ⟨h.table, h.positive, h.owned, h.distinct, h.alone⟩

/-! ## Commands, reloads and the start -/

/-- Only the PIDs and names of the slots matter for the processes. -/
theorem ProcessInv.congr {w : World} (h : ProcessInv w) {s : Supervisor} (htable : TableInv s)
    (hold : ∀ (x : Nat) (m : RunningModule), w.sup.loaded[x]? = some m →
      ∃ m', s.loaded[x]? = some m' ∧ m'.modulePid = m.modulePid ∧ m'.moduleName = m.moduleName)
    (hnew : ∀ (x : Nat) (m' : RunningModule), s.loaded[x]? = some m' → m'.modulePid > 0 →
      ∃ m, w.sup.loaded[x]? = some m ∧ m'.modulePid = m.modulePid) :
    ProcessInv { w with sup := s } := by
  refine ⟨htable, h.positive, fun p hp => ?_, fun x y a b ha hb hpos heq => ?_, h.alone⟩
  · obtain ⟨m, hm, hpid, hname⟩ := h.owned p hp
    obtain ⟨x, hx⟩ := List.mem_iff_getElem?.mp hm
    obtain ⟨m', hx', hpid', hname'⟩ := hold x m hx
    exact ⟨m', List.mem_of_getElem? hx', hpid'.trans hpid, hname'.trans hname⟩
  · obtain ⟨a0, ha0, hapid⟩ := hnew x a ha hpos
    obtain ⟨b0, hb0, hbpid⟩ := hnew y b hb (by omega)
    exact h.distinct x y a0 b0 ha0 hb0 (by omega) (by omega)

theorem ProcessInv.setModule {w : World} (h : ProcessInv w) {x : Nat} {m m' : RunningModule}
    (hx : w.sup.loaded[x]? = some m) (hconfig : m'.config = m.config)
    (hpid : m'.modulePid = m.modulePid) : ProcessInv { w with sup := w.sup.setModule x m' } := by
  have hname : m'.moduleName = m.moduleName :=
    field_of_config RunningModule.moduleName (fun _ => rfl) hconfig
  have hlt := (List.getElem?_eq_some_iff.mp hx).1
  refine h.congr (h.table.setModule hx hconfig) (fun y a ha => ?_) (fun y a ha _ => ?_)
  · by_cases hxy : x = y
    · subst hxy
      rw [hx, Option.some.injEq] at ha
      subst ha
      exact ⟨m', by simp [Supervisor.setModule, hlt], hpid, hname⟩
    · exact ⟨a, by simp [Supervisor.setModule, hxy, ha], rfl, rfl⟩
  · rcases getElem?_setModule hx ha with ⟨rfl, rfl⟩ | ⟨-, ha'⟩
    · exact ⟨m, hx, hpid⟩
    · exact ⟨a, ha', rfl⟩

theorem ProcessInv.command {w : World} (h : ProcessInv w) {enabling : Bool} {s' : Supervisor}
    (hc : Command enabling w.sup s') : ProcessInv { w with sup := s' } := by
  have htable := h.table.command hc
  cases hc with
  | enable _ hx => exact h.setModule hx rfl rfl
  | disable hx => exact h.setModule hx rfl rfl
  | restart hx => exact h.setModule hx rfl rfl
  | profile i enabled =>
    exact h.congr htable (fun x m hx => ⟨m, hx, rfl, rfl⟩)
      fun x m hx _ => ⟨m, hx, rfl⟩
  | stop =>
    refine h.congr htable (fun x m hx => ?_) (fun x m' hx _ => ?_)
    · exact ⟨{ m with moduleEnabled := false }, by simp [interactiveStopConfiguration, hx], rfl, rfl⟩
    · simp only [interactiveStopConfiguration, List.getElem?_map, Option.map_eq_some_iff] at hx
      obtain ⟨m, hm, rfl⟩ := hx
      exact ⟨m, hm, rfl⟩

theorem ProcessInv.reload {w : World} (h : ProcessInv w) {choice : ReloadChoice}
    (hc : choice ≠ .initLoadConfig) {root : XmlNode} (hg : Grammar root) {s' : Supervisor}
    (hr : Reloaded choice w.sup root.xmlChildrenNode s') : ProcessInv { w with sup := s' } := by
  have hd := hg.goodDocs
  refine h.congr (hr.tableInv h.table hg) (fun x m hx => ?_) (fun x m' hx hpos => ?_)
  · obtain ⟨hprocess, hname⟩ := reloadOld_process hc h.table hd (List.mem_of_getElem? hx)
    have hlt := (List.getElem?_eq_some_iff.mp hx).1
    refine ⟨_, ?_, field_of_process RunningModule.modulePid (fun _ => rfl) hprocess, hname⟩
    rw [hr.loaded, List.getElem?_append_left (by rw [List.length_map]; exact hlt),
      List.getElem?_map, hx]
    rfl
  · rcases hr.get hx with ⟨m, hm, rfl⟩ | ⟨-, d, hdoc, rfl⟩
    · obtain ⟨hprocess, -⟩ := reloadOld_process hc h.table hd (List.mem_of_getElem? hm)
      exact ⟨m, hm, field_of_process RunningModule.modulePid (fun _ => rfl) hprocess⟩
    · obtain ⟨hmem, -⟩ := mem_newDocs.mp (List.mem_of_getElem? hdoc)
      have hzero := congrArg RunningModule.modulePid
        (reloadNew_process hc h.table (hd.grammar d hmem) (x - w.sup.loaded.length))
      have : (reloadNew choice d
          (slotAt (resetTable w.sup) (x - w.sup.loaded.length))).modulePid = 0 := hzero
      omega

theorem boot_processInv (alive : List Int) (rootNode : Option XmlNode)
    (h : DistinctPids (initialTable rootNode)) : ProcessInv (boot alive rootNode) := by
  have hadopted : ∀ p ∈ adoptedProcesses alive (initialTable rootNode),
      p.pid > 0 ∧ ∃ m ∈ (initialTable rootNode).loaded, IsProcessOf p m := by
    intro p hp
    obtain ⟨m, hm, hp⟩ := List.mem_filterMap.mp hp
    split_ifs at hp with hpid
    rw [Option.some.injEq] at hp
    subst hp
    exact ⟨hpid.1, m, hm, rfl, rfl⟩
  refine ⟨boot_tableInv alive rootNode, fun p hp => (hadopted p hp).1,
    fun p hp => (hadopted p hp).2, h, fun e he => ?_⟩
  obtain ⟨p, -, rfl⟩ := List.mem_map.mp he
  rfl

theorem step_processInv (w : World) (a : Action) (h : ProcessInv w) : ProcessInv (step w a) :=
  step_invariant (fun _ h => h.table) (fun _ _ h hc => h.change hc) (fun _ _ _ h hc => h.command hc)
    (fun _ b c h => ⟨h.table.flags b c, h.positive, h.owned, h.distinct, h.alone⟩) h
    fun _ _ _ _ hc hg hr => h.reload hc hg hr

/-- Every process the supervisor knows is the process of exactly one loaded
module, no module is started or freed while a process of it is alive. -/
structure OneProcess (w : World) : Prop where
  process : ∀ p ∈ w.kernel.procs, ∃ x m, w.sup.loaded[x]? = some m ∧ m.modulePid = p.pid ∧
    m.moduleName = p.owner ∧
    ∀ (y : Nat) (m' : RunningModule), w.sup.loaded[y]? = some m' → m'.modulePid = p.pid → y = x
  start : ∀ m profile limit alive,
    .startCalled m profile limit alive ∈ w.kernel.trace → alive = false
  freed : ∀ m alive, .freed m alive ∈ w.kernel.trace → alive = false

theorem ProcessInv.oneProcess {w : World} (h : ProcessInv w) : OneProcess w := by
  refine ⟨fun p hp => ?_, fun m profile limit b hb => ?_, fun m b hb => ?_⟩
  · obtain ⟨m, hm, hpid, hname⟩ := h.owned p hp
    obtain ⟨x, hx⟩ := List.mem_iff_getElem?.mp hm
    refine ⟨x, m, hx, hpid, hname, fun y m' hy hpid' => ?_⟩
    have hpos := h.positive p hp
    exact h.distinct y x m' m hy hx (by omega) (by omega)
  · simpa [Event.alone] using h.alone _ hb
  · simpa [Event.alone] using h.alone _ hb

end NemeaSupervisor
