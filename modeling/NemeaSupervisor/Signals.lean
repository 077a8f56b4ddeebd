import NemeaSupervisor.Processes

/-!
# Signals and starts

Every signal goes to a process group of a module that has to stop, a SIGKILL
follows a SIGINT to the same process, and only enabled modules of enabled
profiles are started. The trace carries these properties event by event; the
slots carry what makes the next event one that has them.
-/

namespace NemeaSupervisor

/-- The event makes a process with this PID known to the supervisor. -/
def Event.introduces (pid : Int) : Event → Prop
  | .started _ _ p => p = pid
  | .adopted p => p = pid
  | _ => False

/-- A SIGINT was sent to the process, and since then no process has got its PID. -/
def SigintSince (pid : Int) : List Event → Prop
  | [] => False
  | .sigint m _ :: earlier => m.modulePid = pid ∨ SigintSince pid earlier
  | e :: earlier => ¬ e.introduces pid ∧ SigintSince pid earlier

/-- The module is disabled or its profile is. -/
def ToStop (m : RunningModule) (profile : Option ModulesProfile) : Prop :=
  m.moduleEnabled = false ∨ profile.any (fun p => !p.profileEnabled) = true

/-- The module is enabled and so is its profile. -/
def ToRun (m : RunningModule) (profile : Option ModulesProfile) : Prop :=
  m.moduleEnabled = true ∧ profile.any ModulesProfile.profileEnabled = true

/-- The discipline of one event, given the events before it. -/
def Event.disciplined (earlier : List Event) : Event → Prop
  | .sigint m profile => m.modulePid > 0 ∧ ToStop m profile
  | .sigkill m profile => m.modulePid > 0 ∧ ToStop m profile ∧ SigintSince m.modulePid earlier
  | .startCalled m profile _ _ => ToRun m profile
  | .started m profile _ => ToRun m profile
  | _ => True

/-- Every event of a trace keeps the discipline. -/
def Disciplined : List Event → Prop
  | [] => True
  | e :: earlier => e.disciplined earlier ∧ Disciplined earlier

structure SignalInv (w : World) : Prop where
  table : TableInv w.sup
  status : ∀ m ∈ w.sup.loaded, m.moduleStatus = true → m.modulePid > 0
  sent : ∀ m ∈ w.sup.loaded, m.modulePid > 0 → m.sentSigint = true →
    SigintSince m.modulePid w.kernel.trace
  trace : Disciplined w.kernel.trace

theorem SigintSince.cons {pid : Int} {e : Event} {earlier : List Event} (he : ¬ e.introduces pid)
    (h : SigintSince pid earlier) : SigintSince pid (e :: earlier) := by
  cases e with
  | sigint m profile => exact .inr h
  | _ => exact ⟨he, h⟩

/-- The three properties of a slot and the trace. -/
structure SlotSignals (trace : List Event) (m : RunningModule) : Prop where
  status : m.moduleStatus = true → m.modulePid > 0
  sent : m.modulePid > 0 → m.sentSigint = true → SigintSince m.modulePid trace

theorem SignalInv.slots {w : World} (h : SignalInv w) {m : RunningModule} (hm : m ∈ w.sup.loaded) :
    SlotSignals w.kernel.trace m := ⟨h.status m hm, h.sent m hm⟩

theorem SlotChange.event_disciplined {s : Supervisor} {k k' : Kernel} {m m' : RunningModule}
    (h : SlotChange s k m m' k') (hm : SlotSignals k.trace m) (ht : Disciplined k.trace) :
    Disciplined k'.trace := by
  cases h with
  | sigint hstatus _ hdisabled _ => exact ⟨⟨hm.status hstatus, hdisabled.symm⟩, ht⟩
  | sigkill hstatus hdisabled hsent =>
    have hpid := hm.status hstatus
    exact ⟨⟨hpid, hdisabled, hm.sent hpid hsent⟩, ht⟩
  | startCalled h => exact ⟨⟨h.enabled, h.profile⟩, ht⟩
  | started h => exact ⟨⟨h.enabled, h.profile⟩, ht⟩
  | _ => exact ht

/-- The events of a slot change introduce no PID that another slot has. -/
theorem SlotChange.sigintSince {s : Supervisor} {k k' : Kernel} {m m' : RunningModule}
    (h : SlotChange s k m m' k') {m0 : RunningModule} (hm0 : m0 ∈ s.loaded)
    (hs : SigintSince m0.modulePid k.trace) : SigintSince m0.modulePid k'.trace := by
  cases h with
  | sigint | sigkill | startCalled => exact hs.cons id
  | started _ _ _ htracked => exact hs.cons fun he => htracked m0 hm0 he.symm
  | _ => exact hs

theorem SlotChange.slotSignals {s : Supervisor} {k k' : Kernel} {m m' : RunningModule}
    (h : SlotChange s k m m' k') (hm : SlotSignals k.trace m) : SlotSignals k'.trace m' := by
  cases h with
  | seen _ hpid => exact ⟨fun _ => hpid, hm.sent⟩
  | gone => exact ⟨fun hf => by simp at hf, fun hf => by simp at hf⟩
  | sigint hstatus => exact ⟨hm.status, fun _ _ => .inl rfl⟩
  | sigkill => exact ⟨hm.status, fun hpid hsent => (hm.sent hpid hsent).cons id⟩
  | startCalled => exact ⟨hm.status, fun hpid hsent => (hm.sent hpid hsent).cons id⟩
  | startFailed => exact ⟨fun hf => by simp at hf, fun hf => by simp at hf⟩
  | started _ hpid => exact ⟨fun _ => hpid.1, fun _ hf => by simp [initModuleVariables] at hf⟩
  | tick =>
    unfold tickRestartTimer
    split_ifs <;> exact ⟨hm.status, hm.sent⟩
  | _ => exact ⟨hm.status, hm.sent⟩

theorem Outside.disciplined {k k' : Kernel} (h : Outside k k') (ht : Disciplined k.trace) :
    Disciplined k'.trace := by
  rcases h.trace with he | ⟨sd, he⟩ | ⟨sd, he⟩ <;> rw [he]
  · exact ht
  · exact ⟨trivial, ht⟩
  · exact ⟨trivial, ht⟩

theorem Outside.sigintSince {k k' : Kernel} (h : Outside k k') {pid : Int}
    (hs : SigintSince pid k.trace) : SigintSince pid k'.trace := by
  rcases h.trace with he | ⟨sd, he⟩ | ⟨sd, he⟩ <;> rw [he]
  · exact hs
  · exact hs.cons id
  · exact hs.cons id

theorem SignalInv.change {w w' : World} (h : SignalInv w) (hc : Change w w') : SignalInv w' := by
  have htable := h.table.change hc
  cases hc with
  | outside ho =>
    exact ⟨htable, h.status, fun m hm hpid hsent => ho.sigintSince (h.sent m hm hpid hsent),
      ho.disciplined h.trace⟩
  | @slot x m m' k hx hs =>
    have hm := h.slots (List.mem_of_getElem? hx)
    have hslots : ∀ m1 ∈ (w.sup.setModule x m').loaded, SlotSignals k.trace m1 := by
      intro m1 hm1
      rcases mem_setModule (w := w) hm1 with rfl | hm1
      · exact hs.slotSignals hm
      · exact ⟨h.status m1 hm1, fun hpid hsent => hs.sigintSince hm1 (h.sent m1 hm1 hpid hsent)⟩
    exact ⟨htable, fun m1 hm1 => (hslots m1 hm1).status, fun m1 hm1 => (hslots m1 hm1).sent,
      hs.event_disciplined hm h.trace⟩
  | freed hx =>
    exact ⟨htable, fun m hm => h.status m (mem_freed hm),
      fun m hm hpid hsent => (h.sent m (mem_freed hm) hpid hsent).cons id, trivial, h.trace⟩
  | exited => exact ⟨htable, h.status, h.sent, h.trace⟩

/-- Only what the service thread knows of the process matters. -/
theorem SignalInv.congr {w : World} (h : SignalInv w) {s : Supervisor} (htable : TableInv s)
    (hslots : ∀ m' ∈ s.loaded, m'.process = RunningModule.zero ∨
      ∃ m ∈ w.sup.loaded, m'.process = m.process) : SignalInv { w with sup := s } := by
  have hsignals : ∀ m' ∈ s.loaded, SlotSignals w.kernel.trace m' := by
    intro m' hm'
    rcases hslots m' hm' with hzero | ⟨m, hm, hsame⟩
    · have hstatus : m'.moduleStatus = false := congrArg RunningModule.moduleStatus hzero
      have hpid : m'.modulePid = 0 := congrArg RunningModule.modulePid hzero
      exact ⟨fun hs => by simp [hstatus] at hs, fun hp => by simp [hpid] at hp⟩
    · have hstatus : m'.moduleStatus = m.moduleStatus :=
        field_of_process RunningModule.moduleStatus (fun _ => rfl) hsame
      have hpid : m'.modulePid = m.modulePid :=
        field_of_process RunningModule.modulePid (fun _ => rfl) hsame
      have hsent : m'.sentSigint = m.sentSigint :=
        field_of_process RunningModule.sentSigint (fun _ => rfl) hsame
      exact ⟨by rw [hstatus, hpid]; exact h.status m hm, by rw [hpid, hsent]; exact h.sent m hm⟩
  exact ⟨htable, fun m hm => (hsignals m hm).status, fun m hm => (hsignals m hm).sent, h.trace⟩

/-- A command leaves what the service thread knows of a process alone. -/
theorem Command.process {enabling : Bool} {s s' : Supervisor} (hc : Command enabling s s')
    {m' : RunningModule} (hm' : m' ∈ s'.loaded) : ∃ m ∈ s.loaded, m'.process = m.process := by
  have set : ∀ {x m m1}, s.loaded[x]? = some m → m' ∈ (s.setModule x m1).loaded →
      m1.process = m.process → ∃ m ∈ s.loaded, m'.process = m.process := by
    intro x m m1 hx hmem hp
    rcases List.mem_or_eq_of_mem_set hmem with hmem | rfl
    · exact ⟨m', hmem, rfl⟩
    · exact ⟨m, List.mem_of_getElem? hx, hp⟩
  cases hc with
  | enable _ hx => exact set hx hm' rfl
  | disable hx => exact set hx hm' rfl
  | restart hx => exact set hx hm' rfl
  | profile => exact ⟨m', hm', rfl⟩
  | stop =>
    obtain ⟨m, hm, rfl⟩ := List.mem_map.mp hm'
    exact ⟨m, hm, rfl⟩

/-- So does a reload, except that new modules have no process. -/
theorem Reloaded.process {choice : ReloadChoice} (hc : choice ≠ .initLoadConfig)
    {s s' : Supervisor} (h : TableInv s) {nodes : List XmlNode} (hd : GoodDocs (docModules nodes))
    (hr : Reloaded choice s nodes s') {m' : RunningModule} (hm' : m' ∈ s'.loaded) :
    m'.process = RunningModule.zero ∨ ∃ m ∈ s.loaded, m'.process = m.process := by
  obtain ⟨x, hx⟩ := List.mem_iff_getElem?.mp hm'
  rcases hr.get hx with ⟨m, hm, rfl⟩ | ⟨-, d, hdoc, rfl⟩
  · exact .inr ⟨m, List.mem_of_getElem? hm, (reloadOld_process hc h hd (List.mem_of_getElem? hm)).1⟩
  · obtain ⟨hmem, -⟩ := mem_newDocs.mp (List.mem_of_getElem? hdoc)
    exact .inl (reloadNew_process hc h (hd.grammar d hmem) _)

theorem step_signalInv (w : World) (a : Action) (h : SignalInv w) : SignalInv (step w a) :=
  step_invariant (fun _ h => h.table) (fun _ _ h hc => h.change hc)
    (fun _ _ _ h hc => h.congr (h.table.command hc) fun _ hm' => .inr (hc.process hm'))
    (fun _ b c h => ⟨h.table.flags b c, h.status, h.sent, h.trace⟩) h
    fun _ _ _ _ hc hg hr => h.congr (hr.tableInv h.table hg)
      fun _ hm' => hr.process hc h.table hg.goodDocs hm'

theorem disciplined_adopted (procs : List Process) :
    Disciplined (procs.map fun p => .adopted p.pid) := by
  induction procs with
  | nil => trivial
  | cons p procs ih => exact ⟨trivial, ih⟩

theorem boot_signalInv (alive : List Int) (rootNode : Option XmlNode) :
    SignalInv (boot alive rootNode) := by
  refine ⟨boot_tableInv alive rootNode, fun m hm hs => ?_, fun m hm _ hs => ?_,
    disciplined_adopted _⟩
  · rw [(initialTable_slot rootNode hm).status] at hs
    exact absurd hs (by simp)
  · rw [(initialTable_slot rootNode hm).sent] at hs
    exact absurd hs (by simp)

/-- In every run a module with a running process has its PID, and every signal
and every start keeps the discipline. -/
theorem signal_discipline (alive : List Int) (rootNode : Option XmlNode) (as : List Action) :
    let w := Run.run step (boot alive rootNode) as
    (∀ m ∈ w.sup.loaded, m.moduleStatus = true → m.modulePid > 0) ∧ Disciplined w.kernel.trace := by
  have h := Run.run_invariant step_signalInv (boot_signalInv alive rootNode) as
  exact ⟨h.status, h.trace⟩

end NemeaSupervisor
