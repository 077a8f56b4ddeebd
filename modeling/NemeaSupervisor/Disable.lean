import NemeaSupervisor.Termination

/-!
# A disable is not lost

A module that the operator has disabled stays disabled and is not started until
a command enables it, unless a restart of it was still pending when it was
disabled. The module is followed by its name, since its slot may move.
-/

namespace NemeaSupervisor

/-- A selected number is the index of the module. -/
def Selects (selection : Option (List Int)) (s : Supervisor) (name : String) : Prop :=
  ∃ (y : Nat) (m : RunningModule), (y : Int) ∈ selection.getD [] ∧ s.loaded[y]? = some m ∧
    m.moduleName = some name

/-- A step that is neither a reload nor a command that enables or restarts the module. -/
def LeavesDisabled (name : String) (w : World) : Action → Prop
  | .setEnabled selection => ¬ Selects selection w.sup name
  | .restartModule selection => ¬ Selects selection w.sup name
  | .reloadTemplate _ => False
  | .reloadCallback _ => False
  | _ => True

def Event.isStartOf (name : String) : Event → Bool
  | .startCalled m _ _ _ => m.moduleName == some name
  | .started m _ _ => m.moduleName == some name
  | _ => false

/-- The starts of a module so far. -/
def startsOf (name : String) (w : World) : List Event := w.kernel.trace.filter (Event.isStartOf name)

structure DisabledInv (name : String) (before : List Event) (w : World) : Prop where
  slots : ∀ m ∈ w.sup.loaded, m.moduleName = some name → Stopped m
  starts : startsOf name w = before

section invariant

variable {name : String} {before : List Event}

theorem SlotChange.no_start_of {s : Supervisor} {k k' : Kernel} {m m' : RunningModule}
    (h : SlotChange s k m m' k') (hm : m.moduleName = some name → Stopped m) :
    k'.trace.filter (Event.isStartOf name) = k.trace.filter (Event.isStartOf name) := by
  have other : ∀ {e : Event}, Startable s m → Event.isStartOf name e = (m.moduleName == some name) →
      (e :: k.trace).filter (Event.isStartOf name) = k.trace.filter (Event.isStartOf name) := by
    intro e hs he
    refine List.filter_cons_of_neg ?_
    rw [he, beq_iff_eq]
    exact fun hname => hs.not_stopped (hm hname).disabled
  cases h with
  | startCalled h => exact other h rfl
  | started h => exact other h rfl
  | _ => rfl

theorem Outside.no_start_of {k k' : Kernel} (h : Outside k k') :
    k'.trace.filter (Event.isStartOf name) = k.trace.filter (Event.isStartOf name) := by
  rcases h.trace with he | ⟨sd, he⟩ | ⟨sd, he⟩ <;> rw [he] <;> rfl

theorem DisabledInv.change {w w' : World} (h : DisabledInv name before w) (hc : Change w w') :
    DisabledInv name before w' := by
  cases hc with
  | outside ho => exact ⟨h.slots, ho.no_start_of.trans h.starts⟩
  | @slot x m m' k hx hs =>
    have hm := h.slots m (List.mem_of_getElem? hx)
    refine ⟨fun m1 hm1 hname => ?_, (hs.no_start_of hm).trans h.starts⟩
    rcases mem_setModule hm1 with rfl | hm1
    · exact hs.stopped (hm (hs.name.symm.trans hname))
    · exact h.slots m1 hm1 hname
  | freed => exact ⟨fun m hm => h.slots m (mem_freed hm), h.starts⟩
  | exited => exact ⟨h.slots, h.starts⟩

/-- Commands that enable nothing leave a stopped module alone. -/
theorem DisabledInv.command {w : World} {s' : Supervisor} (h : DisabledInv name before w)
    (hc : Command false w.sup s') : DisabledInv name before { w with sup := s' } := by
  refine ⟨?_, h.starts⟩
  cases hc with
  | enable he => exact absurd he (by simp)
  | disable hx =>
    intro m1 hm1 hname
    rcases List.mem_or_eq_of_mem_set hm1 with hm1 | rfl
    · exact h.slots m1 hm1 hname
    · exact ⟨rfl, (h.slots _ (List.mem_of_getElem? hx) hname).settled⟩
  | restart hx henabled =>
    intro m1 hm1 hname
    rcases List.mem_or_eq_of_mem_set hm1 with hm1 | rfl
    · exact h.slots m1 hm1 hname
    · have := (h.slots _ (List.mem_of_getElem? hx) hname).disabled
      rw [henabled] at this
      exact absurd this (by simp)
  | profile => exact h.slots
  | stop =>
    intro m1 hm1 hname
    obtain ⟨m, hm, rfl⟩ := List.mem_map.mp hm1
    exact ⟨rfl, (h.slots m hm hname).settled⟩

theorem DisabledInv.step {w : World} {a : Action} (h : DisabledInv name before w)
    (ha : LeavesDisabled name w a) : DisabledInv name before (step w a) := by
  have commands : ∀ {f : Supervisor → Supervisor}, (∀ s, Commands false s (f s)) →
      DisabledInv name before (w.locked f) :=
    fun hf => locked_invariant h (commands_invariant (fun _ _ h hc => h.command hc) (hf w.sup) h)
  cases a with
  | cycle turns =>
    exact Loop.reaches_invariant (fun _ _ h hc => h.change hc) (serviceCycle_reaches turns w) h
  | move mv => exact h.change (.outside (.move mv))
  | setEnabled selection =>
    refine locked_invariant h ⟨fun m' hm' hname => ?_, h.starts⟩
    obtain ⟨y, hy⟩ := List.mem_iff_getElem?.mp hm'
    rcases interactiveSetEnabled_get hy with hold | ⟨m, hm, -, hsel, rfl⟩
    · exact h.slots m' (List.mem_of_getElem? hold) hname
    · exact absurd ⟨y, m, hsel, hm, hname⟩ ha
  | setDisabled selection => exact commands (interactiveSetDisabled_commands selection)
  | restartModule selection => exact commands (interactiveRestartModule_commands selection)
  | reloadTemplate => exact absurd ha id
  | reloadCallback => exact absurd ha id
  | stopConfiguration => exact commands fun s => .single .stop
  | setStopAllModules => exact ⟨h.slots, h.starts⟩
  | abortServiceThread => exact ⟨h.slots, h.starts⟩

end invariant

/-! ## The disable command -/

/-- One selected number of the disable command, at a slot that is not blocked. -/
theorem disableSelected_get {s : Supervisor} {x : Nat} {m : RunningModule}
    (hx : s.loaded[x]? = some m) (hroot : m.moduleRootPermNeeded = false) (n : Int) :
    ∃ b, (disableSelected s n).loaded[x]? = some { m with moduleEnabled := b } ∧
      (m.moduleEnabled = false ∨ n = x → b = false) := by
  have hlt := (List.getElem?_eq_some_iff.mp hx).1
  have same : n ≠ x → ∃ b, s.loaded[x]? = some { m with moduleEnabled := b } ∧
      (m.moduleEnabled = false ∨ n = x → b = false) :=
    fun hne => ⟨m.moduleEnabled, hx, fun h => h.resolve_right hne⟩
  unfold disableSelected
  by_cases hrange : n ≥ s.loadedModulesCnt + s.loadedProfileCnt ∨ n < 0
  · rw [if_pos hrange]
    exact same (by simp only [Supervisor.loadedModulesCnt] at hrange; omega)
  · rw [if_neg hrange]
    by_cases hprofile : n ≥ s.loadedModulesCnt
    · rw [if_pos hprofile]
      exact same (by simp only [Supervisor.loadedModulesCnt] at hprofile; omega)
    · rw [if_neg hprofile]
      by_cases hn : n.toNat = x
      · simp only [hn, hx]
        split_ifs with hoff
        · exact ⟨m.moduleEnabled, hx, fun _ => hoff⟩
        · rw [hroot] at *
          simp at *
        · exact ⟨false, by simp [Supervisor.setModule, hlt], fun _ => rfl⟩
      · have hne : n ≠ x := fun h => hn (by omega)
        cases hm1 : s.loaded[n.toNat]? with
        | none => exact same hne
        | some m1 =>
          simp only []
          split_ifs
          · exact same hne
          · exact same hne
          · obtain ⟨b, hb, himp⟩ := same hne
            exact ⟨b, by simpa [Supervisor.setModule, List.getElem?_set, hn] using hb, himp⟩

theorem foldl_disableSelected_get {s : Supervisor} {x : Nat} {m : RunningModule}
    (hx : s.loaded[x]? = some m) (hroot : m.moduleRootPermNeeded = false) (selection : List Int) :
    ∃ b, (selection.foldl disableSelected s).loaded[x]? = some { m with moduleEnabled := b } ∧
      (m.moduleEnabled = false ∨ (x : Int) ∈ selection → b = false) := by
  induction selection generalizing s m with
  | nil => exact ⟨m.moduleEnabled, hx, by simp⟩
  | cons n selection ih =>
    obtain ⟨b, hb, himp⟩ := disableSelected_get hx hroot n
    obtain ⟨b', hb', himp'⟩ := ih hb hroot
    refine ⟨b', hb', fun h => himp' ?_⟩
    rcases h with h | h
    · exact .inl (himp (.inl h))
    · rcases List.mem_cons.mp h with h | h
      · exact .inl (himp (.inr h.symm))
      · exact .inr h

/-- The command disables a selected module that is not blocked. -/
theorem interactiveSetDisabled_get {s : Supervisor} {x : Nat} {m : RunningModule}
    (hx : s.loaded[x]? = some m) (hroot : m.moduleRootPermNeeded = false) {selection : List Int}
    (hsel : (x : Int) ∈ selection) :
    (interactiveSetDisabled (some selection) s).loaded[x]? =
      some { m with moduleEnabled := false } := by
  unfold interactiveSetDisabled
  split_ifs with hnone
  · have hall : s.loaded.countP (fun m => m.moduleEnabled == false) = s.loaded.length := by
      have hle := List.countP_le_length (p := fun m : RunningModule => m.moduleEnabled == false)
        (l := s.loaded)
      have := hnone.2
      simp only [Supervisor.loadedModulesCnt, getNumDisabledModules] at this
      omega
    have hoff : m.moduleEnabled = false := by
      simpa using List.countP_eq_length.mp hall m (List.mem_of_getElem? hx)
    rw [hx, ← hoff]
  · obtain ⟨b, hb, himp⟩ := foldl_disableSelected_get hx hroot selection
    rw [Option.getD_some, hb, himp (.inr hsel)]

/-- After the operator has disabled a module without a pending restart, it stays
disabled and is not started until a command selects it or the configuration is
reloaded. -/
theorem disable_not_lost {w : World} (hw : Reachable w) (hlive : w.serviceExited = false)
    {x : Nat} {m : RunningModule} {name : String} (hx : w.sup.loaded[x]? = some m)
    (hname : m.moduleName = some name) (hroot : m.moduleRootPermNeeded = false)
    {selection : List Int} (hsel : (x : Int) ∈ selection) (hsettled : ¬ PendingRestart m)
    (as : List Action)
    (has : Run.Along step (LeavesDisabled name) (step w (.setDisabled (some selection))) as) :
    let w' := Run.run step (step w (.setDisabled (some selection))) as
    (∀ m' ∈ w'.sup.loaded, m'.moduleName = some name → m'.moduleEnabled = false) ∧
      startsOf name w' = startsOf name w := by
  have htable := reachable_tableInv hw
  have hstep : step w (.setDisabled (some selection)) =
      { w with sup := interactiveSetDisabled (some selection) w.sup } := by
    simp [step, World.locked, hlive]
  have hbegin : DisabledInv name (startsOf name w) (step w (.setDisabled (some selection))) := by
    rw [hstep]
    refine ⟨fun m' hm' hname' => ?_, rfl⟩
    have hget := interactiveSetDisabled_get hx hroot hsel
    have htable' : TableInv (interactiveSetDisabled (some selection) w.sup) :=
      Loop.reaches_invariant (fun _ _ h hc => h.command hc)
        (interactiveSetDisabled_commands (some selection) w.sup) htable
    have hsame : m' = { m with moduleEnabled := false } :=
      List.inj_on_of_nodup_map htable'.distinct hm' (List.mem_of_getElem? hget)
        (hname'.trans hname.symm)
    rw [hsame]
    exact ⟨rfl, hsettled⟩
  have h := Run.along_invariant (fun w a h ha => h.step ha) hbegin has
  exact ⟨fun m' hm' hname' => (h.slots m' hm' hname').disabled, h.starts⟩

/-- A run in which the module is started, disabled and stopped. -/
theorem disable_not_lost_running :
    let w' := Run.run step (step oneRunning (.setDisabled (some [0]))) [.cycle [], .cycle []]
    (∀ m' ∈ w'.sup.loaded, m'.moduleName = some "m" → m'.moduleEnabled = false) ∧
      startsOf "m" w' = startsOf "m" oneRunning := by
  have hfacts : ∀ m ∈ oneRunning.sup.loaded, m.moduleName = some "m" ∧
      m.moduleRootPermNeeded = false ∧ m.initModule = false := by decide
  have hlt : 0 < oneRunning.sup.loaded.length := by decide
  obtain ⟨hname, hroot, hinit⟩ := hfacts _ (List.getElem_mem hlt)
  refine disable_not_lost (w := oneRunning) ⟨_, _, _, rfl⟩ (by decide) (x := 0)
    (List.getElem?_eq_getElem hlt) hname hroot (by decide) (fun hp => ?_) [.cycle [], .cycle []]
    ⟨trivial, trivial, trivial⟩
  rw [PendingRestart, hinit] at hp
  exact absurd hp.1 (by simp)

/-- The module is restarted, and disabled before the restart is complete. -/
theorem not_disable_not_lost :
    ¬ ∀ w, Reachable w → w.serviceExited = false → ∀ (x : Nat) (m : RunningModule) (name : String),
      w.sup.loaded[x]? = some m → m.moduleName = some name → m.moduleRootPermNeeded = false →
      ∀ selection : List Int, (x : Int) ∈ selection → ∀ as : List Action,
      Run.Along step (LeavesDisabled name) (step w (.setDisabled (some selection))) as →
      let w' := Run.run step (step w (.setDisabled (some selection))) as
      (∀ m' ∈ w'.sup.loaded, m'.moduleName = some name → m'.moduleEnabled = false) ∧
        startsOf name w' = startsOf name w := by
  intro h
  have hfacts : ∀ m ∈ (step oneRunning (.restartModule (some [0]))).sup.loaded,
      m.moduleName = some "m" ∧ m.moduleRootPermNeeded = false := by decide
  have hlt : 0 < (step oneRunning (.restartModule (some [0]))).sup.loaded.length := by decide
  obtain ⟨hname, hroot⟩ := hfacts _ (List.getElem_mem hlt)
  have hw := (h (step oneRunning (.restartModule (some [0])))
    ⟨[], some (profileDocument [moduleElement "m" "/bin/m" "true" []]),
      [.cycle [{ Turn.idle with forkPid := 100 }], .restartModule (some [0])], rfl⟩
    (by decide) 0 _ "m" (List.getElem?_eq_getElem hlt) hname hroot [0] (by decide)
    [.cycle [.idle, .idle, { Turn.idle with moves := [.exits 100] }], .cycle [], .cycle []]
    ⟨trivial, trivial, trivial, trivial⟩).1
  revert hw
  decide

end NemeaSupervisor
