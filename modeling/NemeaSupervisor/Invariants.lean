import NemeaSupervisor.Machine
import NemeaSupervisor.ServiceSteps
import NemeaSupervisor.TableInvariant

/-!
# Invariants of the state machine

A step of the machine is a chain of atomic changes of the service thread, a
chain of changes of an operator, a reload, or the change of a termination flag.
So an invariant of all reachable states has to be shown for these only; the
invariant of the table is the first, and every other one may use it.
-/

namespace NemeaSupervisor

/-! ## The operator commands -/

/-- What one selected number does; only some commands enable modules. -/
inductive Command (enabling : Bool) (s : Supervisor) : Supervisor → Prop where
  | enable (he : enabling = true) {x : Nat} {m : RunningModule} (hx : s.loaded[x]? = some m)
    (henabled : m.moduleEnabled = false) :
    Command enabling s (s.setModule x { m with moduleEnabled := true, moduleRestartCnt := -1 })
  | disable {x : Nat} {m : RunningModule} (hx : s.loaded[x]? = some m) :
    Command enabling s (s.setModule x { m with moduleEnabled := false })
  | restart {x : Nat} {m : RunningModule} (hx : s.loaded[x]? = some m)
    (henabled : m.moduleEnabled = true) (hstatus : m.moduleStatus = true) :
    Command enabling s (s.setModule x
      { m with moduleServedByServiceThread := false, moduleEnabled := false, initModule := true })
  | profile (i : Nat) (enabled : Bool) : Command enabling s (setProfileEnabled s i enabled)
  | stop : Command enabling s (interactiveStopConfiguration s)

/-- A chain of operator changes. -/
abbrev Commands (enabling : Bool) : Supervisor → Supervisor → Prop :=
  Relation.ReflTransGen (Command enabling)

theorem foldl_commands {enabling : Bool} {f : Supervisor → Int → Supervisor}
    (hf : ∀ s n, Commands enabling s (f s n)) (selection : List Int) (s : Supervisor) :
    Commands enabling s (selection.foldl f s) := by
  induction selection generalizing s with
  | nil => exact .refl
  | cons n selection ih => exact (hf s n).trans (ih _)

theorem enableSelected_commands (s : Supervisor) (modToEn : Int) :
    Commands true s (enableSelected s modToEn) := by
  unfold enableSelected
  split_ifs
  · exact .refl
  · exact .single (.profile _ _)
  · cases hx : s.loaded[modToEn.toNat]? with
    | none => exact .refl
    | some m =>
      simp only []
      split_ifs with henabled
      · exact .refl
      · exact .single (.enable rfl hx (by simpa using henabled))

theorem disableSelected_commands (s : Supervisor) (modToDis : Int) :
    Commands false s (disableSelected s modToDis) := by
  unfold disableSelected
  split_ifs
  · exact .refl
  · exact .single (.profile _ _)
  · cases hx : s.loaded[modToDis.toNat]? with
    | none => exact .refl
    | some m =>
      simp only []
      split_ifs
      · exact .refl
      · exact .refl
      · exact .single (.disable hx)

theorem restartSelected_commands (s : Supervisor) (modToDis : Int) :
    Commands false s (restartSelected s modToDis) := by
  unfold restartSelected
  split_ifs
  · exact .refl
  · cases hx : s.loaded[modToDis.toNat]? with
    | none => exact .refl
    | some m =>
      simp only []
      split_ifs with hoff
      · exact .refl
      · exact .refl
      · simp only [not_or, Bool.not_eq_false] at hoff
        exact .single (.restart hx hoff.1 hoff.2)

theorem interactiveSetEnabled_commands (selection : Option (List Int)) (s : Supervisor) :
    Commands true s (interactiveSetEnabled selection s) := by
  unfold interactiveSetEnabled
  split_ifs
  · exact .refl
  · exact foldl_commands enableSelected_commands _ s

theorem interactiveSetDisabled_commands (selection : Option (List Int)) (s : Supervisor) :
    Commands false s (interactiveSetDisabled selection s) := by
  unfold interactiveSetDisabled
  split_ifs
  · exact .refl
  · exact foldl_commands disableSelected_commands _ s

theorem interactiveRestartModule_commands (selection : Option (List Int)) (s : Supervisor) :
    Commands false s (interactiveRestartModule selection s) := by
  unfold interactiveRestartModule
  split_ifs
  · exact .refl
  · exact foldl_commands restartSelected_commands _ s

/-- A slot that an enable command has changed was disabled and selected. -/
def EnabledBy (selection : List Int) (s : Supervisor) (y : Nat) (m' : RunningModule) : Prop :=
  ∃ m, s.loaded[y]? = some m ∧ m.moduleEnabled = false ∧ (y : Int) ∈ selection ∧
    m' = { m with moduleEnabled := true, moduleRestartCnt := -1 }

theorem enableSelected_get {s : Supervisor} {n : Int} {y : Nat} {m' : RunningModule}
    (h : (enableSelected s n).loaded[y]? = some m') :
    s.loaded[y]? = some m' ∨ EnabledBy [n] s y m' := by
  unfold enableSelected at h
  by_cases hrange : n ≥ s.loadedModulesCnt + s.loadedProfileCnt ∨ n < 0
  · rw [if_pos hrange] at h
    exact .inl h
  · rw [if_neg hrange] at h
    by_cases hprofile : n ≥ s.loadedModulesCnt
    · rw [if_pos hprofile] at h
      exact .inl h
    · rw [if_neg hprofile] at h
      cases hn : s.loaded[n.toNat]? with
      | none =>
        rw [hn] at h
        exact .inl h
      | some m =>
        rw [hn] at h
        simp only [] at h
        split_ifs at h with hon
        · exact .inl h
        · have hlt := (List.getElem?_eq_some_iff.mp hn).1
          simp only [Supervisor.setModule, List.getElem?_set] at h
          by_cases hy : n.toNat = y
          · rw [if_pos hy, if_pos hlt, Option.some.injEq] at h
            refine .inr ⟨m, hy ▸ hn, by simpa using hon, ?_, h.symm⟩
            simp only [List.mem_singleton]
            omega
          · rw [if_neg hy] at h
            exact .inl h

/-- What a slot is after an enable command. -/
theorem interactiveSetEnabled_get {selection : Option (List Int)} {s : Supervisor} {y : Nat}
    {m' : RunningModule} (h : (interactiveSetEnabled selection s).loaded[y]? = some m') :
    s.loaded[y]? = some m' ∨ EnabledBy (selection.getD []) s y m' := by
  unfold interactiveSetEnabled at h
  split_ifs at h with hnone
  · exact .inl h
  · clear hnone
    generalize selection.getD [] = l at h ⊢
    induction l generalizing s with
    | nil => exact .inl h
    | cons n l ih =>
      rcases ih h with h1 | ⟨m1, h1, hoff, hmem, rfl⟩
      · rcases enableSelected_get h1 with h0 | ⟨m, hm, hoff, hsel, heq⟩
        · exact .inl h0
        · rw [List.mem_singleton] at hsel
          exact .inr ⟨m, hm, hoff, by simp [hsel], heq⟩
      · rcases enableSelected_get h1 with h0 | ⟨m, -, -, -, rfl⟩
        · exact .inr ⟨m1, h0, hoff, List.mem_cons_of_mem _ hmem, rfl⟩
        · exact absurd hoff (by simp)

/-! ## The table in every reachable state -/

theorem tickRestartTimer_config (m : RunningModule) : (tickRestartTimer m).config = m.config := by
  unfold tickRestartTimer
  split_ifs <;> rfl

/-- A service step leaves the configuration of a slot alone. -/
theorem SlotChange.config {s : Supervisor} {k k' : Kernel} {m m' : RunningModule}
    (h : SlotChange s k m m' k') : m'.config = m.config := by
  cases h with
  | tick => exact tickRestartTimer_config m
  | _ => rfl

theorem SlotChange.removeModule {s : Supervisor} {k k' : Kernel} {m m' : RunningModule}
    (h : SlotChange s k m m' k') : m'.removeModule = m.removeModule := by
  cases h with
  | tick =>
    unfold tickRestartTimer
    split_ifs <;> rfl
  | _ => rfl

theorem map_set_same {α β : Type} {f : α → β} {l : List α} {x : Nat} {a b : α}
    (hx : l[x]? = some a) (hf : f b = f a) : (l.set x b).map f = l.map f := by
  apply List.ext_getElem?
  intro y
  rw [List.getElem?_map, List.getElem?_set, List.getElem?_map]
  by_cases hxy : x = y
  · subst hxy
    rw [if_pos rfl, if_pos (List.getElem?_eq_some_iff.mp hx).1, hx, Option.map_some, Option.map_some,
      hf]
  · rw [if_neg hxy]

theorem TableInv.setModule {s : Supervisor} (h : TableInv s) {x : Nat} {m m' : RunningModule}
    (hx : s.loaded[x]? = some m) (hm : m'.config = m.config) : TableInv (s.setModule x m') :=
  h.congr (map_set_same hx hm) rfl rfl rfl rfl

/-- A freed slot joins the blank ones. -/
theorem TableInv.freed {s : Supervisor} (h : TableInv s) (x : Nat) :
    TableInv (freeModuleAndShiftArray s x) := by
  unfold freeModuleAndShiftArray
  split_ifs with hx
  · constructor
    · exact fun m hm => h.slots m (List.mem_of_mem_eraseIdx hm)
    · exact h.distinct.sublist ((List.eraseIdx_sublist _ _).map _)
    · exact h.profileNames
    · exact h.profileCnt
    · exact h.limit
    · intro k
      cases k with
      | zero => exact BlankSlot.ofZero
      | succ k => exact h.spare k
    · have := h.size
      simp only [Supervisor.runningModulesArraySize, List.length_eraseIdx, if_pos hx,
        List.length_cons] at this ⊢
      omega
  · exact h

theorem TableInv.change {w w' : World} (h : TableInv w.sup) (hc : Change w w') : TableInv w'.sup := by
  cases hc with
  | outside => exact h
  | slot hx hslot => exact h.setModule hx hslot.config
  | freed => exact h.freed _
  | exited => exact h

theorem TableInv.command {enabling : Bool} {s s' : Supervisor} (h : TableInv s)
    (hc : Command enabling s s') : TableInv s' := by
  cases hc with
  | enable _ hx => exact h.setModule hx rfl
  | disable hx => exact h.setModule hx rfl
  | restart hx => exact h.setModule hx rfl
  | profile i enabled =>
    refine h.congr rfl rfl ?_ rfl rfl
    apply List.ext_getElem?
    intro j
    simp only [setProfileEnabled, List.getElem?_map, List.getElem?_modify]
    cases s.profiles[j]? with
    | none => rfl
    | some p =>
      by_cases hij : i = j <;> simp [hij]
  | stop =>
    refine h.congr ?_ rfl rfl rfl rfl
    simp only [interactiveStopConfiguration, List.map_map]
    rfl

section rules

variable {I : World → Prop} {w : World}

theorem locked_invariant {f : Supervisor → Supervisor} (h : I w) (hf : I { w with sup := f w.sup }) :
    I (w.locked f) := by
  unfold World.locked
  split_ifs
  · exact h
  · exact hf

theorem commands_invariant {enabling : Bool}
    (hcommand : ∀ w s', I w → Command enabling w.sup s' → I { w with sup := s' })
    {s : Supervisor} (hs : Commands enabling w.sup s) (h : I w) : I { w with sup := s } :=
  Loop.reaches_invariant (I := fun s => I { w with sup := s })
    (fun s s' hs hc => hcommand { w with sup := s } s' hs hc) hs h

/-- A rejected document changes nothing, an accepted one as described. -/
theorem reload_invariant {choice : ReloadChoice} {rootNode : Option XmlNode}
    (htable : TableInv w.sup) (h : I w)
    (hreload : ∀ root s', rootNode = some root → Grammar root →
      Reloaded choice w.sup root.xmlChildrenNode s' → I { w with sup := s' }) :
    I (w.locked fun s => (reloadConfiguration choice rootNode s).1) := by
  refine locked_invariant h ?_
  by_cases hg : ∃ r, rootNode = some r ∧ Grammar r
  · obtain ⟨r, rfl, hg⟩ := hg
    exact hreload r _ rfl hg (reloadConfiguration_accepted htable hg choice).2
  · simp only [reloadConfiguration_rejected hg]
    exact h

/-- Preservation by a step that is no cycle, from what the atomic changes preserve; a reload is
given by the description of what an accepted document does. -/
theorem command_invariant (htable : ∀ w, I w → TableInv w.sup)
    (hmove : ∀ mv, I w → I { w with kernel := w.kernel.move mv })
    (hcommand : ∀ enabling w s', I w → Command enabling w.sup s' → I { w with sup := s' })
    (hflags : ∀ w b c, I w →
      I { w with sup := { w.sup with serviceThreadContinue := b, serviceStopAllModules := c } })
    {a : Action} (ha : ∀ turns, a ≠ .cycle turns) (h : I w)
    (hreload : ∀ choice root s', a.reloadRoot = some root → choice ≠ .initLoadConfig →
      Grammar root → Reloaded choice w.sup root.xmlChildrenNode s' → I { w with sup := s' }) :
    I (step w a) := by
  have commands : ∀ {enabling} {f : Supervisor → Supervisor}, (∀ s, Commands enabling s (f s)) →
      I (w.locked f) :=
    fun {enabling} _ hf => locked_invariant h (commands_invariant (hcommand enabling) (hf w.sup) h)
  cases a with
  | cycle turns => exact absurd rfl (ha turns)
  | move mv => exact hmove mv h
  | setEnabled selection => exact commands (interactiveSetEnabled_commands selection)
  | setDisabled selection => exact commands (interactiveSetDisabled_commands selection)
  | restartModule selection => exact commands (interactiveRestartModule_commands selection)
  | reloadTemplate rootNode =>
    exact reload_invariant (htable w h) h fun root s' hr => hreload _ root s' hr (by simp)
  | reloadCallback rootNode =>
    exact reload_invariant (htable w h) h fun root s' hr => hreload _ root s' hr (by simp)
  | stopConfiguration => exact commands fun s => (.single .stop : Commands false s _)
  | setStopAllModules stop => exact hflags w _ stop h
  | abortServiceThread => exact hflags w false _ h

/-- Preservation by a step, from what the cycle and the atomic changes of the
others preserve. -/
theorem step_invariant_of_cycle (htable : ∀ w, I w → TableInv w.sup)
    (hcycle : ∀ turns, I w → I (serviceCycle turns w))
    (hmove : ∀ mv, I w → I { w with kernel := w.kernel.move mv })
    (hcommand : ∀ enabling w s', I w → Command enabling w.sup s' → I { w with sup := s' })
    (hflags : ∀ w b c, I w →
      I { w with sup := { w.sup with serviceThreadContinue := b, serviceStopAllModules := c } })
    {a : Action} (h : I w)
    (hreload : ∀ choice root s', a.reloadRoot = some root → choice ≠ .initLoadConfig →
      Grammar root → Reloaded choice w.sup root.xmlChildrenNode s' → I { w with sup := s' }) :
    I (step w a) := by
  by_cases ha : ∃ turns, a = .cycle turns
  · obtain ⟨turns, rfl⟩ := ha
    exact hcycle turns h
  · exact command_invariant htable hmove hcommand hflags (fun turns he => ha ⟨turns, he⟩) h hreload

/-- The same where the atomic changes of a cycle preserve the invariant one by one. -/
theorem step_invariant (htable : ∀ w, I w → TableInv w.sup)
    (hchange : ∀ w w', I w → Change w w' → I w')
    (hcommand : ∀ enabling w s', I w → Command enabling w.sup s' → I { w with sup := s' })
    (hflags : ∀ w b c, I w →
      I { w with sup := { w.sup with serviceThreadContinue := b, serviceStopAllModules := c } })
    {a : Action} (h : I w)
    (hreload : ∀ choice root s', a.reloadRoot = some root → choice ≠ .initLoadConfig →
      Grammar root → Reloaded choice w.sup root.xmlChildrenNode s' → I { w with sup := s' }) :
    I (step w a) :=
  step_invariant_of_cycle htable
    (fun turns hw => Loop.reaches_invariant hchange (serviceCycle_reaches turns w) hw)
    (fun mv hw => hchange _ _ hw (.outside (.move mv))) hcommand hflags h hreload

end rules

theorem TableInv.flags {s : Supervisor} (h : TableInv s) (b c : Bool) :
    TableInv { s with serviceThreadContinue := b, serviceStopAllModules := c } :=
  h.congr rfl rfl rfl rfl rfl

theorem initialTable_tableInv (rootNode : Option XmlNode) : TableInv (initialTable rootNode) :=
  TableInv.init.reload .initLoadConfig rootNode

theorem boot_tableInv (alive : List Int) (rootNode : Option XmlNode) :
    TableInv (boot alive rootNode).sup :=
  (initialTable_tableInv rootNode).flags true false

theorem step_tableInv {w : World} (a : Action) (h : TableInv w.sup) : TableInv (step w a).sup :=
  step_invariant (I := fun w => TableInv w.sup) (fun _ h => h) (fun _ _ h hc => h.change hc)
    (fun _ _ _ h hc => h.command hc) (fun _ b c h => h.flags b c) h
    fun _ _ _ _ _ hg hr => hr.tableInv h hg

/-- The invariant of the table holds in every reachable state. -/
theorem reachable_tableInv {w : World} (h : Reachable w) : TableInv w.sup := by
  obtain ⟨alive, rootNode, as, rfl⟩ := h
  exact Run.run_invariant (I := fun w : World => TableInv w.sup) (fun _ a h => step_tableInv a h)
    (boot_tableInv alive rootNode) as

/-! ## The slots after the start -/

/-- A slot of the initial table. -/
structure InitialSlot (m : RunningModule) : Prop where
  status : m.moduleStatus = false
  sent : m.sentSigint = false
  init : m.initModule = false
  remove : m.removeModule = false
  running : m.moduleRunning = true → m.modulePid > 0
  restartCnt : m.moduleRestartCnt ≤ 0
  restarting : m.moduleEnabled = true → m.moduleRestartCnt = -1

theorem resetTable_init_slot (k : Nat) : ∃ b l, slotAt (resetTable Supervisor.init) k =
    { RunningModule.fresh with moduleIsMyChild := b, moduleMaxRestartsPerMinute := l } := by
  have hfresh : slotAt Supervisor.init k = RunningModule.fresh := by
    simp only [slotAt, Supervisor.init, checkRunningModulesAllocatedMemory,
      Supervisor.runningModulesArraySize, List.getD_eq_getElem?_getD]
    simp only [List.length_nil, if_true, List.getElem?_replicate]
    split_ifs <;> rfl
  rw [slotAt_resetTable, hfresh]
  split_ifs
  · exact ⟨true, -1, rfl⟩
  · exact ⟨false, 0, rfl⟩

/-- A slot of the initial table is a new one to which an element was applied. -/
theorem initialTable_applied (rootNode : Option XmlNode) {m : RunningModule}
    (hm : m ∈ (initialTable rootNode).loaded) :
    ∃ b l i e m1, Applied .initLoadConfig i true e
        { RunningModule.fresh with moduleIsMyChild := b, moduleMaxRestartsPerMinute := l } m1 ∧
      m = finishSlot .initLoadConfig m1 := by
  by_cases hg : ∃ r, rootNode = some r ∧ Grammar r
  · obtain ⟨r, rfl, hg⟩ := hg
    have hr := (reloadConfiguration_accepted TableInv.init hg .initLoadConfig).2
    cases hr.slot TableInv.init hg.goodDocs hm with
    | missing h => exact absurd h (by simp [init_loaded])
    | kept h => exact absurd h (by simp [init_loaded])
    | @new k m1 d hd hnew happlied =>
      obtain ⟨b, l, hslot⟩ := resetTable_init_slot k
      rw [hslot] at happlied
      exact ⟨b, l, d.1, d.2, m1, happlied, rfl⟩
  · rw [initialTable, reloadConfiguration_rejected hg] at hm
    exact absurd hm (by simp [init_loaded])

theorem initialTable_slot (rootNode : Option XmlNode) {m : RunningModule}
    (hm : m ∈ (initialTable rootNode).loaded) : InitialSlot m := by
  obtain ⟨b, l, i, e, m1, happlied, rfl⟩ := initialTable_applied rootNode hm
  have hframe := happlied.frame
  have hrunning : m1.moduleRunning = false := congrArg RunningModule.moduleRunning hframe
  have hstatus : m1.moduleStatus = false := congrArg RunningModule.moduleStatus hframe
  have hsent : m1.sentSigint = false := congrArg RunningModule.sentSigint hframe
  have hinit : m1.initModule = false := congrArg RunningModule.initModule hframe
  have hremove : m1.removeModule = false := congrArg RunningModule.removeModule hframe
  have hcnt := happlied.restartCnt
  have hcnt0 : m1.moduleRestartCnt ≤ 0 := by
    rw [hcnt]
    split_ifs
    · decide
    · exact Int.le_refl 0
  have hrestart : m1.moduleEnabled = true → m1.moduleRestartCnt = -1 := by
    intro he
    rw [hcnt, ← happlied.enabled, he]
    rfl
  rw [finishSlot, restartIfModified_eq]
  simp only [hrunning, Bool.and_false, Bool.false_and, Bool.or_false, Bool.not_false,
    Bool.and_true]
  unfold adoptIfRunning
  split_ifs with hadopt
  · exact ⟨hstatus, rfl, hinit, hremove, fun _ => hadopt.2, hcnt0, hrestart⟩
  · exact ⟨hstatus, hsent, hinit, hremove, fun h => absurd h (by simp), hcnt0, hrestart⟩

end NemeaSupervisor
