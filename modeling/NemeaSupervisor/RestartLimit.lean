import NemeaSupervisor.Processes

/-!
# The restart limit

The counter of a module is compared with its limit for equality, so it must not
get past the limit. Only a reload can bring it there: it sets new limits and
keeps the counters. In every run whose reloads do not lower a limit below the
counter of a module that stays enabled or stays disabled, no counter ever
exceeds its limit.
-/

namespace NemeaSupervisor

/-- The limit a loaded module gets from a document. -/
def newLimit (s : Supervisor) (nodes : List XmlNode) (m : RunningModule) : Int :=
  ((docFor (docModules nodes) m).bind fun d => moduleRestarts d.2).getD
    ((docRestarts nodes).getD s.moduleRestartsNumConfig)

/-- The document enables a module that is disabled, which resets its counter. -/
def Reenabled (nodes : List XmlNode) (m : RunningModule) : Prop :=
  m.moduleEnabled = false ∧ ∃ d, docFor (docModules nodes) m = some d ∧ moduleElemEnabled d.2 = true

/-- No limit in the document is below the counter that is compared with it. -/
def LimitsFit (s : Supervisor) (root : XmlNode) : Prop :=
  ∀ m ∈ s.loaded, m.moduleRestartCnt ≤ newLimit s root.xmlChildrenNode m ∨
    Reenabled root.xmlChildrenNode m

/-- A start with the counter below the limit. -/
def Event.belowLimit : Event → Prop
  | .startCalled m _ limit _ => m.moduleRestartCnt < limit
  | _ => True

structure LimitInv (w : World) : Prop where
  table : TableInv w.sup
  limit : ∀ m ∈ w.sup.loaded, m.moduleRestartCnt ≤ w.sup.maxRestarts m
  starts : ∀ e ∈ w.kernel.trace, e.belowLimit

theorem TableInv.maxRestarts_nonneg {s : Supervisor} (h : TableInv s) (m : RunningModule) :
    0 ≤ s.maxRestarts m := by
  have := h.limit
  unfold Supervisor.maxRestarts
  split_ifs <;> omega

/-- The limit is part of the configuration. -/
theorem maxRestarts_congr {s s' : Supervisor} {m m' : RunningModule} (h : m'.config = m.config)
    (hs : s'.moduleRestartsNumConfig = s.moduleRestartsNumConfig) :
    s'.maxRestarts m' = s.maxRestarts m := by
  have hmax : m'.moduleMaxRestartsPerMinute = m.moduleMaxRestartsPerMinute :=
    field_of_config RunningModule.moduleMaxRestartsPerMinute (fun _ => rfl) h
  rw [Supervisor.maxRestarts, Supervisor.maxRestarts, hmax, hs]

/-- A service step counts a start only below the limit. -/
theorem SlotChange.restartCnt {s : Supervisor} {k k' : Kernel} {m m' : RunningModule}
    (h : SlotChange s k m m' k') (hm : m.moduleRestartCnt ≤ s.maxRestarts m)
    (h0 : 0 ≤ s.maxRestarts m) : m'.moduleRestartCnt ≤ s.maxRestarts m := by
  cases h with
  | sigint | sigkill | reenabled =>
    simp only
    omega
  | startFailed h | started h =>
    have := h.limit
    simp only
    omega
  | tick =>
    unfold tickRestartTimer
    split_ifs <;> simp only <;> omega
  | _ => exact hm

theorem SlotChange.belowLimit {s : Supervisor} {k k' : Kernel} {m m' : RunningModule}
    (h : SlotChange s k m m' k') (hm : m.moduleRestartCnt ≤ s.maxRestarts m)
    (ht : ∀ e ∈ k.trace, e.belowLimit) : ∀ e ∈ k'.trace, e.belowLimit := by
  have add : ∀ {e0 : Event}, e0.belowLimit → ∀ e ∈ e0 :: k.trace, e.belowLimit := by
    intro e0 h0 e he
    rcases List.mem_cons.mp he with rfl | he
    · exact h0
    · exact ht e he
  cases h with
  | sigint | sigkill | started => exact add trivial
  | startCalled h =>
    have := h.limit
    exact add (by simp only [Event.belowLimit]; omega)
  | _ => exact ht

theorem Outside.belowLimit {k k' : Kernel} (h : Outside k k')
    (ht : ∀ e ∈ k.trace, e.belowLimit) : ∀ e ∈ k'.trace, e.belowLimit := by
  intro e he
  rcases h.trace with heq | ⟨sd, heq⟩ | ⟨sd, heq⟩ <;> rw [heq] at he
  · exact ht e he
  · rcases List.mem_cons.mp he with rfl | he
    · trivial
    · exact ht e he
  · rcases List.mem_cons.mp he with rfl | he
    · trivial
    · exact ht e he

theorem LimitInv.change {w w' : World} (h : LimitInv w) (hc : Change w w') : LimitInv w' := by
  have htable := h.table.change hc
  cases hc with
  | outside ho => exact ⟨htable, h.limit, ho.belowLimit h.starts⟩
  | @slot x m m' k hx hs =>
    have hm := h.limit m (List.mem_of_getElem? hx)
    refine ⟨htable, fun m1 hm1 => ?_, hs.belowLimit hm h.starts⟩
    rcases mem_setModule hm1 with rfl | hm1
    · refine Int.le_trans (hs.restartCnt hm (h.table.maxRestarts_nonneg m)) (Int.le_of_eq ?_)
      exact (maxRestarts_congr hs.config rfl).symm
    · exact h.limit m1 hm1
  | @freed x m hx =>
    refine ⟨htable, fun m hm => ?_, fun e he => ?_⟩
    · have hsame : (freeModuleAndShiftArray w.sup x).moduleRestartsNumConfig =
          w.sup.moduleRestartsNumConfig := by
        unfold freeModuleAndShiftArray
        split_ifs <;> rfl
      rw [maxRestarts_congr (s := w.sup) (m := m) rfl hsame]
      exact h.limit m (mem_freed hm)
    · rcases List.mem_cons.mp he with rfl | he
      · trivial
      · exact h.starts e he
  | exited => exact ⟨htable, h.limit, h.starts⟩

theorem LimitInv.command {w : World} (h : LimitInv w) {enabling : Bool} {s' : Supervisor}
    (hc : Command enabling w.sup s') : LimitInv { w with sup := s' } := by
  have htable := h.table.command hc
  have set : ∀ {x : Nat} {m m1 : RunningModule}, w.sup.loaded[x]? = some m → m1.config = m.config →
      (m1.moduleRestartCnt = -1 ∨ m1.moduleRestartCnt = m.moduleRestartCnt) →
      ∀ m0 ∈ (w.sup.setModule x m1).loaded, m0.moduleRestartCnt ≤ w.sup.maxRestarts m0 := by
    intro x m m1 hx hconfig hcnt m0 hm0
    rcases List.mem_or_eq_of_mem_set hm0 with hm0 | rfl
    · exact h.limit m0 hm0
    · have hm := h.limit m (List.mem_of_getElem? hx)
      have h0 := h.table.maxRestarts_nonneg m
      rw [maxRestarts_congr (s := w.sup) hconfig rfl]
      omega
  refine ⟨htable, ?_, h.starts⟩
  cases hc with
  | enable _ hx => exact set hx rfl (.inl rfl)
  | disable hx => exact set hx rfl (.inr rfl)
  | restart hx => exact set hx rfl (.inr rfl)
  | profile => exact h.limit
  | stop =>
    intro m' hm'
    obtain ⟨m, hm, rfl⟩ := List.mem_map.mp hm'
    exact h.limit m hm

/-! ## The reload -/

theorem finishSlot_restartCnt (choice : ReloadChoice) (m : RunningModule) :
    (finishSlot choice m).moduleRestartCnt = m.moduleRestartCnt := by
  rw [finishSlot, restartIfModified_eq]
  unfold adoptIfRunning
  split_ifs <;> rfl

theorem finishSlot_maxRestarts (s : Supervisor) (choice : ReloadChoice) (m : RunningModule) :
    s.maxRestarts (finishSlot choice m) = s.maxRestarts m :=
  maxRestarts_congr (finishSlot_config choice m) rfl

/-- The limit of a slot that the reset has put to -1. -/
theorem maxRestarts_reset {s : Supervisor} {m : RunningModule} {o : Option Int}
    (hm : m.moduleMaxRestartsPerMinute = o.getD (-1)) (ho : ∀ v, o = some v → 0 ≤ v) :
    s.maxRestarts m = o.getD s.moduleRestartsNumConfig := by
  rw [Supervisor.maxRestarts, hm]
  cases o with
  | none => rfl
  | some v =>
    have := ho v rfl
    simp only [Option.getD_some]
    rw [if_pos (by omega)]

/-- The counter and the limit of a loaded module after a reload. -/
theorem Reloaded.old_limit {choice : ReloadChoice} {s s' : Supervisor} (h : TableInv s)
    {root : XmlNode} (hg : Grammar root) (hr : Reloaded choice s root.xmlChildrenNode s')
    {m : RunningModule} (hm : m ∈ s.loaded) :
    s'.maxRestarts (reloadOld choice (docModules root.xmlChildrenNode) m) =
        newLimit s root.xmlChildrenNode m ∧
      (reloadOld choice (docModules root.xmlChildrenNode) m).moduleRestartCnt =
        match docFor (docModules root.xmlChildrenNode) m with
        | some d => if moduleElemEnabled d.2 && !m.moduleEnabled then -1 else m.moduleRestartCnt
        | none => m.moduleRestartCnt := by
  unfold newLimit
  rw [← hr.limit]
  cases hdoc : docFor (docModules root.xmlChildrenNode) m with
  | none =>
    rw [reloadOld_none hdoc, finishSlot_maxRestarts, finishSlot_restartCnt]
    exact ⟨maxRestarts_reset (o := none) rfl (by simp), rfl⟩
  | some d =>
    have happlied := placeElement_applied choice (hg.goodDocs.grammar d (docFor_mem hdoc).1)
      (h.reset_slotFor hm)
    rw [reloadOld_some hdoc rfl happlied, finishSlot_maxRestarts, finishSlot_restartCnt]
    refine ⟨maxRestarts_reset happlied.limit fun v hv => configRestarts_nonneg hv, ?_⟩
    rw [happlied.restartCnt]
    simp [resetReloadFlags]

/-- A reload leaves every counter within its limit exactly when the limits fit. -/
theorem Reloaded.limits_iff {choice : ReloadChoice} {s s' : Supervisor} (h : TableInv s)
    {root : XmlNode} (hg : Grammar root) (hr : Reloaded choice s root.xmlChildrenNode s') :
    (∀ m ∈ s'.loaded, m.moduleRestartCnt ≤ s'.maxRestarts m) ↔ LimitsFit s root := by
  have htable := hr.tableInv h hg
  constructor
  · intro hall m hm
    have hle := hall (reloadOld choice (docModules root.xmlChildrenNode) m) (by
      rw [hr.loaded]
      exact List.mem_append_left _ (List.mem_map_of_mem hm))
    obtain ⟨hlimit, hcnt⟩ := hr.old_limit h hg hm
    rw [hlimit, hcnt] at hle
    unfold Reenabled
    cases hdoc : docFor (docModules root.xmlChildrenNode) m with
    | none =>
      rw [hdoc] at hle
      exact .inl hle
    | some d =>
      rw [hdoc] at hle
      simp only [] at hle
      split_ifs at hle with hon
      · simp only [Bool.and_eq_true, Bool.not_eq_true'] at hon
        exact .inr ⟨hon.2, d, rfl, hon.1⟩
      · exact .inl hle
  · intro hfit m' hm'
    obtain ⟨x, hx⟩ := List.mem_iff_getElem?.mp hm'
    rcases hr.get hx with ⟨m, hm, rfl⟩ | ⟨-, d, hdoc, rfl⟩
    · obtain ⟨hlimit, hcnt⟩ := hr.old_limit h hg (List.mem_of_getElem? hm)
      have h0 := htable.maxRestarts_nonneg (reloadOld choice (docModules root.xmlChildrenNode) m)
      rw [hlimit] at h0 ⊢
      rw [hcnt]
      rcases hfit m (List.mem_of_getElem? hm) with hle | ⟨hoff, d, hdoc, hon⟩
      · cases docFor (docModules root.xmlChildrenNode) m with
        | none => exact hle
        | some d => simp only []; split_ifs <;> omega
      · rw [hdoc]
        simp only [hon, hoff, Bool.not_false, Bool.and_self, if_true]
        omega
    · obtain ⟨hmem, -⟩ := mem_newDocs.mp (List.mem_of_getElem? hdoc)
      have happlied := placeElement_applied choice (hg.goodDocs.grammar d hmem)
        (h.spare_reset (x - s.loaded.length)).slotFor
      have hzero : (slotAt (resetTable s) (x - s.loaded.length)).moduleRestartCnt = 0 :=
        (h.spare_reset _).field RunningModule.moduleRestartCnt fun _ _ _ _ => rfl
      refine Int.le_trans (Int.le_of_eq
        ((finishSlot_restartCnt choice _).trans happlied.restartCnt)) ?_
      refine Int.le_trans ?_ (htable.maxRestarts_nonneg _)
      split_ifs <;> omega

theorem LimitInv.reload {w : World} (h : LimitInv w) {choice : ReloadChoice} {root : XmlNode}
    (hg : Grammar root) {s' : Supervisor} (hr : Reloaded choice w.sup root.xmlChildrenNode s')
    (hfit : LimitsFit w.sup root) : LimitInv { w with sup := s' } :=
  ⟨hr.tableInv h.table hg, (hr.limits_iff h.table hg).mpr hfit, h.starts⟩

theorem boot_limitInv (alive : List Int) (rootNode : Option XmlNode) :
    LimitInv (boot alive rootNode) := by
  have htable := boot_tableInv alive rootNode
  refine ⟨htable, fun m hm => ?_, fun e he => ?_⟩
  · have := (initialTable_slot rootNode hm).restartCnt
    exact Int.le_trans this (htable.maxRestarts_nonneg m)
  · obtain ⟨p, -, rfl⟩ := List.mem_map.mp he
    trivial

/-- The condition on a step: the limits of the document of a reload fit. -/
def StepFits (w : World) (a : Action) : Prop :=
  ∀ root, a.reloadRoot = some root → Grammar root → LimitsFit w.sup root

theorem stepFits_of_no_reload {w : World} {a : Action} (h : a.reloadRoot = none) : StepFits w a := by
  intro root hr
  rw [h] at hr
  exact absurd hr (by simp)

theorem step_limitInv (w : World) (a : Action) (h : LimitInv w) (hfit : StepFits w a) :
    LimitInv (step w a) :=
  step_invariant (fun _ h => h.table) (fun _ _ h hc => h.change hc) (fun _ _ _ h hc => h.command hc)
    (fun _ b c h => ⟨h.table.flags b c, h.limit, h.starts⟩) h
    fun _ root _ ha _ hg hr => h.reload hg hr (hfit root ha hg)

/-- In a run whose reloads fit, no counter exceeds its limit and every start has
the counter below it. -/
theorem restartCnt_le_limit (alive : List Int) (rootNode : Option XmlNode) (as : List Action)
    (hfit : Run.Along step StepFits (boot alive rootNode) as) :
    let w := Run.run step (boot alive rootNode) as
    (∀ m ∈ w.sup.loaded, m.moduleRestartCnt ≤ w.sup.maxRestarts m) ∧
      ∀ e ∈ w.kernel.trace, e.belowLimit := by
  have h := Run.along_invariant step_limitInv (boot_limitInv alive rootNode) hfit
  exact ⟨h.limit, h.starts⟩

/-- A document with one module and this limit. -/
def limitDocument (limit : String) : XmlNode :=
  profileDocument [moduleElement "m" "/bin/m" "true" [.textElement "module-restarts" limit]]

/-- A turn in which `fork` returns this PID. -/
def forkTurn (pid : Int) : Turn := { Turn.idle with forkPid := pid }

/-- The module is started, crashes and is started again: its counter is 1. A
reload then sets its limit. -/
def relimited (limit : String) : List Action :=
  [.cycle [forkTurn 100], .move (.exits 100), .cycle [], .cycle [forkTurn 101],
   .reloadTemplate (some (limitDocument limit))]

theorem restartCnt_le_limit_raised :
    let w := Run.run step (boot [] (some (limitDocument "1"))) (relimited "2")
    (∀ m ∈ w.sup.loaded, m.moduleRestartCnt ≤ w.sup.maxRestarts m) ∧
      ∀ e ∈ w.kernel.trace, e.belowLimit := by
  refine restartCnt_le_limit [] (some (limitDocument "1")) (relimited "2") ?_
  refine ⟨stepFits_of_no_reload rfl, stepFits_of_no_reload rfl, stepFits_of_no_reload rfl,
    stepFits_of_no_reload rfl, ?_, trivial⟩
  intro root hr _
  have hroot : limitDocument "2" = root := by simpa [Action.reloadRoot] using hr
  subst hroot
  have hle : ∀ m ∈ (Run.run step (boot [] (some (limitDocument "1")))
      ((relimited "2").take 4)).sup.loaded, m.moduleRestartCnt ≤
        newLimit (Run.run step (boot [] (some (limitDocument "1")))
          ((relimited "2").take 4)).sup (limitDocument "2").xmlChildrenNode m := by
    decide
  exact fun m hm => .inl (hle m hm)

/-- A limit of 0 is below the counter. -/
theorem not_restartCnt_le_limit :
    ¬ ∀ w, Reachable w → (∀ m ∈ w.sup.loaded, m.moduleRestartCnt ≤ w.sup.maxRestarts m) ∧
      ∀ e ∈ w.kernel.trace, e.belowLimit := by
  intro h
  have hw := (h _ ⟨[], some (limitDocument "1"), relimited "0", rfl⟩).1
  revert hw
  decide

end NemeaSupervisor
