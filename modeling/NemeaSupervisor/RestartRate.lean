import NemeaSupervisor.RestartTimer
import NemeaSupervisor.Termination

/-!
# The rate of restarts

The restart limit holds within a period of the restart timer, and a window of 30
cycles can meet two periods: the restarts of the first are close to its end and
those of the second begin right after it. So 30 consecutive cycles restart a
module less often than twice its limit. A module is followed by its name from
the start of the supervisor, through every step that leaves it alone or loads it.
-/

namespace NemeaSupervisor

open Loop RateMeter

/-- The successful starts of a module after its first one. -/
def restartsOf (name : String) (w : World) : Nat := startedOf name w - 1

def HasLimit (name : String) (limit : Int) (w : World) : Prop :=
  ∀ m ∈ w.sup.loaded, m.moduleName = some name → w.sup.maxRestarts m = limit

/-- What decides on the starts of a module is the same in two states. -/
structure SameRestarts (s : Supervisor) (m : RunningModule) (s' : Supervisor)
    (m' : RunningModule) : Prop where
  name : m'.moduleName = m.moduleName
  enabled : m'.moduleEnabled = m.moduleEnabled
  profile : s'.profileEnabled m' = s.profileEnabled m
  init : m'.initModule = m.initModule
  remove : m'.removeModule = m.removeModule
  cnt : m'.moduleRestartCnt = m.moduleRestartCnt
  timer : m'.moduleRestartTimer = m.moduleRestartTimer

/-- The steps of the service thread and of the processes. -/
def Action.isService : Action → Bool
  | .cycle _ => true
  | .move _ => true
  | _ => false

def Action.isCycle : Action → Bool
  | .cycle _ => true
  | _ => false

/-- Every other step leaves the module alone, or loads it, and keeps its limit. -/
def LeavesAlone (name : String) (limit : Int) (w : World) (a : Action) : Prop :=
  a.isService = true ∨ HasLimit name limit (step w a) ∧
    ∀ m ∈ w.sup.loaded, m.moduleName = some name →
      ∃ m' ∈ (step w a).sup.loaded, SameRestarts w.sup m (step w a).sup m'

/-! ## A slot that nothing but the service thread changes -/

/-- The service thread starts such a module when its process has ended. -/
def Active (s : Supervisor) (m : RunningModule) : Prop :=
  s.profileEnabled m = true ∧ m.moduleEnabled = true

structure SettledSlot (limit : Int) (started : Nat) (s : Supervisor) (m : RunningModule) :
    Prop where
  init : m.initModule = false
  remove : m.removeModule = false
  maxRestarts : s.maxRestarts m = limit
  within : Active s m → m.meter.Within limit
  first : Active s m → m.moduleRestartCnt = -1 → started = 0

theorem profileEnabled_congr {s : Supervisor} {m m' : RunningModule} (h : m'.config = m.config) :
    s.profileEnabled m' = s.profileEnabled m := by
  have hprofile : m'.modulesProfile = m.modulesProfile :=
    field_of_config RunningModule.modulesProfile (fun _ => rfl) h
  rw [Supervisor.profileEnabled, Supervisor.profileEnabled, Supervisor.profileOf,
    Supervisor.profileOf, hprofile]

/-- Only the profiles and the general limit matter. -/
theorem active_congr {s s' : Supervisor} (h : s'.profiles = s.profiles) (m : RunningModule) :
    Active s' m ↔ Active s m := by
  rw [Active, Active, Supervisor.profileEnabled, Supervisor.profileEnabled, Supervisor.profileOf,
    Supervisor.profileOf, h]

theorem SettledSlot.congr {limit : Int} {started : Nat} {s s' : Supervisor} {m : RunningModule}
    (h : SettledSlot limit started s m) (hprofiles : s'.profiles = s.profiles)
    (hlimit : s'.moduleRestartsNumConfig = s.moduleRestartsNumConfig) :
    SettledSlot limit started s' m :=
  ⟨h.init, h.remove, (maxRestarts_congr rfl hlimit).trans h.maxRestarts,
    fun ha => h.within ((active_congr hprofiles m).mp ha),
    fun ha => h.first ((active_congr hprofiles m).mp ha)⟩

theorem Active.not_disabled {s : Supervisor} {m : RunningModule} (h : Active s m) :
    ¬ (s.profileDisabled m = true ∨ m.moduleEnabled = false) := by
  obtain ⟨hprofile, henabled⟩ := h
  rintro (hdisabled | hdisabled)
  · unfold Supervisor.profileEnabled at hprofile
    unfold Supervisor.profileDisabled at hdisabled
    cases hp : s.profileOf m with
    | none => simp [hp] at hprofile
    | some p =>
      rw [hp] at hprofile hdisabled
      simp only [Option.any_some, Bool.not_eq_true'] at hprofile hdisabled
      simp [hprofile] at hdisabled
  · simp [henabled] at hdisabled

/-- The other passes keep a settled slot settled, and the meter of an active one. -/
theorem SettledSlot.calm {limit : Int} {started : Nat} {s : Supervisor} {k k' : Kernel}
    {m m' : RunningModule} (h : SettledSlot limit started s m) (hs : SlotChange s k m m' k')
    (hc : Calm s m m') : SettledSlot limit started s m' ∧
      (Active s m' → Active s m ∧ m'.meter = m.meter) := by
  have hremove : m'.removeModule = false := hs.removeModule.trans h.remove
  have hlimit : s.maxRestarts m' = limit := (maxRestarts_congr hs.config rfl).trans h.maxRestarts
  have hprofile := profileEnabled_congr (s := s) hs.config
  have before : m'.moduleEnabled = m.moduleEnabled → Active s m' → Active s m :=
    fun henabled ha => ⟨hprofile ▸ ha.1, henabled ▸ ha.2⟩
  cases hc with
  | kept hcnt htimer henabled hinit =>
    have hmeter : m'.meter = m.meter := by rw [RunningModule.meter, hcnt, htimer]; rfl
    refine ⟨⟨hinit.trans h.init, hremove, hlimit, fun ha => ?_, fun ha hfirst => ?_⟩, fun ha =>
      ⟨before henabled ha, hmeter⟩⟩
    · rw [hmeter]
      exact h.within (before henabled ha)
    · exact h.first (before henabled ha) (hcnt.symm.trans hfirst)
  | stopped hdisabled _ _ henabled hinit =>
    have hnot : ¬ Active s m' := fun ha => (before henabled ha).not_disabled hdisabled
    exact ⟨⟨hinit.trans h.init, hremove, hlimit, fun ha => absurd ha hnot,
      fun ha => absurd ha hnot⟩, fun ha => absurd ha hnot⟩
  | reenabled hpending => exact absurd hpending (by simp [h.init])

/-- What the update of the status makes of a settled slot: the starts it counts are paid
for by the meter of an active slot. -/
structure Paid (limit : Int) (started started' : Nat) (s : Supervisor) (m m' : RunningModule) :
    Prop where
  settled : SettledSlot limit started' s m'
  counts : started' = started ∨ Active s m'
  before : Active s m' → Active s m
  budget : Active s m' → ∀ n, n + 1 ≤ numServiceIfcPeriods →
    ((started' - 1 : Nat) : Int) + m'.meter.budget numServiceIfcPeriods limit n ≤
      ((started - 1 : Nat) : Int) + m.meter.budget numServiceIfcPeriods limit (n + 1)

section update

variable {limit : Int} {started : Nat} {s : Supervisor} {m : RunningModule}

theorem SettledSlot.ticked (h : SettledSlot limit started s m) (hl : 1 ≤ limit) :
    Paid limit started started s m (tickRestartTimer m) := by
  have htick := tickRestartTimer_eq m
  have hmeter := tickRestartTimer_meter m
  have hactive : Active s (tickRestartTimer m) → Active s m := by
    rw [htick]
    exact id
  refine ⟨⟨?_, ?_, ?_, fun ha => ?_, fun ha hfirst => ?_⟩, .inl rfl, hactive, fun ha n hn => ?_⟩
  · rw [htick]
    exact h.init
  · rw [htick]
    exact h.remove
  · exact (maxRestarts_congr (tickRestartTimer_config m) rfl).trans h.maxRestarts
  · rw [hmeter]
    exact (h.within (hactive ha)).tick hl _
  · refine h.first (hactive ha) (@Meter.cnt_of_tick_neg m.meter numServiceIfcPeriods ?_)
    rw [← hmeter]
    exact hfirst
  · have := (h.within (hactive ha)).budget_tick hl hn
    rw [hmeter]
    omega

theorem SettledSlot.limited (h : SettledSlot limit started s m) (hl : 1 ≤ limit) :
    Paid limit started started s m { tickRestartTimer m with moduleEnabled := false } := by
  have hticked := (h.ticked hl).settled
  have hnot : ¬ Active s { tickRestartTimer m with moduleEnabled := false } :=
    fun ha => absurd ha.2 (by simp)
  exact ⟨⟨hticked.init, hticked.remove, hticked.maxRestarts, fun ha => absurd ha hnot,
    fun ha => absurd ha hnot⟩, .inl rfl, fun ha => absurd ha hnot, fun ha => absurd ha hnot⟩

/-- The first start does not count, and the counter is -1 before it. -/
theorem SettledSlot.cost (h : SettledSlot limit started s m) (ha : Active s m) (hl : 1 ≤ limit)
    (success : Bool) : (((if success = true then 1 else 0) + started - 1 : Nat) : Int) ≤
      ((started - 1 : Nat) : Int) + (m.meter.tick numServiceIfcPeriods).cost success := by
  unfold Meter.cost
  cases success with
  | false => simp
  | true =>
    by_cases hneg : (m.meter.tick numServiceIfcPeriods).cnt = -1
    · rw [h.first ha (Meter.cnt_of_tick_neg _ hneg)]
      simp [hneg]
    · have hcnt0 : 0 ≤ (m.meter.tick numServiceIfcPeriods).cnt := by
        have := ((h.within ha).tick hl numServiceIfcPeriods).1
        omega
      rw [if_pos rfl, if_pos ⟨rfl, hcnt0⟩]
      omega

theorem SettledSlot.charged (h : SettledSlot limit started s m) (ha : Active s m) (hl : 1 ≤ limit)
    {m' : RunningModule} {success : Bool}
    (hne : (m.meter.tick numServiceIfcPeriods).cnt ≠ limit)
    (hmeter : m'.meter = (m.meter.tick numServiceIfcPeriods).charge success)
    (hconfig : m'.config = m.config) (hflags : m'.moduleEnabled = m.moduleEnabled ∧
      m'.initModule = m.initModule ∧ m'.removeModule = m.removeModule) :
    Paid limit started ((if success = true then 1 else 0) + started) s m m' := by
  have hwithin := (h.within ha).tick hl numServiceIfcPeriods
  have ha' : Active s m' :=
    ⟨(profileEnabled_congr hconfig).trans ha.1, hflags.1.trans ha.2⟩
  have hpositive : m'.moduleRestartCnt ≠ -1 := by
    have hcnt : m'.moduleRestartCnt = (m.meter.tick numServiceIfcPeriods).cnt + 1 :=
      congrArg Meter.cnt hmeter
    have := hwithin.1
    omega
  refine ⟨⟨hflags.2.1.trans h.init, hflags.2.2.trans h.remove,
    (maxRestarts_congr hconfig rfl).trans h.maxRestarts, fun _ => ?_, fun _ hfirst =>
      absurd hfirst hpositive⟩, .inr ha', fun _ => ha, fun _ n hn => ?_⟩
  · rw [hmeter]
    exact hwithin.charge hne success
  · have hcost := h.cost ha hl success
    have hbudget := (h.within ha).budget_charge hl hn success
    rw [hmeter]
    omega

theorem SettledSlot.updated {m' : RunningModule} {es : List Event} {name : String}
    (h : SettledSlot limit started s m) (hl : 1 ≤ limit) (hname : m.moduleName = some name)
    (hu : Updated s m m' es) :
    Paid limit started (es.countP (Event.isStartedOf name) + started) s m m' := by
  cases hu with
  | kept =>
    rw [List.countP_nil, Nat.zero_add]
    exact h.ticked hl
  | limit =>
    rw [List.countP_nil, Nat.zero_add]
    exact h.limited hl
  | @start hprofile henabled hcnt _ _ success hcharge hconfig hflags hstarted =>
    have hne : (m.meter.tick numServiceIfcPeriods).cnt ≠ limit := by
      rw [← tickRestartTimer_meter, ← h.maxRestarts]
      exact hcnt
    rw [hstarted]
    simp only [hname, and_true]
    exact h.charged ⟨hprofile, henabled⟩ hl hne hcharge hconfig hflags

end update

/-! ## One step -/

structure Settled (name : String) (limit : Int) (w : World) : Prop where
  table : TableInv w.sup
  slot : ∀ m ∈ w.sup.loaded, m.moduleName = some name →
    SettledSlot limit (startedOf name w) w.sup m
  absent : (∀ m ∈ w.sup.loaded, m.moduleName ≠ some name) → startedOf name w = 0

/-- With `n` cycles to come there are at most `r` restarts in the end. -/
structure Allows (name : String) (limit : Int) (n : Nat) (r : Int) (w : World) : Prop where
  room : 2 * limit - 1 ≤ r
  bound : (restartsOf name w : Int) ≤ r
  slot : ∀ m ∈ w.sup.loaded, m.moduleName = some name → Active w.sup m →
    restartsOf name w + m.meter.budget numServiceIfcPeriods limit n ≤ r

/-- A chain of steps with `k` cycles. -/
def Spends (name : String) (limit : Int) (k : Nat) (w w' : World) : Prop :=
  Settled name limit w → Settled name limit w' ∧ ∀ n r, n + k ≤ numServiceIfcPeriods →
    Allows name limit (n + k) r w → Allows name limit n r w'

section steps

variable {name : String} {limit : Int} {k k' : Nat} {w w' w'' : World}

theorem Spends.refl : Spends name limit 0 w w := fun h => ⟨h, fun _ _ _ ha => ha⟩

theorem Spends.trans (h : Spends name limit k w w') (h' : Spends name limit k' w' w'') :
    Spends name limit (k + k') w w'' := by
  intro hw
  obtain ⟨hw', hallows⟩ := h hw
  obtain ⟨hw'', hallows'⟩ := h' hw'
  refine ⟨hw'', fun n r hn ha => hallows' n r (by omega) (hallows (n + k') r (by omega) ?_)⟩
  rwa [Nat.add_assoc, Nat.add_comm k' k]

/-- Where the slot of the module comes from, when no start was recorded. -/
def Settling (name : String) (limit : Int) (w w' : World) : Prop :=
  ∀ m' ∈ w'.sup.loaded, m'.moduleName = some name → ∃ m ∈ w.sup.loaded, m.moduleName = some name ∧
    SettledSlot limit (startedOf name w) w'.sup m' ∧
    (Active w'.sup m' → Active w.sup m ∧ m'.meter = m.meter)

/-- The module is still there. -/
def Keeps (name : String) (w w' : World) : Prop :=
  ∀ m ∈ w.sup.loaded, m.moduleName = some name → ∃ m' ∈ w'.sup.loaded, m'.moduleName = some name

theorem Keeps.absent (h : Keeps name w w') (hnone : ∀ m' ∈ w'.sup.loaded, m'.moduleName ≠ some name) :
    ∀ m ∈ w.sup.loaded, m.moduleName ≠ some name := by
  intro m hm hname
  obtain ⟨m', hm', hname'⟩ := h m hm hname
  exact hnone m' hm' hname'

/-- Steps that record no start and leave the meters of the active slots alone. -/
theorem spends_nothing (hstarted : startedOf name w' = startedOf name w)
    (h : Settled name limit w → TableInv w'.sup ∧ Settling name limit w w' ∧ Keeps name w w') :
    Spends name limit 0 w w' := by
  intro hw
  obtain ⟨htable, hslots, hkeeps⟩ := h hw
  have hrestarts : restartsOf name w' = restartsOf name w := by
    rw [restartsOf, restartsOf, hstarted]
  refine ⟨⟨htable, fun m' hm' hname => ?_, fun hnone => ?_⟩, fun n r _ ha => ⟨ha.room, ?_,
    fun m' hm' hname hactive => ?_⟩⟩
  · obtain ⟨m, -, -, hsettled, -⟩ := hslots m' hm' hname
    rwa [hstarted]
  · rw [hstarted]
    exact hw.absent (hkeeps.absent hnone)
  · rw [hrestarts]
    exact ha.bound
  · obtain ⟨m, hm, hname', -, hmeter⟩ := hslots m' hm' hname
    rw [hrestarts, (hmeter hactive).2]
    exact ha.slot m hm hname' (hmeter hactive).1

theorem startedOf_eq (name : String) (w : World) : startedOf name w =
    (w.kernel.trace.filter Event.isStart).countP (Event.isStartedOf name) := by
  rw [startedOf, List.countP_filter]
  refine List.countP_congr fun e _ => ?_
  cases e <;> simp [Event.isStartedOf, Event.isStart]

theorem Quiet.no_start (h : Quiet w w') :
    w'.kernel.trace.filter Event.isStart = w.kernel.trace.filter Event.isStart := by
  cases h with
  | outside h => exact h.no_start
  | slot _ _ _ hstarts => exact hstarts
  | freed => rfl
  | exited => rfl

theorem freed_profiles (s : Supervisor) (x : Nat) :
    (freeModuleAndShiftArray s x).profiles = s.profiles ∧
      (freeModuleAndShiftArray s x).moduleRestartsNumConfig = s.moduleRestartsNumConfig := by
  unfold freeModuleAndShiftArray
  split_ifs <;> exact ⟨rfl, rfl⟩

theorem Quiet.settling (h : Quiet w w') (hw : Settled name limit w) :
    Settling name limit w w' := by
  intro m1 hm1 hname
  cases h with
  | outside | exited =>
    exact ⟨m1, hm1, hname, hw.slot m1 hm1 hname, fun ha => ⟨ha, rfl⟩⟩
  | @slot x m m' k hx hs hcalm =>
    rcases mem_setModule hm1 with rfl | hm1
    · have hmem := List.mem_of_getElem? hx
      have hname' : m.moduleName = some name := hs.name.symm.trans hname
      obtain ⟨hsettled, hmeter⟩ := (hw.slot m hmem hname').calm hs hcalm
      exact ⟨m, hmem, hname', hsettled.congr rfl rfl, hmeter⟩
    · exact ⟨m1, hm1, hname, (hw.slot m1 hm1 hname).congr rfl rfl, fun ha => ⟨ha, rfl⟩⟩
  | @freed x m hx =>
    obtain ⟨hprofiles, hlimit⟩ := freed_profiles w.sup x
    have hmem := mem_freed hm1
    exact ⟨m1, hmem, hname, (hw.slot m1 hmem hname).congr hprofiles hlimit,
      fun ha => ⟨(active_congr hprofiles m1).mp ha, rfl⟩⟩

/-- A module that is to be removed is not a settled one. -/
theorem Quiet.keeps (h : Quiet w w') (hw : Settled name limit w) : Keeps name w w' := by
  intro m1 hm1 hname
  cases h with
  | outside | exited => exact ⟨m1, hm1, hname⟩
  | @slot x m m' k hx hs =>
    obtain ⟨y, hy⟩ := List.mem_iff_getElem?.mp hm1
    by_cases hxy : x = y
    · subst hxy
      rw [hx, Option.some.injEq] at hy
      subst hy
      exact ⟨m', List.mem_of_getElem? (setModule_get hx), hs.name.trans hname⟩
    · exact ⟨m1, List.mem_of_getElem? ((List.getElem?_set_ne hxy).trans hy), hname⟩
  | @freed x m hx hremove =>
    refine ⟨m1, ?_, hname⟩
    obtain ⟨y, hy⟩ := List.mem_iff_getElem?.mp hm1
    have hxy : y ≠ x := by
      rintro rfl
      rw [hx, Option.some.injEq] at hy
      rw [hy, (hw.slot m1 hm1 hname).remove] at hremove
      cases hremove
    simp only [freeModuleAndShiftArray, if_pos (List.getElem?_eq_some_iff.mp hx).1]
    exact List.mem_eraseIdx_iff_getElem?.mpr ⟨y, hxy, hy⟩

theorem Quiet.spends (h : Quiet w w') : Spends name limit 0 w w' := by
  refine spends_nothing ?_ fun hw => ⟨hw.table.change h.change, h.settling hw, h.keeps hw⟩
  rw [startedOf_eq, startedOf_eq, h.no_start]

theorem Quietly.spends (h : Quietly w w') : Spends name limit 0 w w' := by
  induction h with
  | refl => exact .refl
  | tail _ hq ih => exact ih.trans hq.spends

/-- The slot of the module after the update of the status. -/
theorem serviceUpdateModulesStatus_paid (hl : 1 ≤ limit) (hw : Settled name limit w)
    {m' : RunningModule} (hm' : m' ∈ (serviceUpdateModulesStatus w).sup.loaded)
    (hname : m'.moduleName = some name) : ∃ m ∈ w.sup.loaded, m.moduleName = some name ∧
      Paid limit (startedOf name w) (startedOf name (serviceUpdateModulesStatus w)) w.sup m m' := by
  obtain ⟨y, hy⟩ := List.mem_iff_getElem?.mp hm'
  obtain ⟨m, es, hold, hupdated, hstarted⟩ := serviceUpdateModulesStatus_slot hw.table hy
  have hmem := List.mem_of_getElem? hold
  have hname' : m.moduleName = some name := hupdated.name.symm.trans hname
  refine ⟨m, hmem, hname', ?_⟩
  rw [hstarted name hname']
  exact (hw.slot m hmem hname').updated hl hname' hupdated

theorem serviceUpdateModulesStatus_keeps (htable : TableInv w.sup) :
    Keeps name w (serviceUpdateModulesStatus w) := by
  intro m hm hname
  obtain ⟨y, hy⟩ := List.mem_iff_getElem?.mp hm
  obtain ⟨m', es, hupdated, hm', -⟩ := (updatePass htable w.sup.loadedModulesCnt).done y m
    (List.getElem?_eq_some_iff.mp hy).1 hy
  exact ⟨m', List.mem_of_getElem? hm', hupdated.name.trans hname⟩

theorem serviceUpdateModulesStatus_spends (hl : 1 ≤ limit) (hsync : Synced w) :
    Spends name limit 1 w (serviceUpdateModulesStatus w) := by
  intro hw
  have hpass : UpdatePass w w.sup.loadedModulesCnt (serviceUpdateModulesStatus w) :=
    updatePass hw.table _
  have hprofiles : (serviceUpdateModulesStatus w).sup.profiles = w.sup.profiles := by
    obtain ⟨l, k, hframe⟩ := hpass.frame
    rw [hframe]
  have hlimit : (serviceUpdateModulesStatus w).sup.moduleRestartsNumConfig =
      w.sup.moduleRestartsNumConfig := by
    obtain ⟨l, k, hframe⟩ := hpass.frame
    rw [hframe]
  have hother : (∀ m' ∈ (serviceUpdateModulesStatus w).sup.loaded, m'.moduleName ≠ some name) →
      (∀ m ∈ w.sup.loaded, m.moduleName ≠ some name) ∧
        startedOf name (serviceUpdateModulesStatus w) = startedOf name w := by
    intro hnone
    have habsent := (serviceUpdateModulesStatus_keeps hw.table).absent hnone
    exact ⟨habsent, hpass.others name fun y m _ hy => habsent m (List.mem_of_getElem? hy)⟩
  refine ⟨⟨?_, fun m' hm' hname => ?_, fun hnone => ?_⟩, fun n r hn ha => ⟨ha.room, ?_,
    fun m' hm' hname hactive => ?_⟩⟩
  · exact reaches_invariant (I := fun w : World => TableInv w.sup) (fun _ _ h hc => h.change hc)
      (serviceUpdateModulesStatus_reaches hsync) hw.table
  · obtain ⟨m, -, -, hpaid⟩ := serviceUpdateModulesStatus_paid hl hw hm' hname
    exact hpaid.settled.congr hprofiles hlimit
  · obtain ⟨habsent, hsame⟩ := hother hnone
    rw [hsame]
    exact hw.absent habsent
  · by_cases hloaded : ∃ m' ∈ (serviceUpdateModulesStatus w).sup.loaded, m'.moduleName = some name
    · obtain ⟨m', hm', hname⟩ := hloaded
      obtain ⟨m, hm, hname', hpaid⟩ := serviceUpdateModulesStatus_paid hl hw hm' hname
      rcases hpaid.counts with hsame | hactive
      · rw [restartsOf, hsame]
        exact ha.bound
      · have hle := ha.slot m hm hname' (hpaid.before hactive)
        have hbudget := hpaid.budget hactive n hn
        have hpos := (hpaid.settled.within hactive).budget_nonneg hl numServiceIfcPeriods n
        rw [restartsOf] at hle ⊢
        omega
    · simp only [not_exists, not_and] at hloaded
      rw [restartsOf, (hother hloaded).2]
      exact ha.bound
  · obtain ⟨m, hm, hname', hpaid⟩ := serviceUpdateModulesStatus_paid hl hw hm' hname
    have hactive' := (active_congr hprofiles m').mp hactive
    have hle := ha.slot m hm hname' (hpaid.before hactive')
    have hbudget := hpaid.budget hactive' n hn
    rw [restartsOf] at hle ⊢
    omega

/-- A cycle without a start is no worse. -/
theorem Spends.weaken (hl : 1 ≤ limit) (h : Spends name limit k w w') :
    Spends name limit (k + 1) w w' := by
  intro hw
  obtain ⟨hw', hallows⟩ := h hw
  refine ⟨hw', fun n r hn ha => ?_⟩
  have hmore := hallows (n + 1) r (by omega) (by rwa [Nat.add_assoc, Nat.add_comm 1 k])
  refine ⟨hmore.room, hmore.bound, fun m hm hname hactive => ?_⟩
  have := hmore.slot m hm hname hactive
  have := ((hw'.slot m hm hname).within hactive).budget_mono hl numServiceIfcPeriods n
  omega

theorem serviceCycle_spends (hl : 1 ≤ limit) (turns : List Turn) (w : World) :
    Spends name limit 1 w (serviceCycle turns w) := by
  rcases serviceCycle_cases turns w with h | ⟨w0, hbefore, hsync, hafter⟩
  · exact h.spends.weaken hl
  · have h : Spends name limit (0 + 1) w (serviceUpdateModulesStatus w0) :=
      (Quietly.spends hbefore).trans (serviceUpdateModulesStatus_spends hl hsync)
    exact h.trans (Quietly.spends hafter)

theorem step_kernel {a : Action} (ha : a.isService = false) (w : World) :
    (step w a).kernel = w.kernel := by
  cases a with
  | cycle | move => exact absurd ha (by simp [Action.isService])
  | setStopAllModules | abortServiceThread => rfl
  | _ =>
    simp only [step, World.locked]
    split_ifs <;> rfl

theorem Command.names {enabling : Bool} {s s' : Supervisor} (h : Command enabling s s') :
    s'.loaded.map RunningModule.moduleName = s.loaded.map RunningModule.moduleName := by
  cases h with
  | enable _ hx => exact map_set_same hx rfl
  | disable hx => exact map_set_same hx rfl
  | restart hx => exact map_set_same hx rfl
  | profile => rfl
  | stop =>
    rw [interactiveStopConfiguration, List.map_map]
    rfl

/-- A slot right after it was loaded. -/
structure JustLoaded (m : RunningModule) : Prop where
  init : m.initModule = false
  remove : m.removeModule = false
  cnt : m.moduleRestartCnt = -1 ∨ m.moduleRestartCnt = 0

theorem ReloadedSlot.named_or_new {choice : ReloadChoice} {s : Supervisor} (h : TableInv s)
    {ds : List (Nat × XmlNode)} {m' : RunningModule} (hslot : ReloadedSlot choice s ds m') :
    (∃ m ∈ s.loaded, m.moduleName = m'.moduleName) ∨ JustLoaded m' := by
  cases hslot with
  | @missing m hm =>
    exact .inl ⟨m, hm, ((finishSlot_name choice (missingSlot m)).trans rfl).symm⟩
  | @kept m m1 d hm _ _ happlied =>
    exact .inl ⟨m, hm, ((finishSlot_name choice m1).trans happlied.name).symm⟩
  | @new k m1 d _ _ happlied =>
    have hblank := h.spare_reset k
    have hrunning : m1.moduleRunning = false :=
      (congrArg RunningModule.moduleRunning happlied.frame).trans
        (hblank.field RunningModule.moduleRunning fun _ _ _ _ => rfl)
    have hinit : m1.initModule = false := (congrArg RunningModule.initModule happlied.frame).trans
      (hblank.field RunningModule.initModule fun _ _ _ _ => rfl)
    have hremove : m1.removeModule = false :=
      (congrArg RunningModule.removeModule happlied.frame).trans
        (hblank.field RunningModule.removeModule fun _ _ _ _ => rfl)
    have hcnt : m1.moduleRestartCnt = -1 ∨ m1.moduleRestartCnt = 0 := by
      rw [happlied.restartCnt, hblank.field RunningModule.moduleRestartCnt fun _ _ _ _ => rfl]
      split_ifs
      · exact .inl rfl
      · exact .inr rfl
    refine .inr ⟨?_, ?_, (finishSlot_restartCnt choice m1).symm ▸ hcnt⟩
    · rw [finishSlot, restartIfModified_eq]
      unfold adoptIfRunning
      split_ifs <;> simp [initModuleVariables, hrunning, hinit]
    · rw [finishSlot, restartIfModified_eq]
      unfold adoptIfRunning
      split_ifs <;> simp [initModuleVariables, hremove]

/-- Only a reload loads modules. -/
theorem step_named_or_new (h : TableInv w.sup) {a : Action} (ha : a.isService = false)
    {m' : RunningModule} (hm' : m' ∈ (step w a).sup.loaded) :
    (∃ m ∈ w.sup.loaded, m.moduleName = m'.moduleName) ∨ JustLoaded m' := by
  have commands : ∀ {enabling} {f : Supervisor → Supervisor}, (∀ s, Commands enabling s (f s)) →
      m' ∈ (w.locked f).sup.loaded → ∃ m ∈ w.sup.loaded, m.moduleName = m'.moduleName := by
    intro enabling f hf hm'
    have hnames : ((w.locked f).sup.loaded.map RunningModule.moduleName) =
        w.sup.loaded.map RunningModule.moduleName :=
      locked_invariant (I := fun w' : World => w'.sup.loaded.map RunningModule.moduleName = _) rfl
        (reaches_invariant (I := fun s : Supervisor => s.loaded.map RunningModule.moduleName = _)
          (fun _ _ hs hc => hc.names.trans hs) (hf w.sup) rfl)
    have hmem := List.mem_map_of_mem (f := RunningModule.moduleName) hm'
    rw [hnames, List.mem_map] at hmem
    exact hmem
  have reload : ∀ choice rootNode,
      m' ∈ (w.locked fun s => (reloadConfiguration choice rootNode s).1).sup.loaded →
        (∃ m ∈ w.sup.loaded, m.moduleName = m'.moduleName) ∨ JustLoaded m' := by
    intro choice rootNode
    refine reload_invariant (I := fun w' : World => m' ∈ w'.sup.loaded →
      (∃ m ∈ w.sup.loaded, m.moduleName = m'.moduleName) ∨ JustLoaded m') h
      (fun hm' => .inl ⟨m', hm', rfl⟩) fun root s' _ hg hr hm' => ?_
    exact (hr.slot h hg.goodDocs hm').named_or_new h
  cases a with
  | cycle | move => exact absurd ha (by simp [Action.isService])
  | setEnabled selection => exact .inl (commands (interactiveSetEnabled_commands selection) hm')
  | setDisabled selection => exact .inl (commands (interactiveSetDisabled_commands selection) hm')
  | restartModule selection =>
    exact .inl (commands (interactiveRestartModule_commands selection) hm')
  | reloadTemplate rootNode => exact reload _ rootNode hm'
  | reloadCallback rootNode => exact reload _ rootNode hm'
  | stopConfiguration => exact .inl (@commands false _ (fun s => .single .stop) hm')
  | setStopAllModules => exact .inl ⟨m', hm', rfl⟩
  | abortServiceThread => exact .inl ⟨m', hm', rfl⟩

theorem JustLoaded.settled {m : RunningModule} (h : JustLoaded m) (hl : 1 ≤ limit)
    (hlimit : w.sup.maxRestarts m = limit) : SettledSlot limit 0 w.sup m := by
  refine ⟨h.init, h.remove, hlimit, fun _ => ?_, fun _ _ => rfl⟩
  have hcnt := h.cnt
  simp only [Meter.Within, RunningModule.meter]
  omega

theorem SameRestarts.meter {s s' : Supervisor} {m m' : RunningModule}
    (h : SameRestarts s m s' m') : m'.meter = m.meter := by
  rw [RunningModule.meter, h.cnt, h.timer]
  rfl

theorem SameRestarts.active {s s' : Supervisor} {m m' : RunningModule}
    (h : SameRestarts s m s' m') (ha : Active s' m') : Active s m :=
  ⟨h.profile.symm.trans ha.1, h.enabled.symm.trans ha.2⟩

theorem SettledSlot.same {started : Nat} {s s' : Supervisor} {m m' : RunningModule}
    (h : SettledSlot limit started s m) (hs : SameRestarts s m s' m')
    (hlimit : s'.maxRestarts m' = limit) : SettledSlot limit started s' m' := by
  refine ⟨hs.init.trans h.init, hs.remove.trans h.remove, hlimit, fun ha => ?_, fun ha hfirst => ?_⟩
  · rw [hs.meter]
    exact h.within (hs.active ha)
  · exact h.first (hs.active ha) (hs.cnt.symm.trans hfirst)

theorem outside_spends (hl : 1 ≤ limit) {a : Action} (hservice : a.isService = false)
    (hlimit : HasLimit name limit (step w a))
    (hsame : ∀ m ∈ w.sup.loaded, m.moduleName = some name →
      ∃ m' ∈ (step w a).sup.loaded, SameRestarts w.sup m (step w a).sup m') :
    Spends name limit 0 w (step w a) := by
  intro hw
  have htable := step_tableInv a hw.table
  have hstarted : startedOf name (step w a) = startedOf name w := by
    rw [startedOf, step_kernel hservice, startedOf]
  have hrestarts : restartsOf name (step w a) = restartsOf name w := by
    rw [restartsOf, hstarted, restartsOf]
  -- the slot of the name is the one it had before, or it has just been loaded
  have hslot : ∀ m' ∈ (step w a).sup.loaded, m'.moduleName = some name →
      (∃ m ∈ w.sup.loaded, m.moduleName = some name ∧ SameRestarts w.sup m (step w a).sup m') ∨
      JustLoaded m' ∧ startedOf name w = 0 := by
    intro m' hm' hname
    by_cases hloaded : ∃ m ∈ w.sup.loaded, m.moduleName = some name
    · obtain ⟨m, hm, hname0⟩ := hloaded
      obtain ⟨m1, hm1, hkept⟩ := hsame m hm hname0
      have heq : m1 = m' := List.inj_on_of_nodup_map htable.distinct hm1 hm'
        ((hkept.name.trans hname0).trans hname.symm)
      exact .inl ⟨m, hm, hname0, heq ▸ hkept⟩
    · rcases step_named_or_new hw.table hservice hm' with ⟨m, hm, hname0⟩ | hnew
      · exact absurd ⟨m, hm, hname0.trans hname⟩ hloaded
      · exact .inr ⟨hnew, hw.absent fun m hm hname0 => hloaded ⟨m, hm, hname0⟩⟩
  refine ⟨⟨htable, fun m' hm' hname => ?_, fun hnone => ?_⟩, fun n r _ ha => ⟨ha.room, ?_,
    fun m' hm' hname hactive => ?_⟩⟩
  · rw [hstarted]
    rcases hslot m' hm' hname with ⟨m, hm, hname0, hkept⟩ | ⟨hnew, hnever⟩
    · exact (hw.slot m hm hname0).same hkept (hlimit m' hm' hname)
    · rw [hnever]
      exact hnew.settled hl (hlimit m' hm' hname)
  · rw [hstarted]
    refine hw.absent fun m hm hname => ?_
    obtain ⟨m', hm', hkept⟩ := hsame m hm hname
    exact hnone m' hm' (hkept.name.trans hname)
  · rw [hrestarts]
    exact ha.bound
  · rw [hrestarts]
    rcases hslot m' hm' hname with ⟨m, hm, hname0, hkept⟩ | ⟨-, hnever⟩
    · rw [hkept.meter]
      exact ha.slot m hm hname0 (hkept.active hactive)
    · have hroom := ha.room
      have hle := Meter.budget_le hl m'.meter numServiceIfcPeriods n
      rw [restartsOf, hnever]
      omega

theorem step_spends (hl : 1 ≤ limit) {a : Action} (ha : LeavesAlone name limit w a) :
    Spends name limit (if a.isCycle then 1 else 0) w (step w a) := by
  cases a with
  | cycle turns => exact serviceCycle_spends hl turns w
  | move mv => exact Quiet.spends (.outside (.move mv))
  | _ =>
    obtain hservice | ⟨hlimit, hsame⟩ := ha
    · cases hservice
    · exact outside_spends hl rfl hlimit hsame

/-- A run spends as much as it has cycles. -/
theorem run_spends (hl : 1 ≤ limit) {as : List Action}
    (has : Run.Along step (LeavesAlone name limit) w as) :
    Spends name limit (as.countP Action.isCycle) w (Run.run step w as) := by
  induction as generalizing w with
  | nil => exact .refl
  | cons a as ih =>
    have h := (step_spends hl has.1).trans (ih has.2)
    rw [List.countP_cons, Nat.add_comm]
    exact h

end steps

/-! ## A window of 30 cycles -/

theorem boot_settled {name : String} {limit : Int} (hl : 1 ≤ limit) {alive : List Int}
    {rootNode : Option XmlNode} (hlimit : HasLimit name limit (boot alive rootNode)) :
    Settled name limit (boot alive rootNode) := by
  have hnever : startedOf name (boot alive rootNode) = 0 := by
    refine List.countP_eq_zero.mpr fun e he => ?_
    obtain ⟨p, -, rfl⟩ := List.mem_map.mp he
    simp [Event.isStartedOf]
  refine ⟨boot_tableInv alive rootNode, fun m hm hname => ?_, fun _ => hnever⟩
  rw [hnever]
  have hslot := initialTable_slot rootNode hm
  refine ⟨hslot.init, hslot.remove, hlimit m hm hname, fun _ => ⟨?_, ?_⟩, fun _ _ => rfl⟩
  · exact (boot_timely alive rootNode m hm).1
  · exact Int.le_trans hslot.restartCnt (by omega)

/-- A module with a fixed limit that nothing else touches is restarted less often
than twice its limit in 30 cycles. -/
theorem restarts_in_window {name : String} {limit : Int} (hl : 1 ≤ limit) {alive : List Int}
    {rootNode : Option XmlNode} (hlimit : HasLimit name limit (boot alive rootNode))
    (before window : List Action)
    (halone : Run.Along step (LeavesAlone name limit) (boot alive rootNode) (before ++ window))
    (hcycles : window.countP Action.isCycle ≤ numServiceIfcPeriods) :
    let w := Run.run step (boot alive rootNode) before
    (restartsOf name (Run.run step w window) : Int) ≤ restartsOf name w + (2 * limit - 1) := by
  intro w
  obtain ⟨hbefore, hwindow⟩ := Run.along_append halone
  have hw : Settled name limit w := (run_spends hl hbefore (boot_settled hl hlimit)).1
  change Run.Along step (LeavesAlone name limit) w window at hwindow
  clear_value w
  obtain ⟨-, hspends⟩ := run_spends hl hwindow hw
  refine (hspends (numServiceIfcPeriods - window.countP Action.isCycle)
    (restartsOf name w + (2 * limit - 1)) (by omega) ⟨by omega, by omega, ?_⟩).bound
  intro m _ _ _
  have := Meter.budget_le hl m.meter numServiceIfcPeriods
    (numServiceIfcPeriods - window.countP Action.isCycle + window.countP Action.isCycle)
  omega

/-- A cycle that starts the module, whose process ends before it is waited for. -/
def crashing (pid : Int) : Action := .cycle [forkTurn pid, { Turn.idle with moves := [.exits pid] }]

/-- The first restart begins a period, whose last but one cycle is still to come. -/
def beforeCrashes : List Action :=
  [crashing 100, .cycle [forkTurn 101]] ++ List.replicate 27 (.cycle []) ++
    [.move (.exits 101), .cycle []]

/-- Three crashes, the second at the end of the period. -/
def threeCrashes : List Action := [crashing 102, crashing 103, crashing 104]

theorem alone_crashes {limit : Int} : Run.Along step (LeavesAlone "m" limit)
    (boot [] (some (limitDocument "2"))) (beforeCrashes ++ threeCrashes) := by
  have hservice : ∀ a ∈ beforeCrashes ++ threeCrashes, a.isService = true := by decide
  exact Run.along_mono (fun _ _ h => .inl h) (Run.along_of_forall step hservice _)

theorem hasLimit_crashes : HasLimit "m" 2 (boot [] (some (limitDocument "2"))) := by
  have hlimit : ∀ m ∈ (boot [] (some (limitDocument "2"))).sup.loaded,
      (boot [] (some (limitDocument "2"))).sup.maxRestarts m = 2 := by decide
  exact fun m hm _ => hlimit m hm

theorem restarts_in_window_crashes :
    let w := Run.run step (boot [] (some (limitDocument "2"))) beforeCrashes
    (restartsOf "m" (Run.run step w threeCrashes) : Int) ≤ restartsOf "m" w + 3 :=
  restarts_in_window (by decide) hasLimit_crashes beforeCrashes threeCrashes alone_crashes
    (by decide)

/-- With the limit 2 there are three restarts in three cycles. -/
theorem not_restarts_in_window :
    ¬ ∀ (name : String) (limit : Int), 1 ≤ limit → limit < maxModuleRestartsNum →
      ∀ (alive : List Int) (rootNode : Option XmlNode), HasLimit name limit (boot alive rootNode) →
      ∀ before window : List Action,
        Run.Along step (LeavesAlone name limit) (boot alive rootNode) (before ++ window) →
        window.countP Action.isCycle ≤ numServiceIfcPeriods →
        let w := Run.run step (boot alive rootNode) before
        (restartsOf name (Run.run step w window) : Int) ≤ restartsOf name w + limit := by
  intro h
  have hle := h "m" 2 (by decide) (by decide) [] _ hasLimit_crashes beforeCrashes threeCrashes
    alone_crashes (by decide)
  revert hle
  decide +kernel

end NemeaSupervisor
