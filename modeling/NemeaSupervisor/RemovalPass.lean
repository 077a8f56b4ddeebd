import NemeaSupervisor.StatsExport
import NemeaSupervisor.Sweep

/-!
# The removal pass

The pass of `service_thread_routine` over the modules not yet served, with the place in the
table that each module had before the pass.
-/

namespace NemeaSupervisor

open Loop ServiceState

/-- A module after the pass has examined it and left it in the table. -/
def served (m : RunningModule) : RunningModule :=
  if m.moduleServedByServiceThread = false then
    if m.removeModule then m
    else if m.initModule then
      if m.moduleStatus = false then
        { m with
          moduleEnabled := true
          moduleRestartCnt := -1
          initModule := false
          moduleServedByServiceThread := true }
      else if m.moduleServiceIfcIsconnected then
        { m with
          moduleServiceSd := -1
          moduleServiceIfcIsconnected := false
          serviceIfcConnTimer := 0 }
      else { m with serviceIfcConnTimer := 0 }
    else { m with moduleServedByServiceThread := true }
  else m

/-- The state of the pass: for each slot the place that its module had before the pass, and the
places of the modules that have been examined. -/
structure ServeTrace where
  world : World
  origins : List Nat
  examined : List Nat

def tracedServe (y : Nat) (t : ServeTrace) : ServeTrace where
  world := serveModule y t.world
  origins := if ∃ m ∈ t.world.sup.loaded[y]?, Freed m then t.origins.eraseIdx y else t.origins
  examined :=
    if y < t.world.sup.loadedModulesCnt then t.examined ++ t.origins[y]?.toList else t.examined

def tracedPass (w : World) : ServeTrace :=
  forRange w.sup.loadedModulesCnt tracedServe ⟨w, List.range w.sup.loadedModulesCnt, []⟩

/-- The modules that are not to be removed stay in their order, each as it is after it has been
examined, which happens once, and no module to be removed is left. -/
structure RemovalExact (w : World) : Prop where
  kept : (tracedPass w).origins = (List.range w.sup.loadedModulesCnt).filter fun i =>
    ∀ m ∈ w.sup.loaded[i]?, ¬ Freed m
  contents : (serveModules w).sup.loaded =
    (tracedPass w).origins.filterMap fun i => w.sup.loaded[i]?.map served
  examined : ∀ i ∈ (tracedPass w).origins, (tracedPass w).examined.count i = 1
  removed : ∀ m ∈ (serveModules w).sup.loaded, ¬ Freed m

theorem tracedPass_world (w : World) : (tracedPass w).world = serveModules w :=
  forRange_map ServeTrace.world (fun _ _ => rfl) _ _

theorem served_not_freed {m : RunningModule} (h : ¬ Freed m) : ¬ Freed (served m) := by
  rw [served]
  split_ifs with hserved hremove hinit hstatus hconnected
  · exact h
  · exact fun hfreed => Bool.noConfusion hfreed.1
  · exact fun hfreed => hremove hfreed.2.1
  · exact fun hfreed => hremove hfreed.2.1
  · exact fun hfreed => Bool.noConfusion hfreed.1
  · exact h

theorem closeServiceSd_module (k : Kernel) (m : RunningModule) :
    (closeServiceSd k m).2 = { m with moduleServiceSd := -1 } := by
  unfold closeServiceSd
  split_ifs with hsd
  · rfl
  · rw [← Decidable.of_not_not hsd]

theorem disconnect_loaded (y : Nat) (m : RunningModule) (w : World) :
    (serviceDisconnectFromModule y m w).sup.loaded = w.sup.loaded.set y
      (if m.moduleServiceIfcIsconnected then
        { m with
          moduleServiceSd := -1
          moduleServiceIfcIsconnected := false
          serviceIfcConnTimer := 0 }
      else { m with serviceIfcConnTimer := 0 }) := by
  unfold serviceDisconnectFromModule
  split_ifs with hconnected
  · change w.sup.loaded.set y
      { (closeServiceSd w.kernel m).2 with
        moduleServiceIfcIsconnected := false
        serviceIfcConnTimer := 0 } = _
    rw [closeServiceSd_module]
  · rfl

/-- A module that is not to be removed stays in its slot. -/
theorem serveModule_kept {y : Nat} {w : World} {m : RunningModule}
    (hy : w.sup.loaded[y]? = some m) (h : ¬ Freed m) :
    (serveModule y w).sup.loaded = w.sup.loaded.set y (served m) := by
  obtain ⟨hlt, heq⟩ := List.getElem?_eq_some_iff.mp hy
  have hsame : w.sup.loaded = w.sup.loaded.set y m := by
    rw [← heq, List.set_getElem_self]
  unfold serveModule served
  rw [hy]
  simp only
  by_cases hserved : m.moduleServedByServiceThread = false
  swap
  · rw [if_neg hserved, if_neg hserved]
    exact hsame
  rw [if_pos hserved, if_pos hserved]
  by_cases hremove : m.removeModule = true
  · have hstatus : m.moduleStatus ≠ false := fun hstatus => h ⟨hserved, hremove, hstatus⟩
    rw [if_pos hremove, if_pos hremove, if_neg hstatus]
    exact hsame
  rw [if_neg hremove, if_neg hremove]
  by_cases hinit : m.initModule = true
  · rw [if_pos hinit, if_pos hinit]
    by_cases hstatus : m.moduleStatus = false
    · rw [if_pos hstatus, if_pos hstatus]
      rfl
    · rw [if_neg hstatus, if_neg hstatus]
      exact disconnect_loaded y m w
  · rw [if_neg hinit, if_neg hinit]
    rfl

/-- The slots, the places and the examined ones of the pass. -/
def ServeTrace.toPass (t : ServeTrace) : Sweep.Pass RunningModule :=
  ⟨t.world.sup.loaded, t.origins, t.examined⟩

theorem tracedServe_toPass (y : Nat) (t : ServeTrace) :
    (tracedServe y t).toPass = Sweep.visit Freed served y t.toPass := by
  cases hy : t.world.sup.loaded[y]? with
  | none =>
    have hfreed : ¬ ∃ m ∈ t.world.sup.loaded[y]?, Freed m := by
      rw [hy]
      rintro ⟨m, hm, -⟩
      cases hm
    have hlt : ¬ y < t.world.sup.loadedModulesCnt :=
      Nat.not_lt.mpr (List.getElem?_eq_none_iff.mp hy)
    have hworld : serveModule y t.world = t.world := by
      rw [serveModule, hy]
    rw [Sweep.visit, ServeTrace.toPass, ServeTrace.toPass, tracedServe, if_neg hfreed, if_neg hlt,
      hworld, hy]
  | some m =>
    have hlt : y < t.world.sup.loadedModulesCnt := (List.getElem?_eq_some_iff.mp hy).1
    have hslot : t.toPass.slots[y]? = some m := hy
    rw [ServeTrace.toPass, tracedServe, if_pos hlt]
    by_cases hfreed : Freed m
    · rw [Sweep.visit_gone hslot hfreed, if_pos ⟨m, hy, hfreed⟩, serveModule_freed hy hfreed]
      rfl
    · have hnone : ¬ ∃ m ∈ t.world.sup.loaded[y]?, Freed m := by
        rintro ⟨m', hm', hfreed'⟩
        rw [hy] at hm'
        exact hfreed (Option.some.inj hm' ▸ hfreed')
      rw [Sweep.visit_kept hslot hfreed, if_neg hnone, serveModule_kept hy hfreed]
      rfl

theorem tracedPass_toPass (w : World) :
    (tracedPass w).toPass = Sweep.sweep Freed served w.sup.loaded :=
  forRange_map ServeTrace.toPass tracedServe_toPass _ _

/-- The pass is exact if and only if no module but the last one of the table is to be removed. -/
theorem serveModules_exact (w : World) : RemovalExact w ↔
    ∀ i m, w.sup.loaded[i]? = some m → Freed m → i + 1 = w.sup.loadedModulesCnt := by
  have hsweep := @Sweep.sweep_exact_iff _ Freed _ served w.sup.loaded fun _ => served_not_freed
  rw [Supervisor.loadedModulesCnt, ← hsweep, ← tracedPass_toPass]
  have hslots : (tracedPass w).toPass.slots = (serveModules w).sup.loaded := by
    rw [← tracedPass_world]
    rfl
  constructor
  · rintro ⟨hkept, hcontents, hexamined, hremoved⟩
    rw [← hslots] at hcontents hremoved
    exact ⟨hkept, hcontents, hexamined, hremoved⟩
  · rintro ⟨hkept, hcontents, hexamined, hremoved⟩
    rw [hslots] at hcontents hremoved
    exact ⟨hkept, hcontents, hexamined, hremoved⟩

/-- Two modules that are not started, and a reload that lists neither of them. -/
def twoRemoved : World :=
  Run.run step (boot [] (some (profileDocument
    [moduleElement "a" "/a" "false" [], moduleElement "b" "/b" "false" []])))
    [.reloadTemplate (some (profileDocument []))]

/-- The second module moves into the slot of the first, which the pass has left behind. -/
theorem not_serveModules_exact : ¬ ∀ w, Reachable w → RemovalExact w := by
  intro h
  have hleft : ∃ m ∈ (serveModules twoRemoved).sup.loaded, Freed m := by decide +kernel
  obtain ⟨m, hm, hfreed⟩ := hleft
  exact (h twoRemoved ⟨_, _, _, rfl⟩).removed m hm hfreed

end NemeaSupervisor
