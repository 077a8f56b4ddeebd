import NemeaSupervisor.BackupRoundTrip
import NemeaSupervisor.Signals

/-!
# Supervisors one after another

A supervisor that leaves its modules running writes their PIDs to the backup, and
the next one adopts the processes that are still there. The PIDs survive the text
of the file, so distinct modules keep distinct PIDs from one supervisor to the
next, and every process has exactly one module in all of them.
-/

namespace NemeaSupervisor

open CText XmlNode

/-! ## PIDs are integers of the machine -/

def PidInt (pid : Int) : Prop := -2147483648 ≤ pid ∧ pid ≤ 2147483647

theorem PidInt.zero : PidInt 0 := ⟨by decide, by decide⟩
theorem PidInt.failed : PidInt (-1) := ⟨by decide, by decide⟩

structure PidInv (w : World) : Prop where
  table : TableInv w.sup
  pid : ∀ m ∈ w.sup.loaded, PidInt m.modulePid

theorem PidInt.congr {m m' : RunningModule} (hp : m'.process = m.process) (h : PidInt m.modulePid) :
    PidInt m'.modulePid := by
  rw [field_of_process RunningModule.modulePid (fun _ => rfl) hp]
  exact h

theorem SlotChange.pidInt {s : Supervisor} {k k' : Kernel} {m m' : RunningModule}
    (h : SlotChange s k m m' k') (hm : PidInt m.modulePid) : PidInt m'.modulePid := by
  cases h with
  | gone => exact PidInt.zero
  | startFailed => exact PidInt.failed
  | started _ hpid => exact ⟨Int.le_trans (by decide) (Int.le_of_lt hpid.1), hpid.2⟩
  | tick =>
    unfold tickRestartTimer
    split_ifs <;> exact hm
  | _ => exact hm

theorem PidInv.change {w w' : World} (h : PidInv w) (hc : Change w w') : PidInv w' := by
  have htable := h.table.change hc
  cases hc with
  | outside => exact ⟨htable, h.pid⟩
  | @slot x m m' k hx hs =>
    refine ⟨htable, fun m1 hm1 => ?_⟩
    rcases mem_setModule hm1 with rfl | hm1
    · exact hs.pidInt (h.pid m (List.mem_of_getElem? hx))
    · exact h.pid m1 hm1
  | freed => exact ⟨htable, fun m hm => h.pid m (mem_freed hm)⟩
  | exited => exact ⟨htable, h.pid⟩

theorem step_pidInv (w : World) (a : Action) (h : PidInv w) : PidInv (step w a) := by
  refine step_invariant (fun _ h => h.table) (fun _ _ h hc => h.change hc) (fun _ w s' h hc => ?_)
    (fun _ b c h => ⟨h.table.flags b c, h.pid⟩) h fun choice root s' _ hc hg hr => ?_
  · refine ⟨h.table.command hc, fun m' hm' => ?_⟩
    obtain ⟨m, hm, hp⟩ := hc.process hm'
    exact (h.pid m hm).congr hp
  · refine ⟨hr.tableInv h.table hg, fun m' hm' => ?_⟩
    rcases hr.process hc h.table hg.goodDocs hm' with hzero | ⟨m, hm, hp⟩
    · exact PidInt.congr (m := RunningModule.zero) hzero .zero
    · exact (h.pid m hm).congr hp

/-! ## The PIDs of the initial load -/

theorem finishSlot_pid (choice : ReloadChoice) (m : RunningModule) :
    (finishSlot choice m).modulePid = m.modulePid := by
  rw [finishSlot, restartIfModified_eq]
  unfold adoptIfRunning
  split_ifs <;> rfl

/-- The PID that the element of a module names. -/
def elemPid (e : XmlNode) : Int := ((xmlGetProp "module_pid" e).map atoi).getD 0

/-- The module has the name, the PID and the flag of its element. -/
structure LoadedFrom (e : XmlNode) (m : RunningModule) : Prop where
  name : m.moduleName = moduleName e
  pid : m.modulePid = elemPid e
  enabled : m.moduleEnabled = moduleElemEnabled e

theorem initialTable_reloaded {root : XmlNode} (hg : Grammar root) :
    Reloaded .initLoadConfig .init root.xmlChildrenNode (initialTable (some root)) :=
  (reloadConfiguration_accepted .init hg .initLoadConfig).2

theorem initialTable_loadedFrom {root : XmlNode} (hg : Grammar root) {m : RunningModule}
    (hm : m ∈ (initialTable (some root)).loaded) :
    ∃ d ∈ docModules root.xmlChildrenNode, LoadedFrom d.2 m := by
  have hr := initialTable_reloaded hg
  cases hr.slot TableInv.init hg.goodDocs hm with
  | missing h => exact absurd h (by simp [init_loaded])
  | kept h => exact absurd h (by simp [init_loaded])
  | @new k m1 d hd hnew happlied =>
    have hpid : m1.modulePid = appliedPid .initLoadConfig d.2 (slotAt (resetTable .init) k) :=
      congrArg RunningModule.modulePid happlied.frame
    have hzero : (slotAt (resetTable .init) k).modulePid = 0 :=
      (TableInv.init.spare_reset k).field RunningModule.modulePid fun _ _ _ _ => rfl
    rw [appliedPid, if_pos rfl, hzero] at hpid
    have hname := (finishSlot_name .initLoadConfig m1).trans happlied.name
    refine ⟨d, hd, hname, (finishSlot_pid _ m1).trans hpid, ?_⟩
    obtain ⟨hon, hrestart⟩ := (hr.element .init hg.goodDocs hd hm hname).enabled .init hname
    have hinit : (finishSlot .initLoadConfig m1).initModule = false := by
      cases hi : (finishSlot .initLoadConfig m1).initModule with
      | false => rfl
      | true =>
        obtain ⟨-, -, m0, hm0, -⟩ := hrestart.mp hi
        exact absurd hm0 (by simp [init_loaded])
    rw [hon, hinit, Bool.not_false, Bool.and_true]

/-- Every element is loaded. -/
theorem exists_initialTable_loadedFrom {root : XmlNode} (hg : Grammar root) {d : Nat × XmlNode}
    (hd : d ∈ docModules root.xmlChildrenNode) :
    ∃ m ∈ (initialTable (some root)).loaded, LoadedFrom d.2 m := by
  obtain ⟨m, hm, hname⟩ := (initialTable_reloaded hg).exists_slot .init hg hd
  obtain ⟨d', hd', hfrom⟩ := initialTable_loadedFrom hg hm
  have hsame : d' = d := List.inj_on_of_nodup_map hg.goodDocs.distinct hd' hd
    (hfrom.name.symm.trans hname)
  subst hsame
  exact ⟨m, hm, hfrom⟩

theorem initialTable_rejected {rootNode : Option XmlNode}
    (hg : ¬ ∃ r, rootNode = some r ∧ Grammar r) : initialTable rootNode = .init := by
  rw [initialTable, reloadConfiguration_rejected hg]

theorem boot_pidInv (alive : List Int) (rootNode : Option XmlNode) :
    PidInv (boot alive rootNode) := by
  refine ⟨boot_tableInv alive rootNode, fun m hm => ?_⟩
  change m ∈ (initialTable rootNode).loaded at hm
  by_cases hg : ∃ r, rootNode = some r ∧ Grammar r
  · obtain ⟨r, rfl, hg⟩ := hg
    obtain ⟨d, -, hfrom⟩ := initialTable_loadedFrom hg hm
    rw [hfrom.pid, elemPid]
    cases xmlGetProp "module_pid" d.2 with
    | none => exact PidInt.zero
    | some key => exact atoi_range key
  · rw [initialTable_rejected hg, init_loaded] at hm
    exact absurd hm (by simp)

/-! ## The backup keeps the PIDs apart -/

theorem DistinctPids.init : DistinctPids .init := by
  intro x y m m' hm
  rw [init_loaded] at hm
  exact absurd hm (by simp)

/-- Distinct PIDs by name instead of index. -/
theorem DistinctPids.of_names {s : Supervisor} (hnames : (s.loaded.map RunningModule.moduleName).Nodup)
    (h : ∀ m ∈ s.loaded, ∀ m' ∈ s.loaded, m.modulePid > 0 → m.modulePid = m'.modulePid →
      m.moduleName = m'.moduleName) : DistinctPids s := by
  intro x y m m' hx hy hpos heq
  have hsame := h m (List.mem_of_getElem? hx) m' (List.mem_of_getElem? hy) hpos heq
  have hlt := (List.getElem?_eq_some_iff.mp hx).1
  refine (List.getElem?_inj (by simpa using hlt) hnames).mp ?_
  rw [List.getElem?_map, List.getElem?_map, hx, hy]
  exact congrArg some hsame

section backup

variable {lib : Libxml2} (hf : Formats lib) {s : Supervisor} (h : TableInv s)

theorem elemPid_backupModule {m : RunningModule} (hpid : PidInt m.modulePid) :
    elemPid (backupModule lib m) = m.modulePid := atoi_toString hpid.1 hpid.2

include hf

theorem moduleElemEnabled_backupModule (m : RunningModule) :
    moduleElemEnabled (backupModule lib m) = m.moduleEnabled := by
  have henabled : childValue "enabled" (backupModule lib m).xmlChildrenNode =
      some (enabledText m.moduleEnabled) :=
    (backupModule_text hf m (by decide) (by simp [moduleTexts])).trans
      (hf.reread_enabledText m.moduleEnabled)
  rw [moduleElemEnabled, henabled]
  cases m.moduleEnabled <;> decide

include h

/-- The elements of the backup are those of the modules that are written. -/
theorem mem_docModules_backup {e : XmlNode} :
    (∃ d ∈ docModules (generateBackupConfigFile lib s).xmlChildrenNode, d.2 = e) ↔
      ∃ m, Written s m ∧ backupModule lib m = e := by
  rw [← List.mem_map, docModules_names, elems_backup hf, List.mem_map]
  constructor
  · rintro ⟨m, hm, rfl⟩
    exact ⟨m, (mem_backupOrder h).mp hm, rfl⟩
  · rintro ⟨m, hm, rfl⟩
    exact ⟨m, (mem_backupOrder h).mpr hm, rfl⟩

/-- A module after the load of a backup comes from one that was written. -/
theorem restored_module (hg : Grammar (generateBackupConfigFile lib s)) {m' : RunningModule}
    (hm' : m' ∈ (restore lib s).loaded) :
    ∃ m, Written s m ∧ LoadedFrom (backupModule lib m) m' := by
  obtain ⟨d, hd, hfrom⟩ := initialTable_loadedFrom hg hm'
  obtain ⟨m, hm, heq⟩ := (mem_docModules_backup hf h).mp ⟨d, hd, rfl⟩
  exact ⟨m, hm, heq ▸ hfrom⟩

end backup

theorem DistinctPids.backup {lib : Libxml2} (hf : Formats lib)
    {s : Supervisor} (htable : TableInv s) (hpid : ∀ m ∈ s.loaded, PidInt m.modulePid)
    (h : DistinctPids s) : DistinctPids (initialTable (some (generateBackupConfigFile lib s))) := by
  by_cases hg : Grammar (generateBackupConfigFile lib s)
  · refine .of_names (initialTable_tableInv _).distinct fun m1 hm1 m2 hm2 hpos heq => ?_
    obtain ⟨m, ⟨hm, -⟩, hfrom⟩ := restored_module hf htable hg hm1
    obtain ⟨m', ⟨hm', -⟩, hfrom'⟩ := restored_module hf htable hg hm2
    have hpid1 := hfrom.pid.trans (elemPid_backupModule (hpid m hm))
    have hpid2 := hfrom'.pid.trans (elemPid_backupModule (hpid m' hm'))
    obtain ⟨x, hx⟩ := List.mem_iff_getElem?.mp hm
    obtain ⟨y, hy⟩ := List.mem_iff_getElem?.mp hm'
    have hxy := h x y m m' hx hy (by omega) (by omega)
    rw [hxy, hy, Option.some.injEq] at hx
    rw [hfrom.name, hfrom'.name, hx]
  · rw [initialTable_rejected fun ⟨r, hr, hgr⟩ => hg (Option.some.inj hr ▸ hgr)]
    exact .init

/-! ## Any supervisor -/

/-- What a supervisor starts from: nothing, a template, which names no PIDs, or
the backup of an earlier supervisor. -/
inductive InitialLoad : Option XmlNode → Prop where
  | empty : InitialLoad none
  | template {root : XmlNode}
    (h : ∀ d ∈ docModules root.xmlChildrenNode, xmlGetProp "module_pid" d.2 = none) :
    InitialLoad (some root)
  | backup {rootNode : Option XmlNode} (h : InitialLoad rootNode) (alive : List Int)
    (as : List Action) {lib : Libxml2} (hf : Formats lib) :
    InitialLoad (some (generateBackupConfigFile lib (Run.run step (boot alive rootNode) as).sup))

theorem InitialLoad.distinctPids {rootNode : Option XmlNode} (h : InitialLoad rootNode) :
    DistinctPids (initialTable rootNode) := by
  induction h with
  | empty =>
    rw [initialTable_rejected (by simp)]
    exact .init
  | @template root hroot =>
    by_cases hg : Grammar root
    · refine .of_names (initialTable_tableInv _).distinct fun m hm m' _ hpos => ?_
      obtain ⟨d, hd, hfrom⟩ := initialTable_loadedFrom hg hm
      rw [hfrom.pid, elemPid, hroot d hd] at hpos
      exact absurd hpos (by decide)
    · rw [initialTable_rejected fun ⟨r, hr, hgr⟩ => hg (Option.some.inj hr ▸ hgr)]
      exact .init
  | @backup rootNode _ alive as _ hf ih =>
    have hprocess := Run.run_invariant step_processInv (boot_processInv alive rootNode ih) as
    have hpid := Run.run_invariant step_pidInv (boot_pidInv alive rootNode) as
    exact hprocess.distinct.backup hf hprocess.table hpid.pid

/-- In every run of every supervisor each process is that of exactly one module. -/
theorem one_process_per_module (alive : List Int) {rootNode : Option XmlNode}
    (h : InitialLoad rootNode) (as : List Action) :
    OneProcess (Run.run step (boot alive rootNode) as) :=
  (Run.run_invariant step_processInv (boot_processInv alive rootNode h.distinctPids) as).oneProcess

/-- The second supervisor adopts the process that the first has left. -/
theorem one_process_per_module_adopted :
    OneProcess (Run.run step (boot [100] (some (generateBackupConfigFile verbatimLib
      (Run.run step (boot [] (some (profileDocument [moduleElement "m" "/bin/m" "true" []])))
        [.cycle [forkTurn 100]]).sup))) [.cycle [], .move (.exits 100), .cycle []]) :=
  one_process_per_module [100]
    (.backup (.template (by decide)) [] [.cycle [forkTurn 100]] formats_verbatimLib) _

end NemeaSupervisor
