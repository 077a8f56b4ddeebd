import NemeaSupervisor.Generations

/-!
# What a restart of the supervisor keeps running

A supervisor that terminates without stopping its modules writes the backup at
once, whatever is pending. The file has one enabled flag for a module and lists
only modules with a profile: a module that waits for its restart is written as
disabled, one that waits for its removal is not written, and a file that the
validation rejects gives back nothing. For a file that cannot be parsed the next
supervisor takes its template.
-/

namespace NemeaSupervisor

open XmlNode

/-! ## Which backups are accepted -/

/-- The validation accepts the backup of a reachable state exactly when the parser reads
it, the state has a profile and what is written of profiles, modules and interfaces is
accepted. -/
theorem backup_accepted {lib : Libxml2} (hf : Formats lib) {w : World} (hw : Reachable w) :
    (∃ root, parsedBackup lib w.sup = some root ∧
        validateConfiguration (some root) = .ok ()) ↔
      Readable lib w.sup ∧ BackupAccepted lib w.sup := by
  have hvalid : ∀ root, validateConfiguration (some root) = .ok () ↔ Grammar root := by
    intro root
    rw [validateConfiguration_eq_ok]
    constructor
    · rintro ⟨r, hr, hg⟩
      cases hr
      exact hg
    · intro hg
      exact ⟨root, rfl, hg⟩
  rw [← grammar_backup hf (reachable_tableInv hw), parsedBackup]
  by_cases hread : Readable lib w.sup
  · rw [if_pos hread]
    constructor
    · rintro ⟨root, hroot, hok⟩
      cases hroot
      exact ⟨hread, (hvalid _).mp hok⟩
    · rintro ⟨-, hg⟩
      exact ⟨_, rfl, (hvalid _).mpr hg⟩
  · rw [if_neg hread]
    constructor
    · rintro ⟨root, hroot, -⟩
      cases hroot
    · exact fun h => absurd h.1 hread

/-- A library that gives back every string without references; an empty element has no
children. -/
def plainLib : Libxml2 := ⟨fun v => some (if v = "" then [] else [.text v]), formatIndent⟩

theorem formats_plainLib : Formats plainLib := by
  refine ⟨fun depth _ hl => formatIndent_elements depth hl, fun _ => rfl, fun v hv => ?_⟩
  have hne : v ≠ "" := by
    rintro rfl
    exact absurd hv (by decide)
  simp only [plainLib, if_neg hne]

/-- A document with one module that has one interface with these children. -/
def interfaceChildrenDocument (children : List XmlNode) : XmlNode :=
  profileDocument [moduleElement "m" "/bin/m" "true"
    [.element "trapinterfaces" [] [.element "interface" [] children]]]

theorem backup_accepted_type :
    let w := boot [] (some (interfaceChildrenDocument [.textElement "type" "TCP"]))
    (∃ root, parsedBackup plainLib w.sup = some root ∧
        validateConfiguration (some root) = .ok ()) ↔
      Readable plainLib w.sup ∧ BackupAccepted plainLib w.sup :=
  backup_accepted formats_plainLib ⟨[], _, [], rfl⟩

/-- An interface whose only child is an empty params element has no string. -/
theorem not_backup_accepted :
    ¬ ∀ lib w, Formats lib → Reachable w → Readable lib w.sup →
      validateConfiguration (some (generateBackupConfigFile lib w.sup)) = .ok () := by
  intro h
  have hok := h plainLib (boot [] (some (interfaceChildrenDocument [.element "params" [] []])))
    formats_plainLib ⟨[], _, [], rfl⟩ (by decide)
  revert hok
  decide

/-! ## The table after the restart -/

/-- The module is enabled, or disabled until its pending restart. -/
def MeantToRun (m : RunningModule) : Prop := m.moduleEnabled = true ∨ m.initModule = true

/-- The process with the PID of the module has not ended. -/
def Live (w : World) (m : RunningModule) : Prop :=
  m.modulePid > 0 ∧ ∃ p ∈ w.kernel.procs, p.pid = m.modulePid ∧ p.zombie = false

/-- No module that was meant to run is disabled and no live process is lost. -/
structure RunStateKept (w : World) (s' : Supervisor) : Prop where
  enabled : ∀ m ∈ w.sup.loaded, MeantToRun m →
    ∃ m' ∈ s'.loaded, m'.moduleName = m.moduleName ∧ m'.moduleEnabled = true
  tracked : ∀ m ∈ w.sup.loaded, Live w m → ∃ m' ∈ s'.loaded, m'.modulePid = m.modulePid

/-- The initial load of the next supervisor: its template when the backup cannot be parsed. -/
def restart (lib : Libxml2) (template : Option XmlNode) (s : Supervisor) : Supervisor :=
  initialTable ((parsedBackup lib s).or template)

/-- The document is accepted and has a module element with this property. -/
def HasElement (rootNode : Option XmlNode) (p : XmlNode → Prop) : Prop :=
  ∃ root, rootNode = some root ∧ Grammar root ∧ ∃ d ∈ docModules root.xmlChildrenNode, p d.2

/-- The document enables what is meant to run and names the PIDs of the live processes. -/
structure RunStateNamed (w : World) (rootNode : Option XmlNode) : Prop where
  enabled : ∀ m ∈ w.sup.loaded, MeantToRun m →
    HasElement rootNode fun e => moduleName e = m.moduleName ∧ moduleElemEnabled e = true
  tracked : ∀ m ∈ w.sup.loaded, Live w m → HasElement rootNode fun e => elemPid e = m.modulePid

/-- The backup is accepted if anything runs or is meant to run; what is meant to run
comes back as an enabled module, and a module with the PID of each live process is
written. -/
structure RunStateWritten (lib : Libxml2) (w : World) : Prop where
  enabled : ∀ m ∈ w.sup.loaded, MeantToRun m →
    BackupAccepted lib w.sup ∧ ∃ m1, Written w.sup m1 ∧
      lib.reread m1.moduleName = m.moduleName ∧ m1.moduleEnabled = true
  tracked : ∀ m ∈ w.sup.loaded, Live w m →
    BackupAccepted lib w.sup ∧ ∃ m1, Written w.sup m1 ∧ m1.modulePid = m.modulePid

/-- The file that the next supervisor loads holds the run state. -/
structure RunStateCarried (lib : Libxml2) (template : Option XmlNode) (w : World) : Prop where
  backup : Readable lib w.sup → RunStateWritten lib w
  template : ¬ Readable lib w.sup → RunStateNamed w template

/-- The modules of an initial load are the elements of its document, if it is accepted. -/
theorem exists_initialTable_iff {rootNode : Option XmlNode} {p : XmlNode → Prop}
    {q : RunningModule → Prop} (hpq : ∀ e m, LoadedFrom e m → (q m ↔ p e)) :
    (∃ m ∈ (initialTable rootNode).loaded, q m) ↔ HasElement rootNode p := by
  constructor
  · rintro ⟨m, hm, hq⟩
    by_cases hg : ∃ r, rootNode = some r ∧ Grammar r
    · obtain ⟨r, rfl, hg⟩ := hg
      obtain ⟨d, hd, hfrom⟩ := initialTable_loadedFrom hg hm
      exact ⟨r, rfl, hg, d, hd, (hpq d.2 m hfrom).mp hq⟩
    · rw [initialTable_rejected hg, init_loaded] at hm
      exact absurd hm (by simp)
  · rintro ⟨r, rfl, hg, d, hd, hp⟩
    obtain ⟨m, hm, hfrom⟩ := exists_initialTable_loadedFrom hg hd
    exact ⟨m, hm, (hpq d.2 m hfrom).mpr hp⟩

theorem runStateKept_initialTable (w : World) (rootNode : Option XmlNode) :
    RunStateKept w (initialTable rootNode) ↔ RunStateNamed w rootNode := by
  have henabled : ∀ m : RunningModule, (∃ m' ∈ (initialTable rootNode).loaded,
      m'.moduleName = m.moduleName ∧ m'.moduleEnabled = true) ↔
      HasElement rootNode fun e => moduleName e = m.moduleName ∧ moduleElemEnabled e = true :=
    fun m => exists_initialTable_iff fun e m' hfrom => by rw [hfrom.name, hfrom.enabled]
  have htracked : ∀ m : RunningModule, (∃ m' ∈ (initialTable rootNode).loaded,
      m'.modulePid = m.modulePid) ↔ HasElement rootNode fun e => elemPid e = m.modulePid :=
    fun m => exists_initialTable_iff fun e m' hfrom => by rw [hfrom.pid]
  constructor
  · exact fun h => ⟨fun m hm hmeant => (henabled m).mp (h.enabled m hm hmeant),
      fun m hm hlive => (htracked m).mp (h.tracked m hm hlive)⟩
  · exact fun h => ⟨fun m hm hmeant => (henabled m).mpr (h.enabled m hm hmeant),
      fun m hm hlive => (htracked m).mpr (h.tracked m hm hlive)⟩

theorem hasElement_backup {lib : Libxml2} (hf : Formats lib) {s : Supervisor} (h : TableInv s)
    (p : XmlNode → Prop) :
    HasElement (some (generateBackupConfigFile lib s)) p ↔
      BackupAccepted lib s ∧ ∃ m, Written s m ∧ p (backupModule lib m) := by
  rw [← grammar_backup hf h]
  constructor
  · rintro ⟨root, hroot, hg, d, hd, hp⟩
    cases hroot
    obtain ⟨m, hm, heq⟩ := (mem_docModules_backup hf h).mp ⟨d, hd, rfl⟩
    exact ⟨hg, m, hm, heq ▸ hp⟩
  · rintro ⟨hg, m, hm, hp⟩
    obtain ⟨d, hd, heq⟩ := (mem_docModules_backup hf h).mpr ⟨m, hm, rfl⟩
    exact ⟨_, rfl, hg, d, hd, heq ▸ hp⟩

theorem runStateNamed_backup {lib : Libxml2} (hf : Formats lib) {w : World}
    (h : TableInv w.sup) (hpid : ∀ m ∈ w.sup.loaded, PidInt m.modulePid) :
    RunStateNamed w (some (generateBackupConfigFile lib w.sup)) ↔ RunStateWritten lib w := by
  have henabled : ∀ m : RunningModule, HasElement (some (generateBackupConfigFile lib w.sup))
      (fun e => moduleName e = m.moduleName ∧ moduleElemEnabled e = true) ↔
      BackupAccepted lib w.sup ∧ ∃ m1, Written w.sup m1 ∧
        lib.reread m1.moduleName = m.moduleName ∧ m1.moduleEnabled = true := by
    intro m
    rw [hasElement_backup hf h]
    simp only [backupModule_name hf, moduleElemEnabled_backupModule hf]
  have htracked : ∀ m : RunningModule, HasElement (some (generateBackupConfigFile lib w.sup))
      (fun e => elemPid e = m.modulePid) ↔
      BackupAccepted lib w.sup ∧ ∃ m1, Written w.sup m1 ∧ m1.modulePid = m.modulePid := by
    intro m
    rw [hasElement_backup hf h]
    refine and_congr_right fun _ => exists_congr fun m1 => and_congr_right fun hm1 => ?_
    rw [elemPid_backupModule (hpid m1 hm1.1)]
  constructor
  · exact fun hn => ⟨fun m hm hmeant => (henabled m).mp (hn.enabled m hm hmeant),
      fun m hm hlive => (htracked m).mp (hn.tracked m hm hlive)⟩
  · exact fun hn => ⟨fun m hm hmeant => (henabled m).mpr (hn.enabled m hm hmeant),
      fun m hm hlive => (htracked m).mpr (hn.tracked m hm hlive)⟩

/-- A restart keeps the run state of a reachable state exactly when the file that is
loaded holds it. -/
theorem run_state_kept {lib : Libxml2} (hf : Formats lib) (template : Option XmlNode) {w : World}
    (hw : Reachable w) :
    RunStateKept w (restart lib template w.sup) ↔ RunStateCarried lib template w := by
  have h := reachable_tableInv hw
  have hpid : ∀ m ∈ w.sup.loaded, PidInt m.modulePid := by
    obtain ⟨alive, rootNode, as, rfl⟩ := hw
    exact (Run.run_invariant step_pidInv (boot_pidInv alive rootNode) as).pid
  rw [restart, runStateKept_initialTable, parsedBackup]
  by_cases hread : Readable lib w.sup
  · rw [if_pos hread, Option.some_or, runStateNamed_backup hf h hpid]
    exact ⟨fun hwritten => ⟨fun _ => hwritten, fun hno => absurd hread hno⟩,
      fun hcarried => hcarried.backup hread⟩
  · rw [if_neg hread, Option.none_or]
    exact ⟨fun hnamed => ⟨fun hyes => absurd hyes hread, fun _ => hnamed⟩,
      fun hcarried => hcarried.template hread⟩

/-- A module runs; then the supervisor terminates after these actions. -/
def terminatedAfter (actions : List Action) : World :=
  Run.run step (boot [] (some (profileDocument [moduleElement "m" "/bin/m" "true" []])))
    (.cycle [forkTurn 100] :: actions ++ [.abortServiceThread, .cycle []])

theorem run_state_kept_running :
    RunStateKept (terminatedAfter []) (restart plainLib none (terminatedAfter []).sup) ↔
      RunStateCarried plainLib none (terminatedAfter []) :=
  run_state_kept formats_plainLib none ⟨[], _, _, rfl⟩

/-- The termination falls between the restart command and the cycle that stops
the module. -/
theorem not_run_state_kept :
    ¬ ∀ lib template w, Formats lib → Reachable w → w.serviceExited = true →
      w.sup.serviceStopAllModules = false → Readable lib w.sup →
      RunStateKept w (restart lib template w.sup) := by
  intro h
  have hkept := h plainLib none (terminatedAfter [.restartModule (some [0])])
    formats_plainLib ⟨[], _, _, rfl⟩ (by decide) (by decide) (by decide)
  have hpending : ∀ m ∈ (terminatedAfter [.restartModule (some [0])]).sup.loaded,
      m.initModule = true := by decide
  have hlt : 0 < (terminatedAfter [.restartModule (some [0])]).sup.loaded.length := by decide
  obtain ⟨m', hm', -, hon⟩ := hkept.enabled _ (List.getElem_mem hlt)
    (.inr (hpending _ (List.getElem_mem hlt)))
  have hoff : ∀ m' ∈ (restart plainLib none
      (terminatedAfter [.restartModule (some [0])]).sup).loaded, m'.moduleEnabled = false := by
    decide
  rw [hoff m' hm'] at hon
  exact absurd hon (by simp)

end NemeaSupervisor
