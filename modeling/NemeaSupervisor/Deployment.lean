import NemeaSupervisor.Arguments
import NemeaSupervisor.Convergence
import NemeaSupervisor.InterfaceLists
import NemeaSupervisor.Removal
import NemeaSupervisor.Restart

/-!
# From the document to the processes

A document says which modules are to run and how each of them is started. Once the
table has been brought in line with it, and the service thread has had enough cycles in a
world that cooperates, the processes are those that the document asks for: one for each
module that is enabled in an enabled profile, which executes what its element says, and no
others. That a child gets as far as this takes arguments that can be built: every interface
needs a type, and to be passed on completely also a direction and one address.
-/

namespace NemeaSupervisor

open XmlNode

/-! ## What a document asks for -/

/-- How the module of an element is started. -/
def elementLaunch (e : XmlNode) : Launch :=
  ⟨childValue "path" e.xmlChildrenNode, childValue "params" e.xmlChildrenNode, docInterfaces e⟩

/-- A slot that holds what the element says. -/
def elementSlot (e : XmlNode) : RunningModule := (elementLaunch e).slot (moduleName e)

/-- The module of the element is enabled in an enabled profile. -/
def Wanted (nodes : List XmlNode) (e : XmlNode) : Prop :=
  ∃ ms ∈ modulesElems nodes, e ∈ moduleElems ms ∧ moduleElemEnabled ms = true ∧
    moduleElemEnabled e = true

/-- The parameters of the element are well formed, and its interfaces can be passed on. -/
structure Launchable (e : XmlNode) : Prop where
  params : ∃ params, ParamsOf (childValue "params" e.xmlChildrenNode) params
  ifces : ∀ ifc ∈ docInterfaces e, Rendered ifc ∧ ifc.ifcType ≠ none

/-- What a process was started with. One that was adopted counts as started with what the
table says of its module when it is adopted. -/
def startedWith (s : Supervisor) (p : Process) : Launch :=
  p.launch.getD (((s.loaded.find? fun m => m.moduleName == p.owner).map RunningModule.launch).getD
    ⟨none, none, []⟩)

section processes

variable (launched : Process → Launch)

/-- The process is alive, and executes the path of the element with arguments that say all of
its parameters and interfaces. -/
structure RunsAs (p : Process) (e : XmlNode) : Prop where
  owner : p.owner = moduleName e
  alive : p.zombie = false
  executes : ∃ path args, childExec ((launched p).slot p.owner) = some (path, args) ∧
    childValue "path" e.xmlChildrenNode = some path ∧ ArgumentsOf (elementSlot e) args

/-- The processes are those that the document asks for, each once. -/
structure Deployed (nodes : List XmlNode) (w : World) : Prop where
  running : ∀ e, Wanted nodes e → ∃ p ∈ w.kernel.procs, RunsAs launched p e
  only : ∀ p ∈ w.kernel.procs, ∃ e, Wanted nodes e ∧ RunsAs launched p e
  once : (w.kernel.procs.map Process.owner).Nodup

end processes

/-! ## The table that a reload leaves -/

/-- The slot is in line with its element. -/
structure InstalledAs (s : Supervisor) (ms e : XmlNode) (m : RunningModule) : Prop where
  kept : m.removeModule = false
  path : ∃ path, childValue "path" e.xmlChildrenNode = some path
  launch : m.launch = elementLaunch e
  profile : s.profileOf m = some (profileOfElem ms)
  meant : MeantToRun m ↔ moduleElemEnabled e = true

/-- The table is in line with the document, up to what waits for its removal. -/
structure Installed (nodes : List XmlNode) (s : Supervisor) : Prop where
  element : ∀ ms ∈ modulesElems nodes, ∀ e ∈ moduleElems ms, ∀ m ∈ s.loaded,
    m.moduleName = moduleName e → InstalledAs s ms e m
  loaded : ∀ ms ∈ modulesElems nodes, ∀ e ∈ moduleElems ms, ∃ m ∈ s.loaded,
    m.moduleName = moduleName e
  only : ∀ m ∈ s.loaded, m.removeModule = false → ∃ ms ∈ modulesElems nodes,
    ∃ e ∈ moduleElems ms, m.moduleName = moduleName e
  waiting : ∀ m ∈ s.loaded, m.removeModule = true ∨ m.initModule = true →
    m.moduleEnabled = false

section installed

variable {choice : ReloadChoice} {s s' : Supervisor} {root : XmlNode}

theorem ModuleGrammar.path_value {e : XmlNode} (h : ModuleGrammar e) :
    ∃ path, childValue "path" e.xmlChildrenNode = some path := by
  obtain ⟨c, -, -, hvalue, hcheck⟩ := h.allowed.child (moduleRules_distinct [])
    (r := ⟨"path", true, checkNonEmpty "path"⟩) (by simp [moduleRules]) h.path
  cases hc : c.value with
  | none =>
    rw [hc] at hcheck
    cases hcheck
  | some path => exact ⟨path, hvalue.trans hc⟩

/-- A reload installs the document when it loses neither old parameters nor interfaces. -/
theorem Reloaded.installed (h : TableInv s) (hg : Grammar root)
    (hr : Reloaded choice s root.xmlChildrenNode s') (hparams : ParamsStay s root.xmlChildrenNode)
    (hifces : ComparisonsSucceed s root.xmlChildrenNode) :
    Installed root.xmlChildrenNode s' := by
  have hslot : ∀ d ∈ docModules root.xmlChildrenNode, ∀ m ∈ s'.loaded,
      m.moduleName = moduleName d.2 → ElementSlot choice s root.xmlChildrenNode d m :=
    fun d hd m hm hname => hr.element h hg.goodDocs hd hm hname
  refine ⟨fun ms hms e he m hm hname => ?_, fun ms hms e he => ?_, fun m hm hkept => ?_,
    fun m hm hwaits => ?_⟩
  · obtain ⟨i, hd, hi⟩ := mem_docModules hms he
    have hs := hslot _ hd m hm hname
    obtain ⟨hon, hrestart⟩ := hs.enabled h hname
    have hlaunch : m.launch = elementLaunch e := by
      rw [RunningModule.launch, hs.path, hs.params h (hparams ms hms e he),
        (hs.ifces h hg.goodDocs hd).2.mpr (hifces ms hms e he)]
      rfl
    refine ⟨hs.remove h, (hg.goodDocs.grammar _ hd).path_value, hlaunch, ?_, ?_⟩
    · rw [Supervisor.profileOf, hs.profile, hr.profiles, Option.bind_some, docProfiles,
        List.getElem?_map, hi]
      rfl
    · rw [MeantToRun, hon]
      cases hinit : m.initModule with
      | false => simp
      | true => simpa using (hrestart.mp hinit).1
  · obtain ⟨i, hd, -⟩ := mem_docModules hms he
    exact hr.exists_slot h hg hd
  · by_contra hnone
    have hother := hr.other h hg.goodDocs hm fun d hd hname => hnone ?_
    · rw [hother.2] at hkept
      cases hkept
    · obtain ⟨ms, hms, he⟩ := docModules_profile hd
      exact ⟨ms, List.mem_of_getElem? hms, d.2, he, hname.symm⟩
  · by_cases hlisted : ∃ d ∈ docModules root.xmlChildrenNode, moduleName d.2 = m.moduleName
    · obtain ⟨d, hd, hname⟩ := hlisted
      have hs := hslot d hd m hm hname.symm
      rw [(hs.enabled h hname.symm).1]
      rcases hwaits with hremove | hinit
      · rw [hs.remove h] at hremove
        cases hremove
      · simp [hinit]
    · exact (hr.other h hg.goodDocs hm fun d hd hname => hlisted ⟨d, hd, hname⟩).1

theorem Installed.congr {nodes : List XmlNode} (h : Installed nodes s)
    (hloaded : s'.loaded = s.loaded) (hprofiles : s'.profiles = s.profiles) :
    Installed nodes s' := by
  have hprofile : ∀ m, s'.profileOf m = s.profileOf m := fun m => by
    rw [Supervisor.profileOf, Supervisor.profileOf, hprofiles]
  refine ⟨fun ms hms e he m hm hname => ?_, ?_, ?_, ?_⟩
  · have hm' := h.element ms hms e he m (hloaded ▸ hm) hname
    exact ⟨hm'.kept, hm'.path, hm'.launch, (hprofile m).trans hm'.profile, hm'.meant⟩
  all_goals rw [hloaded]
  · exact h.loaded
  · exact h.only
  · exact h.waiting

/-- What the child of an installed slot executes. -/
theorem InstalledAs.executes {ms e : XmlNode} {m : RunningModule} (h : InstalledAs s ms e m)
    (htable : TableInv s) (hm : m ∈ s.loaded) (hname : m.moduleName = moduleName e)
    (hstart : Launchable e) : ∃ path args, childExec (elementSlot e) = some (path, args) ∧
      childValue "path" e.xmlChildrenNode = some path ∧ ArgumentsOf (elementSlot e) args := by
  have hslot := htable.slots m hm
  have hcnt := hslot.ifces.filled.length_ifces
  have hcoded : ∀ ifc ∈ m.ifces, Coded ifc :=
    fun ifc hifc => (hslot.valid ifc hifc).coded (hslot.ifces.codes ifc hifc)
  have hparams : m.moduleParams = childValue "params" e.xmlChildrenNode :=
    congrArg Launch.params h.launch
  have hifces : m.ifces = docInterfaces e := congrArg Launch.ifces h.launch
  have hexpressible : Expressible m := by
    refine ⟨?_, fun ifc hifc => (hstart.ifces ifc (hifces ▸ hifc)).1⟩
    rw [hparams]
    exact hstart.params
  obtain ⟨path, hpath⟩ := h.path
  obtain ⟨args, hargs⟩ := exists_prepModuleArgs hcnt hcoded fun ifc hifc =>
    (hstart.ifces ifc (hifces ▸ hifc)).2
  have hexec : childExec m = some (path, args) := by
    have hmodule : m.modulePath = some path := (congrArg Launch.path h.launch).trans hpath
    rw [childExec, hmodule, hargs]
    rfl
  rw [childExec_slot hcnt, h.launch, hname] at hexec
  refine ⟨path, args, hexec, hpath, ?_⟩
  obtain ⟨params, specifier, hparsed, heq, hspecifier⟩ := hexpressible.arguments hcnt hcoded hargs
  rw [hparams] at hparsed
  rw [hname] at heq
  rw [hifces] at hspecifier
  refine ⟨params, specifier, hparsed, heq, ?_⟩
  rw [elementSlot, Launch.slot_ifces]
  exact hspecifier

end installed

/-! ## What a cooperative run leaves alone -/

theorem SlotChange.meant {s : Supervisor} {k k' : Kernel} {m m' : RunningModule}
    (h : SlotChange s k m m' k') (hmeant : MeantToRun m') : MeantToRun m := by
  rcases hmeant with henabled | hinit
  · cases h with
    | tick => exact .inl ((tickRestartTimer_kept m).2.1 ▸ henabled)
    | limit => cases henabled
    | startFailed hs | started hs => exact .inl hs.enabled
    | reenabled _ hpending => exact .inr hpending
    | _ => exact .inl henabled
  · exact .inr (h.initModule hinit)

/-- The module of this name keeps its configuration, and stays off when it is not meant to
run. -/
structure StaysAs (m1 : RunningModule) (profiles : List ModulesProfile) (w : World) : Prop where
  profiles : w.sup.profiles = profiles
  config : Named m1.moduleName (fun m => m.config = m1.config) w
  off : ¬ MeantToRun m1 → Named m1.moduleName (fun m => ¬ MeantToRun m) w

section along

variable {m1 : RunningModule} {profiles : List ModulesProfile} {w w' : World}

theorem StaysAs.change (h : StaysAs m1 profiles w) (hc : Change w w') : StaysAs m1 profiles w' := by
  cases hc with
  | outside | exited => exact ⟨h.profiles, h.config, h.off⟩
  | @slot x m m' k hx hs =>
    have hm := List.mem_of_getElem? hx
    refine ⟨h.profiles, fun m0 hm0 hname => ?_, fun hoff m0 hm0 hname => ?_⟩
    · rcases mem_setModule hm0 with rfl | hm0
      · exact hs.config.trans (h.config m hm (hs.name.symm.trans hname))
      · exact h.config m0 hm0 hname
    · rcases mem_setModule hm0 with rfl | hm0
      · exact fun hmeant => h.off hoff m hm (hs.name.symm.trans hname) (hs.meant hmeant)
      · exact h.off hoff m0 hm0 hname
  | @freed x =>
    exact ⟨(freed_profiles w.sup x).1.trans h.profiles, fun m hm => h.config m (mem_freed hm),
      fun hoff m hm => h.off hoff m (mem_freed hm)⟩

theorem Cooperative.invariant {I : World → Prop} (hchange : ∀ w w', I w → Change w w' → I w')
    {as : List Action} (h : I w) (has : Run.Along step Cooperative w as) :
    I (Run.run step w as) := by
  refine Run.along_invariant (C := Cooperative) (fun w a hw ha => ?_) h has
  cases a with
  | cycle turns => exact Loop.reaches_invariant hchange (serviceCycle_reaches turns w) hw
  | move mv => exact hchange _ _ hw (.outside (.move mv))
  | _ => exact absurd ha id

theorem staysAs_start (h : TableInv w.sup) (hm : m1 ∈ w.sup.loaded) :
    StaysAs m1 w.sup.profiles w := by
  refine ⟨rfl, fun m hm' hname => ?_, fun hoff m hm' hname => ?_⟩
  · rw [h.named hm hm' hname]
  · rwa [h.named hm hm' hname]

end along

/-! ## The processes of a converged table -/

/-- Every module that is enabled has restarts left or runs. -/
def RestartsLeft (w : World) : Prop :=
  ∀ m ∈ w.sup.loaded, m.moduleEnabled = true →
    m.moduleRestartCnt < w.sup.maxRestarts m ∨ m.moduleStatus = true ∧ Live w m

section converged

variable {launched : Process → Launch} {nodes : List XmlNode} {w w' : World}

/-- The process of a module that runs is the only one with its name. -/
theorem ProcessInv.owner_eq (h : ProcessInv w) {p : Process} (hp : p ∈ w.kernel.procs)
    {m : RunningModule} (hm : m ∈ w.sup.loaded) (hpid : p.pid = m.modulePid) :
    p.owner = m.moduleName := by
  obtain ⟨m', hm', hpid', hname⟩ := h.owned p hp
  obtain ⟨x, hx⟩ := List.mem_iff_getElem?.mp hm
  obtain ⟨y, hy⟩ := List.mem_iff_getElem?.mp hm'
  have hpos := h.positive p hp
  have hxy := h.distinct x y m m' hx hy (by omega) (hpid.symm.trans hpid'.symm)
  rw [hxy, hy, Option.some.injEq] at hx
  rw [← hname, hx]

theorem ParentInv.owners_nodup (h : ParentInv w) : (w.kernel.procs.map Process.owner).Nodup := by
  refine List.Nodup.map_on (fun p hp q hq howner => ?_) (h.unique.of_map _)
  obtain ⟨m, hm, hpid, hname⟩ := h.processes.owned p hp
  obtain ⟨m', hm', hpid', hname'⟩ := h.processes.owned q hq
  have hsame := h.processes.table.named hm hm' (hname'.trans (howner.symm.trans hname.symm))
  subst hsame
  exact List.inj_on_of_nodup_map h.unique hp hq (hpid.symm.trans hpid')

/-- The process of a module that runs is alive and was started as the table says. -/
theorem RestartInv.started (h : RestartInv (fun p => some (launched p)) w) (hparents : ParentInv w)
    {m : RunningModule} (hm : m ∈ w.sup.loaded) (henabled : m.moduleEnabled = true)
    (hmarks : m.removeModule = false ∧ m.initModule = false) (hlive : Live w m) {p : Process}
    (hp : p ∈ w.kernel.procs) (hpid : p.pid = m.modulePid) :
    p.zombie = false ∧ launched p = m.launch := by
  obtain ⟨-, q, hq, hqpid, halive⟩ := hlive
  have hsame := List.inj_on_of_nodup_map hparents.unique hp hq (hpid.trans hqpid.symm)
  subst hsame
  refine ⟨halive, ?_⟩
  rcases h.carried m hm _ ⟨p, hp, halive, hpid, rfl⟩ with hcurrent | ⟨-, hoff | hoff | hoff⟩
  · exact hcurrent
  · rw [henabled] at hoff
    cases hoff
  · rw [hmarks.2] at hoff
    cases hoff
  · rw [hmarks.1] at hoff
    cases hoff

theorem StaysAs.launch {m1 m : RunningModule} {profiles : List ModulesProfile}
    (h : StaysAs m1 profiles w) (hm : m ∈ w.sup.loaded) (hname : m.moduleName = m1.moduleName) :
    m.launch = m1.launch :=
  field_of_config RunningModule.launch (fun _ => rfl) (h.config m hm hname)

theorem StaysAs.profileOf {m1 m : RunningModule} {s : Supervisor} (h : StaysAs m1 s.profiles w)
    (hm : m ∈ w.sup.loaded) (hname : m.moduleName = m1.moduleName) :
    w.sup.profileOf m = s.profileOf m1 := by
  rw [Supervisor.profileOf, Supervisor.profileOf, h.profiles,
    field_of_config RunningModule.modulesProfile (fun _ => rfl) (h.config m hm hname)]

theorem InstalledAs.destined {ms e : XmlNode} {m : RunningModule} (h : InstalledAs w.sup ms e m)
    (hleft : RestartsLeft w) (hm : m ∈ w.sup.loaded) (hprofile : moduleElemEnabled ms = true)
    (helem : moduleElemEnabled e = true) : Destined w.sup m ∨ Runs w m := by
  have hon : w.sup.profileEnabled m = true := by
    rw [Supervisor.profileEnabled, h.profile]
    exact hprofile
  rcases h.meant.mpr helem with henabled | hinit
  · rcases hleft m hm henabled with hcnt | ⟨hstatus, hlive⟩
    · exact .inl ⟨h.kept, hon, .inl ⟨henabled, hcnt⟩⟩
    · exact .inr ⟨h.kept, ⟨henabled, hon⟩, hstatus, hlive⟩
  · exact .inl ⟨h.kept, hon, .inr hinit⟩

/-- What a cooperative run with enough cycles has made of an installed table. -/
structure Arrived (launched : Process → Launch) (nodes : List XmlNode) (w w' : World) : Prop where
  installed : Installed nodes w.sup
  launchable : ∀ e, Wanted nodes e → Launchable e
  table : TableInv w.sup
  converged : Converged w'
  restart : RestartInv (fun p => some (launched p)) w'
  parents : ParentInv w'
  names : stayingNames w'.sup = stayingNames w.sup
  stays : ∀ m ∈ w.sup.loaded, StaysAs m w.sup.profiles w'
  meant : ∀ m ∈ w.sup.loaded, Destined w.sup m ∨ Runs w m →
    Named m.moduleName (Destined w'.sup) w' ∨ Named m.moduleName (Runs w') w'

/-- Every module that is left was installed for an element. -/
theorem Arrived.element (h : Arrived launched nodes w w') {m' : RunningModule}
    (hm' : m' ∈ w'.sup.loaded) : ∃ ms ∈ modulesElems nodes, ∃ e ∈ moduleElems ms,
      ∃ m ∈ w.sup.loaded, InstalledAs w.sup ms e m ∧ m.moduleName = moduleName e ∧
        m'.moduleName = m.moduleName := by
  have hlisted : m'.moduleName ∈ stayingNames w.sup := by
    rw [← h.names]
    exact List.mem_map_of_mem (List.mem_filter.mpr
      ⟨hm', by simp [(h.converged.unmarked m' hm').1]⟩)
  obtain ⟨m, hm, hname⟩ := List.mem_map.mp hlisted
  obtain ⟨hm, hkept⟩ := List.mem_filter.mp hm
  obtain ⟨ms, hms, e, he, hnamed⟩ := h.installed.only m hm (by simpa using hkept)
  exact ⟨ms, hms, e, he, m, hm, h.installed.element ms hms e he m hm hnamed, hnamed, hname.symm⟩

/-- The process of a module that runs executes what the element of the module says. -/
theorem Arrived.runsAs (h : Arrived launched nodes w w') {ms e : XmlNode} {m m' : RunningModule}
    (hm : m ∈ w.sup.loaded) (helement : InstalledAs w.sup ms e m)
    (hname : m.moduleName = moduleName e) (hstart : Launchable e) (hm' : m' ∈ w'.sup.loaded)
    (hname' : m'.moduleName = m.moduleName) (henabled : m'.moduleEnabled = true)
    (hlive : Live w' m') {p : Process} (hp : p ∈ w'.kernel.procs) (hpid : p.pid = m'.modulePid) :
    RunsAs launched p e := by
  obtain ⟨halive, hlaunched⟩ := h.restart.started h.parents hm' henabled
    (h.converged.unmarked m' hm') hlive hp hpid
  have howner : p.owner = moduleName e :=
    (h.parents.processes.owner_eq hp hm' hpid).trans (hname'.trans hname)
  have hexec := helement.executes h.table hm hname hstart
  refine ⟨howner, halive, ?_⟩
  rw [hlaunched, (h.stays m hm).launch hm' hname', helement.launch, howner]
  exact hexec

theorem Arrived.running (h : Arrived launched nodes w w') (hleft : RestartsLeft w) {e : XmlNode}
    (hwanted : Wanted nodes e) : ∃ p ∈ w'.kernel.procs, RunsAs launched p e := by
  obtain ⟨ms, hms, he, hprofile, helem⟩ := id hwanted
  obtain ⟨m, hm, hname⟩ := h.installed.loaded ms hms e he
  have helement := h.installed.element ms hms e he m hm hname
  have hlisted : m.moduleName ∈ stayingNames w.sup :=
    List.mem_map_of_mem (List.mem_filter.mpr ⟨hm, by simp [helement.kept]⟩)
  rw [← h.names] at hlisted
  obtain ⟨m', hm', hname'⟩ := List.mem_map.mp hlisted
  have hm' := List.mem_of_mem_filter hm'
  obtain ⟨henabled, hlive⟩ : m'.moduleEnabled = true ∧ Live w' m' := by
    rcases h.meant m hm (helement.destined hleft hm hprofile helem) with hdestined | hrun
    · have hd := hdestined m' hm' hname'
      have henabled := (hd.meant.imp And.left id).resolve_right fun hinit => by
        rw [(h.converged.unmarked m' hm').2] at hinit
        cases hinit
      exact ⟨henabled, (h.converged.running m' hm' ⟨henabled, hd.profile⟩).2⟩
    · exact ⟨(hrun m' hm' hname').toRun.1, (hrun m' hm' hname').live⟩
  obtain ⟨-, p, hp, hpid, -⟩ := id hlive
  exact ⟨p, hp,
    h.runsAs hm helement hname (h.launchable e hwanted) hm' hname' henabled hlive hp hpid⟩

theorem Arrived.only (h : Arrived launched nodes w w') {p : Process} (hp : p ∈ w'.kernel.procs) :
    ∃ e, Wanted nodes e ∧ RunsAs launched p e := by
  obtain ⟨m', hm', hpid, -⟩ := h.parents.processes.owned p hp
  obtain ⟨ms, hms, e, he, m, hm, helement, hname, hname'⟩ := h.element hm'
  have hprofile : w'.sup.profileOf m' = some (profileOfElem ms) :=
    ((h.stays m hm).profileOf hm' hname').trans helement.profile
  have hrun : ¬ ToStop m' (w'.sup.profileOf m') :=
    fun hstop => h.converged.stopped m' hm' hstop p hp hpid.symm
  rw [hprofile, ToStop, not_or, Bool.not_eq_false] at hrun
  obtain ⟨henabled, hon⟩ := hrun
  have hon : moduleElemEnabled ms = true := by
    simpa [profileOfElem] using hon
  have helem : moduleElemEnabled e = true := by
    by_contra hoff
    exact (h.stays m hm).off (fun hmeant => hoff (helement.meant.mp hmeant)) m' hm' hname'
      (.inl henabled)
  have hwanted : Wanted nodes e := ⟨ms, hms, he, hon, helem⟩
  have hlive := (h.converged.running m' hm' ⟨henabled, by rw [hprofile]; exact hon⟩).2
  exact ⟨e, hwanted,
    h.runsAs hm helement hname (h.launchable e hwanted) hm' hname' henabled hlive hp hpid.symm⟩

/-- What is installed is deployed by a cooperative run with enough cycles. -/
theorem Installed.deployed (h : Installed nodes w.sup) (hw : Supervised w)
    (hstart : ∀ e, Wanted nodes e → Launchable e) (hv : LaunchView fun p => some (launched p))
    (hrestart : RestartInv (fun p => some (launched p)) w) (hleft : RestartsLeft w) {j : Nat}
    (hj : awaitingRemoval w.sup < 2 ^ j) {as : List Action}
    (has : Run.Along step Cooperative w as) (hcycles : 3 + j ≤ as.countP Action.isCycle) :
    Deployed launched nodes (Run.run step w as) := by
  have hsane := hw.sane h.waiting
  have htable := hsane.signals.table
  have hend := hw.converging h.waiting hj has
  have harrived : Arrived launched nodes w (Run.run step w as) :=
    { installed := h
      launchable := hstart
      table := htable
      converged := hend.converged hcycles
      restart := Cooperative.invariant (fun _ _ hi hc => hi.change hv hc) hrestart has
      parents := hend.sane.parents
      names := hend.names
      stays := fun m hm =>
        Cooperative.invariant (fun _ _ hi hc => hi.change hc) (staysAs_start htable hm) has
      meant := fun m hm hmeant => hsane.destined_along has hm hmeant }
  exact ⟨fun e hwanted => harrived.running hleft hwanted, fun p hp => harrived.only hp,
    harrived.parents.owners_nodup⟩

end converged

/-! ## From the start, and from any state -/

theorem boot_installed (alive : List Int) {root : XmlNode} (hg : Grammar root) :
    Installed root.xmlChildrenNode (boot alive (some root)).sup := by
  have hr := (reloadConfiguration_accepted TableInv.init hg .initLoadConfig).2
  have hnone : ∀ {P : RunningModule → Prop}, ∀ m ∈ Supervisor.init.loaded, P m := fun m hm => by
    rw [init_loaded] at hm
    cases hm
  exact (hr.installed TableInv.init hg (fun _ _ _ _ _ => hnone) fun _ _ _ _ _ _ => hnone).congr
    rfl rfl

theorem boot_restartsLeft (alive : List Int) (rootNode : Option XmlNode) :
    RestartsLeft (boot alive rootNode) := by
  intro m hm henabled
  have hcnt : m.moduleRestartCnt = -1 := (initialTable_slot rootNode hm).restarting henabled
  have hpositive := (boot_tableInv alive rootNode).maxRestarts_nonneg m
  exact .inl (by omega)

theorem boot_awaitingRemoval (alive : List Int) (rootNode : Option XmlNode) :
    awaitingRemoval (boot alive rootNode).sup = 0 :=
  List.countP_eq_zero.mpr fun m hm => by simp [(initialTable_slot rootNode hm).remove]

theorem launchView_startedWith (s : Supervisor) : LaunchView fun p => some (startedWith s p) := by
  refine ⟨fun p l hl => ?_, fun p q howner hlaunch => ?_⟩
  · rw [startedWith, hl, Option.getD_some]
  · rw [startedWith, startedWith, howner, hlaunch]

/-- What is adopted counts as started as the table says. -/
theorem boot_startedWith (alive : List Int) {rootNode : Option XmlNode}
    (hload : InitialLoad rootNode) : RestartInv (fun p => some (startedWith
      (boot alive rootNode).sup p)) (boot alive rootNode) := by
  have hprocesses := boot_processInv alive rootNode hload.distinctPids
  refine ⟨hprocesses.table, hprocesses.positive, fun m hm l ⟨p, hp, _, hpid, hl⟩ => .inl ?_⟩
  have howner : p.owner = m.moduleName := hprocesses.owner_eq hp hm hpid
  rw [Option.some.injEq, startedWith, (boot_adopted hp).2, Option.getD_none] at hl
  cases hfound : (boot alive rootNode).sup.loaded.find? fun m => m.moduleName == p.owner with
  | none => exact absurd (List.find?_eq_none.mp hfound m hm) (by simp [howner])
  | some m1 =>
    have hname : m1.moduleName = m.moduleName := by
      rw [← howner]
      simpa using List.find?_some hfound
    rw [hfound, hprocesses.table.named hm (List.mem_of_find?_eq_some hfound) hname] at hl
    exact hl.symm

/-- A supervisor that is started with an accepted document, whose modules can be started, runs
what the document asks for, and nothing else, after three cycles in a world that cooperates. -/
theorem deployed_start (alive : List Int) {root : XmlNode} (hload : InitialLoad (some root))
    (hv : validateConfiguration (some root) = .ok ())
    (hstart : ∀ e, Wanted root.xmlChildrenNode e → Launchable e) {as : List Action}
    (has : Run.Along step Cooperative (boot alive (some root)) as)
    (hcycles : 3 ≤ as.countP Action.isCycle) :
    Deployed (startedWith (boot alive (some root)).sup) root.xmlChildrenNode
      (Run.run step (boot alive (some root)) as) := by
  obtain ⟨_, heq, hg⟩ := validateConfiguration_eq_ok.mp hv
  cases heq
  refine (boot_installed alive hg).deployed ⟨alive, some root, [], hload, rfl⟩ hstart
    (launchView_startedWith _) (boot_startedWith alive hload) (boot_restartsLeft alive (some root))
    (j := 0) ?_ has hcycles
  rw [boot_awaitingRemoval]
  exact Nat.one_pos

/-- One of two modules is enabled. -/
theorem deployed_start_two :
    let root := profileDocument
      [moduleElement "a" "/a" "true" [.textElement "params" "-v 'a b'",
        .element "trapinterfaces" []
          [interfaceElement "UNIXSOCKET" "OUT" [.textElement "params" "sock"]]],
       moduleElement "b" "/b" "false" []]
    Deployed (startedWith (boot [] (some root)).sup) root.xmlChildrenNode
      (Run.run step (boot [] (some root))
        [.cycle [{ Turn.idle with forkPid := 100 }], .cycle [], .cycle []]) := by
  intro root
  have hsays : ∀ ms ∈ modulesElems root.xmlChildrenNode, ∀ e ∈ moduleElems ms,
      moduleElemEnabled e = true → childValue "params" e.xmlChildrenNode = some "-v 'a b'" ∧
        ∀ ifc ∈ docInterfaces e, ifc = ⟨none, some "UNIXSOCKET", some "sock", some "OUT", 2, 2⟩ := by
    decide
  have hstart : ∀ e, Wanted root.xmlChildrenNode e → Launchable e := by
    rintro e ⟨ms, hms, he, -, henabled⟩
    obtain ⟨hparams, hifces⟩ := hsays ms hms e he henabled
    refine ⟨⟨["-v", "a b"], ?_⟩, fun ifc hifc => ?_⟩
    · rw [hparams]
      exact parseModuleParams_eq_some.mp (by decide)
    · rw [hifces ifc hifc]
      exact ⟨⟨by simp, "sock", rfl, by decide⟩, by simp⟩
  refine deployed_start [] (.template (by decide)) (by decide) hstart ⟨?_, ?_, ?_, trivial⟩
    (by decide)
  · exact .calm (by decide) (by decide +kernel)
  · exact .calm (by decide) (by decide +kernel)
  · exact .calm (by decide) (by decide +kernel)

/-- So does a supervisor that reloads the document in any state in which no restart was lost.
The document must not leave out parameters, nor lose interfaces to the comparison, and no
module that it enables may have used up its restarts. -/
theorem deployed_reload {alive : List Int} {rootNode : Option XmlNode}
    (hload : InitialLoad rootNode) {as : List Action} {a : Action} :
    let launched := startedWith (boot alive rootNode).sup
    Run.Along step (StepKeepsRestarts fun p => some (launched p)) (boot alive rootNode)
      (as ++ [a]) → ∀ {root : XmlNode}, a.reloadRoot = some root →
    validateConfiguration (some root) = .ok () →
    (∀ e, Wanted root.xmlChildrenNode e → Launchable e) →
    let w := Run.run step (boot alive rootNode) as
    w.serviceExited = false → ParamsStay w.sup root.xmlChildrenNode →
      ComparisonsSucceed w.sup root.xmlChildrenNode → RestartsLeft (step w a) →
      ∀ {j : Nat} {bs : List Action}, awaitingRemoval (step w a).sup < 2 ^ j →
        Run.Along step Cooperative (step w a) bs → 3 + j ≤ bs.countP Action.isCycle →
          Deployed launched root.xmlChildrenNode (Run.run step (step w a) bs) := by
  intro launched has root ha hv hstart w hlive hparams hifces hleft j bs hj hbs hcycles
  obtain ⟨_, heq, hg⟩ := validateConfiguration_eq_ok.mp hv
  cases heq
  have htable : TableInv w.sup := reachable_tableInv ⟨alive, rootNode, as, rfl⟩
  have hconcat : Run.run step (boot alive rootNode) (as ++ [a]) = step w a :=
    Run.run_concat step _ as a
  have hview : LaunchView fun p => some (launched p) := launchView_startedWith _
  have hrestart : RestartInv (fun p => some (launched p)) (step w a) :=
    hconcat ▸ Run.along_invariant (step_restartInv hview) (boot_startedWith alive hload) has
  have hinstalled : Installed root.xmlChildrenNode (step w a).sup := by
    obtain ⟨choice, hstep⟩ := reload_step hlive ha
    rw [hstep]
    exact (reloadConfiguration_accepted htable hg choice).2.installed htable hg hparams hifces
  exact hinstalled.deployed ⟨alive, rootNode, as ++ [a], hload, hconcat.symm⟩ hstart hview hrestart
    hleft hj hbs hcycles

/-- Two modules run. -/
def bothEnabled : XmlNode :=
  profileDocument [moduleElement "a" "/a" "true" [], moduleElement "b" "/b" "true" []]

def bothStarted : Action :=
  .cycle [{ Turn.idle with forkPid := 100 }, { Turn.idle with forkPid := 101 }]

/-- The reload drops the first and changes the second. -/
theorem deployed_reload_droppedAndChanged :
    let root := profileDocument [moduleElement "b" "/changed" "true" []]
    Deployed (startedWith (boot [] (some bothEnabled)).sup) root.xmlChildrenNode (Run.run step
      (step (Run.run step (boot [] (some bothEnabled)) [bothStarted]) (.reloadTemplate (some root)))
      [.cycle [], .move (.exits 100), .move (.exits 101), .cycle [], .cycle [],
        .cycle [{ Turn.idle with forkPid := 102 }]]) := by
  intro root
  have hrunning : ∀ m ∈ (Run.run step (boot [] (some bothEnabled)) [bothStarted]).sup.loaded,
      m.moduleRunning = true := by decide +kernel
  have hnone : ∀ ms ∈ modulesElems root.xmlChildrenNode, ∀ e ∈ moduleElems ms,
      childValue "params" e.xmlChildrenNode = none ∧ trapElem e = none := by decide
  have hstart : ∀ e, Wanted root.xmlChildrenNode e → Launchable e := by
    rintro e ⟨ms, hms, he, -, -⟩
    obtain ⟨hparams, htrap⟩ := hnone ms hms e he
    refine ⟨⟨[], hparams ▸ rfl⟩, fun ifc hifc => ?_⟩
    rw [docInterfaces, htrap] at hifc
    cases hifc
  refine @deployed_reload [] (some bothEnabled) (.template (by decide)) [bothStarted] _
    ⟨⟨?_, ?_⟩, ⟨?_, ?_⟩, trivial⟩ root rfl (by decide) hstart rfl
    (by unfold ParamsStay; decide +kernel) (fun ms hms e he t ht => ?_)
    (by unfold RestartsLeft Live; decide +kernel) 1 _
    (by decide +kernel) ⟨?_, ?_, ?_, ?_, ?_, ?_, trivial⟩ (by decide)
  · exact fun _ hr => absurd hr (by simp [Action.reloadRoot, bothStarted])
  · exact fun _ ha => absurd ha (by simp [bothStarted])
  · intro r hr _ m hm _ _ _ hfalse
    rw [hrunning m hm] at hfalse
    cases hfalse
  · exact fun _ ha => absurd ha (by simp)
  · rw [(hnone ms hms e he).2] at ht
    cases ht
  · exact .calm (by decide) (by decide +kernel)
  · exact fun pid he => he ▸ by unfold MayEnd ToStop; decide +kernel
  · exact fun pid he => he ▸ by unfold MayEnd ToStop; decide +kernel
  · exact .calm (by decide) (by decide +kernel)
  · exact .calm (by decide) (by decide +kernel)
  · exact .calm (by decide) (by decide +kernel)

end NemeaSupervisor
