import NemeaSupervisor.Backup
import NemeaSupervisor.DocumentLimits

/-!
# Restoring a backup

The initial load of a backup file that holds every string as it was gives back the
profiles and, for every module that had one, its name, path, parameters, interfaces
and profile. It never gives back a limit, since the file holds none, and it fails as
a whole when an interface without any string has been written as an empty element.
-/

namespace NemeaSupervisor

open XmlNode

/-- The modules in the order of the backup file. -/
def backupOrder (s : Supervisor) : List RunningModule := s.profiles.flatMap (profileModules s)

theorem mem_profileModules {s : Supervisor} (h : TableInv s) {profile : ModulesProfile}
    (hp : profile ∈ s.profiles) {m : RunningModule} :
    m ∈ profileModules s profile ↔ m ∈ s.loaded ∧ s.profileOf m = some profile := by
  rw [profileModules, List.mem_filter]
  refine and_congr_right fun _ => ?_
  cases hm : s.profileOf m with
  | none => simp
  | some p =>
    obtain ⟨i, -, hi⟩ := Option.bind_eq_some_iff.mp hm
    simp only [Option.any_some, beq_iff_eq, Option.some.injEq]
    exact ⟨fun hname => List.inj_on_of_nodup_map h.profileNames (List.mem_of_getElem? hi) hp hname,
      fun heq => by rw [heq]⟩

theorem mem_backupOrder {s : Supervisor} (h : TableInv s) {m : RunningModule} :
    m ∈ backupOrder s ↔ m ∈ s.loaded ∧ ∃ p, s.profileOf m = some p := by
  rw [backupOrder, List.mem_flatMap]
  constructor
  · rintro ⟨p, hp, hm⟩
    obtain ⟨hmem, hprofile⟩ := (mem_profileModules h hp).mp hm
    exact ⟨hmem, p, hprofile⟩
  · rintro ⟨hmem, p, hprofile⟩
    obtain ⟨i, -, hi⟩ := Option.bind_eq_some_iff.mp hprofile
    have hp := List.mem_of_getElem? hi
    exact ⟨p, hp, (mem_profileModules h hp).mpr ⟨hmem, hprofile⟩⟩

/-- Every module is written once. -/
theorem backupOrder_nodup {s : Supervisor} (h : TableInv s) :
    ((backupOrder s).map RunningModule.moduleName).Nodup := by
  rw [backupOrder, List.map_flatMap, List.nodup_flatMap]
  constructor
  · intro p hp
    exact h.distinct.sublist (List.Sublist.map _ List.filter_sublist)
  · have hnames := List.pairwise_map.mp h.profileNames
    refine hnames.imp_of_mem fun {p p'} hp hp' hne => ?_
    intro name hname hname'
    obtain ⟨m, hm, rfl⟩ := List.mem_map.mp hname
    obtain ⟨m', hm', hsame⟩ := List.mem_map.mp hname'
    obtain ⟨hmem, hprofile⟩ := (mem_profileModules h hp).mp hm
    obtain ⟨hmem', hprofile'⟩ := (mem_profileModules h hp').mp hm'
    have heq := List.inj_on_of_nodup_map h.distinct hmem' hmem hsame
    rw [heq, hprofile, Option.some.injEq] at hprofile'
    exact hne (congrArg ModulesProfile.profileName hprofile')

/-! ## The document of the backup -/

/-- The module is in the file. -/
def Written (s : Supervisor) (m : RunningModule) : Prop :=
  m ∈ s.loaded ∧ ∃ p, s.profileOf m = some p

/-- There is a profile, the names come back as distinct strings, and the modules are accepted. -/
structure BackupAccepted (lib : Libxml2) (s : Supervisor) : Prop where
  nonempty : s.profiles ≠ []
  profiles : ∀ p ∈ s.profiles, lib.reread (some p.profileName) ≠ none
  profileNames : ∀ p ∈ s.profiles, ∀ p' ∈ s.profiles,
    lib.reread (some p.profileName) = lib.reread (some p'.profileName) → p = p'
  modules : ∀ m, Written s m → ModuleAccepted lib m
  moduleNames : ∀ m m', Written s m → Written s m' →
    lib.reread m.moduleName = lib.reread m'.moduleName → m = m'

section
variable {lib : Libxml2}

theorem modulesChildren_not_isSkipped (s : Supervisor) (profile : ModulesProfile) :
    ∀ c ∈ textChildren lib (profileTexts profile) ++
      (profileModules s profile).map (backupModule lib), c.isSkipped = false := by
  intro c hc
  rcases List.mem_append.mp hc with hc | hc
  · exact textChildren_not_isSkipped c hc
  · obtain ⟨m, -, rfl⟩ := List.mem_map.mp hc
    rfl

theorem rootChildren_not_isSkipped (s : Supervisor) :
    ∀ c ∈ s.profiles.map (backupModules lib s), c.isSkipped = false := by
  intro c hc
  obtain ⟨p, -, rfl⟩ := List.mem_map.mp hc
  rfl

variable (hf : Formats lib)
include hf

theorem backupModules_text (s : Supervisor) (profile : ModulesProfile) {tag : String}
    {o : Option String} (ht : tag ≠ "module") (h : (tag, o) ∈ profileTexts profile) :
    childValue tag (backupModules lib s profile).xmlChildrenNode = lib.reread o := by
  have hmodules : ((profileModules s profile).map (backupModule lib)).find?
      (elementNamed tag) = none := by
    rw [List.find?_eq_none]
    intro c hc
    obtain ⟨m, -, rfl⟩ := List.mem_map.mp hc
    simp [backupModule, elementNamed, ht.symm]
  refine (hf.childValue (modulesChildren_not_isSkipped s profile) tag).trans ?_
  rw [childValue, List.find?_append, hmodules, Option.or_none]
  exact childValue_textChildren (by simp [profileTexts]) h

theorem backupModules_name (s : Supervisor) (profile : ModulesProfile) :
    moduleName (backupModules lib s profile) = lib.reread (some profile.profileName) :=
  backupModules_text hf s profile (by decide) (by simp [profileTexts])

theorem profileOfElem_backup (s : Supervisor) {profile : ModulesProfile}
    (hname : lib.reread (some profile.profileName) = some profile.profileName) :
    profileOfElem (backupModules lib s profile) = profile := by
  have henabled : childValue "enabled" (backupModules lib s profile).xmlChildrenNode =
      some (enabledText profile.profileEnabled) :=
    (backupModules_text hf s profile (by decide) (by simp [profileTexts])).trans
      (hf.reread_enabledText profile.profileEnabled)
  have htext : (some (enabledText profile.profileEnabled) == some "true") =
      profile.profileEnabled := by
    cases profile.profileEnabled <;> decide
  rw [profileOfElem, backupModules_name hf, hname, moduleElemEnabled, henabled, htext]
  rfl

theorem moduleElems_backup (s : Supervisor) (profile : ModulesProfile) :
    moduleElems (backupModules lib s profile) =
      (profileModules s profile).map (backupModule lib) := by
  refine (hf.filter (modulesChildren_not_isSkipped s profile) "module").trans ?_
  have htexts : (textChildren lib (profileTexts profile)).filter (elementNamed "module") = [] := by
    have hnone : (textChildren lib (profileTexts profile)).find? (elementNamed "module") = none :=
      find?_textChildren_none (by simp [profileTexts])
    exact List.filter_eq_nil_iff.mpr fun c hc => List.find?_eq_none.mp hnone c hc
  rw [List.filter_append, htexts, List.nil_append, List.filter_eq_self]
  intro c hc
  obtain ⟨m, -, rfl⟩ := List.mem_map.mp hc
  rfl

theorem modulesElems_backup (s : Supervisor) :
    modulesElems (generateBackupConfigFile lib s).xmlChildrenNode =
      s.profiles.map (backupModules lib s) := by
  refine (hf.filter (rootChildren_not_isSkipped s) "modules").trans ?_
  rw [List.filter_eq_self]
  intro c hc
  obtain ⟨p, -, rfl⟩ := List.mem_map.mp hc
  rfl

theorem docProfiles_backup {s : Supervisor}
    (hnames : ∀ p ∈ s.profiles, lib.reread (some p.profileName) = some p.profileName) :
    docProfiles (generateBackupConfigFile lib s).xmlChildrenNode = s.profiles := by
  rw [docProfiles, modulesElems_backup hf, List.map_map]
  exact (List.map_congr_left fun p hp => profileOfElem_backup hf s (hnames p hp)).trans
    (List.map_id _)

/-- The backup has no supervisor element. -/
theorem find?_supervisor_backup (s : Supervisor) :
    (generateBackupConfigFile lib s).xmlChildrenNode.find? (elementNamed "supervisor") =
      none := by
  refine (hf.find? (rootChildren_not_isSkipped s) "supervisor").trans ?_
  rw [List.find?_eq_none]
  intro c hc
  obtain ⟨p, -, rfl⟩ := List.mem_map.mp hc
  simp [backupModules, elementNamed]

theorem docRestarts_backup (s : Supervisor) :
    docRestarts (generateBackupConfigFile lib s).xmlChildrenNode = none := by
  rw [docRestarts, find?_supervisor_backup hf]
  rfl

theorem elems_backup (s : Supervisor) :
    (modulesElems (generateBackupConfigFile lib s).xmlChildrenNode).flatMap moduleElems =
      (backupOrder s).map (backupModule lib) := by
  rw [modulesElems_backup hf, List.flatMap_map, backupOrder, List.map_flatMap]
  exact List.flatMap_congr fun p _ => moduleElems_backup hf s p

theorem modulesGrammar_backup {s : Supervisor} (h : TableInv s) {profile : ModulesProfile}
    (hp : profile ∈ s.profiles) (hname : lib.reread (some profile.profileName) ≠ none)
    (hmodules : ∀ m, Written s m → ModuleAccepted lib m) :
    ModulesGrammar (backupModules lib s profile) := by
  obtain ⟨name', hname'⟩ := Option.ne_none_iff_exists'.mp hname
  have hskip : ∀ c ∈ textChildren lib (profileTexts profile) ++
      (profileModules s profile).map (backupModule lib), c.isSkipped = false :=
    modulesChildren_not_isSkipped s profile
  constructor
  · refine hf.allowed hskip (allowed_append (modulesRules_distinct []) (allowed_textChildren
      (by simp [profileTexts]) fun name v hmem => ?_) (q := ⟨"module", false, checkAny⟩)
      (by simp [modulesRules]) (fun c hc => ?_) (by simp [profileTexts]) (fun ho => by simp at ho))
    · simp only [profileTexts, List.mem_cons, List.not_mem_nil, or_false, Prod.mk.injEq] at hmem
      rcases hmem with ⟨rfl, hv⟩ | ⟨rfl, hv⟩
      · rw [hv]
        exact ⟨⟨"name", true, checkUnique "profile" []⟩, by simp [modulesRules], rfl,
          checkUnique_eq_ok.mpr ⟨name', hname', List.not_mem_nil⟩⟩
      · rw [hv]
        exact ⟨⟨"enabled", true, checkEnabled⟩, by simp [modulesRules], rfl,
          checkEnabled_reread hf profile.profileEnabled⟩
    · obtain ⟨m, -, rfl⟩ := List.mem_map.mp hc
      exact ⟨rfl, rfl⟩
  · exact ⟨name', (backupModules_name hf s profile).trans hname'⟩
  · change 0 < (lib.indent 2 _).countP _
    rw [hf.countP hskip, List.countP_append]
    have : 0 < (textChildren lib (profileTexts profile)).countP (elementNamed "enabled") :=
      countP_textChildren_pos (v := enabledText profile.profileEnabled) (by simp [profileTexts])
    omega
  · intro e he
    rw [moduleElems_backup hf] at he
    obtain ⟨m, hm, rfl⟩ := List.mem_map.mp he
    obtain ⟨hmem, hprofile⟩ := (mem_profileModules h hp).mp hm
    exact (moduleGrammar_backup hf (h.slots m hmem)).mpr (hmodules m ⟨hmem, profile, hprofile⟩)

theorem mem_modulesElems_backup {s : Supervisor} {p : ModulesProfile} (hp : p ∈ s.profiles) :
    backupModules lib s p ∈ modulesElems (generateBackupConfigFile lib s).xmlChildrenNode := by
  rw [modulesElems_backup hf]
  exact List.mem_map.mpr ⟨p, hp, rfl⟩

theorem profileNames_backup (s : Supervisor) :
    profileNames (generateBackupConfigFile lib s).xmlChildrenNode =
      s.profiles.filterMap fun p => lib.reread (some p.profileName) := by
  rw [profileNames, modulesElems_backup hf, List.filterMap_map]
  exact List.filterMap_congr fun p _ => backupModules_name hf s p

theorem moduleNames_backup (s : Supervisor) :
    moduleNames (modulesElems (generateBackupConfigFile lib s).xmlChildrenNode) =
      (backupOrder s).filterMap fun m => lib.reread m.moduleName := by
  rw [moduleNames, elems_backup hf, List.filterMap_map]
  exact List.filterMap_congr fun m _ => backupModule_name hf m

omit hf in
/-- Names that come back are distinct when none of them comes back for two. -/
theorem nodup_reread {α : Type} {l : List α} (hl : l.Nodup) {name : α → Option String}
    (hsome : ∀ a ∈ l, name a ≠ none) :
    (l.filterMap name).Nodup ↔ ∀ a ∈ l, ∀ b ∈ l, name a = name b → a = b := by
  have hmap : (l.filterMap name).map some = l.map name :=
    filterMap_map_some fun a ha => Option.ne_none_iff_exists'.mp (hsome a ha)
  rw [← List.nodup_map_iff (Option.some_injective _), hmap, List.nodup_map_iff_inj_on hl]

theorem BackupAccepted.of_grammar {s : Supervisor} (h : TableInv s)
    (hg : Grammar (generateBackupConfigFile lib s)) : BackupAccepted lib s := by
  have hprofiles : ∀ p ∈ s.profiles, lib.reread (some p.profileName) ≠ none := by
    intro p hp
    obtain ⟨name, hname⟩ := (hg.modulesGrammar (mem_modulesElems_backup hf hp)).name
    rw [← backupModules_name hf s p]
    exact Option.ne_none_iff_exists'.mpr ⟨name, hname⟩
  have hmodules : ∀ m, Written s m → ModuleAccepted lib m := by
    rintro m ⟨hmem, p, hprofile⟩
    obtain ⟨i, -, hi⟩ := Option.bind_eq_some_iff.mp hprofile
    have hp := List.mem_of_getElem? hi
    refine (moduleGrammar_backup hf (h.slots m hmem)).mp
      ((hg.modulesGrammar (mem_modulesElems_backup hf hp)).modules _ ?_)
    rw [moduleElems_backup hf]
    exact List.mem_map.mpr ⟨m, (mem_profileModules h hp).mpr ⟨hmem, hprofile⟩, rfl⟩
  refine ⟨fun hnil => hg.nonempty ?_, hprofiles, ?_, hmodules, fun m m' hm hm' => ?_⟩
  · change lib.indent 1 (s.profiles.map _) = []
    rw [hnil, List.map_nil, hf.empty]
  · refine (nodup_reread (List.Nodup.of_map _ h.profileNames) hprofiles).mp ?_
    rw [← profileNames_backup hf]
    exact hg.profiles
  · refine (nodup_reread (List.Nodup.of_map _ (backupOrder_nodup h))
      fun m hm => (hmodules m ((mem_backupOrder h).mp hm)).name).mp ?_ m
      ((mem_backupOrder h).mpr hm) m' ((mem_backupOrder h).mpr hm')
    rw [← moduleNames_backup hf]
    exact hg.modules

theorem BackupAccepted.grammar {s : Supervisor} (h : TableInv s) (ha : BackupAccepted lib s) :
    Grammar (generateBackupConfigFile lib s) := by
  have hskip : ∀ c ∈ s.profiles.map (backupModules lib s), c.isSkipped = false :=
    rootChildren_not_isSkipped s
  constructor
  · simp [generateBackupConfigFile]
  · intro hnil
    have hempty := hf.elements 1 _ hskip
    change lib.indent 1 _ = [] at hnil
    rw [hnil, List.filter_nil, eq_comm, List.map_eq_nil_iff] at hempty
    exact ha.nonempty hempty
  · intro c hc
    rcases hf.mem hskip hc with hs | hc
    · exact .inl hs
    · obtain ⟨p, hp, rfl⟩ := List.mem_map.mp hc
      exact .inr (.inr ⟨rfl, modulesGrammar_backup hf h hp (ha.profiles p hp) ha.modules⟩)
  · rw [List.countP_eq_zero.mpr (List.find?_eq_none.mp (find?_supervisor_backup hf s))]
    exact Nat.zero_le 1
  · rw [profileNames_backup hf, nodup_reread (List.Nodup.of_map _ h.profileNames) ha.profiles]
    exact ha.profileNames
  · rw [moduleNames_backup hf, nodup_reread (List.Nodup.of_map _ (backupOrder_nodup h))
      fun m hm => (ha.modules m ((mem_backupOrder h).mp hm)).name]
    exact fun m hm m' hm' =>
      ha.moduleNames m m' ((mem_backupOrder h).mp hm) ((mem_backupOrder h).mp hm')

/-- Which documents are accepted. -/
theorem grammar_backup {s : Supervisor} (h : TableInv s) :
    Grammar (generateBackupConfigFile lib s) ↔ BackupAccepted lib s :=
  ⟨BackupAccepted.of_grammar hf h, BackupAccepted.grammar hf h⟩

/-- The elements of an accepted backup, in the order of the modules. -/
theorem docModules_backup {s : Supervisor} (h : TableInv s) (ha : BackupAccepted lib s) {k : Nat}
    {m : RunningModule} (hk : (backupOrder s)[k]? = some m) :
    ∃ i, (docModules (generateBackupConfigFile lib s).xmlChildrenNode)[k]? =
        some (i, backupModule lib m) ∧ s.profiles[i]? = s.profileOf m := by
  have hmap : ((docModules (generateBackupConfigFile lib s).xmlChildrenNode).map Prod.snd)[k]? =
      some (backupModule lib m) := by
    rw [docModules_names, elems_backup hf, List.getElem?_map, hk]
    rfl
  rw [List.getElem?_map, Option.map_eq_some_iff] at hmap
  obtain ⟨⟨i, e⟩, hd, rfl⟩ := hmap
  refine ⟨i, hd, ?_⟩
  obtain ⟨ms, hms, he⟩ := docModules_profile (List.mem_of_getElem? hd)
  rw [modulesElems_backup hf, List.getElem?_map, Option.map_eq_some_iff] at hms
  obtain ⟨p, hp, rfl⟩ := hms
  rw [moduleElems_backup hf] at he
  obtain ⟨m0, hm0, hsame⟩ := List.mem_map.mp he
  obtain ⟨hmem0, hprofile⟩ := (mem_profileModules h (List.mem_of_getElem? hp)).mp hm0
  have hname : lib.reread m0.moduleName = lib.reread m.moduleName := by
    rw [← backupModule_name hf m0, ← backupModule_name hf m]
    exact congrArg moduleName hsame
  have heq := ha.moduleNames m0 m ⟨hmem0, p, hprofile⟩
    ((mem_backupOrder h).mp (List.mem_of_getElem? hk)) hname
  subst heq
  rw [hp, hprofile]

end

/-! ## The round trip -/

/-- Every string comes back as the text of its element. -/
def Verbatim (lib : Libxml2) : Prop := ∀ v, lib.content v = some [.text v]

theorem Verbatim.reread {lib : Libxml2} (hv : Verbatim lib) (o : Option String) :
    lib.reread o = o := by
  cases o with
  | none => rfl
  | some v =>
    rw [Libxml2.reread, Option.bind_some, Libxml2.nodes, hv v]
    rfl

/-- With all strings there, the backup is accepted when it has a profile and no interface is
empty. -/
theorem Verbatim.accepted_iff {lib : Libxml2} (hv : Verbatim lib) {s : Supervisor}
    (h : TableInv s) : BackupAccepted lib s ↔
      s.profiles ≠ [] ∧ ∀ m ∈ backupOrder s, ∀ ifc ∈ m.ifces, ifc.described = true := by
  constructor
  · intro ha
    exact ⟨ha.nonempty, fun m hm ifc hifc =>
      ((ha.modules m ((mem_backupOrder h).mp hm)).ifces ifc hifc).1⟩
  · rintro ⟨hprofiles, hdescribed⟩
    refine ⟨hprofiles, fun p _ => ?_, fun p hp p' hp' hsame => ?_, fun m hm => ?_,
      fun m m' hm hm' hsame => ?_⟩
    · rw [hv.reread]
      exact Option.some_ne_none _
    · rw [hv.reread, hv.reread, Option.some_inj] at hsame
      exact List.inj_on_of_nodup_map h.profileNames hp hp' hsame
    · have hslot := h.slots m hm.1
      refine ⟨?_, ?_, fun ifc hifc => ⟨?_, fun hnote => ?_⟩⟩
      · rw [hv.reread]
        exact Option.ne_none_iff_exists'.mpr hslot.name
      · rw [hv.reread]
        exact Option.ne_none_iff_exists'.mpr hslot.path
      · exact hdescribed m ((mem_backupOrder h).mpr hm) ifc hifc
      · rw [hv.reread]
        exact hnote
    · rw [hv.reread, hv.reread] at hsame
      exact List.inj_on_of_nodup_map h.distinct hm.1 hm'.1 hsame

/-- The configuration of a module is the same in both states. -/
structure SameModule (s : Supervisor) (m : RunningModule) (s' : Supervisor) (m' : RunningModule) :
    Prop where
  name : m'.moduleName = m.moduleName
  path : m'.modulePath = m.modulePath
  params : m'.moduleParams = m.moduleParams
  limit : s'.maxRestarts m' = s.maxRestarts m
  ifces : m'.ifces = m.ifces
  profile : s'.profileOf m' = s.profileOf m

/-- The profiles and every module that had one. -/
structure Restored (s s' : Supervisor) : Prop where
  profiles : s'.profiles = s.profiles
  modules : ∀ m ∈ s.loaded, ∀ p, s.profileOf m = some p → ∃ m' ∈ s'.loaded, SameModule s m s' m'

/-- The state after the initial load of the backup file. -/
def restore (lib : Libxml2) (s : Supervisor) : Supervisor :=
  (reloadConfiguration .initLoadConfig (some (generateBackupConfigFile lib s)) .init).1

/-- There is no profile; or every interface of the backup has a string, and every
module has the limit of the slot it is loaded into: the default in the allocated
table, 0 beyond. -/
def BackupSuffices (s : Supervisor) : Prop :=
  s.profiles = [] ∨
    (∀ m ∈ backupOrder s, ∀ ifc ∈ m.ifces, ifc.described = true) ∧
    ∀ (k : Nat) (m : RunningModule), (backupOrder s)[k]? = some m → s.maxRestarts m =
      if k < runningModulesArrayStartSize then defaultModuleRestartsNum else 0

theorem restore_rejected {lib : Libxml2} {s : Supervisor}
    (hg : ¬ Grammar (generateBackupConfigFile lib s)) : restore lib s = .init := by
  rw [restore, reloadConfiguration_rejected]
  rintro ⟨r, hr, hgr⟩
  cases hr
  exact hg hgr

section
variable {lib : Libxml2} (hf : Formats lib) (hv : Verbatim lib) {s : Supervisor}
  (h : TableInv s)
include hf hv h

/-- All but the limit comes back; the limit is that of the slot. -/
theorem restored_slot (hg : Grammar (generateBackupConfigFile lib s)) {k : Nat}
    {m : RunningModule} (hk : (backupOrder s)[k]? = some m) {m' : RunningModule}
    (hm' : m' ∈ (restore lib s).loaded) (hname : m'.moduleName = m.moduleName) :
    (restore lib s).maxRestarts m' =
        (if k < runningModulesArrayStartSize then defaultModuleRestartsNum else 0) ∧
      m'.modulePath = m.modulePath ∧ m'.moduleParams = m.moduleParams ∧ m'.ifces = m.ifces ∧
      (restore lib s).profileOf m' = s.profileOf m := by
  have hr := (reloadConfiguration_accepted .init hg .initLoadConfig).2
  change Reloaded .initLoadConfig .init _ (restore lib s) at hr
  obtain ⟨i, hd, hi⟩ := docModules_backup hf h ((grammar_backup hf h).mp hg) hk
  have hmem := List.mem_of_getElem? hd
  have hsame := (backupModule_name hf m).trans (hv.reread m.moduleName)
  have hs := hr.element .init hg.goodDocs hmem hm' (hname.trans hsame.symm)
  have hslot := h.slots m ((mem_backupOrder h).mp (List.mem_of_getElem? hk)).1
  refine ⟨?_, ?_, ?_, ?_, ?_⟩
  · obtain ⟨hout, hin⟩ := hs.limit hg.goodDocs hr
    have hnew : (newDocs .init (docModules
        (generateBackupConfigFile lib s).xmlChildrenNode))[k]? =
          some (i, backupModule lib m) := by
      have hall : newDocs .init (docModules (generateBackupConfigFile lib s).xmlChildrenNode) =
          docModules (generateBackupConfigFile lib s).xmlChildrenNode :=
        List.filter_eq_self.mpr fun _ _ => rfl
      rw [hall]
      exact hd
    have hgrown := outgrowsTable_iff hg.goodDocs hnew
    rw [backupModule_restarts hf, docRestarts_backup hf] at hin
    rw [backupModule_restarts hf] at hout
    split_ifs with hlt
    · exact hin fun ho => absurd (hgrown.mp ho) (Nat.not_le.mpr hlt)
    · exact hout (hgrown.mpr (Nat.not_lt.mp hlt))
  · exact hs.path.trans ((backupModule_text hf m (by decide) (by simp [moduleTexts])).trans
      (hv.reread m.modulePath))
  · exact (hs.params .init fun _ m0 hm0 => absurd hm0 (by simp [init_loaded])).trans
      ((backupModule_text hf m (by decide) (by simp [moduleTexts])).trans
        (hv.reread m.moduleParams))
  · refine ((hs.ifces .init hg.goodDocs hmem).2.mpr fun t _ m0 hm0 => ?_).trans
      (docInterfaces_backup hf hslot fun ifc _ => ⟨hv.reread _, hv.reread _⟩)
    exact absurd hm0 (by simp [init_loaded])
  · rw [Supervisor.profileOf, hs.profile, hr.profiles, docProfiles_backup hf fun p _ => hv.reread _,
      Option.bind_some]
    exact hi

end

/-- Restoring the backup of a reachable state restores its configuration exactly
when the backup holds all there is to restore. -/
theorem backup_round_trip {lib : Libxml2} (hf : Formats lib) (hv : Verbatim lib) {w : World}
    (hw : Reachable w) :
    Restored w.sup (restore lib w.sup) ↔ BackupSuffices w.sup := by
  have h := reachable_tableInv hw
  by_cases hg : Grammar (generateBackupConfigFile lib w.sup)
  · have ha := (grammar_backup hf h).mp hg
    obtain ⟨hprofiles, hdescribed⟩ := (hv.accepted_iff h).mp ha
    have hr := (reloadConfiguration_accepted .init hg .initLoadConfig).2
    change Reloaded .initLoadConfig .init _ (restore lib w.sup) at hr
    constructor
    · intro hrestored
      refine .inr ⟨hdescribed, fun k m hk => ?_⟩
      obtain ⟨hmem, p, hp⟩ := (mem_backupOrder h).mp (List.mem_of_getElem? hk)
      obtain ⟨m', hm', hsame⟩ := hrestored.modules m hmem p hp
      rw [← hsame.limit]
      exact (restored_slot hf hv h hg hk hm' hsame.name).1
    · intro hsuffices
      refine ⟨hr.profiles.trans (docProfiles_backup hf fun p _ => hv.reread _), fun m hm p hp => ?_⟩
      obtain ⟨k, hk⟩ := List.mem_iff_getElem?.mp ((mem_backupOrder h).mpr ⟨hm, p, hp⟩)
      obtain ⟨i, hd, -⟩ := docModules_backup hf h ha hk
      obtain ⟨m', hm', hname'⟩ := hr.exists_slot .init hg (List.mem_of_getElem? hd)
      have hname := hname'.trans ((backupModule_name hf m).trans (hv.reread m.moduleName))
      obtain ⟨hlimit, hpath, hparams, hifces, hprofile⟩ := restored_slot hf hv h hg hk hm' hname
      have hsame := (hsuffices.resolve_left hprofiles).2 k m hk
      exact ⟨m', hm', hname, hpath, hparams, hlimit.trans hsame.symm, hifces, hprofile⟩
  · rw [restore_rejected hg]
    constructor
    · intro hrestored
      exact .inl hrestored.profiles.symm
    · intro hsuffices
      have hnil : w.sup.profiles = [] := by
        rcases hsuffices with hnil | ⟨hdescribed, -⟩
        · exact hnil
        · by_contra hprofiles
          exact hg ((grammar_backup hf h).mpr
            ((hv.accepted_iff h).mpr ⟨hprofiles, hdescribed⟩))
      refine ⟨hnil.symm, fun m _ p hp => ?_⟩
      obtain ⟨i, -, hi⟩ := Option.bind_eq_some_iff.mp hp
      rw [hnil] at hi
      exact absurd hi (by simp)

/-- The white space of `xmlDocFormatDump`: each element on a line of its own,
indented by two spaces for each level. -/
def formatIndent (depth : Nat) : List XmlNode → List XmlNode
  | [] => []
  | c :: l => (c :: l).flatMap (fun c => [line depth, c]) ++ [line (depth - 1)]
where
  line (depth : Nat) : XmlNode := .text ("\n" ++ String.ofList (List.replicate (2 * depth) ' '))

/-- A library that gives every string back. -/
def verbatimLib : Libxml2 := ⟨fun v => some [.text v], formatIndent⟩

theorem formatIndent_elements (depth : Nat) {l : List XmlNode}
    (hl : ∀ c ∈ l, c.isSkipped = false) :
    (formatIndent depth l).filter (fun c => !c.isSkipped) = l := by
  have hline : ∀ n, (formatIndent.line n).isSkipped = true := fun _ => rfl
  have hlines : ∀ l : List XmlNode, (∀ c ∈ l, c.isSkipped = false) →
      (l.flatMap fun c => [formatIndent.line depth, c]).filter (fun c => !c.isSkipped) = l := by
    intro l hl
    induction l with
    | nil => rfl
    | cons c l ih =>
      have hc := hl c (by simp)
      rw [List.flatMap_cons, List.filter_append, ih fun c' hc' => hl c' (by simp [hc'])]
      simp [hline, hc]
  cases l with
  | nil => rfl
  | cons c l =>
    rw [formatIndent, List.filter_append, hlines _ hl]
    simp [hline]

theorem formats_verbatimLib : Formats verbatimLib :=
  ⟨fun depth _ hl => formatIndent_elements depth hl, fun _ => rfl, fun _ _ => rfl⟩

/-- One module with an interface and this limit. -/
def limitedModule (limit : List XmlNode) : World :=
  boot [] (some (profileDocument [moduleElement "m" "/bin/m" "true"
    (.element "trapinterfaces" [] [.element "interface" [] [.textElement "type" "TCP"]] ::
      limit)]))

theorem backup_round_trip_default :
    Restored (limitedModule []).sup (restore verbatimLib (limitedModule []).sup) ↔
      BackupSuffices (limitedModule []).sup :=
  backup_round_trip formats_verbatimLib (fun _ => rfl) ⟨[], _, [], rfl⟩

/-- The limit of a module is lost. -/
theorem not_backup_round_trip :
    ¬ ∀ lib w, Formats lib → Verbatim lib → Reachable w →
      Restored w.sup (restore lib w.sup) := by
  intro h
  have hrestored := h verbatimLib (limitedModule [.textElement "module-restarts" "7"])
    formats_verbatimLib (fun _ => rfl) ⟨[], _, [], rfl⟩
  have hlimit : ∀ m ∈ (limitedModule [.textElement "module-restarts" "7"]).sup.loaded,
      (limitedModule [.textElement "module-restarts" "7"]).sup.profileOf m = some ⟨"p", true⟩ ∧
      (limitedModule [.textElement "module-restarts" "7"]).sup.maxRestarts m = 7 := by decide
  have hrestore : ∀ m ∈ (restore verbatimLib
        (limitedModule [.textElement "module-restarts" "7"]).sup).loaded,
      (restore verbatimLib
        (limitedModule [.textElement "module-restarts" "7"]).sup).maxRestarts m = 3 := by decide
  have hlt : 0 < (limitedModule [.textElement "module-restarts" "7"]).sup.loaded.length := by decide
  obtain ⟨hprofile, hseven⟩ := hlimit _ (List.getElem_mem hlt)
  obtain ⟨m', hm', hsame⟩ := hrestored.modules _ (List.getElem_mem hlt) _ hprofile
  have hthree := hsame.limit
  rw [hrestore m' hm', hseven] at hthree
  exact absurd hthree (by decide)

end NemeaSupervisor
