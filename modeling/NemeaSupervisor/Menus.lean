import NemeaSupervisor.Invariants
import NemeaSupervisor.LogBrowsing
import NemeaSupervisor.Operator
import NemeaSupervisor.SelectionLines

/-!
# Menus and selections

The commands list modules and profiles with numbers, read a line and change what its
numbers stand for. The line is taken by its meaning: each command acts on the set of the
integers that the line denotes, and the number in a printed line of the menu stands for
the module or the profile that is printed beside it.
-/

namespace NemeaSupervisor

open CText

/-! ## What a selection does -/

/-- The elements at the positions are changed. -/
def changeAt {α : Type} (f : α → α) (p : Nat → Prop) [DecidablePred p] (l : List α) : List α :=
  l.mapIdx fun x a => if p x then f a else a

/-- The modules and the profiles with the numbers are changed. -/
def selectSlots (f : RunningModule → RunningModule) (g : ModulesProfile → ModulesProfile)
    (nums : List Int) (s : Supervisor) : Supervisor :=
  { s with
    loaded := changeAt f (fun x => (x : Int) ∈ nums) s.loaded
    profiles := changeAt g (fun j => ((s.loadedModulesCnt + j : Nat) : Int) ∈ nums) s.profiles }

/-- A module that is enabled. -/
def enableModule (m : RunningModule) : RunningModule :=
  if m.moduleEnabled then m else { m with moduleEnabled := true, moduleRestartCnt := -1 }

/-- A module that is disabled, unless only root may stop it. -/
def disableModule (m : RunningModule) : RunningModule :=
  if m.moduleRootPermNeeded then m else { m with moduleEnabled := false }

/-- A running module that is restarted, unless only root may stop it. -/
def restartModule (m : RunningModule) : RunningModule :=
  if m.moduleEnabled = false ∨ m.moduleStatus = false then m
  else if m.moduleRootPermNeeded then m
  else { m with moduleServedByServiceThread := false, moduleEnabled := false, initModule := true }

def setEnabled (enabled : Bool) (p : ModulesProfile) : ModulesProfile :=
  { p with profileEnabled := enabled }

section changeAt

variable {α : Type} {f : α → α} {p q : Nat → Prop} [DecidablePred p] [DecidablePred q]
  {l : List α}

@[simp] theorem changeAt_length : (changeAt f p l).length = l.length := List.length_mapIdx

theorem changeAt_congr (h : ∀ x, p x ↔ q x) : changeAt f p l = changeAt f q l := by
  have hfun : (fun x a => if p x then f a else a) = fun x a => if q x then f a else a := by
    funext x a
    simp only [h x]
  rw [changeAt, changeAt, hfun]

/-- What is changed already is not changed again. -/
theorem changeAt_changeAt (hf : ∀ a, f (f a) = f a) :
    changeAt f p (changeAt f q l) = changeAt f (fun x => p x ∨ q x) l := by
  have hfun : (fun x => (fun a => if p x then f a else a) ∘ fun a => if q x then f a else a) =
      fun x a => if p x ∨ q x then f a else a := by
    funext x a
    by_cases hp : p x <;> by_cases hq : q x <;> simp [hp, hq, hf]
  rw [changeAt, changeAt, List.mapIdx_mapIdx, changeAt, hfun]

theorem changeAt_none (h : ∀ x, x < l.length → ¬ p x) : changeAt f p l = l := by
  refine List.ext_getElem (by simp) fun x hx hx' => ?_
  simp [changeAt, h x hx']

/-- One position. -/
theorem changeAt_one {i : Nat} (h : ∀ x, p x ↔ x = i) : changeAt f p l = l.modify i f := by
  refine List.ext_getElem (by simp) fun x hx hx' => ?_
  simp only [changeAt, List.getElem_mapIdx, List.getElem_modify, h x]
  split_ifs with heq heq' heq'
  · rfl
  · exact absurd heq.symm heq'
  · exact absurd heq'.symm heq
  · rfl

theorem changeAt_id (h : ∀ a ∈ l, f a = a) : changeAt f p l = l := by
  refine List.ext_getElem (by simp) fun x hx hx' => ?_
  simp [changeAt, h _ (List.getElem_mem hx')]

end changeAt

section select

variable {f : RunningModule → RunningModule} {g : ModulesProfile → ModulesProfile}
  {nums : List Int} {s : Supervisor} {n : Int}

@[simp] theorem selectSlots_cnt : (selectSlots f g nums s).loadedModulesCnt = s.loadedModulesCnt :=
  changeAt_length

/-- The numbers one after the other change what all of them stand for. -/
theorem selectSlots_cons (hf : ∀ m, f (f m) = f m) (hg : ∀ p, g (g p) = g p) :
    selectSlots f g nums (selectSlots f g [n] s) = selectSlots f g (n :: nums) s := by
  have hcnt := @selectSlots_cnt f g [n] s
  have hmem : ∀ v : Int, v ∈ nums ∨ v ∈ [n] ↔ v ∈ n :: nums := by simp [or_comm]
  rw [selectSlots, hcnt]
  simp only [selectSlots, changeAt_changeAt hf, changeAt_changeAt hg]
  rw [changeAt_congr fun x => hmem x, changeAt_congr fun j => hmem _]

theorem selectSlots_nil : selectSlots f g [] s = s := by
  rw [selectSlots, changeAt_none (by simp), changeAt_none (by simp)]

/-- A command that changes what one number stands for changes what its numbers stand for. -/
theorem foldl_selectSlots {step : Supervisor → Int → Supervisor} {I : Supervisor → Prop}
    (hf : ∀ m, f (f m) = f m) (hg : ∀ p, g (g p) = g p)
    (hkeep : ∀ s n, I s → I (selectSlots f g [n] s))
    (hstep : ∀ s n, I s → step s n = selectSlots f g [n] s) (hs : I s) :
    nums.foldl step s = selectSlots f g nums s := by
  induction nums generalizing s with
  | nil => exact selectSlots_nil.symm
  | cons n nums ih =>
    rw [List.foldl_cons, hstep s n hs, ih (hkeep s n hs), selectSlots_cons hf hg]

/-! ### One number -/

theorem selectSlots_outside (h : n < 0 ∨ (s.loadedModulesCnt + s.profiles.length : Nat) ≤ n) :
    selectSlots f g [n] s = s := by
  rw [selectSlots, changeAt_none, changeAt_none]
  · intro j hj
    rw [List.mem_singleton]
    omega
  · intro x hx
    rw [List.mem_singleton]
    rw [Supervisor.loadedModulesCnt] at h
    omega

theorem selectSlots_profile (h : (s.loadedModulesCnt : Int) ≤ n) : selectSlots f g [n] s =
    { s with profiles := s.profiles.modify (n.toNat - s.loadedModulesCnt) g } := by
  have hprofile : ∀ j, ((s.loadedModulesCnt + j : Nat) : Int) ∈ [n] ↔
      j = n.toNat - s.loadedModulesCnt := by
    intro j
    rw [List.mem_singleton]
    omega
  rw [selectSlots, changeAt_none, changeAt_one hprofile]
  intro x hx
  rw [List.mem_singleton]
  rw [Supervisor.loadedModulesCnt] at h
  omega

theorem selectSlots_module (h : 0 ≤ n) {m : RunningModule} (hm : s.loaded[n.toNat]? = some m) :
    selectSlots f g [n] s = s.setModule n.toNat (f m) := by
  obtain ⟨hlt, hget⟩ := List.getElem?_eq_some_iff.mp hm
  have hmodule : ∀ x : Nat, (x : Int) ∈ [n] ↔ x = n.toNat := by
    intro x
    rw [List.mem_singleton]
    omega
  rw [selectSlots, changeAt_one hmodule, changeAt_none, List.modify_eq_set_getElem?, hm]
  · rfl
  · intro j hj
    rw [List.mem_singleton, Supervisor.loadedModulesCnt]
    omega

end select

/-! ### The commands -/

section commands

variable {s : Supervisor} {n : Int}

theorem enableModule_twice (m : RunningModule) : enableModule (enableModule m) = enableModule m := by
  unfold enableModule
  split_ifs <;> rfl

theorem disableModule_twice (m : RunningModule) :
    disableModule (disableModule m) = disableModule m := by
  unfold disableModule
  split_ifs <;> rfl

theorem restartModule_twice (m : RunningModule) :
    restartModule (restartModule m) = restartModule m := by
  unfold restartModule
  split_ifs <;> rfl

theorem enableSelected_eq (h : s.loadedProfileCnt = s.profiles.length) :
    enableSelected s n = selectSlots enableModule (setEnabled true) [n] s := by
  unfold enableSelected
  split_ifs with hrange hprofile
  · exact (selectSlots_outside (by omega)).symm
  · exact (selectSlots_profile hprofile).symm
  · have hlt : n.toNat < s.loaded.length := by
      rw [Supervisor.loadedModulesCnt] at hprofile
      omega
    have hm := List.getElem?_eq_getElem hlt
    rw [selectSlots_module (by omega) hm, hm]
    simp only [enableModule]
    split_ifs with henabled
    · rw [Supervisor.setModule, List.set_getElem_self]
    · rfl

theorem disableSelected_eq (h : s.loadedProfileCnt = s.profiles.length) :
    disableSelected s n = selectSlots disableModule (setEnabled false) [n] s := by
  unfold disableSelected
  split_ifs with hrange hprofile
  · exact (selectSlots_outside (by omega)).symm
  · exact (selectSlots_profile hprofile).symm
  · have hlt : n.toNat < s.loaded.length := by
      rw [Supervisor.loadedModulesCnt] at hprofile
      omega
    have hm := List.getElem?_eq_getElem hlt
    rw [selectSlots_module (by omega) hm, hm]
    simp only [disableModule]
    split_ifs with hdisabled hperm hperm
    · rw [Supervisor.setModule, List.set_getElem_self]
    · have hsame : { s.loaded[n.toNat] with moduleEnabled := false } = s.loaded[n.toNat] := by
        rw [← hdisabled]
      rw [hsame, Supervisor.setModule, List.set_getElem_self]
    · rw [Supervisor.setModule, List.set_getElem_self]
    · rfl

theorem restartSelected_eq : restartSelected s n = selectSlots restartModule id [n] s := by
  unfold restartSelected
  split_ifs with hrange
  · rcases hrange with hprofile | hneg
    · rw [selectSlots_profile hprofile, List.modify_id]
    · exact (selectSlots_outside (.inl hneg)).symm
  · have hlt : n.toNat < s.loaded.length := by
      rw [Supervisor.loadedModulesCnt] at hrange
      omega
    have hm := List.getElem?_eq_getElem hlt
    rw [selectSlots_module (by omega) hm, hm]
    simp only [restartModule]
    split_ifs
    · rw [Supervisor.setModule, List.set_getElem_self]
    · rw [Supervisor.setModule, List.set_getElem_self]
    · rfl

variable {selection : Option (List Int)}

theorem selectSlots_id {f : RunningModule → RunningModule} {g : ModulesProfile → ModulesProfile}
    {nums : List Int} (hf : ∀ m ∈ s.loaded, f m = m) (hg : ∀ p ∈ s.profiles, g p = p) :
    selectSlots f g nums s = s := by
  rw [selectSlots, changeAt_id hf, changeAt_id hg]

theorem profileCnt_kept {f : RunningModule → RunningModule} {g : ModulesProfile → ModulesProfile}
    {nums : List Int} (h : s.loadedProfileCnt = s.profiles.length) :
    (selectSlots f g nums s).loadedProfileCnt = (selectSlots f g nums s).profiles.length :=
  h.trans changeAt_length.symm

theorem interactiveSetEnabled_eq (h : s.loadedProfileCnt = s.profiles.length) :
    interactiveSetEnabled selection s =
      selectSlots enableModule (setEnabled true) (selection.getD []) s := by
  unfold interactiveSetEnabled
  split_ifs with hall
  · refine (selectSlots_id (fun m hm => ?_) fun p hp => ?_).symm
    · have henabled := List.countP_eq_zero.mp hall.2 m hm
      exact if_pos (by simpa using henabled)
    · have henabled : p.profileEnabled = true := by
        simpa using List.countP_eq_zero.mp hall.1 p hp
      rw [setEnabled, ← henabled]
  · exact foldl_selectSlots (I := fun s => s.loadedProfileCnt = s.profiles.length)
      enableModule_twice (fun _ => rfl) (fun _ _ => profileCnt_kept) (fun _ _ => enableSelected_eq) h

theorem interactiveSetDisabled_eq (h : s.loadedProfileCnt = s.profiles.length) :
    interactiveSetDisabled selection s =
      selectSlots disableModule (setEnabled false) (selection.getD []) s := by
  unfold interactiveSetDisabled
  split_ifs with hall
  · obtain ⟨hprofiles, hmodules⟩ := hall
    refine (selectSlots_id (fun m hm => ?_) fun p hp => ?_).symm
    · have hcount : s.loaded.countP (fun m => m.moduleEnabled == false) = s.loaded.length :=
        Nat.le_antisymm List.countP_le_length (Nat.sub_eq_zero_iff_le.mp hmodules)
      have hdisabled : m.moduleEnabled = false := by
        simpa using List.countP_eq_length.mp hcount m hm
      rw [disableModule, ← hdisabled]
      split_ifs <;> rfl
    · have hcount : s.profiles.countP (fun p => p.profileEnabled == false) = s.profiles.length := by
        refine Nat.le_antisymm List.countP_le_length ?_
        rw [← h]
        exact Nat.sub_eq_zero_iff_le.mp hprofiles
      have hdisabled : p.profileEnabled = false := by
        simpa using List.countP_eq_length.mp hcount p hp
      rw [setEnabled, ← hdisabled]
  · exact foldl_selectSlots (I := fun s => s.loadedProfileCnt = s.profiles.length)
      disableModule_twice (fun _ => rfl) (fun _ _ => profileCnt_kept) (fun _ _ => disableSelected_eq) h

theorem interactiveRestartModule_eq :
    interactiveRestartModule selection s = selectSlots restartModule id (selection.getD []) s := by
  unfold interactiveRestartModule
  split_ifs with hnone
  · refine (selectSlots_id (fun m hm => ?_) fun p _ => rfl).symm
    refine if_pos ?_
    rcases hnone with hempty | hstopped
    · rw [List.length_eq_zero_iff.mp hempty] at hm
      cases hm
    · have hm' := List.countP_eq_zero.mp hstopped m hm
      cases henabled : m.moduleEnabled with
      | false => exact .inl rfl
      | true =>
        rw [henabled, Bool.true_and] at hm'
        exact .inr (by simpa using hm')
  · exact foldl_selectSlots (I := fun _ => True) restartModule_twice (fun _ => rfl)
      (fun _ _ _ => trivial) (fun _ _ _ => restartSelected_eq) trivial

end commands

theorem Number.not_mem {ds : List Char} (h : Number ds) {c : Char} (hc : c.isDigit = false) :
    c ∉ ds := fun hmem => by
  rw [h.2 c hmem] at hc
  cases hc

theorem Item.unique {seg : List Char} {a b a' b' : Nat} (h : Item seg a b) (h' : Item seg a' b') :
    a = a' ∧ b = b' := by
  cases h with
  | number hds =>
    generalize heq : seg = seg' at h'
    cases h' with
    | number hds' =>
      subst heq
      exact ⟨rfl, rfl⟩
    | interval hfirst hsecond =>
      exact absurd (heq ▸ by simp) (hds.not_mem isDigit_dash)
  | @interval first second hfirst hsecond =>
    generalize heq : first ++ '-' :: second = seg' at h'
    cases h' with
    | number hds' => exact absurd (heq ▸ by simp) (hds'.not_mem isDigit_dash)
    | interval hfirst' hsecond' =>
      obtain ⟨rfl, rfl⟩ := LineStream.terminated_unique (hfirst.not_mem isDigit_dash)
        (hfirst'.not_mem isDigit_dash) heq
      exact ⟨rfl, rfl⟩

theorem Items.unique {segs : List (List Char)} {ranges ranges' : List (Nat × Nat)}
    (h : Items segs ranges) (h' : Items segs ranges') : ranges = ranges' := by
  induction h generalizing ranges' with
  | nil =>
    cases h'
    rfl
  | cons hitem _ ih =>
    cases h' with
    | cons hitem' hitems' =>
      obtain ⟨hfirst, hsecond⟩ := hitem.unique hitem'
      rw [Prod.ext hfirst hsecond, ih hitems']

/-- A typed line selects the integers that it denotes; the commands change the modules and
profiles that have these numbers, whatever their order and however often they occur, and
nothing else. -/
theorem typed_selection {w : World} (hw : Reachable w) {line : List Char} {nums : List Int}
    (hline : NumbersBelow line) (hnums : Denotes line nums) :
    let selection := (parseNumbersUserSelection (some line)).array
    interactiveSetEnabled selection w.sup =
        selectSlots enableModule (setEnabled true) nums w.sup ∧
      interactiveSetDisabled selection w.sup =
        selectSlots disableModule (setEnabled false) nums w.sup ∧
      interactiveRestartModule selection w.sup = selectSlots restartModule id nums w.sup := by
  have hcnt := (reachable_tableInv hw).profileCnt
  obtain ⟨ranges, hitems, rfl⟩ := denotes_iff.mp hnums
  have harray : (parseNumbersUserSelection (some line)).array =
      some (ranges.flatMap interval).eraseDups := by
    cases parseNumbersUserSelection_answer hline.fit with
    | items hitems' hp => rw [hp, hitems.unique hitems', List.nil_append]
    | opened hopen hp => exact absurd hitems (not_items_endsOpen hopen)
    | error hitems' hopen hp => exact absurd hitems (hitems' ranges)
  intro selection
  have hselection : selection.getD [] = (ranges.flatMap interval).eraseDups := by
    rw [show selection = _ from harray]
    rfl
  exact ⟨hselection ▸ interactiveSetEnabled_eq hcnt, hselection ▸ interactiveSetDisabled_eq hcnt,
    hselection ▸ interactiveRestartModule_eq⟩

/-- The first module of the table is selected. -/
theorem typed_selection_first :
    let w := boot [] (some (profileDocument [moduleElement "a" "/a" "false" []]))
    let selection := (parseNumbersUserSelection (some ['0'])).array
    interactiveSetEnabled selection w.sup =
        selectSlots enableModule (setEnabled true) [0] w.sup ∧
      interactiveSetDisabled selection w.sup =
        selectSlots disableModule (setEnabled false) [0] w.sup ∧
      interactiveRestartModule selection w.sup = selectSlots restartModule id [0] w.sup := by
  have hzero : Item ['0'] 0 0 := .number ⟨by simp, by simp⟩
  exact typed_selection ⟨[], _, [], rfl⟩ (numbersBelow_short (by decide))
    ⟨[['0']], [(0, 0)], by simp, rfl, .cons hzero .nil, by decide⟩

/-! ## What a menu lists -/

/-- The loop of `get_digits_num`; an `int` has ten digits at most. -/
def divisions : Nat → Nat → Nat
  | 0, _ => 0
  | fuel + 1, num => if num = 0 then 0 else divisions fuel (num / 10) + 1

def getDigitsNum (number : Int) : Nat := 1 + divisions 10 (number.natAbs / 10)

/-- `%*c` for a blank. -/
def blanks (width : Int) : List Char := List.replicate (max 1 width.natAbs) ' '

/-- What is printed at once: a text, or a number with the name that it stands for. -/
inductive MenuLine where
  | text (printed : List Char)
  | entry (number : Nat) (width : Int) (name : List Char)
  deriving DecidableEq, Repr

def MenuLine.render : MenuLine → List Char
  | .text printed => printed
  | .entry number width name =>
    "   ".toList ++ (decimal number ++ (blanks width ++ ("| ".toList ++ (name ++ ['\n']))))

def MenuLine.number : MenuLine → Option Nat
  | .text _ => none
  | .entry number .. => some number

def formatBold : List Char := "\x1b[1m".toList
def formatReset : List Char := "\x1b[0m".toList

/-- A name as `%s` prints it. -/
def printedString (s : Option String) : List Char := (s.getD "(null)").toList

/-- The modules of one profile, with a label above them and an empty line below. -/
def profileSection (s : Supervisor) (longestModNum : Nat) (listed : RunningModule → Bool)
    (ptr : ModulesProfile × Nat) : List MenuLine :=
  let entries := s.loaded.zipIdx.filterMap fun (m, x) =>
    if m.modulesProfile = some ptr.2 ∧ listed m then
      some (.entry x ((longestModNum : Int) + 1 - getDigitsNum x) (printedString m.moduleName))
    else none
  if entries = [] then []
  else
    .text (formatBold ++ "Profile: ".toList ++ ptr.1.profileName.toList ++ ['\n'] ++ formatReset) ::
      (entries ++ [.text ['\n']])

def moduleSections (s : Supervisor) (longestModNum : Nat) (listed : RunningModule → Bool) :
    List MenuLine :=
  s.profiles.zipIdx.flatMap (profileSection s longestModNum listed)

/-- The texts by which the menus of two commands differ. -/
structure MenuTexts where
  modules : List Char
  noModule : List Char
  profiles : List Char
  noProfile : List Char

/-- The profiles, numbered on from the modules. -/
def profileLines (s : Supervisor) (width : Int) (listedProfile : ModulesProfile → Bool) :
    List MenuLine :=
  s.profiles.zipIdx.filterMap fun (p, j) =>
    if listedProfile p then some (.entry (s.loadedModulesCnt + j) width p.profileName.toList)
    else none

/-- What the loop over the modules has left in `x`. -/
def loopVariable (s : Supervisor) (modCnt : Nat) : Nat :=
  if s.loadedModulesCnt = 0 ∨ modCnt = 0 ∨ s.profiles = [] then 0 else s.loadedModulesCnt

/-- The modules, or a note that there are none. -/
def modulesPart (s : Supervisor) (longestModNum : Nat) (listed : RunningModule → Bool)
    (modCnt : Nat) (note : List Char) : List MenuLine :=
  if s.loadedModulesCnt = 0 then [.text "   No module is loaded.\n".toList]
  else if modCnt = 0 then [.text note]
  else moduleSections s longestModNum listed

/-- The profiles, or a note that there are none. -/
def profilesPart (s : Supervisor) (width : Int) (listedProfile : ModulesProfile → Bool)
    (profCnt : Nat) (note : List Char) : List MenuLine :=
  if s.loadedProfileCnt = 0 then [.text "   No profile is loaded.\n".toList]
  else if profCnt = 0 then [.text note]
  else profileLines s width listedProfile

def menuTitle (title : List Char) : MenuLine :=
  .text (formatBold ++ title ++ formatReset ++ ['\n'])

/-- The menu of modules and profiles. The width of a profile's number is computed from `x`. -/
def selectionMenu (texts : MenuTexts) (listed : RunningModule → Bool)
    (listedProfile : ModulesProfile → Bool) (modCnt profCnt : Nat) (s : Supervisor) :
    List MenuLine :=
  let longestModNum := getDigitsNum ((s.loadedModulesCnt : Int) + s.loadedProfileCnt - 1)
  let width : Int := longestModNum + 1 - getDigitsNum (loopVariable s modCnt)
  menuTitle texts.modules :: modulesPart s longestModNum listed modCnt texts.noModule ++
    menuTitle texts.profiles :: profilesPart s width listedProfile profCnt texts.noProfile

/-- The menu of `interactive_set_enabled`. -/
def interactiveSetEnabledMenu (s : Supervisor) : List MenuLine :=
  selectionMenu
    { modules := "--- [LIST OF DISABLED MODULES] ---".toList
      noModule := "   All modules are enabled.\n".toList
      profiles := "--- [LIST OF DISABLED PROFILES] ---".toList
      noProfile := "   All profiles are enabled.\n".toList }
    (fun m => !m.moduleEnabled) (fun p => !p.profileEnabled) (getNumDisabledModules s)
    (getNumDisabledProfiles s) s

/-- The menu of `interactive_set_disabled`. -/
def interactiveSetDisabledMenu (s : Supervisor) : List MenuLine :=
  selectionMenu
    { modules := "--- [LIST OF ENABLED MODULES] ---".toList
      noModule := "   All modules are disabled.\n".toList
      profiles := "--- [LIST OF ENABLED PROFILES] ---".toList
      noProfile := "   All profiles are disabled.\n".toList }
    RunningModule.moduleEnabled ModulesProfile.profileEnabled
    (s.loadedModulesCnt - getNumDisabledModules s) (s.loadedProfileCnt - getNumDisabledProfiles s) s

/-- The menu of `interactive_restart_module`. -/
def interactiveRestartModuleMenu (s : Supervisor) : List MenuLine :=
  menuTitle "--- [LIST OF RUNNING MODULES] ---".toList ::
    modulesPart s (getDigitsNum ((s.loadedModulesCnt : Int) - 1))
      (fun m => m.moduleEnabled && m.moduleStatus) (getNumEnabledRunningModules s)
      "   All modules are stopped.\n".toList

/-! ### Reading a line -/

/-- The number at the start of a printed line. -/
def typedNumber (line : List Char) : List Char := (line.dropWhile isspace).takeWhile Char.isDigit

/-- The name after the bar. -/
def printedName (line : List Char) : List Char :=
  ((line.dropWhile fun c => c ≠ '|').drop 2).dropLast

section reading

variable {number : Nat} {width : Int} {name : List Char}

theorem blanks_cons (width : Int) : ∃ rest, blanks width = ' ' :: rest ∧ ∀ c ∈ rest, c = ' ' := by
  obtain ⟨n, hn⟩ : ∃ n, max 1 width.natAbs = n + 1 := ⟨max 1 width.natAbs - 1, by omega⟩
  exact ⟨List.replicate n ' ', by rw [blanks, hn, List.replicate_succ],
    fun c hc => List.eq_of_mem_replicate hc⟩

/-- The number of an entry is what stands at the start of its line. -/
theorem typedNumber_entry :
    typedNumber (MenuLine.entry number width name).render = decimal number := by
  have hdigits := decimal_digits number
  obtain ⟨c, cs, heq⟩ := List.exists_cons_of_ne_nil (decimal_ne_nil number)
  obtain ⟨rest, hblanks, -⟩ := blanks_cons width
  have hspace : isspace c = false := isspace_of_isDigit (hdigits c (by simp [heq]))
  rw [typedNumber, MenuLine.render, List.dropWhile_append_of_pos (by simp; decide), heq,
    List.cons_append, List.dropWhile_cons_of_neg (by simp [hspace]), ← List.cons_append, ← heq,
    List.takeWhile_append_of_pos hdigits, hblanks, List.cons_append,
    List.takeWhile_cons_of_neg (by decide), List.append_nil]

theorem printedName_entry :
    printedName (MenuLine.entry number width name).render = name := by
  have hbefore : ∀ c ∈ "   ".toList ++ (decimal number ++ blanks width), c ≠ '|' := by
    intro c hc
    simp only [List.mem_append] at hc
    rcases hc with hc | hc | hc
    · rintro rfl
      exact absurd hc (by decide)
    · rintro rfl
      exact absurd (decimal_digits number _ hc) (by decide)
    · obtain ⟨rest, hblanks, hrest⟩ := blanks_cons width
      rw [hblanks] at hc
      rcases List.mem_cons.mp hc with rfl | hc
      · decide
      · rw [hrest c hc]
        decide
  have hrender : (MenuLine.entry number width name).render =
      ("   ".toList ++ (decimal number ++ blanks width)) ++ '|' :: ' ' :: (name ++ ['\n']) := by
    simp [MenuLine.render]
  rw [printedName, hrender, List.dropWhile_append_of_pos (by simpa using hbefore),
    List.dropWhile_cons_of_neg (by simp)]
  simp

theorem interval_self (n : Nat) : interval (n, n) = [(n : Int)] := by
  simp [interval, intsTo]

/-- A number that is typed as it is printed selects itself. -/
theorem parse_decimal (h : number < 2147483647) :
    (parseNumbersUserSelection (some (decimal number))).array = some [(number : Int)] := by
  have hnumber : Number (decimal number) := ⟨decimal_ne_nil number, decimal_digits number⟩
  have hvalue : digitsValue (decimal number) = number := by
    rw [decimal_natCast, digitsValue_toDigits]
  have hitem : Item (decimal number) number number := by
    have := Item.number hnumber
    rwa [hvalue] at this
  have hsplit : (decimal number).splitOn ',' = [decimal number] :=
    List.splitOn_eq_singleton (hnumber.not_mem isDigit_comma)
  have hfits : LeadFits (decimal number) := by
    have hlead := (@leadFits_number (decimal number) [] hnumber ⟨rfl, rfl⟩).mpr
      ⟨?_, fun _ heq => by cases heq⟩
    · rwa [List.append_nil] at hlead
    · change ((digitsValue (decimal number) : Nat) : Int) ≤ intMax
      rw [hvalue, intMax]
      omega
  have hfit : NumbersFit ((decimal number).splitOn ',') := by
    rw [hsplit]
    refine ⟨hfits, fun a b hab _ => ⟨?_, trivial⟩⟩
    obtain ⟨rfl, rfl⟩ := hitem.unique hab
    rw [intMax]
    omega
  have hitems : Items ((decimal number).splitOn ',') [(number, number)] := by
    rw [hsplit]
    exact .cons hitem .nil
  cases parseNumbersUserSelection_answer hfit with
  | items hitems' hp =>
    rw [hp, ← hitems.unique hitems']
    simp [interval_self, List.eraseDups_cons]
  | opened hopen hp => exact absurd hitems (not_items_endsOpen hopen)
  | error hitems' hopen hp => exact absurd hitems (hitems' _)

end reading

/-! ### The entries -/

section entries

variable {s : Supervisor} {longestModNum number : Nat} {width : Int} {name : List Char}
  {listed : RunningModule → Bool} {listedProfile : ModulesProfile → Bool}

theorem mem_profileSection {ptr : ModulesProfile × Nat} :
    .entry number width name ∈ profileSection s longestModNum listed ptr ↔
      ∃ m, s.loaded[number]? = some m ∧ m.modulesProfile = some ptr.2 ∧ listed m = true ∧
        width = (longestModNum : Int) + 1 - getDigitsNum number ∧
        name = printedString m.moduleName := by
  have hentry : ∀ entries : List MenuLine,
      .entry number width name ∈ (if entries = [] then []
        else MenuLine.text (formatBold ++ "Profile: ".toList ++ ptr.1.profileName.toList ++ ['\n'] ++
          formatReset) :: (entries ++ [.text ['\n']])) ↔ .entry number width name ∈ entries := by
    intro entries
    split_ifs with hnil
    · rw [hnil]
    · simp
  rw [profileSection]
  simp only []
  rw [hentry, List.mem_filterMap]
  constructor
  · rintro ⟨⟨m, x⟩, hmem, heq⟩
    have hx := List.mem_zipIdx_iff_getElem?.mp hmem
    simp only [Option.ite_none_right_eq_some, Option.some.injEq, MenuLine.entry.injEq] at heq
    obtain ⟨⟨hprofile, hlisted⟩, rfl, rfl, rfl⟩ := heq
    exact ⟨m, hx, hprofile, hlisted, rfl, rfl⟩
  · rintro ⟨m, hx, hprofile, hlisted, rfl, rfl⟩
    exact ⟨(m, number), List.mem_zipIdx_iff_getElem?.mpr hx, by simp [hprofile, hlisted]⟩

/-- The modules listed are those of some profile that are to be listed. -/
theorem mem_moduleSections (h : ∀ m ∈ s.loaded, ∀ i, m.modulesProfile = some i → i < s.profiles.length) :
    .entry number width name ∈ moduleSections s longestModNum listed ↔
      ∃ m, s.loaded[number]? = some m ∧ m.modulesProfile.isSome = true ∧ listed m = true ∧
        width = (longestModNum : Int) + 1 - getDigitsNum number ∧
        name = printedString m.moduleName := by
  rw [moduleSections, List.mem_flatMap]
  constructor
  · rintro ⟨ptr, -, hmem⟩
    obtain ⟨m, hx, hprofile, hrest⟩ := mem_profileSection.mp hmem
    exact ⟨m, hx, by rw [hprofile]; rfl, hrest⟩
  · rintro ⟨m, hx, hprofile, hrest⟩
    obtain ⟨i, hi⟩ := Option.isSome_iff_exists.mp hprofile
    have hlt := h m (List.mem_of_getElem? hx) i hi
    exact ⟨(s.profiles[i], i),
      List.mem_zipIdx_iff_getElem?.mpr (List.getElem?_eq_getElem hlt),
      mem_profileSection.mpr ⟨m, hx, hi, hrest⟩⟩

/-- What a menu lists under a number. -/
inductive InMenu (s : Supervisor) (listed : RunningModule → Bool)
    (listedProfile : ModulesProfile → Bool) : Nat → List Char → Prop
  | module {x : Nat} {m : RunningModule} (hx : s.loaded[x]? = some m)
      (hprofile : m.modulesProfile.isSome = true) (hlisted : listed m = true) :
      InMenu s listed listedProfile x (printedString m.moduleName)
  | profile {j : Nat} {p : ModulesProfile} (hj : s.profiles[j]? = some p)
      (hlisted : listedProfile p = true) :
      InMenu s listed listedProfile (s.loadedModulesCnt + j) p.profileName.toList

variable {texts : MenuTexts} {modCnt profCnt : Nat}

theorem mem_profileLines {width' : Int} :
    .entry number width name ∈ profileLines s width' listedProfile ↔
      width = width' ∧ ∃ j p, s.profiles[j]? = some p ∧ listedProfile p = true ∧
        number = s.loadedModulesCnt + j ∧ name = p.profileName.toList := by
  rw [profileLines, List.mem_filterMap]
  constructor
  · rintro ⟨⟨p, j⟩, hmem, heq⟩
    have hj := List.mem_zipIdx_iff_getElem?.mp hmem
    simp only [Option.ite_none_right_eq_some, Option.some.injEq, MenuLine.entry.injEq] at heq
    obtain ⟨hlisted, rfl, rfl, rfl⟩ := heq
    exact ⟨rfl, j, p, hj, hlisted, rfl, rfl⟩
  · rintro ⟨rfl, j, p, hj, hlisted, rfl, rfl⟩
    exact ⟨(p, j), List.mem_zipIdx_iff_getElem?.mpr hj, by simp [hlisted]⟩

/-- The notes stand for empty lists. -/
theorem mem_modulesPart (h : TableInv s) (hmod : modCnt = 0 → ∀ m ∈ s.loaded, listed m = false)
    {note : List Char} : (∃ width, .entry number width name ∈
        modulesPart s longestModNum listed modCnt note) ↔
      ∃ m, s.loaded[number]? = some m ∧ m.modulesProfile.isSome = true ∧ listed m = true ∧
        name = printedString m.moduleName := by
  have hprofiles : ∀ m ∈ s.loaded, ∀ i, m.modulesProfile = some i → i < s.profiles.length :=
    fun m hm i hi => (h.slots m hm).profile i hi
  unfold modulesPart
  split_ifs with hempty hzero
  · refine iff_of_false (by simp) ?_
    rintro ⟨m, hx, -⟩
    rw [List.length_eq_zero_iff.mp hempty] at hx
    cases hx
  · refine iff_of_false (by simp) ?_
    rintro ⟨m, hx, -, hlisted, -⟩
    rw [hmod hzero m (List.mem_of_getElem? hx)] at hlisted
    cases hlisted
  · constructor
    · rintro ⟨width, hmem⟩
      obtain ⟨m, hx, hprofile, hlisted, -, hname⟩ := (mem_moduleSections hprofiles).mp hmem
      exact ⟨m, hx, hprofile, hlisted, hname⟩
    · rintro ⟨m, hx, hprofile, hlisted, hname⟩
      exact ⟨_, (mem_moduleSections hprofiles).mpr ⟨m, hx, hprofile, hlisted, rfl, hname⟩⟩

theorem mem_profilesPart (h : TableInv s)
    (hprof : profCnt = 0 → ∀ p ∈ s.profiles, listedProfile p = false) {note : List Char}
    {width' : Int} : (∃ width, .entry number width name ∈
        profilesPart s width' listedProfile profCnt note) ↔
      ∃ j p, s.profiles[j]? = some p ∧ listedProfile p = true ∧
        number = s.loadedModulesCnt + j ∧ name = p.profileName.toList := by
  unfold profilesPart
  split_ifs with hempty hzero
  · refine iff_of_false (by simp) ?_
    rintro ⟨j, p, hj, -⟩
    rw [h.profileCnt] at hempty
    rw [List.length_eq_zero_iff.mp hempty] at hj
    cases hj
  · refine iff_of_false (by simp) ?_
    rintro ⟨j, p, hj, hlisted, -⟩
    rw [hprof hzero p (List.mem_of_getElem? hj)] at hlisted
    cases hlisted
  · exact ⟨fun ⟨_, hmem⟩ => (mem_profileLines.mp hmem).2,
      fun hlisted => ⟨_, mem_profileLines.mpr ⟨rfl, hlisted⟩⟩⟩

/-- A menu lists the modules of some profile and the profiles that are to be listed. -/
theorem mem_selectionMenu (h : TableInv s) (hmod : modCnt = 0 → ∀ m ∈ s.loaded, listed m = false)
    (hprof : profCnt = 0 → ∀ p ∈ s.profiles, listedProfile p = false) :
    (∃ width, .entry number width name ∈ selectionMenu texts listed listedProfile modCnt profCnt s) ↔
      InMenu s listed listedProfile number name := by
  have hparts : (∃ width, .entry number width name ∈
        selectionMenu texts listed listedProfile modCnt profCnt s) ↔
      (∃ width, .entry number width name ∈ modulesPart s
        (getDigitsNum ((s.loadedModulesCnt : Int) + s.loadedProfileCnt - 1)) listed modCnt
        texts.noModule) ∨
      ∃ width, .entry number width name ∈ profilesPart s
        (getDigitsNum ((s.loadedModulesCnt : Int) + s.loadedProfileCnt - 1) + 1 -
          getDigitsNum (loopVariable s modCnt)) listedProfile profCnt texts.noProfile := by
    simp only [selectionMenu, menuTitle, List.cons_append, List.mem_cons, reduceCtorEq, false_or,
      List.mem_append, exists_or]
  rw [hparts, mem_modulesPart h hmod, mem_profilesPart h hprof]
  constructor
  · rintro (⟨m, hx, hprofile, hlisted, rfl⟩ | ⟨j, p, hj, hlisted, rfl, rfl⟩)
    · exact .module hx hprofile hlisted
    · exact .profile hj hlisted
  · rintro (⟨hx, hprofile, hlisted⟩ | ⟨hj, hlisted⟩)
    · exact .inl ⟨_, hx, hprofile, hlisted, rfl⟩
    · exact .inr ⟨_, _, hj, hlisted, rfl, rfl⟩

end entries

/-! ### Every number once -/

def menuNumbers (menu : List MenuLine) : List Nat := menu.filterMap MenuLine.number

section once

variable {s : Supervisor} {longestModNum number : Nat} {width : Int}
  {listed : RunningModule → Bool} {listedProfile : ModulesProfile → Bool} {menu : List MenuLine}

theorem mem_menuNumbers : number ∈ menuNumbers menu ↔
    ∃ width name, .entry number width name ∈ menu := by
  rw [menuNumbers, List.mem_filterMap]
  constructor
  · rintro ⟨line, hline, heq⟩
    cases line with
    | text => cases heq
    | entry n width name =>
      cases heq
      exact ⟨width, name, hline⟩
  · rintro ⟨width, name, hmem⟩
    exact ⟨_, hmem, rfl⟩

@[simp] theorem menuNumbers_append (menu menu' : List MenuLine) :
    menuNumbers (menu ++ menu') = menuNumbers menu ++ menuNumbers menu' := List.filterMap_append

@[simp] theorem menuNumbers_text (t : List Char) (menu : List MenuLine) :
    menuNumbers (.text t :: menu) = menuNumbers menu := rfl

/-- Positions that are picked out of a list are picked once. -/
theorem nodup_positions {α : Type} (l : List α) (f : α → Nat → Option MenuLine) {g : Nat → Nat}
    (hg : Function.Injective g) (h : ∀ a x line, f a x = some line → line.number = some (g x)) :
    (menuNumbers (l.zipIdx.filterMap fun (a, x) => f a x)).Nodup := by
  have hpicked : menuNumbers (l.zipIdx.filterMap fun (a, x) => f a x) =
      ((l.zipIdx.filter fun (a, x) => (f a x).isSome).map Prod.snd).map g := by
    rw [menuNumbers, List.filterMap_filterMap, List.map_map, ← List.filterMap_eq_map,
      List.filterMap_filter]
    refine List.filterMap_congr fun (a, x) _ => ?_
    cases hf : f a x with
    | none => simp [hf]
    | some line => simp [hf, h a x line hf]
  rw [hpicked]
  refine List.Nodup.map hg (List.Nodup.sublist (List.filter_sublist.map _) ?_)
  rw [List.zipIdx_map_snd]
  exact List.nodup_range' 1

theorem nodup_profileSection (ptr : ModulesProfile × Nat) :
    (menuNumbers (profileSection s longestModNum listed ptr)).Nodup := by
  have hentries := nodup_positions s.loaded (fun m x =>
    if m.modulesProfile = some ptr.2 ∧ listed m then
      some (.entry x ((longestModNum : Int) + 1 - getDigitsNum x) (printedString m.moduleName))
    else none) Function.injective_id (by
      intro m x line hline
      simp only [Option.ite_none_right_eq_some, Option.some.injEq] at hline
      rw [← hline.2]
      rfl)
  rw [profileSection]
  simp only []
  split_ifs
  · exact List.nodup_nil
  · have hlast : menuNumbers [MenuLine.text ['\n']] = [] := rfl
    rw [menuNumbers_text, menuNumbers_append, hlast, List.append_nil]
    exact hentries

/-- A module has one profile. -/
theorem nodup_moduleSections : (menuNumbers (moduleSections s longestModNum listed)).Nodup := by
  have hflat : menuNumbers (moduleSections s longestModNum listed) =
      s.profiles.zipIdx.flatMap fun ptr =>
        menuNumbers (profileSection s longestModNum listed ptr) := by
    rw [menuNumbers, moduleSections, List.filterMap_flatMap]
    rfl
  rw [hflat, List.nodup_flatMap]
  refine ⟨fun ptr _ => nodup_profileSection ptr, ?_⟩
  have hpositions : (s.profiles.zipIdx.map Prod.snd).Nodup := by
    rw [List.zipIdx_map_snd]
    exact List.nodup_range' 1
  refine (List.pairwise_map.mp hpositions).imp fun {ptr ptr'} hne number hmem hmem' => hne ?_
  obtain ⟨_, _, hentry⟩ := mem_menuNumbers.mp hmem
  obtain ⟨_, _, hentry'⟩ := mem_menuNumbers.mp hmem'
  obtain ⟨m, hx, hprofile, -⟩ := mem_profileSection.mp hentry
  obtain ⟨m', hx', hprofile', -⟩ := mem_profileSection.mp hentry'
  rw [hx] at hx'
  cases hx'
  exact Option.some.inj (hprofile.symm.trans hprofile')

theorem nodup_modulesPart {modCnt : Nat} {note : List Char} :
    (menuNumbers (modulesPart s longestModNum listed modCnt note)).Nodup := by
  unfold modulesPart
  split_ifs
  · exact List.nodup_nil
  · exact List.nodup_nil
  · exact nodup_moduleSections

theorem nodup_profilesPart {profCnt : Nat} {note : List Char} :
    (menuNumbers (profilesPart s width listedProfile profCnt note)).Nodup := by
  unfold profilesPart
  split_ifs
  · exact List.nodup_nil
  · exact List.nodup_nil
  · refine nodup_positions s.profiles (fun p j => if listedProfile p then
      some (.entry (s.loadedModulesCnt + j) width p.profileName.toList) else none)
      (add_right_injective s.loadedModulesCnt) (fun p j line hline => ?_)
    simp only [Option.ite_none_right_eq_some, Option.some.injEq] at hline
    rw [← hline.2]
    rfl

end once

/-! ## What is printed is what is changed -/

section faithful

variable (listed : RunningModule → Bool) (listedProfile : ModulesProfile → Bool)
  (refused : RunningModule → Bool)
  (f : RunningModule → RunningModule) (g : ModulesProfile → ModulesProfile)
  (command : Option (List Int) → Supervisor → Supervisor) (s : Supervisor)

/-- Typing the number of a printed line changes what the line names, and nothing else. The
modules that the command refuses are left as they are. -/
inductive Chosen (line : List Char) : Prop
  | module {x : Nat} {m : RunningModule} (hx : s.loaded[x]? = some m) (hlisted : listed m = true)
      (hname : m.moduleName.map String.toList = some (printedName line))
      (hkept : f m = m ↔ refused m = true)
      (hset : command (parseNumbersUserSelection (some (typedNumber line))).array s =
        s.setModule x (f m))
  | profile {j : Nat} {p : ModulesProfile} (hj : s.profiles[j]? = some p)
      (hlisted : listedProfile p = true) (hname : p.profileName.toList = printedName line)
      (hchanged : g p ≠ p)
      (hset : command (parseNumbersUserSelection (some (typedNumber line))).array s =
        { s with profiles := s.profiles.set j (g p) })

/-- A menu prints what its command is for, everything once, under the numbers that the
command takes. -/
structure MenuFor (menu : List MenuLine) : Prop where
  once : (menuNumbers menu).Nodup
  modules : ∀ (x : Nat) (m : RunningModule), s.loaded[x]? = some m →
    m.modulesProfile.isSome = true → listed m = true → x ∈ menuNumbers menu
  profiles : ∀ (j : Nat) (p : ModulesProfile), s.profiles[j]? = some p →
    listedProfile p = true → s.loadedModulesCnt + j ∈ menuNumbers menu
  chosen : ∀ line ∈ menu, line.number.isSome = true →
    Chosen listed listedProfile refused f g command s line.render

end faithful

section menus

variable {listed : RunningModule → Bool} {listedProfile : ModulesProfile → Bool}
  {refused : RunningModule → Bool}
  {f : RunningModule → RunningModule} {g : ModulesProfile → ModulesProfile}
  {command : Option (List Int) → Supervisor → Supervisor} {s : Supervisor}

/-- What is listed changes when it is chosen, unless the command refuses it. -/
structure Changes (listed : RunningModule → Bool) (listedProfile : ModulesProfile → Bool)
    (refused : RunningModule → Bool) (f : RunningModule → RunningModule)
    (g : ModulesProfile → ModulesProfile) : Prop where
  kept : ∀ m, listed m = true → (f m = m ↔ refused m = true)
  profile : ∀ p, listedProfile p = true → g p ≠ p

theorem changes_enable : Changes (fun m => !m.moduleEnabled) (fun p => !p.profileEnabled)
    (fun _ => false) enableModule (setEnabled true) where
  kept m hlisted := by
    have hdisabled : m.moduleEnabled = false := by simpa using hlisted
    refine iff_of_false (fun hsame => ?_) Bool.false_ne_true
    have := congrArg RunningModule.moduleEnabled hsame
    simp [enableModule, hdisabled] at this
  profile p hlisted hsame := by
    have := congrArg ModulesProfile.profileEnabled hsame
    simp [setEnabled] at this
    simp [← this] at hlisted

theorem changes_disable : Changes RunningModule.moduleEnabled ModulesProfile.profileEnabled
    RunningModule.moduleRootPermNeeded disableModule (setEnabled false) where
  kept m hlisted := by
    unfold disableModule
    split_ifs with hroot
    · exact iff_of_true rfl hroot
    · refine iff_of_false (fun hsame => ?_) hroot
      have := congrArg RunningModule.moduleEnabled hsame
      simp [hlisted] at this
  profile p hlisted hsame := by
    have := congrArg ModulesProfile.profileEnabled hsame
    simp [setEnabled, hlisted] at this

theorem changes_restart : Changes (fun m => m.moduleEnabled && m.moduleStatus) (fun _ => false)
    RunningModule.moduleRootPermNeeded restartModule id where
  kept m hlisted := by
    obtain ⟨henabled, hstatus⟩ := Bool.and_eq_true_iff.mp hlisted
    unfold restartModule
    rw [if_neg (by simp [henabled, hstatus])]
    split_ifs with hroot
    · exact iff_of_true rfl hroot
    · refine iff_of_false (fun hsame => ?_) hroot
      have := congrArg RunningModule.moduleEnabled hsame
      simp [henabled] at this
  profile _ hlisted := by cases hlisted

theorem chosen_entry (h : TableInv s)
    (hcommand : ∀ nums, command (some nums) s = selectSlots f g nums s)
    (hchanges : Changes listed listedProfile refused f g) {number : Nat}
    {name : List Char} {width : Int} (hlisted : InMenu s listed listedProfile number name)
    (hlt : number < 2147483647) :
    Chosen listed listedProfile refused f g command s (MenuLine.entry number width name).render := by
  have hset : command (parseNumbersUserSelection
      (some (typedNumber (MenuLine.entry number width name).render))).array s =
        selectSlots f g [(number : Int)] s := by
    rw [typedNumber_entry, parse_decimal hlt, hcommand]
  cases hlisted with
  | @module _ m hx hprofile hlisted =>
    obtain ⟨n, hn⟩ := (h.slots m (List.mem_of_getElem? hx)).name
    refine .module hx hlisted ?_ (hchanges.kept m hlisted) ?_
    · rw [printedName_entry, printedString, hn]
      rfl
    · rw [hset, selectSlots_module (Int.natCast_nonneg number) hx]
      rfl
  | @profile j p hj hlisted =>
    refine .profile hj hlisted printedName_entry.symm (hchanges.profile p hlisted) ?_
    have hindex : (((s.loadedModulesCnt + j : Nat) : Int).toNat - s.loadedModulesCnt) = j := by
      omega
    rw [hset, selectSlots_profile (by omega), hindex, List.modify_eq_set_getElem?, hj]
    rfl

theorem InMenu.lt (h : TableInv s) {number : Nat} {name : List Char}
    (hlisted : InMenu s listed listedProfile number name) :
    number < s.loadedModulesCnt + s.loadedProfileCnt := by
  cases hlisted with
  | module hx => exact Nat.lt_add_right _ (List.getElem?_eq_some_iff.mp hx).1
  | profile hj =>
    rw [h.profileCnt]
    exact Nat.add_lt_add_left (List.getElem?_eq_some_iff.mp hj).1 _

/-- A menu that lists each thing once is one for its command. -/
theorem MenuFor.intro (h : TableInv s) (hcnt : s.loadedModulesCnt + s.loadedProfileCnt ≤ 2147483647)
    (hcommand : ∀ nums, command (some nums) s = selectSlots f g nums s)
    (hchanges : Changes listed listedProfile refused f g) {menu : List MenuLine}
    (honce : (menuNumbers menu).Nodup)
    (hmem : ∀ number name, (∃ width, .entry number width name ∈ menu) ↔
      InMenu s listed listedProfile number name) :
    MenuFor listed listedProfile refused f g command s menu where
  once := honce
  modules x m hx hprofile hlisted := by
    obtain ⟨width, hentry⟩ := (hmem _ _).mpr (InMenu.module hx hprofile hlisted)
    exact mem_menuNumbers.mpr ⟨width, _, hentry⟩
  profiles j p hj hlisted := by
    obtain ⟨width, hentry⟩ := (hmem _ _).mpr (InMenu.profile hj hlisted)
    exact mem_menuNumbers.mpr ⟨width, _, hentry⟩
  chosen line hline hnumber := by
    cases line with
    | text => cases hnumber
    | entry number width name =>
      have hlisted := (hmem number name).mp ⟨width, hline⟩
      exact chosen_entry h hcommand hchanges hlisted (lt_of_lt_of_le (hlisted.lt h) hcnt)

theorem nodup_selectionMenu (h : TableInv s) {texts : MenuTexts} {modCnt profCnt : Nat}
    (hmod : modCnt = 0 → ∀ m ∈ s.loaded, listed m = false)
    (hprof : profCnt = 0 → ∀ p ∈ s.profiles, listedProfile p = false) :
    (menuNumbers (selectionMenu texts listed listedProfile modCnt profCnt s)).Nodup := by
  have htitle : ∀ title menu, menuNumbers (menuTitle title :: menu) = menuNumbers menu :=
    fun _ _ => rfl
  rw [selectionMenu]
  simp only [List.cons_append, htitle, menuNumbers_append]
  refine List.Nodup.append nodup_modulesPart nodup_profilesPart fun number hmodule hprofile => ?_
  obtain ⟨width, name, hentry⟩ := mem_menuNumbers.mp hmodule
  obtain ⟨m, hx, -⟩ := (mem_modulesPart h hmod).mp ⟨width, hentry⟩
  obtain ⟨width', name', hentry'⟩ := mem_menuNumbers.mp hprofile
  obtain ⟨j, p, -, -, hj, -⟩ := (mem_profilesPart h hprof).mp ⟨width', hentry'⟩
  have hlt := (List.getElem?_eq_some_iff.mp hx).1
  rw [hj, Supervisor.loadedModulesCnt] at hlt
  omega

theorem none_counted {α : Type} {p : α → Bool} {l : List α} (h : l.countP p = 0) :
    ∀ a ∈ l, p a = false := fun a ha => by
  simpa using List.countP_eq_zero.mp h a ha

theorem all_counted {α : Type} {p : α → Bool} {l : List α} (h : l.length - l.countP p = 0) :
    ∀ a ∈ l, p a = true := by
  have hcount : l.countP p = l.length :=
    Nat.le_antisymm List.countP_le_length (Nat.sub_eq_zero_iff_le.mp h)
  exact List.countP_eq_length.mp hcount

/-- The menus of the three commands say what the commands do: in a table that was reached
by any history, each lists the modules and the profiles that it is for, each under one
number, and a number that is typed as it is printed changes what its line names and
nothing else. Only a module that needs root to be stopped is neither disabled nor restarted.
The table is small enough for its numbers to be typed as `int`. -/
theorem menus_faithful {w : World} (hw : Reachable w)
    (hcnt : w.sup.loadedModulesCnt + w.sup.loadedProfileCnt ≤ 2147483647) :
    MenuFor (fun m => !m.moduleEnabled) (fun p => !p.profileEnabled) (fun _ => false)
        enableModule (setEnabled true) interactiveSetEnabled w.sup
        (interactiveSetEnabledMenu w.sup) ∧
      MenuFor RunningModule.moduleEnabled ModulesProfile.profileEnabled
        RunningModule.moduleRootPermNeeded disableModule (setEnabled false)
        interactiveSetDisabled w.sup (interactiveSetDisabledMenu w.sup) ∧
      MenuFor (fun m => m.moduleEnabled && m.moduleStatus) (fun _ => false)
        RunningModule.moduleRootPermNeeded restartModule id
        interactiveRestartModule w.sup (interactiveRestartModuleMenu w.sup) := by
  have h := reachable_tableInv hw
  refine ⟨?enable, ?disable, ?restart⟩
  case enable =>
    have hmod : getNumDisabledModules w.sup = 0 → ∀ m ∈ w.sup.loaded, (!m.moduleEnabled) = false :=
      fun hzero m hm => by simpa using none_counted hzero m hm
    have hprof : getNumDisabledProfiles w.sup = 0 →
        ∀ p ∈ w.sup.profiles, (!p.profileEnabled) = false :=
      fun hzero p hp => by simpa using none_counted hzero p hp
    exact .intro h hcnt (fun _ => interactiveSetEnabled_eq h.profileCnt) changes_enable
      (nodup_selectionMenu h hmod hprof) fun _ _ => mem_selectionMenu h hmod hprof
  case disable =>
    have hmod : w.sup.loadedModulesCnt - getNumDisabledModules w.sup = 0 →
        ∀ m ∈ w.sup.loaded, m.moduleEnabled = false :=
      fun hzero m hm => by simpa using all_counted hzero m hm
    have hprof : w.sup.loadedProfileCnt - getNumDisabledProfiles w.sup = 0 →
        ∀ p ∈ w.sup.profiles, p.profileEnabled = false := by
      rw [h.profileCnt]
      exact fun hzero p hp => by simpa using all_counted hzero p hp
    exact .intro h hcnt (fun _ => interactiveSetDisabled_eq h.profileCnt) changes_disable
      (nodup_selectionMenu h hmod hprof) fun _ _ => mem_selectionMenu h hmod hprof
  case restart =>
    have hmod : getNumEnabledRunningModules w.sup = 0 →
        ∀ m ∈ w.sup.loaded, (m.moduleEnabled && m.moduleStatus) = false :=
      fun hzero m hm => none_counted hzero m hm
    refine .intro h hcnt (fun _ => interactiveRestartModule_eq) changes_restart ?_
      fun number name => ?_
    · exact nodup_modulesPart
    · have hentries : (∃ width, .entry number width name ∈ interactiveRestartModuleMenu w.sup) ↔
          ∃ width, .entry number width name ∈ modulesPart w.sup
            (getDigitsNum ((w.sup.loadedModulesCnt : Int) - 1))
            (fun m => m.moduleEnabled && m.moduleStatus) (getNumEnabledRunningModules w.sup)
            "   All modules are stopped.\n".toList := by
        simp only [interactiveRestartModuleMenu, menuTitle, List.mem_cons, reduceCtorEq, false_or]
      rw [hentries, mem_modulesPart h hmod]
      constructor
      · rintro ⟨m, hx, hprofile, hlisted, rfl⟩
        exact .module hx hprofile hlisted
      · rintro (⟨hx, hprofile, hlisted⟩ | ⟨_, hlisted⟩)
        · exact ⟨_, hx, hprofile, hlisted, rfl⟩
        · cases hlisted

/-- A profile that is enabled, with a disabled module. -/
theorem menus_faithful_first :
    let w := boot [] (some (profileDocument [moduleElement "a" "/a" "false" []]))
    menuNumbers (interactiveSetEnabledMenu w.sup) = [0] ∧
      menuNumbers (interactiveSetDisabledMenu w.sup) = [1] ∧
      MenuFor (fun m => !m.moduleEnabled) (fun p => !p.profileEnabled) (fun _ => false)
        enableModule (setEnabled true) interactiveSetEnabled w.sup
        (interactiveSetEnabledMenu w.sup) ∧
      MenuFor RunningModule.moduleEnabled ModulesProfile.profileEnabled
        RunningModule.moduleRootPermNeeded disableModule (setEnabled false)
        interactiveSetDisabled w.sup (interactiveSetDisabledMenu w.sup) ∧
      MenuFor (fun m => m.moduleEnabled && m.moduleStatus) (fun _ => false)
        RunningModule.moduleRootPermNeeded restartModule id
        interactiveRestartModule w.sup (interactiveRestartModuleMenu w.sup) :=
  ⟨by decide +kernel, by decide +kernel, menus_faithful ⟨[], _, [], rfl⟩ (by decide +kernel)⟩

end menus

end NemeaSupervisor
