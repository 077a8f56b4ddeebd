import NemeaSupervisor.Table

/-!
# Operator commands

The commands of the interactive mode that change the table, and the step of the
termination that stops all modules. What the operator types is given as the
result of `parse_numbers_user_selection`: `none` is its error, otherwise the
selected numbers in order. What the commands print does not appear here: the menus
are a function of the table of their own.
-/

namespace NemeaSupervisor

def getNumDisabledModules (s : Supervisor) : Nat :=
  s.loaded.countP fun m => m.moduleEnabled == false

def getNumDisabledProfiles (s : Supervisor) : Nat :=
  s.profiles.countP fun p => p.profileEnabled == false

def getNumEnabledRunningModules (s : Supervisor) : Nat :=
  s.loaded.countP fun m => m.moduleEnabled && m.moduleStatus

/-- Assignment to the profile at a position of the list. -/
def setProfileEnabled (s : Supervisor) (i : Nat) (enabled : Bool) : Supervisor :=
  { s with profiles := s.profiles.modify i fun p => { p with profileEnabled := enabled } }

/-- One selected number of `interactive_set_enabled`. -/
def enableSelected (s : Supervisor) (modToEn : Int) : Supervisor :=
  if modToEn ≥ s.loadedModulesCnt + s.loadedProfileCnt ∨ modToEn < 0 then s
  else if modToEn ≥ s.loadedModulesCnt then
    setProfileEnabled s (modToEn.toNat - s.loadedModulesCnt) true
  else
    match s.loaded[modToEn.toNat]? with
    | none => s
    | some m =>
      if m.moduleEnabled then s
      else s.setModule modToEn.toNat { m with moduleEnabled := true, moduleRestartCnt := -1 }

/-- `interactive_set_enabled`. -/
def interactiveSetEnabled (selection : Option (List Int)) (s : Supervisor) : Supervisor :=
  if getNumDisabledProfiles s = 0 ∧ getNumDisabledModules s = 0 then s
  else (selection.getD []).foldl enableSelected s

/-- One selected number of `interactive_set_disabled`. -/
def disableSelected (s : Supervisor) (modToDis : Int) : Supervisor :=
  if modToDis ≥ s.loadedModulesCnt + s.loadedProfileCnt ∨ modToDis < 0 then s
  else if modToDis ≥ s.loadedModulesCnt then
    setProfileEnabled s (modToDis.toNat - s.loadedModulesCnt) false
  else
    match s.loaded[modToDis.toNat]? with
    | none => s
    | some m =>
      if m.moduleEnabled = false then s
      else if m.moduleRootPermNeeded then s
      else s.setModule modToDis.toNat { m with moduleEnabled := false }

/-- `interactive_set_disabled`. -/
def interactiveSetDisabled (selection : Option (List Int)) (s : Supervisor) : Supervisor :=
  if s.loadedProfileCnt - getNumDisabledProfiles s = 0 ∧
      s.loadedModulesCnt - getNumDisabledModules s = 0 then s
  else (selection.getD []).foldl disableSelected s

/-- One selected number of `interactive_restart_module`. -/
def restartSelected (s : Supervisor) (modToDis : Int) : Supervisor :=
  if modToDis ≥ s.loadedModulesCnt ∨ modToDis < 0 then s
  else
    match s.loaded[modToDis.toNat]? with
    | none => s
    | some m =>
      if m.moduleEnabled = false ∨ m.moduleStatus = false then s
      else if m.moduleRootPermNeeded then s
      else
        s.setModule modToDis.toNat
          { m with
            moduleServedByServiceThread := false
            moduleEnabled := false
            initModule := true }

/-- `interactive_restart_module`. -/
def interactiveRestartModule (selection : Option (List Int)) (s : Supervisor) : Supervisor :=
  if s.loadedModulesCnt = 0 ∨ getNumEnabledRunningModules s = 0 then s
  else (selection.getD []).foldl restartSelected s

/-- `interactive_stop_configuration`. -/
def interactiveStopConfiguration (s : Supervisor) : Supervisor :=
  { s with loaded := s.loaded.map fun m => { m with moduleEnabled := false } }

end NemeaSupervisor
