import NemeaSupervisor.ArgumentMemory

/-!
# The names of the socket files

A module that is killed leaves the files of its sockets behind, and
`service_stop_modules_sigkill` deletes them. It takes the name of a socket from the
parameters of the interface up to the first comma. The module itself was started with
the field of `prep_module_args`, in which the name ends at the first colon: an option
behind a comma is written with a colon there, but an option behind a colon stays in
the name that is deleted.
-/

namespace NemeaSupervisor

open CText Memory

/-- The name that is printed into the path of the socket file of an interface. -/
def deletedSocket (ifc : Interface) : Option (List Char) :=
  if ifc.intIfcType = unixsocketModuleIfcType ∧ ifc.intIfcDirection = outModuleIfcDirection then
    ifc.ifcParams.map fun ifcParams => (getParamByDelimiter ifcParams.toList ',').1
  else none

/-- The files that `service_stop_modules_sigkill` unlinks for a killed module: those of
its interfaces in order, and that of its service interface. -/
def unlinkedSockets (trapDefaultSocketPathFormat : List Char → List Char) (m : RunningModule) :
    List (List Char) :=
  let sockets := m.ifces.foldl
    (fun sockets ifc => match deletedSocket ifc with
      | none => sockets
      | some destPort => sockets ++ [trapDefaultSocketPathFormat destPort]) []
  if m.configIfcesCnt > 0 then
    sockets ++ [trapDefaultSocketPathFormat ("service_".toList ++ (toString m.modulePid).toList)]
  else sockets

/-- The name in a field of the specifier: behind the letter of the type, up to the next
colon. -/
def startedSocket (field : List Char) : List Char := (field.drop 2).takeWhile fun c => c ≠ ':'

theorem unlinkedSockets_eq (path : List Char → List Char) (m : RunningModule) :
    unlinkedSockets path m = (m.ifces.filterMap deletedSocket).map path ++
      if m.configIfcesCnt > 0 then [path ("service_".toList ++ (toString m.modulePid).toList)]
      else [] := by
  have hloop : ∀ (ifces : List Interface) (sockets : List (List Char)),
      ifces.foldl (fun sockets ifc => match deletedSocket ifc with
        | none => sockets
        | some destPort => sockets ++ [path destPort]) sockets =
      sockets ++ (ifces.filterMap deletedSocket).map path := by
    intro ifces
    induction ifces with
    | nil => simp
    | cons ifc ifces ih =>
      intro sockets
      rw [List.foldl_cons, ih, List.filterMap_cons]
      cases deletedSocket ifc with
      | none => rfl
      | some destPort => simp
  rw [unlinkedSockets, hloop]
  split_ifs <;> simp

variable {ifc : Interface} {ifcParams : String}

theorem deletedSocket_eq (htype : ifc.intIfcType = unixsocketModuleIfcType)
    (hdirection : ifc.intIfcDirection = outModuleIfcDirection)
    (hparams : ifc.ifcParams = some ifcParams) :
    deletedSocket ifc = some (ifcParams.toList.takeWhile fun c => c ≠ ',') := by
  rw [deletedSocket, if_pos ⟨htype, hdirection⟩, hparams, Option.map_some, getParamByDelimiter]
  split_ifs with hcomma
  · rfl
  · have hall : ∀ c ∈ ifcParams.toList, decide (c ≠ ',') = true := by
      intro c hc
      rw [decide_eq_true_eq]
      rintro rfl
      exact hcomma hc
    rw [List.takeWhile_eq_self_iff.mpr hall]

/-- Up to the first colon, a colon for the first comma makes no difference beyond it. -/
theorem takeWhile_firstColon (cs : List Char) :
    (firstColon cs).takeWhile (fun c => c ≠ ':') =
      (cs.takeWhile fun c => c ≠ ',').takeWhile fun c => c ≠ ':' := by
  induction cs with
  | nil => rfl
  | cons c cs ih =>
    rw [firstColon]
    split_ifs with hcomma
    · simp [hcomma]
    · have hkeep : (c :: cs).takeWhile (fun c => c ≠ ',') =
          c :: cs.takeWhile fun c => c ≠ ',' :=
        List.takeWhile_cons_of_pos (by simpa using hcomma)
      rw [hkeep, List.takeWhile_cons, List.takeWhile_cons, ih]

theorem takeWhile_ne_eq_self_iff {cs : List Char} {a : Char} :
    cs.takeWhile (fun c => c ≠ a) = cs ↔ a ∉ cs := by
  rw [List.takeWhile_eq_self_iff]
  constructor
  · intro hall hmem
    simpa using hall a hmem
  · intro hmem c hc
    rw [decide_eq_true_eq]
    rintro rfl
    exact hmem hc

/-- The field that `prep_module_args` prints for an output socket starts with the name that
is deleted exactly when no colon stands in front of the first comma of its parameters. -/
theorem deleted_socket_eq_started_iff {st : IfcSpec} (hend : st.spec.AtEnd)
    (hok : st.failed = false) (htype : ifc.intIfcType = unixsocketModuleIfcType)
    (hdirection : ifc.intIfcDirection = outModuleIfcDirection)
    (hparams : ifc.ifcParams = some ifcParams) :
    ∃ field, (addIfcMemory st ifc).spec.text = st.spec.text ++ utf8 (field ++ [',']) ∧
      (deletedSocket ifc = some (startedSocket field) ↔
        ':' ∉ ifcParams.toList.takeWhile fun c => c ≠ ',') := by
  have hconnectable : Connectable ifc := by
    refine ⟨?_, .inr hdirection, ?_⟩
    · rw [htype]
      decide
    · rw [hparams]
      exact Option.some_ne_none ifcParams
  have htyped : Typed ifc := by
    rw [Typed, htype]
    rfl
  obtain ⟨b, heq, hadded⟩ := addIfcMemory_typed hend htyped
  refine ⟨fieldText ifc, ?_, ?_⟩
  · rw [← hconnectable.ifcText, ← hadded.text, show st = ⟨st.spec, false⟩ by rw [← hok], heq]
  · have hfield : startedSocket (fieldText ifc) =
        (ifcParams.toList.takeWhile fun c => c ≠ ',').takeWhile fun c => c ≠ ':' := by
      rw [← takeWhile_firstColon, startedSocket, fieldText, hparams]
      rfl
    rw [deletedSocket_eq htype hdirection hparams, hfield, Option.some_inj, eq_comm,
      takeWhile_ne_eq_self_iff]

/-- An output socket with these parameters. -/
def outputSocket (ifcParams : String) : Interface :=
  { Interface.zero with
    ifcType := some "UNIXSOCKET"
    intIfcType := unixsocketModuleIfcType
    ifcDirection := some "OUT"
    intIfcDirection := outModuleIfcDirection
    ifcParams := some ifcParams }

/-- An option behind a comma. -/
theorem deleted_socket_eq_started_iff_comma :
    ∃ field, (addIfcMemory ⟨.calloc defaultSizeOfBuffer, false⟩
        (outputSocket "blacklist_aggregator_ip,timeout=1000")).spec.text =
        [] ++ utf8 (field ++ [',']) ∧
      deletedSocket (outputSocket "blacklist_aggregator_ip,timeout=1000") =
        some (startedSocket field) := by
  obtain ⟨field, htext, hiff⟩ := @deleted_socket_eq_started_iff
    (outputSocket "blacklist_aggregator_ip,timeout=1000") _ ⟨.calloc defaultSizeOfBuffer, false⟩
    (Buffer.calloc_atEnd defaultSizeOfBuffer) rfl rfl rfl rfl
  exact ⟨field, htext, hiff.mpr (by decide)⟩

/-- The option behind a colon is deleted as a part of the name. -/
theorem not_deleted_socket_eq_started :
    ¬ ∀ (ifc : Interface) (field : List Char),
      ifc.intIfcType = unixsocketModuleIfcType → ifc.intIfcDirection = outModuleIfcDirection →
      ifc.ifcParams ≠ none →
      (addIfcMemory ⟨.calloc defaultSizeOfBuffer, false⟩ ifc).spec.text = utf8 (field ++ [',']) →
      deletedSocket ifc = some (startedSocket field) := by
  intro h
  have := h (outputSocket "blacklist_aggregator_ip:timeout=1000")
    "u:blacklist_aggregator_ip:timeout=1000".toList rfl rfl (by simp [outputSocket]) (by decide)
  exact absurd this (by decide)

end NemeaSupervisor
