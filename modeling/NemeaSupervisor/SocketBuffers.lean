import NemeaSupervisor.SocketNames

/-!
# The buffers for the names of sockets

`service_connect_to_module` and `service_stop_modules_sigkill` print the PID of a module
into an array for five digits, and the second one prints the paths of sockets into an
array of 100 bytes. Nothing bounds the PID or the names. A `Char` of a path stands for a
byte.
-/

namespace NemeaSupervisor

open CText Memory

/-! ## The paths -/

/-- `trap_default_socket_path_format`: what libtrap puts in front of the name of a socket, and what
it puts behind it. -/
structure SocketPathFormat where
  front : List Char
  back : List Char
  deriving DecidableEq, Repr

def SocketPathFormat.path (format : SocketPathFormat) (name : List Char) : List Char :=
  format.front ++ (name ++ format.back)

/-- The text of `"service_%d"`. -/
def serviceSockSpec (modulePid : Int) : List Char := "service_".toList ++ decimal modulePid

def serviceSockSpecSize : Nat := 14

/-- The bytes of `sun_path`. -/
def sunPathSize : Nat := 108

/-! ## The functions -/

/-- `service_connect_to_module` up to the opening of the socket: the array of the name, and the
path in the address. -/
def serviceConnectNames (format : SocketPathFormat) (m : RunningModule) : Buffer × Buffer :=
  let spec := (Buffer.array serviceSockSpecSize).memset.print (serviceSockSpec m.modulePid)
  (spec, (Buffer.array sunPathSize).memset.print
    ((format.path spec.text).take (sunPathSize - 1 - 1)))

/-- The arrays of `service_stop_modules_sigkill`, and the paths that it has unlinked. -/
structure SigkillBuffers where
  serviceSockSpec : Buffer
  buffer : Buffer
  unlinked : List (List Char)
  deriving DecidableEq, Repr

namespace SigkillBuffers

def init : SigkillBuffers := ⟨.array serviceSockSpecSize, .array defaultSizeOfBuffer, []⟩

def unlink (b : SigkillBuffers) : SigkillBuffers :=
  { b with unlinked := b.unlinked ++ [b.buffer.text] }

end SigkillBuffers

/-- The body of the loop over the interfaces. -/
def unlinkIfcSocket (format : SocketPathFormat) (b : SigkillBuffers) (ifc : Interface) :
    SigkillBuffers :=
  match deletedSocket ifc with
  | none => b
  | some destPort =>
    { b with
      buffer := b.buffer.memset.print (format.path (bytes (String.ofList destPort))) }.unlink

/-- The socket of the service interface. -/
def unlinkServiceSocket (format : SocketPathFormat) (m : RunningModule) (b : SigkillBuffers) :
    SigkillBuffers :=
  if m.configIfcesCnt > 0 then
    let spec := b.serviceSockSpec.memset.print (serviceSockSpec m.modulePid)
    { b with
      serviceSockSpec := spec
      buffer := b.buffer.print (format.path spec.text) }.unlink
  else b

/-- What is done for a module that is killed. -/
def unlinkSockets (format : SocketPathFormat) (m : RunningModule) (b : SigkillBuffers) :
    SigkillBuffers :=
  unlinkServiceSocket format m (m.ifces.foldl (unlinkIfcSocket format) b)

/-- The condition under which a module is killed. -/
def Killed (s : Supervisor) (m : RunningModule) : Prop :=
  m.moduleStatus ∧ (m.moduleEnabled = false ∨ s.profileDisabled m) ∧ m.sentSigint

instance (s : Supervisor) (m : RunningModule) : Decidable (Killed s m) :=
  inferInstanceAs (Decidable (_ ∧ _))

/-- The removal of socket files in `service_stop_modules_sigkill`. -/
def sigkillBuffers (format : SocketPathFormat) (s : Supervisor) : SigkillBuffers :=
  s.loaded.foldl (fun b m => if Killed s m then unlinkSockets format m b else b) .init

/-- Every string that is printed for the modules of a table fits into its array. -/
def NamesFit (format : SocketPathFormat) (s : Supervisor) : Prop :=
  (∀ m ∈ s.loaded, m.moduleStatus = true →
    (serviceConnectNames format m).1.AllInside ∧ (serviceConnectNames format m).2.AllInside) ∧
    (sigkillBuffers format s).serviceSockSpec.AllInside ∧
    (sigkillBuffers format s).buffer.AllInside

/-! ## The files that are unlinked -/

theorem bytes_serviceSockSpec (modulePid : Int) :
    bytes (String.ofList (serviceSockSpec modulePid)) = serviceSockSpec modulePid := by
  refine bytes_ascii fun c hc => ?_
  rcases List.mem_append.mp hc with hservice | hpid
  · have hall : "service_".toList.all (fun c => decide (c.toNat < 128)) = true := by decide
    simpa using List.all_eq_true.mp hall c hservice
  · exact decimal_ascii modulePid c hpid

/-! ## What fits -/

/-- A PID of at most five characters. -/
def ShortPid (modulePid : Int) : Prop := -10000 < modulePid ∧ modulePid < 100000

instance (modulePid : Int) : Decidable (ShortPid modulePid) :=
  inferInstanceAs (Decidable (_ ∧ _))

/-- A name of `n` bytes leaves room for the rest of the path. -/
def SocketPathFormat.Fits (format : SocketPathFormat) (n : Nat) : Prop :=
  format.front.length + n + format.back.length < defaultSizeOfBuffer

/-- The names of the sockets of a module are short enough: the parameters of its output sockets up
to the first comma, and its PID. -/
structure ShortNames (format : SocketPathFormat) (m : RunningModule) : Prop where
  ifces : ∀ ifc ∈ m.ifces, ifc.intIfcType = unixsocketModuleIfcType →
    ifc.intIfcDirection = outModuleIfcDirection → ∀ ifcParams ∈ ifc.ifcParams,
      format.Fits (bytes (String.ofList (ifcParams.toList.takeWhile fun c => c ≠ ','))).length
  service : m.configIfcesCnt > 0 → ShortPid m.modulePid ∧
    format.Fits (8 + (decimal m.modulePid).length)

theorem decimal_length_le_iff (pid : Int) : (decimal pid).length ≤ 5 ↔ ShortPid pid := by
  rw [ShortPid]
  by_cases hneg : 0 ≤ pid
  · obtain ⟨n, rfl⟩ := Int.eq_ofNat_of_zero_le hneg
    rw [decimal_natCast, Nat.length_toDigits_le_iff (by omega) (by omega)]
    omega
  · rw [decimal_of_neg hneg, List.length_cons, Nat.add_le_add_iff_right (n := 1) (k := 4),
      Nat.length_toDigits_le_iff (by omega) (by omega)]
    omega

theorem path_length (format : SocketPathFormat) (name : List Char) :
    (format.path name).length < defaultSizeOfBuffer ↔ format.Fits name.length := by
  rw [SocketPathFormat.path, List.length_append, List.length_append, SocketPathFormat.Fits,
    Nat.add_assoc]

theorem serviceSockSpec_length (pid : Int) :
    (serviceSockSpec pid).length = 8 + (decimal pid).length := by
  have hservice : "service_".toList.length = 8 := by decide
  exact List.length_append.trans (congrArg (fun n => n + (decimal pid).length) hservice)

theorem serviceSockSpec_fits_iff (pid : Int) :
    (serviceSockSpec pid).length < serviceSockSpecSize ↔ ShortPid pid := by
  rw [← decimal_length_le_iff, serviceSockSpec_length, serviceSockSpecSize]
  omega

namespace SigkillBuffers

/-- Both arrays are printed from their start. -/
structure Sized (b : SigkillBuffers) : Prop where
  specPtr : b.serviceSockSpec.ptr = 0
  specSize : b.serviceSockSpec.size = serviceSockSpecSize
  ptr : b.buffer.ptr = 0
  size : b.buffer.size = defaultSizeOfBuffer

def Inside (b : SigkillBuffers) : Prop := b.serviceSockSpec.AllInside ∧ b.buffer.AllInside

theorem init_sized : init.Sized := ⟨rfl, rfl, rfl, rfl⟩

theorem init_inside : init.Inside := ⟨Buffer.array_allInside _, Buffer.array_allInside _⟩

/-- Between two states everything is inside if and only if `P` holds. -/
def Adds (b b' : SigkillBuffers) (P : Prop) : Prop := b'.Sized ∧ (b'.Inside ↔ P ∧ b.Inside)

theorem foldl_adds {α : Type} {f : SigkillBuffers → α → SigkillBuffers} {P : α → Prop}
    (hstep : ∀ b a, b.Sized → Adds b (f b a) (P a)) (l : List α) {b : SigkillBuffers}
    (h : b.Sized) : Adds b (l.foldl f b) (∀ a ∈ l, P a) := by
  induction l generalizing b with
  | nil => exact ⟨h, by simp⟩
  | cons a l ih =>
    obtain ⟨hsized, hinside⟩ := hstep b a h
    obtain ⟨hsized', hinside'⟩ := ih hsized
    refine ⟨hsized', hinside'.trans ?_⟩
    rw [hinside, List.forall_mem_cons, ← and_assoc, and_comm (a := ∀ a ∈ l, P a)]

end SigkillBuffers

open SigkillBuffers

theorem print_inside {b : Buffer} {n : Nat} (hptr : b.ptr = 0) (hsize : b.size = n)
    (s : List Char) : (b.print s).AllInside ↔ s.length < n ∧ b.AllInside := by
  rw [Buffer.print_allInside, hptr, hsize, Nat.zero_add, Nat.succ_le_iff]

theorem unlinkIfcSocket_adds (format : SocketPathFormat) (b : SigkillBuffers) (ifc : Interface)
    (h : b.Sized) : Adds b (unlinkIfcSocket format b ifc)
      (∀ destPort ∈ deletedSocket ifc, format.Fits (bytes (String.ofList destPort)).length) := by
  rw [unlinkIfcSocket]
  cases deletedSocket ifc with
  | none => exact ⟨h, by simp⟩
  | some destPort =>
    refine ⟨⟨h.specPtr, h.specSize, h.ptr, h.size⟩, ?_⟩
    simp only [Inside, unlink, Option.mem_some_iff, forall_eq']
    rw [print_inside (b := b.buffer.memset) h.ptr h.size, path_length, Buffer.memset_allInside]
    exact and_left_comm

theorem unlinkServiceSocket_adds (format : SocketPathFormat) (m : RunningModule)
    (b : SigkillBuffers) (h : b.Sized) : Adds b (unlinkServiceSocket format m b)
      (m.configIfcesCnt > 0 → ShortPid m.modulePid ∧
        format.Fits (8 + (decimal m.modulePid).length)) := by
  rw [unlinkServiceSocket]
  split
  · next hifces =>
    have hspec : (b.serviceSockSpec.memset.print (serviceSockSpec m.modulePid)).text =
        serviceSockSpec m.modulePid := by
      simp only [Buffer.print, Buffer.memset, List.take_nil, List.nil_append]
    refine ⟨⟨h.specPtr, h.specSize, h.ptr, h.size⟩, ?_⟩
    simp only [Inside, unlink, hspec]
    rw [print_inside (b := b.serviceSockSpec.memset) h.specPtr h.specSize,
      print_inside h.ptr h.size, path_length,
      serviceSockSpec_fits_iff, serviceSockSpec_length, Buffer.memset_allInside]
    tauto
  · next hifces => exact ⟨h, by simp [hifces]⟩

theorem deletedSocket_fits_iff (format : SocketPathFormat) (ifc : Interface) :
    (∀ destPort ∈ deletedSocket ifc, format.Fits (bytes (String.ofList destPort)).length) ↔
      (ifc.intIfcType = unixsocketModuleIfcType → ifc.intIfcDirection = outModuleIfcDirection →
        ∀ ifcParams ∈ ifc.ifcParams, format.Fits
          (bytes (String.ofList (ifcParams.toList.takeWhile fun c => c ≠ ','))).length) := by
  by_cases hsocket : ifc.intIfcType = unixsocketModuleIfcType ∧
      ifc.intIfcDirection = outModuleIfcDirection
  · cases hparams : ifc.ifcParams with
    | none => simp [deletedSocket, hparams]
    | some ifcParams =>
      rw [deletedSocket_eq hsocket.1 hsocket.2 hparams]
      simp [hsocket]
  · have hnone : deletedSocket ifc = none := if_neg hsocket
    rw [hnone]
    exact iff_of_true (by simp) fun htype hdirection => absurd ⟨htype, hdirection⟩ hsocket

theorem unlinkSockets_adds (format : SocketPathFormat) (m : RunningModule) (b : SigkillBuffers)
    (h : b.Sized) : Adds b (unlinkSockets format m b) (ShortNames format m) := by
  obtain ⟨hsized, hinside⟩ :=
    foldl_adds (fun b ifc hb => unlinkIfcSocket_adds format b ifc hb) m.ifces h
  obtain ⟨hsized', hinside'⟩ := unlinkServiceSocket_adds format m _ hsized
  refine ⟨hsized', hinside'.trans ?_⟩
  rw [hinside, ← and_assoc]
  refine and_congr_left' ⟨fun hfits => ⟨fun ifc hifc => ?_, hfits.1⟩, fun hfits => ?_⟩
  · exact (deletedSocket_fits_iff format ifc).mp (hfits.2 ifc hifc)
  · exact ⟨hfits.service, fun ifc hifc =>
      (deletedSocket_fits_iff format ifc).mpr (hfits.ifces ifc hifc)⟩

/-- The strings in the buffer are the paths of the files that are to be unlinked. -/
theorem unlinkSockets_unlinked (format : SocketPathFormat) (m : RunningModule)
    (b : SigkillBuffers) (h : b.Sized) : (unlinkSockets format m b).unlinked =
      b.unlinked ++ unlinkedSockets (fun name => format.path (bytes (String.ofList name))) m := by
  have hifces : ∀ (ifces : List Interface) (b : SigkillBuffers),
      (ifces.foldl (unlinkIfcSocket format) b).unlinked = b.unlinked ++
        (ifces.filterMap deletedSocket).map fun name =>
          format.path (bytes (String.ofList name)) := by
    intro ifces
    induction ifces with
    | nil => simp
    | cons ifc ifces ih =>
      intro b
      rw [List.foldl_cons, ih, unlinkIfcSocket, List.filterMap_cons]
      cases deletedSocket ifc with
      | none => rfl
      | some destPort => simp [unlink, Buffer.print, Buffer.memset]
  obtain ⟨hsized, -⟩ :=
    foldl_adds (fun b ifc hb => unlinkIfcSocket_adds format b ifc hb) m.ifces h
  have hservice := bytes_serviceSockSpec m.modulePid
  have hspec : "service_".toList ++ (toString m.modulePid).toList =
      serviceSockSpec m.modulePid := rfl
  rw [unlinkedSockets_eq, hspec, hservice, ← List.append_assoc, ← hifces, unlinkSockets,
    unlinkServiceSocket]
  split
  · simp [unlink, Buffer.print, Buffer.memset, hsized.ptr]
  · exact (List.append_nil _).symm

theorem sigkillBuffers_inside (format : SocketPathFormat) (s : Supervisor) :
    (sigkillBuffers format s).Inside ↔ ∀ m ∈ s.loaded, Killed s m → ShortNames format m := by
  have hstep : ∀ (b : SigkillBuffers) (m : RunningModule), b.Sized →
      Adds b (if Killed s m then unlinkSockets format m b else b)
        (Killed s m → ShortNames format m) := by
    intro b m hb
    split
    · next hkilled =>
      obtain ⟨hsized, hinside⟩ := unlinkSockets_adds format m b hb
      exact ⟨hsized, by rw [hinside, forall_prop_of_true hkilled]⟩
    · next hkilled => exact ⟨hb, by simp [hkilled]⟩
  obtain ⟨-, hinside⟩ := foldl_adds hstep s.loaded init_sized
  rw [sigkillBuffers, hinside]
  exact and_iff_left init_inside

/-- The path in the address is cut off where the address ends. -/
theorem serviceConnectNames_inside_iff (format : SocketPathFormat) (m : RunningModule) :
    ((serviceConnectNames format m).1.AllInside ∧ (serviceConnectNames format m).2.AllInside) ↔
      ShortPid m.modulePid := by
  have hspec (n : Nat) (t : List Char) :
      ((Buffer.array n).memset.print t).AllInside ↔ t.length < n := by
    rw [print_inside (b := (Buffer.array n).memset) rfl rfl, Buffer.memset_allInside]
    exact and_iff_left (Buffer.array_allInside n)
  rw [serviceConnectNames, hspec, hspec, serviceSockSpec_fits_iff, List.length_take, sunPathSize]
  exact and_iff_left (by omega)

/-- The strings that are printed for the modules fit into their arrays if and only if the PIDs take
at most five characters and the names of the sockets of killed modules are short. -/
theorem namesFit_iff (format : SocketPathFormat) (s : Supervisor) :
    NamesFit format s ↔ ∀ m ∈ s.loaded, m.moduleStatus = true →
      ShortPid m.modulePid ∧ (Killed s m → ShortNames format m) := by
  have hkilled : (sigkillBuffers format s).serviceSockSpec.AllInside ∧
      (sigkillBuffers format s).buffer.AllInside ↔ _ := sigkillBuffers_inside format s
  simp only [NamesFit, serviceConnectNames_inside_iff]
  rw [hkilled]
  constructor
  · rintro ⟨hconnect, hsigkill⟩ m hm hstatus
    exact ⟨hconnect m hm hstatus, hsigkill m hm⟩
  · intro h
    exact ⟨fun m hm hstatus => (h m hm hstatus).1, fun m hm hk => (h m hm hk.1).2 hk⟩

/-- A module with an output socket of these parameters. -/
def sensorDocument (ifcParams : String) : XmlNode :=
  argumentsDocument "-v" [interfaceElement "UNIXSOCKET" "OUT" [.textElement "params" ifcParams]]

def trapFormat : SocketPathFormat := ⟨"/var/run/libtrap/trap-".toList, ".sock".toList⟩

/-- A module that has been started with a PID of six digits. -/
def sixDigits : World :=
  Run.run step (boot [] (some (sensorDocument "sensor"))) [.cycle [⟨[], 100000, -1, false⟩]]

/-- A module that is killed, with 100 bytes for the name of its socket. -/
def longName : World :=
  Run.run step (boot [] (some (sensorDocument (String.ofList (List.replicate 100 's')))))
    [.cycle [⟨[], 4711, -1, false⟩], .setDisabled (some [0]), .cycle [], .cycle []]

/-- The path of a socket with a long name does not fit, whatever the PID is. -/
theorem longName_not_inside : Reachable longName ∧
    (∀ m ∈ longName.sup.loaded, ShortPid m.modulePid) ∧
    ¬ (sigkillBuffers trapFormat longName.sup).Inside := by
  obtain ⟨hpids, m, hm, hkilled, ifc, hifc, htype, hdirection, hparams⟩ :
      (∀ m ∈ longName.sup.loaded, ShortPid m.modulePid) ∧
      ∃ m ∈ longName.sup.loaded, Killed longName.sup m ∧ ∃ ifc ∈ m.ifces,
        ifc.intIfcType = unixsocketModuleIfcType ∧ ifc.intIfcDirection = outModuleIfcDirection ∧
        ifc.ifcParams = some (String.ofList (List.replicate 100 's')) := by decide +kernel
  refine ⟨⟨_, _, _, rfl⟩, hpids, fun h => ?_⟩
  have hshort := (sigkillBuffers_inside trapFormat longName.sup).mp h m hm hkilled
  have hfits := hshort.ifces ifc hifc htype hdirection _ hparams
  rw [SocketPathFormat.Fits] at hfits
  exact absurd hfits (by decide +kernel)

/-- The name of a service socket does not fit for a PID of six digits. -/
theorem not_namesFit : ¬ ∀ w, Reachable w →
    (∀ m ∈ w.sup.loaded, m.moduleStatus = true → 1 ≤ m.modulePid ∧ m.modulePid ≤ 2 ^ 22) →
    NamesFit trapFormat w.sup := by
  intro h
  obtain ⟨hpids, hne⟩ :
      (∀ m ∈ sixDigits.sup.loaded, m.moduleStatus = true ∧ m.modulePid = 100000) ∧
      sixDigits.sup.loaded ≠ [] := by decide +kernel
  obtain ⟨m, hmem⟩ := List.exists_mem_of_ne_nil _ hne
  obtain ⟨hconnect, -⟩ := h sixDigits ⟨_, _, _, rfl⟩ fun m hm _ => by
    rw [(hpids m hm).2]
    decide
  obtain ⟨hstatus, hpid⟩ := hpids m hmem
  have hshort := (serviceConnectNames_inside_iff trapFormat m).mp (hconnect m hmem hstatus)
  rw [hpid] at hshort
  exact absurd hshort.2 (by decide)

end NemeaSupervisor
