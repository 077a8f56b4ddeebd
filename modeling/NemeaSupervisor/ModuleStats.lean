import NemeaSupervisor.Json

/-!
# Statistics of the modules

What `service_decode_module_stats` keeps of the messages of a module. The decoder
writes into the arrays as it goes through a message, so that one that fails on
its way leaves what it has written so far. The texts of its log are not modelled.
-/

namespace NemeaSupervisor

/-- `in_ifc_stats_t`; a missing string is a NULL pointer. -/
structure InIfcStats where
  ifcState : UInt8
  ifcType : UInt8
  ifcId : Option String
  recvMsgCnt : UInt64
  recvBufferCnt : UInt64
  deriving DecidableEq, Repr

/-- `out_ifc_stats_t`. -/
structure OutIfcStats where
  numClients : Int32
  ifcType : UInt8
  ifcId : Option String
  sentMsgCnt : UInt64
  droppedMsgCnt : UInt64
  sentBufferCnt : UInt64
  autoflushCnt : UInt64
  deriving DecidableEq, Repr

/-- Entries as `calloc` returns them. -/
def InIfcStats.zero : InIfcStats := ⟨0, 0, none, 0, 0⟩
def OutIfcStats.zero : OutIfcStats := ⟨0, 0, none, 0, 0, 0, 0⟩

/-- `in_ifces_data` and `out_ifces_data`; their counts are their lengths. -/
structure ModuleStats where
  inIfcesData : List InIfcStats
  outIfcesData : List OutIfcStats
  deriving DecidableEq, Repr

def ModuleStats.zero : ModuleStats := ⟨[], []⟩

/-! ## The decoder -/

section decoder

variable {σ : Type}

/-- The keys of an interface object in the order of the source, with what each value does to the
entry; a value of the wrong type does nothing and ends the decoding. -/
abbrev IfcFields (σ : Type) := List (String × (Json → σ → Option σ))

/-- One interface object: the entry and whether the decoding goes on. -/
def decodeFields (ifcCnts : Json) : IfcFields σ → σ → σ × Bool
  | [], ifc => (ifc, true)
  | (key, store) :: fields, ifc =>
    match (ifcCnts.objectGet key).bind fun cnt => store cnt ifc with
    | some ifc => decodeFields ifcCnts fields ifc
    | none => (ifc, false)

/-- The loop over the array of a message, which ends with the entries or with the array. -/
def decodeIfces (fields : IfcFields σ) : List Json → List σ → List σ × Bool
  | _, [] => ([], true)
  | [], ifces => (ifces, true)
  | ifcCnts :: ifcesArr, ifc :: ifces =>
    match (if ifcCnts.isObject then decodeFields ifcCnts fields ifc else (ifc, false)) with
    | (ifc, true) =>
      let (ifces, decoded) := decodeIfces fields ifcesArr ifces
      (ifc :: ifces, decoded)
    | (ifc, false) => (ifc :: ifces, false)

/-- The entries are allocated anew when their number changes. -/
def reallocIfces (zero : σ) (allocated : Bool) (ifcCnt : Nat) (ifces : List σ) : List σ × Bool :=
  if ifcCnt = ifces.length then (ifces, true)
  else if allocated then (List.replicate ifcCnt zero, true)
  else ([], false)

/-- The array under a key of the message. -/
def ifcesArray (root : Json) (key : String) : Option (List Json) :=
  (root.objectGet key).bind Json.elements?

/-- The array is needed when there is an interface. -/
def decodeIfcesArray (fields : IfcFields σ) (ifcesArr : Option (List Json)) (ifces : List σ) :
    List σ × Bool :=
  if ifces = [] then ([], true)
  else
    match ifcesArr with
    | none => (ifces, false)
    | some ifcesArr => decodeIfces fields ifcesArr ifces

end decoder

/-- `json_integer_value` stored in a `char`, a counter or a `uint32_t`. -/
def charValue (cnt : Json) : UInt8 := UInt8.ofInt cnt.integerValue
def counterValue (cnt : Json) : UInt64 := UInt64.ofInt cnt.integerValue
def ifcCntValue (cnt : Json) : Nat := (cnt.integerValue % 4294967296).toNat

def inIfcFields : IfcFields InIfcStats :=
  [("messages", fun cnt ifc => some { ifc with recvMsgCnt := counterValue cnt }),
    ("buffers", fun cnt ifc => some { ifc with recvBufferCnt := counterValue cnt }),
    ("ifc_type", fun cnt ifc => some { ifc with ifcType := charValue cnt }),
    ("ifc_state", fun cnt ifc => some { ifc with ifcState := charValue cnt }),
    ("ifc_id", fun cnt ifc => cnt.stringValue.map fun str => { ifc with ifcId := some str })]

def outIfcFields : IfcFields OutIfcStats :=
  [("sent-messages", fun cnt ifc => some { ifc with sentMsgCnt := counterValue cnt }),
    ("dropped-messages", fun cnt ifc => some { ifc with droppedMsgCnt := counterValue cnt }),
    ("buffers", fun cnt ifc => some { ifc with sentBufferCnt := counterValue cnt }),
    ("autoflushes", fun cnt ifc => some { ifc with autoflushCnt := counterValue cnt }),
    ("num_clients", fun cnt ifc => some { ifc with numClients := Int32.ofInt cnt.integerValue }),
    ("ifc_type", fun cnt ifc => some { ifc with ifcType := charValue cnt }),
    ("ifc_id", fun cnt ifc => cnt.stringValue.map fun str => { ifc with ifcId := some str })]

/-- What `calloc` returns for the two arrays. -/
structure Allocations where
  inIfces : Bool
  outIfces : Bool
  deriving DecidableEq, Repr

/-- The arrays of a message, the input interfaces first. -/
def decodeIfcesData (root : Json) (s : ModuleStats) : ModuleStats × Bool :=
  match decodeIfcesArray inIfcFields (ifcesArray root "in") s.inIfcesData with
  | (inIfcesData, false) => ({ s with inIfcesData }, false)
  | (inIfcesData, true) =>
    let (outIfcesData, decoded) :=
      decodeIfcesArray outIfcFields (ifcesArray root "out") s.outIfcesData
    (⟨inIfcesData, outIfcesData⟩, decoded)

/-- The number of output interfaces, once that of the input interfaces is settled. -/
def decodeOutCnt (allocated : Bool) (root : Json) (s : ModuleStats) : ModuleStats × Bool :=
  match root.objectGet "out_cnt" with
  | none => (s, false)
  | some cnt =>
    match reallocIfces .zero allocated (ifcCntValue cnt) s.outIfcesData with
    | (outIfcesData, false) => ({ s with outIfcesData }, false)
    | (outIfcesData, true) => decodeIfcesData root { s with outIfcesData }

/-- `service_decode_module_stats` of the parsed message, which is missing when it is no JSON. -/
def serviceDecodeModuleStats (callocs : Allocations) (jsonStruct : Option Json) (s : ModuleStats) :
    ModuleStats × Bool :=
  match jsonStruct with
  | none => (s, false)
  | some root =>
    if root.isObject = false then (s, false)
    else
      match root.objectGet "in_cnt" with
      | none => (s, false)
      | some cnt =>
        match reallocIfces .zero callocs.inIfces (ifcCntValue cnt) s.inIfcesData with
        | (inIfcesData, false) => ({ s with inIfcesData }, false)
        | (inIfcesData, true) => decodeOutCnt callocs.outIfces root { s with inIfcesData }

end NemeaSupervisor
