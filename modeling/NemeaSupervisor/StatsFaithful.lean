import NemeaSupervisor.StatsMessages
import Mathlib.Data.List.Forall2

/-!
# Messages decoded as they are, or not at all

Which messages the decoder either takes over exactly or refuses without a trace. It
writes as it reads, so that a message refused has to repeat what is known as far as
the decoder comes; one accepted has to announce counts that fit and describe all of
its interfaces with values that fit.
-/

namespace NemeaSupervisor

section fields

variable {σ : Type} {ifcCnts : Json} {fields : IfcFields σ} {ifc : σ}

/-- The keys that the decoder comes to repeat what the entry holds. -/
def FieldsHeld (ifcCnts : Json) : IfcFields σ → σ → Prop
  | [], _ => True
  | (key, store) :: fields, ifc =>
    match (ifcCnts.objectGet key).bind fun cnt => store cnt ifc with
    | some ifc' => ifc' = ifc ∧ FieldsHeld ifcCnts fields ifc
    | none => True

/-- The entry holds the value of every key. -/
def Stored (fields : IfcFields σ) (ifc : σ) (ifcCnts : Json) : Prop :=
  ∀ f ∈ fields, ∃ cnt, ifcCnts.objectGet f.1 = some cnt ∧ f.2 cnt ifc = some ifc

/-- Every key has a field of its own: a value stored again changes nothing, and it does not matter
which of two keys is stored first. -/
structure Independent (fields : IfcFields σ) : Prop where
  idempotent : ∀ f ∈ fields, ∀ cnt ifc, (f.2 cnt ifc).bind (f.2 cnt) = f.2 cnt ifc
  commute : fields.Pairwise fun f g => ∀ cnt cnt' ifc,
    (f.2 cnt ifc).bind (g.2 cnt') = (g.2 cnt' ifc).bind (f.2 cnt)

section independent

variable {key : String} {store : Json → σ → Option σ} {ifc' : σ} {cnt : Json}

theorem Independent.tail (h : Independent ((key, store) :: fields)) : Independent fields :=
  ⟨fun g hg => h.idempotent g (List.mem_cons_of_mem _ hg), (List.pairwise_cons.mp h.commute).2⟩

theorem Independent.again (h : Independent ((key, store) :: fields))
    (hstore : store cnt ifc = some ifc') : store cnt ifc' = some ifc' := by
  have hbind := h.idempotent (key, store) (by simp) cnt ifc
  simp only [hstore] at hbind
  exact hbind

/-- What the first key stored is there at the end. -/
theorem Independent.keeps (h : Independent ((key, store) :: fields))
    (hstored : store cnt ifc = some ifc) :
    store cnt (decodeFields ifcCnts fields ifc).1 = some (decodeFields ifcCnts fields ifc).1 := by
  have hcommute := (List.pairwise_cons.mp h.commute).1
  clear h
  induction fields generalizing ifc with
  | nil => exact hstored
  | cons g fields ih =>
    obtain ⟨hfirst, hrest⟩ := List.forall_mem_cons.mp hcommute
    rw [decodeFields]
    cases hget : (ifcCnts.objectGet g.1).bind fun cnt => g.2 cnt ifc with
    | none => exact hstored
    | some ifc' =>
      obtain ⟨cnt', -, hstore⟩ := Option.bind_eq_some_iff.mp hget
      have hboth := hfirst cnt cnt' ifc
      simp only [hstored, hstore, Option.bind_some] at hboth
      exact ih hboth.symm hrest

end independent

theorem decodeFields_unchanged (h : Independent fields) :
    (decodeFields ifcCnts fields ifc).1 = ifc ↔ FieldsHeld ifcCnts fields ifc := by
  induction fields generalizing ifc with
  | nil => simp [decodeFields, FieldsHeld]
  | cons f fields ih =>
    obtain ⟨key, store⟩ := f
    rw [decodeFields, FieldsHeld]
    cases hget : (ifcCnts.objectGet key).bind fun cnt => store cnt ifc with
    | none => simp
    | some ifc' =>
      obtain ⟨cnt, -, hstore⟩ := Option.bind_eq_some_iff.mp hget
      have hkept : store cnt (decodeFields ifcCnts fields ifc').1 =
          some (decodeFields ifcCnts fields ifc').1 := h.keeps (h.again hstore)
      simp only
      constructor
      · intro hsame
        -- the value is still there at the end, so that storing it changed nothing
        rw [hsame] at hkept
        have heq : ifc' = ifc := Option.some.inj (hstore.symm.trans hkept)
        subst heq
        exact ⟨rfl, (ih h.tail).mp hsame⟩
      · rintro ⟨rfl, hheld⟩
        exact (ih h.tail).mpr hheld

theorem decodeFields_stored (h : Independent fields)
    (hdecoded : (decodeFields ifcCnts fields ifc).2 = true) :
    Stored fields (decodeFields ifcCnts fields ifc).1 ifcCnts := by
  induction fields generalizing ifc with
  | nil => simp [Stored]
  | cons f fields ih =>
    obtain ⟨key, store⟩ := f
    rw [decodeFields] at hdecoded ⊢
    cases hget : (ifcCnts.objectGet key).bind fun cnt => store cnt ifc with
    | none => simp [hget] at hdecoded
    | some ifc' =>
      rw [hget] at hdecoded
      obtain ⟨cnt, hcnt, hstore⟩ := Option.bind_eq_some_iff.mp hget
      have hfirst : store cnt (decodeFields ifcCnts fields ifc').1 =
          some (decodeFields ifcCnts fields ifc').1 := h.keeps (h.again hstore)
      unfold Stored
      rw [List.forall_mem_cons]
      exact ⟨⟨cnt, hcnt, hfirst⟩, ih h.tail hdecoded⟩

theorem inIfcIndependent : Independent inIfcFields := by
  constructor
  · simp only [inIfcFields, List.forall_mem_cons, Option.bind_some, implies_true, true_and]
    refine ⟨fun cnt ifc => ?_, by simp⟩
    cases cnt.stringValue <;> rfl
  · simp [inIfcFields, Option.map_eq_bind, Option.bind_assoc, Function.comp_def]

theorem outIfcIndependent : Independent outIfcFields := by
  constructor
  · simp only [outIfcFields, List.forall_mem_cons, Option.bind_some, implies_true, true_and]
    refine ⟨fun cnt ifc => ?_, by simp⟩
    cases cnt.stringValue <;> rfl
  · simp [outIfcFields, Option.map_eq_bind, Option.bind_assoc, Function.comp_def]

end fields

section arrays

variable {σ : Type}

/-- The objects that the decoder comes to repeat what the entries hold. -/
def IfcesHeld (fields : IfcFields σ) : List Json → List σ → Prop
  | _, [] => True
  | [], _ :: _ => True
  | ifcCnts :: ifcesArr, ifc :: ifces =>
    (ifcCnts.isObject = true → FieldsHeld ifcCnts fields ifc) ∧
      (Complete fields ifcCnts → IfcesHeld fields ifcesArr ifces)

variable {fields : IfcFields σ} {ifcType : σ → UInt8} {ifcId : σ → Option String}
  {ifcesArr : List Json} {ifces : List σ}

/-- One turn of the loop, which ends at what is no object or lacks a key. -/
theorem decodeIfces_turn (h : IfcStores fields ifcType ifcId) (hne : fields ≠ []) (ifcCnts : Json)
    (ifcesArr : List Json) (ifc : σ) (ifces : List σ) :
    decodeIfces fields (ifcCnts :: ifcesArr) (ifc :: ifces) =
      if Complete fields ifcCnts then
        ((decodeFields ifcCnts fields ifc).1 :: (decodeIfces fields ifcesArr ifces).1,
          (decodeIfces fields ifcesArr ifces).2)
      else if ifcCnts.isObject = true then
        ((decodeFields ifcCnts fields ifc).1 :: ifces, false)
      else (ifc :: ifces, false) := by
  cases hobject : ifcCnts.isObject with
  | false =>
    have hnot := not_complete_of_not_object hne hobject
    simp [decodeIfces, hobject, hnot]
  | true =>
    have hcomplete := @decodeFields_complete σ ifcCnts fields ifcType ifcId h ifc
    cases hdecoded : decodeFields ifcCnts fields ifc with
    | mk ifc' decoded =>
      rw [hdecoded] at hcomplete
      cases decoded with
      | true => simp [decodeIfces, hobject, hdecoded, hcomplete.mp rfl]
      | false =>
        have hnot : ¬ Complete fields ifcCnts := fun hc => by simpa using hcomplete.mpr hc
        simp [decodeIfces, hobject, hdecoded, hnot]

theorem isObject_of_complete {ifcCnts : Json} (hne : fields ≠ []) (h : Complete fields ifcCnts) :
    ifcCnts.isObject = true := by
  by_contra hobject
  exact not_complete_of_not_object hne (by simpa using hobject) h

theorem decodeIfces_unchanged (h : IfcStores fields ifcType ifcId) (hne : fields ≠ [])
    (hindep : Independent fields) :
    (decodeIfces fields ifcesArr ifces).1 = ifces ↔ IfcesHeld fields ifcesArr ifces := by
  induction ifces generalizing ifcesArr with
  | nil => cases ifcesArr <;> simp [decodeIfces, IfcesHeld]
  | cons ifc ifces ih =>
    cases ifcesArr with
    | nil => simp [decodeIfces, IfcesHeld]
    | cons ifcCnts ifcesArr =>
      rw [decodeIfces_turn h hne, IfcesHeld]
      split_ifs with hcomplete hobject
      · have hobject := isObject_of_complete hne hcomplete
        simp [hobject, hcomplete, decodeFields_unchanged hindep, ih]
      · simp [hobject, hcomplete, decodeFields_unchanged hindep]
      · simp [hobject, hcomplete]

theorem decodeIfces_length :
    (decodeIfces fields ifcesArr ifces).1.length = ifces.length := by
  induction ifces generalizing ifcesArr with
  | nil => cases ifcesArr <;> simp [decodeIfces]
  | cons ifc ifces ih =>
    cases ifcesArr with
    | nil => simp [decodeIfces]
    | cons ifcCnts ifcesArr =>
      unfold decodeIfces
      split <;> simp [ih]

/-- The entries that the array describes hold what it says. -/
theorem decodeIfces_stored (h : IfcStores fields ifcType ifcId) (hne : fields ≠ [])
    (hindep : Independent fields) (hdecoded : (decodeIfces fields ifcesArr ifces).2 = true) :
    List.Forall₂ (Stored fields) ((decodeIfces fields ifcesArr ifces).1.take ifcesArr.length)
      (ifcesArr.take ifces.length) := by
  induction ifces generalizing ifcesArr with
  | nil => cases ifcesArr <;> simp [decodeIfces]
  | cons ifc ifces ih =>
    cases ifcesArr with
    | nil => simp
    | cons ifcCnts ifcesArr =>
      rw [decodeIfces_turn h hne] at hdecoded ⊢
      split_ifs at hdecoded ⊢ with hcomplete
      · have hstored := decodeFields_stored hindep ((decodeFields_complete h ifc).mpr hcomplete)
        exact List.Forall₂.cons hstored (ih hdecoded)

/-- Given what holding an object exactly asks of an entry and of the object. -/
theorem decodeIfces_exact (h : IfcStores fields ifcType ifcId) (hne : fields ≠ [])
    (hindep : Independent fields) {Holds : σ → Json → Prop} {Exact : Json → Prop}
    (hexact : ∀ ifc ifcCnts, Holds ifc ifcCnts → Exact ifcCnts)
    (hholds : ∀ ifc ifcCnts, Stored fields ifc ifcCnts → Exact ifcCnts → Holds ifc ifcCnts)
    (hdecoded : (decodeIfces fields ifcesArr ifces).2 = true) :
    List.Forall₂ Holds (decodeIfces fields ifcesArr ifces).1 (ifcesArr.take ifces.length) ↔
      ifces.length ≤ ifcesArr.length ∧ ∀ ifcCnts ∈ ifcesArr.take ifces.length, Exact ifcCnts := by
  have hstored := decodeIfces_stored h hne hindep hdecoded
  have hlength := @decodeIfces_length σ fields ifcesArr ifces
  constructor
  · intro hall
    have heq := hall.length_eq
    have hlong : ifces.length ≤ ifcesArr.length := by
      rw [hlength, List.length_take] at heq
      omega
    refine ⟨hlong, fun ifcCnts hmem => ?_⟩
    obtain ⟨i, hi, rfl⟩ := List.getElem_of_mem hmem
    exact hexact _ _ (hall.get (heq ▸ hi) hi)
  · rintro ⟨hlong, hall⟩
    rw [List.take_of_length_le (by omega)] at hstored
    apply List.forall₂_iff_get.mpr
    obtain ⟨heq, hget⟩ := List.forall₂_iff_get.mp hstored
    exact ⟨heq, fun i h₁ h₂ => hholds _ _ (hget i h₁ h₂) (hall _ (List.get_mem _ _))⟩

end arrays

/-! ## What a message says -/

/-- An integer that its variable can hold. -/
def IntegerIn (cnt : Option Json) (low high : Int) : Prop :=
  ∃ i, cnt = some (.integer i) ∧ low ≤ i ∧ i < high

def StringValue (cnt : Option Json) : Prop := ∃ str, cnt = some (.string str)

/-- The object of an input interface with values that fit. -/
structure InIfcExact (ifcCnts : Json) : Prop where
  messages : IntegerIn (ifcCnts.objectGet "messages") 0 18446744073709551616
  buffers : IntegerIn (ifcCnts.objectGet "buffers") 0 18446744073709551616
  ifcType : IntegerIn (ifcCnts.objectGet "ifc_type") (-128) 128
  ifcState : IntegerIn (ifcCnts.objectGet "ifc_state") 0 256
  ifcId : StringValue (ifcCnts.objectGet "ifc_id")

structure OutIfcExact (ifcCnts : Json) : Prop where
  sentMessages : IntegerIn (ifcCnts.objectGet "sent-messages") 0 18446744073709551616
  droppedMessages : IntegerIn (ifcCnts.objectGet "dropped-messages") 0 18446744073709551616
  buffers : IntegerIn (ifcCnts.objectGet "buffers") 0 18446744073709551616
  autoflushes : IntegerIn (ifcCnts.objectGet "autoflushes") 0 18446744073709551616
  numClients : IntegerIn (ifcCnts.objectGet "num_clients") (-2147483648) 2147483648
  ifcType : IntegerIn (ifcCnts.objectGet "ifc_type") (-128) 128
  ifcId : StringValue (ifcCnts.objectGet "ifc_id")

/-- The entry holds exactly what the object says; a `char` is signed. -/
structure InIfcStats.Holds (ifc : InIfcStats) (ifcCnts : Json) : Prop where
  messages : ifcCnts.objectGet "messages" = some (.integer ifc.recvMsgCnt.toNat)
  buffers : ifcCnts.objectGet "buffers" = some (.integer ifc.recvBufferCnt.toNat)
  ifcType : ifcCnts.objectGet "ifc_type" = some (.integer ifc.ifcType.toInt8.toInt)
  ifcState : ifcCnts.objectGet "ifc_state" = some (.integer ifc.ifcState.toNat)
  ifcId : ∃ str, ifcCnts.objectGet "ifc_id" = some (.string str) ∧ ifc.ifcId = some str

structure OutIfcStats.Holds (ifc : OutIfcStats) (ifcCnts : Json) : Prop where
  sentMessages : ifcCnts.objectGet "sent-messages" = some (.integer ifc.sentMsgCnt.toNat)
  droppedMessages : ifcCnts.objectGet "dropped-messages" = some (.integer ifc.droppedMsgCnt.toNat)
  buffers : ifcCnts.objectGet "buffers" = some (.integer ifc.sentBufferCnt.toNat)
  autoflushes : ifcCnts.objectGet "autoflushes" = some (.integer ifc.autoflushCnt.toNat)
  numClients : ifcCnts.objectGet "num_clients" = some (.integer ifc.numClients.toInt)
  ifcType : ifcCnts.objectGet "ifc_type" = some (.integer ifc.ifcType.toInt8.toInt)
  ifcId : ∃ str, ifcCnts.objectGet "ifc_id" = some (.string str) ∧ ifc.ifcId = some str

section values

variable {i : Int}

theorem counterValue_exact (h₀ : 0 ≤ i) (h : i < 18446744073709551616) :
    ((counterValue (.integer i)).toNat : Int) = i := by
  unfold counterValue UInt64.ofInt
  simp [Json.integerValue]
  omega

theorem charValue_exact (h₀ : 0 ≤ i) (h : i < 256) :
    ((charValue (.integer i)).toNat : Int) = i := by
  unfold charValue UInt8.ofInt
  simp [Json.integerValue]
  omega

theorem charValue_signed (h₀ : -128 ≤ i) (h : i < 128) :
    (charValue (.integer i)).toInt8.toInt = i := by
  have hnat : ((charValue (.integer i)).toNat : Int) = i % 256 := by
    unfold charValue UInt8.ofInt
    simp [Json.integerValue]
    omega
  have hbits : (charValue (.integer i)).toInt8.toInt =
      ((charValue (.integer i)).toNat : Int).bmod 256 :=
    BitVec.toInt_eq_toNat_bmod (charValue (.integer i)).toBitVec
  rw [hbits, hnat, Int.bmod_def]
  omega

theorem numClients_exact (h₀ : -2147483648 ≤ i) (h : i < 2147483648) :
    (Int32.ofInt i).toInt = i := Int32.toInt_ofInt_of_le h₀ h

end values

theorem InIfcStats.Holds.exact {ifc : InIfcStats} {ifcCnts : Json} (h : ifc.Holds ifcCnts) :
    InIfcExact ifcCnts := by
  constructor
  · exact ⟨_, h.messages, by omega, by have := ifc.recvMsgCnt.toNat_lt; omega⟩
  · exact ⟨_, h.buffers, by omega, by have := ifc.recvBufferCnt.toNat_lt; omega⟩
  · exact ⟨_, h.ifcType, ifc.ifcType.toInt8.le_toInt, ifc.ifcType.toInt8.toInt_lt⟩
  · exact ⟨_, h.ifcState, by omega, by have := ifc.ifcState.toNat_lt; omega⟩
  · exact ⟨_, h.ifcId.choose_spec.1⟩

theorem OutIfcStats.Holds.exact {ifc : OutIfcStats} {ifcCnts : Json} (h : ifc.Holds ifcCnts) :
    OutIfcExact ifcCnts := by
  constructor
  · exact ⟨_, h.sentMessages, by omega, by have := ifc.sentMsgCnt.toNat_lt; omega⟩
  · exact ⟨_, h.droppedMessages, by omega, by have := ifc.droppedMsgCnt.toNat_lt; omega⟩
  · exact ⟨_, h.buffers, by omega, by have := ifc.sentBufferCnt.toNat_lt; omega⟩
  · exact ⟨_, h.autoflushes, by omega, by have := ifc.autoflushCnt.toNat_lt; omega⟩
  · exact ⟨_, h.numClients, ifc.numClients.le_toInt, ifc.numClients.toInt_lt⟩
  · exact ⟨_, h.ifcType, ifc.ifcType.toInt8.le_toInt, ifc.ifcType.toInt8.toInt_lt⟩
  · exact ⟨_, h.ifcId.choose_spec.1⟩

theorem InIfcExact.holds {ifc : InIfcStats} {ifcCnts : Json} (h : InIfcExact ifcCnts)
    (hstored : Stored inIfcFields ifc ifcCnts) : ifc.Holds ifcCnts := by
  obtain ⟨⟨i₁, h₁, hl₁, hu₁⟩, ⟨i₂, h₂, hl₂, hu₂⟩, ⟨i₃, h₃, hl₃, hu₃⟩, ⟨i₄, h₄, hl₄, hu₄⟩,
    ⟨str, h₅⟩⟩ := h
  obtain ⟨ifcState, ifcType, ifcId, recvMsgCnt, recvBufferCnt⟩ := ifc
  simp only [Stored, inIfcFields, List.forall_mem_cons, h₁, h₂, h₃, h₄, h₅, Option.some.injEq,
    exists_eq_left', Json.stringValue, Option.map_some, InIfcStats.mk.injEq, true_and, and_true]
    at hstored
  obtain ⟨rfl, rfl, rfl, rfl, rfl, -⟩ := hstored
  constructor
  · rw [h₁, counterValue_exact hl₁ hu₁]
  · rw [h₂, counterValue_exact hl₂ hu₂]
  · rw [h₃, charValue_signed hl₃ hu₃]
  · rw [h₄, charValue_exact hl₄ hu₄]
  · exact ⟨str, h₅, rfl⟩

theorem OutIfcExact.holds {ifc : OutIfcStats} {ifcCnts : Json} (h : OutIfcExact ifcCnts)
    (hstored : Stored outIfcFields ifc ifcCnts) : ifc.Holds ifcCnts := by
  obtain ⟨⟨i₁, h₁, hl₁, hu₁⟩, ⟨i₂, h₂, hl₂, hu₂⟩, ⟨i₃, h₃, hl₃, hu₃⟩, ⟨i₄, h₄, hl₄, hu₄⟩,
    ⟨i₅, h₅, hl₅, hu₅⟩, ⟨i₆, h₆, hl₆, hu₆⟩, ⟨str, h₇⟩⟩ := h
  obtain ⟨numClients, ifcType, ifcId, sentMsgCnt, droppedMsgCnt, sentBufferCnt, autoflushCnt⟩ := ifc
  simp only [Stored, outIfcFields, List.forall_mem_cons, h₁, h₂, h₃, h₄, h₅, h₆, h₇,
    Option.some.injEq, exists_eq_left', Json.stringValue, Option.map_some, OutIfcStats.mk.injEq,
    true_and, and_true] at hstored
  obtain ⟨rfl, rfl, rfl, rfl, rfl, rfl, rfl, -⟩ := hstored
  constructor
  · rw [h₁, counterValue_exact hl₁ hu₁]
  · rw [h₂, counterValue_exact hl₂ hu₂]
  · rw [h₃, counterValue_exact hl₃ hu₃]
  · rw [h₄, counterValue_exact hl₄ hu₄]
  · rw [h₅, Json.integerValue, numClients_exact hl₅ hu₅]
  · rw [h₆, charValue_signed hl₆ hu₆]
  · exact ⟨str, h₇, rfl⟩

/-! ## One direction of a message -/

section sides

variable {σ : Type}

/-- The number of interfaces that the message announces, and the array that describes them. -/
def SideFaithful (Holds : σ → Json → Prop) (root : Json) (cntKey arrKey : String)
    (ifces : List σ) : Prop :=
  root.objectGet cntKey = some (.integer ifces.length) ∧
    List.Forall₂ Holds ifces (((ifcesArray root arrKey).getD []).take ifces.length)

/-- A count that fits, an array as long as it, and values that fit. -/
def SideExact (Exact : Json → Prop) (root : Json) (cntKey arrKey : String) : Prop :=
  ∃ ifcCnt : Nat, root.objectGet cntKey = some (.integer ifcCnt) ∧ ifcCnt < 4294967296 ∧
    ifcCnt ≤ ((ifcesArray root arrKey).getD []).length ∧
    ∀ ifcCnts ∈ ((ifcesArray root arrKey).getD []).take ifcCnt, Exact ifcCnts

/-- The array repeats what is known. -/
def SideHeld (fields : IfcFields σ) (ifcesArr : Option (List Json)) (ifces : List σ) : Prop :=
  IfcesHeld fields (ifcesArr.getD []) ifces

variable {fields : IfcFields σ} {ifcType : σ → UInt8} {ifcId : σ → Option String}
  {ifces : List σ} {root cnt : Json} {cntKey arrKey : String}

theorem decodeIfcesArray_eq (ifcesArr : Option (List Json)) (ifces : List σ) :
    (decodeIfcesArray fields ifcesArr ifces).1 =
      (decodeIfces fields (ifcesArr.getD []) ifces).1 := by
  unfold decodeIfcesArray
  split_ifs with hnil
  · rw [hnil]
    cases ifcesArr.getD [] <;> rfl
  · cases ifcesArr with
    | none => cases ifces <;> rfl
    | some arr => rfl

theorem decodeIfcesArray_length (ifcesArr : Option (List Json)) (ifces : List σ) :
    (decodeIfcesArray fields ifcesArr ifces).1.length = ifces.length := by
  rw [decodeIfcesArray_eq, decodeIfces_length]

theorem decodeIfcesArray_unchanged (h : IfcStores fields ifcType ifcId) (hne : fields ≠ [])
    (hindep : Independent fields) (ifcesArr : Option (List Json)) (ifces : List σ) :
    (decodeIfcesArray fields ifcesArr ifces).1 = ifces ↔ SideHeld fields ifcesArr ifces := by
  rw [decodeIfcesArray_eq, decodeIfces_unchanged h hne hindep, SideHeld]

/-- A direction taken over is taken over exactly when it says so. -/
theorem decodeIfcesArray_faithful (h : IfcStores fields ifcType ifcId) (hne : fields ≠ [])
    (hindep : Independent fields) {Holds : σ → Json → Prop} {Exact : Json → Prop}
    (hexact : ∀ ifc ifcCnts, Holds ifc ifcCnts → Exact ifcCnts)
    (hholds : ∀ ifc ifcCnts, Stored fields ifc ifcCnts → Exact ifcCnts → Holds ifc ifcCnts)
    (hget : root.objectGet cntKey = some cnt) (hlen : ifces.length = ifcCntValue cnt)
    (hdecoded : (decodeIfcesArray fields (ifcesArray root arrKey) ifces).2 = true) :
    SideFaithful Holds root cntKey arrKey
        (decodeIfcesArray fields (ifcesArray root arrKey) ifces).1 ↔
      SideExact Exact root cntKey arrKey := by
  have hgoes : (decodeIfces fields ((ifcesArray root arrKey).getD []) ifces).2 = true := by
    unfold decodeIfcesArray at hdecoded
    split_ifs at hdecoded with hnil
    · rw [hnil]
      cases (ifcesArray root arrKey).getD [] <;> rfl
    · cases harr : ifcesArray root arrKey with
      | none => simp [harr] at hdecoded
      | some arr => simpa [harr] using hdecoded
  have harray := decodeIfces_exact h hne hindep hexact hholds hgoes
  rw [SideFaithful, SideExact, decodeIfcesArray_length, decodeIfcesArray_eq, harray]
  constructor
  · rintro ⟨hcnt, hrest⟩
    refine ⟨ifces.length, hcnt, ?_, hrest⟩
    rw [hlen, ifcCntValue]
    omega
  · rintro ⟨ifcCnt, hcnt, hfits, hrest⟩
    have heq : ifces.length = ifcCnt := by
      rw [hlen, Option.some.inj (hget.symm.trans hcnt), ifcCntValue, Json.integerValue]
      omega
    rw [heq]
    exact ⟨hcnt, hrest⟩

end sides

/-! ## The messages -/

/-- A message taken over exactly, or nothing changed. -/
def FaithfulOrAtomic (jsonStruct : Option Json) (s : ModuleStats) (result : ModuleStats × Bool) :
    Prop :=
  (result.2 = true ∧ ∃ root, jsonStruct = some root ∧
    SideFaithful InIfcStats.Holds root "in_cnt" "in" result.1.inIfcesData ∧
    SideFaithful OutIfcStats.Holds root "out_cnt" "out" result.1.outIfcesData) ∨
  (result.2 = false ∧ result.1 = s)

/-- The rest of the message is gone through, once the input interfaces are allocated. -/
def OutCntAccepted (allocated : Bool) (root : Json) (s : ModuleStats) : Prop :=
  ∃ outCnt, root.objectGet "out_cnt" = some outCnt ∧
    (ifcCntValue outCnt = s.outIfcesData.length ∨ allocated = true) ∧
    SideFinishes inIfcFields (ifcesArray root "in") s.inIfcesData.length ∧
    SideFinishes outIfcFields (ifcesArray root "out") (ifcCntValue outCnt)

/-- The decoder goes through the message. -/
def Accepted (callocs : Allocations) (jsonStruct : Option Json) (s : ModuleStats) : Prop :=
  ∃ root inCnt outCnt, jsonStruct = some root ∧
    root.objectGet "in_cnt" = some inCnt ∧ root.objectGet "out_cnt" = some outCnt ∧
    (ifcCntValue inCnt = s.inIfcesData.length ∨ callocs.inIfces = true) ∧
    (ifcCntValue outCnt = s.outIfcesData.length ∨ callocs.outIfces = true) ∧
    SideFinishes inIfcFields (ifcesArray root "in") (ifcCntValue inCnt) ∧
    SideFinishes outIfcFields (ifcesArray root "out") (ifcCntValue outCnt)

/-- The counts of the message and the values of all its interfaces fit. -/
def Exact (jsonStruct : Option Json) : Prop :=
  ∃ root, jsonStruct = some root ∧ SideExact InIfcExact root "in_cnt" "in" ∧
    SideExact OutIfcExact root "out_cnt" "out"

/-- The number of output interfaces is the known one, or there were none and none can be
allocated; the arrays repeat what is known. -/
def OutCntRepeats (allocated : Bool) (root : Json) (s : ModuleStats) : Prop :=
  ∀ outCnt, root.objectGet "out_cnt" = some outCnt →
    if ifcCntValue outCnt = s.outIfcesData.length then
      SideHeld inIfcFields (ifcesArray root "in") s.inIfcesData ∧
        (SideFinishes inIfcFields (ifcesArray root "in") s.inIfcesData.length →
          SideHeld outIfcFields (ifcesArray root "out") s.outIfcesData)
    else allocated = false ∧ s.outIfcesData = []

/-- The message repeats what is known as far as the decoder comes. -/
def Repeats (callocs : Allocations) (jsonStruct : Option Json) (s : ModuleStats) : Prop :=
  ∀ root, jsonStruct = some root → ∀ inCnt, root.objectGet "in_cnt" = some inCnt →
    if ifcCntValue inCnt = s.inIfcesData.length then OutCntRepeats callocs.outIfces root s
    else callocs.inIfces = false ∧ s.inIfcesData = []

section messages

variable {root : Json} {s : ModuleStats} {allocated : Bool}

theorem decodeIfcesData_accepts :
    (decodeIfcesData root s).2 = true ↔
      SideFinishes inIfcFields (ifcesArray root "in") s.inIfcesData.length ∧
        SideFinishes outIfcFields (ifcesArray root "out") s.outIfcesData.length := by
  have hin := decodeIfcesArray_finishes inIfcStores (by decide) (ifcesArray root "in") s.inIfcesData
  have hout :=
    decodeIfcesArray_finishes outIfcStores (by decide) (ifcesArray root "out") s.outIfcesData
  rw [← hin, ← hout, decodeIfcesData]
  cases hdecoded : decodeIfcesArray inIfcFields (ifcesArray root "in") s.inIfcesData with
  | mk inIfcesData decoded => cases decoded <;> simp

/-- The entries that are left, the output interfaces only once the input interfaces are done. -/
theorem decodeIfcesData_eq :
    (decodeIfcesData root s).1 =
      ⟨(decodeIfcesArray inIfcFields (ifcesArray root "in") s.inIfcesData).1,
        if (decodeIfcesArray inIfcFields (ifcesArray root "in") s.inIfcesData).2 = true then
          (decodeIfcesArray outIfcFields (ifcesArray root "out") s.outIfcesData).1
        else s.outIfcesData⟩ := by
  unfold decodeIfcesData
  cases hdecoded : decodeIfcesArray inIfcFields (ifcesArray root "in") s.inIfcesData with
  | mk inIfcesData decoded => cases decoded <;> simp

theorem decodeIfcesData_unchanged :
    (decodeIfcesData root s).1 = s ↔
      SideHeld inIfcFields (ifcesArray root "in") s.inIfcesData ∧
        (SideFinishes inIfcFields (ifcesArray root "in") s.inIfcesData.length →
          SideHeld outIfcFields (ifcesArray root "out") s.outIfcesData) := by
  have hin := decodeIfcesArray_finishes inIfcStores (by decide) (ifcesArray root "in") s.inIfcesData
  obtain ⟨inIfcesData, outIfcesData⟩ := s
  rw [decodeIfcesData_eq, ModuleStats.mk.injEq,
    decodeIfcesArray_unchanged inIfcStores (by decide) inIfcIndependent, ← hin]
  apply and_congr_right
  intro _
  split_ifs with hfinishes
  · rw [decodeIfcesArray_unchanged outIfcStores (by decide) outIfcIndependent]
    exact ⟨fun h _ => h, fun h => h hfinishes⟩
  · exact iff_of_true rfl fun h => absurd h hfinishes

theorem decodeIfcesData_lengths :
    (decodeIfcesData root s).1.inIfcesData.length = s.inIfcesData.length ∧
      (decodeIfcesData root s).1.outIfcesData.length = s.outIfcesData.length := by
  rw [decodeIfcesData_eq]
  constructor
  · exact decodeIfcesArray_length _ _
  · simp only
    split_ifs
    · exact decodeIfcesArray_length _ _
    · rfl

theorem decodeIfcesData_faithful {inCnt outCnt : Json}
    (hin : root.objectGet "in_cnt" = some inCnt) (hout : root.objectGet "out_cnt" = some outCnt)
    (hinLen : s.inIfcesData.length = ifcCntValue inCnt)
    (houtLen : s.outIfcesData.length = ifcCntValue outCnt)
    (haccepts : (decodeIfcesData root s).2 = true) :
    (SideFaithful InIfcStats.Holds root "in_cnt" "in" (decodeIfcesData root s).1.inIfcesData ∧
      SideFaithful OutIfcStats.Holds root "out_cnt" "out"
        (decodeIfcesData root s).1.outIfcesData) ↔
      SideExact InIfcExact root "in_cnt" "in" ∧ SideExact OutIfcExact root "out_cnt" "out" := by
  obtain ⟨hinGoes, houtGoes⟩ := decodeIfcesData_accepts.mp haccepts
  rw [← decodeIfcesArray_finishes inIfcStores (by decide)] at hinGoes
  rw [← decodeIfcesArray_finishes outIfcStores (by decide)] at houtGoes
  rw [decodeIfcesData_eq, if_pos hinGoes]
  apply and_congr
  · exact decodeIfcesArray_faithful inIfcStores (by decide) inIfcIndependent
      (fun _ _ h => h.exact) (fun _ _ hstored h => h.holds hstored) hin hinLen hinGoes
  · exact decodeIfcesArray_faithful outIfcStores (by decide) outIfcIndependent
      (fun _ _ h => h.exact) (fun _ _ hstored h => h.holds hstored) hout houtLen houtGoes

/-- How the decoding goes on from the number of output interfaces. -/
theorem decodeOutCnt_cases (allocated : Bool) (root : Json) (s : ModuleStats) :
    (root.objectGet "out_cnt" = none ∧ decodeOutCnt allocated root s = (s, false)) ∨
    ∃ outCnt, root.objectGet "out_cnt" = some outCnt ∧
      ((ifcCntValue outCnt = s.outIfcesData.length ∧
          decodeOutCnt allocated root s = decodeIfcesData root s) ∨
        (ifcCntValue outCnt ≠ s.outIfcesData.length ∧ allocated = false ∧
          decodeOutCnt allocated root s = (⟨s.inIfcesData, []⟩, false)) ∨
        (ifcCntValue outCnt ≠ s.outIfcesData.length ∧ allocated = true ∧
          decodeOutCnt allocated root s = decodeIfcesData root
            ⟨s.inIfcesData, List.replicate (ifcCntValue outCnt) .zero⟩)) := by
  unfold decodeOutCnt
  cases hget : root.objectGet "out_cnt" with
  | none => simp
  | some outCnt =>
    refine .inr ⟨outCnt, rfl, ?_⟩
    unfold reallocIfces
    by_cases hsame : ifcCntValue outCnt = s.outIfcesData.length
    · simp [hsame]
    · cases allocated <;> simp [hsame]

theorem decodeOutCnt_inLength :
    (decodeOutCnt allocated root s).1.inIfcesData.length = s.inIfcesData.length := by
  rcases decodeOutCnt_cases allocated root s with ⟨-, heq⟩ | ⟨outCnt, -, ⟨-, heq⟩ | ⟨-, -, heq⟩ |
    ⟨-, -, heq⟩⟩
  · rw [heq]
  · rw [heq, decodeIfcesData_lengths.1]
  · rw [heq]
  · rw [heq, decodeIfcesData_lengths.1]

theorem decodeOutCnt_accepts :
    (decodeOutCnt allocated root s).2 = true ↔ OutCntAccepted allocated root s := by
  unfold OutCntAccepted
  rcases decodeOutCnt_cases allocated root s with ⟨hget, heq⟩ | ⟨outCnt, hget, ⟨hsame, heq⟩ |
    ⟨hnew, halloc, heq⟩ | ⟨hnew, halloc, heq⟩⟩
  · rw [heq]
    simp [hget]
  · rw [heq, decodeIfcesData_accepts]
    simp [hget, hsame]
  · rw [heq]
    simp [hget, hnew, halloc]
  · rw [heq, decodeIfcesData_accepts]
    simp [hget, halloc]

theorem decodeOutCnt_unchanged (hrefused : (decodeOutCnt allocated root s).2 = false) :
    (decodeOutCnt allocated root s).1 = s ↔ OutCntRepeats allocated root s := by
  unfold OutCntRepeats
  rcases decodeOutCnt_cases allocated root s with ⟨hget, heq⟩ | ⟨outCnt, hget, ⟨hsame, heq⟩ |
    ⟨hnew, halloc, heq⟩ | ⟨hnew, halloc, heq⟩⟩
  · simp [heq, hget]
  · simp only [heq, hget, Option.some.injEq, forall_eq', if_pos hsame]
    exact decodeIfcesData_unchanged
  · obtain ⟨inIfcesData, outIfcesData⟩ := s
    simp only at hnew
    rw [heq]
    simp only [hget, Option.some.injEq, forall_eq', if_neg hnew, halloc, true_and,
      ModuleStats.mk.injEq]
    exact eq_comm
  · have hlength := (@decodeIfcesData_lengths root
      ⟨s.inIfcesData, List.replicate (ifcCntValue outCnt) .zero⟩).2
    rw [heq]
    simp only [hget, Option.some.injEq, forall_eq', if_neg hnew, halloc]
    refine iff_of_false (fun hsame => hnew ?_) (by simp)
    rw [hsame] at hlength
    simpa using hlength.symm

theorem decodeOutCnt_faithful {inCnt : Json} (hin : root.objectGet "in_cnt" = some inCnt)
    (hlen : s.inIfcesData.length = ifcCntValue inCnt)
    (haccepts : (decodeOutCnt allocated root s).2 = true) :
    (SideFaithful InIfcStats.Holds root "in_cnt" "in"
        (decodeOutCnt allocated root s).1.inIfcesData ∧
      SideFaithful OutIfcStats.Holds root "out_cnt" "out"
        (decodeOutCnt allocated root s).1.outIfcesData) ↔
      SideExact InIfcExact root "in_cnt" "in" ∧ SideExact OutIfcExact root "out_cnt" "out" := by
  rcases decodeOutCnt_cases allocated root s with ⟨-, heq⟩ | ⟨outCnt, hget, ⟨hsame, heq⟩ |
    ⟨-, -, heq⟩ | ⟨-, -, heq⟩⟩
  · simp [heq] at haccepts
  · rw [heq] at haccepts ⊢
    exact decodeIfcesData_faithful hin hget hlen hsame.symm haccepts
  · simp [heq] at haccepts
  · rw [heq] at haccepts ⊢
    exact decodeIfcesData_faithful hin hget hlen (by simp) haccepts

/-- How the decoding goes on from the number of input interfaces. -/
theorem serviceDecodeModuleStats_cases (callocs : Allocations) (jsonStruct : Option Json)
    (s : ModuleStats) :
    ((∀ root, jsonStruct = some root → root.objectGet "in_cnt" = none) ∧
      serviceDecodeModuleStats callocs jsonStruct s = (s, false)) ∨
    ∃ root inCnt, jsonStruct = some root ∧ root.objectGet "in_cnt" = some inCnt ∧
      ((ifcCntValue inCnt = s.inIfcesData.length ∧
          serviceDecodeModuleStats callocs jsonStruct s =
            decodeOutCnt callocs.outIfces root s) ∨
        (ifcCntValue inCnt ≠ s.inIfcesData.length ∧ callocs.inIfces = false ∧
          serviceDecodeModuleStats callocs jsonStruct s = (⟨[], s.outIfcesData⟩, false)) ∨
        (ifcCntValue inCnt ≠ s.inIfcesData.length ∧ callocs.inIfces = true ∧
          serviceDecodeModuleStats callocs jsonStruct s = decodeOutCnt callocs.outIfces root
            ⟨List.replicate (ifcCntValue inCnt) .zero, s.outIfcesData⟩)) := by
  unfold serviceDecodeModuleStats
  cases jsonStruct with
  | none => simp
  | some root =>
    cases hget : root.objectGet "in_cnt" with
    | none => simp [hget]
    | some inCnt =>
      have hobject : root.isObject = true := by
        cases root <;> simp_all [Json.objectGet, Json.isObject]
      refine .inr ⟨root, inCnt, rfl, hget, ?_⟩
      unfold reallocIfces
      by_cases hsame : ifcCntValue inCnt = s.inIfcesData.length
      · simp [hobject, hget, hsame]
      · cases halloc : callocs.inIfces <;> simp [hobject, hget, hsame]

theorem serviceDecodeModuleStats_accepts (callocs : Allocations) (jsonStruct : Option Json)
    (s : ModuleStats) :
    (serviceDecodeModuleStats callocs jsonStruct s).2 = true ↔ Accepted callocs jsonStruct s := by
  unfold Accepted
  rcases serviceDecodeModuleStats_cases callocs jsonStruct s with ⟨hget, heq⟩ |
    ⟨root, inCnt, rfl, hget, ⟨hsame, heq⟩ | ⟨hnew, halloc, heq⟩ | ⟨hnew, halloc, heq⟩⟩
  · rw [heq]
    refine iff_of_false (by simp) ?_
    rintro ⟨root, inCnt, -, hroot, hin, -⟩
    simp [hget root hroot] at hin
  · rw [heq, decodeOutCnt_accepts]
    simp [OutCntAccepted, hget, hsame]
  · rw [heq]
    simp [hget, hnew, halloc]
  · rw [heq, decodeOutCnt_accepts]
    simp [OutCntAccepted, hget, halloc]

theorem serviceDecodeModuleStats_unchanged {callocs : Allocations} {jsonStruct : Option Json}
    (hrefused : (serviceDecodeModuleStats callocs jsonStruct s).2 = false) :
    (serviceDecodeModuleStats callocs jsonStruct s).1 = s ↔ Repeats callocs jsonStruct s := by
  unfold Repeats
  rcases serviceDecodeModuleStats_cases callocs jsonStruct s with ⟨hget, heq⟩ |
    ⟨root, inCnt, rfl, hget, ⟨hsame, heq⟩ | ⟨hnew, halloc, heq⟩ | ⟨hnew, halloc, heq⟩⟩
  · rw [heq]
    refine iff_of_true rfl fun root hroot inCnt hin => ?_
    simp [hget root hroot] at hin
  · rw [heq] at hrefused ⊢
    simpa [hget, hsame] using decodeOutCnt_unchanged hrefused
  · obtain ⟨inIfcesData, outIfcesData⟩ := s
    rw [heq]
    simp [hget, hnew, halloc]
  · have hlength := @decodeOutCnt_inLength root
      ⟨List.replicate (ifcCntValue inCnt) .zero, s.outIfcesData⟩ callocs.outIfces
    rw [heq]
    refine iff_of_false (fun hsame => hnew ?_) (by simp [hget, hnew, halloc])
    rw [hsame] at hlength
    simpa using hlength.symm

theorem serviceDecodeModuleStats_exact {callocs : Allocations} {jsonStruct : Option Json}
    (haccepts : (serviceDecodeModuleStats callocs jsonStruct s).2 = true) :
    (∃ root, jsonStruct = some root ∧
      SideFaithful InIfcStats.Holds root "in_cnt" "in"
        (serviceDecodeModuleStats callocs jsonStruct s).1.inIfcesData ∧
      SideFaithful OutIfcStats.Holds root "out_cnt" "out"
        (serviceDecodeModuleStats callocs jsonStruct s).1.outIfcesData) ↔ Exact jsonStruct := by
  unfold Exact
  rcases serviceDecodeModuleStats_cases callocs jsonStruct s with ⟨hget, heq⟩ |
    ⟨root, inCnt, rfl, hget, ⟨hsame, heq⟩ | ⟨hnew, halloc, heq⟩ | ⟨hnew, halloc, heq⟩⟩
  · simp [heq] at haccepts
  · rw [heq] at haccepts ⊢
    simpa using decodeOutCnt_faithful hget hsame.symm haccepts
  · simp [heq] at haccepts
  · rw [heq] at haccepts ⊢
    simpa using decodeOutCnt_faithful hget (by simp) haccepts

end messages

/-- A message is taken over exactly or refused without a trace just when, accepted, it fits and
describes all of its interfaces and, refused, it repeats what is known. -/
theorem serviceDecodeModuleStats_faithful_iff (callocs : Allocations) (jsonStruct : Option Json)
    (s : ModuleStats) :
    FaithfulOrAtomic jsonStruct s (serviceDecodeModuleStats callocs jsonStruct s) ↔
      (Accepted callocs jsonStruct s → Exact jsonStruct) ∧
        (¬ Accepted callocs jsonStruct s → Repeats callocs jsonStruct s) := by
  rw [← serviceDecodeModuleStats_accepts, FaithfulOrAtomic]
  cases hresult : (serviceDecodeModuleStats callocs jsonStruct s).2 with
  | true =>
    have hexact := serviceDecodeModuleStats_exact hresult
    simpa using hexact
  | false =>
    have hunchanged := serviceDecodeModuleStats_unchanged hresult
    simpa using hunchanged

/-- A message that announces two input interfaces, describes one and does not say how many output
interfaces there are. -/
def torsoMessage : Json :=
  .object [("in_cnt", .integer 2), ("in", .array [.object [("messages", .integer 5)]])]

/-- It is refused once the known interface is lost. -/
theorem not_serviceDecodeModuleStats_faithful :
    ¬ ∀ callocs jsonStruct s, FaithfulOrAtomic jsonStruct s
      (serviceDecodeModuleStats callocs jsonStruct s) := by
  intro h
  have hatomic := h ⟨true, true⟩ (some torsoMessage) ⟨[⟨0, 117, some "a", 3, 3⟩], []⟩
  have hrun : serviceDecodeModuleStats ⟨true, true⟩ (some torsoMessage)
      ⟨[⟨0, 117, some "a", 3, 3⟩], []⟩ = (⟨[.zero, .zero], []⟩, false) := by decide
  rw [hrun] at hatomic
  simp [FaithfulOrAtomic, InIfcStats.zero] at hatomic

end NemeaSupervisor
