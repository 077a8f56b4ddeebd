import NemeaSupervisor.ModulesInfo

/-!
# Messages that keep the document

Which statistics messages leave only interfaces that can be packed. A message that
changes the number of interfaces starts from entries without an identifier, so it
has to describe all of them; one that keeps the number may be as short or as broken
as it likes, as long as it stores no type outside ASCII.
-/

namespace NemeaSupervisor

/-! ## One interface object -/

section fields

variable {σ : Type} {ifcCnts : Json} {fields : IfcFields σ} {ifc : σ}

/-- The key is there, and the identifier is a string. -/
def KeyPresent (ifcCnts : Json) (key : String) : Prop :=
  match ifcCnts.objectGet key with
  | none => False
  | some cnt => key = "ifc_id" → cnt.stringValue.isSome = true

instance (ifcCnts : Json) (key : String) : Decidable (KeyPresent ifcCnts key) := by
  unfold KeyPresent
  split <;> infer_instance

/-- The object has every key. -/
def Complete (fields : IfcFields σ) (ifcCnts : Json) : Prop :=
  ∀ f ∈ fields, KeyPresent ifcCnts f.1

instance (fields : IfcFields σ) (ifcCnts : Json) : Decidable (Complete fields ifcCnts) :=
  inferInstanceAs (Decidable (∀ f ∈ fields, _))

/-- The type is ASCII when the decoder comes to it. -/
def AsciiType (ifcCnts : Json) : IfcFields σ → Prop
  | [] => True
  | f :: fields =>
    match ifcCnts.objectGet f.1 with
    | none => True
    | some cnt => (f.1 = "ifc_type" → charValue cnt < 128) ∧ AsciiType ifcCnts fields

instance decidableAsciiType (ifcCnts : Json) :
    (fields : IfcFields σ) → Decidable (AsciiType ifcCnts fields)
  | [] => .isTrue trivial
  | f :: fields => by
    have := decidableAsciiType ifcCnts fields
    unfold AsciiType
    split <;> infer_instance

/-- What the stores of an interface kind do to its type and its identifier. -/
structure IfcStores (fields : IfcFields σ) (ifcType : σ → UInt8) (ifcId : σ → Option String) :
    Prop where
  counters : ∀ f ∈ fields, f.1 ≠ "ifc_id" → ∀ cnt ifc, ∃ ifc', f.2 cnt ifc = some ifc' ∧
    ifcId ifc' = ifcId ifc ∧ ifcType ifc' = if f.1 = "ifc_type" then charValue cnt else ifcType ifc
  identifier : ∀ f ∈ fields, f.1 = "ifc_id" → ∀ cnt ifc,
    (cnt.stringValue = none ∧ f.2 cnt ifc = none) ∨
      ∃ str ifc', cnt.stringValue = some str ∧ f.2 cnt ifc = some ifc' ∧
        ifcId ifc' = some str ∧ ifcType ifc' = ifcType ifc

variable {ifcType : σ → UInt8} {ifcId : σ → Option String}

theorem IfcStores.tail {f : String × (Json → σ → Option σ)}
    (h : IfcStores (f :: fields) ifcType ifcId) : IfcStores fields ifcType ifcId :=
  ⟨fun g hg => h.counters g (List.mem_cons_of_mem _ hg),
    fun g hg => h.identifier g (List.mem_cons_of_mem _ hg)⟩

theorem complete_cons {f : String × (Json → σ → Option σ)} :
    Complete (f :: fields) ifcCnts ↔ KeyPresent ifcCnts f.1 ∧ Complete fields ifcCnts :=
  List.forall_mem_cons

/-- What one key does: the decoding ends, or it goes on with the key stored. -/
theorem IfcStores.head {f : String × (Json → σ → Option σ)}
    (h : IfcStores (f :: fields) ifcType ifcId) (ifc : σ) :
    (decodeFields ifcCnts (f :: fields) ifc = (ifc, false) ∧ ¬ KeyPresent ifcCnts f.1) ∨
      ∃ cnt ifc', ifcCnts.objectGet f.1 = some cnt ∧ KeyPresent ifcCnts f.1 ∧
        decodeFields ifcCnts (f :: fields) ifc = decodeFields ifcCnts fields ifc' ∧
        (ifcType ifc' = if f.1 = "ifc_type" then charValue cnt else ifcType ifc) ∧
        (ifcId ifc' = ifcId ifc ∧ f.1 ≠ "ifc_id" ∨ (ifcId ifc').isSome = true) := by
  obtain ⟨key, store⟩ := f
  simp only [KeyPresent]
  cases hget : ifcCnts.objectGet key with
  | none => exact .inl ⟨by simp [decodeFields, hget], id⟩
  | some cnt =>
    by_cases hid : key = "ifc_id"
    · rcases h.identifier (key, store) (by simp) hid cnt ifc with
        ⟨hstring, hstore⟩ | ⟨str, ifc', hstring, hstore, hknown, htype⟩
      · simp only at hstore
        exact .inl ⟨by simp [decodeFields, hget, hstore], by simp [hid, hstring]⟩
      · simp only at hstore
        refine .inr ⟨cnt, ifc', rfl, by simp [hstring], by simp [decodeFields, hget, hstore], ?_,
          .inr (by simp [hknown])⟩
        rw [htype, if_neg (by simp [hid])]
    · obtain ⟨ifc', hstore, hknown, htype⟩ := h.counters (key, store) (by simp) hid cnt ifc
      simp only at hstore
      exact .inr ⟨cnt, ifc', rfl, by simp [hid], by simp [decodeFields, hget, hstore], htype,
        .inl ⟨hknown, hid⟩⟩

theorem decodeFields_complete (h : IfcStores fields ifcType ifcId) (ifc : σ) :
    (decodeFields ifcCnts fields ifc).2 = true ↔ Complete fields ifcCnts := by
  induction fields generalizing ifc with
  | nil => simp [decodeFields, Complete]
  | cons f fields ih =>
    rw [complete_cons]
    rcases h.head ifc with ⟨hend, hnot⟩ | ⟨cnt, ifc', -, hkey, hgo, -⟩
    · rw [hend]
      exact iff_of_false (by simp) fun hc => hnot hc.1
    · rw [hgo, and_iff_right hkey]
      exact ih h.tail ifc'

theorem decodeFields_type (h : IfcStores fields ifcType ifcId) (hascii : AsciiType ifcCnts fields)
    (hold : ifcType ifc < 128) : ifcType (decodeFields ifcCnts fields ifc).1 < 128 := by
  induction fields generalizing ifc with
  | nil => exact hold
  | cons f fields ih =>
    rcases h.head ifc with ⟨hend, -⟩ | ⟨cnt, ifc', hget, -, hgo, htype, -⟩
    · rw [hend]
      exact hold
    · rw [hgo]
      rw [AsciiType, hget] at hascii
      apply ih h.tail hascii.2
      rw [htype]
      split_ifs with hkey
      · exact hascii.1 hkey
      · exact hold

theorem decodeFields_known (h : IfcStores fields ifcType ifcId)
    (hknown : (ifcId ifc).isSome = true ∨
      Complete fields ifcCnts ∧ "ifc_id" ∈ fields.map Prod.fst) :
    (ifcId (decodeFields ifcCnts fields ifc).1).isSome = true := by
  induction fields generalizing ifc with
  | nil => exact hknown.resolve_right (by simp)
  | cons f fields ih =>
    rcases h.head ifc with ⟨hend, hnot⟩ | ⟨cnt, ifc', -, -, hgo, -, hid⟩
    · rw [hend]
      exact hknown.resolve_right fun hc => hnot (complete_cons.mp hc.1).1
    · rw [hgo]
      apply ih h.tail
      rcases hid with ⟨hsame, hkey⟩ | hid
      · rw [hsame]
        refine hknown.imp_right fun ⟨hc, hmem⟩ => ⟨(complete_cons.mp hc).2, ?_⟩
        exact (List.mem_cons.mp hmem).resolve_left (Ne.symm hkey)
      · exact .inl hid

theorem inIfcStores : IfcStores inIfcFields InIfcStats.ifcType InIfcStats.ifcId := by
  constructor
  · simp [inIfcFields]
  · simp only [inIfcFields, List.forall_mem_cons, String.reduceEq, IsEmpty.forall_iff,
      List.not_mem_nil, implies_true, forall_const, and_true, true_and]
    intro cnt ifc
    cases cnt.stringValue with
    | none => simp
    | some str => simp

theorem outIfcStores : IfcStores outIfcFields OutIfcStats.ifcType OutIfcStats.ifcId := by
  constructor
  · simp [outIfcFields]
  · simp only [outIfcFields, List.forall_mem_cons, String.reduceEq, IsEmpty.forall_iff,
      List.not_mem_nil, implies_true, forall_const, and_true, true_and]
    intro cnt ifc
    cases cnt.stringValue with
    | none => simp
    | some str => simp

end fields

/-! ## The arrays -/

section arrays

variable {σ : Type}

/-- The decoder goes through the first `ifcCnt` objects. -/
def Finishes (fields : IfcFields σ) : List Json → Nat → Prop
  | _, 0 => True
  | [], _ + 1 => True
  | ifcCnts :: ifcesArr, ifcCnt + 1 => Complete fields ifcCnts ∧ Finishes fields ifcesArr ifcCnt

/-- The objects that the decoder comes to store ASCII types. -/
def KeepsTypes (fields : IfcFields σ) : List Json → Nat → Prop
  | _, 0 => True
  | [], _ + 1 => True
  | ifcCnts :: ifcesArr, ifcCnt + 1 =>
    AsciiType ifcCnts fields ∧ (Complete fields ifcCnts → KeepsTypes fields ifcesArr ifcCnt)

/-- All of `ifcCnt` interfaces are described. -/
def Fills (fields : IfcFields σ) : List Json → Nat → Prop
  | _, 0 => True
  | [], _ + 1 => False
  | ifcCnts :: ifcesArr, ifcCnt + 1 =>
    Complete fields ifcCnts ∧ AsciiType ifcCnts fields ∧ Fills fields ifcesArr ifcCnt

instance decidableFinishes (fields : IfcFields σ) :
    (ifcesArr : List Json) → (ifcCnt : Nat) → Decidable (Finishes fields ifcesArr ifcCnt)
  | [], 0 => .isTrue trivial
  | _ :: _, 0 => .isTrue trivial
  | [], _ + 1 => .isTrue trivial
  | ifcCnts :: ifcesArr, ifcCnt + 1 =>
    have := decidableFinishes fields ifcesArr ifcCnt
    inferInstanceAs (Decidable (Complete fields ifcCnts ∧ Finishes fields ifcesArr ifcCnt))

instance decidableKeepsTypes (fields : IfcFields σ) :
    (ifcesArr : List Json) → (ifcCnt : Nat) → Decidable (KeepsTypes fields ifcesArr ifcCnt)
  | [], 0 => .isTrue trivial
  | _ :: _, 0 => .isTrue trivial
  | [], _ + 1 => .isTrue trivial
  | ifcCnts :: ifcesArr, ifcCnt + 1 =>
    have := decidableKeepsTypes fields ifcesArr ifcCnt
    inferInstanceAs (Decidable (AsciiType ifcCnts fields ∧
      (Complete fields ifcCnts → KeepsTypes fields ifcesArr ifcCnt)))

instance decidableFills (fields : IfcFields σ) :
    (ifcesArr : List Json) → (ifcCnt : Nat) → Decidable (Fills fields ifcesArr ifcCnt)
  | [], 0 => .isTrue trivial
  | _ :: _, 0 => .isTrue trivial
  | [], _ + 1 => .isFalse id
  | ifcCnts :: ifcesArr, ifcCnt + 1 =>
    have := decidableFills fields ifcesArr ifcCnt
    inferInstanceAs (Decidable (Complete fields ifcCnts ∧ AsciiType ifcCnts fields ∧
      Fills fields ifcesArr ifcCnt))

variable {fields : IfcFields σ} {ifcType : σ → UInt8} {ifcId : σ → Option String}

theorem not_complete_of_not_object {ifcCnts : Json} (hne : fields ≠ [])
    (h : ifcCnts.isObject = false) : ¬ Complete fields ifcCnts := fun hc => by
  obtain ⟨f, rest, rfl⟩ := List.exists_cons_of_ne_nil hne
  have hkey := (complete_cons.mp hc).1
  cases ifcCnts with
  | object => simp [Json.isObject] at h
  | _ => simp [KeyPresent, Json.objectGet] at hkey

/-- One turn of the loop. -/
theorem decodeIfces_cons (h : IfcStores fields ifcType ifcId) (hne : fields ≠ []) (ifcCnts : Json)
    (ifcesArr : List Json) (ifc : σ) (ifces : List σ) :
    ∃ ifc', decodeIfces fields (ifcCnts :: ifcesArr) (ifc :: ifces) =
        (if Complete fields ifcCnts then
          (ifc' :: (decodeIfces fields ifcesArr ifces).1, (decodeIfces fields ifcesArr ifces).2)
        else (ifc' :: ifces, false)) ∧
      (AsciiType ifcCnts fields → PackableIfc (ifcType ifc) (ifcId ifc) →
        PackableIfc (ifcType ifc') (ifcId ifc')) ∧
      (AsciiType ifcCnts fields → ifcType ifc < 128 → Complete fields ifcCnts →
        "ifc_id" ∈ fields.map Prod.fst → PackableIfc (ifcType ifc') (ifcId ifc')) := by
  cases hobject : ifcCnts.isObject with
  | false =>
    have hnot := not_complete_of_not_object hne hobject
    exact ⟨ifc, by simp [decodeIfces, hobject, hnot], fun _ h => h, fun _ _ hc => absurd hc hnot⟩
  | true =>
    have hcomplete := @decodeFields_complete σ ifcCnts fields ifcType ifcId h ifc
    refine ⟨(decodeFields ifcCnts fields ifc).1, ?_, fun hascii hold => ?_,
      fun hascii hold hc hid => ?_⟩
    · cases hdecoded : decodeFields ifcCnts fields ifc with
      | mk ifc' decoded =>
        rw [hdecoded] at hcomplete
        cases decoded with
        | true => simp [decodeIfces, hobject, hdecoded, hcomplete.mp rfl]
        | false =>
          have hnot : ¬ Complete fields ifcCnts := fun hc => by simpa using hcomplete.mpr hc
          simp [decodeIfces, hobject, hdecoded, hnot]
    · exact ⟨decodeFields_type h hascii hold.ascii, decodeFields_known h (.inl hold.known)⟩
    · exact ⟨decodeFields_type h hascii hold, decodeFields_known h (.inr ⟨hc, hid⟩)⟩

theorem decodeIfces_finishes (h : IfcStores fields ifcType ifcId) (hne : fields ≠ [])
    (ifcesArr : List Json) (ifces : List σ) :
    (decodeIfces fields ifcesArr ifces).2 = true ↔ Finishes fields ifcesArr ifces.length := by
  induction ifces generalizing ifcesArr with
  | nil => cases ifcesArr <;> simp [decodeIfces, Finishes]
  | cons ifc ifces ih =>
    cases ifcesArr with
    | nil => simp [decodeIfces, Finishes]
    | cons ifcCnts ifcesArr =>
      obtain ⟨ifc', heq, -⟩ := decodeIfces_cons h hne ifcCnts ifcesArr ifc ifces
      rw [heq, List.length_cons, Finishes]
      split_ifs with hc
      · rw [and_iff_right hc]
        exact ih ifcesArr
      · exact iff_of_false (by simp) fun hf => hc hf.1

/-- Entries that can be packed stay so. -/
theorem decodeIfces_keeps (h : IfcStores fields ifcType ifcId) (hne : fields ≠ [])
    {ifcesArr : List Json} {ifces : List σ} (hkeeps : KeepsTypes fields ifcesArr ifces.length)
    (hold : ∀ ifc ∈ ifces, PackableIfc (ifcType ifc) (ifcId ifc)) :
    ∀ ifc ∈ (decodeIfces fields ifcesArr ifces).1, PackableIfc (ifcType ifc) (ifcId ifc) := by
  induction ifces generalizing ifcesArr with
  | nil => cases ifcesArr <;> simp [decodeIfces]
  | cons ifc ifces ih =>
    cases ifcesArr with
    | nil => simpa [decodeIfces] using hold
    | cons ifcCnts ifcesArr =>
      obtain ⟨hfirst, hothers⟩ := List.forall_mem_cons.mp hold
      rw [List.length_cons, KeepsTypes] at hkeeps
      obtain ⟨ifc', heq, hpacked, -⟩ := decodeIfces_cons h hne ifcCnts ifcesArr ifc ifces
      rw [heq]
      split_ifs with hc
      · exact List.forall_mem_cons.mpr ⟨hpacked hkeeps.1 hfirst, ih (hkeeps.2 hc) hothers⟩
      · exact List.forall_mem_cons.mpr ⟨hpacked hkeeps.1 hfirst, hothers⟩

/-- Blank entries can be packed when all of them are described. -/
theorem decodeIfces_fills (h : IfcStores fields ifcType ifcId) (hne : fields ≠ [])
    (hid : "ifc_id" ∈ fields.map Prod.fst) {ifcesArr : List Json} {ifces : List σ}
    (hfills : Fills fields ifcesArr ifces.length) (hold : ∀ ifc ∈ ifces, ifcType ifc < 128) :
    ∀ ifc ∈ (decodeIfces fields ifcesArr ifces).1, PackableIfc (ifcType ifc) (ifcId ifc) := by
  induction ifces generalizing ifcesArr with
  | nil => cases ifcesArr <;> simp [decodeIfces]
  | cons ifc ifces ih =>
    cases ifcesArr with
    | nil => exact absurd hfills id
    | cons ifcCnts ifcesArr =>
      obtain ⟨hfirst, hothers⟩ := List.forall_mem_cons.mp hold
      obtain ⟨hc, hascii, hrest⟩ := hfills
      obtain ⟨ifc', heq, -, hpacked⟩ := decodeIfces_cons h hne ifcCnts ifcesArr ifc ifces
      rw [heq, if_pos hc]
      exact List.forall_mem_cons.mpr ⟨hpacked hascii hfirst hc hid, ih hrest hothers⟩

end arrays

/-! ## The messages -/

section sides

variable {σ : Type}

/-- One direction of a message that announces `ifcCnt` interfaces where `old` are known. -/
def SideFits (fields : IfcFields σ) (ifcesArr : Option (List Json)) (ifcCnt old : Nat) : Prop :=
  if ifcCnt = old then KeepsTypes fields (ifcesArr.getD []) ifcCnt
  else ifcCnt = 0 ∨ ∃ arr, ifcesArr = some arr ∧ Fills fields arr ifcCnt

/-- The decoder goes through one direction and comes to the next. -/
def SideFinishes (fields : IfcFields σ) (ifcesArr : Option (List Json)) (ifcCnt : Nat) : Prop :=
  ifcCnt = 0 ∨ ∃ arr, ifcesArr = some arr ∧ Finishes fields arr ifcCnt

/-- Nothing is to be described. -/
def Untouched (ifcCnt old : Nat) : Prop := ifcCnt = old ∨ ifcCnt = 0

instance (fields : IfcFields σ) (ifcesArr : Option (List Json)) (ifcCnt old : Nat) :
    Decidable (SideFits fields ifcesArr ifcCnt old) :=
  inferInstanceAs (Decidable (if ifcCnt = old then _ else ifcCnt = 0 ∨
    ∃ arr ∈ ifcesArr, Fills fields arr ifcCnt))

instance (fields : IfcFields σ) (ifcesArr : Option (List Json)) (ifcCnt : Nat) :
    Decidable (SideFinishes fields ifcesArr ifcCnt) :=
  inferInstanceAs (Decidable (ifcCnt = 0 ∨ ∃ arr ∈ ifcesArr, Finishes fields arr ifcCnt))

instance (ifcCnt old : Nat) : Decidable (Untouched ifcCnt old) :=
  inferInstanceAs (Decidable (_ ∨ _))

variable {fields : IfcFields σ} {ifcType : σ → UInt8} {ifcId : σ → Option String} {zero : σ}
  {ifces : List σ} {allocated : Bool} {ifcCnt : Nat}

theorem reallocIfces_untouched (zero : σ) (allocated : Bool) (h : Untouched ifcCnt ifces.length)
    (hold : ∀ ifc ∈ ifces, PackableIfc (ifcType ifc) (ifcId ifc)) :
    ∀ ifc ∈ (reallocIfces zero allocated ifcCnt ifces).1, PackableIfc (ifcType ifc) (ifcId ifc) := by
  unfold reallocIfces
  split_ifs with hsame
  · exact hold
  · have hnone : ifcCnt = 0 := h.resolve_left hsame
    simp [hnone]
  · simp

theorem reallocIfces_allocated : (reallocIfces zero allocated ifcCnt ifces).2 = true ↔
    ifcCnt = ifces.length ∨ allocated = true := by
  unfold reallocIfces
  split_ifs with hsame hallocated
  · simp [hsame]
  · simp [hallocated]
  · simp [hsame, hallocated]

theorem reallocIfces_failed (h : (reallocIfces zero allocated ifcCnt ifces).2 = false) :
    (reallocIfces zero allocated ifcCnt ifces).1 = [] := by
  unfold reallocIfces at h ⊢
  split_ifs with hsame hallocated
  · simp [hsame] at h
  · simp [hsame, hallocated] at h
  · rfl

theorem reallocIfces_length (h : (reallocIfces zero allocated ifcCnt ifces).2 = true) :
    (reallocIfces zero allocated ifcCnt ifces).1.length = ifcCnt := by
  unfold reallocIfces at h ⊢
  split_ifs with hsame hallocated
  · exact hsame.symm
  · simp
  · simp [hsame, hallocated] at h

theorem decodeIfcesArray_finishes (h : IfcStores fields ifcType ifcId) (hne : fields ≠ [])
    (ifcesArr : Option (List Json)) (ifces : List σ) :
    (decodeIfcesArray fields ifcesArr ifces).2 = true ↔
      SideFinishes fields ifcesArr ifces.length := by
  unfold decodeIfcesArray SideFinishes
  split_ifs with hnil
  · simp [hnil]
  · have hlen : ifces.length ≠ 0 := by simpa using hnil
    cases ifcesArr with
    | none => simp [hlen]
    | some arr => simpa [hlen] using decodeIfces_finishes h hne arr ifces

/-- A direction that fits leaves interfaces that can be packed. -/
theorem decodeSide_packable (h : IfcStores fields ifcType ifcId) (hne : fields ≠ [])
    (hid : "ifc_id" ∈ fields.map Prod.fst) (hzero : ifcType zero < 128)
    {ifcesArr : Option (List Json)} (hfits : SideFits fields ifcesArr ifcCnt ifces.length)
    (hallocated : (reallocIfces zero allocated ifcCnt ifces).2 = true)
    (hold : ∀ ifc ∈ ifces, PackableIfc (ifcType ifc) (ifcId ifc)) :
    ∀ ifc ∈ (decodeIfcesArray fields ifcesArr
        (reallocIfces zero allocated ifcCnt ifces).1).1,
      PackableIfc (ifcType ifc) (ifcId ifc) := by
  unfold SideFits at hfits
  unfold reallocIfces at hallocated ⊢
  by_cases hsame : ifcCnt = ifces.length
  · rw [if_pos hsame] at hfits ⊢
    unfold decodeIfcesArray
    split_ifs with hnil
    · simp
    · cases ifcesArr with
      | none => exact hold
      | some arr => exact decodeIfces_keeps h hne (hsame ▸ hfits) hold
  · rw [if_neg hsame] at hfits hallocated ⊢
    split_ifs at hallocated ⊢ with halloc
    unfold decodeIfcesArray
    split_ifs with hnil
    · simp
    · have hsome : ifcCnt ≠ 0 := fun hz => hnil (by simp [hz])
      obtain ⟨arr, rfl, hfills⟩ := hfits.resolve_left hsome
      refine decodeIfces_fills h hne hid (by simpa using hfills) fun ifc hifc => ?_
      rw [List.eq_of_mem_replicate hifc]
      exact hzero

end sides

/-- The rest of a message that announces `inCnt` input interfaces, where `oldIn` and `oldOut`
interfaces are known. -/
def OutCntFits (allocated : Bool) (root : Json) (inCnt oldIn oldOut : Nat) : Prop :=
  match root.objectGet "out_cnt" with
  | none => Untouched inCnt oldIn
  | some outCnt =>
    if ifcCntValue outCnt = oldOut ∨ allocated = true then
      SideFits inIfcFields (ifcesArray root "in") inCnt oldIn ∧
        (SideFinishes inIfcFields (ifcesArray root "in") inCnt →
          SideFits outIfcFields (ifcesArray root "out") (ifcCntValue outCnt) oldOut) ∧
        (¬ SideFinishes inIfcFields (ifcesArray root "in") inCnt →
          Untouched (ifcCntValue outCnt) oldOut)
    else Untouched inCnt oldIn

instance (allocated : Bool) (root : Json) (inCnt oldIn oldOut : Nat) :
    Decidable (OutCntFits allocated root inCnt oldIn oldOut) := by
  unfold OutCntFits
  split <;> infer_instance

/-- A call of the decoder: its message, what `calloc` returns, and the counts it finds. -/
structure DecodeCall where
  jsonStruct : Option Json
  callocs : Allocations
  totalInIfcesCnt : Nat
  totalOutIfcesCnt : Nat

/-- A message that leaves only interfaces that can be packed. -/
def DecodeCall.Fits (call : DecodeCall) : Prop :=
  ∀ root inCnt, call.jsonStruct = some root → root.objectGet "in_cnt" = some inCnt →
    (ifcCntValue inCnt = call.totalInIfcesCnt ∨ call.callocs.inIfces = true) →
    OutCntFits call.callocs.outIfces root (ifcCntValue inCnt) call.totalInIfcesCnt
      call.totalOutIfcesCnt

instance (call : DecodeCall) : Decidable call.Fits :=
  decidable_of_iff (∀ root ∈ call.jsonStruct, ∀ inCnt ∈ root.objectGet "in_cnt",
    (ifcCntValue inCnt = call.totalInIfcesCnt ∨ call.callocs.inIfces = true) →
      OutCntFits call.callocs.outIfces root (ifcCntValue inCnt) call.totalInIfcesCnt
        call.totalOutIfcesCnt)
    ⟨fun h root inCnt hroot hcnt => h root hroot inCnt hcnt,
      fun h root hroot inCnt hcnt => h root inCnt hroot hcnt⟩

section stats

variable {root : Json} {s : ModuleStats} {allocated : Bool}

theorem decodeIfcesData_packable
    (hin : ∀ ifc ∈ (decodeIfcesArray inIfcFields (ifcesArray root "in") s.inIfcesData).1,
      ifc.Packable)
    (hgo : (decodeIfcesArray inIfcFields (ifcesArray root "in") s.inIfcesData).2 = true →
      ∀ ifc ∈ (decodeIfcesArray outIfcFields (ifcesArray root "out") s.outIfcesData).1,
        ifc.Packable)
    (hend : (decodeIfcesArray inIfcFields (ifcesArray root "in") s.inIfcesData).2 = false →
      ∀ ifc ∈ s.outIfcesData, ifc.Packable) :
    (decodeIfcesData root s).1.Packable := by
  unfold decodeIfcesData
  cases hdecoded : decodeIfcesArray inIfcFields (ifcesArray root "in") s.inIfcesData with
  | mk inIfcesData decoded =>
    rw [hdecoded] at hin hgo hend
    cases decoded with
    | false => exact ⟨hin, hend rfl⟩
    | true => exact ⟨hin, hgo rfl⟩

/-- What follows the allocation of the input interfaces, of which `old` were known. -/
theorem decodeOutCnt_packable {inCnt old : Nat} (hlen : s.inIfcesData.length = inCnt)
    (hin : Untouched inCnt old → ∀ ifc ∈ s.inIfcesData, ifc.Packable)
    (hinFits : SideFits inIfcFields (ifcesArray root "in") inCnt old →
      ∀ ifc ∈ (decodeIfcesArray inIfcFields (ifcesArray root "in") s.inIfcesData).1, ifc.Packable)
    (hout : ∀ ifc ∈ s.outIfcesData, ifc.Packable)
    (hfits : OutCntFits allocated root inCnt old s.outIfcesData.length) :
    (decodeOutCnt allocated root s).1.Packable := by
  unfold decodeOutCnt
  unfold OutCntFits at hfits
  cases hget : root.objectGet "out_cnt" with
  | none =>
    rw [hget] at hfits
    exact ⟨hin hfits, hout⟩
  | some outCnt =>
    rw [hget] at hfits
    simp only at hfits ⊢
    have hallocated := @reallocIfces_allocated OutIfcStats .zero s.outIfcesData allocated
      (ifcCntValue outCnt)
    cases hrealloc : reallocIfces .zero allocated (ifcCntValue outCnt) s.outIfcesData with
    | mk outIfcesData reallocated =>
      rw [hrealloc] at hallocated
      cases reallocated with
      | false =>
        rw [if_neg (by simpa using hallocated)] at hfits
        have hnil := reallocIfces_failed (congrArg Prod.snd hrealloc)
        rw [hrealloc] at hnil
        have hnil : outIfcesData = [] := hnil
        exact ⟨hin hfits, by simp [hnil]⟩
      | true =>
        rw [if_pos (hallocated.mp rfl)] at hfits
        obtain ⟨hside, hgo, hend⟩ := hfits
        have hfinish := decodeIfcesArray_finishes inIfcStores (by decide) (ifcesArray root "in")
          s.inIfcesData
        rw [hlen] at hfinish
        refine decodeIfcesData_packable (hinFits hside) (fun hdecoded => ?_) fun hdecoded => ?_
        · have hpacked := decodeSide_packable outIfcStores (by decide) (by decide) (by decide)
            (hgo (hfinish.mp hdecoded)) (congrArg Prod.snd hrealloc) hout
          rwa [hrealloc] at hpacked
        · have hnot : ¬ SideFinishes inIfcFields (ifcesArray root "in") inCnt := fun hf => by
            simpa [hdecoded] using hfinish.mpr hf
          have hpacked := reallocIfces_untouched .zero allocated (hend hnot) hout
          rwa [hrealloc] at hpacked

/-- The decoder keeps a module presentable that gets only such messages. -/
theorem serviceDecodeModuleStats_packable {callocs : Allocations} {jsonStruct : Option Json}
    (h : s.Packable)
    (hfits : DecodeCall.Fits ⟨jsonStruct, callocs, s.inIfcesData.length, s.outIfcesData.length⟩) :
    (serviceDecodeModuleStats callocs jsonStruct s).1.Packable := by
  unfold serviceDecodeModuleStats
  cases jsonStruct with
  | none => exact h
  | some root =>
    simp only
    split_ifs
    · exact h
    · cases hget : root.objectGet "in_cnt" with
      | none => exact h
      | some inCnt =>
        simp only
        have hfits := hfits root inCnt rfl hget
        simp only at hfits
        have hallocated := @reallocIfces_allocated InIfcStats .zero s.inIfcesData callocs.inIfces
          (ifcCntValue inCnt)
        cases hrealloc : reallocIfces .zero callocs.inIfces (ifcCntValue inCnt) s.inIfcesData with
        | mk inIfcesData reallocated =>
          rw [hrealloc] at hallocated
          cases reallocated with
          | false =>
            have hnil := reallocIfces_failed (congrArg Prod.snd hrealloc)
            rw [hrealloc] at hnil
            have hnil : inIfcesData = [] := hnil
            exact ⟨by simp [hnil], h.outIfces⟩
          | true =>
            have hlen := reallocIfces_length (congrArg Prod.snd hrealloc)
            rw [hrealloc] at hlen
            refine decodeOutCnt_packable hlen (fun hu => ?_) (fun hside => ?_) h.outIfces
              (hfits (hallocated.mp rfl))
            · have hpacked := reallocIfces_untouched .zero callocs.inIfces hu h.inIfces
              rwa [hrealloc] at hpacked
            · have hpacked := decodeSide_packable inIfcStores (by decide) (by decide) (by decide)
                hside (congrArg Prod.snd hrealloc) h.inIfces
              rwa [hrealloc] at hpacked

end stats

end NemeaSupervisor
