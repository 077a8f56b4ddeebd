import Mathlib.Data.List.Basic

/-!
# JSON values

Values as a C library for JSON hands them out and takes them: a lookup in what is
no object finds nothing, the integer of what is no integer is zero, and packing an
object fails as soon as one of its values cannot be made.
-/

inductive Json where
  | null
  | bool (b : Bool)
  | integer (i : Int)
  | real (mantissa exponent : Int)
  | string (s : String)
  | array (elements : List Json)
  | object (fields : List (String × Json))

namespace Json

/-- `json_is_object`. -/
def isObject : Json → Bool
  | .object _ => true
  | _ => false

/-- `json_object_get`; the missing value is NULL. -/
def objectGet (v : Json) (key : String) : Option Json :=
  match v with
  | .object fields => fields.lookup key
  | _ => none

/-- The elements of what `json_is_array`. -/
def elements? : Json → Option (List Json)
  | .array elements => some elements
  | _ => none

/-- `json_integer_value`. -/
def integerValue : Json → Int
  | .integer i => i
  | _ => 0

/-- `json_string_value`. -/
def stringValue : Json → Option String
  | .string s => some s
  | _ => none

/-- `json_pack` of an object; a value that cannot be made is missing. -/
def packFields : List (String × Option Json) → Option (List (String × Json))
  | [] => some []
  | (key, v) :: fields =>
    match v, packFields fields with
    | some v, some packed => some ((key, v) :: packed)
    | _, _ => none

def pack (fields : List (String × Option Json)) : Option Json := (packFields fields).map .object

/-- The elements appended to an array, which ends at one that cannot be made. -/
def packElements : List (Option Json) → Option (List Json)
  | [] => some []
  | v :: elements =>
    match v, packElements elements with
    | some v, some packed => some (v :: packed)
    | _, _ => none

/-- One key of `json_object_update`. -/
def setField (fields : List (String × Json)) (key : String) (v : Json) : List (String × Json) :=
  match fields with
  | [] => [(key, v)]
  | f :: fields => if f.1 = key then (key, v) :: fields else f :: setField fields key v

/-- `json_object_update`. -/
def update (fields other : List (String × Json)) : List (String × Json) :=
  other.foldl (fun fields f => setField fields f.1 f.2) fields

theorem packFields_isSome {fields : List (String × Option Json)} :
    (packFields fields).isSome = true ↔ ∀ f ∈ fields, f.2.isSome = true := by
  induction fields with
  | nil => simp [packFields]
  | cons f fields ih =>
    obtain ⟨key, v⟩ := f
    cases v with
    | none => simp [packFields]
    | some v =>
      cases hpacked : packFields fields with
      | none => simpa [packFields, hpacked] using ih
      | some packed => simpa [packFields, hpacked] using ih

/-- An object can be packed when all of its values can be made. -/
theorem pack_isSome {fields : List (String × Option Json)} :
    (pack fields).isSome = true ↔ ∀ f ∈ fields, f.2.isSome = true := by
  rw [pack, Option.isSome_map, packFields_isSome]

theorem packElements_isSome {elements : List (Option Json)} :
    (packElements elements).isSome = true ↔ ∀ v ∈ elements, v.isSome = true := by
  induction elements with
  | nil => simp [packElements]
  | cons v elements ih =>
    cases v with
    | none => simp [packElements]
    | some v =>
      cases hpacked : packElements elements with
      | none => simpa [packElements, hpacked] using ih
      | some packed => simpa [packElements, hpacked] using ih

theorem setField_keys {fields : List (String × Json)} {key : String}
    (h : key ∉ fields.map Prod.fst) (v : Json) :
    (setField fields key v).map Prod.fst = fields.map Prod.fst ++ [key] := by
  induction fields with
  | nil => rfl
  | cons f fields ih =>
    simp only [List.map_cons, List.mem_cons, not_or] at h
    rw [setField, if_neg (Ne.symm h.1), List.map_cons, List.map_cons, ih h.2, List.cons_append]

end Json
