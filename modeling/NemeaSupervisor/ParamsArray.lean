import NemeaSupervisor.Memory
import NemeaSupervisor.Params

/-!
# The array of parsed parameters

`parse_module_params` returns its parameters in an array that it doubles when it is
full, together with their number. The array starts with the parameters of the text
whatever their number is, and a text that is not well formed gives NULL and 0.
-/

namespace NemeaSupervisor

open Memory

/-- Initial size of the array of parameters. -/
def paramsArrStartSize : Nat := 5

/-- A parameter has been read. -/
def addParam (params : Slots String) (buffer : List Char) : Slots String :=
  params.push (some (String.ofList buffer))

/-- The loop of `parse_module_params`, with its array. -/
def scanParamsArray : Scan → List Char → Slots String → List Char → Option (Slots String)
  | .outside, _, params, [] => some params
  | .outside, buffer, params, c :: cs =>
    if c = '\'' then
      if buffer ≠ [] then none else scanParamsArray .apostrophes [] params cs
    else if c = '"' then
      if buffer ≠ [] then none else scanParamsArray .quotes [] params cs
    else if c = ' ' then
      if buffer = [] then scanParamsArray .outside [] params cs
      else scanParamsArray .outside [] (addParam params buffer) cs
    else if cs = [] then scanParamsArray .outside [] (addParam params (buffer ++ [c])) cs
    else scanParamsArray .outside (buffer ++ [c]) params cs
  | .apostrophes, _, _, [] => none
  | .apostrophes, buffer, params, c :: cs =>
    if c = '\'' then
      if buffer = [] then none
      else scanParamsArray .outside [] (addParam params buffer) cs
    else scanParamsArray .apostrophes (buffer ++ [c]) params cs
  | .quotes, _, _, [] => none
  | .quotes, buffer, params, c :: cs =>
    if c = '"' then
      if buffer = [] then none
      else scanParamsArray .outside [] (addParam params buffer) cs
    else if c ≠ '\'' then scanParamsArray .quotes (buffer ++ [c]) params cs
    else none

/-- `parse_module_params`: the array or NULL, and `params_num`. -/
def parseModuleParamsArray (moduleParams : String) : Option (List (Option String)) × Nat :=
  match scanParamsArray .outside [] (.calloc paramsArrStartSize) moduleParams.toList with
  | some params => (some params.cells, params.cnt)
  | none => (none, 0)

/-- The array and its number stand for these parameters. -/
def Returns (result : Option (List (Option String)) × Nat) (params : List String) : Prop :=
  ∃ room, result = (some (params.map some ++ List.replicate room none), params.length)

/-- The arguments in apostrophes, with spaces between them. -/
def renderParams (args : List String) : List Char :=
  [' '].intercalate (args.map fun arg => '\'' :: arg.toList ++ ['\''])

/-- Growing the array is all that the scan does besides collecting the parameters. -/
theorem scanParamsArray_eq (v : Slots String) (scan : Scan) (buffer : List Char)
    (params : List String) (cs : List Char) :
    scanParamsArray scan buffer (params.foldl (fun v p => v.push (some p)) v) cs =
      (scanParams scan buffer params cs).map
        fun ps => ps.foldl (fun v p => v.push (some p)) v := by
  fun_induction scanParams scan buffer params cs <;>
    simp_all [scanParamsArray, addParam]

theorem foldl_push_holds {v : Slots String} {l : List String} {room : Nat} (h : v.Holds l room)
    (hne : v.cells ≠ []) (params : List String) :
    ∃ room', (params.foldl (fun v p => v.push (some p)) v).Holds (l ++ params) room' := by
  induction params generalizing v l room with
  | nil => exact ⟨room, by simpa using h⟩
  | cons p params ih =>
    obtain ⟨room', hpush⟩ := h.push hne p
    rw [List.foldl_cons, List.append_cons]
    exact ih hpush (Slots.push_cells_ne_nil hne _)

/-- The array and its number are the parameters that the scan has found. -/
theorem parseModuleParamsArray_eq (moduleParams : String) :
    (∃ params, parseModuleParams moduleParams = some params ∧
        Returns (parseModuleParamsArray moduleParams) params) ∨
      parseModuleParams moduleParams = none ∧ parseModuleParamsArray moduleParams = (none, 0) := by
  have heq := scanParamsArray_eq (.calloc paramsArrStartSize) .outside [] [] moduleParams.toList
  rw [List.foldl_nil] at heq
  rw [parseModuleParamsArray, heq]
  cases hparse : parseModuleParams moduleParams with
  | none =>
    rw [parseModuleParams] at hparse
    rw [hparse]
    exact .inr ⟨rfl, rfl⟩
  | some params =>
    rw [parseModuleParams] at hparse
    rw [hparse]
    obtain ⟨room, h⟩ := foldl_push_holds (Slots.calloc_holds paramsArrStartSize)
      (by simp [Slots.calloc, paramsArrStartSize]) params
    rw [List.nil_append] at h
    exact .inl ⟨params, rfl, room, by simp only [Option.map_some, h.cells, h.cnt]⟩

theorem Returns.unique {result : Option (List (Option String)) × Nat} {params params' : List String}
    (h : Returns result params) (h' : Returns result params') : params = params' := by
  obtain ⟨room, rfl⟩ := h
  obtain ⟨room', heq⟩ := h'
  simp only [Prod.mk.injEq, Option.some.injEq] at heq
  obtain ⟨hcells, hcnt⟩ := heq
  have hmap := List.append_inj_left hcells (by rw [List.length_map, List.length_map, hcnt])
  exact List.map_injective_iff.mpr (fun _ _ h => Option.some.inj h) hmap

theorem paramsText_render {args : List String} (h : ∀ arg ∈ args, arg ≠ "" ∧ '\'' ∉ arg.toList) :
    ParamsText (renderParams args) (args.map String.toList) := by
  have harg : ∀ arg ∈ args, arg.toList ≠ [] ∧ ∀ c ∈ arg.toList, c ≠ '\'' := by
    intro arg harg
    obtain ⟨hne, hnot⟩ := h arg harg
    refine ⟨by simpa using hne, ?_⟩
    rintro c hc rfl
    exact hnot hc
  unfold renderParams
  induction args with
  | nil => exact .nil
  | cons arg args ih =>
    obtain ⟨hne, hin⟩ := harg arg (by simp)
    have hrest := ih (fun a ha => h a (List.mem_cons_of_mem arg ha))
      (fun a ha => harg a (List.mem_cons_of_mem arg ha))
    cases args with
    | nil =>
      have hone := ParamsText.apostrophes hne hin .nil
      simpa using hone
    | cons arg' args =>
      rw [List.map_cons, List.map_cons, List.intercalate_cons_cons, List.append_assoc,
        List.append_assoc]
      exact .apostrophes hne hin (.space hrest)

/-- `parse_module_params` accepts the well-formed texts and returns their parameters
with their number, and NULL and 0 for every other text; arguments put in apostrophes
are read back. -/
theorem parse_module_params_grammar :
    (∀ moduleParams params, Returns (parseModuleParamsArray moduleParams) params ↔
      ∃ ps, ParamsText moduleParams.toList ps ∧ params = ps.map String.ofList) ∧
    (∀ moduleParams, (¬ ∃ ps, ParamsText moduleParams.toList ps) →
      parseModuleParamsArray moduleParams = (none, 0)) ∧
    ∀ args : List String, (∀ arg ∈ args, arg ≠ "" ∧ '\'' ∉ arg.toList) →
      Returns (parseModuleParamsArray (String.ofList (renderParams args))) args := by
  have hiff : ∀ moduleParams params, Returns (parseModuleParamsArray moduleParams) params ↔
      parseModuleParams moduleParams = some params := by
    intro moduleParams params
    rcases parseModuleParamsArray_eq moduleParams with ⟨found, hparse, hreturns⟩ | ⟨hparse, hnull⟩
    · rw [hparse, Option.some.injEq]
      exact ⟨fun h => hreturns.unique h, fun h => h ▸ hreturns⟩
    · rw [hparse, hnull]
      exact ⟨fun ⟨room, h⟩ => by simp at h, fun h => by simp at h⟩
  refine ⟨fun moduleParams params => (hiff _ _).trans parseModuleParams_eq_some, ?_, ?_⟩
  · intro moduleParams hbad
    rcases parseModuleParamsArray_eq moduleParams with ⟨found, hparse, -⟩ | ⟨-, hnull⟩
    · obtain ⟨ps, hps, -⟩ := parseModuleParams_eq_some.mp hparse
      exact absurd ⟨ps, hps⟩ hbad
    · exact hnull
  · intro args hargs
    refine (hiff _ _).mpr (parseModuleParams_eq_some.mpr ⟨args.map String.toList, ?_, ?_⟩)
    · rw [String.toList_ofList]
      exact paramsText_render hargs
    · rw [List.map_map]
      exact (List.map_id'' (fun arg => String.ofList_toList) args).symm

/-- Six parameters in one text, past the initial size of the array. -/
theorem parse_module_params_grammar_six :
    Returns (parseModuleParamsArray "a b c 'd e' \"f\" g") ["a", "b", "c", "d e", "f", "g"] ∧
      Returns (parseModuleParamsArray (String.ofList (renderParams ["x y", "\"z\""])))
        ["x y", "\"z\""] :=
  ⟨⟨4, by decide⟩, parse_module_params_grammar.2.2 _ (by decide)⟩

end NemeaSupervisor
