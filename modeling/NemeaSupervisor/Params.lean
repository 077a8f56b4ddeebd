import NemeaSupervisor.Table

/-!
# The parameters of a module

`parse_module_params` splits the text of the element `params` at spaces; a parameter
may also stand in apostrophes or in quotes. `ParamsText` says which texts are well
formed and what their parameters are; the scan finds exactly these.
-/

namespace NemeaSupervisor

/-- Where the scan stands: at a character outside of quotes, or in the loop over a
parameter in apostrophes or in quotes. -/
inductive Scan where
  | outside
  | apostrophes
  | quotes
  deriving DecidableEq, Repr

/-- The loop of `parse_module_params` over the characters that are left. -/
def scanParams : Scan → List Char → List String → List Char → Option (List String)
  | .outside, _, params, [] => some params
  | .outside, buffer, params, c :: cs =>
    if c = '\'' then
      if buffer ≠ [] then none else scanParams .apostrophes [] params cs
    else if c = '"' then
      if buffer ≠ [] then none else scanParams .quotes [] params cs
    else if c = ' ' then
      if buffer = [] then scanParams .outside [] params cs
      else scanParams .outside [] (params ++ [String.ofList buffer]) cs
    else if cs = [] then scanParams .outside [] (params ++ [String.ofList (buffer ++ [c])]) cs
    else scanParams .outside (buffer ++ [c]) params cs
  | .apostrophes, _, _, [] => none
  | .apostrophes, buffer, params, c :: cs =>
    if c = '\'' then
      if buffer = [] then none
      else scanParams .outside [] (params ++ [String.ofList buffer]) cs
    else scanParams .apostrophes (buffer ++ [c]) params cs
  | .quotes, _, _, [] => none
  | .quotes, buffer, params, c :: cs =>
    if c = '"' then
      if buffer = [] then none
      else scanParams .outside [] (params ++ [String.ofList buffer]) cs
    else if c ≠ '\'' then scanParams .quotes (buffer ++ [c]) params cs
    else none

/-- `parse_module_params`; the missing list is NULL. -/
def parseModuleParams (moduleParams : String) : Option (List String) :=
  scanParams .outside [] [] moduleParams.toList

/-! ## Well-formed texts -/

/-- A character of a parameter outside of quotes. -/
def Plain (c : Char) : Prop := c ≠ '\'' ∧ c ≠ '"' ∧ c ≠ ' '

/-- A text and its parameters. -/
inductive ParamsText : List Char → List (List Char) → Prop where
  | nil : ParamsText [] []
  | space {s : List Char} {ps : List (List Char)} (h : ParamsText s ps) : ParamsText (' ' :: s) ps
  | word {w s : List Char} {ps : List (List Char)} (hw : w ≠ []) (hplain : ∀ c ∈ w, Plain c)
    (hend : s = [] ∨ ∃ t, s = ' ' :: t) (h : ParamsText s ps) : ParamsText (w ++ s) (w :: ps)
  | apostrophes {w s : List Char} {ps : List (List Char)} (hw : w ≠ []) (hin : ∀ c ∈ w, c ≠ '\'')
    (h : ParamsText s ps) : ParamsText ('\'' :: w ++ '\'' :: s) (w :: ps)
  | quotes {w s : List Char} {ps : List (List Char)} (hw : w ≠ [])
    (hin : ∀ c ∈ w, c ≠ '"' ∧ c ≠ '\'') (h : ParamsText s ps) :
    ParamsText ('"' :: w ++ '"' :: s) (w :: ps)

/-! ## The scan reads well-formed texts -/

/-- A parameter outside of quotes ends at a space or with the text. -/
theorem scan_word {w s : List Char} (hw : w ≠ []) (hplain : ∀ c ∈ w, Plain c)
    (hend : s = [] ∨ ∃ t, s = ' ' :: t) (buffer : List Char) (params : List String) :
    scanParams .outside buffer params (w ++ s) =
      scanParams .outside [] (params ++ [String.ofList (buffer ++ w)]) s := by
  induction w generalizing buffer with
  | nil => exact absurd rfl hw
  | cons c w ih =>
    obtain ⟨hapostrophe, hquote, hspace⟩ := hplain c (by simp)
    cases w with
    | nil =>
      rcases hend with rfl | ⟨t, rfl⟩
      · simp [scanParams, hapostrophe, hquote, hspace]
      · simp [scanParams, hapostrophe, hquote, hspace]
    | cons d w =>
      have h := ih (by simp) (fun e he => hplain e (List.mem_cons_of_mem c he)) (buffer ++ [c])
      rw [List.append_assoc, List.singleton_append] at h
      rw [← h, List.cons_append, scanParams, if_neg hapostrophe, if_neg hquote, if_neg hspace,
        if_neg (by simp)]

theorem scan_apostrophes {w : List Char} (hin : ∀ c ∈ w, c ≠ '\'') {buffer : List Char}
    (hw : buffer ++ w ≠ []) (params : List String) (s : List Char) :
    scanParams .apostrophes buffer params (w ++ '\'' :: s) =
      scanParams .outside [] (params ++ [String.ofList (buffer ++ w)]) s := by
  induction w generalizing buffer with
  | nil =>
    rw [List.append_nil] at hw ⊢
    simp [scanParams, hw]
  | cons c w ih =>
    have h := @ih (fun e he => hin e (List.mem_cons_of_mem c he)) (buffer ++ [c]) (by simp)
    rw [List.append_assoc, List.singleton_append] at h
    rw [← h, List.cons_append, scanParams, if_neg (hin c (by simp))]

theorem scan_quotes {w : List Char} (hin : ∀ c ∈ w, c ≠ '"' ∧ c ≠ '\'') {buffer : List Char}
    (hw : buffer ++ w ≠ []) (params : List String) (s : List Char) :
    scanParams .quotes buffer params (w ++ '"' :: s) =
      scanParams .outside [] (params ++ [String.ofList (buffer ++ w)]) s := by
  induction w generalizing buffer with
  | nil =>
    rw [List.append_nil] at hw ⊢
    simp [scanParams, hw]
  | cons c w ih =>
    have h := @ih (fun e he => hin e (List.mem_cons_of_mem c he)) (buffer ++ [c]) (by simp)
    obtain ⟨hquote, hapostrophe⟩ := hin c (by simp)
    rw [List.append_assoc, List.singleton_append] at h
    rw [← h, List.cons_append, scanParams, if_neg hquote, if_pos hapostrophe]

theorem ParamsText.scan {s : List Char} {ps : List (List Char)} (h : ParamsText s ps)
    (params : List String) :
    scanParams .outside [] params s = some (params ++ ps.map String.ofList) := by
  induction h generalizing params with
  | nil => simp [scanParams]
  | space _ ih =>
    rw [scanParams, if_neg (by decide), if_neg (by decide), if_pos rfl, if_pos rfl]
    exact ih params
  | word hw hplain hend _ ih =>
    rw [scan_word hw hplain hend, ih]
    simp
  | apostrophes hw hin _ ih =>
    rw [List.cons_append, scanParams, if_pos rfl, if_neg (by simp),
      scan_apostrophes hin (by simpa using hw), ih]
    simp
  | quotes hw hin _ ih =>
    rw [List.cons_append, scanParams, if_neg (by decide), if_pos rfl, if_neg (by simp),
      scan_quotes hin (by simpa using hw), ih]
    simp

/-! ## The scan reads nothing else -/

/-- The characters of the parameter that the scan is in. -/
def Scan.opened : Scan → List Char → List Char
  | .outside, buffer => buffer
  | .apostrophes, buffer => '\'' :: buffer
  | .quotes, buffer => '"' :: buffer

/-- The characters that the buffer can hold. -/
def Scan.Holds : Scan → List Char → Prop
  | .outside, buffer => ∀ c ∈ buffer, Plain c
  | .apostrophes, buffer => ∀ c ∈ buffer, c ≠ '\''
  | .quotes, buffer => ∀ c ∈ buffer, c ≠ '"' ∧ c ≠ '\''

theorem Scan.holds_concat {scan : Scan} {buffer : List Char} (h : scan.Holds buffer) {c : Char}
    (hc : scan.Holds [c]) : scan.Holds (buffer ++ [c]) := by
  cases scan <;> exact List.forall_mem_append.mpr ⟨h, hc⟩

/-- A parameter is complete: the text up to here and what is left are well formed. -/
theorem ParamsText.join {buffer : List Char} {params r : List String} {t s : List Char}
    (hjoin : ∀ ps, ParamsText s ps → ParamsText t (buffer :: ps))
    (h : ∃ ps, ParamsText s ps ∧ r = params ++ [String.ofList buffer] ++ ps.map String.ofList) :
    ∃ ps, ParamsText t ps ∧ r = params ++ ps.map String.ofList := by
  obtain ⟨ps, hps, rfl⟩ := h
  exact ⟨buffer :: ps, hjoin ps hps, by simp⟩

theorem scan_text {scan : Scan} {cs buffer : List Char} {params r : List String}
    (hbuffer : scan.Holds buffer) (hlast : scan = .outside → cs = [] → buffer = [])
    (h : scanParams scan buffer params cs = some r) :
    ∃ ps, ParamsText (scan.opened buffer ++ cs) ps ∧ r = params ++ ps.map String.ofList := by
  induction cs generalizing scan buffer params with
  | nil =>
    cases scan with
    | outside =>
      rw [scanParams, Option.some.injEq] at h
      rw [hlast rfl rfl]
      exact ⟨[], .nil, by simp [h]⟩
    | apostrophes => cases h
    | quotes => cases h
  | cons c cs ih =>
    have hempty : ∀ scan : Scan, scan.Holds [] := fun scan => by cases scan <;> simp [Scan.Holds]
    cases scan with
    | outside =>
      rw [scanParams] at h
      split_ifs at h with hapostrophe hbuf hquote hbuf hspace hbuf hcs
      · rw [not_not.mp hbuf, hapostrophe]
        exact ih (hempty _) (by simp) h
      · rw [not_not.mp hbuf, hquote]
        exact ih (hempty _) (by simp) h
      · obtain ⟨ps, hps, hr⟩ := ih (hempty _) (fun _ _ => rfl) h
        rw [hbuf, hspace]
        exact ⟨ps, .space hps, hr⟩
      · rw [hspace]
        exact ParamsText.join (fun ps hps => .word hbuf hbuffer (.inr ⟨cs, rfl⟩) (.space hps))
          (ih (hempty _) (fun _ _ => rfl) h)
      · have hplain := Scan.holds_concat hbuffer (c := c) (by simp [Scan.Holds, Plain, *])
        refine ParamsText.join (fun ps hps => ?_) (ih (hempty _) (fun _ _ => rfl) h)
        rw [Scan.opened, List.append_cons]
        exact .word (by simp) hplain (.inl hcs) hps
      · have hplain := Scan.holds_concat hbuffer (c := c) (by simp [Scan.Holds, Plain, *])
        have := ih hplain (fun _ h => absurd h hcs) h
        rwa [Scan.opened, ← List.append_cons] at this
    | apostrophes =>
      rw [scanParams] at h
      split_ifs at h with hclose hbuf
      · rw [hclose]
        exact ParamsText.join (fun ps hps => .apostrophes hbuf hbuffer hps)
          (ih (hempty _) (fun _ _ => rfl) h)
      · have hin := Scan.holds_concat hbuffer (c := c) (by simp [Scan.Holds, *])
        have := ih hin (by simp) h
        simpa [Scan.opened] using this
    | quotes =>
      rw [scanParams] at h
      split_ifs at h with hclose hbuf hother
      · rw [hclose]
        exact ParamsText.join (fun ps hps => .quotes hbuf hbuffer hps)
          (ih (hempty _) (fun _ _ => rfl) h)
      · have hin := Scan.holds_concat hbuffer (c := c) (by simp [Scan.Holds, *])
        have := ih hin (by simp) h
        simpa [Scan.opened] using this

/-- `parse_module_params` finds the parameters of a well-formed text and fails on
every other one. -/
theorem parseModuleParams_eq_some {moduleParams : String} {params : List String} :
    parseModuleParams moduleParams = some params ↔
      ∃ ps, ParamsText moduleParams.toList ps ∧ params = ps.map String.ofList := by
  constructor
  · intro h
    have := scan_text (by simp [Scan.Holds]) (fun _ _ => rfl) h
    simpa [Scan.opened] using this
  · rintro ⟨ps, hps, rfl⟩
    exact hps.scan []

example : parseModuleParams "-v arg 'in apostrophes'" = some ["-v", "arg", "in apostrophes"] := by
  decide

end NemeaSupervisor
