import NemeaSupervisor.Arguments
import NemeaSupervisor.ParamsArray

/-!
# The memory of `prep_module_args`

The specifier is printed at a write pointer into a buffer that grows when an interface
with parameters finds it three fifths full, and the arguments are stored into an array
whose size is counted beforehand. The array is always filled exactly. The buffer is
not always large enough: the two bytes that start an interface are printed without a
test, and an empty specifier has no last comma. The buffer holds bytes, each of them as
a `Char`, and positions and sizes are natural numbers.
-/

namespace NemeaSupervisor

open CText Memory

def defaultSizeOfBuffer : Nat := 100

/-- The buffer of the specifier; `failed` when the function has returned NULL. -/
structure IfcSpec where
  spec : Buffer
  failed : Bool
  deriving DecidableEq, Repr

/-- The parameters of an interface are printed, with more memory if needed. -/
def addIfcParamsMemory (ifcParams : String) (b : Buffer) : Buffer :=
  let len := (bytes ifcParams).length
  let b := if b.text.length + len + 1 ≥ 3 * b.size / 5 then b.realloc (b.size + len + b.size / 2)
    else b
  (b.print (utf8 (ifcSpecParams ifcParams))).advance (len + 1)

/-- One interface of the current direction. -/
def addIfcMemory (st : IfcSpec) (ifc : Interface) : IfcSpec :=
  if st.failed then st
  else
    match ifcTypeLetter ifc.intIfcType with
    | none => { st with failed := true }
    | some letter =>
      let b := (st.spec.print [letter, ':']).advance 2
      match ifc.ifcParams with
      | none => { st with spec := b }
      | some ifcParams => { st with spec := addIfcParamsMemory ifcParams b }

/-- The loops over the directions and the interfaces, and the removal of the last comma. -/
def prepIfcSpecMemory (ifces : List Interface) : IfcSpec :=
  let st := [inModuleIfcDirection, outModuleIfcDirection].foldl
    (fun st actDir => ifces.foldl
      (fun st ifc => if ifc.intIfcDirection = actDir then addIfcMemory st ifc else st) st)
    ⟨.calloc defaultSizeOfBuffer, false⟩
  if st.failed then st else { st with spec := st.spec.clearLast }

/-- What `prep_module_args` returns, and its writes into the specifier and the array. -/
structure PreparedArgs where
  args : Option (List (Option String))
  specWrites : List Write
  argWrites : List Write
  deriving DecidableEq, Repr

/-- `prep_module_args` with its memory. -/
def prepModuleArgsMemory (m : RunningModule) : PreparedArgs :=
  let parsed := (m.moduleParams.map parseModuleParamsArray).getD (none, 0)
  let moduleParams := (parsed.1.getD []).take parsed.2
  let binArgsNum := 2 + (if m.configIfcesCnt > 0 then 2 else 0) + parsed.2
  let binArgs := ((Slots.calloc binArgsNum).store (some (m.moduleName.getD ""))).terminate
  let binArgs := moduleParams.foldl Slots.store binArgs
  if m.configIfcesCnt > 0 then
    let st := prepIfcSpecMemory m.ifces
    if st.failed then ⟨none, st.spec.writes, binArgs.writes⟩
    else
      let binArgs := (binArgs.store (some trapParam)).store (some (ofBytes st.spec.text))
      ⟨some binArgs.cells, st.spec.writes, binArgs.writes⟩
  else ⟨some binArgs.cells, (Buffer.calloc defaultSizeOfBuffer).writes, binArgs.writes⟩

/-! ## The buffer of the specifier -/

/-- The interface is printed at all. -/
def Typed (ifc : Interface) : Bool := (ifcTypeLetter ifc.intIfcType).isSome

/-- The bytes that the field of an interface takes. -/
def fieldLength (ifc : Interface) : Nat :=
  2 + (ifc.ifcParams.map fun ifcParams => (bytes ifcParams).length + 1).getD 0

/-- The size of the buffer after an interface printed at `pos`. -/
def grownSize (size pos : Nat) (ifc : Interface) : Nat :=
  (ifc.ifcParams.map fun ifcParams =>
    let len := (bytes ifcParams).length
    if pos + 2 + len + 1 ≥ 3 * size / 5 then size + len + size / 2 else size).getD size

/-- In front of every interface three bytes are free, for the characters that start
its field and the end of the string. -/
def Room : Nat → Nat → List Interface → Prop
  | _, _, [] => True
  | size, pos, ifc :: ifces =>
    pos + 3 ≤ size ∧ Room (grownSize size pos ifc) (pos + fieldLength ifc) ifces

instance decidableRoom :
    (size pos : Nat) → (ifces : List Interface) → Decidable (Room size pos ifces)
  | _, _, [] => .isTrue trivial
  | size, pos, ifc :: ifces =>
    have := decidableRoom (grownSize size pos ifc) (pos + fieldLength ifc) ifces
    inferInstanceAs (Decidable (_ ∧ _))

/-- The specifier of these interfaces fits: some interface has a direction, and there
is room for every interface up to the first without a type. -/
def SpecFits (ifces : List Interface) : Prop :=
  ifces = [] ∨ directedIfces ifces ≠ [] ∧
    Room defaultSizeOfBuffer 0 ((directedIfces ifces).takeWhile Typed)

instance (ifces : List Interface) : Decidable (SpecFits ifces) :=
  inferInstanceAs (Decidable (_ ∨ _))

section buffer

variable {b : Buffer} {ifc : Interface} {st : IfcSpec}

theorem print_letter_allInside {letter : Char} :
    ((b.print [letter, ':']).advance 2).AllInside ↔ b.ptr + 3 ≤ b.size ∧ b.AllInside :=
  Buffer.print_allInside

theorem ifcTypeLetter_ascii {intIfcType : Int} {letter : Char}
    (h : ifcTypeLetter intIfcType = some letter) : letter.toNat < 128 := by
  unfold ifcTypeLetter at h
  split_ifs at h
  all_goals
    cases h
    decide

/-- The colon for a comma and the comma at the end take one byte each. -/
theorem length_utf8_ifcSpecParams (ifcParams : String) :
    (utf8 (ifcSpecParams ifcParams)).length = (bytes ifcParams).length + 1 := by
  have hcomma : ∀ cs, utf8 (',' :: cs) = ',' :: utf8 cs := utf8_cons_ascii (by decide)
  have hcolon : ∀ cs, utf8 (':' :: cs) = ':' :: utf8 cs := utf8_cons_ascii (by decide)
  rcases ifcSpecParams_cases ifcParams with ⟨-, heq⟩ | ⟨addr, port, -, hparams, heq⟩
  · rw [heq, utf8_append, hcomma, List.length_append]
    rfl
  · rw [heq, bytes, hparams, utf8_append, utf8_append, utf8_append, hcomma, hcolon, hcomma]
    simp only [List.length_append, List.length_cons, Nat.add_assoc]
    rfl

theorem utf8_ifcText {ifc : Interface} {letter : Char}
    (h : ifcTypeLetter ifc.intIfcType = some letter) :
    utf8 (ifcText ifc) = letter :: ':' ::
      (ifc.ifcParams.map fun ifcParams => utf8 (ifcSpecParams ifcParams)).getD [] := by
  rw [ifcText, h, Option.getD_some, utf8_cons_ascii (ifcTypeLetter_ascii h),
    utf8_cons_ascii (by decide)]
  cases ifc.ifcParams <;> rfl

/-- The parameters themselves always fit behind the start of their field. -/
theorem addIfcParamsMemory_spec (ifcParams : String) (hend : b.AtEnd) :
    (addIfcParamsMemory ifcParams b).AtEnd ∧
      (addIfcParamsMemory ifcParams b).text = b.text ++ utf8 (ifcSpecParams ifcParams) ∧
      (addIfcParamsMemory ifcParams b).ptr = b.ptr + ((bytes ifcParams).length + 1) ∧
      (addIfcParamsMemory ifcParams b).size =
        (if b.ptr + (bytes ifcParams).length + 1 ≥ 3 * b.size / 5 then
          b.size + (bytes ifcParams).length + b.size / 2 else b.size) ∧
      ((addIfcParamsMemory ifcParams b).AllInside → b.AllInside) ∧
      (b.ptr < b.size → 2 ≤ b.size → b.AllInside →
        (addIfcParamsMemory ifcParams b).AllInside) := by
  have hlen := length_utf8_ifcSpecParams ifcParams
  unfold addIfcParamsMemory
  simp only [show b.text.length = b.ptr from hend.symm]
  split_ifs with hfull
  · have hend' := hend.realloc (b.size + (bytes ifcParams).length + b.size / 2)
    refine ⟨hend'.print_advance hlen, ?_, rfl, rfl, fun h => ?_, fun hptr hsize h => ?_⟩
    · exact (hend'.print_text _).trans (by rw [hend.realloc_text])
    · have := (Buffer.print_allInside.mp h).2
      intro w hw
      exact this w (List.mem_cons_of_mem _ hw)
    · refine Buffer.print_allInside.mpr ⟨?_, (Buffer.realloc_allInside (by omega)).mpr h⟩
      rw [hlen]
      simp only [Buffer.realloc]
      omega
  · refine ⟨hend.print_advance hlen, hend.print_text _, rfl, rfl,
      fun h => (Buffer.print_allInside.mp h).2, fun hptr hsize h => ?_⟩
    exact Buffer.print_allInside.mpr ⟨by omega, h⟩

/-- What printing an interface does to the buffer. -/
structure FieldAdded (b b' : Buffer) (ifc : Interface) : Prop where
  atEnd : b'.AtEnd
  text : b'.text = b.text ++ utf8 (ifcText ifc)
  ptr : b'.ptr = b.ptr + fieldLength ifc
  size : b'.size = grownSize b.size b.ptr ifc
  inside : b'.AllInside ↔ b.ptr + 3 ≤ b.size ∧ b.AllInside
  fits : b.ptr + 3 ≤ b.size → b'.ptr ≤ b'.size

theorem addIfcMemory_typed (hend : b.AtEnd) (htype : Typed ifc) :
    ∃ b', addIfcMemory ⟨b, false⟩ ifc = ⟨b', false⟩ ∧ FieldAdded b b' ifc := by
  obtain ⟨letter, hletter⟩ := Option.isSome_iff_exists.mp htype
  have hstart : ((b.print [letter, ':']).advance 2).AtEnd := hend.print_advance rfl
  have htext : ((b.print [letter, ':']).advance 2).text = b.text ++ [letter, ':'] :=
    hend.print_text _
  have hptr : ((b.print [letter, ':']).advance 2).ptr = b.ptr + 2 := rfl
  have hsize : ((b.print [letter, ':']).advance 2).size = b.size := rfl
  have hinside := @print_letter_allInside b letter
  generalize hb1 : (b.print [letter, ':']).advance 2 = b1 at hstart htext hptr hsize hinside
  cases hparams : ifc.ifcParams with
  | none =>
    refine ⟨b1, ?_, hstart, ?_, ?_, ?_, hinside, fun h => ?_⟩
    · simp only [addIfcMemory, hletter, hparams, hb1, Bool.false_eq_true, if_false]
    · rw [htext, utf8_ifcText hletter, hparams]
      rfl
    · rw [hptr, fieldLength, hparams]
      rfl
    · rw [hsize, grownSize, hparams]
      rfl
    · omega
  | some ifcParams =>
    obtain ⟨hend', htext', hptr', hsize', hback, hforth⟩ :=
      addIfcParamsMemory_spec ifcParams hstart
    refine ⟨addIfcParamsMemory ifcParams b1, ?_, hend', ?_, ?_, ?_, ?_, ?_⟩
    · simp only [addIfcMemory, hletter, hparams, hb1, Bool.false_eq_true, if_false]
    · rw [htext', htext, List.append_assoc, utf8_ifcText hletter, hparams]
      rfl
    · rw [hptr', hptr, fieldLength, hparams, Option.map_some, Option.getD_some, Nat.add_assoc]
    · rw [hsize', hptr, hsize, grownSize, hparams]
      rfl
    · constructor
      · exact fun h => hinside.mp (hback h)
      · intro h
        exact hforth (by omega) (by omega) (hinside.mpr h)
    · intro h
      rw [hsize', hptr', hptr, hsize]
      split_ifs <;> omega

theorem addIfcMemory_untyped (htype : ¬ Typed ifc) :
    addIfcMemory ⟨b, false⟩ ifc = ⟨b, true⟩ := by
  have hnone : ifcTypeLetter ifc.intIfcType = none := by simpa [Typed] using htype
  simp only [addIfcMemory, hnone, Bool.false_eq_true, if_false]

theorem foldl_addIfcMemory_failed (ifces : List Interface) (b : Buffer) :
    ifces.foldl addIfcMemory ⟨b, true⟩ = ⟨b, true⟩ := by
  induction ifces with
  | nil => rfl
  | cons ifc ifces ih => exact ih

/-- The buffer after interfaces that start at its end. -/
structure FieldsAdded (b : Buffer) (ifces : List Interface) (st : IfcSpec) : Prop where
  failed : st.failed = true ↔ ∃ ifc ∈ ifces, ¬ Typed ifc
  atEnd : st.spec.AtEnd
  text : st.failed = false → st.spec.text = b.text ++ utf8 (ifces.flatMap ifcText)
  inside : st.spec.AllInside ↔ Room b.size b.ptr (ifces.takeWhile Typed) ∧ b.AllInside
  fits : b.ptr ≤ b.size → Room b.size b.ptr (ifces.takeWhile Typed) → st.spec.ptr ≤ st.spec.size

theorem foldl_addIfcMemory (hend : b.AtEnd) (ifces : List Interface) :
    FieldsAdded b ifces (ifces.foldl addIfcMemory ⟨b, false⟩) := by
  induction ifces generalizing b with
  | nil => exact ⟨by simp, hend, by simp [utf8], by simp [Room], fun h _ => h⟩
  | cons ifc ifces ih =>
    rw [List.foldl_cons]
    by_cases htype : Typed ifc
    · obtain ⟨b', heq, hadded⟩ := addIfcMemory_typed hend htype
      have hrest := ih hadded.atEnd
      rw [heq]
      have htake : (ifc :: ifces).takeWhile Typed = ifc :: ifces.takeWhile Typed :=
        List.takeWhile_cons_of_pos htype
      constructor
      · rw [hrest.failed]
        simp [htype]
      · exact hrest.atEnd
      · intro hok
        rw [hrest.text hok, hadded.text, List.append_assoc, List.flatMap_cons, utf8_append]
      · rw [hrest.inside, hadded.inside, hadded.size, hadded.ptr, htake, Room]
        tauto
      · intro _ hroom
        rw [htake, Room, ← hadded.size, ← hadded.ptr] at hroom
        exact hrest.fits (hadded.fits hroom.1) hroom.2
    · rw [addIfcMemory_untyped htype, foldl_addIfcMemory_failed]
      have htake : (ifc :: ifces).takeWhile Typed = [] := List.takeWhile_cons_of_neg htype
      constructor
      · simp [htype]
      · exact hend
      · exact fun h => absurd h (by simp)
      · rw [htake]
        simp [Room]
      · exact fun h _ => h

/-- The two passes over the interfaces are one over those with a direction. -/
theorem foldl_directions (ifces : List Interface) (st : IfcSpec) :
    [inModuleIfcDirection, outModuleIfcDirection].foldl
        (fun st actDir => ifces.foldl
          (fun st ifc => if ifc.intIfcDirection = actDir then addIfcMemory st ifc else st) st) st =
      (directedIfces ifces).foldl addIfcMemory st := by
  rw [directedIfces, List.foldl_append, List.foldl_filter, List.foldl_filter]
  simp only [decide_eq_true_eq, List.foldl_cons, List.foldl_nil]

/-- The last character of the fields is the comma or the colon of the last one. -/
theorem ascii_getLast_ifcText (ifces : List Interface) :
    ∀ c ∈ (ifces.flatMap ifcText).getLast?, c.toNat < 128 := by
  intro c hc
  cases ifces using List.reverseRecOn with
  | nil => simp at hc
  | append_singleton ifces ifc =>
    rw [List.flatMap_append, List.flatMap_singleton] at hc
    cases hparams : ifc.ifcParams with
    | none =>
      simp only [ifcText, hparams, Option.map_none, Option.getD_none, List.getLast?_append,
        List.getLast?_cons_cons, List.getLast?_singleton, Option.some_or, Option.mem_some_iff] at hc
      rw [← hc]
      decide
    | some ifcParams =>
      obtain ⟨t, ht⟩ := ifcSpecParams_concat ifcParams
      simp only [ifcText, hparams, Option.map_some, Option.getD_some, ht, ← List.cons_append,
        ← List.append_assoc, List.getLast?_append, List.getLast?_singleton, Option.some_or,
        Option.mem_some_iff] at hc
      rw [← hc]
      decide

end buffer

/-- The specifier and its writes. -/
theorem prepIfcSpecMemory_spec (ifces : List Interface) :
    ((prepIfcSpecMemory ifces).failed = true ↔ ∃ ifc ∈ directedIfces ifces, ¬ Typed ifc) ∧
      ((prepIfcSpecMemory ifces).failed = false →
        (prepIfcSpecMemory ifces).spec.text =
          utf8 ((directedIfces ifces).flatMap ifcText).dropLast) ∧
      ((prepIfcSpecMemory ifces).spec.AllInside ↔ directedIfces ifces ≠ [] ∧
        Room defaultSizeOfBuffer 0 ((directedIfces ifces).takeWhile Typed)) := by
  have hadded := foldl_addIfcMemory (Buffer.calloc_atEnd defaultSizeOfBuffer) (directedIfces ifces)
  rw [prepIfcSpecMemory, foldl_directions]
  generalize (directedIfces ifces).foldl addIfcMemory
    ⟨.calloc defaultSizeOfBuffer, false⟩ = st at hadded
  have hinside : st.spec.AllInside ↔
      Room defaultSizeOfBuffer 0 ((directedIfces ifces).takeWhile Typed) := by
    rw [hadded.inside]
    exact and_iff_left (Buffer.calloc_allInside defaultSizeOfBuffer)
  cases hfailed : st.failed with
  | true =>
    obtain ⟨ifc, hifc, -⟩ := hadded.failed.mp hfailed
    simp only [hfailed, if_true, Bool.true_eq_false, false_implies, true_and, hinside]
    refine ⟨by simpa [hfailed] using hadded.failed, ?_⟩
    exact (and_iff_right (List.ne_nil_of_mem hifc)).symm
  | false =>
    have htext := hadded.text hfailed
    simp only [Bool.false_eq_true, if_false]
    refine ⟨by simpa [hfailed] using hadded.failed, fun _ => ?_, ?_⟩
    · rw [hadded.atEnd.clearLast_text, htext, utf8_dropLast (ascii_getLast_ifcText _)]
      rfl
    · rw [Buffer.clearLast_allInside, hinside]
      refine and_congr_left fun hroom => ?_
      have hptr : st.spec.ptr = (utf8 ((directedIfces ifces).flatMap ifcText)).length := by
        rw [show st.spec.ptr = st.spec.text.length from hadded.atEnd, htext]
        rfl
      have hfits := hadded.fits (Nat.zero_le _) hroom
      rw [hptr] at hfits ⊢
      cases hdirected : directedIfces ifces with
      | nil => simp
      | cons ifc rest =>
        rw [hdirected] at hfits
        refine ⟨fun _ => by simp, fun _ => ⟨?_, hfits⟩⟩
        rw [List.flatMap_cons, ifcText, List.cons_append, List.cons_append, utf8_cons,
          @utf8_cons_ascii ':' (by decide), List.length_append, List.length_cons]
        omega

/-! ## The array of the arguments -/

/-- The parameters that go into the array, and their number. -/
theorem parsedParams (moduleParams : Option String) :
    let parsed := (moduleParams.map parseModuleParamsArray).getD (none, 0)
    let params := (moduleParams.bind parseModuleParams).getD []
    (parsed.1.getD []).take parsed.2 = params.map some ∧ parsed.2 = params.length := by
  cases moduleParams with
  | none => exact ⟨rfl, rfl⟩
  | some moduleParams =>
    simp only [Option.map_some, Option.getD_some, Option.bind_some]
    rcases parseModuleParamsArray_eq moduleParams with
      ⟨params, hparse, room, hreturns⟩ | ⟨hparse, hnull⟩
    · rw [hparse, hreturns]
      simp only [Option.getD_some, and_true]
      rw [List.take_left' (List.length_map _)]
    · rw [hparse, hnull]
      exact ⟨rfl, rfl⟩

/-- The array before the specifier: the name and the parameters, and room for the rest. -/
theorem binArgs_holds (name : String) (params : List String) (k : Nat) :
    ((params.map some).foldl Slots.store
      ((Slots.calloc (2 + k + params.length)).store (some name)).terminate).Holds
        (name :: params) (k + 1) := by
  have hsize : 2 + k + params.length = (params.length + k + 1) + 1 := by omega
  have hname : ((Slots.calloc (2 + k + params.length)).store (some name)).Holds
      [name] (params.length + k + 1) := by
    rw [hsize]
    exact (Slots.calloc_holds _).store name
  rw [List.foldl_map]
  exact @Slots.Holds.foldl_store _ _ [name] (k + 1) params hname.terminate

variable {m : RunningModule}

/-- With its memory the function returns the same arguments and a NULL after them. All
writes into the array are inside; those into the specifier are when it fits. -/
theorem prepModuleArgsMemory_spec (hcnt : m.ifces.length = m.configIfcesCnt) :
    (prepModuleArgsMemory m).args =
        (prepModuleArgs m).map (fun args => args.map some ++ [none]) ∧
      (∀ w ∈ (prepModuleArgsMemory m).argWrites, w.Inside) ∧
      ((∀ w ∈ (prepModuleArgsMemory m).specWrites, w.Inside) ↔ SpecFits m.ifces) := by
  obtain ⟨hparams, hnum⟩ := parsedParams m.moduleParams
  obtain ⟨hfailed, htext, hinside⟩ := prepIfcSpecMemory_spec m.ifces
  by_cases hnil : m.ifces = []
  · have hpos : ¬ m.configIfcesCnt > 0 := by
      rw [← hcnt, hnil]
      simp
    have harray := binArgs_holds (m.moduleName.getD "")
      ((m.moduleParams.bind parseModuleParams).getD []) 0
    simp only [prepModuleArgsMemory, if_neg hpos, hparams, Nat.add_zero] at harray ⊢
    simp only [hnum]
    refine ⟨?_, harray.inside, ?_⟩
    · rw [prepModuleArgs_nil hcnt hnil, harray.cells]
      rfl
    · exact ⟨fun _ => .inl hnil, fun _ => Buffer.calloc_allInside defaultSizeOfBuffer⟩
  · have hpos : m.configIfcesCnt > 0 := by
      rw [← hcnt]
      exact List.length_pos_iff.mpr hnil
    have harray := binArgs_holds (m.moduleName.getD "")
      ((m.moduleParams.bind parseModuleParams).getD []) 2
    have hfits : (prepIfcSpecMemory m.ifces).spec.AllInside ↔ SpecFits m.ifces := by
      rw [hinside, SpecFits]
      simp only [hnil, false_or]
    simp only [prepModuleArgsMemory, if_pos hpos, hparams]
    simp only [hnum]
    rw [prepModuleArgs_cons hcnt hnil]
    cases hf : (prepIfcSpecMemory m.ifces).failed with
    | true =>
      simp only [if_true]
      refine ⟨?_, harray.inside, hfits⟩
      rcases prepIfcSpec_eq m.ifces with ⟨htypes, -⟩ | ⟨-, hspec⟩
      · obtain ⟨ifc, hifc, hbad⟩ := hfailed.mp hf
        exact absurd (Option.isSome_iff_ne_none.mpr (htypes ifc hifc)) hbad
      · rw [hspec]
        rfl
    | false =>
      have hspecArgs := (harray.store trapParam).store
        (ofBytes (prepIfcSpecMemory m.ifces).spec.text)
      simp only [Bool.false_eq_true, if_false]
      refine ⟨?_, hspecArgs.inside, hfits⟩
      rcases prepIfcSpec_eq m.ifces with ⟨-, hspec⟩ | ⟨⟨ifc, hifc, htype⟩, -⟩
      · rw [hspec, hspecArgs.cells, htext hf, ofBytes_utf8]
        simp
      · have := hfailed.mpr ⟨ifc, hifc, by simp [Typed, htype]⟩
        rw [hf] at this
        exact absurd this (by simp)

/-- Every write of `prep_module_args` into the specifier of a loaded module is inside
of the allocated bytes exactly when the specifier fits. -/
theorem spec_writes_inside_iff {w : World} (hw : Reachable w) {m : RunningModule}
    (hm : m ∈ w.sup.loaded) :
    (∀ wr ∈ (prepModuleArgsMemory m).specWrites, wr.Inside) ↔ SpecFits m.ifces :=
  (prepModuleArgsMemory_spec
    ((reachable_tableInv hw).slots m hm).ifces.filled.length_ifces).2.2

theorem spec_writes_inside_iff_complete :
    ∃ m ∈ (boot [] (some completeDocument)).sup.loaded,
      ∀ wr ∈ (prepModuleArgsMemory m).specWrites, wr.Inside := by
  have hslot : ∀ m ∈ (boot [] (some completeDocument)).sup.loaded[0]?, SpecFits m.ifces := by
    decide
  obtain ⟨m, hm⟩ : ∃ m, (boot [] (some completeDocument)).sup.loaded[0]? = some m :=
    Option.isSome_iff_exists.mp (by decide)
  have hmem := List.mem_of_getElem? hm
  exact ⟨m, hmem, (spec_writes_inside_iff ⟨[], some completeDocument, [], rfl⟩ hmem).mpr
    (hslot m hm)⟩

/-- Its only interface has no direction, which the validation allows. -/
def undirectedDocument : XmlNode :=
  argumentsDocument "-v" [.element "interface" [] [.textElement "type" "TCP"]]

/-- The comma is removed in front of the buffer. -/
theorem not_spec_writes_inside :
    ¬ ∀ w : World, Reachable w → ∀ m ∈ w.sup.loaded,
      ∀ wr ∈ (prepModuleArgsMemory m).specWrites, wr.Inside := by
  intro hall
  obtain ⟨m, hm⟩ : ∃ m, (boot [] (some undirectedDocument)).sup.loaded[0]? = some m :=
    Option.isSome_iff_exists.mp (by decide)
  have hslot : ∀ m ∈ (boot [] (some undirectedDocument)).sup.loaded[0]?,
      ∃ wr ∈ (prepModuleArgsMemory m).specWrites, ¬ wr.Inside := by decide
  obtain ⟨wr, hwr, hout⟩ := hslot m hm
  exact hout (hall _ ⟨[], some undirectedDocument, [], rfl⟩ m (List.mem_of_getElem? hm) wr hwr)

/-! ## The arguments of connected interfaces -/

/-- The letters libtrap knows the types by. -/
def typeLetters : List (Int × Char) :=
  [(tcpModuleIfcType, 't'), (unixsocketModuleIfcType, 'u'), (fileModuleIfcType, 'f'),
    (blackholeModuleIfcType, 'b'), (tlsModuleIfcType, 'T')]

/-- A valid type, a direction and parameters. -/
structure Connectable (ifc : Interface) : Prop where
  type : ifc.intIfcType ∈ typeLetters.map Prod.fst
  direction : Directed ifc
  params : ifc.ifcParams ≠ none

/-- With a colon for the first comma. -/
def firstColon : List Char → List Char
  | [] => []
  | c :: cs => if c = ',' then ':' :: cs else c :: firstColon cs

/-- The letter and the parameters of an interface. -/
def fieldText (ifc : Interface) : List Char :=
  (typeLetters.lookup ifc.intIfcType).getD ' ' :: ':' ::
    firstColon (ifc.ifcParams.getD "").toList

/-- The fields of the input interfaces and then those of the output interfaces. -/
def specifierOf (ifces : List Interface) : List Char :=
  [','].intercalate (((ifces.filter fun ifc => ifc.intIfcDirection = inModuleIfcDirection) ++
    ifces.filter fun ifc => ifc.intIfcDirection = outModuleIfcDirection).map fieldText)

section connectable

variable {ifc : Interface} {ifces : List Interface}

theorem ifcTypeLetter_eq_lookup (h : ifc.intIfcType ∈ typeLetters.map Prod.fst) :
    ∃ letter, ifcTypeLetter ifc.intIfcType = some letter ∧
      typeLetters.lookup ifc.intIfcType = some letter := by
  simp only [typeLetters, List.map_cons, List.map_nil, List.mem_cons, List.not_mem_nil,
    or_false] at h
  rcases h with h | h | h | h | h <;> rw [h]
  · exact ⟨'t', rfl, rfl⟩
  · exact ⟨'u', rfl, rfl⟩
  · exact ⟨'f', rfl, rfl⟩
  · exact ⟨'b', rfl, rfl⟩
  · exact ⟨'T', rfl, rfl⟩

theorem firstColon_same {cs : List Char} (h : ',' ∉ cs) : firstColon cs = cs := by
  induction cs with
  | nil => rfl
  | cons c cs ih =>
    rw [List.mem_cons, not_or] at h
    rw [firstColon, if_neg (Ne.symm h.1), ih h.2]

theorem firstColon_append {addr port : List Char} (h : ',' ∉ addr) :
    firstColon (addr ++ ',' :: port) = addr ++ ':' :: port := by
  induction addr with
  | nil => rfl
  | cons c addr ih =>
    rw [List.mem_cons, not_or] at h
    rw [List.cons_append, firstColon, if_neg (Ne.symm h.1), ih h.2]
    rfl

theorem ifcSpecParams_eq (ifcParams : String) :
    ifcSpecParams ifcParams = firstColon ifcParams.toList ++ [','] := by
  rcases ifcSpecParams_cases ifcParams with ⟨hcomma, heq⟩ | ⟨addr, port, haddr, hparams, heq⟩
  · rw [heq, firstColon_same hcomma]
  · rw [heq, hparams, firstColon_append haddr]

theorem Connectable.ifcText (h : Connectable ifc) :
    NemeaSupervisor.ifcText ifc = fieldText ifc ++ [','] := by
  obtain ⟨letter, hletter, hlookup⟩ := ifcTypeLetter_eq_lookup h.type
  obtain ⟨ifcParams, hparams⟩ := Option.ne_none_iff_exists'.mp h.params
  rw [NemeaSupervisor.ifcText, fieldText, hletter, hlookup, hparams]
  simp only [Option.map_some, Option.getD_some, ifcSpecParams_eq, List.cons_append]

/-- The buffer grows in time when every interface has parameters. -/
theorem room_of_params {size pos : Nat} (hsize : defaultSizeOfBuffer ≤ size)
    (hpos : pos + 3 ≤ size) (h : ∀ ifc ∈ ifces, ifc.ifcParams ≠ none) : Room size pos ifces := by
  induction ifces generalizing size pos with
  | nil => trivial
  | cons ifc ifces ih =>
    obtain ⟨ifcParams, hparams⟩ := Option.ne_none_iff_exists'.mp (h ifc List.mem_cons_self)
    have hlength : fieldLength ifc = 2 + ((bytes ifcParams).length + 1) := by
      rw [fieldLength, hparams]
      rfl
    have hgrown : grownSize size pos ifc =
        if pos + 2 + (bytes ifcParams).length + 1 ≥ 3 * size / 5 then
          size + (bytes ifcParams).length + size / 2 else size := by
      rw [grownSize, hparams]
      rfl
    have hdefault : defaultSizeOfBuffer = 100 := rfl
    refine ⟨hpos, ih ?_ ?_ fun ifc hifc => h ifc (List.mem_cons_of_mem _ hifc)⟩
    · rw [hgrown]
      split_ifs <;> omega
    · rw [hgrown, hlength]
      split_ifs <;> omega

theorem specFits_of_connectable (h : ∀ ifc ∈ ifces, Connectable ifc) : SpecFits ifces := by
  cases hifces : ifces with
  | nil => exact .inl rfl
  | cons ifc rest =>
    rw [← hifces]
    have hmem : ifc ∈ ifces := by
      rw [hifces]
      exact List.mem_cons_self
    refine .inr ⟨List.ne_nil_of_mem (mem_directedIfces.mpr ⟨hmem, (h ifc hmem).direction⟩), ?_⟩
    refine room_of_params (Nat.le_refl _) (by decide) fun ifc hifc => ?_
    have hdirected := (List.takeWhile_sublist Typed).subset hifc
    exact (h ifc (mem_directedIfces.mp hdirected).1).params

theorem prepIfcSpec_of_connectable (h : ∀ ifc ∈ ifces, Connectable ifc) :
    prepIfcSpec ifces = some (specifierOf ifces) := by
  have hall : ∀ ifc ∈ directedIfces ifces, Connectable ifc := fun ifc hifc =>
    h ifc (mem_directedIfces.mp hifc).1
  rcases prepIfcSpec_eq ifces with ⟨-, heq⟩ | ⟨⟨ifc, hifc, hnone⟩, -⟩
  · have hfields : (directedIfces ifces).flatMap NemeaSupervisor.ifcText =
        ((directedIfces ifces).map fieldText).flatMap fun field => field ++ [','] := by
      rw [List.flatMap_map]
      exact List.flatMap_congr fun ifc hifc => (hall ifc hifc).ifcText
    rw [heq, hfields, Fields.dropLast_flatMap, specifierOf, directedIfces]
  · obtain ⟨letter, hletter, -⟩ := ifcTypeLetter_eq_lookup (hall ifc hifc).type
    rw [hletter] at hnone
    cases hnone

end connectable

/-- The vector of a module whose parameters are well formed and whose interfaces can
all be connected: the name, the parameters and the specifier, then NULL. -/
theorem prep_module_args_exact {name : String} {params : List String}
    (hname : m.moduleName = some name) (hcnt : m.ifces.length = m.configIfcesCnt)
    (hparams : ParamsOf m.moduleParams params) (hifces : ∀ ifc ∈ m.ifces, Connectable ifc) :
    (prepModuleArgsMemory m).args = some ((name :: params ++
        if m.ifces = [] then [] else ["-i", String.ofList (specifierOf m.ifces)]).map some ++
          [none]) ∧
      (∀ wr ∈ (prepModuleArgsMemory m).argWrites, wr.Inside) ∧
      ∀ wr ∈ (prepModuleArgsMemory m).specWrites, wr.Inside := by
  obtain ⟨hargs, hinside, hfits⟩ := prepModuleArgsMemory_spec hcnt
  refine ⟨?_, hinside, hfits.mpr (specFits_of_connectable hifces)⟩
  have htokens : (m.moduleParams.bind parseModuleParams).getD [] = params := by
    cases hm : m.moduleParams with
    | none =>
      rw [hm] at hparams
      exact hparams.symm
    | some moduleParams =>
      rw [hm] at hparams
      rw [Option.bind_some, parseModuleParams_eq_some.mpr hparams]
      rfl
  rw [hargs]
  split_ifs with hnil
  · rw [prepModuleArgs_nil hcnt hnil, hname, htokens]
    simp
  · rw [prepModuleArgs_cons hcnt hnil, prepIfcSpec_of_connectable hifces, hname, htokens]
    rfl

/-- An output interface with an option stands in front of an input interface. -/
theorem prep_module_args_exact_option :
    let m := { RunningModule.zero with
      moduleName := some "filter"
      moduleParams := some "-v 'a b'"
      configIfces := [
        { Interface.zero with
          ifcType := some "UNIXSOCKET", intIfcType := unixsocketModuleIfcType,
          intIfcDirection := outModuleIfcDirection, ifcParams := some "sock,timeout=1,x" },
        { Interface.zero with
          ifcType := some "TCP", intIfcType := tcpModuleIfcType,
          intIfcDirection := inModuleIfcDirection, ifcParams := some "localhost,7600" }]
      configIfcesCnt := 2 }
    (prepModuleArgsMemory m).args = some [some "filter", some "-v", some "a b", some "-i",
      some "t:localhost:7600,u:sock:timeout=1,x", none] := by
  intro m
  have hconnected : ∀ ifc ∈ m.ifces, Connectable ifc := by
    have hfields : ∀ ifc ∈ m.ifces, ifc.intIfcType ∈ typeLetters.map Prod.fst ∧ Directed ifc ∧
        ifc.ifcParams.isSome := by decide
    intro ifc hifc
    obtain ⟨htype, hdirection, hparams⟩ := hfields ifc hifc
    exact ⟨htype, hdirection, Option.isSome_iff_ne_none.mp hparams⟩
  have hparams : ParamsOf m.moduleParams ["-v", "a b"] :=
    parseModuleParams_eq_some.mp (by decide)
  exact (prep_module_args_exact rfl rfl hparams hconnected).1.trans (by decide)

end NemeaSupervisor
