import NemeaSupervisor.Fields
import NemeaSupervisor.Invariants
import NemeaSupervisor.Params

/-!
# The arguments of a module

`prep_module_args` turns the configuration of a module into the argument vector of
its process: the name, the parameters and, for the interfaces, `-i` with the
specifier that libtrap reads. The configuration arrives there completely only when
every interface has a direction and one address, and the parameters are well formed.
Memory is not modelled: the texts have no maximal length, and clearing the last
character of an empty specifier, a write in front of the buffer, does nothing.
-/

namespace NemeaSupervisor

def trapParam : String := "-i"

/-- `get_param_by_delimiter`: the text up to the delimiter, and the text after it. -/
def getParamByDelimiter (source : List Char) (delimiter : Char) : List Char × Option (List Char) :=
  if delimiter ∈ source then
    (source.takeWhile fun c => c ≠ delimiter, some (source.dropWhile fun c => c ≠ delimiter).tail)
  else (source, none)

/-- What starts the specifier of an interface. -/
def ifcTypeLetter (intIfcType : Int) : Option Char :=
  if intIfcType = tcpModuleIfcType then some 't'
  else if intIfcType = unixsocketModuleIfcType then some 'u'
  else if intIfcType = fileModuleIfcType then some 'f'
  else if intIfcType = blackholeModuleIfcType then some 'b'
  else if intIfcType = tlsModuleIfcType then some 'T'
  else none

/-- The parameters of an interface with the comma after them; `address,port` is
written with a colon. -/
def ifcSpecParams (ifcParams : String) : List Char :=
  match getParamByDelimiter ifcParams.toList ',' with
  | (_, none) => ifcParams.toList ++ [',']
  | (addr, some port) => addr ++ ':' :: port ++ [',']

/-- One interface of the inner loop; the missing specifier stands for the return of NULL. -/
def addIfcSpec (actDir : Int) (ifcSpec : Option (List Char)) (ifc : Interface) :
    Option (List Char) :=
  ifcSpec.bind fun spec =>
    if ifc.intIfcDirection = actDir then
      (ifcTypeLetter ifc.intIfcType).map fun letter =>
        match ifc.ifcParams with
        | none => spec ++ [letter, ':']
        | some ifcParams => spec ++ [letter, ':'] ++ ifcSpecParams ifcParams
    else some spec

/-- The trap interfaces specifier: input interfaces, then output interfaces, without
the last character. -/
def prepIfcSpec (ifces : List Interface) : Option (List Char) :=
  ([inModuleIfcDirection, outModuleIfcDirection].foldl
    (fun ifcSpec actDir => ifces.foldl (addIfcSpec actDir) ifcSpec) (some [])).map List.dropLast

/-- `prep_module_args`; the missing vector is NULL. -/
def prepModuleArgs (m : RunningModule) : Option (List String) :=
  let moduleParams := (m.moduleParams.bind parseModuleParams).getD []
  let binArgs := m.moduleName.getD "" :: moduleParams
  if m.configIfcesCnt > 0 then
    (prepIfcSpec m.ifces).map fun ifcSpec => binArgs ++ [trapParam, String.ofList ifcSpec]
  else some binArgs

/-- The child in `service_start_module`: the path and the arguments it executes. Without a path
or arguments it exits. -/
def childExec (m : RunningModule) : Option (String × List String) :=
  m.modulePath.bind fun modulePath => (prepModuleArgs m).map fun params => (modulePath, params)

/-- A slot of this name from which a process is started so. -/
def Launch.slot (l : Launch) (name : Option String) : RunningModule :=
  { RunningModule.zero with
    moduleName := name
    modulePath := l.path
    moduleParams := l.params
    configIfces := l.ifces
    configIfcesCnt := l.ifces.length }

@[simp] theorem Launch.slot_ifces (l : Launch) (name : Option String) :
    (l.slot name).ifces = l.ifces := List.take_length

/-! ## What the arguments have to say -/

/-- The parameters in a configuration; without the element there are none. -/
def ParamsOf : Option String → List String → Prop
  | none, params => params = []
  | some moduleParams, params =>
    ∃ ps, ParamsText moduleParams.toList ps ∧ params = ps.map String.ofList

/-- The letter libtrap knows a type by. -/
def TypeLetter : String → Char → Prop
  | "TCP", letter => letter = 't'
  | "UNIXSOCKET", letter => letter = 'u'
  | "FILE", letter => letter = 'f'
  | "BLACKHOLE", letter => letter = 'b'
  | "TLS", letter => letter = 'T'
  | _, _ => False

/-- With colons for commas. -/
def colonText (l : List Char) : List Char := l.map fun c => if c = ',' then ':' else c

/-- The field of an interface: the letter of its type and its parameters. -/
def FieldOf (ifc : Interface) (field : List Char) : Prop :=
  ∃ type letter, ifc.ifcType = some type ∧ TypeLetter type letter ∧
    field = letter :: ':' :: colonText (ifc.ifcParams.getD "").toList

/-- The fields of the specifier correspond one to one to the interfaces. -/
def Specifies (ifces : List Interface) (ifcSpec : String) : Prop :=
  ∃ l, l.Perm ifces ∧ List.Forall₂ FieldOf l (ifcSpec.toList.splitOn ',')

/-- The vector holds every parameter, in order, and a specifier if there are interfaces. -/
def ArgumentsOf (m : RunningModule) (args : List String) : Prop :=
  ∃ params specifier, ParamsOf m.moduleParams params ∧
    args = m.moduleName.getD "" :: params ++ specifier ∧
    (m.ifces = [] ∧ specifier = [] ∨
      m.ifces ≠ [] ∧ ∃ ifcSpec, specifier = [trapParam, ifcSpec] ∧ Specifies m.ifces ifcSpec)

/-! ## The specifier as a concatenation -/

/-- Its interfaces, in its order. -/
def directedIfces (ifces : List Interface) : List Interface :=
  (ifces.filter fun ifc => ifc.intIfcDirection = inModuleIfcDirection) ++
    ifces.filter fun ifc => ifc.intIfcDirection = outModuleIfcDirection

/-- What one interface adds. -/
def ifcText (ifc : Interface) : List Char :=
  (ifcTypeLetter ifc.intIfcType).getD ' ' :: ':' :: (ifc.ifcParams.map ifcSpecParams).getD []

theorem addIfcSpec_some (actDir : Int) (spec : List Char) {ifc : Interface}
    (htype : ifcTypeLetter ifc.intIfcType ≠ none) :
    addIfcSpec actDir (some spec) ifc =
      some (if ifc.intIfcDirection = actDir then spec ++ ifcText ifc else spec) := by
  obtain ⟨letter, hletter⟩ := Option.ne_none_iff_exists'.mp htype
  unfold addIfcSpec ifcText
  rw [hletter]
  cases ifc.ifcParams <;> split_ifs <;> simp_all

theorem addIfcSpec_none (actDir : Int) (ifces : List Interface) :
    ifces.foldl (addIfcSpec actDir) none = none := by
  induction ifces with
  | nil => rfl
  | cons ifc ifces ih => exact ih

/-- The inner loop: an interface of the direction with a wrong type ends the function. -/
theorem foldl_addIfcSpec (actDir : Int) (ifces : List Interface) (spec : List Char) :
    (∀ ifc ∈ ifces, ifc.intIfcDirection = actDir → ifcTypeLetter ifc.intIfcType ≠ none) ∧
        ifces.foldl (addIfcSpec actDir) (some spec) =
          some (spec ++ (ifces.filter fun ifc => ifc.intIfcDirection = actDir).flatMap ifcText) ∨
      (∃ ifc ∈ ifces, ifc.intIfcDirection = actDir ∧ ifcTypeLetter ifc.intIfcType = none) ∧
        ifces.foldl (addIfcSpec actDir) (some spec) = none := by
  induction ifces generalizing spec with
  | nil => exact .inl ⟨by simp, by simp⟩
  | cons ifc ifces ih =>
    by_cases hdir : ifc.intIfcDirection = actDir
    · by_cases htype : ifcTypeLetter ifc.intIfcType = none
      · have hstop : addIfcSpec actDir (some spec) ifc = none := by
          simp [addIfcSpec, hdir, htype]
        refine .inr ⟨⟨ifc, by simp, hdir, htype⟩, ?_⟩
        rw [List.foldl_cons, hstop, addIfcSpec_none]
      · rw [List.foldl_cons, addIfcSpec_some actDir spec htype, if_pos hdir]
        rcases ih (spec ++ ifcText ifc) with ⟨hall, heq⟩ | ⟨⟨ifc', hmem, hbad⟩, heq⟩
        · refine .inl ⟨?_, ?_⟩
          · rintro ifc' hmem
            rcases List.mem_cons.mp hmem with rfl | hmem
            · exact fun _ => htype
            · exact hall ifc' hmem
          · rw [heq, List.filter_cons_of_pos (by simpa using hdir), List.flatMap_cons,
              List.append_assoc]
        · exact .inr ⟨⟨ifc', List.mem_cons_of_mem ifc hmem, hbad⟩, heq⟩
    · have hskip : addIfcSpec actDir (some spec) ifc = some spec := by simp [addIfcSpec, hdir]
      rw [List.foldl_cons, hskip, List.filter_cons_of_neg (by simpa using hdir)]
      rcases ih spec with ⟨hall, heq⟩ | ⟨⟨ifc', hmem, hbad⟩, heq⟩
      · refine .inl ⟨?_, heq⟩
        rintro ifc' hmem hdir'
        rcases List.mem_cons.mp hmem with rfl | hmem
        · exact absurd hdir' hdir
        · exact hall ifc' hmem hdir'
      · exact .inr ⟨⟨ifc', List.mem_cons_of_mem ifc hmem, hbad⟩, heq⟩

/-- An interface of either direction. -/
def Directed (ifc : Interface) : Prop :=
  ifc.intIfcDirection = inModuleIfcDirection ∨ ifc.intIfcDirection = outModuleIfcDirection

instance (ifc : Interface) : Decidable (Directed ifc) := inferInstanceAs (Decidable (_ ∨ _))

theorem mem_directedIfces {ifces : List Interface} {ifc : Interface} :
    ifc ∈ directedIfces ifces ↔ ifc ∈ ifces ∧ Directed ifc := by
  simp [directedIfces, Directed, and_or_left]

theorem prepIfcSpec_eq (ifces : List Interface) :
    (∀ ifc ∈ directedIfces ifces, ifcTypeLetter ifc.intIfcType ≠ none) ∧
        prepIfcSpec ifces = some ((directedIfces ifces).flatMap ifcText).dropLast ∨
      (∃ ifc ∈ directedIfces ifces, ifcTypeLetter ifc.intIfcType = none) ∧
        prepIfcSpec ifces = none := by
  simp only [prepIfcSpec, List.foldl_cons, List.foldl_nil]
  rcases foldl_addIfcSpec inModuleIfcDirection ifces [] with ⟨hin, heq⟩ | ⟨⟨ifc, hmem, hbad⟩, heq⟩
  · rw [heq]
    rcases foldl_addIfcSpec outModuleIfcDirection ifces ([] ++
      (ifces.filter fun ifc => ifc.intIfcDirection = inModuleIfcDirection).flatMap ifcText) with
      ⟨hout, heq'⟩ | ⟨⟨ifc, hmem, hbad⟩, heq'⟩
    · rw [heq']
      refine .inl ⟨fun ifc hifc => ?_, ?_⟩
      · obtain ⟨hmem, hdir⟩ := mem_directedIfces.mp hifc
        rcases hdir with hdir | hdir
        · exact hin ifc hmem hdir
        · exact hout ifc hmem hdir
      · simp [directedIfces]
    · rw [heq']
      exact .inr ⟨⟨ifc, mem_directedIfces.mpr ⟨hmem, .inr hbad.1⟩, hbad.2⟩, rfl⟩
  · rw [heq, addIfcSpec_none]
    exact .inr ⟨⟨ifc, mem_directedIfces.mpr ⟨hmem, .inl hbad.1⟩, hbad.2⟩, rfl⟩

/-! ## The fields of the specifier -/

theorem ifcSpecParams_cases (ifcParams : String) :
    ',' ∉ ifcParams.toList ∧ ifcSpecParams ifcParams = ifcParams.toList ++ [','] ∨
      ∃ addr port, ',' ∉ addr ∧ ifcParams.toList = addr ++ ',' :: port ∧
        ifcSpecParams ifcParams = addr ++ ':' :: port ++ [','] := by
  unfold ifcSpecParams getParamByDelimiter
  by_cases hcomma : ',' ∈ ifcParams.toList
  · obtain ⟨addr, port, heq, haddr⟩ := List.eq_append_cons_of_mem hcomma
    have hall : ∀ c ∈ addr, decide (c ≠ ',') = true := by
      intro c hc
      simp only [decide_eq_true_eq]
      rintro rfl
      exact haddr hc
    refine .inr ⟨addr, port, haddr, heq, ?_⟩
    rw [if_pos hcomma, heq, List.takeWhile_append_of_pos hall, List.dropWhile_append_of_pos hall]
    simp
  · refine .inl ⟨hcomma, ?_⟩
    rw [if_neg hcomma]

theorem length_ifcSpecParams (ifcParams : String) :
    (ifcSpecParams ifcParams).length = ifcParams.toList.length + 1 := by
  rcases ifcSpecParams_cases ifcParams with ⟨-, heq⟩ | ⟨addr, port, -, hparams, heq⟩
  · simp [heq]
  · simp only [heq, hparams, List.length_append, List.length_cons, List.length_nil, Nat.add_assoc]

theorem count_ifcSpecParams (ifcParams : String) :
    (ifcSpecParams ifcParams).count ',' = (ifcParams.toList.count ',' - 1) + 1 := by
  rcases ifcSpecParams_cases ifcParams with ⟨hcomma, heq⟩ | ⟨addr, port, haddr, hparams, heq⟩
  · simp [heq, List.count_eq_zero.mpr hcomma]
  · simp [heq, hparams, List.count_eq_zero.mpr haddr]

theorem ifcSpecParams_concat (ifcParams : String) : ∃ t, ifcSpecParams ifcParams = t ++ [','] := by
  rcases ifcSpecParams_cases ifcParams with ⟨-, heq⟩ | ⟨addr, port, -, -, heq⟩
  · exact ⟨_, heq⟩
  · exact ⟨_, heq⟩

theorem colonText_same {l : List Char} (h : ',' ∉ l) : colonText l = l := by
  refine (List.map_congr_left fun c hc => ?_).trans l.map_id
  have hne : c ≠ ',' := by
    rintro rfl
    exact h hc
  exact if_neg hne

theorem not_mem_colonText (l : List Char) : ',' ∉ colonText l := by
  intro h
  obtain ⟨c, -, hc⟩ := List.mem_map.mp h
  split_ifs at hc with hcomma
  · exact absurd hc (by decide)
  · exact hcomma hc

theorem ifcSpecParams_one {ifcParams : String} (h : ifcParams.toList.count ',' ≤ 1) :
    ifcSpecParams ifcParams = colonText ifcParams.toList ++ [','] := by
  rcases ifcSpecParams_cases ifcParams with ⟨hcomma, heq⟩ | ⟨addr, port, haddr, hparams, heq⟩
  · rw [heq, colonText_same hcomma]
  · have hport : ',' ∉ port := by
      rw [hparams, List.count_append, List.count_cons_self, List.count_eq_zero.mpr haddr] at h
      exact List.count_eq_zero.mp (by omega)
    have hsame := colonText_same haddr
    have hsame' := colonText_same hport
    rw [heq, hparams, colonText, List.map_append, List.map_cons, if_pos rfl]
    rw [colonText] at hsame hsame'
    rw [hsame, hsame']

/-! ## When the specifier is complete -/

/-- The direction and the type of an interface are what its codes say. -/
structure Coded (ifc : Interface) : Prop where
  direction : Directed ifc ↔ ifc.ifcDirection ≠ none
  missing : ifcTypeLetter ifc.intIfcType = none ↔ ifc.ifcType = none
  letter : ∀ {letter : Char}, ifcTypeLetter ifc.intIfcType = some letter →
    letter ≠ ',' ∧ ∃ type, ifc.ifcType = some type ∧ TypeLetter type letter

theorem typeLetter_valid {type : String}
    (h : type ∈ ["TCP", "UNIXSOCKET", "FILE", "BLACKHOLE", "TLS"]) :
    ∃ letter, ifcTypeLetter (intIfcTypeOf (some type)) = some letter ∧ letter ≠ ',' ∧
      TypeLetter type letter := by
  simp only [List.mem_cons, List.not_mem_nil, or_false] at h
  obtain rfl | rfl | rfl | rfl | rfl := h
  · exact ⟨'t', by decide, by decide, rfl⟩
  · exact ⟨'u', by decide, by decide, rfl⟩
  · exact ⟨'f', by decide, by decide, rfl⟩
  · exact ⟨'b', by decide, by decide, rfl⟩
  · exact ⟨'T', by decide, by decide, rfl⟩

theorem ValidInterface.coded {ifc : Interface} (h : ValidInterface ifc)
    (hcodes : ifc.withCodes = ifc) : Coded ifc := by
  have hdir : ifc.intIfcDirection = intIfcDirectionOf ifc.ifcDirection := by
    rw [← hcodes]
    rfl
  have htype : ifc.intIfcType = intIfcTypeOf ifc.ifcType := by
    rw [← hcodes]
    rfl
  constructor
  · rw [Directed, hdir]
    cases hd : ifc.ifcDirection with
    | none => decide
    | some direction =>
      have hmem := h.direction direction hd
      simp only [List.mem_cons, List.not_mem_nil, or_false] at hmem
      obtain rfl | rfl := hmem
      · decide
      · decide
  · rw [htype]
    cases ht : ifc.ifcType with
    | none => decide
    | some type =>
      obtain ⟨letter, hletter, -⟩ := typeLetter_valid (h.type type ht)
      simp [hletter]
  · intro letter hletter
    rw [htype] at hletter
    cases ht : ifc.ifcType with
    | none =>
      have hnone : ifcTypeLetter (intIfcTypeOf none) = none := by decide
      rw [ht, hnone] at hletter
      cases hletter
    | some type =>
      obtain ⟨letter', hletter', hne, htl⟩ := typeLetter_valid (h.type type ht)
      rw [ht, hletter', Option.some.injEq] at hletter
      subst hletter
      exact ⟨hne, type, rfl, htl⟩

/-- An interface that the specifier renders. -/
structure Rendered (ifc : Interface) : Prop where
  direction : ifc.ifcDirection ≠ none
  params : ∃ ifcParams, ifc.ifcParams = some ifcParams ∧ ifcParams.toList.count ',' ≤ 1

section specifier

variable {ifces : List Interface} {ifc : Interface}

/-- The length of the parameters. -/
def paramsLength (ifc : Interface) : Nat := (ifc.ifcParams.getD "").toList.length

theorem sum_directed (f : Interface → Nat) (ifces : List Interface) :
    ((directedIfces ifces).map f).sum =
      (ifces.map fun ifc => if Directed ifc then f ifc else 0).sum := by
  rw [directedIfces, List.map_append, List.sum_append, Fields.sum_filter, Fields.sum_filter,
    ← List.sum_map_add]
  refine congrArg List.sum (List.map_congr_left fun ifc _ => ?_)
  have hdiff : inModuleIfcDirection ≠ outModuleIfcDirection := by decide
  by_cases hin : ifc.intIfcDirection = inModuleIfcDirection
  · simp [Directed, hin, hdiff]
  · simp [Directed, hin]

theorem length_ifcText (ifc : Interface) : (ifcText ifc).length =
    2 + paramsLength ifc + if ifc.ifcParams = none then 0 else 1 := by
  unfold ifcText paramsLength
  cases ifc.ifcParams with
  | none => rfl
  | some ifcParams =>
    simp [length_ifcSpecParams]
    omega

theorem FieldOf.length {field : List Char} (h : FieldOf ifc field) :
    field.length = 2 + paramsLength ifc := by
  obtain ⟨type, letter, -, -, rfl⟩ := h
  simp [colonText, paramsLength]
  omega

theorem sum_length_fields {l : List Interface} {fields : List (List Char)}
    (h : List.Forall₂ FieldOf l fields) :
    (fields.map List.length).sum = (l.map fun ifc => 2 + paramsLength ifc).sum := by
  induction h with
  | nil => rfl
  | cons hfield _ ih => rw [List.map_cons, List.map_cons, List.sum_cons, List.sum_cons, ih, hfield.length]

theorem count_ifcText (hcoded : Coded ifc) (htype : ifcTypeLetter ifc.intIfcType ≠ none)
    {ifcParams : String} (hparams : ifc.ifcParams = some ifcParams) :
    (ifcText ifc).count ',' = (ifcParams.toList.count ',' - 1) + 1 := by
  obtain ⟨letter, hletter⟩ := Option.ne_none_iff_exists'.mp htype
  have hne : letter ≠ ',' := (hcoded.letter hletter).1
  rw [ifcText, hletter, hparams]
  simp [hne, count_ifcSpecParams]

theorem ifcText_concat {ifcParams : String} (hparams : ifc.ifcParams = some ifcParams) :
    ∃ t, ifcText ifc = t ++ [','] := by
  obtain ⟨t, ht⟩ := ifcSpecParams_concat ifcParams
  refine ⟨(ifcTypeLetter ifc.intIfcType).getD ' ' :: ':' :: t, ?_⟩
  rw [ifcText, hparams, Option.map_some, Option.getD_some, ht]
  rfl

/-- A complete specifier has room for its fields only if every interface is in it
with parameters. -/
theorem Specifies.full (hne : ifces ≠ [])
    (h : Specifies ifces (String.ofList ((directedIfces ifces).flatMap ifcText).dropLast)) :
    ∀ ifc ∈ ifces, Directed ifc ∧ ifc.ifcParams ≠ none := by
  obtain ⟨l, hperm, hfields⟩ := h
  rw [String.toList_ofList] at hfields
  have hcount := Fields.length_splitOn ',' ((directedIfces ifces).flatMap ifcText).dropLast
  have hlength := Fields.sum_length_splitOn ',' ((directedIfces ifces).flatMap ifcText).dropLast
  rw [← hfields.length_eq, hperm.length_eq] at hcount
  rw [sum_length_fields hfields, (hperm.map fun ifc => 2 + paramsLength ifc).sum_eq,
    List.length_dropLast, List.length_flatMap, sum_directed] at hlength
  have hpositive : 0 < (ifces.map fun ifc => 2 + paramsLength ifc).sum := by
    obtain ⟨ifc, rest, rfl⟩ := List.exists_cons_of_ne_nil hne
    rw [List.map_cons, List.sum_cons]
    omega
  have hsum : (ifces.map fun ifc => 2 + paramsLength ifc + 1).sum =
      (ifces.map fun ifc => 2 + paramsLength ifc).sum + ifces.length := by
    rw [List.sum_map_add]
    simp
  have hle : ∀ ifc ∈ ifces, (if Directed ifc then (ifcText ifc).length else 0) ≤
      2 + paramsLength ifc + 1 := by
    intro ifc _
    rw [length_ifcText]
    split_ifs <;> omega
  intro ifc hifc
  have hfull := Fields.le_of_sum_le hle (by omega) ifc hifc
  rw [length_ifcText] at hfull
  split_ifs at hfull with hdir hnone
  · omega
  · exact ⟨hdir, hnone⟩
  · omega

/-- Then there are as many commas as interfaces. -/
theorem Specifies.rendered (hne : ifces ≠ []) (hcoded : ∀ ifc ∈ ifces, Coded ifc)
    (htypes : ∀ ifc ∈ directedIfces ifces, ifcTypeLetter ifc.intIfcType ≠ none)
    (h : Specifies ifces (String.ofList ((directedIfces ifces).flatMap ifcText).dropLast)) :
    ∀ ifc ∈ ifces, Rendered ifc := by
  have hfull := h.full hne
  obtain ⟨l, hperm, hfields⟩ := h
  have hconcat : ∃ t, (directedIfces ifces).flatMap ifcText = t ++ [','] := by
    refine Fields.flatMap_concat ?_ fun ifc hifc => ?_
    · obtain ⟨ifc, rest, rfl⟩ := List.exists_cons_of_ne_nil hne
      exact List.ne_nil_of_mem (mem_directedIfces.mpr ⟨by simp, (hfull ifc (by simp)).1⟩)
    · obtain ⟨ifcParams, hparams⟩ :=
        Option.ne_none_iff_exists'.mp (hfull ifc (mem_directedIfces.mp hifc).1).2
      exact ifcText_concat hparams
  obtain ⟨t, ht⟩ := hconcat
  have hcommas : ((directedIfces ifces).flatMap ifcText).count ',' = ifces.length := by
    rw [String.toList_ofList, ht, List.dropLast_concat] at hfields
    rw [ht, List.count_append, ← hperm.length_eq, hfields.length_eq, Fields.length_splitOn]
    rfl
  rw [List.count_flatMap, sum_directed] at hcommas
  have htext : ∀ ifc ∈ ifces, ∃ ifcParams, ifc.ifcParams = some ifcParams ∧
      (if Directed ifc then (ifcText ifc).count ',' else 0) =
        (ifcParams.toList.count ',' - 1) + 1 := by
    intro ifc hifc
    obtain ⟨hdir, hparams⟩ := hfull ifc hifc
    obtain ⟨ifcParams, hparams⟩ := Option.ne_none_iff_exists'.mp hparams
    refine ⟨ifcParams, hparams, ?_⟩
    rw [if_pos hdir]
    exact count_ifcText (hcoded ifc hifc) (htypes ifc (mem_directedIfces.mpr ⟨hifc, hdir⟩)) hparams
  intro ifc hifc
  have hone := @Fields.le_of_sum_le _ (fun _ => 1)
    (fun ifc => if Directed ifc then (ifcText ifc).count ',' else 0) ifces
    (fun ifc hifc => by
      obtain ⟨ifcParams, -, heq⟩ := htext ifc hifc
      omega)
    (by simp [← hcommas]) ifc hifc
  obtain ⟨ifcParams, hparams, heq⟩ := htext ifc hifc
  exact ⟨((hcoded ifc hifc).direction).mp (hfull ifc hifc).1, ifcParams, hparams, by omega⟩

theorem directedIfces_perm (h : ∀ ifc ∈ ifces, Directed ifc) : (directedIfces ifces).Perm ifces := by
  have hout : (ifces.filter fun ifc => ifc.intIfcDirection = outModuleIfcDirection) =
      ifces.filter fun ifc => !decide (ifc.intIfcDirection = inModuleIfcDirection) := by
    refine List.filter_congr fun ifc hifc => ?_
    rcases h ifc hifc with hdir | hdir
    · rw [hdir]
      decide
    · rw [hdir]
      decide
  rw [directedIfces, hout]
  exact List.filter_append_perm _ _

/-- Rendered interfaces are all in the specifier, each as one field. -/
theorem specifies_of_rendered (hne : ifces ≠ []) (hcoded : ∀ ifc ∈ ifces, Coded ifc)
    (htypes : ∀ ifc ∈ directedIfces ifces, ifcTypeLetter ifc.intIfcType ≠ none)
    (h : ∀ ifc ∈ ifces, Rendered ifc) :
    Specifies ifces (String.ofList ((directedIfces ifces).flatMap ifcText).dropLast) := by
  have hperm : (directedIfces ifces).Perm ifces :=
    directedIfces_perm fun ifc hifc => (hcoded ifc hifc).direction.mpr (h ifc hifc).direction
  have hfield : ∀ ifc ∈ directedIfces ifces, FieldOf ifc (ifcText ifc).dropLast ∧
      ',' ∉ (ifcText ifc).dropLast ∧ ifcText ifc = (ifcText ifc).dropLast ++ [','] := by
    intro ifc hifc
    have hmem := (mem_directedIfces.mp hifc).1
    obtain ⟨letter, hletter⟩ := Option.ne_none_iff_exists'.mp (htypes ifc hifc)
    obtain ⟨ifcParams, hparams, hone⟩ := (h ifc hmem).params
    obtain ⟨hcomma, type, htype, htl⟩ := (hcoded ifc hmem).letter hletter
    have htext : ifcText ifc = letter :: ':' :: colonText ifcParams.toList ++ [','] := by
      rw [ifcText, hletter, hparams, Option.map_some, Option.getD_some, Option.getD_some,
        ifcSpecParams_one hone]
      rfl
    rw [htext, List.dropLast_concat]
    refine ⟨⟨type, letter, htype, htl, by rw [hparams]; rfl⟩, ?_, rfl⟩
    simp only [List.mem_cons, not_or]
    exact ⟨hcomma.symm, by decide, not_mem_colonText _⟩
  have hflat : (directedIfces ifces).flatMap ifcText =
      ((directedIfces ifces).map fun ifc => (ifcText ifc).dropLast).flatMap fun l => l ++ [','] := by
    rw [List.flatMap_map]
    exact List.flatMap_congr fun ifc hifc => (hfield ifc hifc).2.2
  refine ⟨directedIfces ifces, hperm, ?_⟩
  rw [String.toList_ofList, hflat, Fields.dropLast_flatMap, List.splitOn_intercalate]
  · exact List.forall₂_map_right_iff.mpr (List.forall₂_same.mpr fun ifc hifc => (hfield ifc hifc).1)
  · intro field hmem
    obtain ⟨ifc, hifc, rfl⟩ := List.mem_map.mp hmem
    exact (hfield ifc hifc).2.1
  · intro hnil
    rw [List.map_eq_nil_iff] at hnil
    rw [hnil] at hperm
    exact hne hperm.nil_eq.symm

end specifier

/-! ## The arguments of the loaded modules -/

/-- The specifier is not built because of an interface without a type. -/
def Unbuildable (m : RunningModule) : Prop :=
  ∃ ifc ∈ m.ifces, ifc.ifcDirection ≠ none ∧ ifc.ifcType = none

/-- The parameters are well formed, and every interface is rendered. -/
def Expressible (m : RunningModule) : Prop :=
  (∃ params, ParamsOf m.moduleParams params) ∧ ∀ ifc ∈ m.ifces, Rendered ifc

theorem ParamsOf.parsed {moduleParams : Option String} {params : List String}
    (h : ParamsOf moduleParams params) : (moduleParams.bind parseModuleParams).getD [] = params := by
  cases moduleParams with
  | none => exact h.symm
  | some moduleParams =>
    rw [Option.bind_some, parseModuleParams_eq_some.mpr h]
    rfl

theorem prepModuleArgs_nil {m : RunningModule} (hcnt : m.ifces.length = m.configIfcesCnt)
    (hnil : m.ifces = []) : prepModuleArgs m =
      some (m.moduleName.getD "" :: (m.moduleParams.bind parseModuleParams).getD []) := by
  rw [hnil] at hcnt
  rw [prepModuleArgs, ← hcnt]
  rfl

theorem prepModuleArgs_cons {m : RunningModule} (hcnt : m.ifces.length = m.configIfcesCnt)
    (hne : m.ifces ≠ []) : prepModuleArgs m = (prepIfcSpec m.ifces).map fun ifcSpec =>
      m.moduleName.getD "" :: (m.moduleParams.bind parseModuleParams).getD [] ++
        [trapParam, String.ofList ifcSpec] := by
  have hpos : m.configIfcesCnt > 0 := by
    rw [← hcnt]
    exact List.length_pos_iff.mpr hne
  rw [prepModuleArgs, if_pos hpos]

section arguments

variable {m : RunningModule}

/-- The child takes nothing but the launch data and the name out of its slot. -/
theorem childExec_slot (hcnt : m.ifces.length = m.configIfcesCnt) :
    childExec m = childExec (m.launch.slot m.moduleName) := by
  have hargs : prepModuleArgs m = prepModuleArgs (m.launch.slot m.moduleName) := by
    rw [prepModuleArgs, prepModuleArgs, Launch.slot_ifces]
    simp only [Launch.slot, RunningModule.launch, hcnt]
  rw [childExec, childExec, hargs]
  rfl

/-- What an expressible configuration is turned into says all of it. -/
theorem Expressible.arguments (h : Expressible m) (hcnt : m.ifces.length = m.configIfcesCnt)
    (hcoded : ∀ ifc ∈ m.ifces, Coded ifc) {args : List String} (heq : prepModuleArgs m = some args) :
    ArgumentsOf m args := by
  obtain ⟨⟨params, hparams⟩, hrendered⟩ := h
  by_cases hnil : m.ifces = []
  · rw [prepModuleArgs_nil hcnt hnil, Option.some.injEq] at heq
    exact ⟨params, [], hparams, by rw [← heq, hparams.parsed, List.append_nil], .inl ⟨hnil, rfl⟩⟩
  · rw [prepModuleArgs_cons hcnt hnil] at heq
    rcases prepIfcSpec_eq m.ifces with ⟨htypes, hspec⟩ | ⟨-, hspec⟩
    · rw [hspec, Option.map_some, Option.some.injEq, hparams.parsed] at heq
      exact ⟨params, _, hparams, heq.symm, .inr ⟨hnil, _, rfl,
        specifies_of_rendered hnil hcoded htypes hrendered⟩⟩
    · rw [hspec] at heq
      cases heq

/-- The arguments can be built if every interface has a type. -/
theorem exists_prepModuleArgs (hcnt : m.ifces.length = m.configIfcesCnt)
    (hcoded : ∀ ifc ∈ m.ifces, Coded ifc) (htypes : ∀ ifc ∈ m.ifces, ifc.ifcType ≠ none) :
    ∃ args, prepModuleArgs m = some args := by
  by_cases hnil : m.ifces = []
  · exact ⟨_, prepModuleArgs_nil hcnt hnil⟩
  · rw [prepModuleArgs_cons hcnt hnil]
    rcases prepIfcSpec_eq m.ifces with ⟨-, hspec⟩ | ⟨⟨ifc, hifc, hmissing⟩, -⟩
    · exact ⟨_, by rw [hspec]; rfl⟩
    · have hmem := (mem_directedIfces.mp hifc).1
      exact absurd ((hcoded ifc hmem).missing.mp hmissing) (htypes ifc hmem)

end arguments

/-- The arguments of a loaded module say all of its configuration exactly when it is
expressible; only a missing type makes the function give up. -/
theorem arguments_complete_iff {w : World} (hw : Reachable w) {m : RunningModule}
    (hm : m ∈ w.sup.loaded) :
    (∀ args, prepModuleArgs m = some args → ArgumentsOf m args) ↔
      Unbuildable m ∨ Expressible m := by
  have hslot := (reachable_tableInv hw).slots m hm
  have hcnt := hslot.ifces.filled.length_ifces
  have hcoded : ∀ ifc ∈ m.ifces, Coded ifc :=
    fun ifc hifc => (hslot.valid ifc hifc).coded (hslot.ifces.codes ifc hifc)
  by_cases hnil : m.ifces = []
  · rw [prepModuleArgs_nil hcnt hnil]
    constructor
    · intro h
      obtain ⟨params, -, hparams, -⟩ := h _ rfl
      exact .inr ⟨⟨params, hparams⟩, by simp [hnil]⟩
    · rintro (⟨ifc, hifc, -⟩ | hexpressible) args heq
      · simp [hnil] at hifc
      · exact hexpressible.arguments hcnt hcoded ((prepModuleArgs_nil hcnt hnil).trans heq)
  · rw [prepModuleArgs_cons hcnt hnil]
    rcases prepIfcSpec_eq m.ifces with ⟨htypes, hspec⟩ | ⟨⟨ifc, hifc, htype⟩, hspec⟩
    · rw [hspec, Option.map_some]
      constructor
      · intro h
        obtain ⟨params, specifier, hparams, heq, hempty | ⟨-, ifcSpec, rfl, hfields⟩⟩ := h _ rfl
        · exact absurd hempty.1 hnil
        · have hlast := (List.append_inj' heq rfl).2
          simp only [List.cons.injEq, true_and, and_true] at hlast
          rw [← hlast] at hfields
          exact .inr ⟨⟨params, hparams⟩, hfields.rendered hnil hcoded htypes⟩
      · rintro (⟨ifc, hifc, hdir, hmissing⟩ | hexpressible) args heq
        · have hdirected := mem_directedIfces.mpr ⟨hifc, (hcoded ifc hifc).direction.mpr hdir⟩
          exact absurd ((hcoded ifc hifc).missing.mpr hmissing) (htypes ifc hdirected)
        · refine hexpressible.arguments hcnt hcoded ?_
          rw [prepModuleArgs_cons hcnt hnil, hspec, Option.map_some, heq]
    · obtain ⟨hmem, hdir⟩ := mem_directedIfces.mp hifc
      have hcode := hcoded ifc hmem
      refine ⟨fun _ => .inl ⟨ifc, hmem, hcode.direction.mp hdir, hcode.missing.mp htype⟩, ?_⟩
      rw [hspec]
      rintro - args heq
      cases heq

/-- A module with these parameters and interfaces. -/
def argumentsDocument (params : String) (interfaces : List XmlNode) : XmlNode :=
  profileDocument [moduleElement "m" "/bin/m" "true"
    [.textElement "params" params, .element "trapinterfaces" [] interfaces]]

def interfaceElement (type direction : String) (params : List XmlNode) : XmlNode :=
  .element "interface" [] (.textElement "type" type :: .textElement "direction" direction :: params)

/-- An output interface in front of an input interface. -/
def completeDocument : XmlNode :=
  argumentsDocument "-v 'a b'"
    [interfaceElement "UNIXSOCKET" "OUT" [.textElement "params" "sock"],
     interfaceElement "TCP" "IN" [.textElement "params" "localhost,7600"]]

theorem arguments_complete_iff_expressible :
    ∃ m ∈ (boot [] (some completeDocument)).sup.loaded,
      ArgumentsOf m ["m", "-v", "a b", "-i", "t:localhost:7600,u:sock"] := by
  have hslot : ∀ m ∈ (boot [] (some completeDocument)).sup.loaded[0]?,
      m.moduleParams = some "-v 'a b'" ∧
      (∀ ifc ∈ m.ifces, ifc.ifcDirection.isSome ∧
        ∀ p ∈ ifc.ifcParams, p.toList.count ',' ≤ 1) ∧
      (∀ ifc ∈ m.ifces, ifc.ifcParams.isSome) ∧
      prepModuleArgs m = some ["m", "-v", "a b", "-i", "t:localhost:7600,u:sock"] := by decide
  obtain ⟨m, hm⟩ : ∃ m, (boot [] (some completeDocument)).sup.loaded[0]? = some m :=
    Option.isSome_iff_exists.mp (by decide)
  obtain ⟨hparams, hifces, hsome, hargs⟩ := hslot m hm
  have hmem := List.mem_of_getElem? hm
  refine ⟨m, hmem, (arguments_complete_iff ⟨[], some completeDocument, [], rfl⟩ hmem).mpr
    (.inr ⟨⟨["-v", "a b"], ?_⟩, fun ifc hifc => ⟨?_, ?_⟩⟩) _ hargs⟩
  · rw [hparams]
    exact parseModuleParams_eq_some.mp (by decide)
  · exact Option.isSome_iff_ne_none.mp (hifces ifc hifc).1
  · obtain ⟨ifcParams, heq⟩ := Option.isSome_iff_exists.mp (hsome ifc hifc)
    exact ⟨ifcParams, heq, (hifces ifc hifc).2 ifcParams heq⟩

/-- A blackhole has no parameters, so no comma follows it. -/
def blackholeDocument : XmlNode :=
  argumentsDocument "-v" [interfaceElement "BLACKHOLE" "OUT" [],
    interfaceElement "UNIXSOCKET" "OUT" [.textElement "params" "sock"]]

/-- Two interfaces share the field `b:u:sock`. -/
theorem not_arguments_complete :
    ¬ ∀ w, Reachable w → ∀ m ∈ w.sup.loaded, ∀ args, prepModuleArgs m = some args →
      ArgumentsOf m args := by
  intro h
  have hslot : ∀ m ∈ (boot [] (some blackholeDocument)).sup.loaded[0]?,
      m.ifces.length = 2 ∧ prepModuleArgs m = some ["m", "-v", "-i", "b:u:sock"] := by decide
  obtain ⟨m, hm⟩ : ∃ m, (boot [] (some blackholeDocument)).sup.loaded[0]? = some m :=
    Option.isSome_iff_exists.mp (by decide)
  obtain ⟨hlength, hargs⟩ := hslot m hm
  obtain ⟨params, specifier, -, heq, ⟨hnil, -⟩ | ⟨-, ifcSpec, rfl, l, hperm, hfields⟩⟩ :=
    h _ ⟨[], some blackholeDocument, [], rfl⟩ m (List.mem_of_getElem? hm) _ hargs
  · simp [hnil] at hlength
  · have hsplit : ["m", "-v"] ++ ["-i", "b:u:sock"] =
        m.moduleName.getD "" :: params ++ [trapParam, ifcSpec] := heq
    have hlast := (List.append_inj' hsplit rfl).2
    simp only [List.cons.injEq, and_true] at hlast
    have hone : ("b:u:sock".toList.splitOn ',').length = 1 := by decide
    have := hfields.length_eq
    rw [hperm.length_eq, hlength, ← hlast.2, hone] at this
    omega

end NemeaSupervisor
