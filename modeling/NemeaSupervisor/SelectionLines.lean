import NemeaSupervisor.NumberSelection

/-!
# Lines of numbers

Which lines `parse_numbers_user_selection` answers as its grammar asks, and which
keep its arithmetic within an `int`. The loop goes through the parts of a line
between the commas; both results are inductions on these parts.
-/

namespace NemeaSupervisor

open CText

def InInt (v : Int) : Prop := -2147483648 ≤ v ∧ v ≤ intMax

/-- The number that a text starts with. -/
def leadingNumber (seg : List Char) : Nat := digitsValue (seg.takeWhile Char.isDigit)

/-- The number that a part starts with, and the one after its dash, is an `int`. -/
structure LeadFits (seg : List Char) : Prop where
  first : (leadingNumber seg : Int) ≤ intMax
  second : ∀ rest, seg.dropWhile Char.isDigit = '-' :: rest → seg.takeWhile Char.isDigit ≠ [] →
    (leadingNumber rest : Int) ≤ intMax

/-- The parts up to the first that is no item start with numbers that are an `int`, and the items
are below `INT_MAX` but for one before a comma that ends the line. -/
def NumbersFit : List (List Char) → Prop
  | [] => True
  | seg :: segs =>
    LeadFits seg ∧ ∀ a b, Item seg a b → segs ≠ [[]] →
      ((a : Int) < intMax ∧ (b : Int) < intMax) ∧ NumbersFit segs

/-! ## The values of an item -/

section values

variable {s : Selection} {ds first second lead rest seg : List Char} {isNum isInterval : Bool}
  {a b v : Nat}

/-- A number read on from `v`. -/
def digitsFrom (v : Nat) (ds : List Char) : Nat :=
  ds.foldl (fun n c => 10 * n + (c.toNat - '0'.toNat)) v

theorem le_digitsFrom (v : Nat) (ds : List Char) : v ≤ digitsFrom v ds := by
  induction ds generalizing v with
  | nil => exact Nat.le_refl v
  | cons c ds ih =>
    have hnext := ih (10 * v + (c.toNat - '0'.toNat))
    unfold digitsFrom at hnext ⊢
    rw [List.foldl_cons]
    omega

theorem cInt_eq {v : Int} (hlow : 0 ≤ v) (hhigh : v ≤ intMax) : cInt v = v := by
  unfold intMax at hhigh
  exact Int.bmod_eq_of_le (by omega) (by omega)

theorem turn_values (s : Selection) (c : Char) : s.values ⊆ (s.turn c).values := by
  unfold Selection.turn
  split_ifs
  · exact List.subset_append_left _ _
  · exact List.Subset.refl _

theorem read_values (s : Selection) (lead : List Char) : s.values ⊆ (s.read lead).values := by
  induction lead generalizing s with
  | nil => exact List.Subset.refl _
  | cons c lead ih => exact fun x hx => ih _ (turn_values s c hx)

/-- Digits keep to an `int` just when the number does, which is then what has been read. -/
theorem read_digits_values (hdigits : ∀ c ∈ ds, c.isDigit = true) (hcur : s.curNum = v)
    (hv : (v : Int) ≤ intMax) :
    ((∀ x ∈ (s.read ds).values, InInt x) ↔
      (∀ x ∈ s.values, InInt x) ∧ (digitsFrom v ds : Int) ≤ intMax) ∧
    ((digitsFrom v ds : Int) ≤ intMax → (s.read ds).curNum = digitsFrom v ds) := by
  induction ds generalizing s v with
  | nil => exact ⟨by simp [digitsFrom, hv], fun _ => hcur⟩
  | cons c ds ih =>
    obtain ⟨hc, hds⟩ := List.forall_mem_cons.mp hdigits
    have hturn : s.turn c = s.digit c := if_pos hc
    have hfrom : digitsFrom v (c :: ds) = digitsFrom (10 * v + (c.toNat - '0'.toNat)) ds := rfl
    have hge := le_digitsFrom (10 * v + (c.toNat - '0'.toNat)) ds
    rw [read_cons, hturn, hfrom]
    by_cases hw : ((10 * v + (c.toNat - '0'.toNat) : Nat) : Int) ≤ intMax
    · have htimes : cInt (s.curNum * 10) = s.curNum * 10 := cInt_eq (by omega) (by omega)
      have hplus : cInt (cInt (s.curNum * 10) + (c.toNat - '0'.toNat : Nat)) =
          ((10 * v + (c.toNat - '0'.toNat) : Nat) : Int) := by
        rw [htimes, cInt_eq (by omega) (by omega)]
        omega
      obtain ⟨hvalues, hnum⟩ := ih (s := s.digit c) hds hplus hw
      refine ⟨?_, hnum⟩
      rw [hvalues]
      apply and_congr_left
      intro _
      have hold : InInt (s.curNum * 10) ∧
          InInt (cInt (s.curNum * 10) + (c.toNat - '0'.toNat : Nat)) := by
        rw [htimes]
        unfold InInt
        omega
      have hdigit : (s.digit c).values = s.values ++
          [s.curNum * 10, cInt (s.curNum * 10) + (c.toNat - '0'.toNat : Nat)] := rfl
      rw [hdigit, List.forall_mem_append]
      exact and_iff_left (by simpa using hold)
    · constructor
      · refine iff_of_false (fun hall => ?_) fun h => hw (by omega)
        have hin := fun x hx => hall x (read_values (s.digit c) ds hx)
        have htimes := hin (s.curNum * 10) (by simp [Selection.digit])
        have hplus := hin (cInt (s.curNum * 10) + (c.toNat - '0'.toNat : Nat))
          (by simp [Selection.digit])
        rw [cInt_eq (by omega) htimes.2] at hplus
        unfold InInt at hplus
        omega
      · intro h
        omega

theorem read_digits_intervalBeg (hdigits : ∀ c ∈ ds, c.isDigit = true) (s : Selection) :
    (s.read ds).intervalBeg = s.intervalBeg := by
  induction ds generalizing s with
  | nil => rfl
  | cons c ds ih =>
    obtain ⟨hc, hds⟩ := List.forall_mem_cons.mp hdigits
    have hturn : s.turn c = s.digit c := if_pos hc
    rw [read_cons, hturn, ih hds]
    rfl

theorem read_moduleNums (s : Selection) (lead : List Char) :
    (s.read lead).moduleNums = s.moduleNums := by
  induction lead generalizing s with
  | nil => rfl
  | cons c lead ih =>
    rw [read_cons, ih, Selection.turn]
    split_ifs <;> rfl

theorem takeWhile_stops (hstops : Stops isNum isInterval rest) :
    rest.takeWhile Char.isDigit = [] ∧ rest.dropWhile Char.isDigit = rest := by
  rcases hstops with rfl | ⟨c, rest, rfl, hc, -⟩
  · exact ⟨rfl, rfl⟩
  · simp [hc]

theorem takeWhile_digits (hdigits : ∀ c ∈ ds, c.isDigit = true)
    (hrest : rest.takeWhile Char.isDigit = [] ∧ rest.dropWhile Char.isDigit = rest) :
    (ds ++ rest).takeWhile Char.isDigit = ds ∧ (ds ++ rest).dropWhile Char.isDigit = rest := by
  rw [List.takeWhile_append_of_pos hdigits, List.dropWhile_append_of_pos hdigits, hrest.1, hrest.2,
    List.append_nil]
  exact ⟨rfl, rfl⟩

theorem takeWhile_dash (rest : List Char) :
    ('-' :: rest).takeWhile Char.isDigit = [] ∧
      ('-' :: rest).dropWhile Char.isDigit = '-' :: rest := by
  simp [isDigit_dash]

theorem leadingNumber_digits (hdigits : ∀ c ∈ ds, c.isDigit = true)
    (hrest : rest.takeWhile Char.isDigit = [] ∧ rest.dropWhile Char.isDigit = rest) :
    leadingNumber (ds ++ rest) = digitsFrom 0 ds := by
  rw [leadingNumber, (takeWhile_digits hdigits hrest).1]
  rfl

/-- Where a part starts with a number, only what follows a dash counts besides. -/
theorem leadFits_number (h : Number ds)
    (hrest : rest.takeWhile Char.isDigit = [] ∧ rest.dropWhile Char.isDigit = rest) :
    LeadFits (ds ++ rest) ↔ (digitsFrom 0 ds : Int) ≤ intMax ∧
      ∀ rest', rest = '-' :: rest' → (leadingNumber rest' : Int) ≤ intMax := by
  obtain ⟨htake, hdrop⟩ := takeWhile_digits h.2 hrest
  constructor
  · rintro ⟨hfirst, hsecond⟩
    rw [leadingNumber_digits h.2 hrest] at hfirst
    exact ⟨hfirst, fun rest' heq => hsecond rest' (hdrop.trans heq) (by rw [htake]; exact h.1)⟩
  · rintro ⟨hfirst, hsecond⟩
    rw [← leadingNumber_digits h.2 hrest] at hfirst
    exact ⟨hfirst, fun rest' heq _ => hsecond rest' (hdrop ▸ heq)⟩

theorem leadFits_interval (h : Number first) (h' : Number second)
    (hrest : rest.takeWhile Char.isDigit = [] ∧ rest.dropWhile Char.isDigit = rest) :
    LeadFits (first ++ '-' :: (second ++ rest)) ↔
      (digitsFrom 0 first : Int) ≤ intMax ∧ (digitsFrom 0 second : Int) ≤ intMax := by
  rw [leadFits_number h (takeWhile_dash _)]
  apply and_congr_right
  intro _
  rw [← leadingNumber_digits h'.2 hrest]
  exact ⟨fun hsecond => hsecond _ rfl, fun hsecond _ heq => (List.cons.inj heq).2 ▸ hsecond⟩

/-- The start of an item keeps to an `int` just when its numbers do. -/
theorem Lead.values (h : Lead lead isNum isInterval) (hs : Fresh s)
    (hstops : Stops isNum isInterval rest) :
    (∀ x ∈ (s.read lead).values, InInt x) ↔
      (∀ x ∈ s.values, InInt x) ∧ LeadFits (lead ++ rest) := by
  have hrest := takeWhile_stops hstops
  have hzero : ((0 : Nat) : Int) ≤ intMax := by decide
  have hread := fun ds hds => @read_digits_values s ds 0 hds hs.curNum hzero
  cases h with
  | start =>
    have hfits : LeadFits rest :=
      ⟨by rw [leadingNumber, hrest.1]; exact hzero, fun _ _ hne => absurd hrest.1 hne⟩
    simp [hfits]
  | number h =>
    rw [(hread _ h.2).1, leadFits_number h hrest]
    apply and_congr_right
    intro _
    refine (and_iff_left fun rest' heq => ?_).symm
    rcases hstops with hnil | ⟨c, rest, hcons, -, hdash⟩
    · rw [hnil] at heq
      cases heq
    · rw [hcons] at heq
      exact absurd ⟨(List.cons.inj heq).1, rfl, rfl⟩ hdash
  | @dash ds h =>
    have hvalues : (s.read ds).dash.values = (s.read ds).values := rfl
    rw [read_append, read_dash, List.append_assoc, List.singleton_append, hvalues,
      (hread _ h.2).1, leadFits_number h (takeWhile_dash rest)]
    apply and_congr_right
    intro _
    refine (and_iff_left fun rest' heq => ?_).symm
    rw [← (List.cons.inj heq).2, leadingNumber, hrest.1]
    exact hzero
  | @interval first second h h' =>
    have hturn : (s.read first).turn '-' = (s.read first).dash := rfl
    have hvalues : (s.read first).dash.values = (s.read first).values := rfl
    rw [read_append, read_cons, hturn, List.append_assoc, List.cons_append,
      (read_digits_values h'.2 rfl hzero).1, hvalues, (hread _ h.2).1, and_assoc,
      leadFits_interval h h' hrest]

/-- An item whose numbers are an `int` is read as it is written. -/
theorem Item.bounds (h : Item seg a b) (hs : Fresh s) (hfits : LeadFits seg) :
    (s.read seg).bounds = (((min a b : Nat) : Int), ((max a b : Nat) : Int)) := by
  have hzero : ((0 : Nat) : Int) ≤ intMax := by decide
  have hend : ([] : List Char).takeWhile Char.isDigit = [] ∧
      ([] : List Char).dropWhile Char.isDigit = [] := ⟨rfl, rfl⟩
  cases h with
  | number h =>
    rw [← List.append_nil seg, leadFits_number h hend] at hfits
    have hnum := (read_digits_values h.2 hs.curNum hzero).2 hfits.1
    have hflags := read_digits_flags h s
    rw [Selection.bounds, hflags.2, hs.isInterval, if_pos rfl, hnum, Nat.min_self, Nat.max_self]
    rfl
  | @interval first second h h' =>
    rw [← List.append_nil second, leadFits_interval h h' hend] at hfits
    have hnum := (read_digits_values h.2 hs.curNum hzero).2 hfits.1
    have hturn : (s.read first).turn '-' = (s.read first).dash := rfl
    have hnum' := (read_digits_values (s := (s.read first).dash) h'.2 rfl hzero).2 hfits.2
    have hflags := read_digits_flags h' (s.read first).dash
    have hbeg := read_digits_intervalBeg h'.2 (s.read first).dash
    have hdash : (s.read first).dash.isInterval = true ∧
        (s.read first).dash.intervalBeg = (s.read first).curNum := ⟨rfl, rfl⟩
    rw [read_append, read_cons, hturn, Selection.bounds, hflags.2, hnum', hbeg, hdash.1, hdash.2,
      hnum, if_neg (by simp)]
    have hfrom : ∀ ds, digitsFrom 0 ds = digitsValue ds := fun _ => rfl
    rw [hfrom, hfrom]
    split_ifs with hlt
    · rw [Nat.min_eq_right (by omega), Nat.max_eq_left (by omega)]
    · rw [Nat.min_eq_left (by omega), Nat.max_eq_right (by omega)]

end values

/-! ## The numbers of an item -/

section expand

variable {s : Selection} {seg : List Char} {a b : Nat} {ys : List Int} {next : Selection → Parsed}

theorem mem_intsTo {beg last y : Int} : y ∈ intsTo beg last ↔ beg ≤ y ∧ y ≤ last := by
  simp only [intsTo, List.mem_map, List.mem_range]
  constructor
  · rintro ⟨i, hi, rfl⟩
    omega
  · rintro ⟨hlow, hhigh⟩
    exact ⟨(y - beg).toNat, by omega, by omega⟩

theorem addNumber_moduleNums (h : s.moduleNums = ys.eraseDups) (y : Int) :
    (s.addNumber y).moduleNums = (ys ++ [y]).eraseDups := by
  have hiff : y ∈ s.moduleNums ↔ y ∈ ys := by rw [h, List.mem_eraseDups]
  rw [List.eraseDups_append, Selection.addNumber]
  by_cases hmem : y ∈ ys
  · rw [if_pos (hiff.mpr hmem)]
    simp [List.removeAll, hmem, h]
  · rw [if_neg fun hin => hmem (hiff.mp hin)]
    simp [List.removeAll, hmem, h, List.eraseDups_cons]

theorem addNumber_values (s : Selection) (y : Int) : (s.addNumber y).values = s.values := by
  unfold Selection.addNumber
  split_ifs <;> rfl

theorem foldl_moduleNums (h : s.moduleNums = ys.eraseDups) (l : List Int) :
    (l.foldl Selection.addNumber s).moduleNums = (ys ++ l).eraseDups := by
  induction l generalizing s ys with
  | nil => rw [List.foldl_nil, h, List.append_nil]
  | cons y l ih =>
    rw [List.foldl_cons, ih (addNumber_moduleNums h y), List.append_assoc, List.singleton_append]

theorem foldl_values (s : Selection) (l : List Int) :
    (l.foldl Selection.addNumber s).values = s.values := by
  induction l generalizing s with
  | nil => rfl
  | cons y l ih => rw [List.foldl_cons, ih, addNumber_values]

theorem expand_fresh (s : Selection) : Fresh s.expand := ⟨rfl, rfl, rfl⟩

theorem expand_values (s : Selection) :
    s.expand.values = s.values ++ intsTo s.bounds.1 (s.bounds.2 + 1) := by
  unfold Selection.expand
  simp only []
  rw [foldl_values]

theorem expand_moduleNums (h : s.moduleNums = ys.eraseDups) :
    s.expand.moduleNums = (ys ++ intsTo s.bounds.1 s.bounds.2).eraseDups :=
  foldl_moduleNums (s := { s with values := s.values ++ intsTo s.bounds.1 (s.bounds.2 + 1) }) h _

/-- An item that is not too large is expanded, and the line read on. -/
theorem Item.addNumbers (h : Item seg a b) (hs : Fresh s) (hfits : LeadFits seg)
    (hbelow : (a : Int) < intMax ∧ (b : Int) < intMax) :
    (s.read seg).addNumbers next = next (s.read seg).expand := by
  rw [Selection.addNumbers, h.bounds hs hfits, if_neg]
  omega

/-- The loop variable goes one beyond the item. -/
theorem Item.expand_values (h : Item seg a b) (hs : Fresh s) (hfits : LeadFits seg)
    (hold : ∀ x ∈ (s.read seg).values, InInt x) :
    (∀ x ∈ (s.read seg).expand.values, InInt x) ↔ (a : Int) < intMax ∧ (b : Int) < intMax := by
  rw [NemeaSupervisor.expand_values, h.bounds hs hfits, List.forall_mem_append, and_iff_right hold]
  constructor
  · intro hall
    have hlast := (hall (((max a b : Nat) : Int) + 1) (mem_intsTo.mpr (by omega))).2
    omega
  · intro hbelow x hx
    have hx := mem_intsTo.mp hx
    unfold InInt
    omega

theorem addNumbers_values (hnext : ∀ s, s.values ⊆ (next s).selection.values) (s : Selection) :
    s.values ⊆ (s.addNumbers next).selection.values := by
  have hexpand : s.values ⊆ s.expand.values := by
    rw [NemeaSupervisor.expand_values]
    exact List.subset_append_left _ _
  unfold Selection.addNumbers
  split_ifs
  · exact hexpand
  · exact fun x hx => hnext _ (hexpand hx)

/-- The values are kept to the end. -/
theorem parseLoop_values (line : List Char) (s : Selection) :
    s.values ⊆ (parseLoop line s).selection.values := by
  induction line generalizing s with
  | nil => exact List.Subset.refl _
  | cons c rest ih =>
    have hdigit : s.values ⊆ (s.digit c).values := List.subset_append_left _ _
    unfold parseLoop
    split_ifs
    · exact fun x hx => ih _ (hdigit hx)
    · exact fun x hx => addNumbers_values ih _ (hdigit hx)
    · exact List.Subset.refl _
    · exact List.Subset.refl _
    · exact addNumbers_values ih s
    · exact ih s.dash
    · exact List.Subset.refl _
    · exact List.Subset.refl _

/-- There is room for the numbers in the array. -/
def HasRoom (s : Selection) : Prop := s.moduleNums.length ≤ s.moduleNumsSize

theorem addNumber_room (h : HasRoom s) (y : Int) : HasRoom (s.addNumber y) := by
  unfold HasRoom Selection.addNumber at *
  split_ifs with hmem hfull
  · exact h
  · simp only [List.length_append, List.length_singleton]
    omega
  · simp only [List.length_append, List.length_singleton]
    omega

theorem expand_room (h : HasRoom s) : HasRoom s.expand := by
  have hloop : ∀ (l : List Int) (t : Selection), HasRoom t →
      HasRoom (l.foldl Selection.addNumber t) := by
    intro l
    induction l with
    | nil => exact fun _ ht => ht
    | cons y l ih => exact fun t ht => ih _ (addNumber_room ht y)
  exact hloop _ { s with values := s.values ++ intsTo s.bounds.1 (s.bounds.2 + 1) } h

theorem addNumbers_room (hnext : ∀ s, HasRoom s → HasRoom (next s).selection) (h : HasRoom s) :
    HasRoom (s.addNumbers next).selection := by
  unfold Selection.addNumbers
  split_ifs
  · exact expand_room h
  · exact hnext _ (expand_room h)

/-- No number is written behind the array, however many there are. -/
theorem parseLoop_room (line : List Char) (s : Selection) (h : HasRoom s) :
    HasRoom (parseLoop line s).selection := by
  induction line generalizing s with
  | nil => exact h
  | cons c rest ih =>
    unfold parseLoop
    split_ifs
    · exact ih _ h
    · exact addNumbers_room ih h
    · exact h
    · exact h
    · exact addNumbers_room ih h
    · exact ih _ h
    · exact h
    · exact h

end expand

/-! ## The parts of a line -/

section parts

variable {s : Selection} {seg lead rest : List Char} {segs : List (List Char)} {c : Char}
  {isNum isInterval : Bool} {a b : Nat} {ys : List Int}

theorem fresh_init : Fresh .init := ⟨rfl, rfl, rfl⟩

theorem addNumbers_ne_error (s : Selection) :
    (s.addNumbers fun s => ⟨.returned, s⟩).selected ≠ .error := by
  unfold Selection.addNumbers
  split_ifs <;> simp

/-- What is stopped is no item: the parser does not accept it. -/
theorem not_item_broken (h : Lead lead isNum isInterval) (hc : c.isDigit = false)
    (hcomma : c ≠ ',') (hdash : ¬ (c = '-' ∧ isNum = true ∧ isInterval = false)) :
    ¬ Item (lead ++ c :: rest) a b := fun hitem => by
  obtain ⟨isInterval', hlead⟩ := hitem.asLead
  have hfinish := hlead.finish fresh_init
  rw [h.broken fresh_init hc hcomma hdash] at hfinish
  exact addNumbers_ne_error _ (congrArg Parsed.selected hfinish).symm

theorem not_item_open (h : Lead seg false isInterval) : ¬ Item seg a b := fun hitem => by
  obtain ⟨isInterval', hlead⟩ := hitem.asLead
  have hflag := (h.flags fresh_init).1
  rw [(hlead.flags fresh_init).1] at hflag
  simp at hflag

theorem intercalate_eq_nil (h : segs ≠ []) : [','].intercalate segs = [] ↔ segs = [[]] := by
  match segs, h with
  | [seg], _ => simp
  | seg :: seg' :: segs, _ => simp

/-- What the parser does with the first part of a line. -/
inductive FirstPart (s : Selection) (segs : List (List Char)) : List Char → Parsed → Prop
  | broken {lead rest : List Char} {c : Char} {isNum isInterval : Bool}
    (h : Lead lead isNum isInterval) (hc : c.isDigit = false)
    (hdash : ¬ (c = '-' ∧ isNum = true ∧ isInterval = false))
    (hno : ∀ a b, ¬ Item (lead ++ c :: rest) a b) :
    FirstPart s segs (lead ++ c :: rest) ⟨.error, s.read lead⟩
  | opened {seg : List Char} {isInterval : Bool} (h : Lead seg false isInterval) (hsegs : segs ≠ [])
    (hno : ∀ a b, ¬ Item seg a b) : FirstPart s segs seg ⟨.error, s.read seg⟩
  | dangling {ds : List Char} (h : Number ds) (hsegs : segs = [])
    (hno : ∀ a b, ¬ Item (ds ++ ['-']) a b) :
    FirstPart s segs (ds ++ ['-']) ⟨.returned, s.read (ds ++ ['-'])⟩
  | comma {seg : List Char} {a b : Nat} (h : Item seg a b) (hsegs : segs = [[]]) :
    FirstPart s segs seg ⟨.error, s.read seg⟩
  | last {seg : List Char} {a b : Nat} (h : Item seg a b) (hsegs : segs = []) :
    FirstPart s segs seg ((s.read seg).addNumbers fun s => ⟨.returned, s⟩)
  | more {seg : List Char} {a b : Nat} (h : Item seg a b) (hsegs : segs ≠ [])
    (hcomma : segs ≠ [[]]) :
    FirstPart s segs seg ((s.read seg).addNumbers fun s => parseLoop ([','].intercalate segs) s)

theorem parseLoop_firstPart (hs : Fresh s) (hcommas : ',' ∉ seg)
    (hnil : seg = [] → segs ≠ []) :
    FirstPart s segs seg (parseLoop ([','].intercalate (seg :: segs)) s) := by
  obtain ⟨lead, isNum, isInterval, rest, hlead, rfl, hstops⟩ := exists_lead seg
  rcases hstops with rfl | ⟨c, rest, rfl, hc, hdash⟩
  · rw [List.append_nil] at hcommas hnil ⊢
    have hseparated : ∀ seg' segs', segs = seg' :: segs' → parseLoop ([','].intercalate
        (lead :: segs)) s = if segs = [[]] ∨ isNum = false then ⟨.error, s.read lead⟩
          else (s.read lead).addNumbers fun s => parseLoop ([','].intercalate segs) s := by
      rintro seg' segs' rfl
      rw [List.intercalate_cons_cons, List.append_assoc, List.singleton_append, hlead.comma hs]
      simp only [intercalate_eq_nil (List.cons_ne_nil seg' segs')]
    cases isNum with
    | false =>
      have hno : ∀ a b, ¬ Item lead a b := fun _ _ => not_item_open hlead
      cases segs with
      | nil =>
        rw [List.intercalate_singleton]
        cases hlead with
        | start => exact absurd rfl (hnil rfl)
        | @dash ds h =>
          have hloop := (Lead.number h).loop hs (List.cons_ne_nil '-' [])
          have hflags := (Lead.number h).flags hs
          have hend : parseLoop [] (s.read ds).dash = ⟨.returned, s.read (ds ++ ['-'])⟩ := by
            rw [read_append, parseLoop]
            rfl
          rw [hloop, parseLoop_dash hflags.1 hflags.2, hend]
          exact .dangling h rfl hno
      | cons seg' segs' =>
        rw [hseparated seg' segs' rfl, if_pos (.inr rfl)]
        exact .opened hlead (by simp) hno
    | true =>
      obtain ⟨a, b, hitem⟩ := hlead.item
      cases segs with
      | nil =>
        rw [List.intercalate_singleton, hlead.finish hs]
        exact .last hitem rfl
      | cons seg' segs' =>
        rw [hseparated seg' segs' rfl]
        by_cases hcomma : seg' :: segs' = [[]]
        · rw [if_pos (.inl hcomma)]
          exact .comma hitem hcomma
        · rw [if_neg (by simp [hcomma])]
          exact .more hitem (by simp) hcomma
  · have hcomma : c ≠ ',' := fun heq => hcommas (by simp [heq])
    have hno : ∀ a b, ¬ Item (lead ++ c :: rest) a b :=
      fun _ _ => not_item_broken hlead hc hcomma hdash
    have hline : ∃ more, [','].intercalate ((lead ++ c :: rest) :: segs) = lead ++ c :: more := by
      cases segs with
      | nil => exact ⟨rest, by simp⟩
      | cons seg' segs' =>
        exact ⟨rest ++ ',' :: [','].intercalate (seg' :: segs'),
          by simp [List.intercalate_cons_cons]⟩
    obtain ⟨more, hmore⟩ := hline
    rw [hmore, hlead.broken hs hc hcomma hdash]
    exact .broken hlead hc hdash hno

end parts

/-! ## The grammar -/

/-- The parts are items but for the last, which is a number with a dash. -/
def EndsOpen (segs : List (List Char)) (ranges : List (Nat × Nat)) : Prop :=
  ∃ items ds, segs = items ++ [ds ++ ['-']] ∧ Items items ranges ∧ Number ds

/-- How the parser answers the parts of a line, where `ys` have been selected before. -/
inductive Answer (ys : List Int) (segs : List (List Char)) (p : Parsed) : Prop
  | items {ranges : List (Nat × Nat)} (h : Items segs ranges)
    (hp : p.array = some (ys ++ ranges.flatMap interval).eraseDups)
  | opened {ranges : List (Nat × Nat)} (h : EndsOpen segs ranges)
    (hp : p.array = some (ys ++ ranges.flatMap interval).eraseDups)
  | error (hitems : ∀ ranges, ¬ Items segs ranges) (hopen : ∀ ranges, ¬ EndsOpen segs ranges)
    (hp : p.selected = .error)

section answers

variable {s : Selection} {seg : List Char} {segs : List (List Char)} {a b : Nat} {ys : List Int}
  {p : Parsed} {ranges : List (Nat × Nat)}

theorem items_cons : Items (seg :: segs) ranges ↔
    ∃ a b rest, ranges = (a, b) :: rest ∧ Item seg a b ∧ Items segs rest := by
  constructor
  · intro h
    cases h with
    | cons hitem hitems => exact ⟨_, _, _, rfl, hitem, hitems⟩
  · rintro ⟨a, b, rest, rfl, hitem, hitems⟩
    exact .cons hitem hitems

theorem not_item_nil : ¬ Item [] a b := fun h => by
  obtain ⟨isInterval, hlead⟩ := h.asLead
  have hflag := (hlead.flags fresh_init).1
  simp [Selection.init] at hflag

theorem endsOpen_cons (hne : segs ≠ []) : EndsOpen (seg :: segs) ranges ↔
    ∃ a b rest, ranges = (a, b) :: rest ∧ Item seg a b ∧ EndsOpen segs rest := by
  constructor
  · rintro ⟨items, ds, heq, hitems, hds⟩
    cases items with
    | nil => exact absurd (List.cons.inj heq).2 hne
    | cons item items =>
      obtain ⟨rfl, rfl⟩ := List.cons.inj heq
      obtain ⟨a, b, rest, rfl, hitem, hitems⟩ := items_cons.mp hitems
      exact ⟨a, b, rest, rfl, hitem, items, ds, rfl, hitems, hds⟩
  · rintro ⟨a, b, rest, rfl, hitem, items, ds, rfl, hitems, hds⟩
    exact ⟨seg :: items, ds, rfl, items_cons.mpr ⟨a, b, rest, rfl, hitem, hitems⟩, hds⟩

/-- A first part that is no item, with more after it, is an error. -/
theorem Answer.not_item (hno : ∀ a b, ¬ Item seg a b) (hp : p.selected = .error)
    (hopen : ∀ ranges, ¬ EndsOpen (seg :: segs) ranges) : Answer ys (seg :: segs) p := by
  refine .error (fun ranges h => ?_) hopen hp
  obtain ⟨a, b, rest, -, hitem, -⟩ := items_cons.mp h
  exact hno a b hitem

theorem array_returned (s : Selection) : Parsed.array ⟨.returned, s⟩ = some s.moduleNums := rfl

/-- An item in front adds its integers. -/
theorem Answer.cons (h : Answer (ys ++ interval (a, b)) segs p) (hitem : Item seg a b)
    (hne : segs ≠ []) : Answer ys (seg :: segs) p := by
  cases h with
  | items h hp =>
    refine .items (items_cons.mpr ⟨a, b, _, rfl, hitem, h⟩) ?_
    rw [hp, List.flatMap_cons, List.append_assoc]
  | opened h hp =>
    refine .opened ((endsOpen_cons hne).mpr ⟨a, b, _, rfl, hitem, h⟩) ?_
    rw [hp, List.flatMap_cons, List.append_assoc]
  | error hitems hopen hp =>
    refine .error (fun ranges h => ?_) (fun ranges h => ?_) hp
    · obtain ⟨_, _, rest, -, -, h⟩ := items_cons.mp h
      exact hitems rest h
    · obtain ⟨_, _, rest, -, -, h⟩ := (endsOpen_cons hne).mp h
      exact hopen rest h

theorem endsOpen_one :
    EndsOpen [seg] ranges ↔ ranges = [] ∧ ∃ ds, seg = ds ++ ['-'] ∧ Number ds := by
  constructor
  · rintro ⟨items, ds, heq, hitems, hds⟩
    cases items with
    | nil =>
      cases hitems
      exact ⟨rfl, ds, (List.cons.inj heq).1, hds⟩
    | cons item items => simp at heq
  · rintro ⟨rfl, ds, rfl, hds⟩
    exact ⟨[], ds, rfl, .nil, hds⟩

/-- A number with a dash is not stopped: the parser accepts it at the end of a line. -/
theorem not_dangling_broken {lead rest ds : List Char} {c : Char} {isNum isInterval : Bool}
    (h : Lead lead isNum isInterval) (hc : c.isDigit = false) (hcomma : c ≠ ',')
    (hdash : ¬ (c = '-' ∧ isNum = true ∧ isInterval = false)) (hds : Number ds) :
    lead ++ c :: rest ≠ ds ++ ['-'] := fun heq => by
  have hbroken : parseLoop (lead ++ c :: rest) .init = ⟨.error, Selection.init.read lead⟩ :=
    h.broken fresh_init hc hcomma hdash
  have hflags := (Lead.number hds).flags fresh_init
  rw [heq, (Lead.number hds).loop fresh_init (by simp), parseLoop_dash hflags.1 hflags.2,
    parseLoop] at hbroken
  exact absurd (congrArg Parsed.selected hbroken) (by simp)

/-- The parser follows the parts of a line whose numbers fit. -/
theorem parseLoop_answer (hs : Fresh s) (hys : s.moduleNums = ys.eraseDups)
    (hcommas : ∀ seg ∈ segs, ',' ∉ seg) (hne : segs ≠ []) (hnil : segs ≠ [[]])
    (hfits : NumbersFit segs) : Answer ys segs (parseLoop ([','].intercalate segs) s) := by
  induction segs generalizing s ys with
  | nil => exact absurd rfl hne
  | cons seg segs ih =>
    obtain ⟨hcomma, hcommas⟩ := List.forall_mem_cons.mp hcommas
    obtain ⟨hlead, hitems⟩ := hfits
    have hfirst : FirstPart s segs seg (parseLoop ([','].intercalate (seg :: segs)) s) :=
      parseLoop_firstPart hs hcomma fun hseg hsegs => hnil (by rw [hseg, hsegs])
    generalize parseLoop ([','].intercalate (seg :: segs)) s = p at hfirst
    cases hfirst with
    | broken h hc hdash hno =>
      refine .not_item hno rfl fun ranges hopen => ?_
      by_cases hsegs : segs = []
      · subst hsegs
        obtain ⟨-, ds, heq, hds⟩ := endsOpen_one.mp hopen
        exact not_dangling_broken h hc (fun hc => hcomma (by simp [hc])) hdash hds heq
      · obtain ⟨a, b, rest, -, hitem, -⟩ := (endsOpen_cons hsegs).mp hopen
        exact hno a b hitem
    | opened h hsegs hno =>
      refine .not_item hno rfl fun ranges hopen => ?_
      obtain ⟨a, b, rest, -, hitem, -⟩ := (endsOpen_cons hsegs).mp hopen
      exact hno a b hitem
    | @dangling ds h hsegs hno =>
      subst hsegs
      refine .opened (endsOpen_one.mpr ⟨rfl, ds, rfl, h⟩) ?_
      rw [array_returned, read_moduleNums, hys, List.flatMap_nil, List.append_nil]
    | comma h hsegs =>
      subst hsegs
      refine .error (fun ranges hr => ?_) (fun ranges hr => ?_) rfl
      · obtain ⟨_, _, _, -, -, hrest⟩ := items_cons.mp hr
        obtain ⟨_, _, _, -, hempty, -⟩ := items_cons.mp hrest
        exact not_item_nil hempty
      · obtain ⟨_, _, _, -, -, hrest⟩ := (endsOpen_cons (by simp)).mp hr
        obtain ⟨-, ds, heq, -⟩ := endsOpen_one.mp hrest
        simp at heq
    | @last _ a b h hsegs =>
      subst hsegs
      obtain ⟨hbelow, -⟩ := hitems a b h (by simp)
      have hnums : (s.read seg).moduleNums = ys.eraseDups := (read_moduleNums s seg).trans hys
      rw [h.addNumbers hs hlead hbelow]
      refine .items (items_cons.mpr ⟨a, b, [], rfl, h, .nil⟩) ?_
      rw [array_returned, expand_moduleNums hnums, h.bounds hs hlead, List.flatMap_singleton]
      rfl
    | @more _ a b h hsegs hsegs' =>
      obtain ⟨hbelow, hrest⟩ := hitems a b h hsegs'
      have hnums : (s.read seg).moduleNums = ys.eraseDups := (read_moduleNums s seg).trans hys
      have hexpanded := expand_moduleNums hnums
      rw [h.bounds hs hlead] at hexpanded
      rw [h.addNumbers hs hlead hbelow]
      exact (ih (expand_fresh _) hexpanded hcommas hsegs hsegs' hrest).cons h hsegs

theorem expand_subset {next : Selection → Parsed}
    (hnext : ∀ s, s.values ⊆ (next s).selection.values) (s : Selection) :
    s.expand.values ⊆ (s.addNumbers next).selection.values := by
  unfold Selection.addNumbers
  split_ifs
  · exact List.Subset.refl _
  · exact hnext _

/-- An item keeps to an `int` just when its numbers fit, and then what follows decides. -/
theorem Item.addNumbers_values {next : Selection → Parsed} {Rest : Prop} (h : Item seg a b)
    (hs : Fresh s) (hnext : ∀ s, s.values ⊆ (next s).selection.values)
    (hrest : (∀ x ∈ (next (s.read seg).expand).selection.values, InInt x) ↔
      (∀ x ∈ (s.read seg).expand.values, InInt x) ∧ Rest) :
    (∀ x ∈ ((s.read seg).addNumbers next).selection.values, InInt x) ↔
      (∀ x ∈ s.values, InInt x) ∧ LeadFits seg ∧
        ∀ a b, Item seg a b → ((a : Int) < intMax ∧ (b : Int) < intMax) ∧ Rest := by
  obtain ⟨isInterval, hlead⟩ := h.asLead
  have hread := hlead.values hs (.inl (Eq.refl []))
  rw [List.append_nil] at hread
  rw [← and_assoc, ← hread]
  constructor
  · intro hall
    have hold : ∀ x ∈ (s.read seg).values, InInt x :=
      fun x hx => hall x (NemeaSupervisor.addNumbers_values hnext _ hx)
    have hexpand : ∀ x ∈ (s.read seg).expand.values, InInt x :=
      fun x hx => hall x (expand_subset hnext _ hx)
    have hfits := (hread.mp hold).2
    refine ⟨hold, fun a' b' h' => ?_⟩
    have hbelow := (h'.expand_values hs hfits hold).mp hexpand
    rw [h'.addNumbers hs hfits hbelow] at hall
    exact ⟨hbelow, (hrest.mp hall).2⟩
  · rintro ⟨hold, hitem⟩
    have hfits := (hread.mp hold).2
    obtain ⟨hbelow, hok⟩ := hitem a b h
    rw [h.addNumbers hs hfits hbelow]
    exact hrest.mpr ⟨(h.expand_values hs hfits hold).mpr hbelow, hok⟩

/-- The loop keeps to an `int` just when the numbers of the parts fit. -/
theorem parseLoop_inInt (hs : Fresh s) (hcommas : ∀ seg ∈ segs, ',' ∉ seg) (hne : segs ≠ [])
    (hnil : segs ≠ [[]]) :
    (∀ x ∈ (parseLoop ([','].intercalate segs) s).selection.values, InInt x) ↔
      (∀ x ∈ s.values, InInt x) ∧ NumbersFit segs := by
  induction segs generalizing s with
  | nil => exact absurd rfl hne
  | cons seg segs ih =>
    obtain ⟨hcomma, hcommas⟩ := List.forall_mem_cons.mp hcommas
    have hfirst : FirstPart s segs seg (parseLoop ([','].intercalate (seg :: segs)) s) :=
      parseLoop_firstPart hs hcomma fun hseg hsegs => hnil (by rw [hseg, hsegs])
    have hnone : (∀ a b, ¬ Item seg a b) → (NumbersFit (seg :: segs) ↔ LeadFits seg) :=
      fun hno => and_iff_left fun a b h => absurd h (hno a b)
    generalize parseLoop ([','].intercalate (seg :: segs)) s = p at hfirst
    cases hfirst with
    | broken h hc hdash hno =>
      rw [hnone hno]
      exact h.values hs (.inr ⟨_, _, rfl, hc, hdash⟩)
    | opened h hsegs hno =>
      have hvalues := h.values hs (.inl (Eq.refl []))
      rwa [List.append_nil, ← hnone hno] at hvalues
    | dangling h hsegs hno =>
      have hvalues := (Lead.dash h).values hs (.inl (Eq.refl []))
      rwa [List.append_nil, ← hnone hno] at hvalues
    | comma h hsegs =>
      obtain ⟨isInterval, hlead⟩ := h.asLead
      have hvalues := hlead.values hs (.inl (Eq.refl []))
      rw [List.append_nil] at hvalues
      rw [hvalues, NumbersFit]
      exact and_congr_right fun _ => (and_iff_left fun _ _ _ hne => absurd hsegs hne).symm
    | last h hsegs =>
      subst hsegs
      have hnext : ∀ s : Selection, s.values ⊆ (Parsed.mk .returned s).selection.values :=
        fun s => List.Subset.refl _
      have hrest : (∀ x ∈ (Parsed.mk .returned (s.read seg).expand).selection.values, InInt x) ↔
          (∀ x ∈ (s.read seg).expand.values, InInt x) ∧ NumbersFit [] := by
        simp [NumbersFit]
      have hvalues := h.addNumbers_values hs hnext hrest
      simpa [NumbersFit] using hvalues
    | more h hsegs hsegs' =>
      have hvalues := h.addNumbers_values hs (fun s => parseLoop_values ([','].intercalate segs) s)
        (ih (expand_fresh _) hcommas hsegs hsegs')
      simpa [NumbersFit, hsegs'] using hvalues

end answers

/-! ## Lines -/

section lines

variable {line seg : List Char} {segs : List (List Char)} {ranges : List (Nat × Nat)}

theorem not_mem_splitOn (line : List Char) : ∀ seg ∈ line.splitOn ',', ',' ∉ seg := by
  induction line with
  | nil => simp
  | cons c line ih =>
    rw [List.splitOn_cons_eq_if_modifyHead]
    cases hsplit : line.splitOn ',' with
    | nil => exact absurd hsplit (List.splitOn_ne_nil _ _)
    | cons seg segs =>
      rw [hsplit] at ih
      obtain ⟨hseg, hsegs⟩ := List.forall_mem_cons.mp ih
      split_ifs with hc
      · exact List.forall_mem_cons.mpr ⟨by simp, ih⟩
      · have hne : ',' ≠ c := fun heq => hc (by simp [← heq])
        exact List.forall_mem_cons.mpr ⟨by simp [hne, hseg], hsegs⟩

theorem Item.no_comma {a b : Nat} (h : Item seg a b) : ',' ∉ seg := by
  have hdigits : ∀ {ds : List Char}, Number ds → ',' ∉ ds := fun hds hmem => by
    have hcomma := hds.2 _ hmem
    simp [isDigit_comma] at hcomma
  cases h with
  | number h => exact hdigits h
  | interval h h' => simp [hdigits h, hdigits h']

theorem Items.no_comma (h : Items segs ranges) : ∀ seg ∈ segs, ',' ∉ seg := by
  induction h with
  | nil => simp
  | cons hitem _ ih => exact List.forall_mem_cons.mpr ⟨hitem.no_comma, ih⟩

theorem denotes_iff {nums : List Int} : Denotes line nums ↔
    ∃ ranges, Items (line.splitOn ',') ranges ∧ nums = (ranges.flatMap interval).eraseDups := by
  constructor
  · rintro ⟨segs, ranges, hne, rfl, hitems, hnums⟩
    rw [List.splitOn_intercalate ',' hitems.no_comma hne]
    exact ⟨ranges, hitems, hnums⟩
  · rintro ⟨ranges, hitems, hnums⟩
    exact ⟨_, ranges, List.splitOn_ne_nil _ _, (List.intercalate_splitOn ',').symm, hitems, hnums⟩

theorem dangling_iff : Dangling line ↔ ∃ ranges, EndsOpen (line.splitOn ',') ranges := by
  constructor
  · rintro ⟨segs, ranges, ds, rfl, hitems, hds⟩
    have hlast : ',' ∉ ds ++ ['-'] := by simp [(Item.number hds).no_comma]
    rw [List.splitOn_intercalate ',' _ (by simp)]
    · exact ⟨ranges, segs, ds, rfl, hitems, hds⟩
    · intro seg hseg
      rcases List.mem_append.mp hseg with hseg | hseg
      · exact hitems.no_comma seg hseg
      · rwa [List.mem_singleton.mp hseg]
  · rintro ⟨ranges, segs, ds, heq, hitems, hds⟩
    exact ⟨segs, ranges, ds, by rw [← heq, List.intercalate_splitOn], hitems, hds⟩

theorem splitOn_eq_nil : line.splitOn ',' = [[]] ↔ line = [] := by
  constructor
  · intro h
    have hline : [','].intercalate (line.splitOn ',') = line := List.intercalate_splitOn ','
    rw [← hline, h, List.intercalate_singleton]
  · rintro rfl
    rfl

/-- A line that ends with a dash is no list of items. -/
theorem not_items_endsOpen {ranges' : List (Nat × Nat)} (h : EndsOpen segs ranges) :
    ¬ Items segs ranges' := by
  obtain ⟨items, ds, rfl, -, hds⟩ := h
  intro hitems
  induction items generalizing ranges' with
  | nil =>
    obtain ⟨a, b, -, -, hitem, -⟩ := items_cons.mp hitems
    exact not_item_open (Lead.dash hds) hitem
  | cons item items ih =>
    obtain ⟨-, -, rest, -, -, hrest⟩ := items_cons.mp hitems
    exact ih hrest

theorem infix_intercalate (h : seg ∈ segs) : seg <:+: [','].intercalate segs := by
  induction segs with
  | nil => exact absurd h List.not_mem_nil
  | cons seg' segs ih =>
    cases segs with
    | nil =>
      obtain rfl := List.mem_singleton.mp h
      exact List.intercalate_singleton.symm ▸ List.infix_refl seg
    | cons seg'' segs =>
      rw [List.intercalate_cons_cons]
      rcases List.mem_cons.mp h with rfl | h
      · rw [List.append_assoc]
        exact (List.prefix_append _ _).isInfix
      · exact (ih h).trans (List.suffix_append _ _).isInfix

/-- Numbers that are all below `INT_MAX` fit. -/
theorem leadFits_of_below (h : ∀ ds, Number ds → ds <:+: seg → digitsValue ds < 2147483647) :
    LeadFits seg := by
  have hlead : ∀ text, text <:+: seg → (leadingNumber text : Int) ≤ intMax := by
    intro text htext
    unfold leadingNumber intMax
    by_cases hnil : text.takeWhile Char.isDigit = []
    · rw [hnil]
      decide
    · have hbelow := h _ ⟨hnil, fun c hc => List.mem_takeWhile_imp hc⟩
        ((List.takeWhile_prefix _).isInfix.trans htext)
      omega
  refine ⟨hlead seg (List.infix_refl seg), fun rest heq _ => hlead rest ?_⟩
  have hdrop : '-' :: rest <:+ seg := heq ▸ List.dropWhile_suffix _
  exact ((List.suffix_cons '-' rest).trans hdrop).isInfix

theorem Item.below {a b : Nat} (h : Item seg a b)
    (hbelow : ∀ ds, Number ds → ds <:+: seg → digitsValue ds < 2147483647) :
    (a : Int) < intMax ∧ (b : Int) < intMax := by
  unfold intMax
  cases h with
  | number h =>
    have ha := hbelow _ h (List.infix_refl _)
    omega
  | @interval first second h h' =>
    have ha := hbelow _ h (List.prefix_append _ _).isInfix
    have hb := hbelow _ h' ⟨first ++ ['-'], [], by simp⟩
    omega

theorem numbersFit_of_below
    (h : ∀ seg ∈ segs, ∀ ds, Number ds → ds <:+: seg → digitsValue ds < 2147483647) :
    NumbersFit segs := by
  induction segs with
  | nil => trivial
  | cons seg segs ih =>
    obtain ⟨hseg, hsegs⟩ := List.forall_mem_cons.mp h
    exact ⟨leadFits_of_below hseg, fun a b hitem _ => ⟨hitem.below hseg, ih hsegs⟩⟩

theorem NumbersBelow.fit (h : NumbersBelow line) : NumbersFit (line.splitOn ',') := by
  refine numbersFit_of_below fun seg hseg ds hds hinside => h ds hds (hinside.trans ?_)
  have hline := infix_intercalate hseg
  rwa [List.intercalate_splitOn] at hline

/-- How the parser answers a line whose numbers fit. -/
theorem parseNumbersUserSelection_answer (h : NumbersFit (line.splitOn ',')) :
    Answer [] (line.splitOn ',') (parseNumbersUserSelection (some line)) := by
  unfold parseNumbersUserSelection
  by_cases hnil : line = []
  · subst hnil
    refine .not_item (fun _ _ => not_item_nil) rfl fun ranges hopen => ?_
    obtain ⟨-, ds, heq, -⟩ := endsOpen_one.mp hopen
    simp at heq
  · have hanswer : Answer [] (line.splitOn ',')
        (parseLoop ([','].intercalate (line.splitOn ',')) .init) :=
      parseLoop_answer fresh_init rfl (not_mem_splitOn line) (List.splitOn_ne_nil _ _)
        (fun heq => hnil (splitOn_eq_nil.mp heq)) h
    rw [List.intercalate_splitOn] at hanswer
    simpa [hnil] using hanswer

theorem Answer.not_endless {ys : List Int} {p : Parsed} (h : Answer ys segs p) :
    p.selected ≠ .endless := by
  cases h with
  | items _ hp =>
    intro heq
    simp [Parsed.array, heq] at hp
  | opened _ hp =>
    intro heq
    simp [Parsed.array, heq] at hp
  | error _ _ hp => simp [hp]

end lines

/-- A line whose numbers are all below `INT_MAX` is answered as the grammar asks unless it ends with
a number and a dash. -/
theorem parseNumbersUserSelection_grammar (line : List Char) (h : NumbersBelow line) :
    FollowsGrammar line (parseNumbersUserSelection (some line)) ↔ ¬ Dangling line := by
  rw [FollowsGrammar, dangling_iff]
  simp only [denotes_iff]
  cases parseNumbersUserSelection_answer h.fit with
  | items hitems hp =>
    refine iff_of_true (.inl ⟨_, ⟨_, hitems, rfl⟩, hp⟩) ?_
    rintro ⟨ranges, hopen⟩
    exact not_items_endsOpen hopen hitems
  | opened hopen hp =>
    refine iff_of_false ?_ fun hno => hno ⟨_, hopen⟩
    rintro (⟨-, ⟨ranges, hitems, -⟩, -⟩ | ⟨-, herror⟩)
    · exact not_items_endsOpen hopen hitems
    · simp [Parsed.array, herror] at hp
  | error hitems hopen hp =>
    refine iff_of_true (.inr ⟨?_, hp⟩) ?_
    · rintro ⟨-, ranges, h, -⟩
      exact hitems ranges h
    · rintro ⟨ranges, h⟩
      exact hopen ranges h

theorem numbersBelow_short {line : List Char} (h : line.length ≤ 9) : NumbersBelow line := by
  intro ds hds hinside
  have hlen : ds.length ≤ 9 := hinside.length_le.trans h
  have hpow : 10 ^ ds.length ≤ 10 ^ 9 := Nat.pow_le_pow_right (by decide) hlen
  have hvalue := digitsValue_lt hds.2
  omega

theorem parseNumbersUserSelection_grammar_one :
    FollowsGrammar "3-1,2".toList (parseNumbersUserSelection (some "3-1,2".toList)) ↔
      ¬ Dangling "3-1,2".toList :=
  parseNumbersUserSelection_grammar _ (numbersBelow_short (by decide))

/-- A number is missing, and the line is accepted. -/
theorem not_parseNumbersUserSelection_grammar :
    ¬ ∀ line, NumbersBelow line →
      FollowsGrammar line (parseNumbersUserSelection (some line)) := by
  intro h
  rcases h "3-".toList (numbersBelow_short (by decide)) with ⟨nums, hdenotes, -⟩ | ⟨-, herror⟩
  · obtain ⟨ranges, hitems, -⟩ := denotes_iff.mp hdenotes
    have hopen : EndsOpen ["3-".toList] [] :=
      endsOpen_one.mpr ⟨rfl, ['3'], rfl, by decide, by simp⟩
    exact not_items_endsOpen hopen hitems
  · exact absurd herror (by decide)

/-! ## Numbers that are too large -/

/-- All values stay within an `int`, the loop over an interval ends, and every number selected lies
in an item as it was typed. -/
structure SelectsTyped (line : List Char) (p : Parsed) : Prop where
  inInt : ∀ v ∈ p.selection.values, InInt v
  ends : p.selected ≠ .endless
  typed : ∀ nums, p.array = some nums → ∀ n ∈ nums, ∃ seg ∈ line.splitOn ',', ∃ a b,
    Item seg a b ∧ ((min a b : Nat) : Int) ≤ n ∧ n ≤ ((max a b : Nat) : Int)

theorem Items.mem {segs : List (List Char)} {ranges : List (Nat × Nat)} (h : Items segs ranges)
    {n : Int} (hn : n ∈ ranges.flatMap interval) : ∃ seg ∈ segs, ∃ a b,
      Item seg a b ∧ ((min a b : Nat) : Int) ≤ n ∧ n ≤ ((max a b : Nat) : Int) := by
  induction h with
  | nil => simp at hn
  | @cons seg r segs ranges hitem _ ih =>
    rw [List.flatMap_cons, List.mem_append] at hn
    rcases hn with hn | hn
    · have hbounds := mem_intsTo.mp hn
      exact ⟨seg, by simp, r.1, r.2, hitem, hbounds⟩
    · obtain ⟨seg', hseg', hrest⟩ := ih hn
      exact ⟨seg', List.mem_cons_of_mem _ hseg', hrest⟩

theorem Answer.typed {segs : List (List Char)} {p : Parsed} (h : Answer [] segs p)
    {nums : List Int} (hnums : p.array = some nums) {n : Int} (hn : n ∈ nums) :
    ∃ seg ∈ segs, ∃ a b, Item seg a b ∧ ((min a b : Nat) : Int) ≤ n ∧
      n ≤ ((max a b : Nat) : Int) := by
  cases h with
  | items hitems hp =>
    rw [hp, Option.some.injEq] at hnums
    rw [← hnums, List.mem_eraseDups, List.nil_append] at hn
    exact hitems.mem hn
  | opened hopen hp =>
    rw [hp, Option.some.injEq] at hnums
    rw [← hnums, List.mem_eraseDups, List.nil_append] at hn
    obtain ⟨items, ds, rfl, hitems, -⟩ := hopen
    obtain ⟨seg, hseg, hrest⟩ := hitems.mem hn
    exact ⟨seg, List.mem_append_left _ hseg, hrest⟩
  | error _ _ hp => simp [Parsed.array, hp] at hnums

/-- The numbers selected are those typed, without an overflow, just when the numbers of the line
fit. -/
theorem parseNumbersUserSelection_typed (line : List Char) :
    SelectsTyped line (parseNumbersUserSelection (some line)) ↔ NumbersFit (line.splitOn ',') := by
  constructor
  · intro h
    by_cases hnil : line = []
    · subst hnil
      exact ⟨leadFits_of_below fun ds hds hinside => absurd (List.infix_nil.mp hinside) hds.1,
        fun a b hitem => absurd hitem not_item_nil⟩
    · have hloop := parseLoop_inInt fresh_init (not_mem_splitOn line) (List.splitOn_ne_nil _ _)
        fun heq => hnil (splitOn_eq_nil.mp heq)
      have hinInt := h.inInt
      rw [parseNumbersUserSelection] at hinInt
      simp only [if_neg hnil] at hinInt
      rw [List.intercalate_splitOn] at hloop
      exact (hloop.mp hinInt).2
  · intro h
    have hanswer := parseNumbersUserSelection_answer h
    refine ⟨?_, hanswer.not_endless, fun nums hnums n hn => hanswer.typed hnums hn⟩
    unfold parseNumbersUserSelection
    by_cases hnil : line = []
    · simp [hnil, Selection.init]
    · have hloop := parseLoop_inInt fresh_init (not_mem_splitOn line) (List.splitOn_ne_nil _ _)
        fun heq => hnil (splitOn_eq_nil.mp heq)
      rw [List.intercalate_splitOn] at hloop
      simp only [if_neg hnil]
      exact hloop.mpr ⟨by simp [Selection.init], h⟩

/-- A number that is no `int` selects module 0. -/
theorem not_parseNumbersUserSelection_typed :
    ¬ ∀ buffer line, getInputFromStream buffer = some line →
      SelectsTyped line (parseNumbersUserSelection (some line)) := by
  intro h
  have hinput : getInputFromStream "4294967296\n".toList = some "4294967296".toList := by decide
  have hvalue : (4294967290 : Int) ∈
      (parseNumbersUserSelection (some "4294967296".toList)).selection.values := by
    decide +kernel
  have hin := (h _ _ hinput).inInt _ hvalue
  exact absurd hin.2 (by decide)

example : (parseNumbersUserSelection (some "4294967296".toList)).array = some [0] := by
  decide +kernel

end NemeaSupervisor
