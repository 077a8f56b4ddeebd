import NemeaSupervisor.LineReader

/-!
# Numbers selected by the user

What `parse_numbers_user_selection` makes of a line, with its arithmetic in 32 bits,
and the lines it is meant for: numbers and intervals joined with commas. The list
`values` keeps what `cur_num` and the loop over an interval come to before they are
cut to 32 bits.
-/

namespace NemeaSupervisor

open CText

def intMax : Int := 2147483647

/-- What an `int` keeps of a result. -/
def cInt (v : Int) : Int := v.bmod 4294967296

/-! ## The parser -/

/-- The variables of `parse_numbers_user_selection`. -/
structure Selection where
  isNum : Bool
  isInterval : Bool
  curNum : Int
  intervalBeg : Int
  moduleNums : List Int
  moduleNumsSize : Nat
  values : List Int
  deriving DecidableEq, Repr

def Selection.init : Selection := ⟨false, false, 0, 0, [], 10, []⟩

/-- `endless` stands for a loop `y <= cur_num` that no `int` ends. -/
inductive Selected where
  | returned
  | error
  | endless
  deriving DecidableEq, Repr

structure Parsed where
  selected : Selected
  selection : Selection
  deriving DecidableEq, Repr

/-- What is stored to `array`; the count returned with it is its length, or `RET_ERROR` with
NULL. -/
def Parsed.array (p : Parsed) : Option (List Int) :=
  if p.selected = .returned then some p.selection.moduleNums else none

/-- The integers from `beg` to `last`. -/
def intsTo (beg last : Int) : List Int :=
  (List.range (last + 1 - beg).toNat).map fun i : Nat => beg + i

namespace Selection

def digit (s : Selection) (c : Char) : Selection :=
  let times := s.curNum * 10
  let plus := cInt times + (c.toNat - '0'.toNat : Nat)
  { s with isNum := true, curNum := cInt plus, values := s.values ++ [times, plus] }

def dash (s : Selection) : Selection :=
  { s with isNum := false, isInterval := true, intervalBeg := s.curNum, curNum := 0 }

/-- A number that is not in the array yet; there is always room for one more. -/
def addNumber (s : Selection) (y : Int) : Selection :=
  if y ∈ s.moduleNums then s
  else
    { s with
      moduleNums := s.moduleNums ++ [y]
      moduleNumsSize :=
        if s.moduleNumsSize = s.moduleNums.length then s.moduleNumsSize + 20
        else s.moduleNumsSize }

/-- The interval in ascending order; a number is an interval of its own. -/
def bounds (s : Selection) : Int × Int :=
  if s.isInterval = false then (s.curNum, s.curNum)
  else if s.intervalBeg > s.curNum then (s.curNum, s.intervalBeg)
  else (s.intervalBeg, s.curNum)

/-- The loop over the interval, whose variable goes one beyond it. -/
def expand (s : Selection) : Selection :=
  let s := { s with values := s.values ++ intsTo s.bounds.1 (s.bounds.2 + 1) }
  { (intsTo s.bounds.1 s.bounds.2).foldl addNumber s with
    curNum := 0
    isNum := false
    isInterval := false
    intervalBeg := s.bounds.1 }

/-- The end of a turn, and what follows. -/
def addNumbers (s : Selection) (next : Selection → Parsed) : Parsed :=
  if s.bounds.2 = intMax then ⟨.endless, s.expand⟩ else next s.expand

end Selection

/-- The loop over the characters; the last one is where `rest` is empty. -/
def parseLoop : List Char → Selection → Parsed
  | [], s => ⟨.returned, s⟩
  | c :: rest, s =>
    if c.isDigit then
      if rest ≠ [] then parseLoop rest (s.digit c)
      else (s.digit c).addNumbers fun s => parseLoop rest s
    else if c = ',' then
      if rest = [] then ⟨.error, s⟩
      else if s.isNum = false then ⟨.error, s⟩
      else s.addNumbers fun s => parseLoop rest s
    else if c = '-' then
      if s.isNum = true ∧ s.isInterval = false then parseLoop rest s.dash else ⟨.error, s⟩
    else ⟨.error, s⟩

/-- `parse_numbers_user_selection` on what `get_input_from_stream` returns. -/
def parseNumbersUserSelection (input : Option (List Char)) : Parsed :=
  match input with
  | none => ⟨.error, .init⟩
  | some input => if input = [] then ⟨.error, .init⟩ else parseLoop input .init

example : (parseNumbersUserSelection (some "2,6-4,5".toList)).array = some [2, 4, 5, 6] := by decide

/-! ## The grammar -/

/-- Digits, at least one. -/
def Number (ds : List Char) : Prop := ds ≠ [] ∧ ∀ c ∈ ds, c.isDigit = true

/-- A number or an interval, with the numbers that it is written with. -/
inductive Item : List Char → Nat → Nat → Prop
  | number {ds : List Char} (h : Number ds) : Item ds (digitsValue ds) (digitsValue ds)
  | interval {first second : List Char} (h : Number first) (h' : Number second) :
    Item (first ++ '-' :: second) (digitsValue first) (digitsValue second)

/-- Items joined with commas, with what they are written with. -/
def Items (segs : List (List Char)) (ranges : List (Nat × Nat)) : Prop :=
  List.Forall₂ (fun seg r => Item seg r.1 r.2) segs ranges

/-- The integers of an interval, whichever of its ends comes first. -/
def interval (r : Nat × Nat) : List Int := intsTo (min r.1 r.2 : Nat) (max r.1 r.2 : Nat)

/-- The line is `item(,item)*` and stands for these integers, each once. -/
def Denotes (line : List Char) (nums : List Int) : Prop :=
  ∃ segs ranges, segs ≠ [] ∧ line = [','].intercalate segs ∧ Items segs ranges ∧
    nums = (ranges.flatMap interval).eraseDups

/-- A line of the grammar is answered with what it stands for, any other one with an error. -/
def FollowsGrammar (line : List Char) (p : Parsed) : Prop :=
  (∃ nums, Denotes line nums ∧ p.array = some nums) ∨
    (¬ ∃ nums, Denotes line nums) ∧ p.selected = .error

/-- The last item of the line is a number with a dash that nothing follows. -/
def Dangling (line : List Char) : Prop :=
  ∃ segs ranges ds, line = [','].intercalate (segs ++ [ds ++ ['-']]) ∧ Items segs ranges ∧ Number ds

/-- Every number in the line is below `INT_MAX`. -/
def NumbersBelow (line : List Char) : Prop :=
  ∀ ds, Number ds → ds <:+: line → digitsValue ds < 2147483647

/-! ## One item -/

/-- A turn of the loop over a character that belongs to an item. -/
def Selection.turn (s : Selection) (c : Char) : Selection :=
  if c.isDigit then s.digit c else s.dash

/-- The turns over the start of an item. -/
def Selection.read (s : Selection) (lead : List Char) : Selection := lead.foldl turn s

/-- Nothing of an item has been read. -/
structure Fresh (s : Selection) : Prop where
  isNum : s.isNum = false
  isInterval : s.isInterval = false
  curNum : s.curNum = 0

/-- The start of an item, with the flags that it leaves. -/
inductive Lead : List Char → Bool → Bool → Prop
  | start : Lead [] false false
  | number {ds : List Char} (h : Number ds) : Lead ds true false
  | dash {ds : List Char} (h : Number ds) : Lead (ds ++ ['-']) false true
  | interval {first second : List Char} (h : Number first) (h' : Number second) :
    Lead (first ++ '-' :: second) true true

/-- What follows the start of an item cannot be read as part of it. -/
def Stops (isNum isInterval : Bool) (rest : List Char) : Prop :=
  rest = [] ∨ ∃ c rest', rest = c :: rest' ∧ c.isDigit = false ∧
    ¬ (c = '-' ∧ isNum = true ∧ isInterval = false)

section item

variable {s : Selection} {ds first second lead rest seg : List Char} {c : Char}
  {isNum isInterval : Bool} {a b : Nat}

@[simp] theorem read_nil (s : Selection) : s.read [] = s := rfl

@[simp] theorem read_cons (s : Selection) (c : Char) (lead : List Char) :
    s.read (c :: lead) = (s.turn c).read lead := rfl

theorem read_append (s : Selection) (lead rest : List Char) :
    s.read (lead ++ rest) = (s.read lead).read rest := List.foldl_append

theorem isDigit_dash : ('-' : Char).isDigit = false := by decide
theorem isDigit_comma : (',' : Char).isDigit = false := by decide

theorem Number.append_digit (h : ∀ c ∈ ds, c.isDigit = true) (hc : c.isDigit = true) :
    Number (ds ++ [c]) := by
  refine ⟨by simp, fun d hd => ?_⟩
  rcases List.mem_append.mp hd with hd | hd
  · exact h d hd
  · rwa [List.mem_singleton.mp hd]

theorem Lead.digit (h : Lead lead isNum isInterval) (hc : c.isDigit = true) :
    Lead (lead ++ [c]) true isInterval := by
  have hone : Number ([] ++ [c]) := Number.append_digit (by simp) hc
  cases h with
  | start => exact .number hone
  | number h => exact .number (.append_digit h.2 hc)
  | dash h =>
    rw [List.append_assoc]
    exact .interval h hone
  | interval h h' =>
    rw [List.append_assoc, List.cons_append]
    exact .interval h (.append_digit h'.2 hc)

theorem Lead.dashed (h : Lead lead true false) : Lead (lead ++ ['-']) false true := by
  cases h with
  | number h => exact .dash h

/-- A part without commas is the start of an item and what stops it. -/
theorem exists_lead (seg : List Char) :
    ∃ lead isNum isInterval rest, Lead lead isNum isInterval ∧ seg = lead ++ rest ∧
      Stops isNum isInterval rest := by
  induction seg using List.reverseRecOn with
  | nil => exact ⟨[], false, false, [], .start, rfl, .inl rfl⟩
  | append_singleton seg c ih =>
    obtain ⟨lead, isNum, isInterval, rest, hlead, rfl, hstops⟩ := ih
    rcases hstops with rfl | ⟨d, rest, rfl, hd, hdash⟩
    · rw [List.append_nil]
      by_cases hc : c.isDigit = true
      · exact ⟨_, _, _, [], hlead.digit hc, by simp, .inl rfl⟩
      · by_cases hdash : c = '-' ∧ isNum = true ∧ isInterval = false
        · obtain ⟨rfl, rfl, rfl⟩ := hdash
          exact ⟨_, _, _, [], hlead.dashed, by simp, .inl rfl⟩
        · exact ⟨lead, _, _, [c], hlead, rfl, .inr ⟨c, [], rfl, by simpa using hc, hdash⟩⟩
    · exact ⟨lead, _, _, d :: (rest ++ [c]), hlead, by simp, .inr ⟨d, _, rfl, hd, hdash⟩⟩

theorem Item.asLead (h : Item seg a b) : ∃ isInterval, Lead seg true isInterval := by
  cases h with
  | number h => exact ⟨false, .number h⟩
  | interval h h' => exact ⟨true, .interval h h'⟩

theorem Lead.item (h : Lead seg true isInterval) : ∃ a b, Item seg a b := by
  cases h with
  | number h => exact ⟨_, _, .number h⟩
  | interval h h' => exact ⟨_, _, .interval h h'⟩

/-! ## The loop on one item -/

theorem read_digits_flags (h : Number ds) (s : Selection) :
    (s.read ds).isNum = true ∧ (s.read ds).isInterval = s.isInterval := by
  obtain ⟨hne, hdigits⟩ := h
  induction ds using List.reverseRecOn with
  | nil => exact absurd rfl hne
  | append_singleton ds c ih =>
    have hc : c.isDigit = true := hdigits c (by simp)
    rw [read_append, read_cons, read_nil, Selection.turn, if_pos hc]
    by_cases hnil : ds = []
    · subst hnil
      exact ⟨rfl, rfl⟩
    · exact ⟨rfl, (ih hnil fun d hd => hdigits d (by simp [hd])).2⟩

theorem read_dash (s : Selection) : s.read ['-'] = s.dash := rfl

theorem Lead.flags (h : Lead lead isNum isInterval) (hs : Fresh s) :
    (s.read lead).isNum = isNum ∧ (s.read lead).isInterval = isInterval := by
  cases h with
  | start => exact ⟨hs.isNum, hs.isInterval⟩
  | number h =>
    have hflags := read_digits_flags h s
    exact ⟨hflags.1, hflags.2.trans hs.isInterval⟩
  | dash h =>
    rw [read_append, read_dash]
    exact ⟨rfl, rfl⟩
  | interval h h' =>
    rw [read_append, read_cons]
    exact read_digits_flags h' _

theorem parseLoop_digits (h : ∀ c ∈ ds, c.isDigit = true) (hrest : rest ≠ []) :
    parseLoop (ds ++ rest) s = parseLoop rest (s.read ds) := by
  induction ds generalizing s with
  | nil => rfl
  | cons c ds ih =>
    obtain ⟨hc, hds⟩ := List.forall_mem_cons.mp h
    have hmore : ds ++ rest ≠ [] := by simp [hrest]
    rw [List.cons_append, parseLoop, if_pos hc, if_pos hmore, ih hds, read_cons, Selection.turn,
      if_pos hc]

theorem parseLoop_dash (hnum : s.isNum = true) (hinterval : s.isInterval = false) :
    parseLoop ('-' :: rest) s = parseLoop rest s.dash := by
  rw [parseLoop, if_neg (by decide), if_neg (by decide), if_pos rfl, if_pos ⟨hnum, hinterval⟩]

theorem Lead.loop (h : Lead lead isNum isInterval) (hs : Fresh s) (hrest : rest ≠ []) :
    parseLoop (lead ++ rest) s = parseLoop rest (s.read lead) := by
  cases h with
  | start => rfl
  | number h => exact parseLoop_digits h.2 hrest
  | dash h =>
    have hflags := read_digits_flags h s
    rw [List.append_assoc, parseLoop_digits h.2 (by simp), read_append]
    exact parseLoop_dash hflags.1 (hflags.2.trans hs.isInterval)
  | @interval first second h h' =>
    have hflags := read_digits_flags h s
    have hsecond : second ++ rest ≠ [] := by simp [hrest]
    rw [List.append_assoc, parseLoop_digits h.2 (by simp), List.cons_append,
      parseLoop_dash hflags.1 (hflags.2.trans hs.isInterval), parseLoop_digits h'.2 hrest,
      read_append, read_cons]
    rfl

/-- The last digit of the line ends the last item. -/
theorem parseLoop_last (h : Number ds) (s : Selection) :
    parseLoop ds s = (s.read ds).addNumbers fun s => ⟨.returned, s⟩ := by
  obtain ⟨hne, hdigits⟩ := h
  induction ds generalizing s with
  | nil => exact absurd rfl hne
  | cons c ds ih =>
    obtain ⟨hc, hds⟩ := List.forall_mem_cons.mp hdigits
    rw [parseLoop, if_pos hc, read_cons, Selection.turn, if_pos hc]
    by_cases hnil : ds = []
    · subst hnil
      rfl
    · rw [if_pos hnil, ih _ hnil hds]

theorem Lead.finish (h : Lead seg true isInterval) (hs : Fresh s) :
    parseLoop seg s = (s.read seg).addNumbers fun s => ⟨.returned, s⟩ := by
  cases h with
  | number h => exact parseLoop_last h s
  | interval h h' =>
    have hflags := read_digits_flags h s
    rw [parseLoop_digits h.2 (by simp), parseLoop_dash hflags.1 (hflags.2.trans hs.isInterval),
      parseLoop_last h', read_append, read_cons]
    rfl

theorem Lead.comma (h : Lead lead isNum isInterval) (hs : Fresh s) :
    parseLoop (lead ++ ',' :: rest) s =
      if rest = [] ∨ isNum = false then ⟨.error, s.read lead⟩
      else (s.read lead).addNumbers fun s => parseLoop rest s := by
  rw [h.loop hs (by simp), parseLoop, if_neg (by decide), if_pos rfl, (h.flags hs).1]
  by_cases hrest : rest = []
  · simp [hrest]
  · simp [hrest]

/-- What stops an item ends the loop. -/
theorem Lead.broken (h : Lead lead isNum isInterval) (hs : Fresh s) (hc : c.isDigit = false)
    (hcomma : c ≠ ',') (hdash : ¬ (c = '-' ∧ isNum = true ∧ isInterval = false)) :
    parseLoop (lead ++ c :: rest) s = ⟨.error, s.read lead⟩ := by
  obtain ⟨hnum, hinterval⟩ := h.flags hs
  rw [h.loop hs (by simp), parseLoop, if_neg (by simp [hc]), if_neg hcomma, hnum, hinterval]
  by_cases heq : c = '-'
  · rw [if_pos heq, if_neg fun hflags => hdash ⟨heq, hflags⟩]
  · rw [if_neg heq]

end item

end NemeaSupervisor
